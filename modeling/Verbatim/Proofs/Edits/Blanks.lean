import Mathlib.Data.List.Forall2
import Mathlib.Tactic.Tauto
import Verbatim.Edits.BlankLines
import Verbatim.Proofs.Languages
import Verbatim.Proofs.Printing.Laying
import Verbatim.Proofs.Text.Offsets
import Verbatim.Proofs.Text.Pieces
import Verbatim.Proofs.Traversal.Deciding
import Verbatim.Proofs.Traversal.Following
import Verbatim.Proofs.Tree.Views

/-! What is made of a tree when blank lines are clamped. Only the white space in front of
children is adjusted; whether and how, is seen from their kinds, texts and formatting, which the
walks of the children themselves leave alone. So a tree that has been walked is within all
limits. -/

namespace Verbatim

namespace BlankLines

/-! ## Adjusted children -/

/-- Bounds are seen from kinds and texts. -/
structure SameSign (first second : Node) : Prop where
  kind : first.kind = second.kind
  text : first.text = second.text

/-- What is adjusted is the formatting. -/
structure SameFace (first second : Node) : Prop extends SameSign first second where
  leading : first.leading = second.leading

namespace SameSign

variable {first second : Node} (same : SameSign first second)

include same

theorem is (kind : Kind) : first.is kind = second.is kind := by rw [Node.is, Node.is, same.kind]

theorem isPunctuation (text : String) : first.isPunctuation text = second.isPunctuation text := by
  rw [Node.isPunctuation, Node.isPunctuation, same.is, same.text]

end SameSign

/-- How children are bounded, by themselves and the siblings in front of them. -/
abbrev Limits := Node → Node → Bool → Option Bounds

def Limits.SeeSigns (limits : Limits) : Prop :=
  ∀ {previous other node next : Node} (last : Bool), SameSign previous other → SameSign node next →
    limits previous node last = limits other next last

def Bounds.Are (bounds : Bounds) (least most : UInt64 → Prop) : Prop :=
  least bounds.minimum ∧ most bounds.maximum

def Limits.Are (limits : Limits) (least most : UInt64 → Prop) : Prop :=
  ∀ (previous node : Node) (last : Bool) (bounds : Bounds),
    limits previous node last = some bounds → bounds.Are least most

/-- Below the greatest word. -/
def IsSmall (limit : UInt64) : Prop := limit.toNat < UInt64.size - 1

instance (limit : UInt64) : Decidable (IsSmall limit) := inferInstanceAs (Decidable (_ < _))

theorem Bounds.clamp_lt_size (bounds : Bounds) (count : Nat) :
    bounds.clamp count < UInt64.size := by
  have least := bounds.clamp_le count
  have minimum := bounds.minimum.toNat_lt_size
  have maximum := bounds.maximum.toNat_lt_size
  omega

/-- One line break more than the blank lines that are wanted can be counted. -/
def Bounds.HasRoom (bounds : Bounds) (leading : Trivia) : Prop :=
  bounds.clamp (leading.newlines - 1) + 1 < UInt64.size

theorem Bounds.Are.hasRoom {bounds : Bounds} (small : bounds.Are IsSmall IsSmall)
    (leading : Trivia) : bounds.HasRoom leading := by
  have least := bounds.clamp_le (leading.newlines - 1)
  simp only [Are, IsSmall, UInt64.size] at small
  rw [HasRoom, UInt64.size]
  omega

/-- A limit with which there are no more line breaks than fit into a text. -/
def IsShort (limit : UInt64) : Prop := limit.toNat < longestText

instance (limit : UInt64) : Decidable (IsShort limit) := inferInstanceAs (Decidable (_ < _))

theorem isSmall_zero : IsSmall 0 := by decide

theorem isShort_zero : IsShort 0 := by decide

/-- A maximum may be any word where the text is not too long itself: what it allows is there. -/
def IsShortFor (text : String) (limit : UInt64) : Prop :=
  IsShort limit ∨ text.utf8ByteSize ≤ longestText

theorem lineBreaks_eq (blank : Nat) : lineBreaks blank = (blank + 1) % UInt64.size := by
  simp [lineBreaks, UInt64.toNat_add]

theorem lineBreaks_le (blank : Nat) : lineBreaks blank ≤ blank + 1 := by
  rw [lineBreaks_eq]
  exact Nat.mod_le _ _

theorem lineBreaks_of_lt {blank : Nat} (room : blank + 1 < UInt64.size) :
    lineBreaks blank = blank + 1 := by
  rw [lineBreaks_eq, Nat.mod_eq_of_lt room]

theorem lineBreaks_cases {blank : Nat} (isWord : blank < UInt64.size) :
    lineBreaks blank = blank + 1 ∨ lineBreaks blank = 0 := by
  rw [lineBreaks_eq, UInt64.size]
  rw [UInt64.size] at isWord
  omega

theorem newlines_withBlankLines (count : Nat) (node : Node) :
    (withBlankLines count node).leading.map Trivia.newlines = some (lineBreaks count) := by
  have noneLeft := Text.not_mem_lastLine node.leadingOrEmpty.whitespace.toList
  simp only [withBlankLines, Node.withLeading, Option.map_some, Trivia.withWhitespace,
    Trivia.newlines, String.toList_ofList, List.count_append, List.count_replicate_self,
    List.count_eq_zero.2 noneLeft, Nat.add_zero]

theorem clamp_clamp (bounds : Bounds) (count : Nat) :
    bounds.clamp (bounds.clamp count) = bounds.clamp count := by
  unfold Bounds.clamp
  omega

theorem applyWanted_sameSign (wanted : Option Nat) (node : Node) :
    SameSign (applyWanted wanted node) node := by
  cases wanted <;> exact ⟨rfl, rfl⟩

theorem wantedBlankLines_eq_some_iff {bounds : Option Bounds} {node : Node} {count : Nat} :
    wantedBlankLines bounds node = some count ↔
      ∃ limits leading, bounds = some limits ∧ node.leading = some leading ∧ leading.newlines ≠ 0 ∧
        limits.clamp (leading.newlines - 1) = count ∧ count ≠ leading.newlines - 1 := by
  rw [wantedBlankLines]
  cases bounds with
  | none => simp
  | some limits =>
      cases node.leading with
      | none => simp
      | some leading =>
          simp only [Option.bind_eq_bind, Option.bind_some]
          constructor
          · intro wanted
            split at wanted
            · cases wanted
            next broken =>
              split at wanted
              · cases wanted
              next differs =>
                cases wanted
                exact ⟨limits, leading, rfl, rfl, broken, rfl, differs⟩
          · rintro ⟨_, _, ⟨⟩, ⟨⟩, broken, rfl, differs⟩
            rw [if_neg broken, if_neg differs]

theorem wantedBlankLines_applyWanted (bounds : Option Bounds) (node : Node) :
    wantedBlankLines bounds (applyWanted (wantedBlankLines bounds node) node) = none := by
  cases wanted : wantedBlankLines bounds node with
  | none => exact wanted
  | some count =>
      rcases wantedBlankLines_eq_some_iff.1 wanted with ⟨limits, leading, rfl, -, -, clamped, -⟩
      rcases Option.map_eq_some_iff.1 (newlines_withBlankLines count node) with ⟨new, isNew, lines⟩
      rw [Option.eq_none_iff_forall_ne_some]
      intro other again
      rcases wantedBlankLines_eq_some_iff.1 again with
        ⟨_, _, ⟨⟩, isLeading, broken, rfl, differs⟩
      rw [applyWanted, isNew] at isLeading
      have isWord : count < UInt64.size := clamped ▸ limits.clamp_lt_size _
      cases Option.some.inj isLeading
      rcases lineBreaks_cases isWord with stays | gone
      · rw [lines, stays, Nat.add_sub_cancel, ← clamped, clamp_clamp] at differs
        exact differs rfl
      · exact absurd (lines.trans gone) broken

theorem wantedBlankLines_of_leading {bounds : Option Bounds} {first second : Node}
    (same : first.leading = second.leading) :
    wantedBlankLines bounds first = wantedBlankLines bounds second := by
  rw [wantedBlankLines, wantedBlankLines, same]

theorem length_wantedAll (limits : Limits) (previous : Node) (nodes : List Node) :
    (wantedAll limits previous nodes).length = nodes.length := by
  induction nodes generalizing previous with
  | nil => rfl
  | cons node rest induction => rw [wantedAll, List.length_cons, induction, List.length_cons]

theorem mem_wantedAll {limits : Limits} {previous : Node} {nodes : List Node} {wanted : Option Nat}
    (member : wanted ∈ wantedAll limits previous nodes) :
    ∃ before last, ∃ node ∈ nodes, wanted = wantedBlankLines (limits before node last) node := by
  induction nodes generalizing previous with
  | nil => cases member
  | cons node rest induction =>
      rcases List.mem_cons.1 member with rfl | member
      · exact ⟨_, _, node, List.mem_cons_self, rfl⟩
      · rcases induction member with ⟨before, last, other, inside, same⟩
        exact ⟨before, last, other, List.mem_cons_of_mem _ inside, same⟩

theorem mem_applied {limits : Limits} {previous child : Node} {nodes : List Node}
    (member : child ∈ List.zipWith applyWanted (wantedAll limits previous nodes) nodes) :
    ∃ before last, ∃ node ∈ nodes,
      child = applyWanted (wantedBlankLines (limits before node last) node) node := by
  induction nodes generalizing previous with
  | nil =>
      rw [List.zipWith_nil_right] at member
      cases member
  | cons node rest induction =>
      rw [wantedAll, List.zipWith_cons_cons] at member
      rcases List.mem_cons.1 member with rfl | member
      · exact ⟨_, _, node, List.mem_cons_self, rfl⟩
      · rcases induction member with ⟨before, last, other, inside, same⟩
        exact ⟨before, last, other, List.mem_cons_of_mem _ inside, same⟩

def adjustedChildren (limits : Limits) : List Node → List Node
  | [] => []
  | first :: rest => first :: List.zipWith applyWanted (wantedAll limits first rest) rest

theorem mem_adjustedChildren {limits : Limits} {nodes : List Node} {child : Node}
    (member : child ∈ adjustedChildren limits nodes) :
    child ∈ nodes ∨ ∃ before last, ∃ node ∈ nodes,
      child = applyWanted (wantedBlankLines (limits before node last) node) node := by
  cases nodes with
  | nil => cases member
  | cons first rest =>
      rcases List.mem_cons.1 member with rfl | member
      · exact .inl List.mem_cons_self
      · rcases mem_applied member with ⟨before, last, node, inside, same⟩
        exact .inr ⟨before, last, node, List.mem_cons_of_mem first inside, same⟩

/-- The node with adjusted children, if any of them is out of bounds. -/
def adjusted (limits : Limits) (node : Node) : Option Node :=
  match node.children with
  | [] => none
  | first :: rest =>
    if (wantedAll limits first rest).all Option.isNone then none
    else some (node.withChildren (adjustedChildren limits (first :: rest)))

theorem wantedAll_of_adjusted {limits : Limits} (sees : limits.SeeSigns)
    {previous other : Node} {nodes others : List Node} (behind : SameSign other previous)
    (same : List.Forall₂ SameFace others
      (List.zipWith applyWanted (wantedAll limits previous nodes) nodes)) :
    (wantedAll limits other others).all Option.isNone = true := by
  induction nodes generalizing previous other others with
  | nil =>
      rw [List.zipWith_nil_right] at same
      cases same
      rfl
  | cons node rest induction =>
      rw [wantedAll, List.zipWith_cons_cons] at same
      rcases List.forall₂_cons_right_iff.1 same with ⟨next, left, face, later, rfl⟩
      have sign : SameSign next node :=
        ⟨face.kind.trans (applyWanted_sameSign _ node).kind,
          face.text.trans (applyWanted_sameSign _ node).text⟩
      have long : left.isEmpty = rest.isEmpty := by
        have length := later.length_eq
        rw [List.length_zipWith, length_wantedAll, Nat.min_self] at length
        rw [Bool.eq_iff_iff, List.isEmpty_iff_length_eq_zero, List.isEmpty_iff_length_eq_zero,
          length]
      rw [wantedAll, List.all_cons, Bool.and_eq_true]
      constructor
      · rw [long, sees rest.isEmpty behind sign, wantedBlankLines_of_leading face.leading,
          wantedBlankLines_applyWanted]
        rfl
      · exact induction sign later

theorem adjusted_eq_none {limits : Limits} (sees : limits.SeeSigns) {node other : Node}
    (same : List.Forall₂ SameFace other.children (adjustedChildren limits node.children)) :
    adjusted limits other = none := by
  rw [adjusted]
  cases before : node.children with
  | nil =>
      rw [before] at same
      cases isNil : other.children with
      | nil => rfl
      | cons first rest =>
          rw [isNil] at same
          cases same
  | cons first rest =>
      rw [before] at same
      rcases List.forall₂_cons_right_iff.1 same with ⟨next, left, face, later, equal⟩
      rw [equal]
      exact if_pos (wantedAll_of_adjusted sees face.toSameSign later)

theorem zipWith_applyWanted_of_none {wanted : List (Option Nat)} {nodes : List Node}
    (nothing : wanted.all Option.isNone = true) (long : wanted.length = nodes.length) :
    List.zipWith applyWanted wanted nodes = nodes := by
  induction nodes generalizing wanted with
  | nil => rw [List.zipWith_nil_right]
  | cons node rest induction =>
      cases wanted with
      | nil => cases long
      | cons count counts =>
          rw [List.all_cons, Bool.and_eq_true, Option.isNone_iff_eq_none] at nothing
          rw [List.zipWith_cons_cons, nothing.1, induction nothing.2 (Nat.succ.inj long)]
          rfl

theorem heightOfAll_adjustedChildren (limits : Limits) (nodes : List Node) :
    Node.heightOfAll (adjustedChildren limits nodes) = Node.heightOfAll nodes := by
  cases nodes with
  | nil => rfl
  | cons first rest =>
      have long := length_wantedAll limits first rest
      rw [adjustedChildren, Node.heightOfAll, Node.heightOfAll]
      generalize wantedAll limits first rest = wanted at long
      congr 1
      induction rest generalizing wanted with
      | nil => rw [List.zipWith_nil_right]
      | cons node rest induction =>
          cases wanted with
          | nil => cases long
          | cons count counts =>
              have height : (applyWanted count node).height = node.height := by
                rw [Node.height_eq, Node.height_eq]
                cases count <;> rfl
              rw [List.zipWith_cons_cons, Node.heightOfAll, Node.heightOfAll, height,
                induction counts (Nat.succ.inj long)]

theorem children_adjusted (limits : Limits) (node : Node) :
    ((adjusted limits node).getD node).children = adjustedChildren limits node.children := by
  rw [adjusted]
  cases children : node.children with
  | nil => exact children
  | cons first rest =>
      simp only
      split
      case isFalse => rfl
      case isTrue nothing =>
        rw [Option.getD_none, children, adjustedChildren,
          zipWith_applyWanted_of_none nothing (length_wantedAll limits first rest)]

/-! ## The visitor -/

variable (style : BlankLines)

def topLevel : Limits := fun previous node _ => style.topLevelBounds previous node

theorem topLevel_seesSigns : style.topLevel.SeeSigns := by
  intro previous other node next last behind here
  simp only [topLevel, topLevelBounds, behind.is, here.is]

theorem memberBounds_seesSigns : Limits.SeeSigns style.memberBounds := by
  intro previous other node next last behind here
  rw [memberBounds, memberBounds, here.is, here.text, behind.isPunctuation, around, around,
    around, around, behind.kind, here.kind]

/-- Blocks with members are those of classes and of the values of enumerations. -/
def holdsMembers (parent : Option Kind) : Bool :=
  parent.any fun kind => kind = .classDecl || kind = .enumValue

theorem any_holdsMembers (above : List Node) :
    (above.head?.any fun parent => parent.is .classDecl || parent.is .enumValue) =
      holdsMembers (above.head?.map (·.kind)) := by
  cases above <;> rfl

/-- The limits for the children of a node of a kind. -/
def limitsIn (parent : Option Kind) : Kind → Option Limits
  | .sourceFile => some style.topLevel
  | .block => if holdsMembers parent then some style.memberBounds else none
  | _ => none

theorem limitsIn_seesSigns {parent : Option Kind} {kind : Kind} {limits : Limits}
    (limited : style.limitsIn parent kind = some limits) : limits.SeeSigns := by
  rw [limitsIn.eq_def] at limited
  split at limited
  · cases limited
    exact style.topLevel_seesSigns
  · split at limited
    · cases limited
      exact style.memberBounds_seesSigns
    · cases limited
  · cases limited

/-- Other blocks are left alone with all that is in them. -/
def looks (parent : Option Kind) (node : Node) : Look :=
  ⟨(style.limitsIn parent node.kind).bind fun limits => adjusted limits node,
    node.kind ≠ .block || holdsMembers parent⟩

theorem height_changed_le (parent : Option Kind) (node new : Node)
    (changed : (style.looks parent node).changed = some new) : new.height ≤ node.height := by
  rcases Option.bind_eq_some_iff.1 changed with ⟨limits, -, isNew⟩
  have children := children_adjusted limits node
  rw [isNew, Option.getD_some] at children
  refine Nat.le_of_eq ?_
  rw [Node.height_eq new, children, heightOfAll_adjustedChildren, Node.height_eq node]

theorem height_getD_changed_le (parent : Option Kind) (node : Node) :
    ((style.looks parent node).changed.getD node).height ≤ node.height := by
  cases new : (style.looks parent node).changed with
  | none => exact Nat.le_refl _
  | some other => exact style.height_changed_le parent node other new

/-- The parameters of limits that are never asked for where there are fewer blank lines. -/
def maximums : List String := ["keepMaximumInDeclarations", "keepMaximumBeforeEndOfBlock"]

/-- All limits have the properties that are asked of minimums and of maximums. -/
def LimitsAre (least most : UInt64 → Prop) : Prop :=
  ∀ entry ∈ style.limits, if entry.1 ∈ maximums then most entry.2 else least entry.2

/-- No more line breaks are asked for than fit into a text. -/
def Fits (text : String) : Prop := style.LimitsAre IsShort (IsShortFor text)

/-- No limit is the greatest word. -/
def HasRoom : Prop := style.LimitsAre IsSmall IsSmall

variable {style}

theorem limitsAre_iff {least most : UInt64 → Prop} : style.LimitsAre least most ↔
    (most style.keepMaximumInDeclarations ∧ most style.keepMaximumBeforeEndOfBlock) ∧
      least style.minimumAfterPackage ∧ least style.minimumAfterImports ∧
      least style.minimumAroundClass ∧ least style.minimumAfterClassHeader ∧
      least style.minimumAroundField ∧ least style.minimumAroundMethod ∧
      least style.minimumAroundInitializer := by
  simp [LimitsAre, limits, maximums, and_assoc]

theorem hasRoom_standard : standard.HasRoom := by
  rw [HasRoom, limitsAre_iff]
  decide

theorem fits_standard (text : String) : standard.Fits text := by
  have short : standard.LimitsAre IsShort IsShort := by
    rw [limitsAre_iff]
    decide
  rw [limitsAre_iff] at short
  rw [Fits, limitsAre_iff]
  exact ⟨⟨.inl short.1.1, .inl short.1.2⟩, short.2⟩

section

variable {least most : UInt64 → Prop} (are : style.LimitsAre least most) (zero : least 0)

include are zero

theorem LimitsAre.topLevel : style.topLevel.Are least most := by
  intro previous node last bounds bounded
  rw [limitsAre_iff] at are
  rw [BlankLines.topLevel, topLevelBounds] at bounded
  split at bounded
  · cases bounded
  · cases bounded
    refine ⟨?_, are.1.1⟩
    simp only
    repeat' split
    all_goals tauto

theorem LimitsAre.memberBounds : Limits.Are style.memberBounds least most := by
  intro previous node last bounds bounded
  rw [limitsAre_iff] at are
  have around (node : Node) : least (style.around node) := by
    rw [BlankLines.around]
    split <;> tauto
  rw [BlankLines.memberBounds] at bounded
  split at bounded
  · cases bounded
    exact ⟨zero, are.1.2⟩
  · split at bounded
    · cases bounded
    · cases bounded
      refine ⟨?_, are.1.1⟩
      simp only
      split
      · tauto
      · rw [UInt64.max_def]
        split
        · exact around previous
        · exact around node

end

/-! ## Where nothing grows too long -/

/-- Unless the text is longer than any text can be, no more line breaks stand in front of a node
than fit into one. -/
def Short (text : String) (node : Node) : Prop :=
  text.utf8ByteSize ≤ longestText → node.Everywhere fun part =>
    ∀ leading, part.leading = some leading → leading.newlines ≤ longestText

theorem newlines_le_size (leading : Trivia) : leading.newlines ≤ leading.text.utf8ByteSize := by
  have breaks : leading.newlines ≤ leading.whitespace.utf8ByteSize := by
    apply Nat.le_trans List.count_le_length
    rw [String.length_toList]
    exact Text.length_le_utf8ByteSize _
  rw [Trivia.text, Trivia.pieces, String.join_cons, String.utf8ByteSize_append]
  exact Nat.le_trans breaks (Nat.le_add_right ..)

theorem everywhere_newlines_le {node : Node} {most : Nat}
    (fits : node.written.utf8ByteSize ≤ most) : node.Everywhere fun part =>
      ∀ leading, part.leading = some leading → leading.newlines ≤ most := by
  induction node using Node.induction with
  | step node induction =>
      rcases node with ⟨head, children⟩
      rw [Node.written] at fits
      simp only [String.utf8ByteSize_append] at fits
      refine Node.everywhere_iff.2 ⟨fun leading isLeading => ?_, fun child member => ?_⟩
      · have own : head.leading = some leading := isLeading
        rw [own, Option.getD_some] at fits
        have breaks := newlines_le_size leading
        omega
      · apply induction child member
        rcases List.append_of_mem member with ⟨before, after, equal⟩
        have whole : children = before ++ child :: after := equal
        rw [whole, Node.writtenOfAll_append, Node.writtenOfAll, String.utf8ByteSize_append,
          String.utf8ByteSize_append] at fits
        omega

theorem short_of_readFrom {text : String} {read : Node} (readFrom : read.ReadFrom text)
    (first : Nat) : Short text (read.number first).1 := by
  intro fits
  apply everywhere_newlines_le
  rw [← Node.written_content, Node.content_number, Node.written_content, readFrom.written]
  exact fits

theorem Short.child {text : String} {node child : Node} (short : Short text node)
    (member : child ∈ node.children) : Short text child :=
  fun fits => (short fits).child member

theorem lineBreaks_le_longestText {text : String} {bounds : Bounds} {node : Node} {count : Nat}
    (fit : bounds.Are IsShort (IsShortFor text)) (short : Short text node)
    (wanted : wantedBlankLines (some bounds) node = some count) :
    lineBreaks count ≤ longestText := by
  rcases wantedBlankLines_eq_some_iff.1 wanted with ⟨_, leading, ⟨⟩, isLeading, broken, rfl, -⟩
  apply Nat.le_trans (lineBreaks_le _)
  have there : text.utf8ByteSize ≤ longestText → leading.newlines ≤ longestText :=
    fun fits => (short fits).here leading isLeading
  simp only [Bounds.Are, IsShort, IsShortFor] at fit
  unfold Bounds.clamp
  omega

theorem short_applyWanted {text : String} {bounds : Option Bounds} {node : Node}
    (fit : ∀ limits, bounds = some limits → limits.Are IsShort (IsShortFor text))
    (short : Short text node) :
    Short text (applyWanted (wantedBlankLines bounds node) node) := by
  cases wanted : wantedBlankLines bounds node with
  | none => exact short
  | some count =>
      intro fits
      refine Node.everywhere_iff.2 ⟨fun leading isLeading => ?_, fun child => (short fits).child⟩
      rcases wantedBlankLines_eq_some_iff.1 wanted with ⟨limits, -, rfl, -⟩
      have lines := newlines_withBlankLines count node
      rw [applyWanted] at isLeading
      rw [isLeading, Option.map_some, Option.some.injEq] at lines
      rw [lines]
      exact lineBreaks_le_longestText (fit limits rfl) short wanted

theorem adjust_eq {text : String} {limits : Limits} (fit : limits.Are IsShort (IsShortFor text))
    {node : Node} (short : Short text node) :
    adjust limits node = (return (Look.mk (adjusted limits node) true).visit) := by
  rw [adjust, adjusted]
  cases children : node.children with
  | nil => rfl
  | cons first rest =>
      have fine : ((wantedAll limits first rest).any fun count =>
          count.any (longestText < lineBreaks ·)) = false := by
        rw [List.any_eq_false]
        intro wanted member
        rcases mem_wantedAll member with ⟨before, last, here, inside, rfl⟩
        have below : Short text here :=
          short.child (children ▸ List.mem_cons_of_mem first inside)
        cases bounded : limits before here last with
        | none => exact Bool.false_ne_true
        | some bounds =>
            cases wanted : wantedBlankLines (some bounds) here with
            | none => exact Bool.false_ne_true
            | some count =>
                simpa using
                  lineBreaks_le_longestText (fit before here last bounds bounded) below wanted
      simp only [fine, Bool.false_eq_true, if_false]
      split <;> rfl

section

variable {text : String} (fits : style.Fits text)

include fits

theorem limitsIn_fit {parent : Option Kind} {kind : Kind} {limits : Limits}
    (limited : style.limitsIn parent kind = some limits) :
    limits.Are IsShort (IsShortFor text) := by
  rw [limitsIn.eq_def] at limited
  split at limited
  · cases limited
    exact LimitsAre.topLevel fits isShort_zero
  · split at limited
    · cases limited
      exact LimitsAre.memberBounds fits isShort_zero
    · cases limited
  · cases limited

theorem short_changed (parent : Option Kind) {node : Node} (short : Short text node) :
    ∀ child ∈ ((style.looks parent node).changed.getD node).children, Short text child := by
  intro child member
  rw [looks] at member
  cases limited : style.limitsIn parent node.kind with
  | none =>
      rw [limited] at member
      exact short.child member
  | some limits =>
      rw [limited, Option.bind_some, children_adjusted] at member
      rcases mem_adjustedChildren member with kept | ⟨before, last, other, inside, rfl⟩
      · exact short.child kept
      · exact short_applyWanted
          (fun bounds bounded => limitsIn_fit fits limited _ _ _ bounds bounded)
          (short.child inside)

theorem decides : style.visitor.DecidesOn (Short text) style.looks where
  visit node above session short := by
    show (style.visit node ⟨node, above⟩).run.run session = _
    rw [visit, looks]
    cases node.kind with
    | sourceFile =>
        have adjusts : adjust (fun previous child _ => style.topLevelBounds previous child) node =
            _ := adjust_eq (LimitsAre.topLevel fits isShort_zero) short
        simp only [adjusts]
        rfl
    | block =>
        have adjusts := adjust_eq (LimitsAre.memberBounds fits isShort_zero) short
        simp only [adjusts, limitsIn]
        show (if (above.head?.any fun parent => parent.is .classDecl || parent.is .enumValue) then
            return (Look.mk (adjusted style.memberBounds node) true).visit
          else return .skip : HookM Visit) ⟨node, above⟩ session = _
        rw [any_holdsMembers]
        cases holdsMembers (above.head?.map (·.kind)) <;> rfl
    | _ => rfl
  leave _ _ _ := rfl
  height_le := style.height_changed_le
  child parent _ := short_changed fits parent

end

/-! ## Once is enough -/

theorem head_changed (parent : Option Kind) (node : Node) :
    ({ ((style.looks parent node).changed.getD node).toNodeHead with origin := none } : NodeHead) =
      { node.toNodeHead with origin := none } := by
  rw [looks]
  cases style.limitsIn parent node.kind with
  | none => rfl
  | some limits =>
      rw [Option.bind_some, adjusted]
      split
      · rfl
      · split <;> rfl

theorem sameFace_become (depth : Nat) (parent : Option Kind) (node : Node) :
    SameFace ((Look.become style.looks depth parent node).getD node) node := by
  cases depth with
  | zero => exact ⟨⟨rfl, rfl⟩, rfl⟩
  | succ depth =>
      have head := (@Look.head_become style.looks depth parent node _ rfl).trans
        (head_changed parent node)
      exact ⟨⟨congrArg (·.kind) head, congrArg (·.text) head⟩, congrArg (·.leading) head⟩

theorem changed_eq_none {depth : Nat} {parent : Option Kind} {node left : Node}
    (isLeft : left = (Look.become style.looks (depth + 1) parent node).getD node) :
    (style.looks parent left).changed = none := by
  have kind : left.kind = node.kind := isLeft ▸ (sameFace_become (depth + 1) parent node).kind
  rw [looks, kind]
  cases limited : style.limitsIn parent node.kind with
  | none => rfl
  | some limits =>
      have looked : style.looks parent node = ⟨adjusted limits node,
          (style.looks parent node).descends⟩ := by
        rw [looks, limited, Option.bind_some]
      apply adjusted_eq_none (style.limitsIn_seesSigns limited)
      rw [isLeft, ← children_adjusted]
      cases descends : (style.looks parent node).descends with
      | false =>
          rw [Look.children_become_of_skips depth looked descends]
          exact List.forall₂_same.2 fun child _ => ⟨⟨rfl, rfl⟩, rfl⟩
      | true =>
          rw [Look.children_become depth looked descends, List.forall₂_map_left_iff]
          exact List.forall₂_same.2 fun child _ => sameFace_become depth _ child

theorem quiet_become {depth : Nat} {node : Node} (parent : Option Kind)
    (fit : node.height ≤ depth) :
    Look.Quiet style.looks parent ((Look.become style.looks depth parent node).getD node) := by
  induction depth generalizing node parent with
  | zero => exact absurd node.height_pos (Nat.not_lt.2 fit)
  | succ depth induction =>
      generalize isLeft : (Look.become style.looks (depth + 1) parent node).getD node = left
      have kind : left.kind = node.kind := isLeft ▸ (sameFace_become (depth + 1) parent node).kind
      refine .quiet (changed_eq_none isLeft.symm) fun descends child member => ?_
      have descended : (style.looks parent node).descends = true := by
        rw [← descends, looks, looks, kind]
      rw [← isLeft, Look.children_become depth rfl descended] at member
      rcases List.mem_map.1 member with ⟨before, inside, rfl⟩
      have sameKind := congrArg (·.kind) (@head_changed style parent node)
      simp only at sameKind
      rw [kind, ← sameKind]
      apply induction
      have low := Nat.le_trans (style.height_getD_changed_le parent node) fit
      exact Nat.le_of_lt_succ (Nat.lt_of_lt_of_le (Node.height_lt_of_mem inside) low)

theorem short_become {text : String} (fits : style.Fits text) {depth : Nat} {node : Node}
    (parent : Option Kind) (short : Short text node) :
    Short text ((Look.become style.looks depth parent node).getD node) := by
  induction depth generalizing node parent with
  | zero => exact short
  | succ depth induction =>
      intro small
      have face := @sameFace_become style (depth + 1) parent node
      refine Node.everywhere_iff.2 ⟨fun leading isLeading => ?_, fun child member => ?_⟩
      · exact (short small).here leading (face.leading ▸ isLeading)
      · have below := short_changed fits parent short
        cases descends : (style.looks parent node).descends with
        | false =>
            rw [Look.children_become_of_skips depth rfl descends] at member
            exact below child member small
        | true =>
            rw [Look.children_become depth rfl descends] at member
            rcases List.mem_map.1 member with ⟨before, inside, rfl⟩
            exact induction _ (below before inside) small

variable (style)

/-! ## Every style -/

theorem adjust_answers {limits : Limits} {node : Node} {trail : Trail} {session after : Session}
    {answer : Visit} (answered : (adjust limits node trail).run.run session = (.ok answer, after)) :
    (answer, after) = ((Look.mk (adjusted limits node) true).visit, session) := by
  rw [adjust] at answered
  rw [adjusted]
  cases children : node.children with
  | nil =>
      rw [children] at answered
      cases answered
      rfl
  | cons first rest =>
      rw [children] at answered
      simp only at answered ⊢
      split at answered
      · cases answered
      · split at answered
        next nothing =>
          rw [if_pos nothing]
          cases answered
          rfl
        next something =>
          rw [if_neg something]
          cases answered
          rfl

theorem follows : (Visitor.looking style.looks).Follows style.visitor where
  visit {node trail session after answer} answered := by
    have visited : (style.visit node trail).run.run session = (.ok answer, after) := answered
    have looked : (answer, after) =
        ((style.looks (trail.above.head?.map (·.kind)) node).visit, session) := by
      rw [visit] at visited
      rw [looks]
      revert visited
      cases node.kind with
      | sourceFile => exact adjust_answers
      | block =>
          intro visited
          rw [limitsIn]
          have answers : ((if (trail.above.head?.any fun parent =>
              parent.is .classDecl || parent.is .enumValue) then adjust style.memberBounds node
            else return .skip : HookM Visit) trail).run.run session = (.ok answer, after) := visited
          rw [any_holdsMembers] at answers
          cases members : holdsMembers (trail.above.head?.map (·.kind)) with
          | true =>
              rw [members] at answers
              exact adjust_answers answers
          | false =>
              rw [members] at answers
              cases answers
              rfl
      | _ =>
          rintro ⟨⟩
          rfl
    rcases Prod.mk.inj looked with ⟨rfl, rfl⟩
    rfl
  leave answered := answered

theorem become_of_walked {limits : WalkLimits} {root : Node} {session : Session}
    {changed : Option Node} (walked : (walk style.visitor limits root session).1 = .ok changed) :
    changed = Look.become style.looks (root.height + limits.spareDepth) none root :=
  become_of_walk style.follows style.height_changed_le walked

/-! ## All but the formatting -/

theorem unlaid_withBlankLines (count : Nat) (node : Node) :
    (withBlankLines count node).unlaid = node.unlaid := by
  obtain ⟨head, children⟩ := node
  rw [withBlankLines, Node.withLeading, Node.unlaid_mk, Node.unlaid_mk]

theorem map_unlaid_wantedAll (limits : Limits) (previous : Node) (nodes : List Node) :
    (List.zipWith applyWanted (wantedAll limits previous nodes) nodes).map Node.unlaid =
      nodes.map Node.unlaid := by
  induction nodes generalizing previous with
  | nil => rfl
  | cons node rest induction =>
      have here (wanted : Option Nat) : (applyWanted wanted node).unlaid = node.unlaid := by
        cases wanted with
        | none => rfl
        | some count => exact unlaid_withBlankLines count node
      rw [wantedAll, List.zipWith_cons_cons, List.map_cons, List.map_cons, here, induction]

theorem map_unlaid_changed (parent : Option Kind) (node : Node) :
    ((style.looks parent node).changed.getD node).children.map Node.unlaid =
      node.children.map Node.unlaid := by
  rw [looks]
  cases style.limitsIn parent node.kind with
  | none => rfl
  | some limits =>
      rw [Option.bind_some, children_adjusted]
      cases node.children with
      | nil => rfl
      | cons first rest =>
          rw [adjustedChildren, List.map_cons, List.map_cons, map_unlaid_wantedAll]

theorem unlaid_become (depth : Nat) (parent : Option Kind) (node : Node) :
    ((Look.become style.looks depth parent node).getD node).unlaid = node.unlaid := by
  induction depth generalizing parent node with
  | zero => rfl
  | succ depth induction =>
      generalize isLeft : (Look.become style.looks (depth + 1) parent node).getD node = left
      have head : ({ left.toNodeHead with origin := none } : NodeHead) =
          { node.toNodeHead with origin := none } := by
        rw [← isLeft]
        exact (Look.head_become depth rfl).trans (head_changed parent node)
      have children : left.children.map Node.unlaid = node.children.map Node.unlaid := by
        rw [← isLeft]
        cases descends : (style.looks parent node).descends with
        | false =>
            rw [Look.children_become_of_skips depth rfl descends]
            exact style.map_unlaid_changed parent node
        | true =>
            rw [Look.children_become depth rfl descends, List.map_map,
              ← style.map_unlaid_changed parent node]
            exact List.map_congr_left fun child _ => induction _ child
      rw [Node.unlaid_eq, Node.unlaid_eq, children]
      congr 1
      exact congrArg (fun head => { head with leading := none }) head

end BlankLines

end Verbatim
