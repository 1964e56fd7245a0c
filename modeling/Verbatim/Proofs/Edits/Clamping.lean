import Verbatim.Proofs.Edits.Spacing
import Verbatim.Proofs.Java.Blocks
import Verbatim.Proofs.Traversal.Following
import Verbatim.Proofs.Tree.Paths

/-! Where blank lines are clamped, and to what. Which bounds hold in front of a node is told by
its path in the tree before the walk: what is done to nodes above and beside it changes no kinds
and no texts. In files the bounded places are those between declarations, since no block that a
walk skips holds any. -/

namespace Verbatim

namespace BlankLines

open Node

variable (style : BlankLines)

/-! ## Bounds by paths -/

/-- The node with as many blank lines in front of it as its bounds allow. -/
def settled (bounds : Option Bounds) (node : Node) : Node :=
  applyWanted (wantedBlankLines bounds node) node

/-- The bounds of the child with a number. The first child has none. -/
def childBounds (parent : Option Kind) (node : Node) : Nat → Option Bounds
  | 0 => none
  | number + 1 => do
    let limits ← style.limitsIn parent node.kind
    let previous ← node.children[number]?
    let child ← node.children[number + 1]?
    limits previous child (number + 2 = node.children.length)

/-- The bounds of the node at a path, as far as a walk comes. -/
def boundsAt : Option Kind → Node → List Nat → Option Bounds
  | _, _, [] => none
  | parent, node, [number] => style.childBounds parent node number
  | parent, node, number :: next :: path =>
    if (style.looks parent node).descends then
      node.children[number]?.bind fun child => boundsAt (some node.kind) child (next :: path)
    else none

theorem getElem?_wantedAll (limits : Limits) (previous : Node) (nodes : List Node) (number : Nat) :
    (wantedAll limits previous nodes)[number]? = nodes[number]?.map fun child =>
      wantedBlankLines ((previous :: nodes)[number]?.bind fun before =>
        limits before child (number + 1 = nodes.length)) child := by
  induction nodes generalizing previous number with
  | nil => rfl
  | cons node rest induction =>
      rw [wantedAll]
      cases number with
      | zero =>
          have last : rest.isEmpty = decide (0 + 1 = (node :: rest).length) := by
            cases rest <;> simp
          rw [last]
          rfl
      | succ number =>
          rw [List.getElem?_cons_succ, induction, List.getElem?_cons_succ, List.getElem?_cons_succ]
          simp only [List.length_cons, Nat.add_right_cancel_iff]

theorem getElem?_adjustedChildren (limits : Limits) (nodes : List Node) (number : Nat) :
    (adjustedChildren limits nodes)[number]? = nodes[number]?.map fun child =>
      settled (match number with
        | 0 => none
        | number + 1 => nodes[number]?.bind fun previous =>
          limits previous child (number + 2 = nodes.length)) child := by
  cases nodes with
  | nil => rfl
  | cons first rest =>
      rw [adjustedChildren]
      cases number with
      | zero => rfl
      | succ number =>
          rw [List.getElem?_cons_succ, List.getElem?_cons_succ, List.getElem?_zipWith,
            getElem?_wantedAll]
          cases rest[number]? with
          | none => rfl
          | some child => simp [settled]

theorem getElem?_changed (parent : Option Kind) (node : Node) (number : Nat) :
    ((style.looks parent node).changed.getD node).children[number]? =
      node.children[number]?.map fun child =>
        settled (style.childBounds parent node number) child := by
  rw [looks]
  cases limited : style.limitsIn parent node.kind with
  | none =>
      have free : style.childBounds parent node number = none := by
        cases number <;> simp [childBounds, limited]
      rw [free]
      exact Option.map_id'.symm
  | some limits =>
      rw [Option.bind_some, children_adjusted, getElem?_adjustedChildren]
      cases isChild : node.children[number]? with
      | none => rfl
      | some child =>
          cases number with
          | zero => rfl
          | succ number => simp [childBounds, limited, isChild]

/-! Settling a node changes its formatting only. -/

section

variable (bounds : Option Bounds) (node : Node)

@[simp] theorem kind_settled : (settled bounds node).kind = node.kind :=
  (applyWanted_sameSign _ node).kind

@[simp] theorem children_settled : (settled bounds node).children = node.children := by
  rw [settled]
  cases wantedBlankLines bounds node <;> rfl

theorem height_settled : (settled bounds node).height = node.height := by
  rw [height_eq, height_eq, children_settled]

end

theorem childBounds_settled (bounds : Option Bounds) (parent : Option Kind) (node : Node)
    (number : Nat) :
    style.childBounds parent (settled bounds node) number =
      style.childBounds parent node number := by
  cases number <;> simp [childBounds]

theorem boundsAt_settled (bounds : Option Bounds) (parent : Option Kind) (node : Node)
    (path : List Nat) :
    style.boundsAt parent (settled bounds node) path = style.boundsAt parent node path := by
  match path with
  | [] => rfl
  | [number] => exact style.childBounds_settled bounds parent node number
  | number :: next :: path =>
      rw [boundsAt, boundsAt, looks, looks]
      simp only [kind_settled, children_settled]

theorem descendant?_settled (bounds : Option Bounds) (node : Node)
    (number : Nat) (path : List Nat) :
    (settled bounds node).descendant? (number :: path) = node.descendant? (number :: path) := by
  rw [descendant?, descendant?, children_settled]

theorem limitsIn_of_skips {parent : Option Kind} {node : Node}
    (skips : (style.looks parent node).descends = false) :
    style.limitsIn parent node.kind = none := by
  simp only [looks, decide_not, Bool.or_eq_false_iff, Bool.not_eq_false',
    decide_eq_true_eq] at skips
  rw [limitsIn.eq_def, skips.1, skips.2]
  rfl

theorem changed_of_skips {parent : Option Kind} {node : Node}
    (skips : (style.looks parent node).descends = false) :
    (style.looks parent node).changed = none := by
  rw [looks, style.limitsIn_of_skips skips]
  rfl

theorem boundsAt_of_skips {parent : Option Kind} {node : Node} {path : List Nat}
    (skips : (style.looks parent node).descends = false) :
    style.boundsAt parent node path = none := by
  match path with
  | [] => rfl
  | [0] => rfl
  | [_ + 1] => simp [boundsAt, childBounds, style.limitsIn_of_skips skips]
  | _ :: _ :: _ => simp [boundsAt, skips]

/-! ## After a walk -/

/-- After a walk every node has the formatting that is settled by its bounds. -/
theorem leading_become {depth : Nat} (parent : Option Kind) {node : Node}
    (fit : node.height ≤ depth)
    (path : List Nat) :
    (((Look.become style.looks depth parent node).getD node).descendant? path).map (·.leading) =
      (node.descendant? path).map fun old =>
        (settled (style.boundsAt parent node path) old).leading := by
  induction path generalizing depth parent node with
  | nil => exact congrArg some (sameFace_become depth parent node).leading
  | cons number path induction =>
      cases depth with
      | zero => exact absurd node.height_pos (Nat.not_lt.2 fit)
      | succ depth =>
          rw [descendant?, descendant?]
          cases descends : (style.looks parent node).descends with
          | false =>
              rw [Look.children_become_of_skips depth rfl descends, style.changed_of_skips descends,
                style.boundsAt_of_skips descends]
              rfl
          | true =>
              have kind : ((style.looks parent node).changed.getD node).kind = node.kind :=
                congrArg (·.kind) (head_changed parent node)
              rw [Look.children_become depth rfl descends, kind, List.getElem?_map,
                getElem?_changed]
              cases isChild : node.children[number]? with
              | none => rfl
              | some child =>
                  have lower : (settled (style.childBounds parent node number) child).height ≤
                      depth := by
                    rw [height_settled]
                    exact Nat.le_of_lt_succ (Nat.lt_of_lt_of_le
                      (height_lt_of_mem (List.mem_of_getElem? isChild)) fit)
                  have below := induction (some node.kind) lower
                  simp only [Option.map_some, Option.bind_some]
                  rw [below]
                  cases path with
                  | nil => rfl
                  | cons next path =>
                      rw [descendant?_settled, boundsAt_settled, boundsAt, descends, isChild]
                      rfl

theorem leading_settled_eq_iff (bounds : Option Bounds) (node : Node) :
    (settled bounds node).leading = node.leading ↔ wantedBlankLines bounds node = none := by
  constructor
  · intro same
    rw [Option.eq_none_iff_forall_ne_some]
    intro count wanted
    rcases wantedBlankLines_eq_some_iff.1 wanted with
      ⟨limits, leading, -, isLeading, broken, clamped, differs⟩
    have lines := newlines_withBlankLines count node
    rw [settled, wanted] at same
    rw [show (withBlankLines count node).leading = node.leading from same, isLeading,
      Option.map_some, Option.some.injEq] at lines
    have isWord : count < UInt64.size := clamped ▸ limits.clamp_lt_size _
    rcases lineBreaks_cases isWord with stays | gone
    · omega
    · omega
  · intro nothing
    rw [settled, nothing]
    rfl

theorem quiet_of_settled {parent : Option Kind} {node : Node}
    (nothing : ∀ path old, node.descendant? path = some old →
      wantedBlankLines (style.boundsAt parent node path) old = none) :
    Look.Quiet style.looks parent node := by
  induction node using Node.induction generalizing parent with
  | step node induction =>
      refine .quiet ?_ fun descends child member => induction child member fun path old found => ?_
      · rw [looks]
        cases limited : style.limitsIn parent node.kind with
        | none => rfl
        | some limits =>
            rw [Option.bind_some, adjusted]
            cases children : node.children with
            | nil => rfl
            | cons first rest =>
                refine if_pos (List.all_eq_true.2 fun wanted member => ?_)
                rcases List.getElem?_of_mem member with ⟨number, isWanted⟩
                rw [getElem?_wantedAll, Option.map_eq_some_iff] at isWanted
                rcases isWanted with ⟨child, isChild, rfl⟩
                have here := nothing [number + 1] child (by simp [descendant?, children, isChild])
                simpa [boundsAt, childBounds, limited, children, isChild] using here
      · cases path with
        | nil => rfl
        | cons next path =>
            rcases List.getElem?_of_mem member with ⟨number, isChild⟩
            have below := nothing (number :: next :: path) old
              (by rw [descendant?, isChild]; exact found)
            rwa [boundsAt, descends, isChild] at below

theorem become_eq_none_iff {depth : Nat} {parent : Option Kind} {node : Node}
    (fit : node.height ≤ depth) :
    Look.become style.looks depth parent node = none ↔
      ∀ path old, node.descendant? path = some old →
        wantedBlankLines (style.boundsAt parent node path) old = none := by
  constructor
  · intro nothing path old found
    have same := style.leading_become parent fit path
    rw [nothing, Option.getD_none, found, Option.map_some, Option.map_some,
      Option.some.injEq] at same
    exact (leading_settled_eq_iff _ _).1 same.symm
  · exact fun nothing => Look.become_of_quiet (style.quiet_of_settled nothing) depth

/-! ## Places between declarations -/

/-- The bounds at a path: behind the first child of a file, or behind the brace that opens the
body of a class or of a value, wherever in the tree it stands. -/
inductive Bounded (root : Node) : List Nat → Bounds → Prop
  | topLevel {number : Nat} {previous node : Node} {bounds : Bounds}
      (isFile : root.kind = .sourceFile)
      (behind : root.children[number]? = some previous)
      (here : root.children[number + 1]? = some node)
      (bounded : style.topLevelBounds previous node = some bounds) :
      Bounded root [number + 1] bounds
  | member {path : List Nat} {place number : Nat} {owner block previous node : Node}
      {bounds : Bounds}
      (isOwner : root.descendant? path = some owner) (owns : Java.ownsMembers owner.kind = true)
      (isBody : owner.children[place]? = some block) (isBlock : block.kind = .block)
      (behind : block.children[number]? = some previous)
      (here : block.children[number + 1]? = some node)
      (bounded : style.memberBounds previous node (number + 2 = block.children.length) =
        some bounds) :
      Bounded root (path ++ [place, number + 1]) bounds

variable {style}

theorem Bounded.hasRoom {root : Node} {path : List Nat} {bounds : Bounds}
    (bounded : style.Bounded root path bounds) (room : style.HasRoom) (leading : Trivia) :
    bounds.HasRoom leading := by
  apply Bounds.Are.hasRoom
  cases bounded with
  | topLevel _ _ _ bounded => exact LimitsAre.topLevel room isSmall_zero _ _ false _ bounded
  | member _ _ _ _ _ _ bounded => exact LimitsAre.memberBounds room isSmall_zero _ _ _ _ bounded

theorem childBounds_eq_some_iff {parent : Option Kind} {node : Node}
    {number : Nat} {bounds : Bounds} :
    style.childBounds parent node number = some bounds ↔
      ∃ before limits previous child, number = before + 1 ∧
        style.limitsIn parent node.kind = some limits ∧ node.children[before]? = some previous ∧
        node.children[before + 1]? = some child ∧
        limits previous child (before + 2 = node.children.length) = some bounds := by
  cases number with
  | zero => simp [childBounds]
  | succ before => simp [childBounds, Option.bind_eq_some_iff]

theorem boundsAt_cons {parent : Option Kind} {node : Node} {number : Nat} {path : List Nat}
    (below : path ≠ []) : style.boundsAt parent node (number :: path) =
      if (style.looks parent node).descends then
        node.children[number]?.bind fun child => style.boundsAt (some node.kind) child path
      else none := by
  cases path with
  | nil => exact absurd rfl below
  | cons next path => rw [boundsAt]

theorem Bounded.through {node child : Node} {number : Nat} {path : List Nat} {bounds : Bounds}
    (isChild : node.children[number]? = some child) (noFile : child.kind ≠ .sourceFile)
    (bounded : style.Bounded child path bounds) : style.Bounded node (number :: path) bounds := by
  cases bounded with
  | topLevel isFile => exact absurd isFile noFile
  | @member path place _ owner _ _ _ _ isOwner owns isBody isBlock behind here bounded =>
      have found : node.descendant? (number :: path) = some owner := by
        rw [descendant?, isChild]
        exact isOwner
      exact .member found owns isBody isBlock behind here bounded

/-- What a walk bounds stands between declarations, unless it is in a body that is walked by
itself. -/
theorem bounded_of_boundsAt {parent : Option Kind} {node : Node} {path : List Nat} {bounds : Bounds}
    (shelters : node.Everywhere Java.Sheltering)
    (isBounds : style.boundsAt parent node path = some bounds) :
    style.Bounded node path bounds ∨ node.kind = .block ∧ holdsMembers parent = true ∧
      ∃ number previous child, path = [number + 1] ∧ node.children[number]? = some previous ∧
        node.children[number + 1]? = some child ∧
        style.memberBounds previous child (number + 2 = node.children.length) = some bounds := by
  induction path generalizing parent node with
  | nil => cases isBounds
  | cons number path induction =>
      by_cases last : path = []
      · subst last
        rcases childBounds_eq_some_iff.1 isBounds with
          ⟨before, limits, previous, child, rfl, limited, behind, here, bounded⟩
        rw [limitsIn.eq_def] at limited
        split at limited
        next isFile =>
          cases limited
          exact .inl (.topLevel isFile behind here bounded)
        next isBlock =>
          split at limited
          next holds =>
            cases limited
            exact .inr ⟨isBlock, holds, before, previous, child, rfl, behind, here, bounded⟩
          · cases limited
        · cases limited
      · rw [boundsAt_cons last] at isBounds
        split at isBounds
        next descends =>
          rcases Option.bind_eq_some_iff.1 isBounds with ⟨child, isChild, below⟩
          have member := List.mem_of_getElem? isChild
          rcases induction (shelters.child member) below with
            bounded | ⟨isBlock, holds, before, previous, inner, rfl, behind, here, bounded⟩
          · exact .inl (bounded.through isChild (shelters.here.2 child member))
          · have isOwner : node.descendant? [] = some node := rfl
            exact .inl (.member isOwner holds isChild isBlock behind here bounded)
        · cases isBounds

theorem descends_to_owner {parent : Option Kind} {node owner : Node} {path : List Nat}
    (plain : holdsMembers parent = false → Java.PlainBlock node)
    (isOwner : node.descendant? path = some owner) (owns : Java.ownsMembers owner.kind = true) :
    (style.looks parent node).descends = true := by
  rw [looks, Bool.or_eq_true]
  cases holds : holdsMembers parent with
  | true => exact .inr rfl
  | false =>
      refine .inl (decide_eq_true fun isBlock => ?_)
      have free : Java.ownsMembers owner.kind = false :=
        plain holds isBlock owner (mem_preorder_of_descendant? isOwner)
      rw [owns] at free
      cases free

theorem boundsAt_member {parent : Option Kind} {node owner block previous child : Node}
    {path : List Nat} {place number : Nat} {bounds : Bounds}
    (shelters : node.Everywhere Java.Sheltering)
    (plain : holdsMembers parent = false → Java.PlainBlock node)
    (isOwner : node.descendant? path = some owner) (owns : Java.ownsMembers owner.kind = true)
    (isBody : owner.children[place]? = some block) (isBlock : block.kind = .block)
    (behind : block.children[number]? = some previous)
    (here : block.children[number + 1]? = some child)
    (bounded : style.memberBounds previous child (number + 2 = block.children.length) =
      some bounds) :
    style.boundsAt parent node (path ++ [place, number + 1]) = some bounds := by
  induction path generalizing parent node with
  | nil =>
      have descends : (style.looks parent node).descends = true :=
        descends_to_owner plain isOwner owns
      cases isOwner
      rw [List.nil_append, boundsAt, descends, isBody]
      refine childBounds_eq_some_iff.2 ⟨number, _, previous, child, rfl, ?_, behind, here, bounded⟩
      rw [isBlock]
      exact if_pos owns
  | cons step path induction =>
      rw [List.cons_append, boundsAt_cons (by simp), descends_to_owner plain isOwner owns]
      rcases Option.bind_eq_some_iff.1 isOwner with ⟨next, isNext, below⟩
      have member := List.mem_of_getElem? isNext
      rw [isNext]
      exact induction (shelters.child member) (fun free => shelters.here.1 free next member) below

theorem boundsAt_eq_some_iff {root : Node} (shelters : root.Everywhere Java.Sheltering)
    (isFile : root.kind = .sourceFile) {path : List Nat} {bounds : Bounds} :
    style.boundsAt none root path = some bounds ↔ style.Bounded root path bounds := by
  constructor
  · intro isBounds
    rcases bounded_of_boundsAt shelters isBounds with bounded | ⟨-, noParent, -⟩
    · exact bounded
    · cases noParent
  · intro bounded
    cases bounded with
    | topLevel _ behind here bounded =>
        refine childBounds_eq_some_iff.2 ⟨_, style.topLevel, _, _, rfl, ?_, behind, here, bounded⟩
        rw [isFile]
        rfl
    | member isOwner owns isBody isBlock behind here bounded =>
        refine boundsAt_member shelters (fun _ isBlock => ?_)
          isOwner owns isBody isBlock behind here
          bounded
        rw [isFile] at isBlock
        cases isBlock

/-! ## Clamping -/

/-- A maximum below the minimum gives way. -/
structure Bounds.Allows (bounds : Bounds) (count : Nat) : Prop where
  minimum_le : bounds.minimum.toNat ≤ count
  le_maximum : count ≤ max bounds.minimum.toNat bounds.maximum.toNat

/-- Formatting in place of what was there. What was allowed is kept as it is, and in any case
comments and what stands behind the last line break are. -/
structure Adjusted (bounds : Bounds) (old new : Trivia) : Prop where
  comments : new.comments = old.comments
  margin : Text.lastLine new.whitespace.toList = Text.lastLine old.whitespace.toList
  kept : bounds.Allows (old.newlines - 1) → new = old

/-- The number of blank lines is an allowed one. -/
structure Clamped (bounds : Bounds) (old new : Trivia) : Prop extends Adjusted bounds old new where
  broken : new.newlines ≠ 0
  allowed : bounds.Allows (new.newlines - 1)

theorem Bounds.allows_clamp (bounds : Bounds) (count : Nat) :
    bounds.Allows (bounds.clamp count) := by
  constructor <;> unfold clamp <;> omega

theorem Bounds.clamp_eq_self_iff {bounds : Bounds} {count : Nat} :
    bounds.clamp count = count ↔ bounds.Allows count := by
  constructor
  · exact fun same => same ▸ bounds.allows_clamp count
  · rintro ⟨minimum_le, le_maximum⟩
    unfold clamp
    omega

theorem wantedBlankLines_eq_none_iff {bounds : Option Bounds} {node : Node} :
    wantedBlankLines bounds node = none ↔ ∀ limits leading, bounds = some limits →
      node.leading = some leading → leading.newlines ≠ 0 →
      limits.Allows (leading.newlines - 1) := by
  rw [Option.eq_none_iff_forall_ne_some]
  constructor
  · intro nothing limits leading isBounds isLeading broken
    by_contra forbidden
    exact nothing _
      (wantedBlankLines_eq_some_iff.2 ⟨limits, leading, isBounds, isLeading, broken, rfl,
      fun same => forbidden (Bounds.clamp_eq_self_iff.1 same)⟩)
  · intro allowed count wanted
    rcases wantedBlankLines_eq_some_iff.1 wanted with
      ⟨limits, leading, isBounds, isLeading, broken, rfl, differs⟩
    exact differs (Bounds.clamp_eq_self_iff.2 (allowed limits leading isBounds isLeading broken))

theorem lastLine_breaks (breaks : Nat) (cs : List Char) :
    Text.lastLine (List.replicate breaks '\n' ++ Text.lastLine cs) = Text.lastLine cs := by
  cases breaks with
  | zero => exact Text.lastLine_lastLine cs
  | succ breaks =>
      rw [List.replicate_succ', List.append_assoc]
      exact (Text.lastLine_append_cons _ _).trans (Text.lastLine_lastLine cs)

theorem adjusted_settled {bounds : Bounds} {node : Node} {leading : Trivia}
    (isLeading : node.leading = some leading) (broken : leading.newlines ≠ 0) :
    ∃ new, (settled (some bounds) node).leading = some new ∧ Adjusted bounds leading new ∧
      (bounds.HasRoom leading → Clamped bounds leading new) := by
  cases wanted : wantedBlankLines (some bounds) node with
  | none =>
      rw [settled, wanted]
      have allowed := wantedBlankLines_eq_none_iff.1 wanted bounds leading rfl isLeading broken
      have same : Adjusted bounds leading leading := ⟨rfl, rfl, fun _ => rfl⟩
      exact ⟨leading, isLeading, same, fun _ => ⟨same, broken, allowed⟩⟩
  | some count =>
      rcases wantedBlankLines_eq_some_iff.1 wanted with ⟨_, _, ⟨⟩, same, -, rfl, differs⟩
      cases isLeading.symm.trans same
      have lines := newlines_withBlankLines (bounds.clamp (leading.newlines - 1)) node
      rw [settled, wanted, applyWanted]
      rw [withBlankLines, withLeading, leadingOrEmpty, isLeading, Option.getD_some] at lines ⊢
      have adjusted (breaks : Nat) : Adjusted bounds leading (leading.withWhitespace
          (String.ofList
            (List.replicate breaks '\n' ++ Text.lastLine leading.whitespace.toList))) := by
        refine ⟨rfl, ?_, fun allowed => absurd (Bounds.clamp_eq_self_iff.2 allowed) differs⟩
        rw [Trivia.withWhitespace, String.toList_ofList]
        exact lastLine_breaks breaks _
      refine ⟨_, rfl, adjusted _, fun room => ⟨adjusted _, ?_, ?_⟩⟩
      · rw [Option.some.inj lines, lineBreaks_of_lt room]
        exact Nat.succ_ne_zero _
      · rw [Option.some.inj lines, lineBreaks_of_lt room]
        exact bounds.allows_clamp _

theorem leading_settled {bounds : Option Bounds} {node : Node}
    (free : ∀ limits leading, bounds = some limits → node.leading = some leading →
      leading.newlines = 0) : (settled bounds node).leading = node.leading := by
  refine (leading_settled_eq_iff bounds node).2 (wantedBlankLines_eq_none_iff.2 ?_)
  intro limits leading isBounds isLeading broken
  exact absurd (free limits leading isBounds isLeading) broken

variable (style)

/-- What a walk makes of a file. Between its top-level declarations, and between the members of
its classes and of the values of its enumerations, blank lines are clamped to the bounds of the
style wherever there are line breaks, as long as one more than the number that is wanted can be
counted. Comments and margins stay there in any case. The formatting in front of all other
nodes, and everything else, is left as it is; and a file that is within bounds is given back
untouched. A walk that nothing stops comes to its end for all styles whose limits fit into a
text. -/
theorem clamps_between_declarations {text : String} {read : Node}
    (parsed : Java.parse text = .ok read) (first : Nat) (limits : WalkLimits) (session : Session) :
    (style.Fits text → limits.expired = false → session.cancelled = false →
      ∃ changed, (walk style.visitor limits (read.number first).1 session).1 = .ok changed) ∧
    ∀ changed, (walk style.visitor limits (read.number first).1 session).1 = .ok changed →
      (changed.getD (read.number first).1).unlaid = (read.number first).1.unlaid ∧
      (∀ path old, (read.number first).1.descendant? path = some old →
        ∃ new, (changed.getD (read.number first).1).descendant? path = some new ∧
          (∀ bounds leading, style.Bounded (read.number first).1 path bounds →
            old.leading = some leading → leading.newlines ≠ 0 →
            ∃ settled, new.leading = some settled ∧ Adjusted bounds leading settled ∧
              (bounds.HasRoom leading → Clamped bounds leading settled)) ∧
          ((∀ bounds leading, style.Bounded (read.number first).1 path bounds →
            old.leading = some leading → leading.newlines = 0) → new.leading = old.leading)) ∧
      (changed = none ↔ ∀ path old bounds leading,
        (read.number first).1.descendant? path = some old →
        style.Bounded (read.number first).1 path bounds → old.leading = some leading →
        leading.newlines ≠ 0 → bounds.Allows (leading.newlines - 1)) := by
  constructor
  · intro fits time going
    have short := short_of_readFrom (Java.parse_readFrom parsed) first
    rw [walk_of_decidesOn (decides fits) time short going]
    exact ⟨_, rfl⟩
  · intro changed walked
    generalize isRoot : (read.number first).1 = root at walked ⊢
    have bare : root.bare = read.bare := by
      rw [← isRoot, ← bare_withoutIds, withoutIds_number, bare_withoutIds]
    have isFile : root.kind = .sourceFile := by
      rw [← kind_bare, bare, kind_bare, Java.kind_of_parse parsed]
    have shelters : root.Everywhere Java.Sheltering :=
      everywhere_of_mapHeads_eq Java.sheltering_bare_iff bare (Java.sheltering_of_parse parsed)
    have fit : root.height ≤ root.height + limits.spareDepth := Nat.le_add_right _ _
    have become := style.become_of_walked walked
    refine ⟨?_, fun path old found => ?_, ?_⟩
    · rw [become]
      exact style.unlaid_become _ none root
    · have leading := style.leading_become none fit path
      rw [← become, found, Option.map_some, Option.map_eq_some_iff] at leading
      rcases leading with ⟨new, isNew, leading⟩
      refine ⟨new, isNew, fun bounds front bounded isFront broken => ?_, fun free => ?_⟩
      · rw [leading, (boundsAt_eq_some_iff shelters isFile).2 bounded]
        exact adjusted_settled isFront broken
      · rw [leading]
        refine leading_settled fun bounds front isBounds => free bounds front ?_
        exact (boundsAt_eq_some_iff shelters isFile).1 isBounds
    · rw [become, style.become_eq_none_iff fit]
      simp only [wantedBlankLines_eq_none_iff, boundsAt_eq_some_iff shelters isFile]
      exact ⟨fun allowed path old bounds leading found => allowed path old found bounds leading,
        fun allowed path old found bounds leading => allowed path old bounds leading found⟩

/-- Of the three blank lines behind a package one or two are left. -/
theorem clamps_between_package_and_class :
    ∃ read changed declaration front new settled,
      Java.parse "package a;\n\n\n\n// c\nclass A\x7b\n  int x;\n\n \n\n  int y; \x7d" = .ok read ∧
      (walk standard.visitor .none (read.number 1).1 (.start 100 false)).1 = .ok (some changed) ∧
      changed.unlaid = (read.number 1).1.unlaid ∧
      standard.Bounded (read.number 1).1 [1] ⟨1, 2⟩ ∧
      (read.number 1).1.descendant? [1] = some declaration ∧ declaration.leading = some front ∧
      front.newlines = 4 ∧ changed.descendant? [1] = some new ∧ new.leading = some settled ∧
      Clamped ⟨1, 2⟩ front settled := by
  have evaluated : ((Java.parse
      "package a;\n\n\n\n// c\nclass A\x7b\n  int x;\n\n \n\n  int y; \x7d").toOption.map
        fun read =>
      ((read.number 1).1.kind, do
        let package ← (read.number 1).1.children[0]?
        let declaration ← (read.number 1).1.children[1]?
        return (standard.topLevelBounds package declaration,
          declaration.leading.map Trivia.newlines))) =
      some (.sourceFile, some (some ⟨1, 2⟩, some 4)) := by
    decide +kernel
  cases parsed : Java.parse
      "package a;\n\n\n\n// c\nclass A\x7b\n  int x;\n\n \n\n  int y; \x7d" with
  | error error =>
      rw [parsed] at evaluated
      cases evaluated
  | ok read =>
      rw [parsed] at evaluated
      rcases Prod.mk.inj (Option.some.inj evaluated) with ⟨isFile, inside⟩
      simp only [bind, Option.bind_eq_some_iff] at inside
      rcases inside with ⟨package, isPackage, declaration, isClass, outcome⟩
      rcases Prod.mk.inj (Option.some.inj outcome) with ⟨bounded, lines⟩
      rcases Option.map_eq_some_iff.1 lines with ⟨front, isFront, lines⟩
      have place : standard.Bounded (read.number 1).1 [1] ⟨1, 2⟩ :=
        .topLevel isFile isPackage isClass bounded
      have found : (read.number 1).1.descendant? [1] = some declaration := by
        rw [descendant?, isClass]
        rfl
      have broken : front.newlines ≠ 0 := by rw [lines]; decide
      rcases clamps_between_declarations standard parsed 1 .none (.start 100 false) with
        ⟨gives, clamps⟩
      rcases gives (fits_standard _) rfl rfl with ⟨changed, walked⟩
      rcases clamps changed walked with ⟨rest, each, untouched⟩
      cases changed with
      | none =>
          have allowed := untouched.1 rfl [1] declaration ⟨1, 2⟩ front found place isFront broken
          have le_maximum := allowed.le_maximum
          rw [lines] at le_maximum
          exact absurd le_maximum (by decide)
      | some changed =>
          rcases each [1] declaration found with ⟨new, isNew, clamped, -⟩
          rcases clamped ⟨1, 2⟩ front place isFront broken with ⟨settled, isSettled, -, clamped⟩
          have room := place.hasRoom hasRoom_standard front
          exact ⟨read, changed, declaration, front, new, settled, rfl, walked, rest, place, found,
            isFront, lines, isNew, isSettled, clamped room⟩

/-- At the greatest word the line break between two classes is taken away. -/
theorem greatest_limit_joins_classes :
    ∃ style read changed declaration front new left,
      style = { standard with minimumAroundClass := 18446744073709551615 } ∧
      Java.parse "class A \x7b\x7d\nclass B \x7b\x7d\n" = .ok read ∧
      style.Bounded (read.number 1).1 [1] ⟨18446744073709551615, 2⟩ ∧
      (read.number 1).1.descendant? [1] = some declaration ∧ declaration.leading = some front ∧
      front.newlines = 1 ∧
      (walk style.visitor .none (read.number 1).1 (.start 100 false)).1 = .ok (some changed) ∧
      changed.written = "class A \x7b\x7dclass B \x7b\x7d\n" ∧
      changed.descendant? [1] = some new ∧ new.leading = some left ∧ left.newlines = 0 ∧
      ¬ Clamped ⟨18446744073709551615, 2⟩ front left := by
  let style : BlankLines := { standard with minimumAroundClass := 18446744073709551615 }
  have evaluated : ((Java.parse "class A \x7b\x7d\nclass B \x7b\x7d\n").toOption.bind fun read => do
        let previous ← (read.number 1).1.children[0]?
        let declaration ← (read.number 1).1.children[1]?
        let changed ← (← (walk style.visitor .none (read.number 1).1 (.start 100 false)).1.toOption)
        let new ← changed.descendant? [1]
        return ((style.topLevelBounds previous declaration, changed.written),
          (declaration.leading.map Trivia.newlines, new.leading.map Trivia.newlines))) =
      some ((some ⟨18446744073709551615, 2⟩, "class A \x7b\x7dclass B \x7b\x7d\n"),
        (some 1, some 0)) := by decide +kernel
  cases parsed : Java.parse "class A \x7b\x7d\nclass B \x7b\x7d\n" with
  | error error =>
      rw [parsed] at evaluated
      cases evaluated
  | ok read =>
      have isFile : (read.number 1).1.kind = .sourceFile := by
        rw [← kind_content, content_number, kind_content, Java.kind_of_parse parsed]
      rw [parsed] at evaluated
      simp only [bind, Option.bind_eq_some_iff] at evaluated
      obtain ⟨_, ⟨⟩, previous, behind, declaration, here, walked, ended, changed, rfl, new, isNew,
        outcome⟩ := evaluated
      simp only [Option.pure_def, Option.some.injEq, Prod.mk.injEq,
        Option.map_eq_some_iff] at outcome
      obtain ⟨⟨bounded, written⟩, ⟨front, isFront, one⟩, left, isLeft, gone⟩ := outcome
      have succeeded : (walk style.visitor .none (read.number 1).1 (.start 100 false)).1 =
          .ok (some changed) := by
        cases result : (walk style.visitor .none (read.number 1).1 (.start 100 false)).1 with
        | error error =>
            rw [result] at ended
            cases ended
        | ok other =>
            rw [result] at ended
            rw [Option.some.inj ended]
      have found : (read.number 1).1.descendant? [1] = some declaration := by
        rw [descendant?, here]
        rfl
      exact ⟨style, read, changed, declaration, front, new, left, rfl, rfl,
        .topLevel isFile behind here bounded, found, isFront,
        one, succeeded, written, isNew, isLeft, gone, fun clamped => clamped.broken gone⟩

end BlankLines

end Verbatim
