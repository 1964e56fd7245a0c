import Verbatim.Printing.Printer
import Verbatim.Proofs.Java.Inserting

/-! Comments put in front of tokens. A block comment in front of a token is cut as the last part
of its formatting, and the other tokens are cut as before, but for three kinds of places:
directly behind a slash, where the comment becomes a line comment; behind a slash and a star
that open no comment as long as none ends behind them; and behind three quotes that open no text
block as long as none ends. -/

namespace Verbatim

open Node (Leaf)

/-- The leaf with one more comment in front of it, if it is to be noted. -/
def Node.Leaf.noted (note : String) (leaf : Leaf) (isFound : Bool) : Leaf :=
  let front := leaf.fronts.headD .empty
  if isFound then
    { leaf with fronts := [{ front with comments := front.comments ++ [⟨.block, note, ""⟩] }] }
  else leaf

namespace Java

/-! ## Notes -/

def IsNote (note : String) : Prop :=
  Trivia.cutComment note.toList = some (.block, note.toList, [])

theorem exists_of_cutBlock {cs body rest : List Char}
    (cut : Trivia.cutBlock cs = some (body, rest)) :
    ∃ inner, body = inner ++ ['*', '/'] := by
  induction cs using Trivia.cutBlock.induct generalizing body rest with
  | case1 => cases cut
  | case2 more =>
      cases cut
      exact ⟨[], rfl⟩
  | case3 c more notEnd induction =>
      rw [Trivia.cutBlock] at cut
      · rcases Option.map_eq_some_iff.1 cut with ⟨⟨inside, left⟩, found, pair⟩
        cases pair
        rcases induction found with ⟨inner, rfl⟩
        exact ⟨c :: inner, rfl⟩
      · exact notEnd

theorem cutBlock_of_unended {body : List Char} (unended : Trivia.cutBlock body = none)
    (rest : List Char) :
    Trivia.cutBlock (body ++ '*' :: '/' :: rest) = some (body ++ ['*', '/'], rest) := by
  induction body using Trivia.cutBlock.induct with
  | case1 => rfl
  | case2 more => cases unended
  | case3 c more notEnd induction =>
      rw [Trivia.cutBlock, Option.map_eq_none_iff] at unended
      · rw [List.cons_append, Trivia.cutBlock, induction unended]
        · rfl
        · intro behind star equal
          cases more with
          | nil => exact absurd (List.cons.inj equal).1 (by decide)
          | cons second more =>
              cases (List.cons.inj equal).1
              exact notEnd _ star rfl
      · exact notEnd

section

variable {note : String} (isNote : IsNote note)

include isNote

theorem IsNote.cutComment (rest : List Char) :
    Trivia.cutComment (note.toList ++ rest) = some (.block, note.toList, rest) := by
  have whole : Trivia.cutComment (note.toList ++ []) = some (.block, note.toList, []) := by
    rw [List.append_nil]
    exact isNote
  exact cutComment_exchange whole nofun

theorem IsNote.exists_inner : ∃ inner, note.toList = '/' :: (inner ++ ['*', '/']) := by
  have cut : Trivia.cutComment note.toList = some (.block, note.toList, []) := isNote
  generalize note.toList = cs at cut
  fun_cases Trivia.cutComment cs with
  | case1 more => cases congrArg (Option.map Prod.fst) cut
  | case2 more =>
      rw [Trivia.cutComment] at cut
      rcases Option.map_eq_some_iff.1 cut with ⟨⟨body, left⟩, found, triple⟩
      rcases exists_of_cutBlock found with ⟨inner, rfl⟩
      exact ⟨'*' :: inner, (Prod.mk.inj (Prod.mk.inj triple).2).1.symm⟩
  | case3 cs notLine notBlock =>
      rw [Trivia.cutComment] at cut
      · cases cut
      · exact notLine
      · exact notBlock

theorem IsNote.cutTextBlock_eq_none_iff (front back : List Char) :
    cutTextBlock (front ++ (note.toList ++ back)) = none ↔
      cutTextBlock front = none ∧ cutTextBlock note.toList = none ∧ cutTextBlock back = none := by
  rcases isNote.exists_inner with ⟨inner, spelled⟩
  have slash (front back : List Char) : cutTextBlock (front ++ '/' :: back) = none ↔
      cutTextBlock front = none ∧ cutTextBlock back = none :=
    cutTextBlock_plain (by decide) (by decide) front back
  have inside (back : List Char) : note.toList ++ back =
      '/' :: ((inner ++ ['*']) ++ '/' :: back) := by
    rw [spelled]
    simp
  have alone := inside []
  rw [List.append_nil] at alone
  rw [inside, slash, slash, alone, ← List.nil_append ('/' :: _), slash, slash]
  simp [cutTextBlock]

theorem IsNote.cutBlock_ne_none {cs : List Char} (within : note.toList <:+: cs) :
    Trivia.cutBlock cs ≠ none := by
  rw [ne_eq, cutBlock_eq_none_iff, not_not]
  rcases isNote.exists_inner with ⟨inner, spelled⟩
  refine List.IsInfix.trans ⟨'/' :: inner, [], ?_⟩ within
  rw [spelled, List.append_nil, List.cons_append]

end

theorem isNote_markerComment {description : Option String}
    (noEnd : ∀ text ∈ description, ¬ ['*', '/'] <:+: text.toList) :
    IsNote (Printer.markerComment (.searchResult description)) := by
  have closed {inner : String} (unended : Trivia.cutBlock inner.toList = none)
      (spelled : Printer.markerComment (.searchResult description) = "/*~" ++ inner ++ "*/") :
      IsNote (Printer.markerComment (.searchResult description)) := by
    have characters : ("/*~" ++ inner ++ "*/").toList =
        '/' :: '*' :: '~' :: (inner.toList ++ ['*', '/']) := by
      simp [String.toList_append]
    have found := cutBlock_of_unended unended []
    rw [IsNote, spelled, characters, Trivia.cutComment, Trivia.cutBlock, found]
    · rfl
    · exact fun _ equal _ => absurd equal (by decide)
  cases description with
  | none => exact @closed "~>" (by decide) rfl
  | some text =>
      have plain := cutBlock_eq_none_iff.2 (noEnd text rfl)
      refine @closed ("~(" ++ text ++ ")~~>") ?_ ?_
      · rw [String.toList_append, String.toList_append, List.append_assoc]
        have opens : ∀ c ∈ "~(".toList, isJoint c = true := by simp [isJoint]
        have ends : ")~~>".toList = ')' :: ['~', '~', '>'] := rfl
        have closes : isJoint ')' = true := by decide
        rw [cutBlock_joints opens, ends, cutBlock_joint closes]
        exact ⟨plain, by decide⟩
      · have opens : ("/*~" : String) ++ "~(" = "/*~~(" := rfl
        have closes : (")~~>" : String) ++ "*/" = ")~~>*/" := rfl
        rw [Printer.markerComment, ← opens, ← closes]
        simp only [String.append_assoc]

/-! ## Tokens behind notes -/

/-- The token with one more comment in front of it, if it is to be noted. -/
def Lexeme.noted (note : String) (token : Lexeme) (isFound : Bool) : Lexeme :=
  if isFound then
    { token with leading.comments := token.leading.comments ++ [⟨.block, note, ""⟩] }
  else token

def noteAll (found : Leaf → Bool) (note : String) (tokens : List Lexeme) (leaves : List Leaf) :
    List Lexeme :=
  List.zipWith (fun token leaf => token.noted note (found leaf)) tokens leaves

def noteOf (note : String) (isFound : Bool) : List Char := if isFound then note.toList else []

theorem text_noted (note : String) (token : Lexeme) (isFound : Bool) :
    (token.noted note isFound).text = token.text := by
  cases isFound <;> rfl

theorem tokenClass_noted (note : String) (token : Lexeme) (isFound : Bool) :
    (token.noted note isFound).tokenClass = token.tokenClass := by
  cases isFound <;> rfl

theorem charactersOf_noted (note : String) (token : Lexeme) (isFound : Bool)
    (others : List Lexeme) :
    charactersOf (token.noted note isFound :: others) = token.leading.text.toList ++
      (noteOf note isFound ++ (token.text.toList ++ charactersOf others)) := by
  cases isFound with
  | false => exact charactersOf_cons token others
  | true =>
      rw [charactersOf_cons, Lexeme.noted, if_pos rfl, toList_text_eq, toList_text_eq, noteOf,
        if_pos rfl, List.flatMap_append]
      simp [String.join_append, String.join_cons, String.join_nil]

theorem cutTrivia_starts {cs rest : List Char} {trivia : Trivia}
    (cut : Trivia.cut cs = (trivia, rest)) :
    trivia = .empty ∨ ∃ c more, trivia.text.toList = c :: more ∧
      (Trivia.isSpace c = true ∨ c = '/') := by
  have whole := cutTrivia_append cs
  rw [cut] at whole
  cases spelled : trivia.text.toList with
  | nil =>
      left
      rw [spelled, List.nil_append] at whole
      have behind := cutTrivia_behind cut
      have again := @cutTrivia_spaces "" (fun _ absent => absurd absent List.not_mem_nil) rest
        behind.1 behind.2.1
      rw [← whole] at cut
      exact (Prod.mk.inj (cut.symm.trans again)).1
  | cons c more =>
      refine .inr ⟨c, more, rfl, ?_⟩
      by_contra neither
      rw [not_or] at neither
      have stops : ∀ c' more', cs = c' :: more' → c = c' := by
        intro c' more' equal
        rw [equal, spelled, List.cons_append] at whole
        exact (List.cons.inj whole).1
      have again := @cutTrivia_spaces "" (fun _ absent => absurd absent List.not_mem_nil) cs
        (fun c' more' equal => stops c' more' equal ▸ Bool.eq_false_iff.2 neither.1)
        (cutComment_of_noSlash fun c' more' equal => stops c' more' equal ▸ neither.2)
      rw [(Prod.mk.inj (cut.symm.trans again)).1] at spelled
      cases spelled

theorem cutComment_slash_eq_none_iff {cs : List Char} : Trivia.cutComment ('/' :: cs) = none ↔
    (∀ more, cs ≠ '/' :: more) ∧ ∀ more, cs = '*' :: more → Trivia.cutBlock more = none := by
  constructor
  · intro missing
    refine ⟨?_, ?_⟩
    · rintro more rfl
      cases missing
    · rintro more rfl
      rwa [Trivia.cutComment, Option.map_eq_none_iff] at missing
  · rintro ⟨noSlash, unended⟩
    cases cs with
    | nil => rfl
    | cons c more =>
        by_cases star : c = '*'
        · subst star
          rw [Trivia.cutComment, Option.map_eq_none_iff]
          exact unended more rfl
        · rw [Trivia.cutComment]
          · exact fun rest equal => noSlash rest (List.cons.inj equal).2
          · exact fun rest equal => star (List.cons.inj (List.cons.inj equal).2).1

theorem mark_of_cut {tokenClass : TokenClass} {c : Char} (isMark : c = '/' ∨ c = '*')
    {more rest : List Char} (cut : tokenClass.cut (c :: more ++ rest) = some (c :: more, rest)) :
    more = [] := by
  have single : TokenClass.punctuation.cut (c :: (more ++ rest)) = some ([c], more ++ rest) := by
    rcases isMark with rfl | rfl <;> rfl
  have same := (cutToken_eq_some_iff.2 cut).symm.trans (cutToken_eq_some_iff.2 single)
  simp only [Option.some.injEq, Prod.mk.injEq, List.cons.injEq, true_and] at same
  exact same.2.1

theorem FallsApart.cut {token : Lexeme} {tokens : List Lexeme}
    (apart : FallsApart (token :: tokens))
    (some_ : token.text.toList ≠ []) : tokens ≠ [] ∧
      token.tokenClass.cut (token.text.toList ++ charactersOf tokens) =
        some (token.text.toList, charactersOf tokens) := by
  have others : tokens ≠ [] := by
    rintro rfl
    rw [FallsApart] at apart
    generalize charactersOf [token] = cs at apart
    cases apart with
    | token _ _ _ behind => exact behind.ne_nil rfl
    | last _ _ _ spelling => exact some_ (by rw [spelling]; rfl)
  exact ⟨others, ((fallsApart_cons_iff others).1 apart).2.1⟩

theorem FallsApart.eq_nil {token : Lexeme} {tokens : List Lexeme}
    (apart : FallsApart (token :: tokens))
    (nothing : token.text.toList = []) : tokens = [] := by
  by_contra others
  have found := ((fallsApart_cons_iff others).1 apart).2.1
  exact (cutToken_append (cutToken_eq_some_iff.2 found)).2 nothing

theorem IsLeafOf.exists_wordStart {token : Lexeme} {leaf : Leaf} (isLeaf : IsLeafOf token leaf)
    (plain : token.Plain) (isIdentifier : leaf.kind = .identifier) :
    ∃ first more, token.text.toList = first :: more ∧ isWordStart first = true := by
  have word := (isLeaf.free isIdentifier).1
  rw [Lexeme.Plain] at plain
  cases spelled : token.text.toList with
  | nil =>
      rw [spelled, word] at plain
      cases plain
  | cons first more =>
      rw [spelled, word] at plain
      exact ⟨first, more, rfl, plain⟩

theorem IsLeafOf.fronts_eq_nil_iff {token : Lexeme} {leaf : Leaf} (isLeaf : IsLeafOf token leaf) :
    leaf.fronts = [] ↔ token.leading = .empty := by
  rw [isLeaf.fronts]
  constructor
  · intro nothing
    rw [List.filter_eq_nil_iff] at nothing
    have empty := nothing _ List.mem_cons_self
    rw [Bool.not_eq_true', Bool.not_eq_false] at empty
    exact Trivia.eq_empty_of_isEmpty empty
  · intro empty
    rw [empty]
    rfl

/-! ## Places that are disturbed -/

/-- With a note in front of the leaves that are found the first two are not read as before: the
first is a slash and the note stands right behind it, or it is the opener of a comment or of a
text block that a note further on would end. -/
def Disturbs (found : Leaf → Bool) (note : String) (first second : Leaf)
    (behind : List Leaf) : Prop :=
  first.text = some "/" ∧ second.fronts = [] ∧
      (found second = true ∨ second.text = some "*" ∧ behind.any found = true) ∨
    first.text = some "\"\"" ∧ second.fronts = [] ∧ (∃ more, second.text = some ("\"" ++ more)) ∧
      behind.any found = true ∧ cutTextBlock note.toList ≠ none

/-- Somewhere among the leaves. -/
def Disturbed (found : Leaf → Bool) (note : String) : List Leaf → Prop
  | first :: second :: behind =>
    Disturbs found note first second behind ∨ Disturbed found note (second :: behind)
  | _ => False

section

variable {found : Leaf → Bool} {note : String} (isNote : IsNote note)
  (names : ∀ leaf, found leaf = true → leaf.kind = .identifier)
  {tokens : List Lexeme} {leaves : List Leaf} (areLeaves : List.Forall₂ IsLeafOf tokens leaves)
  (plain : ∀ token ∈ tokens, token.Plain)

include areLeaves

theorem noteAll_of_none (none : leaves.any found = false) :
    noteAll found note tokens leaves = tokens := by
  induction areLeaves with
  | nil => rfl
  | cons _ _ induction =>
      rw [List.any_cons, Bool.or_eq_false_iff] at none
      rw [noteAll, List.zipWith_cons_cons, none.1, Lexeme.noted, if_neg Bool.false_ne_true]
      exact congrArg _ (induction none.2)

theorem note_isInfix (some_ : leaves.any found = true) :
    note.toList <:+: charactersOf (noteAll found note tokens leaves) := by
  induction areLeaves with
  | nil => cases some_
  | @cons token leaf tokens leaves _ _ induction =>
      rw [List.any_cons, Bool.or_eq_true] at some_
      rw [noteAll, List.zipWith_cons_cons, charactersOf_noted]
      rcases some_ with here | later
      · rw [here, noteOf, if_pos rfl]
        exact ⟨token.leading.text.toList, _, List.append_assoc ..⟩
      · refine (induction later).trans (List.IsSuffix.isInfix ?_)
        rw [← List.append_assoc, ← List.append_assoc]
        exact List.suffix_append _ _

include isNote

theorem cutBlock_noteAll (unended : Trivia.cutBlock (charactersOf tokens) = none) :
    Trivia.cutBlock (charactersOf (noteAll found note tokens leaves)) = none ↔
      leaves.any found = false := by
  cases some_ : leaves.any found with
  | false => exact iff_of_true (by rwa [noteAll_of_none areLeaves some_]) rfl
  | true => exact iff_of_false (isNote.cutBlock_ne_none (note_isInfix areLeaves some_)) nofun

theorem prefix_of_noteAll {start : List Char} (noSlash : '/' ∉ start)
    (starts : start <+: charactersOf (noteAll found note tokens leaves)) :
    start <+: charactersOf tokens := by
  induction areLeaves generalizing start with
  | nil => exact starts
  | @cons token leaf tokens leaves _ _ induction =>
      rw [noteAll, List.zipWith_cons_cons, charactersOf_noted] at starts
      rw [charactersOf_cons]
      have within {front back : List Char} (short : start <+: front ++ '/' :: back) :
          start <+: front := by
        rcases Nat.lt_or_ge front.length start.length with longer | shorter
        · have all : front ++ ['/'] <+: front ++ '/' :: back := ⟨back, by simp⟩
          have inside : front ++ ['/'] <+: start :=
            List.prefix_of_prefix_length_le all short (by rw [List.length_append]; exact longer)
          exact absurd (inside.subset (by simp)) noSlash
        · exact List.prefix_of_prefix_length_le short (List.prefix_append _ _) shorter
      cases isFound : found leaf with
      | true =>
          rcases isNote.exists_inner with ⟨inner, spelled⟩
          rw [isFound, noteOf, if_pos rfl, spelled] at starts
          exact (within starts).trans (List.prefix_append _ _)
      | false =>
          rw [isFound, noteOf, if_neg Bool.false_ne_true, List.nil_append,
            ← List.append_assoc] at starts
          rw [← List.append_assoc]
          generalize token.leading.text.toList ++ token.text.toList = front at starts ⊢
          rcases Nat.le_total start.length front.length with shorter | longer
          · exact (List.prefix_of_prefix_length_le starts (List.prefix_append _ _) shorter).trans
              (List.prefix_append _ _)
          · rcases List.prefix_of_prefix_length_le
              (List.prefix_append _ _) starts longer with ⟨more, rfl⟩
            rw [List.prefix_append_right_inj] at starts ⊢
            exact induction (fun member => noSlash (List.mem_append_right _ member)) starts

theorem head_noteAll {p : Char → Bool} (slash : p '/' = false)
    (ends : ∀ c more, charactersOf tokens = c :: more → p c = false) :
    ∀ c more, charactersOf (noteAll found note tokens leaves) = c :: more → p c = false := by
  intro c more equal
  by_cases isSlash : c = '/'
  · rw [isSlash, slash]
  · have starts : [c] <+: charactersOf (noteAll found note tokens leaves) := ⟨more, equal.symm⟩
    rcases prefix_of_noteAll isNote areLeaves
      (fun member => isSlash (List.mem_singleton.1 member).symm) starts with ⟨rest, whole⟩
    exact ends c rest whole.symm

theorem goesOnLess_noteAll :
    GoesOnLess (charactersOf tokens) (charactersOf (noteAll found note tokens leaves)) := by
  intro start member starts
  refine prefix_of_noteAll isNote areLeaves ?_ starts
  simp only [List.mem_cons, List.not_mem_nil, or_false] at member
  rcases member with rfl | rfl | rfl | rfl <;> decide

include names plain

theorem cutTextBlock_noteAll (front : List Char) :
    cutTextBlock (front ++ charactersOf (noteAll found note tokens leaves)) = none ↔
      cutTextBlock (front ++ charactersOf tokens) = none ∧
        (leaves.any found = true → cutTextBlock note.toList = none) := by
  induction areLeaves generalizing front with
  | nil => simp [noteAll]
  | @cons token leaf tokens leaves isLeaf _ induction =>
      rw [List.forall_mem_cons] at plain
      rw [noteAll, List.zipWith_cons_cons, charactersOf_noted, charactersOf_cons, List.any_cons]
      cases isFound : found leaf with
      | false =>
          have behind :=
            induction plain.2 (front ++ (token.leading.text.toList ++ token.text.toList))
          rw [noteOf, if_neg Bool.false_ne_true, List.nil_append, Bool.false_or]
          rw [List.append_assoc, List.append_assoc, List.append_assoc, List.append_assoc] at behind
          exact behind
      | true =>
          rcases isLeaf.exists_wordStart plain.1 (names leaf isFound) with
            ⟨first, more, spelled, starts⟩
          have joint := isJoint_of_isWordPart (isWordPart_of_isWordStart starts)
          have behind := induction plain.2 more
          rw [noteOf, if_pos rfl, ← List.append_assoc, isNote.cutTextBlock_eq_none_iff,
            ← List.append_assoc front, spelled, List.cons_append, List.cons_append,
            cutTextBlock_joint joint, ← List.nil_append (first :: _), cutTextBlock_joint joint]
          rw [noteAll] at behind
          rw [behind, Bool.true_or]
          constructor
          · rintro ⟨before, ended, -, inside, -⟩
            exact ⟨⟨before, inside⟩, fun _ => ended⟩
          · rintro ⟨⟨before, inside⟩, ended⟩
            exact ⟨before, ended rfl, rfl, inside, fun _ => ended rfl⟩

omit plain names areLeaves

theorem cutTrivia_noted {token : Lexeme} {leaf : Leaf} {rest other : List Char}
    (cut : Trivia.cut (token.leading.text.toList ++ (token.text.toList ++ rest)) =
      (token.leading, token.text.toList ++ rest)) (some_ : token.text.toList ≠ []) :
    Trivia.cut (token.leading.text.toList ++
        (noteOf note (found leaf) ++ (token.text.toList ++ other))) =
        ((token.noted note (found leaf)).leading, token.text.toList ++ other) ↔
      Trivia.cutComment (token.text.toList ++ other) = none := by
  have behind := cutTrivia_behind cut
  rcases List.exists_cons_of_ne_nil some_ with ⟨first, more, spelled⟩
  have noSpace : Trivia.isSpace first = false := behind.1 first _ (by rw [spelled]; rfl)
  refine ⟨fun again => (cutTrivia_behind again).2.1, fun missing => ?_⟩
  cases isFound : found leaf with
  | false =>
      have again := cutTrivia_exchange (fun _ => missing)
        (.inl (by rw [spelled]; rfl))
        (fun empty => absurd (List.append_eq_nil_iff.1 empty).1 some_) cut
      rw [noteOf, if_neg Bool.false_ne_true, List.nil_append,
        Lexeme.noted, if_neg Bool.false_ne_true]
      exact again
  | true =>
      rcases isNote.exists_inner with ⟨inner, noteSpelled⟩
      have begins : Trivia.cutComments (note.toList ++ (token.text.toList ++ other)) =
          ([⟨.block, note, ""⟩], token.text.toList ++ other) := by
        rw [cutComments_of_some (isNote.cutComment _), spelled,
          List.cons_append, List.takeWhile_cons,
          List.dropWhile_cons, noSpace, if_neg Bool.false_ne_true, if_neg Bool.false_ne_true,
          ← List.cons_append, ← spelled, cutComments_of_none missing, String.ofList_toList]
      have again := cutTrivia_goesOn (.inr fun c rest equal => ?_) (fun _ => begins)
        (fun empty => absurd (List.append_eq_nil_iff.1 empty).1 some_) cut
      · rw [noteOf, if_pos rfl, Lexeme.noted, if_pos rfl]
        exact again
      · rw [noteSpelled] at equal
        rw [← (List.cons.inj equal).1]
        decide


include areLeaves

/-- Behind a slash. -/
theorem cutComment_noteAll {second : Lexeme} {leaf : Leaf} (isLeaf : IsLeafOf second leaf)
    (apart : FallsApart (second :: tokens))
    (missing : Trivia.cutComment ('/' :: charactersOf (second :: tokens)) = none) :
    Trivia.cutComment
      ('/' :: charactersOf (noteAll found note (second :: tokens) (leaf :: leaves))) =
        none ↔
      ¬(leaf.fronts = [] ∧
        (found leaf = true ∨ leaf.text = some "*" ∧ leaves.any found = true)) := by
  rw [cutComment_slash_eq_none_iff] at missing ⊢
  rw [noteAll, List.zipWith_cons_cons, ← noteAll, charactersOf_noted, isLeaf.fronts_eq_nil_iff,
    isLeaf.text, Option.some.injEq]
  rw [charactersOf_cons] at missing
  rcases cutTrivia_starts (apart.cut_leading isLeaf.not_stray) with
    empty | ⟨c, more, spelled, starts⟩
  · have empty_ : second.leading.text.toList = [] := by
      rw [empty]
      rfl
    rw [empty_, List.nil_append] at missing ⊢
    rw [and_iff_right empty]
    cases isFound : found leaf with
    | true =>
        -- the note begins with a slash, and two slashes begin a line comment
        rcases isNote.exists_inner with ⟨inner, noteSpelled⟩
        refine iff_of_false (fun both => ?_) (fun neither => neither (.inl rfl))
        exact both.1 _ (by rw [noteOf, if_pos rfl, noteSpelled, List.cons_append])
    | false =>
        rw [noteOf, if_neg Bool.false_ne_true, List.nil_append]
        cases spelled : second.text.toList with
        | nil =>
            have last := apart.eq_nil spelled
            subst last
            cases areLeaves
            refine iff_of_true ⟨nofun, nofun⟩ ?_
            rintro (found | ⟨star, -⟩)
            · cases found
            · rw [star] at spelled
              cases spelled
        | cons c more =>
            have cut := (apart.cut (by rw [spelled]; exact List.cons_ne_nil _ _)).2
            rw [spelled] at cut missing
            have noSlash : c ≠ '/' := fun slash => missing.1 _ (by rw [slash]; rfl)
            by_cases isStar : c = '*'
            · have single := mark_of_cut (.inr isStar) cut
              subst isStar single
              have unended := missing.2 (charactersOf tokens) rfl
              have star : second.text = "*" := String.toList_inj.1 spelled
              have ended := @cutBlock_noteAll found _ isNote _ _ areLeaves unended
              constructor
              · rintro ⟨-, again⟩ (found | ⟨-, some_⟩)
                · cases found
                · rw [ended.1 (again _ rfl)] at some_
                  cases some_
              · intro neither
                refine ⟨fun _ equal => noSlash (List.cons.inj equal).1, fun rest equal => ?_⟩
                rw [← (List.cons.inj equal).2]
                exact ended.2 (Bool.eq_false_iff.2 fun some_ => neither (.inr ⟨star, some_⟩))
            · refine iff_of_true ⟨fun _ equal => noSlash (List.cons.inj equal).1,
                fun _ equal => absurd (List.cons.inj equal).1 isStar⟩ ?_
              rintro (found | ⟨star, -⟩)
              · cases found
              · rw [star] at spelled
                exact isStar (List.cons.inj spelled).1.symm
  · rw [spelled] at missing ⊢
    have space : Trivia.isSpace c = true := starts.resolve_right fun slash =>
      missing.1 _ (by rw [slash]; rfl)
    have noSlash : c ≠ '/' := by
      rintro rfl
      cases space
    have noStar : c ≠ '*' := by
      rintro rfl
      cases space
    refine iff_of_true ⟨fun _ equal => noSlash (List.cons.inj equal).1,
      fun _ equal => absurd (List.cons.inj equal).1 noStar⟩ fun disturbs => ?_
    rw [disturbs.1] at spelled
    cases spelled

include names plain

/-- The text of a token is cut as before, unless it is the opener of a text block that a note
ends. -/
theorem cutToken_noteAll {second token : Lexeme} {leaf : Leaf} (isLeaf : IsLeafOf second leaf)
    (isPlain : second.Plain) (apart : FallsApart (second :: tokens))
    (cut : token.tokenClass.cut (token.text.toList ++ charactersOf (second :: tokens)) =
      some (token.text.toList, charactersOf (second :: tokens))) :
    token.tokenClass.cut (token.text.toList ++
        charactersOf (noteAll found note (second :: tokens) (leaf :: leaves))) =
        some (token.text.toList,
          charactersOf (noteAll found note (second :: tokens) (leaf :: leaves))) ↔
      ¬(token.text = "\"\"" ∧ leaf.fronts = [] ∧ (∃ more, leaf.text = some ("\"" ++ more)) ∧
        leaves.any found = true ∧ cutTextBlock note.toList ≠ none) := by
  have allLeaves : List.Forall₂ IsLeafOf (second :: tokens) (leaf :: leaves) :=
    .cons isLeaf areLeaves
  have quoted {more : List Char} (spelled : second.text.toList = '"' :: more)
      (nothing : second.leading = .empty) :
      charactersOf (noteAll found note (second :: tokens) (leaf :: leaves)) =
        '"' :: (more ++ charactersOf (noteAll found note tokens leaves)) := by
    have notFound : found leaf = false := by
      rw [← Bool.not_eq_true]
      intro isFound
      rcases isLeaf.exists_wordStart isPlain (names leaf isFound) with ⟨first, rest, again, starts⟩
      rw [spelled] at again
      rw [← (List.cons.inj again).1] at starts
      exact absurd starts (by decide)
    rw [noteAll, List.zipWith_cons_cons, charactersOf_noted, notFound, nothing, spelled, noteOf,
      if_neg Bool.false_ne_true]
    rfl
  constructor
  · rintro again ⟨isQuotes, nothing, ⟨more, spelled⟩, some_, ends⟩
    rw [isLeaf.fronts_eq_nil_iff] at nothing
    rw [isLeaf.text, Option.some.injEq] at spelled
    have opens : second.text.toList = '"' :: more.toList := by
      rw [spelled, String.toList_append]
      rfl
    have goesOn := (not_congr (cutTextBlock_noteAll isNote names areLeaves plain more.toList)).2
      fun both => ends (both.2 some_)
    rcases Option.ne_none_iff_exists'.1 goesOn with ⟨⟨body, left⟩, block⟩
    rw [quoted opens nothing, isQuotes] at again
    have literal : TokenClass.literal.cut ("\"\"".toList ++
        '"' :: (more.toList ++ charactersOf (noteAll found note tokens leaves))) =
        some (tripleQuote ++ body, left) := by
      show cutLiteral ('"' :: '"' :: '"' :: _) = _
      rw [cutLiteral, block]
    have same := (cutToken_eq_some_iff.2 again).symm.trans (cutToken_eq_some_iff.2 literal)
    exact absurd (congrArg List.length (Prod.mk.inj (Prod.mk.inj (Option.some.inj same)).2).1)
      (by simp [tripleQuote])
  · intro undisturbed
    refine token.tokenClass.cut_goesOn (goesOnLess_noteAll isNote allLeaves) ?_
      (fun _ => head_noteAll isNote allLeaves (by decide))
      (fun _ => head_noteAll isNote allLeaves (by decide)) cut
    intro isQuotes rest rest' equal equal' missing
    rcases cutTrivia_starts (apart.cut_leading isLeaf.not_stray) with
      nothing | ⟨c, more, spelled, starts⟩
    · cases spelled : second.text.toList with
      | nil =>
          rw [charactersOf_cons, nothing, spelled, apart.eq_nil spelled] at equal
          cases equal
      | cons c more =>
          rw [charactersOf_cons, nothing, spelled] at equal
          rcases List.cons.inj equal with ⟨rfl, rfl⟩
          rw [quoted spelled nothing] at equal'
          rw [← (List.cons.inj equal').2, cutTextBlock_noteAll isNote names areLeaves plain]
          refine ⟨missing, fun some_ => by_contra fun ends =>
            undisturbed ⟨String.toList_inj.1 isQuotes,
            isLeaf.fronts_eq_nil_iff.2 nothing, ⟨String.ofList more, ?_⟩, some_, ends⟩⟩
          rw [isLeaf.text, Option.some.injEq, ← String.toList_inj, spelled, String.toList_append,
            @String.toList_ofList more]
          rfl
    · rw [charactersOf_cons, spelled] at equal
      rw [(List.cons.inj equal).1] at starts
      exact absurd starts (by decide)

end

/-- Where notes are put in front of names the text falls into the same tokens, with the notes in
front, if and only if they disturb no place. -/
theorem fallsApart_noteAll_iff {found : Leaf → Bool} {note : String} (isNote : IsNote note)
    (names : ∀ leaf, found leaf = true → leaf.kind = .identifier) {tokens : List Lexeme}
    {leaves : List Leaf} (areLeaves : List.Forall₂ IsLeafOf tokens leaves)
    (apart : FallsApart tokens) :
    FallsApart (noteAll found note tokens leaves) ↔ ¬Disturbed found note leaves := by
  induction areLeaves with
  | nil => exact absurd rfl apart.ne_nil
  | @cons token leaf tokens leaves isLeaf others induction =>
      have plain := CutInto.plain apart (map_of_isLeafOf (.cons isLeaf others)).2.2.1
      rw [List.forall_mem_cons] at plain
      cases others with
      | nil =>
          have notFound : found leaf = false := by
            rw [← Bool.not_eq_true]
            intro isFound
            rcases isLeaf.exists_wordStart plain.1 (names leaf isFound) with
              ⟨first, more, spelled, -⟩
            exact (apart.cut (by rw [spelled]; exact List.cons_ne_nil _ _)).1 rfl
          refine iff_of_true ?_ id
          rw [noteAll, List.zipWith_cons_cons, notFound, Lexeme.noted, if_neg Bool.false_ne_true]
          exact apart
      | @cons second next tokens leaves isNext others =>
          have some_ : token.text.toList ≠ [] := fun nothing => by cases apart.eq_nil nothing
          rw [List.forall_mem_cons] at plain
          have cut := (apart.cut some_).2
          have leading := apart.cut_leading isLeaf.not_stray
          rw [charactersOf_cons] at leading
          have behind := ((fallsApart_cons_iff (List.cons_ne_nil _ _)).1 apart).2.2
          have text := cutToken_noteAll isNote names others plain.2.2 isNext plain.2.1 behind cut
          have comment : Trivia.cutComment (token.text.toList ++
                charactersOf (noteAll found note (second :: tokens) (next :: leaves))) = none ↔
              ¬(token.text = "/" ∧ next.fronts = [] ∧
                (found next = true ∨ next.text = some "*" ∧ leaves.any found = true)) := by
            by_cases slash : token.text = "/"
            · rw [slash] at leading ⊢
              have missing := (cutTrivia_behind leading).2.1
              rw [and_iff_right rfl]
              exact cutComment_noteAll isNote others isNext behind missing
            · refine iff_of_true (cutComment_of_noSlash fun c more equal isSlash => ?_) fun both =>
                slash both.1
              rcases List.exists_cons_of_ne_nil some_ with ⟨first, rest, spelled⟩
              rw [spelled] at equal cut
              rw [(List.cons.inj equal).1, isSlash] at spelled cut
              rw [mark_of_cut (.inl rfl) cut] at spelled
              exact slash (String.toList_inj.1 spelled)
          have more : noteAll found note (second :: tokens) (next :: leaves) ≠ [] :=
            List.cons_ne_nil _ _
          have whole := charactersOf_noted note token (found leaf)
            (noteAll found note (second :: tokens) (next :: leaves))
          rw [charactersOf_cons, text_noted] at whole
          have step := @fallsApart_cons_iff (token.noted note (found leaf)) _ more
          rw [text_noted, tokenClass_noted, whole, text, induction behind] at step
          rw [cutTrivia_noted isNote leading some_, comment] at step
          refine step.trans ?_
          rw [Disturbed, Disturbs, isLeaf.text, Option.some.injEq,
            Option.some.injEq, not_or, not_or, and_assoc]

/-! ## Leaves with notes -/

theorem IsLeafOf.headD_fronts {token : Lexeme} {leaf : Leaf} (isLeaf : IsLeafOf token leaf) :
    leaf.fronts.headD .empty = token.leading := by
  rw [isLeaf.fronts, List.filter_cons, List.filter_nil]
  cases empty : token.leading.isEmpty with
  | true => exact (Trivia.eq_empty_of_isEmpty empty).symm
  | false => rfl

theorem IsLeafOf.noted {token : Lexeme} {leaf : Leaf} (isLeaf : IsLeafOf token leaf) (note : String)
    (isFound : Bool) : IsLeafOf (token.noted note isFound) (leaf.noted note isFound) := by
  cases isFound with
  | false => exact isLeaf
  | true =>
      rcases isLeaf.kind with ⟨wanted, accepted⟩
      refine ⟨?_, isLeaf.text, wanted, (accepts_of_shape rfl wanted).trans accepted⟩
      rw [Leaf.noted, if_pos rfl, Lexeme.noted, if_pos rfl, isLeaf.headD_fronts]
      simp [Trivia.isEmpty]

theorem leaves_noteAll {tokens : List Lexeme} {leaves : List Leaf}
    (areLeaves : List.Forall₂ IsLeafOf tokens leaves) (found : Leaf → Bool) (note : String) :
    List.Forall₂ IsLeafOf (noteAll found note tokens leaves)
      (leaves.map fun leaf => leaf.noted note (found leaf)) := by
  induction areLeaves with
  | nil => exact .nil
  | cons isLeaf _ induction => exact .cons (isLeaf.noted note _) induction

/-! ## Reading what was put together -/

theorem CutInto.alike {cs : List Char} {tokens others : List Lexeme} (cut : CutInto cs tokens)
    (alike : List.Forall₂ (fun token other => token.leading = other.leading ∧
      token.shape = other.shape) tokens others) : CutInto cs others := by
  induction cut generalizing others with
  | token leading found spelling _ induction =>
      cases alike with
      | cons same later =>
          rcases Prod.mk.inj same.2 with ⟨tokenClass, text⟩
          exact .token (same.1 ▸ leading) (tokenClass ▸ found) (text ▸ spelling) (induction later)
  | last leading missing tokenClass spelling =>
      cases alike with
      | cons same later =>
          cases later
          rcases Prod.mk.inj same.2 with ⟨sameClass, text⟩
          exact .last (same.1 ▸ leading) missing (sameClass ▸ tokenClass) (text ▸ spelling)

theorem alike_of_leaves {tokens others : List Lexeme} {leaves : List Leaf}
    (areLeaves : List.Forall₂ IsLeafOf tokens leaves)
    (otherLeaves : List.Forall₂ IsLeafOf others leaves)
    (plain : ∀ token ∈ tokens, token.Plain) (otherPlain : ∀ token ∈ others, token.Plain) :
    List.Forall₂ (fun token other => token.leading = other.leading ∧ token.shape = other.shape)
      tokens others := by
  induction areLeaves generalizing others with
  | nil =>
      cases otherLeaves
      exact .nil
  | cons isLeaf _ induction =>
      cases otherLeaves with
      | cons otherLeaf otherLater =>
          rw [List.forall_mem_cons] at plain otherPlain
          refine .cons ⟨?_, Lexeme.shape_eq_of_text plain.1 otherPlain.1 ?_⟩
            (induction otherLater plain.2 otherPlain.2)
          · rw [← isLeaf.headD_fronts, otherLeaf.headD_fronts]
          · exact Option.some.inj (isLeaf.text.symm.trans otherLeaf.text)

theorem leaves_eq_of_kinds {tokens : List Lexeme} {leaves others : List Leaf}
    (areLeaves : List.Forall₂ IsLeafOf tokens leaves)
    (otherLeaves : List.Forall₂ IsLeafOf tokens others)
    (kinds : leaves.filterMap (fun leaf => leaf.text.map (leaf.kind, ·)) =
      others.filterMap fun leaf => leaf.text.map (leaf.kind, ·)) : leaves = others := by
  induction areLeaves generalizing others with
  | nil =>
      cases otherLeaves
      rfl
  | @cons token leaf _ _ isLeaf _ induction =>
      cases otherLeaves with
      | @cons _ other _ _ otherLeaf otherLater =>
          rw [List.filterMap_cons, List.filterMap_cons, isLeaf.text, otherLeaf.text] at kinds
          rcases List.cons.inj kinds with ⟨same, later⟩
          have equal : leaf = other := by
            rcases leaf with ⟨fronts, kind, text⟩
            rcases other with ⟨others, kind', text'⟩
            rw [Leaf.mk.injEq]
            exact ⟨isLeaf.fronts.trans otherLeaf.fronts.symm, (Prod.mk.inj same).1,
              isLeaf.text.trans otherLeaf.text.symm⟩
          rw [equal, induction otherLater later]

theorem filterMap_leaves_of_parse {text : String} {tree : Node} (parsed : parse text = .ok tree) :
    tree.leaves.filterMap (fun leaf => leaf.text.map (leaf.kind, ·)) = tree.tokens :=
  Node.filterMap_leavesBehind ((parse_readFrom parsed).regular.mono fun _ =>
    Node.Regular.textOrChildren) []

/-- Tokens with the texts of a file that was read are put together to a file of the same tree,
and are the leaves of it, if and only if the characters fall into just these tokens. -/
theorem parse_charactersOf_iff {text : String} {read : Node} (parsed : parse text = .ok read)
    {tokens : List Lexeme} {leaves : List Leaf} (areLeaves : List.Forall₂ IsLeafOf tokens leaves)
    (plain : ∀ token ∈ tokens, token.Plain)
    (kinds : leaves.filterMap (fun leaf => leaf.text.map (leaf.kind, ·)) = read.tokens) :
    (∃ reparsed, parse (String.ofList (charactersOf tokens)) = .ok reparsed ∧
      reparsed.bare = read.bare ∧ reparsed.leaves = leaves) ↔ FallsApart tokens := by
  constructor
  · rintro ⟨reparsed, again, -, rfl⟩
    have cut := lexemes_cutInto (String.ofList (charactersOf tokens))
    rw [String.toList_ofList] at cut
    exact cut.alike (alike_of_leaves (leaves_of_parse again) areLeaves (plain_of_parse again) plain)
  · intro apart
    have cut := lexemes_cutInto (String.ofList (charactersOf tokens))
    rw [String.toList_ofList] at cut
    have otherLeaves := leaves_of_alike areLeaves (CutInto.unique apart cut)
    rcases reads_of_parse parsed with ⟨root, reads, bare⟩
    have texts : tokenTexts? (String.ofList (charactersOf tokens)) =
        some ((lexemes text).map (·.text)) := by
      refine tokenTexts?_eq_some_iff.2 ⟨(map_of_isLeafOf otherLeaves).2.2.1, ?_⟩
      have whole (leaves : List Leaf) : leaves.filterMap (·.text) =
          (leaves.filterMap fun leaf => leaf.text.map (leaf.kind, ·)).map Prod.snd := by
        rw [List.map_filterMap]
        exact List.filterMap_congr fun leaf _ => by cases leaf.text <;> rfl
      rw [← (map_of_isLeafOf otherLeaves).2.1,
        ← (map_of_isLeafOf (leaves_of_parse parsed)).2.1, whole,
        whole, kinds, filterMap_leaves_of_parse parsed]
    rcases parse_of_tokenTexts reads (plain_of_parse parsed) texts with ⟨reparsed, again, same⟩
    refine ⟨reparsed, again, same.trans bare.symm,
      leaves_eq_of_kinds (leaves_of_parse again) otherLeaves ?_⟩
    rw [kinds, filterMap_leaves_of_parse again, ← Node.tokens_bare, same, ← bare, Node.tokens_bare]

theorem plain_noteAll {tokens : List Lexeme} (plain : ∀ token ∈ tokens, token.Plain)
    (found : Leaf → Bool) (note : String) (leaves : List Leaf) :
    ∀ token ∈ noteAll found note tokens leaves, token.Plain := by
  induction tokens generalizing leaves with
  | nil => exact nofun
  | cons token tokens induction =>
      cases leaves with
      | nil => exact nofun
      | cons leaf leaves =>
          rw [List.forall_mem_cons] at plain
          refine List.forall_mem_cons.2 ⟨?_, induction plain.2 leaves⟩
          rw [Lexeme.Plain, text_noted, tokenClass_noted]
          exact plain.1

/-- A file with notes in front of names is read as the same tree, with the notes in front of these
leaves, if and only if no place is disturbed. -/
theorem parse_noteAll_iff {text : String} {read : Node} (parsed : parse text = .ok read)
    {found : Leaf → Bool} {note : String} (isNote : IsNote note)
    (names : ∀ leaf, found leaf = true → leaf.kind = .identifier) :
    (∃ reparsed,
      parse (String.ofList (charactersOf (noteAll found note (lexemes text) read.leaves))) =
        .ok reparsed ∧ reparsed.bare = read.bare ∧
      reparsed.leaves = read.leaves.map fun leaf => leaf.noted note (found leaf)) ↔
      ¬Disturbed found note read.leaves := by
  have areLeaves := leaves_of_parse parsed
  rw [parse_charactersOf_iff parsed (leaves_noteAll areLeaves found note)
    (plain_noteAll (plain_of_parse parsed) found note _),
    fallsApart_noteAll_iff isNote names areLeaves
      (fallsApart_lexemes parsed)]
  rw [List.filterMap_map, ← filterMap_leaves_of_parse parsed]
  refine List.filterMap_congr fun leaf _ => ?_
  rw [Function.comp, Leaf.noted]
  split <;> rfl

end Java

end Verbatim
