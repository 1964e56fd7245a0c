import Verbatim.Proofs.Java.Firsts
import Verbatim.Proofs.Java.Spelling

/-! The words of a file. Whichever rule takes a word that is not reserved, it becomes an
identifier, but for the word that introduces permitted subtypes, which is a keyword there and
may be a name elsewhere. -/

namespace Verbatim.Java

/-- The word that introduces permitted subtypes. -/
def permits : String := "permits"

def Wanted.isStable : Wanted → Bool
  | keyword word => isReserved word
  | _ => true

theorem Wanted.accepts_free {wanted : Wanted} (stable : wanted.isStable = true) {token : Lexeme}
    (free : token.Free) : wanted.accepts token =
      if wanted = .identifier ∨ wanted = .plain then some .identifier else none := by
  rcases free with ⟨isWord, free⟩
  have noModifier : token.text ∉ modifiers := fun inside => by
    rw [(modifier_words _ inside).1] at free
    cases free
  have noPrimitive : token.text ∉ primitiveTypes := fun inside => by
    rw [primitive_words _ inside] at free
    cases free
  have noLiteral : token.text ∉ ["true", "false", "null"] := fun inside => by
    rw [(by decide : ∀ word ∈ ["true", "false", "null"], isReserved word = true) _ inside] at free
    cases free
  cases wanted with
  | keyword word =>
      have different : token.text ≠ word := by
        rintro rfl
        rw [isStable, free] at stable
        cases stable
      simp [accepts, isWord, different]
  | identifier => simp [accepts, isWord, free]
  | modifier => simp [accepts, isWord, noModifier]
  | primitive => simp [accepts, isWord, noPrimitive]
  | punctuation text => simp [accepts, isWord]
  | plain =>
      have kind : wordKind token.text = .identifier := by
        rw [wordKind, if_neg (by simpa using noLiteral), if_neg (by simp [free])]
      simp [accepts, isWord, kind]
  | endOfText => simp [accepts, isWord]

theorem stable_body (name : Rule) : (Rule.body name).Only
    (fun wanted => wanted.isStable || wanted = .keyword permits) (fun _ => true) = true := by
  revert name
  decide

theorem kind_of_free {token : Lexeme} (free : token.Free) (other : token.text ≠ permits)
    {wanted : Wanted} (known : (wanted.isStable || decide (wanted = .keyword permits)) = true)
    {kind : Kind} (accepted : wanted.accepts token = some kind) : kind = .identifier := by
  rw [Bool.or_eq_true, decide_eq_true_eq] at known
  rcases known with stable | rfl
  · rw [Wanted.accepts_free stable free] at accepted
    split at accepted
    · exact (Option.some.inj accepted).symm
    · cases accepted
  · simp [Wanted.accepts, free.1, other] at accepted

/-- The leaf of a token; that of a free word is an identifier. -/
structure IsNamedLeafOf (token : Lexeme) (leaf : Node.Leaf) : Prop extends IsLeafOf token leaf where
  named : token.Free → token.text ≠ permits → leaf.kind = .identifier

theorem isNamedLeafOf_of_wanted {tokens : List Lexeme} {leaves : List Node.Leaf}
    (areLeaves : List.Forall₂ IsLeafOf tokens leaves)
    (wanted : List.Forall₂ (fun token lexeme => token.2 = lexeme.text ∧ ∃ wanted : Wanted,
      (wanted.isStable || decide (wanted = .keyword permits)) = true ∧
      wanted.accepts lexeme = some token.1)
      (leaves.filterMap fun leaf => leaf.text.map (leaf.kind, ·)) tokens) :
    List.Forall₂ IsNamedLeafOf tokens leaves := by
  induction areLeaves with
  | nil => exact .nil
  | cons isLeaf _ induction =>
      rw [List.filterMap_cons, isLeaf.text] at wanted
      cases wanted with
      | cons here later =>
          rcases here with ⟨-, wanted, known, accepted⟩
          exact .cons ⟨isLeaf, fun free other => kind_of_free free other known accepted⟩
            (induction later)

theorem namedLeaves_of_parse {text : String} {tree : Node} (parsed : parse text = .ok tree) :
    List.Forall₂ IsNamedLeafOf (lexemes text) tree.leaves := by
  rcases reads_of_parse parsed with ⟨root, reads, bare⟩
  rcases reads.yields rfl with ⟨taken, all, yields⟩
  rw [List.append_nil] at all
  subst all
  have wanted := yields.takenAsWanted (fun name _ => stable_body name) rfl
  rw [List.flatMap_singleton, ← Node.tokens_bare, ← bare, Node.tokens_bare,
    ← Node.filterMap_leavesBehind ((parse_readFrom parsed).regular.mono fun _ =>
      Node.Regular.textOrChildren) []] at wanted
  exact isNamedLeafOf_of_wanted (leaves_of_parse parsed) wanted

end Verbatim.Java
