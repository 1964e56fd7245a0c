import Verbatim.Language
import Verbatim.Proofs.Java.Counting

/-! What the readers of all languages give: a tree that lies in its text from the first byte to the
last, made of tokens that have text and of nodes that have children, and numbered one node after the
other. -/

namespace Verbatim

namespace Node

/-- A tree as a reader gives it. -/
structure ReadFrom (text : String) (tree : Node) : Prop where
  lies : tree.Sealed text 0 text.utf8ByteSize
  regular : tree.Everywhere Regular

theorem ReadFrom.written {text : String} {tree : Node} (read : tree.ReadFrom text) :
    tree.written = text :=
  read.lies.standsAt.eq_of_whole

theorem readFrom_of_sealAgainst {text : String} {root tree : Node}
    (treeSealed : root.sealAgainst text = .ok tree) (regular : root.Everywhere Regular) :
    tree.ReadFrom text := by
  rcases sealAgainst_sealed treeSealed with ⟨lies, same⟩
  refine ⟨lies, ?_⟩
  rw [← everywhere_regular_bare_iff, ← bare_withoutOrigins, same, bare_withoutOrigins,
    everywhere_regular_bare_iff]
  exact regular

end Node

theorem Java.parse_readFrom {text : String} {tree : Node} (parsed : Java.parse text = .ok tree) :
    tree.ReadFrom text := by
  cases fits : (readTokens (lexemes text)).result with
  | none =>
      rw [parse_of_readTokens_none fits] at parsed
      cases parsed
  | some pair =>
      rcases readTokens_lexemes fits with ⟨_, _, root, _, _, _, _, nodesEqual, _, covers, _⟩
      rcases parse_of_readTokens fits with ⟨same, other, sameEqual, treeSealed, otherParsed, -⟩
      rw [parsed] at otherParsed
      cases otherParsed
      rw [nodesEqual] at sameEqual
      cases sameEqual
      apply Node.readFrom_of_sealAgainst treeSealed
      rw [← Node.everywhere_regular_bare_iff, Node.bare_hoist, Node.everywhere_regular_bare_iff]
      exact covers.regular root (List.mem_singleton_self root)

theorem Language.bare_of_readPlainText {text : String} {tree : Node}
    (read : Language.readPlainText text = .ok tree) :
    tree.bare = (Node.branch .sourceFile [Node.token .plainText text]).bare := by
  have same := congrArg Node.bare (Node.sealAgainst_sealed read).2
  rw [Node.bare_withoutOrigins, Node.bare_withoutOrigins] at same
  exact same

theorem Language.readPlainText_readFrom {text : String} {tree : Node}
    (read : Language.readPlainText text = .ok tree) : tree.ReadFrom text := by
  apply Node.readFrom_of_sealAgainst read
  rw [Node.everywhere_iff]
  refine ⟨⟨rfl, .inr ⟨rfl, rfl, List.cons_ne_nil _ _⟩⟩, fun child member => ?_⟩
  rw [List.mem_singleton.1 member, Node.everywhere_iff]
  exact ⟨⟨rfl, .inl ⟨rfl, rfl, rfl⟩⟩, fun below inside => absurd inside List.not_mem_nil⟩

namespace Language

/-! ## Numbers -/

/-- Numbers are given out from the given one on, and nothing else depends on them. -/
structure Counts (language : Language) : Prop where
  add : ∀ first distance text, language.read (first + distance) text =
    ((language.read first text).1.map (Node.renumber (.shift distance)),
      (language.read first text).2 + distance)
  lt_next : ∀ {first : Nat} {text : String} {tree : Node},
    (language.read first text).1 = .ok tree →
    ∀ number ∈ tree.numbers, number < (language.read first text).2

theorem java_counts : java.Counts where
  add first distance text := Prod.ext (Java.parseElements_add first distance text)
    (Java.nextElement_add first distance text)
  lt_next := Java.lt_nextElement

theorem readPlainElements_withoutIds (first : Nat) (text : String) :
    (readPlainElements first text).map Node.withoutIds = readPlainText text := by
  rw [readPlainElements, readPlainText, ← Node.sealAgainst_withoutIds]
  rfl

theorem plainText_counts : plainText.Counts where
  add first distance text := by
    refine Prod.ext ?_ (Nat.add_right_comm first distance 2)
    show readPlainElements (first + distance) text =
      (readPlainElements first text).map (Node.renumber (.shift distance))
    rw [readPlainElements, readPlainElements, ← Node.sealAgainst_renumber,
      Nat.add_right_comm first distance 1]
    rfl
  lt_next {first text tree} read := by
    have keeps (head : NodeHead) : ({ head with origin := none } : NodeHead).id = head.id := rfl
    have same : tree.numbers = [first + 1, first] := by
      rw [← Node.numbers_mapHeads keeps tree]
      exact (congrArg Node.numbers (Node.sealAgainst_sealed read).2).trans rfl
    intro number member
    show number < first + 2
    rw [same, List.mem_cons, List.mem_singleton] at member
    omega

theorem counts_of_mem_standard {language : Language} (known : language ∈ standard) :
    language.Counts := by
  rcases List.mem_cons.1 known with rfl | known
  · exact java_counts
  · exact List.mem_singleton.1 known ▸ plainText_counts

end Language

end Verbatim
