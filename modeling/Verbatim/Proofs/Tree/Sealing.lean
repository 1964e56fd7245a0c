import Verbatim.Proofs.Text.Slices
import Verbatim.Proofs.Tree.Views
import Verbatim.Tree.Seal

/-! What sealing leaves behind. A sealed node lies in its source: its formatting, its text and its
children stand there one behind the other, and its origin is the range they take up together. -/

namespace Verbatim

open Text (StandsAt)

theorem exceptBind_eq_ok {ε α β : Type} {first : Except ε α} {next : α → Except ε β} {result : β} :
    first >>= next = .ok result ↔ ∃ value, first = .ok value ∧ next value = .ok result := by
  cases first with
  | error fault => simp [bind, Except.bind]
  | ok value => simp [bind, Except.bind]

namespace Scan

def Within (scan : Scan) (source : String) : Prop :=
  ∃ passed, source = passed ++ String.ofList scan.rest ∧ scan.offset = passed.utf8ByteSize

theorem within_ofText (text : String) : (ofText text).Within text :=
  ⟨"", by simp [ofText], by simp [ofText]⟩

theorem pass_eq_ok_iff (scan next : Scan) (piece : String) :
    scan.pass piece = .ok next ↔ scan.rest = piece.toList ++ next.rest ∧
      next.offset = scan.offset + piece.utf8ByteSize ∧
      next.position = scan.position.advance piece := by
  rcases next with ⟨rest, offset, position⟩
  rw [pass]
  split
  next found left equal =>
    rw [dropFront?_eq_some_iff] at equal
    simp [equal, eq_comm]
  next missing =>
    simp only [reduceCtorEq, false_iff]
    rintro ⟨equal, -, -⟩
    rw [(dropFront?_eq_some_iff _ _ _).2 equal] at missing
    cases missing

theorem pass_standsAt {scan next : Scan} {piece source : String} (within : scan.Within source)
    (passed : scan.pass piece = .ok next) :
    next.Within source ∧ StandsAt source scan.offset next.offset piece := by
  rcases (pass_eq_ok_iff _ _ _).1 passed with ⟨restEqual, offsetEqual, -⟩
  rcases within with ⟨front, rfl, frontSize⟩
  rw [restEqual, String.ofList_append, String.ofList_toList]
  refine ⟨⟨front ++ piece, by rw [String.append_assoc], ?_⟩,
    front, String.ofList next.rest, by rw [String.append_assoc], frontSize, offsetEqual⟩
  rw [offsetEqual, frontSize, String.utf8ByteSize_append]

theorem passAll_cons_eq_ok_iff (scan last : Scan) (piece : String) (pieces : List String) :
    scan.passAll (piece :: pieces) = .ok last ↔
      ∃ next, scan.pass piece = .ok next ∧ next.passAll pieces = .ok last := by
  simp only [passAll, List.foldlM_cons, exceptBind_eq_ok]

theorem passAll_standsAt {scan last : Scan} {pieces : List String} {source : String}
    (within : scan.Within source) (passed : scan.passAll pieces = .ok last) :
    last.Within source ∧ StandsAt source scan.offset last.offset (String.join pieces) := by
  induction pieces generalizing scan with
  | nil =>
      cases passed
      rcases within with ⟨front, sourceEqual, size⟩
      exact ⟨⟨front, sourceEqual, size⟩, front, String.ofList last.rest,
        by simp [sourceEqual, String.join_nil], size, by simp [String.join_nil]⟩
  | cons piece pieces induction =>
      rcases (passAll_cons_eq_ok_iff _ _ _ _).1 passed with ⟨next, first, others⟩
      rcases pass_standsAt within first with ⟨nextWithin, here⟩
      rcases induction nextWithin others with ⟨lastWithin, there⟩
      rw [String.join_cons]
      exact ⟨lastWithin, here.append there⟩

theorem passAll_of_rest {scan : Scan} {pieces : List String} {rest : List Char}
    (equal : scan.rest = (String.join pieces).toList ++ rest) :
    ∃ last, scan.passAll pieces = .ok last ∧ last.rest = rest := by
  induction pieces generalizing scan with
  | nil => exact ⟨scan, rfl, by simpa [String.join_nil] using equal⟩
  | cons piece pieces induction =>
      rw [String.join_cons, String.toList_append, List.append_assoc] at equal
      let next : Scan := ⟨(String.join pieces).toList ++ rest, scan.offset + piece.utf8ByteSize,
        scan.position.advance piece⟩
      have first : scan.pass piece = .ok next := (pass_eq_ok_iff _ _ _).2 ⟨equal, rfl, rfl⟩
      have behind : next.rest = (String.join pieces).toList ++ rest := rfl
      rcases induction behind with ⟨last, others, lastRest⟩
      exact ⟨last, (passAll_cons_eq_ok_iff _ _ _ _).2 ⟨next, first, others⟩, lastRest⟩

end Scan

namespace Node

/-! ## Sealed trees -/

mutual

/-- The node lies in the source at the bytes from `start` up to `stop`, and so do all nodes below it
between its text and its trailing formatting. -/
def Sealed (source : String) (start stop : Nat) : Node → Prop
  | ⟨head, children⟩ => ∃ leading span position inner behind,
      head.leading = some leading ∧ head.origin = some ⟨source, span, position⟩ ∧
      span.start = start ∧ span.stop = stop ∧
      StandsAt source start inner (leading.text ++ head.text.getD "") ∧
      SealedInTurn source inner behind children ∧
      StandsAt source behind stop head.trailing.text

/-- The nodes lie in the source one behind the other. -/
def SealedInTurn (source : String) (start stop : Nat) : List Node → Prop
  | [] => StandsAt source start stop ""
  | node :: rest => ∃ middle, node.Sealed source start middle ∧ SealedInTurn source middle stop rest

end

theorem Sealed.standsAt {source : String} {start stop : Nat} {node : Node}
    (lies : node.Sealed source start stop) : StandsAt source start stop node.written := by
  induction node using Node.induction generalizing start stop with
  | step node induction =>
      rcases node with ⟨head, children⟩
      rcases lies with ⟨leading, span, position, inner, behind, leadingEqual, -, -, -, front,
        inside, back⟩
      have middle : StandsAt source inner behind (writtenOfAll children) := by
        clear front back
        induction children generalizing inner with
        | nil => exact inside
        | cons first rest inductionRest =>
            rcases inside with ⟨place, here, there⟩
            have firstText := induction first List.mem_cons_self here
            have restText := inductionRest
              (fun child member => induction child (List.mem_cons_of_mem _ member)) place there
            exact firstText.append restText
      rw [written, leadingEqual]
      exact (front.append middle).append back

theorem Sealed.exists_origin {source : String} {start stop : Nat} {node : Node}
    (lies : node.Sealed source start stop) :
    ∃ origin, node.origin = some origin ∧ origin.source = source ∧ origin.span.start = start ∧
      origin.span.stop = stop ∧ origin.text = node.written := by
  have stands := lies.standsAt
  rcases node with ⟨head, children⟩
  rcases lies with ⟨_, span, position, _, _, -, originEqual, rfl, rfl, -, -, -⟩
  refine ⟨⟨source, span, position⟩, originEqual, rfl, rfl, rfl, ?_⟩
  rw [Origin.text, stands.slice?, Option.getD_some]

theorem SealedInTurn.start_le_stop {source : String} {start stop : Nat} {nodes : List Node}
    (lie : SealedInTurn source start stop nodes) : start ≤ stop := by
  induction nodes generalizing start with
  | nil => exact StandsAt.start_le_stop lie
  | cons first rest induction =>
      rcases lie with ⟨middle, here, there⟩
      have before := here.standsAt.start_le_stop
      have behind := induction there
      omega

/-- The formatting of the node is decided. -/
def Formatted (node : Node) : Prop := node.leading.isSome

theorem Sealed.formatted {source : String} {start stop : Nat} {node : Node}
    (lies : node.Sealed source start stop) : node.Formatted := by
  rcases node with ⟨head, children⟩
  rcases lies with ⟨leading, _, _, _, _, leadingEqual, -⟩
  exact Option.isSome_iff_exists.2 ⟨leading, leadingEqual⟩

/-! ## Sealing -/

theorem sealFrom_eq_ok_iff {source : String} {scan after : Scan} {head : NodeHead}
    {children : List Node} {sealed : Node} :
    sealFrom source scan ⟨head, children⟩ = .ok (sealed, after) ↔
      ∃ leading front inside sealedChildren behind, head.leading = some leading ∧
        scan.passAll leading.pieces = .ok front ∧
        front.passAll head.text.toList = .ok inside ∧
        sealAllFrom source inside children = .ok (sealedChildren, behind) ∧
        behind.passAll head.trailing.pieces = .ok after ∧
        sealed = ⟨{ head with
          origin := some ⟨source, spanBetween scan.offset after.offset, front.position⟩ },
          sealedChildren⟩ := by
  rw [sealFrom]
  cases head.leading with
  | none => simp
  | some leading =>
      simp only [exceptBind_eq_ok, Prod.exists, pure, Except.pure, Except.ok.injEq, Prod.mk.injEq]
      constructor
      · rintro ⟨front, passed, inside, insidePassed, sealedChildren, behind, childrenSealed, last,
          lastPassed, rfl, rfl⟩
        exact ⟨leading, front, inside, sealedChildren, behind, rfl, passed, insidePassed,
          childrenSealed, lastPassed, rfl⟩
      · rintro ⟨given, front, inside, sealedChildren, behind, same, passed, insidePassed,
          childrenSealed, lastPassed, rfl⟩
        cases same
        exact ⟨front, passed, inside, insidePassed, sealedChildren, behind, childrenSealed, after,
          lastPassed, rfl, rfl⟩

theorem sealAllFrom_cons_eq_ok_iff {source : String} {scan after : Scan} {node : Node}
    {rest sealed : List Node} :
    sealAllFrom source scan (node :: rest) = .ok (sealed, after) ↔
      ∃ first middle others, sealFrom source scan node = .ok (first, middle) ∧
        sealAllFrom source middle rest = .ok (others, after) ∧ sealed = first :: others := by
  rw [sealAllFrom]
  simp only [exceptBind_eq_ok, Prod.exists, pure, Except.pure, Except.ok.injEq, Prod.mk.injEq]
  constructor
  · rintro ⟨first, middle, firstSealed, others, last, othersSealed, rfl, rfl⟩
    exact ⟨first, middle, others, firstSealed, othersSealed, rfl⟩
  · rintro ⟨first, middle, others, firstSealed, othersSealed, rfl⟩
    exact ⟨first, middle, firstSealed, others, after, othersSealed, rfl, rfl⟩

mutual

theorem sealFrom_sealed {source : String} : ∀ {scan after : Scan} {node sealed : Node},
    scan.Within source → node.sealFrom source scan = .ok (sealed, after) →
    after.Within source ∧ sealed.Sealed source scan.offset after.offset ∧
      sealed.withoutOrigins = node.withoutOrigins
  | scan, after, ⟨head, children⟩, sealed, within, succeeded => by
      rcases sealFrom_eq_ok_iff.1 succeeded with ⟨leading, front, inside, sealedChildren, behind,
        leadingEqual, leadingPassed, textPassed, childrenSealed, trailingPassed, rfl⟩
      rcases Scan.passAll_standsAt within leadingPassed with ⟨frontWithin, leadingStands⟩
      rcases Scan.passAll_standsAt frontWithin textPassed with ⟨insideWithin, textStands⟩
      rcases sealAllFrom_sealed insideWithin childrenSealed with
        ⟨behindWithin, childrenLie, childrenSame⟩
      rcases Scan.passAll_standsAt behindWithin trailingPassed with ⟨afterWithin, trailingStands⟩
      have textEqual : String.join head.text.toList = head.text.getD "" := by
        cases head.text <;> simp
      rw [textEqual] at textStands
      have ordered : scan.offset ≤ after.offset := by
        have first := leadingStands.start_le_stop
        have second := textStands.start_le_stop
        have third := SealedInTurn.start_le_stop childrenLie
        have fourth := trailingStands.start_le_stop
        omega
      refine ⟨afterWithin, ⟨leading, spanBetween scan.offset after.offset, front.position,
        inside.offset, behind.offset, leadingEqual, rfl, rfl, ?_, leadingStands.append textStands,
        childrenLie, trailingStands⟩, ?_⟩
      · simp only [spanBetween]
        omega
      · rw [withoutOrigins_mk, withoutOrigins_mk, childrenSame]

theorem sealAllFrom_sealed {source : String} : ∀ {scan after : Scan} {nodes sealed : List Node},
    scan.Within source → sealAllFrom source scan nodes = .ok (sealed, after) →
    after.Within source ∧ SealedInTurn source scan.offset after.offset sealed ∧
      sealed.map withoutOrigins = nodes.map withoutOrigins
  | scan, after, [], sealed, within, succeeded => by
      rw [sealAllFrom] at succeeded
      cases succeeded
      rcases within with ⟨front, sourceEqual, size⟩
      exact ⟨⟨front, sourceEqual, size⟩,
        ⟨front, String.ofList scan.rest, by simp [sourceEqual], size, by simp⟩, rfl⟩
  | scan, after, node :: rest, sealed, within, succeeded => by
      rcases sealAllFrom_cons_eq_ok_iff.1 succeeded with
        ⟨first, middle, others, firstSealed, othersSealed, rfl⟩
      rcases sealFrom_sealed within firstSealed with ⟨middleWithin, firstLies, firstSame⟩
      rcases sealAllFrom_sealed middleWithin othersSealed with ⟨afterWithin, othersLie, othersSame⟩
      refine ⟨afterWithin, ⟨middle.offset, firstLies, othersLie⟩, ?_⟩
      rw [List.map_cons, List.map_cons, firstSame, othersSame]

end

mutual

theorem sealFrom_of_written (source : String) {rest : List Char} : ∀ {scan : Scan} {node : Node},
    node.Everywhere Formatted → scan.rest = node.written.toList ++ rest →
    ∃ sealed after, node.sealFrom source scan = .ok (sealed, after) ∧ after.rest = rest
  | scan, ⟨head, children⟩, formatted, equal => by
      rcases Option.isSome_iff_exists.1 formatted.here with ⟨leading, leadingEqual⟩
      have inside : ∀ child ∈ children, child.Everywhere Formatted :=
        fun child member => formatted.child member
      have textEqual : String.join head.text.toList = head.text.getD "" := by
        cases head.text <;> simp
      have split : scan.rest = (String.join leading.pieces).toList ++
          ((String.join head.text.toList).toList ++ ((writtenOfAll children).toList ++
            ((String.join head.trailing.pieces).toList ++ rest))) := by
        rw [equal, written, leadingEqual, textEqual]
        simp [Trivia.text]
      rcases Scan.passAll_of_rest split with ⟨front, leadingPassed, frontRest⟩
      rcases Scan.passAll_of_rest frontRest with ⟨behindText, textPassed, behindTextRest⟩
      rcases sealAllFrom_of_written source inside behindTextRest with
        ⟨sealedChildren, behind, childrenSealed, behindRest⟩
      rcases Scan.passAll_of_rest behindRest with ⟨after, trailingPassed, afterRest⟩
      exact ⟨_, after, sealFrom_eq_ok_iff.2 ⟨leading, front, behindText, sealedChildren, behind,
        leadingEqual, leadingPassed, textPassed, childrenSealed, trailingPassed, rfl⟩, afterRest⟩

theorem sealAllFrom_of_written (source : String) {rest : List Char} :
    ∀ {scan : Scan} {nodes : List Node}, (∀ node ∈ nodes, node.Everywhere Formatted) →
    scan.rest = (writtenOfAll nodes).toList ++ rest →
    ∃ sealed after, sealAllFrom source scan nodes = .ok (sealed, after) ∧ after.rest = rest
  | scan, [], _, equal => ⟨[], scan, by rw [sealAllFrom], by simpa [writtenOfAll] using equal⟩
  | scan, node :: nodes, formatted, equal => by
      rw [writtenOfAll, String.toList_append, List.append_assoc] at equal
      rcases sealFrom_of_written source (formatted node List.mem_cons_self) equal with
        ⟨first, middle, firstSealed, middleRest⟩
      rcases sealAllFrom_of_written source
        (fun other member => formatted other (List.mem_cons_of_mem _ member)) middleRest with
        ⟨others, after, othersSealed, afterRest⟩
      exact ⟨first :: others, after,
        sealAllFrom_cons_eq_ok_iff.2 ⟨first, middle, others, firstSealed, othersSealed, rfl⟩,
        afterRest⟩

end

theorem sealAgainst_eq_ok_iff (root : Node) (source : String) (tree : Node) :
    root.sealAgainst source = .ok tree ↔
      ∃ scan, root.sealFrom source (.ofText source) = .ok (tree, scan) ∧ scan.rest = [] := by
  rw [sealAgainst, exceptBind_eq_ok]
  constructor
  · rintro ⟨⟨sealed, scan⟩, sealedFrom, decided⟩
    by_cases covered : scan.rest.isEmpty
    · simp only [covered, if_true, pure, Except.pure, Except.ok.injEq] at decided
      exact ⟨scan, decided ▸ sealedFrom, List.isEmpty_iff.1 covered⟩
    · simp [covered] at decided
  · rintro ⟨scan, sealedFrom, covered⟩
    exact ⟨(tree, scan), sealedFrom, by simp [covered, pure, Except.pure]⟩

theorem sealAgainst_sealed {root tree : Node} {source : String}
    (succeeded : root.sealAgainst source = .ok tree) :
    tree.Sealed source 0 source.utf8ByteSize ∧ tree.withoutOrigins = root.withoutOrigins := by
  rcases (sealAgainst_eq_ok_iff _ _ _).1 succeeded with ⟨scan, sealedFrom, covered⟩
  rcases sealFrom_sealed (Scan.within_ofText source) sealedFrom with
    ⟨⟨passed, sourceEqual, size⟩, lies, same⟩
  rw [covered, String.ofList_nil, String.append_empty] at sourceEqual
  rw [size, ← sourceEqual] at lies
  exact ⟨lies, same⟩

theorem sealAgainst_written {root : Node} (formatted : root.Everywhere Formatted) :
    ∃ tree, root.sealAgainst root.written = .ok tree := by
  have equal : (Scan.ofText root.written).rest = root.written.toList ++ [] := by
    rw [List.append_nil]
    rfl
  rcases sealFrom_of_written root.written formatted equal with
    ⟨tree, scan, sealedFrom, covered⟩
  exact ⟨tree, (sealAgainst_eq_ok_iff _ _ _).2 ⟨scan, sealedFrom, covered⟩⟩

mutual

theorem sealFrom_renumber (numbering : NodeId → NodeId) (source : String) :
    ∀ (scan : Scan) (node : Node), (node.renumber numbering).sealFrom source scan =
      (node.sealFrom source scan).map (Prod.map (renumber numbering) id)
  | scan, ⟨head, children⟩ => by
      rw [renumber_mk, renumberHead, sealFrom, sealFrom]
      cases head.leading with
      | none => rfl
      | some leading =>
          simp only [bind, Except.bind]
          cases scan.passAll leading.pieces with
          | error fault => rfl
          | ok front =>
              simp only
              cases front.passAll head.text.toList with
              | error fault => rfl
              | ok inside =>
                  simp only
                  rw [sealAllFrom_renumber numbering source inside children]
                  rcases sealAllFrom source inside children with fault | ⟨others, behind⟩
                  · rfl
                  · simp only [Except.map, Prod.map_apply, id_eq]
                    cases behind.passAll head.trailing.pieces with
                    | error fault => rfl
                    | ok after =>
                        simp only [pure, Except.pure, renumber_mk, renumberHead, Prod.map_apply,
                          id_eq]

theorem sealAllFrom_renumber (numbering : NodeId → NodeId) (source : String) :
    ∀ (scan : Scan) (nodes : List Node), sealAllFrom source scan (nodes.map (renumber numbering)) =
      (sealAllFrom source scan nodes).map (Prod.map (List.map (renumber numbering)) id)
  | scan, [] => rfl
  | scan, node :: rest => by
      rw [List.map_cons, sealAllFrom, sealAllFrom, sealFrom_renumber numbering source scan node]
      rcases node.sealFrom source scan with fault | ⟨first, middle⟩
      · rfl
      · simp only [bind, Except.bind, Except.map, Prod.map_apply, id_eq]
        rw [sealAllFrom_renumber numbering source middle rest]
        rcases sealAllFrom source middle rest with fault | ⟨others, behind⟩
        · rfl
        · rfl

end

theorem sealAgainst_renumber (numbering : NodeId → NodeId) (root : Node) (source : String) :
    (root.renumber numbering).sealAgainst source =
      (root.sealAgainst source).map (renumber numbering) := by
  rw [sealAgainst, sealAgainst, sealFrom_renumber]
  rcases root.sealFrom source (.ofText source) with fault | ⟨sealed, after⟩
  · rfl
  · simp only [bind, Except.bind, Except.map, Prod.map_apply, id_eq]
    split <;> rfl

theorem sealAgainst_withoutIds (root : Node) (source : String) :
    root.withoutIds.sealAgainst source = (root.sealAgainst source).map withoutIds :=
  sealAgainst_renumber (fun _ => .unnumbered) root source

end Node

end Verbatim
