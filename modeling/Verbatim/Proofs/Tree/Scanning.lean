import Verbatim.Proofs.Text.Positions
import Verbatim.Proofs.Tree.Provenance

/-! Where sealing stops. A tree asks of its text one thing after the other, in the order of
printing: that a piece stands there, or, at a node whose formatting is left to the printer,
something no text can give. Sealing is meeting these demands in turn, so it succeeds when the
pieces are the text and fails at the first demand that is not met, behind the pieces in front of
it. -/

namespace Verbatim

/-- What sealing asks of the text at one place. -/
inductive Demand where
  | piece (text : String)
  /-- Formatting that is decided. The node of that kind has none. -/
  | formatting (kind : Kind)
  deriving DecidableEq, Repr

namespace Node

mutual

/-- All that sealing asks of the text of a tree, in the order of printing. -/
def demands : Node → List Demand
  | ⟨head, children⟩ =>
    (match head.leading with
      | none => [.formatting head.kind]
      | some leading => leading.pieces.map .piece) ++
    (head.text.toList.map .piece ++
      (demandsOfAll children ++ head.trailing.pieces.map .piece))

def demandsOfAll : List Node → List Demand
  | [] => []
  | node :: rest => node.demands ++ demandsOfAll rest

end

end Node

namespace Scan

def meet (scan : Scan) : Demand → Except ParseError Scan
  | .piece text => scan.pass text
  | .formatting kind => .error (scan.error (.unformatted kind))

def meetAll (scan : Scan) (demands : List Demand) : Except ParseError Scan :=
  demands.foldlM meet scan

theorem meetAll_append (scan : Scan) (demands others : List Demand) :
    scan.meetAll (demands ++ others) =
      scan.meetAll demands >>= fun next => next.meetAll others := by
  rw [meetAll, List.foldlM_append]
  rfl

theorem meetAll_pieces (scan : Scan) (pieces : List String) :
    scan.meetAll (pieces.map .piece) = scan.passAll pieces := by
  rw [meetAll, List.foldlM_map]
  rfl

/-- Demands are met up to the first one that is not. -/
theorem meetAll_eq_error_iff (scan : Scan) (demands : List Demand) (error : ParseError) :
    scan.meetAll demands = .error error ↔ ∃ before demand behind reached,
      demands = before ++ demand :: behind ∧ scan.meetAll before = .ok reached ∧
        reached.meet demand = .error error := by
  induction demands generalizing scan with
  | nil => simp [meetAll, pure, Except.pure]
  | cons first rest induction =>
      rw [meetAll, List.foldlM_cons]
      cases met : scan.meet first with
      | error fault =>
          constructor
          · intro failed
            exact ⟨[], first, rest, scan, rfl, rfl, met.trans failed⟩
          · rintro ⟨before, demand, behind, reached, split, passed, failed⟩
            cases before with
            | nil =>
                cases passed
                cases split
                exact met.symm.trans failed
            | cons other before =>
                cases split
                rw [meetAll, List.foldlM_cons, met] at passed
                cases passed
      | ok next =>
          refine (induction next).trans ?_
          constructor
          · rintro ⟨before, demand, behind, reached, rfl, passed, failed⟩
            refine ⟨first :: before, demand, behind, reached, rfl, ?_, failed⟩
            rw [meetAll, List.foldlM_cons, met]
            exact passed
          · rintro ⟨before, demand, behind, reached, split, passed, failed⟩
            cases before with
            | nil =>
                cases passed
                cases split
                rw [met] at failed
                cases failed
            | cons other before =>
                cases split
                rw [meetAll, List.foldlM_cons, met] at passed
                exact ⟨before, demand, behind, reached, rfl, passed, failed⟩

theorem meetAll_eq_ok_iff (scan last : Scan) (demands : List Demand) :
    scan.meetAll demands = .ok last ↔
      ∃ pieces : List String, demands = pieces.map .piece ∧ scan.passAll pieces = .ok last := by
  constructor
  · intro met
    induction demands generalizing scan with
    | nil => exact ⟨[], rfl, met⟩
    | cons first rest induction =>
        rw [meetAll, List.foldlM_cons, exceptBind_eq_ok] at met
        rcases met with ⟨next, here, others⟩
        cases first with
        | formatting kind => cases here
        | piece text =>
            rcases induction next others with ⟨pieces, rfl, passed⟩
            exact ⟨text :: pieces, rfl, (passAll_cons_eq_ok_iff _ _ _ _).2 ⟨next, here, passed⟩⟩
  · rintro ⟨pieces, rfl, passed⟩
    rw [meetAll_pieces, passed]

theorem offset_le_of_passAll {scan last : Scan} {pieces : List String}
    (passed : scan.passAll pieces = .ok last) : scan.offset ≤ last.offset := by
  induction pieces generalizing scan with
  | nil =>
      cases passed
      exact Nat.le_refl _
  | cons piece pieces induction =>
      rcases (passAll_cons_eq_ok_iff _ _ _ _).1 passed with ⟨next, here, others⟩
      rcases (pass_eq_ok_iff _ _ _).1 here with ⟨-, offset, -⟩
      have := induction others
      omega

/-! ## Places of a text -/

/-- The scan has moved over `passed`. -/
structure Behind (passed source : String) (scan : Scan) : Prop where
  source_eq : source = passed ++ String.ofList scan.rest
  offset : scan.offset = passed.utf8ByteSize
  position : scan.position = Position.start.advance passed

theorem behind_ofText (text : String) : (ofText text).Behind "" text :=
  ⟨by simp [ofText], by simp [ofText], rfl⟩

namespace Behind

variable {passed source : String} {scan next : Scan}

theorem positionAt_offset (behind : scan.Behind passed source) :
    scan.position = Text.positionAt source scan.offset := by
  rw [behind.position, behind.offset, behind.source_eq, Text.positionAt_append]

theorem pass {piece : String} (behind : scan.Behind passed source)
    (met : scan.pass piece = .ok next) : next.Behind (passed ++ piece) source := by
  rcases (pass_eq_ok_iff _ _ _).1 met with ⟨restEqual, offsetEqual, positionEqual⟩
  constructor
  · rw [behind.source_eq, restEqual, String.ofList_append, String.ofList_toList,
      String.append_assoc]
  · rw [offsetEqual, behind.offset, String.utf8ByteSize_append]
  · rw [positionEqual, behind.position, Position.advance_append]

theorem passAll {pieces : List String} (behind : scan.Behind passed source)
    (met : scan.passAll pieces = .ok next) : next.Behind (passed ++ String.join pieces) source := by
  induction pieces generalizing scan passed with
  | nil =>
      cases met
      rwa [String.join_nil, String.append_empty]
  | cons piece pieces induction =>
      rcases (passAll_cons_eq_ok_iff _ _ _ _).1 met with ⟨middle, here, others⟩
      rw [String.join_cons, ← String.append_assoc]
      exact induction (behind.pass here) others

theorem eq {other : Scan} (behind : scan.Behind passed source)
    (same : other.Behind passed source) : scan = other := by
  have restEqual := behind.source_eq.symm.trans same.source_eq
  rw [String.append_right_inj, String.ofList_inj] at restEqual
  cases scan
  cases other
  rw [Scan.mk.injEq]
  exact ⟨restEqual, behind.offset.trans same.offset.symm,
    behind.position.trans same.position.symm⟩

theorem eq_error_iff (behind : scan.Behind passed source) (fault : ParseFault)
    (error : ParseError) : error = scan.error fault ↔
      (error.path = none ∧ error.offset = passed.utf8ByteSize ∧
        error.position = Text.positionAt source error.offset) ∧ error.fault = fault := by
  rcases error with ⟨path, found, offset, position⟩
  rw [← behind.offset]
  simp only [Scan.error, ParseError.mk.injEq]
  constructor
  · rintro ⟨rfl, rfl, rfl, rfl⟩
    exact ⟨⟨rfl, rfl, behind.positionAt_offset⟩, rfl⟩
  · rintro ⟨⟨rfl, rfl, rfl⟩, rfl⟩
    exact ⟨rfl, rfl, rfl, behind.positionAt_offset.symm⟩

end Behind

theorem passAll_ofText_eq_ok_iff (source : String) (pieces : List String) (reached : Scan) :
    (ofText source).passAll pieces = .ok reached ↔
      reached.Behind (String.join pieces) source := by
  constructor
  · intro passed
    have behind := (behind_ofText source).passAll passed
    rwa [String.empty_append] at behind
  · intro behind
    have split : (ofText source).rest = (String.join pieces).toList ++ reached.rest := by
      rw [ofText, ← String.toList_ofList (l := reached.rest), ← String.toList_append,
        ← behind.source_eq]
    rcases passAll_of_rest split with ⟨found, passed, -⟩
    have same := (behind_ofText source).passAll passed
    rw [String.empty_append] at same
    rw [passed, same.eq behind]

theorem pass_eq_error_iff (scan : Scan) (piece : String) (error : ParseError) :
    scan.pass piece = .error error ↔
      ¬ piece.toList <+: scan.rest ∧ error = scan.error (.mismatch piece) := by
  rw [pass]
  split
  next rest equal =>
    rw [dropFront?_eq_some_iff] at equal
    simp [equal]
  next missing =>
    have absent : ¬ piece.toList <+: scan.rest := by
      rintro ⟨rest, equal⟩
      rw [(dropFront?_eq_some_iff _ _ rest).2 equal.symm] at missing
      cases missing
    simp [absent, eq_comm]

end Scan

namespace Node

/-! ## Sealing meets the demands -/

mutual

theorem map_sealFrom (source : String) : ∀ (scan : Scan) (node : Node),
    (node.sealFrom source scan).map Prod.snd = scan.meetAll node.demands
  | scan, ⟨head, children⟩ => by
      rw [sealFrom, demands]
      cases head.leading with
      | none => rfl
      | some leading =>
          simp only [Scan.meetAll_append, Scan.meetAll_pieces]
          cases scan.passAll leading.pieces with
          | error fault => rfl
          | ok front =>
              cases textPassed : front.passAll head.text.toList with
              | error fault => simp [textPassed, bind, Except.bind, Except.map]
              | ok inside =>
                  have childrenMeet := map_sealAllFrom source inside children
                  cases childrenSealed : sealAllFrom source inside children with
                  | error fault =>
                      rw [childrenSealed] at childrenMeet
                      simp [textPassed, childrenSealed, ← childrenMeet, bind, Except.bind,
                        Except.map]
                  | ok found =>
                      rw [childrenSealed] at childrenMeet
                      cases trailingPassed : found.2.passAll head.trailing.pieces <;>
                        simp [textPassed, childrenSealed, ← childrenMeet, trailingPassed, bind,
                          Except.bind, Except.map, pure, Except.pure]

theorem map_sealAllFrom (source : String) : ∀ (scan : Scan) (nodes : List Node),
    (sealAllFrom source scan nodes).map Prod.snd = scan.meetAll (demandsOfAll nodes)
  | scan, [] => rfl
  | scan, node :: rest => by
      rw [sealAllFrom, demandsOfAll, Scan.meetAll_append, ← map_sealFrom source scan node]
      cases node.sealFrom source scan with
      | error fault => rfl
      | ok found =>
          have restMeet := map_sealAllFrom source found.2 rest
          cases restSealed : sealAllFrom source found.2 rest <;>
            rw [restSealed] at restMeet <;>
            simp [restSealed, ← restMeet, bind, Except.bind, Except.map, pure, Except.pure]

end

theorem sealFrom_eq_error_iff (source : String) (scan : Scan) (node : Node) (error : ParseError) :
    node.sealFrom source scan = .error error ↔ scan.meetAll node.demands = .error error := by
  rw [← map_sealFrom source]
  cases node.sealFrom source scan <;> simp [Except.map]

theorem exists_sealFrom_eq_ok_iff (source : String) (scan after : Scan) (node : Node) :
    (∃ sealed, node.sealFrom source scan = .ok (sealed, after)) ↔
      scan.meetAll node.demands = .ok after := by
  rw [← map_sealFrom source]
  cases node.sealFrom source scan <;> simp [Except.map, Prod.ext_iff]

/-- Where sealing a tree fails, and why: behind the pieces before the first demand that the text
does not meet, or behind the whole tree when the text goes on. -/
def FailsAt (root : Node) (source : String) (error : ParseError) : Prop :=
  ∃ (before : List String) (rest : String),
    source = String.join before ++ rest ∧
      (error.path = none ∧ error.offset = (String.join before).utf8ByteSize ∧
        error.position = Text.positionAt source error.offset) ∧
      ((∃ kind behind, root.demands = before.map .piece ++ .formatting kind :: behind ∧
          error.fault = .unformatted kind) ∨
        (∃ piece behind, root.demands = before.map .piece ++ .piece piece :: behind ∧
          ¬ piece.toList <+: rest.toList ∧ error.fault = .mismatch piece) ∨
        (root.demands = before.map .piece ∧ rest ≠ "" ∧ error.fault = .uncovered))

theorem sealAgainst_stops_iff (root : Node) (source : String) (error : ParseError) :
    root.sealAgainst source = .error error ↔
      ∃ (before : List String) (reached : Scan), (Scan.ofText source).passAll before = .ok reached ∧
        ((∃ demand behind, root.demands = before.map .piece ++ demand :: behind ∧
            reached.meet demand = .error error) ∨
          (root.demands = before.map .piece ∧ reached.rest ≠ [] ∧
            error = reached.error .uncovered)) := by
  rw [sealAgainst]
  constructor
  · intro failed
    cases sealedFrom : root.sealFrom source (.ofText source) with
    | error fault =>
        rw [sealedFrom] at failed
        cases failed
        rcases (Scan.meetAll_eq_error_iff _ _ _).1
          ((sealFrom_eq_error_iff _ _ _ _).1 sealedFrom) with
          ⟨met, demand, behind, reached, split, allMet, stopped⟩
        rcases (Scan.meetAll_eq_ok_iff _ _ _).1 allMet with ⟨before, rfl, passed⟩
        exact ⟨before, reached, passed, .inl ⟨demand, behind, split, stopped⟩⟩
    | ok found =>
        rcases (Scan.meetAll_eq_ok_iff _ _ _).1
          ((exists_sealFrom_eq_ok_iff source _ found.2 root).1 ⟨found.1, sealedFrom⟩) with
          ⟨before, split, passed⟩
        simp only [sealedFrom, bind, Except.bind] at failed
        by_cases covered : found.2.rest.isEmpty
        · simp [covered, pure, Except.pure] at failed
        · rw [if_neg covered, Except.error.injEq] at failed
          rw [List.isEmpty_iff] at covered
          exact ⟨before, found.2, passed, .inr ⟨split, covered, failed.symm⟩⟩
  · rintro ⟨before, reached, passed, ⟨demand, behind, split, stopped⟩ | ⟨split, more, rfl⟩⟩
    · have failed : root.sealFrom source (.ofText source) = .error error := by
        rw [sealFrom_eq_error_iff, Scan.meetAll_eq_error_iff]
        refine ⟨before.map .piece, demand, behind, reached, split, ?_, stopped⟩
        rw [Scan.meetAll_pieces, passed]
      rw [failed]
      rfl
    · have met : (Scan.ofText source).meetAll root.demands = .ok reached := by
        rw [split, Scan.meetAll_pieces, passed]
      rcases (exists_sealFrom_eq_ok_iff source _ _ _).2 met with ⟨tree, sealedFrom⟩
      simp [sealedFrom, more, bind, Except.bind]

theorem sealAgainst_eq_error_iff (root : Node) (source : String) (error : ParseError) :
    root.sealAgainst source = .error error ↔ root.FailsAt source error := by
  rw [sealAgainst_stops_iff]
  constructor
  · rintro ⟨before, reached, passed, stopped⟩
    have behind := (Scan.passAll_ofText_eq_ok_iff _ _ _).1 passed
    refine ⟨before, String.ofList reached.rest, behind.source_eq, ?_⟩
    rcases stopped with ⟨demand, others, split, stopped⟩ | ⟨split, more, failed⟩
    · cases demand with
      | formatting kind =>
          have failed : error = reached.error (.unformatted kind) := (Except.error.inj stopped).symm
          rcases (behind.eq_error_iff _ _).1 failed with ⟨place, fault⟩
          exact ⟨place, .inl ⟨kind, others, split, fault⟩⟩
      | piece text =>
          rcases (Scan.pass_eq_error_iff _ _ _).1 stopped with ⟨absent, failed⟩
          rcases (behind.eq_error_iff _ _).1 failed with ⟨place, fault⟩
          refine ⟨place, .inr (.inl ⟨text, others, split, ?_, fault⟩)⟩
          rwa [String.toList_ofList]
    · rcases (behind.eq_error_iff _ _).1 failed with ⟨place, fault⟩
      refine ⟨place, .inr (.inr ⟨split, ?_, fault⟩)⟩
      rwa [Ne, String.ofList_eq_empty_iff]
  · rintro ⟨before, rest, sourceEqual, place, stopped⟩
    let reached : Scan := ⟨rest.toList, (String.join before).utf8ByteSize,
      Position.start.advance (String.join before)⟩
    have behind : reached.Behind (String.join before) source :=
      ⟨by rw [String.ofList_toList, sourceEqual], rfl, rfl⟩
    refine ⟨before, reached, (Scan.passAll_ofText_eq_ok_iff _ _ _).2 behind, ?_⟩
    rcases stopped with ⟨kind, others, split, fault⟩ | ⟨piece, others, split, absent, fault⟩ |
      ⟨split, more, fault⟩
    · have failed := (behind.eq_error_iff _ _).2 ⟨place, fault⟩
      exact .inl ⟨_, others, split, congrArg Except.error failed.symm⟩
    · have failed := (behind.eq_error_iff _ _).2 ⟨place, fault⟩
      exact .inl ⟨_, others, split, (Scan.pass_eq_error_iff _ _ _).2 ⟨absent, failed⟩⟩
    · have failed := (behind.eq_error_iff _ _).2 ⟨place, fault⟩
      refine .inr ⟨split, ?_, failed⟩
      simpa [reached] using more

/-! ## What the origins say -/

def Positioned (source : String) (node : Node) : Prop :=
  ∃ origin leading, node.origin = some origin ∧ node.leading = some leading ∧
    origin.start = Text.positionAt source (origin.span.start + leading.byteCount)

mutual

theorem sealFrom_positioned {source passed : String} : ∀ {scan after : Scan} {node sealed : Node},
    scan.Behind passed source → node.sealFrom source scan = .ok (sealed, after) →
    (∃ more, after.Behind (passed ++ more) source) ∧ sealed.Everywhere (Positioned source)
  | scan, after, ⟨head, children⟩, sealed, behind, succeeded => by
      rcases sealFrom_eq_ok_iff.1 succeeded with ⟨leading, front, inside, sealedChildren, last,
        leadingEqual, leadingPassed, textPassed, childrenSealed, trailingPassed, rfl⟩
      have frontBehind := behind.passAll leadingPassed
      rcases sealAllFrom_positioned (frontBehind.passAll textPassed) childrenSealed with
        ⟨⟨more, lastBehind⟩, inner⟩
      have afterBehind := lastBehind.passAll trailingPassed
      simp only [String.append_assoc] at afterBehind
      refine ⟨⟨_, afterBehind⟩, everywhere_iff.2 ⟨⟨_, leading, rfl, leadingEqual, ?_⟩, inner⟩⟩
      have offset : front.offset = scan.offset + leading.byteCount := by
        rw [frontBehind.offset, behind.offset, Trivia.byteCount_eq, String.utf8ByteSize_append,
          Trivia.text]
      change front.position = Text.positionAt source (scan.offset + leading.byteCount)
      rw [← offset, frontBehind.positionAt_offset]

theorem sealAllFrom_positioned {source passed : String} :
    ∀ {scan after : Scan} {nodes sealed : List Node},
    scan.Behind passed source → sealAllFrom source scan nodes = .ok (sealed, after) →
    (∃ more, after.Behind (passed ++ more) source) ∧
      ∀ node ∈ sealed, node.Everywhere (Positioned source)
  | scan, after, [], sealed, behind, succeeded => by
      cases succeeded
      refine ⟨⟨"", ?_⟩, fun node member => absurd member List.not_mem_nil⟩
      rwa [String.append_empty]
  | scan, after, node :: rest, sealed, behind, succeeded => by
      rcases sealAllFrom_cons_eq_ok_iff.1 succeeded with
        ⟨first, middle, others, firstSealed, othersSealed, rfl⟩
      rcases sealFrom_positioned behind firstSealed with ⟨⟨more, middleBehind⟩, here⟩
      rcases sealAllFrom_positioned middleBehind othersSealed with ⟨⟨others, afterBehind⟩, inner⟩
      rw [String.append_assoc] at afterBehind
      exact ⟨⟨_, afterBehind⟩, List.forall_mem_cons.2 ⟨here, inner⟩⟩

end

theorem exists_sealAgainst_eq_ok_iff (root : Node) (source : String) :
    (∃ tree, root.sealAgainst source = .ok tree) ↔
      root.Everywhere Formatted ∧ root.written = source := by
  constructor
  · rintro ⟨tree, succeeded⟩
    rcases sealAgainst_sealed succeeded with ⟨lies, same⟩
    have formatted : tree.Everywhere Formatted := by
      intro below member
      rcases lies.everywhere below member with ⟨_, _, here⟩
      exact here.formatted
    constructor
    · apply everywhere_of_mapHeads_eq _ same.symm formatted
      intro node
      rw [Formatted, Formatted, toNodeHead_mapHeads]
    · rw [← written_withoutOrigins, ← same, written_withoutOrigins]
      exact lies.standsAt.eq_of_whole
  · rintro ⟨formatted, rfl⟩
    exact sealAgainst_written formatted

/-- The node remembers where its parts stand: its span falls on whole characters and cuts out
what is written of the node, and its position is that of the byte behind its formatting. -/
def Located (source : String) (node : Node) : Prop :=
  ∃ origin leading, node.origin = some origin ∧ node.leading = some leading ∧
    origin.source = source ∧ origin.span.slice? source = some node.written ∧
    origin.text = node.written ∧
    origin.start = Text.positionAt source (origin.span.start + leading.byteCount)

theorem Sealed.located {source : String} {start stop : Nat} {node : Node}
    (lies : node.Sealed source start stop) (positioned : node.Positioned source) :
    node.Located source := by
  rcases positioned with ⟨origin, leading, originEqual, leadingEqual, position⟩
  rcases lies.exists_origin with ⟨found, foundEqual, sourceEqual, startEqual, stopEqual, text⟩
  rw [originEqual] at foundEqual
  cases foundEqual
  have stands := lies.standsAt
  rw [← startEqual, ← stopEqual] at stands
  exact ⟨origin, leading, originEqual, leadingEqual, sourceEqual, stands.slice?, text, position⟩

theorem sealAgainst_located {root tree : Node} {source : String}
    (succeeded : root.sealAgainst source = .ok tree) : tree.Everywhere (Located source) := by
  rcases (sealAgainst_eq_ok_iff _ _ _).1 succeeded with ⟨scan, sealedFrom, -⟩
  have positioned := (sealFrom_positioned (Scan.behind_ofText source) sealedFrom).2
  intro below member
  rcases (sealAgainst_sealed succeeded).1.everywhere below member with ⟨_, _, lies⟩
  exact lies.located (positioned below member)

theorem ofOffsets_of_sealFrom {source : String} {scan after : Scan} {node sealed : Node}
    (succeeded : node.sealFrom source scan = .ok (sealed, after)) :
    Span.ofOffsets scan.offset after.offset = .ok (spanBetween scan.offset after.offset) := by
  rcases (Scan.meetAll_eq_ok_iff _ _ _).1
    ((exists_sealFrom_eq_ok_iff source _ _ _).1 ⟨sealed, succeeded⟩) with ⟨pieces, -, passed⟩
  have ordered := Scan.offset_le_of_passAll passed
  rw [Span.ofOffsets, dif_pos ordered, spanBetween]
  congr
  omega

/-- Sealing accepts the trees that are their text and have all formatting decided, and no
others. A sealed tree is the given one but for the origins. It takes up the whole text, its
nodes lie there one behind the other inside their parents, and each remembers exactly that
place. Where sealing fails, the error tells how far the tree and the text agree. -/
theorem sealAgainst_exact (root : Node) (source : String) :
    ((∃ tree, root.sealAgainst source = .ok tree) ↔
      root.Everywhere Formatted ∧ root.written = source) ∧
    (∀ tree, root.sealAgainst source = .ok tree →
      tree.withoutOrigins = root.withoutOrigins ∧
      tree.Sealed source 0 source.utf8ByteSize ∧ tree.Everywhere (Located source)) ∧
    (∀ (scan after : Scan) (node sealed : Node),
      node.sealFrom source scan = .ok (sealed, after) →
      Span.ofOffsets scan.offset after.offset = .ok (spanBetween scan.offset after.offset)) ∧
    ∀ error, root.sealAgainst source = .error error ↔ root.FailsAt source error := by
  refine ⟨exists_sealAgainst_eq_ok_iff root source, ?_, ?_, sealAgainst_eq_error_iff root source⟩
  · intro tree succeeded
    rcases sealAgainst_sealed succeeded with ⟨lies, same⟩
    exact ⟨same, lies, sealAgainst_located succeeded⟩
  · intro scan after node sealed succeeded
    exact ofOffsets_of_sealFrom succeeded

end Node

end Verbatim
