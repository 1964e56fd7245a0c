import Verbatim.Edits.Standard
import Verbatim.Proofs.Recipe.Reaching
import Verbatim.Proofs.Traversal.Renumbered

/-! Edits overlook numbers. Only removing annotations looks at them at all, to find the sibling
in front; and an import that is added gets the next number there is. -/

namespace Verbatim

open Renumbering Node

variable {anew : Renumbering}

theorem Renumbering.visit_ite (concerns : Bool) (new : Node) :
    anew.visit (if concerns then .replace new else Visit.keep) =
      if concerns then Visit.replace (new.renumber anew.id) else .keep := by
  cases concerns <;> rfl

theorem Visitor.overlooksNumbers_of_answer {name : String} {answer : Node → Visit}
    (answers : ∀ (anew : Renumbering) (node : Node),
      answer (anew.node node) = anew.visit (answer node)) :
    (Visitor.onVisit name fun node => return answer node).OverlooksNumbers where
  visit anew node _ _ _ sessions := ⟨congrArg Except.ok (answers anew node), sessions⟩
  leave _ _ _ _ _ sessions := ⟨rfl, sessions⟩

theorem ChangeText.overlooksNumbers (edit : ChangeText) : edit.visitor.OverlooksNumbers := by
  refine Visitor.overlooksNumbers_of_answer fun anew node => ?_
  rw [visit, visit, visit_ite, renumber_withText, is_renumber, text_renumber]

theorem RenameIdentifier.overlooksNumbers (edit : RenameIdentifier) :
    edit.visitor.OverlooksNumbers := by
  refine Visitor.overlooksNumbers_of_answer fun anew node => ?_
  rw [visit, visit, visit_ite, renumber_withText, is_renumber, text_renumber]

theorem FindIdentifier.overlooksNumbers (search : FindIdentifier) :
    search.visitor.OverlooksNumbers := by
  refine Visitor.overlooksNumbers_of_answer fun anew node => ?_
  rw [visit, visit, visit_ite, renumber_withMarker, is_renumber, text_renumber, markers_renumber]

/-! ## Adding imports -/

namespace AddImport

variable (numbering : NodeId → NodeId)

theorem nameIn_renumber (node : Node) : nameIn (node.renumber numbering) = nameIn node := by
  rw [nameIn, nameIn, childrenOfKind_renumber, List.head?_map, Option.map_map]
  exact congrArg (Option.map · _) (funext (tokensText_renumber numbering))

theorem isStaticImport_renumber (node : Node) :
    isStaticImport (node.renumber numbering) = isStaticImport node := by
  rw [isStaticImport, isStaticImport, children_renumber, List.any_map]
  simp only [Function.comp_def, is_renumber, text_renumber]

theorem isCoveredBy_renumber (edit : AddImport) (declaration : Node) :
    edit.isCoveredBy (declaration.renumber numbering) = edit.isCoveredBy declaration := by
  rw [isCoveredBy, isCoveredBy, nameIn_renumber, isStaticImport_renumber]

theorem isVisible_renumber (edit : AddImport) (node : Node) :
    edit.isVisible (node.renumber numbering) = edit.isVisible node := by
  have packages : packageOf (node.renumber numbering) = packageOf node := by
    rw [packageOf, packageOf, childrenOfKind_renumber, List.head?_map, Option.bind_map]
    exact congrArg (Option.bind _) (funext (nameIn_renumber numbering))
  rw [isVisible, isVisible, isImplicitlyVisible, isImplicitlyVisible, packages,
    childrenOfKind_renumber, List.any_map]
  simp only [Function.comp_def, isCoveredBy_renumber]

variable {numbering}

theorem separateFirst_renumber (nodes : List Node) :
    separateFirst (nodes.map (renumber numbering)) =
      (separateFirst nodes).map (renumber numbering) := by
  cases nodes with
  | nil => rfl
  | cons next rest =>
      refine congrArg (· :: _) ?_
      rw [separate, separate, is_renumber, leadingOrEmpty_renumber]
      split
      · rfl
      · exact (renumber_withLeading _).symm

theorem not_is_comp_renumber (kind : Kind) :
    (fun child : Node => !child.is kind) ∘ renumber numbering = fun child => !child.is kind :=
  funext fun child => congrArg not (is_renumber numbering child kind)

theorem span_renumber (kind : Kind) (nodes : List Node) :
    (nodes.map (renumber numbering)).span (fun child => !child.is kind) =
      Prod.map (List.map (renumber numbering)) (List.map (renumber numbering))
        (nodes.span fun child => !child.is kind) := by
  rw [List.span_eq_takeWhile_dropWhile, List.span_eq_takeWhile_dropWhile, List.takeWhile_map,
    List.dropWhile_map, not_is_comp_renumber]
  rfl

theorem place_renumber (made : Node) (children : List Node) :
    place (made.renumber numbering) (children.map (renumber numbering)) =
      (place made children).map (renumber numbering) := by
  have behindLast (kind : Kind) : splitBehindLast kind (children.map (renumber numbering)) =
      Prod.map (List.map (renumber numbering)) (List.map (renumber numbering))
        (splitBehindLast kind children) := by
    rw [splitBehindLast, splitBehindLast, ← List.map_reverse, span_renumber]
    exact congrArg₂ Prod.mk List.map_reverse.symm List.map_reverse.symm
  have behindFirst (kind : Kind) : splitBehindFirst kind (children.map (renumber numbering)) =
      Prod.map (List.map (renumber numbering)) (List.map (renumber numbering))
        (splitBehindFirst kind children) := by
    rw [splitBehindFirst, splitBehindFirst, span_renumber]
    generalize (children.span fun child => !child.is kind) = parts
    rcases parts with ⟨before, _ | ⟨first, behind⟩⟩
    · rfl
    · exact congrArg (·, behind.map (renumber numbering))
        (@List.map_append _ _ (renumber numbering) before [first]).symm
  rw [place, place, behindLast, behindFirst]
  rcases splitBehindLast .importDecl children with ⟨_ | ⟨first, upTo⟩, behind⟩
  · simp [separateFirst_renumber]
  · simp

theorem overlooksNumbers (edit : AddImport) : edit.visitor.OverlooksNumbers where
  visit anew node trail session other sessions := by
    show anew.Answers anew.visit ((edit.visit node trail).run.run session)
      ((edit.visit (anew.node node) (anew.trail trail)).run.run other)
    rw [visit, visit, is_renumber, isVisible_renumber]
    cases node.is .sourceFile with
    | false => exact ⟨rfl, sessions⟩
    | true =>
        cases edit.isVisible node with
        | true => exact ⟨rfl, sessions⟩
        | false =>
            rcases sessions.next with ⟨count, next, otherNext⟩
            constructor
            · have same : (node.renumber anew.id).withChildren
                  (place (edit.made.number other.nextId).1 (node.renumber anew.id).children) =
                (node.withChildren (place (edit.made.number session.nextId).1
                  node.children)).renumber anew.id := by
                rw [renumber_withChildren, ← place_renumber, next, otherNext, ← anew.node_number,
                  children_renumber]
              exact congrArg (fun file => Except.ok (Visit.mk (.replace file) .skipChildren)) same
            · refine ⟨sessions.board, sessions.cancelled, count + edit.made.size, ?_, ?_⟩
              · show (edit.made.number session.nextId).2 = _
                rw [number_free, next, Nat.add_assoc]
              · show (edit.made.number other.nextId).2 = _
                rw [number_free, otherNext, Nat.add_assoc]
  leave _ _ _ _ _ sessions := ⟨rfl, sessions⟩

end AddImport

/-! ## Removing annotations -/

namespace RemoveAnnotations

theorem childBefore?_node (id : NodeId) (nodes : List Node) :
    Trail.childBefore? (anew.id id) (nodes.map anew.node) =
      (Trail.childBefore? id nodes).map anew.node := by
  induction nodes with
  | nil => rfl
  | cons first rest induction =>
      cases rest with
      | nil => rfl
      | cons second rest =>
          rw [List.map_cons, List.map_cons, Trail.childBefore?, Trail.childBefore?]
          simp only [id_renumber, anew.injective.eq_iff]
          split
          · rfl
          · split
            · rfl
            · exact induction

theorem parent?_trail (trail : Trail) :
    (anew.trail trail).parent? = trail.parent?.map anew.node := List.head?_map

theorem previousSibling?_trail (trail : Trail) :
    (anew.trail trail).previousSibling? = trail.previousSibling?.map anew.node := by
  rw [Trail.previousSibling?, Trail.previousSibling?, parent?_trail]
  cases trail.parent? with
  | none => rfl
  | some parent =>
      show Trail.childBefore? (trail.here.renumber anew.id).id
          (parent.renumber anew.id).children = _
      rw [id_renumber, children_renumber]
      exact childBefore?_node trail.here.id parent.children

theorem removes_renumber (edit : RemoveAnnotations) (numbering : NodeId → NodeId) (node : Node) :
    edit.removes (node.renumber numbering) = edit.removes node := by
  rw [removes, removes, is_renumber, childrenOfKind_renumber, List.head?_map]
  cases (node.childrenOfKind .qualifiedName).head? with
  | none => rfl
  | some name => simp

theorem stripFirst_node (node : Node) :
    stripFirst (node.renumber anew.id) = anew.transform (stripFirst node) := by
  rw [stripFirst, stripFirst, children_renumber]
  cases node.children with
  | nil => rfl
  | cons first rest =>
      refine congrArg Transform.replace
        (Eq.trans ?_ (renumber_withChildren (stripLeading first :: rest)).symm)
      rw [List.map_cons, stripLeading, stripLeading, leadingOrEmpty_renumber, renumber_withLeading]

theorem overlooksNumbers (edit : RemoveAnnotations) : edit.visitor.OverlooksNumbers where
  visit anew node trail session other sessions := by
    show anew.Answers anew.visit ((edit.visit node trail).run.run session)
      ((edit.visit (anew.node node) (anew.trail trail)).run.run other)
    rw [visit, visit, removes_renumber]
    cases edit.removes node with
    | false => exact ⟨rfl, sessions⟩
    | true =>
        let remove (notes : Bool) : HookM Visit :=
          if notes then do
            HookM.put 1 firstRemoved (.bool true)
            return .remove
          else return .remove
        show anew.Answers anew.visit
          (remove (trail.previousSibling?.isNone && trail.parent?.isSome) trail session)
          (remove ((anew.trail trail).previousSibling?.isNone && (anew.trail trail).parent?.isSome)
            (anew.trail trail) other)
        rw [previousSibling?_trail, parent?_trail, Option.isNone_map, Option.isSome_map]
        cases trail.previousSibling?.isNone && trail.parent?.isSome with
        | false => exact ⟨rfl, sessions⟩
        | true =>
            exact ⟨rfl, congrArg (Board.put · 1 firstRemoved (.bool true)) sessions.board,
              sessions.cancelled, sessions.next⟩
  leave anew node trail session other sessions := by
    have taken (node : Node) (trail : Trail) (session : Session) :
        (leave node trail).run.run session =
          if node.kind.isDeclaration then
            (.ok (if (session.board.take 0 firstRemoved .bool).1.isNone then .keep
                else stripFirst node),
              { session with board := (session.board.take 0 firstRemoved .bool).2 })
          else (.ok .keep, session) := by
      show ((leave node).run trail).run.run session = _
      rw [leave]
      cases node.kind.isDeclaration with
      | false => rfl
      | true =>
          have took : ((HookM.take firstRemoved .bool).run trail).run.run session =
              (pure (.ok (session.board.take 0 firstRemoved .bool).1,
                { session with board := (session.board.take 0 firstRemoved .bool).2 }) : Id _) :=
            rfl
          rw [Bool.not_true, if_neg Bool.false_ne_true, ReaderT.run_bind, ExceptT.run_bind,
            StateT.run_bind, took, pure_bind]
          cases (session.board.take 0 firstRemoved .bool).1 <;> rfl
    show anew.Answers anew.transform ((leave node trail).run.run session)
      ((leave (anew.node node) (anew.trail trail)).run.run other)
    rw [taken, taken, kind_renumber, sessions.board]
    cases node.kind.isDeclaration with
    | false => exact ⟨rfl, sessions⟩
    | true =>
        refine ⟨?_, sessions.withBoard _⟩
        rw [stripFirst_node]
        cases (session.board.take 0 firstRemoved .bool).1.isNone <;> rfl

end RemoveAnnotations

/-! ## Blank lines -/

namespace BlankLines

/-- Kinds and texts of both nodes are all that bounds are found by. -/
def SeeNoNumbers (bounds : Node → Node → Bool → Option Bounds) : Prop :=
  ∀ (numbering : NodeId → NodeId) previous node isLast,
    bounds (previous.renumber numbering) (node.renumber numbering) isLast =
      bounds previous node isLast

variable (style : BlankLines) {bounds : Node → Node → Bool → Option Bounds}
  {numbering : NodeId → NodeId}

theorem topLevelBounds_seeNoNumbers :
    SeeNoNumbers fun previous node _ => style.topLevelBounds previous node := by
  intro numbering previous node _
  simp only [topLevelBounds, is_renumber]

theorem memberBounds_seeNoNumbers : SeeNoNumbers style.memberBounds := by
  intro numbering previous node isLast
  simp only [memberBounds, around, is_renumber, isPunctuation_renumber, text_renumber,
    kind_renumber]

theorem wantedAll_renumber (blind : SeeNoNumbers bounds) (previous : Node) (nodes : List Node) :
    wantedAll bounds (previous.renumber numbering) (nodes.map (renumber numbering)) =
      wantedAll bounds previous nodes := by
  induction nodes generalizing previous with
  | nil => rfl
  | cons node rest induction =>
      rw [List.map_cons, wantedAll, wantedAll, induction, List.isEmpty_map, blind,
        wantedBlankLines, wantedBlankLines, leading_renumber]

theorem applyWanted_renumber (wanted : Option Nat) (node : Node) :
    applyWanted wanted (node.renumber numbering) =
      (applyWanted wanted node).renumber numbering := by
  cases wanted with
  | none => rfl
  | some count =>
      simp only [applyWanted, withBlankLines]
      rw [leadingOrEmpty_renumber, renumber_withLeading]

theorem zipWith_applyWanted_renumber (wanted : List (Option Nat)) (nodes : List Node) :
    List.zipWith applyWanted wanted (nodes.map (renumber numbering)) =
      (List.zipWith applyWanted wanted nodes).map (renumber numbering) := by
  rw [List.zipWith_map_right, List.map_zipWith]
  exact congrArg (List.zipWith · wanted nodes)
    (funext fun wanted => funext (applyWanted_renumber wanted))

theorem adjust_answers_anew (blind : SeeNoNumbers bounds) (node : Node) (trail trail' : Trail)
    {session other : Session} (sessions : anew.Sessions session other) :
    anew.Answers anew.visit ((adjust bounds node trail).run.run session)
      ((adjust bounds (anew.node node) trail').run.run other) := by
  rw [adjust, adjust, children_renumber]
  cases node.children with
  | nil => exact ⟨rfl, sessions⟩
  | cons first rest =>
      simp only [List.map_cons]
      rw [wantedAll_renumber blind]
      split
      · exact ⟨rfl, sessions⟩
      · split
        · exact ⟨rfl, sessions⟩
        · refine ⟨?_, sessions⟩
          refine congrArg (fun node => Except.ok (Visit.replace node)) ?_
          rw [zipWith_applyWanted_renumber]
          exact (renumber_withChildren (first :: _)).symm

theorem overlooksNumbers : style.visitor.OverlooksNumbers where
  visit anew node trail session other sessions := by
    show anew.Answers anew.visit ((style.visit node trail).run.run session)
      ((style.visit (anew.node node) (anew.trail trail)).run.run other)
    rw [visit, visit, kind_renumber]
    cases node.kind with
    | sourceFile =>
        exact adjust_answers_anew style.topLevelBounds_seeNoNumbers node trail _ sessions
    | block =>
        let among (parent : Option Node) : Bool :=
          parent.any fun parent => parent.is .classDecl || parent.is .enumValue
        have same : among (anew.trail trail).parent? = among trail.parent? := by
          show among (trail.above.map anew.node).head? = among trail.above.head?
          cases trail.above <;> simp [among]
        show anew.Answers anew.visit
          ((if among trail.parent? then adjust style.memberBounds node
            else return .skip : HookM Visit) trail session)
          ((if among (anew.trail trail).parent? then adjust style.memberBounds (anew.node node)
            else return .skip : HookM Visit) (anew.trail trail) other)
        rw [same]
        cases among trail.parent? with
        | false => exact ⟨rfl, sessions⟩
        | true => exact adjust_answers_anew style.memberBounds_seeNoNumbers node trail _ sessions
    | _ => exact ⟨rfl, sessions⟩
  leave _ _ _ _ _ sessions := ⟨rfl, sessions⟩

end BlankLines

theorem standard_overlookNumbers :
    Catalog.standard.All (VisitorKind.Makes Visitor.OverlooksNumbers) :=
  standard_makes ChangeText.overlooksNumbers RenameIdentifier.overlooksNumbers
    FindIdentifier.overlooksNumbers RemoveAnnotations.overlooksNumbers AddImport.overlooksNumbers
    BlankLines.overlooksNumbers

end Verbatim
