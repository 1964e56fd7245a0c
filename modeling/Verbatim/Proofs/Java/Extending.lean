import Verbatim.Proofs.Java.Bodies
import Verbatim.Proofs.Java.Spelling

/-! Files with one import more. Packages, imports and members are read the same whatever stands
behind them; so one more of them can be read behind the last one. -/

namespace Verbatim.Java

open Grammar (punctuation)

/-! ## Parts that do not look ahead -/

/-- Whether and how the part fits does not depend on what stands behind what it takes. -/
def Settled (part : Grammar Rule) : Prop :=
  ∀ {input rest : List Lexeme} {nodes : List Node},
    Reads takeLexeme Rule.body part input (some (nodes, rest)) →
    ∃ taken, input = taken ++ rest ∧ Fits Anything part taken nodes

section

variable {part : Grammar Rule} {input rest : List Lexeme} {nodes : List Node}
  {next after : List Lexeme → Prop}

theorem onlyAnnotations_none : OnlyAnnotations fun _ => false := fun _ gone => nomatch gone

theorem fits_of_thins (thins : Thins (fun _ => false) next after part input nodes rest)
    (some : ∃ other, next other)
    (reads : Reads takeLexeme Rule.body part input (.some (nodes, rest))) :
    ∃ taken, input = taken ++ rest ∧ ∀ other, next other →
      Reads takeLexeme Rule.body part (taken ++ other) (.some (nodes, other)) ∧
        after (taken ++ other) := by
  rcases thins with ⟨taken, left, rfl, sublist, again⟩
  have all : Node.withoutAll (fun _ => false) nodes = nodes :=
    Node.withoutAll_of_everywhere nodes fun _ _ _ _ => rfl
  rw [all] at again
  have length (left : List Lexeme) {other : List Lexeme}
      (reads : Reads takeLexeme Rule.body part (left ++ other) (.some (nodes, other))) :
      left.length = ((nodes.flatMap Node.tokens).map Prod.snd).length := by
    rcases reads.yields rfl with ⟨front, equal, yields⟩
    rw [yields.tokens, List.length_map, List.append_cancel_right equal]
  rcases some with ⟨other, isNext⟩
  have same : left = taken :=
    sublist.eq_of_length ((length left (again other isNext).1).trans (length taken reads).symm)
  subst same
  exact ⟨left, rfl, again⟩

theorem settled_of_thins (thins : ∀ {input rest nodes},
    Reads takeLexeme Rule.body part input (some (nodes, rest)) →
    ∃ after, Thins (fun _ => false) Anything after part input nodes rest) : Settled part := by
  intro input rest nodes reads
  rcases thins reads with ⟨after, thins⟩
  rcases fits_of_thins thins ⟨[], trivial⟩ reads with ⟨taken, equal, fits⟩
  exact ⟨taken, equal, fun other any => (fits other any).1⟩

theorem settled_package : Settled (.rule .package) :=
  settled_of_thins fun reads => ⟨_, package_thins onlyAnnotations_none reads⟩

theorem settled_importDecl : Settled (.rule .importDecl) :=
  settled_of_thins fun reads => ⟨_, importDecl_thins onlyAnnotations_none reads⟩

theorem settled_member : Settled (.rule .member) :=
  settled_of_thins fun reads =>
    ⟨_, membersThin onlyAnnotations_none _ (Nat.lt_succ_self _) reads⟩

theorem Settled.many_append (settled : Settled part)
    (reads : Reads takeLexeme Rule.body (.many part) input (some (nodes, rest))) :
    ∃ taken, input = taken ++ rest ∧ ∀ {other behind : List Lexeme} {more : List Node},
      Reads takeLexeme Rule.body (.many part) other (some (more, behind)) →
      Reads takeLexeme Rule.body (.many part) (taken ++ other) (some (nodes ++ more, behind)) := by
  generalize repetition : Grammar.many part = grammar at reads
  generalize reading : (some (nodes, rest) : Reading (List Lexeme)) = outcome at reads
  induction reads generalizing nodes with
  | manyEnd =>
      cases reading
      exact ⟨[], rfl, fun reads => repetition ▸ reads⟩
  | manyMore partReads _ _ more =>
      cases repetition
      rcases Reading.after_eq_some_iff.1 reading.symm with ⟨others, rfl, rfl⟩
      rcases settled partReads with ⟨taken, rfl, fits⟩
      rcases more rfl rfl with ⟨later, rfl, goesOn⟩
      refine ⟨taken ++ later, (List.append_assoc _ _ _).symm, fun reads => ?_⟩
      rw [List.append_assoc, List.append_assoc]
      exact .manyMore (fits _ trivial) (goesOn reads)
  | _ => cases repetition

end

/-! ## What parts end in -/

section

variable {body : Rule → Grammar Rule} {part : Grammar Rule} {taken : List Lexeme}
    {nodes : List Node}
  {text : String}

theorem Yields.forall_many {property : Node → Prop}
    (each : ∀ {taken nodes}, Yields body part taken nodes → ∀ node ∈ nodes, property node)
    (yields : Yields body (.many part) taken nodes) : ∀ node ∈ nodes, property node := by
  generalize repetition : Grammar.many part = grammar at yields
  induction yields with
  | manyEnd => exact fun _ absent => absurd absent List.not_mem_nil
  | manyMore partYields _ _ more =>
      cases repetition
      exact List.forall_mem_append.2 ⟨each partYields, more rfl⟩
  | _ => cases repetition

def EndsIn (text : String) (taken : List Lexeme) : Prop :=
  ∃ start last, taken = start ++ [last] ∧ last.shape = (mark text).shape

theorem EndsIn.append {taken : List Lexeme} (ends : EndsIn text taken) (front : List Lexeme) :
    EndsIn text (front ++ taken) := by
  rcases ends with ⟨start, last, rfl, shape⟩
  exact ⟨front ++ start, last, (List.append_assoc _ _ _).symm, shape⟩

theorem Yields.endsIn_many
    (each : ∀ {taken nodes}, Yields body part taken nodes → EndsIn text taken)
    (yields : Yields body (.many part) taken nodes) : taken = [] ∨ EndsIn text taken := by
  generalize repetition : Grammar.many part = grammar at yields
  induction yields with
  | manyEnd => exact .inl rfl
  | manyMore partYields _ _ more =>
      cases repetition
      rcases more rfl with rfl | ends
      · rw [List.append_nil]
        exact .inr (each partYields)
      · exact .inr (ends.append _)
  | _ => cases repetition

theorem Yields.endsIn_token (yields : Yields body (punctuation text) taken nodes) :
    EndsIn text taken := by
  rcases yields.of_token with ⟨last, _, rfl, -, accepted⟩
  exact ⟨[], last, rfl, shape_of_accepts accepted⟩

theorem endsIn_package (yields : Yields Rule.body (.rule .package) taken nodes) :
    EndsIn ";" taken := by
  rcases yields.of_rule.of_branch with ⟨_, partYields, -⟩
  rcases partYields.of_seq with ⟨_, _, _, _, rfl, -, -, behind⟩
  rcases behind.of_seq with ⟨_, _, _, _, rfl, -, -, behindWord⟩
  rcases behindWord.of_seq with ⟨_, _, _, _, rfl, -, -, semicolon⟩
  exact ((semicolon.endsIn_token.append _).append _).append _

theorem endsIn_importDecl (yields : Yields Rule.body (.rule .importDecl) taken nodes) :
    EndsIn ";" taken := by
  rcases yields.of_rule.of_branch with ⟨_, partYields, -⟩
  rcases partYields.of_seq with ⟨_, _, _, _, rfl, -, -, behind⟩
  rcases behind.of_seq with ⟨_, _, _, _, rfl, -, -, behindStatic⟩
  rcases behindStatic.of_seq with ⟨_, _, _, _, rfl, -, -, semicolon⟩
  exact ((semicolon.endsIn_token.append _).append _).append _

end

/-! ## Files -/

/-- The parts of a file that was read: its packages and imports, of which there are tokens in
front, and what stands behind them. -/
structure FileParts (front back : List Lexeme) (packages imports behind : List Node) : Prop where
  onePackage : packages = [] ∨ ∃ node, packages = [node] ∧ node.kind = .package
  areImports : ∀ node ∈ imports, node.kind = .importDecl
  areOthers : ∀ node ∈ behind, node.kind ≠ .package ∧ node.kind ≠ .importDecl
  nonempty : behind ≠ []
  length : front.length = ((packages ++ imports).flatMap Node.leaves).length
  ends : packages ++ imports ≠ [] → EndsIn ";" front
  /-- Behind the last import one more is read. -/
  extended : ∀ {made : List Lexeme} {node : Node},
    (∀ other, Reads takeLexeme Rule.body (.rule .importDecl)
      (made ++ other) (some ([node], other))) →
    ∃ root, Reads takeLexeme Rule.body (.rule .compilationUnit) (front ++ (made ++ back))
        (some ([root], [])) ∧
      root.bare = (Node.branch .sourceFile (packages ++ imports ++ node :: behind)).bare

/-- It does not matter how the parts are formatted. -/
theorem FileParts.of_bare {front back : List Lexeme} {packages imports behind : List Node}
    (parts : FileParts front back packages imports behind)
    {packages' imports' behind' : List Node}
    (samePackages : packages'.map Node.bare = packages.map Node.bare)
    (sameImports : imports'.map Node.bare = imports.map Node.bare)
    (sameBehind : behind'.map Node.bare = behind.map Node.bare) :
    FileParts front back packages' imports' behind' := by
  have kinds {nodes others : List Node} (same : nodes.map Node.bare = others.map Node.bare) :
      nodes.map (·.kind) = others.map (·.kind) := by
    have kinds := congrArg (List.map (·.kind)) same
    simpa [List.map_map, Function.comp_def] using kinds
  have forKinds {nodes others : List Node} (same : nodes.map Node.bare = others.map Node.bare)
      (property : Kind → Prop) (holds : ∀ node ∈ others, property node.kind) :
      ∀ node ∈ nodes, property node.kind := by
    rw [← List.forall_mem_map] at holds ⊢
    rwa [kinds same]
  have heads : (packages' ++ imports').map Node.bare = (packages ++ imports).map Node.bare := by
    rw [List.map_append, List.map_append, samePackages, sameImports]
  refine ⟨?_, forKinds sameImports (· = .importDecl) parts.areImports,
    forKinds sameBehind (fun kind => kind ≠ .package ∧ kind ≠ .importDecl) parts.areOthers,
    ?_, ?_, ?_, fun reads => ?_⟩
  · rcases parts.onePackage with rfl | ⟨node, rfl, isPackage⟩
    · exact .inl (List.map_eq_nil_iff.1 samePackages)
    · rcases List.map_eq_singleton_iff.1 samePackages with ⟨other, rfl, same⟩
      exact .inr ⟨other, rfl, by rw [← Node.kind_bare, same, Node.kind_bare, isPackage]⟩
  · rintro rfl
    exact parts.nonempty (List.map_eq_nil_iff.1 sameBehind.symm)
  · rw [parts.length, ← Node.leavesOfAll_nil, ← Node.leavesOfAll_nil,
      Node.length_leavesOfAll_eq heads]
  · intro some
    refine parts.ends fun none => some ?_
    rw [none] at heads
    exact List.map_eq_nil_iff.1 heads
  · rcases parts.extended reads with ⟨root, reads, same⟩
    refine ⟨root, reads, same.trans ?_⟩
    simp only [Node.branch, Node.bare_mk, List.map_append, List.map_cons, samePackages, sameImports,
      sameBehind]

theorem kind_of_topLevel {taken : List Lexeme} {nodes : List Node}
    (yields : Yields Rule.body (.rule .topLevel) taken nodes) :
    ∀ node ∈ nodes, node.kind ≠ .package ∧ node.kind ≠ .importDecl := by
  have ofBranch {part : Grammar Rule} {taken : List Lexeme} {nodes : List Node}
      (yields : Yields Rule.body (.branch .classDecl part) taken nodes) :
      ∀ node ∈ nodes, node.kind ≠ .package ∧ node.kind ≠ .importDecl := by
    rcases yields.of_branch with ⟨_, -, rfl⟩
    exact fun node member => List.mem_singleton.1 member ▸ ⟨nofun, nofun⟩
  cases yields.of_rule with
  | choiceFirst classYields =>
      cases classYields.of_rule with
      | choiceFirst enumYields => exact ofBranch enumYields
      | choiceSecond typeYields => exact ofBranch typeYields
  | choiceSecond semicolonYields =>
      rcases semicolonYields.of_token with ⟨token, kind, -, rfl, accepted⟩
      have isToken := isToken_of_accepts accepted
      intro node member
      rw [List.mem_singleton.1 member]
      constructor <;> rintro rfl <;> cases isToken

theorem exists_fileParts {tokens : List Lexeme} {root : Node}
    (reads : Reads takeLexeme Rule.body (.rule .compilationUnit) tokens (some ([root], []))) :
    ∃ front back packages imports behind, tokens = front ++ back ∧
      root = Grammar.grow .sourceFile (packages ++ imports ++ behind) ∧
      FileParts front back packages imports behind := by
  rcases reads.of_rule.of_branch with ⟨_, partReads, equal⟩
  cases (List.cons.inj equal).1
  rcases partReads.of_seq with ⟨packages, _, _, rfl, packageReads, behindPackage⟩
  rcases behindPackage.of_seq with ⟨imports, back, behind, rfl, importsRead, behindReads⟩
  rcases settled_importDecl.many_append importsRead with ⟨importTokens, rfl, goesOn⟩
  rcases packageReads.yields rfl with ⟨packageTokens, whole, packageYields⟩
  rcases importsRead.yields rfl with ⟨taken, equal, importYields⟩
  cases List.append_cancel_right equal
  rcases behindReads.yields rfl with ⟨taken, equal, behindYields⟩
  rw [List.append_nil] at equal
  cases equal
  have covers {part : Grammar Rule} {taken : List Lexeme} {nodes : List Node}
      (yields : Yields Rule.body part taken nodes)
      (grows : part.BranchesGrow Rule.mayBeEmpty = true) : Covers taken nodes :=
    yields.covers Rule.mayBeEmpty_sound branchesGrow_body grows
  have coversFront := (covers packageYields rfl).append (covers importYields rfl)
  refine ⟨packageTokens ++ importTokens, back, packages, imports, behind,
    by rw [whole, List.append_assoc], by rw [List.append_assoc], ?_, ?_, ?_, ?_,
    coversFront.leaves.length_eq, ?_, ?_⟩
  · cases packageYields with
    | optional yields =>
        rcases yields.of_rule.of_branch with ⟨inner, -, rfl⟩
        exact .inr ⟨_, rfl, rfl⟩
    | optionalNone => exact .inl rfl
  · refine importYields.forall_many fun yields => ?_
    rcases yields.of_rule.of_branch with ⟨inner, -, rfl⟩
    exact fun node member => List.mem_singleton.1 member ▸ rfl
  · rcases behindYields.of_seq with ⟨_, _, _, _, rfl, rfl, typeYields, endYields⟩
    refine List.forall_mem_append.2 ⟨typeYields.forall_many kind_of_topLevel, ?_⟩
    rcases endYields.of_token with ⟨token, kind, -, rfl, accepted⟩
    have isToken := isToken_of_accepts accepted
    intro node member
    rw [List.mem_singleton.1 member]
    constructor <;> rintro rfl <;> cases isToken
  · rcases behindYields.of_seq with ⟨_, _, _, _, rfl, rfl, -, endYields⟩
    rcases endYields.of_token with ⟨_, _, -, rfl, -⟩
    simp
  · intro some
    rcases importYields.endsIn_many endsIn_importDecl with rfl | ends
    · rw [List.append_nil]
      cases packageYields with
      | optional yields => exact endsIn_package yields
      | optionalNone =>
          -- there would be a node without a token
          rcases List.exists_cons_of_ne_nil some with ⟨first, rest, equal⟩
          have length := coversFront.leaves.length_eq
          rcases Node.exists_leavesBehind first [] with ⟨_, _, _, _, leaves⟩
          rw [equal, List.flatMap_cons, Node.leaves, leaves] at length
          cases length
    · exact ends.append _
  · intro made node readsMade
    have importReads := goesOn (.manyMore (readsMade back) (.manyEnd importsRead.none_behind_many))
    have others := Reads.seq importReads behindReads
    rw [List.append_assoc]
    have packageAgain : Reads takeLexeme Rule.body (.optional (.rule .package))
        (packageTokens ++ (importTokens ++ (made ++ back)))
        (some (packages, importTokens ++ (made ++ back))) := by
      rcases packageReads.of_optional with packageReads | ⟨-, rfl, same⟩
      · rcases settled_package packageReads with ⟨taken, equal, fits⟩
        cases List.append_cancel_right (whole.symm.trans equal)
        exact .optional (fits _ trivial)
      · have nothing : packageTokens = [] := List.append_left_eq_self.1 (whole.symm.trans same.symm)
        rw [nothing]
        exact .optional (package_none_of_others others)
    have file : Reads takeLexeme Rule.body (Rule.body .compilationUnit) _ _ :=
      .branch (.seq packageAgain others)
    refine ⟨_, by simpa [Reading.after, Reading.under] using file.rule, ?_⟩
    rw [Grammar.grow, Node.bare_withLeading]
    simp

end Verbatim.Java
