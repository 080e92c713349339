import Assay.Proofs.Assembly.Totality

/-!
Restriction of a class to named tests. Only the set of the names matters: the fixtures and the named
tests are compiled in the order of their declarations.
-/

namespace Assay.Assembly

open Bytecode Syntax Typing

theorem namedTests_ok {owner : ClassType} {names : List String} {tests : List Signature}
    (named : namedTests owner names = .ok tests) : names.map owner.test? = tests.map some := by
  induction names generalizing tests with
  | nil =>
      obtain rfl := Except.ok.inj named
      rfl
  | cons name rest ih =>
      unfold namedTests at named
      split at named
      · cases named
      · rename_i test found
        split at named
        · rename_i others restNamed
          obtain rfl := Except.ok.inj named
          rw [List.map_cons, List.map_cons, found, ih restNamed]
        · cases named

theorem namedTests_succeeds {owner : ClassType} {names : List String}
    (known : ∀ name ∈ names, ∃ test, owner.test? name = some test) :
    ∃ tests, namedTests owner names = .ok tests := by
  induction names with
  | nil => exact ⟨[], rfl⟩
  | cons name rest ih =>
      obtain ⟨⟨test, found⟩, restKnown⟩ := List.forall_mem_cons.mp known
      obtain ⟨tests, named⟩ := ih restKnown
      exact ⟨test :: tests, by simp only [namedTests, found, named]⟩

theorem restrict_ok {owner : ClassType} {names : List String} {selection : Selection}
    (restricted : restrict owner names = .ok selection) :
    ∃ tests, names.map owner.test? = tests.map some ∧ selection = .only (owner.fixtures ++ tests) := by
  unfold restrict at restricted
  split at restricted
  · rename_i tests named
    exact ⟨tests, namedTests_ok named, (Except.ok.inj restricted).symm⟩
  · cases restricted

theorem restrict_succeeds {owner : ClassType} {names others : List String} {selection : Selection}
    (restricted : restrict owner names = .ok selection) (sameNames : ∀ name ∈ others, name ∈ names) :
    ∃ again, restrict owner others = .ok again := by
  obtain ⟨tests, found, -⟩ := restrict_ok restricted
  have known : ∀ name ∈ others, ∃ test, owner.test? name = some test := by
    intro name isOther
    have isFound : owner.test? name ∈ tests.map some := found ▸ List.mem_map_of_mem (sameNames name isOther)
    obtain ⟨test, -, same⟩ := List.mem_map.mp isFound
    exact ⟨test, same.symm⟩
  obtain ⟨otherTests, named⟩ := namedTests_succeeds known
  exact ⟨.only (owner.fixtures ++ otherTests), by simp only [restrict, named]⟩

section Accepted

variable {declaration : ClassDeclaration} {names : List String} {selection : Selection}

theorem test?_of_declared (accepted : Accepted declaration) {test : MemberDeclaration}
    (isTest : test ∈ declaration.tests) :
    (check declaration).type.test? test.name = some (signatureOf declaration .test test) := by
  have distinct := accepted.distinct
  rw [List.map_append] at distinct
  have names := (List.nodup_append.mp distinct).2.1
  rw [ClassType.test?, accepted.tests, List.find?_map]
  cases found : declaration.tests.find? fun other => other.name = test.name with
  | none =>
      have differs := List.find?_eq_none.mp found test isTest
      simp at differs
  | some other =>
      have sameName : other.name = test.name := by simpa using List.find?_some found
      have isOther := List.mem_of_find?_eq_some found
      obtain rfl := List.inj_on_of_nodup_map names isOther isTest sameName
      exact congrArg (Option.map (signatureOf declaration .test)) found

theorem restrict_includes (accepted : Accepted declaration)
    (restricted : restrict (check declaration).type names = .ok selection) (role : Role)
    {member : MemberDeclaration} (isMember : member ∈ declared declaration role) :
    selection.includes (signatureOf declaration role member) = true ↔
      role = .fixture ∨ member.name ∈ names := by
  obtain ⟨tests, found, rfl⟩ := restrict_ok restricted
  simp only [Selection.includes, List.contains_iff_mem, List.mem_append, accepted.fixtures]
  cases role with
  | fixture => exact iff_of_true (.inl (List.mem_map_of_mem isMember)) (.inl rfl)
  | test =>
      have notFixture : signatureOf declaration .test member ∉
          declaration.fixtures.map (signatureOf declaration .fixture) := by
        intro isFixture
        obtain ⟨fixture, -, same⟩ := List.mem_map.mp isFixture
        cases congrArg Signature.role same
      simp only [notFixture, false_or, reduceCtorEq]
      rw [← List.mem_map_of_injective (Option.some_injective _), ← found, List.mem_map]
      constructor
      · rintro ⟨name, isName, same⟩
        have named := List.find?_some same
        rw [decide_eq_true_eq] at named
        rw [← named] at isName
        exact isName
      · intro isName
        exact ⟨member.name, isName, test?_of_declared accepted isMember⟩

theorem restrict_fixtures (accepted : Accepted declaration)
    (restricted : restrict (check declaration).type names = .ok selection) :
    included declaration selection .fixture = declaration.fixtures := by
  refine List.filter_eq_self.mpr fun fixture isFixture => ?_
  exact (restrict_includes accepted restricted .fixture isFixture).mpr (.inl rfl)

theorem restrict_tests (accepted : Accepted declaration)
    (restricted : restrict (check declaration).type names = .ok selection) :
    included declaration selection .test =
      declaration.tests.filter fun test => test.name ∈ names := by
  refine List.filter_congr fun test isTest => ?_
  rw [Bool.eq_iff_iff, restrict_includes accepted restricted .test isTest]
  simp

end Accepted

theorem compile_result (runId : String) (checked : CheckedClass) (selection : Selection) :
    let start : Compilation :=
      { run := .new 0, generator := .new (testClassName checked.type.name), log := [] }
    (compile runId checked selection).2 =
      if checked.hasErrors then .error (.rejected checked.type.name checked.diagnostics)
      else ((compileClass runId checked selection).run start).1.mapError .assembly := by
  unfold compile
  split
  · rfl
  · rfl

theorem map_run {α β : Type} (function : α → β) (computed : Compile α) (start : Compilation) :
    ((function <$> computed).run start).1 = (computed.run start).1.map function := by
  rw [ExceptT.run_map]
  rfl

theorem mapError_map {ε δ α β : Type} (change : ε → δ) (function : α → β) (result : Except ε α) :
    (result.mapError change).map function = (result.map function).mapError change := by
  cases result <;> rfl

/-- The classes of a program depend on nothing but the included members. -/
theorem compile_classes {checked : CheckedClass} {first second : Selection}
    (fixtures : first.filter checked.type.fixtures = second.filter checked.type.fixtures)
    (tests : first.filter checked.type.tests = second.filter checked.type.tests)
    (runId otherId : String) :
    (compile runId checked first).2.map Program.classes =
      (compile otherId checked second).2.map Program.classes := by
  have same : Program.classes <$> compileClass runId checked first =
      Program.classes <$> compileClass otherId checked second := by
    simp only [compileClass, fixtures, tests, map_bind, map_pure]
    rfl
  have results : ∀ start, ((compileClass runId checked first).run start).1.map Program.classes =
      ((compileClass otherId checked second).run start).1.map Program.classes := by
    intro start
    rw [← map_run, ← map_run, same]
  rw [compile_result, compile_result]
  split
  · rfl
  · rw [mapError_map, mapError_map, results]

section Classes

variable {declaration : ClassDeclaration} {selection : Selection}

theorem restrict_classes (accepted : Accepted declaration) {names others : List String}
    {again : Selection}
    (restricted : restrict (check declaration).type names = .ok selection)
    (restrictedToo : restrict (check declaration).type others = .ok again)
    (sameNames : ∀ name, name ∈ names ↔ name ∈ others) (runId otherId : String) :
    (compile runId (check declaration) selection).2.map Program.classes =
      (compile otherId (check declaration) again).2.map Program.classes := by
  have tests : included declaration selection .test = included declaration again .test := by
    rw [restrict_tests accepted restricted, restrict_tests accepted restrictedToo]
    simp only [sameNames]
  have fixtures : included declaration selection .fixture = included declaration again .fixture := by
    rw [restrict_fixtures accepted restricted, restrict_fixtures accepted restrictedToo]
  obtain ⟨firstFixtures, firstTests⟩ := filter_checked accepted selection
  obtain ⟨secondFixtures, secondTests⟩ := filter_checked accepted again
  refine compile_classes ?_ ?_ runId otherId
  · rw [firstFixtures, secondFixtures, signatures, signatures, fixtures]
  · rw [firstTests, secondTests, signatures, signatures, tests]

theorem routine_names (fine : (check declaration).diagnostics = []) {runId : String}
    {log : List Logging.Event} {program : Program}
    (done : compile runId (check declaration) selection = (log, .ok program)) :
    ∃ image, program.class? (testClassName declaration.name) = some image ∧
      image.routines.toList.map Routine.name =
        (included declaration selection .fixture).map MemberDeclaration.name ++
          (included declaration selection .test).map MemberDeclaration.name ++ [mainName] := by
  rcases compile_outcome fine runId selection with
    ⟨-, otherLog, other, target, image, parts, main, compiled, classes, targetName, -, built⟩ |
      ⟨-, otherLog, problem, failed, -⟩
  · rw [done] at compiled
    obtain ⟨-, rfl⟩ : log = otherLog ∧ program = other := by simpa using compiled
    have found : program.class? (testClassName declaration.name) = some image := by
      have different := testClassName_ne declaration.name
      simp [Program.class?, classes, targetName, built.name, different]
    have partNames : (parts.map Part.routine).map Routine.name =
        (parts.map Part.signature).map Signature.name := by
      simp only [List.map_map]
      exact List.map_congr_left fun part isPart => (built.linked part isPart).name
    refine ⟨image, found, ?_⟩
    rw [built.routines, List.map_append, partNames, built.members, List.map_append, List.map_cons,
      built.mainNamed]
    simp only [signatures, List.map_map, List.map_nil]
    rfl
  · rw [done] at failed
    simp at failed

end Classes

end Assay.Assembly
