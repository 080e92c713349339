import Assay.Proofs.Typing.Acceptance
import Std.Data.HashMap.Lemmas

/-!
The members of a class with an index of their names for each kind of member. Whatever is added in whatever
order, the lists hold what was granted, the indexes find what is listed, and a class without indexes answers
the same.
-/

namespace Assay.Typing

inductive Addition
  | field (field : Field)
  | routine (signature : Signature)
deriving DecidableEq, Repr

namespace Addition

def field? : Addition → Option Field
  | .field added => some added
  | .routine _ => none

def signature? (role : Role) : Addition → Option Signature
  | .field _ => none
  | .routine signature => if signature.role = role then some signature else none

def Taken (owner : ClassType) : Addition → Prop
  | .field added => added.name ∈ owner.fields.map Field.name
  | .routine signature => signature.name = mainName ∨ signature.name ∈ routineNames owner

instance (owner : ClassType) (addition : Addition) : Decidable (addition.Taken owner) :=
  match addition with
  | .field added => inferInstanceAs (Decidable (added.name ∈ owner.fields.map Field.name))
  | .routine signature =>
    inferInstanceAs (Decidable (signature.name = mainName ∨ signature.name ∈ routineNames owner))

def refusal (owner : ClassRef) : Addition → RegistrationError
  | .field added => .duplicateField owner.name added.name
  | .routine signature =>
    if signature.name = mainName then .reservedName signature.name
    else .duplicateRoutine owner.name signature.name

end Addition

/-- A class with its indexes. -/
structure Registry where
  type : ClassType
  fieldIndex : Std.HashMap String Field
  fixtureIndex : Std.HashMap String Signature
  testIndex : Std.HashMap String Signature

namespace Registry

def new (ref : ClassRef) : Registry :=
  { type := .new ref, fieldIndex := ∅, fixtureIndex := ∅, testIndex := ∅ }

def problem? (registry : Registry) : Addition → Option RegistrationError
  | .field field =>
    if registry.fieldIndex.contains field.name then
      some (.duplicateField registry.type.name field.name)
    else none
  | .routine signature =>
    if signature.name = mainName then some (.reservedName signature.name)
    else if registry.testIndex.contains signature.name || registry.fixtureIndex.contains signature.name then
      some (.duplicateRoutine registry.type.name signature.name)
    else none

def extended (registry : Registry) : Addition → Registry
  | .field field =>
    { registry with
      type := { registry.type with fields := registry.type.fields ++ [field] }
      fieldIndex := registry.fieldIndex.insert field.name field }
  | .routine signature =>
    let type := withMembers registry.type [signature] signature.role
    match signature.role with
    | .fixture =>
      { registry with type, fixtureIndex := registry.fixtureIndex.insert signature.name signature }
    | .test => { registry with type, testIndex := registry.testIndex.insert signature.name signature }

def add (registry : Registry) (addition : Addition) : Option RegistrationError × Registry :=
  match registry.problem? addition with
  | some problem => (some problem, registry)
  | none => (none, registry.extended addition)

def addAll : Registry → List Addition → List (Option RegistrationError) × Registry
  | registry, [] => ([], registry)
  | registry, addition :: rest =>
    let (answer, next) := registry.add addition
    let (answers, last) := next.addAll rest
    (answer :: answers, last)

end Registry

def granted (additions : List Addition) (answers : List (Option RegistrationError)) : List Addition :=
  (additions.zip answers).filterMap fun (addition, answer) =>
    if answer.isNone then some addition else none

section Indexes

variable {α : Type} {nameOf : α → String} {index : Std.HashMap String α} {items : List α}

def Indexes (nameOf : α → String) (index : Std.HashMap String α) (items : List α) : Prop :=
  ∀ name, index[name]? = items.find? fun item => nameOf item = name

theorem Indexes.empty : Indexes nameOf ∅ [] := fun _ => Std.HashMap.getElem?_empty

theorem Indexes.contains_iff (indexes : Indexes nameOf index items) (name : String) :
    index.contains name = true ↔ name ∈ items.map nameOf := by
  rw [Std.HashMap.contains_eq_isSome_getElem?, indexes name]
  simp only [List.find?_isSome, decide_eq_true_eq, List.mem_map]

theorem Indexes.insert (indexes : Indexes nameOf index items) {item : α}
    (fresh : nameOf item ∉ items.map nameOf) :
    Indexes nameOf (index.insert (nameOf item) item) (items ++ [item]) := by
  intro name
  rw [Std.HashMap.getElem?_insert, List.find?_append]
  by_cases same : nameOf item = name
  · have none : items.find? (fun other => nameOf other = name) = none := by
      rw [List.find?_eq_none]
      intro other isOther isNamed
      exact fresh (same ▸ of_decide_eq_true isNamed ▸ List.mem_map_of_mem isOther)
    simp [same, none]
  · simp [same, indexes name]

theorem Indexes.getElem?_eq_some_iff (indexes : Indexes nameOf index items)
    (distinct : (items.map nameOf).Nodup) (name : String) (item : α) :
    index[name]? = some item ↔ item ∈ items ∧ nameOf item = name := by
  rw [indexes name]
  constructor
  · intro found
    exact ⟨List.mem_of_find?_eq_some found, by simpa using List.find?_some found⟩
  · rintro ⟨isItem, rfl⟩
    cases found : items.find? fun other => nameOf other = nameOf item with
    | none => exact absurd (List.find?_eq_none.mp found item isItem) (by simp)
    | some other =>
        have same : nameOf other = nameOf item := by simpa using List.find?_some found
        rw [List.inj_on_of_nodup_map distinct (List.mem_of_find?_eq_some found) isItem same]

end Indexes

section Answers

variable {owner : ClassType} {role : Role} {name : String} {type : Ty}

theorem addField_taken (taken : (Addition.field { name, type }).Taken owner) :
    owner.addField name type = .error ((Addition.field { name, type }).refusal owner.ref) := by
  rw [ClassType.addField, if_pos ((field?_isSome_iff owner name).mpr taken)]
  rfl

theorem register_taken (taken : (Addition.routine { owner := owner.ref, role, name }).Taken owner) :
    owner.register role name =
      .error ((Addition.routine { owner := owner.ref, role, name }).refusal owner.ref) := by
  rw [ClassType.register, routineProblem?_eq]
  by_cases isMain : name = mainName
  · simp only [isMain, if_true, Addition.refusal]
  · simp only [isMain, if_false, taken.resolve_left isMain, if_true, Addition.refusal, ClassType.name]

end Answers

section Steps

variable {registry : Registry} {addition : Addition}

structure Registry.Orderly (registry : Registry) : Prop where
  fields : Indexes Field.name registry.fieldIndex registry.type.fields
  fixtures : Indexes Signature.name registry.fixtureIndex registry.type.fixtures
  tests : Indexes Signature.name registry.testIndex registry.type.tests
  fieldsDistinct : (registry.type.fields.map Field.name).Nodup
  routinesDistinct : (routineNames registry.type).Nodup
  notMain : mainName ∉ routineNames registry.type

theorem Registry.Orderly.new (ref : ClassRef) : (Registry.new ref).Orderly :=
  { fields := .empty, fixtures := .empty, tests := .empty
    fieldsDistinct := .nil, routinesDistinct := .nil, notMain := List.not_mem_nil }

theorem Registry.Orderly.problem?_eq (orderly : registry.Orderly) (addition : Addition) :
    registry.problem? addition =
      if addition.Taken registry.type then some (addition.refusal registry.type.ref) else none := by
  cases addition with
  | field field =>
      by_cases taken : (Addition.field field).Taken registry.type
      · rw [if_pos taken, Registry.problem?, if_pos ((orderly.fields.contains_iff _).mpr taken)]
        rfl
      · rw [if_neg taken, Registry.problem?, if_neg (mt (orderly.fields.contains_iff _).mp taken)]
  | routine signature =>
      simp only [Registry.problem?, Bool.or_eq_true, orderly.tests.contains_iff,
        orderly.fixtures.contains_iff, Addition.Taken, Addition.refusal, ClassType.name, routineNames,
        List.mem_append]
      by_cases isMain : signature.name = mainName
      · simp only [isMain, if_true, true_or]
      · simp only [isMain, if_false, false_or, or_comm]

theorem Registry.Orderly.add_taken (orderly : registry.Orderly) (taken : addition.Taken registry.type) :
    registry.add addition = (some (addition.refusal registry.type.ref), registry) := by
  rw [Registry.add, orderly.problem?_eq, if_pos taken]

theorem Registry.Orderly.add_free (orderly : registry.Orderly) (free : ¬addition.Taken registry.type) :
    registry.add addition = (none, registry.extended addition) := by
  rw [Registry.add, orderly.problem?_eq, if_neg free]

theorem not_mem_of_routineNames {owner : ClassType} {name : String} (free : name ∉ routineNames owner) :
    name ∉ owner.fixtures.map Signature.name ∧ name ∉ owner.tests.map Signature.name :=
  not_or.mp fun member => free (List.mem_append.mpr member)

theorem Registry.Orderly.extended (orderly : registry.Orderly) (free : ¬addition.Taken registry.type) :
    (registry.extended addition).Orderly := by
  cases addition with
  | field field =>
      change field.name ∉ registry.type.fields.map Field.name at free
      refine { orderly with fields := orderly.fields.insert free, fieldsDistinct := ?_ }
      rw [Registry.extended, List.map_append, List.map_singleton, ← List.concat_eq_append]
      exact List.Nodup.concat free orderly.fieldsDistinct
  | routine signature =>
      obtain ⟨owner, role, name⟩ := signature
      obtain ⟨notMain, fresh⟩ := not_or.mp free
      obtain ⟨notFixture, notTest⟩ := not_mem_of_routineNames fresh
      have names := routineNames_perm registry.type [⟨owner, role, name⟩] role
      have distinct : (routineNames registry.type ++ [name]).Nodup := by
        rw [← List.concat_eq_append]
        exact List.Nodup.concat fresh orderly.routinesDistinct
      have routinesDistinct := names.nodup_iff.mpr distinct
      have without : mainName ∉ routineNames (withMembers registry.type [⟨owner, role, name⟩] role) := by
        rw [names.mem_iff, List.mem_append, not_or]
        exact ⟨orderly.notMain, fun isThis => notMain (List.mem_singleton.mp isThis).symm⟩
      cases role with
      | fixture =>
          exact { orderly with
            fixtures := orderly.fixtures.insert notFixture, routinesDistinct, notMain := without }
      | test =>
          exact { orderly with tests := orderly.tests.insert notTest, routinesDistinct, notMain := without }

theorem Registry.Orderly.add (orderly : registry.Orderly) (addition : Addition) :
    (registry.add addition).2.Orderly := by
  by_cases taken : addition.Taken registry.type
  · rw [orderly.add_taken taken]
    exact orderly
  · rw [orderly.add_free taken]
    exact orderly.extended taken

end Steps

section Runs

variable {registry : Registry}

theorem Registry.Orderly.addAll (orderly : registry.Orderly) (additions : List Addition) :
    (registry.addAll additions).2.Orderly := by
  induction additions generalizing registry with
  | nil => exact orderly
  | cons addition rest ih => exact ih (orderly.add addition)

theorem granted_cons (addition : Addition) (additions : List Addition) (answer : Option RegistrationError)
    (answers : List (Option RegistrationError)) :
    granted (addition :: additions) (answer :: answers) =
      (if answer.isNone then [addition] else []) ++ granted additions answers := by
  cases answer <;> rfl

theorem addAll_grows {α : Type} (list : Registry → List α) {member : Addition → Option α}
    (grows : ∀ registry addition,
      list (registry.extended addition) = list registry ++ (member addition).toList)
    (additions : List Addition) (registry : Registry) :
    list (registry.addAll additions).2 =
      list registry ++ (granted additions (registry.addAll additions).1).filterMap member := by
  induction additions generalizing registry with
  | nil => simp [Registry.addAll, granted]
  | cons addition rest ih =>
      simp only [Registry.addAll, granted_cons, ih]
      unfold Registry.add
      cases registry.problem? addition with
      | some problem => simp
      | none => cases known : member addition <;> simp [grows, known]

theorem extended_fields (registry : Registry) (addition : Addition) :
    (registry.extended addition).type.fields = registry.type.fields ++ addition.field?.toList := by
  obtain field | ⟨owner, _ | _, name⟩ := addition <;>
    simp [Registry.extended, withMembers, Addition.field?]

theorem extended_fixtures (registry : Registry) (addition : Addition) :
    (registry.extended addition).type.fixtures =
      registry.type.fixtures ++ (addition.signature? .fixture).toList := by
  obtain field | ⟨owner, _ | _, name⟩ := addition <;>
    simp [Registry.extended, withMembers, Addition.signature?]

theorem extended_tests (registry : Registry) (addition : Addition) :
    (registry.extended addition).type.tests =
      registry.type.tests ++ (addition.signature? .test).toList := by
  obtain field | ⟨owner, _ | _, name⟩ := addition <;>
    simp [Registry.extended, withMembers, Addition.signature?]

theorem extended_ref (registry : Registry) (addition : Addition) :
    (registry.extended addition).type.ref = registry.type.ref := by
  obtain field | ⟨owner, _ | _, name⟩ := addition <;> rfl

theorem add_ref (registry : Registry) (addition : Addition) :
    (registry.add addition).2.type.ref = registry.type.ref := by
  unfold Registry.add
  cases registry.problem? addition with
  | some problem => rfl
  | none => exact extended_ref registry addition

theorem addAll_ref (additions : List Addition) (registry : Registry) :
    (registry.addAll additions).2.type.ref = registry.type.ref := by
  induction additions generalizing registry with
  | nil => rfl
  | cons addition rest ih => simp only [Registry.addAll, ih, add_ref]

theorem addAll_append (first second : List Addition) (registry : Registry) :
    (registry.addAll (first ++ second)).2 = ((registry.addAll first).2.addAll second).2 := by
  induction first generalizing registry with
  | nil => rfl
  | cons addition rest ih => exact ih (registry.add addition).2

/-- The lists of a class hold the members that were granted, and its look-ups find what is listed. -/
structure Registry.Consistent (registry : Registry) (granted : List Addition) : Prop where
  fields : registry.type.fields = granted.filterMap Addition.field?
  fixtures : registry.type.fixtures = granted.filterMap (Addition.signature? .fixture)
  tests : registry.type.tests = granted.filterMap (Addition.signature? .test)
  fieldsDistinct : (registry.type.fields.map Field.name).Nodup
  routinesDistinct : (routineNames registry.type).Nodup
  notMain : mainName ∉ routineNames registry.type
  findsField : ∀ name field,
    registry.fieldIndex[name]? = some field ↔ field ∈ registry.type.fields ∧ field.name = name
  findsFixture : ∀ name signature,
    registry.fixtureIndex[name]? = some signature ↔
      signature ∈ registry.type.fixtures ∧ signature.name = name
  findsTest : ∀ name signature,
    registry.testIndex[name]? = some signature ↔
      signature ∈ registry.type.tests ∧ signature.name = name

theorem Registry.Orderly.consistent {additions : List Addition} (orderly : registry.Orderly)
    (fields : registry.type.fields = additions.filterMap Addition.field?)
    (fixtures : registry.type.fixtures = additions.filterMap (Addition.signature? .fixture))
    (tests : registry.type.tests = additions.filterMap (Addition.signature? .test)) :
    registry.Consistent additions := by
  obtain ⟨fixturesDistinct, testsDistinct, -⟩ := List.nodup_append.mp orderly.routinesDistinct
  exact
    { fields, fixtures, tests
      fieldsDistinct := orderly.fieldsDistinct
      routinesDistinct := orderly.routinesDistinct
      notMain := orderly.notMain
      findsField := orderly.fields.getElem?_eq_some_iff orderly.fieldsDistinct
      findsFixture := orderly.fixtures.getElem?_eq_some_iff fixturesDistinct
      findsTest := orderly.tests.getElem?_eq_some_iff testsDistinct }

theorem addAll_consistent (ref : ClassRef) (additions : List Addition) :
    let (answers, registry) := (Registry.new ref).addAll additions
    registry.Consistent (granted additions answers) :=
  ((Registry.Orderly.new ref).addAll additions).consistent
    (addAll_grows (fun registry => registry.type.fields) extended_fields additions _)
    (addAll_grows (fun registry => registry.type.fixtures) extended_fixtures additions _)
    (addAll_grows (fun registry => registry.type.tests) extended_tests additions _)

/-- A class without indexes gives the answers of one with indexes. -/
structure Registry.Agrees (registry : Registry) : Prop where
  field? : ∀ name, registry.type.field? name = registry.fieldIndex[name]?
  fixture? : ∀ name, registry.type.fixture? name = registry.fixtureIndex[name]?
  test? : ∀ name, registry.type.test? name = registry.testIndex[name]?
  addField : ∀ name type, registry.type.addField name type =
    match registry.add (.field { name, type }) with
    | (some problem, _) => .error problem
    | (none, grown) => .ok grown.type
  register : ∀ role name, registry.type.register role name =
    let signature : Signature := { owner := registry.type.ref, role, name }
    match registry.add (.routine signature) with
    | (some problem, _) => .error problem
    | (none, grown) => .ok (grown.type, signature)

theorem Registry.Orderly.agrees (orderly : registry.Orderly) : registry.Agrees where
  field? name := (orderly.fields name).symm
  fixture? name := (orderly.fixtures name).symm
  test? name := (orderly.tests name).symm
  addField name type := by
    by_cases taken : (Addition.field { name, type }).Taken registry.type
    · rw [addField_taken taken, orderly.add_taken taken]
    · rw [addField_free taken, orderly.add_free taken, Registry.extended]
  register role name := by
    by_cases taken : (Addition.routine ⟨registry.type.ref, role, name⟩).Taken registry.type
    · rw [register_taken taken]
      simp only [orderly.add_taken taken]
    · rw [register_free role (not_or.mp taken).1 (not_or.mp taken).2]
      simp only [orderly.add_free taken]
      cases role <;> rfl

end Runs

end Assay.Typing
