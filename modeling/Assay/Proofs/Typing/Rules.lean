import Assay.Proofs.Syntax.Paths
import Assay.Proofs.Typing.Acceptance

/-!
Which classes are well typed, said by rules that know nothing of the checker: when an expression has
a type, when a body keeps the types, and what the names of a class have to satisfy. The checker finds
no error exactly in the well-typed classes.
-/

namespace Assay.Typing

open Syntax

inductive NamesType : String → Ty → Prop
  | int : NamesType "int" .int
  | boolean : NamesType "boolean" .boolean
  | bool : NamesType "bool" .boolean
  | float : NamesType "float" .float

/-- The type of an expression over fields of given types. An operator that is only a number counts as
an arithmetic operation or as an order. -/
inductive HasType (fields : String → Ty → Prop) : Expression → Ty → Prop
  | int {position : Position} {value : Int64} : HasType fields (.int position value) .int
  | boolean {position : Position} {value : Bool} :
      HasType fields (.boolean position value) .boolean
  | field {position : Position} {name : String} {type : Ty} : fields name type →
      HasType fields (.field position name) type
  | binary {position : Position} {operator : BinaryOperator} {left right : Expression} :
      HasType fields left .int → HasType fields right .int →
      HasType fields (.binary position operator left right) .int
  | compareInts {position : Position} {operator : ComparisonOperator} {left right : Expression} :
      HasType fields left .int → HasType fields right .int →
      HasType fields (.comparison position operator left right) .boolean
  | compareBooleans {position : Position} {operator : ComparisonOperator}
      {left right : Expression} : operator = .equal ∨ operator = .notEqual →
      HasType fields left .boolean → HasType fields right .boolean →
      HasType fields (.comparison position operator left right) .boolean
  | not {position : Position} {operand : Expression} : HasType fields operand .boolean →
      HasType fields (.not position operand) .boolean
  | and {position : Position} {left right : Expression} : HasType fields left .boolean →
      HasType fields right .boolean → HasType fields (.and position left right) .boolean
  | or {position : Position} {left right : Expression} : HasType fields left .boolean →
      HasType fields right .boolean → HasType fields (.or position left right) .boolean

inductive KeepsTypes (fields : String → Ty → Prop) : Command → Prop
  | skip {position : Position} : KeepsTypes fields (.skip position)
  | seq {position : Position} {first second : Command} : KeepsTypes fields first →
      KeepsTypes fields second → KeepsTypes fields (.seq position first second)
  | ifThen {position : Position} {condition : Expression} {yes : Command} :
      HasType fields condition .boolean → KeepsTypes fields yes →
      KeepsTypes fields (.ifThen position condition yes)
  | ifElse {position : Position} {condition : Expression} {yes no : Command} :
      HasType fields condition .boolean → KeepsTypes fields yes → KeepsTypes fields no →
      KeepsTypes fields (.ifElse position condition yes no)
  | loop {position : Position} {condition : Expression} {body : Command} :
      HasType fields condition .boolean → KeepsTypes fields body →
      KeepsTypes fields (.loop position condition body)
  | ret {position : Position} : KeepsTypes fields (.ret position)
  | assign {position : Position} {name : String} {value : Expression} {type : Ty} :
      fields name type → HasType fields value type →
      KeepsTypes fields (.assign position name value)
  | assert {position : Position} {condition : Expression} : HasType fields condition .boolean →
      KeepsTypes fields (.assert position condition)

def AssertFree (body : Command) : Prop :=
  ∀ position condition, ¬PartOf (.assert position condition) body

theorem AssertFree.part {inner body : Command} (free : AssertFree body)
    (inside : ∀ {part}, PartOf part inner → PartOf part body) : AssertFree inner :=
  fun position condition isPart => free position condition (inside isPart)

def DeclaresField (declaration : ClassDeclaration) (name : String) (type : Ty) : Prop :=
  ∃ field ∈ declaration.fields, field.name = name ∧ NamesType field.typeName type

/-- The rules for classes. Fixtures and tests share one namespace. -/
structure WellTyped (declaration : ClassDeclaration) : Prop where
  fieldNames : (declaration.fields.map FieldDeclaration.name).Nodup
  fieldTypes : ∀ field ∈ declaration.fields, ∃ type, NamesType field.typeName type
  memberNames : ((declaration.fixtures ++ declaration.tests).map MemberDeclaration.name).Nodup
  notMain : ∀ member ∈ declaration.fixtures ++ declaration.tests, member.name ≠ "main"
  keepsTypes : ∀ member ∈ declaration.fixtures ++ declaration.tests,
    KeepsTypes (DeclaresField declaration) member.body
  assertFree : ∀ fixture ∈ declaration.fixtures, AssertFree fixture.body
  nothingAfterReturn : ∀ member ∈ declaration.fixtures ++ declaration.tests,
    NothingAfterReturn member.body

@[simp] theorem requireBoolean_eq_nil {position : Position} {type : Ty} :
    Checker.requireBoolean position type = [] ↔ type = .boolean := by
  refine ⟨requireBoolean_nil, ?_⟩
  rintro rfl
  rfl

@[simp] theorem requireAssignable_eq_nil {position : Position} {actual expected : Ty} :
    Checker.requireAssignable position actual expected = [] ↔ actual = expected := by
  refine ⟨requireAssignable_nil, ?_⟩
  rintro rfl
  simp [Checker.requireAssignable, Ty.assignableTo]

theorem isEquality_iff (operator : ComparisonOperator) :
    operator.isEquality = true ↔ operator = .equal ∨ operator = .notEqual := by
  cases operator <;> simp [ComparisonOperator.isEquality]

theorem comparisonProblems_eq_nil {checker : Checker} {operator : ComparisonOperator}
    {left right : Expression} :
    comparisonProblems checker operator left right = [] ↔
      (typeOf checker left = .boolean ∧ typeOf checker right = .boolean ∧
        operator.isEquality = true) ∨
      typeOf checker left = .int ∧ typeOf checker right = .int := by
  refine ⟨comparisonProblems_nil, ?_⟩
  rintro (⟨leftType, rightType, equality⟩ | ⟨leftType, rightType⟩)
  · simp [comparisonProblems, leftType, rightType, equality]
  · simp [comparisonProblems, leftType, rightType]

section Bodies

variable {checker : Checker} {fields : String → Ty → Prop}

def Checker.Knows (checker : Checker) (fields : String → Ty → Prop) : Prop :=
  ∀ name type, checker.fieldType? name = some type ↔ fields name type

theorem fieldProblems_eq_nil (position : Position) (name : String) :
    checker.fieldProblems position name = [] ↔ ∃ type, checker.fieldType? name = some type := by
  constructor
  · intro fine
    obtain ⟨field, found⟩ := fieldProblems_nil fine
    exact ⟨field.type, by rw [Checker.fieldType?, found, Option.map_some]⟩
  · rintro ⟨type, found⟩
    simp only [Checker.fieldType?, Checker.field?, Option.map_eq_some_iff,
      Option.bind_eq_some_iff] at found
    obtain ⟨field, ⟨owner, receiver, declared⟩, -⟩ := found
    simp only [Checker.fieldProblems, receiver, declared]

theorem typeOf_field (position : Position) {name : String} {type : Ty}
    (found : checker.fieldType? name = some type) :
    typeOf checker (.field position name) = type := by
  rw [Checker.fieldType?] at found
  simp only [typeOf, found, Option.getD_some]

/-- The rules give an expression a type exactly if the checker finds nothing wrong with it and
computes that type. -/
theorem hasType_iff (knows : checker.Knows fields) (expression : Expression) (type : Ty) :
    HasType fields expression type ↔
      expressionProblems checker expression = [] ∧ typeOf checker expression = type := by
  constructor
  · intro hasType
    induction hasType with
    | int => exact ⟨rfl, rfl⟩
    | boolean => exact ⟨rfl, rfl⟩
    | field declared =>
        have found := (knows _ _).mpr declared
        exact ⟨(fieldProblems_eq_nil _ _).mpr ⟨_, found⟩, typeOf_field _ found⟩
    | binary _ _ leftIh rightIh => exact ⟨by simp [expressionProblems, leftIh, rightIh], rfl⟩
    | compareInts _ _ leftIh rightIh =>
        exact ⟨by simp [expressionProblems, comparisonProblems_eq_nil, leftIh, rightIh], rfl⟩
    | compareBooleans equality _ _ leftIh rightIh =>
        refine ⟨?_, rfl⟩
        simp [expressionProblems, comparisonProblems_eq_nil, isEquality_iff, equality, leftIh,
          rightIh]
    | not _ ih => exact ⟨by simp [expressionProblems, ih], rfl⟩
    | and _ _ leftIh rightIh => exact ⟨by simp [expressionProblems, leftIh, rightIh], rfl⟩
    | or _ _ leftIh rightIh => exact ⟨by simp [expressionProblems, leftIh, rightIh], rfl⟩
  · rintro ⟨fine, rfl⟩
    induction expression with
    | int position value => exact .int
    | boolean position value => exact .boolean
    | field position name =>
        obtain ⟨type, found⟩ := (fieldProblems_eq_nil position name).mp fine
        rw [typeOf_field position found]
        exact .field ((knows name type).mp found)
    | binary position operator left right leftIh rightIh =>
        simp only [expressionProblems, List.append_eq_nil_iff, requireAssignable_eq_nil] at fine
        obtain ⟨⟨⟨leftFine, leftType⟩, rightFine⟩, rightType⟩ := fine
        exact .binary (leftType ▸ leftIh leftFine) (rightType ▸ rightIh rightFine)
    | comparison position operator left right leftIh rightIh =>
        simp only [expressionProblems, List.append_eq_nil_iff, comparisonProblems_eq_nil,
          isEquality_iff] at fine
        obtain ⟨⟨leftFine, rightFine⟩, comparable⟩ := fine
        rcases comparable with ⟨leftType, rightType, equality⟩ | ⟨leftType, rightType⟩
        · exact .compareBooleans equality (leftType ▸ leftIh leftFine) (rightType ▸ rightIh rightFine)
        · exact .compareInts (leftType ▸ leftIh leftFine) (rightType ▸ rightIh rightFine)
    | not position operand ih =>
        simp only [expressionProblems, List.append_eq_nil_iff, requireBoolean_eq_nil] at fine
        exact .not (fine.2 ▸ ih fine.1)
    | and position left right leftIh rightIh =>
        simp only [expressionProblems, List.append_eq_nil_iff, requireBoolean_eq_nil] at fine
        obtain ⟨⟨⟨leftFine, leftType⟩, rightFine⟩, rightType⟩ := fine
        exact .and (leftType ▸ leftIh leftFine) (rightType ▸ rightIh rightFine)
    | or position left right leftIh rightIh =>
        simp only [expressionProblems, List.append_eq_nil_iff, requireBoolean_eq_nil] at fine
        obtain ⟨⟨⟨leftFine, leftType⟩, rightFine⟩, rightType⟩ := fine
        exact .or (leftType ▸ leftIh leftFine) (rightType ▸ rightIh rightFine)

theorem conditionProblems_eq_nil (knows : checker.Knows fields) (condition : Expression) :
    conditionProblems checker condition = [] ↔ HasType fields condition .boolean := by
  simp only [conditionProblems, List.append_eq_nil_iff, requireBoolean_eq_nil, hasType_iff knows]

theorem assign_eq_nil (knows : checker.Knows fields) (position : Position) (name : String)
    (value : Expression) :
    (checkCommand checker (.assign position name value)).2 = [] ↔
      ∃ type, fields name type ∧ HasType fields value type := by
  simp only [checkCommand, List.append_eq_nil_iff, fieldProblems_eq_nil]
  constructor
  · rintro ⟨⟨valueFine, type, found⟩, assignable⟩
    refine ⟨type, (knows name type).mp found, (hasType_iff knows value type).mpr ⟨valueFine, ?_⟩⟩
    simp only [Checker.fieldType?, Option.map_eq_some_iff] at found
    obtain ⟨field, isField, rfl⟩ := found
    simpa only [isField, requireAssignable_eq_nil] using assignable
  · rintro ⟨type, declared, hasType⟩
    obtain ⟨valueFine, valueType⟩ := (hasType_iff knows value type).mp hasType
    have found := (knows name type).mpr declared
    refine ⟨⟨valueFine, type, found⟩, ?_⟩
    simp only [Checker.fieldType?, Option.map_eq_some_iff] at found
    obtain ⟨field, isField, rfl⟩ := found
    simpa only [isField, requireAssignable_eq_nil] using valueType

theorem keepsTypes_of_fine (knows : checker.Knows fields) {command : Command}
    (fine : (checkCommand checker command).2 = []) : KeepsTypes fields command := by
  induction command with
  | skip position => exact .skip
  | seq position first second firstIh secondIh =>
      obtain ⟨firstFine, secondFine⟩ := checkCommand_seq fine
      exact .seq (firstIh firstFine) (secondIh secondFine)
  | ifThen position condition yes ih =>
      simp only [checkCommand, List.append_eq_nil_iff, conditionProblems_eq_nil knows] at fine
      exact .ifThen fine.1 (ih fine.2)
  | ifElse position condition yes no yesIh noIh =>
      simp only [checkCommand, List.append_eq_nil_iff, conditionProblems_eq_nil knows] at fine
      exact .ifElse fine.1.1 (yesIh fine.1.2) (noIh fine.2)
  | loop position condition body ih =>
      simp only [checkCommand, List.append_eq_nil_iff, conditionProblems_eq_nil knows] at fine
      exact .loop fine.1 (ih fine.2)
  | ret position => exact .ret
  | assign position name value =>
      obtain ⟨type, declared, hasType⟩ := (assign_eq_nil knows position name value).mp fine
      exact .assign declared hasType
  | assert position condition =>
      simp only [checkCommand, List.append_eq_nil_iff, conditionProblems_eq_nil knows] at fine
      exact .assert fine.2

theorem checkCommand_part {part command : Command} (isPart : PartOf part command)
    (fine : (checkCommand checker command).2 = []) : (checkCommand checker part).2 = [] := by
  induction isPart with
  | self => exact fine
  | seqFirst _ ih => exact ih (checkCommand_seq fine).1
  | seqSecond _ ih => exact ih (checkCommand_seq fine).2
  | ifThen _ ih => exact ih (List.append_eq_nil_iff.mp fine).2
  | ifElseTrue _ ih =>
      simp only [checkCommand, List.append_eq_nil_iff] at fine
      exact ih fine.1.2
  | ifElseFalse _ ih => exact ih (List.append_eq_nil_iff.mp fine).2
  | loop _ ih => exact ih (List.append_eq_nil_iff.mp fine).2

theorem assertFree_of_fine {command : Command} (forbidden : checker.assertPermitted = false)
    (fine : (checkCommand checker command).2 = []) : AssertFree command := by
  intro position condition isPart
  have partFine := checkCommand_part isPart fine
  simp [checkCommand, forbidden] at partFine

theorem fine_of_keepsTypes (knows : checker.Knows fields) (void : checker.returnType = .void)
    {command : Command} (keeps : KeepsTypes fields command)
    (permitted : checker.assertPermitted = false → AssertFree command) :
    (checkCommand checker command).2 = [] := by
  induction keeps with
  | skip => rfl
  | seq _ _ firstIh secondIh =>
      simp only [checkCommand, List.append_eq_nil_iff, checkCommand_checker]
      exact ⟨firstIh fun forbidden => (permitted forbidden).part .seqFirst,
        secondIh fun forbidden => (permitted forbidden).part .seqSecond⟩
  | ifThen isCondition _ ih =>
      simp only [checkCommand, List.append_eq_nil_iff, conditionProblems_eq_nil knows]
      exact ⟨isCondition, ih fun forbidden => (permitted forbidden).part .ifThen⟩
  | ifElse isCondition _ _ yesIh noIh =>
      simp only [checkCommand, List.append_eq_nil_iff, conditionProblems_eq_nil knows]
      exact ⟨⟨isCondition, yesIh fun forbidden => (permitted forbidden).part .ifElseTrue⟩,
        noIh fun forbidden => (permitted forbidden).part .ifElseFalse⟩
  | loop isCondition _ ih =>
      simp only [checkCommand, List.append_eq_nil_iff, conditionProblems_eq_nil knows]
      exact ⟨isCondition, ih fun forbidden => (permitted forbidden).part .loop⟩
  | ret => simp only [checkCommand, void, if_true]
  | assign declared hasType => exact (assign_eq_nil knows _ _ _).mpr ⟨_, declared, hasType⟩
  | @assert position condition isCondition =>
      simp only [checkCommand, List.append_eq_nil_iff, conditionProblems_eq_nil knows]
      refine ⟨?_, isCondition⟩
      cases allowed : checker.assertPermitted with
      | true => rfl
      | false => exact absurd (.self _) (permitted allowed position condition)

end Bodies

theorem bodyProblems_eq_nil {owner : ClassType} {role : Role} {fields : String → Ty → Prop}
    (knows : (Member.checkerFor role owner).Knows fields) (member : MemberDeclaration) :
    Member.bodyProblems role member owner = [] ↔
      KeepsTypes fields member.body ∧ (role = .fixture → AssertFree member.body) ∧
        NothingAfterReturn member.body := by
  have forbidden : (Member.checkerFor role owner).assertPermitted = false ↔ role = .fixture := by
    cases role <;> simp [Member.checkerFor, Checker.bind, Checker.new]
  have dead : deadCodeProblems member.position member.body = [] ↔ NothingAfterReturn member.body := by
    rw [← isDeadCodeFree_iff]
    cases free : member.body.isDeadCodeFree <;> simp [deadCodeProblems, free]
  simp only [Member.bodyProblems, List.append_eq_nil_iff, dead]
  constructor
  · rintro ⟨fine, nothing⟩
    exact ⟨keepsTypes_of_fine knows fine,
      fun isFixture => assertFree_of_fine (forbidden.mpr isFixture) fine, nothing⟩
  · rintro ⟨keeps, free, nothing⟩
    exact ⟨fine_of_keepsTypes knows rfl keeps fun notPermitted => free (forbidden.mp notPermitted),
      nothing⟩

theorem ofName?_eq_some_iff (name : String) (type : Ty) :
    Ty.ofName? name = some type ↔ NamesType name type := by
  constructor
  · intro found
    simp only [Ty.ofName?, Bool.or_eq_true, decide_eq_true_eq] at found
    split at found
    · rename_i isInt
      obtain rfl := Option.some.inj found
      exact isInt ▸ .int
    · split at found
      · rename_i isBoolean
        obtain rfl := Option.some.inj found
        rcases isBoolean with rfl | rfl
        · exact .boolean
        · exact .bool
      · split at found
        · rename_i isFloat
          obtain rfl := Option.some.inj found
          exact isFloat ▸ .float
        · simp at found
  · rintro (_ | _ | _ | _) <;> rfl

section Members

variable {owner : ClassType} {role : Role}

theorem addFields_fine {declarations : List FieldDeclaration}
    (types : ∀ field ∈ declarations, ∃ type, NamesType field.typeName type)
    (distinct : (owner.fields.map Field.name ++ declarations.map FieldDeclaration.name).Nodup) :
    (addFields owner declarations).2 = [] := by
  induction declarations generalizing owner with
  | nil => rfl
  | cons declaration rest ih =>
      obtain ⟨type, named⟩ := types declaration List.mem_cons_self
      rw [← ofName?_eq_some_iff] at named
      have fresh : declaration.name ∉ owner.fields.map Field.name := fun taken =>
        (List.nodup_append.mp distinct).2.2 _ taken _ List.mem_cons_self rfl
      have step : addField owner declaration =
          ({ owner with fields := owner.fields ++ [{ name := declaration.name, type }] }, []) := by
        simp only [addField, named, addField_free fresh]
      simp only [addFields, step, List.nil_append]
      refine ih (fun field later => types field (List.mem_cons_of_mem _ later)) ?_
      simpa using distinct

theorem addMembers_fine {declarations : List MemberDeclaration}
    (notMain : ∀ member ∈ declarations, member.name ≠ mainName)
    (distinct : (routineNames owner ++ declarations.map MemberDeclaration.name).Nodup) :
    addMembers owner (declarations.map (Member.declared role)) =
      (withMembers owner (declarations.map fun member =>
          { owner := owner.ref, role, name := member.name }) role,
        declarations.map (registered owner.ref role), []) := by
  induction declarations generalizing owner with
  | nil => cases role <;> simp [addMembers, withMembers]
  | cons declaration rest ih =>
      have fresh : declaration.name ∉ routineNames owner := fun taken =>
        (List.nodup_append.mp distinct).2.2 _ taken _ List.mem_cons_self rfl
      have step : (Member.declared role declaration).addTo owner =
          (withMembers owner [{ owner := owner.ref, role, name := declaration.name }] role,
            registered owner.ref role declaration, []) := by
        simp only [Member.addTo, Member.declared, registered,
          register_free role (notMain declaration List.mem_cons_self) fresh]
      have names := routineNames_perm owner
        [{ owner := owner.ref, role, name := declaration.name }] role
      have others := ih (fun member later => notMain member (List.mem_cons_of_mem _ later))
        ((names.append_right (rest.map MemberDeclaration.name)).nodup_iff.mpr
          (by simpa using distinct))
      rw [withMembers_ref] at others
      simp only [List.map_cons, addMembers, step, others, withMembers_cons, List.append_nil]

theorem checkMembers_fine {ref : ClassRef} {declarations : List MemberDeclaration}
    (bodies : ∀ member ∈ declarations, Member.bodyProblems role member owner = []) :
    (checkMembers owner (declarations.map (registered ref role))).2 = [] := by
  induction declarations with
  | nil => rfl
  | cons declaration rest ih =>
      have hasSignature : (registered ref role declaration).signature.isSome = true := rfl
      simp only [List.map_cons, checkMembers, hasSignature, if_true, List.append_eq_nil_iff]
      exact ⟨bodies declaration List.mem_cons_self,
        ih fun member later => bodies member (List.mem_cons_of_mem _ later)⟩

theorem fieldOf?_eq_some_iff (declaration : FieldDeclaration) (field : Field) :
    fieldOf? declaration = some field ↔
      declaration.name = field.name ∧ NamesType declaration.typeName field.type := by
  simp only [fieldOf?, Option.map_eq_some_iff, ofName?_eq_some_iff]
  constructor
  · rintro ⟨type, named, rfl⟩
    exact ⟨rfl, named⟩
  · rintro ⟨sameName, named⟩
    exact ⟨field.type, named, by rw [sameName]⟩

theorem field_names {declarations : List FieldDeclaration} {fields : List Field}
    (same : declarations.map fieldOf? = fields.map some) :
    declarations.map FieldDeclaration.name = fields.map Field.name := by
  induction declarations generalizing fields with
  | nil => cases fields <;> simp_all
  | cons declaration rest ih =>
      cases fields with
      | nil => simp at same
      | cons field others =>
          simp only [List.map_cons, List.cons.injEq, fieldOf?_eq_some_iff] at same ⊢
          exact ⟨same.1.1, ih same.2⟩

theorem checkerFor_knows {declarations : List FieldDeclaration}
    (same : declarations.map fieldOf? = owner.fields.map some)
    (distinct : (owner.fields.map Field.name).Nodup) :
    (Member.checkerFor role owner).Knows fun name type =>
      ∃ field ∈ declarations, field.name = name ∧ NamesType field.typeName type := by
  intro name type
  have declared_iff : ∀ field, field ∈ owner.fields ↔
      ∃ declaration ∈ declarations, fieldOf? declaration = some field := by
    intro field
    rw [← List.mem_map, same]
    simp
  simp only [Checker.fieldType?, checkerFor_field?, ClassType.field?, Option.map_eq_some_iff]
  constructor
  · rintro ⟨field, found, rfl⟩
    have sameName : field.name = name := by simpa using List.find?_some found
    obtain ⟨declaration, isDeclared, isField⟩ :=
      (declared_iff field).mp (List.mem_of_find?_eq_some found)
    obtain ⟨declaredName, named⟩ := (fieldOf?_eq_some_iff declaration field).mp isField
    exact ⟨declaration, isDeclared, declaredName.trans sameName, named⟩
  · rintro ⟨declaration, isDeclared, rfl, named⟩
    have isField := (declared_iff ⟨declaration.name, type⟩).mpr
      ⟨declaration, isDeclared, (fieldOf?_eq_some_iff _ _).mpr ⟨rfl, named⟩⟩
    cases found : owner.fields.find? fun field => field.name = declaration.name with
    | none =>
        have missing := List.find?_eq_none.mp found _ isField
        simp at missing
    | some field =>
        have sameName : field.name = declaration.name := by simpa using List.find?_some found
        obtain rfl := List.inj_on_of_nodup_map distinct (List.mem_of_find?_eq_some found) isField sameName
        exact ⟨_, rfl, rfl⟩

end Members

section Classes

variable {declaration : ClassDeclaration}

theorem Accepted.wellTyped (accepted : Accepted declaration) : WellTyped declaration := by
  have names := field_names accepted.fields
  have knows : ∀ role, (Member.checkerFor role (check declaration).type).Knows
      (DeclaresField declaration) := fun role =>
    checkerFor_knows accepted.fields accepted.fieldsDistinct
  have bodies : ∀ role, ∀ member ∈ declared declaration role,
      KeepsTypes (DeclaresField declaration) member.body ∧
        (role = .fixture → AssertFree member.body) ∧ NothingAfterReturn member.body :=
    fun role member isMember =>
      (bodyProblems_eq_nil (knows role) member).mp (accepted.bodies role member isMember)
  have all : ∀ member ∈ declaration.fixtures ++ declaration.tests,
      KeepsTypes (DeclaresField declaration) member.body ∧ NothingAfterReturn member.body := by
    intro member isMember
    rcases List.mem_append.mp isMember with isFixture | isTest
    · exact ⟨(bodies .fixture member isFixture).1, (bodies .fixture member isFixture).2.2⟩
    · exact ⟨(bodies .test member isTest).1, (bodies .test member isTest).2.2⟩
  constructor
  · rw [names]
    exact accepted.fieldsDistinct
  · intro field isField
    have isMapped : fieldOf? field ∈ (check declaration).type.fields.map some :=
      accepted.fields ▸ List.mem_map_of_mem isField
    obtain ⟨found, -, same⟩ := List.mem_map.mp isMapped
    exact ⟨found.type, ((fieldOf?_eq_some_iff field found).mp same.symm).2⟩
  · exact accepted.distinct
  · exact accepted.notMain
  · exact fun member isMember => (all member isMember).1
  · exact fun fixture isFixture => (bodies .fixture fixture isFixture).2.1 rfl
  · exact fun member isMember => (all member isMember).2

theorem WellTyped.bodyProblems_nil (typed : WellTyped declaration) {owner : ClassType} {role : Role}
    (knows : (Member.checkerFor role owner).Knows (DeclaresField declaration))
    {member : MemberDeclaration} (isMember : member ∈ declared declaration role) :
    Member.bodyProblems role member owner = [] := by
  refine (bodyProblems_eq_nil knows member).mpr
    ⟨typed.keepsTypes member (mem_of_declared isMember), ?_,
      typed.nothingAfterReturn member (mem_of_declared isMember)⟩
  rintro rfl
  exact typed.assertFree member isMember

theorem WellTyped.no_errors (typed : WellTyped declaration) :
    (check declaration).diagnostics = [] := by
  have memberNames := typed.memberNames
  rw [List.map_append] at memberNames
  have fieldsFine : (addFields (ClassType.new { name := declaration.name, serial := 0 })
      declaration.fields).2 = [] :=
    addFields_fine typed.fieldTypes (by simpa [ClassType.new] using typed.fieldNames)
  obtain ⟨fields, sameFields, fieldsType, fieldsDistinct⟩ := addFields_ok fieldsFine
  simp only [check, checkClass, fieldsFine, fieldsType]
  rw [addMembers_fine (fun member isFixture => typed.notMain member (List.mem_append_left _ isFixture))]
  · rw [addMembers_fine (fun member isTest => typed.notMain member (List.mem_append_right _ isTest))]
    · have knows : ∀ {owner : ClassType} {role : Role}, owner.fields = fields →
          (Member.checkerFor role owner).Knows (DeclaresField declaration) := by
        intro owner role same
        refine checkerFor_knows (by rw [same]; exact sameFields) ?_
        simpa [same, ClassType.new] using fieldsDistinct (by simp [ClassType.new])
      simp only [List.nil_append, List.append_eq_nil_iff]
      constructor
      · exact checkMembers_fine fun member isFixture => typed.bodyProblems_nil (knows rfl) isFixture
      · exact checkMembers_fine fun member isTest => typed.bodyProblems_nil (knows rfl) isTest
    · simpa [routineNames, withMembers, ClassType.new, Function.comp_def] using memberNames
  · simpa [routineNames, ClassType.new] using (List.nodup_append.mp memberNames).1

/-- A class is checked without errors exactly if it is well typed. -/
theorem diagnostics_nil_iff_wellTyped (declaration : ClassDeclaration) :
    (check declaration).diagnostics = [] ↔ WellTyped declaration :=
  ⟨fun fine => (accepted_of_no_errors fine).wellTyped, WellTyped.no_errors⟩

end Classes

end Assay.Typing
