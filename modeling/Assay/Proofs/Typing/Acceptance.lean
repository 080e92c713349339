import Assay.Proofs.Typing.Soundness
import Assay.Typing.CheckedClass
import Mathlib.Data.List.Nodup

/-!
What a class declaration without errors looks like: its members have the declared names, roles and
types, no two of them share a name, and their bodies have no problems.
-/

namespace Assay.Typing

open Syntax

def fieldType? (declaration : ClassDeclaration) (name : String) : Option Ty :=
  (declaration.fields.find? fun field => field.name = name).bind fun field =>
    Ty.ofName? field.typeName

def declared (declaration : ClassDeclaration) : Role → List MemberDeclaration
  | .fixture => declaration.fixtures
  | .test => declaration.tests

def signatureOf (declaration : ClassDeclaration) (role : Role) (member : MemberDeclaration) :
    Signature :=
  { owner := { name := declaration.name, serial := 0 }, role, name := member.name }

def fieldOf? (declaration : FieldDeclaration) : Option Field :=
  (Ty.ofName? declaration.typeName).map fun type => { name := declaration.name, type }

theorem field?_isSome_iff (owner : ClassType) (name : String) :
    (owner.field? name).isSome = true ↔ name ∈ owner.fields.map Field.name := by
  simp only [ClassType.field?, List.find?_isSome, decide_eq_true_eq, List.mem_map]

theorem addField_free {owner : ClassType} {name : String} {type : Ty}
    (fresh : name ∉ owner.fields.map Field.name) :
    owner.addField name type = .ok { owner with fields := owner.fields ++ [{ name, type }] } := by
  rw [ClassType.addField, if_neg (mt (field?_isSome_iff owner name).mp fresh)]

theorem addFields_ok {owner : ClassType} {declarations : List FieldDeclaration}
    (fine : (addFields owner declarations).2 = []) :
    ∃ fields : List Field, declarations.map fieldOf? = fields.map some ∧
      (addFields owner declarations).1 = { owner with fields := owner.fields ++ fields } ∧
      ((owner.fields.map Field.name).Nodup →
        ((owner.fields ++ fields).map Field.name).Nodup) := by
  induction declarations generalizing owner with
  | nil => exact ⟨[], rfl, by simp [addFields], by simp⟩
  | cons declaration rest ih =>
      simp only [addFields, List.append_eq_nil_iff] at fine
      obtain ⟨first, others⟩ := fine
      cases known : Ty.ofName? declaration.typeName with
      | none => simp [addField, known] at first
      | some type =>
          cases added : owner.addField declaration.name type with
          | error problem => simp [addField, known, added] at first
          | ok grown =>
              have step : addField owner declaration = (grown, []) := by
                simp only [addField, known, added]
              rw [step] at others
              obtain ⟨fields, sameFields, sameType, distinct⟩ := ih others
              by_cases taken : declaration.name ∈ owner.fields.map Field.name
              · rw [ClassType.addField, if_pos ((field?_isSome_iff _ _).mpr taken)] at added
                cases added
              · rw [addField_free taken] at added
                cases added
                refine ⟨{ name := declaration.name, type } :: fields, ?_, ?_, ?_⟩
                · simp only [List.map_cons, fieldOf?, known, Option.map_some, sameFields]
                · simp only [addFields, step, sameType, List.append_assoc, List.singleton_append]
                · intro before
                  have grown := List.Nodup.concat taken before
                  rw [List.concat_eq_append] at grown
                  simpa [List.append_assoc] using distinct (by simpa using grown)

def routineNames (owner : ClassType) : List String :=
  owner.fixtures.map Signature.name ++ owner.tests.map Signature.name

def withMembers (owner : ClassType) (signatures : List Signature) : Role → ClassType
  | .fixture => { owner with fixtures := owner.fixtures ++ signatures }
  | .test => { owner with tests := owner.tests ++ signatures }

theorem withMembers_ref (owner : ClassType) (signatures : List Signature) (role : Role) :
    (withMembers owner signatures role).ref = owner.ref := by
  cases role <;> rfl

theorem routineNames_perm (owner : ClassType) (signatures : List Signature) (role : Role) :
    (routineNames (withMembers owner signatures role)).Perm
      (routineNames owner ++ signatures.map Signature.name) := by
  cases role with
  | fixture =>
      simp only [routineNames, withMembers, List.map_append, List.append_assoc]
      exact List.Perm.append_left _ List.perm_append_comm
  | test => simp only [routineNames, withMembers, List.map_append, List.append_assoc]; rfl

theorem routineProblem?_eq (owner : ClassType) (name : String) :
    owner.routineProblem? name =
      if name = mainName then some (.reservedName name)
      else if name ∈ routineNames owner then some (.duplicateRoutine owner.name name)
      else none := by
  simp only [ClassType.routineProblem?, ClassType.test?, ClassType.fixture?, routineNames,
    Bool.or_eq_true, List.find?_isSome, decide_eq_true_eq, List.mem_append, List.mem_map, or_comm]

theorem register_free {owner : ClassType} {name : String} (role : Role) (notMain : name ≠ mainName)
    (fresh : name ∉ routineNames owner) :
    owner.register role name =
      .ok (withMembers owner [{ owner := owner.ref, role, name }] role,
        { owner := owner.ref, role, name }) := by
  rw [ClassType.register, routineProblem?_eq, if_neg notMain, if_neg fresh]
  cases role <;> rfl

theorem register_ok {owner grown : ClassType} {role : Role} {name : String} {signature : Signature}
    (registered : owner.register role name = .ok (grown, signature)) :
    signature = { owner := owner.ref, role, name } ∧ grown = withMembers owner [signature] role ∧
      name ≠ mainName ∧ name ∉ routineNames owner := by
  have problem := routineProblem?_eq owner name
  by_cases isMain : name = mainName
  · rw [ClassType.register, problem, if_pos isMain] at registered
    cases registered
  · by_cases taken : name ∈ routineNames owner
    · rw [ClassType.register, problem, if_neg isMain, if_pos taken] at registered
      cases registered
    · rw [register_free role isMain taken] at registered
      cases registered
      exact ⟨rfl, rfl, isMain, taken⟩

def registered (owner : ClassRef) (role : Role) (declaration : MemberDeclaration) : Member :=
  { Member.declared role declaration with
    signature := some { owner, role, name := declaration.name } }

theorem withMembers_cons (owner : ClassType) (first : Signature) (rest : List Signature)
    (role : Role) :
    withMembers (withMembers owner [first] role) rest role =
      withMembers owner (first :: rest) role := by
  cases role <;> simp [withMembers]

theorem addMembers_ok {owner : ClassType} {role : Role} {declarations : List MemberDeclaration}
    (fine : (addMembers owner (declarations.map (Member.declared role))).2.2 = []) :
    let signatures := declarations.map fun member =>
      ({ owner := owner.ref, role, name := member.name } : Signature)
    (addMembers owner (declarations.map (Member.declared role))).1 =
        withMembers owner signatures role ∧
      (addMembers owner (declarations.map (Member.declared role))).2.1 =
        declarations.map (registered owner.ref role) ∧
      (∀ member ∈ declarations, member.name ≠ mainName) ∧
      ((routineNames owner).Nodup →
        (routineNames owner ++ declarations.map MemberDeclaration.name).Nodup) := by
  induction declarations generalizing owner with
  | nil => cases role <;> simp [addMembers, withMembers]
  | cons declaration rest ih =>
      simp only [List.map_cons, addMembers, List.append_eq_nil_iff] at fine ⊢
      cases added : owner.register role declaration.name with
      | error problem => simp [Member.addTo, Member.declared, added] at fine
      | ok result =>
          obtain ⟨grown, signature⟩ := result
          obtain ⟨rfl, rfl, notMain, fresh⟩ := register_ok added
          have step : (Member.declared role declaration).addTo owner =
              (withMembers owner [{ owner := owner.ref, role, name := declaration.name }] role,
                registered owner.ref role declaration, []) := by
            simp only [Member.addTo, Member.declared, added, registered]
          rw [step] at fine ⊢
          obtain ⟨sameType, sameMembers, noMain, distinct⟩ := ih fine.2
          rw [withMembers_ref] at sameType sameMembers
          refine ⟨?_, ?_, ?_, ?_⟩
          · rw [sameType, withMembers_cons]
          · rw [sameMembers]
          · intro member isMember
            rcases List.mem_cons.mp isMember with rfl | later
            · exact notMain
            · exact noMain member later
          · intro before
            have names := routineNames_perm owner
              [{ owner := owner.ref, role, name := declaration.name }] role
            have first : (routineNames owner ++ [declaration.name]).Nodup := by
              rw [← List.concat_eq_append]
              exact List.Nodup.concat fresh before
            have all := distinct (names.nodup_iff.mpr first)
            have regrouped := (names.append_right (rest.map MemberDeclaration.name)).nodup_iff.mp all
            simpa using regrouped

theorem checkMembers_ok {owner : ClassType} {ref : ClassRef} {role : Role}
    {declarations : List MemberDeclaration}
    (fine : (checkMembers owner (declarations.map (registered ref role))).2 = []) :
    (checkMembers owner (declarations.map (registered ref role))).1 =
        declarations.map (fun member => ((registered ref role member).check owner).1) ∧
      ∀ member ∈ declarations, Member.bodyProblems role member owner = [] := by
  induction declarations with
  | nil => exact ⟨rfl, by simp⟩
  | cons declaration rest ih =>
      have hasSignature : (registered ref role declaration).signature.isSome = true := rfl
      simp only [List.map_cons, checkMembers, hasSignature, if_true, List.append_eq_nil_iff] at fine ⊢
      obtain ⟨sameMembers, bodies⟩ := ih fine.2
      refine ⟨by rw [sameMembers], ?_⟩
      intro member isMember
      rcases List.mem_cons.mp isMember with rfl | later
      · exact fine.1
      · exact bodies member later

/-- A class that was checked without errors. -/
structure Accepted (declaration : ClassDeclaration) : Prop where
  ref : (check declaration).type.ref = { name := declaration.name, serial := 0 }
  fields : declaration.fields.map fieldOf? = (check declaration).type.fields.map some
  fieldsDistinct : ((check declaration).type.fields.map Field.name).Nodup
  fixtures : (check declaration).type.fixtures =
    declaration.fixtures.map (signatureOf declaration .fixture)
  tests : (check declaration).type.tests = declaration.tests.map (signatureOf declaration .test)
  distinct : ((declaration.fixtures ++ declaration.tests).map MemberDeclaration.name).Nodup
  notMain : ∀ member ∈ declaration.fixtures ++ declaration.tests, member.name ≠ mainName
  members : (check declaration).members =
    (declaration.fixtures.map fun member =>
      ((registered (check declaration).type.ref .fixture member).check
        (check declaration).type).1) ++
    declaration.tests.map fun member =>
      ((registered (check declaration).type.ref .test member).check (check declaration).type).1
  bodies : ∀ role, ∀ member ∈ declared declaration role,
    Member.bodyProblems role member (check declaration).type = []

theorem accepted_of_no_errors {declaration : ClassDeclaration}
    (fine : (check declaration).diagnostics = []) : Accepted declaration := by
  obtain ⟨position, name, fields, fixtures, tests⟩ := declaration
  have problems := fine
  simp only [check, checkClass, List.append_eq_nil_iff] at problems
  obtain ⟨⟨⟨⟨fieldsFine, fixturesFine⟩, testsFine⟩, fixtureBodies⟩, testBodies⟩ := problems
  obtain ⟨added, sameFields, fieldsType, fieldsDistinct⟩ := addFields_ok fieldsFine
  rw [fieldsType] at fixturesFine testsFine fixtureBodies testBodies
  obtain ⟨fixturesType, fixtureMembers, fixturesNotMain, fixturesDistinct⟩ :=
    addMembers_ok fixturesFine
  rw [fixturesType] at testsFine fixtureBodies testBodies
  obtain ⟨testsType, testMembers, testsNotMain, testsDistinct⟩ := addMembers_ok testsFine
  rw [testsType] at fixtureBodies testBodies
  rw [fixtureMembers] at fixtureBodies
  rw [testMembers] at testBodies
  obtain ⟨sameFixtures, fixturesFineBodies⟩ := checkMembers_ok fixtureBodies
  obtain ⟨sameTests, testsFineBodies⟩ := checkMembers_ok testBodies
  have type : (check ⟨position, name, fields, fixtures, tests⟩).type =
      { ref := { name, serial := 0 }, fields := added, methods := []
        fixtures := fixtures.map (signatureOf ⟨position, name, fields, fixtures, tests⟩ .fixture)
        tests := tests.map (signatureOf ⟨position, name, fields, fixtures, tests⟩ .test) } := by
    simp only [check, checkClass]
    rw [fieldsType, fixturesType, testsType]
    simp [withMembers, ClassType.new, signatureOf]
  have allDistinct : ((fixtures ++ tests).map MemberDeclaration.name).Nodup := by
    have first := fixturesDistinct (by simp [routineNames, ClassType.new])
    simpa [routineNames, withMembers, ClassType.new, Function.comp_def] using
      testsDistinct (by simpa [routineNames, withMembers, ClassType.new, Function.comp_def] using first)
  refine ⟨by rw [type], by rw [type]; exact sameFields, ?_, by rw [type], by rw [type], allDistinct, ?_,
    ?_, ?_⟩
  · rw [type]
    simpa [ClassType.new] using fieldsDistinct (by simp [ClassType.new])
  · intro member isMember
    rcases List.mem_append.mp isMember with isFixture | isTest
    · exact fixturesNotMain member isFixture
    · exact testsNotMain member isTest
  · simp only [CheckedClass.members, check, checkClass]
    rw [fieldsType, fixturesType, testsType, fixtureMembers, testMembers, sameFixtures, sameTests]
    simp only [withMembers_ref]
  · intro role member isMember
    simp only [check, checkClass]
    rw [fieldsType, fixturesType, testsType]
    cases role with
    | fixture => exact fixturesFineBodies member isMember
    | test => exact testsFineBodies member isMember

theorem mem_of_declared {declaration : ClassDeclaration} {role : Role} {member : MemberDeclaration}
    (isMember : member ∈ declared declaration role) :
    member ∈ declaration.fixtures ++ declaration.tests := by
  cases role with
  | fixture => exact List.mem_append_left _ isMember
  | test => exact List.mem_append_right _ isMember

theorem Accepted.checkedMember? {declaration : ClassDeclaration} (accepted : Accepted declaration)
    {role : Role} {member : MemberDeclaration} (isMember : member ∈ declared declaration role) :
    (check declaration).member? (signatureOf declaration role member) =
      some { role, declaration := member, signature := some (signatureOf declaration role member)
             scope := some (Member.checkerFor role (check declaration).type)
             resolution :=
               Resolution.none.after (Member.checkerFor role (check declaration).type) } := by
  have known : ∀ found ∈ (check declaration).members, ∃ role, ∃ member ∈ declared declaration role,
      found =
        { role, declaration := member, signature := some (signatureOf declaration role member)
          scope := some (Member.checkerFor role (check declaration).type)
          resolution :=
            Resolution.none.after (Member.checkerFor role (check declaration).type) } := by
    intro found isFound
    rw [accepted.members, List.mem_append, List.mem_map, List.mem_map, accepted.ref] at isFound
    rcases isFound with ⟨other, isOther, rfl⟩ | ⟨other, isOther, rfl⟩
    · exact ⟨.fixture, other, isOther, rfl⟩
    · exact ⟨.test, other, isOther, rfl⟩
  have present : ∃ found ∈ (check declaration).members,
      found.signature = some (signatureOf declaration role member) := by
    rw [accepted.members, accepted.ref]
    cases role with
    | fixture =>
        exact ⟨_, List.mem_append_left _ (List.mem_map_of_mem isMember), rfl⟩
    | test =>
        exact ⟨_, List.mem_append_right _ (List.mem_map_of_mem isMember), rfl⟩
  cases found : (check declaration).member? (signatureOf declaration role member) with
  | none =>
      obtain ⟨other, isOther, hasSignature⟩ := present
      have absent := List.find?_eq_none.mp found other isOther
      simp [hasSignature] at absent
  | some result =>
      have isResult := List.mem_of_find?_eq_some found
      have hasSignature := List.find?_some found
      obtain ⟨otherRole, other, isOther, rfl⟩ := known result isResult
      simp only [signatureOf, Option.some.injEq, Signature.mk.injEq, true_and,
        decide_eq_true_eq] at hasSignature
      obtain ⟨rfl, sameName⟩ := hasSignature
      obtain rfl := List.inj_on_of_nodup_map accepted.distinct (mem_of_declared isOther)
        (mem_of_declared isMember) sameName
      rfl

theorem Accepted.member? {declaration : ClassDeclaration} (accepted : Accepted declaration)
    {role : Role} {member : MemberDeclaration} (isMember : member ∈ declared declaration role) :
    ∃ resolution scope, (check declaration).member? (signatureOf declaration role member) =
      some { role, declaration := member, signature := some (signatureOf declaration role member)
             scope, resolution } :=
  ⟨_, _, accepted.checkedMember? isMember⟩

theorem checkerFor_receiver? (role : Role) (owner : ClassType) :
    (Member.checkerFor role owner).receiver? = some owner := by
  simp [Member.checkerFor, Checker.receiver?, Checker.lookup?, Checker.bind, Checker.new,
    ClassType.type]

theorem checkerFor_field? (role : Role) (owner : ClassType) (name : String) :
    (Member.checkerFor role owner).field? name = owner.field? name := by
  simp only [Checker.field?, checkerFor_receiver?, Option.bind_some]

theorem Accepted.fieldType? {declaration : ClassDeclaration} (accepted : Accepted declaration)
    (role : Role) :
    (Member.checkerFor role (check declaration).type).fieldType? =
      Typing.fieldType? declaration := by
  funext name
  have found : ∀ (declarations : List FieldDeclaration) (fields : List Field),
      declarations.map fieldOf? = fields.map some →
      (fields.find? fun field => field.name = name).map Field.type =
        (declarations.find? fun field => field.name = name).bind fun field =>
          Ty.ofName? field.typeName := by
    intro declarations
    induction declarations with
    | nil =>
        intro fields same
        cases fields with
        | nil => rfl
        | cons field rest => simp at same
    | cons declaration rest ih =>
        intro fields same
        cases fields with
        | nil => simp at same
        | cons field others =>
            simp only [List.map_cons, List.cons.injEq, fieldOf?, Option.map_eq_some_iff] at same
            obtain ⟨⟨type, known, rfl⟩, sameRest⟩ := same
            by_cases here : declaration.name = name
            · simp [here, known]
            · simpa [here] using ih others sameRest
  simp only [Checker.fieldType?, checkerFor_field?, ClassType.field?, Typing.fieldType?]
  exact found _ _ accepted.fields

theorem Accepted.body_fine {declaration : ClassDeclaration} (accepted : Accepted declaration)
    {role : Role} {member : MemberDeclaration} (isMember : member ∈ declared declaration role) :
    (checkCommand (Member.checkerFor role (check declaration).type) member.body).2 = [] := by
  have problems := accepted.bodies role member isMember
  simp only [Member.bodyProblems, List.append_eq_nil_iff] at problems
  exact problems.1

theorem Accepted.runs_typed {declaration : ClassDeclaration} (accepted : Accepted declaration)
    {role : Role} {member : MemberDeclaration} (isMember : member ∈ declared declaration role)
    {store final : Store} {ending : Ending} (typed : Typed (Typing.fieldType? declaration) store)
    (runs : Runs member.body store ending final) : Typed (Typing.fieldType? declaration) final := by
  have types := (accepted.fieldType? role).symm
  rw [types]
  exact Typing.runs_typed runs (accepted.body_fine isMember) (types ▸ typed)

end Assay.Typing
