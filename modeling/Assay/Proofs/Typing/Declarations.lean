import Assay.Proofs.Typing.Registry
import Mathlib.Data.List.Infix

/-!
Which members the check of a class registers: of the fixtures and tests with one name the first one. Each of
the others, and each field that is not added, has one diagnostic that says why.
-/

namespace Assay.Typing

open Syntax

def withEarlier {α : Type} (items : List α) : List (List α × α) := items.inits.zip items

theorem withEarlier_cons {α : Type} (first : α) (rest : List α) :
    withEarlier (first :: rest) =
      ([], first) :: (withEarlier rest).map fun (earlier, item) => (first :: earlier, item) := by
  simp [withEarlier, List.zip_map_left, Prod.map]

section Fields

def fieldProblem? (owner : ClassRef) (earlier : List FieldDeclaration) (declaration : FieldDeclaration) :
    Option Diagnostic :=
  match fieldOf? declaration with
  | none =>
    some { position := declaration.position
           message := "unknown type " ++ Text.quote declaration.typeName }
  | some field =>
    if field.name ∈ (earlier.filterMap fieldOf?).map Field.name then
      some { position := declaration.position
             message := ((Addition.field field).refusal owner).message }
    else none

def newField? (owner : ClassRef) (earlier : List FieldDeclaration) (declaration : FieldDeclaration) :
    Option Field :=
  if (fieldProblem? owner earlier declaration).isNone then fieldOf? declaration else none

variable {owner : ClassType} {earlier : List FieldDeclaration}

def SameNames (owner : ClassType) (earlier : List FieldDeclaration) : Prop :=
  ∀ name, name ∈ owner.fields.map Field.name ↔ name ∈ (earlier.filterMap fieldOf?).map Field.name

theorem addField_eq (same : SameNames owner earlier) (declaration : FieldDeclaration) :
    addField owner declaration =
      ({ owner with
          fields := owner.fields ++ (newField? owner.ref earlier declaration).toList },
        (fieldProblem? owner.ref earlier declaration).toList) := by
  cases known : Ty.ofName? declaration.typeName with
  | none => simp [addField, newField?, fieldProblem?, fieldOf?, known]
  | some type =>
      have field : fieldOf? declaration = some { name := declaration.name, type } := by
        rw [fieldOf?, known, Option.map_some]
      by_cases taken : declaration.name ∈ owner.fields.map Field.name
      · have problem : fieldProblem? owner.ref earlier declaration =
            some { position := declaration.position
                   message := ((Addition.field { name := declaration.name, type }).refusal
                     owner.ref).message } := by
          simp only [fieldProblem?, field, if_pos ((same _).mp taken)]
        simp only [addField, known, addField_taken taken, newField?, problem]
        simp
      · have noProblem : fieldProblem? owner.ref earlier declaration = none := by
          simp only [fieldProblem?, field, if_neg (mt (same _).mpr taken)]
        simp [addField, known, addField_free taken, newField?, noProblem, field]

theorem SameNames.step (same : SameNames owner earlier) (declaration : FieldDeclaration) :
    SameNames (addField owner declaration).1 (earlier ++ [declaration]) := by
  intro name
  rw [addField_eq same]
  simp only [List.filterMap_append, List.map_append, List.mem_append, same name]
  cases known : fieldOf? declaration with
  | none => simp [newField?, known]
  | some field =>
      by_cases taken : field.name ∈ (earlier.filterMap fieldOf?).map Field.name
      · have problem : (fieldProblem? owner.ref earlier declaration).isNone = false := by
          simp only [fieldProblem?, known, if_pos taken, Option.isNone_some]
        simp only [newField?, problem, List.filterMap_cons_some known, List.filterMap_nil,
          List.map_singleton, List.mem_singleton]
        constructor
        · exact Or.imp_right (by simp)
        · rintro (present | rfl)
          · exact .inl present
          · exact .inl taken
      · have noProblem : fieldProblem? owner.ref earlier declaration = none := by
          simp only [fieldProblem?, known, if_neg taken]
        simp [newField?, noProblem, known]

theorem addFields_eq (same : SameNames owner earlier) (declarations : List FieldDeclaration) :
    addFields owner declarations =
      ({ owner with
          fields := owner.fields ++ (withEarlier declarations).filterMap fun (before, field) =>
            newField? owner.ref (earlier ++ before) field },
        (withEarlier declarations).filterMap fun (before, field) =>
          fieldProblem? owner.ref (earlier ++ before) field) := by
  induction declarations generalizing owner earlier with
  | nil => simp [addFields, withEarlier]
  | cons declaration rest ih =>
      have later := ih (same.step declaration)
      rw [addField_eq same] at later
      simp only [addFields, addField_eq same, later, withEarlier_cons, List.filterMap_cons,
        List.filterMap_map, Function.comp_def, List.append_nil, List.append_assoc, List.singleton_append]
      cases newField? owner.ref earlier declaration <;>
        cases fieldProblem? owner.ref earlier declaration <;> simp

end Fields

section Members

variable {owner : ClassType} {earlier : List Member}

def Member.ownSignature (ref : ClassRef) (member : Member) : Signature :=
  { owner := ref, role := member.role, name := member.declaration.name }

def Member.Refused (earlier : List Member) (member : Member) : Prop :=
  member.declaration.name = mainName ∨
    member.declaration.name ∈ earlier.map fun other => other.declaration.name

instance (earlier : List Member) (member : Member) : Decidable (member.Refused earlier) :=
  inferInstanceAs (Decidable (_ ∨ _))

def Member.problem? (ref : ClassRef) (earlier : List Member) (member : Member) : Option Diagnostic :=
  if member.Refused earlier then
    some { position := member.declaration.position
           message := ((Addition.routine (member.ownSignature ref)).refusal ref).message }
  else none

def Member.newSignature? (ref : ClassRef) (earlier : List Member) (member : Member) : Option Signature :=
  if member.Refused earlier then none else some (member.ownSignature ref)

def Member.signed (ref : ClassRef) (earlier : List Member) (member : Member) : Member :=
  { member with signature := (member.newSignature? ref earlier).or member.signature }

def withSignatures (owner : ClassType) (signatures : List Signature) : ClassType :=
  { owner with
    fixtures := owner.fixtures ++ signatures.filter (·.role = .fixture)
    tests := owner.tests ++ signatures.filter (·.role = .test) }

theorem withSignatures_nil (owner : ClassType) : withSignatures owner [] = owner := by
  simp [withSignatures]

theorem withSignatures_singleton (owner : ClassType) (signature : Signature) :
    withSignatures owner [signature] = withMembers owner [signature] signature.role := by
  cases role : signature.role <;> simp [withSignatures, withMembers, role]

theorem withSignatures_append (owner : ClassType) (first second : List Signature) :
    withSignatures (withSignatures owner first) second = withSignatures owner (first ++ second) := by
  simp [withSignatures]

def SameTaken (owner : ClassType) (earlier : List Member) : Prop :=
  ∀ name, name = mainName ∨ name ∈ routineNames owner ↔
    name = mainName ∨ name ∈ earlier.map fun member => member.declaration.name

theorem addTo_eq (same : SameTaken owner earlier) (member : Member) :
    member.addTo owner =
      (withSignatures owner (member.newSignature? owner.ref earlier).toList,
        member.signed owner.ref earlier, (member.problem? owner.ref earlier).toList) := by
  by_cases refused : member.Refused earlier
  · have taken : (Addition.routine (member.ownSignature owner.ref)).Taken owner := (same _).mpr refused
    rw [Member.signed, Member.newSignature?, if_pos refused, Member.problem?, if_pos refused,
      Member.addTo, register_taken taken, Option.toList_none, withSignatures_nil]
    rfl
  · obtain ⟨notMain, fresh⟩ := not_or.mp (mt (same _).mp refused)
    rw [Member.signed, Member.newSignature?, if_neg refused, Member.problem?, if_neg refused,
      Member.addTo, register_free member.role notMain fresh, Option.toList_some, withSignatures_singleton]
    rfl

theorem SameTaken.step (same : SameTaken owner earlier) (member : Member) :
    SameTaken (member.addTo owner).1 (earlier ++ [member]) := by
  intro name
  rw [addTo_eq same, List.map_append, List.mem_append, ← or_assoc, ← same name, List.map_singleton,
    List.mem_singleton, Member.newSignature?]
  by_cases refused : member.Refused earlier
  · rw [if_pos refused, Option.toList_none, withSignatures_nil]
    have taken := (same _).mpr refused
    constructor
    · exact .inl
    · rintro (already | rfl)
      · exact already
      · exact taken
  · rw [if_neg refused, Option.toList_some, withSignatures_singleton,
      (routineNames_perm owner _ _).mem_iff, List.mem_append, or_assoc, List.map_singleton,
      List.mem_singleton]
    rfl

def newSignatures (ref : ClassRef) (earlier members : List Member) : List Signature :=
  (withEarlier members).filterMap fun (before, member) => member.newSignature? ref (earlier ++ before)

theorem addMembers_eq (same : SameTaken owner earlier) (members : List Member) :
    addMembers owner members =
      (withSignatures owner (newSignatures owner.ref earlier members),
        (withEarlier members).map fun (before, member) => member.signed owner.ref (earlier ++ before),
        (withEarlier members).filterMap fun (before, member) =>
          member.problem? owner.ref (earlier ++ before)) := by
  induction members generalizing owner earlier with
  | nil => simp [addMembers, newSignatures, withEarlier, withSignatures_nil]
  | cons member rest ih =>
      have later := ih (same.step member)
      rw [addTo_eq same] at later
      simp only [addMembers, addTo_eq same, later, withSignatures_append, newSignatures, withEarlier_cons,
        List.filterMap_cons, List.map_cons, List.filterMap_map, List.map_map, Function.comp_def,
        List.append_nil, List.append_assoc, List.singleton_append]
      cases member.newSignature? owner.ref earlier <;>
        cases member.problem? owner.ref earlier <;> rfl

theorem addMembers_append (owner : ClassType) (first second : List Member) :
    addMembers owner (first ++ second) =
      let (grown, added, problems) := addMembers owner first
      let (last, others, more) := addMembers grown second
      (last, added ++ others, problems ++ more) := by
  induction first generalizing owner with
  | nil => rfl
  | cons member rest ih => simp only [List.cons_append, addMembers, ih, List.append_assoc]

def Member.settled (owner : ClassType) (member : Member) : Member :=
  if member.signature.isSome then (member.check owner).1 else member

theorem Member.settled_same (owner : ClassType) (member : Member) :
    (member.settled owner).role = member.role ∧
      (member.settled owner).declaration = member.declaration ∧
      (member.settled owner).signature = member.signature := by
  unfold Member.settled
  split <;> exact ⟨rfl, rfl, rfl⟩

theorem checkMembers_eq (owner : ClassType) (members : List Member) :
    checkMembers owner members =
      (members.map (Member.settled owner),
        (members.filter (·.signature.isSome)).flatMap fun member =>
          Member.bodyProblems member.role member.declaration owner) := by
  induction members with
  | nil => rfl
  | cons member rest ih =>
      simp only [checkMembers, ih, List.map_cons, Member.settled, List.filter_cons]
      split <;> rfl

end Members

section Sequence

variable {registry : Registry}

theorem add_field_type (orderly : registry.Orderly) {declaration : FieldDeclaration} {field : Field}
    (known : fieldOf? declaration = some field) :
    (registry.add (.field field)).2.type = (addField registry.type declaration).1 := by
  obtain ⟨type, named, rfl⟩ := Option.map_eq_some_iff.mp known
  by_cases taken : (Addition.field { name := declaration.name, type }).Taken registry.type
  · rw [orderly.add_taken taken, addField, named]
    simp only [addField_taken taken]
  · rw [orderly.add_free taken, addField, named]
    simp only [addField_free taken, Registry.extended]

theorem add_routine_type (orderly : registry.Orderly) (member : Member) :
    (registry.add (.routine (member.ownSignature registry.type.ref))).2.type =
      (member.addTo registry.type).1 := by
  by_cases taken : (Addition.routine (member.ownSignature registry.type.ref)).Taken registry.type
  · rw [orderly.add_taken taken, Member.addTo, register_taken taken]
  · have registered : registry.type.register member.role member.declaration.name = _ :=
      register_free member.role (not_or.mp taken).1 (not_or.mp taken).2
    rw [orderly.add_free taken, Member.addTo, registered]
    cases role : member.role <;> simp [Registry.extended, Member.ownSignature, role]

def additions (ref : ClassRef) (fields : List FieldDeclaration) (members : List Member) : List Addition :=
  fields.filterMap (fun declaration => (fieldOf? declaration).map .field) ++
    members.map fun member => .routine (member.ownSignature ref)

theorem addAll_fields (orderly : registry.Orderly) (declarations : List FieldDeclaration) :
    (registry.addAll (declarations.filterMap fun declaration =>
        (fieldOf? declaration).map .field)).2.type =
      (addFields registry.type declarations).1 := by
  induction declarations generalizing registry with
  | nil => rfl
  | cons declaration rest ih =>
      cases known : fieldOf? declaration with
      | none =>
          have unknown : Ty.ofName? declaration.typeName = none := Option.map_eq_none_iff.mp known
          rw [List.filterMap_cons_none (by rw [known, Option.map_none]), ih orderly, addFields, addField,
            unknown]
      | some field =>
          rw [List.filterMap_cons_some (by rw [known, Option.map_some])]
          change _ = (addFields (addField registry.type declaration).1 rest).1
          rw [← add_field_type orderly known]
          exact ih (orderly.add (.field field))

theorem addAll_members {ref : ClassRef} (orderly : registry.Orderly) (own : registry.type.ref = ref)
    (members : List Member) :
    (registry.addAll (members.map fun member => .routine (member.ownSignature ref))).2.type =
      (addMembers registry.type members).1 := by
  induction members generalizing registry with
  | nil => rfl
  | cons member rest ih =>
      subst own
      change _ = (addMembers (member.addTo registry.type).1 rest).1
      rw [List.map_cons, ← add_routine_type orderly]
      exact ih (orderly.add _) (add_ref _ _)

theorem addAll_additions (ref : ClassRef) (fields : List FieldDeclaration) (members : List Member) :
    ((Registry.new ref).addAll (additions ref fields members)).2.type =
      (addMembers (addFields (ClassType.new ref) fields).1 members).1 := by
  have orderly := Registry.Orderly.new ref
  have fieldsAdded := addAll_fields orderly fields
  change _ = (addFields (ClassType.new ref) fields).1 at fieldsAdded
  rw [additions, addAll_append, ← fieldsAdded]
  exact addAll_members (orderly.addAll _) (addAll_ref _ _) members

end Sequence

/-- What a check makes of the declared fields, fixtures and tests: which of them it adds to the class and
what it reports. The fixtures come before the tests, so the first member of a name is a fixture if there is
one. -/
structure Registers (ref : ClassRef) (fields : List FieldDeclaration) (fixtures tests : List Member)
    (checked : CheckedClass) : Prop where
  sequence : checked.type =
    ((Registry.new ref).addAll (additions ref fields (fixtures ++ tests))).2.type
  typeFields : checked.type.fields =
    (withEarlier fields).filterMap fun (earlier, declaration) => newField? ref earlier declaration
  typeFixtures : checked.type.fixtures =
    (newSignatures ref [] (fixtures ++ tests)).filter (·.role = .fixture)
  typeTests : checked.type.tests = (newSignatures ref [] (fixtures ++ tests)).filter (·.role = .test)
  members : checked.members = (withEarlier (fixtures ++ tests)).map fun (earlier, member) =>
    (member.signed ref earlier).settled checked.type
  diagnostics : checked.diagnostics =
    ((withEarlier fields).filterMap fun (earlier, declaration) => fieldProblem? ref earlier declaration) ++
    ((withEarlier (fixtures ++ tests)).filterMap fun (earlier, member) => member.problem? ref earlier) ++
    (checked.members.filter (·.signature.isSome)).flatMap fun member =>
      Member.bodyProblems member.role member.declaration checked.type

theorem addFields_new (ref : ClassRef) (declarations : List FieldDeclaration) :
    addFields (ClassType.new ref) declarations =
      ({ ClassType.new ref with
          fields := (withEarlier declarations).filterMap fun (earlier, declaration) =>
            newField? ref earlier declaration },
        (withEarlier declarations).filterMap fun (earlier, declaration) =>
          fieldProblem? ref earlier declaration) := by
  have noFields : SameNames (ClassType.new ref) [] := fun _ => Iff.rfl
  exact addFields_eq noFields declarations

/-- Fixtures and tests are added and checked like one list. -/
theorem checkClass_eq (ref : ClassRef) (fields : List FieldDeclaration) (fixtures tests : List Member) :
    let (withFields, fieldProblems) := addFields (ClassType.new ref) fields
    let (type, added, problems) := addMembers withFields (fixtures ++ tests)
    let checked := checkClass ref fields fixtures tests
    checked.type = type ∧ checked.members = added.map (Member.settled type) ∧
      checked.diagnostics = fieldProblems ++ problems ++ (checkMembers type added).2 := by
  simp only [addMembers_append, checkClass, checkMembers_eq, CheckedClass.members, List.map_append,
    List.filter_append, List.flatMap_append, List.append_assoc, and_self]

theorem checkClass_registers (ref : ClassRef) (fields : List FieldDeclaration) (fixtures tests : List Member) :
    Registers ref fields fixtures tests (checkClass ref fields fixtures tests) := by
  obtain ⟨type, members, diagnostics⟩ := checkClass_eq ref fields fixtures tests
  have sequence := type.trans (addAll_additions ref fields (fixtures ++ tests)).symm
  rw [checkMembers_eq] at diagnostics
  rw [← type] at members diagnostics
  rw [addFields_new] at type members diagnostics
  have noMembers (added : List Field) : SameTaken { ClassType.new ref with fields := added } [] :=
    fun _ => Iff.rfl
  rw [addMembers_eq (noMembers _)] at type members diagnostics
  simp only [List.nil_append] at type members diagnostics
  refine
    { sequence
      typeFields := by rw [type]; rfl
      typeFixtures := by rw [type]; rfl
      typeTests := by rw [type]; rfl
      members := by rw [members, List.map_map]; rfl
      diagnostics := ?_ }
  rw [diagnostics, members]
  simp only [List.filter_map, List.flatMap_map, Function.comp_def, Member.settled_same]
  rfl

example :
    let member (line : Int) (name : String) : MemberDeclaration :=
      { position := .make "lamp" line 1, name, body := .skip .unknown }
    let checked := check
      { position := .unknown, name := "Lamp", fields := []
        fixtures := [member 1 "reset"], tests := [member 2 "reset", member 3 "on", member 4 "on"] }
    checked.type.fixtures.map Signature.name = ["reset"] ∧ checked.type.tests.map Signature.name = ["on"] ∧
      checked.diagnostics.map (·.position.line) = [2, 4] := by decide

/-- Additions to a new class. After any of them the lists hold what was granted so far, the indexes find what
is listed, and the class without indexes has the same lists, look-ups and answers. An addition fails just if
its name is taken, and then it changes nothing. A check of a class is such a sequence: it adds each field and
member whose name is free then, so of the fixtures and tests with one name the first, and reports each of
the others once. -/
theorem registry_consistent (ref : ClassRef) :
    (∀ requests : List Addition,
      let (answers, registry) := (Registry.new ref).addAll requests
      registry.Consistent (granted requests answers) ∧ registry.Agrees ∧
      ∀ addition, registry.add addition =
        if addition.Taken registry.type then (some (addition.refusal ref), registry)
        else (none, registry.extended addition)) ∧
    ∀ fields fixtures tests,
      Registers ref fields fixtures tests (checkClass ref fields fixtures tests) := by
  refine ⟨fun requests => ?_, checkClass_registers ref⟩
  have orderly := (Registry.Orderly.new ref).addAll requests
  have own : ((Registry.new ref).addAll requests).2.type.ref = ref := addAll_ref requests _
  refine ⟨addAll_consistent ref requests, orderly.agrees, fun addition => ?_⟩
  split
  · rename_i taken
    rw [orderly.add_taken taken, own]
  · rename_i free
    exact orderly.add_free free

end Assay.Typing
