import Assay.Proofs.Assembly.Compilation

/-!
New instances. A new object of a compiled class has the declared fields, and each of them has the zero
of its type.
-/

namespace Assay

namespace Typing

open Syntax

def Ty.zero? : Ty → Option Datum
  | int => some (.int 0)
  | boolean => some (.boolean false)
  | float => some (.float 0)
  | _ => none

def zeroStore (declaration : ClassDeclaration) : Store :=
  fun name => (fieldType? declaration name).bind Ty.zero?

theorem Ty.ofName?_cases {name : String} {type : Ty} (known : Ty.ofName? name = some type) :
    type = .int ∨ type = .boolean ∨ type = .float := by
  simp only [Ty.ofName?] at known
  split at known
  · exact .inl (Option.some.inj known).symm
  · split at known
    · exact .inr (.inl (Option.some.inj known).symm)
    · split at known
      · exact .inr (.inr (Option.some.inj known).symm)
      · simp at known

theorem zeroStore_typed (declaration : ClassDeclaration) :
    Typed (fieldType? declaration) (zeroStore declaration) := by
  intro name
  unfold zeroStore
  cases known : fieldType? declaration name with
  | none => rfl
  | some type =>
      simp only [fieldType?, Option.bind_eq_some_iff] at known
      obtain ⟨field, -, named⟩ := known
      rcases Ty.ofName?_cases named with rfl | rfl | rfl
      · rfl
      · rfl
      · rfl

theorem Accepted.fieldTypes {declaration : ClassDeclaration} (accepted : Accepted declaration) :
    ∀ field ∈ (check declaration).type.fields, ∃ name, Ty.ofName? name = some field.type := by
  intro field member
  have listed : some field ∈ declaration.fields.map fieldOf? := by
    rw [accepted.fields]
    exact List.mem_map_of_mem member
  obtain ⟨field, -, isField⟩ := List.mem_map.mp listed
  simp only [fieldOf?, Option.map_eq_some_iff] at isField
  obtain ⟨type, known, rfl⟩ := isField
  exact ⟨_, known⟩

end Typing

namespace Assembly

open Bytecode Assay.Graph Machine Syntax Typing

theorem newFields_eq {slots : List FieldSlot} {before : List (String × Value)}
    (distinct : (before.map Prod.fst ++ slots.map FieldSlot.name).Nodup) :
    slots.foldl (fun fields slot =>
      (fields.filter fun (name, _) => name ≠ slot.name) ++ [(slot.name, zeroValue slot.kind)])
      before = before ++ slots.map fun slot => (slot.name, zeroValue slot.kind) := by
  induction slots generalizing before with
  | nil => simp
  | cons slot rest ih =>
      have others : ∀ field ∈ before, field.1 ≠ slot.name := by
        intro field member same
        refine (List.nodup_append.mp distinct).2.2 field.1 (List.mem_map_of_mem member) slot.name ?_ same
        exact List.mem_cons_self
      have kept : (before.filter fun (name, _) => name ≠ slot.name) = before := by
        rw [List.filter_eq_self]
        intro field member
        simpa using others field member
      rw [List.foldl_cons, kept, ih]
      · simp
      · simpa using distinct

theorem Slots.names {fields : List Field} {slots : List FieldSlot} (same : Slots fields slots) :
    slots.map FieldSlot.name = fields.map Field.name := by
  induction same with
  | nil => rfl
  | cons slot rest ih => simp [slot.1, ih]

theorem zeroValue_of_kind {typeName : String} {type : Ty} {kind : Kind}
    (known : Ty.ofName? typeName = some type) (sameKind : kindOf type.kind = .ok kind) :
    some (zeroValue kind) = type.zero?.map Datum.toValue := by
  rcases Ty.ofName?_cases known with rfl | rfl | rfl
  · rw [← Except.ok.inj sameKind]
    rfl
  · rw [← Except.ok.inj sameKind]
    rfl
  · rw [← Except.ok.inj sameKind]
    rfl

theorem Slots.zero {fields : List Field} {slots : List FieldSlot} (same : Slots fields slots)
    (typed : ∀ field ∈ fields, ∃ name, Ty.ofName? name = some field.type) (name : String) :
    (slots.map fun slot => (slot.name, zeroValue slot.kind)).lookup name =
      (((fields.find? fun field => field.name = name).map Field.type).bind Ty.zero?).map
        Datum.toValue := by
  induction same with
  | nil => rfl
  | @cons field slot fields slots alike rest ih =>
      obtain ⟨sameName, kind⟩ := alike
      obtain ⟨⟨typeName, known⟩, others⟩ := List.forall_mem_cons.mp typed
      rw [List.map_cons, List.lookup_cons, List.find?_cons]
      by_cases here : name = field.name
      · subst here
        simp only [sameName, beq_self_eq_true, decide_true, Option.map_some, Option.bind_some]
        exact zeroValue_of_kind known kind
      · have unequal : (name == slot.name) = false := by simpa [sameName] using here
        have different : decide (field.name = name) = false := by
          simpa using fun same => here same.symm
        simp only [unequal, different]
        exact ih others

theorem Compiled.new_represents {declaration : ClassDeclaration} {selection : Selection}
    {program : Program} {target image : ClassImage} {main : Routine}
    (compiled : Compiled declaration selection program target image main)
    (accepted : Accepted declaration) :
    Represents (Object.new target) (zeroStore declaration) := by
  have distinct : (target.fields.map FieldSlot.name).Nodup := by
    rw [compiled.slots.names]
    exact accepted.fieldsDistinct
  have fields : (Object.new target).fields =
      target.fields.map fun slot => (slot.name, zeroValue slot.kind) :=
    newFields_eq (by simpa using distinct)
  refine ⟨?_, fun name => ?_⟩
  · rw [fields]
    simpa [Function.comp_def] using distinct
  · rw [Object.get?, fields, compiled.slots.zero accepted.fieldTypes, zeroStore,
      ← accepted.fieldType? .test, Checker.fieldType?, checkerFor_field?]
    rfl

end Assembly

end Assay
