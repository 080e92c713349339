import Assay.Machine.World
import Assay.Proofs.Syntax.Meaning

/-!
Objects of the machine as instances with typed fields. A boolean field holds one or zero.
-/

namespace Assay

namespace Syntax

open Machine

def Datum.toValue : Datum → Value
  | int value => .int value
  | boolean value => .int (if value then 1 else 0)
  | float value => .float value

def Ending.result : Typing.Role → Ending → Value
  | .test, ending => .int ending.status
  | .fixture, _ => .nil

end Syntax

namespace Machine

open Syntax

def World.announce (world : World) : Option String → Option World
  | some text => world.write? text
  | none => some world

theorem World.announce_heap {world after : World} {message : Option String}
    (announced : world.announce message = some after) : after.heap = world.heap := by
  cases message with
  | none =>
      obtain rfl := Option.some.inj announced
      rfl
  | some text =>
      simp only [World.announce, World.write?] at announced
      split at announced
      · obtain rfl := Option.some.inj announced
        rfl
      · simp at announced

def World.after (world : World) (text : String) (readings : Nat) : World :=
  { world with output := world.output ++ text, readings := world.readings + readings }

theorem World.after_after (world : World) (first second : String) (readings more : Nat) :
    (world.after first readings).after second more =
      world.after (first ++ second) (readings + more) := by
  simp only [World.after, String.append_assoc, Nat.add_assoc]

theorem World.accepts_append {world : World} {first second : String}
    (accepted : world.accepts (first ++ second) = true) (readings : Nat) :
    world.accepts first = true ∧ (world.after first readings).accepts second = true := by
  unfold World.accepts World.after at *
  cases limit : world.outputLimit with
  | none => exact ⟨rfl, rfl⟩
  | some bytes =>
      simp only [limit, String.utf8ByteSize_append, decide_eq_true_eq] at *
      omega

theorem World.write?_of_accepts {world : World} {text : String}
    (accepted : world.accepts text = true) : world.write? text = some (world.after text 0) := by
  simp only [World.write?, accepted, if_true]
  rfl

/-- A later world: the text was written, and the clock was read that many times. Nothing is said about
the heap. -/
structure World.Proceeds (world : World) (text : String) (readings : Nat) (later : World) : Prop where
  output : later.output = world.output ++ text
  outputLimit : later.outputLimit = world.outputLimit
  clock : later.clock = world.clock
  readings : later.readings = world.readings + readings

theorem World.proceeds_after (world : World) (text : String) (readings : Nat) :
    world.Proceeds text readings (world.after text readings) :=
  ⟨rfl, rfl, rfl, rfl⟩

theorem World.Proceeds.heap {world later : World} {text : String} {readings : Nat}
    (proceeds : world.Proceeds text readings later) (heap : Array Object) :
    world.Proceeds text readings { later with heap } :=
  ⟨proceeds.output, proceeds.outputLimit, proceeds.clock, proceeds.readings⟩

theorem World.Proceeds.trans {first second third : World} {text more : String}
    {readings moreReadings : Nat} (earlier : first.Proceeds text readings second)
    (later : second.Proceeds more moreReadings third) :
    first.Proceeds (text ++ more) (readings + moreReadings) third where
  output := by rw [later.output, earlier.output, String.append_assoc]
  outputLimit := later.outputLimit.trans earlier.outputLimit
  clock := later.clock.trans earlier.clock
  readings := by rw [later.readings, earlier.readings, Nat.add_assoc]

theorem World.Proceeds.accepts {world later : World} {text more : String} {readings : Nat}
    (proceeds : world.Proceeds text readings later)
    (accepted : world.accepts (text ++ more) = true) : later.accepts more = true := by
  have written := (World.accepts_append accepted readings).2
  unfold World.accepts World.after at written
  unfold World.accepts
  rw [proceeds.outputLimit, proceeds.output]
  exact written

/-- The object has the fields of the store, with their values, and each of them once. -/
structure Represents (object : Object) (store : Store) : Prop where
  distinct : (object.fields.map Prod.fst).Nodup
  values : ∀ name, object.get? name = (store name).map Datum.toValue

def Object.holding (object : Object) (store : Store) : Object :=
  { object with
    fields := object.fields.map fun (name, old) =>
      (name, ((store name).map Datum.toValue).getD old) }

def World.showing (world : World) (address : Nat) (store : Store) : World :=
  { world with heap := world.heap.modify address fun object => object.holding store }

theorem World.Proceeds.showing {world later : World} {text : String} {readings : Nat}
    (proceeds : world.Proceeds text readings later) (address : Nat) (store : Store) :
    world.Proceeds text readings (later.showing address store) :=
  proceeds.heap _

theorem Object.get?_holding (object : Object) (store : Store) (name : String) :
    (object.holding store).get? name =
      (object.get? name).map fun old => ((store name).map Datum.toValue).getD old := by
  simp only [Object.get?, Object.holding]
  induction object.fields with
  | nil => rfl
  | cons field rest ih =>
      obtain ⟨other, old⟩ := field
      simp only [List.map_cons, List.lookup_cons]
      by_cases same : name = other
      · subst same
        simp
      · have different : (name == other) = false := by simpa using same
        simp only [different, ih]

theorem Object.set_holding (object : Object) (store : Store) (field : String) (datum : Datum) :
    (object.holding store).set field datum.toValue = object.holding (store.set field datum) := by
  simp only [Object.set, Object.holding, List.map_map, Object.mk.injEq, true_and]
  apply List.map_congr_left
  rintro ⟨name, old⟩ -
  by_cases same : name = field
  · simp [same, Store.set]
  · simp [same, Store.set]

theorem lookup_of_mem {fields : List (String × Value)} {name : String} {value : Value}
    (distinct : (fields.map Prod.fst).Nodup) (member : (name, value) ∈ fields) :
    fields.lookup name = some value := by
  induction fields with
  | nil => simp at member
  | cons first rest ih =>
      obtain ⟨other, old⟩ := first
      simp only [List.map_cons, List.nodup_cons] at distinct
      rw [List.lookup_cons]
      rcases List.mem_cons.mp member with same | later
      · simp only [Prod.mk.injEq] at same
        simp [same.1, same.2]
      · have different : name ≠ other := by
          rintro rfl
          exact distinct.1 (List.mem_map_of_mem later)
        have unequal : (name == other) = false := by simpa using different
        simp only [unequal]
        exact ih distinct.2 later

theorem Object.holding_of_represents {object : Object} {store : Store}
    (represents : Represents object store) : object.holding store = object := by
  obtain ⟨owner, fields⟩ := object
  obtain ⟨distinct, values⟩ := represents
  simp only [Object.holding, Object.mk.injEq, true_and]
  simp only [Object.get?] at values
  have kept : ∀ field ∈ fields, ((store field.1).map Datum.toValue).getD field.2 = field.2 := by
    rintro ⟨name, old⟩ member
    rw [← values name, lookup_of_mem distinct member]
    rfl
  calc fields.map (fun (name, old) => (name, ((store name).map Datum.toValue).getD old))
      = fields.map id := List.map_congr_left fun field member => by
        simp only [kept field member, id]
    _ = fields := List.map_id fields

theorem World.object?_showing (world : World) (address : Nat) (store : Store) :
    (world.showing address store).object? address =
      (world.object? address).map fun object => object.holding store := by
  simp [World.showing, World.object?, Array.getElem?_modify]

theorem World.showing_of_represents {world : World} {address : Nat} {object : Object}
    {store : Store} (found : world.object? address = some object)
    (represents : Represents object store) : world.showing address store = world := by
  obtain ⟨heap, output, outputLimit, clock, readings⟩ := world
  simp only [World.showing, World.mk.injEq, and_true]
  simp only [World.object?] at found
  apply Array.ext_getElem?
  intro index
  rw [Array.getElem?_modify]
  split
  · rename_i same
    subst same
    rw [found, Option.map_some, Object.holding_of_represents represents]
  · rfl

theorem World.setField_showing (world : World) (address : Nat) (store : Store) (field : String)
    (datum : Datum) :
    (world.showing address store).setField address field datum.toValue =
      world.showing address (store.set field datum) := by
  simp only [World.setField, World.showing, World.mk.injEq, and_true]
  apply Array.ext_getElem?
  intro index
  simp only [Array.getElem?_modify]
  split
  · cases world.heap[index]? with
    | none => rfl
    | some object => simp [Object.set_holding]
  · rfl

theorem Represents.holding {object : Object} {store later : Store}
    (represents : Represents object store)
    (sameFields : ∀ name, (later name).isSome = (store name).isSome) :
    Represents (object.holding later) later where
  distinct := by
    simpa [Object.holding, Function.comp_def] using represents.distinct
  values := by
    intro name
    rw [Object.get?_holding, represents.values]
    have same := sameFields name
    cases stored : store name with
    | none =>
        rw [stored] at same
        have absent : later name = none := by simpa using same
        simp [absent]
    | some datum =>
        rw [stored] at same
        obtain ⟨next, present⟩ := Option.isSome_iff_exists.mp same
        simp [present]

end Machine

end Assay
