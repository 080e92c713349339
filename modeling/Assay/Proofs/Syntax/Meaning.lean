import Assay.Typing.Body

/-!
The meaning of expressions and commands on the fields of an instance. Integers wrap around at 64 bits;
a command runs to its end, to a return or to an assert that fails.
-/

namespace Assay.Syntax

open Typing

inductive Datum
  | int (value : Int64)
  | boolean (value : Bool)
  | float (value : Float)

def Datum.type : Datum → Ty
  | int _ => .int
  | boolean _ => .boolean
  | float _ => .float

abbrev Store := String → Option Datum

def Store.set (store : Store) (field : String) (datum : Datum) : Store :=
  fun name => if name = field then some datum else store name

def BinaryOperator.apply : BinaryOperator → Int64 → Int64 → Int64
  | add, left, right => left + right
  | sub, left, right => left - right
  | _, left, right => left * right

def ComparisonOperator.holds : ComparisonOperator → Int64 → Int64 → Bool
  | lessThan, left, right => left < right
  | lessOrEqual, left, right => left ≤ right
  | greaterThan, left, right => right < left
  | greaterOrEqual, left, right => right ≤ left
  | equal, left, right => left = right
  | _, left, right => left ≠ right

def ComparisonOperator.compare? : ComparisonOperator → Datum → Datum → Option Bool
  | operator, .int left, .int right => some (operator.holds left right)
  | equal, .boolean left, .boolean right => some (left = right)
  | notEqual, .boolean left, .boolean right => some (left ≠ right)
  | _, _, _ => none

/-- The value of an expression; none if it has none, which the check of a class rules out. -/
def Expression.value? (store : Store) : Expression → Option Datum
  | int _ value => some (.int value)
  | boolean _ value => some (.boolean value)
  | field _ name => store name
  | binary _ operator left right =>
    match left.value? store, right.value? store with
    | some (.int left), some (.int right) => some (.int (operator.apply left right))
    | _, _ => none
  | comparison _ operator left right =>
    match left.value? store, right.value? store with
    | some left, some right => (operator.compare? left right).map .boolean
    | _, _ => none
  | not _ operand =>
    match operand.value? store with
    | some (.boolean value) => some (.boolean !value)
    | _ => none
  | and _ left right =>
    match left.value? store with
    | some (.boolean true) =>
      match right.value? store with
      | some (.boolean value) => some (.boolean value)
      | _ => none
    | some (.boolean false) => some (.boolean false)
    | _ => none
  | or _ left right =>
    match left.value? store with
    | some (.boolean false) =>
      match right.value? store with
      | some (.boolean value) => some (.boolean value)
      | _ => none
    | some (.boolean true) => some (.boolean true)
    | _ => none

inductive Ending
  | done
  | returned
  | failed (position : Position)
deriving DecidableEq, Repr

/-- The command, run on a store, comes to an end and leaves another store. -/
inductive Runs : Command → Store → Ending → Store → Prop
  | skip {position : Position} {store : Store} : Runs (.skip position) store .done store
  | seqDone {position : Position} {first second : Command} {store middle final : Store}
      {ending : Ending} : Runs first store .done middle → Runs second middle ending final →
      Runs (.seq position first second) store ending final
  | seqStop {position : Position} {first second : Command} {store final : Store}
      {ending : Ending} : Runs first store ending final → ending ≠ .done →
      Runs (.seq position first second) store ending final
  | ifThenTrue {position : Position} {condition : Expression} {yes : Command}
      {store final : Store} {ending : Ending} :
      condition.value? store = some (.boolean true) → Runs yes store ending final →
      Runs (.ifThen position condition yes) store ending final
  | ifThenFalse {position : Position} {condition : Expression} {yes : Command} {store : Store} :
      condition.value? store = some (.boolean false) →
      Runs (.ifThen position condition yes) store .done store
  | ifElseTrue {position : Position} {condition : Expression} {yes no : Command}
      {store final : Store} {ending : Ending} :
      condition.value? store = some (.boolean true) → Runs yes store ending final →
      Runs (.ifElse position condition yes no) store ending final
  | ifElseFalse {position : Position} {condition : Expression} {yes no : Command}
      {store final : Store} {ending : Ending} :
      condition.value? store = some (.boolean false) → Runs no store ending final →
      Runs (.ifElse position condition yes no) store ending final
  | loopDone {position : Position} {condition : Expression} {body : Command} {store : Store} :
      condition.value? store = some (.boolean false) →
      Runs (.loop position condition body) store .done store
  | loopAgain {position : Position} {condition : Expression} {body : Command}
      {store middle final : Store} {ending : Ending} :
      condition.value? store = some (.boolean true) → Runs body store .done middle →
      Runs (.loop position condition body) middle ending final →
      Runs (.loop position condition body) store ending final
  | loopStop {position : Position} {condition : Expression} {body : Command}
      {store final : Store} {ending : Ending} :
      condition.value? store = some (.boolean true) → Runs body store ending final →
      ending ≠ .done → Runs (.loop position condition body) store ending final
  | ret {position : Position} {store : Store} : Runs (.ret position) store .returned store
  | assign {position : Position} {field : String} {value : Expression} {store : Store}
      {datum : Datum} : value.value? store = some datum →
      Runs (.assign position field value) store .done (store.set field datum)
  | assertTrue {position : Position} {condition : Expression} {store : Store} :
      condition.value? store = some (.boolean true) →
      Runs (.assert position condition) store .done store
  | assertFalse {position : Position} {condition : Expression} {store : Store} :
      condition.value? store = some (.boolean false) →
      Runs (.assert position condition) store (.failed position) store

def Ending.printed? : Role → Ending → Option String
  | .test, failed position => some (failureMessage position)
  | .test, _ => some "passed"
  | .fixture, _ => none

def Ending.status : Ending → Int64
  | failed _ => 1
  | _ => 0

/-- A command comes to one end only. -/
theorem Runs.unique {command : Command} {store final otherFinal : Store} {ending otherEnding : Ending}
    (first : Runs command store ending final) (second : Runs command store otherEnding otherFinal) :
    ending = otherEnding ∧ final = otherFinal := by
  have same : ∀ {value : Option Datum} {one other : Bool}, value = some (.boolean one) →
      value = some (.boolean other) → one = other := by
    intro value one other isOne isOther
    simpa [isOne] using isOther
  induction first generalizing otherEnding otherFinal with
  | skip => cases second; exact ⟨rfl, rfl⟩
  | seqDone _ _ firstIh secondIh =>
      cases second with
      | seqDone earlier later =>
          obtain ⟨-, rfl⟩ := firstIh earlier
          exact secondIh later
      | seqStop earlier stops => exact absurd (firstIh earlier).1.symm stops
  | seqStop _ stops ih =>
      cases second with
      | seqDone earlier later => exact absurd (ih earlier).1 stops
      | seqStop earlier _ => exact ih earlier
  | ifThenTrue holds _ ih =>
      cases second with
      | ifThenTrue _ other => exact ih other
      | ifThenFalse fails => exact absurd (same holds fails) (by simp)
  | ifThenFalse fails =>
      cases second with
      | ifThenTrue holds _ => exact absurd (same holds fails) (by simp)
      | ifThenFalse _ => exact ⟨rfl, rfl⟩
  | ifElseTrue holds _ ih =>
      cases second with
      | ifElseTrue _ other => exact ih other
      | ifElseFalse fails _ => exact absurd (same holds fails) (by simp)
  | ifElseFalse fails _ ih =>
      cases second with
      | ifElseTrue holds _ => exact absurd (same holds fails) (by simp)
      | ifElseFalse _ other => exact ih other
  | loopDone fails =>
      cases second with
      | loopDone _ => exact ⟨rfl, rfl⟩
      | loopAgain holds _ _ => exact absurd (same holds fails) (by simp)
      | loopStop holds _ _ => exact absurd (same holds fails) (by simp)
  | loopAgain holds _ _ bodyIh loopIh =>
      cases second with
      | loopDone fails => exact absurd (same holds fails) (by simp)
      | loopAgain _ body again =>
          obtain ⟨-, rfl⟩ := bodyIh body
          exact loopIh again
      | loopStop _ body stops => exact absurd (bodyIh body).1.symm stops
  | loopStop holds _ stops ih =>
      cases second with
      | loopDone fails => exact absurd (same holds fails) (by simp)
      | loopAgain _ body _ => exact absurd (ih body).1 stops
      | loopStop _ body _ => exact ih body
  | ret => cases second; exact ⟨rfl, rfl⟩
  | assign computed =>
      cases second with
      | assign again =>
          obtain rfl := Option.some.inj (computed.symm.trans again)
          exact ⟨rfl, rfl⟩
  | assertTrue holds =>
      cases second with
      | assertTrue _ => exact ⟨rfl, rfl⟩
      | assertFalse fails => exact absurd (same holds fails) (by simp)
  | assertFalse fails =>
      cases second with
      | assertTrue holds => exact absurd (same holds fails) (by simp)
      | assertFalse _ => exact ⟨rfl, rfl⟩

end Assay.Syntax
