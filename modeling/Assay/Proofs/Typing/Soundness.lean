import Assay.Proofs.Syntax.Meaning
import Assay.Typing.Member

/-!
Expressions without problems have a value of their static type, and commands without problems keep
the fields of an instance at values of their declared types.
-/

namespace Assay.Typing

open Syntax

/-- The fields of the store are those that have a type, with values of their types. -/
def Typed (types : String → Option Ty) (store : Store) : Prop :=
  ∀ name, (store name).map Datum.type = types name

theorem Typed.same_fields {types : String → Option Ty} {store later : Store}
    (typed : Typed types store) (laterTyped : Typed types later) (name : String) :
    (later name).isSome = (store name).isSome := by
  have first := typed name
  have second := laterTyped name
  rw [← Option.isSome_map, second, ← first, Option.isSome_map]

def Checker.fieldType? (checker : Checker) (name : String) : Option Ty :=
  (checker.field? name).map Field.type

theorem int_of_type {datum : Datum} (isInt : datum.type = .int) :
    ∃ value, datum = .int value := by
  cases datum with
  | int value => exact ⟨value, rfl⟩
  | boolean value => simp [Datum.type] at isInt
  | float value => simp [Datum.type] at isInt

theorem boolean_of_type {datum : Datum} (isBoolean : datum.type = .boolean) :
    ∃ value, datum = .boolean value := by
  cases datum with
  | int value => simp [Datum.type] at isBoolean
  | boolean value => exact ⟨value, rfl⟩
  | float value => simp [Datum.type] at isBoolean

theorem requireBoolean_nil {position : Position} {type : Ty}
    (fine : Checker.requireBoolean position type = []) : type = .boolean := by
  unfold Checker.requireBoolean at fine
  split at fine
  · assumption
  · simp at fine

theorem requireAssignable_nil {position : Position} {actual expected : Ty}
    (fine : Checker.requireAssignable position actual expected = []) : actual = expected := by
  unfold Checker.requireAssignable at fine
  split at fine
  · rename_i assignable
    simpa [Ty.assignableTo] using assignable
  · simp at fine

theorem fieldProblems_nil {checker : Checker} {position : Position} {name : String}
    (fine : checker.fieldProblems position name = []) :
    ∃ field, checker.field? name = some field := by
  unfold Checker.fieldProblems at fine
  unfold Checker.field?
  split at fine
  · simp at fine
  · rename_i owner receiver
    split at fine
    · simp at fine
    · rename_i field found
      exact ⟨field, by rw [receiver]; exact found⟩

theorem comparisonProblems_nil {checker : Checker} {operator : ComparisonOperator}
    {left right : Expression} (fine : comparisonProblems checker operator left right = []) :
    (typeOf checker left = .boolean ∧ typeOf checker right = .boolean ∧ operator.isEquality = true) ∨
      typeOf checker left = .int ∧ typeOf checker right = .int := by
  simp only [comparisonProblems] at fine
  split at fine
  · rename_i equality
    simp only [Bool.and_eq_true, decide_eq_true_eq] at equality
    exact .inl ⟨equality.1, requireBoolean_nil fine, equality.2⟩
  · split at fine
    · simp at fine
    · rename_i isInt
      exact .inr ⟨by simpa using isInt, requireAssignable_nil fine⟩

/-- An expression without problems has a value of its static type. -/
theorem value?_typed {checker : Checker} {store : Store}
    (typed : Typed checker.fieldType? store) {expression : Expression}
    (fine : expressionProblems checker expression = []) :
    ∃ datum, expression.value? store = some datum ∧ datum.type = typeOf checker expression := by
  induction expression with
  | int position value => exact ⟨.int value, rfl, rfl⟩
  | boolean position value => exact ⟨.boolean value, rfl, rfl⟩
  | field position name =>
      obtain ⟨field, found⟩ := fieldProblems_nil fine
      have declared := typed name
      simp only [Checker.fieldType?, found, Option.map_some, Option.map_eq_some_iff] at declared
      obtain ⟨datum, stored, type⟩ := declared
      exact ⟨datum, stored, by simp only [typeOf, found, Option.map_some, Option.getD_some, type]⟩
  | binary position operator left right leftIh rightIh =>
      simp only [expressionProblems, List.append_eq_nil_iff] at fine
      obtain ⟨⟨⟨leftFine, leftInt⟩, rightFine⟩, rightInt⟩ := fine
      obtain ⟨first, firstValue, firstType⟩ := leftIh leftFine
      obtain ⟨second, secondValue, secondType⟩ := rightIh rightFine
      rw [requireAssignable_nil leftInt] at firstType
      rw [requireAssignable_nil rightInt] at secondType
      obtain ⟨one, rfl⟩ := int_of_type firstType
      obtain ⟨other, rfl⟩ := int_of_type secondType
      exact ⟨.int (operator.apply one other),
        by simp only [Expression.value?, firstValue, secondValue], rfl⟩
  | comparison position operator left right leftIh rightIh =>
      simp only [expressionProblems, List.append_eq_nil_iff] at fine
      obtain ⟨⟨leftFine, rightFine⟩, comparable⟩ := fine
      obtain ⟨first, firstValue, firstType⟩ := leftIh leftFine
      obtain ⟨second, secondValue, secondType⟩ := rightIh rightFine
      have compared : ∃ result, operator.compare? first second = some result := by
        rcases comparisonProblems_nil comparable with ⟨leftIs, rightIs, equality⟩ | ⟨leftIs, rightIs⟩
        · rw [leftIs] at firstType
          rw [rightIs] at secondType
          obtain ⟨one, rfl⟩ := boolean_of_type firstType
          obtain ⟨other, rfl⟩ := boolean_of_type secondType
          cases operator with
          | equal => exact ⟨_, rfl⟩
          | notEqual => exact ⟨_, rfl⟩
          | _ => simp [ComparisonOperator.isEquality] at equality
        · rw [leftIs] at firstType
          rw [rightIs] at secondType
          obtain ⟨one, rfl⟩ := int_of_type firstType
          obtain ⟨other, rfl⟩ := int_of_type secondType
          exact ⟨operator.holds one other, by simp only [ComparisonOperator.compare?]⟩
      obtain ⟨result, compared⟩ := compared
      exact ⟨.boolean result,
        by simp only [Expression.value?, firstValue, secondValue, compared, Option.map_some], rfl⟩
  | not position operand ih =>
      simp only [expressionProblems, List.append_eq_nil_iff] at fine
      obtain ⟨datum, value, type⟩ := ih fine.1
      rw [requireBoolean_nil fine.2] at type
      obtain ⟨holds, rfl⟩ := boolean_of_type type
      exact ⟨.boolean !holds, by simp only [Expression.value?, value], rfl⟩
  | and position left right leftIh rightIh =>
      simp only [expressionProblems, List.append_eq_nil_iff] at fine
      obtain ⟨⟨⟨leftFine, leftBoolean⟩, rightFine⟩, rightBoolean⟩ := fine
      obtain ⟨first, firstValue, firstType⟩ := leftIh leftFine
      obtain ⟨second, secondValue, secondType⟩ := rightIh rightFine
      rw [requireBoolean_nil leftBoolean] at firstType
      rw [requireBoolean_nil rightBoolean] at secondType
      obtain ⟨one, rfl⟩ := boolean_of_type firstType
      obtain ⟨other, rfl⟩ := boolean_of_type secondType
      cases one with
      | true => exact ⟨.boolean other, by simp only [Expression.value?, firstValue, secondValue], rfl⟩
      | false => exact ⟨.boolean false, by simp only [Expression.value?, firstValue], rfl⟩
  | or position left right leftIh rightIh =>
      simp only [expressionProblems, List.append_eq_nil_iff] at fine
      obtain ⟨⟨⟨leftFine, leftBoolean⟩, rightFine⟩, rightBoolean⟩ := fine
      obtain ⟨first, firstValue, firstType⟩ := leftIh leftFine
      obtain ⟨second, secondValue, secondType⟩ := rightIh rightFine
      rw [requireBoolean_nil leftBoolean] at firstType
      rw [requireBoolean_nil rightBoolean] at secondType
      obtain ⟨one, rfl⟩ := boolean_of_type firstType
      obtain ⟨other, rfl⟩ := boolean_of_type secondType
      cases one with
      | true => exact ⟨.boolean true, by simp only [Expression.value?, firstValue], rfl⟩
      | false => exact ⟨.boolean other, by simp only [Expression.value?, firstValue, secondValue], rfl⟩

theorem condition_decided {checker : Checker} {store : Store}
    (typed : Typed checker.fieldType? store) {condition : Expression}
    (fine : conditionProblems checker condition = []) :
    ∃ holds, condition.value? store = some (.boolean holds) := by
  simp only [conditionProblems, List.append_eq_nil_iff] at fine
  obtain ⟨datum, value, type⟩ := value?_typed typed fine.1
  rw [requireBoolean_nil fine.2] at type
  obtain ⟨holds, rfl⟩ := boolean_of_type type
  exact ⟨holds, value⟩

theorem checkCommand_checker (checker : Checker) (command : Command) :
    (checkCommand checker command).1 = checker := by
  induction command with
  | seq position first second firstIh secondIh =>
      simp only [checkCommand]
      rw [firstIh, secondIh]
  | _ => rfl

theorem checkCommand_seq {checker : Checker} {position : Position} {first second : Command}
    (fine : (checkCommand checker (.seq position first second)).2 = []) :
    (checkCommand checker first).2 = [] ∧ (checkCommand checker second).2 = [] := by
  simp only [checkCommand, List.append_eq_nil_iff] at fine
  rw [checkCommand_checker] at fine
  exact fine

theorem assign_typed {checker : Checker} {store : Store} {position : Position} {field : String}
    {value : Expression} {datum : Datum} (typed : Typed checker.fieldType? store)
    (fine : (checkCommand checker (.assign position field value)).2 = [])
    (assigned : value.value? store = some datum) :
    Typed checker.fieldType? (store.set field datum) := by
  simp only [checkCommand, List.append_eq_nil_iff] at fine
  obtain ⟨⟨valueFine, fieldFine⟩, assignable⟩ := fine
  obtain ⟨declared, found⟩ := fieldProblems_nil fieldFine
  rw [found] at assignable
  obtain ⟨other, otherValue, type⟩ := value?_typed typed valueFine
  obtain rfl : other = datum := by simpa [assigned, eq_comm] using otherValue
  intro name
  by_cases same : name = field
  · subst same
    simp only [Store.set, if_true, Option.map_some, Checker.fieldType?, found, type]
    rw [requireAssignable_nil assignable]
  · simp only [Store.set, same, if_false]
    exact typed name

/-- A command without problems keeps the fields at values of their types. -/
theorem runs_typed {checker : Checker} {command : Command} {store final : Store}
    {ending : Ending} (runs : Runs command store ending final)
    (fine : (checkCommand checker command).2 = []) (typed : Typed checker.fieldType? store) :
    Typed checker.fieldType? final := by
  induction runs with
  | skip => exact typed
  | seqDone _ _ firstIh secondIh =>
      obtain ⟨firstFine, secondFine⟩ := checkCommand_seq fine
      exact secondIh secondFine (firstIh firstFine typed)
  | seqStop _ _ ih => exact ih (checkCommand_seq fine).1 typed
  | ifThenTrue _ _ ih =>
      simp only [checkCommand, List.append_eq_nil_iff] at fine
      exact ih fine.2 typed
  | ifThenFalse _ => exact typed
  | ifElseTrue _ _ ih =>
      simp only [checkCommand, List.append_eq_nil_iff] at fine
      exact ih fine.1.2 typed
  | ifElseFalse _ _ ih =>
      simp only [checkCommand, List.append_eq_nil_iff] at fine
      exact ih fine.2 typed
  | loopDone _ => exact typed
  | loopAgain _ _ _ bodyIh againIh =>
      have bodyFine := fine
      simp only [checkCommand, List.append_eq_nil_iff] at bodyFine
      exact againIh fine (bodyIh bodyFine.2 typed)
  | loopStop _ _ _ ih =>
      simp only [checkCommand, List.append_eq_nil_iff] at fine
      exact ih fine.2 typed
  | ret => exact typed
  | assign assigned => exact assign_typed typed fine assigned
  | assertTrue _ => exact typed
  | assertFalse _ => exact typed

end Assay.Typing
