import Assay.Lowering.Command
import Assay.Proofs.Graph.Growth
import Assay.Proofs.Lowering.Expressions
import Assay.Proofs.Success
import Assay.Proofs.Typing.Acceptance

/-!
Lowering succeeds on everything that was checked without problems, and leaves only finished blocks
behind.
-/

namespace Assay.Lowering

open Assay.Graph Syntax Typing

inductive Plain (isField : String → Prop) : Instruction → Prop
  | const (value : Int64) : Plain isField (.const value)
  | newString (text : String) : Plain isField (.newString text)
  | loadReceiver : Plain isField loadReceiver
  | getField (owner : String) {name : String} : isField name → Plain isField (.getField owner name)
  | putField (owner : String) {name : String} : isField name → Plain isField (.putField owner name)
  | arithmetic (operator : Arithmetic) : Plain isField (.arithmetic operator)
  | output : Plain isField outputCall

/-- A lowering that succeeds in an arena and adds finished blocks to it. The result has the property
`within` in the arena of the new size. -/
def Builds {α : Type} (plain : Instruction → Prop) (within : Nat → α → Prop) (start : Arena)
    (lowering : Lower α) : Prop :=
  ∃ value finish, lowering.run start = (.ok value, finish) ∧ start.Adds plain finish ∧
    within finish.size value

def Inside (size : Nat) (id : BlockIndex) : Prop := id < size

def BothInside (size : Nat) (targets : BlockIndex × BlockIndex) : Prop :=
  Inside size targets.1 ∧ Inside size targets.2

def Destination.Within (size : Nat) : Destination → Prop
  | value next => Inside size next
  | test yes no => Inside size yes ∧ Inside size no

variable {plain : Instruction → Prop} {start : Arena}

theorem Inside.later {finish : Arena} {id : BlockIndex} (inside : Inside start.size id)
    (adds : start.Adds plain finish) : Inside finish.size id :=
  Nat.lt_of_lt_of_le inside adds.size_le

theorem builds_pure {α : Type} {within : Nat → α → Prop} {value : α}
    (inside : within start.size value) : Builds plain within start (pure value) :=
  ⟨value, start, rfl, Arena.Adds.refl start, inside⟩

theorem Builds.bind {α β : Type} {within : Nat → α → Prop} {result : Nat → β → Prop}
    {first : Lower α} {second : α → Lower β} (builds : Builds plain within start first)
    (rest : ∀ value middle, start.Adds plain middle → within middle.size value →
      Builds plain result middle (second value)) :
    Builds plain result start (first >>= second) := by
  obtain ⟨value, middle, firstDone, firstAdds, inside⟩ := builds
  obtain ⟨last, finish, secondDone, secondAdds, lastInside⟩ := rest value middle firstAdds inside
  exact ⟨last, finish, by rw [bind_of_ok firstDone, secondDone], firstAdds.trans secondAdds,
    lastInside⟩

theorem builds_prepend {code : List Instruction} {next : BlockIndex}
    (isPlain : ∀ instruction ∈ code, plain instruction) (inside : Inside start.size next) :
    Builds plain Inside start (prepend code next) :=
  ⟨_, _, rfl, Arena.adds_prepend isPlain inside, Arena.prepend_lt_size code inside⟩

theorem builds_branch {cond : Cond} {yes no : BlockIndex} (known : cond.isKnown = true)
    (yesInside : Inside start.size yes) (noInside : Inside start.size no) :
    Builds plain Inside start (branch cond yes no) :=
  ⟨_, _, rfl, Arena.adds_branch known yesInside noInside, Arena.branch_lt_size start cond yes no⟩

theorem builds_newBlock {body : List Instruction} (kind : ValueKind)
    (isPlain : ∀ instruction ∈ body, plain instruction) :
    Builds plain Inside start (newBlock (body ++ [.ret kind])) :=
  ⟨_, _, rfl, Arena.adds_newBlock start kind isPlain, (Arena.holds_newBlock start _).lt_size⟩

section Checked

variable {isField : String → Prop}

theorem builds_consumer {destination : Destination} (within : destination.Within start.size) :
    Builds (Plain isField) Inside start destination.consumer := by
  cases destination with
  | value next => exact builds_pure within
  | test yes no => exact builds_branch rfl within.1 within.2

theorem builds_branches {destination : Destination} (within : destination.Within start.size) :
    Builds (Plain isField) BothInside start destination.branches := by
  have push : ∀ value : Int64, ∀ instruction ∈ [Instruction.const value],
      Plain isField instruction := by
    intro value instruction isPushed
    obtain rfl := List.mem_singleton.mp isPushed
    exact .const value
  cases destination with
  | value next =>
      refine (builds_prepend (push 1) within).bind fun yes middle adds yesInside => ?_
      refine (builds_prepend (push 0) (Inside.later within adds)).bind
        fun no last later noInside => ?_
      exact builds_pure ⟨yesInside.later later, noInside⟩
  | test yes no => exact builds_pure within

structure Resolves (resolution : Resolution) (checker : Checker) : Prop where
  checked : resolution.checked = true
  owner : ∀ {name : String} {field : Field}, checker.field? name = some field →
    ∃ owner, resolution.owner? name = some owner

def FieldOf (checker : Checker) (name : String) : Prop := (checker.field? name).isSome

theorem isKnown_cond (operator : ComparisonOperator) : operator.cond.isKnown = true := by
  cases operator <;> rfl

theorem builds_lowerExpression {resolution : Resolution} {checker : Checker}
    (resolves : Resolves resolution checker) {expression : Expression}
    (fine : expressionProblems checker expression = []) (destination : Destination)
    (within : destination.Within start.size) :
    Builds (Plain (FieldOf checker)) Inside start
      (lowerExpression resolution expression destination) := by
  induction expression generalizing destination start with
  | int position value =>
      rw [lowerExpression]
      refine (builds_consumer within).bind fun next middle adds inside => ?_
      exact builds_prepend (by simp [Plain.const]) inside
  | boolean position value =>
      cases destination with
      | value next =>
          rw [lowerExpression]
          exact builds_prepend (by simp [Plain.const]) within
      | test yes no =>
          rw [lowerExpression]
          refine builds_pure ?_
          cases value with
          | true => exact within.1
          | false => exact within.2
  | field position name =>
      obtain ⟨field, found⟩ := fieldProblems_nil fine
      obtain ⟨owner, known⟩ := resolves.owner found
      rw [lowerExpression]
      refine (builds_consumer within).bind fun next middle adds inside => ?_
      simp only [known]
      have isField : FieldOf checker name := by simp [FieldOf, found]
      exact builds_prepend (by simp [Plain.loadReceiver, Plain.getField, isField]) inside
  | binary position operator left right leftIh rightIh =>
      simp only [expressionProblems, List.append_eq_nil_iff] at fine
      rw [lowerExpression]
      refine (builds_consumer within).bind fun next first _ inside => ?_
      refine (builds_prepend (by simp [Plain.arithmetic]) inside).bind
        fun operation second _ inside => ?_
      exact (rightIh fine.1.2 (.value operation) inside).bind fun rest third _ inside =>
        leftIh fine.1.1.1 (.value rest) inside
  | comparison position operator left right leftIh rightIh =>
      simp only [expressionProblems, List.append_eq_nil_iff] at fine
      rw [lowerExpression]
      refine (builds_branches within).bind fun targets first _ inside => ?_
      refine (builds_branch (isKnown_cond operator) inside.1 inside.2).bind
        fun decision second _ inside => ?_
      exact (rightIh fine.1.2 (.value decision) inside).bind fun rest third _ inside =>
        leftIh fine.1.1 (.value rest) inside
  | not position operand ih =>
      simp only [expressionProblems, List.append_eq_nil_iff] at fine
      rw [lowerExpression]
      exact (builds_branches within).bind fun targets first _ inside => ih fine.1 _ inside.symm
  | and position left right leftIh rightIh =>
      simp only [expressionProblems, List.append_eq_nil_iff] at fine
      rw [lowerExpression]
      refine (builds_branches within).bind fun targets first _ inside => ?_
      exact (rightIh fine.1.2 (.test targets.1 targets.2) inside).bind fun rest second adds restInside =>
        leftIh fine.1.1.1 _ ⟨restInside, inside.2.later adds⟩
  | or position left right leftIh rightIh =>
      simp only [expressionProblems, List.append_eq_nil_iff] at fine
      rw [lowerExpression]
      refine (builds_branches within).bind fun targets first _ inside => ?_
      exact (rightIh fine.1.2 (.test targets.1 targets.2) inside).bind fun rest second adds restInside =>
        leftIh fine.1.1.1 _ ⟨inside.1.later adds, restInside⟩

theorem builds_condition {resolution : Resolution} {checker : Checker}
    (resolves : Resolves resolution checker) {condition : Expression} {yes no : BlockIndex}
    (fine : conditionProblems checker condition = []) (yesInside : Inside start.size yes)
    (noInside : Inside start.size no) :
    Builds (Plain (FieldOf checker)) Inside start
      (lowerExpression resolution condition (.test yes no)) := by
  simp only [conditionProblems, List.append_eq_nil_iff] at fine
  exact builds_lowerExpression resolves fine.1 _ ⟨yesInside, noInside⟩

theorem verdict_plain (isField : String → Prop) (message : String) (status : Int64) :
    ∃ body, verdict message status = body ++ [.ret .int] ∧
      ∀ instruction ∈ body, Plain isField instruction := by
  refine ⟨[.newString message, outputCall, .const status], rfl, ?_⟩
  simp [Plain.newString, Plain.output, Plain.const]

theorem builds_loop {next : BlockIndex} {body : BlockIndex → Lower BlockIndex}
    {condition : BlockIndex → Lower BlockIndex} (inside : Inside start.size next)
    (bodyBuilds : ∀ arena pivot, Inside arena.size pivot → Inside arena.size next →
      start.size < arena.size → Builds plain Inside arena (body pivot))
    (conditionBuilds : ∀ arena round, Inside arena.size round → Inside arena.size next →
      Builds plain Inside arena (condition round)) :
    Builds plain Inside start (do
      let pivot ← newBlock []
      let round ← body pivot
      let test ← condition round
      link pivot test
      pure pivot) := by
  have grown : (start.newBlock []).1.size = start.size + 1 := Arena.size_allocate start [] .exit
  have pivotInside : Inside (start.newBlock []).1.size start.size := by
    rw [grown]
    exact Nat.lt_succ_self _
  have nextInside : Inside (start.newBlock []).1.size next := by
    rw [grown]
    exact Nat.lt_succ_of_lt inside
  obtain ⟨round, middle, bodyDone, bodyAdds, roundInside⟩ :=
    bodyBuilds _ start.size pivotInside nextInside (by omega)
  obtain ⟨test, last, conditionDone, conditionAdds, testInside⟩ :=
    conditionBuilds middle round roundInside (nextInside.later bodyAdds)
  obtain ⟨linked, linkDone, adds, pivotLinked⟩ :=
    Arena.adds_loop (bodyAdds.trans conditionAdds) testInside
  refine ⟨start.size, linked, ?_, adds, pivotLinked⟩
  have created : (newBlock []).run start = (.ok start.size, (start.newBlock []).1) := rfl
  have closed : (link start.size test).run last = (.ok (), linked) := by rw [link_run, linkDone]
  rw [bind_of_ok created, bind_of_ok bodyDone, bind_of_ok conditionDone, bind_of_ok closed]
  rfl

theorem builds_lowerCommand {resolution : Resolution} {checker : Checker}
    (resolves : Resolves resolution checker) {exit next : BlockIndex} {command : Command}
    (fine : (checkCommand checker command).2 = []) (exitInside : Inside start.size exit)
    (nextInside : Inside start.size next) :
    Builds (Plain (FieldOf checker)) Inside start (lowerCommand resolution exit command next) := by
  induction command generalizing next start with
  | skip position =>
      rw [lowerCommand]
      exact builds_pure nextInside
  | seq position first second firstIh secondIh =>
      obtain ⟨firstFine, secondFine⟩ := checkCommand_seq fine
      rw [lowerCommand]
      exact (secondIh secondFine exitInside nextInside).bind fun rest middle adds inside =>
        firstIh firstFine (exitInside.later adds) inside
  | ifThen position condition yes ih =>
      simp only [checkCommand, List.append_eq_nil_iff] at fine
      rw [lowerCommand]
      exact (ih fine.2 exitInside nextInside).bind fun whenTrue middle adds inside =>
        builds_condition resolves fine.1 inside (nextInside.later adds)
  | ifElse position condition yes no yesIh noIh =>
      simp only [checkCommand, List.append_eq_nil_iff] at fine
      rw [lowerCommand]
      refine (yesIh fine.1.2 exitInside nextInside).bind fun whenTrue first firstAdds yesInside => ?_
      refine (noIh fine.2 (exitInside.later firstAdds) (nextInside.later firstAdds)).bind
        fun whenFalse second secondAdds noInside => ?_
      exact builds_condition resolves fine.1.1 (yesInside.later secondAdds) noInside
  | loop position condition body ih =>
      simp only [checkCommand, List.append_eq_nil_iff] at fine
      rw [lowerCommand]
      refine builds_loop nextInside ?_ ?_
      · intro arena pivot pivotInside _ larger
        exact ih fine.2 (Nat.lt_trans exitInside larger) pivotInside
      · intro arena round roundInside nextInside
        exact builds_condition resolves fine.1 roundInside nextInside
  | ret position =>
      rw [lowerCommand]
      exact builds_pure exitInside
  | assign position field value =>
      simp only [checkCommand, List.append_eq_nil_iff] at fine
      obtain ⟨declared, found⟩ := fieldProblems_nil fine.1.2
      obtain ⟨owner, known⟩ := resolves.owner found
      have isField : FieldOf checker field := by simp [FieldOf, found]
      rw [lowerCommand]
      simp only [known]
      refine (builds_prepend (by simp [Plain.putField, isField]) nextInside).bind
        fun store first _ inside => ?_
      refine (builds_lowerExpression resolves fine.1.1 (.value store) inside).bind
        fun compute second _ inside => ?_
      exact builds_prepend (by simp [Plain.loadReceiver]) inside
  | assert position condition =>
      simp only [checkCommand, List.append_eq_nil_iff] at fine
      rw [lowerCommand, if_pos resolves.checked]
      obtain ⟨report, isReport, isPlain⟩ :=
        verdict_plain (FieldOf checker) (failureMessage position) 1
      rw [isReport]
      exact (builds_newBlock .int isPlain).bind fun failed middle adds failedInside =>
        builds_condition resolves fine.2 (nextInside.later adds) failedInside

theorem builds_lowerBody (role : Role) {resolution : Resolution} {checker : Checker}
    (resolves : Resolves resolution checker) {body : Command}
    (fine : (checkCommand checker body).2 = []) :
    Builds (Plain (FieldOf checker)) Inside start (lowerBody role resolution body) := by
  have exits : Builds (Plain (FieldOf checker)) Inside start (newBlock (exitCode role)) := by
    cases role with
    | test =>
        obtain ⟨report, isReport, isPlain⟩ :=
          verdict_plain (FieldOf checker) "passed" 0
        rw [exitCode, passed, isReport]
        exact builds_newBlock .int isPlain
    | fixture =>
        have none : ∀ instruction ∈ [], Plain (FieldOf checker) instruction := by simp
        exact builds_newBlock .void none
  exact exits.bind fun exit middle adds inside => builds_lowerCommand resolves fine inside inside

theorem resolves_after (earlier : Resolution) (checker : Checker) :
    Resolves (earlier.after checker) checker := by
  refine ⟨rfl, fun {name field} found => ?_⟩
  obtain ⟨owner, receives, declares⟩ := Option.bind_eq_some_iff.mp found
  have isField := List.mem_of_find?_eq_some declares
  have named : field.name = name := by simpa using List.find?_some declares
  simp only [Resolution.owner?, Resolution.after, receives]
  rw [← Option.isSome_iff_exists, List.lookup_isSome_iff]
  exact ⟨(field.name, owner.name), List.mem_append_left _ (List.mem_map_of_mem isField),
    by simp [named]⟩

end Checked

def Declares (declaration : ClassDeclaration) (name : String) : Prop :=
  (fieldType? declaration name).isSome = true

theorem fieldOf_checkerFor {declaration : ClassDeclaration} (accepted : Accepted declaration)
    (role : Role) :
    FieldOf (Member.checkerFor role (check declaration).type) = Declares declaration := by
  funext name
  rw [Declares, ← accepted.fieldType? role, Checker.fieldType?, Option.isSome_map, FieldOf]

/-- The body of every member of a class without errors is lowered, in any arena. -/
theorem builds_declared {declaration : ClassDeclaration} (accepted : Accepted declaration)
    {role : Role} {member : MemberDeclaration} (isMember : member ∈ declared declaration role)
    (arena : Arena) :
    Builds (Plain (Declares declaration)) Inside arena
      (lowerBody role (Resolution.none.after (Member.checkerFor role (check declaration).type))
        member.body) := by
  rw [← fieldOf_checkerFor accepted role]
  exact builds_lowerBody role (resolves_after .none _) (accepted.body_fine isMember)

end Assay.Lowering
