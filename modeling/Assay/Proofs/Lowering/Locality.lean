import Assay.Proofs.Lowering.Balance
import Assay.Proofs.Lowering.Records

/-!
What lowering does to an arena. Blocks that were there before keep everything but the count of the edges
that lead to them, and every block that is there afterwards and was not before is complete. A loop has an
incomplete head while its body and its condition are lowered, but not any more when it is done.
-/

namespace Assay.Graph

/-- The block has one successor and no condition, or two successors and a condition, or it has no
successor and ends with its only return. Successors are blocks of an arena of that size. -/
structure Block.Complete (size : Nat) (block : Block) : Prop where
  inside : ∀ next ∈ block.successors, next < size
  shape : block.successors.length = 1 ∧ block.cond = .none ∨
    block.successors.length = 2 ∧ block.cond ≠ .none ∨
    block.successors = [] ∧ ∃ body kind, block.code = body ++ [.ret kind] ∧
      ∀ instruction ∈ body, instruction.isReturn = false

theorem Balanced.complete {ends : List Instruction → Prop} {first size height : Nat}
    {heights : BlockIndex → Nat} {block : Block}
    (balanced : Balanced ends first heights size height block.code block.transfer)
    (conclude : ∀ code, ends code → ∃ kind, Concludes kind code) : block.Complete size := by
  refine ⟨fun next isNext => (balanced.successor isNext).2.1, ?_⟩
  obtain ⟨id, code, transfer, incoming⟩ := block
  cases balanced with
  | exit isEnd =>
      obtain ⟨kind, body, isCode, climbs⟩ := conclude code isEnd
      exact .inr (.inr ⟨rfl, body, kind, isCode, fun _ isPart => climbs.isReturn isPart⟩)
  | jump climbs stands => exact .inl ⟨rfl, rfl⟩
  | branch climbs known yesStands noStands =>
      refine .inr (.inl ⟨rfl, ?_⟩)
      rintro rfl
      cases known

end Assay.Graph

namespace Assay.Lowering

open Assay.Graph Syntax Typing

/-- A lowering that leaves the blocks of the arena as they are, also if it fails, and succeeds under the
condition `known`. Then the root and the successors of new blocks are in the arena, and the new blocks
are complete. -/
structure OnlyExtends (start : Arena) (known : Prop) (lowering : Lower BlockIndex) : Prop where
  framed : start.Framed (lowering.run start).2
  succeeds : Succeeds lowering start ↔ known
  complete : ∀ root finish, lowering.run start = (.ok root, finish) → root < finish.size ∧
    ∀ id block, start.size ≤ id → finish.get? id = some block → block.Complete finish.size

theorem Stacks.onlyExtends {ends : List Instruction → Prop} {first height : Nat}
    {heights : BlockIndex → Nat} {start : Arena} {known : Prop} {lowering : Lower BlockIndex}
    (stacked : Stacks ends first heights (Stands first height) start lowering)
    (conclude : ∀ code, ends code → ∃ kind, Concludes kind code)
    (succeeds : Succeeds lowering start ↔ known) : OnlyExtends start known lowering := by
  refine ⟨stacked.framed, succeeds, fun root finish ran => ?_⟩
  obtain ⟨later, -, levels, stands⟩ := stacked.run ran
  refine ⟨stands.inside, fun id block isNew found => ?_⟩
  exact (levels id _ _ isNew ⟨block, found, rfl, rfl⟩).complete conclude

def Destination.height : Destination → Nat
  | value _ => 1
  | test _ _ => 0

theorem Destination.Within.awaits {size : Nat} {destination : Destination}
    (within : destination.Within size) :
    destination.Awaits 0 0 (fun _ => destination.height) size := by
  cases destination with
  | value next => exact ⟨Nat.zero_le _, within, rfl⟩
  | test yes no => exact ⟨⟨Nat.zero_le _, within.1, rfl⟩, Nat.zero_le _, within.2, rfl⟩

variable {resolution earlier : Resolution} {checker : Checker} {start : Arena}

theorem lowerExpression_onlyExtends (expression : Expression) {destination : Destination}
    (within : destination.Within start.size) :
    OnlyExtends start (resolution.covers expression = true)
      (lowerExpression resolution expression destination) := by
  have stacked : Stacks (Concludes .void) 0 (fun _ => destination.height) (Stands 0 0) start
      (lowerExpression resolution expression destination) :=
    stacks_lowerExpression resolution expression within.awaits
  exact stacked.onlyExtends (fun code concludes => ⟨_, concludes⟩)
    (succeeds_lowerExpression resolution expression within)

theorem lowerCommand_onlyExtends (command : Command) {exit next : BlockIndex}
    (exitInside : Inside start.size exit) (nextInside : Inside start.size next) :
    OnlyExtends start (resolution.coversCommand command = true)
      (lowerCommand resolution exit command next) := by
  have stands : ∀ id, Inside start.size id → Stands 0 0 (fun _ => 0) start.size id :=
    fun id inside => ⟨Nat.zero_le _, inside, rfl⟩
  have stacked : Stacks (Concludes .int) 0 (fun _ => 0) (Stands 0 0) start
      (lowerCommand resolution exit command next) :=
    stacks_lowerCommand resolution command (fun _ _ _ => verdict_concludes _ _)
      (stands exit exitInside) (stands next nextInside)
  exact stacked.onlyExtends (fun code concludes => ⟨_, concludes⟩)
    (succeeds_lowerCommand resolution command exitInside nextInside)

theorem covers_of_fine {expression : Expression} (fine : expressionProblems checker expression = []) :
    (earlier.after checker).covers expression = true := by
  have within : (Destination.value 0).Within ((Arena.empty 0).newBlock []).1.size := by
    simp [Destination.Within, Inside, Arena.newBlock, Arena.size_allocate]
  rw [← succeeds_lowerExpression _ _ within]
  obtain ⟨root, finish, done, -⟩ :=
    builds_lowerExpression (resolves_after earlier checker) fine _ within
  exact ⟨root, finish, done⟩

theorem coversCommand_of_fine {command : Command} (fine : (checkCommand checker command).2 = []) :
    (earlier.after checker).coversCommand command = true := by
  have inside : Inside ((Arena.empty 0).newBlock []).1.size 0 := by
    simp [Inside, Arena.newBlock, Arena.size_allocate]
  rw [← succeeds_lowerCommand _ _ inside inside]
  obtain ⟨root, finish, done, -⟩ :=
    builds_lowerCommand (resolves_after earlier checker) fine inside inside
  exact ⟨root, finish, done⟩

/-- Lowering only extends the graph: an expression that leaves its value or decides between two blocks,
and a command, with blocks of the arena to go on with. It succeeds if a check has found out what the
lowering needs, and a check without problems has. -/
theorem lowering_only_extends (resolution : Resolution) (arena : Arena) :
    (∀ expression destination, destination.Within arena.size →
      OnlyExtends arena (resolution.covers expression = true)
        (lowerExpression resolution expression destination)) ∧
    (∀ command exit next, exit < arena.size → next < arena.size →
      OnlyExtends arena (resolution.coversCommand command = true)
        (lowerCommand resolution exit command next)) ∧
    ∀ earlier checker, resolution = Resolution.after earlier checker →
      (∀ expression, expressionProblems checker expression = [] →
        resolution.covers expression = true) ∧
      ∀ command, (checkCommand checker command).2 = [] → resolution.coversCommand command = true := by
  refine ⟨?_, ?_, ?_⟩
  · exact fun expression destination within => lowerExpression_onlyExtends expression within
  · exact fun command exit next exitInside nextInside =>
      lowerCommand_onlyExtends command exitInside nextInside
  · rintro earlier checker rfl
    exact ⟨fun expression fine => covers_of_fine fine, fun command fine => coversCommand_of_fine fine⟩

def polling : Command :=
  let on : Expression := .field .unknown "on"
  .seq .unknown (.loop .unknown (.not .unknown on) (.ifThen .unknown on (.ret .unknown)))
    (.assert .unknown (.comparison .unknown .equal on (.boolean .unknown true)))

def switchClass : ClassType :=
  { ClassType.new { name := "Switch", serial := 0 } with fields := [{ name := "on", type := .boolean }] }

theorem lowering_only_extends_polling :
    let checker := Member.checkerFor .test switchClass
    let arena := (((Arena.empty 0).newBlock []).1.newBlock []).1
    (checkCommand checker polling).2 = [] ∧ arena.size = 2 ∧ ∃ root finish,
      (lowerCommand (Resolution.none.after checker) 0 polling 1).run arena = (.ok root, finish) ∧
      arena.Framed finish ∧ root < finish.size ∧
      ∀ id block, 2 ≤ id → finish.get? id = some block → block.Complete finish.size := by
  intro checker arena
  have fine : (checkCommand checker polling).2 = [] := rfl
  obtain ⟨-, commands, checked⟩ := lowering_only_extends (Resolution.none.after checker) arena
  have extended := commands polling 0 1 (by decide) (by decide)
  obtain ⟨root, finish, ran⟩ := extended.succeeds.mpr ((checked .none checker rfl).2 polling fine)
  have framed := extended.framed
  rw [ran] at framed
  obtain ⟨rootInside, complete⟩ := extended.complete root finish ran
  exact ⟨fine, rfl, root, finish, ran, framed, rootInside, complete⟩

end Assay.Lowering
