import Assay.Proofs.Graph.StackRuns
import Assay.Proofs.Lowering.Balance
import Assay.Proofs.Typing.Rules

/-!
The stack in the code of tests and fixtures. Every block of a member has one height, at which control
comes to it on every path from the root: empty at the root and at the blocks that end the routine. No
block takes values that the routine did not push, and a return leaves nothing behind. That is what the
machine finds on its stack in every run.
-/

namespace Assay.Lowering

open Assay.Graph Syntax Typing

def EndsMember (role : Role) (body : Command) (code : List Instruction) : Prop :=
  code = exitCode role ∨ role = .test ∧ ∃ position condition,
    PartOf (.assert position condition) body ∧ code = verdict (failureMessage position) 1

theorem EndsMember.concludes {role : Role} {body : Command} {code : List Instruction}
    (isEnd : EndsMember role body code) : Concludes role.resultKind code := by
  rcases isEnd with rfl | ⟨rfl, position, condition, -, rfl⟩
  · cases role with
    | test => exact verdict_concludes _ _
    | fixture => exact ⟨[], rfl, rfl⟩
  · exact verdict_concludes _ _

/-- The blocks of a member, from `start` on, with one height for each. -/
structure Leveled (role : Role) (body : Command) (start grown : Arena) (root : BlockIndex)
    (heights : BlockIndex → Nat) : Prop where
  starts : heights root = 0
  exit : grown.Holds start.size (exitCode role) .exit
  ends : ∀ id code, start.size ≤ id → grown.Holds id code .exit →
    heights id = 0 ∧ EndsMember role body code
  path : ∀ id path, Path grown root id path → start.size ≤ id ∧ grown.heightAlong path = heights id ∧
    ∃ block, grown.get? id = some block ∧ Steady role.resultKind (heights id) block
  runs : ∀ machine frame callers world fuel, frame.stack = [] →
    InStep grown root heights callers.length
      (Walk.run machine grown callers.length fuel (.enter grown root (.running frame callers world)))

theorem Plain.measured {isField : String → Prop} {instruction : Instruction}
    (plain : Plain isField instruction) : instruction.Measured := by
  refine Graph.measured fun owner method args returns isCall => ?_
  cases plain with
  | output =>
      cases isCall
      rfl
  | _ => cases isCall

theorem finished_measured {isField : String → Prop} {size : Nat} {code : List Instruction}
    {transfer : Transfer} (finished : Finished (Plain isField) size code transfer)
    {instruction : Instruction} (isPart : instruction ∈ code) : instruction.Measured := by
  cases finished with
  | exit kind plain =>
      rcases List.mem_append.mp isPart with inBody | isLast
      · exact (plain instruction inBody).measured
      · obtain rfl := List.mem_singleton.mp isLast
        exact Graph.measured fun owner method args returns isCall => nomatch isCall
  | jump plain inside => exact (plain instruction isPart).measured
  | branch plain known yesInside noInside => exact (plain instruction isPart).measured

theorem leveled_lowerBody {role : Role} {resolution : Resolution} {checker : Checker} {body : Command}
    (resolves : Resolves resolution checker) (fine : (checkCommand checker body).2 = [])
    (permitted : checker.assertPermitted = true → role = .test) (start : Arena) :
    ∃ root grown, (lowerBody role resolution body).run start = (.ok root, grown) ∧
      ∃ heights, Leveled role body start grown root heights := by
  have built : Builds (Plain (FieldOf checker)) Inside start (lowerBody role resolution body) :=
    builds_lowerBody role resolves fine
  obtain ⟨root, grown, ran, adds, -⟩ := built
  refine ⟨root, grown, ran, ?_⟩
  have created : (newBlock (exitCode role)).run start =
      (.ok start.size, (start.newBlock (exitCode role)).1) := rfl
  have commandRan := (bind_of_ok created).symm.trans ran
  -- Heights before the routine do not matter: no edge leads there.
  have opens : Stacks (EndsMember role body) start.size (fun _ => 0) (Stands start.size 0) start
      (newBlock (exitCode role)) := stacks_newBlock (.inl rfl) (Nat.le_refl _)
  obtain ⟨opening, -, exitLevels, exitStands⟩ := opens.run created
  have reports : Reports (EndsMember role body) body := by
    intro position condition isPart
    cases allowed : checker.assertPermitted with
    | true => exact .inr ⟨permitted allowed, position, condition, isPart, rfl⟩
    | false => exact absurd isPart (assertFree_of_fine allowed fine position condition)
  obtain ⟨heights, carries, levels, rootStands⟩ :=
    (stacks_lowerCommand resolution body reports exitStands exitStands).run commandRan
  have allLevels : Levels (EndsMember role body) start.size heights start grown :=
    exitLevels.trans levels carries.framed.keeps carries.agree
  have graded : Graded grown root heights := by
    intro id path isPath
    obtain ⟨isNew, inside, here⟩ := allLevels.path rootStands isPath
    obtain ⟨code, transfer, holds⟩ := Arena.exists_holds inside
    have finished := adds.finished id code transfer isNew holds
    obtain ⟨block, found, rfl, rfl⟩ := holds
    exact ⟨here, block, found, Block.measured_of_code fun _ isPart => finished_measured finished isPart⟩
  refine ⟨heights, rootStands.height, carries.framed.keeps _ _ _ (Arena.holds_newBlock start _),
    ?_, ?_, ?_⟩
  · intro id code isNew holds
    have balanced := allLevels id code .exit isNew holds
    generalize heights id = height at balanced
    cases balanced with
    | exit isEnd => exact ⟨rfl, isEnd⟩
  · intro id path isPath
    obtain ⟨isNew, inside, here⟩ := allLevels.path rootStands isPath
    obtain ⟨code, transfer, holds⟩ := Arena.exists_holds inside
    have balanced := allLevels id code transfer isNew holds
    obtain ⟨block, found, rfl, rfl⟩ := holds
    exact ⟨isNew, here, block, found, balanced.steady fun code isEnd => isEnd.concludes⟩
  · intro machine frame callers world fuel empty
    refine (inStep_enter graded rfl .root ?_).run graded fuel
    simp [empty, rootStands.height]

theorem checked_member {declaration : ClassDeclaration} (accepted : Accepted declaration)
    {member : Member} (isMember : member ∈ (check declaration).members) :
    member.declaration ∈ declared declaration member.role ∧
      member.resolution =
        Resolution.none.after (Member.checkerFor member.role (check declaration).type) := by
  rw [accepted.members, List.mem_append, List.mem_map, List.mem_map] at isMember
  rcases isMember with ⟨fixture, isFixture, rfl⟩ | ⟨test, isTest, rfl⟩
  · exact ⟨isFixture, rfl⟩
  · exact ⟨isTest, rfl⟩

/-- Every test and every fixture of a class without errors is lowered, in any arena, to a graph whose
blocks have one height of the stack each. -/
theorem operand_stack_consistent {declaration : ClassDeclaration}
    (fine : (check declaration).diagnostics = []) {member : Member}
    (isMember : member ∈ (check declaration).members) (arena : Arena) :
    ∃ root grown,
      (lowerBody member.role member.resolution member.declaration.body).run arena =
        (.ok root, grown) ∧
      ∃ heights, Leveled member.role member.declaration.body arena grown root heights := by
  have accepted := accepted_of_no_errors fine
  obtain ⟨isDeclared, resolution⟩ := checked_member accepted isMember
  rw [resolution]
  refine leveled_lowerBody (resolves_after .none _) (accepted.body_fine isDeclared) ?_ arena
  exact fun permitted => of_decide_eq_true permitted

/-- A comparison that is stored, and one of two values that are both found by branches, at the end of a
loop with a return. -/
def dimmerClass : ClassDeclaration :=
  let level : Expression := .field .unknown "level"
  let on : Expression := .field .unknown "on"
  let low : Expression := .comparison .unknown .lessThan level (.int .unknown 3)
  let raise : Command :=
    .assign .unknown "level" (.binary .unknown .add (.int .unknown 1) level)
  { position := .unknown, name := "Dimmer"
    fields := [{ position := .unknown, name := "on", typeName := "boolean" },
      { position := .unknown, name := "level", typeName := "int" }]
    fixtures := [{ position := .unknown, name := "dim", body := .assign .unknown "on" low }]
    tests := [{
      position := .unknown, name := "lit"
      body := .seq .unknown
        (.loop .unknown (.and .unknown low (.not .unknown on))
          (.ifElse .unknown on (.ret .unknown) raise))
        (.assert .unknown (.comparison .unknown .equal low (.not .unknown on))) }] }

theorem operand_stack_consistent_dimmer :
    (check dimmerClass).diagnostics = [] ∧ (check dimmerClass).members.map Member.role =
      [.fixture, .test] ∧ ∀ member ∈ (check dimmerClass).members, ∃ root grown,
        (lowerBody member.role member.resolution member.declaration.body).run (.empty 0) =
          (.ok root, grown) ∧
        ∃ heights, Leveled member.role member.declaration.body (.empty 0) grown root heights :=
  ⟨rfl, rfl, fun _ isMember => operand_stack_consistent rfl isMember (.empty 0)⟩

end Assay.Lowering
