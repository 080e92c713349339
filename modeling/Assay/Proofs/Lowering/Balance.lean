import Assay.Proofs.Graph.Heights
import Assay.Proofs.Lowering.Growth
import Assay.Proofs.Syntax.Paths

/-!
Lowering keeps the stack in balance. The blocks that follow have their heights, and each new block gets
the height at which control comes to it, so that the heights agree along every new edge. Apart from the
new blocks, nothing in the arena changes but the number of edges that lead to a block.
-/

namespace Assay.Graph.Arena

/-- Every block is still there with its code and its transfer, and more edges may lead to it. -/
structure Framed (before after : Arena) : Prop where
  tag : after.tag = before.tag
  block : ∀ id old, before.get? id = some old → ∃ new, after.get? id = some new ∧
    new.code = old.code ∧ new.transfer = old.transfer ∧ old.incoming ≤ new.incoming

theorem Framed.refl (arena : Arena) : arena.Framed arena :=
  ⟨rfl, fun _ old found => ⟨old, found, rfl, rfl, Nat.le_refl _⟩⟩

theorem Framed.trans {first second third : Arena} (earlier : first.Framed second)
    (later : second.Framed third) : first.Framed third := by
  refine ⟨later.tag.trans earlier.tag, fun id old found => ?_⟩
  obtain ⟨middle, middleFound, middleCode, middleTransfer, fewer⟩ := earlier.block id old found
  obtain ⟨new, newFound, newCode, newTransfer, more⟩ := later.block id middle middleFound
  exact ⟨new, newFound, newCode.trans middleCode, newTransfer.trans middleTransfer,
    Nat.le_trans fewer more⟩

theorem Framed.keeps {before after : Arena} (framed : before.Framed after) : before.Keeps after := by
  rintro id code transfer ⟨old, found, rfl, rfl⟩
  obtain ⟨new, newFound, sameCode, sameTransfer, -⟩ := framed.block id old found
  exact ⟨new, newFound, sameCode, sameTransfer⟩

theorem framed_allocate (arena : Arena) (code : List Instruction) (transfer : Transfer) :
    arena.Framed (arena.allocate code transfer).1 := by
  refine ⟨rfl, fun id old found => ⟨old, ?_, rfl, rfl, Nat.le_refl _⟩⟩
  have inside : id < arena.size := (Array.getElem?_eq_some_iff.mp found).1
  rw [get?_allocate, if_neg (Nat.ne_of_lt inside), found]

theorem framed_countEdge (arena : Arena) (target : BlockIndex) :
    arena.Framed (arena.countEdge target) := by
  refine ⟨rfl, fun id old found => ?_⟩
  rw [get?_countEdge, found]
  refine ⟨_, rfl, ?_⟩
  split
  · exact ⟨rfl, rfl, Nat.le_succ _⟩
  · exact ⟨rfl, rfl, Nat.le_refl _⟩

theorem framed_branch (arena : Arena) (cond : Cond) (yes no : BlockIndex) :
    arena.Framed (arena.branch cond yes no).1 :=
  ((framed_allocate _ _ _).trans (framed_countEdge _ yes)).trans (framed_countEdge _ no)

theorem framed_prepend (arena : Arena) (code : List Instruction) (next : BlockIndex) :
    arena.Framed (arena.prepend code next).1 := by
  unfold prepend
  split
  · exact Framed.refl arena
  · exact (framed_allocate _ _ _).trans (framed_countEdge _ next)

theorem framed_loop {start last linked : Arena} {next : BlockIndex}
    (framed : (start.newBlock []).1.Framed last) (done : last.link start.size next = .ok linked) :
    start.Framed linked := by
  have opened : start.Framed (start.newBlock []).1 := framed_allocate start [] .exit
  have grown := opened.trans framed
  unfold link at done
  split at done
  · split at done
    · cases done
      refine ⟨grown.tag, fun id old found => ?_⟩
      obtain ⟨new, newFound, sameCode, sameTransfer, more⟩ := grown.block id old found
      have inside : id < start.size := (Array.getElem?_eq_some_iff.mp found).1
      have unchanged : ({ last with
          blocks := last.blocks.modify start.size fun block =>
            { block with transfer := .jump next } } : Arena).get? id = some new := by
        rw [← newFound]
        simp only [get?, Array.getElem?_modify, if_neg (Nat.ne_of_gt inside)]
      obtain ⟨final, finalFound, finalCode, finalTransfer, counted⟩ :=
        (framed_countEdge _ next).block id new unchanged
      exact ⟨final, finalFound, finalCode.trans sameCode, finalTransfer.trans sameTransfer,
        Nat.le_trans more counted⟩
    · cases done
  · cases done

end Assay.Graph.Arena

namespace Assay.Lowering

open Assay.Graph Syntax Typing

structure Carries (heights later : BlockIndex → Nat) (before after : Arena) : Prop where
  framed : before.Framed after
  agree : ∀ id < before.size, later id = heights id

/-- A lowering that only adds blocks. If it succeeds, there are heights for the new blocks at which they
are balanced, and the result has the property `result` at these heights. -/
structure Stacks {α : Type} (ends : List Instruction → Prop) (first : Nat) (heights : BlockIndex → Nat)
    (result : (BlockIndex → Nat) → Nat → α → Prop) (start : Arena) (lowering : Lower α) : Prop where
  framed : start.Framed (lowering.run start).2
  levels : ∀ value, (lowering.run start).1 = .ok value →
    ∃ later, (∀ id < start.size, later id = heights id) ∧
      Levels ends first later start (lowering.run start).2 ∧
      result later (lowering.run start).2.size value

def BothStand (first height : Nat) (heights : BlockIndex → Nat) (size : Nat)
    (targets : BlockIndex × BlockIndex) : Prop :=
  Stands first height heights size targets.1 ∧ Stands first height heights size targets.2

def Destination.Awaits (first height : Nat) (heights : BlockIndex → Nat) (size : Nat) :
    Destination → Prop
  | value next => Stands first (height + 1) heights size next
  | test yes no => Stands first height heights size yes ∧ Stands first height heights size no

section Rules

variable {ends : List Instruction → Prop} {first : Nat} {heights later : BlockIndex → Nat}
  {start middle : Arena} {α β : Type} {result : (BlockIndex → Nat) → Nat → α → Prop}

theorem Carries.stands {height : Nat} {id : BlockIndex} (carries : Carries heights later start middle)
    (stands : Stands first height heights start.size id) :
    Stands first height later middle.size id :=
  stands.kept carries.framed.keeps.size_le carries.agree

theorem Stacks.of_run {lowering : Lower α} {outcome : Except LoweringError α} {finish : Arena}
    (ran : lowering.run start = (outcome, finish)) (framed : start.Framed finish)
    (levels : ∀ value, outcome = .ok value → ∃ later, (∀ id < start.size, later id = heights id) ∧
      Levels ends first later start finish ∧ result later finish.size value) :
    Stacks ends first heights result start lowering := by
  constructor
  · rw [ran]
    exact framed
  · rw [ran]
    exact levels

theorem Stacks.run {lowering : Lower α} {value : α} {finish : Arena}
    (stacked : Stacks ends first heights result start lowering)
    (ran : lowering.run start = (.ok value, finish)) :
    ∃ later, Carries heights later start finish ∧ Levels ends first later start finish ∧
      result later finish.size value := by
  obtain ⟨framed, levels⟩ := stacked
  rw [ran] at framed levels
  obtain ⟨later, agree, leveled, isResult⟩ := levels value rfl
  exact ⟨later, ⟨framed, agree⟩, leveled, isResult⟩

theorem Stacks.failed {lowering : Lower α} {problem : LoweringError} {finish : Arena}
    (stacked : Stacks ends first heights result start lowering)
    (ran : lowering.run start = (.error problem, finish)) : start.Framed finish := by
  have framed := stacked.framed
  rw [ran] at framed
  exact framed

theorem stacks_pure {value : α} (isResult : result heights start.size value) :
    Stacks ends first heights result start (pure value) := by
  refine .of_run rfl (Arena.Framed.refl start) fun returned done => ?_
  cases done
  exact ⟨heights, fun _ _ => rfl, Levels.refl start, isResult⟩

theorem stacks_throw (problem : LoweringError) :
    Stacks ends first heights result start (throw problem) :=
  .of_run rfl (Arena.Framed.refl start) fun _ done => nomatch done

theorem Stacks.bind {within : (BlockIndex → Nat) → Nat → β → Prop} {lowering : Lower β}
    {second : β → Lower α} (stacked : Stacks ends first heights within start lowering)
    (rest : ∀ value middle later, Carries heights later start middle → within later middle.size value →
      Stacks ends first later result middle (second value)) :
    Stacks ends first heights result start (lowering >>= second) := by
  rcases ran : lowering.run start with ⟨problem | value, middle⟩
  · exact .of_run (bind_of_error ran) (stacked.failed ran) fun _ done => nomatch done
  · obtain ⟨later, carries, levels, isResult⟩ := stacked.run ran
    obtain ⟨framed, restLevels⟩ := rest value middle later carries isResult
    refine .of_run (bind_of_ok ran) (carries.framed.trans framed) fun returned done => ?_
    obtain ⟨last, agree, lastLevels, lastResult⟩ := restLevels returned done
    refine ⟨last, fun id inside => ?_, levels.trans lastLevels framed.keeps agree, lastResult⟩
    rw [agree id (Nat.lt_of_lt_of_le inside carries.framed.keeps.size_le), carries.agree id inside]

theorem stacks_allocate {operation : Arena → Arena × BlockIndex} {height : Nat} {code : List Instruction}
    {transfer : Transfer} (allocated : (operation start).2 = start.size)
    (framed : start.Framed (operation start).1)
    (grown : (operation start).1.size = start.size + 1)
    (levels : ∀ later, Levels ends first later start (start.allocate code transfer).1 →
      Levels ends first later start (operation start).1)
    (from_first : first ≤ start.size)
    (balanced : Balanced ends first heights start.size height code transfer) :
    Stacks ends first heights (Stands first height) start (allocate operation) := by
  let later : BlockIndex → Nat := fun id => if id = start.size then height else heights id
  have agree : ∀ id < start.size, later id = heights id :=
    fun id inside => if_neg (Nat.ne_of_lt inside)
  have here : later start.size = height := if_pos rfl
  refine .of_run rfl framed fun value done => ?_
  cases done
  refine ⟨later, agree, levels later (levels_allocate ?_), ?_⟩
  · rw [here]
    exact balanced.kept (Nat.le_succ _) agree
  · rw [allocated, grown]
    exact ⟨from_first, Nat.lt_succ_self _, here⟩

theorem stacks_newBlock {code : List Instruction} (isEnd : ends code) (from_first : first ≤ start.size) :
    Stacks ends first heights (Stands first 0) start (newBlock code) :=
  stacks_allocate rfl (Arena.framed_allocate _ _ _) (Arena.size_allocate _ _ _)
    (fun _ levels => levels) from_first (.exit isEnd)

theorem stacks_branch {cond : Cond} {height : Nat} {yes no : BlockIndex} (known : cond.isKnown = true)
    (yesStands : Stands first height heights start.size yes)
    (noStands : Stands first height heights start.size no) :
    Stacks ends first heights (Stands first (height + cond.operands)) start (branch cond yes no) := by
  have balanced : Balanced ends first heights start.size (height + cond.operands) []
      (.branch cond yes no) := .branch rfl known yesStands noStands
  have grown : (start.branch cond yes no).1.size = start.size + 1 := by
    simp only [Arena.branch, Arena.size_countEdge, Arena.size_allocate]
  exact stacks_allocate rfl (Arena.framed_branch _ _ _ _) grown
    (fun _ levels => (levels.countEdge yes).countEdge no) yesStands.first_le balanced

theorem stacks_prepend {code : List Instruction} {before after : Nat} {next : BlockIndex}
    (some : code ≠ []) (climbs : Climbs code before after)
    (stands : Stands first after heights start.size next) :
    Stacks ends first heights (Stands first before) start (prepend code next) := by
  have prepended : start.prepend code next =
      ((start.allocate code (.jump next)).1.countEdge next, start.size) := by
    have present : code.isEmpty = false := by simpa using some
    simp only [Arena.prepend, present, Bool.false_eq_true, if_false]
    rfl
  refine stacks_allocate ?_ (Arena.framed_prepend _ _ _) ?_ ?_ stands.first_le (.jump climbs stands)
  · rw [prepended]
  · rw [prepended, Arena.size_countEdge, Arena.size_allocate]
  · intro later levels
    rw [prepended]
    exact levels.countEdge next

theorem stacks_push {height : Nat} {next : BlockIndex} (value : Int64)
    (stands : Stands first (height + 1) heights start.size next) :
    Stacks ends first heights (Stands first height) start (prepend [.const value] next) :=
  stacks_prepend (by simp) ⟨rfl, Nat.zero_le _, rfl⟩ stands

end Rules

section Bodies

variable {ends : List Instruction → Prop} {first : Nat} {heights : BlockIndex → Nat} {start : Arena}

theorem stacks_consumer {height : Nat} {destination : Destination}
    (awaits : destination.Awaits first height heights start.size) :
    Stacks ends first heights (Stands first (height + 1)) start destination.consumer := by
  cases destination with
  | value next => exact stacks_pure awaits
  | test yes no =>
      have known : Cond.ifTrue.isKnown = true := rfl
      exact stacks_branch known awaits.1 awaits.2

theorem stacks_branches {height : Nat} {destination : Destination}
    (awaits : destination.Awaits first height heights start.size) :
    Stacks ends first heights (BothStand first height) start destination.branches := by
  cases destination with
  | value next =>
      refine (stacks_push 1 awaits).bind fun yes middle later carries yesStands => ?_
      refine (stacks_push 0 (carries.stands awaits)).bind fun no last final carries noStands => ?_
      exact stacks_pure ⟨carries.stands yesStands, noStands⟩
  | test yes no => exact stacks_pure awaits

theorem operands_cond (operator : ComparisonOperator) : operator.cond.operands = 2 := by
  cases operator <;> rfl

theorem stacks_lowerExpression (resolution : Resolution) (expression : Expression) {height : Nat}
    {destination : Destination} (awaits : destination.Awaits first height heights start.size) :
    Stacks ends first heights (Stands first height) start
      (lowerExpression resolution expression destination) := by
  induction expression generalizing destination start heights height with
  | int position value =>
      rw [lowerExpression]
      exact (stacks_consumer awaits).bind fun next middle later _ stands => stacks_push value stands
  | boolean position value =>
      cases destination with
      | value next =>
          rw [lowerExpression]
          exact stacks_push _ awaits
      | test yes no =>
          rw [lowerExpression]
          refine stacks_pure ?_
          cases value with
          | true => exact awaits.1
          | false => exact awaits.2
  | field position name =>
      rw [lowerExpression]
      refine (stacks_consumer awaits).bind fun next middle later _ stands => ?_
      split
      · refine stacks_prepend (by simp) ?_ stands
        exact ⟨rfl, Nat.zero_le _, rfl, Nat.le_add_left _ _, rfl⟩
      · exact stacks_throw _
  | binary position operator left right leftIh rightIh =>
      rw [lowerExpression]
      refine (stacks_consumer awaits).bind fun next one oneHeights _ stands => ?_
      have climbs : Climbs [.arithmetic operator.arithmetic] (height + 1 + 1) (height + 1) :=
        ⟨rfl, Nat.le_add_left 2 height, rfl⟩
      refine (stacks_prepend (by simp) climbs stands).bind
        fun operation two twoHeights _ operationStands => ?_
      have rightAwaits : (Destination.value operation).Awaits first (height + 1) twoHeights two.size :=
        operationStands
      exact (rightIh rightAwaits).bind fun second three threeHeights _ secondStands =>
        leftIh secondStands
  | comparison position operator left right leftIh rightIh =>
      rw [lowerExpression]
      refine (stacks_branches awaits).bind fun targets one oneHeights _ stand => ?_
      refine (stacks_branch (isKnown_cond operator) stand.1 stand.2).bind
        fun decision two twoHeights _ decisionStands => ?_
      rw [operands_cond] at decisionStands
      have rightAwaits : (Destination.value decision).Awaits first (height + 1) twoHeights two.size :=
        decisionStands
      exact (rightIh rightAwaits).bind fun second three threeHeights _ secondStands =>
        leftIh secondStands
  | not position operand ih =>
      rw [lowerExpression]
      exact (stacks_branches awaits).bind fun targets middle later _ stand => ih stand.symm
  | and position left right leftIh rightIh =>
      rw [lowerExpression]
      refine (stacks_branches awaits).bind fun targets middle later _ stand => ?_
      have rightAwaits : (Destination.test targets.1 targets.2).Awaits first height later
        middle.size := stand
      exact (rightIh rightAwaits).bind fun second last final carries secondStands =>
        leftIh ⟨secondStands, carries.stands stand.2⟩
  | or position left right leftIh rightIh =>
      rw [lowerExpression]
      refine (stacks_branches awaits).bind fun targets middle later _ stand => ?_
      have rightAwaits : (Destination.test targets.1 targets.2).Awaits first height later
        middle.size := stand
      exact (rightIh rightAwaits).bind fun second last final carries secondStands =>
        leftIh ⟨carries.stands stand.1, secondStands⟩

theorem stacks_loop {next : BlockIndex} {body : BlockIndex → Lower BlockIndex}
    {condition : BlockIndex → Lower BlockIndex} (nextStands : Stands first 0 heights start.size next)
    (bodyStacks : ∀ arena pivot later, Carries heights later start arena →
      Stands first 0 later arena.size pivot →
      Stacks ends first later (Stands first 0) arena (body pivot))
    (conditionStacks : ∀ arena round later, Stands first 0 later arena.size round →
      Stands first 0 later arena.size next →
      Stacks ends first later (Stands first 0) arena (condition round)) :
    Stacks ends first heights (Stands first 0) start (do
      let pivot ← newBlock []
      let round ← body pivot
      let test ← condition round
      link pivot test
      pure pivot) := by
  let opening : BlockIndex → Nat := fun id => if id = start.size then 0 else heights id
  have created : (newBlock []).run start = (.ok start.size, (start.newBlock []).1) := rfl
  have opened : Carries heights opening start (start.newBlock []).1 :=
    ⟨Arena.framed_allocate _ _ _, fun id inside => if_neg (Nat.ne_of_lt inside)⟩
  have pivotStands : Stands first 0 opening (start.newBlock []).1.size start.size :=
    ⟨nextStands.first_le, (Arena.holds_newBlock start []).lt_size, if_pos rfl⟩
  have bodyStacked := bodyStacks _ start.size opening opened pivotStands
  rcases bodyRan : (body start.size).run (start.newBlock []).1 with ⟨problem | round, middle⟩
  · exact .of_run ((bind_of_ok created).trans (bind_of_error bodyRan))
      (opened.framed.trans (bodyStacked.failed bodyRan)) fun _ done => nomatch done
  obtain ⟨inner, bodyCarries, bodyLevels, roundStands⟩ := bodyStacked.run bodyRan
  have conditionStacked := conditionStacks middle round inner roundStands
    (bodyCarries.stands (opened.stands nextStands))
  rcases conditionRan : (condition round).run middle with ⟨problem | test, last⟩
  · exact .of_run (((bind_of_ok created).trans (bind_of_ok bodyRan)).trans (bind_of_error conditionRan))
      (opened.framed.trans (bodyCarries.framed.trans (conditionStacked.failed conditionRan)))
      fun _ done => nomatch done
  obtain ⟨final, conditionCarries, conditionLevels, testStands⟩ := conditionStacked.run conditionRan
  have grown : (start.newBlock []).1.Framed last :=
    bodyCarries.framed.trans conditionCarries.framed
  obtain ⟨linked, linkDone, -, larger, sameSize, holds_iff⟩ := Arena.keeps_loop grown.keeps test
  have closed : (link start.size test).run last = (.ok (), linked) := by rw [link_run, linkDone]
  refine .of_run (((bind_of_ok created).trans (bind_of_ok bodyRan)).trans
    ((bind_of_ok conditionRan).trans (bind_of_ok closed))) (Arena.framed_loop grown linkDone)
    fun value done => ?_
  cases done
  have pivotFinal : Stands first 0 final last.size start.size :=
    conditionCarries.stands (bodyCarries.stands pivotStands)
  have levels : Levels ends first final (start.newBlock []).1 last :=
    bodyLevels.trans conditionLevels conditionCarries.framed.keeps conditionCarries.agree
  have nextFinal : Stands first (final start.size) final last.size test := by
    rw [pivotFinal.height]
    exact testStands
  refine ⟨final, fun id inside => ?_, levels_loop levels sameSize holds_iff nextFinal, ?_⟩
  · have inOpened := Nat.lt_of_lt_of_le inside opened.framed.keeps.size_le
    rw [conditionCarries.agree id (Nat.lt_of_lt_of_le inOpened bodyCarries.framed.keeps.size_le),
      bodyCarries.agree id inOpened, opened.agree id inside]
  · rw [sameSize]
    exact pivotFinal

def Reports (ends : List Instruction → Prop) (command : Command) : Prop :=
  ∀ position condition, PartOf (.assert position condition) command →
    ends (verdict (failureMessage position) 1)

theorem Reports.part {inner command : Command} (reports : Reports ends command)
    (inside : ∀ {part}, PartOf part inner → PartOf part command) : Reports ends inner :=
  fun position condition isPart => reports position condition (inside isPart)

/-- Commands start and end with an empty stack. -/
theorem stacks_lowerCommand (resolution : Resolution) (command : Command) {exit next : BlockIndex}
    (reports : Reports ends command)
    (exitStands : Stands first 0 heights start.size exit)
    (nextStands : Stands first 0 heights start.size next) :
    Stacks ends first heights (Stands first 0) start (lowerCommand resolution exit command next) := by
  induction command generalizing next start heights with
  | skip position =>
      rw [lowerCommand]
      exact stacks_pure nextStands
  | seq position one two oneIh twoIh =>
      rw [lowerCommand]
      refine (twoIh (reports.part .seqSecond) exitStands nextStands).bind
        fun rest middle later carries restStands => ?_
      exact oneIh (reports.part .seqFirst) (carries.stands exitStands) restStands
  | ifThen position condition yes ih =>
      rw [lowerCommand]
      refine (ih (reports.part .ifThen) exitStands nextStands).bind
        fun whenTrue middle later carries yesStands => ?_
      exact stacks_lowerExpression resolution condition ⟨yesStands, carries.stands nextStands⟩
  | ifElse position condition yes no yesIh noIh =>
      rw [lowerCommand]
      refine (yesIh (reports.part .ifElseTrue) exitStands nextStands).bind
        fun whenTrue middle later carries yesStands => ?_
      refine (noIh (reports.part .ifElseFalse) (carries.stands exitStands)
        (carries.stands nextStands)).bind fun whenFalse last final carries noStands => ?_
      exact stacks_lowerExpression resolution condition ⟨carries.stands yesStands, noStands⟩
  | loop position condition body ih =>
      rw [lowerCommand]
      refine stacks_loop nextStands ?_ ?_
      · intro arena pivot later carries pivotStands
        exact ih (reports.part .loop) (carries.stands exitStands) pivotStands
      · intro arena round later roundStands nextStands
        exact stacks_lowerExpression resolution condition ⟨roundStands, nextStands⟩
  | ret position =>
      rw [lowerCommand]
      exact stacks_pure exitStands
  | assign position field value =>
      rw [lowerCommand]
      split
      · exact stacks_throw _
      · rename_i owner _
        have stores : Climbs [.putField owner field] 2 0 := ⟨rfl, Nat.le_refl 2, rfl⟩
        refine (stacks_prepend (by simp) stores nextStands).bind
          fun store one oneHeights _ storeStands => ?_
        have awaits : (Destination.value store).Awaits first 1 oneHeights one.size := storeStands
        refine (stacks_lowerExpression resolution value awaits).bind
          fun compute two twoHeights _ computeStands => ?_
        exact stacks_prepend (by simp) ⟨rfl, Nat.zero_le _, rfl⟩ computeStands
  | assert position condition =>
      rw [lowerCommand]
      split
      · refine (stacks_newBlock (reports position condition (.self _)) nextStands.first_le).bind
          fun failed middle later carries failedStands => ?_
        exact stacks_lowerExpression resolution condition ⟨carries.stands nextStands, failedStands⟩
      · exact stacks_throw _

end Bodies

theorem verdict_concludes (message : String) (status : Int64) :
    Concludes .int (verdict message status) :=
  ⟨[.newString message, outputCall, .const status], rfl, rfl, Nat.zero_le _, rfl, Nat.le_refl 1, rfl,
    Nat.zero_le _, rfl⟩

end Assay.Lowering
