import Assay.Proofs.Graph.Extension
import Assay.Proofs.Graph.Meaning

/-!
How a walk through a graph goes on: what it leads to, which blocks it passes on the way, and how long
something stays true along it.
-/

namespace Assay.Graph

open Machine

def Leads (machine : Machine) (arena : Arena) (depth : Nat) (property : State → Prop)
    (start finish : Walk) : Prop :=
  LeadsBy (Walk.run machine arena depth) (fun walk => property walk.state) start finish

def Lasts (machine : Machine) (arena : Arena) (depth : Nat) (property : State → Prop) (fuel : Nat)
    (walk : Walk) : Prop :=
  LastsBy (Walk.run machine arena depth) (fun walk => property walk.state) fuel walk

variable {machine : Machine} {arena : Arena} {depth : Nat} {property : State → Prop}

theorem Leads.refl (walk : Walk) : Leads machine arena depth property walk walk :=
  ⟨0, rfl, fun _ earlier => absurd earlier (Nat.not_lt_zero _)⟩

theorem Leads.step {start finish : Walk} (stepped : start.step machine arena depth = finish)
    (holds : property start.state) : Leads machine arena depth property start finish :=
  LeadsBy.once stepped holds

theorem Leads.trans {first second third : Walk}
    (earlier : Leads machine arena depth property first second)
    (later : Leads machine arena depth property second third) :
    Leads machine arena depth property first third :=
  LeadsBy.trans Walk.run_add earlier later

theorem Leads.lasts {start finish : Walk} {fuel : Nat}
    (leads : Leads machine arena depth property start finish)
    (lasts : Lasts machine arena depth property fuel finish) :
    Lasts machine arena depth property fuel start :=
  LeadsBy.lasts Walk.run_add leads lasts

theorem Lasts.zero {walk : Walk} (holds : property walk.state) :
    Lasts machine arena depth property 0 walk := by
  intro number bound
  obtain rfl : number = 0 := by omega
  exact holds

theorem Lasts.succ {walk : Walk} {fuel : Nat} (holds : property walk.state)
    (lasts : Lasts machine arena depth property fuel (walk.step machine arena depth)) :
    Lasts machine arena depth property (fuel + 1) walk := by
  intro number bound
  cases number with
  | zero => exact holds
  | succ number => exact lasts number (by omega)

theorem Lasts.le {walk : Walk} {fuel less : Nat}
    (lasts : Lasts machine arena depth property fuel walk) (fewer : less ≤ fuel) :
    Lasts machine arena depth property less walk :=
  fun number bound => lasts number (by omega)

def HasCode (arena : Arena) (id : BlockIndex) (code : List Instruction) : Prop :=
  ∃ transfer, arena.Holds id code transfer

theorem HasCode.extends {before after : Arena} {id : BlockIndex} {code : List Instruction}
    (has : HasCode before id code) (extended : before.Extends after) : HasCode after id code := by
  obtain ⟨transfer, block, found, rfl, rfl⟩ := has
  obtain ⟨later, laterFound, sameCode, -⟩ := extended id block found
  exact ⟨later.transfer, later, laterFound, sameCode, rfl⟩

theorem Walk.enter_holds {id : BlockIndex} {code : List Instruction} {transfer : Transfer}
    (holds : arena.Holds id code transfer) (state : State) :
    Walk.enter arena id state = { code, transfer, state } := by
  obtain ⟨block, found, rfl, rfl⟩ := holds
  simp only [Walk.enter, found]

def Walk.next? (depth : Nat) (walk : Walk) : Option BlockIndex :=
  match walk.code, walk.state with
  | [], .running frame callers _ =>
    if callers.length = depth then
      match walk.transfer with
      | .exit => none
      | .jump next => some next
      | .branch cond yes no =>
        match cond.decide frame with
        | .error _ => none
        | .ok (holds, _) => some (if holds then yes else no)
    else none
  | _, _ => none

def Walk.entered (machine : Machine) (arena : Arena) (depth : Nat) : Nat → Walk → List BlockIndex
  | 0, _ => []
  | fuel + 1, walk =>
    (walk.next? depth).toList ++ entered machine arena depth fuel (walk.step machine arena depth)

theorem Walk.entered_add (machine : Machine) (arena : Arena) (depth first second : Nat)
    (walk : Walk) :
    Walk.entered machine arena depth (first + second) walk =
      Walk.entered machine arena depth first walk ++
        Walk.entered machine arena depth second (Walk.run machine arena depth first walk) := by
  induction first generalizing walk with
  | zero => simp [Walk.entered, Walk.run]
  | succ first ih =>
      rw [Nat.succ_add]
      simp only [Walk.entered, Walk.run, ih, List.append_assoc]

def Passes (machine : Machine) (arena : Arena) (depth : Nat) (property : State → Prop)
    (blocks : List BlockIndex) (start finish : Walk) : Prop :=
  ∃ fuel, Walk.run machine arena depth fuel start = finish ∧
    (∀ earlier < fuel, property (Walk.run machine arena depth earlier start).state) ∧
    Walk.entered machine arena depth fuel start = blocks

theorem Passes.leads {blocks : List BlockIndex} {start finish : Walk}
    (passes : Passes machine arena depth property blocks start finish) :
    Leads machine arena depth property start finish := by
  obtain ⟨fuel, ran, before, -⟩ := passes
  exact ⟨fuel, ran, before⟩

theorem Passes.refl (walk : Walk) : Passes machine arena depth property [] walk walk :=
  ⟨0, rfl, fun _ earlier => absurd earlier (Nat.not_lt_zero _), rfl⟩

theorem Passes.step {start finish : Walk} (stepped : start.step machine arena depth = finish)
    (holds : property start.state) :
    Passes machine arena depth property (start.next? depth).toList start finish := by
  refine ⟨1, stepped, fun earlier first => ?_, by simp [Walk.entered]⟩
  obtain rfl : earlier = 0 := by omega
  exact holds

theorem Passes.trans {blocks more : List BlockIndex} {first second third : Walk}
    (earlier : Passes machine arena depth property blocks first second)
    (later : Passes machine arena depth property more second third) :
    Passes machine arena depth property (blocks ++ more) first third := by
  obtain ⟨fuel, ran, before, passed⟩ := earlier
  obtain ⟨further, ranOn, after, passedOn⟩ := later
  refine ⟨fuel + further, by rw [Walk.run_add, ran, ranOn], ?_, ?_⟩
  · exact @before_add _ _ (fun walk => property walk.state) Walk.run_add _ _ _ _ ran before after
  · rw [Walk.entered_add, ran, passed, passedOn]

/-- The walk that comes to one block comes to another one in the end. Up to there every state has the
property, and every block is numbered from `bound` on. -/
def Crosses (machine : Machine) (arena : Arena) (depth : Nat) (property : State → Prop)
    (bound : Nat) (root : BlockIndex) (start : State) (target : BlockIndex) (finish : State) : Prop :=
  ∃ path blocks, Passes machine arena depth property blocks (.enter arena root start)
      (.enter arena target finish) ∧
    root :: blocks = path ++ [target] ∧ ∀ id ∈ path, bound ≤ id

section Crossing

variable {bound : Nat} {first second third : BlockIndex} {start middle finish : State}

theorem Crosses.leads
    (crosses : Crosses machine arena depth property bound first start second finish) :
    Leads machine arena depth property (.enter arena first start) (.enter arena second finish) := by
  obtain ⟨path, blocks, passes, -⟩ := crosses
  exact passes.leads

theorem Crosses.refl (id : BlockIndex) (state : State) :
    Crosses machine arena depth property bound id state id state :=
  ⟨[], [], Passes.refl _, rfl, by simp⟩

theorem Crosses.block (new : bound ≤ first)
    (passes : Passes machine arena depth property [second] (.enter arena first start)
      (.enter arena second finish)) :
    Crosses machine arena depth property bound first start second finish :=
  ⟨[first], [second], passes, rfl, by simpa using new⟩

theorem Crosses.trans
    (earlier : Crosses machine arena depth property bound first start second middle)
    (later : Crosses machine arena depth property bound second middle third finish) :
    Crosses machine arena depth property bound first start third finish := by
  obtain ⟨path, blocks, passes, isPath, new⟩ := earlier
  obtain ⟨further, more, passesOn, isFurther, newer⟩ := later
  refine ⟨path ++ further, blocks ++ more, passes.trans passesOn, ?_, ?_⟩
  · calc
      first :: (blocks ++ more) = path ++ second :: more := by
        rw [← List.cons_append, isPath, List.append_assoc, List.singleton_append]
      _ = path ++ further ++ [third] := by rw [isFurther, List.append_assoc]
  · intro id passed
    rcases List.mem_append.mp passed with isEarly | isLate
    · exact new id isEarly
    · exact newer id isLate

end Crossing

variable {frame next : Frame} {callers : List Frame} {world after : World}

theorem Walk.step_instruction (here : callers.length = depth) (instruction : Instruction)
    (code : List Instruction) (transfer : Transfer) :
    (Walk.mk (instruction :: code) transfer (.running frame callers world)).step machine arena
      depth =
      ⟨code, transfer, machine.absorb frame callers world
        (perform machine.program frame world instruction)⟩ := by
  simp only [Walk.step, here, if_true, Walk.advance]

theorem Passes.instruction (here : callers.length = depth) {instruction : Instruction}
    {code : List Instruction} {transfer : Transfer}
    (performed : perform machine.program frame world instruction = .ok (after, .proceed next))
    (holds : property (.running frame callers world)) :
    Passes machine arena depth property []
      ⟨instruction :: code, transfer, .running frame callers world⟩
      ⟨code, transfer, .running next callers after⟩ := by
  refine Passes.step ?_ holds
  rw [Walk.step_instruction here, performed]
  rfl

theorem Passes.jump (here : callers.length = depth) (id : BlockIndex)
    (holds : property (.running frame callers world)) :
    Passes machine arena depth property [id] ⟨[], .jump id, .running frame callers world⟩
      (.enter arena id (.running frame callers world)) := by
  have comes : Walk.next? depth ⟨[], .jump id, .running frame callers world⟩ = some id := by
    simp only [Walk.next?, here, if_true]
  have stepped : (Walk.mk [] (.jump id) (.running frame callers world)).step machine arena depth =
      .enter arena id (.running frame callers world) := by
    simp only [Walk.step, here, if_true, Walk.advance]
  have passes := Passes.step stepped holds
  rw [comes] at passes
  exact passes

theorem Passes.branch (here : callers.length = depth) {cond : Cond} (yes no : BlockIndex)
    {chosen : Bool} (decided : cond.decide frame = .ok (chosen, next))
    (holds : property (.running frame callers world)) :
    Passes machine arena depth property [if chosen then yes else no]
      ⟨[], .branch cond yes no, .running frame callers world⟩
      (.enter arena (if chosen then yes else no) (.running next callers world)) := by
  have comes : Walk.next? depth ⟨[], .branch cond yes no, .running frame callers world⟩ =
      some (if chosen then yes else no) := by
    simp only [Walk.next?, here, if_true, decided]
  have stepped : (Walk.mk [] (.branch cond yes no) (.running frame callers world)).step machine
      arena depth = .enter arena (if chosen then yes else no) (.running next callers world) := by
    simp only [Walk.step, here, if_true, Walk.advance, decided]
  have passes := Passes.step stepped holds
  rw [comes] at passes
  exact passes

theorem Leads.instruction (here : callers.length = depth) {instruction : Instruction}
    {code : List Instruction} {transfer : Transfer}
    (performed : perform machine.program frame world instruction = .ok (after, .proceed next))
    (holds : property (.running frame callers world)) :
    Leads machine arena depth property
      ⟨instruction :: code, transfer, .running frame callers world⟩
      ⟨code, transfer, .running next callers after⟩ :=
  (Passes.instruction here performed holds).leads

theorem Leads.jump (here : callers.length = depth) (id : BlockIndex)
    (holds : property (.running frame callers world)) :
    Leads machine arena depth property ⟨[], .jump id, .running frame callers world⟩
      (.enter arena id (.running frame callers world)) :=
  (Passes.jump here id holds).leads

end Assay.Graph
