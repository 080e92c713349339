import Assay.Proofs.Graph.Heights

/-!
Heights of the stack along runs. A walk through a graph whose blocks have heights has, at every moment, as
many values on the stack of its frame as its place in the graph says.
-/

namespace Assay.Graph

open Machine

def Placed (graph : Arena) (root : BlockIndex) (heights : BlockIndex → Nat) (code : List Instruction)
    (transfer : Transfer) (frame : Frame) : Prop :=
  ∃ id path block before, Path graph root id path ∧ graph.get? id = some block ∧
    block.code = before ++ code ∧ block.transfer = transfer ∧
    (frame.stack.length : Int) = heights id + codeRise before

/-- The frame of the walk is placed where the walk is. While it waits for a call, it waits for no
result. -/
def InStep (graph : Arena) (root : BlockIndex) (heights : BlockIndex → Nat) (depth : Nat) (walk : Walk) :
    Prop :=
  ∀ frame callers world own, walk.state = .running frame callers world →
    frameAt? depth (frame :: callers) = some own →
    Placed graph root heights walk.code walk.transfer own ∧
      (depth < callers.length → own.keepsResult = false)

section Calls

variable {machine : Machine} {depth : Nat} {frame next own : Frame} {callers others : List Frame}
  {world after : World}

theorem frameAt?_here (here : callers.length = depth) :
    frameAt? depth (frame :: callers) = some frame :=
  if_pos here

theorem frameAt?_above (inside : depth < callers.length) :
    frameAt? depth (frame :: callers) = frameAt? depth callers :=
  if_neg (Nat.ne_of_gt inside)

theorem frameAt?_short {frames : List Frame} (short : frames.length ≤ depth) :
    frameAt? depth frames = none := by
  induction frames with
  | nil => rfl
  | cons frame callers ih =>
      simp only [List.length_cons] at short
      rw [frameAt?, if_neg (by omega), ih (by omega)]

theorem exists_frameAt? {frames : List Frame} (inside : depth < frames.length) :
    ∃ own, frameAt? depth frames = some own := by
  induction frames with
  | nil => simp at inside
  | cons frame callers ih =>
      by_cases here : callers.length = depth
      · exact ⟨frame, frameAt?_here here⟩
      · simp only [List.length_cons] at inside
        rw [frameAt?, if_neg here]
        exact ih (by omega)

theorem enterCall_running {image : Bytecode.ClassImage} {routine : Bytecode.Routine}
    {args : List Value}
    (done : machine.enterCall callers world image routine args = .running next others after) :
    others = callers := by
  unfold enterCall at done
  split at done
  · cases done
  · split at done
    · cases done
    · split at done
      · cases done
        rfl
      · cases done

theorem absorb_above {result : Except Fault (World × Effect)} (inside : depth < callers.length)
    (waits : frameAt? depth callers = some own) (drops : own.keepsResult = false)
    (done : machine.absorb frame callers world result = .running next others after) :
    frameAt? depth (next :: others) = some own := by
  rcases result with cause | ⟨middle, effect⟩
  · cases done
  · cases effect with
    | proceed moved =>
        cases done
        rw [frameAt?_above inside, waits]
    | call caller image routine args =>
        obtain rfl := enterCall_running done
        rw [frameAt?_above (Nat.lt_succ_of_lt inside), frameAt?_above inside, waits]
    | finish value =>
        cases callers with
        | nil => cases done
        | cons caller rest =>
            cases done
            by_cases here : others.length = depth
            · obtain rfl : caller = own := Option.some.inj ((frameAt?_here here).symm.trans waits)
              rw [drops]
              exact frameAt?_here here
            · rw [frameAt?, if_neg here] at waits ⊢
              exact waits
    | crash => cases done

end Calls

section Run

variable {graph : Arena} {root : BlockIndex} {heights : BlockIndex → Nat} {machine : Machine} {depth : Nat}
  {frame : Frame} {callers : List Frame} {world : World} {transfer : Transfer}

def Graded (graph : Arena) (root : BlockIndex) (heights : BlockIndex → Nat) : Prop :=
  ∀ id path, Path graph root id path → graph.heightAlong path = heights id ∧
    ∃ block, graph.get? id = some block ∧ block.Measured

theorem inStep_stopped {code : List Instruction} {outcome : Outcome} :
    InStep graph root heights depth ⟨code, transfer, .stopped outcome world⟩ :=
  fun _ _ _ _ running => nomatch running

theorem inStep_enter (graded : Graded graph root heights) (here : callers.length = depth)
    {id : BlockIndex} {path : List BlockIndex} (isPath : Path graph root id path)
    (height : (frame.stack.length : Int) = heights id) :
    InStep graph root heights depth (.enter graph id (.running frame callers world)) := by
  intro other others later own running isOwn
  rw [Walk.enter_state] at running
  cases running
  obtain rfl : frame = own := Option.some.inj ((frameAt?_here here).symm.trans isOwn)
  obtain ⟨-, block, found, -⟩ := graded id path isPath
  refine ⟨⟨id, path, block, [], isPath, found, ?_, ?_, ?_⟩, fun above => by omega⟩
  · simp only [Walk.enter, found, List.nil_append]
  · simp only [Walk.enter, found]
  · simpa [codeRise] using height

theorem inStep_perform (graded : Graded graph root heights) (here : callers.length = depth)
    {instruction : Instruction} {rest : List Instruction}
    (placed : Placed graph root heights (instruction :: rest) transfer frame) :
    InStep graph root heights depth ⟨rest, transfer, machine.absorb frame callers world
      (perform machine.program frame world instruction)⟩ := by
  obtain ⟨id, path, block, before, isPath, found, isCode, isTransfer, height⟩ := placed
  obtain ⟨-, other, otherFound, measured, -⟩ := graded id path isPath
  obtain rfl : block = other := Option.some.inj (found.symm.trans otherFound)
  have isMeasured := measured instruction (by simp [isCode])
  have moved : ∀ next : Frame,
      next.stack.length + instruction.pops = frame.stack.length + instruction.pushes →
      Placed graph root heights rest transfer next := by
    intro next length
    refine ⟨id, path, block, before ++ [instruction], isPath, found, by simp [isCode], isTransfer, ?_⟩
    rw [codeRise_append]
    simp only [codeRise, Instruction.rise]
    omega
  intro next others after own running isOwn
  dsimp only at running
  rcases performed : perform machine.program frame world instruction with cause | ⟨middle, effect⟩
  · rw [performed] at running
    cases running
  · have effectMeasured := isMeasured _ _ _ _ _ performed
    rw [performed] at running
    cases effect with
    | proceed later =>
        cases running
        obtain rfl : next = own := Option.some.inj ((frameAt?_here here).symm.trans isOwn)
        exact ⟨moved next effectMeasured, fun above => by omega⟩
    | call caller image routine args =>
        obtain rfl := enterCall_running running
        rw [frameAt?_above (by simp [here]), frameAt?_here here] at isOwn
        obtain rfl := Option.some.inj isOwn
        exact ⟨moved caller effectMeasured.1, fun _ => effectMeasured.2⟩
    | finish value =>
        cases callers with
        | nil => cases running
        | cons caller below =>
            cases running
            rw [frameAt?_short] at isOwn
            · cases isOwn
            · exact Nat.le_of_eq here
    | crash => cases running

theorem inStep_transfer (graded : Graded graph root heights) (here : callers.length = depth)
    (placed : Placed graph root heights [] transfer frame) :
    InStep graph root heights depth
      (Walk.advance machine graph ⟨[], transfer, .running frame callers world⟩ frame callers world) := by
  obtain ⟨id, path, block, before, isPath, found, isCode, rfl, height⟩ := placed
  rw [List.append_nil] at isCode
  obtain ⟨level, other, otherFound, -, decided⟩ := graded id path isPath
  obtain rfl : block = other := Option.some.inj (found.symm.trans otherFound)
  have follows : ∀ next ∈ block.successors, ∀ later : Frame,
      frame.stack.length = later.stack.length + block.cond.operands →
      InStep graph root heights depth (.enter graph next (.running later callers world)) := by
    intro next isNext later length
    have isEdge : next ∈ graph.successors id := by
      rw [Arena.successors_of_get found]
      exact isNext
    have nextPath := Path.edge isPath isEdge
    refine inStep_enter graded here nextPath ?_
    rw [← (graded next _ nextPath).1]
    simp only [Arena.heightAlong, level, Arena.rise, found, Block.rise, isCode]
    omega
  cases goes : block.transfer with
  | exit => exact inStep_stopped
  | jump next =>
      refine follows next ?_ frame ?_
      · simp [Block.successors, Transfer.successors, goes]
      · simp [Block.cond, Transfer.cond, goes, Cond.operands]
  | branch cond yes no =>
      have isCond : block.cond = cond := by simp [Block.cond, Transfer.cond, goes]
      simp only [Walk.advance]
      rcases isDecided : cond.decide frame with cause | ⟨holds, later⟩
      · exact inStep_stopped
      · refine follows _ ?_ later (decided frame holds later (by rw [isCond]; exact isDecided))
        simp only [Block.successors, Transfer.successors, goes]
        split
        · simp
        · simp

/-- One step keeps the stack in step with the place of the walk. -/
theorem InStep.step (graded : Graded graph root heights) {walk : Walk}
    (inStep : InStep graph root heights depth walk) :
    InStep graph root heights depth (walk.step machine graph depth) := by
  obtain ⟨code, transfer, state⟩ := walk
  cases state with
  | stopped outcome world => exact inStep_stopped
  | running frame callers world =>
      by_cases here : callers.length = depth
      · obtain ⟨placed, -⟩ := inStep frame callers world frame rfl (frameAt?_here here)
        simp only [Walk.step, here, if_true]
        cases code with
        | nil => exact inStep_transfer graded here placed
        | cons instruction rest => exact inStep_perform graded here placed
      · by_cases above : depth < callers.length
        · simp only [Walk.step, here, above, if_false, if_true]
          intro next others after own running isOwn
          obtain ⟨waiting, waits⟩ := exists_frameAt? above
          obtain ⟨placed, drops⟩ := inStep frame callers world waiting rfl
            ((frameAt?_above above).trans waits)
          rw [step_running] at running
          have same := absorb_above above waits (drops above) running
          obtain rfl : waiting = own := Option.some.inj (same.symm.trans isOwn)
          exact ⟨placed, fun _ => drops above⟩
        · simp only [Walk.step, here, above, if_false]
          exact inStep

theorem InStep.run (graded : Graded graph root heights) {walk : Walk}
    (inStep : InStep graph root heights depth walk) (fuel : Nat) :
    InStep graph root heights depth (Walk.run machine graph depth fuel walk) := by
  induction fuel generalizing walk with
  | zero => exact inStep
  | succ fuel ih => exact ih (inStep.step graded)

end Run

end Assay.Graph
