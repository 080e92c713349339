import Assay.Proofs.Assembly.Addresses
import Assay.Proofs.Assembly.Instructions

/-!
Linearized code runs like the graph it was made from. A walk through the graph and a run of the machine
stay together: the machine is where the walk is, and only the place of the walking frame in its code
has no counterpart in the walk. A transfer to the block that follows takes no step of the machine.
-/

namespace Assay.Assembly

open Bytecode Assay.Graph Machine

structure Hosts (routine : RoutineCode) (frame : Frame) : Prop where
  code : frame.routine.code = routine.code
  constants : Retains routine.constants frame.image.constants

def Calls (arena : Arena) (root : BlockIndex) (method : MethodRef) : Prop :=
  ∃ id block owner name args returns, Reachable arena root id ∧ arena.get? id = some block ∧
    .virtualCall owner name args returns ∈ block.code ∧
    method = { owner, name, args, returns := returns.resultKind }

/-- A constant of the text of a called method stands for a method that every object answers alike. -/
def Unambiguous (program : Program) (arena : Arena) (root : BlockIndex)
    (constants : Array Constant) : Prop :=
  ∀ method entry, Calls arena root method → .ofMethod entry ∈ constants →
    entry.text = method.text →
    ∀ owner, virtual? program owner method.name = virtual? program owner entry.name

structure Within (routine : RoutineCode) (root : BlockIndex) (offset : Nat)
    (code : List Instruction) (transfer : Transfer) (rest : List Placed) : Prop where
  stands : ∃ bytes left, routine.Stands offset code transfer rest bytes left
  targets : ∀ next ∈ transfer.successors, Reachable routine.arena root next
  calls : ∀ owner name args returns, .virtualCall owner name args returns ∈ code →
    Calls routine.arena root { owner, name, args, returns := returns.resultKind }

/-- A walk and a state of the machine that belong together. The number bounds how often the walk can go
on while the machine waits. -/
inductive Tracks (routine : RoutineCode) (program : Program) (root : BlockIndex) (depth : Nat) :
    Nat → Walk → State → Prop
  | stopped (code : List Instruction) (transfer : Transfer) {first second : Outcome}
      (world : World) : first.Same second →
      Tracks routine program root depth 0 ⟨code, transfer, .stopped first world⟩
        (.stopped second world)
  | gone (code : List Instruction) (transfer : Transfer) (frame : Frame) {callers : List Frame}
      (world : World) : callers.length < depth →
      Tracks routine program root depth 0 ⟨code, transfer, .running frame callers world⟩
        (.running frame callers world)
  | inside {code : List Instruction} {transfer : Transfer} {frame own : Frame}
      {callers : List Frame} (world : World) {offset : Nat} {rest : List Placed} :
      depth ≤ callers.length → frameAt? depth (frame :: callers) = some own →
      Hosts routine own → Unambiguous program routine.arena root own.image.constants →
      Within routine root offset code transfer rest →
      Tracks routine program root depth rest.length
        ⟨code, transfer, .running frame callers world⟩
        ((State.running frame callers world).move depth offset)

variable {machine : Machine} {routine : RoutineCode} {root : BlockIndex} {depth : Nat}

theorem Within.of_block {offset : Nat} {id : BlockIndex} {block : Block} {rest : List Placed}
    {bytes left : List UInt8} (reachable : Reachable routine.arena root id)
    (found : routine.arena.get? id = some block)
    (stands : routine.Stands offset block.code block.transfer rest bytes left) :
    Within routine root offset block.code block.transfer rest := by
  refine ⟨⟨bytes, left, stands⟩, ?_, ?_⟩
  · intro next successor
    refine .edge reachable ?_
    rw [Arena.successors_of_get found]
    exact successor
  · intro owner name args returns member
    exact ⟨id, block, owner, name, args, returns, reachable, found, member, rfl⟩

theorem Within.enter {offset : Nat} {id : BlockIndex} {rest : List Placed}
    (reachable : Reachable routine.arena root id)
    (stands : routine.StandsBlock offset id rest) (state : State) :
    ∃ code transfer, Walk.enter routine.arena id state = ⟨code, transfer, state⟩ ∧
      Within routine root offset code transfer rest := by
  obtain ⟨block, found, -, bytes, left, whole⟩ := stands
  exact ⟨block.code, block.transfer, by simp only [Walk.enter, found], .of_block reachable found whole⟩

theorem Tracks.enter (frame : Frame) {callers : List Frame} (world : World) {offset : Nat}
    {id : BlockIndex} {rest : List Placed} (here : callers.length = depth)
    (hosts : Hosts routine frame)
    (unambiguous : Unambiguous machine.program routine.arena root frame.image.constants)
    (reachable : Reachable routine.arena root id)
    (stands : routine.StandsBlock offset id rest) :
    Tracks routine machine.program root depth rest.length
      (Walk.enter routine.arena id (.running frame callers world))
      (.running { frame with offset } callers world) := by
  obtain ⟨code, transfer, entered, within⟩ :=
    Within.enter reachable stands (.running frame callers world)
  rw [entered]
  have moved : (State.running frame callers world).move depth offset =
      .running { frame with offset } callers world := by
    simp only [State.move, here, if_true]
  rw [← moved]
  exact .inside world (by omega) (by simp only [frameAt?, here, if_true]) hosts unambiguous within

theorem Tracks.absorb {frame : Frame} {callers : List Frame} {world : World} {offset : Nat}
    {code : List Instruction} {transfer : Transfer} {rest : List Placed} {isReturn : Bool}
    {result : Except Fault (World × Effect)} {state : State} (here : callers.length = depth)
    (hosts : Hosts routine frame)
    (unambiguous : Unambiguous machine.program routine.arena root frame.image.constants)
    (does : Does frame world isReturn result)
    (within : isReturn = false → Within routine root offset code transfer rest)
    (same : ((machine.absorb frame callers world result).move depth offset).Same state) :
    ∃ rank, Tracks routine machine.program root depth rank
      ⟨code, transfer, machine.absorb frame callers world result⟩ state := by
  subst here
  have ends : ∀ (outcome : Outcome) (after : World), (State.stopped outcome after).Same state →
      ∃ rank, Tracks routine machine.program root callers.length rank
        ⟨code, transfer, .stopped outcome after⟩ state := by
    intro outcome after same
    obtain ⟨result, sameOutcome, rfl⟩ := same.of_stopped
    exact ⟨0, .stopped code transfer after sameOutcome⟩
  have goesOn : ∀ (next own : Frame) (others : List Frame) (after : World), isReturn = false →
      callers.length ≤ others.length → frameAt? callers.length (next :: others) = some own →
      own.image = frame.image → own.routine = frame.routine →
      ((State.running next others after).move callers.length offset).Same state →
      ∃ rank, Tracks routine machine.program root callers.length rank
        ⟨code, transfer, .running next others after⟩ state := by
    intro next own others after notReturn deep found sameImage sameRoutine same
    have owns : Hosts routine own :=
      ⟨by rw [sameRoutine]; exact hosts.code, by rw [sameImage]; exact hosts.constants⟩
    have tracks : Tracks routine machine.program root callers.length rest.length
        ⟨code, transfer, .running next others after⟩
        ((State.running next others after).move callers.length offset) :=
      .inside after deep found owns (by rw [sameImage]; exact unambiguous) (within notReturn)
    obtain ⟨frame, frames, moved⟩ : ∃ frame frames,
        (State.running next others after).move callers.length offset =
          .running frame frames after := by
      simp only [State.move]
      split
      · exact ⟨_, _, rfl⟩
      · exact ⟨_, _, rfl⟩
    rw [moved] at same tracks
    rw [same.of_running]
    exact ⟨_, tracks⟩
  cases does with
  | fault cause => exact ends _ _ same
  | proceed after stack notReturn =>
      exact goesOn _ { frame with stack } callers after notReturn (Nat.le_refl _)
        (by simp only [frameAt?, if_true]) rfl rfl same
  | call stack keepsResult image called args notReturn =>
      simp only [Machine.absorb, enterCall] at same ⊢
      by_cases rightCount : (args.length : Int) = called.params
      · by_cases room : machine.frameLimit ≤ callers.length + 1
        · simp only [rightCount, ne_eq, not_true, if_false, List.length_cons, room, if_true]
            at same ⊢
          exact ends _ _ same
        · simp only [rightCount, ne_eq, not_true, if_false, List.length_cons, room] at same ⊢
          cases place : Frame.hasPlace called with
          | true =>
              simp only [place, if_true] at same ⊢
              have notTop : ¬(callers.length + 1 = callers.length) := by omega
              refine goesOn _ { frame with stack, keepsResult } _ world notReturn ?_ ?_ rfl rfl same
              · simp only [List.length_cons]
                omega
              · simp only [frameAt?, List.length_cons, notTop, if_false, if_true]
          | false =>
              simp only [place, Bool.false_eq_true, if_false] at same ⊢
              exact ends _ _ same
      · simp only [rightCount, ne_eq, not_false_iff, if_true] at same ⊢
        exact ends _ _ same
  | finish value =>
      cases callers with
      | nil => exact ends _ _ same
      | cons caller others =>
          simp only [Machine.absorb, deliver, List.length_cons] at same ⊢
          rw [move_of_lt (by omega)] at same
          rw [same.of_running]
          exact ⟨0, .gone code transfer _ world (by omega)⟩
  | crash => exact ends _ _ same

/-- How the machine keeps up with one step of a walk. When a condition fails and its block is not
followed by the other one, the machine needs a second step; in between only its place is not that of the
walk. -/
inductive KeepsUp (machine : Machine) (routine : RoutineCode) (root : BlockIndex) (depth rank : Nat)
    (walk : Walk) (state : State) : Prop
  | waiting : (∃ less < rank, Tracks routine machine.program root depth less walk state) →
      KeepsUp machine routine root depth rank walk state
  | once : (∃ next, Tracks routine machine.program root depth next walk (machine.step state)) →
      KeepsUp machine routine root depth rank walk state
  | twice (frame : Frame) (callers : List Frame) (world : World) (offset : Nat) :
      walk.state = .running frame callers world → depth ≤ callers.length →
      machine.step state = walk.state.move depth offset →
      (∃ next, Tracks routine machine.program root depth next walk
        (machine.step (machine.step state))) →
      KeepsUp machine routine root depth rank walk state

theorem Encodes.nil_bytes {constants : Array Constant} {bytes : List UInt8}
    (encodes : Encodes constants [] bytes) : bytes = [] := by
  cases encodes with
  | nil => rfl

theorem endsWithReturn_tail {instruction : Instruction} {rest : List Instruction}
    (ends : endsWithReturn (instruction :: rest) = true) (notReturn : instruction.isReturn = false) :
    endsWithReturn rest = true := by
  cases rest with
  | nil => simp [endsWithReturn, notReturn] at ends
  | cons next rest => simpa [endsWithReturn] using ends

theorem step_instruction {frame : Frame} {callers : List Frame} {world : World} {offset : Nat}
    {instruction : Instruction} {code : List Instruction} {transfer : Transfer}
    {rest : List Placed} (here : callers.length = depth) (hosts : Hosts routine frame)
    (unambiguous : Unambiguous machine.program routine.arena root frame.image.constants)
    (within : Within routine root offset (instruction :: code) transfer rest) :
    ∃ rank, Tracks routine machine.program root depth rank
      ⟨code, transfer, machine.absorb frame callers world
        (perform machine.program frame world instruction)⟩
      (machine.step (.running { frame with offset } callers world)) := by
  obtain ⟨⟨bytes, left, stands⟩, targets, calls⟩ := within
  cases encodes : stands.encodes with
  | @cons _ _ opcode operands bytes restBytes lowers encoded restEncodes =>
      have codeHere : CodeAt frame.routine.code offset (bytes ++ restBytes) := by
        rw [hosts.code]
        exact stands.here
      have advanced : Frame.advance machine.program { frame with offset } world =
          execute machine.program { frame with offset := offset + bytes.length } world opcode
            ((operands.map Int.toNat).headD 0) :=
        advance_encoded encoded codeHere.left
      have does : SameResult
          (movedResult (offset + bytes.length) (perform machine.program frame world instruction))
          (execute machine.program { frame with offset := offset + bytes.length } world opcode
            ((operands.map Int.toNat).headD 0)) := by
        rw [← perform_moved]
        refine execute_lowered world (lowers.retained hosts.constants) encoded ?_
        intro owner name args returns entry isCall member sameText
        refine unambiguous _ entry (calls owner name args returns ?_) member sameText
        rw [isCall]
        exact List.mem_cons_self
      have same : ((machine.absorb frame callers world
            (perform machine.program frame world instruction)).move depth
              (offset + bytes.length)).Same
          (machine.step (.running { frame with offset } callers world)) := by
        rw [step_running, advanced, ← here, ← absorb_moved machine frame callers world offset]
        exact absorb_same _ _ _ _ does
      have goesOn : instruction.isReturn = false →
          Within routine root (offset + bytes.length) code transfer rest := by
        intro notReturn
        refine ⟨⟨restBytes, left, restEncodes, ?_, stands.transferred, ?_, ?_, ?_⟩, targets, ?_⟩
        · exact stands.here.right
        · simpa [Nat.add_assoc] using stands.transferHere
        · simpa [Nat.add_assoc] using stands.behind
        · exact fun exits => endsWithReturn_tail (stands.returns exits) notReturn
        · intro owner name args returns member
          exact calls owner name args returns (List.mem_cons_of_mem _ member)
      exact Tracks.absorb here hosts unambiguous (perform_does _ _ _ _) goesOn same

theorem step_jump {frame : Frame} {callers : List Frame} {world : World} {offset address : Nat}
    {id : BlockIndex} {rest : List Placed} {bytes : List UInt8} (hosts : Hosts routine frame)
    (addressed : routine.addresses[id]? = some address)
    (stands : routine.StandsBlock address id rest)
    (encoded : encodeJump routine.addresses .jump id = .ok bytes)
    (here : CodeAt routine.code offset bytes) :
    machine.step (.running { frame with offset } callers world) =
      .running { frame with offset := address } callers world := by
  have codeHere : CodeAt frame.routine.code offset bytes := by
    rw [hosts.code]
    exact here
  have advanced : Frame.advance machine.program { frame with offset } world =
      execute machine.program { frame with offset := offset + bytes.length } world .jump address := by
    rw [advance_encoded (mapError_ok encoded) codeHere, addressed]
    simp
  obtain ⟨block, found, inside, others⟩ := stands
  have jumps : ¬frame.routine.code.size < address := by
    rw [hosts.code]
    omega
  rw [step_running, advanced]
  simp only [execute, jumpTo, jumps, if_false]
  rfl

theorem step_transfer (frame : Frame) {callers : List Frame} (world : World) {offset : Nat}
    {id : BlockIndex} {rest : List Placed} {bytes : List UInt8} (linearized : Linearized routine root)
    (here : callers.length = depth) (hosts : Hosts routine frame)
    (unambiguous : Unambiguous machine.program routine.arena root frame.image.constants)
    (reachable : Reachable routine.arena root id)
    (encoded : encodeJumpUnlessFollowing routine.addresses (following rest) id = .ok bytes)
    (found : CodeAt routine.code offset bytes)
    (behind : routine.Settled rest (offset + bytes.length)) :
    (∃ less < rest.length, Tracks routine machine.program root depth less
      (Walk.enter routine.arena id (.running frame callers world))
      (.running { frame with offset } callers world)) ∨
    (∃ next, Tracks routine machine.program root depth next
      (Walk.enter routine.arena id (.running frame callers world))
      (machine.step (.running { frame with offset } callers world))) := by
  unfold encodeJumpUnlessFollowing at encoded
  split at encoded
  · rename_i follows
    simp only [Except.ok.injEq] at encoded
    subst encoded
    left
    cases rest with
    | nil => simp [following] at follows
    | cons block others =>
        simp only [following, List.head?_cons, Option.map_some, Option.some.injEq] at follows
        subst follows
        exact ⟨others.length, by simp,
          Tracks.enter frame world here hosts unambiguous reachable behind.head.2⟩
  · right
    obtain ⟨address, others, addressed, stands⟩ := linearized.reached id reachable
    rw [step_jump hosts addressed stands encoded found]
    exact ⟨_, Tracks.enter frame world here hosts unambiguous reachable stands⟩

theorem step_condition (machine : Machine) {frame : Frame} (callers : List Frame) (world : World)
    {offset address : Nat} {cond : Cond} {opcode : Opcode} {yes : BlockIndex} {rest : List Placed}
    {taken : List UInt8} (hosts : Hosts routine frame) (known : jumpOpcode? cond = some opcode)
    (addressed : routine.addresses[yes]? = some address)
    (stands : routine.StandsBlock address yes rest)
    (encoded : encodeJump routine.addresses opcode yes = .ok taken)
    (here : CodeAt routine.code offset taken) :
    (∃ cause, cond.decide frame = .error cause ∧
      machine.step (.running { frame with offset } callers world) =
        failWith (frame :: callers) world cause) ∨
    ∃ holds stack, cond.decide frame = .ok (holds, { frame with stack }) ∧
      machine.step (.running { frame with offset } callers world) =
        .running { frame with
          stack, offset := if holds then address else offset + taken.length } callers world := by
  have codeHere : CodeAt frame.routine.code offset taken := by
    rw [hosts.code]
    exact here
  have advanced : Frame.advance machine.program { frame with offset } world =
      execute machine.program { frame with offset := offset + taken.length } world opcode
        address := by
    rw [advance_encoded (mapError_ok encoded) codeHere, addressed]
    simp
  obtain ⟨block, found, inside, others⟩ := stands
  have fits : address ≤
      (Frame.routine { frame with offset := offset + taken.length }).code.size := by
    rw [hosts.code]
    exact inside
  rw [step_running, advanced, execute_branch world known fits]
  rcases decide_cases cond frame with ⟨cause, failed⟩ | ⟨holds, stack, decided⟩
  · refine .inl ⟨cause, failed frame.offset, ?_⟩
    rw [failed]
    exact failWith_eq_of_names (by simp) _ _
  · refine .inr ⟨holds, stack, decided frame.offset, ?_⟩
    rw [decided]
    cases holds with
    | true => rfl
    | false => rfl

/-- The machine keeps up with every step of a walk that is not over. -/
theorem Tracks.step {frame own : Frame} {callers : List Frame} (world : World) {offset : Nat}
    {code : List Instruction} {transfer : Transfer} {rest : List Placed}
    (linearized : Linearized routine root) (deep : depth ≤ callers.length)
    (found : frameAt? depth (frame :: callers) = some own) (hosts : Hosts routine own)
    (unambiguous : Unambiguous machine.program routine.arena root own.image.constants)
    (within : Within routine root offset code transfer rest) :
    KeepsUp machine routine root depth rest.length
      ((Walk.mk code transfer (.running frame callers world)).step machine routine.arena depth)
      ((State.running frame callers world).move depth offset) := by
  by_cases here : callers.length = depth
  · simp only [frameAt?, here, if_true, Option.some.injEq] at found
    subst found
    have moved : (State.running frame callers world).move depth offset =
        .running { frame with offset } callers world := by
      simp only [State.move, here, if_true]
    rw [moved]
    cases code with
    | cons instruction code =>
        simp only [Walk.step, here, if_true, Walk.advance]
        exact .once (step_instruction here hosts unambiguous within)
    | nil =>
        obtain ⟨⟨bytes, left, stands⟩, targets, calls⟩ := within
        obtain rfl := stands.encodes.nil_bytes
        have leftHere : CodeAt routine.code offset left := stands.transferHere
        have behind : routine.Settled rest (offset + left.length) := stands.behind
        cases transfer with
        | exit => exact absurd (stands.returns rfl) (by simp [endsWithReturn])
        | jump id =>
            simp only [Walk.step, here, if_true, Walk.advance]
            have reaches := targets id (by simp [Transfer.successors])
            rcases step_transfer frame world linearized here hosts unambiguous reaches
              stands.transferred leftHere behind with waits | goes
            · exact .waiting waits
            · exact .once goes
        | branch cond yes no =>
            obtain ⟨opcode, taken, otherwise, known, takenBy, otherwiseBy, rfl⟩ :=
              encodeTransfer_branch stands.transferred
            have reachesYes := targets yes (by simp [Transfer.successors])
            have reachesNo := targets no (by simp [Transfer.successors])
            obtain ⟨address, others, addressed, standsYes⟩ := linearized.reached yes reachesYes
            simp only [Walk.step, here, if_true, Walk.advance]
            rcases step_condition machine callers world hosts known addressed standsYes takenBy
              leftHere.left with ⟨cause, failed, stepped⟩ | ⟨holds, stack, decided, stepped⟩
            · rw [failed]
              refine .once ⟨0, ?_⟩
              rw [stepped]
              exact .stopped _ _ world (Outcome.Same.refl _)
            · rw [decided]
              have goesOn : Hosts routine { frame with stack } := ⟨hosts.code, hosts.constants⟩
              cases holds with
              | true =>
                  refine .once ⟨others.length, ?_⟩
                  rw [stepped]
                  exact Tracks.enter { frame with stack } world here goesOn unambiguous reachesYes
                    standsYes
              | false =>
                  have noHere := leftHere.right
                  simp only [List.length_append, ← Nat.add_assoc] at behind
                  rcases step_transfer { frame with stack } world linearized here goesOn unambiguous
                    reachesNo otherwiseBy noHere behind with ⟨less, smaller, tracks⟩ | goes
                  · refine .once ⟨less, ?_⟩
                    rw [stepped]
                    exact tracks
                  · refine .twice { frame with stack } callers world (offset + taken.length)
                      (Walk.enter_state _ _ _) (by omega) ?_ ?_
                    · rw [stepped, Walk.enter_state]
                      simp only [State.move, here, if_true, Bool.false_eq_true, if_false]
                    · rw [stepped]
                      exact goes
  · have above : depth < callers.length := by omega
    simp only [Walk.step, here, if_false, above, if_true]
    refine .once ?_
    rw [step_move above]
    cases stepped : machine.step (.running frame callers world) with
    | stopped outcome after => exact ⟨0, .stopped code transfer after (Outcome.Same.refl _)⟩
    | running next nextCallers after =>
        obtain ⟨stillDeep, later, laterFound, sameImage, sameRoutine⟩ :=
          step_above above found stepped
        have owns : Hosts routine later :=
          ⟨by rw [sameRoutine]; exact hosts.code, by rw [sameImage]; exact hosts.constants⟩
        refine ⟨rest.length, .inside after stillDeep laterFound owns ?_ within⟩
        rw [sameImage]
        exact unambiguous

theorem over_stopped (code : List Instruction) (transfer : Transfer) (outcome : Outcome)
    (world : World) : (Walk.mk code transfer (.stopped outcome world)).Over depth := by
  intro frame callers world running
  simp at running

theorem over_running (code : List Instruction) (transfer : Transfer) (frame : Frame)
    {callers : List Frame} (world : World) (short : callers.length < depth) :
    (Walk.mk code transfer (.running frame callers world)).Over depth := by
  intro other others after running
  simp only [State.running.injEq] at running
  rw [← running.2.1]
  exact short

theorem Tracks.same_of_over {rank : Nat} {walk : Walk} {state : State}
    (tracks : Tracks routine machine.program root depth rank walk state)
    (ended : walk.Over depth) : walk.state.Same state := by
  cases tracks with
  | stopped code transfer world same => exact .stopped world same
  | gone code transfer frame world short => exact .equal _
  | inside world deep found hosts unambiguous within =>
      have short := ended _ _ _ rfl
      omega

/-- The machine follows a walk as far as it goes. -/
theorem Tracks.follow {rank : Nat} {walk : Walk} {state : State} (fuel : Nat)
    (linearized : Linearized routine root)
    (tracks : Tracks routine machine.program root depth rank walk state) :
    ∃ steps next, Tracks routine machine.program root depth next
      (Walk.run machine routine.arena depth fuel walk) (machine.run steps state) := by
  induction fuel generalizing rank walk state with
  | zero => exact ⟨0, rank, tracks⟩
  | succ fuel ih =>
      cases tracks with
      | stopped code transfer world same =>
          rw [(over_stopped code transfer _ world).run]
          exact ⟨0, 0, .stopped code transfer world same⟩
      | gone code transfer frame world short =>
          rw [(over_running code transfer frame world short).run]
          exact ⟨0, 0, .gone code transfer frame world short⟩
      | inside world deep found hosts unambiguous within =>
          rw [Walk.run_succ]
          cases Tracks.step world linearized deep found hosts unambiguous within with
          | waiting waits =>
              obtain ⟨less, -, later⟩ := waits
              exact ih later
          | once goes =>
              obtain ⟨next, later⟩ := goes
              obtain ⟨steps, last, followed⟩ := ih later
              exact ⟨steps + 1, last, by rw [run_succ]; exact followed⟩
          | twice _ _ _ _ _ _ _ goes =>
              obtain ⟨next, later⟩ := goes
              obtain ⟨steps, last, followed⟩ := ih later
              exact ⟨steps + 2, last, by rw [run_succ, run_succ]; exact followed⟩

def Follows (machine : Machine) (arena : Arena) (depth steps : Nat) (walk : Walk)
    (state : State) : Prop :=
  (∃ fuel frame callers world offset,
    (Walk.run machine arena depth fuel walk).state = .running frame callers world ∧
      depth ≤ callers.length ∧
      machine.run steps state = (State.running frame callers world).move depth offset) ∨
  ∃ fuel taken, taken ≤ steps ∧ (Walk.run machine arena depth fuel walk).Over depth ∧
    (Walk.run machine arena depth fuel walk).state.Same (machine.run taken state)

theorem Follows.later {arena : Arena} {steps taken total : Nat} {walk : Walk}
    {state middle : State} (ran : machine.run taken state = middle) (sum : total = taken + steps)
    (follows : Follows machine arena depth steps (walk.step machine arena depth) middle) :
    Follows machine arena depth total walk state := by
  subst ran sum
  rcases follows with ⟨fuel, frame, callers, world, offset, walked, deep, ran⟩ |
    ⟨fuel, earlier, before, ended, same⟩
  · exact .inl ⟨fuel + 1, frame, callers, world, offset, walked, deep, by rw [run_add]; exact ran⟩
  · exact .inr ⟨fuel + 1, taken + earlier, by omega, ended, by rw [run_add]; exact same⟩

theorem Tracks.follows {rank : Nat} {walk : Walk} {state : State} (steps : Nat)
    (linearized : Linearized routine root)
    (tracks : Tracks routine machine.program root depth rank walk state) :
    Follows machine routine.arena depth steps walk state := by
  -- The walk may go on while the machine waits, but not forever: then its rank gets smaller.
  induction steps using Nat.strongRecOn generalizing rank walk state with
  | ind steps shorter =>
      induction rank using Nat.strongRecOn generalizing walk state with
      | ind rank smaller =>
          cases tracks with
          | stopped code transfer world same =>
              exact .inr ⟨0, 0, by omega, over_stopped code transfer _ world, .stopped world same⟩
          | gone code transfer frame world short =>
              exact .inr ⟨0, 0, by omega, over_running code transfer frame world short, .equal _⟩
          | @inside _ _ frame _ callers world offset _ deep found hosts unambiguous within =>
              cases steps with
              | zero => exact .inl ⟨0, frame, callers, world, offset, rfl, deep, rfl⟩
              | succ steps =>
                  cases Tracks.step world linearized deep found hosts unambiguous within with
                  | waiting waits =>
                      obtain ⟨less, fewer, later⟩ := waits
                      exact (smaller less fewer later).later (run_zero _) (by omega)
                  | once goes =>
                      obtain ⟨next, later⟩ := goes
                      exact (shorter steps (by omega) later).later (run_one _) (by omega)
                  | twice frame callers world offset running deep halfway goes =>
                      obtain ⟨next, later⟩ := goes
                      cases steps with
                      | zero =>
                          refine .inl ⟨1, frame, callers, world, offset, running, deep, ?_⟩
                          rw [run_one, halfway, running]
                      | succ steps =>
                          refine (shorter steps (by omega) later).later ?_ (Nat.add_comm steps 2)
                          rw [run_succ, run_one]

end Assay.Assembly
