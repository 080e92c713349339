import Assay.Proofs.Graph.Growth
import Assay.Proofs.Graph.HandOver
import Assay.Proofs.Graph.Meaning
import Assay.Proofs.Machine.Effects

/-!
Heights of the operand stack. Every instruction takes a fixed number of values from the stack and
leaves a fixed number there. If the blocks of a graph have heights that agree along every edge, then
every path comes to a block at the height of that block.
-/

namespace Assay.Graph

open Machine

namespace Instruction

def pops : Instruction → Nat
  | const _ => 0
  | newString _ => 0
  | load _ => 0
  | getField _ _ => 1
  | putField _ _ => 2
  | arithmetic _ => 2
  | virtualCall _ _ args _ => args.toNat + 1
  | ret kind => if kind = .void then 0 else 1
  | unknown _ => 0

def pushes : Instruction → Nat
  | const _ => 1
  | newString _ => 1
  | load _ => 1
  | getField _ _ => 1
  | putField _ _ => 0
  | arithmetic _ => 1
  | virtualCall _ _ _ returns => if returns = .void then 0 else 1
  | ret _ => 0
  | unknown _ => 0

def rise (instruction : Instruction) : Int := instruction.pushes - instruction.pops

/-- The machine finds the values that the instruction takes, and leaves those that it leaves. A routine
that the instruction calls leaves nothing. -/
def Measured (instruction : Instruction) : Prop :=
  ∀ program frame world after effect, perform program frame world instruction = .ok (after, effect) →
    match effect with
    | .proceed next =>
      next.stack.length + instruction.pops = frame.stack.length + instruction.pushes
    | .call caller _ _ _ =>
      caller.stack.length + instruction.pops = frame.stack.length + instruction.pushes ∧
        caller.keepsResult = false
    | .finish _ => instruction.pops ≤ frame.stack.length
    | .crash => True

end Instruction

section Operands

variable {frame rest : Frame}

theorem decide_length {cond : Cond} {holds : Bool} (done : cond.decide frame = .ok (holds, rest)) :
    frame.stack.length = rest.stack.length + cond.operands := by
  unfold Cond.decide at done
  split at done
  · cases done
    rfl
  · obtain ⟨⟨value, last⟩, popped, done⟩ := bind_eq_ok.mp done
    cases done
    exact popInt_length popped
  · rename_i notNone notTrue
    obtain ⟨⟨values, last⟩, popped, done⟩ := bind_eq_ok.mp done
    cases done
    have two : cond.operands = 2 := by
      cases cond with
      | none => exact absurd rfl notNone
      | ifTrue => exact absurd rfl notTrue
      | _ => rfl
    rw [two]
    exact popInts_length popped

end Operands

theorem dispatch_measured {program : Bytecode.Program} {frame : Frame} {world after : World}
    {method : Bytecode.MethodRef} {args : List Value} {receiver : Value} {effect : Effect}
    (void : method.returns = .void)
    (done : dispatch program frame world method args receiver = .ok (after, effect)) :
    effect = .proceed frame ∨ ∃ caller image routine passed,
      effect = .call caller image routine passed ∧ caller.stack = frame.stack ∧
        caller.keepsResult = false := by
  unfold dispatch at done
  split at done
  · split at done
    · split at done
      · cases done
        exact .inl rfl
      · cases done
    · cases done
  · dsimp only at done
    split at done
    · cases done
    · split at done
      · cases done
      · cases done
        exact .inr ⟨_, _, _, _, rfl, rfl, by simp [void]⟩
  · cases done
  · cases done

/-- Every instruction is measured that calls no routine for its result. -/
theorem measured {instruction : Instruction}
    (quiet : ∀ owner method args returns, instruction = .virtualCall owner method args returns →
      returns = .void) : instruction.Measured := by
  intro program frame world after effect done
  cases instruction with
  | const value => cases done; rfl
  | newString text => cases done; rfl
  | load slot =>
      simp only [perform] at done
      split at done
      · cases done; rfl
      · cases done
  | getField owner field =>
      obtain ⟨⟨address, rest⟩, popped, done⟩ := bind_eq_ok.mp done
      have length := popObject_length popped
      dsimp only at done
      split at done
      · cases done
        simp only [Frame.push, List.length_cons, Instruction.pops, Instruction.pushes]
        omega
      · cases done
  | putField owner field =>
      obtain ⟨⟨value, rest⟩, poppedValue, done⟩ := bind_eq_ok.mp done
      obtain ⟨⟨address, last⟩, poppedObject, done⟩ := bind_eq_ok.mp done
      have length := pop_length poppedValue
      have lastLength := popObject_length poppedObject
      dsimp only at done
      split at done
      · cases done
        simp only [Instruction.pops, Instruction.pushes]
        omega
      · cases done
  | arithmetic operator =>
      obtain ⟨⟨values, rest⟩, popped, done⟩ := bind_eq_ok.mp done
      have length := popInts_length popped
      cases done
      simp only [Frame.push, List.length_cons, Instruction.pops, Instruction.pushes]
      omega
  | virtualCall owner method args returns =>
      obtain rfl := quiet owner method args returns rfl
      obtain ⟨arguments, popped, done⟩ := bind_eq_ok.mp done
      cases arguments with
      | none => cases done; trivial
      | some arguments =>
          obtain ⟨passed, rest⟩ := arguments
          obtain ⟨⟨receiver, last⟩, poppedReceiver, done⟩ := bind_eq_ok.mp done
          have length : frame.stack.length = rest.stack.length + args.toNat :=
            popArguments_length popped
          have lastLength := pop_length poppedReceiver
          rcases dispatch_measured rfl done with rfl | ⟨caller, image, routine, given, rfl, same, drops⟩
          · simp only [Instruction.pops, Instruction.pushes, if_true]
            omega
          · simp only [Instruction.pops, Instruction.pushes, if_true, same]
            exact ⟨by omega, drops⟩
  | ret kind =>
      simp only [perform, leave] at done
      split at done
      · rename_i isVoid
        split at done
        · cases done
          simp [Instruction.pops, isVoid]
        · cases done
      · rename_i notVoid
        split at done
        · cases done
        · obtain ⟨⟨value, rest⟩, popped, done⟩ := bind_eq_ok.mp done
          cases done
          simp only [Instruction.pops, notVoid, if_false, pop_length popped]
          omega
  | unknown code => cases done; trivial

def Block.Measured (block : Block) : Prop :=
  (∀ instruction ∈ block.code, instruction.Measured) ∧
    ∀ frame holds rest, block.cond.decide frame = .ok (holds, rest) →
      frame.stack.length = rest.stack.length + block.cond.operands

theorem Block.measured_of_code {block : Block}
    (code : ∀ instruction ∈ block.code, instruction.Measured) : block.Measured :=
  ⟨code, fun _ _ _ done => decide_length done⟩

def codeRise : List Instruction → Int
  | [] => 0
  | instruction :: rest => instruction.rise + codeRise rest

def Block.rise (block : Block) : Int := codeRise block.code - block.cond.operands

def Arena.rise (arena : Arena) (id : BlockIndex) : Int :=
  match arena.get? id with
  | some block => block.rise
  | none => 0

/-- The height of the stack at the end of a path that starts with an empty stack. -/
def Arena.heightAlong (arena : Arena) : List BlockIndex → Int
  | [] => 0
  | id :: before => arena.heightAlong before + arena.rise id

/-- Code without returns takes the stack from one height to another. No instruction takes more values
than there are. -/
def Climbs : List Instruction → Nat → Nat → Prop
  | [], before, after => before = after
  | instruction :: rest, before, after =>
    instruction.isReturn = false ∧ instruction.pops ≤ before ∧
      Climbs rest (before - instruction.pops + instruction.pushes) after

theorem Climbs.rise {code : List Instruction} {before after : Nat} (climbs : Climbs code before after) :
    (after : Int) = before + codeRise code := by
  induction code generalizing before with
  | nil =>
      obtain rfl : before = after := climbs
      simp [codeRise]
  | cons instruction rest ih =>
      obtain ⟨-, enough, later⟩ := climbs
      have behind := ih later
      simp only [codeRise, Instruction.rise]
      omega

theorem Climbs.isReturn {code : List Instruction} {before after : Nat}
    (climbs : Climbs code before after) {instruction : Instruction} (isPart : instruction ∈ code) :
    instruction.isReturn = false := by
  induction code generalizing before with
  | nil => cases isPart
  | cons head rest ih =>
      rcases List.mem_cons.mp isPart with rfl | inRest
      · exact climbs.1
      · exact ih climbs.2.2 inRest

theorem Climbs.pops_le {code first rest : List Instruction} {instruction : Instruction}
    {before after : Nat} (climbs : Climbs code before after)
    (split : code = first ++ instruction :: rest) :
    (instruction.pops : Int) ≤ before + codeRise first := by
  subst split
  induction first generalizing before with
  | nil =>
      have enough := climbs.2.1
      simp only [codeRise]
      omega
  | cons head first ih =>
      obtain ⟨-, enough, later⟩ := climbs
      have inRest := ih later
      simp only [codeRise, Instruction.rise]
      omega

/-- Code that ends a routine: it starts with an empty stack, and behind its last instruction but one there
is what the routine returns and nothing else. -/
def Concludes (returns : ValueKind) (code : List Instruction) : Prop :=
  ∃ body, code = body ++ [.ret returns] ∧ Climbs body 0 (Instruction.ret returns).pops

/-- What a block does if control comes to it at that height. -/
structure Steady (returns : ValueKind) (height : Nat) (block : Block) : Prop where
  takes : ∀ before instruction rest, block.code = before ++ instruction :: rest →
    (instruction.pops : Int) ≤ height + codeRise before
  decides : (block.cond.operands : Int) ≤ height + codeRise block.code
  returned : ∀ before kind rest, block.code = before ++ .ret kind :: rest →
    kind = returns ∧ (height : Int) + codeRise before = (Instruction.ret kind).pops ∧ rest = [] ∧
      block.isExit = true

theorem codeRise_append (first second : List Instruction) :
    codeRise (first ++ second) = codeRise first + codeRise second := by
  induction first with
  | nil => simp [codeRise]
  | cons instruction rest ih =>
      simp only [List.cons_append, codeRise, ih]
      omega

theorem Climbs.steady {returns : ValueKind} {block : Block} {height after : Nat}
    (climbs : Climbs block.code height (after + block.cond.operands)) : Steady returns height block := by
  refine ⟨fun before instruction rest split => climbs.pops_le split, ?_, ?_⟩
  · have behind := climbs.rise
    omega
  · intro before kind rest split
    have notReturn : (Instruction.ret kind).isReturn = false := climbs.isReturn (by simp [split])
    cases notReturn

theorem Concludes.steady {returns : ValueKind} {block : Block}
    (concludes : Concludes returns block.code) (exits : block.transfer = .exit) :
    Steady returns 0 block := by
  obtain ⟨body, isCode, climbs⟩ := concludes
  have behind := climbs.rise
  have unconditional : block.cond.operands = 0 := by rw [Block.cond, exits]; rfl
  refine ⟨?_, ?_, ?_⟩
  · intro before instruction rest split
    rw [isCode] at split
    rcases split_cases split with ⟨more, inBody⟩ | ⟨rfl, rfl⟩ | ⟨between, -, outside⟩
    · exact climbs.pops_le inBody
    · omega
    · simp at outside
  · have last : codeRise [.ret returns] = -((Instruction.ret returns).pops : Int) := by
      simp [codeRise, Instruction.rise, Instruction.pushes]
    rw [isCode, codeRise_append, last, unconditional]
    omega
  · intro before kind rest split
    rw [isCode] at split
    rcases split_cases split with ⟨more, inBody⟩ | ⟨rfl, isLast⟩ | ⟨between, -, outside⟩
    · have notReturn : (Instruction.ret kind).isReturn = false := climbs.isReturn (by simp [inBody])
      cases notReturn
    · cases isLast
      have isEnd : [] = rest := by simpa using split
      exact ⟨rfl, behind.symm, isEnd.symm, by rw [Block.isExit, exits]; rfl⟩
    · simp at outside

structure Stands (first height : Nat) (heights : BlockIndex → Nat) (size : Nat) (id : BlockIndex) :
    Prop where
  from_first : first ≤ id
  inside : id < size
  height : heights id = height

/-- A block that control comes to at that height: it goes on to blocks at their own heights, or it ends
the routine, with an empty stack at its start. -/
inductive Balanced (ends : List Instruction → Prop) (first : Nat) (heights : BlockIndex → Nat)
    (size : Nat) : Nat → List Instruction → Transfer → Prop
  | exit {code : List Instruction} : ends code → Balanced ends first heights size 0 code .exit
  | jump {height after : Nat} {code : List Instruction} {next : BlockIndex} :
      Climbs code height after → Stands first after heights size next →
      Balanced ends first heights size height code (.jump next)
  | branch {height after : Nat} {code : List Instruction} {cond : Cond} {yes no : BlockIndex} :
      Climbs code height (after + cond.operands) → cond.isKnown = true →
      Stands first after heights size yes → Stands first after heights size no →
      Balanced ends first heights size height code (.branch cond yes no)

def Levels (ends : List Instruction → Prop) (first : Nat) (heights : BlockIndex → Nat)
    (before after : Arena) : Prop :=
  ∀ id code transfer, before.size ≤ id → after.Holds id code transfer →
    Balanced ends first heights after.size (heights id) code transfer

section Scope

variable {ends : List Instruction → Prop} {heights later : BlockIndex → Nat} {first size larger : Nat}

theorem Stands.first_le {height : Nat} {id : BlockIndex} (stands : Stands first height heights size id) :
    first ≤ size :=
  Nat.le_trans stands.from_first (Nat.le_of_lt stands.inside)

theorem Stands.kept {height : Nat} {id : BlockIndex} (stands : Stands first height heights size id)
    (grown : size ≤ larger) (agree : ∀ id < size, later id = heights id) :
    Stands first height later larger id :=
  ⟨stands.from_first, Nat.lt_of_lt_of_le stands.inside grown,
    (agree id stands.inside).trans stands.height⟩

theorem Balanced.kept {height : Nat} {code : List Instruction} {transfer : Transfer}
    (balanced : Balanced ends first heights size height code transfer) (grown : size ≤ larger)
    (agree : ∀ id < size, later id = heights id) :
    Balanced ends first later larger height code transfer := by
  cases balanced with
  | exit isEnd => exact .exit isEnd
  | jump climbs stands => exact .jump climbs (stands.kept grown agree)
  | branch climbs known yesStands noStands =>
      exact .branch climbs known (yesStands.kept grown agree) (noStands.kept grown agree)

theorem Balanced.successor {height : Nat} {block : Block} {next : BlockIndex}
    (balanced : Balanced ends first heights size height block.code block.transfer)
    (isNext : next ∈ block.successors) :
    first ≤ next ∧ next < size ∧ (heights next : Int) = height + block.rise := by
  obtain ⟨id, code, transfer, incoming⟩ := block
  cases balanced with
  | exit isEnd => cases isNext
  | jump climbs stands =>
      obtain rfl := List.mem_singleton.mp isNext
      refine ⟨stands.from_first, stands.inside, ?_⟩
      rw [stands.height, climbs.rise]
      simp [Block.rise, Block.cond, Transfer.cond, Cond.operands]
  | @branch _ after _ cond yes no climbs known yesStands noStands =>
      have stands : Stands first after heights size next := by
        simp only [Block.successors, Transfer.successors, List.mem_cons, List.not_mem_nil,
          or_false] at isNext
        rcases isNext with rfl | rfl
        · exact yesStands
        · exact noStands
      refine ⟨stands.from_first, stands.inside, ?_⟩
      have behind : ((after + cond.operands : Nat) : Int) = height + codeRise code := climbs.rise
      rw [stands.height]
      simp only [Block.rise, Block.cond, Transfer.cond]
      omega

theorem Balanced.steady {returns : ValueKind} {height : Nat} {block : Block}
    (balanced : Balanced ends first heights size height block.code block.transfer)
    (conclude : ∀ code, ends code → Concludes returns code) : Steady returns height block := by
  obtain ⟨id, code, transfer, incoming⟩ := block
  cases balanced with
  | exit isEnd => exact (conclude code isEnd).steady rfl
  | jump climbs stands => exact Climbs.steady climbs
  | branch climbs known yesStands noStands => exact Climbs.steady climbs

theorem Levels.refl (arena : Arena) : Levels ends first heights arena arena := by
  intro id code transfer isNew holds
  exact absurd holds.lt_size (Nat.not_lt.mpr isNew)

theorem Levels.trans {before middle after : Arena} (earlier : Levels ends first heights before middle)
    (rest : Levels ends first later middle after) (keeps : middle.Keeps after)
    (agree : ∀ id < middle.size, later id = heights id) :
    Levels ends first later before after := by
  intro id code transfer isNew holds
  by_cases inside : id < middle.size
  · obtain ⟨old, oldTransfer, oldHolds⟩ := Arena.exists_holds inside
    obtain ⟨rfl, rfl⟩ := holds.unique (keeps _ _ _ oldHolds)
    rw [agree id inside]
    exact (earlier id _ _ isNew oldHolds).kept keeps.size_le agree
  · exact rest id code transfer (Nat.not_lt.mp inside) holds

theorem levels_allocate {arena : Arena} {code : List Instruction} {transfer : Transfer}
    (balanced : Balanced ends first heights (arena.size + 1) (heights arena.size) code transfer) :
    Levels ends first heights arena (arena.allocate code transfer).1 := by
  intro id other otherTransfer isNew holds
  have inside := holds.lt_size
  rw [Arena.size_allocate] at inside ⊢
  obtain rfl : id = arena.size := Nat.le_antisymm (Nat.le_of_lt_succ inside) isNew
  rw [Arena.holds_allocate_iff, if_pos rfl] at holds
  obtain ⟨rfl, rfl⟩ := holds
  exact balanced

theorem Levels.countEdge {before after : Arena} (levels : Levels ends first heights before after)
    (target : BlockIndex) : Levels ends first heights before (after.countEdge target) := by
  intro id code transfer isNew holds
  rw [Arena.holds_countEdge_iff] at holds
  rw [Arena.size_countEdge]
  exact levels id code transfer isNew holds

theorem levels_loop {start last linked : Arena} {next : BlockIndex}
    (levels : Levels ends first heights (start.newBlock []).1 last) (sameSize : linked.size = last.size)
    (holds_iff : ∀ id code transfer, linked.Holds id code transfer ↔
      if id = start.size then code = [] ∧ transfer = .jump next else last.Holds id code transfer)
    (stands : Stands first (heights start.size) heights last.size next) :
    Levels ends first heights start linked := by
  intro id code transfer isNew holds
  rw [holds_iff] at holds
  rw [sameSize]
  split at holds
  · rename_i isPivot
    obtain ⟨rfl, rfl⟩ := holds
    rw [isPivot]
    exact .jump rfl stands
  · rename_i different
    refine levels id code transfer ?_ holds
    rw [Arena.newBlock, Arena.size_allocate]
    exact Nat.lt_of_le_of_ne isNew (Ne.symm different)

/-- Every path comes to a block at the height of that block. -/
theorem Levels.path {before graph : Arena} {root id : BlockIndex} {path : List BlockIndex}
    (levels : Levels ends before.size heights before graph)
    (start : Stands before.size 0 heights graph.size root) (isPath : Path graph root id path) :
    before.size ≤ id ∧ id < graph.size ∧ graph.heightAlong path = heights id := by
  induction isPath with
  | root => exact ⟨start.from_first, start.inside, by simp [Arena.heightAlong, start.height]⟩
  | @edge id next ancestors _ isNext ih =>
      obtain ⟨isNew, -, here⟩ := ih
      cases found : graph.get? id with
      | none => simp [Arena.successors_of_none found] at isNext
      | some block =>
          rw [Arena.successors_of_get found] at isNext
          obtain ⟨nextNew, nextInside, behind⟩ :=
            (levels id _ _ isNew ⟨block, found, rfl, rfl⟩).successor isNext
          refine ⟨nextNew, nextInside, ?_⟩
          rw [behind, ← here]
          simp only [Arena.heightAlong, Arena.rise, found]

end Scope

end Assay.Graph
