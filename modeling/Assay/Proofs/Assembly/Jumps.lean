import Assay.Proofs.Assembly.Addresses
import Assay.Proofs.Assembly.Emission

/-!
The sizes of blocks follow from their instructions, and so do the addresses of blocks in a layout.
Linearizing fails in one way only: a jump that is emitted leads to an address beyond two bytes.
-/

namespace Assay.Assembly

open Bytecode Assay.Graph Lowering

def instructionSize : Instruction → Nat
  | .const _ => Opcode.pushConstant.size
  | .newString _ => Opcode.pushConstant.size
  | .load _ => Opcode.load.size
  | .getField _ _ => Opcode.getField.size
  | .putField _ _ => Opcode.setField.size
  | .arithmetic operator => (arithmeticOpcode operator).size
  | .virtualCall _ _ _ _ => Opcode.invokeVirtual.size
  | .ret kind => (if kind = .void then Opcode.ret else Opcode.retValue).size
  | .unknown _ => 0

def codeSize (code : List Instruction) : Nat := (code.map instructionSize).sum

def blockSize (arena : Arena) (next : Option BlockIndex) (id : BlockIndex) : Nat :=
  match arena.get? id with
  | some block => codeSize block.code + transferSize next block.transfer
  | none => 0

def addressOf (arena : Arena) : List BlockIndex → BlockIndex → Nat
  | [], _ => 0
  | id :: rest, target =>
    if id = target then 0 else blockSize arena rest.head? id + addressOf arena rest target

/-- Where the jumps of a transfer lead; no jump leads to the block that follows if control can just go
on to it. -/
def jumpTargets (next : Option BlockIndex) : Transfer → List BlockIndex
  | .exit => []
  | .jump target => if next = some target then [] else [target]
  | .branch _ yes no => yes :: if next = some no then [] else [no]

def emittedJumps (arena : Arena) : List BlockIndex → List BlockIndex
  | [] => []
  | id :: rest =>
    (match arena.get? id with
      | some block => jumpTargets rest.head? block.transfer
      | none => []) ++ emittedJumps arena rest

def FarJump (arena : Arena) (root : BlockIndex) : Prop :=
  ∃ target ∈ emittedJumps arena (arena.layout root),
    65535 < addressOf arena (arena.layout root) target

instance (arena : Arena) (root : BlockIndex) : Decidable (FarJump arena root) :=
  inferInstanceAs (Decidable (∃ target ∈ emittedJumps arena (arena.layout root), _))

theorem Lowers.size {constants : Array Constant} {instruction : Instruction} {opcode : Opcode}
    {operands : List Int} (lowers : Lowers constants instruction opcode operands) :
    opcode.size = instructionSize instruction := by
  cases lowers <;> rfl

theorem Encodes.size {constants : Array Constant} {code : List Instruction} {bytes : List UInt8}
    (encodes : Encodes constants code bytes) : bytes.length = codeSize code := by
  induction encodes with
  | nil => rfl
  | cons lowers encoded _ ih =>
      rw [List.length_append, encode_length encoded, lowers.size, ih]
      simp [codeSize]

def Faithful (arena : Arena) (placed : List Placed) : Prop :=
  ∀ block ∈ placed, ∃ stored, arena.get? block.id = some stored ∧
    stored.transfer = block.transfer ∧ block.bytes.size = codeSize stored.code

theorem following_eq (placed : List Placed) : following placed = (placed.map Placed.id).head? := by
  cases placed <;> rfl

theorem Faithful.blockSize {arena : Arena} {block : Placed} {rest : List Placed}
    (faithful : Faithful arena (block :: rest)) :
    Assembly.blockSize arena (rest.map Placed.id).head? block.id =
      block.bytes.size + transferSize (following rest) block.transfer := by
  obtain ⟨stored, found, sameTransfer, size⟩ := faithful block List.mem_cons_self
  simp only [Assembly.blockSize, found, sameTransfer, size, following_eq]

theorem Addressed.address {addresses : Std.HashMap BlockIndex Nat} {arena : Arena}
    {placed : List Placed} {start : Nat} (addressed : Addressed addresses placed start)
    (faithful : Faithful arena placed) {target : BlockIndex}
    (isPlaced : target ∈ placed.map Placed.id) :
    addresses[target]? = some (start + addressOf arena (placed.map Placed.id) target) := by
  induction placed generalizing start with
  | nil => simp at isPlaced
  | cons block rest ih =>
      simp only [List.map_cons, addressOf]
      by_cases here : block.id = target
      · subst here
        rw [if_pos rfl]
        exact addressed.1
      · have later : target ∈ rest.map Placed.id :=
          (List.mem_cons.mp isPlaced).resolve_left (Ne.symm here)
        have found := ih addressed.2 (fun other member => faithful other (List.mem_cons_of_mem _ member))
          later
        rw [if_neg here, faithful.blockSize, found, Nat.add_assoc]

section Encoding

variable {addresses : Std.HashMap BlockIndex Nat} {address : BlockIndex → Nat}

theorem encodeJump_outcome {opcode : Opcode} {target : BlockIndex} (wide : opcode.widths = [2])
    (known : addresses[target]? = some (address target)) :
    (∃ bytes, encodeJump addresses opcode target = .ok bytes ∧ address target ≤ 65535) ∨
      ∃ problem, encodeJump addresses opcode target = .error problem ∧ TooWide problem ∧
        65535 < address target := by
  rcases Nat.lt_or_ge (address target) 65536 with small | large
  · obtain ⟨bytes, encoded⟩ := encode_index wide small
    exact .inl ⟨bytes, by simp [encodeJump, known, encoded, Except.mapError], by omega⟩
  · refine .inr ⟨_, ?_, ⟨opcode, address target, by omega, rfl⟩, by omega⟩
    simp [encodeJump, known, encode_wide wide large, Except.mapError]

theorem encodeJumpUnlessFollowing_outcome (next : Option BlockIndex) {target : BlockIndex}
    (known : addresses[target]? = some (address target)) :
    (∃ bytes, encodeJumpUnlessFollowing addresses next target = .ok bytes ∧
        ∀ other ∈ jumpTargets next (.jump target), address other ≤ 65535) ∨
      ∃ problem, encodeJumpUnlessFollowing addresses next target = .error problem ∧
        TooWide problem ∧ ∃ other ∈ jumpTargets next (.jump target), 65535 < address other := by
  simp only [encodeJumpUnlessFollowing, jumpTargets]
  split
  · exact .inl ⟨[], rfl, by simp⟩
  · simp only [List.mem_singleton, forall_eq, exists_eq_left]
    exact encodeJump_outcome rfl known

theorem jumpOpcode?_of_known {cond : Cond} (known : cond.isKnown = true) :
    ∃ opcode, jumpOpcode? cond = some opcode ∧ opcode.widths = [2] := by
  cases cond with
  | none => simp [Cond.isKnown] at known
  | unknown code => simp [Cond.isKnown] at known
  | _ => exact ⟨_, rfl, rfl⟩

variable {plain : Instruction → Prop} {size : Nat}

theorem encodeTransfer_outcome {code : List Instruction} {transfer : Transfer}
    (finished : Finished plain size code transfer) (next : Option BlockIndex)
    (known : ∀ target ∈ transfer.successors, addresses[target]? = some (address target)) :
    (∃ bytes, encodeTransfer addresses next transfer = .ok bytes ∧
        ∀ target ∈ jumpTargets next transfer, address target ≤ 65535) ∨
      ∃ problem, encodeTransfer addresses next transfer = .error problem ∧ TooWide problem ∧
        ∃ target ∈ jumpTargets next transfer, 65535 < address target := by
  cases finished with
  | exit kind body => exact .inl ⟨[], rfl, by simp [jumpTargets]⟩
  | jump isPlain inside =>
      exact encodeJumpUnlessFollowing_outcome next (known _ (by simp [Transfer.successors]))
  | @branch _ cond yes no isPlain testable yesInside noInside =>
      obtain ⟨opcode, jumps, wide⟩ := jumpOpcode?_of_known testable
      have yesKnown := known yes (by simp [Transfer.successors])
      have noKnown := known no (by simp [Transfer.successors])
      have targets : ∀ target, target ∈ jumpTargets next (.branch cond yes no) ↔
          target = yes ∨ target ∈ jumpTargets next (.jump no) := by
        intro target
        simp only [jumpTargets, List.mem_cons]
      simp only [encodeTransfer, jumps, targets]
      rcases encodeJump_outcome wide yesKnown with ⟨taken, takenBy, near⟩ | ⟨problem, failed, tooWide, far⟩
      · rcases encodeJumpUnlessFollowing_outcome next noKnown with
          ⟨otherwise, otherwiseBy, allNear⟩ | ⟨problem, failed, tooWide, target, isTarget, far⟩
        · refine .inl ⟨taken ++ otherwise, ?_, ?_⟩
          · simp only [takenBy, otherwiseBy, bind, Except.bind, pure, Except.pure]
          · rintro target (rfl | isTarget)
            · exact near
            · exact allNear target isTarget
        · refine .inr ⟨problem, ?_, tooWide, target, .inr isTarget, far⟩
          simp only [takenBy, failed, bind, Except.bind]
      · refine .inr ⟨problem, ?_, tooWide, yes, .inl rfl, far⟩
        simp only [failed, bind, Except.bind]

theorem joinBlocks_outcome {isField : String → Prop} {arena : Arena}
    (complete : Complete isField arena) {placed : List Placed} (faithful : Faithful arena placed)
    (known : ∀ block ∈ placed, ∀ target ∈ arena.successors block.id,
      addresses[target]? = some (address target)) (start : Array UInt8) :
    (∃ code, joinBlocks addresses placed start = .ok code ∧
        ∀ target ∈ emittedJumps arena (placed.map Placed.id), address target ≤ 65535) ∨
      ∃ problem, joinBlocks addresses placed start = .error problem ∧ TooWide problem ∧
        ∃ target ∈ emittedJumps arena (placed.map Placed.id), 65535 < address target := by
  induction placed generalizing start with
  | nil => exact .inl ⟨start, rfl, by simp [emittedJumps]⟩
  | cons block rest ih =>
      obtain ⟨stored, found, sameTransfer, -⟩ := faithful block List.mem_cons_self
      have targets : ∀ target, target ∈ emittedJumps arena ((block :: rest).map Placed.id) ↔
          target ∈ jumpTargets (following rest) block.transfer ∨
            target ∈ emittedJumps arena (rest.map Placed.id) := by
        intro target
        simp only [List.map_cons, emittedJumps, found, sameTransfer, List.mem_append, following_eq]
      have finished := complete block.id _ _ ⟨stored, found, rfl, rfl⟩
      have here := known block List.mem_cons_self
      rw [Arena.successors_of_get found] at here
      rw [sameTransfer] at finished here
      simp only [joinBlocks, targets]
      rcases encodeTransfer_outcome finished (following rest) here with
        ⟨bytes, encoded, near⟩ | ⟨problem, failed, tooWide, target, isTarget, far⟩
      · simp only [encoded]
        rcases ih (fun other member => faithful other (List.mem_cons_of_mem _ member))
            (fun other member => known other (List.mem_cons_of_mem _ member))
            (start ++ block.bytes ++ bytes.toArray) with
          ⟨code, joined, allNear⟩ | ⟨problem, failed, tooWide, target, isTarget, far⟩
        · refine .inl ⟨code, joined, ?_⟩
          rintro target (isHere | isLater)
          · exact near target isHere
          · exact allNear target isLater
        · exact .inr ⟨problem, failed, tooWide, target, .inr isTarget, far⟩
      · simp only [failed]
        exact .inr ⟨problem, rfl, tooWide, target, .inl isTarget, far⟩

end Encoding

theorem placedBlocks_of_lowered {arena : Arena} {lowered : Std.HashMap BlockIndex (Array UInt8)}
    {ids : List BlockIndex} (isLowered : ∀ id ∈ ids, lowered.contains id = true)
    (inside : ∀ id ∈ ids, id < arena.size) :
    ∃ placed, placedBlocks arena lowered ids = .ok placed := by
  induction ids with
  | nil => exact ⟨[], rfl⟩
  | cons id rest ih =>
      obtain ⟨bytes, found⟩ : ∃ bytes, lowered[id]? = some bytes := by
        have here := isLowered id List.mem_cons_self
        rw [Std.HashMap.contains_eq_isSome_getElem?] at here
        exact Option.isSome_iff_exists.mp here
      obtain ⟨code, transfer, block, stored, -⟩ := Arena.exists_holds (inside id List.mem_cons_self)
      obtain ⟨placed, done⟩ := ih (fun other later => isLowered other (List.mem_cons_of_mem _ later))
        fun other later => inside other (List.mem_cons_of_mem _ later)
      exact ⟨_, by simp only [placedBlocks, found, stored, done]; rfl⟩

/-- The code of a routine whose blocks are lowered is assembled, unless a jump leads too far. -/
theorem linearize_outcome {isField : String → Prop} {arena : Arena} {generator : Generator}
    {root : BlockIndex} (complete : Complete isField arena) (sound : generator.Sound arena)
    (inside : root < arena.size)
    (lowered : ∀ id, Reachable arena root id → generator.lowered.contains id = true) :
    (∃ code, linearize generator arena root = .ok code ∧ ¬FarJump arena root) ∨
      ∃ problem, linearize generator arena root = .error problem ∧ TooWide problem ∧
        FarJump arena root := by
  have layout := arena.layout_laidOut root
  obtain ⟨placed, done⟩ := placedBlocks_of_lowered
    (fun id isPlaced => lowered id (layout.reached id isPlaced))
    fun id isPlaced => complete.closed.reachable_lt inside (layout.reached id isPlaced)
  obtain ⟨sameIds, known⟩ := placedBlocks_ok done
  have faithful : Faithful arena placed := by
    intro block isPlaced
    obtain ⟨isLowered, sameTransfer⟩ := known block isPlaced
    obtain ⟨stored, found, encodes, -⟩ := sound.lowered block.id block.bytes isLowered
    rw [found, Option.map_some, Option.some.injEq] at sameTransfer
    exact ⟨stored, found, sameTransfer, by simpa using encodes.size⟩
  have distinct : (placed.map Placed.id).Nodup := by
    rw [sameIds]
    exact layout.distinct
  have addressed := addressed_addressTable distinct 0 {}
  have addresses : ∀ block ∈ placed, ∀ target ∈ arena.successors block.id,
      (addressTable placed 0 {})[target]? = some (addressOf arena (arena.layout root) target) := by
    intro block isPlaced target isNext
    have isPlacedId : block.id ∈ arena.layout root := sameIds ▸ List.mem_map_of_mem isPlaced
    have isTarget := layout.closed block.id isPlacedId target isNext
    have found := addressed.address faithful (sameIds ▸ isTarget)
    simpa [sameIds] using found
  have outcome := joinBlocks_outcome complete faithful addresses #[]
  rw [sameIds] at outcome
  simp only [linearize, done, bind, Except.bind]
  rcases outcome with ⟨code, joined, near⟩ | ⟨problem, failed, tooWide, target, isTarget, far⟩
  · refine .inl ⟨code, joined, ?_⟩
    rintro ⟨target, isTarget, far⟩
    have bound := near target isTarget
    omega
  · exact .inr ⟨problem, failed, tooWide, target, isTarget, far⟩

theorem transferSize_le (next : Option BlockIndex) (transfer : Transfer) :
    transferSize next transfer ≤ 6 := by
  have jump : ∀ target, jumpSize next target ≤ 3 := by
    intro target
    unfold jumpSize
    split
    · decide
    · decide
  cases transfer with
  | exit => exact Nat.zero_le 6
  | jump target => exact Nat.le_trans (jump target) (by decide)
  | branch cond yes no =>
      have test : condJumpSize cond ≤ 3 := by
        cases cond with
        | unknown code => exact Nat.le_add_left 1 2
        | _ => decide
      exact Nat.add_le_add test (jump no)

theorem blockSize_le {arena : Arena} {limit : Nat}
    (bounded : ∀ block ∈ arena.blocks, codeSize block.code + 6 ≤ limit) (next : Option BlockIndex)
    (id : BlockIndex) : blockSize arena next id ≤ if id < arena.size then limit else 0 := by
  unfold blockSize
  split
  · rename_i block found
    rw [if_pos (Arena.lt_size_of_get found)]
    have small := bounded block (Array.mem_of_getElem? found)
    have transfer := transferSize_le next block.transfer
    omega
  · exact Nat.zero_le _

theorem addressOf_le {arena : Arena} {limit : Nat}
    (bounded : ∀ block ∈ arena.blocks, codeSize block.code + 6 ≤ limit) (ids : List BlockIndex)
    (target : BlockIndex) :
    addressOf arena ids target ≤ (ids.filter fun id => id < arena.size).length * limit := by
  induction ids with
  | nil => exact Nat.zero_le _
  | cons id rest ih =>
      unfold addressOf
      split
      · exact Nat.zero_le _
      · have here := blockSize_le bounded rest.head? id
        rw [List.filter_cons]
        by_cases inside : id < arena.size
        · simp only [inside, if_true, decide_true, List.length_cons, Nat.succ_mul] at here ⊢
          omega
        · simp only [inside, if_false, decide_false, Bool.false_eq_true] at here ⊢
          omega

theorem not_farJump {arena : Arena} {limit : Nat}
    (bounded : ∀ block ∈ arena.blocks, codeSize block.code + 6 ≤ limit)
    (few : arena.size * limit ≤ 65535) (root : BlockIndex) : ¬FarJump arena root := by
  rintro ⟨target, -, far⟩
  have inside : ((arena.layout root).filter fun id => id < arena.size).length ≤ arena.size := by
    have distinct := (arena.layout_laidOut root).distinct.filter fun id => decide (id < arena.size)
    have subset : ((arena.layout root).filter fun id => decide (id < arena.size)) ⊆
        List.range arena.size := by
      intro id member
      exact List.mem_range.mpr (of_decide_eq_true (List.mem_filter.mp member).2)
    simpa using (distinct.subperm subset).length_le
  have bound := addressOf_le bounded (arena.layout root) target
  have total := Nat.mul_le_mul_right limit inside
  omega

end Assay.Assembly
