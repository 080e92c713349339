import Assay.Proofs.Assembly.Materialization
import Assay.Proofs.Graph.Layout

/-!
Where the blocks of a routine stand in its code. The addresses computed from the sizes of blocks and
transfers are the offsets at which the blocks are joined, and every successor of a block has one.
-/

namespace Assay.Assembly

open Bytecode Assay.Graph

/-- The code of a routine with what it was made from. -/
structure RoutineCode where
  arena : Arena
  constants : Array Constant
  addresses : Std.HashMap BlockIndex Nat
  code : Array UInt8

theorem encodeJump_length {addresses : Std.HashMap BlockIndex Nat} {opcode : Opcode}
    {target : BlockIndex} {bytes : List UInt8}
    (encoded : encodeJump addresses opcode target = .ok bytes) : bytes.length = opcode.size :=
  encode_length (mapError_ok encoded)

theorem encodeJumpUnlessFollowing_length {addresses : Std.HashMap BlockIndex Nat}
    {next : Option BlockIndex} {target : BlockIndex} {bytes : List UInt8}
    (encoded : encodeJumpUnlessFollowing addresses next target = .ok bytes) :
    bytes.length = jumpSize next target := by
  unfold encodeJumpUnlessFollowing at encoded
  unfold jumpSize
  split
  · rename_i follows
    simp only [follows, if_true, Except.ok.injEq] at encoded
    simp [← encoded]
  · rename_i elsewhere
    simp only [elsewhere, if_false] at encoded
    exact encodeJump_length encoded

theorem encodeTransfer_branch {addresses : Std.HashMap BlockIndex Nat} {next : Option BlockIndex}
    {cond : Cond} {yes no : BlockIndex} {bytes : List UInt8}
    (encoded : encodeTransfer addresses next (.branch cond yes no) = .ok bytes) :
    ∃ opcode taken otherwise, jumpOpcode? cond = some opcode ∧
      encodeJump addresses opcode yes = .ok taken ∧
      encodeJumpUnlessFollowing addresses next no = .ok otherwise ∧ bytes = taken ++ otherwise := by
  simp only [encodeTransfer] at encoded
  split at encoded
  · simp at encoded
  · rename_i opcode known
    cases takenBy : encodeJump addresses opcode yes with
    | error problem => simp [takenBy, bind, Except.bind] at encoded
    | ok taken =>
        cases otherwiseBy : encodeJumpUnlessFollowing addresses next no with
        | error problem => simp [takenBy, otherwiseBy, bind, Except.bind] at encoded
        | ok otherwise =>
            simp only [takenBy, otherwiseBy, bind, Except.bind, pure, Except.pure,
              Except.ok.injEq] at encoded
            exact ⟨opcode, taken, otherwise, known, takenBy, rfl, encoded.symm⟩

theorem encodeTransfer_length {addresses : Std.HashMap BlockIndex Nat} {next : Option BlockIndex}
    {transfer : Transfer} {bytes : List UInt8}
    (encoded : encodeTransfer addresses next transfer = .ok bytes) :
    bytes.length = transferSize next transfer := by
  cases transfer with
  | exit =>
      simp only [encodeTransfer, Except.ok.injEq] at encoded
      simp [← encoded, transferSize]
  | jump target => exact encodeJumpUnlessFollowing_length encoded
  | branch cond yes no =>
      obtain ⟨opcode, taken, otherwise, known, takenBy, otherwiseBy, rfl⟩ :=
        encodeTransfer_branch encoded
      simp only [List.length_append, transferSize, condJumpSize, known]
      rw [encodeJump_length takenBy, encodeJumpUnlessFollowing_length otherwiseBy]

theorem placedBlocks_ok {arena : Arena} {lowered : Std.HashMap BlockIndex (Array UInt8)}
    {ids : List BlockIndex} {placed : List Placed}
    (done : placedBlocks arena lowered ids = .ok placed) :
    placed.map Placed.id = ids ∧ ∀ block ∈ placed, lowered[block.id]? = some block.bytes ∧
      (arena.get? block.id).map Block.transfer = some block.transfer := by
  induction ids generalizing placed with
  | nil =>
      simp only [placedBlocks, Except.ok.injEq] at done
      subst done
      exact ⟨rfl, by simp⟩
  | cons id rest ih =>
      simp only [placedBlocks] at done
      split at done
      · rename_i bytes block lowered found
        split at done
        · rename_i later laterDone
          simp only [Except.ok.injEq] at done
          subst done
          obtain ⟨sameIds, known⟩ := ih laterDone
          refine ⟨by simp [sameIds], ?_⟩
          intro other member
          rcases List.mem_cons.mp member with rfl | member
          · exact ⟨lowered, by simp [found]⟩
          · exact known other member
        · simp at done
      · simp at done

theorem addressTable_of_not_mem {placed : List Placed} {address : Nat}
    {table : Std.HashMap BlockIndex Nat} {id : BlockIndex} (absent : id ∉ placed.map Placed.id) :
    (addressTable placed address table)[id]? = table[id]? := by
  induction placed generalizing address table with
  | nil => rfl
  | cons block rest ih =>
      simp only [List.map_cons, List.mem_cons, not_or] at absent
      rw [addressTable, ih absent.2, Std.HashMap.getElem?_insert]
      have other : ¬block.id = id := fun same => absent.1 same.symm
      simp [other]

namespace RoutineCode

def Settled (routine : RoutineCode) : List Placed → Nat → Prop
  | [], _ => True
  | block :: rest, address =>
    routine.addresses[block.id]? = some address ∧ address ≤ routine.code.size ∧
      Materialized routine.arena routine.constants block.id block.bytes ∧
      (routine.arena.get? block.id).map Block.transfer = some block.transfer ∧
      CodeAt routine.code address block.bytes.toList ∧
      ∃ transfer, encodeTransfer routine.addresses (following rest) block.transfer = .ok transfer ∧
        CodeAt routine.code (address + block.bytes.size) transfer ∧
        routine.Settled rest (address + block.bytes.size + transfer.length)

structure Stands (routine : RoutineCode) (offset : Nat) (code : List Instruction)
    (transfer : Transfer) (rest : List Placed) (bytes left : List UInt8) : Prop where
  encodes : Encodes routine.constants code bytes
  here : CodeAt routine.code offset bytes
  transferred : encodeTransfer routine.addresses (following rest) transfer = .ok left
  transferHere : CodeAt routine.code (offset + bytes.length) left
  behind : routine.Settled rest (offset + bytes.length + left.length)
  returns : transfer = .exit → endsWithReturn code = true

def StandsBlock (routine : RoutineCode) (offset : Nat) (id : BlockIndex) (rest : List Placed) : Prop :=
  ∃ block, routine.arena.get? id = some block ∧ offset ≤ routine.code.size ∧
    ∃ bytes left, routine.Stands offset block.code block.transfer rest bytes left

theorem Settled.head {routine : RoutineCode} {block : Placed} {rest : List Placed}
    {address : Nat} (settled : routine.Settled (block :: rest) address) :
    routine.addresses[block.id]? = some address ∧ routine.StandsBlock address block.id rest := by
  obtain ⟨addressed, inside, ⟨stored, found, encodes, returns⟩, sameTransfer, here, left, encoded,
    leftHere, behind⟩ := settled
  rw [found, Option.map_some, Option.some.injEq] at sameTransfer
  refine ⟨addressed, stored, found, inside, _, left, encodes, here, ?_, ?_, ?_, returns⟩
  · rw [sameTransfer]; exact encoded
  · simpa using leftHere
  · simpa using behind

theorem Settled.find {routine : RoutineCode} {placed : List Placed} {address : Nat} {id : BlockIndex}
    (settled : routine.Settled placed address) (member : id ∈ placed.map Placed.id) :
    ∃ offset rest, routine.addresses[id]? = some offset ∧ routine.StandsBlock offset id rest := by
  induction placed generalizing address with
  | nil => simp at member
  | cons block rest ih =>
      rcases List.mem_cons.mp member with rfl | later
      · obtain ⟨addressed, stands⟩ := settled.head
        exact ⟨address, rest, addressed, stands⟩
      · obtain ⟨_, _, _, _, _, left, _, _, behind⟩ := settled
        exact ih behind later

end RoutineCode

def Addressed (addresses : Std.HashMap BlockIndex Nat) : List Placed → Nat → Prop
  | [], _ => True
  | block :: rest, address => addresses[block.id]? = some address ∧
    Addressed addresses rest
      (address + (block.bytes.size + transferSize (following rest) block.transfer))

theorem addressed_addressTable {placed : List Placed} (distinct : (placed.map Placed.id).Nodup)
    (address : Nat) (table : Std.HashMap BlockIndex Nat) :
    Addressed (addressTable placed address table) placed address := by
  induction placed generalizing address table with
  | nil => trivial
  | cons block rest ih =>
      rw [List.map_cons, List.nodup_cons] at distinct
      constructor
      · rw [addressTable, addressTable_of_not_mem distinct.1]
        simp
      · exact ih distinct.2 _ _

theorem joinBlocks_settled (routine : RoutineCode) {placed : List Placed} {start : Array UInt8}
    (joined : joinBlocks routine.addresses placed start = .ok routine.code)
    (addressed : Addressed routine.addresses placed start.size)
    (materialized : ∀ block ∈ placed,
      Materialized routine.arena routine.constants block.id block.bytes ∧
        (routine.arena.get? block.id).map Block.transfer = some block.transfer) :
    routine.Settled placed start.size ∧ start.toList <+: routine.code.toList := by
  induction placed generalizing start with
  | nil =>
      simp only [joinBlocks, Except.ok.injEq] at joined
      exact ⟨trivial, joined ▸ List.prefix_rfl⟩
  | cons block rest ih =>
      simp only [joinBlocks] at joined
      split at joined
      · simp at joined
      · rename_i transfer encoded
        have sizes : (start ++ block.bytes ++ transfer.toArray).size =
            start.size + (block.bytes.size + transferSize (following rest) block.transfer) := by
          rw [← encodeTransfer_length encoded]
          simp
        obtain ⟨settled, before⟩ := ih joined (by rw [sizes]; exact addressed.2)
          (fun other member => materialized other (List.mem_cons_of_mem _ member))
        obtain ⟨later, whole⟩ := before
        have split : routine.code.toList =
            start.toList ++ (block.bytes.toList ++ (transfer ++ later)) := by
          rw [← whole]
          simp
        have longEnough : start.size ≤ routine.code.size := by
          have lengths := congrArg List.length split
          simp only [Array.length_toList, List.length_append] at lengths
          omega
        have found : CodeAt routine.code start.size (block.bytes.toList ++ transfer) := by
          refine ⟨later, ?_⟩
          rw [split, ← Array.length_toList, List.drop_left]
          simp
        obtain ⟨known, sameTransfer⟩ := materialized block List.mem_cons_self
        refine ⟨⟨addressed.1, longEnough, known, sameTransfer, found.left, transfer, encoded, ?_, ?_⟩,
          ?_⟩
        · simpa using found.right
        · simpa [Nat.add_assoc] using settled
        · exact ⟨_, split.symm⟩

/-- What linearizing gives: the block of the root stands at the start of the code, and so does every
block to which control can go, at its address. -/
structure Linearized (routine : RoutineCode) (root : BlockIndex) : Prop where
  start : ∃ rest, routine.StandsBlock 0 root rest
  reached : ∀ id, Reachable routine.arena root id →
    ∃ offset rest, routine.addresses[id]? = some offset ∧ routine.StandsBlock offset id rest

theorem linearize_linearized {generator : Generator} {arena : Arena} {root : BlockIndex}
    {code : Array UInt8} (sound : generator.Sound arena)
    (linearized : linearize generator arena root = .ok code) :
    ∃ addresses, Linearized { arena, constants := generator.image.constants, addresses, code }
      root := by
  simp only [linearize] at linearized
  cases laid : placedBlocks arena generator.lowered (arena.layout root) with
  | error problem => simp [laid, bind, Except.bind] at linearized
  | ok placed =>
      simp only [laid, bind, Except.bind] at linearized
      obtain ⟨sameIds, known⟩ := placedBlocks_ok laid
      have layout := arena.layout_laidOut root
      have distinct : (placed.map Placed.id).Nodup := by rw [sameIds]; exact layout.distinct
      let routine : RoutineCode :=
        { arena, constants := generator.image.constants, addresses := addressTable placed 0 {}, code }
      obtain ⟨settled, -⟩ := joinBlocks_settled routine linearized
        (addressed_addressTable distinct 0 {}) (fun block member =>
          ⟨sound.lowered _ _ (known block member).1, (known block member).2⟩)
      refine ⟨addressTable placed 0 {}, ?_, ?_⟩
      · obtain ⟨others, head⟩ := arena.layout_head root
        rw [head] at sameIds
        cases placed with
        | nil => simp at sameIds
        | cons block rest =>
            obtain rfl : block.id = root := by simpa using (List.cons.inj sameIds).1
            exact ⟨rest, settled.head.2⟩
      · intro id reachable
        apply settled.find
        rw [sameIds]
        exact arena.mem_layout_of_reachable reachable

end Assay.Assembly
