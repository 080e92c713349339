import Assay.Assembly.Generator
import Assay.Graph.Layout

/-!
Assembling lowered blocks into the code of a routine. A transfer to the block that follows needs no
code; other transfers are jumps to absolute addresses.
-/

namespace Assay.Assembly

open Bytecode Assay.Graph

def jumpOpcode? : Cond → Option Opcode
  | .ifTrue => some .jumpIfTrue
  | .ifEq => some .jumpIfEq
  | .ifNe => some .jumpIfNe
  | .ifLt => some .jumpIfLt
  | .ifLe => some .jumpIfLe
  | .ifGt => some .jumpIfGt
  | .ifGe => some .jumpIfGe
  | _ => none

/-- The size of the jump for a condition; one byte is set aside if there is no such jump. -/
def condJumpSize (cond : Cond) : Nat :=
  match jumpOpcode? cond with
  | some opcode => opcode.size
  | none => 1

/-- The size of an unconditional jump, which is left out to the block that follows. -/
def jumpSize (following : Option BlockIndex) (target : BlockIndex) : Nat :=
  if following = some target then 0 else Opcode.jump.size

def transferSize (following : Option BlockIndex) : Transfer → Nat
  | .exit => 0
  | .jump next => jumpSize following next
  | .branch cond _ no => condJumpSize cond + jumpSize following no

structure Placed where
  id : BlockIndex
  transfer : Transfer
  bytes : Array UInt8

def placedBlocks (arena : Arena) (lowered : Std.HashMap BlockIndex (Array UInt8)) :
    List BlockIndex → Except AssemblyError (List Placed)
  | [] => .ok []
  | id :: rest =>
    match lowered[id]?, arena.get? id with
    | some bytes, some block =>
      match placedBlocks arena lowered rest with
      | .ok placed => .ok ({ id, transfer := block.transfer, bytes } :: placed)
      | .error problem => .error problem
    | _, _ => .error (.notMaterialized (summaryOf arena id))

def following (rest : List Placed) : Option BlockIndex := rest.head?.map Placed.id

def addressTable : List Placed → Nat → Std.HashMap BlockIndex Nat → Std.HashMap BlockIndex Nat
  | [], _, table => table
  | block :: rest, address, table =>
    let size := block.bytes.size + transferSize (following rest) block.transfer
    addressTable rest (address + size) (table.insert block.id address)

def encodeJump (addresses : Std.HashMap BlockIndex Nat) (opcode : Opcode) (target : BlockIndex) :
    Except AssemblyError (List UInt8) :=
  (encode opcode [((addresses[target]?.getD 0 : Nat) : Int)]).mapError .encoding

def encodeJumpUnlessFollowing (addresses : Std.HashMap BlockIndex Nat) (next : Option BlockIndex)
    (target : BlockIndex) : Except AssemblyError (List UInt8) :=
  if next = some target then .ok [] else encodeJump addresses .jump target

def encodeTransfer (addresses : Std.HashMap BlockIndex Nat) (next : Option BlockIndex) :
    Transfer → Except AssemblyError (List UInt8)
  | .exit => .ok []
  | .jump target => encodeJumpUnlessFollowing addresses next target
  | .branch cond yes no =>
    match jumpOpcode? cond with
    | none => .error (.noJump cond)
    | some opcode => do
      let taken ← encodeJump addresses opcode yes
      let otherwise ← encodeJumpUnlessFollowing addresses next no
      pure (taken ++ otherwise)

def joinBlocks (addresses : Std.HashMap BlockIndex Nat) :
    List Placed → Array UInt8 → Except AssemblyError (Array UInt8)
  | [], code => .ok code
  | block :: rest, code =>
    match encodeTransfer addresses (following rest) block.transfer with
    | .error problem => .error problem
    | .ok transfer => joinBlocks addresses rest (code ++ block.bytes ++ transfer.toArray)

/-- The code of the routine that starts at `root`. -/
def linearize (generator : Generator) (arena : Arena) (root : BlockIndex) :
    Except AssemblyError (Array UInt8) := do
  let placed ← placedBlocks arena generator.lowered (arena.layout root)
  joinBlocks (addressTable placed 0 {}) placed #[]

def Generator.addRoutine (generator : Generator) (arena : Arena) (name : String) (params : Int)
    (returns : Kind) (root : BlockIndex) : Except AssemblyError (Generator × Routine) := do
  let code ← linearize generator arena root
  let routine : Routine :=
    { name, isStatic := true, params, locals := params, returns, code }
  match generator.image.addRoutine? routine with
  | some image => pure ({ generator with image }, routine)
  | none => throw (.routineExists generator.image.name name)

end Assay.Assembly
