import Assay.Graph.Instruction

/-!
Block graphs. The blocks of one arena are numbered in the order of their allocation and are never
removed. A block may be reached over several edges, also over edges that close a loop.
-/

namespace Assay.Graph

/-- The position of a block in its arena. Blocks refer to each other by it. -/
abbrev BlockIndex := Nat

/-- The number that a block carries: its position as far as 32 bits can tell. -/
structure BlockId where
  number : UInt32
deriving DecidableEq, Repr, Inhabited

namespace BlockId

def ofIndex (index : BlockIndex) : BlockId := ⟨UInt32.ofNat index⟩

def index (id : BlockId) : BlockIndex := id.number.toNat

instance : Coe BlockIndex BlockId := ⟨ofIndex⟩

instance : Coe BlockId BlockIndex := ⟨index⟩

def text (id : BlockId) : String := toString id.index

end BlockId

inductive Transfer
  | exit
  | jump (next : BlockIndex)
  | branch (cond : Cond) (yes no : BlockIndex)
deriving DecidableEq, Repr, Inhabited

namespace Transfer

def successors : Transfer → List BlockIndex
  | exit => []
  | jump next => [next]
  | branch _ yes no => [yes, no]

def cond : Transfer → Cond
  | branch cond _ _ => cond
  | _ => .none

def isExit : Transfer → Bool
  | exit => true
  | _ => false

end Transfer

/-- Instructions, then a transfer. `incoming` counts the edges that lead to the block. -/
structure Block where
  id : BlockId
  code : List Instruction
  transfer : Transfer
  incoming : Nat
deriving DecidableEq, Repr, Inhabited

namespace Block

def successors (block : Block) : List BlockIndex := block.transfer.successors

def cond (block : Block) : Cond := block.transfer.cond

def isExit (block : Block) : Bool := block.transfer.isExit

def isShared (block : Block) : Bool := 1 < block.incoming

end Block

structure BlockSummary where
  id : BlockId
  instructions : Nat
  successors : Nat
deriving DecidableEq, Repr, Inhabited

def BlockSummary.text (summary : BlockSummary) : String :=
  "block " ++ summary.id.text ++ " (" ++ toString summary.instructions ++ " instructions, " ++
    toString summary.successors ++ " successors)"

def Block.summary (block : Block) : BlockSummary :=
  { id := block.id, instructions := block.code.length, successors := block.successors.length }

/-- Arenas are told apart by their tag. -/
structure Arena where
  tag : Nat
  blocks : Array Block
deriving DecidableEq, Repr, Inhabited

structure BlockRef where
  arena : Nat
  index : BlockIndex
deriving DecidableEq, Repr, Inhabited

def BlockRef.id (block : BlockRef) : BlockId := block.index

inductive ArenaError
  | alreadyLinked (id : BlockId)
  | foreignBlock (id : BlockId)
  | missingCondition
deriving DecidableEq, Repr

def ArenaError.message : ArenaError → String
  | alreadyLinked id => "block already has successors: block " ++ id.text
  | foreignBlock id => "block belongs to another arena: block " ++ id.text
  | missingCondition => "a branch requires a condition"

namespace Arena

def empty (tag : Nat) : Arena := { tag, blocks := #[] }

def size (arena : Arena) : Nat := arena.blocks.size

def get? (arena : Arena) (index : BlockIndex) : Option Block := arena.blocks[index]?

def find? (arena : Arena) (id : BlockId) : Option Block := arena.get? id

def successors (arena : Arena) (id : BlockIndex) : List BlockIndex :=
  match arena.get? id with
  | some block => block.successors
  | none => []

def ref (arena : Arena) (index : BlockIndex) : BlockRef := { arena := arena.tag, index }

def owns (arena : Arena) (block : BlockRef) : Bool := block.arena = arena.tag

def allocate (arena : Arena) (code : List Instruction) (transfer : Transfer) : Arena × BlockIndex :=
  let { tag, blocks } := arena
  let index := blocks.size
  ({ tag, blocks := blocks.push { id := index, code, transfer, incoming := 0 } }, index)

def countEdge (arena : Arena) (id : BlockIndex) : Arena :=
  { arena with
    blocks := arena.blocks.modify id fun block => { block with incoming := block.incoming + 1 } }

def newBlock (arena : Arena) (code : List Instruction) : Arena × BlockIndex :=
  arena.allocate code .exit

def jump (arena : Arena) (next : BlockIndex) (code : List Instruction) : Arena × BlockIndex :=
  let (grown, id) := arena.allocate code (.jump next)
  (grown.countEdge next, id)

def branch (arena : Arena) (cond : Cond) (yes no : BlockIndex) : Arena × BlockIndex :=
  let (grown, id) := arena.allocate [] (.branch cond yes no)
  ((grown.countEdge yes).countEdge no, id)

/-- A block that runs `code` and then `next`, which itself is left alone. Without code this is `next`. -/
def prepend (arena : Arena) (code : List Instruction) (next : BlockIndex) : Arena × BlockIndex :=
  if code.isEmpty then (arena, next) else arena.jump next code

/-- Makes `next` the only successor of a block that has none. Loops are closed this way: the block at
the head of a loop exists before the body that leads back to it. -/
def link (arena : Arena) (id next : BlockIndex) : Except ArenaError Arena :=
  match arena.get? id with
  | some block =>
    if block.isExit then
      .ok ({ arena with
        blocks := arena.blocks.modify id fun block => { block with transfer := .jump next } }.countEdge
          next)
    else .error (.alreadyLinked block.id)
  | none => .error (.foreignBlock id)

/-- `jump` to a block of any arena. A block of another arena is rejected after the allocation. -/
def jumpTo (arena : Arena) (next : BlockRef) (code : List Instruction) :
    Arena × Except ArenaError BlockIndex :=
  if arena.owns next then
    let (grown, id) := arena.jump next.index code
    (grown, .ok id)
  else ((arena.newBlock code).1, .error (.foreignBlock next.id))

/-- `branch` to blocks of any arena. A missing condition is rejected before the allocation, a block of
another arena after it. -/
def branchTo (arena : Arena) (cond : Cond) (yes no : BlockRef) : Arena × Except ArenaError BlockIndex :=
  if cond = .none then (arena, .error .missingCondition)
  else if !arena.owns yes then ((arena.newBlock []).1, .error (.foreignBlock yes.id))
  else if !arena.owns no then ((arena.newBlock []).1, .error (.foreignBlock no.id))
  else
    let (grown, id) := arena.branch cond yes.index no.index
    (grown, .ok id)

def linkTo (arena : Arena) (id : BlockIndex) (next : BlockRef) : Except ArenaError Arena :=
  match arena.get? id with
  | some block =>
    if !block.isExit then .error (.alreadyLinked block.id)
    else if arena.owns next then arena.link id next.index
    else .error (.foreignBlock next.id)
  | none => .error (.foreignBlock id)

end Arena

inductive ArenaCall
  | newBlock (code : List Instruction)
  | jump (next : BlockRef) (code : List Instruction)
  | branch (cond : Cond) (yes no : BlockRef)
  | prepend (code : List Instruction) (next : BlockIndex)
  | link (id : BlockIndex) (next : BlockRef)
deriving DecidableEq, Repr

/-- Performs a request; the result is the block that it is about. A rejected request may still have
allocated a block. -/
def Arena.perform (arena : Arena) : ArenaCall → Arena × Except ArenaError BlockIndex
  | .newBlock code =>
    let (grown, id) := arena.newBlock code
    (grown, .ok id)
  | .jump next code => arena.jumpTo next code
  | .branch cond yes no => arena.branchTo cond yes no
  | .prepend code next =>
    let (grown, id) := arena.prepend code next
    (grown, .ok id)
  | .link id next =>
    match arena.linkTo id next with
    | .ok linked => (linked, .ok id)
    | .error cause => (arena, .error cause)

end Assay.Graph
