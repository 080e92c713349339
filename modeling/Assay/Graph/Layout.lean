import Assay.Graph.Arena
import Std.Data.HashSet

/-!
The order of blocks in the code of a routine. A block is followed by its only successor, or by the
successor taken when its condition fails, unless that block is already placed. The other successors
of branches wait; the one that waited least is placed next.
-/

namespace Assay.Graph

/-- Blocks placed so far, newest first, and the successors that wait for their turn. -/
structure Placement where
  placed : Std.HashSet BlockIndex
  order : List BlockIndex
  waiting : List BlockIndex

def Placement.start : Placement := { placed := {}, order := [], waiting := [] }

def Placement.place (placement : Placement) (id : BlockIndex) : Placement :=
  { placement with placed := placement.placed.insert id, order := id :: placement.order }

/-- Places blocks from a candidate on. A block is placed in one step, brings at most one waiting
successor, and the candidates after it are dropped in at most two more steps, so four steps per block
are enough fuel. -/
def Arena.layoutFrom (arena : Arena) : Nat → Placement → Option BlockIndex → List BlockIndex
  | 0, placement, _ => placement.order.reverse
  | fuel + 1, placement, none =>
    match placement.waiting with
    | [] => placement.order.reverse
    | next :: waiting => arena.layoutFrom fuel { placement with waiting } (some next)
  | fuel + 1, placement, some id =>
    if placement.placed.contains id then arena.layoutFrom fuel placement none
    else
      let grown := placement.place id
      match (arena.get? id).map Block.transfer with
      | some (.jump next) => arena.layoutFrom fuel grown (some next)
      | some (.branch _ yes no) =>
        arena.layoutFrom fuel { grown with waiting := yes :: grown.waiting } (some no)
      | _ => arena.layoutFrom fuel grown none

def Arena.layout (arena : Arena) (root : BlockIndex) : List BlockIndex :=
  arena.layoutFrom (4 * arena.size + 4) .start (some root)

end Assay.Graph
