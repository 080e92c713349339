import Assay.Graph.Arena
import Std.Data.HashSet

/-!
Depth-first traversal of a block graph. The traversal is recorded as a trace: a block is entered when
it is first seen and left after everything behind it has been left.
-/

namespace Assay.Graph

inductive Visit
  | enter (id : BlockIndex)
  | leave (id : BlockIndex)
deriving DecidableEq, Repr

structure Trail where
  seen : Std.HashSet BlockIndex
  trace : List Visit

/-- Visits what can be reached from a block and has not been seen. Every nested call enters a block
that was not seen before, so the number of blocks is enough fuel. -/
def Arena.visit (arena : Arena) : Nat → Trail → BlockIndex → Trail
  | 0, trail, _ => trail
  | fuel + 1, trail, id =>
    if trail.seen.contains id then trail
    else
      let entered : Trail := { seen := trail.seen.insert id, trace := .enter id :: trail.trace }
      let inner := (arena.successors id).foldl (arena.visit fuel) entered
      { inner with trace := .leave id :: inner.trace }

def Arena.traversal (arena : Arena) (seen : Std.HashSet BlockIndex) (root : BlockIndex) : List Visit :=
  (arena.visit (arena.size + 1) { seen, trace := [] } root).trace.reverse

/-- The blocks of a trace in the order in which they are left: successors first. -/
def leaveOrder (trace : List Visit) : List BlockIndex :=
  trace.filterMap fun
    | .leave id => some id
    | .enter _ => none

def enterCount (trace : List Visit) : Nat :=
  (trace.filter fun
    | .enter _ => true
    | .leave _ => false).length

end Assay.Graph
