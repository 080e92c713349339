import Assay.Graph.Traversal

/-!
One compilation run: its arena, the units of code whose lowering was started, the roots of their code,
and the blocks that were handed to the backend.
-/

namespace Assay.Graph

structure UnitName where
  qualified : String
  serial : Nat
deriving DecidableEq, Repr, Inhabited

structure Run where
  arena : Arena
  started : List UnitName
  code : List (UnitName × BlockIndex)
  visited : Std.HashSet BlockIndex

inductive RunError
  | codeAlreadySet (unit : UnitName)
  | arena (cause : ArenaError)
deriving DecidableEq, Repr

def RunError.message : RunError → String
  | codeAlreadySet unit => "code already set: " ++ unit.qualified
  | arena cause => cause.message

namespace Run

def new (tag : Nat) : Run :=
  { arena := Arena.empty tag, started := [], code := [], visited := {} }

def isStarted (run : Run) (unit : UnitName) : Bool := run.started.contains unit

def markStarted (run : Run) (unit : UnitName) : Run × Bool :=
  if run.isStarted unit then (run, false)
  else ({ run with started := unit :: run.started }, true)

def codeOf? (run : Run) (unit : UnitName) : Option BlockIndex :=
  run.code.lookup unit

/-- Records the root of the code of a unit. It is recorded once per run. -/
def setCode (run : Run) (unit : UnitName) (root : BlockIndex) : Except RunError Run :=
  if (run.codeOf? unit).isSome then .error (.codeAlreadySet unit)
  else .ok { run with code := (unit, root) :: run.code }

def setCodeTo (run : Run) (unit : UnitName) (root : BlockRef) : Except RunError Run :=
  if (run.codeOf? unit).isSome then .error (.codeAlreadySet unit)
  else if run.arena.owns root then run.setCode unit root.index
  else .error (.arena (.foreignBlock root.id))

def isVisited (run : Run) (id : BlockIndex) : Bool := run.visited.contains id

def visitedCount (run : Run) : Nat := run.visited.size

/-- The trace that hands over every block reachable from `root` that was not handed over before. -/
def pending (run : Run) (root : BlockIndex) : List Visit :=
  run.arena.traversal run.visited root

def enter (run : Run) (id : BlockIndex) : Run :=
  { run with visited := run.visited.insert id }

/-- Hands over the pending blocks; they are listed successors first. -/
def handOver (run : Run) (root : BlockIndex) : Run × List BlockIndex :=
  let trace := run.pending root
  (trace.foldl (fun run visit =>
    match visit with
    | .enter id => run.enter id
    | .leave _ => run) run, leaveOrder trace)

def handOverFrom (run : Run) (root : BlockRef) : Except RunError (Run × List BlockIndex) :=
  if run.arena.owns root then .ok (run.handOver root.index) else .error (.arena (.foreignBlock root.id))

end Run

end Assay.Graph
