import Assay.Machine.Value

/-!
What a running program reads and changes outside its frames: the heap, the output and the clock.
-/

namespace Assay.Machine

/-- The n-th reading of the clock, counted from zero, is `clock n`. A write is accepted only if the
output stays within the limit, which counts bytes. -/
structure World where
  heap : Array Object
  output : String
  outputLimit : Option Nat
  clock : Nat → Int64
  readings : Nat

namespace World

def new (clock : Nat → Int64) (outputLimit : Option Nat) : World :=
  { heap := #[], output := "", outputLimit, clock, readings := 0 }

def object? (world : World) (address : Nat) : Option Object := world.heap[address]?

def allocate (world : World) (object : Object) : World × Nat :=
  let address := world.heap.size
  ({ world with heap := world.heap.push object }, address)

def setField (world : World) (address : Nat) (field : String) (value : Value) : World :=
  { world with heap := world.heap.modify address fun object => object.set field value }

def accepts (world : World) (text : String) : Bool :=
  match world.outputLimit with
  | some limit => world.output.utf8ByteSize + text.utf8ByteSize ≤ limit
  | none => true

def write? (world : World) (text : String) : Option World :=
  if world.accepts text then some { world with output := world.output ++ text } else none

def readClock (world : World) : World × Int64 :=
  let reading := world.clock world.readings
  ({ world with readings := world.readings + 1 }, reading)

def writtenSince (world : World) (earlier : String) : String :=
  String.ofList (world.output.toList.drop earlier.length)

end World

end Assay.Machine
