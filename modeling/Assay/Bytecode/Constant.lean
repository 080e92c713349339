import Assay.Decimal.Format
import Assay.Text.Quoted
import Std.Data.HashMap

/-!
Constants and constant pools. A pool keeps one entry of each constant; equal constants share it.
-/

namespace Assay.Bytecode

inductive Kind
  | void
  | int
  | float
  | ref
  | unknown (code : UInt8)
deriving DecidableEq, Repr, Inhabited

namespace Kind

def ofCode (code : UInt8) : Kind :=
  match code.toNat with
  | 0 => void
  | 1 => int
  | 2 => float
  | 3 => ref
  | _ => unknown code

def toCode : Kind → UInt8
  | void => 0
  | int => 1
  | float => 2
  | ref => 3
  | unknown code => code

def text : Kind → String
  | void => "void"
  | int => "int"
  | float => "float"
  | ref => "ref"
  | unknown code => "Kind(" ++ toString code.toNat ++ ")"

end Kind

structure MethodRef where
  owner : String
  name : String
  args : Int
  returns : Kind
deriving DecidableEq, Repr, Inhabited

def MethodRef.text (method : MethodRef) : String :=
  method.owner ++ "." ++ method.name ++ "/" ++ toString method.args ++ ":" ++ method.returns.text

inductive ConstantKind
  | int
  | float
  | string
  | method
  | unknown (code : UInt8)
deriving DecidableEq, Repr, Inhabited

def ConstantKind.ofCode (code : UInt8) : ConstantKind :=
  match code.toNat with
  | 1 => int
  | 2 => float
  | 3 => string
  | 4 => method
  | _ => unknown code

def ConstantKind.toCode : ConstantKind → UInt8
  | int => 1
  | float => 2
  | string => 3
  | method => 4
  | unknown code => code

/-- An entry of a pool. Only the component named by the kind has a meaning, the others are kept as
they are. Names of classes and fields are strings. -/
structure Constant where
  kind : ConstantKind
  int : Int64
  float : Float
  text : String
  method : Option MethodRef
deriving Repr, Inhabited

namespace Constant

def ofInt (value : Int64) : Constant :=
  { kind := .int, int := value, float := 0, text := "", method := none }

def ofFloat (value : Float) : Constant :=
  { kind := .float, int := 0, float := value, text := "", method := none }

def ofString (value : String) : Constant :=
  { kind := .string, int := 0, float := 0, text := value, method := none }

def ofMethod (value : MethodRef) : Constant :=
  { kind := .method, int := 0, float := 0, text := "", method := some value }

def shown? (constant : Constant) : Option String :=
  match constant.kind with
  | .int => some (toString constant.int.toInt)
  | .float => some (Decimal.Format.listing.float constant.float)
  | .string => some (Text.quote constant.text)
  | .method => constant.method.map MethodRef.text
  | .unknown _ => some "?"

def shown (constant : Constant) : String :=
  constant.shown?.getD ("%!s(PANIC=String method: runtime error: " ++
    "invalid memory address or nil pointer dereference)")

end Constant

/-- What makes two constants the same entry. Methods are compared by their text, numbers by value. -/
structure ConstantKey where
  kind : UInt8
  int : Int64
  float : UInt64
  text : String
deriving DecidableEq, Hashable, Repr

/-- The key of a constant. A number that differs from itself has none and is never found again. -/
def Constant.key? (constant : Constant) : Option ConstantKey :=
  match constant.method with
  | some method =>
    some { kind := ConstantKind.method.toCode, int := 0, float := 0, text := method.text }
  | none =>
    if constant.float == constant.float then
      some { kind := constant.kind.toCode
             int := constant.int
             float := if constant.float == 0 then 0 else constant.float.toBits
             text := constant.text }
    else none

/-- Entries with the index of each key. The index is built when it is first needed. -/
structure ConstantPool where
  entries : Array Constant
  index : Option (Std.HashMap ConstantKey Nat)

namespace ConstantPool

def empty : ConstantPool := { entries := #[], index := some {} }

def ofEntries (entries : Array Constant) : ConstantPool := { entries, index := none }

def buildIndex (entries : Array Constant) : Std.HashMap ConstantKey Nat :=
  entries.toList.zipIdx.foldl (fun index (constant, position) =>
    match constant.key? with
    | some key => index.insert key position
    | none => index) {}

/-- The position of a constant, which is added unless an equal one is there. -/
def intern (pool : ConstantPool) (constant : Constant) : ConstantPool × Nat :=
  let { entries, index } := pool
  let index := match index with
    | some index => index
    | none => buildIndex entries
  match constant.key? with
  | none => ({ entries := entries.push constant, index := some index }, entries.size)
  | some key =>
    match index[key]? with
    | some position => ({ entries, index := some index }, position)
    | none =>
      let position := entries.size
      ({ entries := entries.push constant, index := some (index.insert key position) }, position)

end ConstantPool

end Assay.Bytecode
