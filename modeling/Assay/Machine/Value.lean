import Assay.Bytecode.Program

/-!
Values of a running program, and objects. Objects live in a heap and are referred to by their address.
-/

namespace Assay.Machine

open Bytecode

inductive Value
  | int (value : Int64)
  | float (value : Float)
  | text (value : String)
  | object (address : Nat)
  | nilObject
  | strings (values : List String)
  | nil
deriving Repr, Inhabited

def Value.kindName : Value → String
  | int _ => "int64"
  | float _ => "float64"
  | text _ => "string"
  | object _ => "*vm.Object"
  | nilObject => "*vm.Object"
  | strings _ => "[]string"
  | nil => "<nil>"

def Value.printed? : Value → Option String
  | int value => some (toString value.toInt)
  | float value => some (Decimal.Format.plain.float value)
  | text value => some value
  | _ => none

structure Object where
  owner : String
  fields : List (String × Value)
deriving Repr, Inhabited

def zeroValue : Kind → Value
  | .int => .int 0
  | .float => .float 0
  | _ => .nil

namespace Object

def get? (object : Object) (field : String) : Option Value :=
  object.fields.lookup field

/-- Replaces the value of a field; a field that is not there is not added. -/
def set (object : Object) (field : String) (value : Value) : Object :=
  { object with
    fields := object.fields.map fun (name, old) => (name, if name = field then value else old) }

/-- A new object of a class. Of fields with one name the last one counts. -/
def new (image : ClassImage) : Object :=
  { owner := image.name
    fields := image.fields.foldl (fun fields slot =>
      (fields.filter fun (name, _) => name ≠ slot.name) ++ [(slot.name, zeroValue slot.kind)]) [] }

end Object

end Assay.Machine
