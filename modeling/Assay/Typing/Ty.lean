import Assay.Graph.Instruction

/-!
Static types. Classes are told apart by their identity, not only by their name.
-/

namespace Assay.Typing

open Assay.Graph (ValueKind)

/-- A class. The serial number tells classes of one name apart. -/
structure ClassRef where
  name : String
  serial : Nat
deriving DecidableEq, Repr, Inhabited

inductive Ty
  | int
  | boolean
  | float
  | void
  | string
  | object (owner : ClassRef)
deriving DecidableEq, Repr, Inhabited

namespace Ty

def text : Ty → String
  | int => "int"
  | boolean => "boolean"
  | float => "float"
  | void => "void"
  | string => "String"
  | object owner => owner.name

/-- The kind of the values of a type. Booleans are integers at run time. -/
def kind : Ty → ValueKind
  | int => .int
  | boolean => .int
  | float => .float
  | void => .void
  | string => .reference
  | object _ => .reference

def assignableTo (actual expected : Ty) : Bool := actual = expected

def ofName? (name : String) : Option Ty :=
  if name = "int" then some int
  else if name = "boolean" || name = "bool" then some boolean
  else if name = "float" then some float
  else none

end Ty

end Assay.Typing
