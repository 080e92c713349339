import Assay.Source.Diagnostic
import Assay.Typing.ClassType

/-!
What is known while a body is checked: the variables in scope, the type that returns must have, and
whether asserts are permitted.
-/

namespace Assay.Typing

structure Binding where
  name : String
  type : Ty
deriving DecidableEq, Repr, Inhabited

/-- Variables are numbered in the order of their binding; the receiver comes first. `classes` holds the
classes that object types refer to. -/
structure Checker where
  returnType : Ty
  vars : List Binding
  assertPermitted : Bool
  classes : List ClassType
deriving DecidableEq, Repr, Inhabited

namespace Checker

def new (returnType : Ty) (assertPermitted : Bool) (classes : List ClassType) : Checker :=
  { returnType, vars := [], assertPermitted, classes }

def bind (checker : Checker) (name : String) (type : Ty) : Checker :=
  { checker with vars := checker.vars ++ [{ name, type }] }

def lookup? (checker : Checker) (name : String) : Option (Ty × Nat) :=
  (checker.vars.zipIdx.reverse.find? fun (binding, _) => binding.name = name).map
    fun (binding, index) => (binding.type, index)

def receiver? (checker : Checker) : Option ClassType :=
  match checker.lookup? receiverName with
  | some (.object owner, _) => checker.classes.find? fun candidate => candidate.ref = owner
  | some (.string, _) => some stringClass
  | _ => none

def field? (checker : Checker) (name : String) : Option Field :=
  checker.receiver?.bind fun owner => owner.field? name

def fieldProblems (checker : Checker) (position : Position) (name : String) : List Diagnostic :=
  match checker.receiver? with
  | none => [{ position, message := "'this' is not in scope" }]
  | some owner =>
    match owner.field? name with
    | none => [{ position, message := "unknown field " ++ owner.name ++ "." ++ name }]
    | some _ => []

def requireBoolean (position : Position) (type : Ty) : List Diagnostic :=
  if type = .boolean then []
  else [{ position, message := "boolean expected, found " ++ type.text }]

def requireAssignable (position : Position) (actual expected : Ty) : List Diagnostic :=
  if actual.assignableTo expected then []
  else [{ position, message := expected.text ++ " expected, found " ++ actual.text }]

end Checker

end Assay.Typing
