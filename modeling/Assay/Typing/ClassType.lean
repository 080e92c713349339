import Assay.Graph.Run
import Assay.Typing.Ty

/-!
The members of a class: fields, fixtures and tests in the order of their registration. Fixtures and
tests share one namespace because they become routines of one generated class.
-/

namespace Assay.Typing

open Assay.Graph (ValueKind UnitName)

inductive Role
  | fixture
  | test
deriving DecidableEq, Repr, Inhabited

def Role.text : Role → String
  | fixture => "fixture"
  | test => "test"

def Role.resultKind : Role → ValueKind
  | fixture => .void
  | test => .int

def testClassName (name : String) : String := name ++ "Test"

def mainName : String := "main"

def receiverName : String := "this"

structure Signature where
  owner : ClassRef
  role : Role
  name : String
deriving DecidableEq, Repr, Inhabited

namespace Signature

def qualifiedName (signature : Signature) : String :=
  testClassName signature.owner.name ++ "." ++ signature.name

def unit (signature : Signature) : UnitName :=
  { qualified := signature.qualifiedName, serial := signature.owner.serial }

def text (signature : Signature) : String :=
  signature.role.text ++ " " ++ signature.qualifiedName

end Signature

structure Field where
  name : String
  type : Ty
deriving DecidableEq, Repr, Inhabited

structure Method where
  owner : String
  name : String
  params : List Ty
  returns : Ty
deriving DecidableEq, Repr, Inhabited

structure ClassType where
  ref : ClassRef
  fields : List Field
  methods : List Method
  fixtures : List Signature
  tests : List Signature
deriving DecidableEq, Repr, Inhabited

inductive RegistrationError
  | duplicateField (owner name : String)
  | duplicateRoutine (owner name : String)
  | reservedName (name : String)
deriving DecidableEq, Repr

def RegistrationError.message : RegistrationError → String
  | duplicateField owner name => "duplicate class member: field " ++ owner ++ "." ++ name
  | duplicateRoutine owner name => "duplicate class member: " ++ owner ++ "." ++ name
  | reservedName name => "reserved routine name: " ++ name

namespace ClassType

def new (ref : ClassRef) : ClassType :=
  { ref, fields := [], methods := [], fixtures := [], tests := [] }

def name (owner : ClassType) : String := owner.ref.name

def type (owner : ClassType) : Ty := .object owner.ref

def field? (owner : ClassType) (name : String) : Option Field :=
  owner.fields.find? fun field => field.name = name

def test? (owner : ClassType) (name : String) : Option Signature :=
  owner.tests.find? fun signature => signature.name = name

def fixture? (owner : ClassType) (name : String) : Option Signature :=
  owner.fixtures.find? fun signature => signature.name = name

def addField (owner : ClassType) (name : String) (type : Ty) :
    Except RegistrationError ClassType :=
  if (owner.field? name).isSome then .error (.duplicateField owner.name name)
  else .ok { owner with fields := owner.fields ++ [{ name, type }] }

def routineProblem? (owner : ClassType) (name : String) : Option RegistrationError :=
  if name = mainName then some (.reservedName name)
  else if (owner.test? name).isSome || (owner.fixture? name).isSome then
    some (.duplicateRoutine owner.name name)
  else none

def register (owner : ClassType) (role : Role) (name : String) :
    Except RegistrationError (ClassType × Signature) :=
  match owner.routineProblem? name with
  | some problem => .error problem
  | none =>
    let signature : Signature := { owner := owner.ref, role, name }
    match role with
    | .fixture => .ok ({ owner with fixtures := owner.fixtures ++ [signature] }, signature)
    | .test => .ok ({ owner with tests := owner.tests ++ [signature] }, signature)

/-- The method of that name whose parameters accept the arguments. -/
def method? (owner : ClassType) (name : String) (args : List Ty) : Option Method :=
  match owner.methods.find? fun method => method.name = name with
  | none => none
  | some method =>
    if method.params.length = args.length &&
        (args.zip method.params).all fun (arg, param) => arg.assignableTo param then some method
    else none

end ClassType

def outputMethod : Method :=
  { owner := "String", name := "output", params := [], returns := .void }

def stringClass : ClassType :=
  { ClassType.new { name := "String", serial := 0 } with methods := [outputMethod] }

end Assay.Typing
