import Assay.Syntax.Declaration
import Assay.Typing.Body

/-!
Tests and fixtures on their way from declaration to checked code.
-/

namespace Assay.Typing

open Syntax

/-- What checking has found out about a body. `owners` gives the class that declares each field, newest
check first; a later check that does not know a field leaves the earlier finding in place. -/
structure Resolution where
  checked : Bool
  owners : List (String × String)
deriving DecidableEq, Repr, Inhabited

namespace Resolution

def none : Resolution := { checked := false, owners := [] }

def owner? (resolution : Resolution) (field : String) : Option String :=
  resolution.owners.lookup field

def after (resolution : Resolution) (checker : Checker) : Resolution :=
  let found := match checker.receiver? with
    | some owner => owner.fields.map fun field => (field.name, owner.name)
    | Option.none => []
  { checked := true, owners := found ++ resolution.owners }

end Resolution

structure Member where
  role : Role
  declaration : MemberDeclaration
  signature : Option Signature
  scope : Option Checker
  resolution : Resolution
deriving DecidableEq, Repr, Inhabited

namespace Member

def declared (role : Role) (declaration : MemberDeclaration) : Member :=
  { role, declaration, signature := none, scope := none, resolution := .none }

/-- Registers the member. If that fails, the member keeps the signature it had. -/
def addTo (member : Member) (owner : ClassType) : ClassType × Member × List Diagnostic :=
  match owner.register member.role member.declaration.name with
  | .ok (grown, signature) => (grown, { member with signature := some signature }, [])
  | .error problem =>
    (owner, member,
      [{ position := member.declaration.position, message := problem.message }])

/-- Only the receiver is in scope, returns carry no value, and asserts are permitted in tests. -/
def checkerFor (role : Role) (owner : ClassType) : Checker :=
  (Checker.new .void (role = .test) [owner]).bind receiverName owner.type

/-- The errors of a body, and then at most one about a command that can never run. -/
def bodyProblems (role : Role) (declaration : MemberDeclaration) (owner : ClassType) :
    List Diagnostic :=
  (checkCommand (checkerFor role owner) declaration.body).2 ++
    deadCodeProblems declaration.position declaration.body

def check (member : Member) (owner : ClassType) : Member × List Diagnostic :=
  let checker := checkerFor member.role owner
  ({ member with scope := some checker, resolution := member.resolution.after checker },
    bodyProblems member.role member.declaration owner)

def types (member : Member) : List (Option Ty) :=
  match member.scope with
  | some checker => (commandTypes checker member.declaration.body).map some
  | none => (commandTypes (Checker.new .void true []) member.declaration.body).map fun _ => none

def failures (member : Member) : List String :=
  let messages := failureMessages member.declaration.body
  if member.resolution.checked then messages else messages.map fun _ => ""

end Member

end Assay.Typing
