import Assay.Lowering.Member
import Assay.Typing.CheckedClass

/-!
Work on one declaration step by step. Its members can be added to several classes, one of which is the
current one, and lowered in several runs.
-/

namespace Assay.Lowering

open Assay.Graph Syntax Typing

structure ClassRecord where
  type : ClassType
  diagnostics : List Diagnostic
deriving DecidableEq, Repr, Inhabited

structure Session where
  declaration : ClassDeclaration
  fixtures : Array Member
  tests : Array Member
  classes : Array ClassRecord
  current : Option Nat
  checked : Option Nat
  run : Run
  runs : Nat

namespace Session

def new (declaration : ClassDeclaration) : Session :=
  { declaration
    fixtures := (declaration.fixtures.map (Member.declared .fixture)).toArray
    tests := (declaration.tests.map (Member.declared .test)).toArray
    classes := #[]
    current := none
    checked := none
    run := Run.new 0
    runs := 1 }

def member? (session : Session) (role : Role) (index : Nat) : Option Member :=
  match role with
  | .fixture => session.fixtures[index]?
  | .test => session.tests[index]?

def setMember (session : Session) (role : Role) (index : Nat) (member : Member) : Session :=
  match role with
  | .fixture => { session with fixtures := session.fixtures.setIfInBounds index member }
  | .test => { session with tests := session.tests.setIfInBounds index member }

def class? (session : Session) : Option ClassRecord :=
  session.current.bind fun index => session.classes[index]?

def diagnostics (session : Session) : List Diagnostic :=
  (session.class?.map ClassRecord.diagnostics).getD []

def changeClass (session : Session) (type : ClassType) (problems : List Diagnostic) : Session :=
  match session.current with
  | none => session
  | some index =>
    { session with
      classes := session.classes.modify index fun record =>
        { type, diagnostics := record.diagnostics ++ problems } }

/-- Checks the declaration as a whole. It is checked once; later the class of the first check becomes
the current one again. -/
def check (session : Session) : Session :=
  match session.checked with
  | some index => { session with current := some index }
  | none =>
    let index := session.classes.size
    let result := checkClass { name := session.declaration.name, serial := index }
      session.declaration.fields session.fixtures.toList session.tests.toList
    { session with
      fixtures := result.fixtures.toArray
      tests := result.tests.toArray
      classes := session.classes.push { type := result.type, diagnostics := result.diagnostics }
      current := some index
      checked := some index }

def newClass (session : Session) (name : String) : Session :=
  let index := session.classes.size
  { session with
    classes := session.classes.push
      { type := ClassType.new { name, serial := index }, diagnostics := [] }
    current := some index }

def newRun (session : Session) : Session :=
  { session with run := Run.new session.runs, runs := session.runs + 1 }

def addMember? (session : Session) (role : Role) (index : Nat) : Option (Session × Member) := do
  let record ← session.class?
  let member ← session.member? role index
  let (type, added, problems) := member.addTo record.type
  pure ((session.changeClass type problems).setMember role index added, added)

def checkMember? (session : Session) (role : Role) (index : Nat) : Option Session := do
  let record ← session.class?
  let member ← session.member? role index
  let (done, problems) := member.check record.type
  pure ((session.changeClass record.type problems).setMember role index done)

def lower (session : Session) (member : Member) : Session × Except MemberError (List BlockIndex) :=
  let (run, result) := handOverMember member session.run
  ({ session with run }, result)

end Session

end Assay.Lowering
