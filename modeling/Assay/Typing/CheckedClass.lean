import Assay.Typing.Member

/-!
Checking of whole classes. The members are registered first, fields before fixtures before tests;
then the bodies of the registered fixtures and tests are checked.
-/

namespace Assay.Typing

open Syntax

/-- A class with its members and the errors found in it. It can be used even if there are errors. -/
structure CheckedClass where
  type : ClassType
  diagnostics : List Diagnostic
  fixtures : List Member
  tests : List Member
deriving DecidableEq, Repr, Inhabited

def addField (owner : ClassType) (declaration : FieldDeclaration) :
    ClassType × List Diagnostic :=
  match Ty.ofName? declaration.typeName with
  | none =>
    (owner, [{ position := declaration.position
               message := "unknown type " ++ Text.quote declaration.typeName }])
  | some type =>
    match owner.addField declaration.name type with
    | .ok grown => (grown, [])
    | .error problem => (owner, [{ position := declaration.position, message := problem.message }])

def addFields : ClassType → List FieldDeclaration → ClassType × List Diagnostic
  | owner, [] => (owner, [])
  | owner, declaration :: rest =>
    let (grown, problems) := addField owner declaration
    let (last, others) := addFields grown rest
    (last, problems ++ others)

def addMembers : ClassType → List Member → ClassType × List Member × List Diagnostic
  | owner, [] => (owner, [], [])
  | owner, member :: rest =>
    let (grown, added, problems) := member.addTo owner
    let (last, members, others) := addMembers grown rest
    (last, added :: members, problems ++ others)

def checkMembers (owner : ClassType) : List Member → List Member × List Diagnostic
  | [] => ([], [])
  | member :: rest =>
    let (members, others) := checkMembers owner rest
    if member.signature.isSome then
      let (checked, problems) := member.check owner
      (checked :: members, problems ++ others)
    else (member :: members, others)

def checkClass (ref : ClassRef) (fields : List FieldDeclaration) (fixtures tests : List Member) :
    CheckedClass :=
  let (withFields, fieldProblems) := addFields (ClassType.new ref) fields
  let (withFixtures, fixtures, fixtureProblems) := addMembers withFields fixtures
  let (owner, tests, testProblems) := addMembers withFixtures tests
  let (fixtures, fixtureBodies) := checkMembers owner fixtures
  let (tests, testBodies) := checkMembers owner tests
  { type := owner
    diagnostics := fieldProblems ++ fixtureProblems ++ testProblems ++ fixtureBodies ++ testBodies
    fixtures
    tests }

def check (declaration : ClassDeclaration) : CheckedClass :=
  checkClass { name := declaration.name, serial := 0 } declaration.fields
    (declaration.fixtures.map (Member.declared .fixture))
    (declaration.tests.map (Member.declared .test))

namespace CheckedClass

def members (checked : CheckedClass) : List Member := checked.fixtures ++ checked.tests

def hasErrors (checked : CheckedClass) : Bool := !checked.diagnostics.isEmpty

def member? (checked : CheckedClass) (signature : Signature) : Option Member :=
  checked.members.find? fun member => member.signature = some signature

end CheckedClass

end Assay.Typing
