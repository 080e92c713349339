import Assay.Syntax.Declaration

/-!
Declarations, commands and expressions as one tree of nodes.
-/

namespace Assay.Syntax

inductive Node
  | classDeclaration (declaration : ClassDeclaration)
  | fieldDeclaration (declaration : FieldDeclaration)
  | fixtureDeclaration (declaration : MemberDeclaration)
  | testDeclaration (declaration : MemberDeclaration)
  | command (inner : Command)
  | expression (inner : Expression)
deriving DecidableEq, Repr, Inhabited

def Expression.kindName : Expression → String
  | int _ _ => "IntLiteral"
  | boolean _ _ => "BooleanLiteral"
  | field _ _ => "FieldAccess"
  | binary _ _ _ _ => "Binary"
  | comparison _ _ _ _ => "Comparison"
  | not _ _ => "Not"
  | and _ _ _ => "And"
  | or _ _ _ => "Or"

def Command.kindName : Command → String
  | skip _ => "Skip"
  | seq _ _ _ => "Seq"
  | ifThen _ _ _ => "If"
  | ifElse _ _ _ _ => "If"
  | loop _ _ _ => "While"
  | ret _ => "Return"
  | assign _ _ _ => "FieldAssign"
  | assert _ _ => "Assert"

def Node.kindName : Node → String
  | classDeclaration _ => "ClassDeclaration"
  | fieldDeclaration _ => "FieldDeclaration"
  | fixtureDeclaration _ => "FixtureDeclaration"
  | testDeclaration _ => "TestDeclaration"
  | .command inner => inner.kindName
  | .expression inner => inner.kindName

inductive Tree
  | node (label : Node) (children : List Tree)
deriving Inhabited

def Expression.tree (expression : Expression) : Tree :=
  .node (.expression expression) <|
    match expression with
    | int _ _ => []
    | boolean _ _ => []
    | field _ _ => []
    | binary _ _ left right => [left.tree, right.tree]
    | comparison _ _ left right => [left.tree, right.tree]
    | not _ operand => [operand.tree]
    | and _ left right => [left.tree, right.tree]
    | or _ left right => [left.tree, right.tree]

/-- A missing else branch has no node. -/
def Command.tree (command : Command) : Tree :=
  .node (.command command) <|
    match command with
    | skip _ => []
    | seq _ first second => [first.tree, second.tree]
    | ifThen _ condition yes => [condition.tree, yes.tree]
    | ifElse _ condition yes no => [condition.tree, yes.tree, no.tree]
    | loop _ condition body => [condition.tree, body.tree]
    | ret _ => []
    | assign _ _ value => [value.tree]
    | assert _ condition => [condition.tree]

def FieldDeclaration.tree (declaration : FieldDeclaration) : Tree :=
  .node (.fieldDeclaration declaration) []

def ClassDeclaration.tree (declaration : ClassDeclaration) : Tree :=
  .node (.classDeclaration declaration) <|
    declaration.fields.map FieldDeclaration.tree ++
    declaration.fixtures.map (fun fixture =>
      .node (.fixtureDeclaration fixture) [fixture.body.tree]) ++
    declaration.tests.map (fun test => .node (.testDeclaration test) [test.body.tree])

mutual

def Tree.nodes : Tree → List Node
  | .node label children => label :: nodesOf children

def nodesOf : List Tree → List Node
  | [] => []
  | tree :: rest => tree.nodes ++ nodesOf rest

end

def Command.assertCount : Command → Nat
  | seq _ first second => first.assertCount + second.assertCount
  | ifThen _ _ yes => yes.assertCount
  | ifElse _ _ yes no => yes.assertCount + no.assertCount
  | loop _ _ body => body.assertCount
  | assert _ _ => 1
  | _ => 0

def ClassDeclaration.assertCount (declaration : ClassDeclaration) : Nat :=
  (declaration.fixtures ++ declaration.tests).foldl
    (fun total member => total + member.body.assertCount) 0

end Assay.Syntax
