import Assay.Syntax.Tree

/-!
A drawing of a tree for graph tools: boxes numbered in pre-order, and an edge to each child.
-/

namespace Assay.Syntax

def Node.dotLabel (node : Node) : String :=
  let name := node.kindName
  match node with
  | classDeclaration declaration => name ++ " " ++ declaration.name
  | fieldDeclaration declaration => name ++ " " ++ declaration.name ++ ": " ++ declaration.typeName
  | fixtureDeclaration declaration => name ++ " " ++ declaration.name
  | testDeclaration declaration => name ++ " " ++ declaration.name
  | command (.assign _ field _) => name ++ " " ++ field
  | expression (.field _ field) => name ++ " " ++ field
  | expression (.int _ value) => toString value.toInt
  | expression (.boolean _ value) => if value then "true" else "false"
  | expression (.binary _ operator _ _) => operator.text
  | expression (.comparison _ operator _ _) => operator.text
  | _ => name

structure Drawing where
  lines : List String
  next : Nat

mutual

def Tree.draw (parent : Option Nat) : Tree → Drawing → Drawing
  | .node label children, drawing =>
    let id := drawing.next
    let box := "  n" ++ toString id ++ " [label=" ++ Text.quote label.dotLabel ++ "];\n"
    let lines := match parent with
      | some parent => ("  n" ++ toString parent ++ " -> n" ++ toString id ++ ";\n") ::
          box :: drawing.lines
      | none => box :: drawing.lines
    drawAll id children { lines, next := id + 1 }

def drawAll (parent : Nat) : List Tree → Drawing → Drawing
  | [], drawing => drawing
  | tree :: rest, drawing => drawAll parent rest (tree.draw (some parent) drawing)

end

def Tree.dot (tree : Tree) : String :=
  let drawing := tree.draw none { lines := [], next := 0 }
  "digraph \"ast\" \x7b\n  node [shape=box];\n" ++ String.join drawing.lines.reverse ++ "\x7d\n"

end Assay.Syntax
