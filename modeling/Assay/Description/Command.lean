import Assay.Description.Expression
import Assay.Syntax.Command

/-!
Descriptions of commands: a word, or a mapping with one key that names the command.
-/

namespace Assay.Description

open Document (Node Place)
open Syntax (Command Expression)

structure Assignment where
  field : String
  value : Option Expression

def decodeAssignmentParts (source : String) : Assignment → List Entry → Decode Assignment
  | assignment, [] => .ok assignment
  | assignment, entry :: rest => do
    if entry.key = "field" then
      let field ← decodeString "field name" entry.value
      decodeAssignmentParts source { assignment with field } rest
    else if entry.key = "value" then
      let value ← decodeExpression source entry.value
      decodeAssignmentParts source { assignment with value := some value } rest
    else complain entry.keyPlace (.unknownKey entry.key "assign")

def decodeAssignment (source : String) (keyPlace : Place) (node : Node) : Decode Command := do
  let entries ← decodeEntries "assign" node
  let assignment ← decodeAssignmentParts source { field := "", value := none } entries
  match assignment.field, assignment.value with
  | "", _ => complain keyPlace .incompleteAssignment
  | _, none => complain keyPlace .incompleteAssignment
  | field, some value => pure (.assign (positionOf source keyPlace) field value)

inductive Control
  | choice
  | loop
deriving DecidableEq, Repr

namespace Control

def name : Control → String
  | choice => "if"
  | loop => "while"

def bodyKey : Control → String
  | choice => "then"
  | loop => "body"

end Control

structure ControlParts where
  condition : Option Expression
  body : Option Command
  otherwise : Option Command

def ControlParts.command (control : Control) (position : Position) (condition : Expression)
    (parts : ControlParts) : Command :=
  let body := parts.body.getD (.skip position)
  match control with
  | .loop => .loop position condition body
  | .choice =>
    match parts.otherwise with
    | some otherwise => .ifElse position condition body otherwise
    | none => .ifThen position condition body

def keyword (source : String) (place : Place) (word : String) : Decode Command :=
  let position := positionOf source place
  if word = "return" then .ok (.ret position)
  else if word = "skip" then .ok (.skip position)
  else complain place (.unknownCommand word)

mutual

def decodeCommand (source : String) : Node → Decode Command
  | .scalar place (.text word) => keyword source place word
  | .mapping _ [(name, value)] => do
    let key ← decodeString "key" name
    let position := positionOf source name.place
    if key = "return" then pure (.ret position)
    else if key = "skip" then pure (.skip position)
    else if key = "assert" then pure (.assert position (← decodeExpression source value))
    else if key = "assign" then decodeAssignment source name.place value
    else if key = "if" then decodeControl source .choice name.place value
    else if key = "while" then decodeControl source .loop name.place value
    else complain name.place (.unknownCommand key)
  | node => notOneEntry "command" node

def decodeControl (source : String) (control : Control) (keyPlace : Place) :
    Node → Decode Command
  | .mapping _ entries => do
    let _ ← decodeKeys [] entries
    let parts ← decodeControlParts source control
      { condition := none, body := none, otherwise := none } entries
    match parts.condition with
    | none => complain keyPlace (.missingCondition control.name)
    | some condition => pure (parts.command control (positionOf source keyPlace) condition)
  | node => complain node.place (.notAMapping control.name)

def decodeControlParts (source : String) (control : Control) :
    ControlParts → List (Node × Node) → Decode ControlParts
  | parts, [] => .ok parts
  | parts, (name, value) :: rest => do
    let key ← decodeString "key" name
    if key = "cond" then
      let condition ← decodeExpression source value
      decodeControlParts source control { parts with condition := some condition } rest
    else if key = control.bodyKey then
      let body ← decodeBlock source value
      decodeControlParts source control { parts with body := some body } rest
    else if key = "else" && control = .choice then
      let otherwise ← decodeBlock source value
      decodeControlParts source control { parts with otherwise := some otherwise } rest
    else complain name.place (.unknownKey key control.name)

/-- A sequence of commands. An empty one does nothing and has the position of the sequence. -/
def decodeBlock (source : String) : Node → Decode Command
  | .sequence place items => do
    match ← decodeCommands source items with
    | [] => pure (.skip (positionOf source place))
    | commands => pure (Command.sequence commands)
  | .scalar place .null => pure (.skip (positionOf source place))
  | node => complain node.place (.notASequence "body")

def decodeCommands (source : String) : List Node → Decode (List Command)
  | [] => .ok []
  | node :: rest => do
    let command ← decodeCommand source node
    let commands ← decodeCommands source rest
    pure (command :: commands)

end

end Assay.Description
