import Assay.Syntax.Expression

/-!
Commands, and which of them can never run because a command before them always returns.
-/

namespace Assay.Syntax

inductive Command
  | skip (position : Position)
  | seq (position : Position) (first second : Command)
  | ifThen (position : Position) (condition : Expression) (yes : Command)
  | ifElse (position : Position) (condition : Expression) (yes no : Command)
  | loop (position : Position) (condition : Expression) (body : Command)
  | ret (position : Position)
  | assign (position : Position) (field : String) (value : Expression)
  | assert (position : Position) (condition : Expression)
deriving DecidableEq, Repr, Inhabited

namespace Command

def position : Command → Position
  | skip position => position
  | seq position _ _ => position
  | ifThen position _ _ => position
  | ifElse position _ _ _ => position
  | loop position _ _ => position
  | ret position => position
  | assign position _ _ => position
  | assert position _ => position

/-- Runs commands one after the other. A sequence has the position of its first command. -/
def sequence : List Command → Command
  | [] => skip Position.unknown
  | [command] => command
  | command :: rest => seq command.position command (sequence rest)

/-- Every path through the command ends with a return. A loop may not run at all, and a passed assert
goes on. -/
def terminates : Command → Bool
  | seq _ first second => first.terminates || second.terminates
  | ifElse _ _ yes no => yes.terminates && no.terminates
  | ret _ => true
  | _ => false

def isDeadCodeFree : Command → Bool
  | seq _ first second => !first.terminates && first.isDeadCodeFree && second.isDeadCodeFree
  | ifThen _ _ yes => yes.isDeadCodeFree
  | ifElse _ _ yes no => yes.isDeadCodeFree && no.isDeadCodeFree
  | loop _ _ body => body.isDeadCodeFree
  | _ => true

def firstCommand : Command → Command
  | seq _ first _ => first.firstCommand
  | command => command

/-- The first command, in source order, that can never run. -/
def firstUnreachable? : Command → Option Command
  | seq _ first second =>
    match first.firstUnreachable? with
    | some command => some command
    | none => if first.terminates then some second.firstCommand else second.firstUnreachable?
  | ifThen _ _ yes => yes.firstUnreachable?
  | ifElse _ _ yes no =>
    match yes.firstUnreachable? with
    | some command => some command
    | none => no.firstUnreachable?
  | loop _ _ body => body.firstUnreachable?
  | _ => none

end Command

end Assay.Syntax
