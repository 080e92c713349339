import Assay.CommandLine.Flags
import Assay.Text.Comparison

/-!
The commands, what they do, and the texts that explain them.
-/

namespace Assay.CommandLine

inductive Action
  | check
  | compile
  | test
  | help
  | installCompletions
  | uninstallCompletions
deriving DecidableEq, Repr

namespace Action

def all : List Action := [check, compile, test, help, installCompletions, uninstallCompletions]

def name : Action → String
  | check => "check"
  | compile => "compile"
  | test => "test"
  | help => "help"
  | installCompletions => "install-completions"
  | uninstallCompletions => "uninstall-completions"

def description : Action → String
  | check => "check a class description and print the errors"
  | compile => "compile a class description and print the generated classes"
  | test => "compile a class description and run its tests"
  | help => "show the general help or command-specific help"
  | installCompletions =>
    "install CLI completions by adding the completion command to the detected rc file " ++
      "(bash, zsh and fish)"
  | uninstallCompletions =>
    "uninstall CLI completions by removing the completion command from the detected rc file"

def ofName? (name : String) : Option Action := all.find? fun action => action.name = name

end Action

def helpOrder : List Action :=
  [.check, .compile, .test, .installCompletions, .uninstallCompletions, .help]

def generalHelp : String :=
  "commands:\n" ++
    String.join (helpOrder.map fun action =>
      "\t" ++ action.name ++ " - " ++ action.description ++ "\n") ++
    "\nType `kitten help <command>` to get command-specific help.\n"

def commandHelp (action : Action) (flags : FlagSet) : String :=
  action.description ++ "\n" ++ "\noptions:\n" ++ flags.options

def unknownCommand (searching : Bool) (word : String) : String :=
  let candidates := if searching then Action.all.map Action.name else []
  "unknown command '" ++ word ++ "'" ++
    match Text.closest candidates word 2 with
    | some found => ", did you mean '" ++ found.candidate ++ "' ?\n"
    | none => "\n" ++ generalHelp

def leadByte (c : Char) : Nat :=
  let code := c.toNat
  if code < 0x80 then code
  else if code < 0x800 then 0xC0 + code / 64
  else if code < 0x10000 then 0xE0 + code / 4096
  else 0xF0 + code / 262144

def isLatinLetter (byte : Nat) : Bool :=
  (0x41 ≤ byte && byte ≤ 0x5A) || (0x61 ≤ byte && byte ≤ 0x7A) || byte = 0xAA || byte = 0xB5 ||
    byte = 0xBA || (0xC0 ≤ byte && byte ≤ 0xFF && byte ≠ 0xD7 && byte ≠ 0xF7)

/-- A word behind `help` names a command if its first byte is a letter. -/
def namesCommand (word : String) : Bool :=
  match word.toList with
  | c :: _ => isLatinLetter (leadByte c)
  | [] => false

inductive Request
  | showHelp
  | unknown (word : String)
  | run (action : Action) (arguments : List String)
deriving DecidableEq, Repr

def requestOf (word : String) (arguments : List String) : Request :=
  if word = "help" || word = "--help" || word = "-h" then .showHelp
  else
    match Action.ofName? word with
    | some action => .run action arguments
    | none => .unknown word

/-- Reads the arguments of the program. `help` followed by a command asks for the help of that
command. -/
def readRequest : List String → Request
  | [] => .showHelp
  | "help" :: word :: rest =>
    if namesCommand word then requestOf word ["-h"] else requestOf "help" (word :: rest)
  | word :: rest => requestOf word rest

end Assay.CommandLine
