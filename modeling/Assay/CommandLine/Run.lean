import Assay.Assembly.Compile
import Assay.Bytecode.Listing
import Assay.CommandLine.Help
import Assay.CommandLine.Host
import Assay.CommandLine.Flags
import Assay.Report.Check
import Assay.Report.Program
import Assay.Report.Summary
import Assay.Syntax.Tree

/-!
The commands: checking a class description, compiling it, and running its tests. Every command ends
with a status, zero for success.
-/

namespace Assay.CommandLine

open Assembly (Selection)
open Logging (Event Level)
open Typing (CheckedClass)

def failure : Nat := 1

def checkFlags : FlagSet :=
  { command := "check"
    flags := [{ name := "json", kind := .switch, usage := "print the errors as JSON" }] }

def compileFlags : FlagSet :=
  { command := "compile"
    flags :=
      [{ name := "json", kind := .switch
         usage := "print the program as JSON instead of its disassembly" },
       { name := "only", kind := .text
         usage := "comma separated names of the tests to include, " ++
           "the fixtures are always included" }] }

def testFlags : FlagSet :=
  { command := "test"
    flags :=
      [{ name := "only", kind := .text
         usage := "comma separated names of the tests to run, the fixtures are always included" },
       { name := "watch", kind := .switch
         usage := "run the tests again each time the file is written" }] }

def checkEvents (checked : CheckedClass) : List Event :=
  let found := checked.diagnostics.map fun diagnostic =>
    Event.debug diagnostic.message [("position", .text diagnostic.position.text)]
  let finished := Event.debug "class checked"
    [("class", .text checked.type.name), ("errors", .number checked.diagnostics.length)]
  (found ++ [finished]).map (Event.fromSource "check")

def loadedEvent (checked : CheckedClass) (asserts : Nat) : Event :=
  .debug "class loaded" [("class", .text checked.type.name), ("asserts", .number asserts)]

def runEvent (program : Bytecode.Program) : Event :=
  (Event.debug "run"
    [("program", .text program.id), ("class", .text program.entry.owner),
      ("routine", .text program.entry.routine)]).fromSource "vm"

section

variable {m : Type → Type} [Monad m]

inductive Loaded
  | unreadable (message : String)
  | malformed (problem : Description.Problem)
  | loaded (checked : CheckedClass)

def loadClass (console : Console m) (path : String) : m Loaded := do
  match ← console.host.readFile path with
  | .error problem => pure (.unreadable (problem.message path))
  | .ok text =>
    match Description.readClass path text console.host.readDocuments with
    | .error (.notADocument cause) => pure (.unreadable (path ++ ": " ++ cause))
    | .error (.notAClass problem) => pure (.malformed problem)
    | .ok declaration =>
      let checked := Typing.check declaration
      console.logAll (checkEvents checked)
      console.log (loadedEvent checked declaration.assertCount)
      pure (.loaded checked)

def withClassFile (console : Console m) (action : Action) (flags : FlagSet)
    (arguments : List String) (run : Arguments → String → m Nat) : m Nat := do
  if arguments.contains "-h" || arguments.contains "--help" then
    console.out (commandHelp action flags)
    pure 0
  else
    match flags.parse arguments with
    | .error problem =>
      match problem.message? with
      | some message => console.errLine message
      | none => pure ()
      console.err flags.usage
      pure failure
    | .ok found =>
      match found.rest with
      | [path] => run found path
      | _ =>
        console.errLine "missing class file path"
        pure failure

def checkFile (console : Console m) (json : Bool) (path : String) : m Nat := do
  match ← loadClass console path with
  | .unreadable message =>
    console.errLine message
    pure failure
  | .malformed problem =>
    if json then console.out ((Report.problemReport path problem).compact ++ "\n")
    else console.errors [problem.text]
    pure failure
  | .loaded checked =>
    if json then console.out ((Report.checkReport path checked).compact ++ "\n")
    else if checked.hasErrors then console.errors (checked.diagnostics.map Diagnostic.line)
    else console.out (checked.type.name ++ ": no errors\n")
    pure (if checked.hasErrors then failure else 0)

def selectionOf (checked : CheckedClass) (names : List String) :
    Except Assembly.SelectionError Selection :=
  if names.isEmpty then .ok .everything else Assembly.restrict checked.type names

/-- Compiles a class file. Errors are printed; then there is no program. -/
def compileFile (console : Console m) (names : List String) (path : String) :
    m (Option Bytecode.Program) := do
  match ← loadClass console path with
  | .unreadable message =>
    console.errLine message
    pure none
  | .malformed problem =>
    console.errors [problem.text]
    pure none
  | .loaded checked =>
    if checked.hasErrors then
      console.errors (checked.diagnostics.map Diagnostic.line)
      pure none
    else
      match selectionOf checked names with
      | .error problem =>
        console.errLine problem.message
        pure none
      | .ok selection =>
        let (events, result) := Assembly.compile (← console.host.newRunId) checked selection
        console.logAll events
        match result with
        | .error problem =>
          console.errLine ("internal error: " ++ problem.message)
          pure none
        | .ok program => pure (some program)

def showProgram (console : Console m) (json : Bool) (names : List String) (path : String) :
    m Nat := do
  match ← compileFile console names path with
  | none => pure failure
  | some program =>
    if json then console.out ((Report.programReport program).indented 0 ++ "\n")
    else console.out (program.listing?.getD "")
    pure 0

def printVerdict (console : Console m) (summary : Report.Summary) : m Unit :=
  if 0 < summary.failed then console.errStyled [red, bold] "FAIL"
  else if summary.passed = 0 then console.errStyled [yellow] "NO TESTS"
  else console.errStyled [green, bold] "PASS"

/-- Compiles a class file and runs its tests. It fails if a test fails. -/
def testFile (console : Console m) (names : List String) (path : String) : m Nat := do
  match ← compileFile console names path with
  | none => pure failure
  | some program =>
    if console.settings.showBytecode then console.err (program.listing?.getD "") else pure ()
    console.log (runEvent program)
    let execution ← console.host.execute (Machine.new program 0) [path]
    match execution.outcome with
    | .failed problem =>
      console.errLine problem.message
      pure failure
    | .crashed => pure failure
    | .returned _ =>
      match Report.readSummary execution.output with
      | .error problem =>
        console.errLine problem.message
        pure failure
      | .ok summary =>
        printVerdict console summary
        pure (if 0 < summary.failed then failure else 0)

def watchFile (console : Console m) (names : List String) (path : String) : m Nat := do
  match ← console.host.watchProblem? path with
  | some message =>
    console.errLine message
    pure failure
  | none =>
    let _ ← testFile console names path
    console.host.onChange path console.settings do
      console.out "\n"
      let _ ← testFile console names path
    pure 0

def runAction (console : Console m) (action : Action) (arguments : List String) : m Nat :=
  match action with
  | .check =>
    withClassFile console action checkFlags arguments fun found path =>
      checkFile console (found.isOn "json") path
  | .compile =>
    withClassFile console action compileFlags arguments fun found path =>
      showProgram console (found.isOn "json") (splitNames (found.text "only")) path
  | .test =>
    withClassFile console action testFlags arguments fun found path =>
      let names := splitNames (found.text "only")
      if found.isOn "watch" then watchFile console names path else testFile console names path
  | _ => do
    console.errLine (action.name ++ " is not available")
    pure failure

def loadSettings (host : Host m) : m (Except String Settings) := do
  let names := ["KITTEN_LOG_LEVEL", "FORCE_COLOR", "NO_COLOR", "COLORTERM", "TERM"]
  let values ← names.mapM fun name => do pure (name, ← host.lookupVariable name)
  let environment := fun name => (values.lookup name).getD none
  match ← host.settingsFile with
  | none => pure (.ok (Settings.default.withEnvironment environment))
  | some (path, text) =>
    match Settings.readSettings text host.readDocuments with
    | .error problem => pure (.error (problem.message path))
    | .ok settings => pure (.ok (settings.withEnvironment environment))

def openConsole (host : Host m) : m (Except String (Console m)) := do
  match ← loadSettings host with
  | .error message => pure (.error message)
  | .ok settings =>
    match Level.ofSetting settings.logLevel with
    | .error problem => pure (.error ("invalid log level: " ++ problem.message))
    | .ok level =>
      let plain := ((← host.lookupVariable "NO_COLOR").getD "") ≠ ""
      pure (.ok { host, settings, level, logColour := settings.colorize && !plain })

def launch (host : Host m) (arguments : List String) : m Nat := do
  match readRequest arguments with
  | .showHelp =>
    host.writeOut generalHelp
    pure 0
  | .unknown word =>
    host.writeErr (unknownCommand (!host.cancelled) word)
    pure failure
  | .run action rest =>
    match ← openConsole host with
    | .error message =>
      host.writeErr (message ++ "\n")
      pure failure
    | .ok console => runAction console action rest

end

end Assay.CommandLine
