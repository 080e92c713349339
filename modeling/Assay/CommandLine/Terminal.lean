import Assay.CommandLine.Run
import Assay.Text.Alphabet
import Std.Time.Zoned

/-!
The system as a host: files, environment variables, clocks, and the output streams of the process.
-/

namespace Assay.CommandLine

open Machine (World)

def fileError : IO.Error → FileError
  | .noFileOrDirectory _ _ _ => .missing
  | .inappropriateType _ _ details =>
    if details = "Is a directory" then .isADirectory else .notADirectory
  | .permissionDenied _ _ _ => .other "permission denied"
  | problem => .other (toString problem)

def readTextFile (path : String) : IO (Except FileError String) := do
  try
    pure (.ok (← IO.FS.readFile path))
  catch problem => pure (.error (fileError problem))

def settingsDirectories : IO (List String) := do
  let home := (← IO.getEnv "HOME").getD ""
  let own := (← IO.getEnv "XDG_CONFIG_HOME").getD ""
  let shared := (← IO.getEnv "XDG_CONFIG_DIRS").getD ""
  let others := (splitAt ':' [] (if shared = "" then "/etc/xdg" else shared).toList).map String.ofList
  pure ((if own = "" then home ++ "/.config" else own) :: others)

def firstReadable : List String → IO (Option (String × String))
  | [] => pure none
  | path :: rest => do
    match ← readTextFile path with
    | .ok text => pure (some (path, text))
    | .error _ => firstReadable rest

def findSettingsFile : IO (Option (String × String)) := do
  firstReadable ((← settingsDirectories).map (· ++ "/kitten/config.yaml"))

def freshRunId : IO String := do
  let now ← Std.Time.Timestamp.now
  pure (Text.runId now.toMillisecondsSinceUnixEpoch.toInt.toNat (← IO.rand 0 ((1 <<< 80) - 1)))

def twoDigits (number : Int) : String := Decimal.padLeft 2 (toString number)

def localTimeOfDay : IO String := do
  let time := (← Std.Time.PlainDateTime.now).time
  pure (twoDigits time.hour.toInt ++ ":" ++ twoDigits time.minute.toInt ++ ":" ++
    twoDigits time.second.toInt)

/-- Steps a machine to the end of a request. The clock is set before every step, and output is printed
as soon as it is there. -/
partial def drive (machine : Machine) (output : IO.FS.Stream) (printed : String) :
    Machine.State → IO (Machine.Outcome × World)
  | .stopped outcome world => pure (outcome, world)
  | .running frame callers world => do
    let now ← IO.monoNanosNow
    let next := machine.step (.running frame callers { world with clock := fun _ => Int64.ofNat now })
    let total := match next with
      | .stopped _ world => world.output
      | .running _ _ world => world.output
    if total.utf8ByteSize ≠ printed.utf8ByteSize then
      output.putStr (String.ofList (total.toList.drop printed.length))
      output.flush
    drive machine output total next

def executeHere (machine : Machine) (args : List String) : IO Execution := do
  let world := World.new (fun _ => 0) none
  let (outcome, finish) ← drive machine (← IO.getStdout) "" (machine.start world (.run args))
  pure { outcome, output := finish.output }

def directoryOf (path : String) : String :=
  match (splitAt '/' [] path.toList).map String.ofList with
  | [_] => "."
  | ["", _] => "/"
  | parts => "/".intercalate parts.dropLast

def watchProblem (path : String) : IO (Option String) := do
  try
    let _ ← (← IO.FS.realPath (directoryOf path)).readDir
    pure none
  catch problem =>
    pure (some (match fileError problem with
      | .missing => "no such file or directory"
      | .notADirectory | .isADirectory => "not a directory"
      | .other reason => reason))

def lastWritten (path : String) : IO (Option Int) := do
  try
    let modified := (← (← IO.FS.realPath path).metadata).modified
    pure (some (modified.sec * 1000000000 + modified.nsec.toNat))
  catch _ => pure none

/-- Looks at a file again and again. A change counts once the file has been left alone for a while. -/
partial def repeatOnChange (path : String) (pause : UInt32) (known : Option Int)
    (action : IO Unit) : IO Unit := do
  IO.sleep pause
  let now ← lastWritten path
  if now = known || now.isNone then repeatOnChange path pause known action
  else
    IO.sleep pause
    if (← lastWritten path) = now then
      action
      repeatOnChange path pause now action
    else repeatOnChange path pause known action

def writeTo (stream : BaseIO IO.FS.Stream) (text : String) : IO Unit := do
  let stream ← stream
  stream.putStr text
  stream.flush

def terminal : Host IO :=
  { cancelled := false
    readFile := readTextFile
    settingsFile := findSettingsFile
    readDocuments := Document.reader
    lookupVariable := fun name => IO.getEnv name
    newRunId := freshRunId
    timeOfDay := localTimeOfDay
    execute := executeHere
    watchProblem? := watchProblem
    onChange := fun path settings action => do
      let pause := (settings.watchDebounce / 1000000).toNat.toUInt32
      repeatOnChange path pause (← lastWritten path) action
    writeOut := writeTo IO.getStdout
    writeErr := writeTo IO.getStderr }

end Assay.CommandLine
