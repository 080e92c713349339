import Assay.Decimal.Format
import Assay.Document.Node
import Assay.Settings.Duration

/-!
Settings of the command line, from a file and from environment variables.
-/

namespace Assay

open Document (Node)

structure Settings where
  logLevel : String
  showBytecode : Bool
  watchDebounce : Int
  colorize : Bool
deriving DecidableEq, Repr, Inhabited

namespace Settings

def default : Settings :=
  { logLevel := "", showBytecode := false, watchDebounce := 200000000, colorize := false }

def leastDebounce : Int := 10000000

inductive SettingsError
  | malformed
  | debounceTooShort
deriving DecidableEq, Repr

def SettingsError.message (path : String) : SettingsError → String
  | malformed => "invalid configuration file " ++ path
  | debounceTooShort =>
    "invalid configuration file " ++ path ++ ": watch-debounce should be at least 10ms"

def textSetting? : Node → Option String
  | .scalar _ .null => some ""
  | .scalar _ (.text value) => some value
  | .scalar _ (.boolean value) => some (if value then "true" else "false")
  | .scalar _ (.integer value) => some (toString value)
  | .scalar _ (.fraction value) => some (Decimal.Format.setting.float value)
  | _ => none

def flagSetting? : Node → Option Bool
  | .scalar _ .null => some false
  | .scalar _ (.boolean value) => some value
  | _ => none

def durationSetting? : Node → Option Int
  | .scalar _ .null => some 0
  | .scalar _ (.text value) => readDuration? value
  | _ => none

def applyEntry? (settings : Settings) (key : String) (value : Node) : Option Settings :=
  if key = "log-level" then
    (textSetting? value).map fun logLevel => { settings with logLevel }
  else if key = "show-bytecode" then
    (flagSetting? value).map fun showBytecode => { settings with showBytecode }
  else if key = "watch-debounce" then
    (durationSetting? value).map fun watchDebounce => { settings with watchDebounce }
  else none

/-- The entries in order. No key may occur twice. -/
def applyEntries? : Settings → List String → List (Node × Node) → Option Settings
  | settings, _, [] => some settings
  | settings, seen, (.scalar _ (.text key), value) :: rest =>
    if seen.contains key then none
    else
      match applyEntry? settings key value with
      | some changed => applyEntries? changed (key :: seen) rest
      | none => none
  | _, _, _ :: _ => none

/-- The settings of the first document of a file. A missing document leaves the defaults. -/
def documentSettings? : List (Option Node) → Option Settings
  | some (.mapping _ entries) :: _ => applyEntries? .default [] entries
  | some (.scalar _ .null) :: _ => some .default
  | some _ :: _ => none
  | _ => some .default

def readSettings (text : String) (read : Document.Reader := Document.reader) :
    Except SettingsError Settings :=
  match read text with
  | .error _ => .error .malformed
  | .ok documents =>
    match documentSettings? documents with
    | none => .error .malformed
    | some settings =>
      if settings.watchDebounce < leastDebounce then .error .debounceTooShort else .ok settings

abbrev Environment := String → Option String

/-- A variable is set unless it is empty, `false` or `0`. -/
def isSet (environment : Environment) (name : String) : Bool :=
  match environment name with
  | some value => value ≠ "" && value ≠ "false" && value ≠ "0"
  | none => false

def occursIn (part : List Char) : List Char → Bool
  | [] => part.isEmpty
  | c :: rest => part.isPrefixOf (c :: rest) || occursIn part rest

def withEnvironment (settings : Settings) (environment : Environment) : Settings :=
  let trueColour := environment "COLORTERM" = some "truecolor"
  let manyColours := occursIn "256color".toList ((environment "TERM").getD "").toList
  { settings with
    logLevel := (environment "KITTEN_LOG_LEVEL").getD settings.logLevel
    colorize := !isSet environment "NO_COLOR" &&
      (isSet environment "FORCE_COLOR" || trueColour || manyColours) }

end Settings

end Assay
