import Assay.Text.Quoted
import Assay.Text.Reading

/-!
Flags of a command. Flags come before the other arguments and start with one or two dashes; a value
follows after `=` or, unless the flag is a switch, as the next argument. `--` ends the flags. Some
values are lists of names separated by commas.
-/

namespace Assay.CommandLine

inductive FlagKind
  | switch
  | text
deriving DecidableEq, Repr

structure Flag where
  name : String
  kind : FlagKind
  usage : String
deriving DecidableEq, Repr

structure FlagSet where
  command : String
  flags : List Flag
deriving DecidableEq, Repr

inductive FlagError
  | badForm (argument : String)
  | undefined (name : String)
  | missingValue (name : String)
  | badSwitch (name value : String)
  | help
deriving DecidableEq, Repr

def FlagError.message? : FlagError → Option String
  | badForm argument => some ("bad flag syntax: " ++ argument)
  | undefined name => some ("flag provided but not defined: -" ++ name)
  | missingValue name => some ("flag needs an argument: -" ++ name)
  | badSwitch name value =>
    some ("invalid boolean value " ++ Text.quote value ++ " for -" ++ name ++ ": parse error")
  | help => none

structure Arguments where
  switches : List (String × Bool)
  texts : List (String × String)
  rest : List String
deriving DecidableEq, Repr

namespace Arguments

def isOn (arguments : Arguments) (name : String) : Bool :=
  (arguments.switches.lookup name).getD false

def text (arguments : Arguments) (name : String) : String :=
  (arguments.texts.lookup name).getD ""

end Arguments

def switchValue? (text : String) : Option Bool :=
  if ["1", "t", "T", "TRUE", "true", "True"].contains text then some true
  else if ["0", "f", "F", "FALSE", "false", "False"].contains text then some false
  else none

/-- A flag with a value after its `=`. The `=` cannot be the first character. -/
def splitValue (name : List Char) : String × Option String :=
  let head := name.take 1
  let tail := name.drop 1
  match tail.dropWhile (· ≠ '=') with
  | [] => (String.ofList name, none)
  | _ :: value => (String.ofList (head ++ tail.takeWhile (· ≠ '=')), some (String.ofList value))

inductive Shape
  | operand
  | terminator
  | flag (name : List Char)

def shapeOf (argument : String) : Shape :=
  match argument.toList with
  | ['-', '-'] => .terminator
  | '-' :: '-' :: name => .flag name
  | ['-'] => .operand
  | '-' :: name => .flag name
  | _ => .operand

def FlagSet.read (set : FlagSet) : List String → Arguments → Except FlagError Arguments
  | [], found => .ok found
  | argument :: rest, found =>
    match shapeOf argument with
    | .operand => .ok { found with rest := argument :: rest }
    | .terminator => .ok { found with rest }
    | .flag name =>
      if name.isEmpty || name.head? = some '-' || name.head? = some '=' then
        .error (.badForm argument)
      else
        let (name, value?) := splitValue name
        match set.flags.find? fun flag => flag.name = name with
        | none => .error (if name = "help" || name = "h" then .help else .undefined name)
        | some flag =>
          match flag.kind, value? with
          | .switch, none =>
            set.read rest { found with switches := (name, true) :: found.switches }
          | .switch, some value =>
            match switchValue? value with
            | none => .error (.badSwitch name value)
            | some on => set.read rest { found with switches := (name, on) :: found.switches }
          | .text, some value =>
            set.read rest { found with texts := (name, value) :: found.texts }
          | .text, none =>
            match rest with
            | value :: others =>
              set.read others { found with texts := (name, value) :: found.texts }
            | [] => .error (.missingValue name)

def FlagSet.parse (set : FlagSet) (arguments : List String) : Except FlagError Arguments :=
  set.read arguments { switches := [], texts := [], rest := [] }

def Flag.description (flag : Flag) : String :=
  let heading := match flag.kind with
    | .switch => "  -" ++ flag.name
    | .text => "  -" ++ flag.name ++ " string"
  heading ++ "\n    \t" ++ flag.usage ++ "\n"

def FlagSet.options (set : FlagSet) : String :=
  String.join (set.flags.map Flag.description)

def FlagSet.usage (set : FlagSet) : String :=
  "Usage of " ++ set.command ++ ":\n" ++ set.options

def splitAt (separator : Char) : List Char → List Char → List (List Char)
  | part, [] => [part.reverse]
  | part, c :: rest =>
    if c = separator then part.reverse :: splitAt separator [] rest
    else splitAt separator (c :: part) rest

/-- The names of a list without the white space around them. Empty names are left out. -/
def splitNames (list : String) : List String :=
  ((splitAt ',' [] list.toList).map fun part => String.ofList (Text.trimChars part)).filter
    (· ≠ "")

end Assay.CommandLine
