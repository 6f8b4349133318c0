import Lai.Command.Number
import Lai.Text
import Lai.Text.Quoted
/-!
# Settings

What the arguments of the command ask for: flags first, then the files to compile.
-/

namespace Lai.Command

/-- What the arguments ask for. -/
structure Settings where
  output : String := "output.c"
  tokens : Bool := false
  ast : Bool := false
  workers : Int := 1
  cc : String := ""
  history : String := ""
  verbose : Bool := false
  files : List String := []
  deriving DecidableEq, Inhabited, Repr

/-- A flag that is on or off. -/
inductive Switch where
  | tokens
  | ast
  | verbose
  deriving DecidableEq, Inhabited, Repr

/-- A flag with a value. -/
inductive Setting where
  | output
  | workers
  | cc
  | history
  deriving DecidableEq, Inhabited, Repr

/-- A flag. -/
inductive Flag where
  | switch (s : Switch)
  | setting (s : Setting)
  deriving DecidableEq, Inhabited, Repr

/-- The flag with the given name. -/
def Flag.ofName? : String → Option Flag
  | "tokens" => some (.switch .tokens)
  | "ast" => some (.switch .ast)
  | "v" => some (.switch .verbose)
  | "o" => some (.setting .output)
  | "workers" => some (.setting .workers)
  | "cc" => some (.setting .cc)
  | "history" => some (.setting .history)
  | _ => none

/-- Why the arguments cannot be followed. -/
inductive UsageError where
  | badFlag (arg : String)
  | undefined (name : String)
  | help
  | badSwitch (name value : String)
  | missingValue (name : String)
  | badValue (name value : String) (fault : NumberFault)
  | noFiles
  deriving DecidableEq, Inhabited, Repr

namespace UsageError

/-- The error as shown. -/
def text : UsageError → String
  | .badFlag arg => "bad flag syntax: " ++ arg
  | .undefined name => "flag provided but not defined: -" ++ name
  | .help => "flag: help requested"
  | .badSwitch name value => "invalid boolean value " ++ Text.quote value ++ " for -" ++ name ++ ": parse error"
  | .missingValue name => "flag needs an argument: -" ++ name
  | .badValue name value fault =>
    "invalid value " ++ Text.quote value ++ " for flag -" ++ name ++ ": " ++ fault.text
  | .noFiles => "laic: at least one source file is required"

/-- The lines that explain the command. -/
def usageLines : List String :=
  ["Usage: laic [flags] <file.lai>...",
   "Flags:",
   "  -ast",
   "    \tprint the assembled tree of every file",
   "  -cc string",
   "    \tC compiler to run on the generated file (e.g. gcc)",
   "  -history string",
   "    \tPostgreSQL connection string for build history (default $LAIC_HISTORY_DSN)",
   "  -o string",
   "    \tpath of the generated C file (default \"output.c\")",
   "  -tokens",
   "    \tprint the tokens of every file",
   "  -v\tlog each compiler stage",
   "  -workers int",
   "    \tnumber of files to tokenize in parallel (default 1)"]

/-- The text that explains the command. -/
def usage : String :=
  String.join (usageLines.map (· ++ "\n"))

/-- What is printed about the error: the explanation, and before it the error itself unless the
explanation was asked for or says enough. -/
def report : UsageError → String
  | .help => usage
  | .noFiles => usage
  | e => e.text ++ "\n" ++ usage

end UsageError

/-- The truth value that a switch is set to. -/
def readSwitch? (value : String) : Option Bool :=
  if value ∈ ["1", "t", "T", "TRUE", "true", "True"] then some true
  else if value ∈ ["0", "f", "F", "FALSE", "false", "False"] then some false
  else none

namespace Settings

/-- The settings with a switch set. -/
def setSwitch (settings : Settings) (on : Bool) : Switch → Settings
  | .tokens => { settings with tokens := on }
  | .ast => { settings with ast := on }
  | .verbose => { settings with verbose := on }

/-- The settings with a value set. -/
def set (settings : Settings) (name value : String) : Setting → Except UsageError Settings
  | .output => .ok { settings with output := value }
  | .cc => .ok { settings with cc := value }
  | .history => .ok { settings with history := value }
  | .workers =>
    match readInteger value with
    | .ok n => .ok { settings with workers := n }
    | .error fault => .error (.badValue name value fault)

end Settings

/-- What one argument is: the first file, the mark after which only files follow, a flag with or
without a value of its own, or something that looks like a flag and is none. -/
inductive Argument where
  | file
  | mark
  | flag (name : String) (value : Option String)
  | bad
  deriving DecidableEq, Inhabited, Repr

/-- A flag's name and the value after the first equals sign, which cannot come first. -/
def splitFlag (cs : List Char) : Argument :=
  match cs with
  | [] => .bad
  | c :: rest =>
    if c = '-' ∨ c = '=' then .bad
    else
      let name := String.ofList (c :: rest.takeWhile (· ≠ '='))
      match rest.dropWhile (· ≠ '=') with
      | [] => .flag name none
      | _ :: value => .flag name (some (String.ofList value))

/-- What an argument is. -/
def Argument.ofText (arg : String) : Argument :=
  match arg.toList with
  | '-' :: '-' :: [] => .mark
  | '-' :: '-' :: name => splitFlag name
  | '-' :: [] => .file
  | '-' :: name => splitFlag name
  | _ => .file

namespace Settings

/-- Follows the arguments one after another. -/
def follow (settings : Settings) : List String → Except UsageError Settings
  | [] => .ok { settings with files := [] }
  | arg :: rest =>
    match Argument.ofText arg with
    | .file => .ok { settings with files := arg :: rest }
    | .mark => .ok { settings with files := rest }
    | .bad => .error (.badFlag arg)
    | .flag name value =>
      match Flag.ofName? name with
      | none => .error (if name = "help" ∨ name = "h" then .help else .undefined name)
      | some (.switch s) =>
        match value with
        | none => follow (settings.setSwitch true s) rest
        | some text =>
          match readSwitch? text with
          | none => .error (.badSwitch name text)
          | some on => follow (settings.setSwitch on s) rest
      | some (.setting s) =>
        match value with
        | some text =>
          match settings.set name text s with
          | .error e => .error e
          | .ok settings => follow settings rest
        | none =>
          match rest with
          | [] => .error (.missingValue name)
          | text :: rest =>
            match settings.set name text s with
            | .error e => .error e
            | .ok settings => follow settings rest

/-- The settings that the arguments ask for. Without a history of their own they take the one of the
environment. -/
def ofArgs (args : List String) (history : String) : Except UsageError Settings :=
  match follow {} args with
  | .error e => .error e
  | .ok settings =>
    if settings.files = [] then .error .noFiles
    else .ok { settings with history := if settings.history = "" then history else settings.history }

end Settings

end Lai.Command
