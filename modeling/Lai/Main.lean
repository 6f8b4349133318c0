import Lai.Command
import Lai.Text.Utf8
/-!
# The program

The command on a real machine. It starts no other programs and reaches no history of builds.
-/

namespace Lai

/-- The cause that the machine gives a number. Some of its calls give the number negated. -/
def FileCause.ofNumber? (number : UInt32) : Option FileCause :=
  match (min number (0 - number)).toNat with
  | 2 => some .missing
  | 13 => some .denied
  | 20 => some .notDirectory
  | 21 => some .isDirectory
  | 22 => some .invalid
  | 36 => some .nameTooLong
  | 40 => some .tooManyLinks
  | _ => none

/-- The cause of a file error of the machine. -/
def FileCause.ofError (e : IO.Error) : FileCause :=
  let number :=
    match e with
    | .noFileOrDirectory _ number _ | .permissionDenied _ number _ | .inappropriateType _ number _
    | .invalidArgument _ number _ => number
    | _ => 0
  (FileCause.ofNumber? number).getD (.other (toString e))

/-- The error of reading a file: a folder can be opened and not be read. -/
def FileError.ofReading (path : String) (e : IO.Error) : FileError :=
  let cause := FileCause.ofError e
  ⟨if cause = .isDirectory then .reading else .opening, path, cause⟩

instance : Host IO where
  readFile path := do
    try
      let bytes ← IO.FS.readBinFile path
      return .ok (Text.decode bytes.toList)
    catch e => return .error (.ofReading path e)
  writeFile path text := do
    try
      IO.FS.writeFile path text
      return .ok ()
    catch e => return .error ⟨.opening, path, .ofError e⟩
  print := IO.print
  printError := IO.eprint
  launch name _ := return .notFound name
  clock := return 1000 * (← IO.monoMsNow)
  record _ _ := return some "no history is kept on this machine"

end Lai

/-- Runs the command; what has not been shown yet about a failure is shown at the end. -/
def main (args : List String) : IO UInt32 := do
  let history := (← IO.getEnv "LAIC_HISTORY_DSN").getD ""
  match ← Lai.Command.run .plain args history with
  | none => return 0
  | some failure =>
    unless failure.isGate do IO.eprintln failure.text
    return 1
