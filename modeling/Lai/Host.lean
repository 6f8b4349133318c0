import Lai.Build.Record
import Lai.Text.Quoted
/-!
# Hosts

What a command needs from the machine it runs on: files, folders, two streams to print to, other
programs, a clock and a history of builds. A command is written over any host, so that it can run on
a machine as well as in memory.
-/

namespace Lai

/-- Why a file operation failed. -/
inductive FileCause where
  | missing
  | notDirectory
  | isDirectory
  | denied
  | tooManyLinks
  | nameTooLong
  | invalid
  | other (text : String)
  deriving DecidableEq, Inhabited, Repr

/-- How the cause is shown. -/
def FileCause.text : FileCause → String
  | .missing => "no such file or directory"
  | .notDirectory => "not a directory"
  | .isDirectory => "is a directory"
  | .denied => "permission denied"
  | .tooManyLinks => "too many levels of symbolic links"
  | .nameTooLong => "file name too long"
  | .invalid => "invalid argument"
  | .other text => text

/-- What was being done to a file. -/
inductive FileAction where
  | opening
  | reading
  deriving DecidableEq, Inhabited, Repr

/-- How the action is shown. -/
def FileAction.text : FileAction → String
  | .opening => "open"
  | .reading => "read"

/-- A file operation that failed. -/
structure FileError where
  action : FileAction
  path : String
  cause : FileCause
  deriving DecidableEq, Inhabited, Repr

/-- The error as shown. -/
def FileError.text (e : FileError) : String :=
  e.action.text ++ " " ++ e.path ++ ": " ++ e.cause.text

/-- How another program ended. -/
inductive Exit where
  | done
  | status (code : Nat)
  | notFound (program : String)
  deriving DecidableEq, Inhabited, Repr

/-- What is said about a program that did not end well. -/
def Exit.complaint? : Exit → Option String
  | .done => none
  | .status code => some ("exit status " ++ Nat.repr code)
  | .notFound program => some ("exec: " ++ Text.quote program ++ ": executable file not found in $PATH")

/-- A place that files can be read from. -/
class FileReader (m : Type → Type) where
  /-- The text of a file. -/
  readFile : String → m (Except FileError String)

/-- A place whose folders can be listed. -/
class FolderReader (m : Type → Type) where
  /-- The names of the files in a folder, folders in it aside. -/
  listFiles : String → m (Except FileError (List String))

/-- A machine that a command can run on. -/
class Host (m : Type → Type) extends FileReader m where
  /-- Makes a file with the given text, or gives a file that text. -/
  writeFile : String → String → m (Except FileError Unit)
  /-- Prints to the standard output. -/
  print : String → m Unit
  /-- Prints to the standard error. -/
  printError : String → m Unit
  /-- Runs another program with arguments. -/
  launch : String → List String → m Exit
  /-- The time in microseconds. -/
  clock : m Int
  /-- Adds a record to the history kept at an address, and says what went wrong if it did. -/
  record : String → Build.Record → m (Option String)

/-- The documents at the given paths, up to the first that cannot be read. -/
def readDocuments {m : Type → Type} [Monad m] [FileReader m] :
    List String → m (Except FileError (List Document))
  | [] => return .ok []
  | path :: rest => do
    match ← FileReader.readFile path with
    | .error e => return .error e
    | .ok text =>
      match ← readDocuments rest with
      | .error e => return .error e
      | .ok docs => return .ok (Document.ofText path text :: docs)

end Lai
