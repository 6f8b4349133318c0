import Lai.Host
import Lai.Text
import Lai.Text.Path
/-!
# Fixtures

A fixture is a folder of files that are compiled together, with what is expected of them: the output
of the program, or the diagnostics.
-/

namespace Lai

/-- A folder of documents and what is expected of compiling them. -/
structure Fixture where
  folder : String
  documents : List Document
  expectedOutput : String := ""
  expectedErrors : List String := []
  deriving DecidableEq, Inhabited, Repr

namespace Fixture

/-- The end of the names of the files that are compiled. -/
def extension : String := ".lai"

/-- The paths of the files to compile among the files of a folder, in order. -/
def documentPaths (folder : String) (names : List String) : List String :=
  ((names.filter fun name => extension.toList.isSuffixOf name.toList).map (Text.Path.join folder)).mergeSort
    fun a b => a ≤ b

/-- The diagnostics a text expects, one on each line. -/
def errorLines (text : String) : List String :=
  ((Text.trim text).toList.splitOn '\n').map String.ofList

/-- The diagnostic without its message, under the last element of its file's path. -/
def summary (d : Diagnostic) : String :=
  Text.Path.base d.file ++ ":" ++ d.loc.text ++ ": " ++ d.category.text

section

variable {m : Type → Type} [Monad m] [FileReader m] [FolderReader m]

/-- The text of a file that may be missing. -/
def readOptional (path : String) : m (Except FileError (Option String)) := do
  match ← FileReader.readFile path with
  | .ok text => return .ok (some text)
  | .error e => return if e.cause = .missing then .ok none else .error e

/-- Loads the fixture in a folder. -/
def load (folder : String) : m (Except FileError Fixture) := do
  match ← FolderReader.listFiles folder with
  | .error e => return .error e
  | .ok names =>
    match ← readDocuments (documentPaths folder names) with
    | .error e => return .error e
    | .ok docs =>
      match ← readOptional (Text.Path.join folder "expected_output.txt") with
      | .error e => return .error e
      | .ok output =>
        match ← readOptional (Text.Path.join folder "expected_errors.txt") with
        | .error e => return .error e
        | .ok errors => return .ok ⟨folder, docs, output.getD "", (errors.map errorLines).getD []⟩

end

/-- Compiles the documents together. -/
def compile (fixture : Fixture) : Build.Outcome :=
  Build.run { workers := 2 } fixture.documents

end Fixture

end Lai
