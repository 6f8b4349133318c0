import Lai.Host.FileTree
/-!
# Sessions in memory

A session is a machine held in memory: a file tree, what has been printed, and the programs that can
be run. It keeps no history of builds and its clock stands still.
-/

namespace Lai

/-- A program: what it prints for its arguments, and the status it ends with. -/
abbrev Program := List String → String × Nat

/-- A machine held in memory. -/
structure Session where
  tree : FileTree := .fresh
  output : String := ""
  errors : String := ""
  programs : String → Option Program := fun _ => none

namespace Session

/-- Runs a program, if there is one of that name. -/
def launch (s : Session) (name : String) (args : List String) : Exit × Session :=
  match s.programs name with
  | none => (.notFound name, s)
  | some program =>
    let result := program args
    (if result.2 = 0 then .done else .status result.2, { s with output := s.output ++ result.1 })

/-- The text of a file. -/
def readFile (s : Session) (path : String) : Except FileError String :=
  (s.tree.read path).map Text.decode

/-- Writes a file. -/
def writeFile (s : Session) (path text : String) : Except FileError Unit × Session :=
  match s.tree.write path (Text.bytes text) with
  | .ok tree => (.ok (), { s with tree := tree })
  | .error e => (.error e, s)

end Session

instance : FolderReader (StateM Session) where
  listFiles path := do return (← get).tree.list path

instance : Host (StateM Session) where
  readFile path := do return (← get).readFile path
  writeFile path text := modifyGet fun s => s.writeFile path text
  print text := modify fun s => { s with output := s.output ++ text }
  printError text := modify fun s => { s with errors := s.errors ++ text }
  launch name args := modifyGet fun s => s.launch name args
  clock := return 0
  record _ _ := return some "no history is kept in memory"

end Lai
