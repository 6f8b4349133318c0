import Lai.Host
import Lai.Text.Path
import Lai.Text.Utf8
/-!
# File trees

The files and folders of a machine, held in memory. A place is known by the names that lead to it from
the root, and a path is followed element by element: from the root if it begins with a slash, else from
the working folder. Every element but the last has to be a folder, or a link that leads to one. Files are
numbered, so that one file can be at several places.
-/

namespace Lai

/-- What may be done with a file or folder: it may be read or listed, written or added to, and a folder
may be passed through. -/
structure Access where
  read : Bool := true
  write : Bool := true
  search : Bool := true
  deriving DecidableEq, Inhabited, Repr

/-- What is at a place of a file tree: a folder, the file of a number, a link to a path, or a sink, which
reads as an empty file and forgets what is written to it. -/
inductive FileNode where
  | folder (access : Access)
  | file (number : Nat)
  | link (path : String)
  | sink
  deriving DecidableEq, Inhabited, Repr

/-- What is in a file, and what may be done with it. -/
structure FileData where
  bytes : List UInt8 := []
  access : Access := {}
  deriving DecidableEq, Inhabited, Repr

/-- A working folder, what is at each place below the root, and the files by their numbers. -/
structure FileTree where
  home : List String
  root : Access := {}
  nodes : List (List String × FileNode)
  store : List (Nat × FileData) := []
  deriving DecidableEq, Repr

namespace FileTree

/-- The folders that are always found at the root. -/
def rootFolders : List String :=
  ["bin", "dev", "etc", "home", "lib", "opt", "proc", "root", "run", "sbin", "sys", "tmp", "usr", "var"]

/-- The tree of a machine with an empty working folder. -/
def fresh : FileTree where
  home := ["tmp", "work"]
  nodes := (["tmp", "work"], .folder {}) :: (["dev", "null"], .sink) ::
    rootFolders.map fun name => ([name], .folder {})

instance : Inhabited FileTree := ⟨fresh⟩

/-- What is at a place. -/
def node? (tree : FileTree) (place : List String) : Option FileNode :=
  if place = [] then some (.folder tree.root) else tree.nodes.lookup place

/-- The file of a number; nothing has been written to a number that is not in the store. -/
def data (tree : FileTree) (number : Nat) : FileData :=
  (tree.store.lookup number).getD {}

/-- The files below the working folder, each by the names that lead to it from there. -/
def files (tree : FileTree) : List (List String × List UInt8) :=
  tree.nodes.filterMap fun (place, node) =>
    match node with
    | .file number =>
      if tree.home.isPrefixOf place then some (place.drop tree.home.length, (tree.data number).bytes) else none
    | _ => none

/-! ### Following paths -/

/-- The access to the folder at a place. -/
def folder (tree : FileTree) (place : List String) : Except FileCause Access :=
  match tree.node? place with
  | some (.folder access) => .ok access
  | some _ => .error .notDirectory
  | none => .error .missing

/-- The longest name that a file can have, in bytes. -/
def maxName : Nat := 255

/-- The longest path that can be followed, in bytes. -/
def maxPath : Nat := 4095

/-- The most links that are followed on the way of one path. -/
def maxLinks : Nat := 40

/-- The place that one element of a path leads to. There is nothing above the root. -/
def follow (place : List String) (name : String) : List String :=
  if name = "" ∨ name = "." then place
  else if name = ".." then place.dropLast
  else place ++ [name]

/-- Goes on from a place with an element of a path: the place has to be a folder that may be passed
through. An empty element only asks for a folder. -/
def pass (tree : FileTree) (place : List String) (name : String) : Except FileCause Unit :=
  match tree.folder place with
  | .error cause => .error cause
  | .ok access => if name = "" ∨ access.search then .ok () else .error .denied

/-- The place that following a path from a folder starts from. -/
def start (place : List String) (path : String) : List String :=
  if path.toList.head? = some '/' then [] else place

/-- The elements of a path that can be followed at all. -/
def elements (path : String) : Except FileCause (List String) :=
  if path.toList.contains (Char.ofNat 0) then .error .invalid
  else if path = "" then .error .missing
  else if path.utf8ByteSize > maxPath then .error .nameTooLong
  else .ok ((Text.Path.split path.toList).map String.ofList)

/-- Whether the element and what follows it name a folder, as a path does that ends with a slash or with
dots. -/
def NamesFolder (name : String) (rest : List String) : Prop :=
  (∀ more ∈ rest, more = "") ∧ (rest ≠ [] ∨ name = "" ∨ name = "." ∨ name = "..")

instance (name : String) (rest : List String) : Decidable (NamesFolder name rest) :=
  inferInstanceAs (Decidable (_ ∧ _))

/-- Follows the elements of a path from a place. A path along which a file is to be made must not name a
folder. At a link, `again` goes on from the folder that the link is in. -/
def walkWith (tree : FileTree) (making : Bool) (again : List String → List String → Except FileCause (List String))
    (place : List String) : List String → Except FileCause (List String)
  | [] => .ok place
  | name :: rest =>
    match tree.pass place name with
    | .error cause => .error cause
    | .ok () =>
      if making ∧ NamesFolder name rest then .error .isDirectory
      else if name.utf8ByteSize > maxName then .error .nameTooLong
      else
        match tree.node? (follow place name) with
        | some (.link path) =>
          match elements path with
          | .error cause => .error cause
          | .ok names => again (start place path) (names ++ rest)
        | _ => walkWith tree making again (follow place name) rest

/-- Follows the elements of a path from a place, and so many links on the way. -/
def walk (tree : FileTree) (making : Bool) : Nat → List String → List String → Except FileCause (List String)
  | 0 => tree.walkWith making fun _ _ => .error .tooManyLinks
  | links + 1 => tree.walkWith making (tree.walk making links)

/-- The place that a path leads to. -/
def locate (tree : FileTree) (making : Bool) (path : String) : Except FileCause (List String) :=
  match elements path with
  | .error cause => .error cause
  | .ok names => tree.walk making maxLinks (start tree.home path) names

/-! ### Reading -/

/-- The bytes of the file at a path. -/
def read (tree : FileTree) (path : String) : Except FileError (List UInt8) :=
  match tree.locate false path with
  | .error cause => .error ⟨.opening, path, cause⟩
  | .ok place =>
    match tree.node? place with
    | some (.file number) =>
      if (tree.data number).access.read then .ok (tree.data number).bytes else .error ⟨.opening, path, .denied⟩
    | some (.folder access) =>
      .error (if access.read then ⟨.reading, path, .isDirectory⟩ else ⟨.opening, path, .denied⟩)
    | some .sink => .ok []
    | some (.link _) => .error ⟨.opening, path, .tooManyLinks⟩
    | none => .error ⟨.opening, path, .missing⟩

/-- The name of a node if it stands in a folder and is none itself. -/
def nameIn? (place : List String) (entry : List String × FileNode) : Option String :=
  match entry.2 with
  | .folder _ => none
  | _ => if entry.1.dropLast = place then entry.1.getLast? else none

/-- The names of the files in the folder at a path. -/
def list (tree : FileTree) (path : String) : Except FileError (List String) :=
  match tree.locate false path with
  | .error cause => .error ⟨.opening, path, cause⟩
  | .ok place =>
    match tree.folder place with
    | .error cause => .error ⟨.opening, path, cause⟩
    | .ok access =>
      if access.read then .ok (tree.nodes.filterMap (nameIn? place)) else .error ⟨.opening, path, .denied⟩

/-! ### Writing -/

/-- Whether a file can be written at a place: what is there may be written to, or a file may be made in
the folder. -/
def mayWrite (tree : FileTree) (place : List String) : Except FileCause Unit :=
  match tree.node? place with
  | some (.folder _) => .error .isDirectory
  | some (.file number) => if (tree.data number).access.write then .ok () else .error .denied
  | some (.link _) => .error .tooManyLinks
  | some .sink => .ok ()
  | none =>
    match tree.folder place.dropLast with
    | .error cause => .error cause
    | .ok access => if access.write then .ok () else .error .denied

/-- A number that no place has a file of. -/
def unused (tree : FileTree) : Nat :=
  (tree.nodes.map fun entry => match entry.2 with | .file number => number + 1 | _ => 0).foldr max 0

/-- The tree with the bytes in the file at a place. -/
def put (tree : FileTree) (place : List String) (bytes : List UInt8) : FileTree :=
  match tree.node? place with
  | some (.file number) => { tree with store := (number, { tree.data number with bytes := bytes }) :: tree.store }
  | none =>
    { tree with
      nodes := (place, .file tree.unused) :: tree.nodes
      store := (tree.unused, { bytes := bytes }) :: tree.store }
  | _ => tree

/-- The tree with a file written at a path. -/
def write (tree : FileTree) (path : String) (bytes : List UInt8) : Except FileError FileTree :=
  match tree.locate true path with
  | .error cause => .error ⟨.opening, path, cause⟩
  | .ok place =>
    match tree.mayWrite place with
    | .error cause => .error ⟨.opening, path, cause⟩
    | .ok () => .ok (tree.put place bytes)

/-! ### Furnishing a tree -/

/-- The tree with a folder at a place, if nothing is there yet. -/
def addFolder (tree : FileTree) (place : List String) : FileTree :=
  if (tree.node? place).isSome then tree else { tree with nodes := (place, .folder {}) :: tree.nodes }

/-- The places that lead to a place, itself included. -/
def ancestors (place : List String) : List (List String) :=
  (List.range place.length).map fun n => place.take (n + 1)

/-- The tree with a file added below the working folder, together with the folders above it. A path
that ends with a slash adds only folders. -/
def add (tree : FileTree) (path : String) (bytes : List UInt8) : FileTree :=
  let names := (Text.Path.split path.toList).map String.ofList
  let place := names.foldl follow tree.home
  if names.getLast? = some "" then (ancestors place).foldl addFolder tree
  else ((ancestors place.dropLast).foldl addFolder tree).put place bytes

end FileTree

end Lai
