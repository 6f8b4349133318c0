/-!
# Paths

Slash-separated paths, handled as text: the last element, the extension, the canonical form and the
joining of a directory with a name.
-/

namespace Lai.Text.Path

/-- The elements between the slashes; an empty one for each slash at an end or after a slash. -/
def split (path : List Char) : List (List Char) :=
  path.splitOn '/'

/-- The part of the path after its last slash. -/
def lastPart (path : List Char) : List Char :=
  (path.reverse.takeWhile (· ≠ '/')).reverse

/-- The last element, trailing slashes aside: `.` for the empty path, `/` for slashes alone. -/
def base (path : String) : String :=
  let cs := path.toList
  if cs = [] then "."
  else
    match lastPart ((cs.reverse.dropWhile (· = '/')).reverse) with
    | [] => "/"
    | name => String.ofList name

/-- The length of the extension: the last element from its last dot on, or nothing if it has none. -/
def extensionLength (path : List Char) : Nat :=
  let tail := (path.reverse.takeWhile (fun c => c ≠ '/' ∧ c ≠ '.')).length
  if path.reverse[tail]? = some '.' then tail + 1 else 0

/-- The path without its extension. -/
def dropExtension (path : String) : String :=
  String.ofList (path.toList.take (path.toList.length - extensionLength path.toList))

/-- One element of a path appended to the canonical elements before it, latest first. An element
that climbs out takes back the one before it; at the root there is nothing to climb out of. -/
def cleanStep (rooted : Bool) (done : List (List Char)) (name : List Char) : List (List Char) :=
  if name = [] ∨ name = ['.'] then done
  else if name = ['.', '.'] then
    match done with
    | [] => if rooted then [] else [name]
    | last :: before => if last = ['.', '.'] then name :: done else before
  else name :: done

/-- The shortest path equal to the given one: no empty element, no `.`, and `..` only in front. -/
def clean (path : String) : String :=
  let cs := path.toList
  let rooted := cs.head? = some '/'
  let body := ['/'].intercalate ((split cs).foldl (cleanStep rooted) []).reverse
  if rooted then String.ofList ('/' :: body)
  else if body = [] then "."
  else String.ofList body

/-- The path of `name` in the directory `dir`. -/
def join (dir name : String) : String :=
  if dir = "" then (if name = "" then "" else clean name)
  else if name = "" then clean dir
  else clean (dir ++ "/" ++ name)

end Lai.Text.Path
