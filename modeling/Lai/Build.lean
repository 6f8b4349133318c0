import Lai.Assembly
import Lai.C.Program
import Lai.Token.Scan
/-!
# Builds

A build takes documents through three stages: their tokens, their trees, and one target text for all
of them. After each of the first two stages stands a gate: if anything has been reported the build
ends there, so that the last stage sees only trees without faults.
-/

namespace Lai.Build

/-- A step of a build, as it is announced. -/
inductive Stage where
  | tokenizing (files : Nat)
  | assembling
  | generating
  deriving DecidableEq, Inhabited, Repr

/-- The announcement. -/
def Stage.text : Stage → String
  | .tokenizing files => "Tokenizing " ++ Nat.repr files ++ " files..."
  | .assembling => "Assembling AST..."
  | .generating => "Generating code..."

/-- Why a build has no result: a gate was closed, it was called off, or the target text could not be
written. -/
inductive Failure where
  | gate (stage : String) (count : Int)
  | cancelled
  | backend (message : String)
  deriving DecidableEq, Inhabited, Repr

namespace Failure

/-- The failure as shown. -/
def text : Failure → String
  | .gate stage count => "compilation failed: " ++ stage ++ " with " ++ Text.decimal count ++ " errors"
  | .cancelled => "context canceled"
  | .backend message => "code generation: " ++ message

/-- Whether the failure was caused by the documents. -/
def isGate : Failure → Bool
  | .gate .. => true
  | _ => false

end Failure

/-- What writes trees as a target text. -/
abbrev Backend := List Tree.File → Except String String

/-- How a build is done. -/
structure Options where
  workers : Int := 1
  backend : Backend := C.compile
  cancelled : Bool := false

/-- What a build came to: its announcements, what each stage made, everything reported, and why it
ended early if it did. -/
structure Outcome where
  stages : List Stage := []
  tokens : Option (List (List Token)) := none
  files : Option (List Tree.File) := none
  code : String := ""
  log : Log := {}
  failure : Option Failure := none
  deriving Inhabited, Repr

/-- Applies a function to every element, to at most `workers` of them at a time. -/
def mapWorkers {α β : Type} (workers : Nat) (f : α → β) : List α → List β
  | [] => []
  | x :: xs =>
    let later := (xs.take (workers - 1)).map fun y => Task.spawn fun _ => f y
    f x :: later.map Task.get ++ mapWorkers workers f (xs.drop (workers - 1))
termination_by xs => xs.length
decreasing_by
  simp only [List.length_drop, List.length_cons]
  omega

/-- However many are worked on at a time, the results come in the order of the elements. -/
theorem mapWorkers_eq_map {α β : Type} (workers : Nat) (f : α → β) (xs : List α) :
    mapWorkers workers f xs = xs.map f := by
  fun_induction mapWorkers workers f xs with
  | case1 => rfl
  | case2 x xs later ih =>
      have hlater : later.map Task.get = (xs.take (workers - 1)).map f := by
        simp only [later, List.map_map]
        rfl
      rw [hlater, ih, List.map_cons, List.cons_append, ← List.map_append, List.take_append_drop]

/-- Scans the documents, `workers` of them at a time. -/
def scanAll (workers : Int) (docs : List Document) : List Scan :=
  mapWorkers workers.toNat (fun doc => Scan.ofLines doc.lines) docs

/-- Ends the build if anything has been reported, else goes on. -/
def gate (stage : String) (outcome : Outcome) (next : Outcome → Outcome) : Outcome :=
  if outcome.log.count = 0 then next outcome
  else { outcome with failure := some (.gate stage outcome.log.count) }

/-- The first stage: the tokens of every document. -/
def tokenize (workers : Int) (docs : List Document) (outcome : Outcome) : Outcome :=
  let scans := scanAll workers docs
  { outcome with
    tokens := some (scans.map (·.tokens))
    log := outcome.log.reportAll ((docs.zip scans).flatMap fun (doc, scan) => scan.diagnostics doc.name) }

/-- The second stage: the tree of every document. -/
def assemble (docs : List Document) (outcome : Outcome) : Outcome :=
  let assemblies := (docs.zip (outcome.tokens.getD [])).map fun (doc, ts) => Assembly.ofTokens doc.name ts
  { outcome with
    stages := outcome.stages ++ [Stage.assembling]
    files := some (assemblies.map (·.file))
    log := outcome.log.reportAll (assemblies.flatMap (·.diagnostics)) }

/-- The third stage: the target text. -/
def generate (backend : Backend) (outcome : Outcome) : Outcome :=
  let stages := outcome.stages ++ [Stage.generating]
  match backend (outcome.files.getD []) with
  | .ok code => { outcome with stages := stages, code := code }
  | .error message => { outcome with stages := stages, failure := some (.backend message) }

/-- Builds documents. A build that was called off fails as soon as there is a document to look at. -/
def run (options : Options) (docs : List Document) : Outcome :=
  let start : Outcome := { stages := [.tokenizing docs.length] }
  if options.cancelled && !docs.isEmpty then { start with failure := some .cancelled }
  else
    gate "tokenizing" (tokenize options.workers docs start) fun scanned =>
    gate "assembling" (assemble docs scanned) fun assembled =>
    generate options.backend assembled

end Lai.Build
