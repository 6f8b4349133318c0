import Lai.Location
/-!
# Diagnostics

A diagnostic is one complaint about one place of one file. A log keeps them in the order in which
they were reported.
-/

namespace Lai

/-- What a diagnostic complains about: the spelling, the grammar or the types. -/
inductive Category where
  | lexical
  | syntactic
  | typing
  deriving DecidableEq, Inhabited, Repr

namespace Category

/-- The categories in the order of the stages that report them. -/
def all : List Category := [.lexical, .syntactic, .typing]

/-- How the category is shown. -/
def text : Category → String
  | .lexical => "lexical error"
  | .syntactic => "syntax error"
  | .typing => "type error"

end Category

/-- One complaint about one place of one file. -/
structure Diagnostic where
  file : String
  loc : Location
  category : Category
  message : String
  deriving DecidableEq, Inhabited, Repr

namespace Diagnostic

/-- The diagnostic on one line. -/
def text (d : Diagnostic) : String :=
  d.file ++ ":" ++ d.loc.text ++ ": " ++ d.category.text ++ ": " ++ d.message

/-- A find of one stage as a diagnostic of a file. -/
def ofFault (file : String) (category : Category) (fault : Located String) : Diagnostic :=
  ⟨file, fault.loc, category, fault.value⟩

/-- The diagnostics of one file in reading order; two at one place stay as they were. -/
def sort (ds : List Diagnostic) : List Diagnostic :=
  ds.mergeSort fun a b => ¬ b.loc.Before a.loc

end Diagnostic

/-- Everything reported so far, in report order. -/
structure Log where
  diagnostics : List Diagnostic := []
  deriving DecidableEq, Inhabited, Repr

namespace Log

/-- The log with one more report. -/
def report (log : Log) (d : Diagnostic) : Log :=
  ⟨log.diagnostics ++ [d]⟩

/-- The log with a list of further reports. -/
def reportAll (log : Log) (ds : List Diagnostic) : Log :=
  ⟨log.diagnostics ++ ds⟩

/-- How many reports there are. -/
def count (log : Log) : Nat :=
  log.diagnostics.length

end Log

end Lai
