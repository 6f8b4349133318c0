import Lai.Diagnostic
/-!
# Failures

A failure on its way up: at a known place, at no place, or inside another failure. What is finally
reported is the place and the text of the innermost failure with a place; a failure without any is
reported in full at the place reached so far.
-/

namespace Lai

/-- A failure on its way to the log. -/
inductive Failure where
  | placed (loc : Location) (message : String)
  | bare (message : String)
  | within (context : String) (cause : Failure)
  deriving DecidableEq, Inhabited, Repr

namespace Failure

/-- The failure in full. -/
def text : Failure → String
  | .placed loc message => loc.text ++ ": " ++ message
  | .bare message => message
  | .within context cause => context ++ ": " ++ cause.text

/-- The place of the failure and what is said there. -/
def place? : Failure → Option (Located String)
  | .placed loc message => some ⟨loc, message⟩
  | .bare _ => none
  | .within _ cause => cause.place?

/-- The diagnostic of a failure, `prev` being the place reached so far. -/
def diagnostic (file : String) (prev : Location) (failure : Failure) : Diagnostic :=
  .ofFault file .syntactic (failure.place?.getD ⟨prev, failure.text⟩)

end Failure

end Lai
