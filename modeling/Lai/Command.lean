import Lai.Command.Settings
import Lai.Diagnostic.Excerpt
import Lai.Host
import Lai.Text.Path
import Lai.Token.Listing
import Lai.Tree.Outline
/-!
# The command

The command reads the files named by its arguments, builds them, and writes the target text. It
prints what was asked for; a build that fails writes nothing.
-/

namespace Lai.Command

/-- Why the command failed. -/
inductive Failure where
  | usage (e : UsageError)
  | load (e : FileError)
  | build (e : Build.Failure)
  | write (path : String) (e : FileError)
  | compiler (cc path complaint : String)
  deriving DecidableEq, Inhabited, Repr

namespace Failure

/-- The failure as shown. -/
def text : Failure → String
  | .usage e => e.text
  | .load e => "load sources: " ++ e.text
  | .build e => e.text
  | .write path e => "write " ++ path ++ ": " ++ e.text
  | .compiler cc path complaint => cc ++ " " ++ path ++ ": " ++ complaint

/-- Whether the failure was caused by the files that were compiled. -/
def isGate : Failure → Bool
  | .build e => e.isGate
  | _ => false

end Failure

/-- What is printed about a build that a gate has ended. -/
def failureReport (styles : Styles) (docs : List Document) (log : Log) (count : Int) : String :=
  String.join (log.diagnostics.map (·.render styles docs)) ++ Diagnostic.failureLine styles count

/-- The dumps that were asked for, as far as the build has come: the tokens before the trees. -/
def dumps (settings : Settings) (docs : List Document) (outcome : Build.Outcome) : String :=
  (if settings.tokens then (outcome.tokens.map fun tokens => Token.listing (docs.zip tokens)).getD "" else "") ++
  (if settings.ast then (outcome.files.map Tree.outlines).getD "" else "")

/-- Where the native compiler puts the program made from the C file at a path: beside it, under its name
without the extension, or, if that is no other name, with an extension of its own. -/
def programPath (source : String) : String :=
  let bare := Text.Path.dropExtension source
  if bare = "" ∨ bare = source then source ++ ".out" else bare

section

variable {m : Type → Type} [Monad m] [Host m]

/-- Prints a line of the log if the log was asked for. -/
def announce (settings : Settings) (text : String) : m Unit :=
  if settings.verbose then Host.printError ("laic: " ++ text ++ "\n") else pure ()

/-- Adds a build to the history, if one is kept. A history that cannot be written is no reason to
fail. -/
def remember (settings : Settings) (record : Build.Record) : m Unit := do
  if settings.history ≠ "" then
    match ← Host.record settings.history record with
    | none => pure ()
    | some complaint => Host.printError ("warning: could not record build history: " ++ complaint ++ "\n")

/-- Runs the native compiler on the written file. -/
def runCompiler (settings : Settings) : m (Option Failure) := do
  announce settings ("Running " ++ settings.cc ++ "...")
  let exit ← Host.launch settings.cc ["-o", programPath settings.output, settings.output]
  return exit.complaint?.map (.compiler settings.cc settings.output)

/-- Writes the target text of a build that succeeded. -/
def deliver (settings : Settings) (docs : List Document) (code : String) : m (Option Failure) := do
  match ← Host.writeFile settings.output code with
  | .error e => return some (.write settings.output e)
  | .ok () =>
    Host.print ("compiled " ++ Nat.repr docs.length ++ " file(s) -> " ++ settings.output ++ "\n")
    if settings.cc = "" then return none else runCompiler settings

/-- Builds the documents, unless that is called off, and goes on with what came of it. -/
def compileDocuments (styles : Styles) (settings : Settings) (docs : List Document) (cancelled : Bool) :
    m (Option Failure) := do
  let started ← Host.clock
  let outcome := Build.run { workers := settings.workers, cancelled := cancelled } docs
  outcome.stages.forM fun stage => announce settings stage.text
  let ended ← Host.clock
  Host.print (dumps settings docs outcome)
  remember settings
    (.make docs outcome.log.count outcome.code (started.tdiv 1000) (ended - started))
  match outcome.failure with
  | none => deliver settings docs outcome.code
  | some failure =>
    match failure with
    | .gate _ count => Host.printError (failureReport styles docs outcome.log count)
    | _ => pure ()
    return some (.build failure)

/-- Runs the command. It may be called off before it has begun to build. -/
def run (styles : Styles) (args : List String) (history : String) (cancelled : Bool := false) :
    m (Option Failure) := do
  match Settings.ofArgs args history with
  | .error e =>
    Host.printError e.report
    return some (.usage e)
  | .ok settings =>
    settings.files.forM fun path => announce settings ("Loading file: " ++ path ++ "...")
    match ← readDocuments settings.files with
    | .error e => return some (.load e)
    | .ok docs => compileDocuments styles settings docs cancelled

end

end Lai.Command
