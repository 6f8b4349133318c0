import Lai.Diagnostic
import Lai.Grammar.Phrase
import Lai.Scopes
import Lai.Tree
/-!
# Resolving scopes

Resolving goes through the statements in order and notes at each variable what it is bound to. A
declaration is visible from the statement after it to the end of its block; its initial value still
sees what was visible before. A second declaration of a name in one block is reported and changes
nothing. Broken statements are reported and leave no statement behind.
-/

namespace Lai.Grammar

/-- What is reported while scopes are resolved: broken statements and repeated declarations. -/
inductive Note where
  | broken (fault : Fault)
  | redeclared (name : String)
  deriving DecidableEq, Repr

namespace Note

/-- The complaint. -/
def message : Note → String
  | .broken fault => fault.message
  | .redeclared name => "Variable '" ++ name ++ "' is already declared in this scope"

/-- What the complaint is about. -/
def category : Note → Category
  | .broken _ => .syntactic
  | .redeclared _ => .typing

/-- The note as a diagnostic of a file. -/
def diagnostic (file : String) (note : Located Note) : Diagnostic :=
  .ofFault file note.value.category (note.map message)

end Note

/-- What the name is bound to. -/
def binding (scopes : Scopes Ty) (name : String) : Binding :=
  match scopes.find? name with
  | some type => ⟨type, true⟩
  | none => ⟨.unknown, false⟩

/-- The result of resolving statements: the scopes after them, their trees, and what was noted. -/
structure Resolved where
  scopes : Scopes Ty
  trees : List Tree.Stmt := []
  notes : List (Located Note) := []
  deriving Inhabited, Repr

/-- Resolves a declaration with the type and value it ends up with. -/
def resolveDeclaration (scopes : Scopes Ty) (name : String) (type : Ty) (inferred : Bool)
    (value : Option (Expr Binding)) (loc : Location) : Resolved :=
  let tree := Tree.Stmt.declare name type inferred value loc
  if scopes.declares name then ⟨scopes, [tree], [⟨loc, .redeclared name⟩]⟩
  else ⟨scopes.bind name type, [tree], []⟩

mutual

/-- Resolves a statement. -/
def Stmt.resolve (scopes : Scopes Ty) : Stmt → Resolved
  | .infer name value loc =>
    let value := value.annotate (binding scopes)
    resolveDeclaration scopes name value.type true (some value) loc
  | .declare name type value loc =>
    resolveDeclaration scopes name type false (value.map (·.annotate (binding scopes))) loc
  | .assign name value loc =>
    ⟨scopes, [.assign name (binding scopes name) (value.annotate (binding scopes)) loc], []⟩
  | .print value loc => ⟨scopes, [.print (value.annotate (binding scopes)) loc], []⟩
  | .ifThen cond body brace loc =>
    let body := resolveAll scopes.enter body
    ⟨scopes, [.ifThen (cond.annotate (binding scopes)) body.trees brace loc], body.notes⟩
  | .ifElse cond body brace otherwise loc =>
    let body := resolveAll scopes.enter body
    let last := otherwise.resolve scopes
    let cond := cond.annotate (binding scopes)
    let tree := match last.trees with
      | stmt :: _ => Tree.Stmt.ifElse cond body.trees brace stmt loc
      | [] => Tree.Stmt.ifThen cond body.trees brace loc
    ⟨scopes, [tree], body.notes ++ last.notes⟩
  | .block body loc =>
    let body := resolveAll scopes.enter body
    ⟨scopes, [.block body.trees loc], body.notes⟩
  | .broken blocks fault =>
    ⟨scopes, [], (resolveAll scopes blocks).notes ++ [fault.map .broken]⟩

/-- Resolves statements that follow each other. -/
def resolveAll (scopes : Scopes Ty) : List Stmt → Resolved
  | [] => ⟨scopes, [], []⟩
  | stmt :: rest =>
    let first := stmt.resolve scopes
    let later := resolveAll first.scopes rest
    ⟨later.scopes, first.trees ++ later.trees, first.notes ++ later.notes⟩

end

end Lai.Grammar
