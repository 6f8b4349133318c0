import Lai.Proofs.Grammar.Trace
import Lai.Tree.Resolve
/-!
# Trees without their notes

What is left of a tree without what scoping says about it are the statements as they were written.
Resolving adds notes to statements that have not broken off and changes nothing else; statements that
have broken off are all reported.
-/

namespace Lai

/-- The expression without its notes. -/
def Expr.erase {β : Type} (e : Expr β) : Expr Unit :=
  e.annotate fun _ => ()

def Condition.erase {β : Type} (c : Condition β) : Condition Unit :=
  c.annotate fun _ => ()

@[simp] theorem Expr.erase_annotate {γ : Type} (note : String → γ) (e : Expr Unit) : (e.annotate note).erase = e := by
  induction e with
  | int value loc => rfl
  | string value loc => rfl
  | var name binding loc => rfl
  | math op left right loc ihleft ihright =>
      simp only [erase] at ihleft ihright
      simp only [erase, annotate, ihleft, ihright]

@[simp] theorem Condition.erase_annotate {γ : Type} (note : String → γ) (c : Condition Unit) :
    (c.annotate note).erase = c := by
  have hleft := Expr.erase_annotate note c.left
  have hright := Expr.erase_annotate note c.right
  simp only [Expr.erase] at hleft hright
  simp only [erase, annotate, hleft, hright]

namespace Tree

mutual

/-- The statement as it was written. -/
def Stmt.erase : Stmt → Grammar.Stmt
  | .declare name _ true (some value) loc => .infer name value.erase loc
  | .declare name type _ value loc => .declare name type (value.map Expr.erase) loc
  | .assign name _ value loc => .assign name value.erase loc
  | .print value loc => .print value.erase loc
  | .ifThen cond body brace loc => .ifThen cond.erase (eraseAll body) brace loc
  | .ifElse cond body brace otherwise loc => .ifElse cond.erase (eraseAll body) brace otherwise.erase loc
  | .block body loc => .block (eraseAll body) loc

def eraseAll : List Stmt → List Grammar.Stmt
  | [] => []
  | stmt :: rest => stmt.erase :: eraseAll rest

end

end Tree

namespace Grammar

theorem trees_resolveDeclaration {scopes : Scopes Ty} {type : Ty} (name : String) (inferred : Bool)
    (value : Option (Expr Binding)) (loc : Location) :
    (resolveDeclaration scopes name type inferred value loc).trees = [.declare name type inferred value loc] := by
  unfold resolveDeclaration
  split <;> rfl

mutual

/-- Resolving a statement adds notes to it and changes nothing else. -/
theorem erase_resolve (scopes : Scopes Ty) :
    (stmt : Stmt) → stmt.whole = true → ∃ tree, (stmt.resolve scopes).trees = [tree] ∧ tree.erase = stmt
  | .infer name value loc, _ => by
      simp only [Stmt.resolve, resolveDeclaration]
      split <;> exact ⟨_, rfl, by simp [Tree.Stmt.erase]⟩
  | .declare name type none loc, _ => by
      simp only [Stmt.resolve, resolveDeclaration]
      split <;> exact ⟨_, rfl, by simp [Tree.Stmt.erase]⟩
  | .declare name type (some value) loc, _ => by
      simp only [Stmt.resolve, resolveDeclaration]
      split <;> exact ⟨_, rfl, by simp [Tree.Stmt.erase]⟩
  | .assign name value loc, _ => ⟨_, rfl, by simp [Tree.Stmt.erase]⟩
  | .print value loc, _ => ⟨_, rfl, by simp [Tree.Stmt.erase]⟩
  | .ifThen cond body brace loc, h => ⟨_, rfl, by simp [Tree.Stmt.erase, eraseAll_resolveAll scopes.enter body h]⟩
  | .ifElse cond body brace otherwise loc, h => by
      rw [Stmt.whole, Bool.and_eq_true] at h
      obtain ⟨tree, htrees, herase⟩ := erase_resolve scopes otherwise h.2
      refine ⟨.ifElse (cond.annotate (binding scopes)) (resolveAll scopes.enter body).trees brace tree loc,
        by simp only [Stmt.resolve, htrees], ?_⟩
      simp [Tree.Stmt.erase, eraseAll_resolveAll scopes.enter body h.1, herase]
  | .block body loc, h => ⟨_, rfl, by simp [Tree.Stmt.erase, eraseAll_resolveAll scopes.enter body h]⟩
  | .broken blocks fault, h => absurd h Bool.false_ne_true

theorem eraseAll_resolveAll (scopes : Scopes Ty) :
    (stmts : List Stmt) → wholeAll stmts = true → Tree.eraseAll (resolveAll scopes stmts).trees = stmts
  | [], _ => rfl
  | stmt :: rest, h => by
      rw [wholeAll, Bool.and_eq_true] at h
      obtain ⟨tree, htrees, herase⟩ := erase_resolve scopes stmt h.1
      simp only [resolveAll, htrees, List.singleton_append, Tree.eraseAll, herase]
      rw [eraseAll_resolveAll _ rest h.2]

end

/-- No note among these is about the grammar. -/
def Grammatical (notes : List (Located Note)) : Prop :=
  ∀ note ∈ notes, note.value.category ≠ .syntactic

@[simp] theorem grammatical_append {front rest : List (Located Note)} :
    Grammatical (front ++ rest) ↔ Grammatical front ∧ Grammatical rest := by
  simp [Grammatical, or_imp, forall_and]

theorem grammatical_resolveDeclaration (scopes : Scopes Ty) (name : String) (type : Ty) (inferred : Bool)
    (value : Option (Expr Binding)) (loc : Location) :
    Grammatical (resolveDeclaration scopes name type inferred value loc).notes := by
  unfold resolveDeclaration
  split <;> simp [Grammatical, Note.category]

mutual

/-- A statement that has broken off is reported, and nothing else is reported as a fault of the grammar. -/
theorem grammatical_resolve_iff (scopes : Scopes Ty) :
    (stmt : Stmt) → (Grammatical (stmt.resolve scopes).notes ↔ stmt.whole = true)
  | .infer name value loc =>
      iff_of_true (grammatical_resolveDeclaration _ _ _ _ _ _) rfl
  | .declare name type value loc =>
      iff_of_true (grammatical_resolveDeclaration _ _ _ _ _ _) rfl
  | .assign name value loc => iff_of_true (by simp [Stmt.resolve, Grammatical]) rfl
  | .print value loc => iff_of_true (by simp [Stmt.resolve, Grammatical]) rfl
  | .ifThen cond body brace loc => grammatical_resolveAll_iff scopes.enter body
  | .ifElse cond body brace otherwise loc => by
      simp only [Stmt.resolve, Stmt.whole, grammatical_append, Bool.and_eq_true]
      rw [grammatical_resolveAll_iff scopes.enter body, grammatical_resolve_iff scopes otherwise]
  | .block body loc => grammatical_resolveAll_iff scopes.enter body
  | .broken blocks fault => by
      simp [Stmt.resolve, Stmt.whole, Grammatical, Located.map, Note.category]

theorem grammatical_resolveAll_iff (scopes : Scopes Ty) :
    (stmts : List Stmt) → (Grammatical (resolveAll scopes stmts).notes ↔ wholeAll stmts = true)
  | [] => iff_of_true (by simp [resolveAll, Grammatical]) rfl
  | stmt :: rest => by
      simp only [resolveAll, wholeAll, grammatical_append, Bool.and_eq_true]
      rw [grammatical_resolve_iff scopes stmt, grammatical_resolveAll_iff _ rest]

end

end Grammar

end Lai
