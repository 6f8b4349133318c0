import Lai.Proofs.Grammar.Places
import Lai.Proofs.Typing.Checking
/-!
# Places of what is reported about a tree

Resolving scopes and checking types report at places that the statements already have. So everything
that is reported when tokens are assembled is reported at one of them.
-/

namespace Lai

variable {P : Location → Prop} {β : Type}

theorem placed_singleton_ite {α : Type} {c : Prop} [Decidable c] {x : Located α} (h : P x.loc) :
    ∀ y ∈ if c then [x] else [], P y.loc := by
  split
  · simpa using h
  · simp

namespace Expr

theorem Placed.loc {e : Expr β} (h : e.Placed P) : P e.loc := by
  cases e with
  | int | string | var => exact h
  | math => exact h.2.2

theorem Placed.annotate {γ : Type} {e : Expr β} (h : e.Placed P) (note : String → γ) : (e.annotate note).Placed P := by
  induction e with
  | int | string | var => exact h
  | math op left right loc ihleft ihright => exact ⟨ihleft h.1, ihright h.2.1, h.2.2⟩

theorem Placed.faults {e : Expr Binding} (h : e.Placed P) : ∀ fault ∈ e.faults, P fault.loc := by
  induction e with
  | int | string => simp [Expr.faults, check]
  | var name binding loc =>
      rw [Expr.faults, check]
      split
      · simp
      · simpa [Placed] using h
  | math op left right loc ihleft ihright =>
      obtain ⟨hleft, hright, hloc⟩ := h
      have hboth : ∀ fault ∈ left.check.2 ++ right.check.2, P fault.loc :=
        List.forall_mem_append.2 ⟨ihleft hleft, ihright hright⟩
      simp only [Expr.faults, check]
      split
      · split
        · exact hboth
        · exact List.forall_mem_append.2 ⟨hboth, by simpa using hloc⟩
      · exact hboth

end Expr

namespace Condition

theorem Placed.annotate {γ : Type} {c : Condition β} (h : c.Placed P) (note : String → γ) : (c.annotate note).Placed P :=
  ⟨h.left.annotate note, h.right.annotate note, h.loc⟩

theorem Placed.faults {c : Condition Binding} (h : c.Placed P) : ∀ fault ∈ c.faults, P fault.loc := by
  refine List.forall_mem_append.2 ⟨List.forall_mem_append.2 ⟨h.left.faults, h.right.faults⟩, ?_⟩
  exact placed_singleton_ite h.loc

end Condition

namespace Grammar

/-- Everything noted, and every fault in the types of the trees, is at one of these places. -/
structure Resolved.Placed (P : Location → Prop) (r : Resolved) : Prop where
  notes : ∀ note ∈ r.notes, P note.loc
  faults : ∀ fault ∈ Tree.faultsAll r.trees, P fault.loc

theorem faultsAll_singleton (stmt : Tree.Stmt) : Tree.faultsAll [stmt] = stmt.faults := by
  rw [Tree.faultsAll, Tree.faultsAll, List.append_nil]

theorem placed_resolveDeclaration (scopes : Scopes Ty) (name : String) (type : Ty) (inferred : Bool)
    {value : Option (Expr Binding)} (hvalue : ∀ e ∈ value, e.Placed P) {loc : Location} (hloc : P loc) :
    (resolveDeclaration scopes name type inferred value loc).Placed P := by
  have hfaults : ∀ fault ∈ Tree.faultsAll [.declare name type inferred value loc], P fault.loc := by
    rw [faultsAll_singleton]
    cases value with
    | none => simp [Tree.Stmt.faults]
    | some e =>
        have he := hvalue e rfl
        exact List.forall_mem_append.2 ⟨he.faults, placed_singleton_ite he.loc⟩
  rw [resolveDeclaration]
  split
  · exact ⟨by simpa using hloc, hfaults⟩
  · exact ⟨by simp, hfaults⟩

theorem placed_resolve_assign (scopes : Scopes Ty) (name : String) {value : Expr Unit} (hvalue : value.Placed P)
    {loc : Location} (hloc : P loc) : ((Stmt.assign name value loc).resolve scopes).Placed P := by
  have hannotated := hvalue.annotate (binding scopes)
  refine ⟨by simp [Stmt.resolve], ?_⟩
  rw [Stmt.resolve, faultsAll_singleton]
  refine List.forall_mem_append.2 ⟨List.forall_mem_append.2 ⟨?_, hannotated.faults⟩, placed_singleton_ite hannotated.loc⟩
  split
  · simp
  · simpa using hloc

theorem placed_resolve_ifElse {scopes : Scopes Ty} {cond : Condition Unit} {body : List Stmt} {brace loc : Location}
    {otherwise : Stmt} (hcond : cond.Placed P) (hbody : (resolveAll scopes.enter body).Placed P)
    (hlast : (otherwise.resolve scopes).Placed P) :
    ((Stmt.ifElse cond body brace otherwise loc).resolve scopes).Placed P := by
  have htest := (hcond.annotate (binding scopes)).faults
  rw [Stmt.resolve]
  refine ⟨List.forall_mem_append.2 ⟨hbody.notes, hlast.notes⟩, ?_⟩
  have hfaults := hlast.faults
  dsimp only
  split
  · rename_i stmt rest htrees
    rw [htrees, Tree.faultsAll, List.forall_mem_append] at hfaults
    rw [faultsAll_singleton]
    exact List.forall_mem_append.2 ⟨List.forall_mem_append.2 ⟨htest, hbody.faults⟩, hfaults.1⟩
  · rw [faultsAll_singleton]
    exact List.forall_mem_append.2 ⟨htest, hbody.faults⟩

mutual

theorem Stmt.Placed.resolve {stmt : Stmt} (h : stmt.Placed P) (scopes : Scopes Ty) : (stmt.resolve scopes).Placed P := by
  cases stmt with
  | infer name value loc =>
      exact placed_resolveDeclaration scopes name _ _ (by simpa using h.1.annotate (binding scopes)) h.2
  | declare name type value loc =>
      refine placed_resolveDeclaration scopes name _ _ ?_ h.2
      intro e he
      obtain ⟨value, hvalue, rfl⟩ := Option.map_eq_some_iff.1 he
      exact (h.1 value hvalue).annotate (binding scopes)
  | assign name value loc => exact placed_resolve_assign scopes name h.1 h.2
  | print value loc =>
      refine ⟨by simp [Stmt.resolve], ?_⟩
      rw [Stmt.resolve, faultsAll_singleton]
      exact (h.1.annotate (binding scopes)).faults
  | ifThen cond body brace loc =>
      have hbody := PlacedAll.resolve h.2.1 scopes.enter
      refine ⟨hbody.notes, ?_⟩
      rw [Stmt.resolve, faultsAll_singleton]
      exact List.forall_mem_append.2 ⟨(h.1.annotate (binding scopes)).faults, hbody.faults⟩
  | ifElse cond body brace otherwise loc =>
      exact placed_resolve_ifElse h.1 (PlacedAll.resolve h.2.1 scopes.enter) (Stmt.Placed.resolve h.2.2.2.1 scopes)
  | block body loc =>
      have hbody := PlacedAll.resolve h.1 scopes.enter
      refine ⟨hbody.notes, ?_⟩
      rw [Stmt.resolve, faultsAll_singleton]
      exact hbody.faults
  | broken blocks fault =>
      refine ⟨List.forall_mem_append.2 ⟨(PlacedAll.resolve h.1 scopes).notes, ?_⟩, by simp [Stmt.resolve, Tree.faultsAll]⟩
      simpa [Located.map] using h.2

theorem PlacedAll.resolve {stmts : List Stmt} (h : PlacedAll P stmts) (scopes : Scopes Ty) :
    (resolveAll scopes stmts).Placed P := by
  cases stmts with
  | nil => exact ⟨by simp [resolveAll], by simp [resolveAll, Tree.faultsAll]⟩
  | cons stmt rest =>
      have hfirst := Stmt.Placed.resolve h.1 scopes
      have hlater := PlacedAll.resolve h.2 (stmt.resolve scopes).scopes
      refine ⟨List.forall_mem_append.2 ⟨hfirst.notes, hlater.notes⟩, ?_⟩
      rw [resolveAll, faultsAll_append]
      exact List.forall_mem_append.2 ⟨hfirst.faults, hlater.faults⟩

end

end Grammar

namespace Assembly

/-- Whatever is reported when tokens are assembled is reported about their file, at one of the tokens. -/
theorem place_of_mem_diagnostics {name : String} {tokens : List Token} {d : Diagnostic}
    (h : d ∈ (ofTokens name tokens).diagnostics) : d.file = name ∧ ∃ t ∈ tokens, d.loc = t.loc := by
  have hread : Grammar.PlacedAll (fun loc => ∃ t ∈ tokens, loc = t.loc) (Grammar.read tokens) :=
    Grammar.placedAll_read fun t ht => ⟨t, ht, rfl⟩
  have hplaced := hread.resolve {}
  rw [ofTokens, Diagnostic.sort, List.mem_mergeSort, List.mem_append] at h
  rcases h with h | h
  · obtain ⟨note, hnote, rfl⟩ := List.mem_map.1 h
    exact ⟨rfl, hplaced.notes note hnote⟩
  · obtain ⟨fault, hfault, rfl⟩ := List.mem_map.1 h
    exact ⟨rfl, hplaced.faults fault hfault⟩

end Assembly

end Lai
