import Lai.Proofs.C.Name
import Lai.Proofs.C.Translation
/-!
# Every declaration makes a new variable

The names in scope stand for variables that carry these names and are among the declarations counted
so far. The next declaration makes a variable beyond the count, so it is written differently from all
variables in scope, those that it hides included.
-/

namespace Lai.C

namespace Names

variable {names inner : Names} {name : String}

/-- Every name in scope stands for a variable of this name that has been counted. -/
def Sound (names : Names) : Prop :=
  ∀ entry ∈ names.scopes.entries,
    entry.2.var.name = entry.1 ∧ 1 ≤ entry.2.var.ordinal ∧ entry.2.var.ordinal ≤ names.count entry.1

/-- No count is lower than before. -/
def CountsLe (names later : Names) : Prop :=
  ∀ name, names.count name ≤ later.count name

theorem CountsLe.refl (names : Names) : names.CountsLe names :=
  fun _ => Nat.le_refl _

theorem CountsLe.trans {first second third : Names} (h : first.CountsLe second) (h' : second.CountsLe third) :
    first.CountsLe third :=
  fun name => Nat.le_trans (h name) (h' name)

theorem count_bind_self (names : Names) (name : String) (type : CType) :
    (names.bind name type).count name = names.count name + 1 := by
  simp [count, bind]

theorem countsLe_bind (names : Names) (name : String) (type : CType) : names.CountsLe (names.bind name type) := by
  intro other
  by_cases hne : other = name
  · subst hne
    rw [count_bind_self]
    exact Nat.le_succ _
  · simp [count, bind, List.lookup_cons, beq_false_of_ne hne]

namespace Sound

theorem empty : Sound {} := by
  intro entry hmem
  simp [Scopes.entries] at hmem

theorem bind (h : names.Sound) (name : String) (type : CType) : (names.bind name type).Sound := by
  intro entry hmem
  rw [Names.bind, Scopes.entries_bind, List.mem_cons] at hmem
  rcases hmem with rfl | hmem
  · exact ⟨rfl, Nat.le_add_left 1 _, Nat.le_of_eq (count_bind_self names name type).symm⟩
  · obtain ⟨hname, hlow, hhigh⟩ := h entry hmem
    exact ⟨hname, hlow, Nat.le_trans hhigh (countsLe_bind names name type entry.1)⟩

theorem enter (h : names.Sound) : names.enter.Sound := h

theorem resume (h : names.Sound) (hcounts : names.CountsLe inner) : (names.resume inner).Sound := by
  intro entry hmem
  obtain ⟨hname, hlow, hhigh⟩ := h entry hmem
  exact ⟨hname, hlow, Nat.le_trans hhigh (hcounts entry.1)⟩

/-- Two names in scope with variables that are written the same are one name. -/
theorem name_eq_of_text_eq (h : names.Sound) {left right : String × Local} (hleft : left ∈ names.scopes.entries)
    (hright : right ∈ names.scopes.entries) (htext : left.2.var.text = right.2.var.text) : left.1 = right.1 := by
  obtain ⟨hlname, hlow, _⟩ := h left hleft
  obtain ⟨hrname, hrow, _⟩ := h right hright
  rw [← hlname, ← hrname, Var.text_inj hlow hrow htext]

/-- The next variable is written differently from those in scope. -/
theorem text_ne_next (h : names.Sound) {entry : String × Local} (hmem : entry ∈ names.scopes.entries) (name : String)
    (type : CType) : entry.2.var.text ≠ (names.next name type).var.text := by
  intro htext
  obtain ⟨hname, hlow, hhigh⟩ := h entry hmem
  have hvar := Var.text_inj hlow (Nat.le_add_left 1 _) htext
  rw [hvar] at hname hhigh
  have hsame : name = entry.1 := hname
  rw [← hsame] at hhigh
  exact Nat.not_succ_le_self _ hhigh

end Sound

end Names

/-- What translating changes: the innermost block, and counts that only grow. -/
structure Names.Extends (names later : Names) : Prop where
  outer_eq : later.scopes.outer = names.scopes.outer
  countsLe : names.CountsLe later
  sound : names.Sound → later.Sound

namespace Names.Extends

variable {names middle later inner : Names}

theorem refl (names : Names) : names.Extends names :=
  ⟨rfl, .refl names, id⟩

theorem trans (h : names.Extends middle) (h' : middle.Extends later) : names.Extends later :=
  ⟨h'.outer_eq.trans h.outer_eq, h.countsLe.trans h'.countsLe, h'.sound ∘ h.sound⟩

theorem bind (names : Names) (name : String) (type : CType) : names.Extends (names.bind name type) :=
  ⟨rfl, countsLe_bind names name type, fun h => h.bind name type⟩

theorem resume (h : names.enter.Extends inner) : names.Extends (names.resume inner) :=
  ⟨rfl, h.countsLe, fun hsound => hsound.resume h.countsLe⟩

/-- Leaving a block restores the names around it. -/
theorem leave_eq (h : names.enter.Extends inner) : inner.scopes.leave = names.scopes :=
  Scopes.leave_eq_of_outer_eq h.outer_eq

end Names.Extends

mutual

theorem Translates.extends {names after : Names} {tree : Tree.Stmt} {stmt : Stmt} :
    Translates names tree stmt after → names.Extends after
  | .declare name _ _ _ => .bind names name _
  | .assign .. => .refl names
  | .print .. => .refl names
  | .branch h => h.extends
  | .block _ hbody => .resume hbody.extends

theorem TranslatesChain.extends {names after : Names} {tree : Tree.Stmt} {chain : Chain} :
    TranslatesChain names tree chain after → names.Extends after
  | .ifThen _ _ _ hbody => .resume hbody.extends
  | .ifElse _ _ _ _ hbody hlast => (Names.Extends.resume hbody.extends).trans (.resume hlast.extends)
  | .elseIf _ _ _ hbody hlast => (Names.Extends.resume hbody.extends).trans hlast.extends

/-- Translating statements changes the innermost block only. -/
theorem TranslatesAll.extends {names after : Names} {trees : List Tree.Stmt} {stmts : List Stmt} :
    TranslatesAll names trees stmts after → names.Extends after
  | .nil _ => .refl names
  | .cons hfirst hrest => hfirst.extends.trans hrest.extends

end

end Lai.C
