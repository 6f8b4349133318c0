import Lai.Scopes
/-!
# Changing scopes

All scopes come about by declaring names and entering blocks. A running program also gives declared
names new meanings and leaves blocks. Entries may be exchanged for others without losing track of what
is found where, as long as no other name is exchanged for the same one.
-/

namespace Lai.Scopes

variable {α β : Type}

/-- The scopes are made by declarations and by entering blocks. -/
theorem bind_enter_induction {motive : Scopes α → Prop} (hempty : motive {})
    (hbind : ∀ scopes name meaning, motive scopes → motive (scopes.bind name meaning))
    (henter : ∀ scopes : Scopes α, motive scopes → motive scopes.enter) (scopes : Scopes α) : motive scopes := by
  obtain ⟨inner, outer⟩ := scopes
  induction outer generalizing inner with
  | nil =>
      induction inner with
      | nil => exact hempty
      | cons entry inner ih => exact hbind ⟨inner, []⟩ entry.1 entry.2 ih
  | cons block outer ih =>
      induction inner with
      | nil => exact henter ⟨block, outer⟩ (ih block)
      | cons entry inner ihinner => exact hbind ⟨inner, block :: outer⟩ entry.1 entry.2 ihinner

/-- The innermost block has no declaration of the name. -/
def Fresh (scopes : Scopes α) (name : String) : Prop :=
  ∀ meaning, (name, meaning) ∉ scopes.inner

theorem fresh_iff_declares {scopes : Scopes α} {name : String} : scopes.Fresh name ↔ scopes.declares name = false := by
  rw [declares, Option.isSome_eq_false_iff, Option.isNone_iff_eq_none, List.lookup_eq_none_iff]
  constructor
  · rintro h ⟨other, meaning⟩ hmem
    rw [bne_iff_ne]
    rintro rfl
    exact h meaning hmem
  · intro h meaning hmem
    exact absurd (h _ hmem) (by simp)

theorem leave_eq_of_outer_eq {scopes inside : Scopes α} (h : inside.outer = scopes.enter.outer) :
    inside.leave = scopes := by
  rw [leave, h]
  rfl

/-- The entries of all blocks, innermost first. -/
def entries (scopes : Scopes α) : List (String × α) :=
  scopes.inner ++ scopes.outer.flatten

@[simp] theorem entries_bind (scopes : Scopes α) (name : String) (meaning : α) :
    (scopes.bind name meaning).entries = (name, meaning) :: scopes.entries := rfl

theorem mem_entries_of_find? {scopes : Scopes α} {name : String} {meaning : α} (h : scopes.find? name = some meaning) :
    (name, meaning) ∈ scopes.entries := by
  induction scopes using bind_enter_induction with
  | hempty => simp [find?] at h
  | hbind scopes other hidden ih =>
      by_cases hne : name = other
      · subst hne
        rw [find?_bind_self, Option.some.injEq] at h
        rw [entries_bind, h]
        exact List.mem_cons_self
      · rw [find?_bind_of_ne _ _ hne] at h
        exact List.mem_cons_of_mem _ (ih h)
  | henter scopes ih =>
      rw [find?_enter] at h
      exact ih h

/-! ### New meanings -/

/-- A block in which the latest declaration of the name has a new meaning. -/
def updateBlock (name : String) (meaning : α) : List (String × α) → List (String × α)
  | [] => []
  | entry :: rest => if name = entry.1 then (name, meaning) :: rest else entry :: updateBlock name meaning rest

/-- Blocks, innermost first, in which the declaration that the name refers to has a new meaning. -/
def updateBlocks (name : String) (meaning : α) : List (List (String × α)) → List (List (String × α))
  | [] => []
  | block :: rest =>
    if (block.lookup name).isSome then updateBlock name meaning block :: rest
    else block :: updateBlocks name meaning rest

/-- The scopes in which the declaration that the name refers to has a new meaning. -/
def update (scopes : Scopes α) (name : String) (meaning : α) : Scopes α :=
  if scopes.declares name then { scopes with inner := updateBlock name meaning scopes.inner }
  else { scopes with outer := updateBlocks name meaning scopes.outer }

@[simp] theorem update_bind_self (scopes : Scopes α) (name : String) (old new : α) :
    (scopes.bind name old).update name new = scopes.bind name new := by
  simp [update, bind, declares, updateBlock]

theorem update_bind_of_ne (scopes : Scopes α) {name other : String} (old new : α) (hne : name ≠ other) :
    (scopes.bind other old).update name new = (scopes.update name new).bind other old := by
  have hdeclares : (scopes.bind other old).declares name = scopes.declares name := by
    simp [declares, bind, List.lookup_cons, beq_false_of_ne hne]
  simp only [update, hdeclares]
  split
  · simp [bind, updateBlock, hne]
  · rfl

@[simp] theorem update_enter (scopes : Scopes α) (name : String) (new : α) :
    scopes.enter.update name new = (scopes.update name new).enter := by
  cases hdeclares : (scopes.inner.lookup name).isSome with
  | true => simp [update, enter, declares, updateBlocks, hdeclares]
  | false => simp [update, enter, declares, updateBlocks, hdeclares]

/-- Giving a name the meaning that it has changes nothing. -/
theorem update_eq_self {scopes : Scopes α} {name : String} {meaning : α} (h : scopes.find? name = some meaning) :
    scopes.update name meaning = scopes := by
  induction scopes using bind_enter_induction with
  | hempty => simp [find?] at h
  | hbind scopes other hidden ih =>
      by_cases hne : name = other
      · subst hne
        rw [find?_bind_self, Option.some.injEq] at h
        rw [update_bind_self, h]
      · rw [find?_bind_of_ne _ _ hne] at h
        rw [update_bind_of_ne _ _ _ hne, ih h]
  | henter scopes ih =>
      rw [find?_enter] at h
      rw [update_enter, ih h]

/-! ### Other entries -/

/-- Every entry exchanged for another. -/
def mapEntries (f : String × α → String × β) (scopes : Scopes α) : Scopes β :=
  ⟨scopes.inner.map f, scopes.outer.map fun block => block.map f⟩

section

variable (f : String × α → String × β)

@[simp] theorem mapEntries_enter (scopes : Scopes α) : scopes.enter.mapEntries f = (scopes.mapEntries f).enter := rfl

@[simp] theorem mapEntries_leave (scopes : Scopes α) : scopes.leave.mapEntries f = (scopes.mapEntries f).leave := by
  obtain ⟨inner, outer⟩ := scopes
  cases outer with
  | nil => rfl
  | cons block outer => rfl

theorem mapEntries_bind (scopes : Scopes α) (name : String) (meaning : α) :
    (scopes.bind name meaning).mapEntries f =
      (scopes.mapEntries f).bind (f (name, meaning)).1 (f (name, meaning)).2 := rfl

theorem entries_mapEntries (scopes : Scopes α) : (scopes.mapEntries f).entries = scopes.entries.map f := by
  simp [entries, mapEntries, List.map_flatten]

/-- No entry of another name is exchanged for one with the same name as this. -/
def Separates (scopes : Scopes α) (name : String) (meaning : α) : Prop :=
  ∀ entry ∈ scopes.entries, (f entry).1 = (f (name, meaning)).1 → entry.1 = name

variable {f} {scopes : Scopes α} {name : String} {meaning : α}

theorem find?_mapEntries (hf : Separates f scopes name meaning) (h : scopes.find? name = some meaning) :
    (scopes.mapEntries f).find? (f (name, meaning)).1 = some (f (name, meaning)).2 := by
  induction scopes using bind_enter_induction with
  | hempty => simp [find?] at h
  | hbind scopes other hidden ih =>
      rw [Separates, entries_bind, List.forall_mem_cons] at hf
      rw [mapEntries_bind]
      by_cases hne : name = other
      · subst hne
        rw [find?_bind_self, Option.some.injEq] at h
        rw [h, find?_bind_self]
      · rw [find?_bind_of_ne _ _ hne] at h
        rw [find?_bind_of_ne _ _ fun heq => hne (hf.1 heq.symm).symm]
        exact ih hf.2 h
  | henter scopes ih =>
      rw [find?_enter] at h
      rw [mapEntries_enter, find?_enter]
      exact ih hf h

theorem mapEntries_update {new : α} (hf : Separates f scopes name meaning) (h : scopes.find? name = some meaning)
    (hnew : (f (name, new)).1 = (f (name, meaning)).1) :
    (scopes.update name new).mapEntries f = (scopes.mapEntries f).update (f (name, meaning)).1 (f (name, new)).2 := by
  induction scopes using bind_enter_induction with
  | hempty => simp [find?] at h
  | hbind scopes other hidden ih =>
      rw [Separates, entries_bind, List.forall_mem_cons] at hf
      rw [mapEntries_bind]
      by_cases hne : name = other
      · subst hne
        rw [find?_bind_self, Option.some.injEq] at h
        rw [h, update_bind_self, update_bind_self, mapEntries_bind, hnew]
      · rw [find?_bind_of_ne _ _ hne] at h
        rw [update_bind_of_ne _ _ _ hne, update_bind_of_ne _ _ _ fun heq => hne (hf.1 heq.symm).symm, mapEntries_bind,
          ih hf.2 h]
  | henter scopes ih =>
      rw [find?_enter] at h
      rw [update_enter, mapEntries_enter, ih hf h, mapEntries_enter, update_enter]

end

/-- Every meaning exchanged for another. -/
def map (f : α → β) (scopes : Scopes α) : Scopes β :=
  scopes.mapEntries fun entry => (entry.1, f entry.2)

section

variable (f : α → β) (scopes : Scopes α) (name : String)

@[simp] theorem map_enter : scopes.enter.map f = (scopes.map f).enter := rfl

@[simp] theorem map_leave : scopes.leave.map f = (scopes.map f).leave := mapEntries_leave _ scopes

@[simp] theorem map_bind (meaning : α) : (scopes.bind name meaning).map f = (scopes.map f).bind name (f meaning) := rfl

theorem find?_map : (scopes.map f).find? name = (scopes.find? name).map f := by
  induction scopes using bind_enter_induction with
  | hempty => rfl
  | hbind scopes other hidden ih =>
      rw [map_bind]
      by_cases hne : name = other
      · rw [hne, find?_bind_self, find?_bind_self, Option.map_some]
      · rw [find?_bind_of_ne _ _ hne, find?_bind_of_ne _ _ hne, ih]
  | henter scopes ih => rw [map_enter, find?_enter, find?_enter, ih]

theorem map_update (meaning : α) : (scopes.update name meaning).map f = (scopes.map f).update name (f meaning) := by
  induction scopes using bind_enter_induction with
  | hempty => rfl
  | hbind scopes other hidden ih =>
      rw [map_bind]
      by_cases hne : name = other
      · rw [hne, update_bind_self, update_bind_self, map_bind]
      · rw [update_bind_of_ne _ _ _ hne, update_bind_of_ne _ _ _ hne, map_bind, ih]
  | henter scopes ih => rw [update_enter, map_enter, ih, map_enter, update_enter]

end

end Lai.Scopes
