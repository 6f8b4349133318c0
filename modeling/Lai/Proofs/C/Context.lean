/-!
# Blocks and variables of C lines

A line opens and closes blocks by its braces, may declare a variable, and uses others. Lines are well
scoped if every use finds an earlier declaration in a block that is still open, no variable is declared
twice, and no declaration uses its own variable. Reading the lines one by one, with the variables of all
open blocks at hand, shows that they are.
-/

namespace Lai.C

/-! ### Braces -/

/-- How many blocks are open behind the text, `depth` of them being open in front of it; none if it closes
a block that was not open. -/
def nest (depth : Nat) : List Char → Option Nat
  | [] => some depth
  | c :: rest =>
    if c = '{' then nest (depth + 1) rest
    else if c = '}' then
      match depth with
      | 0 => none
      | outer + 1 => nest outer rest
    else nest depth rest

def isBrace (c : Char) : Bool :=
  c = '{' || c = '}'

theorem nest_append (depth : Nat) (front rest : List Char) :
    nest depth (front ++ rest) = (nest depth front).bind (nest · rest) := by
  induction front generalizing depth with
  | nil => rfl
  | cons c front ih =>
      simp only [List.cons_append, nest, ih]
      split
      · rfl
      split
      · cases depth <;> rfl
      · rfl

/-- Further blocks around the text stay open. -/
theorem nest_add {depth after : Nat} {text : List Char} (h : nest depth text = some after) (more : Nat) :
    nest (depth + more) text = some (after + more) := by
  induction text generalizing depth with
  | nil => rw [nest, Option.some.inj h]
  | cons c rest ih =>
      simp only [nest] at h ⊢
      split
      · next hopen =>
          rw [if_pos hopen] at h
          rw [Nat.add_right_comm]
          exact ih h
      · next hopen =>
          rw [if_neg hopen] at h
          split
          · next hclose =>
              rw [if_pos hclose] at h
              cases depth with
              | zero => simp at h
              | succ depth =>
                  rw [Nat.add_right_comm]
                  exact ih h
          · next hclose =>
              rw [if_neg hclose] at h
              exact ih h

/-- Only braces count. -/
theorem nest_filter (depth : Nat) (text : List Char) : nest depth (text.filter isBrace) = nest depth text := by
  induction text generalizing depth with
  | nil => rfl
  | cons c rest ih =>
      rw [List.filter_cons]
      by_cases hopen : c = '{'
      · simp [hopen, isBrace, nest, ih]
      by_cases hclose : c = '}'
      · cases depth <;> simp [hclose, isBrace, nest, ih]
      · simp [hopen, hclose, isBrace, nest, ih]

/-! ### Lines -/

/-- What a line says about blocks and variables: its braces, the variable that it declares, and the
variables that it reads or assigns. -/
structure Reading (α : Type) where
  braces : List Char := []
  declared : Option α := none
  used : List α := []
  deriving DecidableEq, Repr

def Reading.map {α β : Type} (f : α → β) (line : Reading α) : Reading β :=
  ⟨line.braces, line.declared.map f, line.used.map f⟩

variable {α β : Type}

/-- No line closes a block that was open in front of them. -/
def StaysOpen (lines : List (Reading α)) : Prop :=
  nest 0 (lines.flatMap Reading.braces) ≠ none

/-- Every variable that is used was declared on an earlier line, in a block that stays open up to the end
of the line of the use; no variable is declared twice; and no declaration uses its own variable. -/
structure WellScoped (lines : List (Reading α)) : Prop where
  visible : ∀ front line back, lines = front ++ line :: back → ∀ v ∈ line.used,
    ∃ early decl between, front = early ++ decl :: between ∧ decl.declared = some v ∧ StaysOpen (between ++ [line])
  declared_once : (lines.filterMap Reading.declared).Nodup
  fresh : ∀ line ∈ lines, ∀ v, line.declared = some v → v ∉ line.used

/-! ### Contexts -/

/-- The variables at a point: those of the innermost open block, those of the blocks around it, innermost
first, and all that have been declared. -/
structure Context (α : Type) where
  inner : List α := []
  outer : List (List α) := []
  seen : List α := []

namespace Context

/-- The variable has been declared in a block that is still open. -/
def Visible (c : Context α) (v : α) : Prop :=
  ∃ block ∈ c.inner :: c.outer, v ∈ block

/-- The variable has been declared in the open block that has the given number of open blocks in it. -/
def At (c : Context α) (depth : Nat) (v : α) : Prop :=
  ∃ block, (c.inner :: c.outer)[depth]? = some block ∧ v ∈ block

/-- The context in a further block with the given variables. -/
def inside (c : Context α) (block : List α) : Context α :=
  ⟨block, c.inner :: c.outer, c.seen⟩

theorem Visible.exists_at {c : Context α} {v : α} (h : c.Visible v) : ∃ depth, c.At depth v := by
  obtain ⟨block, hblock, hmem⟩ := h
  obtain ⟨depth, hdepth⟩ := List.mem_iff_getElem?.1 hblock
  exact ⟨depth, block, hdepth, hmem⟩

theorem at_zero {c : Context α} {v : α} : c.At 0 v ↔ v ∈ c.inner := by
  simp [At]

/-- A line leads from a context to the next. -/
inductive Step : Context α → Reading α → Context α → Prop where
  | declare {c : Context α} {v : α} {used : List α} (hnew : v ∉ c.seen) (hused : ∀ u ∈ used, c.Visible u) :
      Step c ⟨[], some v, used⟩ ⟨v :: c.inner, c.outer, v :: c.seen⟩
  | plain {c : Context α} {used : List α} (hused : ∀ u ∈ used, c.Visible u) : Step c ⟨[], none, used⟩ c
  | enter {c : Context α} {used : List α} (hused : ∀ u ∈ used, c.Visible u) :
      Step c ⟨['{'], none, used⟩ (c.inside [])
  | leave (c : Context α) (block : List α) : Step (c.inside block) ⟨['}'], none, []⟩ c
  | switch {c : Context α} (block : List α) {used : List α} (hused : ∀ u ∈ used, c.Visible u) :
      Step (c.inside block) ⟨['}', '{'], none, used⟩ (c.inside [])

inductive Run : Context α → List (Reading α) → Context α → Prop where
  | nil (c : Context α) : Run c [] c
  | cons {c middle after : Context α} {line : Reading α} {lines : List (Reading α)} (hstep : Step c line middle)
      (hrest : Run middle lines after) : Run c (line :: lines) after

theorem Run.append {c middle after : Context α} {front rest : List (Reading α)} (h : Run c front middle)
    (hrest : Run middle rest after) : Run c (front ++ rest) after := by
  induction h with
  | nil => exact hrest
  | cons hstep _ ih => exact .cons hstep (ih hrest)

theorem Run.single {c after : Context α} {line : Reading α} (h : Step c line after) : Run c [line] after :=
  .cons h (.nil after)

/-! ### What steps and runs keep up -/

/-- The braces of a line lead from the open blocks of one context to those of the other. -/
theorem Step.nest_braces {c after : Context α} {line : Reading α} (h : Step c line after) :
    nest c.outer.length line.braces = some after.outer.length := by
  cases h <;> simp [nest, inside]

theorem Run.nest_braces {c after : Context α} {lines : List (Reading α)} (h : Run c lines after) :
    nest c.outer.length (lines.flatMap Reading.braces) = some after.outer.length := by
  induction h with
  | nil => rfl
  | cons hstep _ ih => rw [List.flatMap_cons, nest_append, hstep.nest_braces, Option.bind_some, ih]

/-- The lines declare the variable, in a block with the given number of further blocks now open in it. -/
def Declares (lines : List (Reading α)) (depth : Nat) (v : α) : Prop :=
  ∃ early decl between, lines = early ++ decl :: between ∧ decl.declared = some v ∧
    nest 0 (between.flatMap Reading.braces) = some depth

theorem Declares.mem {lines : List (Reading α)} {depth : Nat} {v : α} (h : Declares lines depth v) :
    v ∈ lines.filterMap Reading.declared := by
  obtain ⟨early, decl, between, rfl, hdeclared, _⟩ := h
  simp [hdeclared]

theorem Declares.snoc {lines : List (Reading α)} {depth after : Nat} {v : α} (h : Declares lines depth v)
    {line : Reading α} (hnest : nest depth line.braces = some after) : Declares (lines ++ [line]) after v := by
  obtain ⟨early, decl, between, rfl, hdeclared, hbetween⟩ := h
  refine ⟨early, decl, between ++ [line], by simp, hdeclared, ?_⟩
  rw [List.flatMap_append, List.flatMap_singleton, nest_append, hbetween, Option.bind_some, hnest]

end Context

open Context

/-- A line may follow that uses what has been declared in open blocks and declares what has not been
declared. -/
theorem WellScoped.snoc {lines : List (Reading α)} (h : WellScoped lines) {line : Reading α}
    (hused : ∀ v ∈ line.used, ∃ depth, Declares lines depth v ∧ nest depth line.braces ≠ none)
    (hnew : ∀ v, line.declared = some v → v ∉ lines.filterMap Reading.declared) : WellScoped (lines ++ [line]) where
  visible := by
    intro front middle back heq v hv
    rcases List.eq_nil_or_concat back with rfl | ⟨rest, last, rfl⟩
    · obtain ⟨rfl, hlast⟩ := List.append_inj' heq rfl
      obtain rfl := (List.cons.inj hlast).1
      obtain ⟨depth, ⟨early, decl, between, rfl, hdeclared, hbetween⟩, hnest⟩ := hused v hv
      refine ⟨early, decl, between, rfl, hdeclared, ?_⟩
      rw [StaysOpen, List.flatMap_append, List.flatMap_singleton, nest_append, hbetween, Option.bind_some]
      exact hnest
    · rw [List.concat_eq_append, ← List.cons_append, ← List.append_assoc] at heq
      exact h.visible front middle rest (List.append_inj' heq rfl).1 v hv
  declared_once := by
    rw [List.filterMap_append, List.nodup_append]
    refine ⟨h.declared_once, ?_, ?_⟩
    · cases hdeclared : line.declared <;> simp [hdeclared]
    · intro u hu v hv
      obtain hdeclared : line.declared = some v := by simpa using hv
      rintro rfl
      exact hnew u hdeclared hu
  fresh := by
    intro other hother v hdeclared hv
    rcases List.mem_append.1 hother with hearlier | hlast
    · exact h.fresh other hearlier v hdeclared hv
    · obtain rfl := List.mem_singleton.1 hlast
      obtain ⟨depth, hdeclares, _⟩ := hused v hv
      exact hnew v hdeclared hdeclares.mem

namespace Context

/-- The context keeps up with the lines in front: it has seen what they declare, and the variables of each
open block are declared at its depth. -/
structure Tracks (lines : List (Reading α)) (c : Context α) : Prop where
  wellScoped : WellScoped lines
  seen : ∀ v, v ∈ c.seen ↔ v ∈ lines.filterMap Reading.declared
  declares : ∀ depth v, c.At depth v → Declares lines depth v

namespace Tracks

variable {lines : List (Reading α)} {c after : Context α}

theorem empty : Tracks ([] : List (Reading α)) {} where
  wellScoped := ⟨by simp, by simp, by simp⟩
  seen := by simp
  declares := by
    rintro depth v ⟨block, hblock, hv⟩
    cases depth with
    | zero =>
        obtain rfl := Option.some.inj hblock
        simp at hv
    | succ depth => simp at hblock

/-- The context behind a further line keeps up too, if every variable in it was there before, at a depth
that the braces of the line lead from, or is the one that the line declares. -/
theorem snoc (h : Tracks lines c) {line : Reading α}
    (hused : ∀ v ∈ line.used, ∃ depth, c.At depth v ∧ nest depth line.braces ≠ none)
    (hnew : ∀ v, line.declared = some v → v ∉ c.seen) (hseen : after.seen = line.declared.toList ++ c.seen)
    (hat : ∀ depth v, after.At depth v →
      (line.declared = some v ∧ depth = 0) ∨ ∃ before, c.At before v ∧ nest before line.braces = some depth) :
    Tracks (lines ++ [line]) after where
  wellScoped := by
    refine h.wellScoped.snoc (fun v hv => ?_) fun v hdeclared hmem => hnew v hdeclared ((h.seen v).2 hmem)
    obtain ⟨depth, hdepth, hnest⟩ := hused v hv
    exact ⟨depth, h.declares depth v hdepth, hnest⟩
  seen := by
    intro v
    rw [hseen, List.mem_append, h.seen, List.filterMap_append, List.mem_append, or_comm]
    cases hdeclared : line.declared <;> simp [hdeclared]
  declares := by
    -- The line stands at the end, so its braces move every earlier declaration from one depth to another.
    intro depth v hv
    rcases hat depth v hv with ⟨hdeclared, rfl⟩ | ⟨before, hbefore, hnest⟩
    · exact ⟨lines, line, [], rfl, hdeclared, rfl⟩
    · exact (h.declares before v hbefore).snoc hnest

theorem step (h : Tracks lines c) {line : Reading α} (hstep : Step c line after) : Tracks (lines ++ [line]) after := by
  cases hstep with
  | @declare c v used hnew hused =>
      refine h.snoc (fun u hu => ?_) (fun u hu => Option.some.inj hu ▸ hnew) rfl fun depth u hu => ?_
      · obtain ⟨depth, hdepth⟩ := (hused u hu).exists_at
        exact ⟨depth, hdepth, Option.some_ne_none depth⟩
      · cases depth with
        | zero =>
            rcases List.mem_cons.1 (at_zero.1 hu) with rfl | hold
            · exact .inl ⟨rfl, rfl⟩
            · exact .inr ⟨0, at_zero.2 hold, rfl⟩
        | succ depth => exact .inr ⟨depth + 1, hu, rfl⟩
  | plain hused =>
      refine h.snoc (fun u hu => ?_) (by simp) rfl fun depth u hu => .inr ⟨depth, hu, rfl⟩
      obtain ⟨depth, hdepth⟩ := (hused u hu).exists_at
      exact ⟨depth, hdepth, Option.some_ne_none depth⟩
  | enter hused =>
      refine h.snoc (fun u hu => ?_) (by simp) rfl fun depth u hu => ?_
      · obtain ⟨depth, hdepth⟩ := (hused u hu).exists_at
        exact ⟨depth, hdepth, Option.some_ne_none (depth + 1)⟩
      · cases depth with
        | zero => exact absurd (at_zero.1 hu) List.not_mem_nil
        | succ depth => exact .inr ⟨depth, hu, rfl⟩
  | leave _ block => exact h.snoc (by simp) (by simp) rfl fun depth u hu => .inr ⟨depth + 1, hu, rfl⟩
  | switch block hused =>
      -- What is used is one block further out than the block that the line closes.
      refine h.snoc (fun u hu => ?_) (by simp) rfl fun depth u hu => ?_
      · obtain ⟨depth, hdepth⟩ := (hused u hu).exists_at
        exact ⟨depth + 1, hdepth, Option.some_ne_none (depth + 1)⟩
      · cases depth with
        | zero => exact absurd (at_zero.1 hu) List.not_mem_nil
        | succ depth => exact .inr ⟨depth + 1, hu, rfl⟩

theorem run (h : Tracks lines c) {rest : List (Reading α)} (hrun : Run c rest after) : Tracks (lines ++ rest) after := by
  induction hrun generalizing lines with
  | nil => rwa [List.append_nil]
  | cons hstep _ ih =>
      have htracks := ih (h.step hstep)
      rwa [List.append_assoc, List.singleton_append] at htracks

end Tracks

end Context

/-! ### Other names -/

theorem flatMap_braces_map (f : α → β) (lines : List (Reading α)) :
    (lines.map (Reading.map f)).flatMap Reading.braces = lines.flatMap Reading.braces := by
  rw [List.flatMap_map]
  rfl

theorem filterMap_declared_map (f : α → β) (lines : List (Reading α)) :
    (lines.map (Reading.map f)).filterMap Reading.declared = (lines.filterMap Reading.declared).map f := by
  rw [List.filterMap_map, List.map_filterMap]
  rfl

namespace WellScoped

variable {lines : List (Reading α)}

theorem mem_of_used (h : WellScoped lines) {line : Reading α} (hline : line ∈ lines) {v : α} (hv : v ∈ line.used) :
    v ∈ lines.filterMap Reading.declared := by
  obtain ⟨front, back, rfl⟩ := List.append_of_mem hline
  obtain ⟨early, decl, between, rfl, hdeclared, _⟩ := h.visible front line back rfl v hv
  exact List.mem_filterMap.2 ⟨decl, by simp, hdeclared⟩

/-- Lines stay well scoped if their variables are known in another way that keeps them apart. -/
theorem map (h : WellScoped lines) {f : α → β}
    (hf : ∀ u ∈ lines.filterMap Reading.declared, ∀ v ∈ lines.filterMap Reading.declared, f u = f v → u = v) :
    WellScoped (lines.map (Reading.map f)) where
  visible := by
    intro front line back heq v hv
    obtain ⟨front, rest, rfl, rfl, hrest⟩ := List.map_eq_append_iff.1 heq
    obtain ⟨line, back, rfl, rfl, rfl⟩ := List.map_eq_cons_iff.1 hrest
    obtain ⟨u, hu, rfl⟩ := List.mem_map.1 hv
    obtain ⟨early, decl, between, rfl, hdeclared, hopen⟩ := h.visible front line back rfl u hu
    refine ⟨early.map (Reading.map f), decl.map f, between.map (Reading.map f), by simp, by simp [Reading.map, hdeclared], ?_⟩
    have hlines : between.map (Reading.map f) ++ [line.map f] = (between ++ [line]).map (Reading.map f) := by simp
    rw [StaysOpen, hlines, flatMap_braces_map]
    exact hopen
  declared_once := by
    rw [filterMap_declared_map]
    exact List.pairwise_map.2 (h.declared_once.imp_of_mem fun hu hv hne heq => hne (hf _ hu _ hv heq))
  fresh := by
    intro line hline v hdeclared hv
    obtain ⟨line, hmem, rfl⟩ := List.mem_map.1 hline
    obtain ⟨declared, hline, rfl⟩ := Option.map_eq_some_iff.1 hdeclared
    obtain ⟨used, hused, heq⟩ := List.mem_map.1 hv
    obtain rfl := hf used (h.mem_of_used hmem hused) declared (List.mem_filterMap.2 ⟨line, hmem, hline⟩) heq
    exact h.fresh line hmem used hline hused

end WellScoped

end Lai.C
