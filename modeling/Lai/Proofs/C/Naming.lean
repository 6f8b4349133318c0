import Lai.Proofs.C.Frame
import Lai.Proofs.C.Spelling
/-!
# How declarations name their variables

The declarations of one writer make variables that are written differently, whatever blocks are entered
and left between them: blocks take names out of scope, but no declaration is ever forgotten in the counts.
-/

namespace Lai.C

/-! ### Mangled names as variables -/

theorem Var.text_first (name : String) : Var.text ⟨name, 1⟩ = mangle name :=
  rfl

theorem Var.text_later (name : String) {n : Nat} (hn : 2 ≤ n) : Var.text ⟨name, n⟩ = mangle name ++ "_" ++ Nat.repr n :=
  if_neg (Nat.not_le_of_lt hn)

/-- A text of letters, digits and underscores that begins with the mark of variables. -/
def IsVariableName (text : String) : Prop :=
  "lai_v_".toList <+: text.toList ∧ ∀ c ∈ text.toList, isWordChar c = true

theorem Var.isVariableName_text (v : Var) : IsVariableName v.text := by
  refine ⟨?_, fun c => v.isWordChar_of_mem_text⟩
  rw [toList_text]
  exact List.prefix_append _ _

/-! ### Declarations and blocks -/

/-- What can happen between two declarations, and a declaration itself. -/
inductive Move where
  | declare (name : String)
  | enter
  | leave
  deriving DecidableEq, Repr

/-- The name that the move declares. -/
def Move.name? : Move → Option String
  | .declare name => some name
  | _ => none

namespace Writer

/-- The writer behind a move. -/
def after (w : Writer) : Move → Writer
  | .declare name => w.bind name
  | .enter => w.entered
  | .leave => w.left

/-- The variables that the declarations among the moves make. -/
def declaredBy (w : Writer) : List Move → List Var
  | [] => []
  | move :: rest => (move.name?.map w.nextVar).toList ++ (w.after move).declaredBy rest

theorem count_after (w : Writer) (move : Move) (name : String) :
    (w.after move).count name = w.count name + if move = .declare name then 1 else 0 := by
  cases move with
  | declare other =>
      by_cases hne : name = other
      · subst hne
        simp [after, count_bind_self]
      · simp [after, count_bind_of_ne w hne, Ne.symm hne]
  | enter => rfl
  | leave => rfl

/-- The declarations of a name are numbered on from those counted so far. -/
theorem filter_declaredBy (w : Writer) (moves : List Move) (name : String) :
    (w.declaredBy moves).filter (·.name = name) =
      (List.range' (w.count name + 1) (moves.count (.declare name))).map (⟨name, ·⟩) := by
  induction moves generalizing w with
  | nil => rfl
  | cons move rest ih =>
      rw [declaredBy, List.filter_append, ih, count_after]
      by_cases heq : move = .declare name
      · subst heq
        rw [if_pos rfl, List.count_cons_self, List.range'_succ]
        simp [Move.name?, nextVar]
      · rw [if_neg heq, List.count_cons_of_ne heq]
        have hother : ((move.name?.map w.nextVar).toList).filter (·.name = name) = [] := by
          cases move with
          | declare other => simpa [Move.name?, nextVar] using heq
          | enter => rfl
          | leave => rfl
        rw [hother]
        rfl

theorem map_name_declaredBy (w : Writer) (moves : List Move) :
    (w.declaredBy moves).map (·.name) = moves.filterMap Move.name? := by
  induction moves generalizing w with
  | nil => rfl
  | cons move rest ih =>
      rw [declaredBy, List.map_append, ih]
      cases move <;> rfl

theorem ordinal_pos_of_mem_declaredBy {w : Writer} {moves : List Move} {v : Var} (h : v ∈ w.declaredBy moves) : 1 ≤ v.ordinal := by
  have hmem : v ∈ (w.declaredBy moves).filter (·.name = v.name) := List.mem_filter.2 ⟨h, by simp⟩
  rw [filter_declaredBy, List.mem_map] at hmem
  obtain ⟨n, hn, hv⟩ := hmem
  rw [← hv]
  exact Nat.le_of_add_left_le (List.mem_range'_1.1 hn).1

theorem nodup_declaredBy (w : Writer) (moves : List Move) : (w.declaredBy moves).Nodup := by
  rw [List.nodup_iff_count]
  intro v
  have hordinals : ((List.range' (w.count v.name + 1) (moves.count (.declare v.name))).map (Var.mk v.name)).Nodup := by
    rw [List.Nodup, List.pairwise_map]
    refine List.Pairwise.imp ?_ List.nodup_range'
    intro m n hne heq
    exact hne (Var.mk.inj heq).2
  rw [← filter_declaredBy] at hordinals
  rw [← List.count_filter (p := (·.name = v.name)) (by simp)]
  exact List.nodup_iff_count.1 hordinals v

/-- The declarations of one writer are written differently. -/
theorem nodup_text_declaredBy (w : Writer) (moves : List Move) : ((w.declaredBy moves).map Var.text).Nodup := by
  rw [List.Nodup, List.pairwise_map]
  refine (w.nodup_declaredBy moves).imp_of_mem ?_
  intro u v hu hv hne htext
  exact hne (Var.text_inj (ordinal_pos_of_mem_declaredBy hu) (ordinal_pos_of_mem_declaredBy hv) htext)

end Writer

/-- Mangled names are told apart, and so are mangled names with numbers from two on behind them, from each other
and from the mangled names alone. All of them are words with the mark of variables in front. So the declarations of
one writer get names that are pairwise different, whatever blocks are entered and left between them. -/
theorem mangled_names_told_apart :
    (∀ a b : String, mangle a = mangle b → a = b) ∧
    (∀ (a b : String) (n : Nat), 2 ≤ n → mangle a ++ "_" ++ Nat.repr n ≠ mangle b) ∧
    (∀ (a b : String) (m n : Nat), 2 ≤ m → 2 ≤ n →
      mangle a ++ "_" ++ Nat.repr m = mangle b ++ "_" ++ Nat.repr n → a = b ∧ m = n) ∧
    (∀ a : String, IsVariableName (mangle a) ∧ ∀ n, 2 ≤ n → IsVariableName (mangle a ++ "_" ++ Nat.repr n)) ∧
    ∀ (w : Writer) (moves : List Move), (w.declaredBy moves).map (·.name) = moves.filterMap Move.name? ∧
      ((w.declaredBy moves).map Var.text).Nodup := by
  refine ⟨?_, ?_, ?_, ?_, fun w moves => ⟨w.map_name_declaredBy moves, w.nodup_text_declaredBy moves⟩⟩
  · intro a b h
    rw [← Var.text_first, ← Var.text_first] at h
    exact congrArg Var.name (Var.text_inj (Nat.le_refl 1) (Nat.le_refl 1) h)
  · intro a b n hn h
    rw [← Var.text_later a hn, ← Var.text_first] at h
    have hordinal := congrArg Var.ordinal (Var.text_inj (Nat.le_of_succ_le hn) (Nat.le_refl 1) h)
    exact Nat.ne_of_gt hn hordinal
  · intro a b m n hm hn h
    rw [← Var.text_later a hm, ← Var.text_later b hn] at h
    exact Var.mk.inj (Var.text_inj (Nat.le_of_succ_le hm) (Nat.le_of_succ_le hn) h)
  · intro a
    refine ⟨Var.isVariableName_text ⟨a, 1⟩, fun n hn => ?_⟩
    rw [← Var.text_later a hn]
    exact Var.isVariableName_text ⟨a, n⟩

/-- A name that spells the code of a character, a number that begins like one, numbers behind a name that ends with
a number, and a name declared beside another one that looks like it with a number. -/
theorem told_apart_lookalikes :
    mangle "_e9_" ≠ mangle "é" ∧
    mangle "" ++ "_" ++ Nat.repr 2 ≠ mangle "\x02" ∧
    mangle "x_1" ++ "_" ++ Nat.repr 2 ≠ mangle "x" ++ "_" ++ Nat.repr 12 ∧
    (({} : Writer).declaredBy [.declare "x", .enter, .declare "x", .leave, .declare "x_2", .declare "x"]).map Var.text =
      ["lai_v_x", "lai_v_x_2", "lai_v_x_5f_2", "lai_v_x_3"] ∧
    ["lai_v_x", "lai_v_x_2", "lai_v_x_5f_2", "lai_v_x_3"].Nodup := by
  obtain ⟨hplain, hfree, hnumbered, -, hdeclared⟩ := mangled_names_told_apart
  have htexts : (({} : Writer).declaredBy
      [.declare "x", .enter, .declare "x", .leave, .declare "x_2", .declare "x"]).map Var.text =
        ["lai_v_x", "lai_v_x_2", "lai_v_x_5f_2", "lai_v_x_3"] := by
    decide +kernel
  refine ⟨fun h => absurd (hplain _ _ h) (by decide), hfree _ _ 2 (by decide),
    fun h => absurd (hnumbered _ _ 2 12 (by decide) (by decide) h).2 (by decide), htexts, ?_⟩
  rw [← htexts]
  exact (hdeclared _ _).2

end Lai.C
