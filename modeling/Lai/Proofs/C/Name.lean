import Lai.C.Name
/-!
# Names in C are told apart

A mangled name can be read back: a letter or digit stands for itself, and an underscore opens a code
that the next underscore closes. The number of a later declaration is not taken for a code, because no
underscore follows it.
-/

namespace Lai.C

/-! ### Numerals -/

theorem digitChar_inj {m n : Nat} (hm : m < 16) (hn : n < 16) (h : m.digitChar = n.digitChar) : m = n := by
  have hall : ∀ i : Fin 16, ∀ j : Fin 16, i.val.digitChar = j.val.digitChar → i = j := by decide
  exact Fin.val_eq_of_eq (hall ⟨m, hm⟩ ⟨n, hn⟩ h)

theorem digitChar_ne_underscore {n : Nat} (hn : n < 16) : n.digitChar ≠ '_' := by
  have hall : ∀ i : Fin 16, i.val.digitChar ≠ '_' := by decide
  exact hall ⟨n, hn⟩

variable {base : Nat}

theorem exists_digitChar_of_mem_toDigits (hlow : 1 < base) {n : Nat} {c : Char} (h : c ∈ Nat.toDigits base n) :
    ∃ digit < base, c = digit.digitChar := by
  induction n using Nat.strongRecOn with
  | ind n ih =>
      rw [Nat.toDigits_eq_if hlow] at h
      split at h
      · next hlt => exact ⟨n, hlt, List.mem_singleton.1 h⟩
      · next hge =>
          rcases List.mem_append.1 h with hfront | hlast
          · exact ih (n / base) (Nat.div_lt_self (by omega) hlow) hfront
          · exact ⟨n % base, Nat.mod_lt n (by omega), List.mem_singleton.1 hlast⟩

theorem underscore_notMem_toDigits (hlow : 1 < base) (hhigh : base ≤ 16) (n : Nat) : '_' ∉ Nat.toDigits base n := by
  intro h
  obtain ⟨digit, hdigit, heq⟩ := exists_digitChar_of_mem_toDigits hlow h
  exact digitChar_ne_underscore (Nat.lt_of_lt_of_le hdigit hhigh) heq.symm

theorem toDigits_inj (hlow : 1 < base) (hhigh : base ≤ 16) {m n : Nat}
    (h : Nat.toDigits base m = Nat.toDigits base n) : m = n := by
  induction m using Nat.strongRecOn generalizing n with
  | ind m ih =>
      have hmod (k : Nat) : k % base < 16 := Nat.lt_of_lt_of_le (Nat.mod_lt k (by omega)) hhigh
      rw [Nat.toDigits_eq_if hlow, Nat.toDigits_eq_if hlow (n := n)] at h
      by_cases hm : m < base <;> by_cases hn : n < base
      · rw [if_pos hm, if_pos hn, List.cons.injEq] at h
        exact digitChar_inj (by omega) (by omega) h.1
      · rw [if_pos hm, if_neg hn] at h
        exact absurd (congrArg List.length h) (by simp)
      · rw [if_neg hm, if_pos hn] at h
        exact absurd (congrArg List.length h) (by simp)
      · rw [if_neg hm, if_neg hn] at h
        obtain ⟨hquotient, hlast⟩ := List.append_inj' h rfl
        have hdiv := ih (m / base) (Nat.div_lt_self (by omega) hlow) hquotient
        have hrem := digitChar_inj (hmod m) (hmod n) (List.cons.inj hlast).1
        rw [← Nat.div_add_mod m base, ← Nat.div_add_mod n base, hdiv, hrem]

/-! ### Mangled names -/

theorem isAlphanum_ne_underscore {c : Char} (h : c.isAlphanum = true) : c ≠ '_' := by
  rintro rfl
  simp at h

/-- A text up to an underscore is told from what comes after it. -/
theorem append_underscore_inj {front back left right : List Char} (hfront : '_' ∉ front) (hback : '_' ∉ back)
    (h : front ++ '_' :: left = back ++ '_' :: right) : front = back ∧ left = right := by
  induction front generalizing back with
  | nil =>
      cases back with
      | nil => exact ⟨rfl, (List.cons.inj h).2⟩
      | cons c back => exact absurd (List.mem_cons.2 (.inl (List.cons.inj h).1)) hback
  | cons c front ih =>
      cases back with
      | nil => exact absurd (List.mem_cons.2 (.inl (List.cons.inj h).1.symm)) hfront
      | cons d back =>
          simp only [List.mem_cons, not_or] at hfront hback
          simp only [List.cons_append, List.cons.injEq] at h
          obtain ⟨hrest, hright⟩ := ih hfront.2 hback.2 h.2
          exact ⟨by rw [h.1, hrest], hright⟩

/-- One mangled character is told from what comes after it. -/
theorem mangleChar_append_inj {c d : Char} {left right : List Char}
    (h : mangleChar c ++ left = mangleChar d ++ right) : c = d ∧ left = right := by
  unfold mangleChar at h
  by_cases hc : c.isAlphanum = true <;> by_cases hd : d.isAlphanum = true
  · rw [if_pos hc, if_pos hd] at h
    exact List.cons.inj h
  · rw [if_pos hc, if_neg hd] at h
    exact absurd (List.cons.inj h).1 (isAlphanum_ne_underscore hc)
  · rw [if_neg hc, if_pos hd] at h
    exact absurd (List.cons.inj h).1.symm (isAlphanum_ne_underscore hd)
  · rw [if_neg hc, if_neg hd] at h
    simp only [List.cons_append, List.cons.injEq, true_and, List.append_assoc, List.nil_append, Text.digits,
      Nat.zero_sub, List.replicate_zero] at h
    obtain ⟨hcode, hrest⟩ := append_underscore_inj (underscore_notMem_toDigits (by decide) (by decide) _)
      (underscore_notMem_toDigits (by decide) (by decide) _) h
    exact ⟨Char.toNat_inj.1 (toDigits_inj (by decide) (by decide) hcode), hrest⟩

/-- What may stand behind a mangled name: nothing, or an underscore and then no other. -/
def IsSuffix (rest : List Char) : Prop :=
  rest = [] ∨ ∃ digits, rest = '_' :: digits ∧ '_' ∉ digits

theorem not_isSuffix_mangleChar (c : Char) (rest : List Char) : ¬ IsSuffix (mangleChar c ++ rest) := by
  unfold mangleChar
  rintro (h | ⟨digits, h, hdigits⟩)
  · split at h <;> simp at h
  · by_cases hc : c.isAlphanum = true
    · rw [if_pos hc] at h
      exact isAlphanum_ne_underscore hc (List.cons.inj h).1
    · rw [if_neg hc] at h
      rw [← (List.cons.inj h).2] at hdigits
      simp at hdigits

/-- A mangled name is told from what stands behind it. -/
theorem flatMap_mangleChar_append_inj {left right rest more : List Char} (hrest : IsSuffix rest) (hmore : IsSuffix more)
    (h : left.flatMap mangleChar ++ rest = right.flatMap mangleChar ++ more) : left = right ∧ rest = more := by
  -- Where one name ends and the other goes on, a suffix would begin with a mangled character.
  induction left generalizing right with
  | nil =>
      cases right with
      | nil => exact ⟨rfl, h⟩
      | cons d right =>
          rw [List.flatMap_nil, List.nil_append, List.flatMap_cons, List.append_assoc] at h
          exact absurd (h ▸ hrest) (not_isSuffix_mangleChar d _)
  | cons c left ih =>
      rw [List.flatMap_cons, List.append_assoc] at h
      cases right with
      | nil =>
          rw [List.flatMap_nil, List.nil_append] at h
          exact absurd (h ▸ hmore) (not_isSuffix_mangleChar c _)
      | cons d right =>
          rw [List.flatMap_cons, List.append_assoc] at h
          obtain ⟨hhead, htail⟩ := mangleChar_append_inj h
          obtain ⟨hnames, hends⟩ := ih htail
          exact ⟨by rw [hhead, hnames], hends⟩

namespace Var

/-- What stands behind the mangled name of a variable. -/
def suffix (v : Var) : List Char :=
  if v.ordinal ≤ 1 then [] else '_' :: Nat.toDigits 10 v.ordinal

theorem isSuffix_suffix (v : Var) : IsSuffix v.suffix := by
  unfold suffix
  split
  · exact .inl rfl
  · exact .inr ⟨_, rfl, underscore_notMem_toDigits (by decide) (by decide) _⟩

theorem toList_text (v : Var) :
    v.text.toList = "lai_v_".toList ++ (v.name.toList.flatMap mangleChar ++ v.suffix) := by
  unfold text suffix mangle
  split
  · simp
  · simp

theorem ordinal_eq_of_suffix_eq {u v : Var} (hu : 1 ≤ u.ordinal) (hv : 1 ≤ v.ordinal) (h : u.suffix = v.suffix) :
    u.ordinal = v.ordinal := by
  unfold suffix at h
  by_cases hu' : u.ordinal ≤ 1 <;> by_cases hv' : v.ordinal ≤ 1
  · omega
  · simp [hu', hv'] at h
  · simp [hu', hv'] at h
  · rw [if_neg hu', if_neg hv', List.cons.injEq] at h
    exact toDigits_inj (by decide) (by decide) h.2

/-- Different variables are written differently. -/
theorem text_inj {u v : Var} (hu : 1 ≤ u.ordinal) (hv : 1 ≤ v.ordinal) (h : u.text = v.text) : u = v := by
  have hlists := congrArg String.toList h
  rw [toList_text, toList_text, List.append_cancel_left_eq] at hlists
  obtain ⟨hname, hsuffix⟩ := flatMap_mangleChar_append_inj u.isSuffix_suffix v.isSuffix_suffix hlists
  have hordinal := ordinal_eq_of_suffix_eq hu hv hsuffix
  cases u
  cases v
  simp only [Var.mk.injEq]
  exact ⟨String.toList_inj.1 hname, hordinal⟩

end Var

end Lai.C
