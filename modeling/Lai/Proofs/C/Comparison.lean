import Lai.Proofs.C.Rendering
import Lai.Proofs.Semantics.C
import Lai.Proofs.Token.Spelling
/-!
# Comparing texts in C

A text is stored with a NUL behind it, and two stored texts are compared byte by byte up to the first NUL. The
test that is written for two literals thus finds out whether they agree up to their first NUL. That is the
answer the source asks for if no NUL cuts the texts down to one, and the wrong answer if it does.
-/

namespace Lai.C

open Text

/-! ### Comparing bytes -/

/-- What `strcmp` gives for two texts, each with a NUL behind it. -/
def strcmp : List UInt8 → List UInt8 → Int
  | [], [] => 0
  | [], y :: _ => -y.toNat
  | x :: _, [] => x.toNat
  | x :: xs, y :: ys => if x ≠ y then x.toNat - y.toNat else if x = 0 then 0 else strcmp xs ys

theorem toNat_eq_zero_iff (b : UInt8) : b.toNat = 0 ↔ b = 0 :=
  UInt8.toNat_inj (b := 0)

theorem strcmp_eq_zero_iff (xs ys : List UInt8) :
    strcmp xs ys = 0 ↔ xs.takeWhile (· ≠ 0) = ys.takeWhile (· ≠ 0) := by
  fun_induction strcmp xs ys with
  | case1 => simp
  | case2 y ys => by_cases hy : y = 0 <;> simp [hy, toNat_eq_zero_iff]
  | case3 x xs => by_cases hx : x = 0 <;> simp [hx, toNat_eq_zero_iff]
  | case4 x xs y ys hne =>
      have hbytes : x.toNat ≠ y.toNat := fun h => hne (UInt8.toNat_inj.1 h)
      have hdiffer : (x.toNat : Int) - y.toNat ≠ 0 := by omega
      refine iff_of_false hdiffer fun h => ?_
      -- at most one of the two heads is a NUL
      by_cases hx : x = 0 <;> by_cases hy : y = 0 <;> simp_all
  | case5 xs y ys hsame =>
      obtain rfl := Decidable.not_not.1 hsame
      simp
  | case6 x xs y ys hsame hx ih =>
      obtain rfl := Decidable.not_not.1 hsame
      simp [hx, ih]

theorem takeWhile_utf8EncodeChar {c : Char} (h : c ≠ '\x00') (rest : List UInt8) :
    (String.utf8EncodeChar c ++ rest).takeWhile (· ≠ 0) = String.utf8EncodeChar c ++ rest.takeWhile (· ≠ 0) := by
  refine List.takeWhile_append_of_pos fun b hb => decide_eq_true ?_
  exact ne_of_mem_utf8EncodeChar (by decide) h hb

theorem takeWhile_bytes (s : String) : (bytes s).takeWhile (· ≠ 0) = bytes (upToNul s) := by
  rw [bytes_eq_flatMap, upToNul, bytes_ofList]
  induction s.toList with
  | nil => rfl
  | cons c cs ih =>
      rw [List.flatMap_cons]
      by_cases hc : c = '\x00'
      · subst hc
        rfl
      · have hkept : decide (c ≠ '\x00') = true := decide_eq_true hc
        rw [takeWhile_utf8EncodeChar hc, ih, List.takeWhile_cons, if_pos hkept, List.flatMap_cons]

theorem strcmp_bytes_eq_zero_iff (s t : String) : strcmp (bytes s) (bytes t) = 0 ↔ upToNul s = upToNul t := by
  rw [strcmp_eq_zero_iff, takeWhile_bytes, takeWhile_bytes, bytes_inj]

/-! ### Tests of literals -/

/-- Whether the test succeeds, if it is one of two literals. -/
def CTree.succeeds? : CTree → Option Bool
  | .binary (.compare op) (.call (.name f) [.literal x, .literal y]) (.constant _ n) =>
    if f = bytes "strcmp" then some (op.holds (strcmp x y) n) else none
  | _ => none

/-- The test that is written for two texts. -/
def literalTest (op : CompareOp) (s t : String) : Test :=
  ⟨.string, op, .string s, .string t⟩

theorem test_literals (w : Writer) (op : CompareOp) (s t : String) (ls lt loc : Location) :
    w.test ⟨op, .string s ls, .string t lt, loc⟩ = .ok (literalTest op s t) := rfl

theorem holds_eq_iff {α β : Type} [DecidableEq α] [DecidableEq β] (op : CompareOp) {x y : α} {x' y' : β} :
    op.holds x y = op.holds x' y' ↔ (x = y ↔ x' = y') := by
  cases op <;> simp [CompareOp.holds]

theorem succeeds?_literalTest (op : CompareOp) (s t : String) :
    (literalTest op s t).tree.succeeds? = some (op.holds (upToNul s) (upToNul t)) := by
  have hanswer : op.holds (strcmp (bytes s) (bytes t)) 0 = op.holds (upToNul s) (upToNul t) :=
    (holds_eq_iff op).2 (strcmp_bytes_eq_zero_iff s t)
  rw [← hanswer]
  simp only [literalTest, Test.tree, Expr.tree, CTree.ofCall, CTree.succeeds?, if_true, Int.natCast_zero]

/-- Every text is that of a literal which is scanned without a complaint. -/
theorem exists_scanned (text : String) : ∃ line, Scan.ofLines [line] = ⟨[⟨.string text, .origin⟩], []⟩ := by
  have hline := (Scan.ofLine_of_spelled 0 (.string text)).1
  refine ⟨String.ofList ('"' :: text.toList.flatMap Lexical.spellChar ++ ['"']), ?_⟩
  simp only [Scan.ofLines, List.zipIdx_singleton, List.map_singleton, List.flatMap_singleton, String.toList_ofList, hline]
  rfl

/-- Whatever texts two scanned literals have, the test that is written for them has one parse, and it succeeds
exactly if the comparison holds of the texts up to their first NUL. This is not the answer for the texts
themselves if they differ and their parts up to the first NUL do not. -/
theorem literal_test_cut_at_nul (w : Writer) (op : CompareOp) (s t : String) (ls lt loc : Location) :
    (∃ first second, Scan.ofLines [first] = ⟨[⟨.string s, .origin⟩], []⟩ ∧
      Scan.ofLines [second] = ⟨[⟨.string t, .origin⟩], []⟩) ∧
    ∃ test tree, w.test ⟨op, .string s ls, .string t lt, loc⟩ = .ok test ∧
      test.text = "strcmp(" ++ stringLiteral s ++ ", " ++ stringLiteral t ++ ") " ++ op.text ++ " 0" ∧
      (∀ other, Parses (bytes test.text) other ↔ other = tree) ∧
      tree.succeeds? = some (op.holds (upToNul s) (upToNul t)) ∧
      (tree.succeeds? = some (op.holds s t) ↔ (upToNul s = upToNul t → s = t)) := by
  obtain ⟨first, hfirst⟩ := exists_scanned s
  obtain ⟨second, hsecond⟩ := exists_scanned t
  have hsucceeds := succeeds?_literalTest op s t
  refine ⟨⟨first, second, hfirst, hsecond⟩, literalTest op s t, (literalTest op s t).tree,
    test_literals w op s t ls lt loc, rfl, (literalTest op s t).parses_text_iff, hsucceeds, ?_⟩
  rw [hsucceeds, Option.some.injEq, holds_eq_iff]
  exact ⟨fun h => h.1, fun h => ⟨h, fun hst => hst ▸ rfl⟩⟩

/-- Two different literals that begin with a NUL are compared with the wrong answer, whichever way. -/
theorem nul_test_misled :
    Scan.ofLines ["\"\x00a\" \"\x00b\""] = ⟨[⟨.string "\x00a", ⟨0, 0⟩⟩, ⟨.string "\x00b", ⟨0, 5⟩⟩], []⟩ ∧
    ∀ op, ∃ test tree, ({} : Writer).test ⟨op, .string "\x00a" ⟨0, 0⟩, .string "\x00b" ⟨0, 5⟩, .origin⟩ = .ok test ∧
      (∀ other, Parses (bytes test.text) other ↔ other = tree) ∧
      tree.succeeds? = some (!op.holds "\x00a" "\x00b") := by
  refine ⟨by decide +kernel, fun op => ⟨literalTest op "\x00a" "\x00b", _, rfl, Test.parses_text_iff _, ?_⟩⟩
  cases op <;> decide

end Lai.C
