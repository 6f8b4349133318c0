import Lai.Proofs.Token.Division
/-!
# Lines joined at a blank

A blank ends every stretch just as the end of a line does, comments and open literals apart. So a line can
be scanned in parts: what is found behind a blank is what is found when the rest is a line of its own, only
further to the right.
-/

namespace Lai

/-- The place `n` columns further to the right. -/
def Location.shift (n : Nat) (l : Location) : Location :=
  ⟨l.line, l.column + n⟩

namespace Scan

/-- The scan with everything found `n` columns further to the right. -/
def shift (n : Nat) (scan : Scan) : Scan where
  tokens := scan.tokens.map fun t => ⟨t.lexeme, t.loc.shift n⟩
  faults := scan.faults.map fun fault => ⟨fault.loc.shift n, fault.value⟩

/-- What is found in one part of a line, followed by what is found in the next. -/
def append (first second : Scan) : Scan :=
  ⟨first.tokens ++ second.tokens, first.faults ++ second.faults⟩

theorem shift_empty (n : Nat) : shift n {} = {} := rfl

theorem append_empty (scan : Scan) : scan.append {} = scan := by
  simp [append]

end Scan

/-! ### Blanks end stretches -/

theorem Symbol.isBlank_of_mem_text {s : Symbol} {c : Char} (hc : c ∈ s.text.toList) : Text.isBlank c = false := by
  have hall : (s.text.toList.all fun c => !Text.isBlank c) = true := by
    cases s <;> decide
  simpa using List.all_eq_true.1 hall c hc

namespace Lexical

/-- Characters that lack `d` and begin a text begin what stands before `d` in it. -/
theorem prefix_of_prefix_append_cons {cs before after : List Char} {d : Char} (h : cs <+: before ++ d :: after)
    (hd : d ∉ cs) : cs <+: before := by
  rcases Nat.lt_or_ge before.length cs.length with hlt | hle
  · have hlonger : before ++ [d] <+: cs := by
      refine List.prefix_of_prefix_length_le ⟨after, by simp⟩ h ?_
      rw [List.length_append, List.length_singleton]
      exact hlt
    exact absurd (hlonger.mem (by simp)) hd
  · exact List.prefix_of_prefix_length_le h (List.prefix_append _ _) hle

theorem Stops.append_cons {p : Char → Bool} {rest : List Char} (h : Stops p rest) {w : Char} (hw : p w = false)
    (after : List Char) : Stops p (rest ++ w :: after) := by
  cases rest with
  | nil => exact stops_cons.2 hw
  | cons c rest => exact stops_cons.2 (stops_cons.1 h)

theorem prefix_of_prefix_append_blank {s : Symbol} {before after : List Char} {w : Char} (hw : Text.isBlank w = true)
    (h : s.text.toList <+: before ++ w :: after) : s.text.toList <+: before := by
  refine prefix_of_prefix_append_cons h fun hmem => ?_
  exact Text.ne_of_class hw (Symbol.isBlank_of_mem_text hmem) rfl

/-- A blank that follows on the line does not change what a rule makes. -/
theorem Makes.before_blank {rule : Rule} {text rest : List Char} (h : Makes rule text rest) (hcomment : rule ≠ .comment)
    (hunclosed : rule ≠ .unclosed) {w : Char} (hw : Text.isBlank w = true) (after : List Char) :
    Makes rule text (rest ++ w :: after) := by
  have hname := isNameChar_of_isBlank hw
  cases h with
  | blank hblank => exact .blank hblank
  | comment content => exact absurd rfl hcomment
  | quoted hquotes hclosed => exact .quoted hquotes hclosed
  | unclosed hquotes => exact absurd rfl hunclosed
  | number hsome hdigits hend => exact .number hsome hdigits (hend.append_cons hname after)
  | malformed hsome hdigits htail hchars hmaximal hend =>
      exact .malformed hsome hdigits htail hchars hmaximal (hend.append_cons hname after)
  | operator hs hslashes hlongest =>
      refine .operator hs ?_ ?_ <;> rw [← List.append_assoc]
      · intro hbegins
        apply hslashes
        refine prefix_of_prefix_append_cons hbegins fun hmem => ?_
        obtain rfl : w = '/' := by simpa using hmem
        exact absurd hw (by decide)
      · intro other hother hbegins
        exact hlongest other hother (prefix_of_prefix_append_blank hw hbegins)
  | word hstart hchars hend => exact .word hstart hchars (hend.append_cons hname after)
  | stray hblank hquote hdigit hstart hoperator =>
      refine .stray hblank hquote hdigit hstart fun s hs hbegins => hoperator s hs ?_
      rw [← List.cons_append] at hbegins
      exact prefix_of_prefix_append_blank hw hbegins

/-- Two lines joined at a blank are divided as they are, with the blank in between. -/
theorem Divides.join {a b : List Char} {first second : List Stretch} (ha : Divides a first) (hb : Divides b second)
    (hcomment : ∀ s ∈ first, s.rule ≠ .comment) (hunclosed : ∀ s ∈ first, s.rule ≠ .unclosed) {w : Char}
    (hw : Text.isBlank w = true) : Divides (a ++ w :: b) (first ++ ⟨.blank, [w]⟩ :: second) := by
  induction ha with
  | nil => exact Divides.cons (s := ⟨.blank, [w]⟩) (.blank hw) hb
  | @cons s rest first hmakes _ ih =>
      rw [List.append_assoc]
      refine .cons ?_ (ih (fun t ht => hcomment t ?_) fun t ht => hunclosed t ?_)
      · exact hmakes.before_blank (hcomment s List.mem_cons_self) (hunclosed s List.mem_cons_self) hw b
      all_goals exact List.mem_cons_of_mem _ ht

/-! ### Parts of a line -/

theorem Stretch.place_append (column : Nat) (first second : List Stretch) :
    place column (first ++ second) =
      place column first ++ place (column + (first.flatMap (·.text)).length) second := by
  induction first generalizing column with
  | nil => rfl
  | cons s rest ih =>
      simp only [List.cons_append, place, ih, List.flatMap_cons, List.length_append, Nat.add_assoc]

theorem Stretch.place_add (column n : Nat) (stretches : List Stretch) :
    place (column + n) stretches = (place column stretches).map fun (start, s) => (start + n, s) := by
  induction stretches generalizing column with
  | nil => rfl
  | cons s rest ih => rw [place, place, List.map_cons, ← ih, Nat.add_right_comm]

theorem scanOf_append (line : Nat) (first second : List Stretch) :
    scanOf line (first ++ second) =
      (scanOf line first).append ((scanOf line second).shift (first.flatMap (·.text)).length) := by
  simp only [scanOf, Stretch.place_append, Stretch.place_add 0, List.flatMap_append, List.flatMap_map, Scan.append,
    Scan.shift, List.map_flatMap, List.map_map]
  congr 4
  all_goals
    funext placed
    refine List.map_congr_left fun found _ => ?_
    simp [Location.shift, Int.add_right_comm]

/-- A blank separates what is scanned before it from what is scanned behind it, unless a comment or an
open literal has begun. -/
theorem Divides.ofLine_append_cons {a : List Char} {first : List Stretch} (ha : Divides a first)
    (hcomment : ∀ s ∈ first, s.rule ≠ .comment) (hunclosed : ∀ s ∈ first, s.rule ≠ .unclosed) {w : Char}
    (hw : Text.isBlank w = true) (line : Nat) (b : List Char) :
    Scan.ofLine line (a ++ w :: b) = (Scan.ofLine line a).append ((Scan.ofLine line b).shift (a.length + 1)) := by
  have hb := divides_cutAll b
  have hblank : scanOf line [⟨.blank, [w]⟩] = {} := rfl
  have hlength : ((first ++ [Stretch.mk .blank [w]]).flatMap (·.text)).length = a.length + 1 := by
    rw [List.flatMap_append, ha.flatMap_text]
    simp
  rw [(ha.join hb hcomment hunclosed hw).ofLine_eq, ha.ofLine_eq, hb.ofLine_eq, List.append_cons, scanOf_append,
    scanOf_append, hblank, hlength, Scan.shift_empty, Scan.append_empty]

end Lexical

namespace Scan

open Lexical Segment

theorem ofLine_comment (line : Nat) (blanks content : List Char) (hblanks : ∀ w ∈ blanks, Text.isBlank w = true) :
    ofLine line (blanks ++ '/' :: '/' :: content) = {} := by
  induction blanks with
  | nil =>
      have hcomment : Divides ('/' :: '/' :: content ++ []) [⟨.comment, '/' :: '/' :: content⟩] :=
        Divides.cons (s := ⟨.comment, _⟩) (.comment content) .nil
      rw [List.append_nil] at hcomment
      exact hcomment.ofLine_eq line
  | cons w blanks ih =>
      have hstep := Divides.nil.ofLine_append_cons (by simp) (by simp) (hblanks w List.mem_cons_self) line
        (blanks ++ '/' :: '/' :: content)
      rw [ih fun v hv => hblanks v (List.mem_cons_of_mem _ hv), shift_empty, append_empty] at hstep
      have hnone : ofLine line [] = {} := Divides.nil.ofLine_eq line
      exact hstep.trans hnone

/-- A blank separates what is scanned before it from what is scanned behind it, unless a comment or an
open literal has begun. So a comment behind a blank changes nothing, whatever it says. -/
theorem ofLine_joined_at_blank (line : Nat) (a : List Char) (hcomment : ∀ content, .comment content ∉ cutAll a)
    (hunclosed : ∀ ps dangling, .unclosed ps dangling ∉ cutAll a) :
    (∀ (w : Char) (b : List Char), Text.isBlank w = true →
      ofLine line (a ++ w :: b) = (ofLine line a).append ((ofLine line b).shift (a.length + 1))) ∧
    ∀ blanks content : List Char, blanks ≠ [] → (∀ w ∈ blanks, Text.isBlank w = true) →
      ofLine line (a ++ blanks ++ '/' :: '/' :: content) = ofLine line a := by
  have hfirst : ∀ s ∈ (cutAll a).map stretch, s.rule ≠ .comment ∧ s.rule ≠ .unclosed := by
    intro s hs
    obtain ⟨segment, hmem, rfl⟩ := List.mem_map.1 hs
    cases segment with
    | comment content => exact absurd hmem (hcomment content)
    | unclosed ps dangling => exact absurd hmem (hunclosed ps dangling)
    | _ => simp [stretch, rule]
  have hjoined (w : Char) (b : List Char) (hw : Text.isBlank w = true) :=
    (divides_cutAll a).ofLine_append_cons (fun s hs => (hfirst s hs).1) (fun s hs => (hfirst s hs).2) hw line b
  refine ⟨hjoined, fun blanks content hsome hblanks => ?_⟩
  obtain ⟨w, blanks, rfl⟩ := List.exists_cons_of_ne_nil hsome
  have hrest := ofLine_comment line blanks content fun v hv => hblanks v (List.mem_cons_of_mem _ hv)
  rw [List.append_assoc, List.cons_append, hjoined w _ (hblanks w List.mem_cons_self), hrest, shift_empty, append_empty]

def littered : List Char := "12ab\"//\"".toList

/-- A malformed number and a literal with slashes in it; behind them a no-break space and an open literal,
or blanks and a comment. -/
theorem littered_joined_to_open :
    (∀ content, .comment content ∉ cutAll littered) ∧ (∀ ps dangling, .unclosed ps dangling ∉ cutAll littered) ∧
    Text.isBlank '\u00a0' = true ∧
    ofLine 0 (littered ++ '\u00a0' :: "\"x".toList) =
      (ofLine 0 littered).append ((ofLine 0 "\"x".toList).shift 9) ∧
    ofLine 0 (littered ++ ['\u00a0', '\t'] ++ '/' :: '/' :: ['"']) = ofLine 0 littered := by
  have hsegments : cutAll littered = [.malformed ['1', '2'] ['a', 'b'], .quoted [.plain '/', .plain '/']] := by
    decide +kernel
  have hcomment : ∀ content, .comment content ∉ cutAll littered := by simp [hsegments]
  have hunclosed : ∀ ps dangling, .unclosed ps dangling ∉ cutAll littered := by simp [hsegments]
  have hjoined := ofLine_joined_at_blank 0 littered hcomment hunclosed
  exact ⟨hcomment, hunclosed, by decide, hjoined.1 _ _ (by decide), hjoined.2 _ _ (by simp) (List.all_eq_true.1 (by decide))⟩

end Scan

end Lai
