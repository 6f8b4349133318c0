import Lai.Proofs.Token.Literals
import Lai.Proofs.Token.Placement
/-!
# How lines are divided

Every line can be divided by the lexical rules, and in one way only: cutting follows the rules, and
whenever a rule makes a stretch at the front of a line, that stretch is what is cut off. So what is
scanned on a line is what the stretches of its division stand for.
-/

namespace Lai

/-! ### Classes of characters -/

namespace Text

theorem ne_of_class {inClass : Char → Bool} {c d : Char} (hc : inClass c = true) (hd : inClass d = false) : c ≠ d := by
  rintro rfl
  exact Bool.false_ne_true (hd.symm.trans hc)

theorem exists_range_of_inRanges {ranges : List (Nat × Nat)} {code : Nat} (h : inRanges ranges code = true) :
    ∃ range ∈ ranges, range.1 ≤ code ∧ code ≤ range.2 := by
  induction ranges with
  | nil => simp [inRanges] at h
  | cons range ranges ih =>
      simp only [inRanges, Bool.and_eq_true, Bool.or_eq_true, decide_eq_true_eq] at h
      rcases h.2 with hlast | hlater
      · exact ⟨range, List.mem_cons_self, h.1, hlast⟩
      · obtain ⟨found, hfound, hbounds⟩ := ih hlater
        exact ⟨found, List.mem_cons_of_mem _ hfound, hbounds⟩

/-- No code point of the first ranges lies in the second ones. -/
def disjoint (first second : List (Nat × Nat)) : Bool :=
  first.all fun range => (List.range' range.1 (range.2 + 1 - range.1)).all fun code => !inRanges second code

theorem inRanges_of_disjoint {first second : List (Nat × Nat)} (hdisjoint : disjoint first second = true) {code : Nat}
    (h : inRanges first code = true) : inRanges second code = false := by
  obtain ⟨range, hrange, hlow, hhigh⟩ := exists_range_of_inRanges h
  have hcode : code ∈ List.range' range.1 (range.2 + 1 - range.1) := by
    rw [List.mem_range'_1]
    omega
  simpa using List.all_eq_true.1 (List.all_eq_true.1 hdisjoint range hrange) code hcode

theorem isLetter_of_isBlank {c : Char} (h : isBlank c = true) : isLetter c = false :=
  inRanges_of_disjoint (by decide +kernel) h

theorem inRanges_digit {c : Char} (h : c.isDigit = true) : inRanges [(48, 57)] c.toNat = true := by
  have hbounds : 48 ≤ c.toNat ∧ c.toNat ≤ 57 := Char.isDigit_iff_toNat.1 h
  simp [inRanges, hbounds]

theorem isLetter_of_isDigit {c : Char} (h : c.isDigit = true) : isLetter c = false :=
  inRanges_of_disjoint (by decide +kernel) (inRanges_digit h)

theorem isBlank_of_isDigit {c : Char} (h : c.isDigit = true) : isBlank c = false :=
  inRanges_of_disjoint (by decide +kernel) (inRanges_digit h)

end Text

open Text

theorem isNameStart_of_isDigit {c : Char} (h : c.isDigit = true) : isNameStart c = false := by
  have hunderscore : c ≠ '_' := ne_of_class h (by decide)
  simp [isNameStart, hunderscore, isLetter_of_isDigit h]

theorem isNameChar_of_isBlank {c : Char} (h : isBlank c = true) : isNameChar c = false := by
  have hunderscore : c ≠ '_' := ne_of_class h (by decide)
  have hdigit : c.isDigit = false := by
    rw [Bool.eq_false_iff]
    exact fun hdigit => ne_of_class h (isBlank_of_isDigit hdigit) rfl
  simp [isNameChar, isNameStart, hunderscore, isLetter_of_isBlank h, hdigit]

theorem isBlank_of_isNameStart {c : Char} (h : isNameStart c = true) : isBlank c = false := by
  rw [Bool.eq_false_iff]
  intro hblank
  have hnot := isNameChar_of_isBlank hblank
  simp [isNameChar, h] at hnot

/-! ### Symbols -/

namespace Symbol

theorem mem_all (s : Symbol) : s ∈ all := by
  cases s <;> decide

/-- A symbol is known by its spelling. -/
theorem find?_text (s : Symbol) : all.find? (·.text.toList = s.text.toList) = some s := by
  cases s <;> decide

theorem eq_of_text {a b : Symbol} (h : a.text.toList = b.text.toList) : a = b := by
  have hfind := find?_text a
  rw [h, find?_text b] at hfind
  exact (Option.some.inj hfind).symm

theorem mem_operators_iff {s : Symbol} : s ∈ operators ↔ s.isWord = false := by
  cases s <;> decide

theorem pairwise_operators : operators.Pairwise fun a b => b.text.toList.length ≤ a.text.toList.length := by
  decide +kernel

/-- No other rule begins with a character that operators begin with, comments aside. -/
theorem exists_start {s : Symbol} (hs : s.isWord = false) : ∃ c cs, s.text.toList = c :: cs ∧
    isBlank c = false ∧ c ≠ '"' ∧ c.isDigit = false ∧ isNameStart c = false := by
  cases s <;> first | exact absurd hs (by decide) | exact ⟨_, _, rfl, by decide⟩

theorem mem_keywords_of_isNameStart {s : Symbol} {c : Char} {cs : List Char} (h : s.text.toList = c :: cs)
    (hstart : isNameStart c = true) : s ∈ keywords := by
  cases hs : s.isWord with
  | false =>
      obtain ⟨d, ds, htext, -, -, -, hnot⟩ := exists_start hs
      exact absurd (List.cons.inj (h.symm.trans htext)).1 (ne_of_class hstart hnot)
  | true => cases s <;> first | exact absurd hs (by decide) | decide

theorem keyword?_text {s : Symbol} (h : s ∈ keywords) : keyword? s.text = some s := by
  cases s <;> first | exact absurd h (by decide) | decide

/-- Among words, keywords are the symbols with that spelling. -/
theorem keyword?_eq_find? {c : Char} {cs : List Char} (hstart : isNameStart c = true) :
    keyword? (String.ofList (c :: cs)) = all.find? (·.text.toList = c :: cs) := by
  cases hfind : all.find? (·.text.toList = c :: cs) with
  | some s =>
      have htext : s.text.toList = c :: cs := by simpa using List.find?_some hfind
      rw [← htext, String.ofList_toList, keyword?_text (mem_keywords_of_isNameStart htext hstart)]
  | none =>
      rw [List.find?_eq_none] at hfind
      refine List.find?_eq_none.2 fun s _ htext => hfind s (mem_all s) ?_
      rw [decide_eq_true_eq] at htext ⊢
      rw [htext, String.toList_ofList]

theorem operator?_eq_some_iff {cs : List Char} {s : Symbol} : operator? cs = some s ↔
    s.isWord = false ∧ s.text.toList <+: cs ∧
      ∀ other : Symbol, other.isWord = false → other.text.toList <+: cs →
        other.text.toList.length ≤ s.text.toList.length := by
  have longest {t : Symbol} (ht : operator? cs = some t) (other : Symbol) (hother : other.isWord = false)
      (hbegins : other.text.toList <+: cs) : other.text.toList.length ≤ t.text.toList.length := by
    obtain ⟨-, before, after, hsplit, hbefore⟩ := List.find?_eq_some_iff_append.1 ht
    have hmem : other ∈ before ++ t :: after := hsplit ▸ mem_operators_iff.2 hother
    rcases List.mem_append.1 hmem with hmem | hmem
    · exact absurd (hbefore other hmem) (by simpa using hbegins)
    · have hsorted := (List.pairwise_append.1 (hsplit ▸ pairwise_operators)).2.1
      rcases List.mem_cons.1 hmem with rfl | hmem
      · exact Nat.le_refl _
      · exact (List.pairwise_cons.1 hsorted).1 other hmem
  constructor
  · intro hs
    exact ⟨mem_operators_iff.1 (List.mem_of_find?_eq_some hs), operator?_begins hs, longest hs⟩
  · rintro ⟨hs, hbegins, hlongest⟩
    cases hfind : operator? cs with
    | none =>
        have hnone := List.find?_eq_none.1 hfind s (mem_operators_iff.2 hs)
        exact absurd hbegins (by simpa using hnone)
    | some t =>
        have ht := operator?_begins hfind
        -- Both are the longest, so they are spelled alike.
        have hlength := Nat.le_antisymm (hlongest t (mem_operators_iff.1 (List.mem_of_find?_eq_some hfind)) ht)
          (longest hfind s hs hbegins)
        have hbegin := List.prefix_of_prefix_length_le ht hbegins (Nat.le_of_eq hlength)
        rw [eq_of_text (hbegin.eq_of_length hlength)]

theorem operator?_eq_none_iff {cs : List Char} : operator? cs = none ↔
    ∀ s : Symbol, s.isWord = false → ¬ s.text.toList <+: cs := by
  rw [operator?, List.find?_eq_none]
  constructor
  · intro h s hs
    simpa using h s (mem_operators_iff.2 hs)
  · intro h s hs
    simpa using h s (mem_operators_iff.1 hs)

end Symbol

/-! ### Runs of characters -/

namespace Lexical

theorem stops_nil (p : Char → Bool) : Stops p [] := by
  intro c hc
  simp at hc

theorem stops_cons {p : Char → Bool} {c : Char} {rest : List Char} : Stops p (c :: rest) ↔ p c = false := by
  simp [Stops]

theorem stops_dropWhile (p : Char → Bool) (cs : List Char) : Stops p (cs.dropWhile p) := by
  intro c hc
  have hnot := List.head?_dropWhile_not p cs
  rwa [hc] at hnot

theorem stops_of_takeWhile_eq_nil {p : Char → Bool} {cs : List Char} (h : cs.takeWhile p = []) : Stops p cs := by
  cases cs with
  | nil => exact stops_nil p
  | cons c cs =>
      rw [stops_cons, Bool.eq_false_iff]
      intro hc
      simp [hc] at h

theorem Stops.takeWhile_append {p : Char → Bool} {run rest : List Char} (hrest : Stops p rest)
    (hrun : ∀ c ∈ run, p c = true) : (run ++ rest).takeWhile p = run := by
  rw [List.takeWhile_append_of_pos hrun]
  cases rest with
  | nil => simp
  | cons c rest => simp [stops_cons.1 hrest]

theorem Stops.dropWhile_append {p : Char → Bool} {run rest : List Char} (hrest : Stops p rest)
    (hrun : ∀ c ∈ run, p c = true) : (run ++ rest).dropWhile p = rest := by
  rw [List.dropWhile_append_of_pos hrun]
  cases rest with
  | nil => rfl
  | cons c rest => simp [stops_cons.1 hrest]

theorem isNameChar_of_isDigit {c : Char} (h : c.isDigit = true) : isNameChar c = true := by
  simp [isNameChar, h]

theorem Stops.isDigit {rest : List Char} (h : Stops isNameChar rest) : Stops Char.isDigit rest := by
  intro c hc
  rw [Bool.eq_false_iff]
  exact fun hdigit => ne_of_class (isNameChar_of_isDigit hdigit) (h c hc) rfl

end Lexical

namespace Segment

open Lexical

/-! ### Cutting follows the rules -/

/-- The rule by which the segment is made. -/
def rule : Segment → Rule
  | .blank _ => .blank
  | .comment _ => .comment
  | .quoted _ => .quoted
  | .unclosed _ _ => .unclosed
  | .number _ => .number
  | .malformed _ _ => .malformed
  | .operator s => .operator s
  | .word _ => .word
  | .stray _ => .stray

/-- The segment as a stretch. -/
def stretch (s : Segment) : Stretch :=
  ⟨s.rule, s.chars⟩

theorem makes_cutString (cs : List Char) : Makes (cutString cs).1.rule (cutString cs).1.chars (cutString cs).2 := by
  have hinside := Piece.inside_of_proper (Piece.proper_of_mem_pieces cs)
  unfold cutString
  split <;> rename_i hpieces <;> rw [hpieces] at hinside
  · exact .quoted hinside.1 hinside.2
  · rw [chars, if_neg Bool.false_ne_true, List.append_nil]
    exact .unclosed hinside.1
  · rw [chars, if_pos rfl, List.cons_append]
    exact .unclosed hinside.1.backslash

theorem makes_cutNumber {c : Char} (cs : List Char) (hdigit : c.isDigit = true) :
    Makes (cutNumber (c :: cs)).1.rule (cutNumber (c :: cs)).1.chars (cutNumber (c :: cs)).2 := by
  have hsome : (c :: cs).takeWhile Char.isDigit ≠ [] := by simp [hdigit]
  have hdigits := List.all_eq_true.1 (List.all_takeWhile (p := Char.isDigit) (l := c :: cs))
  unfold cutNumber
  simp only
  split
  · rename_i hnone
    exact .number hsome hdigits (stops_of_takeWhile_eq_nil hnone)
  · rename_i hsome'
    have hstops := stops_dropWhile Char.isDigit (c :: cs)
    refine .malformed hsome hdigits hsome' (List.all_eq_true.1 List.all_takeWhile) ?_ (stops_dropWhile _ _)
    intro d hd
    rw [List.head?_takeWhile, Option.filter_eq_some_iff] at hd
    exact hstops d hd.1

/-- What is cut off a line is made by a rule. -/
theorem makes_cut (c : Char) (cs : List Char) : Makes (cut c cs).1.rule (cut c cs).1.chars (cut c cs).2 := by
  unfold cut
  split
  · rename_i hblank
    exact .blank hblank
  rename_i hblank
  split
  · rename_i hcomment
    obtain ⟨rfl, hnext⟩ := hcomment
    obtain ⟨content, rfl⟩ : ∃ content, cs = '/' :: content := List.head?_eq_some_iff.1 hnext
    exact .comment content
  rename_i hcomment
  split
  · exact makes_cutString cs
  rename_i hquote
  split
  · rename_i hdigit
    exact makes_cutNumber cs hdigit
  rename_i hdigit
  split
  · rename_i s hs
    obtain ⟨hword, ⟨rest, hrest⟩, hlongest⟩ := Symbol.operator?_eq_some_iff.1 hs
    rw [← hrest] at hlongest
    rw [← hrest, List.drop_left]
    refine .operator hword ?_ hlongest
    rw [hrest]
    intro hbegins
    obtain ⟨content, hcontent⟩ := hbegins
    obtain ⟨rfl, rfl⟩ := List.cons.inj hcontent
    exact hcomment ⟨rfl, rfl⟩
  · rename_i hnone
    split
    · rename_i hstart
      exact .word hstart (List.all_eq_true.1 List.all_takeWhile) (stops_dropWhile _ _)
    · rename_i hstart
      exact .stray (Bool.eq_false_iff.2 hblank) hquote (Bool.eq_false_iff.2 hdigit) (Bool.eq_false_iff.2 hstart)
        (Symbol.operator?_eq_none_iff.1 hnone)

/-! ### The rules leave no choice -/

theorem cutString_of_closed {body : List Char} (hquotes : QuotesEscaped body) (hclosed : ¬ Escapes body)
    (rest : List Char) : ∃ ps, cutString (body ++ '"' :: rest) = (.quoted ps, rest) ∧ ps.flatMap Piece.chars = body := by
  have hinside := Piece.inside_of_proper (Piece.proper_of_mem_pieces (body ++ '"' :: rest))
  have hchars := pieces_chars (body ++ '"' :: rest)
  unfold cutString
  split <;> rename_i ps _ hpieces <;> rw [hpieces] at hinside hchars
  · obtain ⟨rfl, rfl⟩ := QuotesEscaped.unique hinside.1 hinside.2 hquotes hclosed hchars
    exact ⟨ps, rfl, rfl⟩
  · rw [Ending.chars, List.append_nil] at hchars
    exact absurd (hinside.1 body rest hchars) hclosed
  · exact absurd (hinside.1.backslash body rest hchars) hclosed

theorem cutString_of_open {body : List Char} (hquotes : QuotesEscaped body) :
    ∃ s, cutString body = (s, []) ∧ s.stretch = ⟨.unclosed, '"' :: body⟩ := by
  have hinside := Piece.inside_of_proper (Piece.proper_of_mem_pieces body)
  have hchars := cutString_chars body
  have hbody := pieces_chars body
  unfold cutString at hchars ⊢
  split <;> rename_i ps _ hpieces <;> rw [hpieces] at hinside hchars hbody
  · exact absurd (hquotes _ _ hbody.symm) hinside.2
  · exact ⟨_, rfl, by simpa [stretch, rule] using hchars⟩
  · exact ⟨_, rfl, by simpa [stretch, rule] using hchars⟩

theorem cutNumber_of_stops {digits rest : List Char} (hdigits : ∀ c ∈ digits, c.isDigit = true)
    (hend : Stops isNameChar rest) : cutNumber (digits ++ rest) = (.number digits, rest) := by
  have hnone : rest.takeWhile isNameChar = [] := Stops.takeWhile_append hend (List.forall_mem_nil _)
  simp only [cutNumber, hend.isDigit.takeWhile_append hdigits, hend.isDigit.dropWhile_append hdigits, hnone]

theorem cutNumber_of_tail {digits tail rest : List Char} (hdigits : ∀ c ∈ digits, c.isDigit = true) (htail : tail ≠ [])
    (hchars : ∀ c ∈ tail, isNameChar c = true) (hmaximal : Stops Char.isDigit tail) (hend : Stops isNameChar rest) :
    cutNumber (digits ++ (tail ++ rest)) = (.malformed digits tail, rest) := by
  obtain ⟨d, ds, rfl⟩ := List.exists_cons_of_ne_nil htail
  have hstops : Stops Char.isDigit (d :: ds ++ rest) := stops_cons.2 (stops_cons.1 hmaximal)
  simp only [cutNumber, hstops.takeWhile_append hdigits, hstops.dropWhile_append hdigits, hend.takeWhile_append hchars,
    hend.dropWhile_append hchars]

theorem cut_of_isDigit {c : Char} (cs : List Char) (h : c.isDigit = true) : cut c cs = cutNumber (c :: cs) := by
  have hblank : ¬ isBlank c = true := by simp [isBlank_of_isDigit h]
  have hslash : c ≠ '/' := ne_of_class h (by decide)
  have hquote : c ≠ '"' := ne_of_class h (by decide)
  rw [cut, if_neg hblank, if_neg fun hcomment => hslash hcomment.1, if_neg hquote, if_pos h]

theorem cut_of_operator {s : Symbol} {rest : List Char} (hs : s.isWord = false)
    (hcomment : ¬ ['/', '/'] <+: s.text.toList ++ rest) (hfound : Symbol.operator? (s.text.toList ++ rest) = some s) :
    ∃ c cs, s.text.toList ++ rest = c :: cs ∧ cut c cs = (.operator s, rest) := by
  obtain ⟨c, cs, htext, hblank, hquote, hdigit, -⟩ := Symbol.exists_start hs
  have hdrop : (c :: (cs ++ rest)).drop s.text.toList.length = rest := by
    rw [← List.cons_append, ← htext, List.drop_left]
  rw [htext] at hcomment hfound ⊢
  have hslashes : ¬ (c = '/' ∧ (cs ++ rest).head? = some '/') := by
    rintro ⟨rfl, hnext⟩
    obtain ⟨content, hcontent⟩ := List.head?_eq_some_iff.1 hnext
    exact hcomment ⟨content, by simp [hcontent]⟩
  refine ⟨c, cs ++ rest, rfl, ?_⟩
  rw [cut, if_neg (by simp [hblank]), if_neg hslashes, if_neg hquote, if_neg (by simp [hdigit])]
  rw [List.cons_append] at hfound
  simp only [hfound, hdrop]

theorem operator?_of_isNameStart {c : Char} (cs : List Char) (h : isNameStart c = true) :
    Symbol.operator? (c :: cs) = none := by
  refine Symbol.operator?_eq_none_iff.2 fun s hs hbegins => ?_
  obtain ⟨d, ds, htext, -, -, -, hnot⟩ := Symbol.exists_start hs
  rw [htext, List.cons_prefix_cons] at hbegins
  exact ne_of_class h hnot hbegins.1.symm

theorem cut_of_isNameStart {c : Char} (cs : List Char) (h : isNameStart c = true) :
    cut c cs = (.word (c :: cs.takeWhile isNameChar), cs.dropWhile isNameChar) := by
  have hblank : ¬ isBlank c = true := by simp [isBlank_of_isNameStart h]
  have hslash : c ≠ '/' := ne_of_class h (by decide)
  have hquote : c ≠ '"' := ne_of_class h (by decide)
  have hdigit : ¬ c.isDigit = true := fun hdigit => ne_of_class h (isNameStart_of_isDigit hdigit) rfl
  rw [cut, if_neg hblank, if_neg fun hcomment => hslash hcomment.1, if_neg hquote, if_neg hdigit,
    operator?_of_isNameStart cs h]
  exact if_pos h

/-- A stretch that a rule makes at the front of a line is what is cut off. -/
theorem exists_cut_of_makes {rule : Rule} {text rest : List Char} (h : Makes rule text rest) :
    ∃ c cs s, text ++ rest = c :: cs ∧ cut c cs = (s, rest) ∧ s.stretch = ⟨rule, text⟩ := by
  cases h with
  | @blank c _ hblank => exact ⟨c, rest, .blank c, rfl, if_pos hblank, rfl⟩
  | comment content =>
      have hblank : ¬ isBlank '/' = true := by decide
      refine ⟨'/', '/' :: content, .comment content, by simp, ?_, rfl⟩
      rw [cut, if_neg hblank, if_pos ⟨rfl, rfl⟩, List.tail_cons]
  | @quoted body _ hquotes hclosed =>
      have hblank : ¬ isBlank '"' = true := by decide
      obtain ⟨ps, hcut, rfl⟩ := cutString_of_closed hquotes hclosed rest
      refine ⟨'"', ps.flatMap Piece.chars ++ '"' :: rest, .quoted ps, by simp, ?_, rfl⟩
      rw [cut, if_neg hblank, if_neg (by simp), if_pos rfl, hcut]
  | @unclosed body hquotes =>
      have hblank : ¬ isBlank '"' = true := by decide
      obtain ⟨s, hcut, hs⟩ := cutString_of_open hquotes
      refine ⟨'"', body, s, by simp, ?_, hs⟩
      rw [cut, if_neg hblank, if_neg (by simp), if_pos rfl, hcut]
  | number hsome hdigits hend =>
      obtain ⟨c, ds, rfl⟩ := List.exists_cons_of_ne_nil hsome
      refine ⟨c, ds ++ rest, .number (c :: ds), rfl, ?_, rfl⟩
      rw [cut_of_isDigit _ (hdigits c List.mem_cons_self)]
      exact cutNumber_of_stops hdigits hend
  | @malformed digits tail _ hsome hdigits htail hchars hmaximal hend =>
      obtain ⟨c, ds, rfl⟩ := List.exists_cons_of_ne_nil hsome
      refine ⟨c, ds ++ (tail ++ rest), .malformed (c :: ds) tail, by simp, ?_, rfl⟩
      rw [cut_of_isDigit _ (hdigits c List.mem_cons_self)]
      exact cutNumber_of_tail hdigits htail hchars hmaximal hend
  | @operator s _ hs hcomment hlongest =>
      have hfound := Symbol.operator?_eq_some_iff.2 ⟨hs, List.prefix_append _ rest, hlongest⟩
      obtain ⟨c, cs, htext, hcut⟩ := cut_of_operator hs hcomment hfound
      exact ⟨c, cs, .operator s, htext, hcut, rfl⟩
  | @word c cs _ hstart hchars hend =>
      refine ⟨c, cs ++ rest, .word (c :: cs), rfl, ?_, rfl⟩
      rw [cut_of_isNameStart _ hstart, hend.takeWhile_append hchars, hend.dropWhile_append hchars]
  | @stray c _ hblank hquote hdigit hstart hoperator =>
      -- A comment cannot begin here, since a slash would be an operator.
      have hslash : ¬ (c = '/' ∧ rest.head? = some '/') := by
        rintro ⟨rfl, -⟩
        exact hoperator .slash (by decide) (by simp [Symbol.text])
      refine ⟨c, rest, .stray c, rfl, ?_, rfl⟩
      rw [cut, if_neg (by simp [hblank]), if_neg hslash, if_neg hquote, if_neg (by simp [hdigit]),
        Symbol.operator?_eq_none_iff.2 hoperator]
      exact if_neg (by simp [hstart])

end Segment

namespace Lexical

open Segment

theorem divides_cutAll (text : List Char) : Divides text ((cutAll text).map stretch) := by
  induction text using cutAll.induct with
  | case1 =>
      rw [cutAll]
      exact .nil
  | case2 c cs ih =>
      rw [cutAll, List.map_cons]
      have hcons := Divides.cons (s := (cut c cs).1.stretch) (makes_cut c cs) ih
      rwa [stretch, cut_chars] at hcons

theorem Divides.eq_cutAll {text : List Char} {stretches : List Stretch} (h : Divides text stretches) :
    stretches = (cutAll text).map stretch := by
  induction h with
  | nil =>
      rw [cutAll]
      rfl
  | @cons s rest stretches hmakes _ ih =>
      obtain ⟨c, cs, segment, htext, hcut, hsegment⟩ := exists_cut_of_makes hmakes
      rw [htext, cutAll, hcut, List.map_cons, hsegment, ← ih]

theorem Makes.text_ne_nil {rule : Rule} {text rest : List Char} (h : Makes rule text rest) : text ≠ [] := by
  cases h with
  | number hsome => exact hsome
  | malformed hsome => exact fun h => hsome (List.append_eq_nil_iff.1 h).1
  | @operator s => exact List.ne_nil_of_length_pos s.text_length_pos
  | _ => exact List.cons_ne_nil _ _

theorem Divides.exists_makes {text : List Char} {stretches : List Stretch} (h : Divides text stretches) :
    ∀ s ∈ stretches, ∃ rest, Makes s.rule s.text rest := by
  induction h with
  | nil => simp
  | @cons _ rest _ hmakes _ ih =>
      intro s hs
      rcases List.mem_cons.1 hs with rfl | hs
      · exact ⟨rest, hmakes⟩
      · exact ih s hs

theorem Divides.flatMap_text {text : List Char} {stretches : List Stretch} (h : Divides text stretches) :
    stretches.flatMap (·.text) = text := by
  induction h with
  | nil => rfl
  | cons _ _ ih => rw [List.flatMap_cons, ih]

/-! ### What the stretches stand for -/

/-- A stretch that does more than to separate others is a token or is complained about as a whole. -/
theorem Makes.lexeme_or_fault {s : Stretch} {rest : List Char} (h : Makes s.rule s.text rest) :
    (s.lexeme? = none ∨ s.fault? = none) ∧ (s.lexeme? = none ∧ s.fault? = none ↔ s.isTrivia = true) := by
  obtain ⟨rule, text⟩ := s
  cases h with
  | number =>
      simp only [Stretch.lexeme?, Stretch.fault?, Stretch.isTrivia]
      split <;> simp
  | word =>
      simp only [Stretch.lexeme?, Stretch.fault?, Stretch.isTrivia]
      split <;> simp
  | _ => simp [Stretch.lexeme?, Stretch.fault?, Stretch.isTrivia]

theorem digitsValue_eq (digits : List Char) : digitsValue digits = decimalValue digits := by
  -- The digits read so far are weighted by those that are still to come.
  suffices h : ∀ n, digits.foldl (fun n c => 10 * n + (c.toNat - '0'.toNat)) n =
      n * 10 ^ digits.length + decimalValue digits by
    have hzero := h 0
    rwa [Nat.zero_mul, Nat.zero_add] at hzero
  induction digits with
  | nil => simp [decimalValue]
  | cons c cs ih =>
      intro n
      rw [List.foldl_cons, ih, decimalValue, List.length_cons, Nat.pow_succ, Nat.add_mul]
      rw [Nat.mul_comm 10 n, Nat.mul_assoc, Nat.mul_comm 10, Nat.add_assoc]
      rfl

end Lexical

namespace Segment

open Lexical

/-- What holds of every segment that is cut off a line and is not seen from its characters. -/
def Proper : Segment → Prop
  | .quoted ps => ∀ p ∈ ps, p.Proper
  | .unclosed ps _ => ∀ p ∈ ps, p.Proper
  | .word cs => ∃ c rest, cs = c :: rest ∧ isNameStart c = true
  | _ => True

theorem proper_cutString (cs : List Char) : (cutString cs).1.Proper := by
  have hproper := Piece.proper_of_mem_pieces cs
  unfold cutString
  split <;> rename_i hpieces <;> rw [hpieces] at hproper <;> exact hproper

theorem proper_cut (c : Char) (cs : List Char) : (cut c cs).1.Proper := by
  unfold cut
  split
  · trivial
  split
  · trivial
  split
  · exact proper_cutString cs
  split
  · unfold cutNumber
    dsimp only
    split <;> trivial
  split
  · trivial
  · split
    · exact ⟨_, _, rfl, ‹_›⟩
    · trivial

theorem proper_of_mem_cutAll {text : List Char} : ∀ s ∈ cutAll text, s.Proper := by
  induction text using cutAll.induct with
  | case1 => simp [cutAll]
  | case2 c cs ih =>
      rw [cutAll]
      intro s hs
      rcases List.mem_cons.1 hs with rfl | hs
      · exact proper_cut c cs
      · exact ih s hs

theorem body_quoted (ps : List Piece) : (quoted ps).stretch.body = ps.flatMap Piece.chars := by
  simp [stretch, Stretch.body, rule, chars]

theorem body_unclosed (ps : List Piece) (dangling : Bool) :
    (unclosed ps dangling).stretch.body = ps.flatMap Piece.chars ++ if dangling then ['\\'] else [] := by
  simp [stretch, Stretch.body, rule, chars]

theorem Proper.lexeme?_eq {s : Segment} (hs : s.Proper) : s.lexeme? = s.stretch.lexeme? := by
  cases s with
  | quoted ps =>
      change _ = some (Lexeme.string (String.ofList (unescape (quoted ps).stretch.body)))
      rw [body_quoted, Piece.unescape_pieces hs]
      rfl
  | number digits =>
      rw [lexeme?, digitsValue_eq]
      rfl
  | word cs =>
      obtain ⟨c, rest, rfl, hstart⟩ := hs
      rw [lexeme?, Symbol.keyword?_eq_find? hstart]
      rfl
  | _ => rfl

theorem Proper.faults_eq {s : Segment} (hs : s.Proper) : s.faults = s.stretch.faults := by
  cases s with
  | quoted ps =>
      change _ = (unknownEscapes (quoted ps).stretch.body).map _ ++ []
      have hinner := Piece.faults_eq_unknownEscapes hs (.inl rfl) 1
      rw [List.append_nil] at hinner
      rw [body_quoted, List.append_nil]
      exact hinner
  | unclosed ps dangling =>
      change _ = (unknownEscapes (unclosed ps dangling).stretch.body).map _ ++ [(0, LexicalFault.unterminated)]
      rw [body_unclosed, faults]
      cases dangling with
      | false => rw [Piece.faults_eq_unknownEscapes hs (.inl rfl) 1]; rfl
      | true => rw [Piece.faults_eq_unknownEscapes hs (.inr rfl) 1]; rfl
  | number digits =>
      rw [faults, digitsValue_eq]
      change _ = List.map (0, ·) (Option.toList
        (if decimalValue digits ≤ maxLiteral then none else some (LexicalFault.outOfRange (String.ofList digits))))
      split <;> rfl
  | _ => rfl

theorem place_map_stretch (column : Nat) (segments : List Segment) :
    Stretch.place column (segments.map stretch) = (place column segments).map fun (start, s) => (start, s.stretch) := by
  induction segments generalizing column with
  | nil => rfl
  | cons s rest ih =>
      rw [List.map_cons, Stretch.place, ih]
      rfl

end Segment

namespace Lexical

open Segment

/-- What is scanned on a line is what the stretches of its division stand for. -/
theorem Divides.ofLine_eq {text : List Char} {stretches : List Stretch} (h : Divides text stretches) (line : Nat) :
    Scan.ofLine line text = scanOf line stretches := by
  have hproper : ∀ placed ∈ place 0 (cutAll text), placed.2.Proper := fun placed hplaced =>
    proper_of_mem_cutAll _ (bounds_of_mem_place hplaced).1
  rw [h.eq_cutAll]
  simp only [Scan.ofLine, scanOf, place_map_stretch, List.flatMap_map, Scan.mk.injEq]
  rw [List.flatMap_def, List.flatMap_def, List.flatMap_def, List.flatMap_def]
  constructor
  · refine congrArg List.flatten (List.map_congr_left fun placed hplaced => ?_)
    rw [Scan.ofSegment, (hproper placed hplaced).lexeme?_eq]
  · refine congrArg List.flatten (List.map_congr_left fun placed hplaced => ?_)
    rw [Scan.ofSegment, (hproper placed hplaced).faults_eq]

/-- The rules divide every line in exactly one way, into stretches that are not empty and leave no gap. A
stretch is a token, is complained about as a whole, or only separates others. Scanning lines gives the
tokens of their stretches in order, and the complaints about them. -/
theorem scan_follows_rules :
    ∃ divide : List Char → List Stretch,
      (∀ text stretches, Divides text stretches ↔ stretches = divide text) ∧
      (∀ text, (divide text).flatMap (·.text) = text ∧ ∀ s ∈ divide text, s.text ≠ [] ∧
        (s.lexeme? = none ∨ s.fault? = none) ∧ (s.lexeme? = none ∧ s.fault? = none ↔ s.isTrivia = true)) ∧
      ∀ (file : String) (lines : List String),
        (Scan.ofLines lines).tokens = (lines.zipIdx.flatMap fun (text, line) =>
          (scanOf line (divide text.toList)).tokens) ∧
        (Scan.ofLines lines).diagnostics file = (lines.zipIdx.flatMap fun (text, line) =>
          (scanOf line (divide text.toList)).diagnostics file) := by
  refine ⟨fun text => (cutAll text).map stretch, fun text stretches => ?_, fun text => ?_, fun file lines => ?_⟩
  · constructor
    · exact Divides.eq_cutAll
    · rintro rfl
      exact divides_cutAll text
  · refine ⟨(divides_cutAll text).flatMap_text, fun s hs => ?_⟩
    obtain ⟨rest, hmakes⟩ := (divides_cutAll text).exists_makes s hs
    exact ⟨hmakes.text_ne_nil, hmakes.lexeme_or_fault⟩
  · have hline (line : Nat) (text : List Char) := (divides_cutAll text).ofLine_eq line
    simp only [Scan.ofLines, Scan.diagnostics, hline, List.flatMap_map, List.map_flatMap, and_self]

end Lexical

end Lai
