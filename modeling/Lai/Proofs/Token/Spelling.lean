import Lai.Proofs.Token.Joining
/-!
# Spelling and scanning

Every lexeme that scanning can give can be written, numbers with any zeros in front and texts with any
characters in them. Written lexemes that stand one space apart are scanned as what they were, each at the
column where it was written.
-/

namespace Lai

namespace Lexical

/-- A character as it is written inside a literal. -/
def spellChar (c : Char) : List Char :=
  if c = '"' then ['\\', '"']
  else if c = '\\' then ['\\', '\\']
  else if c = '\n' then ['\\', 'n']
  else if c = '\t' then ['\\', 't']
  else [c]

/-- The characters spell the lexeme. -/
inductive Spelled : Lexeme → List Char → Prop where
  | symbol (s : Symbol) : Spelled (.symbol s) s.text.toList
  | identifier {c : Char} {cs : List Char} (hstart : isNameStart c = true) (hchars : ∀ d ∈ cs, isNameChar d = true)
    (hkeyword : ∀ s : Symbol, s.text.toList ≠ c :: cs) : Spelled (.identifier (String.ofList (c :: cs))) (c :: cs)
  | integer (zeros : Nat) {n : Nat} (hn : n ≤ 2147483647) :
    Spelled (.integer (Int32.ofNat n)) (List.replicate zeros '0' ++ Nat.toDigits 10 n)
  | string (text : String) : Spelled (.string text) ('"' :: text.toList.flatMap spellChar ++ ['"'])

/-- The tokens of spellings on a line that stand one space apart, the first of them at `column`. -/
def spaced (line column : Nat) : List (Lexeme × List Char) → List Token
  | [] => []
  | (x, text) :: rest => ⟨x, ⟨line, column⟩⟩ :: spaced line (column + text.length + 1) rest

/-! ### Words and numbers -/

theorem exists_wordStart {s : Symbol} (hs : s.isWord = true) :
    ∃ c cs, s.text.toList = c :: cs ∧ isNameStart c = true := by
  cases s <;> first | exact absurd hs (by decide) | exact ⟨_, _, rfl, by decide⟩

theorem makes_symbol {s : Symbol} (hs : s.isWord = false) : Makes (.operator s) s.text.toList [] := by
  have hslashes : (['/', '/'].isPrefixOf s.text.toList) = false := by
    cases s <;> decide
  refine .operator hs ?_ fun other _ hbegins => ?_
  · rw [List.append_nil, ← List.isPrefixOf_iff_prefix, hslashes]
    exact Bool.false_ne_true
  · rw [List.append_nil] at hbegins
    exact hbegins.length_le

theorem makes_word {s : Symbol} (hs : s.isWord = true) : Makes .word s.text.toList [] := by
  obtain ⟨c, cs, htext, hstart⟩ := exists_wordStart hs
  have hchars := List.all_eq_true.1 hs
  rw [htext] at hchars ⊢
  exact .word hstart (fun d hd => hchars d (List.mem_cons_of_mem _ hd)) (stops_nil _)

theorem makes_numeral (zeros n : Nat) : Makes .number (List.replicate zeros '0' ++ Nat.toDigits 10 n) [] := by
  refine .number (fun h => Nat.toDigits_ne_nil (List.append_eq_nil_iff.1 h).2) ?_ (stops_nil _)
  intro c hc
  rcases List.mem_append.1 hc with hzero | hdigit
  · rw [List.eq_of_mem_replicate hzero]
    decide
  · exact Nat.isDigit_of_mem_toDigits (by decide) (by decide) hdigit

theorem decimalValue_numeral (zeros n : Nat) : decimalValue (List.replicate zeros '0' ++ Nat.toDigits 10 n) = n := by
  have hdigits (digits : List Char) : decimalValue digits = Nat.ofDigitChars 10 digits 0 := (digitsValue_eq digits).symm
  rw [hdigits, Nat.ofDigitChars_append, Nat.ofDigitChars_replicate_zero, Nat.mul_zero,
    Nat.ofDigitChars_toDigits (by decide) (by decide)]

/-! ### Literals -/

/-- The piece that stands for a character. -/
def pieceFor (c : Char) : Piece :=
  if c = '"' then .escape '"'
  else if c = '\\' then .escape '\\'
  else if c = '\n' then .escape 'n'
  else if c = '\t' then .escape 't'
  else .plain c

theorem chars_pieceFor (c : Char) : (pieceFor c).chars = spellChar c := by
  unfold pieceFor spellChar
  repeat' split
  all_goals rfl

theorem value_pieceFor (c : Char) : (pieceFor c).value = c := by
  unfold pieceFor
  repeat' split
  all_goals simp_all [Piece.value]

theorem known_pieceFor (c : Char) : (pieceFor c).known = true := by
  unfold pieceFor
  repeat' split
  all_goals rfl

theorem proper_pieceFor (c : Char) : (pieceFor c).Proper := by
  unfold pieceFor
  repeat' split
  all_goals simp_all [Piece.Proper]

/-- The literal that a text is written as. -/
def literalFor (text : String) : Segment :=
  .quoted (text.toList.map pieceFor)

theorem proper_literalFor (text : String) : ∀ p ∈ text.toList.map pieceFor, p.Proper := by
  intro p hp
  obtain ⟨c, -, rfl⟩ := List.mem_map.1 hp
  exact proper_pieceFor c

theorem stretch_literalFor (text : String) :
    (literalFor text).stretch = ⟨.quoted, '"' :: text.toList.flatMap spellChar ++ ['"']⟩ := by
  simp only [literalFor, Segment.stretch, Segment.rule, Segment.chars, List.flatMap_map, chars_pieceFor]

theorem lexeme?_literalFor (text : String) : (literalFor text).lexeme? = some (.string text) := by
  have hvalue : (text.toList.map pieceFor).map Piece.value = text.toList := by
    rw [List.map_map]
    exact List.map_id'' value_pieceFor _
  rw [literalFor, Segment.lexeme?, hvalue, String.ofList_toList]

theorem faults_literalFor (text : String) : (literalFor text).faults = [] := by
  refine (Piece.faults_eq_nil_iff 1 _).2 ?_
  simp [known_pieceFor]

/-! ### Spelled lexemes -/

/-- What is spelled is a stretch of its own, which stands for the lexeme. -/
theorem Spelled.exists_makes {x : Lexeme} {text : List Char} (h : Spelled x text) :
    ∃ s : Stretch, s.text = text ∧ Makes s.rule s.text [] ∧ s.rule ≠ .comment ∧ s.rule ≠ .unclosed ∧
      s.lexeme? = some x ∧ s.faults = [] := by
  cases h with
  | symbol s =>
      cases hs : s.isWord with
      | true =>
          refine ⟨⟨.word, s.text.toList⟩, rfl, makes_word hs, by simp, by simp, ?_, rfl⟩
          simp only [Stretch.lexeme?, Symbol.find?_text]
      | false => exact ⟨⟨.operator s, s.text.toList⟩, rfl, makes_symbol hs, by simp, by simp, rfl, rfl⟩
  | @identifier c cs hstart hchars hkeyword =>
      have hnone : Symbol.all.find? (·.text.toList = c :: cs) = none :=
        List.find?_eq_none.2 fun s _ => by simpa using hkeyword s
      refine ⟨⟨.word, c :: cs⟩, rfl, .word hstart hchars (stops_nil _), by simp, by simp, ?_, rfl⟩
      simp only [Stretch.lexeme?, hnone]
  | integer zeros hn =>
      refine ⟨⟨.number, _⟩, rfl, makes_numeral zeros _, by simp, by simp, ?_, ?_⟩
      · simp only [Stretch.lexeme?, decimalValue_numeral, if_pos hn]
      · simp [Stretch.faults, Stretch.inner, Stretch.fault?, decimalValue_numeral, hn]
  | string text =>
      have hproper : (literalFor text).Proper := proper_literalFor text
      have hinside := Piece.inside_of_proper (proper_literalFor text)
      have hmakes : Makes .quoted (literalFor text).chars [] := .quoted hinside.1 hinside.2
      refine ⟨(literalFor text).stretch, congrArg Stretch.text (stretch_literalFor text), hmakes, ?_, ?_, ?_, ?_⟩
      · exact Rule.noConfusion
      · exact Rule.noConfusion
      · rw [← hproper.lexeme?_eq, lexeme?_literalFor]
      · rw [← hproper.faults_eq, faults_literalFor]

theorem spaced_add (line column n : Nat) (spelled : List (Lexeme × List Char)) :
    spaced line (column + n) spelled = (spaced line column spelled).map fun t => ⟨t.lexeme, t.loc.shift n⟩ := by
  induction spelled generalizing column with
  | nil => rfl
  | cons p rest ih =>
      have hcolumn : column + n + p.2.length + 1 = column + p.2.length + 1 + n := by omega
      rw [spaced, spaced, List.map_cons, hcolumn, ih]
      rfl

end Lexical

namespace Scan

open Lexical

theorem ofLine_of_spelled (line : Nat) {x : Lexeme} {text : List Char} (h : Spelled x text) :
    ofLine line text = ⟨[⟨x, ⟨line, 0⟩⟩], []⟩ ∧
    ∀ rest, ofLine line (text ++ ' ' :: rest) =
      append ⟨[⟨x, ⟨line, 0⟩⟩], []⟩ ((ofLine line rest).shift (text.length + 1)) := by
  obtain ⟨s, rfl, hmakes, hcomment, hunclosed, hlexeme, hfaults⟩ := h.exists_makes
  have hdivides : Divides (s.text ++ []) [s] := .cons hmakes .nil
  rw [List.append_nil] at hdivides
  have hscan : ofLine line s.text = ⟨[⟨x, ⟨line, 0⟩⟩], []⟩ := by
    rw [hdivides.ofLine_eq]
    simp [scanOf, Stretch.place, hlexeme, hfaults]
  refine ⟨hscan, fun rest => ?_⟩
  rw [← hscan]
  exact hdivides.ofLine_append_cons (by simpa using hcomment) (by simpa using hunclosed) (by decide) line rest

theorem ofLine_spellings (line : Nat) (spelled : List (Lexeme × List Char)) (h : ∀ p ∈ spelled, Spelled p.1 p.2) :
    ofLine line ([' '].intercalate (spelled.map Prod.snd)) = ⟨spaced line 0 spelled, []⟩ := by
  induction spelled with
  | nil => exact Divides.nil.ofLine_eq line
  | cons p rest ih =>
      have hp := ofLine_of_spelled line (h p List.mem_cons_self)
      cases rest with
      | nil =>
          rw [List.map_singleton, List.intercalate_singleton]
          exact hp.1
      | cons q rest =>
          have hlater := ih fun r hr => h r (List.mem_cons_of_mem _ hr)
          have hspaced : spaced line 0 (p :: q :: rest) = ⟨p.1, ⟨line, 0⟩⟩ ::
              (spaced line 0 (q :: rest)).map fun t => ⟨t.lexeme, t.loc.shift (p.2.length + 1)⟩ := by
            rw [← spaced_add, ← Nat.add_assoc]
            rfl
          rw [List.map_cons, List.intercalate_cons_of_ne_nil (by simp), List.append_assoc, List.singleton_append, hp.2,
            hlater, hspaced]
          rfl

/-- Spelled lexemes that stand one space apart are scanned without complaint as what they are, each at the
column where its spelling begins. -/
theorem scan_undoes_spelling (spelled : List (Lexeme × List Char)) (h : ∀ p ∈ spelled, Spelled p.1 p.2) :
    ofLines [String.ofList ([' '].intercalate (spelled.map Prod.snd))] = ⟨spaced 0 0 spelled, []⟩ := by
  have hline := ofLine_spellings 0 spelled h
  simp only [ofLines, List.zipIdx_singleton, List.map_singleton, List.flatMap_singleton, String.toList_ofList, hline]

def awkward : List (Lexeme × List Char) :=
  [(.identifier (String.ofList ['i', 'f', 'f']), ['i', 'f', 'f']),
   (.symbol .slash, Symbol.slash.text.toList),
   (.symbol .slash, Symbol.slash.text.toList),
   (.string "\\\"//", '"' :: "\\\"//".toList.flatMap spellChar ++ ['"']),
   (.integer (Int32.ofNat 7), List.replicate 2 '0' ++ Nat.toDigits 10 7)]

/-- A name that begins like a keyword, two slashes, a literal whose text looks like an escape, a quote and a
comment, and a number with zeros in front. -/
theorem scan_undoes_awkward :
    (∀ p ∈ awkward, Spelled p.1 p.2) ∧
    ofLines ["iff / / \"\\\\\\\"//\" 007"] =
      ⟨[⟨.identifier "iff", ⟨0, 0⟩⟩, ⟨.symbol .slash, ⟨0, 4⟩⟩, ⟨.symbol .slash, ⟨0, 6⟩⟩,
        ⟨.string "\\\"//", ⟨0, 8⟩⟩, ⟨.integer 7, ⟨0, 17⟩⟩], []⟩ := by
  have hspelled : ∀ p ∈ awkward, Spelled p.1 p.2 := by
    simp only [awkward, List.forall_mem_cons, List.not_mem_nil, false_implies, implies_true, and_true]
    refine ⟨.identifier (by decide) (by simp; decide) (fun s => ?_), .symbol _, .symbol _, .string _, .integer 2 (by decide)⟩
    cases s <;> decide
  refine ⟨hspelled, ?_⟩
  have htext : String.ofList ([' '].intercalate (awkward.map Prod.snd)) = "iff / / \"\\\\\\\"//\" 007" := by
    decide +kernel
  rw [← htext, scan_undoes_spelling awkward hspelled]
  decide +kernel

end Scan

end Lai
