import Mathlib.Data.List.Chain
import Lai.C.Line
import Lai.Proofs.C.Scanner
import Lai.Proofs.Text.Bytes
/-!
# String literals of C are read back

How C reads a string literal, byte by byte: a backslash opens an escape, which is a letter or other mark
from a table or else one to three octal digits, as many as there are, and the first quote that is not
escaped ends the literal. Before that, trigraphs have been replaced and lines that end with a backslash
joined. The literal of a text goes through all of this as it stands and is read as the bytes of the text.
-/

namespace Lai.C

open Text

/-! ### Reading a literal -/

/-- The byte that a mark stands for behind a backslash. -/
def simpleEscape? (b : UInt8) : Option UInt8 :=
  [('\''.toUInt8, 0x27), ('"'.toUInt8, 0x22), ('?'.toUInt8, 0x3f), ('\\'.toUInt8, 0x5c), ('a'.toUInt8, 0x07),
    ('b'.toUInt8, 0x08), ('f'.toUInt8, 0x0c), ('n'.toUInt8, 0x0a), ('r'.toUInt8, 0x0d), ('t'.toUInt8, 0x09),
    ('v'.toUInt8, 0x0b)].lookup b

def isOctalDigit (b : UInt8) : Bool :=
  '0'.toNat ≤ b.toNat && b.toNat ≤ '7'.toNat

/-- The number that digits denote in a base. -/
def valueOf (base : Nat) (digits : List UInt8) : Nat :=
  digits.foldl (fun n b => base * n + (b.toNat - '0'.toNat)) 0

/-- The octal digits that belong to an escape: up to three, as many as there are. -/
def octalRun (text : List UInt8) : List UInt8 :=
  (text.take 3).takeWhile isOctalDigit

/-- Reads an escape behind its backslash: the byte that it stands for, and what follows it. -/
def readEscape : List UInt8 → Option (UInt8 × List UInt8)
  | [] => none
  | b :: rest =>
    if octalRun (b :: rest) = [] then (simpleEscape? b).map fun value => (value, rest)
    else if valueOf 8 (octalRun (b :: rest)) < UInt8.size then
      some (UInt8.ofNat (valueOf 8 (octalRun (b :: rest))), (b :: rest).drop (octalRun (b :: rest)).length)
    else none

theorem length_of_readEscape {text rest : List UInt8} {value : UInt8} (h : readEscape text = some (value, rest)) :
    rest.length < text.length := by
  unfold readEscape at h
  split at h
  · simp at h
  split at h
  · obtain ⟨_, -, hpair⟩ := Option.map_eq_some_iff.1 h
    rw [← (Prod.mk.inj hpair).2]
    exact Nat.lt_succ_self _
  split at h
  · next hdigits _ =>
      rw [← (Prod.mk.inj (Option.some.inj h)).2, List.length_drop]
      have hpos := List.length_pos_iff.2 hdigits
      simp only [List.length_cons] at hpos ⊢
      omega
  · simp at h

/-- Reads the inside of a literal: the bytes that it stands for, and what follows the quote that ends it. -/
def readInside : List UInt8 → Option (List UInt8 × List UInt8)
  | [] => none
  | b :: rest =>
    if b = '"'.toUInt8 then some ([], rest)
    else if b = '\\'.toUInt8 then
      match _hescape : readEscape rest with
      | none => none
      | some (value, more) => (readInside more).map fun x => (value :: x.1, x.2)
    else if b = '\n'.toUInt8 then none
    else (readInside rest).map fun x => (b :: x.1, x.2)
termination_by text => text.length
decreasing_by
  · exact Nat.lt_succ_of_lt (length_of_readEscape ‹_›)
  · exact Nat.lt_succ_self _

/-- Reads a literal from its opening quote on. -/
def readLiteral : List UInt8 → Option (List UInt8 × List UInt8)
  | [] => none
  | b :: rest => if b = '"'.toUInt8 then readInside rest else none

/-! ### What happens to a text before it is read -/

/-- The byte that a mark stands for behind two question marks. -/
def trigraph? (b : UInt8) : Option UInt8 :=
  [('='.toUInt8, '#'.toUInt8), ('/'.toUInt8, '\\'.toUInt8), ('\''.toUInt8, '^'.toUInt8), ('('.toUInt8, '['.toUInt8),
    (')'.toUInt8, ']'.toUInt8), ('!'.toUInt8, '|'.toUInt8), ('<'.toUInt8, '{'.toUInt8), ('>'.toUInt8, '}'.toUInt8),
    ('-'.toUInt8, '~'.toUInt8)].lookup b

def replaceTrigraphs : List UInt8 → List UInt8
  | first :: second :: third :: rest =>
    match trigraph? third with
    | some b =>
      if first = '?'.toUInt8 ∧ second = '?'.toUInt8 then b :: replaceTrigraphs rest
      else first :: replaceTrigraphs (second :: third :: rest)
    | none => first :: replaceTrigraphs (second :: third :: rest)
  | text => text

/-- Joins every line that ends with a backslash to the next one. -/
def spliceLines : List UInt8 → List UInt8 :=
  joinAt '\\'.toUInt8 '\n'.toUInt8

/-- Two bytes that may follow each other where there are no trigraphs. -/
def NotBothQuestions (x y : UInt8) : Prop :=
  ¬ (x = '?'.toUInt8 ∧ y = '?'.toUInt8)

theorem replaceTrigraphs_eq_self {text : List UInt8} (h : text.IsChain NotBothQuestions) :
    replaceTrigraphs text = text := by
  fun_induction replaceTrigraphs text with
  | case1 first second third rest b _ hboth => exact absurd hboth (List.isChain_cons_cons.1 h).1
  | case2 first second third rest b _ _ ih => rw [ih (List.isChain_cons_cons.1 h).2]
  | case3 first second third rest _ ih => rw [ih (List.isChain_cons_cons.1 h).2]
  | case4 => rfl

/-! ### Reading the literal of a text -/

/-- What has been read with some bytes in front. -/
def inFront (front : List UInt8) (x : List UInt8 × List UInt8) : List UInt8 × List UInt8 :=
  (front ++ x.1, x.2)

theorem readInside_plain {run : List UInt8} (h : ∀ b ∈ run, b ≠ '"'.toUInt8 ∧ b ≠ '\\'.toUInt8 ∧ b ≠ '\n'.toUInt8)
    (rest : List UInt8) : readInside (run ++ rest) = (readInside rest).map (inFront run) := by
  induction run with
  | nil => exact Option.map_id'.symm
  | cons b run ih =>
      obtain ⟨hquote, hescape, hbreak⟩ := h b List.mem_cons_self
      rw [List.cons_append, readInside, if_neg hquote, if_neg hescape, if_neg hbreak,
        ih fun d hd => h d (List.mem_cons_of_mem b hd), Option.map_map]
      rfl

theorem readInside_escape {text rest : List UInt8} {value : UInt8} (h : readEscape text = some (value, rest)) :
    readInside ('\\'.toUInt8 :: text) = (readInside rest).map (inFront [value]) := by
  rw [readInside, if_neg (by decide), if_pos rfl]
  split
  · next hnone => simp [h] at hnone
  · next hsome =>
      rw [h, Option.some.injEq, Prod.mk.injEq] at hsome
      rw [hsome.1, hsome.2]
      rfl

theorem readEscape_simple {b value : UInt8} (hdigit : isOctalDigit b = false) (h : simpleEscape? b = some value)
    (rest : List UInt8) : readEscape (b :: rest) = some (value, rest) := by
  have hrun : octalRun (b :: rest) = [] := by simp [octalRun, hdigit]
  rw [readEscape, if_pos hrun, h, Option.map_some]

/-- Three octal digits are all that is read, whatever follows them. -/
theorem readEscape_octal {x y z : UInt8} (hx : isOctalDigit x = true) (hy : isOctalDigit y = true)
    (hz : isOctalDigit z = true) (h : valueOf 8 [x, y, z] < UInt8.size) (rest : List UInt8) :
    readEscape (x :: y :: z :: rest) = some (UInt8.ofNat (valueOf 8 [x, y, z]), rest) := by
  have hrun : octalRun (x :: y :: z :: rest) = [x, y, z] := by simp [octalRun, hx, hy, hz]
  rw [readEscape, hrun, if_neg (List.cons_ne_nil _ _), if_pos h]
  rfl

/-- The bytes that a character is written as inside a literal. -/
def literalBytes (c : Char) : List UInt8 :=
  (literalChar c).flatMap String.utf8EncodeChar

theorem bytes_stringLiteral (s : String) :
    bytes (stringLiteral s) = '"'.toUInt8 :: (s.toList.flatMap literalBytes ++ ['"'.toUInt8]) := by
  rw [stringLiteral, bytes_ofList, List.flatMap_append, List.flatMap_cons, List.flatMap_assoc]
  rfl

/-- A byte that moves the cursor or does other things instead of showing something. Line breaks are among
these. -/
def isControl (b : UInt8) : Bool :=
  b.toNat < 0x20 || b.toNat == 0x7f

/-- The ways in which a character is written inside a literal. -/
inductive WrittenAs (c : Char) : List UInt8 → Prop where
  | simple {mark : UInt8} (hascii : c.toNat < 128) (hdigit : isOctalDigit mark = false)
      (hmark : simpleEscape? mark = some c.toUInt8) (hshown : isControl mark = false) :
      WrittenAs c ['\\'.toUInt8, mark]
  | octal {x y z : UInt8} (hascii : c.toNat < 128) (hx : isOctalDigit x = true) (hy : isOctalDigit y = true)
      (hz : isOctalDigit z = true) (hvalue : valueOf 8 [x, y, z] = c.toNat) :
      WrittenAs c ['\\'.toUInt8, x, y, z]
  | plain (hbytes : ∀ b ∈ String.utf8EncodeChar c,
      b ≠ '"'.toUInt8 ∧ b ≠ '\\'.toUInt8 ∧ b ≠ '?'.toUInt8 ∧ isControl b = false) :
      WrittenAs c (String.utf8EncodeChar c)

/-- A character below 128 that is written in octal has all three digits. -/
theorem writtenAs_octal {c : Char} (h : c.toNat < 128) :
    WrittenAs c ('\\'.toUInt8 :: (Text.digits 8 3 c.toNat).flatMap String.utf8EncodeChar) := by
  have hall : ∀ n : Fin 128,
      let digit (k : Nat) := UInt8.ofNat ('0'.toNat + k % 8)
      (Text.digits 8 3 n.val).flatMap String.utf8EncodeChar = [digit (n.val / 64), digit (n.val / 8), digit n.val] ∧
        isOctalDigit (digit (n.val / 64)) = true ∧ isOctalDigit (digit (n.val / 8)) = true ∧
        isOctalDigit (digit n.val) = true ∧ valueOf 8 [digit (n.val / 64), digit (n.val / 8), digit n.val] = n.val := by
    decide +kernel
  obtain ⟨hdigits, hx, hy, hz, hvalue⟩ := hall ⟨c.toNat, h⟩
  rw [hdigits]
  exact .octal h hx hy hz hvalue

theorem toUInt8_ne {c d : Char} (hc : c.toNat < 128) (hd : d.toNat < 128) (h : c ≠ d) : c.toUInt8 ≠ d.toUInt8 := by
  intro heq
  have hcode := congrArg UInt8.toNat heq
  rw [toNat_toUInt8 hc, toNat_toUInt8 hd] at hcode
  exact h (Char.toNat_inj.1 hcode)

theorem writtenAs_self {c : Char} (hquote : c ≠ '"') (hescape : c ≠ '\\') (hquestion : c ≠ '?')
    (hcontrol : ¬ (c.toNat < 0x20 ∨ c.toNat = 0x7f)) : WrittenAs c (String.utf8EncodeChar c) := by
  refine .plain fun b hb => ⟨ne_of_mem_utf8EncodeChar (by decide) hquote hb, ne_of_mem_utf8EncodeChar (by decide) hescape hb,
    ne_of_mem_utf8EncodeChar (by decide) hquestion hb, ?_⟩
  by_cases hascii : c.toNat < 128
  · rw [utf8EncodeChar_of_lt hascii, List.mem_singleton] at hb
    rw [hb]
    simpa [isControl, toNat_toUInt8 hascii] using hcontrol
  · have hhigh := le_toNat_of_mem_utf8EncodeChar (Nat.le_of_not_lt hascii) hb
    simp only [isControl, Bool.or_eq_false_iff, decide_eq_false_iff_not, beq_eq_false_iff_ne]
    omega

theorem writtenAs_literalBytes (c : Char) : WrittenAs c (literalBytes c) := by
  unfold literalBytes literalChar
  -- five characters have escapes of their own
  iterate 5
    split
    · next hc =>
        subst hc
        exact .simple (by decide) (by decide) rfl (by decide)
  split
  · next hcontrol => exact writtenAs_octal (by omega)
  · next hescape hquote _ _ hquestion hcontrol =>
      rw [List.flatMap_singleton]
      exact writtenAs_self hquote hescape hquestion hcontrol

theorem WrittenAs.readInside_append {c : Char} {text : List UInt8} (h : WrittenAs c text) (rest : List UInt8) :
    readInside (text ++ rest) = (readInside rest).map (inFront (String.utf8EncodeChar c)) := by
  cases h with
  | simple hascii hdigit hmark _ =>
      rw [utf8EncodeChar_of_lt hascii]
      exact readInside_escape (readEscape_simple hdigit hmark rest)
  | @octal x y z hascii hx hy hz hvalue =>
      have hsize : valueOf 8 [x, y, z] < UInt8.size := hvalue ▸ Nat.lt_of_lt_of_le hascii (by decide)
      have hbyte : UInt8.ofNat (valueOf 8 [x, y, z]) = c.toUInt8 := by rw [hvalue]; rfl
      rw [utf8EncodeChar_of_lt hascii, ← hbyte]
      exact readInside_escape (readEscape_octal hx hy hz hsize rest)
  | plain hbytes =>
      refine readInside_plain (fun b hb => ?_) rest
      obtain ⟨hquote, hescape, _, hcontrol⟩ := hbytes b hb
      exact ⟨hquote, hescape, by rintro rfl; exact absurd hcontrol (by decide)⟩

theorem readLiteral_stringLiteral_append (s : String) (rest : List UInt8) :
    readLiteral (bytes (stringLiteral s) ++ rest) = some (bytes s, rest) := by
  have hinside (cs : List Char) : readInside (cs.flatMap literalBytes ++ '"'.toUInt8 :: rest) =
      some (cs.flatMap String.utf8EncodeChar, rest) := by
    induction cs with
    | nil => rw [List.flatMap_nil, List.nil_append, readInside, if_pos rfl, List.flatMap_nil]
    | cons c cs ih =>
        rw [List.flatMap_cons, List.append_assoc, (writtenAs_literalBytes c).readInside_append, ih, List.flatMap_cons]
        rfl
  rw [bytes_stringLiteral, bytes_eq_flatMap, List.cons_append, List.append_assoc, readLiteral, if_pos rfl]
  exact hinside s.toList

/-! ### What the text of a literal is made of -/

theorem isControl_of_isOctalDigit {b : UInt8} (h : isOctalDigit b = true) : isControl b = false := by
  simp only [isOctalDigit, Bool.and_eq_true, decide_eq_true_eq, Char.reduceToNat] at h
  simp only [isControl, Bool.or_eq_false_iff, decide_eq_false_iff_not, beq_eq_false_iff_ne]
  omega

theorem question_ne_of_isOctalDigit {b : UInt8} (h : isOctalDigit b = true) : b ≠ '?'.toUInt8 := by
  rintro rfl
  exact absurd h (by decide)

theorem WrittenAs.isControl_eq_false {c : Char} {text : List UInt8} (h : WrittenAs c text) :
    ∀ b ∈ text, isControl b = false := by
  have hescape : isControl '\\'.toUInt8 = false := by decide
  cases h with
  | simple _ _ _ hshown => simp [hescape, hshown]
  | octal _ hx hy hz _ =>
      simp [hescape, isControl_of_isOctalDigit hx, isControl_of_isOctalDigit hy, isControl_of_isOctalDigit hz]
  | plain hbytes => exact fun b hb => (hbytes b hb).2.2.2

theorem isChain_of_forall_ne {text : List UInt8} (h : ∀ b ∈ text, b ≠ '?'.toUInt8) : text.IsChain NotBothQuestions := by
  rw [List.isChain_iff_forall_rel_of_append_cons_cons]
  rintro x y front rest rfl ⟨rfl, -⟩
  exact h '?'.toUInt8 (by simp) rfl

/-- No two question marks stand side by side, also not where the text follows another such text. -/
structure Separated (text : List UInt8) : Prop where
  isChain : text.IsChain NotBothQuestions
  head_ne : ∀ b ∈ text.head?, b ≠ '?'.toUInt8

namespace Separated

theorem of_forall_ne {text : List UInt8} (h : ∀ b ∈ text, b ≠ '?'.toUInt8) : Separated text :=
  ⟨isChain_of_forall_ne h, fun b hb => h b (List.mem_of_mem_head? hb)⟩

theorem append {front rest : List UInt8} (h : Separated front) (h' : Separated rest) : Separated (front ++ rest) where
  isChain := List.isChain_append.2 ⟨h.isChain, h'.isChain, fun _ _ y hy hboth => h'.head_ne y hy hboth.2⟩
  head_ne := by
    intro b hb
    rw [List.head?_append, Option.mem_def, Option.or_eq_some_iff] at hb
    rcases hb with hb | ⟨-, hb⟩
    · exact h.head_ne b hb
    · exact h'.head_ne b hb

end Separated

/-- A question mark only stands behind the backslash of its own escape. -/
theorem WrittenAs.separated {c : Char} {text : List UInt8} (h : WrittenAs c text) : Separated text := by
  have hescape : '\\'.toUInt8 ≠ '?'.toUInt8 := by decide
  cases h with
  | simple => exact ⟨List.isChain_pair.2 fun hboth => hescape hboth.1, by simp [hescape]⟩
  | octal _ hx hy hz _ =>
      apply Separated.of_forall_ne
      simp [hescape, question_ne_of_isOctalDigit hx, question_ne_of_isOctalDigit hy, question_ne_of_isOctalDigit hz]
  | plain hbytes => exact .of_forall_ne fun b hb => (hbytes b hb).2.2.1

theorem separated_stringLiteral (s : String) : Separated (bytes (stringLiteral s)) := by
  have hquote : Separated ['"'.toUInt8] := .of_forall_ne (List.forall_mem_singleton.2 (by decide))
  have hinside (cs : List Char) : Separated (cs.flatMap literalBytes) := by
    induction cs with
    | nil => exact .of_forall_ne (by simp)
    | cons c cs ih => exact (writtenAs_literalBytes c).separated.append ih
  rw [bytes_stringLiteral]
  exact hquote.append ((hinside s.toList).append hquote)

theorem isControl_of_mem_stringLiteral {s : String} {b : UInt8} (h : b ∈ bytes (stringLiteral s)) :
    isControl b = false := by
  have hquote : isControl '"'.toUInt8 = false := by decide
  rw [bytes_stringLiteral, List.mem_cons, List.mem_append, List.mem_singleton] at h
  rcases h with rfl | hinside | rfl
  · exact hquote
  · obtain ⟨c, -, hb⟩ := List.mem_flatMap.1 hinside
    exact (writtenAs_literalBytes c).isControl_eq_false b hb
  · exact hquote

/-- The literal of a text is read to its end as the bytes of the text. It has no line breaks or other control
bytes and no two question marks side by side, so neither trigraphs nor joined lines are found in it. -/
theorem stringLiteral_reads_as_bytes (s : String) :
    readLiteral (bytes (stringLiteral s)) = some (bytes s, []) ∧
    (∀ b ∈ bytes (stringLiteral s), isControl b = false) ∧
    ¬ ['?'.toUInt8, '?'.toUInt8] <:+: bytes (stringLiteral s) ∧
    spliceLines (replaceTrigraphs (bytes (stringLiteral s))) = bytes (stringLiteral s) := by
  have hchain := (separated_stringLiteral s).isChain
  refine ⟨?_, fun b hb => isControl_of_mem_stringLiteral hb, fun hpair => ?_, ?_⟩
  · have hread := readLiteral_stringLiteral_append s []
    rwa [List.append_nil] at hread
  · have hboth := List.IsChain.infix hchain hpair
    exact List.isChain_pair.1 hboth ⟨rfl, rfl⟩
  · rw [replaceTrigraphs_eq_self hchain]
    refine joinAt_eq_self fun hbreak => ?_
    exact absurd (isControl_of_mem_stringLiteral hbreak) (by decide)

example : stringLiteral "\x011??" = "\"\\0011\\?\\?\"" := by decide

end Lai.C
