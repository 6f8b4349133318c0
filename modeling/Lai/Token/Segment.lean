import Lai.Text
import Lai.Text.Letter
import Lai.Token.Symbol
/-!
# Segments of a line

A line is cut into segments that follow each other without gap or overlap: blanks, comments, string
literals, numbers, operators, words, and what is none of these. Each segment is as long as its rule
allows, and keeps every character it was cut from.
-/

namespace Lai

/-- Whether a name may begin with the character. -/
def isNameStart (c : Char) : Bool :=
  c == '_' || Text.isLetter c

/-- Whether a name may go on with the character. -/
def isNameChar (c : Char) : Bool :=
  isNameStart c || c.isDigit

/-- One character of a string literal, written as itself or after a backslash. -/
inductive Piece where
  | plain (c : Char)
  | escape (c : Char)
  deriving DecidableEq, Repr

namespace Piece

/-- The characters the piece was cut from. -/
def chars : Piece → List Char
  | .plain c => [c]
  | .escape c => ['\\', c]

/-- What the piece stands for; the character of an escape without a meaning stands for itself. -/
def value : Piece → Char
  | .plain c => c
  | .escape 'n' => '\n'
  | .escape 't' => '\t'
  | .escape c => c

/-- Whether the piece has a meaning: the escapes are those of line feed, tab, quote and backslash. -/
def known : Piece → Bool
  | .plain _ => true
  | .escape c => c == 'n' || c == 't' || c == '"' || c == '\\'

end Piece

/-- How the characters after an opening quote run out: at the closing quote, with the characters
after it, or at the end of the line, possibly with a backslash that escapes nothing. -/
inductive Ending where
  | closed (rest : List Char)
  | missing
  | dangling
  deriving DecidableEq, Repr

/-- What an ending leaves of the characters after the pieces. -/
def Ending.chars : Ending → List Char
  | .closed rest => '"' :: rest
  | .missing => []
  | .dangling => ['\\']

/-- Cuts the characters after an opening quote into pieces up to the first unescaped quote. -/
def pieces : List Char → List Piece × Ending
  | [] => ([], .missing)
  | c :: cs =>
    if c = '"' then ([], .closed cs)
    else if c = '\\' then
      match cs with
      | [] => ([], .dangling)
      | d :: ds => (.escape d :: (pieces ds).1, (pieces ds).2)
    else (.plain c :: (pieces cs).1, (pieces cs).2)

/-- A stretch of a line. -/
inductive Segment where
  | blank (c : Char)
  | comment (text : List Char)
  | quoted (ps : List Piece)
  | unclosed (ps : List Piece) (dangling : Bool)
  | number (digits : List Char)
  | malformed (digits rest : List Char)
  | operator (s : Symbol)
  | word (cs : List Char)
  | stray (c : Char)
  deriving DecidableEq, Repr

namespace Segment

/-- The characters the segment was cut from. -/
def chars : Segment → List Char
  | .blank c => [c]
  | .comment text => '/' :: '/' :: text
  | .quoted ps => '"' :: ps.flatMap Piece.chars ++ ['"']
  | .unclosed ps dangling => '"' :: ps.flatMap Piece.chars ++ (if dangling then ['\\'] else [])
  | .number digits => digits
  | .malformed digits rest => digits ++ rest
  | .operator s => s.text.toList
  | .word cs => cs
  | .stray c => [c]

/-- Cuts a string literal, its opening quote already read. -/
def cutString (cs : List Char) : Segment × List Char :=
  match pieces cs with
  | (ps, .closed rest) => (.quoted ps, rest)
  | (ps, .missing) => (.unclosed ps false, [])
  | (ps, .dangling) => (.unclosed ps true, [])

/-- Cuts a number: the digits, and with them a name that follows without a gap. -/
def cutNumber (cs : List Char) : Segment × List Char :=
  let digits := cs.takeWhile Char.isDigit
  let rest := cs.dropWhile Char.isDigit
  match rest.takeWhile isNameChar with
  | [] => (.number digits, rest)
  | tail => (.malformed digits tail, rest.dropWhile isNameChar)

/-- Cuts the first segment off the line that begins with `c` and goes on with `cs`. -/
def cut (c : Char) (cs : List Char) : Segment × List Char :=
  if Text.isBlank c then (.blank c, cs)
  else if c = '/' ∧ cs.head? = some '/' then (.comment cs.tail, [])
  else if c = '"' then cutString cs
  else if c.isDigit then cutNumber (c :: cs)
  else match Symbol.operator? (c :: cs) with
    | some s => (.operator s, (c :: cs).drop s.text.toList.length)
    | none =>
      if isNameStart c then (.word (c :: cs.takeWhile isNameChar), cs.dropWhile isNameChar)
      else (.stray c, cs)

/-! ### Nothing is lost -/

theorem pieces_chars (cs : List Char) : (pieces cs).1.flatMap Piece.chars ++ (pieces cs).2.chars = cs := by
  fun_induction pieces cs with
  | case1 => rfl
  | case2 => rfl
  | case3 => rfl
  | case4 _ d ds ih =>
      simp only [List.flatMap_cons, Piece.chars, List.cons_append, List.nil_append, ih]
  | case5 c cs _ _ ih =>
      simp only [List.flatMap_cons, Piece.chars, List.cons_append, List.nil_append, ih]

theorem cutString_chars (cs : List Char) : (cutString cs).1.chars ++ (cutString cs).2 = '"' :: cs := by
  have hcs := pieces_chars cs
  unfold cutString
  split <;> rename_i hpieces <;> simp only [hpieces] at hcs <;> simp [chars, ← hcs, Ending.chars]

theorem cutNumber_chars (cs : List Char) : (cutNumber cs).1.chars ++ (cutNumber cs).2 = cs := by
  unfold cutNumber
  simp only
  split
  · exact List.takeWhile_append_dropWhile
  · simp [chars, List.takeWhile_append_dropWhile]

/-- The segment and what is left make up the line. -/
theorem cut_chars (c : Char) (cs : List Char) : (cut c cs).1.chars ++ (cut c cs).2 = c :: cs := by
  unfold cut
  split
  · rfl
  split
  · rename_i hcomment
    obtain ⟨rfl, hnext⟩ := hcomment
    cases cs with
    | nil => simp at hnext
    | cons d ds =>
        obtain rfl : d = '/' := by simpa using hnext
        simp [chars]
  split
  · rename_i hquote
    rw [hquote, cutString_chars]
  split
  · exact cutNumber_chars _
  split
  · rename_i s hs
    obtain ⟨rest, hrest⟩ := Symbol.operator?_begins hs
    simp [chars, ← hrest]
  · split
    · simp [chars, List.takeWhile_append_dropWhile]
    · rfl

theorem cutString_chars_pos (cs : List Char) : 0 < (cutString cs).1.chars.length := by
  unfold cutString
  split <;> simp [chars]

theorem cutNumber_chars_pos (c : Char) (cs : List Char) (hdigit : c.isDigit = true) :
    0 < (cutNumber (c :: cs)).1.chars.length := by
  unfold cutNumber
  simp only [List.takeWhile_cons, hdigit, if_true]
  split <;> simp [chars]

/-- No segment is empty. -/
theorem cut_chars_pos (c : Char) (cs : List Char) : 0 < (cut c cs).1.chars.length := by
  unfold cut
  split
  · exact Nat.one_pos
  split
  · exact Nat.succ_pos _
  split
  · exact cutString_chars_pos cs
  split
  · exact cutNumber_chars_pos c cs ‹_›
  split
  · rename_i s _
    exact s.text_length_pos
  · split
    · exact Nat.succ_pos _
    · exact Nat.one_pos

/-- Cutting uses up at least one character. -/
theorem cut_rest_length (c : Char) (cs : List Char) : (cut c cs).2.length < (c :: cs).length := by
  have hpos := cut_chars_pos c cs
  have hlength := congrArg List.length (cut_chars c cs)
  rw [List.length_append] at hlength
  omega

/-- The segments of a line. -/
def cutAll : List Char → List Segment
  | [] => []
  | c :: cs => (cut c cs).1 :: cutAll (cut c cs).2
termination_by cs => cs.length
decreasing_by exact cut_rest_length c cs

/-- The segments make up the line. -/
theorem cutAll_chars (cs : List Char) : (cutAll cs).flatMap chars = cs := by
  fun_induction cutAll cs with
  | case1 => rfl
  | case2 c cs ih => rw [List.flatMap_cons, ih, cut_chars]

end Segment

end Lai
