import Lai.Token.Scan
/-!
# Lexical rules

What a line is made of, said without saying how it is cut. A stretch of a line is made by one of nine
rules; a rule says which characters a stretch has and what cannot follow it, so that no stretch could go
on. A line is divided by the rules into stretches that leave no gap, and each stretch stands for a token,
for a complaint, or for nothing.
-/

namespace Lai

/-- Whether the symbol is spelled as a name could be. -/
def Symbol.isWord (s : Symbol) : Bool :=
  s.text.toList.all isNameChar

namespace Lexical

/-! ### Literals -/

/-- The characters escape what comes right behind them: they end with an odd number of backslashes. -/
def Escapes (before : List Char) : Prop :=
  (before.reverse.takeWhile (· = '\\')).length % 2 = 1

instance (before : List Char) : Decidable (Escapes before) :=
  inferInstanceAs (Decidable (_ = _))

/-- Every quote among the characters is escaped, so that none of them closes a literal. -/
def QuotesEscaped (body : List Char) : Prop :=
  ∀ before after, body = before ++ '"' :: after → Escapes before

/-- What an escaped character means; one without a meaning stands for itself. -/
def meaning (c : Char) : Char :=
  if c = 'n' then '\n' else if c = 't' then '\t' else c

/-- The text of a literal, given the characters between its quotes. -/
def unescape : List Char → List Char
  | '\\' :: c :: rest => meaning c :: unescape rest
  | c :: rest => c :: unescape rest
  | [] => []

/-- The character of an escape without a meaning, if one begins right behind `before`. -/
def unknownEscape? (before : List Char) : List Char → Option Char
  | '\\' :: c :: _ => if Escapes before ∨ c ∈ ['n', 't', '"', '\\'] then none else some c
  | _ => none

/-- The escapes without a meaning, each with the offset of its backslash. -/
def unknownEscapes (body : List Char) : List (Nat × Char) :=
  (List.range body.length).filterMap fun i => (unknownEscape? (body.take i) (body.drop i)).map (i, ·)

/-! ### Numbers -/

/-- The number that decimal digits stand for, each of them weighted by its position. -/
def decimalValue : List Char → Nat
  | [] => 0
  | c :: cs => (c.toNat - '0'.toNat) * Nat.pow 10 cs.length + decimalValue cs

/-! ### Stretches -/

/-- The rules by which stretches are made. -/
inductive Rule where
  | blank
  | comment
  | quoted
  | unclosed
  | number
  | malformed
  | operator (s : Symbol)
  | word
  | stray
  deriving DecidableEq, Repr

/-- The characters do not go on with one of the class. -/
def Stops (inClass : Char → Bool) (rest : List Char) : Prop :=
  ∀ c, rest.head? = some c → inClass c = false

/-- The rule makes a stretch of the characters `text` when `rest` is what follows on the line. -/
inductive Makes : Rule → (text rest : List Char) → Prop where
  | blank {c : Char} {rest : List Char} (hblank : Text.isBlank c = true) : Makes .blank [c] rest
  | comment (content : List Char) : Makes .comment ('/' :: '/' :: content) []
  | quoted {body rest : List Char} (hquotes : QuotesEscaped body) (hclosed : ¬ Escapes body) :
    Makes .quoted ('"' :: body ++ ['"']) rest
  | unclosed {body : List Char} (hquotes : QuotesEscaped body) : Makes .unclosed ('"' :: body) []
  | number {digits rest : List Char} (hsome : digits ≠ []) (hdigits : ∀ c ∈ digits, c.isDigit = true)
    (hend : Stops isNameChar rest) : Makes .number digits rest
  | malformed {digits tail rest : List Char} (hsome : digits ≠ []) (hdigits : ∀ c ∈ digits, c.isDigit = true)
    (htail : tail ≠ []) (hchars : ∀ c ∈ tail, isNameChar c = true) (hmaximal : Stops Char.isDigit tail)
    (hend : Stops isNameChar rest) : Makes .malformed (digits ++ tail) rest
  | operator {s : Symbol} {rest : List Char} (hs : s.isWord = false)
    (hcomment : ¬ ['/', '/'] <+: s.text.toList ++ rest)
    (hlongest : ∀ other : Symbol, other.isWord = false → other.text.toList <+: s.text.toList ++ rest →
      other.text.toList.length ≤ s.text.toList.length) : Makes (.operator s) s.text.toList rest
  | word {c : Char} {cs rest : List Char} (hstart : isNameStart c = true) (hchars : ∀ d ∈ cs, isNameChar d = true)
    (hend : Stops isNameChar rest) : Makes .word (c :: cs) rest
  | stray {c : Char} {rest : List Char} (hblank : Text.isBlank c = false) (hquote : c ≠ '"')
    (hdigit : c.isDigit = false) (hstart : isNameStart c = false)
    (hoperator : ∀ s : Symbol, s.isWord = false → ¬ s.text.toList <+: c :: rest) : Makes .stray [c] rest

/-- A part of a line and the rule that makes it. -/
structure Stretch where
  rule : Rule
  text : List Char
  deriving DecidableEq, Repr

/-- The rules divide the characters into the stretches. -/
inductive Divides : List Char → List Stretch → Prop where
  | nil : Divides [] []
  | cons {s : Stretch} {rest : List Char} {stretches : List Stretch} (hmakes : Makes s.rule s.text rest)
    (hrest : Divides rest stretches) : Divides (s.text ++ rest) (s :: stretches)

namespace Stretch

/-- The stretch only separates others. -/
def isTrivia (s : Stretch) : Bool :=
  s.rule = .blank || s.rule = .comment

/-- The characters of a literal without its quotes; a literal that is not closed has only the first. -/
def body (s : Stretch) : List Char :=
  if s.rule = .quoted then s.text.tail.dropLast else s.text.tail

/-- The token that the stretch stands for. A word that is the spelling of a symbol is that symbol. -/
def lexeme? (s : Stretch) : Option Lexeme :=
  match s.rule with
  | .quoted => some (.string (String.ofList (unescape s.body)))
  | .number =>
    if decimalValue s.text ≤ 2147483647 then some (.integer (Int32.ofNat (decimalValue s.text))) else none
  | .operator symbol => some (.symbol symbol)
  | .word =>
    match Symbol.all.find? (·.text.toList = s.text) with
    | some symbol => some (.symbol symbol)
    | none => some (.identifier (String.ofList s.text))
  | _ => none

/-- The complaint about the stretch as a whole. -/
def fault? (s : Stretch) : Option LexicalFault :=
  match s.rule with
  | .unclosed => some .unterminated
  | .number =>
    if decimalValue s.text ≤ 2147483647 then none else some (.outOfRange (String.ofList s.text))
  | .malformed => some (.malformedNumber (String.ofList s.text))
  | .stray => s.text.head?.map .unrecognized
  | _ => none

/-- The complaints about what is inside a literal, each with the offset of its backslash. -/
def inner (s : Stretch) : List (Nat × LexicalFault) :=
  if s.rule = .quoted ∨ s.rule = .unclosed then
    (unknownEscapes s.body).map fun (i, c) => (i + 1, .unknownEscape c)
  else []

/-- All complaints about the stretch in the order in which they are made, each with its offset. -/
def faults (s : Stretch) : List (Nat × LexicalFault) :=
  s.inner ++ s.fault?.toList.map (0, ·)

/-- The stretches with the columns at which they begin, the first one at `column`. -/
def place (column : Nat) : List Stretch → List (Nat × Stretch)
  | [] => []
  | s :: rest => (column, s) :: place (column + s.text.length) rest

end Stretch

/-- What the stretches of a line contribute: the tokens at their first characters, and the complaints. -/
def scanOf (line : Nat) (stretches : List Stretch) : Scan where
  tokens := (Stretch.place 0 stretches).flatMap fun (column, s) =>
    s.lexeme?.toList.map fun x => ⟨x, ⟨line, column⟩⟩
  faults := (Stretch.place 0 stretches).flatMap fun (column, s) =>
    s.faults.map fun (offset, fault) => ⟨⟨line, (column + offset : Nat)⟩, fault⟩

end Lexical

end Lai
