/-!
# Symbols

The operators and keywords of Lai: the tokens that are spelled in exactly one way.
-/

namespace Lai

/-- A token with a fixed spelling. -/
inductive Symbol where
  | colon
  | assign
  | infer
  | equal
  | notEqual
  | openBrace
  | closeBrace
  | openParen
  | closeParen
  | plus
  | minus
  | asterisk
  | slash
  | intWord
  | stringWord
  | ifWord
  | elseWord
  | printWord
  deriving DecidableEq, Inhabited, Repr

namespace Symbol

/-- Every symbol, in the order in which token kinds are numbered. -/
def all : List Symbol :=
  [.colon, .assign, .infer, .equal, .notEqual, .openBrace, .closeBrace, .openParen, .closeParen,
   .plus, .minus, .asterisk, .slash, .intWord, .stringWord, .ifWord, .elseWord, .printWord]

/-- The spelling. -/
def text : Symbol → String
  | .colon => ":"
  | .assign => "="
  | .infer => ":="
  | .equal => "=="
  | .notEqual => "!="
  | .openBrace => "\x7b"
  | .closeBrace => "\x7d"
  | .openParen => "("
  | .closeParen => ")"
  | .plus => "+"
  | .minus => "-"
  | .asterisk => "*"
  | .slash => "/"
  | .intWord => "int"
  | .stringWord => "string"
  | .ifWord => "if"
  | .elseWord => "else"
  | .printWord => "print"

/-- No symbol is spelled with nothing. -/
theorem text_length_pos (s : Symbol) : 0 < s.text.toList.length := by
  cases s <;> decide

/-- The name in token listings. -/
def name : Symbol → String
  | .colon => "DECLARE_TYPE"
  | .assign => "ASSIGN"
  | .infer => "INFER_ASSIGN"
  | .equal => "EQUAL"
  | .notEqual => "NOT_EQUAL"
  | .openBrace => "OPEN_BRACE"
  | .closeBrace => "CLOSE_BRACE"
  | .openParen => "OPEN_PAREN"
  | .closeParen => "CLOSE_PAREN"
  | .plus => "PLUS"
  | .minus => "MINUS"
  | .asterisk => "ASTERISK"
  | .slash => "SLASH"
  | .intWord => "TYPE_INT"
  | .stringWord => "TYPE_STRING"
  | .ifWord => "IF"
  | .elseWord => "ELSE"
  | .printWord => "PRINT"

/-- The symbols that are words, in alphabetical order. -/
def keywords : List Symbol :=
  [.elseWord, .ifWord, .intWord, .printWord, .stringWord]

/-- The symbols that are not words, longer spellings first. -/
def operators : List Symbol :=
  [.infer, .equal, .notEqual, .colon, .assign, .openBrace, .closeBrace, .openParen, .closeParen,
   .plus, .minus, .asterisk, .slash]

/-- The keyword spelled exactly so. -/
def keyword? (word : String) : Option Symbol :=
  keywords.find? (·.text = word)

/-- The operator with the longest spelling that the characters begin with. -/
def operator? (cs : List Char) : Option Symbol :=
  operators.find? (·.text.toList.isPrefixOf cs)

theorem operator?_begins {cs : List Char} {s : Symbol} (hs : operator? cs = some s) :
    s.text.toList <+: cs := by
  have hbegins := List.find?_some hs
  simpa using hbegins

end Symbol

end Lai
