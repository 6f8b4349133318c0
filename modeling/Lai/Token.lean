import Lai.Location
import Lai.Token.Symbol
/-!
# Tokens

A token is a lexeme at a place. Besides the symbols there are names, integer literals and string
literals, which carry their content; a token of unknown kind can only come from outside the
compiler.
-/

namespace Lai

/-- The kind of a token, its content aside. -/
inductive Token.Kind where
  | unknown
  | symbol (s : Symbol)
  | string
  | integer
  | identifier
  deriving DecidableEq, Inhabited, Repr

namespace Token.Kind

/-- Every kind, in the order in which kinds are numbered. -/
def all : List Kind :=
  [.unknown] ++ Symbol.all.map .symbol ++ [.string, .integer, .identifier]

/-- The name in token listings. -/
def name : Kind → String
  | .unknown => "UNKNOWN"
  | .symbol s => s.name
  | .string => "STRING_LITERAL"
  | .integer => "INTEGER_LITERAL"
  | .identifier => "IDENTIFIER"

/-- The spelling, empty for a kind that has more than one. -/
def text : Kind → String
  | .symbol s => s.text
  | _ => ""

end Token.Kind

/-- What a token says, its place aside. -/
inductive Lexeme where
  | unknown
  | symbol (s : Symbol)
  | string (text : String)
  | integer (value : Int32)
  | identifier (name : String)
  deriving DecidableEq, Inhabited, Repr

namespace Lexeme

/-- The kind of the lexeme. -/
def kind : Lexeme → Token.Kind
  | .unknown => .unknown
  | .symbol s => .symbol s
  | .string _ => .string
  | .integer _ => .integer
  | .identifier _ => .identifier

/-- The lexeme in token listings: its kind and what it carries. -/
def label : Lexeme → String
  | .string text => Token.Kind.string.name ++ ": " ++ text
  | .identifier name => Token.Kind.identifier.name ++ ": " ++ name
  | .integer value => Token.Kind.integer.name ++ ": " ++ Text.decimal value.toInt
  | x => x.kind.name

/-- The lexeme in complaints. -/
def shown : Lexeme → String
  | .string text => "string \"" ++ text ++ "\""
  | .identifier name => "identifier '" ++ name ++ "'"
  | .integer value => "integer " ++ Text.decimal value.toInt
  | .symbol s => "'" ++ s.text ++ "'"
  | .unknown => Token.Kind.unknown.name

end Lexeme

/-- A lexeme at a place. -/
structure Token where
  lexeme : Lexeme
  loc : Location
  deriving DecidableEq, Inhabited, Repr

end Lai
