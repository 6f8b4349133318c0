import Lai.Document
import Lai.Token
/-!
# Token listings

A listing shows the tokens of each document, one row per line, indented by how many braces are open.
-/

namespace Lai.Token

/-- How the tokens of a line change the number of open braces: by so many opened, by so many closed. -/
def braces (tokens : List Token) : Nat × Nat :=
  (tokens.countP (·.lexeme = .symbol .openBrace), tokens.countP (·.lexeme = .symbol .closeBrace))

/-- One row: its number, its indentation and its tokens. Braces that a line closes bring the line
itself further out. -/
def row (number : Nat) (depth : Int) (tokens : List Token) : String :=
  Nat.repr (number + 1) ++ ":" ++ String.ofList (List.replicate (depth - (braces tokens).2).toNat '\t') ++
    String.join (tokens.map fun t => "[" ++ t.lexeme.label ++ "]") ++ "\n"

/-- The rows of `count` lines from the line `number` on, with `depth` braces open before it. -/
def rows (tokens : List Token) : (count number : Nat) → (depth : Int) → List String
  | 0, _, _ => []
  | count + 1, number, depth =>
    let here := tokens.filter (·.loc.line = (number : Int))
    row number depth here :: rows tokens count (number + 1) (depth + (braces here).1 - (braces here).2)

/-- The listing of one document. -/
def sectionText (doc : Document) (tokens : List Token) : String :=
  "\n" ++ doc.name ++ ":\n" ++ String.join (rows tokens doc.lines.length 0 0)

/-- The listing of documents, each with its tokens. -/
def listing (docs : List (Document × List Token)) : String :=
  "Tokens:\n" ++ String.join (docs.map fun (doc, tokens) => sectionText doc tokens) ++ "\n"

end Lai.Token
