import Lai.Diagnostic
import Lai.Document
import Lai.Token
import Lai.Token.Segment
/-!
# Scanning

Scanning a text gives its tokens and its lexical faults. Every segment of a line gives at most one
token, at its first character; a fault never stops the scan.
-/

namespace Lai

/-- What is wrong with the spelling of a token. -/
inductive LexicalFault where
  | unrecognized (c : Char)
  | malformedNumber (text : String)
  | outOfRange (digits : String)
  | unknownEscape (c : Char)
  | unterminated
  deriving DecidableEq, Repr

/-- The complaint. -/
def LexicalFault.message : LexicalFault → String
  | .unrecognized c => "unrecognized character '" ++ c.toString ++ "'"
  | .malformedNumber text => "malformed numeric literal '" ++ text ++ "'"
  | .outOfRange digits => "integer literal " ++ digits ++ " is out of range"
  | .unknownEscape c => "unknown escape sequence '\\" ++ c.toString ++ "'"
  | .unterminated => "unterminated string literal"

/-- The largest integer literal. -/
def maxLiteral : Nat := 2147483647

/-- The number that decimal digits denote. -/
def digitsValue (digits : List Char) : Nat :=
  digits.foldl (fun n c => 10 * n + (c.toNat - '0'.toNat)) 0

/-- The escapes without a meaning among the pieces of a string literal, each with the offset of its
backslash, the first piece being at `offset`. -/
def Piece.faults (offset : Nat) : List Piece → List (Nat × LexicalFault)
  | [] => []
  | p :: ps =>
    let later := faults (offset + p.chars.length) ps
    if p.known then later else (offset, .unknownEscape p.value) :: later

namespace Segment

/-- The token that the segment denotes. -/
def lexeme? : Segment → Option Lexeme
  | .quoted ps => some (.string (String.ofList (ps.map Piece.value)))
  | .number digits =>
    if digitsValue digits ≤ maxLiteral then some (.integer (Int32.ofNat (digitsValue digits))) else none
  | .operator s => some (.symbol s)
  | .word cs =>
    match Symbol.keyword? (String.ofList cs) with
    | some s => some (.symbol s)
    | none => some (.identifier (String.ofList cs))
  | _ => none

/-- What is wrong with the segment, each fault with its offset from the segment's start. The faults
inside a string literal come before the one of its missing end. -/
def faults : Segment → List (Nat × LexicalFault)
  | .quoted ps => Piece.faults 1 ps
  | .unclosed ps _ => Piece.faults 1 ps ++ [(0, .unterminated)]
  | .number digits =>
    if digitsValue digits ≤ maxLiteral then [] else [(0, .outOfRange (String.ofList digits))]
  | .malformed digits rest => [(0, .malformedNumber (String.ofList (digits ++ rest)))]
  | .stray c => [(0, .unrecognized c)]
  | _ => []

/-- The segments with the columns at which they begin, the first one at `column`. -/
def place (column : Nat) : List Segment → List (Nat × Segment)
  | [] => []
  | s :: rest => (column, s) :: place (column + s.chars.length) rest

end Segment

/-- The tokens of a text and what is wrong with its spelling. -/
structure Scan where
  tokens : List Token := []
  faults : List (Located LexicalFault) := []
  deriving DecidableEq, Repr

namespace Scan

/-- What one segment at a column of a line contributes. -/
def ofSegment (line : Nat) (placed : Nat × Segment) : Scan where
  tokens := placed.2.lexeme?.toList.map fun x => ⟨x, ⟨line, placed.1⟩⟩
  faults := placed.2.faults.map fun (offset, fault) => ⟨⟨line, (placed.1 + offset : Nat)⟩, fault⟩

/-- Scans one line, whose number is `line`. -/
def ofLine (line : Nat) (text : List Char) : Scan :=
  let parts := (Segment.place 0 (Segment.cutAll text)).map (ofSegment line)
  ⟨parts.flatMap (·.tokens), parts.flatMap (·.faults)⟩

/-- Scans the lines of a text. -/
def ofLines (lines : List String) : Scan :=
  let parts := lines.zipIdx.map fun (text, line) => ofLine line text.toList
  ⟨parts.flatMap (·.tokens), parts.flatMap (·.faults)⟩

/-- The faults as diagnostics of a file. -/
def diagnostics (file : String) (scan : Scan) : List Diagnostic :=
  scan.faults.map fun fault => .ofFault file .lexical (fault.map LexicalFault.message)

end Scan

end Lai
