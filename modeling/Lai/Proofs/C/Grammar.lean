import Lai.Operator
import Lai.Proofs.C.Literal
/-!
# The grammar of C

How C reads expressions and statements. Their text falls into numbers, string literals, names and marks, each
of which takes in as many bytes as it can; blanks and comments stand between them. On these stand the rules
for expressions, from the loosest operators to operands: comparisons, sums, products, signed operands, and
behind an operand the arguments that it is called with. Operators of one precedence are taken from left to
right. A tree keeps its parentheses, so that it says which rules have been used. A statement declares or
assigns a variable, evaluates an expression, ends its function, or is a block or an if statement.
-/

namespace Lai.C

open Text

/-! ### Tokens -/

/-- A number is everything that is written against its first digit. -/
inductive CToken where
  | number (spelling : List UInt8)
  | literal (value : List UInt8)
  | name (spelling : List UInt8)
  | mark (spelling : List UInt8)
  deriving DecidableEq, Repr

def isSpace (b : UInt8) : Bool :=
  b.toNat == 0x20 || 0x09 ≤ b.toNat && b.toNat ≤ 0x0d

def isDigit (b : UInt8) : Bool :=
  '0'.toNat ≤ b.toNat && b.toNat ≤ '9'.toNat

def isNameHead (b : UInt8) : Bool :=
  'a'.toNat ≤ b.toNat && b.toNat ≤ 'z'.toNat || 'A'.toNat ≤ b.toNat && b.toNat ≤ 'Z'.toNat || b.toNat == '_'.toNat

def isNameByte (b : UInt8) : Bool :=
  isNameHead b || isDigit b

def isNumberByte (b : UInt8) : Bool :=
  isNameByte b || b.toNat == '.'.toNat

/-- The marks of C, longer ones first, so that the first one that fits is the longest. -/
def marks : List (List UInt8) :=
  ["%:%:", "<<=", ">>=", "...", "->", "++", "--", "<<", ">>", "<=", ">=", "==", "!=", "&&", "||", "*=", "/=", "%=", "+=",
    "-=", "&=", "^=", "|=", "##", "<:", ":>", "<%", "%>", "%:", "[", "]", "(", ")", "\x7b", "\x7d", ".", "&", "*", "+", "-",
    "~", "!", "/", "%", "<", ">", "^", "|", "?", ":", ";", "=", ",", "#"].map bytes

/-- The marks that open a comment. -/
def commentMarks : List (List UInt8) :=
  ["//", "/*"].map bytes

def mark? (text : List UInt8) : Option (List UInt8) :=
  if commentMarks.any (·.isPrefixOf text) then none else marks.find? (·.isPrefixOf text)

/-- The token that a text begins with, and what follows it. -/
def readToken : List UInt8 → Option (CToken × List UInt8)
  | [] => none
  | b :: rest =>
    if b = '"'.toUInt8 then (readInside rest).map fun x => (.literal x.1, x.2)
    else if isDigit b then some (.number (b :: rest.takeWhile isNumberByte), rest.dropWhile isNumberByte)
    else if isNameHead b then some (.name (b :: rest.takeWhile isNameByte), rest.dropWhile isNameByte)
    else (mark? (b :: rest)).map fun spelling => (.mark spelling, rest.drop (spelling.length - 1))

theorem length_of_readInside {text rest value : List UInt8} (h : readInside text = some (value, rest)) :
    rest.length < text.length := by
  fun_induction readInside text generalizing value rest with
  | case1 => simp at h
  | case2 text =>
      rw [← (Prod.mk.inj (Option.some.inj h)).2]
      exact Nat.lt_succ_self _
  | case3 => simp at h
  | case4 text byte more hescape _ ih =>
      obtain ⟨x, hx, hpair⟩ := Option.map_eq_some_iff.1 h
      rw [← (Prod.mk.inj hpair).2]
      exact Nat.lt_trans (ih hx) (Nat.lt_succ_of_lt (length_of_readEscape hescape))
  | case5 => simp at h
  | case6 b text _ _ _ ih =>
      obtain ⟨x, hx, hpair⟩ := Option.map_eq_some_iff.1 h
      rw [← (Prod.mk.inj hpair).2]
      exact Nat.lt_succ_of_lt (ih hx)

theorem length_of_readToken {text rest : List UInt8} {t : CToken} (h : readToken text = some (t, rest)) :
    rest.length < text.length := by
  cases text with
  | nil => simp [readToken] at h
  | cons b text =>
      rw [readToken] at h
      split at h
      · obtain ⟨x, hx, hpair⟩ := Option.map_eq_some_iff.1 h
        rw [← (Prod.mk.inj hpair).2]
        exact Nat.lt_succ_of_lt (length_of_readInside hx)
      split at h
      · rw [← (Prod.mk.inj (Option.some.inj h)).2]
        exact Nat.lt_succ_of_le (List.dropWhile_suffix _).length_le
      split at h
      · rw [← (Prod.mk.inj (Option.some.inj h)).2]
        exact Nat.lt_succ_of_le (List.dropWhile_suffix _).length_le
      · obtain ⟨spelling, -, hpair⟩ := Option.map_eq_some_iff.1 h
        rw [← (Prod.mk.inj hpair).2]
        exact Nat.lt_succ_of_le (List.drop_suffix _ _).length_le

/-- What follows a comment behind the mark that opens it. -/
def behindBlock : List UInt8 → Option (List UInt8)
  | [] => none
  | b :: rest => if b = '*'.toUInt8 ∧ rest.head? = some '/'.toUInt8 then some rest.tail else behindBlock rest

/-- What follows the comment that a text begins with. -/
def behindComment? (text : List UInt8) : Option (List UInt8) :=
  if (bytes "/*").isPrefixOf text then behindBlock (text.drop 2)
  else if (bytes "//").isPrefixOf text then some ((text.drop 2).dropWhile (· ≠ '\n'.toUInt8))
  else none

theorem length_of_behindBlock {text rest : List UInt8} (h : behindBlock text = some rest) : rest.length < text.length := by
  induction text with
  | nil => simp [behindBlock] at h
  | cons b text ih =>
      rw [behindBlock] at h
      split at h
      · rw [← Option.some.inj h, List.length_tail]
        exact Nat.lt_succ_of_le (Nat.sub_le _ _)
      · exact Nat.lt_succ_of_lt (ih h)

theorem length_of_behindComment? {b : UInt8} {text rest : List UInt8} (h : behindComment? (b :: text) = some rest) :
    rest.length < (b :: text).length := by
  have hdrop : ((b :: text).drop 2).length ≤ text.length := by simp
  unfold behindComment? at h
  split at h
  · exact Nat.lt_succ_of_le (Nat.le_trans (Nat.le_of_lt (length_of_behindBlock h)) hdrop)
  split at h
  · rw [← Option.some.inj h]
    exact Nat.lt_succ_of_le (Nat.le_trans (List.dropWhile_suffix _).length_le hdrop)
  · simp at h

/-- The tokens of a text. -/
def lex : List UInt8 → Option (List CToken)
  | [] => some []
  | b :: rest =>
    if isSpace b then lex rest
    else
      match _h : behindComment? (b :: rest) with
      | some more => lex more
      | none =>
        match _h : readToken (b :: rest) with
        | none => none
        | some (t, more) => (lex more).map (t :: ·)
termination_by text => text.length
decreasing_by
  · exact Nat.lt_succ_self _
  · exact length_of_behindComment? ‹_›
  · exact length_of_readToken ‹_›

/-! ### Trees -/

inductive Radix where
  | decimal
  | octal
  deriving DecidableEq, Repr

inductive BinaryOp where
  | math (op : MathOp)
  | compare (op : CompareOp)
  deriving DecidableEq, Repr

inductive CTree where
  | constant (radix : Radix) (value : Nat)
  | literal (value : List UInt8)
  | name (spelling : List UInt8)
  | group (inner : CTree)
  | call (callee : CTree) (arguments : List CTree)
  | minus (operand : CTree)
  | binary (op : BinaryOp) (left right : CTree)

/-- The number that a constant denotes. With a zero in front it is octal; a zero alone is the same number in
both bases and counts as decimal. -/
def constant? : List UInt8 → Option (Radix × Nat)
  | [] => none
  | first :: rest =>
    if first = '0'.toUInt8 ∧ rest ≠ [] then
      if rest.all isOctalDigit then some (.octal, valueOf 8 rest) else none
    else if (first :: rest).all isDigit then some (.decimal, valueOf 10 (first :: rest))
    else none

namespace BinaryOp

def text : BinaryOp → String
  | .math op => op.text
  | .compare op => op.text

def spelling (op : BinaryOp) : List UInt8 :=
  bytes op.text

/-- How tightly the operator binds, from comparisons to products. -/
def precedence : BinaryOp → Nat
  | .compare _ => 1
  | .math op => op.precedence + 1

def token (op : BinaryOp) : CToken :=
  .mark op.spelling

end BinaryOp

/-- The precedence of a sign in front of an operand, which is tighter than that of every operator between
two operands. -/
def signPrecedence : Nat := 4

/-- Words that are not names. -/
def cKeywords : List (List UInt8) :=
  ["auto", "break", "case", "char", "const", "continue", "default", "do", "double", "else", "enum", "extern", "float",
    "for", "goto", "if", "inline", "int", "long", "register", "restrict", "return", "short", "signed", "sizeof", "static",
    "struct", "switch", "typedef", "union", "unsigned", "void", "volatile", "while"].map bytes

/-! ### Rules for expressions -/

/-- What the rules are about: an operand with its calls, a chain of operators that bind at least as tightly as
the given precedence, and the arguments of a call. -/
inductive Phrase where
  | operand
  | chain (precedence : Nat)
  | arguments
  deriving DecidableEq, Repr

/-- The tokens are derived as the trees: as any number of them for arguments, else as exactly one. -/
inductive DerivesTree : Phrase → List CToken → List CTree → Prop where
  | constant {spelling : List UInt8} {radix : Radix} {value : Nat} (h : constant? spelling = some (radix, value)) :
      DerivesTree .operand [.number spelling] [.constant radix value]
  | literal (value : List UInt8) : DerivesTree .operand [.literal value] [.literal value]
  | name {spelling : List UInt8} (h : spelling ∉ cKeywords) : DerivesTree .operand [.name spelling] [.name spelling]
  | group {ts : List CToken} {e : CTree} (h : DerivesTree (.chain 1) ts [e]) :
      DerivesTree .operand (.mark (bytes "(") :: ts ++ [.mark (bytes ")")]) [.group e]
  | call {ts us : List CToken} {f : CTree} {es : List CTree} (hcallee : DerivesTree .operand ts [f])
      (harguments : DerivesTree .arguments us es) :
      DerivesTree .operand (ts ++ .mark (bytes "(") :: us ++ [.mark (bytes ")")]) [.call f es]
  | callEmpty {ts : List CToken} {f : CTree} (hcallee : DerivesTree .operand ts [f]) :
      DerivesTree .operand (ts ++ [.mark (bytes "("), .mark (bytes ")")]) [.call f []]
  | argument {ts : List CToken} {e : CTree} (h : DerivesTree (.chain 1) ts [e]) : DerivesTree .arguments ts [e]
  | arguments {ts us : List CToken} {e : CTree} {es : List CTree} (hfirst : DerivesTree .arguments ts es)
      (hlast : DerivesTree (.chain 1) us [e]) : DerivesTree .arguments (ts ++ .mark (bytes ",") :: us) (es ++ [e])
  | operand {ts : List CToken} {e : CTree} (h : DerivesTree .operand ts [e]) : DerivesTree (.chain signPrecedence) ts [e]
  | minus {ts : List CToken} {e : CTree} (h : DerivesTree (.chain signPrecedence) ts [e]) :
      DerivesTree (.chain signPrecedence) (.mark (bytes "-") :: ts) [.minus e]
  | tighter {k : Nat} {ts : List CToken} {e : CTree} (h : DerivesTree (.chain (k + 1)) ts [e]) : DerivesTree (.chain k) ts [e]
  | binary (op : BinaryOp) {ts us : List CToken} {left right : CTree} (hleft : DerivesTree (.chain op.precedence) ts [left])
      (hright : DerivesTree (.chain (op.precedence + 1)) us [right]) :
      DerivesTree (.chain op.precedence) (ts ++ op.token :: us) [.binary op left right]

/-- The text can be parsed as the tree. -/
def Parses (text : List UInt8) (e : CTree) : Prop :=
  ∃ ts, lex text = some ts ∧ DerivesTree (.chain 1) ts [e]

/-! ### Rules for statements -/

/-- The tokens that a declaration of the type begins with. -/
def CType.tokens : CType → List CToken
  | .int => [.name (bytes "int")]
  | .string => [.name (bytes "const"), .name (bytes "char"), .mark (bytes "*")]

inductive CStmt where
  | declare (type : CType) (name : List UInt8) (value : CTree)
  | assign (name : List UInt8) (value : CTree)
  | expression (value : CTree)
  | result (value : CTree)
  | ifThen (test : CTree) (body : List CStmt)
  | ifElse (test : CTree) (body : List CStmt) (last : CStmt)
  | block (body : List CStmt)

/-- The parts of a function that are made of statements. -/
inductive CPart where
  | body
  | statement
  | conditional
  | block
  deriving DecidableEq, Repr

/-- The tokens are derived as the statements: any number of them for a body, else exactly one. A test is
followed by a block, so that it is clear to which test an `else` belongs. -/
inductive DerivesCode : CPart → List CToken → List CStmt → Prop where
  | nil : DerivesCode .body [] []
  | cons {ts us : List CToken} {stmt : CStmt} {rest : List CStmt} (hfirst : DerivesCode .statement ts [stmt])
      (hrest : DerivesCode .body us rest) : DerivesCode .body (ts ++ us) (stmt :: rest)
  | declare (type : CType) {name : List UInt8} {ts : List CToken} {value : CTree} (hname : name ∉ cKeywords)
      (hvalue : DerivesTree (.chain 1) ts [value]) :
      DerivesCode .statement (type.tokens ++ .name name :: .mark (bytes "=") :: ts ++ [.mark (bytes ";")])
        [.declare type name value]
  | assign {name : List UInt8} {ts : List CToken} {value : CTree} (hname : name ∉ cKeywords)
      (hvalue : DerivesTree (.chain 1) ts [value]) :
      DerivesCode .statement (.name name :: .mark (bytes "=") :: ts ++ [.mark (bytes ";")]) [.assign name value]
  | expression {ts : List CToken} {value : CTree} (hvalue : DerivesTree (.chain 1) ts [value]) :
      DerivesCode .statement (ts ++ [.mark (bytes ";")]) [.expression value]
  | result {ts : List CToken} {value : CTree} (hvalue : DerivesTree (.chain 1) ts [value]) :
      DerivesCode .statement (.name (bytes "return") :: ts ++ [.mark (bytes ";")]) [.result value]
  | ofConditional {ts : List CToken} {stmt : CStmt} (h : DerivesCode .conditional ts [stmt]) :
      DerivesCode .statement ts [stmt]
  | ofBlock {ts : List CToken} {stmt : CStmt} (h : DerivesCode .block ts [stmt]) : DerivesCode .statement ts [stmt]
  | block {ts : List CToken} {body : List CStmt} (hbody : DerivesCode .body ts body) :
      DerivesCode .block (.mark (bytes "\x7b") :: ts ++ [.mark (bytes "\x7d")]) [.block body]
  | ifThen {ts us : List CToken} {test : CTree} {body : List CStmt} (htest : DerivesTree (.chain 1) ts [test])
      (hbody : DerivesCode .block us [.block body]) :
      DerivesCode .conditional (.name (bytes "if") :: .mark (bytes "(") :: ts ++ .mark (bytes ")") :: us)
        [.ifThen test body]
  | ifElse {ts us vs : List CToken} {test : CTree} {body : List CStmt} {last : CStmt}
      (htest : DerivesTree (.chain 1) ts [test]) (hbody : DerivesCode .block us [.block body])
      (hlast : DerivesCode .statement vs [last]) :
      DerivesCode .conditional
        (.name (bytes "if") :: .mark (bytes "(") :: ts ++ .mark (bytes ")") :: us ++ .name (bytes "else") :: vs)
        [.ifElse test body last]

end Lai.C
