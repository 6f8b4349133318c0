import Lai.Grammar.Phrase
/-!
# The grammar

The rules of the grammar as data, over kinds of tokens, and the sequences of kinds that can be derived
from them. Beside them stands what a sequence of tokens spells: the tree that the derivation builds,
with the content and the place of every token in it. A sequence of tokens spells a tree exactly if its
kinds can be derived.
-/

namespace Lai.Grammar

/-! ### Rules and derivations -/

/-- The names of the rules. -/
inductive Rule where
  | statement
  | conditional
  | block
  | expr
  | term
  | factor
  | typeName
  deriving DecidableEq, Repr

/-- The right side of a rule. -/
inductive Form where
  | token (kind : Token.Kind)
  | rule (r : Rule)
  | followed (first second : Form)
  | either (first second : Form)
  | optional (form : Form)
  | repeated (form : Form)
  deriving DecidableEq, Repr

namespace Form

instance : Append Form := ⟨followed⟩

instance : OrOp Form := ⟨either⟩

/-- A token with a fixed spelling. -/
def symbol (s : Symbol) : Form :=
  token (.symbol s)

end Form

open Form in
/-- The grammar. -/
def Rule.form : Rule → Form
  | .statement =>
    token .identifier ++ symbol .infer ++ rule .expr
    ||| token .identifier ++ symbol .colon ++ rule .typeName ++ optional (symbol .assign ++ rule .expr)
    ||| token .identifier ++ symbol .assign ++ rule .expr
    ||| symbol .printWord ++ symbol .openParen ++ rule .expr ++ symbol .closeParen
    ||| rule .conditional
    ||| rule .block
  | .conditional =>
    symbol .ifWord ++ symbol .openParen ++ rule .expr ++ (symbol .equal ||| symbol .notEqual) ++ rule .expr
      ++ symbol .closeParen ++ rule .block
      ++ optional (symbol .elseWord ++ (rule .block ||| rule .conditional))
  | .block => symbol .openBrace ++ repeated (rule .statement) ++ symbol .closeBrace
  | .expr => rule .term ++ repeated ((symbol .plus ||| symbol .minus) ++ rule .term)
  | .term => rule .factor ++ repeated ((symbol .asterisk ||| symbol .slash) ++ rule .factor)
  | .factor =>
    token .integer ||| token .string ||| token .identifier
    ||| symbol .openParen ++ rule .expr ++ symbol .closeParen
  | .typeName => symbol .intWord ||| symbol .stringWord

/-- The sequences of kinds that a form stands for. -/
inductive Derives : Form → List Token.Kind → Prop where
  | token (kind : Token.Kind) : Derives (.token kind) [kind]
  | rule {r : Rule} {ks : List Token.Kind} (h : Derives r.form ks) : Derives (.rule r) ks
  | followed {first second : Form} {ks ls : List Token.Kind} (hfirst : Derives first ks)
      (hsecond : Derives second ls) : Derives (first ++ second) (ks ++ ls)
  | left {first second : Form} {ks : List Token.Kind} (h : Derives first ks) : Derives (first ||| second) ks
  | right {first second : Form} {ks : List Token.Kind} (h : Derives second ks) : Derives (first ||| second) ks
  | absent (form : Form) : Derives (.optional form) []
  | present {form : Form} {ks : List Token.Kind} (h : Derives form ks) : Derives (.optional form) ks
  | none (form : Form) : Derives (.repeated form) []
  | more {form : Form} {ks ls : List Token.Kind} (h : Derives form ks) (hmore : Derives (.repeated form) ls) :
      Derives (.repeated form) (ks ++ ls)

/-- A program: any number of statements. -/
def Form.program : Form :=
  .repeated (.rule .statement)

/-! ### What tokens spell -/

/-- How tightly an expression holds together: as a sum, as a product, or as one operand. -/
inductive Rank where
  | expr
  | term
  | factor
  deriving DecidableEq, Repr

/-- The tokens spell the expression. Operators of one precedence are taken from left to right. -/
inductive SpellsExpr : Rank → List Token → Expr Unit → Prop where
  | int (value : Int32) (loc : Location) : SpellsExpr .factor [⟨.integer value, loc⟩] (.int value loc)
  | string (text : String) (loc : Location) : SpellsExpr .factor [⟨.string text, loc⟩] (.string text loc)
  | var (name : String) (loc : Location) : SpellsExpr .factor [⟨.identifier name, loc⟩] (.var name () loc)
  | group (start finish : Location) {ts : List Token} {e : Expr Unit} (h : SpellsExpr .expr ts e) :
      SpellsExpr .factor (⟨.symbol .openParen, start⟩ :: ts ++ [⟨.symbol .closeParen, finish⟩]) e
  | factor {ts : List Token} {e : Expr Unit} (h : SpellsExpr .factor ts e) : SpellsExpr .term ts e
  | product {ts us : List Token} {left right : Expr Unit} {t : Token} {op : MathOp}
      (hleft : SpellsExpr .term ts left) (hop : MathOp.ofLexeme? t.lexeme = some op)
      (hrank : op = .multiply ∨ op = .divide) (hright : SpellsExpr .factor us right) :
      SpellsExpr .term (ts ++ t :: us) (.math op left right t.loc)
  | term {ts : List Token} {e : Expr Unit} (h : SpellsExpr .term ts e) : SpellsExpr .expr ts e
  | sum {ts us : List Token} {left right : Expr Unit} {t : Token} {op : MathOp}
      (hleft : SpellsExpr .expr ts left) (hop : MathOp.ofLexeme? t.lexeme = some op)
      (hrank : op = .add ∨ op = .subtract) (hright : SpellsExpr .term us right) :
      SpellsExpr .expr (ts ++ t :: us) (.math op left right t.loc)

/-- The tokens spell the test of an if statement, its parentheses included. -/
inductive SpellsTest : List Token → Condition Unit → Prop where
  | test (start finish : Location) {ts us : List Token} {left right : Expr Unit} {t : Token} {op : CompareOp}
      (hleft : SpellsExpr .expr ts left) (hop : CompareOp.ofLexeme? t.lexeme = some op)
      (hright : SpellsExpr .expr us right) :
      SpellsTest (⟨.symbol .openParen, start⟩ :: ts ++ t :: us ++ [⟨.symbol .closeParen, finish⟩])
        ⟨op, left, right, t.loc⟩

/-- The parts of a program that are made of statements. -/
inductive Part where
  | program
  | statement
  | conditional
  | block
  deriving DecidableEq, Repr

/-- The tokens spell the statements: any number of them for a program, else exactly one. What follows
an `else` belongs to the if statement whose block stands right before it. -/
inductive Spells : Part → List Token → List Stmt → Prop where
  | nil : Spells .program [] []
  | cons {ts us : List Token} {stmt : Stmt} {rest : List Stmt} (hfirst : Spells .statement ts [stmt])
      (hrest : Spells .program us rest) : Spells .program (ts ++ us) (stmt :: rest)
  | infer (name : String) (loc mark : Location) {ts : List Token} {value : Expr Unit}
      (hvalue : SpellsExpr .expr ts value) :
      Spells .statement (⟨.identifier name, loc⟩ :: ⟨.symbol .infer, mark⟩ :: ts) [.infer name value loc]
  | declare (name : String) (loc mark : Location) {t : Token} {type : Ty}
      (htype : Ty.ofLexeme? t.lexeme = some type) :
      Spells .statement [⟨.identifier name, loc⟩, ⟨.symbol .colon, mark⟩, t] [.declare name type none loc]
  | initial (name : String) (loc mark equals : Location) {t : Token} {type : Ty} {ts : List Token}
      {value : Expr Unit} (htype : Ty.ofLexeme? t.lexeme = some type) (hvalue : SpellsExpr .expr ts value) :
      Spells .statement
        (⟨.identifier name, loc⟩ :: ⟨.symbol .colon, mark⟩ :: t :: ⟨.symbol .assign, equals⟩ :: ts)
        [.declare name type (some value) loc]
  | assign (name : String) (loc mark : Location) {ts : List Token} {value : Expr Unit}
      (hvalue : SpellsExpr .expr ts value) :
      Spells .statement (⟨.identifier name, loc⟩ :: ⟨.symbol .assign, mark⟩ :: ts) [.assign name value loc]
  | print (loc start finish : Location) {ts : List Token} {value : Expr Unit}
      (hvalue : SpellsExpr .expr ts value) :
      Spells .statement
        (⟨.symbol .printWord, loc⟩ :: ⟨.symbol .openParen, start⟩ :: ts ++ [⟨.symbol .closeParen, finish⟩])
        [.print value loc]
  | ofConditional {ts : List Token} {stmt : Stmt} (h : Spells .conditional ts [stmt]) :
      Spells .statement ts [stmt]
  | ofBlock {ts : List Token} {stmt : Stmt} (h : Spells .block ts [stmt]) : Spells .statement ts [stmt]
  | block (start finish : Location) {ts : List Token} {body : List Stmt} (hbody : Spells .program ts body) :
      Spells .block (⟨.symbol .openBrace, start⟩ :: ts ++ [⟨.symbol .closeBrace, finish⟩]) [.block body start]
  | ifThen (loc : Location) {ts us : List Token} {cond : Condition Unit} {body : List Stmt} {brace : Location}
      (hcond : SpellsTest ts cond) (hbody : Spells .block us [.block body brace]) :
      Spells .conditional (⟨.symbol .ifWord, loc⟩ :: ts ++ us) [.ifThen cond body brace loc]
  | ifElse (loc mark : Location) {ts us vs : List Token} {cond : Condition Unit} {body : List Stmt}
      {brace : Location} {last : Stmt} (hcond : SpellsTest ts cond)
      (hbody : Spells .block us [.block body brace]) (hlast : Spells .block vs [last]) :
      Spells .conditional (⟨.symbol .ifWord, loc⟩ :: ts ++ us ++ ⟨.symbol .elseWord, mark⟩ :: vs)
        [.ifElse cond body brace last loc]
  | elseIf (loc mark : Location) {ts us vs : List Token} {cond : Condition Unit} {body : List Stmt}
      {brace : Location} {last : Stmt} (hcond : SpellsTest ts cond)
      (hbody : Spells .block us [.block body brace]) (hlast : Spells .conditional vs [last]) :
      Spells .conditional (⟨.symbol .ifWord, loc⟩ :: ts ++ us ++ ⟨.symbol .elseWord, mark⟩ :: vs)
        [.ifElse cond body brace last loc]

end Lai.Grammar
