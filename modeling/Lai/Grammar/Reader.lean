import Lai.Grammar.Formula
import Lai.Grammar.Phrase
/-!
# Reading phrases

The reader takes the tokens of a text one at a time, from left to right, and builds its statements.
Blocks that are still open are kept on a stack. Statements have no end mark: a statement that could
end is ended by the first token that cannot go on with it. A statement that breaks off is dropped
together with the tokens up to the end of its line, and reading starts again with the next
statement.
-/

namespace Lai.Grammar

/-- One branch of an if statement: its keyword, its test and its block. -/
structure Arm where
  loc : Location
  cond : Condition Unit
  body : List Stmt
  brace : Location
  deriving Inhabited, Repr

/-- The block of a branch. -/
def Arm.block (arm : Arm) : Stmt :=
  .block arm.body arm.brace

/-- The if statement with the given branches, latest first, in front of a last branch. -/
def branches (otherwise : Option Stmt) (arms : List Arm) : Option Stmt :=
  arms.foldl (fun later arm =>
    match later with
    | none => some (.ifThen arm.cond arm.body arm.brace arm.loc)
    | some stmt => some (.ifElse arm.cond arm.body arm.brace stmt arm.loc)) otherwise

/-- What the expression being read is for. -/
inductive Purpose where
  | infer (name : String) (loc : Location)
  | initial (name : String) (type : Ty) (loc : Location)
  | assign (name : String) (loc : Location)
  | print (loc : Location)
  | left (loc : Location)
  | right (loc : Location) (left : Expr Unit) (op : CompareOp) (opLoc : Location)
  deriving DecidableEq, Inhabited, Repr

/-- What has been read of the current statement, and so what may follow. -/
inductive Goal where
  | start
  | afterName (name : String) (loc : Location)
  | afterColon (name : String) (loc : Location)
  | afterType (name : String) (type : Ty) (loc : Location)
  | afterPrint (loc : Location)
  | afterIf (loc : Location)
  | operand (purpose : Purpose) (hole : Hole)
  | operator (purpose : Purpose) (formula : Formula)
  | afterCondition (loc : Location) (cond : Condition Unit)
  | afterThen
  | afterElse
  | skip (line : Int)
  deriving DecidableEq, Inhabited, Repr

/-- What a block is for: it stands alone, it is the branch of a test, or it is the last branch. -/
inductive Opening where
  | plain
  | branch (loc : Location) (cond : Condition Unit)
  | otherwise
  deriving DecidableEq, Inhabited, Repr

/-- An open block and what was going on around it when it was opened. -/
structure Frame where
  opening : Opening
  brace : Location
  start : Int
  arms : List Arm
  body : List Stmt
  deriving Inhabited, Repr

/-- Everything the reader remembers: the open blocks, innermost first; the statements of the current
block and the finished branches of the current if statement, latest first; the line on which the
current statement starts; the place of the last token read; and what may follow. -/
structure Reader where
  frames : List Frame := []
  body : List Stmt := []
  arms : List Arm := []
  start : Int := 0
  prev : Location := .origin
  goal : Goal := .start
  deriving Inhabited, Repr

namespace Reader

/-- Reads a token as part of the current statement. -/
def take (r : Reader) (t : Token) (goal : Goal) : Reader :=
  { r with prev := t.loc, goal := goal }

/-- Ends the current statement. -/
def add (r : Reader) (stmt : Stmt) : Reader :=
  { r with body := stmt :: r.body, arms := [], goal := .start }

/-- Ends the current if statement. -/
def addBranches (r : Reader) (otherwise : Option Stmt) : Reader :=
  { r with body := (branches otherwise r.arms).toList ++ r.body, arms := [], goal := .start }

/-- Drops the current statement. What follows on its lines is dropped too, up to the line of the last
token read. -/
def fail (r : Reader) (loc : Location) (expected : Expected) (found : Option Lexeme) : Reader :=
  { r with
    body := .broken (r.arms.reverse.map Arm.block) ⟨loc, expected, found⟩ :: r.body
    arms := []
    goal := .skip (max r.start r.prev.line) }

/-- Reads a token that does not fit, and drops the current statement. -/
def refuse (r : Reader) (t : Token) (expected : Expected) : Reader :=
  (r.take t r.goal).fail t.loc expected (some t.lexeme)

/-- Reads the brace that opens a block. -/
def openBlock (r : Reader) (t : Token) (opening : Opening) : Reader where
  frames := ⟨opening, t.loc, r.start, r.arms, r.body⟩ :: r.frames
  start := r.start
  prev := t.loc

/-- Reads the brace that closes the innermost block, which is `frame`. -/
def closeBlock (r : Reader) (t : Token) (frame : Frame) (frames : List Frame) : Reader :=
  let around : Reader := ⟨frames, frame.body, frame.arms, frame.start, t.loc, .start⟩
  match frame.opening with
  | .plain => around.add (.block r.body.reverse frame.brace)
  | .branch loc cond =>
    { around with arms := ⟨loc, cond, r.body.reverse, frame.brace⟩ :: frame.arms, goal := .afterThen }
  | .otherwise => around.addBranches (some (.block r.body.reverse frame.brace))

/-- Reads the first token of a statement, or the brace after the last one of a block. -/
def begin (r : Reader) (t : Token) : Reader :=
  let r := { r with start := t.loc.line }
  match t.lexeme with
  | .identifier name => r.take t (.afterName name t.loc)
  | .symbol .printWord => r.take t (.afterPrint t.loc)
  | .symbol .ifWord => r.take t (.afterIf t.loc)
  | .symbol .openBrace => r.openBlock t .plain
  | .symbol .closeBrace =>
    match r.frames with
    | frame :: frames => r.closeBlock t frame frames
    | [] => r.refuse t .statement
  | _ => r.refuse t .statement

/-- Drops a token on a line that is being skipped; one on a later line begins a statement. -/
def skipOr (r : Reader) (line : Int) (t : Token) : Reader :=
  if t.loc.line ≤ line then { r with prev := t.loc } else r.begin t

/-- Meets a token that does not fit without reading it, drops the current statement, and goes on with
that token. -/
def reject (r : Reader) (t : Token) (expected : Expected) : Reader :=
  (r.fail t.loc expected (some t.lexeme)).skipOr (max r.start r.prev.line) t

/-- Reads a symbol that has to follow. -/
def require (r : Reader) (t : Token) (s : Symbol) (next : Reader) : Reader :=
  if t.lexeme = .symbol s then next else r.reject t (.symbol s)

/-- Goes on after a whole expression, the next token not being an operator. -/
def settle (r : Reader) (purpose : Purpose) (value : Expr Unit) (t : Token) : Reader :=
  match purpose with
  | .infer name loc => (r.add (.infer name value loc)).begin t
  | .initial name type loc => (r.add (.declare name type (some value) loc)).begin t
  | .assign name loc => (r.add (.assign name value loc)).begin t
  | .print loc => r.require t .closeParen ((r.take t .start).add (.print value loc))
  | .left loc =>
    match CompareOp.ofLexeme? t.lexeme with
    | some op => r.take t (.operand (.right loc value op t.loc) {})
    | none => r.refuse t .comparison
  | .right loc left op opLoc =>
    r.require t .closeParen (r.take t (.afterCondition loc ⟨op, left, value, opLoc⟩))

/-- Reads a token. -/
def next (r : Reader) (t : Token) : Reader :=
  match r.goal with
  | .start => r.begin t
  | .skip line => r.skipOr line t
  | .afterName name loc =>
    match t.lexeme with
    | .symbol .infer => r.take t (.operand (.infer name loc) {})
    | .symbol .colon => r.take t (.afterColon name loc)
    | .symbol .assign => r.take t (.operand (.assign name loc) {})
    | _ => r.reject t (.binder name)
  | .afterColon name loc =>
    match Ty.ofLexeme? t.lexeme with
    | some type => r.take t (.afterType name type loc)
    | none => r.refuse t .typeName
  | .afterType name type loc =>
    if t.lexeme = .symbol .assign then r.take t (.operand (.initial name type loc) {})
    else (r.add (.declare name type none loc)).begin t
  | .afterPrint loc => r.require t .openParen (r.take t (.operand (.print loc) {}))
  | .afterIf loc => r.require t .openParen (r.take t (.operand (.left loc) {}))
  | .operand purpose hole =>
    match t.lexeme with
    | .integer value => r.take t (.operator purpose (hole.fill (.int value t.loc)))
    | .string text => r.take t (.operator purpose (hole.fill (.string text t.loc)))
    | .identifier name => r.take t (.operator purpose (hole.fill (.var name () t.loc)))
    | .symbol .openParen => r.take t (.operand purpose hole.nest)
    | _ => r.reject t .operand
  | .operator purpose formula =>
    match MathOp.ofLexeme? t.lexeme with
    | some op => r.take t (.operand purpose (formula.extend op t.loc))
    | none =>
      match formula.outer with
      | level :: outer =>
        r.require t .closeParen (r.take t (.operator purpose (formula.close level outer)))
      | [] => r.settle purpose formula.value t
  | .afterCondition loc cond => r.require t .openBrace (r.openBlock t (.branch loc cond))
  | .afterThen =>
    if t.lexeme = .symbol .elseWord then r.take t .afterElse else (r.addBranches none).begin t
  | .afterElse =>
    if t.lexeme = .symbol .ifWord then r.take t (.afterIf t.loc)
    else r.require t .openBrace (r.openBlock t .otherwise)

/-- Meets the end of the text after a whole expression. -/
def settleEnd (r : Reader) (purpose : Purpose) (value : Expr Unit) : Reader :=
  match purpose with
  | .infer name loc => r.add (.infer name value loc)
  | .initial name type loc => r.add (.declare name type (some value) loc)
  | .assign name loc => r.add (.assign name value loc)
  | .print _ => r.fail r.prev (.symbol .closeParen) none
  | .left _ => r.fail r.prev .comparison none
  | .right .. => r.fail r.prev (.symbol .closeParen) none

/-- Meets the end of the text inside a statement. -/
def endStatement (r : Reader) : Reader :=
  match r.goal with
  | .start | .skip _ => r
  | .afterName name loc => r.fail loc (.binder name) none
  | .afterColon .. => r.fail r.prev .typeName none
  | .afterType name type loc => r.add (.declare name type none loc)
  | .afterPrint _ | .afterIf _ => r.fail r.prev (.symbol .openParen) none
  | .operand .. => r.fail r.prev .operand none
  | .operator purpose formula =>
    match formula.outer with
    | _ :: _ => r.fail r.prev (.symbol .closeParen) none
    | [] => r.settleEnd purpose formula.value
  | .afterCondition .. | .afterElse => r.fail r.prev (.symbol .openBrace) none
  | .afterThen => r.addBranches none

/-- Meets the end of the text inside blocks: each of them lacks its closing brace and is dropped with
the statement it belongs to. -/
def endBlocks (prev : Location) : List Frame → List Stmt → List Stmt
  | [], body => body.reverse
  | frame :: frames, body =>
    let blocks := frame.arms.reverse.map Arm.block ++ [.block body.reverse frame.brace]
    endBlocks prev frames (.broken blocks ⟨prev, .symbol .closeBrace, none⟩ :: frame.body)

/-- The statements read, once the text has ended. -/
def finish (r : Reader) : List Stmt :=
  let r := r.endStatement
  endBlocks r.prev r.frames r.body

end Reader

/-- The statements of a text. -/
def read (tokens : List Token) : List Stmt :=
  (tokens.foldl Reader.next {}).finish

end Lai.Grammar
