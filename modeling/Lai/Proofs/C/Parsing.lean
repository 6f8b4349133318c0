import Lai.Proofs.C.Grammar
/-!
# C is unambiguous

A parser goes through the tokens of an expression once, from left to right, and never has a choice. Operators
wait for their right operands, the tightest one innermost; a new operator first supplies those that bind at
least as tightly as itself. Open parentheses keep what waits around them. Whatever tree the rules derive from
tokens, the parser builds from them, so no tokens are derived as two trees. Of which kind a statement is, its
first two tokens tell, and the expressions in it end at marks that no expression contains, so neither are
tokens derived as two lists of statements.
-/

namespace Lai.C

open Text

/-! ### The parser -/

/-- An operator that waits for its right operand. -/
inductive Waiting where
  | minus
  | binary (left : CTree) (op : BinaryOp)

namespace Waiting

def precedence : Waiting → Nat
  | .minus => signPrecedence
  | .binary _ op => op.precedence

def supply : Waiting → CTree → CTree
  | .minus, e => .minus e
  | .binary left op, e => .binary op left e

end Waiting

/-- The operand with everything that waits for it, innermost first. -/
def collapse (waiting : List Waiting) (e : CTree) : CTree :=
  waiting.foldl (fun e w => w.supply e) e

/-- Supplies the operators that bind at least as tightly as the precedence: those that still wait, and the
operand that has come about. -/
def reduce (k : Nat) : List Waiting → CTree → List Waiting × CTree
  | [], e => ([], e)
  | w :: waiting, e => if k ≤ w.precedence then reduce k waiting (w.supply e) else (w :: waiting, e)

/-- An open parenthesis, with what waits around it. -/
inductive Open where
  | group (waiting : List Waiting)
  | call (waiting : List Waiting) (callee : CTree) (arguments : List CTree)

/-- The parser stands before or behind an operand. -/
inductive Parser where
  | before (waiting : List Waiting) (outer : List Open)
  | behind (waiting : List Waiting) (operand : CTree) (outer : List Open)

namespace BinaryOp

def all : List BinaryOp :=
  MathOp.all.map .math ++ CompareOp.all.map .compare

def ofSpelling? (spelling : List UInt8) : Option BinaryOp :=
  all.find? (·.spelling = spelling)

end BinaryOp

namespace Parser

/-- Reads a closing parenthesis behind an expression. -/
def close (e : CTree) : List Open → Option Parser
  | [] => none
  | .group waiting :: outer => some (.behind waiting (.group e) outer)
  | .call waiting f es :: outer => some (.behind waiting (.call f (es ++ [e])) outer)

/-- Reads a comma behind an argument. -/
def next (e : CTree) : List Open → Option Parser
  | .call waiting f es :: outer => some (.before [] (.call waiting f (es ++ [e]) :: outer))
  | _ => none

/-- Reads a closing parenthesis right behind its opening one. -/
def closeEmpty : List Waiting → List Open → Option Parser
  | [], .call waiting f [] :: outer => some (.behind waiting (.call f []) outer)
  | _, _ => none

/-- Reads an operator behind an operand. -/
def extend (waiting : List Waiting) (e : CTree) (op : BinaryOp) (outer : List Open) : Parser :=
  .before (.binary (reduce op.precedence waiting e).2 op :: (reduce op.precedence waiting e).1) outer

def step : Parser → CToken → Option Parser
  | .before waiting outer, .number spelling =>
    (constant? spelling).map fun x => .behind waiting (.constant x.1 x.2) outer
  | .before waiting outer, .literal value => some (.behind waiting (.literal value) outer)
  | .before waiting outer, .name spelling =>
    if spelling ∈ cKeywords then none else some (.behind waiting (.name spelling) outer)
  | .before waiting outer, .mark spelling =>
    if spelling = bytes "(" then some (.before [] (.group waiting :: outer))
    else if spelling = bytes ")" then closeEmpty waiting outer
    else if spelling = bytes "-" then some (.before (.minus :: waiting) outer)
    else none
  | .behind waiting e outer, .mark spelling =>
    if spelling = bytes "(" then some (.before [] (.call waiting e [] :: outer))
    else if spelling = bytes ")" then close (collapse waiting e) outer
    else if spelling = bytes "," then next (collapse waiting e) outer
    else (BinaryOp.ofSpelling? spelling).map fun op => extend waiting e op outer
  | .behind .., _ => none

def run (r : Parser) : List CToken → Option Parser
  | [] => some r
  | t :: ts => (r.step t).bind fun r => r.run ts

/-- The tree that has been read, if all parentheses are closed. -/
def result? : Parser → Option CTree
  | .behind waiting e [] => some (collapse waiting e)
  | _ => none

end Parser

/-- Parses tokens as an expression. -/
def parse (ts : List CToken) : Option CTree :=
  (Parser.run (.before [] []) ts).bind Parser.result?

/-! ### What waits -/

theorem collapse_append (inner outer : List Waiting) (e : CTree) :
    collapse (inner ++ outer) e = collapse outer (collapse inner e) :=
  List.foldl_append

theorem reduce_append {k : Nat} {inner outer : List Waiting} (hinner : ∀ w ∈ inner, k ≤ w.precedence)
    (houter : ∀ w ∈ outer, w.precedence < k) (e : CTree) : reduce k (inner ++ outer) e = (outer, collapse inner e) := by
  induction inner generalizing e with
  | nil =>
      cases outer with
      | nil => rfl
      | cons w outer => exact if_neg (Nat.not_le.2 (houter w List.mem_cons_self))
  | cons w inner ih =>
      rw [List.cons_append, reduce, if_pos (hinner w List.mem_cons_self),
        ih fun v hv => hinner v (List.mem_cons_of_mem w hv)]
      rfl

theorem BinaryOp.precedence_lt (op : BinaryOp) : op.precedence < signPrecedence := by
  cases op with
  | math op => cases op <;> decide
  | compare op => cases op <;> decide

theorem step_operator (op : BinaryOp) (waiting : List Waiting) (e : CTree) (outer : List Open) :
    Parser.step (.behind waiting e outer) op.token = some (.extend waiting e op outer) := by
  cases op with
  | math op => cases op <;> rfl
  | compare op => cases op <;> rfl

/-! ### The parser builds what is derived -/

/-- What reading tokens of the phrase does. Behind a chain its own operators wait in front of those that waited
before, which have to bind less tightly; signs take in operands only and leave all of them alone. -/
def Read : Phrase → List CToken → List CTree → Prop
  | .operand, ts, es => ∃ e, es = [e] ∧ ∀ waiting outer rest,
      Parser.run (.before waiting outer) (ts ++ rest) = Parser.run (.behind waiting e outer) rest
  | .chain k, ts, es => ∃ waiting e, es = [collapse waiting e] ∧ (∀ w ∈ waiting, k ≤ w.precedence) ∧
      ∀ before, (k < signPrecedence → ∀ w ∈ before, w.precedence < k) → ∀ outer rest,
        Parser.run (.before before outer) (ts ++ rest) = Parser.run (.behind (waiting ++ before) e outer) rest
  | .arguments, ts, es => ∃ front waiting e, es = front ++ [collapse waiting e] ∧ ∀ before f args outer rest,
      Parser.run (.before [] (.call before f args :: outer)) (ts ++ rest) =
        Parser.run (.behind waiting e (.call before f (args ++ front) :: outer)) rest

theorem Read.group {ts : List CToken} {e : CTree} (h : Read (.chain 1) ts [e]) :
    Read .operand (.mark (bytes "(") :: ts ++ [.mark (bytes ")")]) [.group e] := by
  obtain ⟨inner, x, hx, -, hrun⟩ := h
  refine ⟨_, rfl, fun waiting outer rest => ?_⟩
  rw [List.append_assoc, List.cons_append]
  calc
    _ = Parser.run (.before [] (.group waiting :: outer)) (ts ++ .mark (bytes ")") :: rest) := rfl
    _ = Parser.run (.behind inner x (.group waiting :: outer)) (.mark (bytes ")") :: rest) := by
      rw [hrun [] (by simp), List.append_nil]
    _ = Parser.run (.behind waiting (.group (collapse inner x)) outer) rest := rfl
    _ = _ := by rw [← List.singleton_inj.1 hx]

theorem Read.call {ts us : List CToken} {f : CTree} {es : List CTree} (hcallee : Read .operand ts [f])
    (harguments : Read .arguments us es) :
    Read .operand (ts ++ .mark (bytes "(") :: us ++ [.mark (bytes ")")]) [.call f es] := by
  obtain ⟨g, hg, hrun⟩ := hcallee
  obtain ⟨front, inner, x, rfl, hinside⟩ := harguments
  refine ⟨_, rfl, fun waiting outer rest => ?_⟩
  rw [List.append_assoc, List.append_assoc, List.cons_append, hrun]
  calc
    _ = Parser.run (.before [] (.call waiting g [] :: outer)) (us ++ .mark (bytes ")") :: rest) := rfl
    _ = Parser.run (.behind inner x (.call waiting g front :: outer)) (.mark (bytes ")") :: rest) := by
      rw [hinside, List.nil_append]
    _ = Parser.run (.behind waiting (.call g (front ++ [collapse inner x])) outer) rest := rfl
    _ = _ := by rw [← List.singleton_inj.1 hg]

theorem Read.arguments {ts us : List CToken} {e : CTree} {es : List CTree} (hfirst : Read .arguments ts es)
    (hlast : Read (.chain 1) us [e]) : Read .arguments (ts ++ .mark (bytes ",") :: us) (es ++ [e]) := by
  obtain ⟨front, inner, x, rfl, hinside⟩ := hfirst
  obtain ⟨waiting, y, hy, -, hrun⟩ := hlast
  refine ⟨front ++ [collapse inner x], waiting, y, by rw [hy], fun before f args outer rest => ?_⟩
  rw [List.append_assoc, List.cons_append, hinside]
  calc
    _ = Parser.run (.before [] (.call before f (args ++ front ++ [collapse inner x]) :: outer)) (us ++ rest) := rfl
    _ = _ := by rw [hrun [] (by simp), List.append_nil, List.append_assoc]

theorem Read.minus {ts : List CToken} {e : CTree} (h : Read (.chain signPrecedence) ts [e]) :
    Read (.chain signPrecedence) (.mark (bytes "-") :: ts) [.minus e] := by
  obtain ⟨waiting, x, hx, hprecedence, hrun⟩ := h
  refine ⟨waiting ++ [.minus], x, ?_, ?_, fun before _ outer rest => ?_⟩
  · rw [collapse_append, ← List.singleton_inj.1 hx]
    rfl
  · rw [List.forall_mem_append, List.forall_mem_singleton]
    exact ⟨hprecedence, Nat.le_refl _⟩
  · calc
      _ = Parser.run (.before (.minus :: before) outer) (ts ++ rest) := rfl
      _ = _ := by
        rw [hrun (.minus :: before) fun h => absurd h (Nat.lt_irrefl _), List.append_assoc, List.singleton_append]

/-- The operators of the left operand that are not supplied already are supplied by the operator, and its own
left operand waits with it for the right one. -/
theorem Read.binary (op : BinaryOp) {ts us : List CToken} {left right : CTree}
    (hleft : Read (.chain op.precedence) ts [left]) (hright : Read (.chain (op.precedence + 1)) us [right]) :
    Read (.chain op.precedence) (ts ++ op.token :: us) [.binary op left right] := by
  obtain ⟨first, x, hx, hfirst, hrun⟩ := hleft
  obtain ⟨second, y, hy, hsecond, hrest⟩ := hright
  obtain rfl := List.singleton_inj.1 hx
  obtain rfl := List.singleton_inj.1 hy
  refine ⟨second ++ [.binary (collapse first x) op], y, ?_, ?_, fun before hbefore outer rest => ?_⟩
  · rw [collapse_append]
    rfl
  · rw [List.forall_mem_append, List.forall_mem_singleton]
    exact ⟨fun w hw => Nat.le_of_succ_le (hsecond w hw), Nat.le_refl _⟩
  · have hlooser := hbefore op.precedence_lt
    have hextend : Parser.extend (first ++ before) x op outer =
        .before (.binary (collapse first x) op :: before) outer := by
      rw [Parser.extend, reduce_append hfirst hlooser]
    have hwaiting : ∀ w ∈ Waiting.binary (collapse first x) op :: before, w.precedence < op.precedence + 1 := by
      rw [List.forall_mem_cons]
      exact ⟨Nat.lt_succ_self _, fun w hw => Nat.lt_succ_of_lt (hlooser w hw)⟩
    rw [List.append_assoc, List.cons_append, hrun before hbefore, Parser.run, step_operator, Option.bind_some, hextend,
      hrest _ fun _ => hwaiting, List.append_assoc, List.singleton_append]

/-- Reading tokens that are derived as a tree builds the tree. -/
theorem DerivesTree.read {phrase : Phrase} {ts : List CToken} {es : List CTree} (h : DerivesTree phrase ts es) :
    Read phrase ts es := by
  induction h with
  | constant h => exact ⟨_, rfl, fun waiting outer rest => by simp [Parser.run, Parser.step, h]⟩
  | literal value => exact ⟨_, rfl, fun waiting outer rest => rfl⟩
  | name h => exact ⟨_, rfl, fun waiting outer rest => by simp [Parser.run, Parser.step, h]⟩
  | group _ ih => exact ih.group
  | call _ _ ihcallee iharguments => exact ihcallee.call iharguments
  | callEmpty _ ih =>
      obtain ⟨f, hf, hrun⟩ := ih
      refine ⟨_, rfl, fun waiting outer rest => ?_⟩
      rw [List.append_assoc, hrun, ← List.singleton_inj.1 hf]
      rfl
  | argument _ ih =>
      obtain ⟨waiting, x, hx, -, hrun⟩ := ih
      refine ⟨[], waiting, x, hx, fun before f args outer rest => ?_⟩
      rw [hrun [] (by simp), List.append_nil, List.append_nil]
  | arguments _ _ ihfirst ihlast => exact ihfirst.arguments ihlast
  | operand _ ih =>
      obtain ⟨e, he, hrun⟩ := ih
      exact ⟨[], e, he, by simp, fun before _ outer rest => hrun before outer rest⟩
  | minus _ ih => exact ih.minus
  | tighter _ ih =>
      obtain ⟨waiting, x, hx, hprecedence, hrun⟩ := ih
      refine ⟨waiting, x, hx, fun w hw => Nat.le_of_succ_le (hprecedence w hw), fun before hbefore => hrun before ?_⟩
      exact fun hlt w hw => Nat.lt_succ_of_lt (hbefore (Nat.lt_of_succ_lt hlt) w hw)
  | binary op _ _ ihleft ihright => exact ihleft.binary op ihright

theorem DerivesTree.parse_eq {k : Nat} {ts : List CToken} {e : CTree} (h : DerivesTree (.chain k) ts [e]) :
    parse ts = some e := by
  obtain ⟨waiting, x, hx, -, hrun⟩ := h.read
  have hend := hrun [] (by simp) [] []
  rw [List.append_nil, List.append_nil] at hend
  rw [parse, hend, List.singleton_inj.1 hx]
  rfl

theorem DerivesTree.unique {k : Nat} {ts : List CToken} {e f : CTree} (he : DerivesTree (.chain k) ts [e])
    (hf : DerivesTree (.chain k) ts [f]) : e = f :=
  Option.some.inj (he.parse_eq.symm.trans hf.parse_eq)

/-- A text has one parse at most. -/
theorem Parses.unique {text : List UInt8} {e f : CTree} (he : Parses text e) (hf : Parses text f) : e = f := by
  obtain ⟨ts, hts, he⟩ := he
  obtain ⟨us, hus, hf⟩ := hf
  obtain rfl := Option.some.inj (hts.symm.trans hus)
  exact he.unique hf

theorem Parses.iff_eq {text : List UInt8} {e f : CTree} (he : Parses text e) : Parses text f ↔ f = e :=
  ⟨fun hf => hf.unique he, fun h => h ▸ he⟩

/-! ### Statements are unambiguous -/

/-- Whether the token can stand in an expression. -/
def CToken.inExpression : CToken → Bool
  | .number _ | .literal _ => true
  | .name spelling => spelling ∉ cKeywords
  | .mark spelling =>
    spelling = bytes "(" || spelling = bytes ")" || spelling = bytes "," || (BinaryOp.ofSpelling? spelling).isSome

theorem BinaryOp.inExpression_token (op : BinaryOp) : op.token.inExpression = true := by
  cases op with
  | math op => cases op <;> decide
  | compare op => cases op <;> decide

theorem DerivesTree.inExpression {phrase : Phrase} {ts : List CToken} {es : List CTree} (h : DerivesTree phrase ts es) :
    ts.all CToken.inExpression = true := by
  induction h with
  | constant h => rfl
  | literal value => rfl
  | name h => simp [CToken.inExpression, h]
  | group _ ih => simpa [CToken.inExpression] using ih
  | call _ _ ihcallee iharguments => simp [ihcallee, iharguments, CToken.inExpression]
  | callEmpty _ ih => simp [ih, CToken.inExpression]
  | argument _ ih => exact ih
  | arguments _ _ ihfirst ihlast => simp [ihfirst, ihlast, CToken.inExpression]
  | operand _ ih => exact ih
  | minus _ ih =>
      have hminus : (CToken.mark (bytes "-")).inExpression = true := by decide
      rw [List.all_cons, hminus, ih]
      rfl
  | tighter _ ih => exact ih
  | binary op _ _ ihleft ihright => simp [ihleft, ihright, op.inExpression_token]

theorem DerivesTree.ne_nil {phrase : Phrase} {ts : List CToken} {es : List CTree} (h : DerivesTree phrase ts es) :
    ts ≠ [] := by
  induction h <;> simp_all

/-- Two lists that are cut at the first element without a property are cut at the same place. -/
theorem append_cons_inj {α : Type} {p : α → Bool} {us vs rest more : List α} {x y : α} (hus : us.all p = true)
    (hvs : vs.all p = true) (hx : p x = false) (hy : p y = false) (h : us ++ x :: rest = vs ++ y :: more) :
    us = vs ∧ x = y ∧ rest = more := by
  induction us generalizing vs with
  | nil =>
      cases vs with
      | nil => simpa using h
      | cons v vs =>
          rw [List.all_cons, Bool.and_eq_true, ← (List.cons.inj h).1, hx] at hvs
          exact absurd hvs.1 Bool.false_ne_true
  | cons u us ih =>
      cases vs with
      | nil =>
          rw [List.all_cons, Bool.and_eq_true, (List.cons.inj h).1, hy] at hus
          exact absurd hus.1 Bool.false_ne_true
      | cons v vs =>
          rw [List.all_cons, Bool.and_eq_true] at hus hvs
          obtain ⟨rfl, hrest⟩ := List.cons.inj h
          obtain ⟨rfl, hparts⟩ := ih hus.2 hvs.2 hrest
          exact ⟨rfl, hparts⟩

/-- An expression ends in front of the first token that cannot stand in one. -/
theorem DerivesTree.unique_before {ts us rest more : List CToken} {e f : CTree} (he : DerivesTree (.chain 1) ts [e])
    (hf : DerivesTree (.chain 1) us [f]) {stop : CToken} (hstop : stop.inExpression = false)
    (h : ts ++ stop :: rest = us ++ stop :: more) : ts = us ∧ e = f ∧ rest = more := by
  obtain ⟨rfl, -, hrest⟩ := append_cons_inj he.inExpression hf.inExpression hstop hstop h
  exact ⟨rfl, he.unique hf, hrest⟩

theorem CType.tokens_append_inj {type other : CType} {ts us : List CToken} (h : type.tokens ++ ts = other.tokens ++ us) :
    type = other ∧ ts = us := by
  have hwords : bytes "int" ≠ bytes "const" := by decide
  cases type <;> cases other <;> simp_all [CType.tokens, eq_comm]

/-- The kinds of statements that can be told from each other by how they begin. -/
inductive Form where
  | declaration
  | assignment
  | expression
  | result
  | conditional
  | block

def CStmt.form : CStmt → Form
  | .declare .. => .declaration
  | .assign .. => .assignment
  | .expression _ => .expression
  | .result _ => .result
  | .ifThen .. | .ifElse .. => .conditional
  | .block _ => .block

def formOf : List CToken → Form
  | .mark spelling :: _ => if spelling = bytes "\x7b" then .block else .expression
  | .name spelling :: rest =>
    if spelling = bytes "int" ∨ spelling = bytes "const" then .declaration
    else if spelling = bytes "return" then .result
    else if spelling = bytes "if" then .conditional
    else if rest.head? = some (.mark (bytes "=")) then .assignment
    else .expression
  | _ => .expression

theorem formOf_name {spelling : List UInt8} (h : spelling ∉ cKeywords) (rest : List CToken) :
    formOf (.name spelling :: rest) = if rest.head? = some (.mark (bytes "=")) then .assignment else .expression := by
  have hother (word : String) (hword : bytes word ∈ cKeywords) : spelling ≠ bytes word := fun heq => h (heq ▸ hword)
  rw [formOf, if_neg (not_or.2 ⟨hother "int" (by decide), hother "const" (by decide)⟩),
    if_neg (hother "return" (by decide)), if_neg (hother "if" (by decide))]

theorem DerivesTree.formOf_eq {ts : List CToken} {e : CTree} (h : DerivesTree (.chain 1) ts [e]) (rest : List CToken) :
    formOf (ts ++ .mark (bytes ";") :: rest) = .expression := by
  have hall := h.inExpression
  obtain ⟨t, us, rfl⟩ := List.exists_cons_of_ne_nil h.ne_nil
  rw [List.all_cons, Bool.and_eq_true] at hall
  cases t with
  | number spelling => rfl
  | literal value => rfl
  | mark spelling =>
      refine if_neg ?_
      rintro rfl
      exact absurd hall.1 (by decide)
  | name spelling =>
      rw [List.cons_append, formOf_name (by simpa [CToken.inExpression] using hall.1), if_neg]
      intro hequals
      cases us with
      | nil => exact absurd (CToken.mark.inj (Option.some.inj hequals)) (by decide)
      | cons t us =>
          obtain rfl := Option.some.inj hequals
          rw [List.all_cons, Bool.and_eq_true] at hall
          exact absurd hall.2.1 (by decide)

theorem DerivesCode.formOf_eq {part : CPart} {ts : List CToken} {stmt : CStmt} (h : DerivesCode part ts [stmt])
    (hpart : part ≠ .body) (rest : List CToken) : formOf (ts ++ rest) = stmt.form := by
  generalize hstmts : [stmt] = stmts at h
  induction h generalizing stmt with
  | nil => contradiction
  | cons => contradiction
  | declare type hname hvalue =>
      obtain rfl := List.singleton_inj.1 hstmts
      cases type <;> rfl
  | assign hname hvalue =>
      obtain rfl := List.singleton_inj.1 hstmts
      exact (formOf_name hname _).trans (if_pos rfl)
  | expression hvalue =>
      obtain rfl := List.singleton_inj.1 hstmts
      rw [List.append_assoc]
      exact hvalue.formOf_eq rest
  | result hvalue =>
      obtain rfl := List.singleton_inj.1 hstmts
      rfl
  | ofConditional h ih => exact ih (by decide) hstmts
  | ofBlock h ih => exact ih (by decide) hstmts
  | block | ifThen | ifElse =>
      obtain rfl := List.singleton_inj.1 hstmts
      rfl

theorem DerivesCode.exists_cons {part : CPart} {ts : List CToken} {stmts : List CStmt} (h : DerivesCode part ts stmts)
    (hpart : part ≠ .body) :
    ∃ t us, ts = t :: us ∧ t ≠ .mark (bytes "\x7d") ∧ t ≠ .name (bytes "else") := by
  induction h with
  | nil => contradiction
  | cons => contradiction
  | declare type hname hvalue => cases type <;> exact ⟨_, _, rfl, by decide, by decide⟩
  | assign hname hvalue =>
      refine ⟨_, _, rfl, by simp, fun heq => hname ?_⟩
      rw [CToken.name.inj heq]
      decide
  | expression hvalue =>
      have hall := hvalue.inExpression
      obtain ⟨t, us, rfl⟩ := List.exists_cons_of_ne_nil hvalue.ne_nil
      rw [List.all_cons, Bool.and_eq_true] at hall
      have hother (u : CToken) (hu : u.inExpression = false) : t ≠ u := by
        rintro rfl
        exact Bool.false_ne_true (hu.symm.trans hall.1)
      exact ⟨t, _, rfl, hother _ (by decide), hother _ (by decide)⟩
  | ofConditional h ih => exact ih (by decide)
  | ofBlock h ih => exact ih (by decide)
  | result | block | ifThen | ifElse => exact ⟨_, _, rfl, by decide, by decide⟩

/-- What can follow the part: behind a body its closing brace or nothing, behind a statement no `else`. -/
def CPart.Precedes : CPart → List CToken → Prop
  | .body, rest => ∀ t ∈ rest.head?, t = .mark (bytes "\x7d")
  | .statement, rest | .conditional, rest => rest.head? ≠ some (.name (bytes "else"))
  | .block, _ => True

theorem DerivesCode.precedes {us rest : List CToken} {stmts : List CStmt} (h : DerivesCode .body us stmts)
    (hrest : CPart.body.Precedes rest) : CPart.statement.Precedes (us ++ rest) := by
  cases h with
  | nil =>
      intro helse
      exact absurd (hrest _ helse) (by decide)
  | cons hfirst hmore =>
      obtain ⟨t, us, rfl, -, helse⟩ := hfirst.exists_cons (by decide)
      exact fun heq => helse (Option.some.inj heq)

/-- What a derivation of the part says about any other one of tokens that begin alike. -/
def Unique (part : CPart) (ts : List CToken) (stmts : List CStmt) : Prop :=
  ∀ {us : List CToken} {others : List CStmt} {rest more : List CToken}, DerivesCode part us others →
    ts ++ rest = us ++ more → part.Precedes rest → part.Precedes more → ts = us ∧ stmts = others

/-- If statements that begin alike have the same test and the same first block. -/
theorem conditional_inj {ts us vs ws rest more : List CToken} {test other : CTree} {body others : List CStmt}
    (htest : DerivesTree (.chain 1) ts [test]) (hother : DerivesTree (.chain 1) vs [other])
    (hbody : DerivesCode .block us [.block body]) (hothers : DerivesCode .block ws [.block others])
    (ih : Unique .block us [.block body])
    (heq : .name (bytes "if") :: .mark (bytes "(") :: ts ++ .mark (bytes ")") :: us ++ rest =
      .name (bytes "if") :: .mark (bytes "(") :: vs ++ .mark (bytes ")") :: ws ++ more) :
    ts = vs ∧ us = ws ∧ test = other ∧ body = others ∧ rest = more := by
  have hopen {us : List CToken} {body : List CStmt} (h : DerivesCode .block us [.block body]) :
      ∃ inner, us = .mark (bytes "\x7b") :: inner := by
    cases h with
    | block hbody => exact ⟨_, rfl⟩
  obtain ⟨inner, hinner⟩ := hopen hbody
  obtain ⟨innermost, hinnermost⟩ := hopen hothers
  have hclose {ts : List CToken} {e : CTree} (h : DerivesTree (.chain 1) ts [e]) :
      (ts ++ [CToken.mark (bytes ")")]).all CToken.inExpression = true := by
    rw [List.all_append, h.inExpression]
    decide
  have htokens : (ts ++ [CToken.mark (bytes ")")]) ++ CToken.mark (bytes "\x7b") :: (inner ++ rest) =
      (vs ++ [CToken.mark (bytes ")")]) ++ CToken.mark (bytes "\x7b") :: (innermost ++ more) := by
    rw [hinner, hinnermost] at heq
    simpa using heq
  obtain ⟨hfront, -, hbehind⟩ := append_cons_inj (hclose htest) (hclose hother) (by decide) (by decide) htokens
  obtain rfl := List.append_cancel_right hfront
  have hblocks : us ++ rest = ws ++ more := by
    rw [hinner, hinnermost, List.cons_append, List.cons_append, hbehind]
  obtain ⟨rfl, hsame⟩ := ih hothers hblocks trivial trivial
  exact ⟨rfl, rfl, htest.unique hother, CStmt.block.inj (List.singleton_inj.1 hsame), List.append_cancel_left hblocks⟩

/-- Statements that begin alike are of one kind. -/
theorem DerivesCode.form_eq {ts us rest more : List CToken} {stmts others : List CStmt}
    (h : DerivesCode .statement ts stmts) (h' : DerivesCode .statement us others) (heq : ts ++ rest = us ++ more) :
    stmts.map CStmt.form = others.map CStmt.form := by
  have hsingle {ts : List CToken} {stmts : List CStmt} (h : DerivesCode .statement ts stmts) : ∃ stmt, stmts = [stmt] := by
    cases h <;> exact ⟨_, rfl⟩
  obtain ⟨stmt, rfl⟩ := hsingle h
  obtain ⟨other, rfl⟩ := hsingle h'
  rw [List.map_singleton, List.map_singleton, ← h.formOf_eq (by decide) rest, heq, h'.formOf_eq (by decide)]

section

variable {ts us vs : List CToken} {value test : CTree} {body : List CStmt} {last : CStmt}

theorem unique_declare (type : CType) {name : List UInt8} (hname : name ∉ cKeywords)
    (hvalue : DerivesTree (.chain 1) ts [value]) :
    Unique .statement (type.tokens ++ .name name :: .mark (bytes "=") :: ts ++ [.mark (bytes ";")])
      [.declare type name value] := by
  intro us others rest more h' heq _ _
  have hform := (DerivesCode.declare type hname hvalue).form_eq h' heq
  cases h' with
  | declare type' hname' hvalue' =>
      simp only [List.append_assoc] at heq
      obtain ⟨rfl, hbehind⟩ := CType.tokens_append_inj heq
      simp only [List.cons_append, List.cons.injEq, CToken.name.injEq, true_and] at hbehind
      obtain ⟨rfl, hvalues⟩ := hbehind
      obtain ⟨rfl, rfl, -⟩ := hvalue.unique_before hvalue' (by decide) hvalues
      exact ⟨rfl, rfl⟩
  | ofConditional h | ofBlock h => cases h <;> cases hform
  | _ => cases hform

theorem unique_assign {name : List UInt8} (hname : name ∉ cKeywords) (hvalue : DerivesTree (.chain 1) ts [value]) :
    Unique .statement (.name name :: .mark (bytes "=") :: ts ++ [.mark (bytes ";")]) [.assign name value] := by
  intro us others rest more h' heq _ _
  have hform := (DerivesCode.assign hname hvalue).form_eq h' heq
  cases h' with
  | assign hname' hvalue' =>
      simp only [List.append_assoc, List.cons_append, List.cons.injEq, CToken.name.injEq, true_and] at heq
      obtain ⟨rfl, hvalues⟩ := heq
      obtain ⟨rfl, rfl, -⟩ := hvalue.unique_before hvalue' (by decide) hvalues
      exact ⟨rfl, rfl⟩
  | ofConditional h | ofBlock h => cases h <;> cases hform
  | _ => cases hform

theorem unique_expression (hvalue : DerivesTree (.chain 1) ts [value]) :
    Unique .statement (ts ++ [.mark (bytes ";")]) [.expression value] := by
  intro us others rest more h' heq _ _
  have hform := (DerivesCode.expression hvalue).form_eq h' heq
  cases h' with
  | expression hvalue' =>
      rw [List.append_assoc, List.append_assoc] at heq
      obtain ⟨rfl, rfl, -⟩ := hvalue.unique_before hvalue' (by decide) heq
      exact ⟨rfl, rfl⟩
  | ofConditional h | ofBlock h => cases h <;> cases hform
  | _ => cases hform

theorem unique_result (hvalue : DerivesTree (.chain 1) ts [value]) :
    Unique .statement (.name (bytes "return") :: ts ++ [.mark (bytes ";")]) [.result value] := by
  intro us others rest more h' heq _ _
  have hform := (DerivesCode.result hvalue).form_eq h' heq
  cases h' with
  | result hvalue' =>
      simp only [List.append_assoc, List.cons_append, List.cons.injEq, true_and] at heq
      obtain ⟨rfl, rfl, -⟩ := hvalue.unique_before hvalue' (by decide) heq
      exact ⟨rfl, rfl⟩
  | ofConditional h | ofBlock h => cases h <;> cases hform
  | _ => cases hform

/-- An if statement goes on behind its block if and only if `else` follows. -/
theorem unique_ifThen (htest : DerivesTree (.chain 1) ts [test]) (hbody : DerivesCode .block us [.block body])
    (ih : Unique .block us [.block body]) :
    Unique .conditional (.name (bytes "if") :: .mark (bytes "(") :: ts ++ .mark (bytes ")") :: us)
      [.ifThen test body] := by
  intro _ others rest more h' heq hrest hmore
  cases h' with
  | ifThen htest' hbody' =>
      obtain ⟨rfl, rfl, rfl, rfl, -⟩ := conditional_inj htest htest' hbody hbody' ih heq
      exact ⟨rfl, rfl⟩
  | ifElse htest' hbody' hlast' =>
      rw [List.append_assoc (_ ++ _)] at heq
      obtain ⟨-, -, -, -, rfl⟩ := conditional_inj htest htest' hbody hbody' ih heq
      exact absurd rfl hrest

theorem unique_ifElse (htest : DerivesTree (.chain 1) ts [test]) (hbody : DerivesCode .block us [.block body])
    (ih : Unique .block us [.block body]) (ihlast : Unique .statement vs [last]) :
    Unique .conditional (.name (bytes "if") :: .mark (bytes "(") :: ts ++ .mark (bytes ")") :: us ++
      .name (bytes "else") :: vs) [.ifElse test body last] := by
  intro _ others rest more h' heq hrest hmore
  rw [List.append_assoc (_ ++ _)] at heq
  cases h' with
  | ifThen htest' hbody' =>
      obtain ⟨-, -, -, -, rfl⟩ := conditional_inj htest htest' hbody hbody' ih heq
      exact absurd rfl hmore
  | ifElse htest' hbody' hlast' =>
      rw [List.append_assoc (_ ++ _)] at heq
      obtain ⟨rfl, rfl, rfl, rfl, htail⟩ := conditional_inj htest htest' hbody hbody' ih heq
      obtain ⟨rfl, hsame⟩ := ihlast hlast' (List.cons.inj htail).2 hrest hmore
      exact ⟨rfl, by rw [List.singleton_inj.1 hsame]⟩

end

/-- Tokens are derived as one list of statements at most. -/
theorem DerivesCode.unique {part : CPart} {ts : List CToken} {stmts : List CStmt} (h : DerivesCode part ts stmts) :
    Unique part ts stmts := by
  induction h with
  | nil =>
      intro us others rest more h' heq hrest hmore
      cases h' with
      | nil => exact ⟨rfl, rfl⟩
      | cons hfirst hothers =>
          obtain ⟨t, us, rfl, hbrace, -⟩ := hfirst.exists_cons (by decide)
          obtain rfl : rest = _ := heq
          exact absurd (hrest t rfl) hbrace
  | cons hfirst hothers ihfirst ihrest =>
      intro us others rest more h' heq hrest hmore
      cases h' with
      | nil =>
          obtain ⟨t, us, rfl, hbrace, -⟩ := hfirst.exists_cons (by decide)
          obtain rfl : _ = more := heq
          exact absurd (hmore t rfl) hbrace
      | cons hfirst' hothers' =>
          rw [List.append_assoc, List.append_assoc] at heq
          obtain ⟨rfl, hstmt⟩ := ihfirst hfirst' heq (hothers.precedes hrest) (hothers'.precedes hmore)
          obtain ⟨rfl, rfl⟩ := ihrest hothers' (List.append_cancel_left heq) hrest hmore
          exact ⟨rfl, by rw [List.singleton_inj.1 hstmt]⟩
  | declare type hname hvalue => exact unique_declare type hname hvalue
  | assign hname hvalue => exact unique_assign hname hvalue
  | expression hvalue => exact unique_expression hvalue
  | result hvalue => exact unique_result hvalue
  | ofConditional h ih =>
      intro us others rest more h' heq hrest hmore
      have hform := (DerivesCode.ofConditional h).form_eq h' heq
      cases h' with
      | ofConditional h' => exact ih h' heq hrest hmore
      | ofBlock h' => cases h <;> (cases h'; cases hform)
      | _ => cases h <;> cases hform
  | ofBlock h ih =>
      intro us others rest more h' heq _ _
      have hform := (DerivesCode.ofBlock h).form_eq h' heq
      cases h' with
      | ofBlock h' => exact ih h' heq trivial trivial
      | ofConditional h' => cases h; cases h' <;> cases hform
      | _ => cases h; cases hform
  | block hbody ih =>
      intro us others rest more h' heq _ _
      cases h' with
      | block hbody' =>
          simp only [List.cons_append, List.append_assoc, List.cons.injEq, true_and] at heq
          obtain ⟨rfl, rfl⟩ := ih hbody' heq (by simp [CPart.Precedes]) (by simp [CPart.Precedes])
          exact ⟨rfl, rfl⟩
  | ifThen htest hbody ih => exact unique_ifThen htest hbody ih
  | ifElse htest hbody _ ih ihlast => exact unique_ifElse htest hbody ih ihlast

end Lai.C
