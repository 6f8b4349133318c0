import Lai.Proofs.Grammar.Steps
/-!
# Reading by descent

The same reading told the other way round: one function for each part of a text, which takes its tokens
from the front of those that are left and calls the functions of the parts inside it. A statement that
breaks off is given up from within, and the loop over the statements skips the rest of its lines. The
functions call each other without any bound, so whether a call comes to an end is a question of its own.

What is made of the parts is left open, and so is what is kept in mind from one part to the next. Phrases are
made with nothing in mind.
-/

namespace Lai.Grammar

/-- The tokens that have been read and those that are left, both in the order of the text. -/
structure Buffer where
  taken : List Token
  rest : List Token
  deriving DecidableEq, Repr

namespace Buffer

/-- The place of the last token read. -/
def prev (b : Buffer) : Location :=
  (b.taken.getLast?.map Token.loc).getD .origin

/-- The fault at the token found, or at the last token read if none is left. -/
def fault (b : Buffer) (expected : Expected) : Option Token → Located Fault
  | some t => ⟨t.loc, expected, some t.lexeme⟩
  | none => ⟨b.prev, expected, none⟩

@[simp] theorem prev_append_singleton (taken rest : List Token) (t : Token) :
    (Buffer.mk (taken ++ [t]) rest).prev = t.loc := by
  simp [prev]

end Buffer

/-- Why a phrase breaks off, and the blocks of it that have been read. -/
structure Break where
  blocks : List Stmt
  fault : Located Fault

namespace Break

/-- What stands for the statement. -/
def stmt (e : Break) : Stmt :=
  .broken e.blocks e.fault

/-- The break with a block in front of it. -/
def behind (block : Stmt) (e : Break) : Break :=
  ⟨block :: e.blocks, e.fault⟩

end Break

namespace Descent

/-! ### What is made -/

/-- What is made of the parts of a text, and what is kept in mind meanwhile. -/
structure Maker where
  /-- What is noted at a variable. -/
  Note : Type
  /-- What is made of a statement. -/
  Made : Type
  /-- What a statement that breaks off leaves behind. -/
  Lost : Type
  /-- What is kept in mind. -/
  Mind : Type
  note : Mind → String → Note
  infer : String → Expr Note → Location → StateM Mind Made
  declare : String → Ty → Option (Expr Note) → Location → StateM Mind Made
  assign : String → Expr Note → Location → StateM Mind Made
  print : Expr Note → Location → Made
  ifThen : Condition Note → List Made → Location → Location → Made
  ifElse : Condition Note → List Made → Location → Made → Location → Made
  block : List Made → Location → Made
  enter : Mind → Mind
  leave : Mind → Mind
  lose : Located Fault → Lost
  /-- A block has been made of the statement before it broke off. -/
  behind : List Made → Location → Lost → Lost
  /-- Statements go on behind one that has broken off. -/
  report : Lost → StateM Mind (List Made)

/-- Phrases are made of what is written alone. -/
@[reducible] def phrases : Maker where
  Note := Unit
  Made := Stmt
  Lost := Break
  Mind := Unit
  note _ _ := ()
  infer name value loc := pure (.infer name value loc)
  declare name type value loc := pure (.declare name type value loc)
  assign name value loc := pure (.assign name value loc)
  print := .print
  ifThen := .ifThen
  ifElse := .ifElse
  block := .block
  enter := id
  leave := id
  lose fault := ⟨[], fault⟩
  behind body brace e := e.behind (.block body brace)
  report e := pure [e.stmt]

theorem annotate_phrases (e : Expr Unit) : e.annotate (phrases.note ()) = e := by
  induction e with
  | int | string | var => rfl
  | math op left right loc ihleft ihright => rw [Expr.annotate, ihleft, ihright]

/-! ### Functions that call each other -/

/-- The functions with their arguments. -/
inductive Call (m : Maker) where
  | binary (least : Nat)
  | operators (least : Nat) (left : Expr m.Note)
  | operand
  | skip (line : Int)
  | statements (inBlock : Bool)
  | statement
  | conditional (loc : Location)
  | otherwise (cond : Condition m.Note) (body : List m.Made) (brace loc : Location)
  | elseBranch
  | block
  | inside (brace : Location)

variable {m : Maker}

abbrev Call.Result : Call m → Type
  | .binary _ | .operators .. | .operand => Except m.Lost (Expr m.Note)
  | .skip _ => Unit
  | .statements _ => List m.Made
  | .statement | .conditional _ | .otherwise .. | .elseBranch => Except m.Lost m.Made
  | .block | .inside _ => Except m.Lost (List m.Made × Location)

/-- What the calls come to on a buffer, as far as they come to an end. -/
abbrev Answers (m : Maker) := (c : Call m) → Buffer → m.Mind → Option (c.Result × Buffer × m.Mind)

/-- What takes tokens from a buffer and makes calls. -/
inductive Run (m : Maker) (α : Type) where
  | done (a : α)
  | look (k : Buffer → m.Mind → Run m α)
  | next (k : Option Token → Run m α)
  | keep (s : m.Mind) (x : Run m α)
  | call (c : Call m) (k : c.Result → Run m α)

namespace Run

variable {α β : Type}

def bind : Run m α → (α → Run m β) → Run m β
  | .done a, f => f a
  | .look k, f => .look fun b s => (k b s).bind f
  | .next k, f => .next fun t => (k t).bind f
  | .keep s x, f => .keep s (x.bind f)
  | .call c k, f => .call c fun x => (k x).bind f

instance : Monad (Run m) where
  pure := .done
  bind := .bind

theorem bind_done (x : Run m α) : x.bind .done = x := by
  induction x with
  | done a => rfl
  | look k ih => exact congrArg Run.look (funext fun b => funext (ih b))
  | next k ih => exact congrArg Run.next (funext ih)
  | keep s x ih => exact congrArg (Run.keep s) ih
  | call c k ih => exact congrArg (Run.call c) (funext ih)

theorem bind_bind {γ : Type} (x : Run m α) (f : α → Run m β) (g : β → Run m γ) :
    (x.bind f).bind g = x.bind fun a => (f a).bind g := by
  induction x with
  | done a => rfl
  | look k ih => exact congrArg Run.look (funext fun b => funext (ih b))
  | next k ih => exact congrArg Run.next (funext ih)
  | keep s x ih => exact congrArg (Run.keep s) ih
  | call c k ih => exact congrArg (Run.call c) (funext ih)

instance : LawfulMonad (Run m) :=
  .mk' (Run m) bind_done (fun _ _ => rfl) bind_bind

/-- What the run comes to on a buffer, given what its calls come to. -/
def interpret (answers : Answers m) : Run m α → Buffer → m.Mind → Option (α × Buffer × m.Mind)
  | .done a, b, s => some (a, b, s)
  | .look k, b, s => (k b s).interpret answers b s
  | .next k, ⟨taken, []⟩, s => (k none).interpret answers ⟨taken, []⟩ s
  | .next k, ⟨taken, t :: rest⟩, s => (k (some t)).interpret answers ⟨taken ++ [t], rest⟩ s
  | .keep s x, b, _ => x.interpret answers b s
  | .call c k, b, s => (answers c b s).bind fun x => (k x.1).interpret answers x.2.1 x.2.2

end Run

/-- What takes tokens from a buffer and may break off. -/
abbrev Scan (m : Maker) (α : Type) := ExceptT m.Lost (Run m) α

def peek (m : Maker) : Run m (Option Token) :=
  .look fun b _ => .done b.rest.head?

def next (m : Maker) : Run m (Option Token) :=
  .next .done

def lastLoc (m : Maker) : Run m Location :=
  .look fun b _ => .done b.prev

/-- Does something with what is kept in mind. -/
def consider {α : Type} (f : StateM m.Mind α) : Run m α :=
  .look fun _ s => .keep (f s).2 (.done (f s).1)

def make (f : StateM m.Mind m.Made) : Scan m m.Made :=
  .lift (consider f)

/-- What the name is noted with. -/
def noted (m : Maker) : Run m (String → m.Note) :=
  .look fun _ s => .done (m.note s)

/-- Breaks off at what has been found. -/
def fail {α : Type} (expected : Expected) (found : Option Token) : Scan m α :=
  .mk (.look fun b _ => .done (.error (m.lose (b.fault expected found))))

/-- Reads the symbol if it follows. -/
def check (m : Maker) (s : Symbol) : Run m Bool := do
  if (← peek m).any (·.lexeme = .symbol s) then
    let _ ← next m
    return true
  else return false

/-- Reads a symbol that has to follow. -/
def require (s : Symbol) : Scan m Location := do
  match ← peek m with
  | some t =>
    if t.lexeme = .symbol s then
      let _ ← next m
      return t.loc
    else fail (.symbol s) (some t)
  | none => fail (.symbol s) none

/-! ### Calls -/

/-- Reads an expression whose operators have at least the given precedence. -/
def scanBinary (least : Nat) : Scan m (Expr m.Note) :=
  .mk (.call (.binary least) .done)

/-- Reads operators of at least the given precedence with their right operands. -/
def scanOperators (least : Nat) (left : Expr m.Note) : Scan m (Expr m.Note) :=
  .mk (.call (.operators least left) .done)

/-- Reads a literal, a name, or an expression in parentheses. -/
def scanOperand : Scan m (Expr m.Note) :=
  .mk (.call .operand .done)

/-- Skips the tokens up to the given line. -/
def skipThrough (line : Int) : Run m Unit :=
  .call (.skip line) .done

/-- Reads statements up to the end of the text or, inside a block, up to a closing brace. -/
def scanStatements (inBlock : Bool) : Run m (List m.Made) :=
  .call (.statements inBlock) .done

def scanStatement : Run m (Except m.Lost m.Made) :=
  .call .statement .done

/-- Reads an if statement, whose keyword follows. -/
def scanIf (loc : Location) : Run m (Except m.Lost m.Made) :=
  .call (.conditional loc) .done

/-- Reads the rest of an if statement, behind the block of its test. -/
def scanOtherwise (cond : Condition m.Note) (body : List m.Made) (brace loc : Location) : Run m (Except m.Lost m.Made) :=
  .call (.otherwise cond body brace loc) .done

/-- Reads what follows an `else`. -/
def scanElse : Run m (Except m.Lost m.Made) :=
  .call .elseBranch .done

/-- Reads a block: its statements and the place of its opening brace. -/
def scanBlock : Run m (Except m.Lost (List m.Made × Location)) :=
  .call .block .done

/-- Reads a block whose opening brace has been read. -/
def scanBody (brace : Location) : Run m (Except m.Lost (List m.Made × Location)) :=
  .call (.inside brace) .done

/-! ### Parts that are read in place -/

def scanExpr : Scan m (Expr m.Note) :=
  scanBinary 1

/-- Reads the name of a type. The token is gone also if it is none. -/
def scanType : Scan m Ty := do
  match ← next m with
  | some t =>
    match Ty.ofLexeme? t.lexeme with
    | some type => return type
    | none => fail .typeName (some t)
  | none => fail .typeName none

/-- Reads a declaration or an assignment of the name that follows. -/
def scanNamed (name : String) (loc : Location) : Scan m m.Made := do
  let _ ← next m
  if ← check m .infer then make (m.infer name (← scanExpr) loc)
  else if ← check m .colon then
    let type ← scanType
    if ← check m .assign then make (m.declare name type (some (← scanExpr)) loc)
    else make (m.declare name type none loc)
  else if ← check m .assign then make (m.assign name (← scanExpr) loc)
  else fail (.binder name) (← peek m)

/-- Reads a print statement, whose keyword follows. -/
def scanPrint (loc : Location) : Scan m m.Made := do
  let _ ← next m
  let _ ← require .openParen
  let value ← scanExpr
  let _ ← require .closeParen
  return m.print value loc

/-- Reads the keyword that follows and the test behind it. -/
def scanTest : Scan m (Condition m.Note) := do
  let _ ← next m
  let _ ← require .openParen
  let left ← scanExpr
  match ← next m with
  | some t =>
    match CompareOp.ofLexeme? t.lexeme with
    | some op =>
      let right ← scanExpr
      let _ ← require .closeParen
      return ⟨op, left, right, t.loc⟩
    | none => fail .comparison (some t)
  | none => fail .comparison none

/-! ### What is called -/

/-- What the function does. -/
def Call.run : (c : Call m) → Run m c.Result
  | .binary least => ExceptT.run do
    let left ← scanOperand
    scanOperators least left
  | .operators least left => ExceptT.run do
    match ← peek m with
    | some t =>
      match MathOp.ofLexeme? t.lexeme with
      | some op =>
        if op.precedence < least then return left
        else
          let _ ← next m
          let right ← scanBinary (op.precedence + 1)
          scanOperators least (.math op left right t.loc)
      | none => return left
    | none => return left
  | .operand => ExceptT.run do
    match ← peek m with
    | some t =>
      match operand? t with
      | some e =>
        let _ ← next m
        return e.annotate (← noted m)
      | none =>
        if t.lexeme = .symbol .openParen then
          let _ ← next m
          let e ← scanBinary 1
          let _ ← require .closeParen
          return e
        else fail .operand (some t)
    | none => fail .operand none
  | .skip line => do
    match ← peek m with
    | some t =>
      if t.loc.line ≤ line then
        let _ ← next m
        skipThrough line
      else return
    | none => return
  | .statements inBlock => do
    match ← peek m with
    | some t =>
      if inBlock ∧ t.lexeme = .symbol .closeBrace then return []
      else
        match ← scanStatement with
        | .ok stmt => return stmt :: (← scanStatements inBlock)
        | .error e =>
          let left ← consider (m.report e)
          -- A statement may have gone on to later lines before it broke off.
          skipThrough (max t.loc.line (← lastLoc m).line)
          return left ++ (← scanStatements inBlock)
    | none => return []
  | .statement => do
    match ← peek m with
    | some t =>
      match t.lexeme with
      | .identifier name => (scanNamed name t.loc).run
      | .symbol .printWord => (scanPrint t.loc).run
      | .symbol .ifWord => scanIf t.loc
      | .symbol .openBrace => return (← scanBlock).map fun block => m.block block.1 block.2
      | _ =>
        let _ ← next m
        (fail .statement (some t)).run
    | none => (fail .statement none).run
  | .conditional loc => do
    match ← scanTest.run with
    | .error e => return .error e
    | .ok cond =>
      match ← scanBlock with
      | .error e => return .error e
      | .ok (body, brace) => scanOtherwise cond body brace loc
  | .otherwise cond body brace loc => do
    if ← check m .elseWord then
      match ← scanElse with
      | .error e => return .error (m.behind body brace e)
      | .ok last => return .ok (m.ifElse cond body brace last loc)
    else return .ok (m.ifThen cond body brace loc)
  | .elseBranch => do
    match (← peek m).filter (·.lexeme = .symbol .ifWord) with
    | some t => scanIf t.loc
    | none => return (← scanBlock).map fun block => m.block block.1 block.2
  | .block => do
    match ← (require .openBrace).run with
    | .error e => return .error e
    | .ok brace => scanBody brace
  | .inside brace => do
    consider (modify m.enter)
    let body ← scanStatements true
    consider (modify m.leave)
    match ← (require .closeBrace).run with
    | .error e => return .error (m.behind body brace e)
    | .ok _ => return .ok (body, brace)

/-- What the call comes to on a buffer, if calls are not nested deeper than stated. -/
def answer : Nat → Answers m
  | 0, _, _, _ => none
  | depth + 1, c, b, s => c.run.interpret (answer depth) b s

/-! ### What a run comes to -/

section

variable {α β : Type} {b after : Buffer}

/-- The run comes to an end on the buffer, with the value, the buffer behind it and what is in mind then. -/
def Ends (x : Run m α) (b : Buffer) (s : m.Mind) (a : α) (after : Buffer) (s' : m.Mind) : Prop :=
  ∃ depth, x.interpret (answer depth) b s = some (a, after, s')

theorem interpret_bind (answers : Answers m) (x : Run m α) (f : α → Run m β) (b : Buffer) (s : m.Mind) :
    (x >>= f).interpret answers b s =
      (x.interpret answers b s).bind fun y => (f y.1).interpret answers y.2.1 y.2.2 := by
  change (x.bind f).interpret answers b s = _
  induction x generalizing b s with
  | done a => rfl
  | look k ih => exact ih b s b s
  | next k ih =>
      obtain ⟨taken, _ | ⟨t, rest⟩⟩ := b
      · exact ih none _ s
      · exact ih (some t) _ s
  | keep s' x ih => exact ih b s'
  | call c k ih =>
      simp only [Run.bind, Run.interpret, Option.bind_assoc]
      exact congrArg _ (funext fun y => ih y.1 y.2.1 y.2.2)

/-- A run that comes to an end comes to the same if more calls come to an end. -/
theorem interpret_mono {fewer more : Answers m} (h : ∀ c b s y, fewer c b s = some y → more c b s = some y)
    (x : Run m α) {s : m.Mind} {y : α × Buffer × m.Mind} (hx : x.interpret fewer b s = some y) :
    x.interpret more b s = some y := by
  induction x generalizing b s with
  | done a => exact hx
  | look k ih => exact ih b s hx
  | next k ih =>
      obtain ⟨taken, _ | ⟨t, rest⟩⟩ := b
      · exact ih none hx
      · exact ih (some t) hx
  | keep s' x ih => exact ih hx
  | call c k ih =>
      obtain ⟨z, hz, hrest⟩ := Option.bind_eq_some_iff.1 hx
      exact Option.bind_eq_some_iff.2 ⟨z, h c b s z hz, ih z.1 hrest⟩

theorem answer_succ {depth : Nat} : ∀ (c : Call m) (b : Buffer) (s : m.Mind) (y : c.Result × Buffer × m.Mind),
    answer depth c b s = some y → answer (depth + 1) c b s = some y := by
  induction depth with
  | zero => exact fun c b s y h => absurd h (by simp [answer])
  | succ depth ih => exact fun c b s y h => interpret_mono ih c.run h

theorem interpret_of_le {n n' : Nat} (hle : n ≤ n') {x : Run m α} {s : m.Mind} {y : α × Buffer × m.Mind}
    (hx : x.interpret (answer n) b s = some y) : x.interpret (answer n') b s = some y := by
  induction hle with
  | refl => exact hx
  | step _ ih => exact interpret_mono answer_succ x ih

/-- A run comes to one end only. -/
theorem Ends.unique {x : Run m α} {s s' s'' : m.Mind} {a a' : α} {after' : Buffer} (h : Ends x b s a after s')
    (h' : Ends x b s a' after' s'') : a = a' ∧ after = after' ∧ s' = s'' := by
  obtain ⟨n, hn⟩ := h
  obtain ⟨n', hn'⟩ := h'
  have hsame := (interpret_of_le (Nat.le_max_left n n') hn).symm.trans (interpret_of_le (Nat.le_max_right n n') hn')
  simpa using hsame

end

/-! ### Making phrases -/

section

variable {α β : Type} {b after : Buffer}

/-- The run comes to an end on the buffer, with the value and the buffer behind it. -/
def Comes (x : Run phrases α) (b : Buffer) (a : α) (after : Buffer) : Prop :=
  Ends x b () a after ()

/-- The run comes to an end on the buffer, and its value and the buffer behind it are as stated. -/
def Meets (x : Run phrases α) (b : Buffer) (post : α → Buffer → Prop) : Prop :=
  ∃ a after, Comes x b a after ∧ post a after

theorem Meets.mono {x : Run phrases α} {weak strong : α → Buffer → Prop} (h : Meets x b strong)
    (himp : ∀ a after, strong a after → weak a after) : Meets x b weak := by
  obtain ⟨a, after, hcomes, hpost⟩ := h
  exact ⟨a, after, hcomes, himp a after hpost⟩

@[simp] theorem meets_pure {a : α} {post : α → Buffer → Prop} : Meets (pure a) b post ↔ post a b := by
  constructor
  · rintro ⟨_, _, ⟨_, ⟨⟩⟩, hpost⟩
    exact hpost
  · exact fun hpost => ⟨a, b, ⟨0, rfl⟩, hpost⟩

/-- A function does what it is defined to do. -/
theorem meets_call (c : Call phrases) {post : c.Result → Buffer → Prop} (h : Meets c.run b post) :
    Meets (.call c .done) b post := by
  obtain ⟨a, after, ⟨depth, hrun⟩, hpost⟩ := h
  refine ⟨a, after, ⟨depth + 1, ?_⟩, hpost⟩
  simp only [Run.interpret, answer, hrun]
  rfl

/-- One run after the other. -/
theorem Meets.bind {x : Run phrases α} {f : α → Run phrases β} {mid : α → Buffer → Prop} {post : β → Buffer → Prop}
    (h : Meets x b mid) (hf : ∀ a after, mid a after → Meets (f a) after post) : Meets (x >>= f) b post := by
  obtain ⟨a, after, ⟨n, hx⟩, hmid⟩ := h
  obtain ⟨c, last, ⟨m, hy⟩, hpost⟩ := hf a after hmid
  refine ⟨c, last, ⟨max n m, ?_⟩, hpost⟩
  rw [interpret_bind, interpret_of_le (Nat.le_max_left n m) hx]
  exact interpret_of_le (Nat.le_max_right n m) hy

/-- A scan after a scan: the second one is not reached if the first one breaks off. -/
theorem Meets.bindScan {x : Scan phrases α} {f : α → Scan phrases β} {mid : Except Break α → Buffer → Prop}
    {post : Except Break β → Buffer → Prop} (h : Meets x.run b mid)
    (herror : ∀ e after, mid (.error e) after → post (.error e) after)
    (hok : ∀ a after, mid (.ok a) after → Meets (f a).run after post) : Meets (x >>= f).run b post := by
  rw [ExceptT.run_bind]
  refine h.bind fun result after hmid => ?_
  cases result with
  | error e => exact meets_pure.2 (herror e after hmid)
  | ok a => exact hok a after hmid

theorem meets_peek {f : Option Token → Run phrases α} {post : α → Buffer → Prop} (h : Meets (f b.rest.head?) b post) :
    Meets (peek phrases >>= f) b post :=
  h

theorem meets_lastLoc {f : Location → Run phrases α} {post : α → Buffer → Prop} (h : Meets (f b.prev) b post) :
    Meets (lastLoc phrases >>= f) b post :=
  h

theorem meets_next {taken rest : List Token} {t : Token} {f : Option Token → Run phrases α} {post : α → Buffer → Prop}
    (h : Meets (f (some t)) ⟨taken ++ [t], rest⟩ post) : Meets (next phrases >>= f) ⟨taken, t :: rest⟩ post :=
  h

theorem meets_check {s : Symbol} {f : Bool → Run phrases α} {post : α → Buffer → Prop}
    (htrue : ∀ t rest, b.rest = t :: rest → t.lexeme = .symbol s → Meets (f true) ⟨b.taken ++ [t], rest⟩ post)
    (hfalse : (∀ t, b.rest.head? = some t → t.lexeme ≠ .symbol s) → Meets (f false) b post) :
    Meets (check phrases s >>= f) b post := by
  obtain ⟨taken, rest⟩ := b
  rw [check, bind_assoc]
  apply meets_peek
  cases rest with
  | nil => exact hfalse (by simp)
  | cons t rest =>
      by_cases ht : t.lexeme = .symbol s
      · simp only [List.head?_cons, Option.any_some, ht, decide_true, if_true]
        exact htrue t rest rfl ht
      · simp only [List.head?_cons, Option.any_some, ht, decide_false, Bool.false_eq_true, if_false]
        exact hfalse (by rintro _ ⟨⟩; exact ht)

theorem meets_consider {γ : Type} {x : StateM Unit γ} {f : γ → Run phrases α} {post : α → Buffer → Prop}
    (h : Meets (f (x ()).1) b post) : Meets (consider x >>= f) b post :=
  h

theorem meets_make {x : StateM Unit Stmt} {post : Except Break Stmt → Buffer → Prop} (h : post (.ok (x ()).1) b) :
    Meets (make x : Scan phrases Stmt).run b post :=
  ⟨_, _, ⟨0, rfl⟩, h⟩

theorem meets_scan_peek {f : Option Token → Scan phrases α} {post : Except Break α → Buffer → Prop}
    (h : Meets (f b.rest.head?).run b post) : Meets ((liftM (peek phrases) : Scan phrases (Option Token)) >>= f).run b post :=
  h

theorem meets_scan_next {taken rest : List Token} {t : Token} {f : Option Token → Scan phrases α}
    {post : Except Break α → Buffer → Prop} (h : Meets (f (some t)).run ⟨taken ++ [t], rest⟩ post) :
    Meets ((liftM (next phrases) : Scan phrases (Option Token)) >>= f).run ⟨taken, t :: rest⟩ post :=
  h

theorem meets_scan_check {s : Symbol} {f : Bool → Scan phrases α} {post : Except Break α → Buffer → Prop}
    (htrue : ∀ t rest, b.rest = t :: rest → t.lexeme = .symbol s → Meets (f true).run ⟨b.taken ++ [t], rest⟩ post)
    (hfalse : (∀ t, b.rest.head? = some t → t.lexeme ≠ .symbol s) → Meets (f false).run b post) :
    Meets ((liftM (check phrases s) : Scan phrases Bool) >>= f).run b post := by
  rw [show ((liftM (check phrases s) : Scan phrases Bool) >>= f).run = check phrases s >>= fun a => (f a).run from ExceptT.run_bind_lift _ _]
  exact meets_check htrue hfalse

theorem meets_require_cons {s : Symbol} {taken rest : List Token} {t : Token}
    {post : Except Break Location → Buffer → Prop} (ht : t.lexeme = .symbol s)
    (h : post (.ok t.loc) ⟨taken ++ [t], rest⟩) : Meets (require s).run ⟨taken, t :: rest⟩ post := by
  rw [require]
  apply meets_scan_peek
  simp only [List.head?_cons, ht, if_true]
  apply meets_scan_next
  exact meets_pure.2 h

theorem meets_fail {expected : Expected} {found : Option Token} {post : Except Break α → Buffer → Prop}
    (h : post (.error ⟨[], b.fault expected found⟩) b) : Meets (fail expected found).run b post :=
  ⟨_, _, ⟨0, rfl⟩, h⟩

end

end Descent

end Lai.Grammar
