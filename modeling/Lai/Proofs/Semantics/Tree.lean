import Lai.Proofs.Scopes
import Lai.Tree
/-!
# The meaning of trees

Running a tree changes what the names in scope stand for and prints lines. Integers have 32 bits; a
run that leaves their range or divides by zero is undefined. So is a run that gets to a name without a
declaration or to an operation on values it does not take, which is told apart from the rest because
it cannot happen in well typed programs.
-/

namespace Lai

/-! ### Values -/

/-- A value of a running program. -/
inductive Value where
  | int (n : Int32)
  | string (s : String)
  deriving DecidableEq, Repr

/-- Why a run is undefined. -/
inductive Trap where
  | overflow
  | divisionByZero
  | stuck
  deriving DecidableEq, Repr

/-- The line that is printed for the value. -/
def Value.text : Value → String
  | .int n => Text.decimal n.toInt
  | .string s => s

/-- The 32-bit integer with the given value. -/
def fit (n : Int) : Except Trap Int32 :=
  if Int32.minValue.toInt ≤ n ∧ n ≤ Int32.maxValue.toInt then .ok (Int32.ofInt n) else .error .overflow

/-- The operation on 32-bit integers; division rounds toward zero. -/
def MathOp.onInts : MathOp → Int32 → Int32 → Except Trap Int32
  | .add, m, n => fit (m.toInt + n.toInt)
  | .subtract, m, n => fit (m.toInt - n.toInt)
  | .multiply, m, n => fit (m.toInt * n.toInt)
  | .divide, m, n => if n = 0 then .error .divisionByZero else fit (m.toInt.tdiv n.toInt)

/-- Whether the comparison holds between two values of one kind. -/
def CompareOp.holds {α : Type} [DecidableEq α] : CompareOp → α → α → Bool
  | .equal, x, y => x = y
  | .notEqual, x, y => x ≠ y

def MathOp.onValues : MathOp → Value → Value → Except Trap Value
  | op, .int m, .int n => (op.onInts m n).map .int
  | .add, .string s, .string t => .ok (.string (s ++ t))
  | _, _, _ => .error .stuck

def CompareOp.onValues : CompareOp → Value → Value → Except Trap Bool
  | op, .int m, .int n => .ok (op.holds m n)
  | op, .string s, .string t => .ok (op.holds s t)
  | _, _, _ => .error .stuck

/-- The value of a variable declared without one. -/
def Ty.zero : Ty → Except Trap Value
  | .unknown => .error .stuck
  | .int => .ok (.int 0)
  | .string => .ok (.string "")

/-! ### Expressions -/

/-- The value of an expression where the names stand for these values. -/
def Expr.eval {β : Type} (scopes : Scopes Value) : Expr β → Except Trap Value
  | .int value _ => .ok (.int value)
  | .string value _ => .ok (.string value)
  | .var name _ _ =>
    match scopes.find? name with
    | some value => .ok value
    | none => .error .stuck
  | .math op left right _ => do
    let x ← left.eval scopes
    let y ← right.eval scopes
    op.onValues x y

def Condition.eval {β : Type} (scopes : Scopes Value) (c : Condition β) : Except Trap Bool := do
  let x ← c.left.eval scopes
  let y ← c.right.eval scopes
  c.op.onValues x y

/-! ### Statements -/

/-- The state of a run: what the names in scope stand for, and the lines printed so far. -/
structure State (α : Type) where
  scopes : Scopes α := {}
  output : List String := []
  deriving DecidableEq, Repr

/-- Runs the inside of a block, in a scope of its own that is gone behind it. -/
def State.inBlock {α : Type} (s : State α) (body : State α → Except Trap (State α)) : Except Trap (State α) := do
  let after ← body { s with scopes := s.scopes.enter }
  return { after with scopes := after.scopes.leave }

namespace Tree

/-- The first value of a declared variable. -/
def initialValue (scopes : Scopes Value) (type : Ty) : Option (Expr Binding) → Except Trap Value
  | some value => value.eval scopes
  | none => type.zero

mutual

/-- Runs a statement. The first value of a declaration is found before its name is bound. -/
def Stmt.exec : Stmt → State Value → Except Trap (State Value)
  | .declare name type _ value _, s => do
    let x ← initialValue s.scopes type value
    return { s with scopes := s.scopes.bind name x }
  | .assign name _ value _, s => do
    let x ← value.eval s.scopes
    match s.scopes.find? name with
    | some _ => return { s with scopes := s.scopes.update name x }
    | none => .error .stuck
  | .print value _, s => do
    let x ← value.eval s.scopes
    return { s with output := s.output ++ [x.text] }
  | .ifThen cond body _ _, s => do
    let yes ← cond.eval s.scopes
    if yes then s.inBlock (execAll body) else return s
  | .ifElse cond body _ otherwise _, s => do
    let yes ← cond.eval s.scopes
    if yes then s.inBlock (execAll body) else otherwise.exec s
  | .block body _, s => s.inBlock (execAll body)

def execAll : List Stmt → State Value → Except Trap (State Value)
  | [], s => return s
  | stmt :: rest, s => do
    let after ← stmt.exec s
    execAll rest after

end

/-- Runs the files one after the other, each with names of its own, after the given lines. -/
def runAfter (output : List String) : List File → Except Trap (List String)
  | [] => return output
  | file :: rest => do
    let after ← execAll file.body { output := output }
    runAfter after.output rest

/-- The lines that running the files prints. -/
def run (files : List File) : Except Trap (List String) :=
  runAfter [] files

end Tree

end Lai
