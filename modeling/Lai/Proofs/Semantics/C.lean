import Lai.Proofs.C.Code
import Lai.Proofs.Semantics.Tree
/-!
# The meaning of C programs

The statements that programs are compiled to, with the block scopes of C. A variable is visible from
its own declarator on, so also in its first value, where it has no value yet; it is known by how it is
written. A text ends at its first NUL for everything that is done with texts here, so this is all that
a literal stands for. Integers have 32 bits, and so have constants.
-/

namespace Lai.C

/-! ### Expressions -/

/-- What a variable in scope holds: values of a type, but none up to the end of its declaration. -/
structure Slot where
  type : CType
  value : Option Value
  deriving DecidableEq, Repr

/-- The C type of a value. -/
def CType.ofValue : Value → CType
  | .int _ => .int
  | .string _ => .string

/-- The text up to its first NUL. -/
def upToNul (s : String) : String :=
  String.ofList (s.toList.takeWhile (· ≠ '\x00'))

/-- The value of an expression in a store. -/
def Expr.eval (store : Scopes Slot) : Expr → Except Trap Value
  | .int value => .ok (.int value)
  | .string value => .ok (.string (upToNul value))
  | .var v =>
    match store.find? v.text with
    | some ⟨_, some x⟩ => .ok x
    | _ => .error .stuck
  | .math op left right => do
    let x ← left.eval store
    let y ← right.eval store
    match x, y with
    | .int m, .int n => (op.onInts m n).map .int
    | _, _ => .error .stuck
  | .concat left right => do
    let x ← left.eval store
    let y ← right.eval store
    match x, y with
    | .string s, .string t => .ok (.string (s ++ t))
    | _, _ => .error .stuck

def Test.eval (store : Scopes Slot) (t : Test) : Except Trap Bool := do
  let x ← t.left.eval store
  let y ← t.right.eval store
  match t.type, x, y with
  | .int, .int m, .int n => .ok (t.op.holds m n)
  | .string, .string a, .string b => .ok (t.op.holds a b)
  | _, _, _ => .error .stuck

/-- The slot of a variable of the type that has been given the value. -/
def Slot.filled (type : CType) (x : Value) : Except Trap Slot :=
  if CType.ofValue x = type then .ok ⟨type, some x⟩ else .error .stuck

/-! ### Statements -/

mutual

/-- Runs a statement. A variable cannot be declared twice in a block. -/
def Stmt.exec : Stmt → State Slot → Except Trap (State Slot)
  | .declare type v value, s =>
    if s.scopes.declares v.text then .error .stuck
    else do
      let store := s.scopes.bind v.text ⟨type, none⟩
      let x ← value.eval store
      let slot ← Slot.filled type x
      return { s with scopes := store.update v.text slot }
  | .assign v value, s => do
    let x ← value.eval s.scopes
    match s.scopes.find? v.text with
    | some old =>
      let slot ← Slot.filled old.type x
      return { s with scopes := s.scopes.update v.text slot }
    | none => .error .stuck
  | .print type value, s => do
    let x ← value.eval s.scopes
    if CType.ofValue x = type then return { s with output := s.output ++ [x.text] } else .error .stuck
  | .branch chain, s => chain.exec s
  | .block body, s => s.inBlock (execAll body)

/-- Runs the first block of the chain whose test succeeds, or the last one. -/
def Chain.exec : Chain → State Slot → Except Trap (State Slot)
  | .ifThen test body, s => do
    let yes ← test.eval s.scopes
    if yes then s.inBlock (execAll body) else return s
  | .ifElse test body last, s => do
    let yes ← test.eval s.scopes
    if yes then s.inBlock (execAll body) else s.inBlock (execAll last)
  | .elseIf test body chain, s => do
    let yes ← test.eval s.scopes
    if yes then s.inBlock (execAll body) else chain.exec s

def execAll : List Stmt → State Slot → Except Trap (State Slot)
  | [], s => return s
  | stmt :: rest, s => do
    let after ← stmt.exec s
    execAll rest after

end

/-- A declaration gives its variable a value that was found while the variable had none. -/
theorem Stmt.exec_declare {s : State Slot} {v : Var} (hnew : s.scopes.declares v.text = false) (type : CType)
    (value : Expr) :
    (Stmt.declare type v value).exec s = do
      let x ← value.eval (s.scopes.bind v.text ⟨type, none⟩)
      let slot ← Slot.filled type x
      return { s with scopes := s.scopes.bind v.text slot } := by
  simp only [Stmt.exec, hnew, Bool.false_eq_true, if_false, Scopes.update_bind_self]

/-- Runs the blocks of a main function that declares nothing itself, after the given lines. -/
def runAfter (output : List String) : List Block → Except Trap (List String)
  | [] => return output
  | block :: rest => do
    let after ← execAll block.body { output := output }
    runAfter after.output rest

/-- The lines that running the program prints. -/
def Program.run (p : Program) : Except Trap (List String) :=
  runAfter [] p.blocks

end Lai.C
