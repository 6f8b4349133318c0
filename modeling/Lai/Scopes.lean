/-!
# Scopes

The names visible at a point of a program, block by block. A name means its latest declaration in
the innermost block that declares it.
-/

namespace Lai

/-- The declarations visible at a point: those of the innermost block, latest first, and those of
the blocks around it, innermost first. -/
structure Scopes (α : Type) where
  inner : List (String × α) := []
  outer : List (List (String × α)) := []
  deriving DecidableEq, Inhabited, Repr

namespace Scopes

variable {α : Type}

/-- What the name means. -/
def find? (scopes : Scopes α) (name : String) : Option α :=
  (scopes.inner :: scopes.outer).findSome? (·.lookup name)

/-- Whether the innermost block declares the name. -/
def declares (scopes : Scopes α) (name : String) : Bool :=
  (scopes.inner.lookup name).isSome

/-- The scopes after a declaration in the innermost block. -/
def bind (scopes : Scopes α) (name : String) (meaning : α) : Scopes α :=
  { scopes with inner := (name, meaning) :: scopes.inner }

/-- The scopes at the start of a block. -/
def enter (scopes : Scopes α) : Scopes α :=
  ⟨[], scopes.inner :: scopes.outer⟩

/-- The scopes behind the end of a block: what it declares is gone. -/
def leave (scopes : Scopes α) : Scopes α :=
  match scopes.outer with
  | [] => {}
  | block :: outer => ⟨block, outer⟩

@[simp] theorem find?_bind_self (scopes : Scopes α) (name : String) (meaning : α) :
    (scopes.bind name meaning).find? name = some meaning := by
  simp [find?, bind]

theorem find?_bind_of_ne (scopes : Scopes α) {name other : String} (meaning : α) (hne : other ≠ name) :
    (scopes.bind name meaning).find? other = scopes.find? other := by
  have hlookup : List.lookup other ((name, meaning) :: scopes.inner) = scopes.inner.lookup other := by
    rw [List.lookup_cons, beq_false_of_ne hne]
  simp only [find?, bind, List.findSome?_cons, hlookup]

/-- Entering a block hides nothing. -/
@[simp] theorem find?_enter (scopes : Scopes α) (name : String) : scopes.enter.find? name = scopes.find? name := by
  rw [find?, enter, List.findSome?_cons]
  rfl

end Scopes

end Lai
