import Lai.Grammar.Phrase
import Lai.Proofs.Scopes
/-!
# The type system

The rules by which statements, as they are written, are well typed. What a name means is said by rules
too: its latest declaration, seen through every block that has been entered since. A declaration is in
force for the statements after it up to the end of its block, so its own initial value does not see it.
-/

namespace Lai

namespace Scopes

variable {α : Type}

/-- The name means this where the scopes hold. -/
inductive Means : Scopes α → String → α → Prop where
  | latest (scopes : Scopes α) (name : String) (meaning : α) : Means (scopes.bind name meaning) name meaning
  | earlier {scopes : Scopes α} {name other : String} {meaning : α} (hidden : α) (hne : name ≠ other)
      (h : Means scopes name meaning) : Means (scopes.bind other hidden) name meaning
  | outer {scopes : Scopes α} {name : String} {meaning : α} (h : Means scopes name meaning) :
      Means scopes.enter name meaning

/-- Looking a name up finds what it means. -/
theorem means_iff_find? {scopes : Scopes α} {name : String} {meaning : α} :
    scopes.Means name meaning ↔ scopes.find? name = some meaning := by
  constructor
  · intro h
    induction h with
    | latest scopes name meaning => exact find?_bind_self scopes name meaning
    | earlier hidden hne _ ih => rw [find?_bind_of_ne _ _ hne, ih]
    | outer _ ih => rw [find?_enter, ih]
  · intro h
    induction scopes using bind_enter_induction with
    | hempty => simp [find?] at h
    | hbind scopes other hidden ih =>
        by_cases hne : name = other
        · subst hne
          rw [find?_bind_self, Option.some.injEq] at h
          exact h ▸ .latest scopes name hidden
        · rw [find?_bind_of_ne _ _ hne] at h
          exact .earlier hidden hne (ih h)
    | henter scopes ih =>
        rw [find?_enter] at h
        exact .outer (ih h)

end Scopes

/-- The expression has the type where the scopes hold. -/
inductive HasType (Γ : Scopes Ty) : Expr Unit → Ty → Prop where
  | int (value : Int32) (loc : Location) : HasType Γ (.int value loc) .int
  | string (text : String) (loc : Location) : HasType Γ (.string text loc) .string
  | var {name : String} {type : Ty} (loc : Location) (hname : Γ.Means name type) :
      HasType Γ (.var name () loc) type
  | arithmetic (op : MathOp) {left right : Expr Unit} (loc : Location) (hleft : HasType Γ left .int)
      (hright : HasType Γ right .int) : HasType Γ (.math op left right loc) .int
  | concat {left right : Expr Unit} (loc : Location) (hleft : HasType Γ left .string)
      (hright : HasType Γ right .string) : HasType Γ (.math .add left right loc) .string

/-- Both sides of the test have one type. -/
def Condition.WellTyped (Γ : Scopes Ty) (c : Condition Unit) : Prop :=
  ∃ type, HasType Γ c.left type ∧ HasType Γ c.right type

namespace Grammar

/-- The statements are well typed where the scopes hold. -/
inductive WellTyped : Scopes Ty → List Stmt → Prop where
  | nil (Γ : Scopes Ty) : WellTyped Γ []
  | infer {Γ : Scopes Ty} {name : String} {value : Expr Unit} {type : Ty} {rest : List Stmt} (loc : Location)
      (hnew : Γ.Fresh name) (hvalue : HasType Γ value type) (hrest : WellTyped (Γ.bind name type) rest) :
      WellTyped Γ (.infer name value loc :: rest)
  | declare {Γ : Scopes Ty} {name : String} {type : Ty} {rest : List Stmt} (loc : Location)
      (hnew : Γ.Fresh name) (hrest : WellTyped (Γ.bind name type) rest) :
      WellTyped Γ (.declare name type none loc :: rest)
  | initial {Γ : Scopes Ty} {name : String} {type : Ty} {value : Expr Unit} {rest : List Stmt} (loc : Location)
      (hnew : Γ.Fresh name) (hvalue : HasType Γ value type) (hrest : WellTyped (Γ.bind name type) rest) :
      WellTyped Γ (.declare name type (some value) loc :: rest)
  | assign {Γ : Scopes Ty} {name : String} {type : Ty} {value : Expr Unit} {rest : List Stmt} (loc : Location)
      (hname : Γ.Means name type) (hvalue : HasType Γ value type) (hrest : WellTyped Γ rest) :
      WellTyped Γ (.assign name value loc :: rest)
  | print {Γ : Scopes Ty} {value : Expr Unit} {type : Ty} {rest : List Stmt} (loc : Location)
      (hvalue : HasType Γ value type) (hrest : WellTyped Γ rest) : WellTyped Γ (.print value loc :: rest)
  | ifThen {Γ : Scopes Ty} {cond : Condition Unit} {body rest : List Stmt} (brace loc : Location)
      (hcond : cond.WellTyped Γ) (hbody : WellTyped Γ.enter body) (hrest : WellTyped Γ rest) :
      WellTyped Γ (.ifThen cond body brace loc :: rest)
  | ifElse {Γ : Scopes Ty} {cond : Condition Unit} {body rest : List Stmt} {last : Stmt} (brace loc : Location)
      (hcond : cond.WellTyped Γ) (hbody : WellTyped Γ.enter body) (hlast : WellTyped Γ [last])
      (hrest : WellTyped Γ rest) : WellTyped Γ (.ifElse cond body brace last loc :: rest)
  | block {Γ : Scopes Ty} {body rest : List Stmt} (loc : Location) (hbody : WellTyped Γ.enter body)
      (hrest : WellTyped Γ rest) : WellTyped Γ (.block body loc :: rest)

end Grammar

end Lai
