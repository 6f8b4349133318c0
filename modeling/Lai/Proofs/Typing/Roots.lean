import Lai.Typing
/-!
# Faults are reported at their roots

A fault in the types of an expression has a root: a variable that is not declared, or an operation that does
not take its operands although both are usable. The checks report every root once, operands before the
operation, and nothing else; what stands above a root and a variable whose own declaration went wrong are
passed over. A statement adds a fault of its own only if everything it compares is usable.
-/

namespace Lai

namespace Expr

/-! ### Usable expressions -/

/-- The expression has a value: its variables have types of values and its operations take their operands. -/
def IsUsable : Expr Binding → Prop
  | .int .. | .string .. => True
  | .var _ binding _ => binding.declared = true ∧ binding.type ≠ .unknown
  | .math op left right _ =>
    left.IsUsable ∧ right.IsUsable ∧ left.type = right.type ∧ (left.type = .string → op = .add)

instance decidableIsUsable : (e : Expr Binding) → Decidable e.IsUsable
  | .int .. | .string .. => .isTrue trivial
  | .var _ binding _ => inferInstanceAs (Decidable (binding.declared = true ∧ binding.type ≠ .unknown))
  | .math op left right _ =>
    have := decidableIsUsable left
    have := decidableIsUsable right
    inferInstanceAs
      (Decidable (left.IsUsable ∧ right.IsUsable ∧ left.type = right.type ∧ (left.type = .string → op = .add)))

theorem IsUsable.type_ne_unknown {e : Expr Binding} (h : e.IsUsable) : e.type ≠ .unknown := by
  induction e with
  | int | string => nofun
  | var => exact h.2
  | math op left right loc ihleft _ =>
      obtain ⟨hleft, _, hsame, _⟩ := h
      have hknown := ihleft hleft
      simpa [type, Ty.common, ← hsame] using hknown

/-! ### Roots -/

/-- The expressions inside the expression, from left to right, operands first. -/
def inner {β : Type} : Expr β → List (Expr β)
  | .int .. | .string .. | .var .. => []
  | .math _ left right _ => left.inner ++ [left] ++ (right.inner ++ [right])

/-- The expression behind those inside it. -/
def postorder {β : Type} (e : Expr β) : List (Expr β) :=
  e.inner ++ [e]

/-- The fault that begins at the expression, whatever is wrong inside it. -/
def rootFault? : Expr Binding → Option (Located TypeFault)
  | .int .. | .string .. => none
  | .var name binding loc => if binding.declared then none else some ⟨loc, .undeclared name⟩
  | .math op left right loc =>
    if left.IsUsable ∧ right.IsUsable ∧ ¬ (math op left right loc).IsUsable then
      some ⟨loc, if left.type = right.type then .undefinedOnString op else .mismatch left.type op right.type⟩
    else none

/-- The faults that begin at the expression or inside it. -/
def rootFaults (e : Expr Binding) : List (Located TypeFault) :=
  e.postorder.filterMap rootFault?

theorem rootFaults_math (op : MathOp) (left right : Expr Binding) (loc : Location) :
    (math op left right loc).rootFaults =
      left.rootFaults ++ right.rootFaults ++ (math op left right loc).rootFault?.toList := by
  rw [rootFaults, postorder, List.filterMap_append, inner, List.filterMap_append]
  cases h : (math op left right loc).rootFault? <;> simp [h, rootFaults, postorder]

theorem IsUsable.of_mem_inner {e x : Expr Binding} (h : e.IsUsable) (hx : x ∈ e.inner) : x.IsUsable := by
  induction e with
  | int | string | var => exact absurd hx List.not_mem_nil
  | math op left right loc ihleft ihright =>
      obtain ⟨hleft, hright, _⟩ := h
      simp only [inner, List.mem_append, List.mem_singleton] at hx
      obtain (hx | rfl) | (hx | rfl) := hx
      · exact ihleft hleft hx
      · exact hleft
      · exact ihright hright hx
      · exact hright

/-- No fault begins above an expression that is not usable. -/
theorem rootFault?_eq_none_of_mem_inner {e x : Expr Binding} (hx : x ∈ e.inner) (h : ¬ x.IsUsable) :
    e.rootFault? = none := by
  cases e with
  | int | string | var => exact absurd hx List.not_mem_nil
  | math op left right loc =>
      refine if_neg fun hroot => h ?_
      obtain ⟨hleft, hright, _⟩ := hroot
      simp only [inner, List.mem_append, List.mem_singleton] at hx
      obtain (hx | rfl) | (hx | rfl) := hx
      · exact hleft.of_mem_inner hx
      · exact hleft
      · exact hright.of_mem_inner hx
      · exact hright

/-! ### What the checks report -/

theorem mathFault?_eq (op : MathOp) {left : Ty} (h : left ≠ .unknown) (right : Ty) :
    mathFault? op left right = if left = right ∧ (left = .string → op = .add) then none
      else some (if left = right then .undefinedOnString op else .mismatch left op right) := by
  by_cases hsame : left = right
  · subst hsame
    cases left with
    | unknown => exact absurd rfl h
    | int => simp [mathFault?, Ty.common]
    | string => simp [mathFault?, Ty.common]
  · simp [mathFault?, Ty.common, hsame]

theorem check_eq (e : Expr Binding) : e.check = (decide e.IsUsable, e.rootFaults) := by
  induction e with
  | int | string => rfl
  | var name binding loc =>
      cases hdeclared : binding.declared <;>
        simp [check, IsUsable, rootFaults, postorder, inner, rootFault?, hdeclared]
  | math op left right loc ihleft ihright =>
      rw [rootFaults_math]
      by_cases hleft : left.IsUsable
      · by_cases hright : right.IsUsable
        · -- both operands are usable, so the operation is looked at
          have hfault := mathFault?_eq op hleft.type_ne_unknown right.type
          by_cases htakes : left.type = right.type ∧ (left.type = .string → op = .add)
          · rw [if_pos htakes] at hfault
            have husable : (math op left right loc).IsUsable := ⟨hleft, hright, htakes⟩
            simp [check, ihleft, ihright, hleft, hright, hfault, rootFault?, husable]
          · rw [if_neg htakes] at hfault
            have hunusable : ¬ (math op left right loc).IsUsable := fun h => htakes h.2.2
            simp [check, ihleft, ihright, hleft, hright, hfault, rootFault?, hunusable]
        · simp [check, ihleft, ihright, rootFault?, IsUsable, hright]
      · simp [check, ihleft, ihright, rootFault?, IsUsable, hleft]

theorem usable_eq (e : Expr Binding) : e.usable = decide e.IsUsable := by
  rw [usable, check_eq]

theorem faults_eq (e : Expr Binding) : e.faults = e.rootFaults := by
  rw [faults, check_eq]

end Expr

/-! ### Statements -/

namespace Tree

/-- The expressions that the statement itself has a value of. -/
def Stmt.values : Stmt → List (Expr Binding)
  | .declare _ _ _ value _ => value.toList
  | .assign _ _ value _ | .print value _ => [value]
  | .ifThen cond .. | .ifElse cond .. => [cond.left, cond.right]
  | .block .. => []

/-- The variable that the statement assigns to, as if it were read. -/
def Stmt.target? : Stmt → Option (Expr Binding)
  | .assign name target _ loc => some (.var name target loc)
  | _ => none

/-- Everything that has to be usable before the types of the statement can disagree. -/
def Stmt.operands (stmt : Stmt) : List (Expr Binding) :=
  stmt.target?.toList ++ stmt.values

/-- What is said of a variable that is assigned to without being declared. -/
def Stmt.targetFault? : Stmt → Option (Located TypeFault)
  | .assign name target _ loc => if target.declared then none else some ⟨loc, .undeclaredTarget name⟩
  | _ => none

/-- What is said of the types that have to agree in the statement, if they do not. -/
def Stmt.mismatch? : Stmt → Option (Located TypeFault)
  | .declare name type false (some value) _ =>
    if value.type = type then none else some ⟨value.loc, .initial name type value.type⟩
  | .assign name target value _ =>
    if value.type = target.type then none else some ⟨value.loc, .assigned name target.type value.type⟩
  | .ifThen cond .. | .ifElse cond .. =>
    if cond.left.type = cond.right.type then none else some ⟨cond.loc, .compared cond.left.type cond.right.type⟩
  | _ => none

/-- The faults of the statement itself, what stands in its blocks or after its `else` left aside. -/
def Stmt.ownFaults (stmt : Stmt) : List (Located TypeFault) :=
  stmt.targetFault?.toList ++ stmt.values.flatMap Expr.rootFaults ++
    if ∀ e ∈ stmt.operands, e.IsUsable then stmt.mismatch?.toList else []

mutual

/-- The statement and those inside it, in the order in which they are written. -/
def Stmt.nested : Stmt → List Stmt
  | .declare name type inferred value loc => [.declare name type inferred value loc]
  | .assign name target value loc => [.assign name target value loc]
  | .print value loc => [.print value loc]
  | .ifThen cond body brace loc => .ifThen cond body brace loc :: nestedAll body
  | .ifElse cond body brace otherwise loc =>
    .ifElse cond body brace otherwise loc :: (nestedAll body ++ otherwise.nested)
  | .block body loc => .block body loc :: nestedAll body

def nestedAll : List Stmt → List Stmt
  | [] => []
  | stmt :: rest => stmt.nested ++ nestedAll rest

end

theorem toList_mismatch {α : Type} (x : α) (known same : Prop) [Decidable known] [Decidable same] :
    (if known then (if same then none else some x).toList else []) = if known ∧ ¬ same then [x] else [] := by
  by_cases hknown : known <;> by_cases hsame : same <;> simp [hknown, hsame]

theorem ownFaults_block (body : List Stmt) (loc : Location) : (Stmt.block body loc).ownFaults = [] := rfl

theorem ownFaults_declare_none (name : String) (type : Ty) (inferred : Bool) (loc : Location) :
    (Stmt.declare name type inferred none loc).ownFaults = [] := by
  cases inferred <;> rfl

theorem ownFaults_print (value : Expr Binding) (loc : Location) :
    (Stmt.print value loc).ownFaults = value.faults := by
  simp [Stmt.ownFaults, Stmt.targetFault?, Stmt.values, Stmt.mismatch?, Expr.faults_eq]

theorem ownFaults_declare (name : String) (type : Ty) (inferred : Bool) (value : Expr Binding) (loc : Location) :
    (Stmt.declare name type inferred (some value) loc).ownFaults =
      (Stmt.declare name type inferred (some value) loc).faults := by
  cases inferred <;>
    simp [Stmt.ownFaults, Stmt.targetFault?, Stmt.values, Stmt.operands, Stmt.target?, Stmt.mismatch?, Stmt.faults,
      Expr.faults_eq, Expr.usable_eq, toList_mismatch]

theorem ownFaults_assign (name : String) (target : Binding) (value : Expr Binding) (loc : Location) :
    (Stmt.assign name target value loc).ownFaults = (Stmt.assign name target value loc).faults := by
  cases hdeclared : target.declared <;>
    simp [Stmt.ownFaults, Stmt.targetFault?, Stmt.values, Stmt.operands, Stmt.target?, Stmt.mismatch?, Stmt.faults,
      Expr.IsUsable, Expr.faults_eq, Expr.usable_eq, toList_mismatch, hdeclared, and_comm]

theorem ownFaults_ifThen (cond : Condition Binding) (body : List Stmt) (brace loc : Location) :
    (Stmt.ifThen cond body brace loc).ownFaults = cond.faults := by
  simp [Stmt.ownFaults, Stmt.targetFault?, Stmt.values, Stmt.operands, Stmt.target?, Stmt.mismatch?, Condition.faults,
    Expr.faults_eq, Expr.usable_eq, toList_mismatch]

theorem ownFaults_ifElse (cond : Condition Binding) (body : List Stmt) (brace : Location) (otherwise : Stmt)
    (loc : Location) : (Stmt.ifElse cond body brace otherwise loc).ownFaults = cond.faults :=
  ownFaults_ifThen cond body brace loc

mutual

theorem Stmt.faults_eq : (stmt : Stmt) → stmt.faults = stmt.nested.flatMap Stmt.ownFaults
  | .declare name type inferred none loc => by
      rw [Stmt.nested, List.flatMap_singleton, ownFaults_declare_none, Stmt.faults]
  | .declare name type inferred (some value) loc => by
      rw [Stmt.nested, List.flatMap_singleton, ownFaults_declare]
  | .assign name target value loc => by
      rw [Stmt.nested, List.flatMap_singleton, ownFaults_assign]
  | .print value loc => by
      rw [Stmt.nested, List.flatMap_singleton, ownFaults_print, Stmt.faults]
  | .ifThen cond body brace loc => by
      rw [Stmt.nested, List.flatMap_cons, ownFaults_ifThen, Stmt.faults, faultsAll_eq body]
  | .ifElse cond body brace otherwise loc => by
      rw [Stmt.nested, List.flatMap_cons, List.flatMap_append, ownFaults_ifElse, Stmt.faults, faultsAll_eq body,
        otherwise.faults_eq, List.append_assoc]
  | .block body loc => by
      rw [Stmt.nested, List.flatMap_cons, ownFaults_block, List.nil_append, Stmt.faults, faultsAll_eq body]

theorem faultsAll_eq : (stmts : List Stmt) → faultsAll stmts = (nestedAll stmts).flatMap Stmt.ownFaults
  | [] => rfl
  | stmt :: rest => by rw [faultsAll, nestedAll, List.flatMap_append, stmt.faults_eq, faultsAll_eq rest]

end

end Tree

/-- Every expression is reported at the roots of its faults, once each and operands first, and is usable exactly
if it is said to be. A file is reported statement by statement, a mismatch in a statement only where all of
its operands are usable. -/
theorem faults_reported_at_roots :
    (∀ e : Expr Binding, (e.usable = true ↔ e.IsUsable) ∧ (e.IsUsable → e.type ≠ .unknown) ∧
      e.faults = e.postorder.filterMap Expr.rootFault? ∧
      ∀ x ∈ e.inner, ¬ x.IsUsable → e.rootFault? = none) ∧
    ∀ file : Tree.File, file.typeDiagnostics = ((Tree.nestedAll file.body).flatMap Tree.Stmt.ownFaults).map
      fun fault => .ofFault file.name .typing (fault.map TypeFault.message) := by
  refine ⟨fun e => ⟨?_, fun h => h.type_ne_unknown, e.faults_eq, fun x hx => ?_⟩, fun file => ?_⟩
  · rw [e.usable_eq, decide_eq_true_iff]
  · exact Expr.rootFault?_eq_none_of_mem_inner hx
  · rw [Tree.File.typeDiagnostics, Tree.faultsAll_eq]

/-- Of `("a" - "b") - y` the inner operation and the variable are reported, the outer operation is not. -/
example :
    (Expr.math .subtract (.math .subtract (.string "a" ⟨0, 1⟩) (.string "b" ⟨0, 7⟩) ⟨0, 5⟩)
      (.var "y" ⟨.int, false⟩ ⟨0, 14⟩) ⟨0, 12⟩).faults =
    [⟨⟨0, 5⟩, .undefinedOnString .subtract⟩, ⟨⟨0, 14⟩, .undeclared "y"⟩] := by
  decide

end Lai
