import Lai.Tree
/-!
# The texts in a tree

The string literals of a tree, and the tree with every one of them exchanged for another.
-/

namespace Lai

variable {β : Type} (f : String → String)

namespace Expr

/-- The string literals of the expression. -/
def texts : Expr β → List String
  | .int _ _ | .var _ _ _ => []
  | .string value _ => [value]
  | .math _ left right _ => left.texts ++ right.texts

/-- The expression with other string literals. -/
def mapText : Expr β → Expr β
  | .int value loc => .int value loc
  | .string value loc => .string (f value) loc
  | .var name note loc => .var name note loc
  | .math op left right loc => .math op left.mapText right.mapText loc

theorem mapText_eq_self {e : Expr β} (h : ∀ text ∈ e.texts, f text = text) : e.mapText f = e := by
  induction e with
  | int value loc => rfl
  | string value loc => rw [mapText, h value (List.mem_singleton.2 rfl)]
  | var name note loc => rfl
  | math op left right loc ihleft ihright =>
      rw [texts, List.forall_mem_append] at h
      rw [mapText, ihleft h.1, ihright h.2]

end Expr

namespace Condition

def texts (c : Condition β) : List String :=
  c.left.texts ++ c.right.texts

def mapText (c : Condition β) : Condition β :=
  ⟨c.op, c.left.mapText f, c.right.mapText f, c.loc⟩

theorem mapText_eq_self {c : Condition β} (h : ∀ text ∈ c.texts, f text = text) : c.mapText f = c := by
  rw [texts, List.forall_mem_append] at h
  rw [mapText, Expr.mapText_eq_self f h.1, Expr.mapText_eq_self f h.2]

end Condition

namespace Tree

mutual

def Stmt.texts : Stmt → List String
  | .declare _ _ _ none _ => []
  | .declare _ _ _ (some value) _ => value.texts
  | .assign _ _ value _ => value.texts
  | .print value _ => value.texts
  | .ifThen cond body _ _ => cond.texts ++ textsAll body
  | .ifElse cond body _ otherwise _ => cond.texts ++ textsAll body ++ otherwise.texts
  | .block body _ => textsAll body

def textsAll : List Stmt → List String
  | [] => []
  | stmt :: rest => stmt.texts ++ textsAll rest

end

mutual

def Stmt.mapText : Stmt → Stmt
  | .declare name type inferred value loc => .declare name type inferred (value.map (·.mapText f)) loc
  | .assign name target value loc => .assign name target (value.mapText f) loc
  | .print value loc => .print (value.mapText f) loc
  | .ifThen cond body brace loc => .ifThen (cond.mapText f) (mapTextAll body) brace loc
  | .ifElse cond body brace otherwise loc =>
    .ifElse (cond.mapText f) (mapTextAll body) brace otherwise.mapText loc
  | .block body loc => .block (mapTextAll body) loc

def mapTextAll : List Stmt → List Stmt
  | [] => []
  | stmt :: rest => stmt.mapText :: mapTextAll rest

end

def File.mapText (file : File) : File :=
  ⟨file.name, mapTextAll f file.body⟩

mutual

theorem Stmt.mapText_eq_self : (stmt : Stmt) → (∀ text ∈ stmt.texts, f text = text) → stmt.mapText f = stmt
  | .declare name type inferred none loc, _ => rfl
  | .declare name type inferred (some value) loc, h => by
      rw [Stmt.mapText, Option.map_some, Expr.mapText_eq_self f h]
  | .assign name target value loc, h => by rw [Stmt.mapText, Expr.mapText_eq_self f h]
  | .print value loc, h => by rw [Stmt.mapText, Expr.mapText_eq_self f h]
  | .ifThen cond body brace loc, h => by
      rw [Stmt.texts, List.forall_mem_append] at h
      rw [Stmt.mapText, Condition.mapText_eq_self f h.1, mapTextAll_eq_self body h.2]
  | .ifElse cond body brace otherwise loc, h => by
      rw [Stmt.texts, List.forall_mem_append, List.forall_mem_append] at h
      rw [Stmt.mapText, Condition.mapText_eq_self f h.1.1, mapTextAll_eq_self body h.1.2,
        otherwise.mapText_eq_self h.2]
  | .block body loc, h => by rw [Stmt.mapText, mapTextAll_eq_self body h]

/-- Where no string literal changes, nothing changes. -/
theorem mapTextAll_eq_self : (stmts : List Stmt) → (∀ text ∈ textsAll stmts, f text = text) → mapTextAll f stmts = stmts
  | [], _ => rfl
  | stmt :: rest, h => by
      rw [textsAll, List.forall_mem_append] at h
      rw [mapTextAll, stmt.mapText_eq_self h.1, mapTextAll_eq_self rest h.2]

end

theorem File.mapText_eq_self {file : File} (h : ∀ text ∈ textsAll file.body, f text = text) : file.mapText f = file := by
  rw [File.mapText, mapTextAll_eq_self f file.body h]

end Tree

end Lai
