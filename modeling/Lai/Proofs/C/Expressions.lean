import Lai.Proofs.C.Rendering
import Lai.Proofs.C.Writing
/-!
# Written expressions say one thing

An expression that the writer puts into C has one parse, and this is the expression itself: its variables by
their C names, its sums of texts as calls and its integers as constants of the same value. A writer has its
names from its own declarations, so different names stand for variables that are written differently, and
two expressions are written alike only if they are alike.
-/

namespace Lai

/-- The expression without its places and notes. -/
def Expr.bare {β : Type} : Expr β → Expr Unit
  | .int value _ => .int value .origin
  | .string value _ => .string value .origin
  | .var name _ _ => .var name () .origin
  | .math op left right _ => .math op left.bare right.bare .origin

namespace C

open Text

/-! ### The tree of an expression -/

/-- The tree is the expression as C has it, names being looked up by the writer. -/
inductive Mirrors (w : Writer) : Lai.Expr Binding → CTree → Prop where
  | int (value : Int32) (loc : Location) : Mirrors w (.int value loc) (.ofInt value.toInt)
  | string (value : String) (loc : Location) : Mirrors w (.string value loc) (.literal (bytes value))
  | var {name : String} {v : Var} (note : Binding) {loc : Location} (hname : w.find name loc = .ok v) :
      Mirrors w (.var name note loc) (.name (bytes v.text))
  | math (op : MathOp) {left right : Lai.Expr Binding} {l r : CTree} {loc : Location}
      (htype : (Lai.Expr.math op left right loc).type = .int) (hleft : Mirrors w left l) (hright : Mirrors w right r) :
      Mirrors w (.math op left right loc) (.group (.binary (.math op) l r))
  | concat {left right : Lai.Expr Binding} {l r : CTree} {loc : Location}
      (htype : (Lai.Expr.math .add left right loc).type = .string) (hleft : Mirrors w left l) (hright : Mirrors w right r) :
      Mirrors w (.math .add left right loc) (.ofCall "lai_rt_concat" [l, r])

namespace Writer

variable {w : Writer}

theorem of_expr_math {op : MathOp} {left right : Lai.Expr Binding} {loc : Location} {x : Expr}
    (h : w.expr (.math op left right loc) = .ok x) :
    ∃ l r, w.expr left = .ok l ∧ w.expr right = .ok r ∧
      ((Lai.Expr.math op left right loc).type = .int ∧ x = .math op l r ∨
        (Lai.Expr.math op left right loc).type = .string ∧ op = .add ∧ x = .concat l r) := by
  rw [Writer.expr] at h
  split at h
  · simp at h
  split at h
  · simp at h
  split at h
  · simp at h
  · next hknown _ l hl _ r hr =>
      refine ⟨l, r, hl, hr, ?_⟩
      split at h
      · next hstring =>
          split at h
          · next hop => exact .inr ⟨hstring, hop, (Except.ok.inj h).symm⟩
          · simp at h
      · next hstring =>
          refine .inl ⟨?_, (Except.ok.inj h).symm⟩
          cases htype : (Lai.Expr.math op left right loc).type with
          | unknown => exact absurd htype hknown
          | int => rfl
          | string => exact absurd htype hstring

theorem mirrors_of_expr {e : Lai.Expr Binding} {x : Expr} (h : w.expr e = .ok x) : Mirrors w e x.tree := by
  induction e generalizing x with
  | int value loc =>
      obtain rfl : Expr.int value = x := by simpa [Writer.expr, Expr.type] using h
      exact .int value loc
  | string value loc =>
      obtain rfl : Expr.string value = x := by simpa [Writer.expr, Expr.type] using h
      exact .string value loc
  | var name note loc =>
      rw [Writer.expr] at h
      split at h
      · simp at h
      · cases hfind : w.find name loc with
        | error fault => simp [hfind, Except.map] at h
        | ok v =>
            obtain rfl : Expr.var v = x := by simpa [hfind, Except.map] using h
            exact .var note hfind
  | math op left right loc ihleft ihright =>
      obtain ⟨l, r, hl, hr, ⟨htype, rfl⟩ | ⟨htype, rfl, rfl⟩⟩ := of_expr_math h
      · exact .math op htype (ihleft hl) (ihright hr)
      · exact .concat htype (ihleft hl) (ihright hr)

/-! ### Names of a writer -/

/-- The writer can come about from a new one by what it does: taking a name, writing a line, beginning a
block, and writing a block or any other statement, with or without a fault. -/
inductive Reachable : Writer → Prop where
  | start : Reachable {}
  | bind {w : Writer} (h : Reachable w) (name : String) : Reachable (w.bind name)
  | put {w : Writer} (h : Reachable w) (line : Line) : Reachable (w.put line)
  | enter {w : Writer} (h : Reachable w) : Reachable w.entered
  | inside {w : Writer} (h : Reachable w) (body : List Tree.Stmt) : Reachable (w.inside (writeAll body)).1
  | stmt {w : Writer} (h : Reachable w) (position : Position) (tree : Tree.Stmt) : Reachable (writeStmt position tree w).1

/-- Every name in scope stands for a variable that was declared with this name. -/
def Faithful (w : Writer) : Prop :=
  ∀ entry ∈ w.scopes.entries, entry.2.name = entry.1 ∧ 1 ≤ entry.2.ordinal

theorem Faithful.bind (h : w.Faithful) (name : String) : (w.bind name).Faithful := by
  rw [Faithful, Writer.bind, Scopes.entries_bind, List.forall_mem_cons]
  exact ⟨⟨rfl, Nat.le_add_left 1 _⟩, h⟩

theorem Faithful.of_scopes_eq {later : Writer} (h : w.Faithful) (heq : later.scopes = w.scopes) : later.Faithful := by
  rw [Faithful, heq]
  exact h

theorem Faithful.andThen {x : Outcome} {next : Writer → Outcome} (h : x.1.Faithful)
    (hnext : ∀ {later : Writer}, later.Faithful → (next later).1.Faithful) : (x.andThen next).1.Faithful := by
  unfold Outcome.andThen
  split
  · exact hnext h
  · exact h

theorem Faithful.declaration (h : w.Faithful) (name : String) (type : Ty) (value : Option (Lai.Expr Binding))
    (loc : Location) : (w.declaration name type value loc).1.Faithful := by
  unfold Writer.declaration
  split
  · exact h
  split
  · exact h.bind name
  · exact (h.bind name).of_scopes_eq rfl

theorem Faithful.simple {position : Position} (kind : Simple) {x : Outcome} (h : w.Faithful) (hx : x.1.Faithful) :
    (position.simple kind w x).1.Faithful := by
  cases position with
  | alone => exact hx
  | afterElse loc => exact h

/-- A block leaves the names around it as they are, and the rest of a statement adds its own name at most. -/
theorem Faithful.stmt : (tree : Tree.Stmt) → ∀ {w : Writer} (position : Position), w.Faithful →
    (writeStmt position tree w).1.Faithful
  | .declare name type inferred value loc, w, position, h => h.simple .declare (h.declaration name type value loc)
  | .assign name note value loc, w, position, h => h.simple .assign (h.of_scopes_eq (scopes_assignment name value loc))
  | .print value loc, w, position, h => h.simple .print (h.of_scopes_eq (scopes_printing value loc))
  | .ifThen cond body brace loc, w, position, h => by
      rw [writeStmt]
      split
      · exact h
      · exact Faithful.andThen (h.of_scopes_eq (scopes_inside _ body)) fun hlater => hlater.of_scopes_eq rfl
  | .ifElse cond body brace otherwise loc, w, position, h => by
      rw [writeStmt]
      split
      · exact h
      · exact Faithful.andThen (h.of_scopes_eq (scopes_inside _ body)) fun hlater => Faithful.stmt otherwise (.afterElse loc) hlater
  | .block body loc, w, position, h => by
      rw [writeStmt]
      exact Faithful.andThen (h.of_scopes_eq (scopes_inside _ body)) fun hlater => hlater.of_scopes_eq rfl

theorem Reachable.faithful (h : w.Reachable) : w.Faithful := by
  induction h with
  | start => simp [Faithful, Scopes.entries]
  | bind _ name ih => exact ih.bind name
  | put _ line ih => exact ih.of_scopes_eq rfl
  | enter _ ih => exact ih
  | inside _ body ih => exact ih.of_scopes_eq (scopes_inside _ body)
  | stmt _ position tree ih => exact .stmt tree position ih

theorem Faithful.name_eq {name other : String} {loc place : Location} {u v : Var} (h : w.Faithful)
    (hname : w.find name loc = .ok u) (hother : w.find other place = .ok v) (htext : u.text = v.text) : name = other := by
  obtain ⟨hu, hlow⟩ := h _ (Scopes.mem_entries_of_find? (of_find hname))
  obtain ⟨hv, hrow⟩ := h _ (Scopes.mem_entries_of_find? (of_find hother))
  exact hu.symm.trans ((congrArg Var.name (Var.text_inj hlow hrow htext)).trans hv)

end Writer

/-! ### Expressions that are written alike -/

/-- The expression can be told from its tree, but for places and notes. -/
theorem Mirrors.bare_eq {w : Writer} (hw : w.Faithful) {e : Lai.Expr Binding} {t : CTree} (h : Mirrors w e t) :
    ∀ {f : Lai.Expr Binding} {u : CTree}, Mirrors w f u → t = u → e.bare = f.bare := by
  induction h with
  | int value loc =>
      intro f u hf heq
      cases hf with
      | int other place => rw [Expr.bare, Expr.bare, Int32.toInt_inj.1 (CTree.ofInt_inj heq)]
      | _ => exact absurd heq.symm (CTree.ne_ofInt rfl _)
  | string value loc =>
      intro f u hf heq
      cases hf with
      | int other place => exact absurd heq (CTree.ne_ofInt rfl _)
      | string other place => rw [Expr.bare, Expr.bare, bytes_inj.1 (CTree.literal.inj heq)]
      | _ => cases heq
  | var note hname =>
      intro f u hf heq
      cases hf with
      | int other place => exact absurd heq (CTree.ne_ofInt rfl _)
      | var other hother => rw [Expr.bare, Expr.bare, hw.name_eq hname hother (bytes_inj.1 (CTree.name.inj heq))]
      | _ => cases heq
  | math op _ _ _ ihleft ihright =>
      intro f u hf heq
      cases hf with
      | int other place => exact absurd heq (CTree.ne_ofInt rfl _)
      | math other _ hl hr =>
          simp only [CTree.group.injEq, CTree.binary.injEq, BinaryOp.math.injEq] at heq
          rw [Expr.bare, Expr.bare, heq.1, ihleft hl heq.2.1, ihright hr heq.2.2]
      | _ => cases heq
  | concat _ _ _ ihleft ihright =>
      intro f u hf heq
      cases hf with
      | int other place => exact absurd heq (CTree.ne_ofInt rfl _)
      | concat _ hl hr =>
          simp only [CTree.ofCall, CTree.call.injEq, List.cons.injEq, and_true, true_and] at heq
          rw [Expr.bare, Expr.bare, ihleft hl heq.1, ihright hr heq.2]
      | _ => cases heq

/-- An expression that is written has one parse, which is the expression itself as C has it; so expressions
that one writer writes alike are alike. -/
theorem written_expr_unambiguous {w : Writer} (hw : w.Reachable) {e : Lai.Expr Binding} {x : Expr}
    (h : w.expr e = .ok x) :
    (∃ tree, Mirrors w e tree ∧ ∀ other, Parses (bytes x.text) other ↔ other = tree) ∧
    ∀ (f : Lai.Expr Binding) (y : Expr), w.expr f = .ok y → x.text = y.text → e.bare = f.bare := by
  refine ⟨⟨x.tree, Writer.mirrors_of_expr h, x.parses_text_iff⟩, fun f y hf htext => ?_⟩
  have htree : x.tree = y.tree := by
    rw [← y.parses_text_iff, ← htext, x.parses_text_iff]
  exact (Writer.mirrors_of_expr h).bare_eq hw.faithful (Writer.mirrors_of_expr hf) htree

/-- A writer inside a block, where a name has been declared once more. -/
def redeclaringWriter : Writer :=
  ((({} : Writer).bind "x").entered).bind "x"

/-- The name minus a product of a negative number and zero. -/
def signedProduct : Lai.Expr Binding :=
  .math .subtract (.var "x" ⟨.int, true⟩ .origin) (.math .multiply (.int (-5) .origin) (.int 0 .origin) .origin) .origin

/-- The sign of a number is not taken into the operator in front of it. -/
theorem unambiguous_signedProduct :
    redeclaringWriter.Reachable ∧
    ∃ x, redeclaringWriter.expr signedProduct = .ok x ∧ x.text = "(lai_v_x_2 - (-5 * 0))" ∧
      ∃ tree, Mirrors redeclaringWriter signedProduct tree ∧ ∀ other, Parses (bytes x.text) other ↔ other = tree := by
  have hreachable : redeclaringWriter.Reachable := ((Writer.Reachable.start.bind "x").enter).bind "x"
  have hwritten : redeclaringWriter.expr signedProduct =
      .ok (.math .subtract (.var ⟨"x", 2⟩) (.math .multiply (.int (-5)) (.int 0))) := rfl
  exact ⟨hreachable, _, hwritten, by decide, (written_expr_unambiguous hreachable hwritten).1⟩

end C

end Lai
