import Lai.Proofs.C.Freshness
import Lai.Proofs.Semantics.C
import Lai.Proofs.Tree.Texts
/-!
# A translation does what its tree does

A run of a tree and a run of its translation go through the same blocks. What a name stands for on
both sides is one cell, the variable in C and the value that it holds, and the scopes of both runs are
views of the cells. Each statement takes views of the same cells to views of the same cells, prints
the same line, or is undefined on both sides for the same reason. Texts are those that C can see, up to
their first NUL.
-/

namespace Lai.C

/-! ### Cells -/

/-- A variable and the value that it holds. -/
structure Cell where
  var : Var
  value : Value

namespace Cell

/-- The cell as translation knows it. -/
def toLocal (cell : Cell) : Local :=
  ⟨cell.var, .ofValue cell.value⟩

/-- The cell as a run in C knows it. -/
def toSlot (cell : Cell) : Slot :=
  ⟨.ofValue cell.value, some cell.value⟩

end Cell

/-- What translation knows of the cells. -/
def localsOf (cells : Scopes Cell) : Scopes Local :=
  cells.map Cell.toLocal

/-- What a run of trees knows of the cells. -/
def valuesOf (cells : Scopes Cell) : Scopes Value :=
  cells.map Cell.value

/-- What a run in C knows of the cells. -/
def storeOf (cells : Scopes Cell) : Scopes Slot :=
  cells.mapEntries fun entry => (entry.2.var.text, entry.2.toSlot)

section

variable {names : Names} {cells : Scopes Cell} {name : String} {cell : Cell}

theorem localsOf_leave (cells : Scopes Cell) : localsOf cells.leave = (localsOf cells).leave :=
  Scopes.map_leave _ cells

theorem valuesOf_leave (cells : Scopes Cell) : valuesOf cells.leave = (valuesOf cells).leave :=
  Scopes.map_leave _ cells

theorem storeOf_leave (cells : Scopes Cell) : storeOf cells.leave = (storeOf cells).leave :=
  Scopes.mapEntries_leave _ cells

theorem exists_cell {target : Local} (h : (localsOf cells).find? name = some target) :
    ∃ cell, cells.find? name = some cell ∧ cell.toLocal = target := by
  rw [localsOf, Scopes.find?_map, Option.map_eq_some_iff] at h
  exact h

theorem find?_valuesOf (h : cells.find? name = some cell) : (valuesOf cells).find? name = some cell.value := by
  rw [valuesOf, Scopes.find?_map, h, Option.map_some]

theorem mem_locals_of_mem (hcells : localsOf cells = names.scopes) {entry : String × Cell} (h : entry ∈ cells.entries) :
    (entry.1, entry.2.toLocal) ∈ names.scopes.entries := by
  rw [← hcells, localsOf, Scopes.map, Scopes.entries_mapEntries]
  exact List.mem_map.2 ⟨entry, h, rfl⟩

/-- No other name has a variable that is written like this one's. -/
theorem separates_storeOf (hsound : names.Sound) (hcells : localsOf cells = names.scopes)
    (h : cells.find? name = some cell) :
    Scopes.Separates (fun entry : String × Cell => (entry.2.var.text, entry.2.toSlot)) cells name cell := by
  intro entry hmem htext
  exact hsound.name_eq_of_text_eq (mem_locals_of_mem hcells hmem)
    (mem_locals_of_mem hcells (Scopes.mem_entries_of_find? h)) htext

theorem localsOf_update (cells : Scopes Cell) (name : String) (new : Cell) :
    localsOf (cells.update name new) = (localsOf cells).update name new.toLocal :=
  Scopes.map_update _ cells name new

theorem valuesOf_update (cells : Scopes Cell) (name : String) (new : Cell) :
    valuesOf (cells.update name new) = (valuesOf cells).update name new.value :=
  Scopes.map_update _ cells name new

theorem storeOf_update (hsound : names.Sound) (hcells : localsOf cells = names.scopes) (h : cells.find? name = some cell)
    (x : Value) : storeOf (cells.update name ⟨cell.var, x⟩) =
      (storeOf cells).update cell.var.text (Cell.toSlot ⟨cell.var, x⟩) :=
  Scopes.mapEntries_update (separates_storeOf hsound hcells h) h rfl

/-- Every cell in scope is found in the store under its variable. -/
def Holds (store : Scopes Slot) (cells : Scopes Cell) : Prop :=
  ∀ name cell, cells.find? name = some cell → store.find? cell.var.text = some cell.toSlot

theorem holds_storeOf (hsound : names.Sound) (hcells : localsOf cells = names.scopes) : Holds (storeOf cells) cells := by
  intro name cell h
  exact Scopes.find?_mapEntries (separates_storeOf hsound hcells h) h

/-- The declarator of a new variable hides no cell. -/
theorem holds_bind_next (hsound : names.Sound) (hcells : localsOf cells = names.scopes) (name : String) (type : CType)
    (slot : Slot) : Holds ((storeOf cells).bind (names.next name type).var.text slot) cells := by
  intro other cell h
  have hne : cell.var.text ≠ (names.next name type).var.text :=
    hsound.text_ne_next (mem_locals_of_mem hcells (Scopes.mem_entries_of_find? h)) name type
  rw [Scopes.find?_bind_of_ne _ _ hne]
  exact holds_storeOf hsound hcells other cell h

theorem not_declares_next (hsound : names.Sound) (hcells : localsOf cells = names.scopes) (name : String)
    (type : CType) : (storeOf cells).declares (names.next name type).var.text = false := by
  rw [← Scopes.fresh_iff_declares]
  intro slot hmem
  obtain ⟨entry, hentry, heq⟩ := List.mem_map.1 hmem
  have hcell : entry ∈ cells.entries := List.mem_append_left _ hentry
  exact hsound.text_ne_next (mem_locals_of_mem hcells hcell) name type (congrArg Prod.fst heq)

end

/-! ### Expressions -/

theorem fit_ne_stuck (n : Int) : fit n ≠ .error .stuck := by
  unfold fit
  split <;> simp

theorem onInts_ne_stuck (op : MathOp) (m n : Int32) : op.onInts m n ≠ .error .stuck := by
  cases op with
  | add => exact fit_ne_stuck _
  | subtract => exact fit_ne_stuck _
  | multiply => exact fit_ne_stuck _
  | divide =>
      rw [MathOp.onInts]
      split
      · simp
      · exact fit_ne_stuck _

/-- A value of the type, or an undefined run that did not get stuck. -/
def Regular (type : CType) : Except Trap Value → Prop
  | .ok x => CType.ofValue x = type
  | .error trap => trap ≠ .stuck

namespace Regular

variable {x : Except Trap Value}

/-- Operations that agree on the values of a type agree on operands of that type, of which the first
undefined one decides. -/
theorem operate {α : Type} {type : CType} {y : Except Trap Value} (hx : Regular type x) (hy : Regular type y)
    {f g : Value → Value → Except Trap α} {P : Except Trap α → Prop} (htrap : ∀ trap, trap ≠ .stuck → P (.error trap))
    (hvalues : ∀ a b, CType.ofValue a = type → CType.ofValue b = type → f a b = g a b ∧ P (f a b)) :
    (x >>= fun a => y >>= fun b => f a b) = (x >>= fun a => y >>= fun b => g a b) ∧
      P (x >>= fun a => y >>= fun b => f a b) := by
  cases x with
  | error trap => exact ⟨rfl, htrap trap hx⟩
  | ok a =>
      cases y with
      | error trap => exact ⟨rfl, htrap trap hy⟩
      | ok b => exact hvalues a b hx hy

theorem map_int {x : Except Trap Int32} (h : x ≠ .error .stuck) : Regular .int (x.map .int) := by
  cases x with
  | ok n => rfl
  | error trap => exact fun hstuck => h (hstuck ▸ rfl)

end Regular

section

variable {scopes : Scopes Local} {cells : Scopes Cell} {store : Scopes Slot}

/-- An expression and its translation have the same value, of the type of the translation. -/
theorem TranslatesExpr.eval_eq {e : Lai.Expr Binding} {x : Expr} {type : CType} (h : TranslatesExpr scopes e x type)
    (hcells : localsOf cells = scopes) (hstore : Holds store cells) :
    x.eval store = (e.mapText upToNul).eval (valuesOf cells) ∧ Regular type (x.eval store) := by
  induction h with
  | int value loc => exact ⟨rfl, rfl⟩
  | string text loc => exact ⟨rfl, rfl⟩
  | var loc hname hnote =>
      rw [← hcells] at hname
      obtain ⟨cell, hcell, rfl⟩ := exists_cell hname
      have hslot : store.find? cell.toLocal.var.text = some cell.toSlot := hstore _ _ hcell
      rw [Lai.Expr.mapText, Lai.Expr.eval, Expr.eval, hslot, find?_valuesOf hcell]
      exact ⟨rfl, rfl⟩
  | math op loc hleft hright ihleft ihright =>
      rw [Lai.Expr.mapText, Lai.Expr.eval, Expr.eval, ← ihleft.1, ← ihright.1]
      apply ihleft.2.operate ihright.2 (fun _ htrap => htrap)
      intro a b ha hb
      cases a with
      | string s => cases ha
      | int m =>
          cases b with
          | string s => cases hb
          | int n => exact ⟨rfl, .map_int (onInts_ne_stuck op m n)⟩
  | concat loc hleft hright ihleft ihright =>
      rw [Lai.Expr.mapText, Lai.Expr.eval, Expr.eval, ← ihleft.1, ← ihright.1]
      apply ihleft.2.operate ihright.2 (fun _ htrap => htrap)
      intro a b ha hb
      cases a with
      | int m => cases ha
      | string s =>
          cases b with
          | int n => cases hb
          | string t => exact ⟨rfl, rfl⟩

/-- A test and its translation succeed in the same cases, and never get stuck. -/
theorem TranslatesTest.eval_eq {cond : Condition Binding} {test : Test} (h : TranslatesTest scopes cond test)
    (hcells : localsOf cells = scopes) (hstore : Holds store cells) :
    test.eval store = (cond.mapText upToNul).eval (valuesOf cells) ∧ test.eval store ≠ .error .stuck := by
  cases h with
  | @test op left right l r type loc hleft hright =>
      obtain ⟨hl, hlregular⟩ := hleft.eval_eq hcells hstore
      obtain ⟨hr, hrregular⟩ := hright.eval_eq hcells hstore
      rw [Condition.mapText, Condition.eval, Test.eval, ← hl, ← hr]
      apply hlregular.operate hrregular (P := (· ≠ .error .stuck)) (fun _ htrap heq => htrap (Except.error.inj heq))
      intro a b ha hb
      subst ha
      -- Operands of different types are ruled out by `hb`.
      cases a <;> cases b <;> cases hb
      all_goals
        refine ⟨rfl, ?_⟩
        intro heq
        cases heq

theorem TranslatesInitial.eval_eq {type : CType} {value : Option (Lai.Expr Binding)} {first : Expr}
    (h : TranslatesInitial scopes type value first) (hcells : localsOf cells = scopes) (hstore : Holds store cells) :
    first.eval store = Tree.initialValue (valuesOf cells) type.toTy (value.map (·.mapText upToNul)) ∧
      Regular type (first.eval store) := by
  cases h with
  | zero => cases type <;> exact ⟨rfl, rfl⟩
  | value h => exact h.eval_eq hcells hstore

end

/-! ### Statements -/

/-- Both runs end with views of the same cells and the same lines, or are undefined for the same reason,
which is not that they got stuck. -/
def Simulates (scopes : Scopes Local) (x : Except Trap (State Value)) (y : Except Trap (State Slot)) : Prop :=
  match x with
  | .ok s => ∃ cells, localsOf cells = scopes ∧ s.scopes = valuesOf cells ∧ y = .ok ⟨storeOf cells, s.output⟩
  | .error trap => trap ≠ .stuck ∧ y = .error trap

namespace Simulates

variable {scopes after : Scopes Local} {x : Except Trap (State Value)} {y : Except Trap (State Slot)}

theorem intro {cells : Scopes Cell} (hcells : localsOf cells = scopes) (output : List String) :
    Simulates scopes (.ok ⟨valuesOf cells, output⟩) (.ok ⟨storeOf cells, output⟩) :=
  ⟨cells, hcells, rfl, rfl⟩

/-- Runs that simulate each other may be gone on with. -/
theorem bind (h : Simulates scopes x y) {f : State Value → Except Trap (State Value)}
    {g : State Slot → Except Trap (State Slot)}
    (hnext : ∀ cells output, localsOf cells = scopes →
      Simulates after (f ⟨valuesOf cells, output⟩) (g ⟨storeOf cells, output⟩)) :
    Simulates after (x >>= f) (y >>= g) := by
  cases x with
  | error trap =>
      obtain ⟨hregular, rfl⟩ := h
      exact ⟨hregular, rfl⟩
  | ok s =>
      obtain ⟨cells, hcells, hvalues, rfl⟩ := h
      obtain ⟨_, output⟩ := s
      cases hvalues
      exact hnext cells output hcells

/-- Both runs take the same branch. -/
theorem ite {c : Except Trap Bool} (hc : c ≠ .error .stuck) {x' : Except Trap (State Value)}
    {y' : Except Trap (State Slot)} (hyes : Simulates scopes x y) (hno : Simulates scopes x' y') :
    Simulates scopes (c >>= fun yes => if yes then x else x') (c >>= fun yes => if yes then y else y') := by
  cases c with
  | error trap => exact ⟨fun h => hc (h ▸ rfl), rfl⟩
  | ok yes =>
      cases yes with
      | true => exact hyes
      | false => exact hno

/-- Both runs leave a block for the names around it. -/
theorem inBlock {cells : Scopes Cell} {output : List String} (hleave : after.leave = localsOf cells)
    {f : State Value → Except Trap (State Value)} {g : State Slot → Except Trap (State Slot)}
    (hbody : Simulates after (f ⟨valuesOf cells.enter, output⟩) (g ⟨storeOf cells.enter, output⟩)) :
    Simulates (localsOf cells) (State.inBlock ⟨valuesOf cells, output⟩ f) (State.inBlock ⟨storeOf cells, output⟩ g) := by
  refine bind hbody ?_
  intro inside output hinside
  refine ⟨inside.leave, ?_, ?_, ?_⟩
  · rw [localsOf_leave, hinside, hleave]
  · exact (valuesOf_leave inside).symm
  · rw [storeOf_leave]
    rfl

end Simulates

section

variable {names : Names} {cells : Scopes Cell}

theorem filled_self (x : Value) : Slot.filled (CType.ofValue x) x = .ok ⟨CType.ofValue x, some x⟩ :=
  if_pos rfl

/-- A declaration makes a cell for its name. -/
theorem simulates_declare (hsound : names.Sound) (hcells : localsOf cells = names.scopes) (output : List String)
    (name : String) {type : CType} (inferred : Bool) {value : Option (Lai.Expr Binding)} {first : Expr} (loc : Location)
    (hvalue : TranslatesInitial names.scopes type value first) :
    Simulates (names.bind name type).scopes
      (((Tree.Stmt.declare name type.toTy inferred value loc).mapText upToNul).exec ⟨valuesOf cells, output⟩)
      ((Stmt.declare type (names.next name type).var first).exec ⟨storeOf cells, output⟩) := by
  -- In C the new variable is in scope, without a value, where its first value is found.
  obtain ⟨heq, hregular⟩ := hvalue.eval_eq hcells (holds_bind_next hsound hcells name type ⟨type, none⟩)
  rw [Tree.Stmt.mapText, Tree.Stmt.exec, Stmt.exec_declare (not_declares_next hsound hcells name type), ← heq]
  generalize first.eval _ = r at hregular ⊢
  cases r with
  | error trap => exact ⟨hregular, rfl⟩
  | ok x =>
      cases (hregular : CType.ofValue x = type)
      refine ⟨cells.bind name ⟨(names.next name (CType.ofValue x)).var, x⟩, ?_, rfl, ?_⟩
      · change (localsOf cells).bind name _ = _
        rw [hcells]
        rfl
      · change (Slot.filled _ x >>= _) = _
        rw [filled_self]
        rfl

/-- An assignment changes the cell of its name. -/
theorem simulates_assign (hsound : names.Sound) (hcells : localsOf cells = names.scopes) (output : List String)
    {name : String} {target : Local} (note : Binding) {value : Lai.Expr Binding} {x : Expr} (loc : Location)
    (hname : names.scopes.find? name = some target) (hvalue : TranslatesExpr names.scopes value x target.type) :
    Simulates names.scopes
      (((Tree.Stmt.assign name note value loc).mapText upToNul).exec ⟨valuesOf cells, output⟩)
      ((Stmt.assign target.var x).exec ⟨storeOf cells, output⟩) := by
  have hholds := holds_storeOf hsound hcells
  obtain ⟨heq, hregular⟩ := hvalue.eval_eq hcells hholds
  obtain ⟨cell, hcell, rfl⟩ := exists_cell (hcells ▸ hname)
  have hslot : (storeOf cells).find? cell.toLocal.var.text = some cell.toSlot := hholds name cell hcell
  rw [Tree.Stmt.mapText, Tree.Stmt.exec, Stmt.exec, ← heq, find?_valuesOf hcell, hslot]
  generalize x.eval _ = r at hregular ⊢
  cases r with
  | error trap => exact ⟨hregular, rfl⟩
  | ok x =>
      -- The value has the type of the one it replaces, so translation sees the same cells as before.
      have htype : CType.ofValue x = CType.ofValue cell.value := hregular
      have hlocal : Cell.toLocal ⟨cell.var, x⟩ = cell.toLocal := congrArg (Local.mk cell.var) htype
      refine ⟨cells.update name ⟨cell.var, x⟩, ?_, (valuesOf_update cells name ⟨cell.var, x⟩).symm, ?_⟩
      · rw [localsOf_update, hcells, hlocal, Scopes.update_eq_self hname]
      · change (Slot.filled (CType.ofValue cell.value) x >>= _) = _
        rw [← htype, filled_self, storeOf_update hsound hcells hcell]
        rfl

theorem simulates_print (hsound : names.Sound) (hcells : localsOf cells = names.scopes) (output : List String)
    {value : Lai.Expr Binding} {x : Expr} {type : CType} (loc : Location)
    (hvalue : TranslatesExpr names.scopes value x type) :
    Simulates names.scopes (((Tree.Stmt.print value loc).mapText upToNul).exec ⟨valuesOf cells, output⟩)
      ((Stmt.print type x).exec ⟨storeOf cells, output⟩) := by
  obtain ⟨heq, hregular⟩ := hvalue.eval_eq hcells (holds_storeOf hsound hcells)
  rw [Tree.Stmt.mapText, Tree.Stmt.exec, Stmt.exec, ← heq]
  generalize x.eval _ = r at hregular ⊢
  cases r with
  | error trap => exact ⟨hregular, rfl⟩
  | ok x =>
      refine ⟨cells, hcells, rfl, ?_⟩
      exact if_pos hregular

end

section

variable {names inner : Names} {cells : Scopes Cell}

theorem simulates_inBlock {f : State Value → Except Trap (State Value)} {g : State Slot → Except Trap (State Slot)}
    (hinner : names.enter.Extends inner)
    (hbody : ∀ cells output, localsOf cells = names.enter.scopes →
      Simulates inner.scopes (f ⟨valuesOf cells, output⟩) (g ⟨storeOf cells, output⟩))
    (hcells : localsOf cells = names.scopes) (output : List String) :
    Simulates names.scopes (State.inBlock ⟨valuesOf cells, output⟩ f) (State.inBlock ⟨storeOf cells, output⟩ g) := by
  have henter : localsOf cells.enter = names.enter.scopes := congrArg Scopes.enter hcells
  have hleave : inner.scopes.leave = localsOf cells := hinner.leave_eq.trans hcells.symm
  rw [← hcells]
  exact .inBlock hleave (hbody cells.enter output henter)

/-- A branch is simulated if both ways to go on are. -/
theorem simulates_branch (hsound : names.Sound) (hcells : localsOf cells = names.scopes) {cond : Condition Binding}
    {test : Test} (hcond : TranslatesTest names.scopes cond test) {scopes : Scopes Local}
    {x x' : Except Trap (State Value)} {y y' : Except Trap (State Slot)} (hyes : Simulates scopes x y)
    (hno : Simulates scopes x' y') :
    Simulates scopes ((cond.mapText upToNul).eval (valuesOf cells) >>= fun yes => if yes then x else x')
      (test.eval (storeOf cells) >>= fun yes => if yes then y else y') := by
  obtain ⟨heq, hregular⟩ := hcond.eval_eq hcells (holds_storeOf hsound hcells)
  rw [← heq]
  exact .ite hregular hyes hno

end

mutual

/-- A statement is simulated by its translation. -/
theorem Translates.simulates {names after : Names} {tree : Tree.Stmt} {stmt : Stmt} :
    Translates names tree stmt after → names.Sound → ∀ cells output, localsOf cells = names.scopes →
      Simulates after.scopes ((tree.mapText upToNul).exec ⟨valuesOf cells, output⟩)
        (stmt.exec ⟨storeOf cells, output⟩)
  | .declare name inferred loc hvalue, hsound, cells, output, hcells =>
      simulates_declare hsound hcells output name inferred loc hvalue
  | .assign note loc hname hvalue, hsound, cells, output, hcells =>
      simulates_assign hsound hcells output note loc hname hvalue
  | .print loc hvalue, hsound, cells, output, hcells => simulates_print hsound hcells output loc hvalue
  | .branch h, hsound, cells, output, hcells => h.simulates hsound cells output hcells
  | .block loc hbody, hsound, cells, output, hcells => by
      rw [Tree.Stmt.mapText, Tree.Stmt.exec, Stmt.exec]
      change Simulates names.scopes _ _
      exact simulates_inBlock hbody.extends (hbody.simulates hsound.enter) hcells output

theorem TranslatesChain.simulates {names after : Names} {tree : Tree.Stmt} {chain : Chain} :
    TranslatesChain names tree chain after → names.Sound → ∀ cells output, localsOf cells = names.scopes →
      Simulates after.scopes ((tree.mapText upToNul).exec ⟨valuesOf cells, output⟩)
        (chain.exec ⟨storeOf cells, output⟩)
  | .ifThen brace loc hcond hbody, hsound, cells, output, hcells => by
      rw [Tree.Stmt.mapText, Tree.Stmt.exec, Chain.exec]
      have hyes := simulates_inBlock hbody.extends (hbody.simulates hsound.enter) hcells output
      exact simulates_branch hsound hcells hcond hyes (.intro hcells output)
  | .ifElse brace mark loc hcond hbody hlast, hsound, cells, output, hcells => by
      rw [Tree.Stmt.mapText, Tree.Stmt.mapText, Tree.Stmt.exec, Tree.Stmt.exec, Chain.exec]
      have hrest := (Names.Extends.resume hbody.extends).sound hsound
      have hyes := simulates_inBlock hbody.extends (hbody.simulates hsound.enter) hcells output
      have hno := simulates_inBlock hlast.extends (hlast.simulates hrest.enter) hcells output
      exact simulates_branch hsound hcells hcond hyes hno
  | .elseIf brace loc hcond hbody hlast, hsound, cells, output, hcells => by
      rw [Tree.Stmt.mapText, Tree.Stmt.exec, Chain.exec, hlast.scopes_eq]
      have hrest := (Names.Extends.resume hbody.extends).sound hsound
      have hyes := simulates_inBlock hbody.extends (hbody.simulates hsound.enter) hcells output
      have hno := hlast.simulates hrest cells output hcells
      rw [hlast.scopes_eq] at hno
      exact simulates_branch hsound hcells hcond hyes hno

theorem TranslatesAll.simulates {names after : Names} {trees : List Tree.Stmt} {stmts : List Stmt} :
    TranslatesAll names trees stmts after → names.Sound → ∀ cells output, localsOf cells = names.scopes →
      Simulates after.scopes (Tree.execAll (Tree.mapTextAll upToNul trees) ⟨valuesOf cells, output⟩)
        (execAll stmts ⟨storeOf cells, output⟩)
  | .nil _, _, cells, output, hcells => .intro hcells output
  | .cons hfirst hrest, hsound, cells, output, hcells => by
      rw [Tree.mapTextAll, Tree.execAll, execAll]
      exact (hfirst.simulates hsound cells output hcells).bind (hrest.simulates (hfirst.extends.sound hsound))

end

end Lai.C
