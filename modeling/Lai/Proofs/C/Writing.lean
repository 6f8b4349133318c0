import Lai.Proofs.C.Frame
import Lai.Proofs.C.Sections
import Lai.Proofs.C.Spelling
/-!
# What the writer writes can be read

The blocks that the lines written so far leave open hold the variables that the writer has in its scopes,
and all variables that have been declared are counted. Every statement that is written without a fault
keeps this up, so that the lines of a file lead from the empty context to one with no open block.
-/

namespace Lai.C

open Context

/-! ### What is written without a fault -/

theorem Outcome.of_andThen {x : Outcome} {next : Writer → Outcome} {w : Writer} (h : x.andThen next = (w, none)) :
    ∃ middle, x = (middle, none) ∧ next middle = (w, none) := by
  obtain ⟨middle, fault⟩ := x
  cases fault with
  | none => exact ⟨middle, rfl, h⟩
  | some fault => simp [andThen] at h

theorem Position.of_simple {position : Position} {kind : Simple} {w after : Writer} {x : Outcome}
    (h : position.simple kind w x = (after, none)) : position = .alone ∧ x = (after, none) := by
  cases position with
  | alone => exact ⟨rfl, h⟩
  | afterElse loc => simp [simple, Writer.fail] at h

namespace Writer

variable {w after : Writer} {name : String} {loc : Location}

theorem of_inside {body : List Tree.Stmt} (h : w.inside (writeAll body) = (after, none)) :
    ∃ inner, writeAll body w.entered = (inner, none) ∧ after = w.resume inner := by
  rw [inside_writeAll] at h
  obtain ⟨hwriter, hfault⟩ := Prod.mk.inj h
  exact ⟨_, Prod.ext rfl hfault, hwriter.symm⟩

theorem of_find {v : Var} (h : w.find name loc = .ok v) : w.scopes.find? name = some v := by
  unfold find at h
  split at h
  · next hfind => rw [hfind, Except.ok.inj h]
  · simp at h

theorem of_test {cond : Condition Binding} {test : Test} (h : w.test cond = .ok test) :
    w.expr cond.left = .ok test.left ∧ w.expr cond.right = .ok test.right := by
  unfold Writer.test at h
  split at h
  · simp at h
  split at h
  · simp at h
  split at h
  · next _ _ hleft _ _ hright _ _ _ =>
      obtain rfl := Except.ok.inj h
      exact ⟨hleft, hright⟩
  · simp at h

theorem of_declaration {type : Ty} {value : Option (Lai.Expr Binding)}
    (h : w.declaration name type value loc = (after, none)) :
    ∃ first t, w.initialValue type value loc = .ok first ∧ after = (w.bind name).put (.declare t (w.nextVar name) first) := by
  unfold declaration at h
  split at h
  · simp at h
  split at h
  · simp [fail] at h
  · next first hfirst _ t _ => exact ⟨first, t, hfirst, (Prod.mk.inj h).1.symm⟩

theorem of_assignment {value : Lai.Expr Binding} (h : w.assignment name value loc = (after, none)) :
    ∃ x v, w.expr value = .ok x ∧ w.scopes.find? name = some v ∧ after = w.put (.assign v x) := by
  unfold assignment at h
  split at h
  · simp at h
  split at h
  · simp at h
  · next x hx _ v hv => exact ⟨x, v, hx, of_find hv, (Prod.mk.inj h).1.symm⟩

theorem of_printing {value : Lai.Expr Binding} (h : w.printing value loc = (after, none)) :
    ∃ x t, w.expr value = .ok x ∧ after = w.put (.print t x) := by
  unfold printing at h
  split at h
  · simp at h
  split at h
  · next x hx _ t _ => exact ⟨x, t, hx, (Prod.mk.inj h).1.symm⟩
  · simp [fail] at h

/-! ### Variables in scope -/

/-- The variables that the lines written so far declare, latest first. -/
def declared (w : Writer) : List Var :=
  w.lines.filterMap fun l => l.line.reading.declared

/-- The context behind the lines written so far. -/
def context (w : Writer) : Context Var :=
  ⟨w.scopes.inner.map Prod.snd, w.scopes.outer.map (List.map Prod.snd), w.declared⟩

theorem visible_of_find {v : Var} (h : w.scopes.find? name = some v) : w.context.Visible v := by
  obtain ⟨block, hblock, hmem⟩ : ∃ block ∈ w.scopes.inner :: w.scopes.outer, (name, v) ∈ block := by
    simpa [Scopes.entries] using Scopes.mem_entries_of_find? h
  exact ⟨block.map Prod.snd, List.mem_map.2 ⟨block, hblock, rfl⟩, List.mem_map.2 ⟨(name, v), hmem, rfl⟩⟩

theorem visible_of_expr {e : Lai.Expr Binding} {x : Expr} (h : w.expr e = .ok x) : ∀ v ∈ x.vars, w.context.Visible v := by
  induction e generalizing x with
  | int value loc =>
      obtain rfl : Expr.int value = x := by simpa [Writer.expr, Expr.type] using h
      simp [Expr.vars]
  | string value loc =>
      obtain rfl : Expr.string value = x := by simpa [Writer.expr, Expr.type] using h
      simp [Expr.vars]
  | var name note loc =>
      rw [Writer.expr] at h
      split at h
      · simp at h
      · cases hfind : w.find name loc with
        | error fault => simp [hfind, Except.map] at h
        | ok target =>
            obtain rfl : Expr.var target = x := by simpa [hfind, Except.map] using h
            intro v hv
            obtain rfl := List.mem_singleton.1 hv
            exact visible_of_find (of_find hfind)
  | math op left right loc ihleft ihright =>
      rw [Writer.expr] at h
      split at h
      · simp at h
      split at h
      · simp at h
      split at h
      · simp at h
      · next _ _ l hl _ r hr =>
          have hvars : x.vars = l.vars ++ r.vars := by
            split at h
            · split at h
              · rw [← Except.ok.inj h, Expr.vars]
              · simp at h
            · rw [← Except.ok.inj h, Expr.vars]
          intro v hv
          rw [hvars, List.mem_append] at hv
          rcases hv with hv | hv
          · exact ihleft hl v hv
          · exact ihright hr v hv

theorem visible_of_test {cond : Condition Binding} {test : Test} (h : w.test cond = .ok test) :
    ∀ v ∈ test.vars, w.context.Visible v := by
  obtain ⟨hleft, hright⟩ := of_test h
  intro v hv
  rcases List.mem_append.1 hv with hv | hv
  · exact visible_of_expr hleft v hv
  · exact visible_of_expr hright v hv

theorem visible_of_initialValue {type : Ty} {value : Option (Lai.Expr Binding)} {first : Expr}
    (h : w.initialValue type value loc = .ok first) : ∀ v ∈ first.vars, w.context.Visible v := by
  unfold initialValue at h
  split at h
  · exact visible_of_expr h
  split at h
  · next t _ =>
      obtain rfl := Except.ok.inj h
      cases t <;> simp [CType.zero, Expr.vars]
  · simp at h

/-! ### Counting -/

/-- All variables that have been declared are counted. -/
def Counted (w : Writer) : Prop :=
  ∀ v ∈ w.declared, 1 ≤ v.ordinal ∧ v.ordinal ≤ w.count v.name

theorem count_bind (w : Writer) (name other : String) :
    (w.bind name).count other = if other = name then w.count name + 1 else w.count other := by
  by_cases hne : other = name
  · subst hne
    simp [count, bind]
  · simp [count, bind, List.lookup_cons, beq_false_of_ne hne, hne]

namespace Counted

theorem nextVar_notMem (h : w.Counted) (name : String) : w.nextVar name ∉ w.declared := by
  intro hmem
  exact Nat.not_succ_le_self _ (h _ hmem).2

theorem put (h : w.Counted) {line : Line} (hline : line.reading.declared = none) : (w.put line).Counted := by
  have hdeclared : (w.put line).declared = w.declared := by simp [declared, Writer.put, hline]
  intro v hv
  exact h v (hdeclared ▸ hv)

theorem declare (h : w.Counted) (name : String) (t : CType) (first : Expr) :
    ((w.bind name).put (.declare t (w.nextVar name) first)).Counted := by
  intro v hv
  have hcount : ((w.bind name).put (.declare t (w.nextVar name) first)).count v.name = (w.bind name).count v.name := rfl
  rw [hcount, count_bind]
  rcases List.mem_cons.1 hv with rfl | hv
  · have hname : (w.nextVar name).name = name := rfl
    rw [if_pos hname]
    exact ⟨Nat.le_add_left 1 _, Nat.le_refl _⟩
  · obtain ⟨hlow, hhigh⟩ := h v hv
    refine ⟨hlow, ?_⟩
    split
    · next hname =>
        rw [← hname]
        exact Nat.le_succ_of_le hhigh
    · exact hhigh

end Counted

end Writer

/-! ### Statements -/

/-- The lines that take the writer to a later one lead from a context to another; the writer stays in its
block and counts the variables that it declares. -/
structure Wrote (start : Context Var) (w later : Writer) (finish : Context Var) : Prop where
  run : ∃ lines : List IndentedLine, later.lines = lines.reverse ++ w.lines ∧
    Run start (lines.map fun l => l.line.reading) finish
  outer_eq : later.scopes.outer = w.scopes.outer
  counted : later.Counted

namespace Wrote

variable {start middle finish : Context Var} {w later last : Writer}

theorem refl (hcounted : w.Counted) : Wrote w.context w w w.context :=
  ⟨⟨[], rfl, .nil _⟩, rfl, hcounted⟩

theorem trans (h : Wrote start w later middle) (h' : Wrote middle later last finish) : Wrote start w last finish := by
  obtain ⟨lines, hlines, hrun⟩ := h.run
  obtain ⟨more, hmore, hrest⟩ := h'.run
  refine ⟨⟨lines ++ more, ?_, ?_⟩, h'.outer_eq.trans h.outer_eq, h'.counted⟩
  · rw [hmore, hlines, List.reverse_append, List.append_assoc]
  · rw [List.map_append]
    exact hrun.append hrest

theorem put {line : Line} (hcounted : (w.put line).Counted) (hstep : Step start line.reading finish) :
    Wrote start w (w.put line) finish :=
  ⟨⟨[⟨w.depth, line⟩], rfl, .single hstep⟩, rfl, hcounted⟩

end Wrote

/-- Where the lines of a statement begin: at the context of the writer, or behind an `else` at the end of a
block in it. -/
def Position.Begins (c : Context Var) : Position → Context Var → Prop
  | .alone, start => start = c
  | .afterElse _, start => ∃ block, start = c.inside block

theorem Position.Begins.openIf {c start : Context Var} {position : Position} (h : position.Begins c start) {test : Test}
    (hused : ∀ v ∈ test.vars, c.Visible v) : Step start (position.openIf test).reading (c.inside []) := by
  cases position with
  | alone =>
      obtain rfl : start = c := h
      exact .enter hused
  | afterElse loc =>
      obtain ⟨block, rfl⟩ := h
      exact .switch block hused

theorem Position.Begins.openBlock {c start : Context Var} {position : Position} (h : position.Begins c start) :
    Step start position.openBlock.reading (c.inside []) := by
  cases position with
  | alone =>
      obtain rfl : start = c := h
      exact .enter (by simp)
  | afterElse loc =>
      obtain ⟨block, rfl⟩ := h
      exact .switch block (by simp)

theorem wrote_declaration {w after : Writer} {name : String} {type : Ty} {value : Option (Lai.Expr Binding)}
    {loc : Location} (h : w.declaration name type value loc = (after, none)) (hcounted : w.Counted) :
    Wrote w.context w after after.context := by
  obtain ⟨first, t, hfirst, rfl⟩ := Writer.of_declaration h
  have hstep : Step w.context (Line.declare t (w.nextVar name) first).reading
      ((w.bind name).put (.declare t (w.nextVar name) first)).context :=
    .declare (hcounted.nextVar_notMem name) (Writer.visible_of_initialValue hfirst)
  exact ⟨⟨[⟨w.depth, _⟩], rfl, .single hstep⟩, rfl, hcounted.declare name t first⟩

theorem wrote_assignment {w after : Writer} {name : String} {value : Lai.Expr Binding} {loc : Location}
    (h : w.assignment name value loc = (after, none)) (hcounted : w.Counted) :
    Wrote w.context w after after.context := by
  obtain ⟨x, v, hx, hv, rfl⟩ := Writer.of_assignment h
  refine .put (hcounted.put rfl) (.plain fun u hu => ?_)
  rcases List.mem_cons.1 hu with rfl | hu
  · exact Writer.visible_of_find hv
  · exact Writer.visible_of_expr hx u hu

theorem wrote_printing {w after : Writer} {value : Lai.Expr Binding} {loc : Location}
    (h : w.printing value loc = (after, none)) (hcounted : w.Counted) : Wrote w.context w after after.context := by
  obtain ⟨x, t, hx, rfl⟩ := Writer.of_printing h
  exact .put (hcounted.put rfl) (.plain (Writer.visible_of_expr hx))

/-- A block is written from its opening line to the context of the block behind its last line. -/
theorem wrote_inside {start : Context Var} {w after : Writer} {opening : Line} {trees : List Tree.Stmt}
    (h : (w.put opening).inside (writeAll trees) = (after, none))
    (hbody : ∀ {w after : Writer}, writeAll trees w = (after, none) → w.Counted → Wrote w.context w after after.context)
    (hcounted : w.Counted) (hdeclared : opening.reading.declared = none)
    (hopen : Step start opening.reading (w.context.inside [])) :
    ∃ block, Wrote start w after (after.context.inside block) := by
  obtain ⟨inner, hinner, rfl⟩ := Writer.of_inside h
  have hentered : (w.put opening).entered.context = w.context.inside [] := by
    simp [Writer.context, Writer.entered, Writer.put, Writer.declared, Scopes.enter, inside, hdeclared]
  have hwrote : Wrote (w.context.inside []) (w.put opening).entered inner inner.context :=
    hentered ▸ hbody hinner (hcounted.put hdeclared)
  obtain ⟨lines, hlines, hrun⟩ := hwrote.run
  -- Nothing inside has changed the blocks around, so the context inside is that behind the block with one more.
  have hcontext : inner.context = ((w.put opening).resume inner).context.inside (inner.scopes.inner.map Prod.snd) := by
    simp [Writer.context, Writer.resume, Writer.declared, inside, hwrote.outer_eq, Writer.entered, Scopes.enter]
  refine ⟨inner.scopes.inner.map Prod.snd, ⟨⟨w.depth, opening⟩ :: lines, ?_, ?_⟩, rfl, hwrote.counted⟩
  · simp [Writer.resume, hlines, Writer.entered, Writer.put]
  · rw [← hcontext]
    exact .cons hopen hrun

theorem wrote_close {w : Writer} (hcounted : w.Counted) (block : List Var) :
    Wrote (w.context.inside block) w (w.put .close) (w.put .close).context :=
  .put (hcounted.put rfl) (.leave w.context block)

mutual

/-- The lines of a statement lead from where it begins to the context of the writer behind it. -/
theorem wrote_stmt : (tree : Tree.Stmt) → ∀ {position : Position} {start : Context Var} {w after : Writer},
    writeStmt position tree w = (after, none) → w.Counted → position.Begins w.context start →
      Wrote start w after after.context
  | .declare name type inferred value loc, position, start, w, after, h, hcounted, hbegins => by
      obtain ⟨rfl, hwritten⟩ := Position.of_simple h
      obtain rfl : start = w.context := hbegins
      exact wrote_declaration hwritten hcounted
  | .assign name note value loc, position, start, w, after, h, hcounted, hbegins => by
      obtain ⟨rfl, hwritten⟩ := Position.of_simple h
      obtain rfl : start = w.context := hbegins
      exact wrote_assignment hwritten hcounted
  | .print value loc, position, start, w, after, h, hcounted, hbegins => by
      obtain ⟨rfl, hwritten⟩ := Position.of_simple h
      obtain rfl : start = w.context := hbegins
      exact wrote_printing hwritten hcounted
  | .ifThen cond body brace loc, position, start, w, after, h, hcounted, hbegins => by
      rw [writeStmt] at h
      split at h
      · simp at h
      · next test htest =>
          obtain ⟨middle, hinside, hclose⟩ := Outcome.of_andThen h
          obtain ⟨block, hwrote⟩ := wrote_inside hinside (wrote_all body) hcounted (by cases position <;> rfl)
            (hbegins.openIf (Writer.visible_of_test htest))
          obtain rfl := (Prod.mk.inj hclose).1
          exact hwrote.trans (wrote_close hwrote.counted block)
  | .ifElse cond body brace otherwise loc, position, start, w, after, h, hcounted, hbegins => by
      rw [writeStmt] at h
      split at h
      · simp at h
      · next test htest =>
          obtain ⟨middle, hinside, helse⟩ := Outcome.of_andThen h
          obtain ⟨block, hwrote⟩ := wrote_inside hinside (wrote_all body) hcounted (by cases position <;> rfl)
            (hbegins.openIf (Writer.visible_of_test htest))
          exact hwrote.trans (wrote_stmt otherwise helse hwrote.counted ⟨block, rfl⟩)
  | .block body loc, position, start, w, after, h, hcounted, hbegins => by
      rw [writeStmt] at h
      obtain ⟨middle, hinside, hclose⟩ := Outcome.of_andThen h
      obtain ⟨block, hwrote⟩ := wrote_inside hinside (wrote_all body) hcounted (by cases position <;> rfl)
        hbegins.openBlock
      obtain rfl := (Prod.mk.inj hclose).1
      exact hwrote.trans (wrote_close hwrote.counted block)

theorem wrote_all : (trees : List Tree.Stmt) → ∀ {w after : Writer}, writeAll trees w = (after, none) → w.Counted →
    Wrote w.context w after after.context
  | [], w, after, h, hcounted => by
      obtain rfl := (Prod.mk.inj h).1
      exact .refl hcounted
  | tree :: trees, w, after, h, hcounted => by
      rw [writeAll] at h
      obtain ⟨middle, hfirst, hrest⟩ := Outcome.of_andThen h
      have hwrote := wrote_stmt tree hfirst hcounted rfl
      exact hwrote.trans (wrote_all trees hrest hwrote.counted)

end

/-! ### Files -/

/-- The lines of a file can be read from the start, and all blocks are closed behind them. -/
theorem sectionOf_run {file : Tree.File} {s : Section} (h : sectionOf file = .ok s) :
    ∃ finish, Run {} (s.lines.map fun l => l.line.reading) finish ∧ finish.outer = [] ∧
      ∀ v ∈ finish.seen, 1 ≤ v.ordinal := by
  unfold sectionOf at h
  split at h
  · next w hwritten =>
      obtain rfl := Except.ok.inj h
      have hwrote := wrote_all file.body hwritten (fun v hv => absurd hv List.not_mem_nil)
      obtain ⟨lines, hlines, hrun⟩ := hwrote.run
      refine ⟨w.context, ?_, ?_, fun v hv => (hwrote.counted v hv).1⟩
      · have hreverse : w.lines.reverse = lines := by
          rw [hlines]
          simp
        rw [hreverse]
        exact hrun
      · rw [Writer.context, hwrote.outer_eq]
        rfl
  · simp at h

end Lai.C
