import Lai.C.Writer
import Lai.Proofs.Scopes
/-!
# What writing leaves as it was

A statement adds lines that are indented at least as far as it stands, counts its declarations, and
changes no scope but the innermost one, which only a declaration changes, at its own name. That holds
whether the statement can be written or not, and wherever in it a fault is met: a block that has been
begun is left again, and what it declared is gone.
-/

namespace Lai.C

namespace Writer

variable {w middle after inner : Writer}

theorem count_bind_self (w : Writer) (name : String) : (w.bind name).count name = w.count name + 1 := by
  simp [count, bind]

theorem count_bind_of_ne (w : Writer) {name other : String} (hne : other ≠ name) :
    (w.bind name).count other = w.count other := by
  simp [count, bind, List.lookup_cons, beq_false_of_ne hne]

/-- The second writer has come from the first one without touching what the first one found around it. -/
structure Keeps (w after : Writer) : Prop where
  depth_eq : after.depth = w.depth
  outer_eq : after.scopes.outer = w.scopes.outer
  count_le : ∀ name, w.count name ≤ after.count name
  lines_eq : ∃ added, after.lines = added ++ w.lines ∧ ∀ line ∈ added, w.depth ≤ line.depth

namespace Keeps

theorem refl (w : Writer) : w.Keeps w :=
  ⟨rfl, rfl, fun _ => Nat.le_refl _, [], rfl, by simp⟩

theorem trans (h : w.Keeps middle) (h' : middle.Keeps after) : w.Keeps after := by
  obtain ⟨first, hfirst, hdeep⟩ := h.lines_eq
  obtain ⟨second, hsecond, hdeep'⟩ := h'.lines_eq
  rw [h.depth_eq] at hdeep'
  refine ⟨h'.depth_eq.trans h.depth_eq, h'.outer_eq.trans h.outer_eq,
    fun name => Nat.le_trans (h.count_le name) (h'.count_le name), second ++ first, ?_, ?_⟩
  · rw [hsecond, hfirst, List.append_assoc]
  · exact List.forall_mem_append.2 ⟨hdeep', hdeep⟩

theorem put (w : Writer) (line : Line) : w.Keeps (w.put line) :=
  ⟨rfl, rfl, fun _ => Nat.le_refl _, [⟨w.depth, line⟩], rfl, by simp⟩

theorem bind (w : Writer) (name : String) : w.Keeps (w.bind name) := by
  refine ⟨rfl, rfl, fun other => ?_, [], rfl, by simp⟩
  by_cases hne : other = name
  · rw [hne, count_bind_self]
    exact Nat.le_succ _
  · exact Nat.le_of_eq (count_bind_of_ne w hne).symm

/-- Leaving the block that was entered gives back the scopes around it. -/
theorem scopes_left (h : w.entered.Keeps inner) : inner.left.scopes = w.scopes :=
  Scopes.leave_eq_of_outer_eq h.outer_eq

theorem depth_left (h : w.entered.Keeps inner) : inner.left.depth = w.depth := by
  rw [left, h.depth_eq]
  rfl

theorem left (h : w.entered.Keeps inner) : w.Keeps inner.left := by
  obtain ⟨added, hadded, hdeep⟩ := h.lines_eq
  exact ⟨h.depth_left, by rw [h.scopes_left], h.count_le, added, hadded,
    fun line hline => Nat.le_of_succ_le (hdeep line hline)⟩

theorem length_lines_le (h : w.Keeps after) : w.lines.length ≤ after.lines.length := by
  obtain ⟨added, hadded, -⟩ := h.lines_eq
  rw [hadded, List.length_append]
  exact Nat.le_add_left _ _

theorem andThen {x : Outcome} {next : Writer → Outcome} (h : w.Keeps x.1) (hnext : x.1.Keeps (next x.1).1) :
    w.Keeps (x.andThen next).1 := by
  unfold Outcome.andThen
  split
  · exact h.trans hnext
  · exact h

end Keeps

/-! ### Simple statements -/

/-- A declaration has no effect, or takes its name and adds a line at most. -/
theorem keeps_declaration (w : Writer) (name : String) (type : Ty) (value : Option (Lai.Expr Binding))
    (loc : Location) : w.Keeps (w.declaration name type value loc).1 := by
  unfold declaration
  split
  · exact .refl w
  split
  · exact .bind w name
  · exact (Keeps.bind w name).trans (.put _ _)

theorem keeps_assignment (w : Writer) (name : String) (value : Lai.Expr Binding) (loc : Location) :
    w.Keeps (w.assignment name value loc).1 := by
  unfold assignment
  split
  · exact .refl w
  split
  · exact .refl w
  · exact .put w _

theorem keeps_printing (w : Writer) (value : Lai.Expr Binding) (loc : Location) :
    w.Keeps (w.printing value loc).1 := by
  unfold printing
  split
  · exact .refl w
  split
  · exact .put w _
  · exact .refl w

theorem keeps_simple (position : Position) (kind : Simple) {x : Outcome} (h : w.Keeps x.1) :
    w.Keeps (position.simple kind w x).1 := by
  cases position with
  | alone => exact h
  | afterElse loc => exact .refl w

end Writer

open Writer

/-! ### All statements -/

/-- A block and what follows it. -/
theorem keeps_inside {w : Writer} {body : List Tree.Stmt} {next : Writer → Outcome}
    (hbody : ∀ w : Writer, w.Keeps (writeAll body w).1) (hnext : ∀ w : Writer, w.Keeps (next w).1) :
    w.Keeps ((w.inside (writeAll body)).andThen next).1 :=
  (hbody _).left.andThen (hnext _)

mutual

theorem keeps_stmt : (tree : Tree.Stmt) → ∀ (position : Position) (w : Writer), w.Keeps (writeStmt position tree w).1
  | .declare name type inferred value loc, position, w => keeps_simple position .declare (keeps_declaration w name type value loc)
  | .assign name note value loc, position, w => keeps_simple position .assign (keeps_assignment w name value loc)
  | .print value loc, position, w => keeps_simple position .print (keeps_printing w value loc)
  | .ifThen cond body brace loc, position, w => by
      rw [writeStmt]
      split
      · exact .refl w
      · exact (Keeps.put w _).trans (keeps_inside (keeps_all body) fun w => .put w .close)
  | .ifElse cond body brace otherwise loc, position, w => by
      rw [writeStmt]
      split
      · exact .refl w
      · exact (Keeps.put w _).trans (keeps_inside (keeps_all body) (keeps_stmt otherwise (.afterElse loc)))
  | .block body loc, position, w => by
      rw [writeStmt]
      exact (Keeps.put w _).trans (keeps_inside (keeps_all body) fun w => .put w .close)

theorem keeps_all : (trees : List Tree.Stmt) → ∀ w : Writer, w.Keeps (writeAll trees w).1
  | [], w => .refl w
  | tree :: trees, w => by
      rw [writeAll]
      exact (keeps_stmt tree .alone w).andThen (keeps_all trees _)

end

namespace Writer

/-- The writer behind a block that has been written up to the given one. -/
def resume (w inner : Writer) : Writer :=
  { inner with depth := w.depth, scopes := w.scopes }

/-- Behind a block, depth and scopes are those in front of it. -/
theorem inside_writeAll (w : Writer) (body : List Tree.Stmt) :
    w.inside (writeAll body) = (w.resume (writeAll body w.entered).1, (writeAll body w.entered).2) := by
  have hkeeps := keeps_all body w.entered
  refine Prod.ext ?_ rfl
  rw [resume, ← hkeeps.depth_left, ← hkeeps.scopes_left]
  rfl

theorem scopes_inside (w : Writer) (body : List Tree.Stmt) : (w.inside (writeAll body)).1.scopes = w.scopes :=
  (keeps_all body w.entered).scopes_left

/-! ### The innermost scope -/

/-- A declaration changes the innermost scope at its own name only. -/
theorem lookup_declaration (w : Writer) (name : String) (type : Ty) (value : Option (Lai.Expr Binding))
    (loc : Location) {other : String} (hne : other ≠ name) :
    (w.declaration name type value loc).1.scopes.inner.lookup other = w.scopes.inner.lookup other := by
  have hbind : (w.bind name).scopes.inner.lookup other = w.scopes.inner.lookup other := by
    simp [bind, Scopes.bind, List.lookup_cons, beq_false_of_ne hne]
  unfold declaration
  split
  · rfl
  split
  · exact hbind
  · exact hbind

theorem scopes_assignment {w : Writer} (name : String) (value : Lai.Expr Binding) (loc : Location) :
    (w.assignment name value loc).1.scopes = w.scopes := by
  unfold assignment
  split
  · rfl
  split <;> rfl

theorem scopes_printing {w : Writer} (value : Lai.Expr Binding) (loc : Location) :
    (w.printing value loc).1.scopes = w.scopes := by
  unfold printing
  split
  · rfl
  split <;> rfl

theorem scopes_simple (position : Position) (kind : Simple) {w : Writer} {x : Outcome} (h : x.1.scopes = w.scopes) :
    (position.simple kind w x).1.scopes = w.scopes := by
  cases position with
  | alone => exact h
  | afterElse loc => rfl

theorem scopes_andThen {scopes : Scopes Var} {x : Outcome} {next : Writer → Outcome} (h : x.1.scopes = scopes)
    (hnext : ∀ w : Writer, (next w).1.scopes = w.scopes) : (x.andThen next).1.scopes = scopes := by
  unfold Outcome.andThen
  split
  · rw [hnext, h]
  · exact h

end Writer

/-- Only a declaration that stands on its own changes the scopes. -/
theorem scopes_stmt : (tree : Tree.Stmt) → ∀ (position : Position) (w : Writer),
    (position = .alone → ∀ name type inferred value loc, tree ≠ .declare name type inferred value loc) →
      (writeStmt position tree w).1.scopes = w.scopes
  | .declare name type inferred value loc, .alone, w, h => absurd rfl (h rfl name type inferred value loc)
  | .declare name type inferred value loc, .afterElse place, w, h => rfl
  | .assign name note value loc, position, w, h => scopes_simple position .assign (scopes_assignment name value loc)
  | .print value loc, position, w, h => scopes_simple position .print (scopes_printing value loc)
  | .ifThen cond body brace loc, position, w, h => by
      rw [writeStmt]
      split
      · rfl
      · exact scopes_andThen (scopes_inside _ body) fun w => rfl
  | .ifElse cond body brace otherwise loc, position, w, h => by
      rw [writeStmt]
      split
      · rfl
      · exact scopes_andThen (scopes_inside _ body) fun w => scopes_stmt otherwise (.afterElse loc) w (by simp)
  | .block body loc, position, w, h => by
      rw [writeStmt]
      exact scopes_andThen (scopes_inside _ body) fun w => rfl

/-- Where the innermost scope differs behind a statement, the statement has declared the name. -/
theorem declares_of_lookup_ne {position : Position} {tree : Tree.Stmt} {w : Writer} {name : String}
    (hne : (writeStmt position tree w).1.scopes.inner.lookup name ≠ w.scopes.inner.lookup name) :
    ∃ type inferred value loc, tree = .declare name type inferred value loc := by
  by_cases hdeclare : ∃ other type inferred value loc, tree = .declare other type inferred value loc
  · obtain ⟨other, type, inferred, value, loc, rfl⟩ := hdeclare
    by_cases hname : name = other
    · exact ⟨type, inferred, value, loc, by rw [hname]⟩
    · cases position with
      | alone => exact absurd (lookup_declaration w other type value loc hname) hne
      | afterElse place => exact absurd rfl hne
  · have hscopes := scopes_stmt tree position w fun _ other type inferred value loc heq =>
      hdeclare ⟨other, type, inferred, value, loc, heq⟩
    exact absurd (by rw [hscopes]) hne

/-! ### Lines -/

theorem IndentedLine.tabs_isPrefix {line : IndentedLine} {depth : Nat} (h : depth ≤ line.depth) :
    List.replicate depth '\t' <+: line.text.toList := by
  refine ⟨List.replicate (line.depth - depth) '\t' ++ line.line.text.toList, ?_⟩
  rw [← List.append_assoc, List.replicate_append_replicate, Nat.add_sub_cancel' h]
  simp [text]

/-- The line that opens a block stays. -/
theorem length_lines_lt_block {w : Writer} {opening : Line} {x : Outcome} (h : (w.put opening).Keeps x.1) :
    w.lines.length < x.1.lines.length :=
  h.length_lines_le

/-- A statement that is written adds a line. -/
theorem length_lines_lt : (tree : Tree.Stmt) → ∀ (position : Position) (w : Writer),
    (writeStmt position tree w).2 = none → w.lines.length < (writeStmt position tree w).1.lines.length
  | .declare name type inferred value loc, .alone, w, h => by
      simp only [writeStmt, Position.simple, declaration] at h ⊢
      split at h
      · simp at h
      split at h
      · simp [fail] at h
      · exact Nat.lt_succ_self _
  | .assign name note value loc, .alone, w, h => by
      simp only [writeStmt, Position.simple, assignment] at h ⊢
      split at h
      · simp at h
      split at h
      · simp at h
      · exact Nat.lt_succ_self _
  | .print value loc, .alone, w, h => by
      simp only [writeStmt, Position.simple, printing] at h ⊢
      split at h
      · simp at h
      split at h
      · exact Nat.lt_succ_self _
      · simp [fail] at h
  | .declare .., .afterElse _, w, h | .assign .., .afterElse _, w, h | .print .., .afterElse _, w, h => by
      simp [writeStmt, Position.simple, fail] at h
  | .ifThen cond body brace loc, position, w, h => by
      rw [writeStmt] at h ⊢
      split at h
      · simp at h
      · exact length_lines_lt_block (keeps_inside (keeps_all body) fun w => .put w .close)
  | .ifElse cond body brace otherwise loc, position, w, h => by
      rw [writeStmt] at h ⊢
      split at h
      · simp at h
      · exact length_lines_lt_block (keeps_inside (keeps_all body) (keeps_stmt otherwise (.afterElse loc)))
  | .block body loc, position, w, h => by
      rw [writeStmt]
      exact length_lines_lt_block (keeps_inside (keeps_all body) fun w => .put w .close)

/-- Writing a statement, with or without a fault, keeps the depth and all scopes around the innermost one; it
changes the innermost one only where the statement is a declaration of that name; it lowers no count; and it
keeps the lines written so far in front of new ones that are indented at least as far as the statement, of
which there are some if there is no fault. -/
theorem writeStmt_keeps_frame (position : Position) (tree : Tree.Stmt) (w : Writer) :
    let x := writeStmt position tree w
    x.1.depth = w.depth ∧ x.1.scopes.outer = w.scopes.outer ∧
    (∀ name, x.1.scopes.inner.lookup name ≠ w.scopes.inner.lookup name →
      ∃ type inferred value loc, tree = .declare name type inferred value loc) ∧
    (∀ name, w.count name ≤ x.1.count name) ∧
    ∃ added, x.1.lines.reverse = w.lines.reverse ++ added ∧
      (∀ line ∈ added, List.replicate w.depth '\t' <+: line.text.toList) ∧ (x.2 = none → added ≠ []) := by
  have hkeeps := keeps_stmt tree position w
  obtain ⟨added, hadded, hdeep⟩ := hkeeps.lines_eq
  refine ⟨hkeeps.depth_eq, hkeeps.outer_eq, fun name => declares_of_lookup_ne, hkeeps.count_le, added.reverse, ?_, ?_, ?_⟩
  · rw [hadded, List.reverse_append]
  · intro line hline
    exact IndentedLine.tabs_isPrefix (hdeep line (List.mem_reverse.1 hline))
  · rintro hwritten hempty
    have hlonger := length_lines_lt tree position w hwritten
    rw [hadded, List.reverse_eq_nil_iff.1 hempty] at hlonger
    exact Nat.lt_irrefl _ hlonger

end Lai.C
