import Lai.Proofs.Grammar.Steps
/-!
# Places in what is read

Every place that the reader keeps, in finished statements and in those still being read, is the place
of a token. So every node of the statements it returns, and every fault, stands at a token, those found
at the end of the text at the last one.
-/

namespace Lai

variable {β : Type}

/-- Every place in the expression is one of these. -/
def Expr.Placed (P : Location → Prop) : Expr β → Prop
  | .int _ loc | .string _ loc | .var _ _ loc => P loc
  | .math _ left right loc => left.Placed P ∧ right.Placed P ∧ P loc

structure Condition.Placed (P : Location → Prop) (c : Condition β) : Prop where
  left : c.left.Placed P
  right : c.right.Placed P
  loc : P c.loc

namespace Grammar

mutual

/-- Every place in the statement is one of these. -/
def Stmt.Placed (P : Location → Prop) : Stmt → Prop
  | .infer _ value loc | .assign _ value loc | .print value loc => value.Placed P ∧ P loc
  | .declare _ _ value loc => (∀ e ∈ value, e.Placed P) ∧ P loc
  | .ifThen cond body brace loc => cond.Placed P ∧ PlacedAll P body ∧ P brace ∧ P loc
  | .ifElse cond body brace otherwise loc =>
    cond.Placed P ∧ PlacedAll P body ∧ P brace ∧ otherwise.Placed P ∧ P loc
  | .block body loc => PlacedAll P body ∧ P loc
  | .broken blocks fault => PlacedAll P blocks ∧ P fault.loc

def PlacedAll (P : Location → Prop) : List Stmt → Prop
  | [] => True
  | stmt :: rest => stmt.Placed P ∧ PlacedAll P rest

end

variable {P : Location → Prop}

theorem placedAll_iff {stmts : List Stmt} : PlacedAll P stmts ↔ ∀ stmt ∈ stmts, stmt.Placed P := by
  induction stmts with
  | nil => simp [PlacedAll]
  | cons stmt rest ih => simp [PlacedAll, ih]

/-! ### What is kept of a statement being read -/

structure Pending.Placed (P : Location → Prop) (pending : Pending) : Prop where
  left : pending.left.Placed P
  loc : P pending.loc

structure Level.Placed (P : Location → Prop) (level : Level) : Prop where
  sum : ∀ pending ∈ level.sum, pending.Placed P
  product : ∀ pending ∈ level.product, pending.Placed P

structure Hole.Placed (P : Location → Prop) (hole : Hole) : Prop where
  level : hole.level.Placed P
  outer : ∀ level ∈ hole.outer, level.Placed P

structure Formula.Placed (P : Location → Prop) (formula : Formula) : Prop where
  sum : ∀ pending ∈ formula.sum, pending.Placed P
  term : formula.term.Placed P
  outer : ∀ level ∈ formula.outer, level.Placed P

def Purpose.Placed (P : Location → Prop) : Purpose → Prop
  | .infer _ loc | .initial _ _ loc | .assign _ loc | .print loc | .left loc => P loc
  | .right loc value _ opLoc => P loc ∧ value.Placed P ∧ P opLoc

def Goal.Placed (P : Location → Prop) : Goal → Prop
  | .afterName _ loc | .afterColon _ loc | .afterType _ _ loc | .afterPrint loc | .afterIf loc => P loc
  | .operand purpose hole => purpose.Placed P ∧ hole.Placed P
  | .operator purpose formula => purpose.Placed P ∧ formula.Placed P
  | .afterCondition loc cond => P loc ∧ cond.Placed P
  | .start | .afterThen | .afterElse | .skip _ => True

structure Arm.Placed (P : Location → Prop) (arm : Arm) : Prop where
  loc : P arm.loc
  cond : arm.cond.Placed P
  body : PlacedAll P arm.body
  brace : P arm.brace

def Opening.Placed (P : Location → Prop) : Opening → Prop
  | .branch loc cond => P loc ∧ cond.Placed P
  | .plain | .otherwise => True

structure Frame.Placed (P : Location → Prop) (frame : Frame) : Prop where
  opening : frame.opening.Placed P
  brace : P frame.brace
  arms : ∀ arm ∈ frame.arms, arm.Placed P
  body : ∀ stmt ∈ frame.body, stmt.Placed P

/-- Every place that the reader keeps, that of the last token aside, is one of these. -/
structure Reader.Placed (P : Location → Prop) (r : Reader) : Prop where
  frames : ∀ frame ∈ r.frames, frame.Placed P
  body : ∀ stmt ∈ r.body, stmt.Placed P
  arms : ∀ arm ∈ r.arms, arm.Placed P
  goal : r.goal.Placed P

/-! ### Expressions -/

theorem placed_supply {pending : Option Pending} {e : Expr Unit} (h : ∀ p ∈ pending, p.Placed P) (he : e.Placed P) :
    (supply pending e).Placed P := by
  cases pending with
  | none => exact he
  | some p => exact ⟨(h p rfl).left, he, (h p rfl).loc⟩

theorem Hole.placed_empty : Hole.Placed P {} :=
  ⟨⟨by simp, by simp⟩, by simp⟩

theorem Hole.Placed.fill {hole : Hole} {e : Expr Unit} (h : hole.Placed P) (he : e.Placed P) : (hole.fill e).Placed P :=
  ⟨h.level.sum, placed_supply h.level.product he, h.outer⟩

theorem Hole.Placed.nest {hole : Hole} (h : hole.Placed P) : hole.nest.Placed P := by
  refine ⟨⟨by simp [Hole.nest], by simp [Hole.nest]⟩, ?_⟩
  intro level hlevel
  rcases List.mem_cons.1 hlevel with rfl | hlevel
  · exact h.level
  · exact h.outer level hlevel

theorem Formula.Placed.value {formula : Formula} (h : formula.Placed P) : formula.value.Placed P :=
  placed_supply h.sum h.term

theorem Formula.Placed.extend {formula : Formula} (h : formula.Placed P) (op : MathOp) {loc : Location} (hloc : P loc) :
    (formula.extend op loc).Placed P := by
  unfold Formula.extend
  split
  · exact ⟨⟨by simpa using ⟨h.value, hloc⟩, by simp⟩, h.outer⟩
  · exact ⟨⟨h.sum, by simpa using ⟨h.term, hloc⟩⟩, h.outer⟩

theorem Formula.Placed.close {formula : Formula} {level : Level} {outer : List Level} (h : formula.Placed P)
    (houter : formula.outer = level :: outer) : (formula.close level outer).Placed P := by
  have hlevels := h.outer
  rw [houter, List.forall_mem_cons] at hlevels
  exact Hole.Placed.fill ⟨hlevels.1, hlevels.2⟩ h.value

theorem placed_operand {t : Token} {e : Expr Unit} (h : operand? t = some e) (ht : P t.loc) : e.Placed P := by
  unfold operand? at h
  split at h <;> simp only [Option.some.injEq, reduceCtorEq] at h <;> subst h <;> exact ht

/-! ### Statements -/

theorem Goal.Leads.placed {t : Token} {goal goal' : Goal} (h : goal.Leads t goal') (ht : P t.loc)
    (hgoal : goal.Placed P) : goal'.Placed P := by
  cases h with
  | infer => exact ⟨hgoal, Hole.placed_empty⟩
  | colon => exact hgoal
  | assign => exact ⟨hgoal, Hole.placed_empty⟩
  | typeName => exact hgoal
  | initial => exact ⟨hgoal, Hole.placed_empty⟩
  | print => exact ⟨hgoal, Hole.placed_empty⟩
  | test => exact ⟨hgoal, Hole.placed_empty⟩
  | fill he => exact ⟨hgoal.1, hgoal.2.fill (placed_operand he ht)⟩
  | nest => exact ⟨hgoal.1, hgoal.2.nest⟩
  | extend => exact ⟨hgoal.1, hgoal.2.extend _ ht⟩
  | close houter => exact ⟨hgoal.1, hgoal.2.close houter⟩
  | compare => exact ⟨⟨hgoal.1, hgoal.2.value, ht⟩, Hole.placed_empty⟩
  | tested =>
      obtain ⟨⟨hloc, hleft, hop⟩, hformula⟩ := hgoal
      exact ⟨hloc, hleft, hformula.value, hop⟩
  | otherwise => exact trivial
  | elseIf => exact ht

theorem Goal.Starts.placed {t : Token} {goal : Goal} (h : goal.Starts t) (ht : P t.loc) : goal.Placed P := by
  cases h <;> exact ht

theorem Opening.Due.placed {opening : Opening} {goal : Goal} (h : opening.Due goal) (hgoal : goal.Placed P) :
    opening.Placed P := by
  cases h with
  | branch => exact hgoal
  | otherwise => exact trivial

theorem Purpose.Placed.stmt {purpose : Purpose} {value : Expr Unit} {stmt : Stmt} (h : purpose.Placed P)
    (hvalue : value.Placed P) (hstmt : purpose.stmt? value = some stmt) : stmt.Placed P := by
  cases purpose <;> simp only [Purpose.stmt?, Option.some.injEq, reduceCtorEq] at hstmt <;> subst hstmt
  · exact ⟨hvalue, h⟩
  · exact ⟨by simpa using hvalue, h⟩
  · exact ⟨hvalue, h⟩

theorem Arm.Placed.block {arm : Arm} (h : arm.Placed P) : arm.block.Placed P :=
  ⟨h.body, h.brace⟩

theorem placed_branches {otherwise : Option Stmt} {arms : List Arm} (h : ∀ stmt ∈ otherwise, stmt.Placed P)
    (harms : ∀ arm ∈ arms, arm.Placed P) : ∀ stmt ∈ branches otherwise arms, stmt.Placed P := by
  induction arms generalizing otherwise with
  | nil => exact h
  | cons arm arms ih =>
      rw [List.forall_mem_cons] at harms
      obtain ⟨harm, harms⟩ := harms
      rw [branches, List.foldl_cons, ← branches]
      refine ih ?_ harms
      cases otherwise with
      | none => simpa using ⟨harm.cond, harm.body, harm.brace, harm.loc⟩
      | some stmt => simpa using ⟨harm.cond, harm.body, harm.brace, h stmt rfl, harm.loc⟩

/-! ### The reader -/

namespace Reader

variable {r : Reader}

theorem Placed.take (h : r.Placed P) (t : Token) {goal : Goal} (hgoal : goal.Placed P) : (r.take t goal).Placed P :=
  ⟨h.frames, h.body, h.arms, hgoal⟩

theorem Placed.add {stmt : Stmt} (h : r.Placed P) (hstmt : stmt.Placed P) : (r.add stmt).Placed P :=
  ⟨h.frames, List.forall_mem_cons.2 ⟨hstmt, h.body⟩, by simp [Reader.add], trivial⟩

theorem Placed.addBranches {otherwise : Option Stmt} (h : r.Placed P) (hlast : ∀ stmt ∈ otherwise, stmt.Placed P) :
    (r.addBranches otherwise).Placed P := by
  refine ⟨h.frames, ?_, by simp [Reader.addBranches], trivial⟩
  intro stmt hstmt
  rcases List.mem_append.1 hstmt with hstmt | hstmt
  · exact placed_branches hlast h.arms stmt (Option.mem_toList.1 hstmt)
  · exact h.body stmt hstmt

theorem Placed.fail (h : r.Placed P) {loc : Location} (hloc : P loc) (expected : Expected) (found : Option Lexeme) :
    (r.fail loc expected found).Placed P := by
  refine ⟨h.frames, List.forall_mem_cons.2 ⟨⟨?_, hloc⟩, h.body⟩, by simp [Reader.fail], trivial⟩
  rw [placedAll_iff]
  intro stmt hstmt
  obtain ⟨arm, harm, rfl⟩ := List.mem_map.1 hstmt
  exact (h.arms arm (List.mem_reverse.1 harm)).block

theorem Placed.openBlock {t : Token} {opening : Opening} (h : r.Placed P) (ht : P t.loc) (hopening : opening.Placed P) :
    (r.openBlock t opening).Placed P := by
  refine ⟨List.forall_mem_cons.2 ⟨⟨hopening, ht, h.arms, h.body⟩, h.frames⟩, ?_, ?_, trivial⟩
  · simp [Reader.openBlock]
  · simp [Reader.openBlock]

theorem Placed.closeBlock {frame : Frame} {frames : List Frame} (h : r.Placed P) (t : Token)
    (hframes : r.frames = frame :: frames) : (r.closeBlock t frame frames).Placed P := by
  have hall := h.frames
  rw [hframes, List.forall_mem_cons] at hall
  obtain ⟨hframe, hrest⟩ := hall
  have hbody : PlacedAll P r.body.reverse := placedAll_iff.2 (by simpa using h.body)
  have haround : Reader.Placed P ⟨frames, frame.body, frame.arms, frame.start, t.loc, .start⟩ :=
    ⟨hrest, hframe.body, hframe.arms, trivial⟩
  have hopening := hframe.opening
  unfold Reader.closeBlock
  dsimp only
  split
  · exact haround.add ⟨hbody, hframe.brace⟩
  · rename_i loc cond hbranch
    rw [hbranch] at hopening
    exact ⟨hrest, hframe.body, List.forall_mem_cons.2 ⟨⟨hopening.1, hopening.2, hbody, hframe.brace⟩, hframe.arms⟩, trivial⟩
  · exact haround.addBranches (by simpa using ⟨hbody, hframe.brace⟩)

theorem Placed.begin (h : r.Placed P) {t : Token} (ht : P t.loc) : (r.begin t).Placed P := by
  have hstart := r.start_begin t
  have hsame : Reader.Placed P { r with start := t.loc.line } := ⟨h.frames, h.body, h.arms, h.goal⟩
  generalize r.begin t = after at hstart
  cases hstart with
  | take hgoal => exact hsame.take t (hgoal.placed ht)
  | openBlock => exact hsame.openBlock ht trivial
  | closeBlock _ hframes => exact hsame.closeBlock t hframes
  | refuse => exact (hsame.take t hsame.goal).fail ht _ _

theorem Placed.skipOr (h : r.Placed P) (line : Int) {t : Token} (ht : P t.loc) : (r.skipOr line t).Placed P := by
  unfold Reader.skipOr
  split
  · exact ⟨h.frames, h.body, h.arms, h.goal⟩
  · exact h.begin ht

theorem Placed.ended {ended : Reader} (h : r.Placed P) (hended : r.Ended ended) : ended.Placed P := by
  have hgoal := h.goal
  cases hended with
  | start => exact h
  | declare heq =>
      rw [heq] at hgoal
      exact h.add ⟨by simp, hgoal⟩
  | value heq houter hstmt =>
      rw [heq] at hgoal
      exact h.add (hgoal.1.stmt hgoal.2.value hstmt)
  | branches => exact h.addBranches (by simp)

theorem Placed.next (h : r.Placed P) {t : Token} (ht : P t.loc) : (r.next t).Placed P := by
  have hstep := r.step_next t
  have hgoal := h.goal
  generalize r.next t = after at hstep
  cases hstep with
  | take hleads => exact h.take t (hleads.placed ht hgoal)
  | print heq houter =>
      rw [heq] at hgoal
      have htaken : (r.take t .start).Placed P := h.take t trivial
      exact htaken.add ⟨hgoal.2.value, hgoal.1⟩
  | openBlock hdue => exact h.openBlock ht (hdue.placed hgoal)
  | begin hended => exact (h.ended hended).begin ht
  | refuse expected => exact (h.take t hgoal).fail ht _ _
  | reject expected => exact (h.fail ht _ _).skipOr _ ht
  | skip => exact h.skipOr _ ht

theorem Placed.foldl (h : r.Placed P) {ts : List Token} (hts : ∀ t ∈ ts, P t.loc) : (ts.foldl Reader.next r).Placed P := by
  induction ts generalizing r with
  | nil => exact h
  | cons t ts ih =>
      rw [List.forall_mem_cons] at hts
      exact ih (h.next hts.1) hts.2

theorem Placed.endStatement (h : r.Placed P) (hprev : P r.prev) : r.endStatement.Placed P := by
  rcases r.endStatement_cases with hended | ⟨line, hgoal, hend⟩ | ⟨loc, expected, hloc, hend⟩
  · exact h.ended hended
  · rw [hend]
    exact h
  · rw [hend]
    refine h.fail ?_ expected none
    rcases hloc with rfl | ⟨name, hgoal⟩
    · exact hprev
    · have hname := h.goal
      rwa [hgoal] at hname

theorem placed_endBlocks {prev : Location} (hprev : P prev) {frames : List Frame} (hframes : ∀ frame ∈ frames, frame.Placed P)
    {body : List Stmt} (hbody : ∀ stmt ∈ body, stmt.Placed P) : PlacedAll P (endBlocks prev frames body) := by
  induction frames generalizing body with
  | nil =>
      rw [endBlocks, placedAll_iff]
      simpa using hbody
  | cons frame frames ih =>
      rw [List.forall_mem_cons] at hframes
      obtain ⟨hframe, hrest⟩ := hframes
      rw [endBlocks]
      refine ih hrest (List.forall_mem_cons.2 ⟨⟨?_, hprev⟩, hframe.body⟩)
      rw [placedAll_iff]
      intro stmt hstmt
      rcases List.mem_append.1 hstmt with hstmt | hstmt
      · obtain ⟨arm, harm, rfl⟩ := List.mem_map.1 hstmt
        exact (hframe.arms arm (List.mem_reverse.1 harm)).block
      · obtain rfl := List.mem_singleton.1 hstmt
        exact ⟨placedAll_iff.2 (by simpa using hbody), hframe.brace⟩

theorem placed_start : Reader.Placed P {} :=
  ⟨by simp, by simp, by simp, trivial⟩

end Reader

/-- Every place in the statements read is the place of a token. -/
theorem placedAll_read {ts : List Token} (h : ∀ t ∈ ts, P t.loc) : PlacedAll P (read ts) := by
  cases hlast : ts.getLast? with
  | none =>
      rw [List.getLast?_eq_none_iff] at hlast
      subst hlast
      exact trivial
  | some t =>
      have hplaced := Reader.placed_start.foldl h
      have hprev : P (ts.foldl Reader.next {}).prev := by
        rw [Reader.prev_foldl hlast]
        exact h t (List.mem_of_getLast? hlast)
      have hend := hplaced.endStatement hprev
      rw [← Reader.prev_endStatement] at hprev
      exact Reader.placed_endBlocks hprev hend.frames hend.body

end Grammar

end Lai
