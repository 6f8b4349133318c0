import Lai.Proofs.Grammar.Steps
import Lai.Proofs.Grammar.Trace
import Lai.Tree.Resolve
/-!
# Where statements break off

The faults of the statements that broke off, in the order in which they are reported. Reading a token
keeps the faults found so far in front and adds only faults at that token; the end of the text adds
only faults at the last token.
-/

namespace Lai.Grammar

/-! ### Faults in report order -/

mutual

/-- The faults of the statements that broke off inside the statement, in report order. -/
def Stmt.breaks : Stmt → List (Located Fault)
  | .infer .. | .declare .. | .assign .. | .print .. => []
  | .ifThen _ body _ _ => breaksAll body
  | .ifElse _ body _ otherwise _ => breaksAll body ++ otherwise.breaks
  | .block body _ => breaksAll body
  | .broken blocks fault => breaksAll blocks ++ [fault]

def breaksAll : List Stmt → List (Located Fault)
  | [] => []
  | stmt :: rest => stmt.breaks ++ breaksAll rest

end

@[simp] theorem breaksAll_nil : breaksAll [] = [] := by
  rw [breaksAll]

@[simp] theorem breaksAll_cons (stmt : Stmt) (rest : List Stmt) :
    breaksAll (stmt :: rest) = stmt.breaks ++ breaksAll rest := by
  rw [breaksAll]

@[simp] theorem breaksAll_append (front rest : List Stmt) :
    breaksAll (front ++ rest) = breaksAll front ++ breaksAll rest := by
  induction front with
  | nil => simp
  | cons stmt front ih => simp [ih]

mutual

theorem breaks_eq_nil_iff : (stmt : Stmt) → (stmt.breaks = [] ↔ stmt.whole = true)
  | .infer .. | .declare .. | .assign .. | .print .. => by simp [Stmt.breaks, Stmt.whole]
  | .ifThen _ body _ _ => by
      rw [Stmt.breaks, Stmt.whole]
      exact breaksAll_eq_nil_iff body
  | .ifElse _ body _ otherwise _ => by
      rw [Stmt.breaks, Stmt.whole, List.append_eq_nil_iff, Bool.and_eq_true, breaksAll_eq_nil_iff body,
        breaks_eq_nil_iff otherwise]
  | .block body _ => by
      rw [Stmt.breaks, Stmt.whole]
      exact breaksAll_eq_nil_iff body
  | .broken blocks fault => by simp [Stmt.breaks, Stmt.whole]

theorem breaksAll_eq_nil_iff : (stmts : List Stmt) → (breaksAll stmts = [] ↔ wholeAll stmts = true)
  | [] => by simp [wholeAll]
  | stmt :: rest => by
      rw [breaksAll_cons, wholeAll, List.append_eq_nil_iff, Bool.and_eq_true, breaks_eq_nil_iff stmt,
        breaksAll_eq_nil_iff rest]

end

/-- The faults inside the finished branches of an if statement, of which the latest comes first. -/
def armBreaks (arms : List Arm) : List (Located Fault) :=
  arms.reverse.flatMap fun arm => breaksAll arm.body

@[simp] theorem armBreaks_nil : armBreaks [] = [] := rfl

@[simp] theorem armBreaks_cons (arm : Arm) (arms : List Arm) :
    armBreaks (arm :: arms) = armBreaks arms ++ breaksAll arm.body := by
  simp [armBreaks]

@[simp] theorem breaksAll_blocks (arms : List Arm) : breaksAll (arms.map Arm.block).reverse = armBreaks arms := by
  induction arms with
  | nil => simp
  | cons arm arms ih => simp [ih, Arm.block, Stmt.breaks]

theorem breaksAll_branches (otherwise : Option Stmt) (arms : List Arm) :
    breaksAll (branches otherwise arms).toList = armBreaks arms ++ breaksAll otherwise.toList := by
  induction arms generalizing otherwise with
  | nil => simp [branches]
  | cons arm arms ih =>
      rw [branches, List.foldl_cons, ← branches, ih]
      cases otherwise with
      | none => simp [Stmt.breaks]
      | some stmt => simp [Stmt.breaks]

theorem armBreaks_eq_nil_iff {arms : List Arm} : armBreaks arms = [] ↔ wholeArms arms = true := by
  simp [armBreaks, wholeArms, breaksAll_eq_nil_iff]

/-- The faults in front of the block. -/
def Frame.breaks (frame : Frame) : List (Located Fault) :=
  breaksAll frame.body.reverse ++ armBreaks frame.arms

/-- The faults in front of the innermost block. -/
def frameBreaks (frames : List Frame) : List (Located Fault) :=
  frames.reverse.flatMap Frame.breaks

@[simp] theorem frameBreaks_cons (frame : Frame) (frames : List Frame) :
    frameBreaks (frame :: frames) = frameBreaks frames ++ frame.breaks := by
  simp [frameBreaks]

namespace Reader

/-- The faults found so far. -/
def breaks (r : Reader) : List (Located Fault) :=
  frameBreaks r.frames ++ breaksAll r.body.reverse ++ armBreaks r.arms

/-! ### One operation after the other -/

/-- Finished branches are kept inside if statements only, and a name that has just been read is the last
token. -/
structure Tidy (r : Reader) : Prop where
  arms : r.goal.inBranch = false → r.arms = []
  frames : ∀ frame ∈ r.frames, frame.opening.inBranch = false → frame.arms = []
  name : ∀ name loc, r.goal = .afterName name loc → loc = r.prev

theorem breaks_eq_nil_iff {r : Reader} (h : r.Tidy) : r.breaks = [] ↔ r.whole = true := by
  have hframes : frameBreaks r.frames = [] ↔ r.frames.all Frame.whole = true := by
    simp only [frameBreaks, List.flatMap_eq_nil_iff, List.mem_reverse, List.all_eq_true]
    refine forall₂_congr fun frame hframe => ?_
    rw [Frame.breaks, Frame.whole, List.append_eq_nil_iff, breaksAll_eq_nil_iff, wholeAll_reverse,
      armBreaks_eq_nil_iff, Bool.and_eq_true]
    cases hopening : frame.opening.inBranch with
    | true => simp
    | false => simp [h.frames frame hframe hopening, wholeArms]
  rw [breaks, whole_iff, List.append_eq_nil_iff, List.append_eq_nil_iff, hframes, breaksAll_eq_nil_iff, wholeAll_reverse,
    armBreaks_eq_nil_iff]
  cases hgoal : r.goal.inBranch with
  | true => simp [and_comm, and_left_comm]
  | false => simp [h.arms hgoal, wholeArms, and_comm]

/-- The second reader comes from the first one with no other faults than some at the place. -/
structure Reports (loc : Location) (r after : Reader) : Prop where
  tidy : after.Tidy
  breaks : ∃ found, after.breaks = r.breaks ++ found ∧ ∀ fault ∈ found, fault.loc = loc

variable {loc : Location} {r : Reader}

theorem Reports.of_eq {after : Reader} (htidy : after.Tidy) (hbreaks : after.breaks = r.breaks) : r.Reports loc after :=
  ⟨htidy, [], by simp [hbreaks], by simp⟩

theorem Reports.trans {middle after : Reader} (hfirst : r.Reports loc middle) (hsecond : middle.Reports loc after) :
    r.Reports loc after := by
  obtain ⟨found, hfound, hloc⟩ := hfirst.breaks
  obtain ⟨more, hmore, hloc'⟩ := hsecond.breaks
  exact ⟨hsecond.tidy, found ++ more, by rw [hmore, hfound, List.append_assoc], List.forall_mem_append.2 ⟨hloc, hloc'⟩⟩

theorem Tidy.take {t : Token} {goal : Goal} (h : r.Tidy) (hgoal : r.goal.inBranch = true → goal.inBranch = true)
    (hname : ∀ name place, goal = .afterName name place → place = t.loc) : r.Reports loc (r.take t goal) := by
  refine .of_eq ⟨?_, h.frames, hname⟩ rfl
  intro hsimple
  apply h.arms
  cases hold : r.goal.inBranch with
  | true => exact absurd (hgoal hold) (Bool.eq_false_iff.1 hsimple)
  | false => rfl

theorem Tidy.add {stmt : Stmt} (h : r.Tidy) (hgoal : r.goal.inBranch = false) (hstmt : stmt.breaks = []) :
    r.Reports loc (r.add stmt) := by
  refine .of_eq ⟨fun _ => rfl, h.frames, by simp [Reader.add]⟩ ?_
  simp [Reader.breaks, Reader.add, hstmt, h.arms hgoal]

theorem Tidy.addBranches (h : r.Tidy) (otherwise : Option Stmt) (hwhole : breaksAll otherwise.toList = []) :
    r.Reports loc (r.addBranches otherwise) := by
  refine .of_eq ⟨fun _ => rfl, h.frames, by simp [Reader.addBranches]⟩ ?_
  have hbranches := breaksAll_branches otherwise r.arms
  rw [hwhole, List.append_nil] at hbranches
  cases hlast : branches otherwise r.arms with
  | none => simp_all [Reader.breaks, Reader.addBranches]
  | some stmt => simp_all [Reader.breaks, Reader.addBranches]

theorem Tidy.fail (h : r.Tidy) (loc : Location) (expected : Expected) (found : Option Lexeme) :
    r.Reports loc (r.fail loc expected found) := by
  refine ⟨⟨fun _ => rfl, h.frames, by simp [Reader.fail]⟩, [⟨loc, expected, found⟩], ?_, by simp⟩
  simp [Reader.breaks, Reader.fail, Stmt.breaks]

theorem Tidy.refuse (h : r.Tidy) (t : Token) (expected : Expected) : r.Reports t.loc (r.refuse t expected) := by
  refine ⟨⟨fun _ => rfl, h.frames, by simp [Reader.refuse, Reader.fail]⟩, [⟨t.loc, expected, some t.lexeme⟩], ?_, by simp⟩
  simp [Reader.breaks, Reader.refuse, Reader.fail, Reader.take, Stmt.breaks]

theorem Tidy.openBlock {t : Token} {opening : Opening} (h : r.Tidy)
    (hopening : r.goal.inBranch = true → opening.inBranch = true) : r.Reports loc (r.openBlock t opening) := by
  refine .of_eq ⟨fun _ => rfl, ?_, by simp [Reader.openBlock]⟩ ?_
  · intro frame hframe hsimple
    rcases List.mem_cons.1 hframe with rfl | hframe
    · apply h.arms
      rw [← Bool.not_eq_true]
      exact fun hgoal => absurd (hopening hgoal) (Bool.eq_false_iff.1 hsimple)
    · exact h.frames frame hframe hsimple
  · simp [Reader.breaks, Reader.openBlock, Frame.breaks]

theorem Tidy.closeBlock {t : Token} {frame : Frame} {frames : List Frame} (h : r.Tidy) (hgoal : r.goal.inBranch = false)
    (hframes : r.frames = frame :: frames) : r.Reports loc (r.closeBlock t frame frames) := by
  have harms := h.arms hgoal
  have hrest : ∀ other ∈ frames, other.opening.inBranch = false → other.arms = [] := fun other hother =>
    h.frames other (hframes ▸ List.mem_cons_of_mem _ hother)
  unfold Reader.closeBlock
  dsimp only
  split
  · rename_i hopening
    have hframe : frame.arms = [] := h.frames frame (by simp [hframes]) (by rw [hopening]; rfl)
    refine .of_eq ⟨fun _ => rfl, hrest, by simp [Reader.add]⟩ ?_
    simp [Reader.breaks, Reader.add, Stmt.breaks, Frame.breaks, hframes, harms, hframe]
  · refine .of_eq ⟨by simp [Goal.inBranch], hrest, by simp⟩ ?_
    simp [Reader.breaks, Frame.breaks, hframes, harms]
  · refine .of_eq ⟨fun _ => rfl, hrest, by simp [Reader.addBranches]⟩ ?_
    have hbranches := breaksAll_branches (some (.block r.body.reverse frame.brace)) frame.arms
    cases hlast : branches (some (.block r.body.reverse frame.brace)) frame.arms <;>
      simp_all [Reader.breaks, Reader.addBranches, Frame.breaks, Stmt.breaks]

/-! ### One token after the other -/

theorem Tidy.begin (h : r.Tidy) (hgoal : r.goal.inBranch = false) (t : Token) : r.Reports t.loc (r.begin t) := by
  have hstart := r.start_begin t
  have hsame : r.Reports t.loc { r with start := t.loc.line } := .of_eq ⟨h.arms, h.frames, h.name⟩ rfl
  have hsimple : Goal.inBranch { r with start := t.loc.line }.goal = false := hgoal
  generalize r.begin t = after at hstart
  refine hsame.trans ?_
  cases hstart with
  | take hgoal' =>
      refine hsame.tidy.take (by simp [hsimple]) ?_
      intro name place hname
      cases hgoal' <;> simp_all
  | openBlock ht => exact hsame.tidy.openBlock (by simp [hsimple])
  | closeBlock ht hframes => exact hsame.tidy.closeBlock hsimple hframes
  | refuse => exact hsame.tidy.refuse t _

theorem Tidy.skipOr (h : r.Tidy) {line : Int} (hgoal : r.goal = .skip line) (t : Token) :
    r.Reports t.loc (r.skipOr line t) := by
  unfold Reader.skipOr
  split
  · exact .of_eq ⟨h.arms, h.frames, by simp [hgoal]⟩ rfl
  · exact h.begin (by rw [hgoal]; rfl) t

theorem Tidy.ended {ended : Reader} (h : r.Tidy) (hended : r.Ended ended) : r.Reports loc ended := by
  cases hended with
  | start hgoal => exact .of_eq h rfl
  | declare hgoal => exact h.add (by rw [hgoal]; rfl) rfl
  | @value purpose formula stmt hgoal houter hstmt =>
      refine h.add ?_ ?_
      · rw [hgoal]
        exact Purpose.inBranch_of_stmt? hstmt
      · cases purpose <;> simp only [Purpose.stmt?, Option.some.injEq, reduceCtorEq] at hstmt <;> subst hstmt <;> rfl
  | branches hgoal => exact h.addBranches none rfl

theorem ne_afterName_of_leads {t : Token} {goal goal' : Goal} (h : goal.Leads t goal') {name : String} {place : Location} :
    goal' ≠ .afterName name place := by
  cases h <;> simp

/-- Reading a token keeps the faults found so far and adds only faults at the token. -/
theorem Tidy.next (h : r.Tidy) (t : Token) : r.Reports t.loc (r.next t) := by
  have hstep := r.step_next t
  generalize r.next t = after at hstep
  cases hstep with
  | take hgoal =>
      refine h.take hgoal.inBranch_eq.trans ?_
      intro name place hname
      exact absurd hname (ne_afterName_of_leads hgoal)
  | print hgoal houter ht =>
      have htake : r.Reports t.loc (r.take t .start) := h.take (by rw [hgoal]; simp [Goal.inBranch, Purpose.inBranch]) (by simp)
      exact htake.trans (htake.tidy.add rfl rfl)
  | openBlock hdue ht => exact h.openBlock fun _ => hdue.inBranch_eq
  | begin hended =>
      have hreports : r.Reports t.loc _ := h.ended hended
      exact hreports.trans (hreports.tidy.begin (by rw [hended.goal_eq]; rfl) t)
  | refuse expected => exact h.refuse t expected
  | reject expected =>
      have hfail := h.fail t.loc expected (some t.lexeme)
      exact hfail.trans (hfail.tidy.skipOr rfl t)
  | skip hgoal => exact h.skipOr hgoal t

theorem tidy_start : Tidy {} :=
  ⟨fun _ => rfl, by simp, by simp⟩

theorem Tidy.foldl (h : r.Tidy) (ts : List Token) :
    (ts.foldl Reader.next r).Tidy ∧ ∃ found, (ts.foldl Reader.next r).breaks = r.breaks ++ found := by
  induction ts generalizing r with
  | nil => exact ⟨h, [], by simp⟩
  | cons t ts ih =>
      have hnext := h.next t
      obtain ⟨htidy, more, hmore⟩ := ih hnext.tidy
      obtain ⟨found, hfound, -⟩ := hnext.breaks
      exact ⟨htidy, found ++ more, by rw [List.foldl_cons, hmore, hfound, List.append_assoc]⟩

/-! ### The end of the text -/

theorem Tidy.endStatement (h : r.Tidy) : r.Reports r.prev r.endStatement ∧ r.endStatement.goal.inBranch = false := by
  refine ⟨?_, endStatement_inBranch r⟩
  rcases r.endStatement_cases with hended | ⟨line, hgoal, hend⟩ | ⟨place, expected, hplace, hend⟩
  · exact h.ended hended
  · rw [hend]
    exact .of_eq h rfl
  · have hprev : place = r.prev := by
      rcases hplace with hplace | ⟨name, hgoal⟩
      · exact hplace
      · exact h.name name place hgoal
    rw [hend, hprev]
    exact h.fail r.prev expected none

theorem breaksAll_endBlocks (prev : Location) (frames : List Frame) (body : List Stmt) :
    ∃ found, breaksAll (endBlocks prev frames body) = frameBreaks frames ++ breaksAll body.reverse ++ found ∧
      ∀ fault ∈ found, fault.loc = prev := by
  induction frames generalizing body with
  | nil => exact ⟨[], by simp [endBlocks, frameBreaks], by simp⟩
  | cons frame frames ih =>
      rw [endBlocks]
      obtain ⟨found, hfound, hloc⟩ := ih (.broken (frame.arms.reverse.map Arm.block ++ [.block body.reverse frame.brace])
        ⟨prev, .symbol .closeBrace, none⟩ :: frame.body)
      refine ⟨⟨prev, .symbol .closeBrace, none⟩ :: found, ?_, by simpa using hloc⟩
      rw [hfound]
      simp [Stmt.breaks, Frame.breaks]

/-- The end of the text keeps the faults found so far and adds only faults at the last token. -/
theorem Tidy.finish (h : r.Tidy) :
    ∃ found, breaksAll r.finish = r.breaks ++ found ∧ ∀ fault ∈ found, fault.loc = r.prev := by
  obtain ⟨hreports, hsimple⟩ := h.endStatement
  obtain ⟨found, hfound, hloc⟩ := hreports.breaks
  obtain ⟨more, hmore, hloc'⟩ := breaksAll_endBlocks r.endStatement.prev r.endStatement.frames r.endStatement.body
  have hprev := r.prev_endStatement
  have hbreaks : frameBreaks r.endStatement.frames ++ breaksAll r.endStatement.body.reverse = r.endStatement.breaks := by
    rw [Reader.breaks, hreports.tidy.arms hsimple, armBreaks_nil, List.append_nil]
  rw [hprev] at hmore hloc'
  refine ⟨found ++ more, ?_, List.forall_mem_append.2 ⟨hloc, hloc'⟩⟩
  rw [Reader.finish, hprev, hmore, hbreaks, hfound, List.append_assoc]

end Reader

/-! ### Reports -/

/-- The fault of the grammar that the note is about, if it is about one. -/
def Note.fault? (note : Located Note) : Option (Located Fault) :=
  match note.value with
  | .broken fault => some ⟨note.loc, fault⟩
  | .redeclared _ => none

theorem filterMap_resolveDeclaration (scopes : Scopes Ty) (name : String) (type : Ty) (inferred : Bool)
    (value : Option (Expr Binding)) (loc : Location) :
    (resolveDeclaration scopes name type inferred value loc).notes.filterMap Note.fault? = [] := by
  unfold resolveDeclaration
  dsimp only
  split <;> simp [Note.fault?]

mutual

/-- Resolving reports the faults of the grammar in this order. -/
theorem filterMap_resolve (scopes : Scopes Ty) :
    (stmt : Stmt) → (stmt.resolve scopes).notes.filterMap Note.fault? = stmt.breaks
  | .infer .. => by
      rw [Stmt.breaks]
      exact filterMap_resolveDeclaration _ _ _ _ _ _
  | .declare .. => by
      rw [Stmt.breaks]
      exact filterMap_resolveDeclaration _ _ _ _ _ _
  | .assign .. | .print .. => by simp [Stmt.resolve, Stmt.breaks]
  | .ifThen _ body _ _ => by
      rw [Stmt.resolve, Stmt.breaks]
      exact filterMap_resolveAll scopes.enter body
  | .ifElse _ body _ otherwise _ => by
      rw [Stmt.resolve, Stmt.breaks, List.filterMap_append, filterMap_resolveAll scopes.enter body,
        filterMap_resolve scopes otherwise]
  | .block body _ => by
      rw [Stmt.resolve, Stmt.breaks]
      exact filterMap_resolveAll scopes.enter body
  | .broken blocks fault => by
      rw [Stmt.resolve, Stmt.breaks, List.filterMap_append, filterMap_resolveAll scopes blocks]
      rfl

theorem filterMap_resolveAll (scopes : Scopes Ty) :
    (stmts : List Stmt) → (resolveAll scopes stmts).notes.filterMap Note.fault? = breaksAll stmts
  | [] => by simp [resolveAll]
  | stmt :: rest => by
      rw [resolveAll, breaksAll_cons, List.filterMap_append, filterMap_resolve scopes stmt, filterMap_resolveAll _ rest]

end

theorem filter_syntactic_diagnostic (file : String) (notes : List (Located Note)) :
    (notes.map (Note.diagnostic file)).filter (fun d => d.category = .syntactic) =
      (notes.filterMap Note.fault?).map fun fault => .ofFault file .syntactic (fault.map Fault.message) := by
  induction notes with
  | nil => rfl
  | cons note notes ih =>
      obtain ⟨loc, value⟩ := note
      cases value with
      | broken fault => simp [Note.diagnostic, Note.category, Note.message, Note.fault?, Diagnostic.ofFault, Located.map, ih]
      | redeclared name => simp [Note.diagnostic, Note.category, Note.fault?, Diagnostic.ofFault, List.filterMap_cons, ih]

end Lai.Grammar
