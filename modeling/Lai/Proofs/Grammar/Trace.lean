import Lai.Proofs.Grammar.Rules
import Lai.Proofs.Grammar.Steps
/-!
# What the reader has read

As long as no statement has broken off, the state of the reader accounts for every token read so far:
the tokens in front of each open block, the statements of the innermost one, and the part of a
statement that is still being read. Once a statement has broken off, the reader never loses sight of
it. So statements without a broken one among them are spelled by the tokens they were read from.
-/

namespace Lai.Grammar

/-! ### Expressions in the making -/

/-- The tokens spell a left operand and the operator that waits for the right one, the whole being an
expression of the rank; or nothing waits. -/
inductive Waits : Rank → List Token → Option Pending → Prop where
  | nothing (rank : Rank) : Waits rank [] none
  | product {ts : List Token} {left : Expr Unit} {t : Token} {op : MathOp} (hleft : SpellsExpr .term ts left)
      (hop : MathOp.ofLexeme? t.lexeme = some op) (hrank : op = .multiply ∨ op = .divide) :
      Waits .term (ts ++ [t]) (some ⟨left, op, t.loc⟩)
  | sum {ts : List Token} {left : Expr Unit} {t : Token} {op : MathOp} (hleft : SpellsExpr .expr ts left)
      (hop : MathOp.ofLexeme? t.lexeme = some op) (hrank : op = .add ∨ op = .subtract) :
      Waits .expr (ts ++ [t]) (some ⟨left, op, t.loc⟩)

theorem Waits.supply_factor {ts us : List Token} {pending : Option Pending} {e : Expr Unit}
    (h : Waits .term ts pending) (he : SpellsExpr .factor us e) : SpellsExpr .term (ts ++ us) (supply pending e) := by
  cases h with
  | nothing => exact .factor he
  | product hleft hop hrank =>
      rw [List.append_assoc]
      exact .product hleft hop hrank he

theorem Waits.supply_term {ts us : List Token} {pending : Option Pending} {e : Expr Unit}
    (h : Waits .expr ts pending) (he : SpellsExpr .term us e) : SpellsExpr .expr (ts ++ us) (supply pending e) := by
  cases h with
  | nothing => exact .term he
  | sum hleft hop hrank =>
      rw [List.append_assoc]
      exact .sum hleft hop hrank he

/-- The tokens up to the innermost open parenthesis, with what waits at each level around it. -/
inductive Opens : List Token → List Level → Prop where
  | nil : Opens [] []
  | cons {ts us vs : List Token} {level : Level} {outer : List Level} (houter : Opens ts outer)
      (hsum : Waits .expr us level.sum) (hproduct : Waits .term vs level.product) (loc : Location) :
      Opens (ts ++ us ++ vs ++ [⟨.symbol .openParen, loc⟩]) (level :: outer)

/-- The tokens of an expression up to a point at which an operand is due. -/
def Hole.Traces (hole : Hole) (ts : List Token) : Prop :=
  ∃ us vs ws, ts = us ++ vs ++ ws ∧ Opens us hole.outer ∧ Waits .expr vs hole.level.sum ∧
    Waits .term ws hole.level.product

/-- The tokens of an expression up to a point at which an operand has ended. -/
def Formula.Traces (formula : Formula) (ts : List Token) : Prop :=
  ∃ us vs ws, ts = us ++ vs ++ ws ∧ Opens us formula.outer ∧ Waits .expr vs formula.sum ∧
    SpellsExpr .term ws formula.term

theorem Hole.traces_nil : Hole.Traces {} [] :=
  ⟨[], [], [], rfl, .nil, .nothing _, .nothing _⟩

theorem Hole.Traces.fill {hole : Hole} {ts us : List Token} {e : Expr Unit} (h : hole.Traces ts)
    (he : SpellsExpr .factor us e) : (hole.fill e).Traces (ts ++ us) := by
  obtain ⟨os, ss, ps, rfl, houter, hsum, hproduct⟩ := h
  exact ⟨os, ss, ps ++ us, by simp, houter, hsum, hproduct.supply_factor he⟩

theorem Hole.Traces.nest {hole : Hole} {ts : List Token} (h : hole.Traces ts) (loc : Location) :
    hole.nest.Traces (ts ++ [⟨.symbol .openParen, loc⟩]) := by
  obtain ⟨os, ss, ps, rfl, houter, hsum, hproduct⟩ := h
  exact ⟨_, [], [], by simp, .cons houter hsum hproduct loc, .nothing _, .nothing _⟩

theorem Formula.Traces.value {formula : Formula} {ts : List Token} (h : formula.Traces ts) :
    ∃ us vs, ts = us ++ vs ∧ Opens us formula.outer ∧ SpellsExpr .expr vs formula.value := by
  obtain ⟨us, vs, ws, rfl, houter, hsum, hterm⟩ := h
  exact ⟨us, vs ++ ws, by simp, houter, hsum.supply_term hterm⟩

theorem Formula.Traces.spells {formula : Formula} {ts : List Token} (h : formula.Traces ts)
    (houter : formula.outer = []) : SpellsExpr .expr ts formula.value := by
  obtain ⟨us, vs, rfl, hopens, hvalue⟩ := h.value
  rw [houter] at hopens
  cases hopens
  exact hvalue

theorem Formula.Traces.extend {formula : Formula} {ts : List Token} {t : Token} {op : MathOp}
    (h : formula.Traces ts) (hop : MathOp.ofLexeme? t.lexeme = some op) :
    (formula.extend op t.loc).Traces (ts ++ [t]) := by
  have hlow (hrank : op = .add ∨ op = .subtract) :
      Hole.Traces ⟨⟨some ⟨formula.value, op, t.loc⟩, none⟩, formula.outer⟩ (ts ++ [t]) := by
    obtain ⟨us, vs, rfl, houter, hvalue⟩ := h.value
    exact ⟨us, vs ++ [t], [], by simp, houter, .sum hvalue hop hrank, .nothing _⟩
  have hhigh (hrank : op = .multiply ∨ op = .divide) :
      Hole.Traces ⟨⟨formula.sum, some ⟨formula.term, op, t.loc⟩⟩, formula.outer⟩ (ts ++ [t]) := by
    obtain ⟨us, vs, ws, rfl, houter, hsum, hterm⟩ := h
    exact ⟨us, vs, ws ++ [t], by simp, houter, hsum, .product hterm hop hrank⟩
  cases op with
  | add => exact hlow (.inl rfl)
  | subtract => exact hlow (.inr rfl)
  | multiply => exact hhigh (.inl rfl)
  | divide => exact hhigh (.inr rfl)

theorem Formula.Traces.close {formula : Formula} {ts : List Token} {level : Level} {outer : List Level}
    (h : formula.Traces ts) (houter : formula.outer = level :: outer) (loc : Location) :
    (formula.close level outer).Traces (ts ++ [⟨.symbol .closeParen, loc⟩]) := by
  obtain ⟨us, vs, rfl, hopens, hvalue⟩ := h.value
  rw [houter] at hopens
  cases hopens with
  | cons hfront hsum hproduct start =>
      have hhole : Hole.Traces ⟨level, outer⟩ _ := ⟨_, _, _, rfl, hfront, hsum, hproduct⟩
      simpa [Formula.close] using hhole.fill (.group start loc hvalue)

/-! ### Statements in the making -/

/-- The tokens of the finished branches of an if statement, each with the `else` after it. -/
inductive Chain : List Token → List Arm → Prop where
  | nil : Chain [] []
  | cons {ts us vs : List Token} {cond : Condition Unit} {body : List Stmt} {brace : Location} {arms : List Arm}
      (harms : Chain ts arms) (loc mark : Location) (hcond : SpellsTest us cond)
      (hbody : Spells .block vs [.block body brace]) :
      Chain (ts ++ (⟨.symbol .ifWord, loc⟩ :: us ++ vs) ++ [⟨.symbol .elseWord, mark⟩]) (⟨loc, cond, body, brace⟩ :: arms)

/-- The branches in front of an if statement make one if statement with it. -/
theorem Chain.conditional {ts us : List Token} {arms : List Arm} {last : Stmt} (h : Chain ts arms)
    (hlast : Spells .conditional us [last]) :
    ∃ stmt, branches (some last) arms = some stmt ∧ Spells .conditional (ts ++ us) [stmt] := by
  induction h generalizing us last with
  | nil => exact ⟨last, rfl, hlast⟩
  | cons harms loc mark hcond hbody ih =>
      obtain ⟨stmt, hstmt, hspells⟩ := ih (.elseIf loc mark hcond hbody hlast)
      refine ⟨stmt, hstmt, ?_⟩
      simpa only [List.append_assoc, List.cons_append, List.nil_append] using hspells

/-- The branches in front of a last block make one if statement with it. -/
theorem Chain.otherwise {ts us : List Token} {arm : Arm} {arms : List Arm} {last : Stmt}
    (h : Chain ts (arm :: arms)) (hlast : Spells .block us [last]) :
    ∃ stmt, branches (some last) (arm :: arms) = some stmt ∧ Spells .conditional (ts ++ us) [stmt] := by
  cases h with
  | cons harms loc mark hcond hbody =>
      obtain ⟨stmt, hstmt, hspells⟩ := harms.conditional (.ifElse loc mark hcond hbody hlast)
      refine ⟨stmt, hstmt, ?_⟩
      simpa only [List.append_assoc, List.cons_append, List.nil_append] using hspells

/-- The tokens of a statement in front of an expression in it. -/
inductive Begins : List Token → List Arm → Purpose → Prop where
  | infer (name : String) (loc mark : Location) :
      Begins [⟨.identifier name, loc⟩, ⟨.symbol .infer, mark⟩] [] (.infer name loc)
  | initial (name : String) (loc mark equals : Location) {t : Token} {type : Ty}
      (htype : Ty.ofLexeme? t.lexeme = some type) :
      Begins [⟨.identifier name, loc⟩, ⟨.symbol .colon, mark⟩, t, ⟨.symbol .assign, equals⟩] [] (.initial name type loc)
  | assign (name : String) (loc mark : Location) :
      Begins [⟨.identifier name, loc⟩, ⟨.symbol .assign, mark⟩] [] (.assign name loc)
  | print (loc start : Location) :
      Begins [⟨.symbol .printWord, loc⟩, ⟨.symbol .openParen, start⟩] [] (.print loc)
  | left {ts : List Token} {arms : List Arm} (harms : Chain ts arms) (loc start : Location) :
      Begins (ts ++ [⟨.symbol .ifWord, loc⟩, ⟨.symbol .openParen, start⟩]) arms (.left loc)
  | right {ts us : List Token} {arms : List Arm} {left : Expr Unit} {t : Token} {op : CompareOp}
      (harms : Chain ts arms) (loc start : Location) (hleft : SpellsExpr .expr us left)
      (hop : CompareOp.ofLexeme? t.lexeme = some op) :
      Begins (ts ++ (⟨.symbol .ifWord, loc⟩ :: ⟨.symbol .openParen, start⟩ :: us ++ [t])) arms (.right loc left op t.loc)

/-- The tokens of the statement being read. -/
inductive InProgress : List Token → List Arm → Goal → Prop where
  | start : InProgress [] [] .start
  | afterName (name : String) (loc : Location) : InProgress [⟨.identifier name, loc⟩] [] (.afterName name loc)
  | afterColon (name : String) (loc mark : Location) :
      InProgress [⟨.identifier name, loc⟩, ⟨.symbol .colon, mark⟩] [] (.afterColon name loc)
  | afterType (name : String) (loc mark : Location) {t : Token} {type : Ty} (htype : Ty.ofLexeme? t.lexeme = some type) :
      InProgress [⟨.identifier name, loc⟩, ⟨.symbol .colon, mark⟩, t] [] (.afterType name type loc)
  | afterPrint (loc : Location) : InProgress [⟨.symbol .printWord, loc⟩] [] (.afterPrint loc)
  | afterIf {ts : List Token} {arms : List Arm} (harms : Chain ts arms) (loc : Location) :
      InProgress (ts ++ [⟨.symbol .ifWord, loc⟩]) arms (.afterIf loc)
  | operand {ts us : List Token} {arms : List Arm} {purpose : Purpose} {hole : Hole}
      (hbegins : Begins ts arms purpose) (hhole : hole.Traces us) :
      InProgress (ts ++ us) arms (.operand purpose hole)
  | operator {ts us : List Token} {arms : List Arm} {purpose : Purpose} {formula : Formula}
      (hbegins : Begins ts arms purpose) (hformula : formula.Traces us) :
      InProgress (ts ++ us) arms (.operator purpose formula)
  | afterCondition {ts us : List Token} {arms : List Arm} {cond : Condition Unit} (harms : Chain ts arms)
      (loc : Location) (hcond : SpellsTest us cond) :
      InProgress (ts ++ ⟨.symbol .ifWord, loc⟩ :: us) arms (.afterCondition loc cond)
  | afterThen {ts us vs : List Token} {cond : Condition Unit} {body : List Stmt} {brace : Location} {arms : List Arm}
      (harms : Chain ts arms) (loc : Location) (hcond : SpellsTest us cond)
      (hbody : Spells .block vs [.block body brace]) :
      InProgress (ts ++ (⟨.symbol .ifWord, loc⟩ :: us ++ vs)) (⟨loc, cond, body, brace⟩ :: arms) .afterThen
  | afterElse {ts : List Token} {arm : Arm} {arms : List Arm} (harms : Chain ts (arm :: arms)) :
      InProgress ts (arm :: arms) .afterElse

theorem InProgress.operand_nil {ts : List Token} {arms : List Arm} {purpose : Purpose} (hbegins : Begins ts arms purpose) :
    InProgress ts arms (.operand purpose {}) := by
  simpa using InProgress.operand hbegins Hole.traces_nil

/-- The tokens of a statement up to the brace of a block in it. -/
inductive Opened : List Token → List Arm → Opening → Location → Prop where
  | plain (brace : Location) : Opened [⟨.symbol .openBrace, brace⟩] [] .plain brace
  | branch {ts us : List Token} {arms : List Arm} {cond : Condition Unit} (harms : Chain ts arms)
      (loc brace : Location) (hcond : SpellsTest us cond) :
      Opened (ts ++ ⟨.symbol .ifWord, loc⟩ :: us ++ [⟨.symbol .openBrace, brace⟩]) arms (.branch loc cond) brace
  | otherwise {ts : List Token} {arm : Arm} {arms : List Arm} (harms : Chain ts (arm :: arms)) (brace : Location) :
      Opened (ts ++ [⟨.symbol .openBrace, brace⟩]) (arm :: arms) .otherwise brace

theorem spells_of_operand? {t : Token} {e : Expr Unit} (h : operand? t = some e) : SpellsExpr .factor [t] e := by
  obtain ⟨lexeme, loc⟩ := t
  cases lexeme with
  | integer value => exact Option.some.inj h ▸ .int value loc
  | string text => exact Option.some.inj h ▸ .string text loc
  | identifier name => exact Option.some.inj h ▸ .var name loc
  | _ => cases h

theorem Begins.statement {ts us : List Token} {arms : List Arm} {purpose : Purpose} {value : Expr Unit} {stmt : Stmt}
    (h : Begins ts arms purpose) (hvalue : SpellsExpr .expr us value) (hstmt : purpose.stmt? value = some stmt) :
    Spells .statement (ts ++ us) [stmt] := by
  cases h with
  | infer name loc mark => exact Option.some.inj hstmt ▸ .infer name loc mark hvalue
  | initial name loc mark equals htype => exact Option.some.inj hstmt ▸ .initial name loc mark equals htype hvalue
  | assign name loc mark => exact Option.some.inj hstmt ▸ .assign name loc mark hvalue
  | _ => cases hstmt

theorem Goal.Starts.inProgress {t : Token} {goal : Goal} (h : goal.Starts t) : InProgress [t] [] goal := by
  obtain ⟨lexeme, loc⟩ := t
  cases h with
  | name ht =>
      obtain rfl : lexeme = _ := ht
      exact .afterName _ loc
  | print ht =>
      obtain rfl : lexeme = _ := ht
      exact .afterPrint loc
  | test ht =>
      obtain rfl : lexeme = _ := ht
      exact .afterIf .nil loc

/-- A token that goes on with the statement is one more of its tokens. -/
theorem InProgress.leads {ts : List Token} {arms : List Arm} {goal later : Goal} {t : Token}
    (h : InProgress ts arms goal) (hleads : goal.Leads t later) : InProgress (ts ++ [t]) arms later := by
  -- A symbol is known from the rule by which the token goes on; an operator or the name of a type is not.
  have hsymbol {s : Symbol} (ht : t.lexeme = .symbol s) : t = ⟨.symbol s, t.loc⟩ := by rw [← ht]
  cases hleads with
  | infer ht =>
      cases h with
      | afterName =>
          rw [hsymbol ht]
          exact .operand_nil (.infer _ _ t.loc)
  | colon ht =>
      cases h with
      | afterName =>
          rw [hsymbol ht]
          exact .afterColon _ _ t.loc
  | assign ht =>
      cases h with
      | afterName =>
          rw [hsymbol ht]
          exact .operand_nil (.assign _ _ t.loc)
  | typeName ht =>
      cases h with
      | afterColon _ _ mark => exact .afterType _ _ mark ht
  | initial ht =>
      cases h with
      | afterType _ _ mark htype =>
          rw [hsymbol ht]
          exact .operand_nil (.initial _ _ mark t.loc htype)
  | print ht =>
      cases h with
      | afterPrint =>
          rw [hsymbol ht]
          exact .operand_nil (.print _ t.loc)
  | test ht =>
      cases h with
      | afterIf hchain =>
          rw [hsymbol ht]
          simpa using InProgress.operand_nil (.left hchain _ t.loc)
  | fill ht =>
      cases h with
      | operand hbegins hhole =>
          rw [List.append_assoc]
          exact .operator hbegins (hhole.fill (spells_of_operand? ht))
  | nest ht =>
      cases h with
      | operand hbegins hhole =>
          rw [List.append_assoc, hsymbol ht]
          exact .operand hbegins (hhole.nest t.loc)
  | extend ht =>
      cases h with
      | operator hbegins hformula =>
          rw [List.append_assoc]
          exact .operand hbegins (hformula.extend ht)
  | close houter ht =>
      cases h with
      | operator hbegins hformula =>
          rw [List.append_assoc, hsymbol ht]
          exact .operator hbegins (hformula.close houter t.loc)
  | compare houter ht =>
      cases h with
      | operator hbegins hformula =>
          cases hbegins with
          | left hchain _ start =>
              simpa using InProgress.operand_nil (.right hchain _ start (hformula.spells houter) ht)
  | tested houter ht =>
      cases h with
      | operator hbegins hformula =>
          cases hbegins with
          | right hchain _ start hleft hop =>
              rw [hsymbol ht]
              simpa using InProgress.afterCondition hchain _ (.test start t.loc hleft hop (hformula.spells houter))
  | otherwise ht =>
      cases h with
      | afterThen hchain loc hcond hbody =>
          rw [hsymbol ht]
          exact .afterElse (.cons hchain loc t.loc hcond hbody)
  | elseIf ht =>
      cases h with
      | afterElse hchain =>
          rw [hsymbol ht]
          exact .afterIf hchain t.loc

theorem InProgress.opened {ts : List Token} {arms : List Arm} {goal : Goal} {opening : Opening}
    (h : InProgress ts arms goal) (hdue : opening.Due goal) (brace : Location) :
    Opened (ts ++ [⟨.symbol .openBrace, brace⟩]) arms opening brace := by
  cases hdue with
  | branch =>
      cases h with
      | afterCondition hchain _ hcond => exact .branch hchain _ brace hcond
  | otherwise =>
      cases h with
      | afterElse hchain => exact .otherwise hchain brace

/-- The tokens in front of the statements of the innermost block. -/
inductive Encloses : List Token → List Frame → Prop where
  | nil : Encloses [] []
  | cons {ts us vs : List Token} {frame : Frame} {frames : List Frame} (hframes : Encloses ts frames)
      (hbody : Spells .program us frame.body.reverse) (hopened : Opened vs frame.arms frame.opening frame.brace) :
      Encloses (ts ++ us ++ vs) (frame :: frames)

namespace Reader

/-- The tokens in front of the statement being read. -/
def Precedes (ts : List Token) (r : Reader) : Prop :=
  ∃ us vs, ts = us ++ vs ∧ Encloses us r.frames ∧ Spells .program vs r.body.reverse

/-- The tokens read so far, each of them accounted for. -/
def Traces (ts : List Token) (r : Reader) : Prop :=
  ∃ us vs, ts = us ++ vs ∧ r.Precedes us ∧ InProgress vs r.arms r.goal

end Reader

/-! ### Broken statements -/

mutual

/-- Whether no statement broke off inside the statement. -/
def Stmt.whole : Stmt → Bool
  | .infer .. | .declare .. | .assign .. | .print .. => true
  | .ifThen _ body _ _ => wholeAll body
  | .ifElse _ body _ otherwise _ => wholeAll body && otherwise.whole
  | .block body _ => wholeAll body
  | .broken .. => false

def wholeAll : List Stmt → Bool
  | [] => true
  | stmt :: rest => stmt.whole && wholeAll rest

end

@[simp] theorem wholeAll_append (front rest : List Stmt) :
    wholeAll (front ++ rest) = (wholeAll front && wholeAll rest) := by
  induction front with
  | nil => rfl
  | cons stmt front ih => simp only [List.cons_append, wholeAll, ih, Bool.and_assoc]

@[simp] theorem wholeAll_reverse (stmts : List Stmt) : wholeAll stmts.reverse = wholeAll stmts := by
  induction stmts with
  | nil => rfl
  | cons stmt rest ih =>
      rw [List.reverse_cons, wholeAll_append, ih, wholeAll, wholeAll, wholeAll, Bool.and_true, Bool.and_comm]

/-- Whether no statement broke off inside the branches. -/
def wholeArms (arms : List Arm) : Bool :=
  arms.all fun arm => wholeAll arm.body

theorem wholeAll_branches (arms : List Arm) (otherwise : Option Stmt) :
    wholeAll (branches otherwise arms).toList = (wholeAll otherwise.toList && wholeArms arms) := by
  induction arms generalizing otherwise with
  | nil => simp [branches, wholeArms]
  | cons arm arms ih =>
      rw [branches, List.foldl_cons, ← branches, ih]
      cases otherwise with
      | none => simp [wholeAll, Stmt.whole, wholeArms]
      | some stmt => simp [wholeAll, Stmt.whole, wholeArms, Bool.and_comm, Bool.and_left_comm, Bool.and_assoc]

theorem Spells.whole {part : Part} {ts : List Token} {stmts : List Stmt} (h : Spells part ts stmts) :
    wholeAll stmts = true := by
  induction h with
  | nil => rfl
  | cons _ _ ihfirst ihrest =>
      simp only [wholeAll, Bool.and_true] at ihfirst ⊢
      rw [ihfirst, ihrest]
      rfl
  | infer => rfl
  | declare => rfl
  | initial => rfl
  | assign => rfl
  | print => rfl
  | ofConditional _ ih => exact ih
  | ofBlock _ ih => exact ih
  | block _ _ _ ih => simpa [wholeAll, Stmt.whole] using ih
  | ifThen _ _ _ ih => simpa [wholeAll, Stmt.whole] using ih
  | ifElse _ _ _ _ _ ihbody ihlast =>
      simp only [wholeAll, Stmt.whole, Bool.and_true] at ihbody ihlast ⊢
      rw [ihbody, ihlast]
      rfl
  | elseIf _ _ _ _ _ ihbody ihlast =>
      simp only [wholeAll, Stmt.whole, Bool.and_true] at ihbody ihlast ⊢
      rw [ihbody, ihlast]
      rfl

/-- Whether the expression being read belongs to the test of a branch. -/
def Purpose.inBranch : Purpose → Bool
  | .left _ | .right .. => true
  | .infer .. | .initial .. | .assign .. | .print _ => false

/-- Whether the statement being read is an if statement, so that its finished branches are kept. -/
def Goal.inBranch : Goal → Bool
  | .afterIf _ | .afterCondition .. | .afterThen | .afterElse => true
  | .operand purpose _ | .operator purpose _ => purpose.inBranch
  | _ => false

/-- Whether the block is part of an if statement. -/
def Opening.inBranch : Opening → Bool
  | .plain => false
  | .branch .. | .otherwise => true

theorem Purpose.inBranch_of_stmt? {purpose : Purpose} {value : Expr Unit} {stmt : Stmt}
    (h : purpose.stmt? value = some stmt) : purpose.inBranch = false := by
  cases purpose <;> first | rfl | cases h

theorem Goal.Leads.inBranch_eq {t : Token} {goal later : Goal} (h : goal.Leads t later) :
    later.inBranch = goal.inBranch := by
  cases h <;> rfl

theorem Opening.Due.inBranch_eq {opening : Opening} {goal : Goal} (h : opening.Due goal) : opening.inBranch = true := by
  cases h <;> rfl

/-- Whether no statement broke off in front of the block. -/
def Frame.whole (frame : Frame) : Bool :=
  wholeAll frame.body && (!frame.opening.inBranch || wholeArms frame.arms)

/-- Whether no statement that is still kept broke off. -/
def Reader.whole (r : Reader) : Bool :=
  wholeAll r.body && (!r.goal.inBranch || wholeArms r.arms) && r.frames.all Frame.whole

namespace Reader

theorem whole_iff {r : Reader} : r.whole = true ↔
    wholeAll r.body = true ∧ (r.goal.inBranch = true → wholeArms r.arms = true) ∧ r.frames.all Frame.whole = true := by
  cases hgoal : r.goal.inBranch <;> simp [whole, hgoal, and_assoc]

theorem whole_of_take {r : Reader} {t : Token} {goal : Goal} (h : (r.take t goal).whole = true)
    (hgoal : r.goal.inBranch = true → goal.inBranch = true) : r.whole = true := by
  rw [whole_iff] at h ⊢
  exact ⟨h.1, fun hr => h.2.1 (hgoal hr), h.2.2⟩

theorem whole_of_add {r : Reader} {stmt : Stmt} (h : (r.add stmt).whole = true) (hgoal : r.goal.inBranch = false) :
    r.whole = true := by
  rw [whole_iff] at h ⊢
  have hbody : wholeAll (stmt :: r.body) = true := h.1
  rw [wholeAll, Bool.and_eq_true] at hbody
  exact ⟨hbody.2, fun hr => absurd hr (by simp [hgoal]), h.2.2⟩

theorem whole_of_addBranches {r : Reader} {otherwise : Option Stmt} (h : (r.addBranches otherwise).whole = true) :
    r.whole = true ∧ wholeAll otherwise.toList = true := by
  rw [whole_iff] at h ⊢
  have hbody : wholeAll ((branches otherwise r.arms).toList ++ r.body) = true := h.1
  rw [wholeAll_append, wholeAll_branches, Bool.and_eq_true, Bool.and_eq_true] at hbody
  exact ⟨⟨hbody.2, fun _ => hbody.1.2, h.2.2⟩, hbody.1.1⟩

theorem whole_of_openBlock {r : Reader} {t : Token} {opening : Opening} (h : (r.openBlock t opening).whole = true)
    (hgoal : r.goal.inBranch = true → opening.inBranch = true) : r.whole = true := by
  rw [whole_iff] at h ⊢
  have hframes : (Frame.whole ⟨opening, t.loc, r.start, r.arms, r.body⟩ && r.frames.all Frame.whole) = true := h.2.2
  simp only [Frame.whole, Bool.and_eq_true, Bool.or_eq_true, Bool.not_eq_true'] at hframes
  refine ⟨hframes.1.1, fun hr => ?_, hframes.2⟩
  simpa [hgoal hr] using hframes.1.2

theorem whole_of_closeBlock {r : Reader} {t : Token} {frame : Frame} {frames : List Frame}
    (h : (r.closeBlock t frame frames).whole = true) (hframes : r.frames = frame :: frames)
    (hgoal : r.goal.inBranch = false) : r.whole = true := by
  -- Closing moves the statements of the block: into a statement, a branch, or the last branch of a chain.
  have hparts : wholeAll r.body = true ∧ frame.whole = true ∧ frames.all Frame.whole = true := by
    unfold closeBlock at h
    split at h
    · rename_i hopening
      have hbody := (whole_iff.1 h).1
      simp only [add, wholeAll, Stmt.whole, wholeAll_reverse, Bool.and_eq_true] at hbody
      exact ⟨hbody.1, by simp [Frame.whole, hbody.2, hopening, Opening.inBranch], (whole_iff.1 h).2.2⟩
    · rename_i hopening
      obtain ⟨hbody, harms, hrest⟩ := whole_iff.1 h
      have harms' := harms rfl
      simp only [wholeArms, List.all_cons, wholeAll_reverse, Bool.and_eq_true] at harms'
      exact ⟨harms'.1, by simp [Frame.whole, wholeArms, hbody, harms'.2], hrest⟩
    · rename_i hopening
      obtain ⟨hbody, -, hrest⟩ := whole_iff.1 h
      simp only [addBranches, wholeAll_append, wholeAll_branches, Option.toList_some, wholeAll, Stmt.whole,
        wholeAll_reverse, Bool.and_true, Bool.and_eq_true] at hbody
      exact ⟨hbody.1.1, by simp [Frame.whole, hbody.2, hbody.1.2], hrest⟩
  rw [whole_iff, hframes, List.all_cons, Bool.and_eq_true]
  exact ⟨hparts.1, fun hr => absurd hr (by simp [hgoal]), hparts.2⟩

theorem whole_fail (r : Reader) (loc : Location) (expected : Expected) (found : Option Lexeme) :
    (r.fail loc expected found).whole = false := by
  simp [whole, fail, wholeAll, Stmt.whole]

theorem whole_refuse (r : Reader) (t : Token) (expected : Expected) : (r.refuse t expected).whole = false :=
  whole_fail _ _ _ _

theorem whole_of_begin {r : Reader} {t : Token} (h : (r.begin t).whole = true) (hgoal : r.goal.inBranch = false) :
    r.whole = true := by
  have hstart := r.start_begin t
  generalize r.begin t = after at hstart h
  -- The line on which the statement starts makes no difference.
  change Reader.whole { r with start := t.loc.line } = true
  cases hstart with
  | take _ => exact whole_of_take h (by simp [hgoal])
  | openBlock ht => exact whole_of_openBlock h (by simp [hgoal])
  | closeBlock ht hframes => exact whole_of_closeBlock h hframes hgoal
  | refuse => simp [whole_refuse] at h

theorem whole_of_skipOr {r : Reader} {line : Int} {t : Token} (h : (r.skipOr line t).whole = true)
    (hgoal : r.goal.inBranch = false) : r.whole = true := by
  unfold skipOr at h
  split at h
  · exact h
  · exact whole_of_begin h hgoal

theorem whole_reject (r : Reader) (t : Token) (expected : Expected) : (r.reject t expected).whole = false := by
  rw [Bool.eq_false_iff]
  intro h
  have hfail := whole_of_skipOr h rfl
  rw [whole_fail] at hfail
  exact absurd hfail Bool.false_ne_true

theorem Ended.goal_eq {r ended : Reader} (h : r.Ended ended) : ended.goal = .start := by
  cases h with
  | start hgoal => exact hgoal
  | _ => rfl

theorem Ended.whole {r ended : Reader} (h : r.Ended ended) (hended : ended.whole = true) : r.whole = true := by
  cases h with
  | start => exact hended
  | declare hgoal => exact whole_of_add hended (by rw [hgoal]; rfl)
  | value hgoal houter hstmt => exact whole_of_add hended (by rw [hgoal]; exact Purpose.inBranch_of_stmt? hstmt)
  | branches => exact (whole_of_addBranches hended).1

/-- A broken statement stays in sight. -/
theorem whole_of_next {r : Reader} {t : Token} (h : (r.next t).whole = true) : r.whole = true := by
  have hstep := r.step_next t
  generalize r.next t = after at hstep h
  cases hstep with
  | take hgoal => exact whole_of_take h fun hr => hgoal.inBranch_eq.trans hr
  | print hgoal houter ht => exact whole_of_take (whole_of_add h rfl) (by simp [hgoal, Goal.inBranch, Purpose.inBranch])
  | openBlock hdue ht => exact whole_of_openBlock h fun _ => hdue.inBranch_eq
  | begin hended => exact hended.whole (whole_of_begin h (by rw [hended.goal_eq]; rfl))
  | refuse expected => simp [whole_refuse] at h
  | reject expected => simp [whole_reject] at h
  | skip hgoal => exact whole_of_skipOr h (by rw [hgoal]; rfl)

end Reader

/-! ### One token after the other -/

theorem Spells.snoc {ts us : List Token} {stmts : List Stmt} {stmt : Stmt} (h : Spells .program ts stmts)
    (hstmt : Spells .statement us [stmt]) : Spells .program (ts ++ us) (stmts ++ [stmt]) := by
  generalize hpart : Part.program = part at h
  induction h with
  | nil => simpa using Spells.cons hstmt .nil
  | cons hfirst hrest ihfirst ihrest =>
      rw [List.append_assoc, List.cons_append]
      exact .cons hfirst (ihrest rfl)
  | _ => cases hpart

namespace Reader

theorem Precedes.add {r : Reader} {ts us : List Token} {stmt : Stmt} (h : r.Precedes ts)
    (hstmt : Spells .statement us [stmt]) : (r.add stmt).Precedes (ts ++ us) := by
  obtain ⟨fs, bs, rfl, hframes, hbody⟩ := h
  refine ⟨fs, bs ++ us, by simp, hframes, ?_⟩
  simpa [Reader.add] using hbody.snoc hstmt

theorem Precedes.addBranches {r : Reader} {ts us : List Token} {otherwise : Option Stmt} {stmt : Stmt}
    (h : r.Precedes ts) (hbranches : branches otherwise r.arms = some stmt) (hstmt : Spells .statement us [stmt]) :
    (r.addBranches otherwise).Precedes (ts ++ us) := by
  have hadd := h.add hstmt
  rwa [show r.addBranches otherwise = r.add stmt by simp [Reader.addBranches, Reader.add, hbranches]]

theorem Precedes.traces {r : Reader} {ts : List Token} (h : r.Precedes ts) (harms : r.arms = [])
    (hgoal : r.goal = .start) : r.Traces ts := by
  refine ⟨ts, [], by simp, h, ?_⟩
  rw [harms, hgoal]
  exact .start

theorem Precedes.take {r : Reader} {ts us : List Token} {t : Token} {goal : Goal} (h : r.Precedes ts)
    (hgoal : InProgress us r.arms goal) : (r.take t goal).Traces (ts ++ us) :=
  ⟨ts, us, rfl, h, hgoal⟩

theorem Precedes.openBlock {r : Reader} {ts us : List Token} {opening : Opening} {brace : Location} (h : r.Precedes ts)
    (hopened : Opened us r.arms opening brace) : (r.openBlock ⟨.symbol .openBrace, brace⟩ opening).Traces (ts ++ us) := by
  obtain ⟨fs, bs, rfl, hframes, hbody⟩ := h
  refine Precedes.traces ⟨fs ++ bs ++ us, [], by simp, ?_, .nil⟩ rfl rfl
  exact .cons hframes hbody hopened

theorem Precedes.closeBlock {r : Reader} {ts : List Token} {frame : Frame} {frames : List Frame} (h : r.Precedes ts)
    (hframes : r.frames = frame :: frames) (finish : Location) :
    (r.closeBlock ⟨.symbol .closeBrace, finish⟩ frame frames).Traces (ts ++ [⟨.symbol .closeBrace, finish⟩]) := by
  obtain ⟨fs, bs, rfl, hencloses, hbody⟩ := h
  rw [hframes] at hencloses
  obtain ⟨opening, brace, start, arms, body⟩ := frame
  cases hencloses with
  | cons houter hfront hopened =>
      rename_i os us vs
      have hblock : Spells .block _ [.block r.body.reverse brace] := .block brace finish hbody
      have haround : Precedes (os ++ us) ⟨frames, body, arms, start, finish, .start⟩ := ⟨os, us, rfl, houter, hfront⟩
      cases hopened with
      | plain =>
          simpa [Reader.closeBlock] using (haround.add (.ofBlock hblock)).traces rfl rfl
      | branch harms loc _ hcond =>
          refine ⟨os ++ us, _, ?_, haround, .afterThen harms loc hcond hblock⟩
          simp
      | otherwise harms =>
          obtain ⟨stmt, hbranches, hspells⟩ := harms.otherwise hblock
          simpa [Reader.closeBlock] using (haround.addBranches hbranches (.ofConditional hspells)).traces rfl rfl

theorem Precedes.begin {r : Reader} {ts : List Token} {t : Token} (h : r.Precedes ts) (harms : r.arms = [])
    (hwhole : (r.begin t).whole = true) : (r.begin t).Traces (ts ++ [t]) := by
  have hfront : Precedes ts { r with start := t.loc.line } := h
  have hstart := r.start_begin t
  generalize r.begin t = after at hstart hwhole ⊢
  obtain ⟨lexeme, loc⟩ := t
  cases hstart with
  | take hgoal =>
      apply hfront.take
      rw [harms]
      exact hgoal.inProgress
  | openBlock ht =>
      obtain rfl : lexeme = _ := ht
      exact hfront.openBlock (by rw [harms]; exact .plain _)
  | closeBlock ht hframes =>
      obtain rfl : lexeme = _ := ht
      exact hfront.closeBlock hframes loc
  | refuse => simp [whole_refuse] at hwhole

theorem Traces.goal_ne_skip {r : Reader} {ts : List Token} {line : Int} (h : r.Traces ts) : r.goal ≠ .skip line := by
  obtain ⟨us, vs, rfl, hfront, hprogress⟩ := h
  intro hgoal
  generalize r.arms = arms at hprogress
  rw [hgoal] at hprogress
  cases hprogress

/-- Where the statement being read can end, its tokens spell it. -/
theorem Traces.ended {r ended : Reader} {ts : List Token} (h : r.Traces ts) (hended : r.Ended ended) :
    ended.Precedes ts ∧ ended.arms = [] := by
  obtain ⟨us, vs, rfl, hfront, hprogress⟩ := h
  generalize harms : r.arms = arms at hprogress
  cases hended with
  | start hgoal =>
      rw [hgoal] at hprogress
      cases hprogress
      exact ⟨by simpa using hfront, harms⟩
  | declare hgoal =>
      rw [hgoal] at hprogress
      cases hprogress with
      | afterType _ _ mark htype => exact ⟨hfront.add (.declare _ _ mark htype), rfl⟩
  | value hgoal houter hstmt =>
      rw [hgoal] at hprogress
      cases hprogress with
      | operator hbegins hformula => exact ⟨hfront.add (hbegins.statement (hformula.spells houter) hstmt), rfl⟩
  | branches hgoal =>
      rw [hgoal] at hprogress
      cases hprogress with
      | afterThen hchain loc hcond hbody =>
          obtain ⟨stmt, hbranches, hspells⟩ := hchain.conditional (.ifThen loc hcond hbody)
          rw [show branches _ _ = branches none r.arms by rw [harms]; rfl] at hbranches
          exact ⟨hfront.addBranches hbranches (.ofConditional hspells), rfl⟩

/-- A token that breaks no statement off is accounted for. -/
theorem Traces.next {r : Reader} {ts : List Token} {t : Token} (h : r.Traces ts) (hwhole : (r.next t).whole = true) :
    (r.next t).Traces (ts ++ [t]) := by
  have hstep := r.step_next t
  generalize r.next t = after at hstep hwhole ⊢
  cases hstep with
  | begin hended =>
      obtain ⟨hfront, harms⟩ := h.ended hended
      exact hfront.begin harms hwhole
  | refuse expected => simp [whole_refuse] at hwhole
  | reject expected => simp [whole_reject] at hwhole
  | take hgoal =>
      obtain ⟨us, vs, rfl, hfront, hprogress⟩ := h
      rw [List.append_assoc]
      exact hfront.take (hprogress.leads hgoal)
  | @print loc formula hgoal houter ht =>
      obtain ⟨us, vs, rfl, hfront, hprogress⟩ := h
      generalize r.arms = arms at hprogress
      rw [hgoal] at hprogress
      cases hprogress with
      | operator hbegins hformula =>
          cases hbegins with
          | print _ start =>
              obtain ⟨lexeme, finish⟩ := t
              obtain rfl : lexeme = _ := ht
              have hadd : ((r.take ⟨.symbol .closeParen, finish⟩ .start).add (.print formula.value loc)).Precedes _ :=
                hfront.add (.print loc start finish (hformula.spells houter))
              simpa using hadd.traces rfl rfl
  | openBlock hdue ht =>
      obtain ⟨us, vs, rfl, hfront, hprogress⟩ := h
      obtain ⟨lexeme, brace⟩ := t
      obtain rfl : lexeme = _ := ht
      rw [List.append_assoc]
      exact hfront.openBlock (hprogress.opened hdue brace)
  | skip hgoal => exact absurd hgoal h.goal_ne_skip

theorem whole_of_foldl {r : Reader} {ts : List Token} (h : (ts.foldl Reader.next r).whole = true) : r.whole = true := by
  induction ts generalizing r with
  | nil => exact h
  | cons t ts ih => exact whole_of_next (ih h)

theorem Traces.foldl {r : Reader} {us ts : List Token} (h : r.Traces us)
    (hwhole : (ts.foldl Reader.next r).whole = true) : (ts.foldl Reader.next r).Traces (us ++ ts) := by
  induction ts generalizing r us with
  | nil => simpa using h
  | cons t ts ih => simpa using ih (h.next (whole_of_foldl hwhole)) hwhole

/-! ### The end of the text -/

theorem whole_of_endStatement {r : Reader} (h : r.endStatement.whole = true) : r.whole = true := by
  rcases r.endStatement_cases with hended | ⟨line, hgoal, hend⟩ | ⟨loc, expected, hloc, hend⟩
  · exact hended.whole h
  · rwa [hend] at h
  · simp [hend, whole_fail] at h

theorem endStatement_inBranch (r : Reader) : r.endStatement.goal.inBranch = false := by
  rcases r.endStatement_cases with hended | ⟨line, hgoal, hend⟩ | ⟨loc, expected, hloc, hend⟩
  · rw [hended.goal_eq]
    rfl
  · rw [hend, hgoal]
    rfl
  · rw [hend]
    rfl

theorem Traces.endStatement {r : Reader} {ts : List Token} (h : r.Traces ts) (hwhole : r.endStatement.whole = true) :
    r.endStatement.Precedes ts := by
  rcases r.endStatement_cases with hended | ⟨line, hgoal, hend⟩ | ⟨loc, expected, hloc, hend⟩
  · exact (h.ended hended).1
  · exact absurd hgoal h.goal_ne_skip
  · simp [hend, whole_fail] at hwhole

theorem of_wholeAll_endBlocks {prev : Location} {frames : List Frame} {body : List Stmt}
    (h : wholeAll (endBlocks prev frames body) = true) : frames = [] ∧ wholeAll body = true := by
  induction frames generalizing body with
  | nil =>
      rw [endBlocks, wholeAll_reverse] at h
      exact ⟨rfl, h⟩
  | cons frame frames ih =>
      have hbroken := (ih h).2
      simp [wholeAll, Stmt.whole] at hbroken

end Reader

/-- Statements without a broken one among them are spelled by the tokens they were read from. -/
theorem spells_of_wholeAll_read {ts : List Token} (h : wholeAll (read ts) = true) : Spells .program ts (read ts) := by
  obtain ⟨hframes, hbody⟩ := Reader.of_wholeAll_endBlocks h
  have hwhole : (ts.foldl Reader.next {}).endStatement.whole = true := by
    rw [Reader.whole_iff, hframes, Reader.endStatement_inBranch]
    exact ⟨hbody, by simp, rfl⟩
  have htraces : (ts.foldl Reader.next {}).Traces ts := by
    have hnil : Reader.Traces [] {} := Reader.Precedes.traces ⟨[], [], rfl, .nil, .nil⟩ rfl rfl
    simpa using hnil.foldl (Reader.whole_of_endStatement hwhole)
  obtain ⟨us, vs, rfl, hencloses, hspells⟩ := htraces.endStatement hwhole
  rw [hframes] at hencloses
  cases hencloses
  rw [read, Reader.finish, hframes]
  exact hspells

end Lai.Grammar
