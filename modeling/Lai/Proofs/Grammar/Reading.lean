import Lai.Grammar.Reader
import Lai.Proofs.Grammar.Rules
/-!
# Reading what is spelled

The reader follows the grammar: if tokens spell statements, reading the tokens gives exactly these
statements. A statement has no end mark, so a state in which one could end is compared with the state
in which it has ended: both go on in the same way with every token that cannot belong to the statement.
-/

namespace Lai.Grammar

/-! ### Expressions -/

/-- Reading the tokens where an expression of the rank is due ends with that expression read. -/
def Rank.Reads : Rank → List Token → Expr Unit → Prop
  | .factor, ts, e => ∀ (r : Reader) (purpose : Purpose) (hole : Hole), r.goal = .operand purpose hole →
      ∃ prev, ts.foldl Reader.next r = { r with prev := prev, goal := .operator purpose (hole.fill e) }
  | .term, ts, e => ∀ (r : Reader) (purpose : Purpose) (sum : Option Pending) (outer : List Level),
      r.goal = .operand purpose ⟨⟨sum, none⟩, outer⟩ →
      ∃ prev, ts.foldl Reader.next r = { r with prev := prev, goal := .operator purpose ⟨sum, e, outer⟩ }
  | .expr, ts, e => ∀ (r : Reader) (purpose : Purpose) (outer : List Level), r.goal = .operand purpose ⟨{}, outer⟩ →
      ∃ prev formula, ts.foldl Reader.next r = { r with prev := prev, goal := .operator purpose formula } ∧
        formula.value = e ∧ formula.outer = outer

theorem ofLexeme?_eq_none_of_compare {lexeme : Lexeme} {op : CompareOp}
    (hop : CompareOp.ofLexeme? lexeme = some op) : MathOp.ofLexeme? lexeme = none := by
  unfold CompareOp.ofLexeme? at hop
  split at hop
  · rfl
  · rfl
  · simp at hop

theorem next_operator_of_math {r : Reader} {purpose : Purpose} {formula : Formula} {t : Token} {op : MathOp}
    (hgoal : r.goal = .operator purpose formula) (hop : MathOp.ofLexeme? t.lexeme = some op) :
    r.next t = r.take t (.operand purpose (formula.extend op t.loc)) := by
  simp only [Reader.next, hgoal, hop]

theorem SpellsExpr.reads {rank : Rank} {ts : List Token} {e : Expr Unit} (h : SpellsExpr rank ts e) :
    rank.Reads ts e := by
  induction h with
  | int value loc =>
      intro r purpose hole hgoal
      exact ⟨loc, by simp only [List.foldl_cons, List.foldl_nil, Reader.next, hgoal, Reader.take]⟩
  | string text loc =>
      intro r purpose hole hgoal
      exact ⟨loc, by simp only [List.foldl_cons, List.foldl_nil, Reader.next, hgoal, Reader.take]⟩
  | var name loc =>
      intro r purpose hole hgoal
      exact ⟨loc, by simp only [List.foldl_cons, List.foldl_nil, Reader.next, hgoal, Reader.take]⟩
  | group start finish h ih =>
      intro r purpose hole hgoal
      have hopen : r.next ⟨.symbol .openParen, start⟩ = r.take ⟨.symbol .openParen, start⟩ (.operand purpose hole.nest) := by
        simp only [Reader.next, hgoal]
      obtain ⟨prev, formula, hread, hvalue, houter⟩ :=
        ih (r.take ⟨.symbol .openParen, start⟩ (.operand purpose hole.nest)) purpose (hole.level :: hole.outer) rfl
      refine ⟨finish, ?_⟩
      rw [List.cons_append, List.foldl_cons, hopen, List.foldl_append, hread]
      simp [Reader.next, MathOp.ofLexeme?, houter, Reader.require, Reader.take, Formula.close, hvalue]
  | factor h ih =>
      intro r purpose sum outer hgoal
      exact ih r purpose ⟨⟨sum, none⟩, outer⟩ hgoal
  | product hleft hop hrank hright ihleft ihright =>
      rename_i ts us left right t op
      intro r purpose sum outer hgoal
      obtain ⟨prev, hread⟩ := ihleft r purpose sum outer hgoal
      have hextend : Formula.extend ⟨sum, left, outer⟩ op t.loc = ⟨⟨sum, some ⟨left, op, t.loc⟩⟩, outer⟩ := by
        rcases hrank with rfl | rfl <;> rfl
      rw [List.foldl_append, List.foldl_cons, hread, next_operator_of_math rfl hop, hextend]
      exact ihright (Reader.take _ t (.operand purpose ⟨⟨sum, some ⟨left, op, t.loc⟩⟩, outer⟩)) purpose _ rfl
  | term h ih =>
      intro r purpose outer hgoal
      obtain ⟨prev, hread⟩ := ih r purpose none outer hgoal
      exact ⟨prev, _, hread, rfl, rfl⟩
  | sum hleft hop hrank hright ihleft ihright =>
      rename_i ts us left right t op
      intro r purpose outer hgoal
      obtain ⟨prev, formula, hread, hvalue, houter⟩ := ihleft r purpose outer hgoal
      have hextend : formula.extend op t.loc = ⟨⟨some ⟨left, op, t.loc⟩, none⟩, outer⟩ := by
        rcases hrank with rfl | rfl <;> simp [Formula.extend, MathOp.precedence, hvalue, houter]
      rw [List.foldl_append, List.foldl_cons, hread, next_operator_of_math rfl hop, hextend]
      obtain ⟨last, hlast⟩ :=
        ihright (Reader.take _ t (.operand purpose ⟨⟨some ⟨left, op, t.loc⟩, none⟩, outer⟩)) purpose _ outer rfl
      exact ⟨last, _, hlast, rfl, rfl⟩

/-- A whole expression and the token that ends it. -/
theorem SpellsExpr.reads_settle {ts : List Token} {e : Expr Unit} (h : SpellsExpr .expr ts e) (r : Reader)
    (purpose : Purpose) (t : Token) (hgoal : r.goal = .operand purpose {}) (ht : MathOp.ofLexeme? t.lexeme = none) :
    ∃ prev goal, (ts ++ [t]).foldl Reader.next r = Reader.settle { r with prev := prev, goal := goal } purpose e t := by
  obtain ⟨prev, formula, hread, hvalue, houter⟩ := h.reads r purpose [] hgoal
  refine ⟨prev, .operator purpose formula, ?_⟩
  simp only [List.foldl_append, List.foldl_cons, List.foldl_nil, hread, Reader.next, ht, houter, hvalue]

/-! ### States in which a statement could end -/

/-- Whether the expression being read is the last part of its statement. -/
def Purpose.IsLast : Purpose → Prop
  | .infer .. | .initial .. | .assign .. => True
  | .print _ | .left _ | .right .. => False

/-- The statement being read, if any, could end here. -/
def Reader.Resting (r : Reader) : Prop :=
  match r.goal with
  | .start => r.arms = []
  | .afterType .. | .afterThen => True
  | .operator purpose formula => purpose.IsLast ∧ formula.outer = []
  | _ => False

/-- Whether a token goes on with some statement that could end before it. -/
def continues (t : Token) : Bool :=
  (MathOp.ofLexeme? t.lexeme).isSome || t.lexeme = .symbol .assign || t.lexeme = .symbol .elseWord

theorem Reader.next_of_start {r : Reader} (hgoal : r.goal = .start) (t : Token) : r.next t = r.begin t := by
  simp only [next, hgoal]

/-- Either no statement is being read, or a token that does not go on with the statement ends it. -/
theorem Reader.Resting.endStatement_cases {r : Reader} (hrest : r.Resting) :
    (r.goal = .start ∧ r.arms = [] ∧ r.endStatement = r) ∨
    (r.endStatement.goal = .start ∧ r.endStatement.arms = [] ∧
      ∀ t, continues t = false → r.next t = r.endStatement.begin t) := by
  have hnot : ∀ {t : Token}, continues t = false →
      MathOp.ofLexeme? t.lexeme = none ∧ t.lexeme ≠ .symbol .assign ∧ t.lexeme ≠ .symbol .elseWord := by
    intro t ht
    simpa [continues, and_assoc] using ht
  unfold Resting at hrest
  split at hrest
  · rename_i hgoal
    exact Or.inl ⟨hgoal, hrest, by simp only [endStatement, hgoal]⟩
  · rename_i name type loc hgoal
    have hend : r.endStatement = r.add (.declare name type none loc) := by simp only [endStatement, hgoal]
    refine Or.inr ⟨by rw [hend, add], by rw [hend, add], fun t ht => ?_⟩
    rw [hend]
    simp only [next, hgoal, if_neg (hnot ht).2.1]
  · rename_i hgoal
    have hend : r.endStatement = r.addBranches none := by simp only [endStatement, hgoal]
    refine Or.inr ⟨by rw [hend, addBranches], by rw [hend, addBranches], fun t ht => ?_⟩
    rw [hend]
    simp only [next, hgoal, if_neg (hnot ht).2.2]
  · rename_i purpose formula hgoal
    obtain ⟨hlast, houter⟩ := hrest
    have hend : r.endStatement = r.settleEnd purpose formula.value := by
      simp only [endStatement, hgoal, houter]
    have hnext : ∀ t, continues t = false → r.next t = r.settle purpose formula.value t := fun t ht => by
      simp only [next, hgoal, houter, (hnot ht).1]
    refine Or.inr ?_
    rw [hend]
    cases purpose with
    | infer name loc => exact ⟨rfl, rfl, hnext⟩
    | initial name type loc => exact ⟨rfl, rfl, hnext⟩
    | assign name loc => exact ⟨rfl, rfl, hnext⟩
    | print loc => exact hlast.elim
    | left loc => exact hlast.elim
    | right loc left op opLoc => exact hlast.elim
  · exact hrest.elim

theorem Reader.Resting.endStatement_start {r : Reader} (hrest : r.Resting) :
    r.endStatement.goal = .start ∧ r.endStatement.arms = [] := by
  rcases hrest.endStatement_cases with ⟨hgoal, harms, hend⟩ | ⟨hgoal, harms, -⟩
  · rw [hend]
    exact ⟨hgoal, harms⟩
  · exact ⟨hgoal, harms⟩

/-- A token that does not go on with the statement is read as if the statement had ended. -/
theorem Reader.Resting.next_eq {r : Reader} (hrest : r.Resting) {t : Token} (ht : continues t = false) :
    r.next t = r.endStatement.next t := by
  rcases hrest.endStatement_cases with ⟨-, -, hend⟩ | ⟨hgoal, -, hnext⟩
  · rw [hend]
  · rw [hnext t ht, next_of_start hgoal]

/-- The statement being read could end here, and with it the open blocks and the statements of the
innermost one would be these. -/
structure Reader.Ends (r : Reader) (frames : List Frame) (body : List Stmt) : Prop where
  resting : r.Resting
  frames_eq : r.endStatement.frames = frames
  body_eq : r.endStatement.body = body

theorem Reader.Ends.of_start {r : Reader} (hgoal : r.goal = .start) (harms : r.arms = []) :
    r.Ends r.frames r.body := by
  have hend : r.endStatement = r := by simp only [endStatement, hgoal]
  refine ⟨?_, by rw [hend], by rw [hend]⟩
  simp only [Resting, hgoal]
  exact harms

/-- An expression that is the last part of its statement. -/
theorem SpellsExpr.ends {ts : List Token} {e : Expr Unit} (h : SpellsExpr .expr ts e) (r : Reader)
    (purpose : Purpose) (stmt : Stmt) (hgoal : r.goal = .operand purpose {}) (hlast : purpose.IsLast)
    (hstmt : ∀ r : Reader, r.settleEnd purpose e = r.add stmt) :
    (ts.foldl Reader.next r).Ends r.frames (stmt :: r.body) := by
  obtain ⟨prev, formula, hread, hvalue, houter⟩ := h.reads r purpose [] hgoal
  have hend : Reader.endStatement { r with prev := prev, goal := .operator purpose formula }
      = Reader.add { r with prev := prev, goal := .operator purpose formula } stmt := by
    simp only [Reader.endStatement, houter, hvalue, hstmt]
  rw [hread]
  refine ⟨⟨hlast, houter⟩, ?_, ?_⟩
  · rw [hend, Reader.add]
  · rw [hend, Reader.add]

/-! ### Statements -/

/-- Reading the tokens where a part of the kind is due ends with the statements read. -/
def Part.Reads : Part → List Token → List Stmt → Prop
  | .program, ts, stmts => ∀ (r : Reader) (frames : List Frame) (body : List Stmt), r.Ends frames body →
      (ts.foldl Reader.next r).Ends frames (stmts.reverse ++ body)
  | .statement, ts, [stmt] => ∃ t rest, ts = t :: rest ∧ continues t = false ∧
      ∀ r : Reader, r.goal = .start → r.arms = [] → (ts.foldl Reader.next r).Ends r.frames (stmt :: r.body)
  | .conditional, ts, [stmt] => ∃ loc rest, ts = ⟨.symbol .ifWord, loc⟩ :: rest ∧
      ∀ r : Reader, r.goal = .afterIf loc →
        (rest.foldl Reader.next r).Ends r.frames ((branches (some stmt) r.arms).toList ++ r.body)
  | .block, ts, [stmt] => ∃ start finish inner body, ts = ⟨.symbol .openBrace, start⟩ :: inner ∧
      stmt = .block body start ∧ ∀ (r : Reader) (opening : Opening),
        inner.foldl Reader.next (r.openBlock ⟨.symbol .openBrace, start⟩ opening) =
          Reader.closeBlock { body := body.reverse } ⟨.symbol .closeBrace, finish⟩
            ⟨opening, start, r.start, r.arms, r.body⟩ r.frames
  | _, _, _ => False

/-- The reader after a test and its block have been read. -/
theorem SpellsTest.reads {ts us : List Token} {cond : Condition Unit} {body : List Stmt} {brace : Location}
    (hcond : SpellsTest ts cond) (hblock : Part.Reads .block us [.block body brace]) {r : Reader}
    {loc : Location} (hgoal : r.goal = .afterIf loc) :
    ∃ finish, (ts ++ us).foldl Reader.next r =
      { r with arms := ⟨loc, cond, body, brace⟩ :: r.arms, prev := finish, goal := .afterThen } := by
  obtain ⟨start, finish, inner, body', rfl, hstmt, hinner⟩ := hblock
  obtain ⟨rfl, rfl⟩ : body = body' ∧ brace = start := by simpa using hstmt
  cases hcond with
  | test opened closed hleft hop hright =>
      rename_i ls rs left right t op
      have hopen : [⟨.symbol .openParen, opened⟩].foldl Reader.next r
          = r.take ⟨.symbol .openParen, opened⟩ (.operand (.left loc) {}) := by
        simp only [List.foldl_cons, List.foldl_nil, Reader.next, hgoal, Reader.require, if_true]
      have hfirst : (ls ++ [t]).foldl Reader.next (r.take ⟨.symbol .openParen, opened⟩ (.operand (.left loc) {}))
          = r.take t (.operand (.right loc left op t.loc) {}) := by
        obtain ⟨prev, goal, hread⟩ := hleft.reads_settle (r.take ⟨.symbol .openParen, opened⟩ (.operand (.left loc) {}))
          (.left loc) t rfl (ofLexeme?_eq_none_of_compare hop)
        rw [hread]
        simp only [Reader.settle, hop, Reader.take]
      have hsecond : (rs ++ [(⟨.symbol .closeParen, closed⟩ : Token)]).foldl Reader.next
          (r.take t (.operand (.right loc left op t.loc) {}))
          = r.take ⟨.symbol .closeParen, closed⟩ (.afterCondition loc ⟨op, left, right, t.loc⟩) := by
        obtain ⟨prev, goal, hread⟩ := hright.reads_settle (r.take t (.operand (.right loc left op t.loc) {}))
          (.right loc left op t.loc) ⟨.symbol .closeParen, closed⟩ rfl rfl
        rw [hread]
        simp only [Reader.settle, Reader.require, Reader.take, if_true]
      have hblock : (⟨.symbol .openBrace, brace⟩ :: inner).foldl Reader.next
          (r.take ⟨.symbol .closeParen, closed⟩ (.afterCondition loc ⟨op, left, right, t.loc⟩))
          = { r with arms := ⟨loc, ⟨op, left, right, t.loc⟩, body, brace⟩ :: r.arms, prev := finish, goal := .afterThen } := by
        rw [List.foldl_cons]
        simp only [Reader.next, Reader.take, Reader.require, if_true, hinner, Reader.closeBlock, List.reverse_reverse]
      refine ⟨finish, ?_⟩
      simp only [List.cons_append, List.append_assoc, List.foldl_cons, List.foldl_append, List.foldl_nil] at *
      rw [hopen, hfirst, hsecond, hblock]

/-- Where a block closes, the reader goes on around it. -/
theorem Reader.Ends.next_closeBrace {r : Reader} {frame : Frame} {frames : List Frame} {body : List Stmt}
    (hends : r.Ends (frame :: frames) body) (finish : Location) :
    r.next ⟨.symbol .closeBrace, finish⟩
      = Reader.closeBlock { body := body } ⟨.symbol .closeBrace, finish⟩ frame frames := by
  rw [hends.resting.next_eq rfl, next_of_start hends.resting.endStatement_start.1]
  simp only [begin, hends.frames_eq, closeBlock, hends.body_eq]

theorem Spells.reads {part : Part} {ts : List Token} {stmts : List Stmt} (h : Spells part ts stmts) :
    part.Reads ts stmts := by
  induction h with
  | nil =>
      intro r frames body hends
      exact hends
  | cons hfirst hrest ihfirst ihrest =>
      rename_i ts us stmt rest
      intro r frames body hends
      obtain ⟨t, tail, rfl, hcontinues, hread⟩ := ihfirst
      -- The first token shows that the statement in front has ended, so reading goes on from its end.
      have hstart := hends.resting.endStatement_start
      have hends' := hread r.endStatement hstart.1 hstart.2
      rw [hends.frames_eq, hends.body_eq, List.foldl_cons, ← hends.resting.next_eq hcontinues,
        ← List.foldl_cons] at hends'
      rw [List.foldl_append, List.reverse_cons, List.append_assoc]
      exact ihrest _ frames (stmt :: body) hends'
  | infer name loc mark hvalue =>
      refine ⟨_, _, rfl, rfl, fun r hgoal harms => ?_⟩
      simp only [List.foldl_cons, Reader.next, hgoal, Reader.begin, Reader.take]
      exact hvalue.ends _ (.infer name loc) _ rfl trivial fun _ => rfl
  | declare name loc mark htype =>
      refine ⟨_, _, rfl, rfl, fun r hgoal harms => ?_⟩
      simp only [List.foldl_cons, List.foldl_nil, Reader.next, hgoal, Reader.begin, Reader.take, htype]
      exact ⟨trivial, rfl, rfl⟩
  | initial name loc mark equals htype hvalue =>
      rename_i t type ts value
      refine ⟨_, _, rfl, rfl, fun r hgoal harms => ?_⟩
      simp only [List.foldl_cons, Reader.next, hgoal, Reader.begin, Reader.take, htype, if_true]
      exact hvalue.ends _ (.initial name type loc) _ rfl trivial fun _ => rfl
  | assign name loc mark hvalue =>
      refine ⟨_, _, rfl, rfl, fun r hgoal harms => ?_⟩
      simp only [List.foldl_cons, Reader.next, hgoal, Reader.begin, Reader.take]
      exact hvalue.ends _ (.assign name loc) _ rfl trivial fun _ => rfl
  | print loc start finish hvalue =>
      rename_i ts value
      refine ⟨_, _, rfl, rfl, fun r hgoal harms => ?_⟩
      simp only [List.cons_append, List.foldl_cons, Reader.next, hgoal, Reader.begin, Reader.take, Reader.require, if_true]
      obtain ⟨prev, goal, hread⟩ :=
        hvalue.reads_settle (Reader.take { r with start := loc.line } ⟨.symbol .openParen, start⟩ (.operand (.print loc) {}))
          (.print loc) ⟨.symbol .closeParen, finish⟩ rfl rfl
      simp only [Reader.take] at hread
      rw [hread]
      exact .of_start rfl rfl
  | ofConditional h ih =>
      rename_i ts stmt
      obtain ⟨loc, rest, rfl, hread⟩ := ih
      refine ⟨_, _, rfl, rfl, fun r hgoal harms => ?_⟩
      have hends := hread (Reader.take { r with start := loc.line } ⟨.symbol .ifWord, loc⟩ (.afterIf loc)) rfl
      simp only [Reader.take, harms, branches, List.foldl_nil, Option.toList_some, List.singleton_append] at hends
      simpa only [List.foldl_cons, Reader.next, hgoal, Reader.begin, Reader.take, harms] using hends
  | ofBlock h ih =>
      rename_i ts stmt
      obtain ⟨start, finish, inner, body, rfl, rfl, hread⟩ := ih
      refine ⟨_, _, rfl, rfl, fun r hgoal harms => ?_⟩
      simp only [List.foldl_cons, Reader.next, hgoal, Reader.begin, hread, Reader.closeBlock, List.reverse_reverse]
      exact .of_start rfl rfl
  | block start finish hbody ih =>
      rename_i ts body
      refine ⟨start, finish, ts ++ [⟨.symbol .closeBrace, finish⟩], body, rfl, rfl, fun r opening => ?_⟩
      have hends := ih (r.openBlock ⟨.symbol .openBrace, start⟩ opening) _ _ (.of_start rfl rfl)
      rw [List.foldl_append, List.foldl_cons, List.foldl_nil]
      rw [show (r.openBlock ⟨.symbol .openBrace, start⟩ opening).body = [] from rfl, List.append_nil] at hends
      exact hends.next_closeBrace finish
  | ifThen loc hcond hbody ih =>
      rename_i ts us cond body brace
      refine ⟨loc, ts ++ us, rfl, fun r hgoal => ?_⟩
      obtain ⟨finish, hread⟩ := hcond.reads ih hgoal
      rw [hread]
      exact ⟨trivial, rfl, rfl⟩
  | ifElse loc mark hcond hbody hlast ihbody ihlast =>
      rename_i ts us vs cond body brace last
      refine ⟨loc, ts ++ us ++ ⟨.symbol .elseWord, mark⟩ :: vs, rfl, fun r hgoal => ?_⟩
      obtain ⟨finish, hread⟩ := hcond.reads ihbody hgoal
      obtain ⟨start, final, inner, inside, rfl, rfl, hinner⟩ := ihlast
      rw [List.foldl_append, hread]
      simp only [List.foldl_cons, Reader.next, if_true, Reader.take, reduceCtorEq, Lexeme.symbol.injEq, if_false,
        Reader.require, hinner, Reader.closeBlock, List.reverse_reverse]
      exact .of_start rfl rfl
  | elseIf loc mark hcond hbody hlast ihbody ihlast =>
      rename_i ts us vs cond body brace last
      refine ⟨loc, ts ++ us ++ ⟨.symbol .elseWord, mark⟩ :: vs, rfl, fun r hgoal => ?_⟩
      obtain ⟨finish, hread⟩ := hcond.reads ihbody hgoal
      obtain ⟨inner, rest, rfl, hrest⟩ := ihlast
      rw [List.foldl_append, hread]
      simp only [List.foldl_cons, Reader.next, if_true, Reader.take]
      exact hrest _ rfl

/-- Tokens that spell statements are read as these statements. -/
theorem read_of_spells {ts : List Token} {stmts : List Stmt} (h : Spells .program ts stmts) :
    read ts = stmts := by
  have hends : (ts.foldl Reader.next {}).Ends [] (stmts.reverse ++ []) := h.reads {} [] [] (.of_start rfl rfl)
  rw [read, Reader.finish, hends.frames_eq, hends.body_eq, List.append_nil]
  exact List.reverse_reverse stmts

end Lai.Grammar
