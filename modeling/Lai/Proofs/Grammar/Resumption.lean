import Lai.Proofs.Grammar.Acceptance
import Lai.Proofs.Grammar.Consumption
/-!
# Reading on behind an unfinished line

A line that breaks off in the middle of its statement is reported at the token behind it. Where this token is
only looked at, reading goes on with it, and the next line is read as if it stood alone. Behind the colon of a
declaration the token is taken for the name of a type, and its whole line is skipped.
-/

namespace Lai

namespace Grammar

/-! ### Unfinished statements -/

/-- Whether the statement has no blocks. -/
def Stmt.simple : Stmt → Bool
  | .infer .. | .declare .. | .assign .. | .print .. => true
  | .ifThen .. | .ifElse .. | .block .. | .broken .. => false

/-- The tokens begin a statement without blocks and are not a statement yet. -/
structure Unfinished (front : List Token) : Prop where
  ne_nil : front ≠ []
  begins : ∃ back stmt, Spells .statement (front ++ back) [stmt] ∧ stmt.simple = true
  incomplete : ∀ stmt, ¬ Spells .statement front [stmt]

/-- The tokens are a name and a colon, behind which the name of a type is due. -/
def LacksType (front : List Token) : Prop :=
  ∃ name loc mark, front = [⟨.identifier name, loc⟩, ⟨.symbol .colon, mark⟩]

theorem spells_statement_of_read {ts : List Token} {stmt : Stmt} (h : read ts = [stmt]) (hwhole : stmt.whole = true) :
    Spells .statement ts [stmt] := by
  have hprogram : Spells .program ts [stmt] := spells_iff_read.2 ⟨by simp [h, wholeAll, hwhole], h.symm⟩
  cases hprogram with
  | cons hfirst hrest =>
      cases hrest
      rwa [List.append_nil]

theorem Unfinished.of_read {front : List Token} {stmt : Stmt} (back : List Token) (hne : front ≠ [])
    (hread : read (front ++ back) = [stmt]) (hwhole : stmt.whole = true) (hsimple : stmt.simple = true)
    (hfront : wholeAll (read front) = false) : Unfinished front := by
  refine ⟨hne, ⟨back, stmt, spells_statement_of_read hread hwhole, hsimple⟩, fun other h => ?_⟩
  have hprogram := Spells.cons h .nil
  rw [List.append_nil] at hprogram
  exact absurd (spells_iff_read.1 hprogram).1 (by simp [hfront])

/-- The goal is inside an expression for the purpose. -/
inductive Goal.Within (purpose : Purpose) : Goal → Prop where
  | operand (hole : Hole) : Within purpose (.operand purpose hole)
  | operator (formula : Formula) : Within purpose (.operator purpose formula)

/-- A reader for which an expression is due is inside it behind the tokens. -/
def LeadsInside (ts : List Token) : Prop :=
  ∀ (r : Reader) (purpose : Purpose) (hole : Hole), r.goal = .operand purpose hole →
    ∃ prev goal, ts.foldl Reader.next r = { r with prev := prev, goal := goal } ∧ goal.Within purpose

theorem outer_extend (formula : Formula) (op : MathOp) (loc : Location) :
    (formula.extend op loc).outer = formula.outer := by
  unfold Formula.extend
  split <;> rfl

theorem next_operand_openParen {r : Reader} {purpose : Purpose} {hole : Hole} (hgoal : r.goal = .operand purpose hole)
    (loc : Location) :
    r.next ⟨.symbol .openParen, loc⟩ = r.take ⟨.symbol .openParen, loc⟩ (.operand purpose hole.nest) :=
  Reader.next_operand hgoal _

/-- A reader that is given an expression is behind it, at the same depth of parentheses. -/
theorem SpellsExpr.passes {rank : Rank} {ts : List Token} {e : Expr Unit} (h : SpellsExpr rank ts e) :
    ∀ (r : Reader) (purpose : Purpose) (hole : Hole), r.goal = .operand purpose hole →
      ∃ prev formula, ts.foldl Reader.next r = { r with prev := prev, goal := .operator purpose formula } ∧
        formula.outer = hole.outer := by
  induction h with
  | int value loc => exact fun r purpose hole hgoal => ⟨loc, _, Reader.next_operand hgoal _, rfl⟩
  | string text loc => exact fun r purpose hole hgoal => ⟨loc, _, Reader.next_operand hgoal _, rfl⟩
  | var name loc => exact fun r purpose hole hgoal => ⟨loc, _, Reader.next_operand hgoal _, rfl⟩
  | group start finish h ih =>
      intro r purpose hole hgoal
      obtain ⟨prev, formula, hread, houter⟩ :=
        ih (r.take ⟨.symbol .openParen, start⟩ (.operand purpose hole.nest)) purpose _ rfl
      refine ⟨finish, formula.close hole.level hole.outer, ?_, rfl⟩
      rw [List.cons_append, List.foldl_cons, next_operand_openParen hgoal, List.foldl_append, hread]
      simp [Reader.next, MathOp.ofLexeme?, houter, Hole.nest, Reader.require, Reader.take]
  | factor h ih => exact ih
  | term h ih => exact ih
  | product hleft hop hrank hright ihleft ihright | sum hleft hop hrank hright ihleft ihright =>
      rename_i us vs left right t op
      intro r purpose hole hgoal
      obtain ⟨prev, formula, hread, houter⟩ := ihleft r purpose hole hgoal
      rw [List.foldl_append, List.foldl_cons, hread, next_operator_of_math rfl hop]
      obtain ⟨last, later, hlast, hlater⟩ :=
        ihright (Reader.take _ t (.operand purpose (formula.extend op t.loc))) purpose _ rfl
      exact ⟨last, later, hlast, hlater.trans ((outer_extend formula op t.loc).trans houter)⟩

theorem LeadsInside.nil : LeadsInside [] :=
  fun r _ hole hgoal => ⟨r.prev, r.goal, rfl, hgoal ▸ .operand hole⟩

theorem SpellsExpr.leadsInside {rank : Rank} {ts : List Token} {e : Expr Unit} (h : SpellsExpr rank ts e) :
    LeadsInside ts := by
  intro r purpose hole hgoal
  obtain ⟨prev, formula, hread, -⟩ := h.passes r purpose hole hgoal
  exact ⟨prev, _, hread, .operator formula⟩

theorem leadsInside_of_singleton {us : List Token} {t : Token} {e : Expr Unit} (h : SpellsExpr .factor [t] e)
    (hus : us <+: [t]) : LeadsInside us := by
  rcases List.prefix_cons_iff.1 hus with rfl | ⟨ws, rfl, hws⟩
  · exact .nil
  · obtain rfl := List.prefix_nil.1 hws
    exact h.leadsInside

theorem isPrefix_append_cons {us ts vs : List Token} {t : Token} (h : us <+: ts ++ t :: vs) :
    us <+: ts ∨ ∃ ws, us = ts ++ t :: ws ∧ ws <+: vs := by
  obtain ⟨rest, hrest⟩ := h
  rcases List.append_eq_append_iff.1 hrest with ⟨ws, rfl, -⟩ | ⟨ws, rfl, hws⟩
  · exact .inl (List.prefix_append us ws)
  · cases ws with
    | nil => exact .inl (by simp)
    | cons w ws =>
        obtain ⟨rfl, rfl⟩ := List.cons.inj hws
        exact .inr ⟨ws, rfl, List.prefix_append ws rest⟩

/-- A reader that is given only the beginning of an expression is inside it as well. -/
theorem SpellsExpr.leadsInside_of_isPrefix {rank : Rank} {ts : List Token} {e : Expr Unit} (h : SpellsExpr rank ts e) :
    ∀ us, us <+: ts → LeadsInside us := by
  induction h with
  | int value loc => exact fun us hus => leadsInside_of_singleton (.int value loc) hus
  | string text loc => exact fun us hus => leadsInside_of_singleton (.string text loc) hus
  | var name loc => exact fun us hus => leadsInside_of_singleton (.var name loc) hus
  | group start finish h ih =>
      intro us hus
      rw [List.cons_append] at hus
      rcases List.prefix_cons_iff.1 hus with rfl | ⟨ws, rfl, hws⟩
      · exact .nil
      rcases List.prefix_concat_iff.1 hws with rfl | hws
      · exact (SpellsExpr.group start finish h).leadsInside
      · intro r purpose hole hgoal
        rw [List.foldl_cons, next_operand_openParen hgoal]
        exact ih ws hws (r.take _ (.operand purpose hole.nest)) purpose _ rfl
  | factor h ih => exact ih
  | term h ih => exact ih
  | product hleft hop hrank hright ihleft ihright | sum hleft hop hrank hright ihleft ihright =>
      rename_i ts _ _ _ t op
      intro us hus
      rcases isPrefix_append_cons hus with hus | ⟨ws, rfl, hws⟩
      · exact ihleft us hus
      · intro r purpose hole hgoal
        obtain ⟨prev, formula, hread, -⟩ := hleft.passes r purpose hole hgoal
        rw [List.foldl_append, List.foldl_cons, hread, next_operator_of_math rfl hop]
        exact ihright ws hws (Reader.take _ t (.operand purpose (formula.extend op t.loc))) purpose _ rfl

/-! ### Readers that do not take the next line -/

/-- The reader is in its first statement, which starts on the line, and breaks it off in front of a print statement. -/
structure Reader.Stuck (r : Reader) (line : Int) : Prop where
  frames_eq : r.frames = []
  body_eq : r.body = []
  arms_eq : r.arms = []
  start_eq : r.start = line
  rejects : ∃ expected, ∀ t : Token, t.lexeme = .symbol .printWord → r.next t = r.reject t expected

/-- Inside an expression, a print statement is not taken, unless the expression and its statement could end there. -/
theorem Goal.Within.rejects {r : Reader} {purpose : Purpose} (h : r.goal.Within purpose)
    (hpurpose : purpose.inBranch = false) :
    (∃ expected, ∀ t : Token, t.lexeme = .symbol .printWord → r.next t = r.reject t expected) ∨
    ∃ formula stmt, r.goal = .operator purpose formula ∧ formula.outer = [] ∧ purpose.stmt? formula.value = some stmt ∧
      stmt.whole = true := by
  generalize hgoal : r.goal = goal at h
  cases h with
  | operand hole => exact .inl ⟨.operand, fun t ht => by simp [Reader.next_operand hgoal, operand?, ht]⟩
  | operator formula =>
      cases houter : formula.outer with
      | cons level outer =>
          refine .inl ⟨.symbol .closeParen, fun t ht => ?_⟩
          simp [Reader.next, hgoal, houter, Reader.require, ht, MathOp.ofLexeme?]
      | nil =>
          cases purpose with
          | print loc =>
              refine .inl ⟨.symbol .closeParen, fun t ht => ?_⟩
              simp [Reader.next, hgoal, houter, Reader.settle, Reader.require, ht, MathOp.ofLexeme?]
          | infer name loc => exact .inr ⟨formula, _, rfl, houter, rfl, rfl⟩
          | initial name type loc => exact .inr ⟨formula, _, rfl, houter, rfl, rfl⟩
          | assign name loc => exact .inr ⟨formula, _, rfl, houter, rfl, rfl⟩
          | left loc => simp [Purpose.inBranch] at hpurpose
          | right loc left op opLoc => simp [Purpose.inBranch] at hpurpose

/-- An unfinished statement that breaks off inside its last expression. -/
theorem Unfinished.stuck_of_value (head : List Token) {us ts : List Token} {e : Expr Unit} {purpose : Purpose}
    {line : Int} {prev : Location} (h : Unfinished (head ++ us))
    (hhead : head.foldl Reader.next {} = { start := line, prev := prev, goal := .operand purpose {} })
    (hpurpose : purpose.inBranch = false) (hvalue : SpellsExpr .expr ts e) (hus : us <+: ts) :
    ((head ++ us).foldl Reader.next {}).Stuck line := by
  obtain ⟨last, goal, hread, hwithin⟩ :=
    hvalue.leadsInside_of_isPrefix us hus { start := line, prev := prev, goal := .operand purpose {} } purpose {} rfl
  have hfront : (head ++ us).foldl Reader.next {} = { start := line, prev := last, goal := goal } := by
    rw [List.foldl_append, hhead, hread]
  rw [hfront]
  rcases Goal.Within.rejects (r := { start := line, prev := last, goal := goal }) hwithin hpurpose with
    hrejects | ⟨formula, stmt, rfl, houter, hstmt, hwhole⟩
  · exact ⟨rfl, rfl, rfl, rfl, hrejects⟩
  · -- Otherwise the statement could end here.
    refine absurd (spells_statement_of_read ?_ hwhole) (h.incomplete stmt)
    rw [read, hfront]
    simp only [Reader.finish, Reader.endStatement, houter, Descent.settleEnd_of_stmt? hstmt, Reader.add,
      Reader.endBlocks]
    rfl

theorem stuck_name (name : String) (loc : Location) :
    ([⟨.identifier name, loc⟩].foldl Reader.next {}).Stuck loc.line := by
  refine ⟨rfl, rfl, rfl, rfl, .binder name, fun t ht => ?_⟩
  exact Descent.next_afterName_reject rfl (by simp [ht]) (by simp [ht]) (by simp [ht])

theorem stuck_print (loc : Location) : ([⟨.symbol .printWord, loc⟩].foldl Reader.next {}).Stuck loc.line := by
  refine ⟨rfl, rfl, rfl, rfl, .symbol .openParen, fun t ht => ?_⟩
  exact if_neg (by simp [ht])

/-- Only where the name of a type is due does the reader take a token that does not fit. -/
theorem Unfinished.stuck {first : Token} {front : List Token} (h : Unfinished (first :: front)) :
    LacksType (first :: front) ∨ ((first :: front).foldl Reader.next {}).Stuck first.loc.line := by
  obtain ⟨back, stmt, hspells, hsimple⟩ := h.begins
  generalize hts : first :: front ++ back = ts at hspells
  have hfront : first :: front <+: ts := ⟨back, hts⟩
  cases hspells with
  | infer name loc mark hvalue | assign name loc mark hvalue =>
      obtain ⟨rfl, hrest⟩ := List.cons_prefix_cons.1 hfront
      rcases List.prefix_cons_iff.1 hrest with rfl | ⟨us, rfl, hus⟩
      · exact .inr (stuck_name name loc)
      · exact .inr (h.stuck_of_value [_, _] rfl rfl hvalue hus)
  | declare name loc mark htype =>
      obtain ⟨rfl, hrest⟩ := List.cons_prefix_cons.1 hfront
      rcases List.prefix_cons_iff.1 hrest with rfl | ⟨us, rfl, hus⟩
      · exact .inr (stuck_name name loc)
      rcases List.prefix_cons_iff.1 hus with rfl | ⟨vs, rfl, hvs⟩
      · exact .inl ⟨name, loc, mark, rfl⟩
      · obtain rfl := List.prefix_nil.1 hvs
        exact absurd (.declare name loc mark htype) (h.incomplete _)
  | initial name loc mark equals htype hvalue =>
      rename_i t type ts value
      obtain ⟨rfl, hrest⟩ := List.cons_prefix_cons.1 hfront
      rcases List.prefix_cons_iff.1 hrest with rfl | ⟨us, rfl, hus⟩
      · exact .inr (stuck_name name loc)
      rcases List.prefix_cons_iff.1 hus with rfl | ⟨vs, rfl, hvs⟩
      · exact .inl ⟨name, loc, mark, rfl⟩
      rcases List.prefix_cons_iff.1 hvs with rfl | ⟨ws, rfl, hws⟩
      · exact absurd (.declare name loc mark htype) (h.incomplete _)
      · have hhead :
            [⟨.identifier name, loc⟩, ⟨.symbol .colon, mark⟩, t, ⟨.symbol .assign, equals⟩].foldl Reader.next {} =
            { start := loc.line, prev := equals, goal := .operand (.initial name type loc) {} } := by
          simp [Reader.next, Reader.begin, Reader.take, htype]
        exact .inr (h.stuck_of_value [_, _, _, _] hhead rfl hvalue hws)
  | print loc start finish hvalue =>
      obtain ⟨rfl, hrest⟩ := List.cons_prefix_cons.1 hfront
      rcases List.prefix_cons_iff.1 hrest with rfl | ⟨us, rfl, hus⟩
      · exact .inr (stuck_print loc)
      rcases List.prefix_concat_iff.1 hus with rfl | hus
      · exact absurd (.print loc start finish hvalue) (h.incomplete _)
      · exact .inr (h.stuck_of_value [_, _] rfl rfl hvalue hus)
  | ofConditional hinner => cases hinner <;> simp [Stmt.simple] at hsimple
  | ofBlock hinner =>
      cases hinner
      simp [Stmt.simple] at hsimple

/-! ### Reading on -/

/-- A reader outside blocks adds what is read from the tokens alone. -/
theorem finish_foldl_next {r : Reader} (hready : Descent.Ready r false) (hprev : r.prev = .origin)
    (tokens : List Token) : (tokens.foldl Reader.next r).finish = r.body.reverse ++ read tokens := by
  obtain ⟨stmts, hcomes, -, hfinish⟩ := Descent.comes_scanStatements hready hprev tokens
  rw [hfinish, (hcomes.unique (Descent.comes_scanStatements_read tokens)).1]

/-- The first statement is reported, and reading goes on with the next line. -/
theorem Reader.Stuck.read_append {front : List Token} {line : Int} (h : (front.foldl Reader.next {}).Stuck line)
    {t : Token} (ht : t.lexeme = .symbol .printWord) (hline : line < t.loc.line)
    (hprev : (front.foldl Reader.next {}).prev.line < t.loc.line) (rest : List Token) :
    ∃ fault, read (front ++ t :: rest) = .broken [] fault :: read (t :: rest) := by
  obtain ⟨expected, hrejects⟩ := h.rejects
  let broken : Reader := { body := [.broken [] ⟨t.loc, expected, some t.lexeme⟩] }
  refine ⟨⟨t.loc, expected, some t.lexeme⟩, ?_⟩
  generalize hr : front.foldl Reader.next {} = r at *
  have hlater : ¬ t.loc.line ≤ max r.start r.prev.line := by
    rw [h.start_eq]
    omega
  have hbegin : r.next t = broken.next t := by
    rw [hrejects t ht, Reader.reject, Reader.skipOr, if_neg hlater, next_of_start rfl]
    apply begin_congr
    · exact h.frames_eq
    · simp [Reader.fail, h.arms_eq, h.body_eq, broken]
    · rfl
  have hrest := finish_foldl_next (r := broken) ⟨rfl, rfl, fun _ => rfl⟩ rfl (t :: rest)
  rw [List.foldl_cons, ← hbegin] at hrest
  rw [read, List.foldl_append, List.foldl_cons, hr, hrest]
  rfl

/-- Tokens on lines that are skipped are as good as absent. -/
theorem finish_foldl_skip {r : Reader} {line : Int} (hgoal : r.goal = .skip line) (hframes : r.frames = [])
    (harms : r.arms = []) (tokens : List Token) :
    (tokens.foldl Reader.next r).finish = r.body.reverse ++ read (tokens.dropWhile fun t => t.loc.line ≤ line) := by
  induction tokens generalizing r with
  | nil => simp [Reader.finish, Reader.endStatement, hgoal, hframes, Reader.endBlocks, read]
  | cons t rest ih =>
      rw [List.foldl_cons, List.dropWhile_cons]
      split
      · next hle =>
          have hnext : r.next t = { r with prev := t.loc } := by
            simp only [Reader.next, hgoal, Reader.skipOr, if_pos (of_decide_eq_true hle)]
          rw [hnext]
          exact ih hgoal hframes harms
      · next hgt =>
          have hnext : r.next t = Reader.next { body := r.body } t := by
            simp only [Reader.next, hgoal, Reader.skipOr, if_neg (show ¬ t.loc.line ≤ line by simpa using hgt)]
            apply Reader.begin_congr
            · exact hframes
            · rfl
            · exact harms
          rw [hnext, ← List.foldl_cons]
          exact finish_foldl_next (r := { body := r.body }) ⟨rfl, rfl, fun _ => rfl⟩ rfl (t :: rest)

/-- Behind a name and a colon the next line is skipped together with its first token. -/
theorem LacksType.read_append {front : List Token} (h : LacksType front) {t : Token}
    (ht : t.lexeme = .symbol .printWord) (hline : ∀ t' ∈ front, t'.loc.line < t.loc.line) (rest : List Token) :
    ∃ fault, read (front ++ t :: rest) =
      .broken [] fault :: read (rest.dropWhile fun t' => t'.loc.line ≤ t.loc.line) := by
  obtain ⟨name, loc, mark, rfl⟩ := h
  refine ⟨⟨t.loc, .typeName, some t.lexeme⟩, ?_⟩
  have hmax : max loc.line t.loc.line = t.loc.line := by
    have := hline ⟨.identifier name, loc⟩ (by simp)
    dsimp only at this
    omega
  have hrefuse : [⟨.identifier name, loc⟩, ⟨.symbol .colon, mark⟩, t].foldl Reader.next {} =
      { body := [.broken [] ⟨t.loc, .typeName, some t.lexeme⟩], start := loc.line, prev := t.loc,
        goal := .skip t.loc.line } := by
    simp [Reader.next, Reader.begin, Reader.take, Reader.refuse, Reader.fail, ht, Ty.ofLexeme?, Ty.ofSymbol?, hmax]
  have hskip := finish_foldl_skip (congrArg Reader.goal hrefuse) (congrArg Reader.frames hrefuse)
    (congrArg Reader.arms hrefuse) rest
  rw [← List.foldl_append] at hskip
  rw [read]
  exact hskip.trans (by rw [hrefuse]; rfl)

theorem Unfinished.read_append {front : List Token} (h : Unfinished front) (hlacks : ¬ LacksType front) {t : Token}
    (ht : t.lexeme = .symbol .printWord) (hline : ∀ t' ∈ front, t'.loc.line < t.loc.line) (rest : List Token) :
    ∃ fault, read (front ++ t :: rest) = .broken [] fault :: read (t :: rest) := by
  cases front with
  | nil => exact absurd rfl h.ne_nil
  | cons first front =>
      have hstuck := h.stuck.resolve_left hlacks
      have hlast := List.getLast?_eq_some_getLast (l := first :: front) (by simp)
      refine hstuck.read_append ht (hline first (by simp)) ?_ rest
      rw [Reader.prev_foldl hlast]
      exact hline _ (List.getLast_mem _)

end Grammar

namespace Assembly

open Grammar

/-- A statement that has broken off without blocks leaves nothing but a fault. -/
theorem read_of_broken (name : String) {tokens later : List Token} {fault : Located Fault}
    (h : Grammar.read tokens = .broken [] fault :: Grammar.read later) :
    (read name tokens).file = (read name later).file ∧
      (read name tokens).faults.length = 1 + (read name later).faults.length := by
  constructor
  · simp [read, h, resolveAll, Stmt.resolve]
  · rw [length_faults_read, length_faults_read, h, breaksAll_cons, List.length_append]
    simp [Stmt.breaks]

/-- Behind a statement without blocks that is left unfinished, the next line is read as if it stood alone, and
one fault is reported; except that behind a name and a colon the next line is skipped. -/
theorem read_resumes_behind_unfinished (name : String) {front rest : List Token} {first : Token}
    (hfront : Unfinished front) (hline : ∀ t ∈ front, t.loc.line < first.loc.line)
    (hfirst : first.lexeme = .symbol .printWord) (hrest : (read name (first :: rest)).faults = []) :
    (¬ LacksType front →
      (read name (front ++ first :: rest)).faults.length = 1 ∧
      (read name (front ++ first :: rest)).file = (read name (first :: rest)).file) ∧
    (LacksType front →
      let later := rest.dropWhile fun t => t.loc.line ≤ first.loc.line
      (read name (front ++ first :: rest)).faults.length = 1 + (read name later).faults.length ∧
      (read name (front ++ first :: rest)).file = (read name later).file) := by
  constructor
  · intro hlacks
    obtain ⟨fault, hread⟩ := hfront.read_append hlacks hfirst hline rest
    obtain ⟨hfile, hfaults⟩ := read_of_broken name hread
    exact ⟨by rw [hfaults, hrest]; rfl, hfile⟩
  · intro hlacks
    obtain ⟨fault, hread⟩ := hlacks.read_append hfirst hline rest
    exact (read_of_broken name hread).symm

/-- An initial value that breaks off behind an operator and inside a parenthesis. -/
def openSum : List Token :=
  [⟨.identifier "x", ⟨0, 0⟩⟩, ⟨.symbol .infer, ⟨0, 2⟩⟩, ⟨.symbol .openParen, ⟨0, 5⟩⟩, ⟨.integer 1, ⟨0, 6⟩⟩,
    ⟨.symbol .plus, ⟨0, 8⟩⟩]

/-- A declaration that breaks off behind its colon. -/
def openDeclaration : List Token :=
  [⟨.identifier "x", ⟨0, 0⟩⟩, ⟨.symbol .colon, ⟨0, 2⟩⟩]

/-- A print statement on the second line, behind its keyword. -/
def printed : List Token :=
  [⟨.symbol .openParen, ⟨1, 5⟩⟩, ⟨.integer 1, ⟨1, 6⟩⟩, ⟨.symbol .closeParen, ⟨1, 7⟩⟩]

theorem unfinished_openSum : Unfinished openSum :=
  .of_read [⟨.integer 2, ⟨0, 10⟩⟩, ⟨.symbol .closeParen, ⟨0, 11⟩⟩] (by decide) rfl rfl rfl rfl

theorem unfinished_openDeclaration : Unfinished openDeclaration :=
  .of_read [⟨.symbol .intWord, ⟨0, 4⟩⟩] (by decide) rfl rfl rfl rfl

/-- The print statement behind the broken sum is kept. -/
theorem resumes_behind_openSum :
    let first : Token := ⟨.symbol .printWord, ⟨1, 0⟩⟩
    Unfinished openSum ∧ (∀ t ∈ openSum, t.loc.line < first.loc.line) ∧ (read "a" (first :: printed)).faults = [] ∧
    (read "a" (openSum ++ first :: printed)).faults.length = 1 ∧
    (read "a" (openSum ++ first :: printed)).file = (read "a" (first :: printed)).file := by
  have hline : ∀ t ∈ openSum, t.loc.line < 1 := by decide
  have hfaults : (read "a" (⟨.symbol .printWord, ⟨1, 0⟩⟩ :: printed)).faults = [] := by decide
  have hlacks : ¬ LacksType openSum := by
    rintro ⟨name, loc, mark, h⟩
    simp [openSum] at h
  exact ⟨unfinished_openSum, hline, hfaults,
    (read_resumes_behind_unfinished "a" unfinished_openSum hline rfl hfaults).1 hlacks⟩

/-- The print statement behind the colon is swallowed. -/
theorem swallowed_behind_openDeclaration :
    let first : Token := ⟨.symbol .printWord, ⟨1, 0⟩⟩
    Unfinished openDeclaration ∧ (∀ t ∈ openDeclaration, t.loc.line < first.loc.line) ∧
    (read "a" (first :: printed)).faults = [] ∧ (read "a" (first :: printed)).file.body.length = 1 ∧
    (read "a" (openDeclaration ++ first :: printed)).faults.length = 1 ∧
    (read "a" (openDeclaration ++ first :: printed)).file.body = [] :=
  ⟨unfinished_openDeclaration, by decide, by decide, rfl, by decide, rfl⟩

end Assembly

end Lai
