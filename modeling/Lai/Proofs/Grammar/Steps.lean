import Lai.Grammar.Reader
/-!
# What reading a token can do

A token either goes on with the statement being read, opens or closes a block, ends the statement and
begins the next one, or breaks the statement off. What is kept by each of these is kept by the reader
whatever it reads.
-/

namespace Lai.Grammar

/-- The operand that a single token is. -/
def operand? (t : Token) : Option (Expr Unit) :=
  match t.lexeme with
  | .integer value => some (.int value t.loc)
  | .string text => some (.string text t.loc)
  | .identifier name => some (.var name () t.loc)
  | _ => none

/-- The statement whose last part is an expression read for the purpose. -/
def Purpose.stmt? : Purpose → Expr Unit → Option Stmt
  | .infer name loc, value => some (.infer name value loc)
  | .initial name type loc, value => some (.declare name type (some value) loc)
  | .assign name loc, value => some (.assign name value loc)
  | _, _ => none

/-- What may follow within the statement after the token. -/
inductive Goal.Leads (t : Token) : Goal → Goal → Prop where
  | infer {name : String} {loc : Location} (ht : t.lexeme = .symbol .infer) :
      Leads t (.afterName name loc) (.operand (.infer name loc) {})
  | colon {name : String} {loc : Location} (ht : t.lexeme = .symbol .colon) :
      Leads t (.afterName name loc) (.afterColon name loc)
  | assign {name : String} {loc : Location} (ht : t.lexeme = .symbol .assign) :
      Leads t (.afterName name loc) (.operand (.assign name loc) {})
  | typeName {name : String} {loc : Location} {type : Ty} (ht : Ty.ofLexeme? t.lexeme = some type) :
      Leads t (.afterColon name loc) (.afterType name type loc)
  | initial {name : String} {type : Ty} {loc : Location} (ht : t.lexeme = .symbol .assign) :
      Leads t (.afterType name type loc) (.operand (.initial name type loc) {})
  | print {loc : Location} (ht : t.lexeme = .symbol .openParen) :
      Leads t (.afterPrint loc) (.operand (.print loc) {})
  | test {loc : Location} (ht : t.lexeme = .symbol .openParen) : Leads t (.afterIf loc) (.operand (.left loc) {})
  | fill {purpose : Purpose} {hole : Hole} {e : Expr Unit} (ht : operand? t = some e) :
      Leads t (.operand purpose hole) (.operator purpose (hole.fill e))
  | nest {purpose : Purpose} {hole : Hole} (ht : t.lexeme = .symbol .openParen) :
      Leads t (.operand purpose hole) (.operand purpose hole.nest)
  | extend {purpose : Purpose} {formula : Formula} {op : MathOp} (ht : MathOp.ofLexeme? t.lexeme = some op) :
      Leads t (.operator purpose formula) (.operand purpose (formula.extend op t.loc))
  | close {purpose : Purpose} {formula : Formula} {level : Level} {outer : List Level}
      (houter : formula.outer = level :: outer) (ht : t.lexeme = .symbol .closeParen) :
      Leads t (.operator purpose formula) (.operator purpose (formula.close level outer))
  | compare {loc : Location} {formula : Formula} {op : CompareOp} (houter : formula.outer = [])
      (ht : CompareOp.ofLexeme? t.lexeme = some op) :
      Leads t (.operator (.left loc) formula) (.operand (.right loc formula.value op t.loc) {})
  | tested {loc opLoc : Location} {left : Expr Unit} {op : CompareOp} {formula : Formula} (houter : formula.outer = [])
      (ht : t.lexeme = .symbol .closeParen) :
      Leads t (.operator (.right loc left op opLoc) formula) (.afterCondition loc ⟨op, left, formula.value, opLoc⟩)
  | otherwise (ht : t.lexeme = .symbol .elseWord) : Leads t .afterThen .afterElse
  | elseIf (ht : t.lexeme = .symbol .ifWord) : Leads t .afterElse (.afterIf t.loc)

/-- What follows a first token of a statement. -/
inductive Goal.Starts (t : Token) : Goal → Prop where
  | name {name : String} (ht : t.lexeme = .identifier name) : Starts t (.afterName name t.loc)
  | print (ht : t.lexeme = .symbol .printWord) : Starts t (.afterPrint t.loc)
  | test (ht : t.lexeme = .symbol .ifWord) : Starts t (.afterIf t.loc)

/-- The blocks that an if statement asks for. -/
inductive Opening.Due : Opening → Goal → Prop where
  | branch {loc : Location} {cond : Condition Unit} : Due (.branch loc cond) (.afterCondition loc cond)
  | otherwise : Due .otherwise .afterElse

namespace Reader

/-- The reader with the statement being read, if any, ended where it can end. -/
inductive Ended (r : Reader) : Reader → Prop where
  | start (hgoal : r.goal = .start) : Ended r r
  | declare {name : String} {type : Ty} {loc : Location} (hgoal : r.goal = .afterType name type loc) :
      Ended r (r.add (.declare name type none loc))
  | value {purpose : Purpose} {formula : Formula} {stmt : Stmt} (hgoal : r.goal = .operator purpose formula)
      (houter : formula.outer = []) (hstmt : purpose.stmt? formula.value = some stmt) : Ended r (r.add stmt)
  | branches (hgoal : r.goal = .afterThen) : Ended r (r.addBranches none)

/-- What the first token of a statement, or a brace after the last statement of a block, can do. -/
inductive Start (r : Reader) (t : Token) : Reader → Prop where
  | take {goal : Goal} (hgoal : goal.Starts t) : Start r t (r.take t goal)
  | openBlock (ht : t.lexeme = .symbol .openBrace) : Start r t (r.openBlock t .plain)
  | closeBlock {frame : Frame} {frames : List Frame} (ht : t.lexeme = .symbol .closeBrace)
      (hframes : r.frames = frame :: frames) : Start r t (r.closeBlock t frame frames)
  | refuse : Start r t (r.refuse t .statement)

/-- What a token can do. -/
inductive Step (r : Reader) (t : Token) : Reader → Prop where
  | take {goal : Goal} (hgoal : r.goal.Leads t goal) : Step r t (r.take t goal)
  | print {loc : Location} {formula : Formula} (hgoal : r.goal = .operator (.print loc) formula)
      (houter : formula.outer = []) (ht : t.lexeme = .symbol .closeParen) :
      Step r t ((r.take t .start).add (.print formula.value loc))
  | openBlock {opening : Opening} (hdue : opening.Due r.goal) (ht : t.lexeme = .symbol .openBrace) :
      Step r t (r.openBlock t opening)
  | begin {ended : Reader} (hended : r.Ended ended) : Step r t (ended.begin t)
  | refuse (expected : Expected) : Step r t (r.refuse t expected)
  | reject (expected : Expected) : Step r t (r.reject t expected)
  | skip {line : Int} (hgoal : r.goal = .skip line) : Step r t (r.skipOr line t)

theorem start_begin (r : Reader) (t : Token) : Start { r with start := t.loc.line } t (r.begin t) := by
  unfold begin
  dsimp only
  split
  · exact .take (.name ‹_›)
  · exact .take (.print ‹_›)
  · exact .take (.test ‹_›)
  · exact .openBlock ‹_›
  · split
    · exact .closeBlock ‹_› ‹_›
    · exact .refuse
  · exact .refuse

theorem step_require {r after : Reader} {t : Token} {s : Symbol} (h : t.lexeme = .symbol s → r.Step t after) :
    r.Step t (r.require t s after) := by
  unfold require
  split
  · exact h ‹_›
  · exact .reject _

theorem step_settle {r : Reader} {purpose : Purpose} {formula : Formula} (t : Token)
    (hgoal : r.goal = .operator purpose formula) (houter : formula.outer = []) :
    r.Step t (r.settle purpose formula.value t) := by
  cases purpose with
  | infer name loc => exact .begin (.value hgoal houter rfl)
  | initial name type loc => exact .begin (.value hgoal houter rfl)
  | assign name loc => exact .begin (.value hgoal houter rfl)
  | print loc => exact step_require fun ht => .print hgoal houter ht
  | left loc =>
      simp only [settle]
      split
      · exact .take (by rw [hgoal]; exact .compare houter ‹_›)
      · exact .refuse _
  | right loc left op opLoc =>
      apply step_require
      intro ht
      exact .take (by rw [hgoal]; exact .tested houter ht)

/-- What a reader that waits for an operand does. -/
theorem next_operand {r : Reader} {purpose : Purpose} {hole : Hole} (hgoal : r.goal = .operand purpose hole) (t : Token) :
    r.next t = match operand? t with
      | some e => r.take t (.operator purpose (hole.fill e))
      | none =>
        if t.lexeme = .symbol .openParen then r.take t (.operand purpose hole.nest) else r.reject t .operand := by
  obtain ⟨lexeme, loc⟩ := t
  rw [next, hgoal]
  cases lexeme with
  | symbol s => cases s <;> rfl
  | _ => rfl

theorem step_operand {r : Reader} (t : Token) {purpose : Purpose} {hole : Hole} (hgoal : r.goal = .operand purpose hole) :
    r.Step t (r.next t) := by
  have htake {goal : Goal} (hleads : Goal.Leads t (.operand purpose hole) goal) : r.Step t (r.take t goal) :=
    .take (hgoal ▸ hleads)
  rw [next_operand hgoal]
  split
  · exact htake (.fill ‹_›)
  · split
    · exact htake (.nest ‹_›)
    · exact .reject _

theorem step_next (r : Reader) (t : Token) : r.Step t (r.next t) := by
  have htake {goal goal' : Goal} (hgoal : r.goal = goal) (hleads : goal.Leads t goal') : r.Step t (r.take t goal') :=
    .take (hgoal ▸ hleads)
  unfold next
  split
  · exact .begin (.start ‹_›)
  · exact .skip ‹_›
  · rename_i hgoal
    split
    · exact htake hgoal (.infer ‹_›)
    · exact htake hgoal (.colon ‹_›)
    · exact htake hgoal (.assign ‹_›)
    · exact .reject _
  · rename_i hgoal
    split
    · exact htake hgoal (.typeName ‹_›)
    · exact .refuse _
  · rename_i hgoal
    split
    · exact htake hgoal (.initial ‹_›)
    · exact .begin (.declare hgoal)
  · rename_i hgoal
    exact step_require fun ht => htake hgoal (.print ht)
  · rename_i hgoal
    exact step_require fun ht => htake hgoal (.test ht)
  · rename_i hgoal
    have hoperand := step_operand t hgoal
    rwa [next, hgoal] at hoperand
  · rename_i hgoal
    split
    · exact htake hgoal (.extend ‹_›)
    · split
      · rename_i houter
        exact step_require fun ht => htake hgoal (.close houter ht)
      · exact step_settle t hgoal ‹_›
  · rename_i hgoal
    exact step_require fun ht => .openBlock (hgoal ▸ .branch) ht
  · rename_i hgoal
    split
    · exact htake hgoal (.otherwise ‹_›)
    · exact .begin (.branches hgoal)
  · rename_i hgoal
    split
    · exact htake hgoal (.elseIf ‹_›)
    · exact step_require fun ht => .openBlock (hgoal ▸ .otherwise) ht

/-- What the end of the text can do to the statement being read: end it, drop nothing more, or break it
off at the last token. -/
theorem endStatement_cases (r : Reader) :
    r.Ended r.endStatement ∨ (∃ line, r.goal = .skip line ∧ r.endStatement = r) ∨
      ∃ loc expected, (loc = r.prev ∨ ∃ name, r.goal = .afterName name loc) ∧ r.endStatement = r.fail loc expected none := by
  have hbroken (expected : Expected) : ∃ loc expected', (loc = r.prev ∨ ∃ name, r.goal = .afterName name loc) ∧
      r.fail r.prev expected none = r.fail loc expected' none := ⟨r.prev, expected, .inl rfl, rfl⟩
  unfold endStatement
  split
  · exact .inl (.start ‹_›)
  · exact .inr (.inl ⟨_, ‹_›, rfl⟩)
  · rename_i name loc hgoal
    exact .inr (.inr ⟨loc, _, .inr ⟨name, hgoal⟩, rfl⟩)
  · exact .inr (.inr (hbroken _))
  · exact .inl (.declare ‹_›)
  · exact .inr (.inr (hbroken _))
  · exact .inr (.inr (hbroken _))
  · exact .inr (.inr (hbroken _))
  · rename_i purpose formula hgoal
    split
    · exact .inr (.inr (hbroken _))
    · rename_i houter
      cases purpose with
      | infer name loc => exact .inl (.value hgoal houter rfl)
      | initial name type loc => exact .inl (.value hgoal houter rfl)
      | assign name loc => exact .inl (.value hgoal houter rfl)
      | print loc => exact .inr (.inr (hbroken _))
      | left loc => exact .inr (.inr (hbroken _))
      | right loc left op opLoc => exact .inr (.inr (hbroken _))
  · exact .inr (.inr (hbroken _))
  · exact .inr (.inr (hbroken _))
  · exact .inl (.branches ‹_›)

/-! ### The last token read -/

theorem prev_closeBlock (r : Reader) (t : Token) (frame : Frame) (frames : List Frame) :
    (r.closeBlock t frame frames).prev = t.loc := by
  unfold closeBlock
  dsimp only
  split <;> rfl

theorem prev_begin (r : Reader) (t : Token) : (r.begin t).prev = t.loc := by
  have hstart := r.start_begin t
  generalize r.begin t = after at hstart
  cases hstart with
  | take hgoal => rfl
  | openBlock ht => rfl
  | closeBlock ht hframes => apply prev_closeBlock
  | refuse => rfl

theorem prev_skipOr (r : Reader) (line : Int) (t : Token) : (r.skipOr line t).prev = t.loc := by
  unfold skipOr
  split
  · rfl
  · apply prev_begin

/-- Every token is read. -/
theorem prev_next (r : Reader) (t : Token) : (r.next t).prev = t.loc := by
  have hstep := r.step_next t
  generalize r.next t = after at hstep
  cases hstep with
  | take hgoal => rfl
  | print hgoal houter ht => rfl
  | openBlock hdue ht => rfl
  | begin hended => apply prev_begin
  | refuse expected => rfl
  | reject expected => apply prev_skipOr
  | skip hgoal => apply prev_skipOr

theorem prev_foldl {r : Reader} {ts : List Token} {t : Token} (h : ts.getLast? = some t) :
    (ts.foldl next r).prev = t.loc := by
  obtain ⟨front, rfl⟩ := List.getLast?_eq_some_iff.1 h
  rw [List.foldl_append, List.foldl_cons, List.foldl_nil]
  apply prev_next

theorem Ended.prev_eq {r ended : Reader} (h : r.Ended ended) : ended.prev = r.prev := by
  cases h <;> rfl

theorem prev_endStatement (r : Reader) : r.endStatement.prev = r.prev := by
  rcases r.endStatement_cases with hended | ⟨line, hgoal, hend⟩ | ⟨loc, expected, hloc, hend⟩
  · exact hended.prev_eq
  · rw [hend]
  · rw [hend]
    rfl

end Reader

end Lai.Grammar
