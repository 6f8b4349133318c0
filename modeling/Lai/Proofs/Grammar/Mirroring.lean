import Lai.Proofs.Grammar.Descent
import Lai.Proofs.Grammar.Reading
/-!
# Descending and reading alike

While a descent takes tokens from its buffer, a reader that is given the same tokens stays in step with
it. The reader looks at a token only once it is given it, so what the descent has decided by looking ahead
the reader may still have to do: the two are compared by what the reader does with the tokens that are left.
-/

namespace Lai.Grammar

/-! ### Readers that go on alike -/

namespace Reader

variable {rest : List Token} {r middle other : Reader}

/-- Both readers do the same with what is left. -/
def Alike : List Token → Reader → Reader → Prop
  | [], r, other => r.finish = other.finish
  | t :: _, r, other => r.next t = other.next t

theorem Alike.refl (rest : List Token) (r : Reader) : Alike rest r r := by
  cases rest <;> rfl

theorem Alike.trans (h : Alike rest r middle) (h' : Alike rest middle other) : Alike rest r other := by
  cases rest with
  | nil => exact Eq.trans h h'
  | cons t rest => exact Eq.trans h h'

/-- How a statement begins depends on the blocks and the statements in front of it only. -/
theorem begin_congr (hframes : r.frames = other.frames) (hbody : r.body = other.body) (harms : r.arms = other.arms)
    (t : Token) : r.begin t = other.begin t := by
  simp only [begin, take, openBlock, closeBlock, refuse, fail, hframes, hbody, harms]

theorem alike_of_start (hgoal : r.goal = .start) (hgoal' : other.goal = .start) (hframes : r.frames = other.frames)
    (hbody : r.body = other.body) (harms : r.arms = other.arms) (hprev : r.prev = other.prev) : Alike rest r other := by
  cases rest with
  | nil => simp only [Alike, finish, endStatement, hgoal, hgoal', hframes, hbody, hprev]
  | cons t rest =>
      change r.next t = other.next t
      rw [next_of_start hgoal, next_of_start hgoal']
      exact begin_congr hframes hbody harms t

/-- A reader at the end of a statement goes on like the one behind it. -/
theorem alike_of_ended {ended : Reader} (hgoal : ended.goal = .start)
    (hnext : ∀ t, rest.head? = some t → r.next t = ended.begin t) (hend : rest = [] → r.endStatement = ended) :
    Alike rest r ended := by
  cases rest with
  | nil =>
      have hself : ended.endStatement = ended := by simp only [endStatement, hgoal]
      simp only [Alike, finish, hend rfl, hself]
  | cons t rest => exact (hnext t rfl).trans (next_of_start hgoal t).symm

/-- The second reader is inside the same statement as the first one. -/
structure Within (r other : Reader) : Prop where
  frames_eq : other.frames = r.frames
  body_eq : other.body = r.body
  arms_eq : other.arms = r.arms
  start_eq : other.start = r.start

/-- The reader behind its statement, which has broken off when the last token read was at `prev`. -/
def brokenOff (r : Reader) (prev : Location) (e : Break) : Reader :=
  { r with
    body := .broken (r.arms.reverse.map Arm.block ++ e.blocks) e.fault :: r.body
    arms := []
    prev := prev
    goal := .skip (max r.start prev.line) }

theorem Within.brokenOff_eq (h : r.Within other) (prev : Location) (e : Break) :
    other.brokenOff prev e = r.brokenOff prev e := by
  simp only [brokenOff, h.frames_eq, h.body_eq, h.arms_eq, h.start_eq]

theorem fail_eq_brokenOff (r : Reader) (loc : Location) (expected : Expected) (found : Option Lexeme) :
    r.fail loc expected found = r.brokenOff r.prev ⟨[], loc, expected, found⟩ := by
  simp [fail, brokenOff]

theorem refuse_eq_brokenOff (r : Reader) (t : Token) (expected : Expected) :
    r.refuse t expected = r.brokenOff t.loc ⟨[], t.loc, expected, some t.lexeme⟩ := by
  simp [refuse, take, fail, brokenOff]

/-- A reader that does not accept what follows breaks off in front of it. -/
theorem alike_brokenOff {b : Buffer} {expected : Expected} (hprev : r.prev = b.prev)
    (hnext : ∀ t, b.rest.head? = some t → r.next t = r.reject t expected)
    (hend : b.rest = [] → r.endStatement = r.fail r.prev expected none) :
    Alike b.rest r (r.brokenOff b.prev ⟨[], b.fault expected b.rest.head?⟩) := by
  obtain ⟨taken, rest⟩ := b
  rw [← hprev]
  cases rest with
  | nil =>
      have hfail := fail_eq_brokenOff r r.prev expected none
      simp only [Alike, finish, hend rfl, hfail, Buffer.fault, List.head?_nil, ← hprev]
      rfl
  | cons t rest =>
      change r.next t = _
      rw [hnext t rfl, reject, fail_eq_brokenOff]
      rfl

/-- The reader has to find the symbol next, and then goes on as stated. -/
structure Demands (r : Reader) (s : Symbol) (rest : List Token) (after : Token → Reader) : Prop where
  next_eq : ∀ t, rest.head? = some t → r.next t = r.require t s (after t)
  end_eq : rest = [] → r.endStatement = r.fail r.prev (.symbol s) none

end Reader

namespace Descent

open Reader

/-- From where the buffer was `front` and the reader `first`, the reader has come so far that it does the same as `r`
with what is left in the buffer. -/
structure Mirrors (front : Buffer) (first : Reader) (b : Buffer) (r : Reader) : Prop where
  prev_eq : r.prev = b.prev
  reads : ∃ ts, b.taken = front.taken ++ ts ∧ front.rest = ts ++ b.rest ∧ Alike b.rest (ts.foldl Reader.next first) r

/-- What a scan within the statement of the reader `r` comes to: a value, with fewer tokens left than the bound and
what else is stated; or a break without blocks, which is the reader's as well. -/
def Yields {α : Type} (front : Buffer) (first r : Reader) (bound : Nat) (good : α → Buffer → Prop) :
    Except Break α → Buffer → Prop
  | .ok a, after => after.rest.length < bound ∧ good a after
  | .error e, after => after.rest.length ≤ bound ∧ e.blocks = [] ∧ Mirrors front first after (r.brokenOff after.prev e)

section

variable {α β : Type} {front : Buffer} {first : Reader} {b after : Buffer} {r other : Reader} {taken rest : List Token}
  {t : Token} {bound : Nat}

theorem Mirrors.refl (hprev : r.prev = b.prev) : Mirrors b r b r :=
  ⟨hprev, [], by simp, by simp, .refl _ _⟩

theorem Mirrors.replace (h : Mirrors front first b r) (halike : Alike b.rest r other) (hprev : other.prev = r.prev) :
    Mirrors front first b other := by
  obtain ⟨ts, htaken, hrest, hread⟩ := h.reads
  exact ⟨hprev.trans h.prev_eq, ts, htaken, hrest, hread.trans halike⟩

/-- Both read a token. -/
theorem Mirrors.next (h : Mirrors front first ⟨taken, t :: rest⟩ r) (hnext : r.next t = other) :
    Mirrors front first ⟨taken ++ [t], rest⟩ other := by
  obtain ⟨ts, htaken, hrest, hread⟩ := h.reads
  subst hnext
  refine ⟨by rw [prev_next, Buffer.prev_append_singleton], ts ++ [t], ?_, ?_, ?_⟩
  · rw [← List.append_assoc, ← htaken]
  · rw [hrest, List.append_assoc, List.singleton_append]
  · rw [List.foldl_append, List.foldl_cons, List.foldl_nil, show Reader.next _ t = r.next t from hread]
    exact .refl _ _

/-- Both go on within the statement with a token. -/
theorem Mirrors.take {goal : Goal} (h : Mirrors front first ⟨taken, t :: rest⟩ r) (hnext : r.next t = other.take t goal) :
    Mirrors front first ⟨taken ++ [t], rest⟩
      { other with prev := (Buffer.mk (taken ++ [t]) rest).prev, goal := goal } := by
  rw [Buffer.prev_append_singleton]
  exact h.next hnext

/-- Where the statement breaks off does not depend on how far it has been read. -/
theorem Meets.within {x : Run phrases (Except Break α)} {good : α → Buffer → Prop}
    (h : Meets x b (Yields front first other bound good)) (hwithin : r.Within other) :
    Meets x b (Yields front first r bound good) := by
  refine h.mono ?_
  rintro (e | a) after hyields
  · exact ⟨hyields.1, hyields.2.1, hwithin.brokenOff_eq _ _ ▸ hyields.2.2⟩
  · exact hyields

/-- A scan after a scan within one statement. -/
theorem Meets.seq {x : Scan phrases α} {f : α → Scan phrases β} {n : Nat} {mid : α → Buffer → Prop} {good : β → Buffer → Prop}
    (h : Meets x.run b (Yields front first other n mid)) (hwithin : r.Within other) (hle : n ≤ bound)
    (hf : ∀ a after, after.rest.length < n → mid a after → Meets (f a).run after (Yields front first r bound good)) :
    Meets (x >>= f).run b (Yields front first r bound good) := by
  refine (h.within hwithin).bindScan ?_ ?_
  · rintro e after ⟨hlength, hbroken⟩
    exact ⟨Nat.le_trans hlength hle, hbroken⟩
  · rintro a after ⟨hlength, hmid⟩
    exact hf a after hlength hmid

/-- What does not fit is not taken. -/
theorem meets_reject {expected : Expected} {good : α → Buffer → Prop} (h : Mirrors front first b r)
    (hle : b.rest.length ≤ bound) (hnext : ∀ t, b.rest.head? = some t → r.next t = r.reject t expected)
    (hend : b.rest = [] → r.endStatement = r.fail r.prev expected none) :
    Meets (fail expected b.rest.head?).run b (Yields front first r bound good) :=
  meets_fail ⟨hle, rfl, h.replace (alike_brokenOff h.prev_eq hnext hend) h.prev_eq.symm⟩

/-- What does not fit has been taken. -/
theorem meets_refuse {expected : Expected} {good : α → Buffer → Prop} (h : Mirrors front first ⟨taken, t :: rest⟩ r)
    (hle : rest.length ≤ bound) (hnext : r.next t = r.refuse t expected) :
    Meets (fail expected (some t)).run ⟨taken ++ [t], rest⟩ (Yields front first r bound good) := by
  refine meets_fail ⟨hle, rfl, ?_⟩
  rw [Buffer.prev_append_singleton]
  exact h.next (hnext.trans (refuse_eq_brokenOff r t expected))

theorem meets_require {s : Symbol} {next : Token → Reader} (h : Mirrors front first b r)
    (hdemands : r.Demands s b.rest next) :
    Meets (require s).run b (Yields front first r b.rest.length fun loc after =>
      ∃ t, t.lexeme = .symbol s ∧ t.loc = loc ∧ Mirrors front first after (next t)) := by
  obtain ⟨taken, rest⟩ := b
  rw [require]
  apply meets_scan_peek
  cases rest with
  | nil => exact meets_reject h (Nat.le_refl _) (by simp) hdemands.end_eq
  | cons t rest =>
      have hnext := hdemands.next_eq t rfl
      rw [Reader.require] at hnext
      dsimp only [List.head?_cons]
      split
      · next ht =>
          rw [if_pos ht] at hnext
          apply meets_scan_next
          exact meets_pure.2 ⟨Nat.lt_succ_self _, t, ht, rfl, h.next hnext⟩
      · next ht =>
          rw [if_neg ht] at hnext
          refine meets_reject h (Nat.le_refl _) ?_ (by simp)
          rintro _ ⟨⟩
          exact hnext

/-! ### Expressions -/

/-- No operator of at least the precedence follows. -/
def Stops (least : Nat) (rest : List Token) : Prop :=
  ∀ t op, rest.head? = some t → MathOp.ofLexeme? t.lexeme = some op → op.precedence < least

theorem precedence_cases (op : MathOp) : op.precedence = 1 ∨ op.precedence = 2 := by
  cases op <;> simp [MathOp.precedence]

theorem Stops.ofLexeme?_eq_none (h : Stops 1 rest) (ht : rest.head? = some t) : MathOp.ofLexeme? t.lexeme = none := by
  cases hop : MathOp.ofLexeme? t.lexeme with
  | none => rfl
  | some op =>
      have hlt := h t op ht hop
      rcases precedence_cases op with hprec | hprec <;> omega

/-- An expression with operators of at least the precedence may begin at the hole. -/
structure Fits (least : Nat) (hole : Hole) : Prop where
  sum : least ≤ 1 → hole.level.sum = none
  product : least ≤ 2 → hole.level.product = none

/-- Such an expression has been read at the hole. -/
structure Holds (least : Nat) (hole : Hole) (e : Expr Unit) (formula : Formula) : Prop where
  outer : formula.outer = hole.outer
  value : least ≤ 1 → formula.value = e
  sum : 1 < least → formula.sum = hole.level.sum
  term : 1 < least → formula.term = supply hole.level.product e

/-- The reader has read such an expression, and no more of it follows. -/
def Reads (front : Buffer) (first r : Reader) (purpose : Purpose) (hole : Hole) (least : Nat) (e : Expr Unit)
    (after : Buffer) : Prop :=
  Stops least after.rest ∧ ∃ formula, Holds least hole e formula ∧
    Mirrors front first after { r with prev := after.prev, goal := .operator purpose formula }

theorem extend_of_precedence_one {formula : Formula} {op : MathOp} (loc : Location) (hop : op.precedence = 1) :
    formula.extend op loc = ⟨⟨some ⟨formula.value, op, loc⟩, none⟩, formula.outer⟩ := by
  simp only [Formula.extend, hop]

theorem extend_of_precedence_two {formula : Formula} {op : MathOp} (loc : Location) (hop : op.precedence = 2) :
    formula.extend op loc = ⟨⟨formula.sum, some ⟨formula.term, op, loc⟩⟩, formula.outer⟩ := by
  simp only [Formula.extend, hop]

theorem Fits.extend (formula : Formula) (op : MathOp) (loc : Location) :
    Fits (op.precedence + 1) (formula.extend op loc) := by
  rcases precedence_cases op with hop | hop
  · rw [extend_of_precedence_one loc hop]
    exact ⟨by omega, fun _ => rfl⟩
  · exact ⟨by omega, by omega⟩

/-- An operator with its right operand. A product may stand where a sum is read only if nothing is added up yet. -/
theorem Holds.extend {least : Nat} {hole : Hole} {left right : Expr Unit} {formula later : Formula} {op : MathOp}
    {loc : Location} (hfits : Fits least hole) (hleft : Holds least hole left formula) (hleast : least ≤ op.precedence)
    (hsum : least ≤ 1 → op.precedence = 2 → formula.sum = none)
    (hright : Holds (op.precedence + 1) (formula.extend op loc) right later) :
    Holds least hole (.math op left right loc) later := by
  rcases precedence_cases op with hop | hop
  · have hone : least ≤ 1 := hop ▸ hleast
    rw [hop, extend_of_precedence_one loc hop] at hright
    refine ⟨hright.outer.trans hleft.outer, fun _ => ?_, by omega, by omega⟩
    rw [Formula.value, hright.sum (by decide), hright.term (by decide), ← hleft.value hone]
    rfl
  · rw [hop, extend_of_precedence_two loc hop] at hright
    have hterm : later.term = .math op formula.term right loc := hright.term (by decide)
    have hsame : later.sum = formula.sum := hright.sum (by decide)
    refine ⟨hright.outer.trans hleft.outer, fun hone => ?_, fun htwo => hsame.trans (hleft.sum htwo), fun htwo => ?_⟩
    · have hnone := hsum hone hop
      rw [Formula.value, hsame, hterm, hnone, ← hleft.value hone, Formula.value, hnone]
      rfl
    · rw [hterm, hleft.term htwo, hfits.product (hop ▸ hleast)]
      rfl

/-- Behind an expression in parentheses the closing one is due. -/
theorem demands_closeParen {purpose : Purpose} {formula : Formula} {level : Level} {outer : List Level}
    (hgoal : r.goal = .operator purpose formula) (houter : formula.outer = level :: outer) (hstops : Stops 1 rest) :
    r.Demands .closeParen rest fun t => r.take t (.operator purpose (formula.close level outer)) := by
  constructor
  · intro t ht
    simp only [Reader.next, hgoal, hstops.ofLexeme?_eq_none ht, houter]
  · intro _
    simp only [endStatement, hgoal, houter]

/-- What scanning an expression comes to. -/
def ScansBinary (front : Buffer) (first : Reader) (least : Nat) (b : Buffer) : Prop :=
  ∀ (r : Reader) (purpose : Purpose) (hole : Hole), least ≤ 3 → r.goal = .operand purpose hole → Fits least hole →
    Mirrors front first b r →
      Meets (scanBinary least).run b (Yields front first r b.rest.length (Reads front first r purpose hole least))

/-- What scanning operators comes to behind a left operand. -/
def ScansOperators (front : Buffer) (first : Reader) (least : Nat) (b : Buffer) : Prop :=
  ∀ (r : Reader) (purpose : Purpose) (hole : Hole) (formula : Formula) (left : Expr Unit), least ≤ 3 →
    r.goal = .operator purpose formula → Fits least hole → Holds least hole left formula →
    (least ≤ 1 → formula.sum = none ∨ Stops 2 b.rest) → Mirrors front first b r →
      Meets (scanOperators least left).run b
        (Yields front first r (b.rest.length + 1) (Reads front first r purpose hole least))

theorem meets_scanOperand {purpose : Purpose} {hole : Hole} (hgoal : r.goal = .operand purpose hole)
    (h : Mirrors front first b r)
    (hbinary : ∀ c : Buffer, c.rest.length < b.rest.length → ScansBinary front first 1 c) :
    Meets scanOperand.run b (Yields front first r b.rest.length fun e after =>
      Mirrors front first after { r with prev := after.prev, goal := .operator purpose (hole.fill e) }) := by
  obtain ⟨taken, rest⟩ := b
  refine meets_call .operand ?_
  rw [Call.run]
  apply meets_scan_peek
  cases rest with
  | nil => exact meets_reject h (Nat.le_refl _) (by simp) fun _ => by simp only [endStatement, hgoal]
  | cons t rest =>
      dsimp only [List.head?_cons]
      split
      · next e he =>
          apply meets_scan_next
          exact meets_pure.2 ⟨Nat.lt_succ_self _, h.take (by rw [next_operand hgoal, he, annotate_phrases])⟩
      · next he =>
          split
          · next ht =>
              apply meets_scan_next
              have hopen : Mirrors front first ⟨taken ++ [t], rest⟩ (r.take t (.operand purpose hole.nest)) :=
                h.next (by simp only [next_operand hgoal, he, if_pos ht])
              have hfits : Fits 1 hole.nest := ⟨fun _ => rfl, fun _ => rfl⟩
              have hinner := hbinary ⟨taken ++ [t], rest⟩ (Nat.lt_succ_self _) _ purpose _ (by decide) rfl hfits hopen
              refine hinner.seq ⟨rfl, rfl, rfl, rfl⟩ (Nat.le_succ _) ?_
              rintro e after hlength ⟨hstops, formula, hholds, hmirrors⟩
              have hclose := meets_require hmirrors (demands_closeParen rfl hholds.outer hstops)
              refine hclose.seq ⟨rfl, rfl, rfl, rfl⟩ (Nat.le_succ_of_le (Nat.le_of_lt hlength)) ?_
              rintro loc last hlast ⟨t', ht', rfl, hclosed⟩
              have hfill : formula.close hole.level hole.outer = hole.fill e := by
                rw [Formula.close, hholds.value (Nat.le_refl _)]
              rw [hfill] at hclosed
              refine meets_pure.2 ⟨Nat.lt_succ_of_lt (Nat.lt_trans hlast hlength), ?_⟩
              have hprev : last.prev = t'.loc := hclosed.prev_eq.symm
              simp only [hprev]
              exact hclosed
          · next ht =>
              refine meets_reject h (Nat.le_refl _) ?_ (by simp)
              rintro _ ⟨⟩
              simp only [next_operand hgoal, he, if_neg ht]

theorem scansOperators {least : Nat} (b : Buffer)
    (hbinary : ∀ (least : Nat) (c : Buffer), c.rest.length < b.rest.length → ScansBinary front first least c)
    (hoperators : ∀ c : Buffer, c.rest.length < b.rest.length → ScansOperators front first least c) :
    ScansOperators front first least b := by
  intro r purpose hole formula left hleast hgoal hfits hholds hsum h
  -- Where no operator follows, what has been read so far is the expression.
  have hend (hstops : Stops least b.rest) : Meets (pure left : Scan phrases (Expr Unit)).run b
      (Yields front first r (b.rest.length + 1) (Reads front first r purpose hole least)) := by
    have hsame : { r with prev := b.prev, goal := .operator purpose formula } = r := by
      rw [← h.prev_eq, ← hgoal]
    exact meets_pure.2 ⟨Nat.lt_succ_self _, hstops, formula, hholds, hsame.symm ▸ h⟩
  obtain ⟨taken, rest⟩ := b
  refine meets_call (.operators least left) ?_
  rw [Call.run]
  apply meets_scan_peek
  cases rest with
  | nil => exact hend (by simp [Stops])
  | cons t rest =>
      dsimp only [List.head?_cons]
      split
      · next op hop =>
          split
          · next hlt =>
              apply hend
              rintro _ other ⟨⟩ hother
              obtain rfl := Option.some.inj (hop.symm.trans hother)
              exact hlt
          · next hle =>
              apply meets_scan_next
              have hprec := precedence_cases op
              have hnone : least ≤ 1 → op.precedence = 2 → formula.sum = none := by
                intro hone htwo
                rcases hsum hone with hnone | hstops
                · exact hnone
                · exact absurd (hstops t op rfl hop) (by omega)
              have hoperand := h.next (next_operator_of_math hgoal hop)
              have hright := hbinary (op.precedence + 1) ⟨taken ++ [t], rest⟩ (Nat.lt_succ_self _) _ purpose _ (by omega) rfl
                (Fits.extend formula op t.loc) hoperand
              refine hright.seq ⟨rfl, rfl, rfl, rfl⟩ (by simp; omega) ?_
              rintro right after hlength ⟨hstops, later, hlater, hmirrors⟩
              -- A sum goes on only behind whole products, and a product only where no sum has begun.
              have hsum' : least ≤ 1 → later.sum = none ∨ Stops 2 after.rest := by
                intro hone
                rcases hprec with hprec | hprec
                · rw [hprec] at hstops
                  exact .inr hstops
                · rw [hprec, extend_of_precedence_two _ hprec] at hlater
                  exact .inl ((hlater.sum (by decide)).trans (hnone hone hprec))
              refine (hoperators after (Nat.lt_succ_of_lt hlength) _ purpose hole later _ hleast rfl hfits
                (hholds.extend hfits (by omega) hnone hlater) hsum' hmirrors).mono ?_
              rintro (e | e) last hlast
              · exact ⟨Nat.le_trans hlast.1 (by simp at hlength ⊢; omega), hlast.2⟩
              · exact ⟨Nat.lt_of_lt_of_le hlast.1 (by simp at hlength ⊢; omega), hlast.2⟩
      · next hop =>
          apply hend
          rintro _ other ⟨⟩ hother
          exact absurd (hop.symm.trans hother) (by simp)

theorem scansBinary {least : Nat} (b : Buffer)
    (hbinary : ∀ c : Buffer, c.rest.length < b.rest.length → ScansBinary front first 1 c)
    (hoperators : ∀ c : Buffer, c.rest.length < b.rest.length → ScansOperators front first least c) :
    ScansBinary front first least b := by
  intro r purpose hole hleast hgoal hfits h
  refine meets_call (.binary least) ?_
  rw [Call.run]
  refine (meets_scanOperand hgoal h hbinary).seq ⟨rfl, rfl, rfl, rfl⟩ (Nat.le_refl _) ?_
  intro left after hlength hmirrors
  have hholds : Holds least hole left (hole.fill left) := by
    refine ⟨rfl, fun hone => ?_, fun _ => rfl, fun _ => rfl⟩
    rw [Formula.value, Hole.fill, hfits.sum hone, hfits.product (Nat.le_succ_of_le hone)]
    rfl
  refine (hoperators after hlength _ purpose hole _ left hleast rfl hfits hholds (fun hone => .inl (hfits.sum hone))
    hmirrors).mono ?_
  rintro (e | e) last hlast
  · exact ⟨Nat.le_trans hlast.1 hlength, hlast.2⟩
  · exact ⟨Nat.lt_of_lt_of_le hlast.1 hlength, hlast.2⟩

theorem scans_of_length_lt (n : Nat) : ∀ (least : Nat) (b : Buffer), b.rest.length < n →
    ScansBinary front first least b ∧ ScansOperators front first least b := by
  induction n with
  | zero => exact fun _ _ h => absurd h (Nat.not_lt_zero _)
  | succ n ih =>
      intro least b hlength
      have hshorter (least : Nat) (c : Buffer) (hc : c.rest.length < b.rest.length) := ih least c (by omega)
      exact ⟨scansBinary b (fun c hc => (hshorter 1 c hc).1) fun c hc => (hshorter least c hc).2,
        scansOperators b (fun least c hc => (hshorter least c hc).1) fun c hc => (hshorter least c hc).2⟩

/-- Scanning an expression comes to an end, and the reader reads the same expression. -/
theorem meets_scanExpr {purpose : Purpose} (h : Mirrors front first b r) (hgoal : r.goal = .operand purpose {}) :
    Meets scanExpr.run b (Yields front first r b.rest.length fun e after => Stops 1 after.rest ∧
      ∃ formula, formula.value = e ∧ formula.outer = [] ∧
        Mirrors front first after { r with prev := after.prev, goal := .operator purpose formula }) := by
  have hscans : ScansBinary front first 1 b := (scans_of_length_lt (b.rest.length + 1) 1 b (Nat.lt_succ_self _)).1
  refine (hscans r purpose {} (by decide) hgoal ⟨fun _ => rfl, fun _ => rfl⟩ h).mono ?_
  rintro (e | e) after hscan
  · exact hscan
  · obtain ⟨hlength, hstops, formula, hholds, hmirrors⟩ := hscan
    exact ⟨hlength, hstops, formula, hholds.value (Nat.le_refl _), hholds.outer, hmirrors⟩

end

end Descent

end Lai.Grammar
