import Lai.Proofs.Grammar.Acceptance
import Lai.Proofs.Grammar.Breaks
/-!
# How early a fault is found

Tokens are viable if more tokens make a program of them. The reader has found no fault exactly as long
as the tokens read are viable: what is being read can always be completed, and a token that cannot
follow is noticed at once. So the first fault reported is at the first token that no program has there,
or at the last token if only more tokens are missing.
-/

namespace Lai

namespace Grammar

/-- The tokens are the beginning of a program. -/
def Viable (ts : List Token) : Prop :=
  ∃ rest : List Token, Derives .program (kinds (ts ++ rest))

theorem Viable.of_prefix {ts us : List Token} (h : us <+: ts) (hts : Viable ts) : Viable us := by
  obtain ⟨vs, rfl⟩ := h
  obtain ⟨rest, hrest⟩ := hts
  exact ⟨vs ++ rest, by rwa [← List.append_assoc]⟩

/-! ### What is being read can be completed -/

/-- The symbol at no particular place. -/
def mark (s : Symbol) : Token :=
  ⟨.symbol s, .origin⟩

theorem spells_zero : SpellsExpr .expr [⟨.integer 0, .origin⟩] (.int 0 .origin) :=
  .term (.factor (.int 0 .origin))

theorem spells_empty_block : Spells .block [mark .openBrace, mark .closeBrace] [.block [] .origin] :=
  .block .origin .origin .nil

theorem Opens.completes {ts us : List Token} {outer : List Level} {e : Expr Unit} (h : Opens ts outer)
    (he : SpellsExpr .expr us e) : ∃ rest whole, SpellsExpr .expr (ts ++ us ++ rest) whole := by
  induction h generalizing us e with
  | nil => exact ⟨[], e, by simpa using he⟩
  | cons houter hsum hproduct loc ih =>
      have hgroup := SpellsExpr.group loc .origin he
      obtain ⟨rest, whole, hwhole⟩ := ih (hsum.supply_term (hproduct.supply_factor hgroup))
      exact ⟨mark .closeParen :: rest, whole, by simpa [mark] using hwhole⟩

theorem Formula.Traces.completes {formula : Formula} {ts : List Token} (h : formula.Traces ts) :
    ∃ rest whole, SpellsExpr .expr (ts ++ rest) whole := by
  obtain ⟨us, vs, rfl, hopens, hvalue⟩ := h.value
  exact hopens.completes hvalue

theorem Hole.Traces.completes {hole : Hole} {ts : List Token} (h : hole.Traces ts) :
    ∃ rest whole, SpellsExpr .expr (ts ++ rest) whole := by
  obtain ⟨rest, whole, hwhole⟩ := (h.fill (.int 0 .origin)).completes
  exact ⟨⟨.integer 0, .origin⟩ :: rest, whole, by simpa using hwhole⟩

/-- The tokens are the beginning of a statement. -/
def StatementViable (ts : List Token) : Prop :=
  ∃ rest stmt, Spells .statement (ts ++ rest) [stmt]

theorem StatementViable.of_append {ts us : List Token} (h : StatementViable (ts ++ us)) : StatementViable ts := by
  obtain ⟨rest, stmt, hstmt⟩ := h
  exact ⟨us ++ rest, stmt, by rwa [← List.append_assoc]⟩

theorem Chain.viable {ts us : List Token} {arms : List Arm} {last : Stmt} (h : Chain ts arms)
    (hlast : Spells .conditional us [last]) : StatementViable (ts ++ us) := by
  obtain ⟨stmt, -, hstmt⟩ := h.conditional hlast
  exact ⟨[], stmt, by simpa using Spells.ofConditional hstmt⟩

theorem Chain.viable_test {ts us : List Token} {arms : List Arm} {cond : Condition Unit} (h : Chain ts arms)
    (loc : Location) (hcond : SpellsTest us cond) : StatementViable (ts ++ (⟨.symbol .ifWord, loc⟩ :: us)) := by
  have hviable := h.viable (.ifThen loc hcond spells_empty_block)
  exact .of_append (by simpa using hviable)

theorem Begins.viable {ts us : List Token} {arms : List Arm} {purpose : Purpose} {value : Expr Unit}
    (h : Begins ts arms purpose) (hvalue : SpellsExpr .expr us value) : StatementViable (ts ++ us) := by
  cases h with
  | infer name loc mark => exact ⟨[], _, by simpa using Spells.infer name loc mark hvalue⟩
  | initial name loc mark equals htype => exact ⟨[], _, by simpa using Spells.initial name loc mark equals htype hvalue⟩
  | assign name loc mark => exact ⟨[], _, by simpa using Spells.assign name loc mark hvalue⟩
  | print loc start => exact ⟨[mark .closeParen], _, by simpa [mark] using Spells.print loc start .origin hvalue⟩
  | left harms loc start =>
      have hcond := SpellsTest.test (t := mark .equal) start .origin hvalue rfl spells_zero
      exact .of_append (by simpa using harms.viable_test loc hcond)
  | right harms loc start hleft hop =>
      have hcond := SpellsTest.test start .origin hleft hop hvalue
      exact .of_append (by simpa using harms.viable_test loc hcond)

theorem InProgress.viable {ts : List Token} {arms : List Arm} {goal : Goal} (h : InProgress ts arms goal) :
    ts = [] ∨ StatementViable ts := by
  cases h with
  | start => exact .inl rfl
  | afterName name loc =>
      exact .inr ⟨_, _, Spells.infer name loc .origin spells_zero⟩
  | afterColon name loc mark =>
      exact .inr ⟨_, _, Spells.declare (t := ⟨.symbol .intWord, .origin⟩) name loc mark rfl⟩
  | afterType name loc mark htype =>
      exact .inr ⟨[], _, Spells.declare name loc mark htype⟩
  | afterPrint loc =>
      exact .inr ⟨_, _, Spells.print loc .origin .origin spells_zero⟩
  | afterIf harms loc =>
      have hcond := SpellsTest.test (t := mark .equal) .origin .origin spells_zero rfl spells_zero
      exact .inr (.of_append (by simpa using harms.viable_test loc hcond))
  | operand hbegins hhole =>
      obtain ⟨rest, whole, hwhole⟩ := hhole.completes
      exact .inr (.of_append (by simpa using hbegins.viable hwhole))
  | operator hbegins hformula =>
      obtain ⟨rest, whole, hwhole⟩ := hformula.completes
      exact .inr (.of_append (by simpa using hbegins.viable hwhole))
  | afterCondition harms loc hcond => exact .inr (harms.viable_test loc hcond)
  | afterThen harms loc hcond hbody => exact .inr (harms.viable (.ifThen loc hcond hbody))
  | afterElse harms =>
      obtain ⟨stmt, -, hstmt⟩ := harms.otherwise spells_empty_block
      exact .inr ⟨_, stmt, .ofConditional hstmt⟩

theorem Opened.statement {ts us : List Token} {arms : List Arm} {opening : Opening} {brace : Location} {body : List Stmt}
    (h : Opened ts arms opening brace) (hbody : Spells .program us body) :
    ∃ stmt, Spells .statement (ts ++ us ++ [mark .closeBrace]) [stmt] := by
  have hblock := Spells.block brace .origin hbody
  cases h with
  | plain => exact ⟨_, .ofBlock hblock⟩
  | branch harms loc _ hcond =>
      obtain ⟨stmt, -, hstmt⟩ := harms.conditional (.ifThen loc hcond hblock)
      exact ⟨stmt, by simpa [mark] using Spells.ofConditional hstmt⟩
  | otherwise harms =>
      obtain ⟨stmt, -, hstmt⟩ := harms.otherwise hblock
      exact ⟨stmt, by simpa [mark] using Spells.ofConditional hstmt⟩

/-- Every open block can be closed, innermost first. -/
theorem Encloses.completes {ts us : List Token} {frames : List Frame} {stmts : List Stmt} (h : Encloses ts frames)
    (hbody : Spells .program us stmts) : ∃ rest whole, Spells .program (ts ++ us ++ rest) whole := by
  induction h generalizing us stmts with
  | nil => exact ⟨[], stmts, by simpa using hbody⟩
  | cons hframes hfront hopened ih =>
      obtain ⟨stmt, hstmt⟩ := hopened.statement hbody
      obtain ⟨rest, whole, hwhole⟩ := ih (hfront.snoc hstmt)
      exact ⟨mark .closeBrace :: rest, whole, by simpa using hwhole⟩

theorem Reader.Traces.viable {r : Reader} {ts : List Token} (h : r.Traces ts) : Viable ts := by
  obtain ⟨_, vs, rfl, ⟨us, bs, rfl, hencloses, hbody⟩, hprogress⟩ := h
  have hcurrent : ∃ rest stmts, Spells .program (bs ++ vs ++ rest) stmts := by
    rcases hprogress.viable with rfl | ⟨rest, stmt, hstmt⟩
    · exact ⟨[], _, by simpa using hbody⟩
    · exact ⟨rest, _, by simpa using hbody.snoc hstmt⟩
  obtain ⟨rest, stmts, hstmts⟩ := hcurrent
  obtain ⟨more, whole, hwhole⟩ := hencloses.completes hstmts
  exact ⟨rest ++ more, derives_program_iff.2 ⟨whole, by simpa using hwhole⟩⟩

/-! ### What cannot follow is noticed at once -/

/-- The reader has found no fault exactly as long as the tokens read are viable. -/
theorem breaks_eq_nil_iff_viable {ts : List Token} : (ts.foldl Reader.next {}).breaks = [] ↔ Viable ts := by
  rw [Reader.breaks_eq_nil_iff (Reader.tidy_start.foldl ts).1]
  constructor
  · intro hwhole
    have hnil : Reader.Traces [] {} := Reader.Precedes.traces ⟨[], [], rfl, .nil, .nil⟩ rfl rfl
    have htraces := hnil.foldl hwhole
    rw [List.nil_append] at htraces
    exact htraces.viable
  · rintro ⟨rest, hrest⟩
    have hread := wholeAll_read_iff_derives.2 hrest
    obtain ⟨hframes, hbody⟩ := Reader.of_wholeAll_endBlocks hread
    have hend : ((ts ++ rest).foldl Reader.next {}).endStatement.whole = true := by
      rw [Reader.whole_iff, hframes, Reader.endStatement_inBranch]
      exact ⟨hbody, by simp, rfl⟩
    have hall := Reader.whole_of_endStatement hend
    rw [List.foldl_append] at hall
    exact Reader.whole_of_foldl hall

/-- Either no token breaks a statement off, or there is a first one that does. -/
theorem exists_first_break {r : Reader} (hr : r.breaks = []) (ts : List Token) :
    (ts.foldl Reader.next r).breaks = [] ∨ ∃ us t vs, ts = us ++ t :: vs ∧ (us.foldl Reader.next r).breaks = [] ∧
      ((us.foldl Reader.next r).next t).breaks ≠ [] := by
  induction ts generalizing r with
  | nil => exact .inl hr
  | cons t ts ih =>
      by_cases hnext : (r.next t).breaks = []
      · rcases ih hnext with hall | ⟨us, u, vs, rfl, hus, hu⟩
        · exact .inl hall
        · exact .inr ⟨t :: us, u, vs, rfl, hus, hu⟩
      · exact .inr ⟨[], t, ts, rfl, hr, hnext⟩

/-- The first fault is at the first token that makes the tokens up to it no beginning of a program, and at
the last token if there is no such token. -/
theorem first_break {ts : List Token} (h : breaksAll (read ts) ≠ []) :
    ∃ fault, (breaksAll (read ts)).head? = some fault ∧
      ((∃ us t vs, ts = us ++ t :: vs ∧ Viable us ∧ ¬ Viable (us ++ [t]) ∧ fault.loc = t.loc) ∨
        (Viable ts ∧ ∃ t, ts.getLast? = some t ∧ fault.loc = t.loc)) := by
  obtain ⟨found, hfinish, hfound⟩ := (Reader.tidy_start.foldl ts).1.finish
  rw [← read] at hfinish
  have hstart : Reader.breaks {} = [] := rfl
  rcases exists_first_break hstart ts with hnone | ⟨us, t, vs, rfl, hus, ht⟩
  · -- Nothing breaks off before the end of the text, so the first fault is one of those at the end.
    rw [hnone, List.nil_append] at hfinish
    obtain ⟨fault, rest, hfault⟩ := List.exists_cons_of_ne_nil h
    refine ⟨fault, by rw [hfault, List.head?_cons], .inr ⟨breaks_eq_nil_iff_viable.1 hnone, ?_⟩⟩
    cases hlast : ts.getLast? with
    | none =>
        rw [List.getLast?_eq_none_iff] at hlast
        subst hlast
        exact absurd rfl h
    | some t =>
        refine ⟨t, rfl, ?_⟩
        rw [hfound fault (by rw [← hfinish, hfault]; exact List.mem_cons_self), Reader.prev_foldl hlast]
  · -- The token adds the first fault, and whatever is read later only adds faults behind it.
    have hstep := (Reader.tidy_start.foldl us).1.next t
    obtain ⟨here, hhere, hloc⟩ := hstep.breaks
    obtain ⟨-, later, hlater⟩ := hstep.tidy.foldl vs
    have hviable : ¬ Viable (us ++ [t]) := by
      rw [← breaks_eq_nil_iff_viable, List.foldl_append]
      exact ht
    rw [hus, List.nil_append] at hhere
    rw [hhere] at ht
    obtain ⟨fault, rest, rfl⟩ := List.exists_cons_of_ne_nil ht
    rw [List.foldl_append, List.foldl_cons, hlater, hhere] at hfinish
    refine ⟨fault, by rw [hfinish]; rfl, .inl ⟨us, t, vs, rfl, breaks_eq_nil_iff_viable.1 hus, hviable, ?_⟩⟩
    exact hloc fault List.mem_cons_self

end Grammar

namespace Assembly

open Grammar

/-- The first fault of the grammar that is reported is at the first token that cannot stand where it does
in any program, and at the last token if every token can but the text ends too early. -/
theorem read_finds_first_fault (name : String) (tokens : List Token) (h : ¬ Derives .program (kinds tokens)) :
    ∃ d, (read name tokens).diagnostics.find? (fun d => d.category = .syntactic) = some d ∧
      ((∃ us t vs, tokens = us ++ t :: vs ∧ (∀ front, front <+: us → Viable front) ∧ ¬ Viable (us ++ [t]) ∧
          d.loc = t.loc) ∨
        ((∀ front, front <+: tokens → Viable front) ∧ ∃ t, tokens.getLast? = some t ∧ d.loc = t.loc)) := by
  have hbreaks : breaksAll (Grammar.read tokens) ≠ [] := by
    rw [Ne, breaksAll_eq_nil_iff, wholeAll_read_iff_derives]
    exact h
  obtain ⟨fault, hfirst, hplace⟩ := first_break hbreaks
  refine ⟨.ofFault name .syntactic (fault.map Fault.message), ?_, ?_⟩
  · rw [← List.head?_filter, read, filter_syntactic_diagnostic, filterMap_resolveAll, List.head?_map, hfirst]
    rfl
  · rcases hplace with ⟨us, t, vs, hsplit, hviable, hstuck, hloc⟩ | ⟨hviable, t, hlast, hloc⟩
    · exact .inl ⟨us, t, vs, hsplit, fun front hfront => hviable.of_prefix hfront, hstuck, hloc⟩
    · exact .inr ⟨fun front hfront => hviable.of_prefix hfront, t, hlast, hloc⟩

/-- A block in which a statement breaks off, followed by a second fault. -/
def brokenInside : List Token :=
  [⟨.symbol .openBrace, ⟨0, 0⟩⟩, ⟨.identifier "x", ⟨1, 0⟩⟩, ⟨.symbol .infer, ⟨1, 2⟩⟩, ⟨.symbol .slash, ⟨1, 5⟩⟩,
   ⟨.symbol .elseWord, ⟨2, 0⟩⟩]

theorem finds_first_fault_inside : ¬ Derives .program (kinds brokenInside) ∧
    ∃ d us t vs, (read "a" brokenInside).diagnostics.find? (fun d => d.category = .syntactic) = some d ∧
      brokenInside = us ++ t :: vs ∧ (∀ front, front <+: us → Viable front) ∧ ¬ Viable (us ++ [t]) ∧
      d.loc = t.loc ∧ d.loc = ⟨1, 5⟩ := by
  have hstuck : ¬ Derives .program (kinds brokenInside) := mt wholeAll_read_iff_derives.2 (by decide)
  have hfind : (read "a" brokenInside).diagnostics.find? (fun d => d.category = .syntactic) =
      some ⟨"a", ⟨1, 5⟩, .syntactic, "Expecting expression but got '/'"⟩ := by decide
  have hwhole : ¬ Viable brokenInside := mt breaks_eq_nil_iff_viable.2 (by decide)
  obtain ⟨d, hd, hplace⟩ := read_finds_first_fault "a" brokenInside hstuck
  obtain rfl := Option.some.inj (hd.symm.trans hfind)
  rcases hplace with ⟨us, t, vs, hsplit, hviable, hnot, hloc⟩ | ⟨hviable, -⟩
  · exact ⟨hstuck, _, us, t, vs, hd, hsplit, hviable, hnot, hloc, rfl⟩
  · exact absurd (hviable brokenInside List.prefix_rfl) hwhole

end Assembly

end Lai
