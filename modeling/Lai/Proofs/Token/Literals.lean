import Lai.Proofs.Token.Rules
/-!
# The inside of string literals

Cutting the inside of a literal into pieces agrees with counting backslashes: between two pieces the next
character is never escaped, so the first quote that is not escaped is the one at which the pieces end. The
pieces stand for the text of the literal, and those without a meaning are the escapes without a meaning.
-/

namespace Lai

namespace Lexical

/-! ### Counting backslashes -/

theorem not_escapes_nil : ¬ Escapes [] := by
  decide

theorem escapes_concat {before : List Char} {c : Char} :
    Escapes (before ++ [c]) ↔ c = '\\' ∧ ¬ Escapes before := by
  unfold Escapes
  rw [List.reverse_append, List.reverse_singleton, List.singleton_append, List.takeWhile_cons]
  by_cases hc : c = '\\'
  · simp only [hc, decide_true, if_true, List.length_cons, true_and]
    omega
  · simp [hc]

theorem quotesEscaped_nil : QuotesEscaped [] := by
  intro before after heq
  simp at heq

theorem quotesEscaped_concat {body : List Char} {c : Char} :
    QuotesEscaped (body ++ [c]) ↔ QuotesEscaped body ∧ (c = '"' → Escapes body) := by
  constructor
  · intro h
    refine ⟨fun before after heq => h before (after ++ [c]) (by simp [heq]), ?_⟩
    rintro rfl
    exact h body [] rfl
  · rintro ⟨hbody, hlast⟩ before after heq
    rcases List.eq_nil_or_concat after with rfl | ⟨shorter, last, rfl⟩
    · obtain ⟨rfl, hc⟩ := List.append_inj' heq rfl
      exact hlast (List.singleton_inj.1 hc)
    · have hcut : body ++ [c] = (before ++ '"' :: shorter) ++ [last] := by simpa using heq
      exact hbody before shorter (List.append_inj' hcut rfl).1

theorem QuotesEscaped.backslash {body : List Char} (h : QuotesEscaped body) : QuotesEscaped (body ++ ['\\']) :=
  quotesEscaped_concat.2 ⟨h, fun hquote => absurd hquote (by decide)⟩

/-- The first quote that is not escaped is found at one place only. -/
theorem QuotesEscaped.unique {body other rest rest' : List Char} (hbody : QuotesEscaped body) (hclosed : ¬ Escapes body)
    (hother : QuotesEscaped other) (hclosed' : ¬ Escapes other)
    (heq : body ++ '"' :: rest = other ++ '"' :: rest') : body = other ∧ rest = rest' := by
  rcases List.append_eq_append_iff.1 heq with ⟨more, hmore, hrest⟩ | ⟨more, hmore, hrest⟩
  all_goals
    cases more with
    | nil => simp_all
    | cons c more => ?_
  · obtain ⟨rfl, -⟩ := List.cons.inj hrest
    exact absurd (hother body more hmore) hclosed
  · obtain ⟨rfl, -⟩ := List.cons.inj hrest
    exact absurd (hbody other more hmore) hclosed'

end Lexical

/-! ### Pieces -/

namespace Piece

open Lexical

/-- The piece can stand in a literal: a quote or a backslash is not written as itself. -/
def Proper : Piece → Prop
  | .plain c => c ≠ '"' ∧ c ≠ '\\'
  | .escape _ => True

theorem proper_of_mem_pieces (cs : List Char) : ∀ p ∈ (pieces cs).1, p.Proper := by
  fun_induction pieces cs with
  | case1 => simp
  | case2 => simp
  | case3 => simp
  | case4 _ d ds ih =>
      intro p hp
      rcases List.mem_cons.1 hp with rfl | hp
      · trivial
      · exact ih p hp
  | case5 c cs hquote hbackslash ih =>
      intro p hp
      rcases List.mem_cons.1 hp with rfl | hp
      · exact ⟨hquote, hbackslash⟩
      · exact ih p hp

/-- Behind a piece nothing is escaped, if nothing was in front of it. -/
theorem Proper.not_escapes {p : Piece} (hp : p.Proper) {before : List Char} (hbefore : ¬ Escapes before) :
    ¬ Escapes (before ++ p.chars) := by
  cases p with
  | plain c => exact fun h => hp.2 (escapes_concat.1 h).1
  | escape c =>
      have hbackslash : Escapes (before ++ ['\\']) := escapes_concat.2 ⟨rfl, hbefore⟩
      rw [chars, List.append_cons, escapes_concat]
      exact fun h => h.2 hbackslash

theorem Proper.quotesEscaped {p : Piece} (hp : p.Proper) {before : List Char} (hbefore : ¬ Escapes before)
    (hquotes : QuotesEscaped before) : QuotesEscaped (before ++ p.chars) := by
  cases p with
  | plain c => exact quotesEscaped_concat.2 ⟨hquotes, fun hquote => absurd hquote hp.1⟩
  | escape c =>
      rw [chars, List.append_cons, quotesEscaped_concat]
      exact ⟨hquotes.backslash, fun _ => escapes_concat.2 ⟨rfl, hbefore⟩⟩

/-- No quote in the pieces closes the literal, and one behind them does. -/
theorem inside_of_proper {ps : List Piece} (hps : ∀ p ∈ ps, p.Proper) :
    QuotesEscaped (ps.flatMap chars) ∧ ¬ Escapes (ps.flatMap chars) := by
  -- Between two pieces nothing is escaped, whatever stands in front of them.
  suffices h : ∀ before, QuotesEscaped before → ¬ Escapes before →
      QuotesEscaped (before ++ ps.flatMap chars) ∧ ¬ Escapes (before ++ ps.flatMap chars) from
    h [] quotesEscaped_nil not_escapes_nil
  induction ps with
  | nil =>
      intro before hquotes hbefore
      rw [List.flatMap_nil, List.append_nil]
      exact ⟨hquotes, hbefore⟩
  | cons p ps ih =>
      intro before hquotes hbefore
      have hp := hps p List.mem_cons_self
      rw [List.flatMap_cons, ← List.append_assoc]
      apply ih fun q hq => hps q (List.mem_cons_of_mem _ hq)
      · exact hp.quotesEscaped hbefore hquotes
      · exact hp.not_escapes hbefore

/-! ### What the pieces stand for -/

theorem value_escape (c : Char) : (escape c).value = meaning c := by
  unfold value meaning
  split <;> simp_all

theorem unescape_pieces {ps : List Piece} (hps : ∀ p ∈ ps, p.Proper) : unescape (ps.flatMap chars) = ps.map value := by
  induction ps with
  | nil => rfl
  | cons p ps ih =>
      have hrest := ih fun q hq => hps q (List.mem_cons_of_mem _ hq)
      rw [List.flatMap_cons, List.map_cons, ← hrest]
      cases p with
      | plain c =>
          have hp := hps _ List.mem_cons_self
          exact unescape.eq_2 _ _ fun _ _ hbackslash _ => hp.2 hbackslash
      | escape c =>
          rw [value_escape]
          rfl

theorem known_escape (c : Char) : (escape c).known = true ↔ c ∈ ['n', 't', '"', '\\'] := by
  simp [known, or_assoc]

end Piece

namespace Lexical

/-- The escapes without a meaning in `body`, when `before` stands in front of it. -/
def unknownEscapesFrom (before body : List Char) : List (Nat × Char) :=
  (List.range body.length).filterMap fun i =>
    (unknownEscape? (before ++ body.take i) (body.drop i)).map (before.length + i, ·)

theorem unknownEscapes_eq (body : List Char) : unknownEscapes body = unknownEscapesFrom [] body := by
  simp [unknownEscapes, unknownEscapesFrom]

theorem unknownEscapesFrom_cons (before : List Char) (c : Char) (body : List Char) :
    unknownEscapesFrom before (c :: body) =
      ((unknownEscape? before (c :: body)).map (before.length, ·)).toList ++
        unknownEscapesFrom (before ++ [c]) body := by
  have hrest : (List.range body.length).filterMap (fun i =>
        (unknownEscape? (before ++ (c :: body).take (i + 1)) ((c :: body).drop (i + 1))).map (before.length + (i + 1), ·)) =
      unknownEscapesFrom (before ++ [c]) body := by
    simp only [unknownEscapesFrom, List.take_succ_cons, List.drop_succ_cons, List.append_assoc, List.singleton_append,
      List.length_append, List.length_singleton, Nat.add_assoc, Nat.add_comm 1]
  rw [← hrest, unknownEscapesFrom, List.length_cons, List.range_succ_eq_map, List.filterMap_cons, List.filterMap_map,
    List.take_zero, List.append_nil, List.drop_zero, Nat.add_zero]
  cases unknownEscape? before (c :: body) <;> rfl

end Lexical

namespace Piece

open Lexical

theorem faults_eq_unknownEscapesFrom {ps : List Piece} (hps : ∀ p ∈ ps, p.Proper) {ending : List Char}
    (hending : ending = [] ∨ ending = ['\\']) (offset : Nat) {before : List Char} (hbefore : ¬ Escapes before) :
    faults (before.length + offset) ps =
      (unknownEscapesFrom before (ps.flatMap chars ++ ending)).map fun (i, c) => (i + offset, .unknownEscape c) := by
  induction ps generalizing before with
  | nil =>
      rcases hending with rfl | rfl
      · rfl
      · rw [List.flatMap_nil, List.nil_append, unknownEscapesFrom_cons]
        rfl
  | cons p ps ih =>
      have hp := hps p List.mem_cons_self
      have hrest := ih (fun q hq => hps q (List.mem_cons_of_mem _ hq)) (hp.not_escapes hbefore)
      rw [List.length_append, Nat.add_right_comm] at hrest
      simp only [faults, hrest, List.flatMap_cons]
      cases p with
      | plain c =>
          have hnone : unknownEscape? before (c :: (ps.flatMap chars ++ ending)) = none :=
            unknownEscape?.eq_2 _ _ fun _ _ hbackslash => hp.2 (List.cons.inj hbackslash).1
          simp only [chars, List.cons_append, List.nil_append, unknownEscapesFrom_cons before c, hnone]
          rfl
      | escape c =>
          -- The second character is escaped itself, so no escape begins with it.
          have hsecond : unknownEscape? (before ++ ['\\']) (c :: (ps.flatMap chars ++ ending)) = none := by
            have hbackslash : Escapes (before ++ ['\\']) := escapes_concat.2 ⟨rfl, hbefore⟩
            unfold unknownEscape?
            split
            · rw [if_pos (.inl hbackslash)]
            · rfl
          have hfirst : unknownEscape? before ('\\' :: c :: (ps.flatMap chars ++ ending)) =
              if (escape c).known then none else some c := by
            simp only [unknownEscape?, hbefore, false_or, ← known_escape]
          simp only [chars, List.cons_append, List.nil_append, unknownEscapesFrom_cons, hfirst, hsecond,
            List.append_assoc]
          cases hknown : (escape c).known with
          | true => rfl
          | false =>
              have hvalue : (escape c).value = c := by
                have hnot : ¬ c ∈ ['n', 't', '"', '\\'] := by
                  rw [← known_escape, hknown]
                  decide
                rw [value_escape, meaning]
                simp_all
              simp [hvalue]

/-- Cutting into pieces finds the escapes without a meaning. A backslash at the end of the line escapes
nothing. -/
theorem faults_eq_unknownEscapes {ps : List Piece} (hps : ∀ p ∈ ps, p.Proper) {ending : List Char}
    (hending : ending = [] ∨ ending = ['\\']) (offset : Nat) :
    faults offset ps =
      (unknownEscapes (ps.flatMap chars ++ ending)).map fun (i, c) => (i + offset, .unknownEscape c) := by
  have h := faults_eq_unknownEscapesFrom hps hending offset not_escapes_nil
  rwa [List.length_nil, Nat.zero_add, ← unknownEscapes_eq] at h

end Piece

end Lai
