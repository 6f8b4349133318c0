import Lai.Proofs.Token.Placement
import Lai.Token.Listing
/-!
# What token listings show

The rows of a listing share the tokens of a document out among its lines. A closing brace closes the
brace opened last of those still open, so the braces open at some point are a stack. A row is indented by
the braces open at the start of its line, less all that the line closes. Those among the latter that the
line has opened itself are subtracted too, as long as there is indentation left.
-/

namespace Lai

namespace Document

/-! ### The tokens of a line -/

/-- The tokens of the line with the given number. -/
def tokensOn (doc : Document) (i : Nat) : List Token :=
  (Scan.ofLine i (doc.line i).toList).tokens

/-- The tokens of the lines in front of the one with the given number. -/
def tokensBefore (doc : Document) (i : Nat) : List Token :=
  (List.range i).flatMap doc.tokensOn

/-- The tokens of the lines behind the one with the given number. -/
def tokensBehind (doc : Document) (i : Nat) : List Token :=
  (List.range' (i + 1) (doc.lines.length - (i + 1))).flatMap doc.tokensOn

variable {doc : Document} {i : Nat} {t : Token}

theorem line_of_mem_tokensOn (h : t ∈ doc.tokensOn i) : t.loc.line = i := by
  obtain ⟨column, hloc, -⟩ := Scan.mem_tokens_ofLine h
  rw [hloc]

theorem line_lt_of_mem_tokensBefore (h : t ∈ doc.tokensBefore i) : t.loc.line < i := by
  obtain ⟨j, hj, ht⟩ := List.mem_flatMap.1 h
  rw [line_of_mem_tokensOn ht]
  exact Int.ofNat_lt.2 (List.mem_range.1 hj)

theorem lt_line_of_mem_tokensBehind (h : t ∈ doc.tokensBehind i) : i < t.loc.line := by
  obtain ⟨j, hj, ht⟩ := List.mem_flatMap.1 h
  rw [line_of_mem_tokensOn ht]
  exact Int.ofNat_lt.2 (List.mem_range'_1.1 hj).1

theorem tokensBefore_succ (doc : Document) (i : Nat) : doc.tokensBefore (i + 1) = doc.tokensBefore i ++ doc.tokensOn i := by
  rw [tokensBefore, List.range_succ, List.flatMap_append, List.flatMap_singleton, tokensBefore]

theorem tokens_eq (doc : Document) : (Scan.ofLines doc.lines).tokens = doc.tokensBefore doc.lines.length := by
  have hline (i : Nat) (text : String) (h : (text, i) ∈ doc.lines.zipIdx) : doc.line i = text :=
    line_of_getElem? (Int.natCast_nonneg i) (List.mem_zipIdx_iff_getElem?.1 h)
  have hnumbers : List.range doc.lines.length = doc.lines.zipIdx.map Prod.snd := by
    rw [List.zipIdx_map_snd, List.range_eq_range']
  rw [tokensBefore, hnumbers, List.flatMap_map, Scan.ofLines, List.flatMap_map, List.flatMap_def, List.flatMap_def]
  refine congrArg List.flatten (List.map_congr_left ?_)
  rintro ⟨text, i⟩ hmem
  rw [tokensOn, hline i text hmem]

theorem tokens_split (h : i < doc.lines.length) :
    (Scan.ofLines doc.lines).tokens = doc.tokensBefore i ++ (doc.tokensOn i ++ doc.tokensBehind i) := by
  have hnumbers : List.range doc.lines.length =
      List.range i ++ i :: List.range' (i + 1) (doc.lines.length - (i + 1)) := by
    have hlength : i + (doc.lines.length - (i + 1) + 1) = doc.lines.length := by omega
    have happend := List.range'_append_1 (s := 0) (m := i) (n := doc.lines.length - (i + 1) + 1)
    rw [Nat.zero_add, List.range'_succ, hlength] at happend
    rw [List.range_eq_range', List.range_eq_range', happend]
  rw [tokens_eq, tokensBefore, hnumbers, List.flatMap_append, List.flatMap_cons]
  rfl

theorem filter_line_tokens (h : i < doc.lines.length) :
    (Scan.ofLines doc.lines).tokens.filter (·.loc.line = (i : Int)) = doc.tokensOn i := by
  have helsewhere {tokens : List Token} (hlines : ∀ t ∈ tokens, t.loc.line ≠ i) :
      tokens.filter (·.loc.line = (i : Int)) = [] := by
    rw [List.filter_eq_nil_iff]
    intro t ht
    simpa using hlines t ht
  have hhere : (doc.tokensOn i).filter (·.loc.line = (i : Int)) = doc.tokensOn i := by
    rw [List.filter_eq_self]
    intro t ht
    simpa using line_of_mem_tokensOn ht
  rw [tokens_split h, List.filter_append, List.filter_append, hhere,
    helsewhere fun t ht => Int.ne_of_lt (line_lt_of_mem_tokensBefore ht),
    helsewhere fun t ht => Int.ne_of_gt (lt_line_of_mem_tokensBehind ht), List.nil_append, List.append_nil]

end Document

namespace Token

/-! ### Stacks of open braces -/

/-- The braces open behind a token, innermost first, if those of the stack are open in front of it. -/
def braceStep (stack : List Token) (t : Token) : List Token :=
  if t.lexeme = .symbol .openBrace then t :: stack
  else if t.lexeme = .symbol .closeBrace then stack.tail
  else stack

def openBehind (stack tokens : List Token) : List Token :=
  tokens.foldl braceStep stack

/-- Every closing brace among the tokens has a brace to close. -/
def ClosesOpened : (stack tokens : List Token) → Prop
  | _, [] => True
  | stack, t :: rest => (t.lexeme = .symbol .closeBrace → stack ≠ []) ∧ ClosesOpened (braceStep stack t) rest

/-- The closing braces in their order, each behind the brace that it closes. -/
def bracePairs : (stack tokens : List Token) → List (Token × Token)
  | _, [] => []
  | stack, t :: rest =>
    (if t.lexeme = .symbol .closeBrace then stack.head?.toList.map (·, t) else []) ++ bracePairs (braceStep stack t) rest

instance decidableClosesOpened : (stack tokens : List Token) → Decidable (ClosesOpened stack tokens)
  | _, [] => isTrue trivial
  | stack, t :: rest =>
    have := decidableClosesOpened (braceStep stack t) rest
    inferInstanceAs (Decidable (_ ∧ _))

section

variable {stack tokens front back : List Token} {t : Token}

theorem braceStep_of_open (h : t.lexeme = .symbol .openBrace) : braceStep stack t = t :: stack :=
  if_pos h

theorem braceStep_of_close (h : t.lexeme = .symbol .closeBrace) : braceStep stack t = stack.tail := by
  rw [braceStep, if_neg (by simp [h]), if_pos h]

theorem braceStep_of_other (hopen : t.lexeme ≠ .symbol .openBrace) (hclose : t.lexeme ≠ .symbol .closeBrace) :
    braceStep stack t = stack := by
  rw [braceStep, if_neg hopen, if_neg hclose]

theorem closesOpened_append :
    ClosesOpened stack (front ++ back) ↔ ClosesOpened stack front ∧ ClosesOpened (openBehind stack front) back := by
  induction front generalizing stack with
  | nil => simp [ClosesOpened, openBehind]
  | cons t front ih =>
      simp only [List.cons_append, ClosesOpened, ih, and_assoc]
      rfl

theorem bracePairs_append :
    bracePairs stack (front ++ back) = bracePairs stack front ++ bracePairs (openBehind stack front) back := by
  induction front generalizing stack with
  | nil => rfl
  | cons t front ih =>
      simp only [List.cons_append, bracePairs, ih, List.append_assoc]
      rfl

theorem mem_braceStep {first : Token} (h : t ∈ braceStep stack first) : t = first ∨ t ∈ stack := by
  unfold braceStep at h
  split at h
  · exact List.mem_cons.1 h
  split at h
  · exact .inr (List.mem_of_mem_tail h)
  · exact .inr h

theorem mem_openBehind (h : t ∈ openBehind stack tokens) : t ∈ stack ∨ t ∈ tokens := by
  induction tokens generalizing stack with
  | nil => exact .inl h
  | cons first tokens ih =>
      rcases ih h with hstep | hrest
      · rcases mem_braceStep hstep with rfl | hstack
        · exact .inr List.mem_cons_self
        · exact .inl hstack
      · exact .inr (List.mem_cons_of_mem _ hrest)

/-- A closing brace closes one of the stack or of the tokens in front of it. -/
theorem mem_bracePairs {pair : Token × Token} (h : pair ∈ bracePairs stack tokens) :
    (pair.1 ∈ stack ∨ pair.1 ∈ tokens) ∧ pair.2 ∈ tokens := by
  induction tokens generalizing stack with
  | nil => exact absurd h List.not_mem_nil
  | cons t tokens ih =>
      rcases List.mem_append.1 h with hhere | hrest
      · split at hhere
        · obtain ⟨opening, hopening, rfl⟩ := List.mem_map.1 hhere
          exact ⟨.inl (List.mem_of_mem_head? (Option.mem_toList.1 hopening)), List.mem_cons_self⟩
        · exact absurd hhere List.not_mem_nil
      · obtain ⟨hopening, hclosing⟩ := ih hrest
        refine ⟨?_, List.mem_cons_of_mem _ hclosing⟩
        rcases hopening with hstep | hlater
        · rcases mem_braceStep hstep with heq | hstack
          · exact .inr (heq ▸ List.mem_cons_self)
          · exact .inl hstack
        · exact .inr (List.mem_cons_of_mem _ hlater)

/-! ### Counting braces -/

theorem braces_append (front back : List Token) :
    braces (front ++ back) = ((braces front).1 + (braces back).1, (braces front).2 + (braces back).2) := by
  simp [braces]

theorem braces_cons (t : Token) (tokens : List Token) :
    braces (t :: tokens) = ((braces tokens).1 + if t.lexeme = .symbol .openBrace then 1 else 0,
      (braces tokens).2 + if t.lexeme = .symbol .closeBrace then 1 else 0) := by
  simp [braces, List.countP_cons]

theorem length_braceStep (h : t.lexeme = .symbol .closeBrace → stack ≠ []) :
    (braceStep stack t).length + (if t.lexeme = .symbol .closeBrace then 1 else 0) =
      stack.length + if t.lexeme = .symbol .openBrace then 1 else 0 := by
  by_cases hopen : t.lexeme = .symbol .openBrace
  · simp [braceStep_of_open hopen, hopen]
  by_cases hclose : t.lexeme = .symbol .closeBrace
  · obtain ⟨opening, outer, rfl⟩ := List.exists_cons_of_ne_nil (h hclose)
    simp [braceStep_of_close hclose, hclose]
  · simp [braceStep_of_other hopen hclose, hopen, hclose]

/-- What is open behind the tokens and what they close makes up what was open and what they open. -/
theorem length_openBehind (h : ClosesOpened stack tokens) :
    (openBehind stack tokens).length + (braces tokens).2 = stack.length + (braces tokens).1 := by
  induction tokens generalizing stack with
  | nil => rfl
  | cons t tokens ih =>
      have hstep := length_braceStep h.1
      have hrest := ih h.2
      rw [openBehind, List.foldl_cons, ← openBehind, braces_cons]
      dsimp only
      omega

theorem length_bracePairs (h : ClosesOpened stack tokens) : (bracePairs stack tokens).length = (braces tokens).2 := by
  induction tokens generalizing stack with
  | nil => rfl
  | cons t tokens ih =>
      rw [bracePairs, List.length_append, ih h.2, braces_cons, Nat.add_comm]
      by_cases hclose : t.lexeme = .symbol .closeBrace
      · obtain ⟨opening, outer, rfl⟩ := List.exists_cons_of_ne_nil (h.1 hclose)
        simp [hclose]
      · simp [hclose]

/-- Of the braces with a property that no brace opened by the tokens has, each is closed or stays open. -/
theorem countP_openBehind (p : Token → Bool) (hp : ∀ t ∈ tokens, p t = false) :
    (bracePairs stack tokens).countP (fun pair => p pair.1) + (openBehind stack tokens).countP p = stack.countP p := by
  induction tokens generalizing stack with
  | nil => simp [bracePairs, openBehind]
  | cons t tokens ih =>
      rw [List.forall_mem_cons] at hp
      rw [bracePairs, List.countP_append, openBehind, List.foldl_cons, ← openBehind, Nat.add_assoc, ih hp.2]
      by_cases hopen : t.lexeme = .symbol .openBrace
      · simp [braceStep_of_open hopen, hopen, hp.1]
      by_cases hclose : t.lexeme = .symbol .closeBrace
      · rw [braceStep_of_close hclose, if_pos hclose]
        cases stack with
        | nil => rfl
        | cons opening outer => simp [List.countP_cons, Nat.add_comm]
      · simp [braceStep_of_other hopen hclose, hclose]

end

end Token

namespace Document

open Token

/-! ### Indentation -/

/-- The braces open at the start of the line with the given number. -/
def openAt (doc : Document) (i : Nat) : List Token :=
  openBehind [] (doc.tokensBefore i)

/-- How many of the braces that the line closes were opened on a line of the given kind. -/
def closedOn (doc : Document) (i : Nat) (opened : Int → Bool) : Nat :=
  (bracePairs [] (Scan.ofLines doc.lines).tokens).countP fun pair =>
    decide (pair.2.loc.line = (i : Int)) && opened pair.1.loc.line

/-- How far the row of the line is indented: by the braces opened on earlier lines, less those closed
there or on the line itself. -/
def indent (doc : Document) (i : Nat) : Nat :=
  (braces (doc.tokensBefore i)).1 - (braces (doc.tokensBefore (i + 1))).2

variable {doc : Document} {i : Nat}

theorem line_lt_of_mem_openAt {t : Token} (h : t ∈ doc.openAt i) : t.loc.line < i := by
  rcases mem_openBehind h with hnone | hmem
  · exact absurd hnone List.not_mem_nil
  · exact line_lt_of_mem_tokensBefore hmem

theorem closedOn_eq (h : i < doc.lines.length) (opened : Int → Bool) :
    doc.closedOn i opened =
      (bracePairs (doc.openAt i) (doc.tokensOn i)).countP fun pair => opened pair.1.loc.line := by
  -- A pair counts for the line of its closing brace, so the tokens of the other lines add nothing.
  have helsewhere {stack tokens : List Token} (hlines : ∀ t ∈ tokens, t.loc.line ≠ i) :
      (bracePairs stack tokens).countP (fun pair => decide (pair.2.loc.line = (i : Int)) && opened pair.1.loc.line) = 0 := by
    rw [List.countP_eq_zero]
    intro pair hpair
    simp [hlines pair.2 (mem_bracePairs hpair).2]
  have hhere : (bracePairs (doc.openAt i) (doc.tokensOn i)).countP
        (fun pair => decide (pair.2.loc.line = (i : Int)) && opened pair.1.loc.line) =
      (bracePairs (doc.openAt i) (doc.tokensOn i)).countP fun pair => opened pair.1.loc.line := by
    apply List.countP_congr
    intro pair hpair
    simp [line_of_mem_tokensOn (mem_bracePairs hpair).2]
  rw [closedOn, tokens_split h, bracePairs_append, bracePairs_append, List.countP_append, List.countP_append,
    helsewhere fun t ht => Int.ne_of_lt (line_lt_of_mem_tokensBefore ht),
    helsewhere fun t ht => Int.ne_of_gt (lt_line_of_mem_tokensBehind ht), Nat.zero_add, Nat.add_zero]
  exact hhere

theorem closedOn_add_closedOn (h : i < doc.lines.length) :
    doc.closedOn i (· < (i : Int)) + doc.closedOn i (· = (i : Int)) =
      (bracePairs (doc.openAt i) (doc.tokensOn i)).length := by
  rw [closedOn_eq h, closedOn_eq h, List.length_eq_countP_add_countP (fun pair => decide (pair.1.loc.line < (i : Int)))]
  congr 1
  apply List.countP_congr
  intro pair hpair
  have hle : pair.1.loc.line ≤ i := by
    rcases (mem_bracePairs hpair).1 with hopen | hon
    · exact Int.le_of_lt (line_lt_of_mem_openAt hopen)
    · exact Int.le_of_eq (line_of_mem_tokensOn hon)
  simp only [decide_eq_true_eq]
  omega

theorem closedOn_le_length_openAt (h : i < doc.lines.length) : doc.closedOn i (· < (i : Int)) ≤ (doc.openAt i).length := by
  have hnew : ∀ t ∈ doc.tokensOn i, decide (t.loc.line < (i : Int)) = false := by
    intro t ht
    simp [line_of_mem_tokensOn ht]
  rw [closedOn_eq h]
  exact Nat.le_trans (Nat.le.intro (countP_openBehind _ hnew)) List.countP_le_length

theorem indent_eq (h : i < doc.lines.length) (hclosed : ClosesOpened [] (Scan.ofLines doc.lines).tokens) :
    doc.indent i = (doc.openAt i).length - doc.closedOn i (· < (i : Int)) - doc.closedOn i (· = (i : Int)) := by
  rw [tokens_split h, closesOpened_append, closesOpened_append] at hclosed
  have hbefore := length_openBehind hclosed.1
  have hon := length_bracePairs hclosed.2.1
  have hsum := closedOn_add_closedOn h
  rw [indent, tokensBefore_succ, braces_append]
  rw [← openAt] at hbefore hon
  rw [List.length_nil] at hbefore
  dsimp only
  omega

end Document

namespace Token

/-! ### Rows -/

/-- The text of a row that is indented by so many tabs. -/
def shownRow (number tabs : Nat) (tokens : List Token) : String :=
  Nat.repr (number + 1) ++ ":" ++ String.ofList (List.replicate tabs '\t') ++
    String.join (tokens.map fun t => "[" ++ t.lexeme.label ++ "]") ++ "\n"

theorem row_eq (doc : Document) (i : Nat) :
    row i ((braces (doc.tokensBefore i)).1 - (braces (doc.tokensBefore i)).2) (doc.tokensOn i) =
      shownRow i (doc.indent i) (doc.tokensOn i) := by
  have htabs : (((braces (doc.tokensBefore i)).1 : Int) - (braces (doc.tokensBefore i)).2 - (braces (doc.tokensOn i)).2).toNat =
      doc.indent i := by
    rw [Document.indent, Document.tokensBefore_succ, braces_append]
    dsimp only
    omega
  rw [row, htabs, shownRow]

/-- The depth that the rows are written with is a difference, since it is below zero where braces are closed that
were never opened. -/
theorem rows_eq (doc : Document) (count number : Nat) (h : number + count ≤ doc.lines.length) :
    rows (Scan.ofLines doc.lines).tokens count number
        ((braces (doc.tokensBefore number)).1 - (braces (doc.tokensBefore number)).2) =
      (List.range' number count).map fun i => shownRow i (doc.indent i) (doc.tokensOn i) := by
  induction count generalizing number with
  | zero => rfl
  | succ count ih =>
      have hdepth : ((braces (doc.tokensBefore number)).1 : Int) - (braces (doc.tokensBefore number)).2 +
            (braces (doc.tokensOn number)).1 - (braces (doc.tokensOn number)).2 =
          (braces (doc.tokensBefore (number + 1))).1 - (braces (doc.tokensBefore (number + 1))).2 := by
        rw [Document.tokensBefore_succ, braces_append]
        dsimp only
        omega
      rw [rows, Document.filter_line_tokens (by omega), hdepth, ih _ (by omega), row_eq, List.range'_succ, List.map_cons]

theorem sectionText_eq (doc : Document) :
    sectionText doc (Scan.ofLines doc.lines).tokens = "\n" ++ doc.name ++ ":\n" ++
      String.join ((List.range doc.lines.length).map fun i => shownRow i (doc.indent i) (doc.tokensOn i)) := by
  rw [sectionText, List.range_eq_range', ← rows_eq doc doc.lines.length 0 (by omega)]
  rfl

/-- The listing of documents has a row for every line, with the tokens of the line in their order; so all
tokens of a document are shown once. If every closing brace of a document has one to close, a row is indented
by the braces open at the start of its line, less those of them that the line closes, and less those that it
both opens and closes. So it shows how deep the line is exactly if there are none of these, or if the line is not
inside of any brace that it leaves open. -/
theorem listing_shows_tokens_by_line (docs : List Document) :
    listing (docs.map fun doc => (doc, (Scan.ofLines doc.lines).tokens)) =
      "Tokens:\n" ++ String.join (docs.map fun doc => "\n" ++ doc.name ++ ":\n" ++
        String.join ((List.range doc.lines.length).map fun i => shownRow i (doc.indent i) (doc.tokensOn i))) ++ "\n" ∧
    ∀ doc ∈ docs,
      (List.range doc.lines.length).flatMap doc.tokensOn = (Scan.ofLines doc.lines).tokens ∧
      (∀ i, ∀ t ∈ doc.tokensOn i, t.loc.line = i) ∧
      (ClosesOpened [] (Scan.ofLines doc.lines).tokens → ∀ i < doc.lines.length,
        let depth := (doc.openAt i).length
        let earlier := doc.closedOn i (· < (i : Int))
        let within := doc.closedOn i (· = (i : Int))
        earlier ≤ depth ∧ doc.indent i = depth - earlier - within ∧
          (doc.indent i = depth - earlier ↔ within = 0 ∨ depth = earlier)) := by
  refine ⟨?_, fun doc _ => ⟨doc.tokens_eq.symm, fun i t => Document.line_of_mem_tokensOn, ?_⟩⟩
  · rw [listing, List.map_map]
    simp only [Function.comp_def, sectionText_eq]
  · intro hclosed i hi depth earlier within
    have hle : earlier ≤ depth := Document.closedOn_le_length_openAt hi
    have hindent : doc.indent i = depth - earlier - within := Document.indent_eq hi hclosed
    refine ⟨hle, hindent, ?_⟩
    omega

def oneLineBlock : Document := ⟨"a", ["\x7b", "if (1 == 1) \x7b print(1) \x7d", "\x7d"]⟩

/-- A line that opens and closes a block is shown further out than the block that it stands in. -/
theorem oneLineBlock_shown_outside :
    let tokens := (Scan.ofLines oneLineBlock.lines).tokens
    ClosesOpened [] tokens ∧ (oneLineBlock.openAt 1).length = 1 ∧ oneLineBlock.closedOn 1 (· < 1) = 0 ∧
    listing [(oneLineBlock, tokens)] = "Tokens:\n\na:\n1:[OPEN_BRACE]\n" ++
      "2:[IF][OPEN_PAREN][INTEGER_LITERAL: 1][EQUAL][INTEGER_LITERAL: 1][CLOSE_PAREN][OPEN_BRACE][PRINT][OPEN_PAREN]" ++
      "[INTEGER_LITERAL: 1][CLOSE_PAREN][CLOSE_BRACE]\n3:[CLOSE_BRACE]\n\n" := by
  decide +kernel

def twoBranches : Document := ⟨"b", ["\x7b", "if (1 == 1) \x7b", "print(1)", "\x7d else \x7b print(2) \x7d", "\x7d"]⟩

/-- The first branch is shown at its depth, the end of it with the whole second branch is not. -/
theorem twoBranches_indent :
    ClosesOpened [] (Scan.ofLines twoBranches.lines).tokens ∧ twoBranches.indent 2 = 2 ∧
    (twoBranches.openAt 3).length - twoBranches.closedOn 3 (· < 3) = 1 ∧ twoBranches.indent 3 = 0 := by
  have hclosed : ClosesOpened [] (Scan.ofLines twoBranches.lines).tokens := by decide +kernel
  have hindent := ((listing_shows_tokens_by_line [oneLineBlock, twoBranches]).2 twoBranches (by simp)).2.2 hclosed
  refine ⟨hclosed, ?_, by decide +kernel, ?_⟩
  · rw [(hindent 2 (by decide)).2.1]
    decide +kernel
  · rw [(hindent 3 (by decide)).2.1]
    decide +kernel

end Token

end Lai
