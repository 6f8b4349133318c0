import Lai.Proofs.C.Parsing
import Lai.Proofs.C.Spelling
/-!
# Written expressions are parsed as themselves

The text of an expression or a test falls into the tokens that it was put together from, whatever texts and
names it contains, as long as nothing is written against its end. These tokens are derived as the tree of the
expression: every operation between two integers is one group, every other one is a call.
-/

namespace Lai.C

open Text

/-! ### Lexing piece by piece -/

/-- Nothing that a number or a name could take in follows. -/
def Ends (rest : List UInt8) : Prop :=
  ∀ b ∈ rest.head?, isNumberByte b = false

theorem ends_nil : Ends [] := by
  simp [Ends]

theorem ends_append {text : List UInt8} (h : (text.head?.any fun b => !isNumberByte b) = true) (rest : List UInt8) :
    Ends (text ++ rest) := by
  cases text with
  | nil => simp at h
  | cons b text => simpa [Ends] using h

/-- The text falls into these tokens where nothing is written against its end. -/
def FallsInto (text : String) (ts : List CToken) : Prop :=
  ∀ rest, Ends rest → lex (bytes text ++ rest) = (lex rest).map (ts ++ ·)

theorem FallsInto.lex_eq {text : String} {ts : List CToken} (h : FallsInto text ts) : lex (bytes text) = some ts := by
  have hwhole := h [] ends_nil
  rwa [List.append_nil, lex, Option.map_some, List.append_nil] at hwhole

theorem lex_space {b : UInt8} (h : isSpace b = true) (rest : List UInt8) : lex (b :: rest) = lex rest := by
  rw [lex, if_pos h]

theorem behindComment?_of_ne {b : UInt8} (h : b ≠ '/'.toUInt8) (rest : List UInt8) : behindComment? (b :: rest) = none := by
  have hprefix (mark : String) (hmark : (bytes mark).head? = some '/'.toUInt8) :
      (bytes mark).isPrefixOf (b :: rest) = false := by
    obtain ⟨more, hmore⟩ := List.head?_eq_some_iff.1 hmark
    rw [hmore, List.isPrefixOf, beq_false_of_ne (Ne.symm h), Bool.false_and]
  simp [behindComment?, hprefix "/*" (by decide), hprefix "//" (by decide)]

theorem lex_comment {b : UInt8} {text rest : List UInt8} (hspace : isSpace b = false)
    (h : behindComment? (b :: text) = some rest) : lex (b :: text) = lex rest := by
  rw [lex, hspace, if_neg Bool.false_ne_true]
  split
  · next hsome => rw [Option.some.inj (h.symm.trans hsome)]
  · next hnone => simp [h] at hnone

theorem lex_token {b : UInt8} {text rest : List UInt8} {t : CToken} (hspace : isSpace b = false)
    (hcomment : behindComment? (b :: text) = none) (h : readToken (b :: text) = some (t, rest)) :
    lex (b :: text) = (lex rest).map (t :: ·) := by
  rw [lex, hspace, if_neg Bool.false_ne_true]
  split
  · next hsome => simp [hcomment] at hsome
  split
  · next hnone => simp [h] at hnone
  · next hsome =>
      rw [h, Option.some.injEq, Prod.mk.injEq] at hsome
      rw [hsome.1, hsome.2]

theorem isNumberByte_of_isDigit {b : UInt8} (h : isDigit b = true) : isNumberByte b = true := by
  simp [isNumberByte, isNameByte, h]

theorem Ends.takeWhile_append {run rest : List UInt8} {p : UInt8 → Bool} (hrest : Ends rest)
    (hp : ∀ b, isNumberByte b = false → p b = false) (hrun : ∀ b ∈ run, p b = true) :
    (run ++ rest).takeWhile p = run ∧ (run ++ rest).dropWhile p = rest := by
  rw [List.takeWhile_append_of_pos hrun, List.dropWhile_append_of_pos hrun]
  cases rest with
  | nil => simp
  | cons b rest =>
      have hb : p b = false := hp b (hrest b rfl)
      simp [hb]

theorem isSpace_of_isDigit {b : UInt8} (h : isDigit b = true) : isSpace b = false := by
  simp only [isDigit, Bool.and_eq_true, decide_eq_true_eq, Char.reduceToNat] at h
  simp only [isSpace, Bool.or_eq_false_iff, beq_eq_false_iff_ne, Bool.and_eq_false_iff, decide_eq_false_iff_not]
  omega

theorem lex_number {b : UInt8} {run rest : List UInt8} (hb : isDigit b = true) (hrun : ∀ d ∈ run, isNumberByte d = true)
    (hrest : Ends rest) : lex (b :: run ++ rest) = (lex rest).map (.number (b :: run) :: ·) := by
  have hother (c : UInt8) (hc : isDigit c = false) : b ≠ c := by
    rintro rfl
    exact Bool.false_ne_true (hc.symm.trans hb)
  have hquote : b ≠ '"'.toUInt8 := hother _ (by decide)
  obtain ⟨htake, hdrop⟩ := hrest.takeWhile_append (fun _ h => h) hrun
  refine lex_token (isSpace_of_isDigit hb) (behindComment?_of_ne (hother _ (by decide)) _) ?_
  rw [List.append_eq, readToken, if_neg hquote, if_pos hb, htake, hdrop]

theorem not_isDigit_of_isNameHead {b : UInt8} (h : isNameHead b = true) : isDigit b = false ∧ isSpace b = false := by
  simp only [isNameHead, Bool.or_eq_true, Bool.and_eq_true, decide_eq_true_eq, beq_iff_eq, Char.reduceToNat] at h
  simp only [isDigit, isSpace, Bool.or_eq_false_iff, beq_eq_false_iff_ne, Bool.and_eq_false_iff, decide_eq_false_iff_not,
    Char.reduceToNat]
  omega

theorem lex_name {b : UInt8} {run rest : List UInt8} (hb : isNameHead b = true) (hrun : ∀ d ∈ run, isNameByte d = true)
    (hrest : Ends rest) : lex (b :: run ++ rest) = (lex rest).map (.name (b :: run) :: ·) := by
  have hother (c : UInt8) (hc : isNameHead c = false) : b ≠ c := by
    rintro rfl
    exact Bool.false_ne_true (hc.symm.trans hb)
  have hquote : b ≠ '"'.toUInt8 := hother _ (by decide)
  obtain ⟨hdigit, hspace⟩ := not_isDigit_of_isNameHead hb
  have hname (d : UInt8) (h : isNumberByte d = false) : isNameByte d = false := (Bool.or_eq_false_iff.1 h).1
  obtain ⟨htake, hdrop⟩ := hrest.takeWhile_append hname hrun
  refine lex_token hspace (behindComment?_of_ne (hother _ (by decide)) _) ?_
  rw [List.append_eq, readToken, if_neg hquote, hdigit, if_neg Bool.false_ne_true, if_pos hb, htake, hdrop]

theorem lex_literal (s : String) (rest : List UInt8) :
    lex (bytes (stringLiteral s) ++ rest) = (lex rest).map (.literal (bytes s) :: ·) := by
  have hread := readLiteral_stringLiteral_append s rest
  rw [bytes_stringLiteral, List.cons_append, readLiteral, if_pos rfl] at hread
  rw [bytes_stringLiteral, List.cons_append]
  refine lex_token (by decide) (behindComment?_of_ne (by decide) _) ?_
  rw [readToken, if_pos rfl, hread, Option.map_some]

theorem lex_open (rest : List UInt8) : lex (bytes "(" ++ rest) = (lex rest).map (.mark (bytes "(") :: ·) :=
  lex_token rfl rfl rfl

theorem lex_close (rest : List UInt8) : lex (bytes ")" ++ rest) = (lex rest).map (.mark (bytes ")") :: ·) :=
  lex_token rfl rfl rfl

theorem lex_comma (rest : List UInt8) : lex (bytes ", " ++ rest) = (lex rest).map (.mark (bytes ",") :: ·) := by
  have hcomma : lex (bytes "," ++ (bytes " " ++ rest)) = (lex (bytes " " ++ rest)).map (.mark (bytes ",") :: ·) :=
    lex_token rfl rfl rfl
  have hspace : lex (bytes " " ++ rest) = lex rest := lex_space rfl rest
  rw [hspace] at hcomma
  exact hcomma

theorem lex_operator (op : BinaryOp) (rest : List UInt8) :
    lex (bytes " " ++ (op.spelling ++ (bytes " " ++ rest))) = (lex rest).map (op.token :: ·) := by
  have hspace (rest : List UInt8) : lex (bytes " " ++ rest) = lex rest := lex_space rfl rest
  have htoken : lex (op.spelling ++ (bytes " " ++ rest)) = (lex (bytes " " ++ rest)).map (op.token :: ·) := by
    cases op with
    | math op => cases op <;> exact lex_token rfl rfl rfl
    | compare op => cases op <;> exact lex_token rfl rfl rfl
  rw [hspace, htoken, hspace]

/-! ### Numbers and names -/

theorem toNat_of_isAlpha {c : Char} (h : c.isAlpha = true) :
    'A'.toNat ≤ c.toNat ∧ c.toNat ≤ 'Z'.toNat ∨ 'a'.toNat ≤ c.toNat ∧ c.toNat ≤ 'z'.toNat := by
  have hletter : (decide (c.val ≥ 'A'.val ∧ c.val ≤ 'Z'.val) ||
      (decide (c.val ≥ 'a'.val) && decide (c.val ≤ 'z'.val))) = true := h
  simpa [UInt32.le_iff_toNat_le] using hletter

theorem isDigit_toUInt8 {c : Char} (h : c.isDigit = true) : isDigit c.toUInt8 = true := by
  have hcode := Char.isDigit_iff_toNat.1 h
  have hbyte : c.toUInt8.toNat = c.toNat := toNat_toUInt8 (Nat.lt_of_le_of_lt hcode.2 (by decide))
  simpa [isDigit, hbyte] using hcode

theorem isNameHead_toUInt8 {c : Char} (h : c.isAlpha = true) : isNameHead c.toUInt8 = true := by
  have hcode := toNat_of_isAlpha h
  simp only [Char.reduceToNat] at hcode
  have hbyte : c.toUInt8.toNat = c.toNat := toNat_toUInt8 (by omega)
  simp only [isNameHead, hbyte, Bool.or_eq_true, Bool.and_eq_true, decide_eq_true_eq, beq_iff_eq, Char.reduceToNat]
  omega

theorem toNat_lt_of_isWordChar {c : Char} (h : isWordChar c = true) : c.toNat < 128 := by
  rw [isWordChar, Char.isAlphanum, Bool.or_eq_true, Bool.or_eq_true, beq_iff_eq] at h
  rcases h with (halpha | hdigit) | rfl
  · have hcode := toNat_of_isAlpha halpha
    simp only [Char.reduceToNat] at hcode
    omega
  · exact Nat.lt_of_le_of_lt (Char.isDigit_iff_toNat.1 hdigit).2 (by decide)
  · decide

theorem isNameByte_of_isWordChar {c : Char} (h : isWordChar c = true) : isNameByte c.toUInt8 = true := by
  rw [isWordChar, Char.isAlphanum, Bool.or_eq_true, Bool.or_eq_true, beq_iff_eq] at h
  rcases h with (halpha | hdigit) | rfl
  · simp [isNameByte, isNameHead_toUInt8 halpha]
  · simp [isNameByte, isDigit_toUInt8 hdigit]
  · decide

theorem bytes_repr (n : Nat) : bytes n.repr = (Nat.toDigits 10 n).map Char.toUInt8 := by
  rw [bytes_eq_map fun c hc => toNat_lt_of_isWordChar (isWordChar_of_mem_repr hc), Nat.toList_repr]

/-- A number is written without zeros in front. -/
theorem eq_nil_of_toDigits_eq_cons {n : Nat} {rest : List Char} (h : Nat.toDigits 10 n = '0' :: rest) : rest = [] := by
  induction n using Nat.strongRecOn generalizing rest with
  | ind n ih =>
      rw [Nat.toDigits_eq_if (by decide)] at h
      split at h
      · exact (List.cons.inj h).2.symm
      · next hge =>
          obtain ⟨first, more, hfront⟩ := List.exists_cons_of_ne_nil (Nat.toDigits_ne_nil (b := 10) (n := n / 10))
          rw [hfront, List.cons_append, List.cons.injEq] at h
          have hmore := ih (n / 10) (by omega) (h.1 ▸ hfront)
          have hdigits : Nat.toDigits 10 (n / 10) = Nat.toDigits 10 0 := by
            rw [hfront, h.1, hmore]
            rfl
          have hzero := toDigits_inj (by decide) (by decide) hdigits
          omega

theorem isDigit_of_mem_repr {n : Nat} {b : UInt8} (h : b ∈ bytes n.repr) : isDigit b = true := by
  rw [bytes_repr] at h
  obtain ⟨c, hc, rfl⟩ := List.mem_map.1 h
  exact isDigit_toUInt8 (Nat.isDigit_of_mem_toDigits (by decide) (by decide) hc)

theorem valueOf_bytes_repr (n : Nat) : valueOf 10 (bytes n.repr) = n := by
  have hfold : valueOf 10 (bytes n.repr) = Nat.ofDigitChars 10 (Nat.toDigits 10 n) 0 := by
    rw [valueOf, bytes_repr, List.foldl_map]
    refine List.foldl_ext _ _ _ fun m c hc => ?_
    have hcode := Char.isDigit_iff_toNat.1 (Nat.isDigit_of_mem_toDigits (by decide) (by decide) hc)
    rw [toNat_toUInt8 (Nat.lt_of_le_of_lt hcode.2 (by decide))]
  rw [hfold, Nat.ofDigitChars_toDigits (by decide) (by decide)]

theorem exists_bytes_repr (n : Nat) : ∃ first rest, bytes n.repr = first :: rest ∧ (first = '0'.toUInt8 → rest = []) := by
  obtain ⟨c, cs, heq⟩ := List.exists_cons_of_ne_nil (Nat.toDigits_ne_nil (b := 10) (n := n))
  refine ⟨c.toUInt8, cs.map Char.toUInt8, by rw [bytes_repr, heq, List.map_cons], fun hzero => ?_⟩
  have hdigit := Nat.isDigit_of_mem_toDigits (n := n) (by decide) (by decide) (heq ▸ List.mem_cons_self)
  have hcode := Char.isDigit_iff_toNat.1 hdigit
  obtain rfl : c = '0' := by
    by_contra hne
    exact toUInt8_ne (Nat.lt_of_le_of_lt hcode.2 (by decide)) (by decide) hne hzero
  rw [eq_nil_of_toDigits_eq_cons heq, List.map_nil]

/-- A number is read as decimal and as what it is. -/
theorem constant?_repr (n : Nat) : constant? (bytes n.repr) = some (.decimal, n) := by
  obtain ⟨first, rest, heq, hzero⟩ := exists_bytes_repr n
  have hdecimal : ¬ (first = '0'.toUInt8 ∧ rest ≠ []) := fun h => h.2 (hzero h.1)
  have hdigits : (first :: rest).all isDigit = true :=
    List.all_eq_true.2 fun b hb => isDigit_of_mem_repr (heq ▸ hb)
  have hvalue := valueOf_bytes_repr n
  rw [heq] at hvalue ⊢
  rw [constant?, if_neg hdecimal, if_pos hdigits, hvalue]

/-- A sign is not taken for the beginning of a longer mark where a digit follows. -/
theorem lex_minus {b : UInt8} (hb : isDigit b = true) (rest : List UInt8) :
    lex (bytes "-" ++ b :: rest) = (lex (b :: rest)).map (.mark (bytes "-") :: ·) := by
  obtain ⟨k, rfl⟩ : ∃ k : Fin 10, b = UInt8.ofNat ('0'.toNat + k.val) := by
    simp only [isDigit, Bool.and_eq_true, decide_eq_true_eq, Char.reduceToNat] at hb
    refine ⟨⟨b.toNat - 48, by omega⟩, UInt8.toNat_inj.1 ?_⟩
    simp only [UInt8.toNat_ofNat', Char.reduceToNat]
    omega
  have hread : ∀ k : Fin 10, readToken (bytes "-" ++ UInt8.ofNat ('0'.toNat + k.val) :: rest) =
      some (.mark (bytes "-"), UInt8.ofNat ('0'.toNat + k.val) :: rest)
    | 0 | 1 | 2 | 3 | 4 | 5 | 6 | 7 | 8 | 9 => rfl
  exact lex_token rfl rfl (hread k)

theorem lex_repr (n : Nat) {rest : List UInt8} (hrest : Ends rest) :
    lex (bytes n.repr ++ rest) = (lex rest).map (.number (bytes n.repr) :: ·) := by
  obtain ⟨first, run, heq, -⟩ := exists_bytes_repr n
  have hdigits (b : UInt8) (hb : b ∈ first :: run) : isDigit b = true := isDigit_of_mem_repr (heq ▸ hb)
  rw [heq]
  refine lex_number (hdigits first List.mem_cons_self) (fun b hb => ?_) hrest
  exact isNumberByte_of_isDigit (hdigits b (List.mem_cons_of_mem first hb))

theorem Var.bytes_text (v : Var) : bytes v.text = v.text.toList.map Char.toUInt8 :=
  bytes_eq_map fun _ hc => toNat_lt_of_isWordChar (v.isWordChar_of_mem_text hc)

theorem fallsInto_name {name : String} (hhead : ((bytes name).head?.any isNameHead) = true)
    (hall : (bytes name).all isNameByte = true) : FallsInto name [.name (bytes name)] := by
  intro rest hrest
  cases heq : bytes name with
  | nil => simp [heq] at hhead
  | cons b run =>
      rw [heq] at hhead hall
      exact lex_name hhead (fun d hd => List.all_eq_true.1 hall d (List.mem_cons_of_mem b hd)) hrest

theorem Var.fallsInto_text (v : Var) : FallsInto v.text [.name (bytes v.text)] := by
  obtain ⟨cs, htext⟩ : ∃ cs, v.text.toList = 'l' :: cs := ⟨_, v.toList_text⟩
  refine fallsInto_name ?_ (List.all_eq_true.2 fun b hb => ?_)
  · rw [v.bytes_text, htext]
    rfl
  · rw [v.bytes_text] at hb
    obtain ⟨c, hc, rfl⟩ := List.mem_map.1 hb
    exact isNameByte_of_isWordChar (v.isWordChar_of_mem_text hc)

theorem Var.text_notMem_cKeywords (v : Var) : bytes v.text ∉ cKeywords := by
  intro h
  have hall : ∀ word ∈ cKeywords, word.take 6 ≠ bytes "lai_v_" := by decide
  refine hall _ h ?_
  rw [v.bytes_text, ← List.map_take, v.take_text]
  rfl

/-! ### Operations -/

/-- A chain can be read as one of looser operators. -/
theorem DerivesTree.loosen {j k : Nat} {ts : List CToken} {e : CTree} (hle : k ≤ j) (h : DerivesTree (.chain j) ts [e]) :
    DerivesTree (.chain k) ts [e] := by
  induction hle with
  | refl => exact h
  | step _ ih => exact ih h.tighter

theorem derives_binary (op : BinaryOp) {ts us : List CToken} {e f : CTree}
    (he : DerivesTree (.chain signPrecedence) ts [e]) (hf : DerivesTree (.chain signPrecedence) us [f]) :
    DerivesTree (.chain 1) (ts ++ op.token :: us) [.binary op e f] := by
  have hlt := op.precedence_lt
  have hpositive : 1 ≤ op.precedence := by
    cases op with
    | math op => exact Nat.le_add_left 1 _
    | compare op => exact Nat.le_refl 1
  exact (DerivesTree.binary op (he.loosen (Nat.le_of_lt hlt)) (hf.loosen hlt)).loosen hpositive

theorem fallsInto_binary (op : BinaryOp) {left right : String} {ts us : List CToken} (hleft : FallsInto left ts)
    (hright : FallsInto right us) : FallsInto (left ++ " " ++ op.text ++ " " ++ right) (ts ++ op.token :: us) := by
  intro rest hrest
  have hop := lex_operator op (bytes right ++ rest)
  rw [BinaryOp.spelling] at hop
  simp only [bytes_append, List.append_assoc]
  rw [hleft _ (ends_append (by decide) _), hop, hright _ hrest]
  simp [Function.comp_def]

/-- The tree of an integer constant, which has its sign in front. -/
def CTree.ofInt : Int → CTree
  | .ofNat n => .constant .decimal n
  | .negSucc n => .minus (.constant .decimal (n + 1))

theorem CTree.ofInt_inj {m n : Int} (h : CTree.ofInt m = CTree.ofInt n) : m = n := by
  cases m <;> cases n <;> simp_all [CTree.ofInt]

def CTree.isInteger : CTree → Bool
  | .constant .. | .minus _ => true
  | _ => false

theorem CTree.isInteger_ofInt (n : Int) : (CTree.ofInt n).isInteger = true := by
  cases n <;> rfl

theorem CTree.ne_ofInt {t : CTree} (ht : t.isInteger = false) (n : Int) : t ≠ .ofInt n := by
  rintro rfl
  exact Bool.false_ne_true (ht.symm.trans (isInteger_ofInt n))

/-- The tree of a call of a function of the given name. -/
def CTree.ofCall (name : String) (arguments : List CTree) : CTree :=
  .call (.name (bytes name)) arguments

def intTokens : Int → List CToken
  | .ofNat n => [.number (bytes n.repr)]
  | .negSucc n => [.mark (bytes "-"), .number (bytes (n + 1).repr)]

/-- The tokens of a call with two arguments. -/
def callTokens (name : String) (first second : List CToken) : List CToken :=
  [.name (bytes name)] ++ .mark (bytes "(") :: (first ++ .mark (bytes ",") :: second) ++ [.mark (bytes ")")]

theorem derives_intTokens (n : Int) : DerivesTree (.chain signPrecedence) (intTokens n) [.ofInt n] := by
  cases n with
  | ofNat n => exact .operand (.constant (constant?_repr n))
  | negSucc n => exact .minus (.operand (.constant (constant?_repr (n + 1))))

theorem derives_callTokens {name : String} (hname : bytes name ∉ cKeywords) {ts us : List CToken} {e f : CTree}
    (hfirst : DerivesTree (.chain 1) ts [e]) (hsecond : DerivesTree (.chain 1) us [f]) :
    DerivesTree .operand (callTokens name ts us) [.ofCall name [e, f]] :=
  .call (.name hname) (.arguments (.argument hfirst) hsecond)

theorem fallsInto_decimal (n : Int) : FallsInto (Text.decimal n) (intTokens n) := by
  intro rest hrest
  cases n with
  | ofNat n => exact lex_repr n hrest
  | negSucc n =>
      obtain ⟨first, run, heq, -⟩ := exists_bytes_repr (n + 1)
      have hfirst : isDigit first = true := isDigit_of_mem_repr (n := n + 1) (heq ▸ List.mem_cons_self)
      have hnumber := lex_repr (n + 1) hrest
      rw [heq, List.cons_append] at hnumber
      rw [Text.decimal, bytes_append, List.append_assoc, heq, List.cons_append, lex_minus hfirst, hnumber, Option.map_map,
        intTokens, heq]
      rfl

/-- The text of a call with two arguments. -/
def callText (name first second : String) : String :=
  name ++ "(" ++ first ++ ", " ++ second ++ ")"

theorem fallsInto_call {name first second : String} {ts us : List CToken} (hname : FallsInto name [.name (bytes name)])
    (hfirst : FallsInto first ts) (hsecond : FallsInto second us) :
    FallsInto (callText name first second) (callTokens name ts us) := by
  intro rest _
  simp only [callText, bytes_append, List.append_assoc]
  rw [hname _ (ends_append (by decide) _), lex_open, hfirst _ (ends_append (by decide) _), lex_comma,
    hsecond _ (ends_append (by decide) _), lex_close]
  simp [callTokens, Function.comp_def]

/-! ### Expressions -/

namespace Expr

def tree : Expr → CTree
  | .int value => .ofInt value.toInt
  | .string value => .literal (bytes value)
  | .var v => .name (bytes v.text)
  | .math op left right => .group (.binary (.math op) left.tree right.tree)
  | .concat left right => .ofCall "lai_rt_concat" [left.tree, right.tree]

def tokens : Expr → List CToken
  | .int value => intTokens value.toInt
  | .string value => [.literal (bytes value)]
  | .var v => [.name (bytes v.text)]
  | .math op left right =>
    .mark (bytes "(") :: (left.tokens ++ (BinaryOp.math op).token :: right.tokens) ++ [.mark (bytes ")")]
  | .concat left right => callTokens "lai_rt_concat" left.tokens right.tokens

theorem derives_tokens : (e : Expr) → DerivesTree (.chain signPrecedence) e.tokens [e.tree]
  | .int value => derives_intTokens value.toInt
  | .string value => .operand (.literal (bytes value))
  | .var v => .operand (.name v.text_notMem_cKeywords)
  | .math op left right => .operand (.group (derives_binary (.math op) left.derives_tokens right.derives_tokens))
  | .concat left right =>
      .operand (derives_callTokens (by decide) (left.derives_tokens.loosen (by decide))
        (right.derives_tokens.loosen (by decide)))

theorem text_math (op : MathOp) (left right : Expr) :
    (math op left right).text = "(" ++ left.text ++ " " ++ op.text ++ " " ++ right.text ++ ")" := rfl

theorem text_concat (left right : Expr) : (concat left right).text = callText "lai_rt_concat" left.text right.text := rfl

theorem fallsInto_text : (e : Expr) → FallsInto e.text e.tokens
  | .int value => fallsInto_decimal value.toInt
  | .string value => fun rest _ => lex_literal value rest
  | .var v => v.fallsInto_text
  | .math op left right => by
      intro rest _
      have hinside := fallsInto_binary (.math op) left.fallsInto_text right.fallsInto_text (bytes ")" ++ rest)
        (ends_append (by decide) _)
      simp only [bytes_append, List.append_assoc, BinaryOp.text] at hinside
      simp only [text_math, bytes_append, List.append_assoc]
      rw [lex_open, hinside, lex_close]
      simp [tokens, Function.comp_def]
  | .concat left right => by
      rw [text_concat]
      exact fallsInto_call (fallsInto_name (by decide) (by decide)) left.fallsInto_text right.fallsInto_text

/-- The text of an expression has one parse, the tree of the expression. -/
theorem parses_text_iff (e : Expr) (t : CTree) : Parses (bytes e.text) t ↔ t = e.tree := by
  have htree : Parses (bytes e.text) e.tree :=
    ⟨e.tokens, e.fallsInto_text.lex_eq, e.derives_tokens.loosen (by decide)⟩
  exact htree.iff_eq

end Expr

/-! ### Tests -/

namespace Test

def tree (t : Test) : CTree :=
  match t.type with
  | .int => .binary (.compare t.op) t.left.tree t.right.tree
  | .string => .binary (.compare t.op) (.ofCall "strcmp" [t.left.tree, t.right.tree]) (.constant .decimal 0)

def tokens (t : Test) : List CToken :=
  match t.type with
  | .int => t.left.tokens ++ (BinaryOp.compare t.op).token :: t.right.tokens
  | .string => callTokens "strcmp" t.left.tokens t.right.tokens ++ (BinaryOp.compare t.op).token :: intTokens 0

theorem derives_tokens (t : Test) : DerivesTree (.chain 1) t.tokens [t.tree] := by
  obtain ⟨type, op, left, right⟩ := t
  cases type with
  | int => exact derives_binary (.compare op) left.derives_tokens right.derives_tokens
  | string =>
      have hcall : DerivesTree .operand (callTokens "strcmp" left.tokens right.tokens)
          [.ofCall "strcmp" [left.tree, right.tree]] :=
        derives_callTokens (by decide) (left.derives_tokens.loosen (by decide)) (right.derives_tokens.loosen (by decide))
      exact derives_binary (.compare op) (.operand hcall) (derives_intTokens 0)

theorem bytes_text_string (op : CompareOp) (left right : Expr) : bytes (text ⟨.string, op, left, right⟩) =
    bytes (callText "strcmp" left.text right.text ++ " " ++ (BinaryOp.compare op).text ++ " " ++ Text.decimal 0) := by
  have htext : text ⟨.string, op, left, right⟩ =
    "strcmp(" ++ left.text ++ ", " ++ right.text ++ ") " ++ op.text ++ " 0" := rfl
  simp only [htext, callText, BinaryOp.text, bytes_append, List.append_assoc]
  rfl

theorem fallsInto_text (t : Test) : FallsInto t.text t.tokens := by
  obtain ⟨type, op, left, right⟩ := t
  cases type with
  | int => exact fallsInto_binary (.compare op) left.fallsInto_text right.fallsInto_text
  | string =>
      intro rest hrest
      have hname : FallsInto "strcmp" [.name (bytes "strcmp")] := fallsInto_name (by decide) (by decide)
      have hcall := fallsInto_call hname left.fallsInto_text right.fallsInto_text
      rw [bytes_text_string]
      exact fallsInto_binary (.compare op) hcall (fallsInto_decimal 0) rest hrest

/-- The text of a test has one parse, the tree of the test. -/
theorem parses_text_iff (t : Test) (e : CTree) : Parses (bytes t.text) e ↔ e = t.tree :=
  Parses.iff_eq ⟨t.tokens, t.fallsInto_text.lex_eq, t.derives_tokens⟩

end Test

end Lai.C
