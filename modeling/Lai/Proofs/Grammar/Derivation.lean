import Lai.Proofs.Grammar.Rules
/-!
# Derivations and trees

A sequence of tokens spells statements exactly if its kinds can be derived from the rules. In one
direction the derivation is built along what is spelled; in the other, what the rules spell is closed
under the right side of each of them, and so holds of everything that can be derived.
-/

namespace Lai.Grammar

def kinds (ts : List Token) : List Token.Kind :=
  ts.map fun t => t.lexeme.kind

@[simp] theorem kinds_nil : kinds [] = [] := rfl

@[simp] theorem kinds_cons (t : Token) (ts : List Token) : kinds (t :: ts) = t.lexeme.kind :: kinds ts := rfl

@[simp] theorem kinds_append (ts us : List Token) : kinds (ts ++ us) = kinds ts ++ kinds us :=
  List.map_append

@[simp] theorem kind_symbol (s : Symbol) : (Lexeme.symbol s).kind = .symbol s := rfl

theorem kind_eq_symbol {lexeme : Lexeme} {s : Symbol} : lexeme.kind = .symbol s ↔ lexeme = .symbol s := by
  cases lexeme <;> simp [Lexeme.kind]

theorem kind_eq_integer {lexeme : Lexeme} : lexeme.kind = .integer ↔ ∃ value, lexeme = .integer value := by
  cases lexeme <;> simp [Lexeme.kind]

theorem kind_eq_string {lexeme : Lexeme} : lexeme.kind = .string ↔ ∃ text, lexeme = .string text := by
  cases lexeme <;> simp [Lexeme.kind]

theorem kind_eq_identifier {lexeme : Lexeme} : lexeme.kind = .identifier ↔ ∃ name, lexeme = .identifier name := by
  cases lexeme <;> simp [Lexeme.kind]

/-! ### What is spelled can be derived -/

theorem Derives.snoc {form : Form} {ks ls : List Token.Kind} (h : Derives (.repeated form) ks)
    (hlast : Derives form ls) : Derives (.repeated form) (ks ++ ls) := by
  generalize hrepeated : Form.repeated form = repeated at h
  induction h with
  | none =>
      cases hrepeated
      simpa using Derives.more hlast (.none form)
  | more hfirst hmore ihfirst ihmore =>
      cases hrepeated
      rw [List.append_assoc]
      exact .more hfirst (ihmore rfl)
  | _ => cases hrepeated

theorem derives_rule_iff {r : Rule} {ks : List Token.Kind} : Derives (.rule r) ks ↔ Derives r.form ks := by
  constructor
  · rintro ⟨⟩
    assumption
  · exact .rule

theorem derives_followed_iff {first second : Form} {ks : List Token.Kind} :
    Derives (first ++ second) ks ↔ ∃ us vs, Derives first us ∧ Derives second vs ∧ ks = us ++ vs := by
  constructor
  · intro h
    cases h with
    | followed hfirst hsecond => exact ⟨_, _, hfirst, hsecond, rfl⟩
  · rintro ⟨us, vs, hfirst, hsecond, rfl⟩
    exact .followed hfirst hsecond

theorem derives_symbol (s : Symbol) : Derives (.symbol s) [.symbol s] :=
  .token _

theorem derives_sum_operator {lexeme : Lexeme} {op : MathOp} (hop : MathOp.ofLexeme? lexeme = some op)
    (hrank : op = .add ∨ op = .subtract) : Derives (.symbol .plus ||| .symbol .minus) [lexeme.kind] := by
  unfold MathOp.ofLexeme? at hop
  split at hop <;> simp only [Option.some.injEq, reduceCtorEq] at hop <;> subst hop <;> simp at hrank
  · exact .left (.token _)
  · exact .right (.token _)

theorem derives_product_operator {lexeme : Lexeme} {op : MathOp} (hop : MathOp.ofLexeme? lexeme = some op)
    (hrank : op = .multiply ∨ op = .divide) : Derives (.symbol .asterisk ||| .symbol .slash) [lexeme.kind] := by
  unfold MathOp.ofLexeme? at hop
  split at hop <;> simp only [Option.some.injEq, reduceCtorEq] at hop <;> subst hop <;> simp at hrank
  · exact .left (.token _)
  · exact .right (.token _)

theorem derives_comparison {lexeme : Lexeme} {op : CompareOp} (hop : CompareOp.ofLexeme? lexeme = some op) :
    Derives (.symbol .equal ||| .symbol .notEqual) [lexeme.kind] := by
  unfold CompareOp.ofLexeme? at hop
  split at hop
  · exact .left (.token _)
  · exact .right (.token _)
  · simp at hop

theorem derives_typeName {lexeme : Lexeme} {type : Ty} (htype : Ty.ofLexeme? lexeme = some type) :
    Derives (.rule .typeName) [lexeme.kind] := by
  unfold Ty.ofLexeme? Ty.ofSymbol? at htype
  split at htype
  · split at htype
    · exact .rule (.left (.token _))
    · exact .rule (.right (.token _))
    · simp at htype
  · simp at htype

/-- The rule for expressions of the rank. -/
def Rank.rule : Rank → Rule
  | .expr => .expr
  | .term => .term
  | .factor => .factor

theorem SpellsExpr.derives {rank : Rank} {ts : List Token} {e : Expr Unit} (h : SpellsExpr rank ts e) :
    Derives (.rule rank.rule) (kinds ts) := by
  induction h with
  | int => exact .rule (.left (.left (.left (.token _))))
  | string => exact .rule (.left (.left (.right (.token _))))
  | var => exact .rule (.left (.right (.token _)))
  | group start finish h ih =>
      rw [kinds_append]
      exact .rule (.right (.followed (.followed (derives_symbol .openParen) ih) (derives_symbol .closeParen)))
  | factor h ih => simpa [Rank.rule] using Derives.rule (r := .term) (.followed ih (.none _))
  | product hleft hop hrank hright ihleft ihright =>
      obtain ⟨us, vs, hfirst, hmore, hsplit⟩ := derives_followed_iff.1 (derives_rule_iff.1 ihleft)
      have hlast := Derives.followed (derives_product_operator hop hrank) ihright
      have hterm := Derives.rule (r := .term) (.followed hfirst (hmore.snoc hlast))
      rw [kinds_append, hsplit, kinds_cons]
      simpa [Rank.rule] using hterm
  | term h ih => simpa [Rank.rule] using Derives.rule (r := .expr) (.followed ih (.none _))
  | sum hleft hop hrank hright ihleft ihright =>
      obtain ⟨us, vs, hfirst, hmore, hsplit⟩ := derives_followed_iff.1 (derives_rule_iff.1 ihleft)
      have hlast := Derives.followed (derives_sum_operator hop hrank) ihright
      have hexpr := Derives.rule (r := .expr) (.followed hfirst (hmore.snoc hlast))
      rw [kinds_append, hsplit, kinds_cons]
      simpa [Rank.rule] using hexpr

theorem SpellsTest.derives {ts : List Token} {cond : Condition Unit} (h : SpellsTest ts cond) (loc : Location) :
    Derives (.symbol .ifWord ++ .symbol .openParen ++ .rule .expr ++ (.symbol .equal ||| .symbol .notEqual)
      ++ .rule .expr ++ .symbol .closeParen) (kinds (⟨.symbol .ifWord, loc⟩ :: ts)) := by
  cases h with
  | test start finish hleft hop hright =>
      have htest := Derives.followed (.followed (.followed (.followed
        (.followed (derives_symbol .ifWord) (derives_symbol .openParen)) hleft.derives) (derives_comparison hop))
        hright.derives) (derives_symbol .closeParen)
      simpa [Rank.rule] using htest

def Part.form : Part → Form
  | .program => .program
  | .statement => .rule .statement
  | .conditional => .rule .conditional
  | .block => .rule .block

theorem Spells.derives {part : Part} {ts : List Token} {stmts : List Stmt} (h : Spells part ts stmts) :
    Derives part.form (kinds ts) := by
  induction h with
  | nil => exact .none _
  | cons hfirst hrest ihfirst ihrest =>
      rw [kinds_append]
      exact .more ihfirst ihrest
  | infer name loc mark hvalue =>
      exact .rule (.left (.left (.left (.left (.left (.followed (.followed (.token _) (.token _)) hvalue.derives))))))
  | declare name loc mark htype =>
      exact .rule (.left (.left (.left (.left (.right (.followed
        (.followed (.followed (.token _) (.token _)) (derives_typeName htype)) (.absent _)))))))
  | initial name loc mark equals htype hvalue =>
      exact .rule (.left (.left (.left (.left (.right (.followed
        (.followed (.followed (.token _) (.token _)) (derives_typeName htype))
        (.present (.followed (.token _) hvalue.derives))))))))
  | assign name loc mark hvalue =>
      exact .rule (.left (.left (.left (.right (.followed (.followed (.token _) (.token _)) hvalue.derives)))))
  | print loc start finish hvalue =>
      rw [kinds_append]
      exact .rule (.left (.left (.right (.followed
        (.followed (.followed (.token _) (.token _)) hvalue.derives) (derives_symbol .closeParen)))))
  | ofConditional h ih => exact .rule (.left (.right ih))
  | ofBlock h ih => exact .rule (.right ih)
  | block start finish hbody ih =>
      rw [kinds_append]
      exact .rule (.followed (.followed (derives_symbol .openBrace) ih) (derives_symbol .closeBrace))
  | ifThen loc hcond hbody ih =>
      have hif := Derives.rule (r := .conditional) (.followed (.followed (hcond.derives loc) ih) (.absent _))
      simpa [Part.form] using hif
  | ifElse loc mark hcond hbody hlast ihbody ihlast =>
      have hif := Derives.rule (r := .conditional) (.followed (.followed (hcond.derives loc) ihbody)
        (.present (.followed (derives_symbol .elseWord) (.left ihlast))))
      simpa [Part.form] using hif
  | elseIf loc mark hcond hbody hlast ihbody ihlast =>
      have hif := Derives.rule (r := .conditional) (.followed (.followed (hcond.derives loc) ihbody)
        (.present (.followed (derives_symbol .elseWord) (.right ihlast))))
      simpa [Part.form] using hif

/-! ### What can be derived is spelled -/

/-- The sequences of tokens that a form stands for, given those of each rule. -/
def Form.Yields (meaning : Rule → List Token → Prop) : Form → List Token → Prop
  | .token kind, ts => ∃ t, t.lexeme.kind = kind ∧ ts = [t]
  | .rule r, ts => meaning r ts
  | .followed first second, ts => ∃ us vs, first.Yields meaning us ∧ second.Yields meaning vs ∧ ts = us ++ vs
  | .either first second, ts => first.Yields meaning ts ∨ second.Yields meaning ts
  | .optional form, ts => ts = [] ∨ form.Yields meaning ts
  | .repeated form, ts => ∃ parts : List (List Token), (∀ part ∈ parts, form.Yields meaning part) ∧ ts = parts.flatten

/-- What is closed under the right sides of the rules holds of everything that can be derived. -/
theorem Derives.yields {meaning : Rule → List Token → Prop}
    (hclosed : ∀ (r : Rule) (ts : List Token), r.form.Yields meaning ts → meaning r ts) {form : Form}
    {ks : List Token.Kind} (h : Derives form ks) {ts : List Token} (hts : kinds ts = ks) : form.Yields meaning ts := by
  induction h generalizing ts with
  | token kind =>
      obtain ⟨t, us, rfl, ht, hus⟩ := List.map_eq_cons_iff.1 hts
      exact ⟨t, ht, by rw [List.map_eq_nil_iff.1 hus]⟩
  | rule h ih => exact hclosed _ _ (ih hts)
  | followed hfirst hsecond ihfirst ihsecond =>
      obtain ⟨us, vs, rfl, hus, hvs⟩ := List.map_eq_append_iff.1 hts
      exact ⟨us, vs, ihfirst hus, ihsecond hvs, rfl⟩
  | left h ih => exact Or.inl (ih hts)
  | right h ih => exact Or.inr (ih hts)
  | absent form => exact Or.inl (List.map_eq_nil_iff.1 hts)
  | present h ih => exact Or.inr (ih hts)
  | none form => exact ⟨[], by simp, List.map_eq_nil_iff.1 hts⟩
  | more h hmore ih ihmore =>
      obtain ⟨us, vs, rfl, hus, hvs⟩ := List.map_eq_append_iff.1 hts
      obtain ⟨parts, hparts, rfl⟩ := ihmore hvs
      exact ⟨us :: parts, by simpa using ⟨ih hus, hparts⟩, rfl⟩

/-- The tokens spell what the rule is for. -/
def Rule.Spelled : Rule → List Token → Prop
  | .statement, ts => ∃ stmt, Spells .statement ts [stmt]
  | .conditional, ts => ∃ stmt, Spells .conditional ts [stmt]
  | .block, ts => ∃ body brace, Spells .block ts [.block body brace]
  | .expr, ts => ∃ e, SpellsExpr .expr ts e
  | .term, ts => ∃ e, SpellsExpr .term ts e
  | .factor, ts => ∃ e, SpellsExpr .factor ts e
  | .typeName, ts => ∃ t type, Ty.ofLexeme? t.lexeme = some type ∧ ts = [t]

section

variable {meaning : Rule → List Token → Prop} {ts : List Token}

theorem yields_symbol_iff {s : Symbol} : (Form.symbol s).Yields meaning ts ↔ ∃ loc, ts = [⟨.symbol s, loc⟩] := by
  constructor
  · rintro ⟨⟨lexeme, loc⟩, hkind, rfl⟩
    obtain rfl : lexeme = .symbol s := kind_eq_symbol.1 hkind
    exact ⟨loc, rfl⟩
  · rintro ⟨loc, rfl⟩
    exact ⟨_, rfl, rfl⟩

end

theorem spelled_typeName {ts : List Token} (h : Rule.typeName.form.Yields Rule.Spelled ts) : Rule.typeName.Spelled ts := by
  rcases h with h | h <;> obtain ⟨loc, rfl⟩ := yields_symbol_iff.1 h
  · exact ⟨_, .int, rfl, rfl⟩
  · exact ⟨_, .string, rfl, rfl⟩

theorem spelled_factor {ts : List Token} (h : Rule.factor.form.Yields Rule.Spelled ts) : Rule.factor.Spelled ts := by
  rcases h with ((⟨⟨lexeme, loc⟩, hkind, rfl⟩ | ⟨⟨lexeme, loc⟩, hkind, rfl⟩) | ⟨⟨lexeme, loc⟩, hkind, rfl⟩) | h
  · obtain ⟨value, rfl⟩ := kind_eq_integer.1 hkind
    exact ⟨_, .int value loc⟩
  · obtain ⟨text, rfl⟩ := kind_eq_string.1 hkind
    exact ⟨_, .string text loc⟩
  · obtain ⟨name, rfl⟩ := kind_eq_identifier.1 hkind
    exact ⟨_, .var name loc⟩
  · obtain ⟨_, _, ⟨_, us, hopen, ⟨e, he⟩, rfl⟩, hclose, rfl⟩ := h
    obtain ⟨start, rfl⟩ := yields_symbol_iff.1 hopen
    obtain ⟨finish, rfl⟩ := yields_symbol_iff.1 hclose
    exact ⟨e, .group start finish he⟩

/-- What holds of a beginning and is kept by each further part holds of the whole. -/
theorem append_flatten_induction {P Q : List Token → Prop} (hstep : ∀ us part, P us → Q part → P (us ++ part))
    {us : List Token} (hfirst : P us) {parts : List (List Token)} (hparts : ∀ part ∈ parts, Q part) :
    P (us ++ parts.flatten) := by
  induction parts generalizing us with
  | nil => simpa using hfirst
  | cons part parts ih =>
      obtain ⟨hpart, hrest⟩ := List.forall_mem_cons.1 hparts
      simpa using ih (hstep us part hfirst hpart) hrest

theorem spelled_term {ts : List Token} (h : Rule.term.form.Yields Rule.Spelled ts) : Rule.term.Spelled ts := by
  obtain ⟨us, _, ⟨first, hfirst⟩, ⟨parts, hparts, rfl⟩, rfl⟩ := h
  refine append_flatten_induction ?_ ⟨first, .factor hfirst⟩ hparts
  rintro us _ ⟨left, hleft⟩ ⟨_, vs, hop, ⟨right, hright⟩, rfl⟩
  rcases hop with hop | hop <;> obtain ⟨loc, rfl⟩ := yields_symbol_iff.1 hop
  · exact ⟨_, .product hleft rfl (.inl rfl) hright⟩
  · exact ⟨_, .product hleft rfl (.inr rfl) hright⟩

theorem spelled_expr {ts : List Token} (h : Rule.expr.form.Yields Rule.Spelled ts) : Rule.expr.Spelled ts := by
  obtain ⟨us, _, ⟨first, hfirst⟩, ⟨parts, hparts, rfl⟩, rfl⟩ := h
  refine append_flatten_induction ?_ ⟨first, .term hfirst⟩ hparts
  rintro us _ ⟨left, hleft⟩ ⟨_, vs, hop, ⟨right, hright⟩, rfl⟩
  rcases hop with hop | hop <;> obtain ⟨loc, rfl⟩ := yields_symbol_iff.1 hop
  · exact ⟨_, .sum hleft rfl (.inl rfl) hright⟩
  · exact ⟨_, .sum hleft rfl (.inr rfl) hright⟩

theorem spelled_program {ts : List Token} (h : Form.program.Yields Rule.Spelled ts) : ∃ stmts, Spells .program ts stmts := by
  obtain ⟨parts, hparts, rfl⟩ := h
  induction parts with
  | nil => exact ⟨[], .nil⟩
  | cons part parts ih =>
      obtain ⟨⟨stmt, hstmt⟩, hrest⟩ := List.forall_mem_cons.1 hparts
      obtain ⟨stmts, hstmts⟩ := ih hrest
      exact ⟨stmt :: stmts, .cons hstmt hstmts⟩

theorem spelled_block {ts : List Token} (h : Rule.block.form.Yields Rule.Spelled ts) : Rule.block.Spelled ts := by
  obtain ⟨_, _, ⟨_, us, hopen, hbody, rfl⟩, hclose, rfl⟩ := h
  obtain ⟨start, rfl⟩ := yields_symbol_iff.1 hopen
  obtain ⟨finish, rfl⟩ := yields_symbol_iff.1 hclose
  obtain ⟨body, hbody⟩ := spelled_program hbody
  exact ⟨body, start, .block start finish hbody⟩

theorem spelled_comparison {meaning : Rule → List Token → Prop} {ts : List Token}
    (h : (Form.symbol .equal ||| .symbol .notEqual).Yields meaning ts) :
    ∃ t op, CompareOp.ofLexeme? t.lexeme = some op ∧ ts = [t] := by
  rcases h with h | h <;> obtain ⟨loc, rfl⟩ := yields_symbol_iff.1 h
  · exact ⟨_, .equal, rfl, rfl⟩
  · exact ⟨_, .notEqual, rfl, rfl⟩

theorem spelled_conditional {ts : List Token} (h : Rule.conditional.form.Yields Rule.Spelled ts) :
    Rule.conditional.Spelled ts := by
  obtain ⟨_, _, ⟨_, bs, ⟨_, _, ⟨_, rs, ⟨_, _, ⟨_, ls, ⟨_, _, hif, hopen, rfl⟩, ⟨left, hleft⟩, rfl⟩, hop, rfl⟩,
    ⟨right, hright⟩, rfl⟩, hclose, rfl⟩, ⟨body, brace, hbody⟩, rfl⟩, helse, rfl⟩ := h
  obtain ⟨loc, rfl⟩ := yields_symbol_iff.1 hif
  obtain ⟨start, rfl⟩ := yields_symbol_iff.1 hopen
  obtain ⟨t, op, hcompare, rfl⟩ := spelled_comparison hop
  obtain ⟨finish, rfl⟩ := yields_symbol_iff.1 hclose
  have hcond := SpellsTest.test start finish hleft hcompare hright
  rcases helse with rfl | ⟨_, es, hmark, hlast, rfl⟩
  · refine ⟨.ifThen ⟨op, left, right, t.loc⟩ body brace loc, ?_⟩
    simpa using Spells.ifThen loc hcond hbody
  · obtain ⟨mark, rfl⟩ := yields_symbol_iff.1 hmark
    rcases hlast with ⟨inside, inner, hlast⟩ | ⟨last, hlast⟩
    · refine ⟨.ifElse ⟨op, left, right, t.loc⟩ body brace (.block inside inner) loc, ?_⟩
      simpa using Spells.ifElse loc mark hcond hbody hlast
    · refine ⟨.ifElse ⟨op, left, right, t.loc⟩ body brace last loc, ?_⟩
      simpa using Spells.elseIf loc mark hcond hbody hlast

theorem spelled_statement {ts : List Token} (h : Rule.statement.form.Yields Rule.Spelled ts) : Rule.statement.Spelled ts := by
  rcases h with ((((h | h) | h) | h) | ⟨stmt, hstmt⟩) | ⟨body, brace, hblock⟩
  · obtain ⟨_, vs, ⟨_, _, ⟨⟨lexeme, loc⟩, hkind, rfl⟩, hmark, rfl⟩, ⟨value, hvalue⟩, rfl⟩ := h
    obtain ⟨name, rfl⟩ := kind_eq_identifier.1 hkind
    obtain ⟨mark, rfl⟩ := yields_symbol_iff.1 hmark
    exact ⟨_, .infer name loc mark hvalue⟩
  · obtain ⟨_, _, ⟨_, _, ⟨_, _, ⟨⟨lexeme, loc⟩, hkind, rfl⟩, hmark, rfl⟩, ⟨t, type, htype, rfl⟩, rfl⟩, hinitial, rfl⟩ := h
    obtain ⟨name, rfl⟩ := kind_eq_identifier.1 hkind
    obtain ⟨mark, rfl⟩ := yields_symbol_iff.1 hmark
    rcases hinitial with rfl | ⟨_, vs, hequals, ⟨value, hvalue⟩, rfl⟩
    · exact ⟨_, .declare name loc mark htype⟩
    · obtain ⟨equals, rfl⟩ := yields_symbol_iff.1 hequals
      exact ⟨_, .initial name loc mark equals htype hvalue⟩
  · obtain ⟨_, vs, ⟨_, _, ⟨⟨lexeme, loc⟩, hkind, rfl⟩, hmark, rfl⟩, ⟨value, hvalue⟩, rfl⟩ := h
    obtain ⟨name, rfl⟩ := kind_eq_identifier.1 hkind
    obtain ⟨mark, rfl⟩ := yields_symbol_iff.1 hmark
    exact ⟨_, .assign name loc mark hvalue⟩
  · obtain ⟨_, _, ⟨_, vs, ⟨_, _, hword, hopen, rfl⟩, ⟨value, hvalue⟩, rfl⟩, hclose, rfl⟩ := h
    obtain ⟨loc, rfl⟩ := yields_symbol_iff.1 hword
    obtain ⟨start, rfl⟩ := yields_symbol_iff.1 hopen
    obtain ⟨finish, rfl⟩ := yields_symbol_iff.1 hclose
    exact ⟨_, .print loc start finish hvalue⟩
  · exact ⟨stmt, .ofConditional hstmt⟩
  · exact ⟨_, .ofBlock hblock⟩

/-- What the rules spell is closed under their right sides. -/
theorem Rule.spelled_of_yields (r : Rule) (ts : List Token) (h : r.form.Yields Rule.Spelled ts) : r.Spelled ts := by
  cases r with
  | statement => exact spelled_statement h
  | conditional => exact spelled_conditional h
  | block => exact spelled_block h
  | expr => exact spelled_expr h
  | term => exact spelled_term h
  | factor => exact spelled_factor h
  | typeName => exact spelled_typeName h

/-- Tokens spell a program exactly if their kinds can be derived. -/
theorem derives_program_iff {ts : List Token} : Derives .program (kinds ts) ↔ ∃ stmts, Spells .program ts stmts := by
  constructor
  · intro h
    exact spelled_program (h.yields Rule.spelled_of_yields rfl)
  · rintro ⟨stmts, h⟩
    exact h.derives

end Lai.Grammar
