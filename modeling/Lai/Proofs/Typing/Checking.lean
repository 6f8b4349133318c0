import Lai.Proofs.Grammar.Acceptance
import Lai.Proofs.Typing.Rules
/-!
# What the checks accept

The checks pass over what is built from an unusable expression in silence, so a clean report need not
mean much. It does where every type in scope is known: then a fault is reported in an expression
exactly if the rules give it no type, and statements that the grammar can spell are reported clean
exactly if they are well typed.
-/

namespace Lai

/-! ### What the grammar can spell -/

/-- Whether the tree may stand after `else`. -/
def Tree.Stmt.isBranch : Tree.Stmt → Bool
  | .ifThen .. | .ifElse .. | .block .. => true
  | _ => false

namespace Grammar

def Stmt.isBranch : Stmt → Bool
  | .ifThen .. | .ifElse .. | .block .. => true
  | _ => false

mutual

/-- Whether every type in the statement is a type of values and every `else` is followed by a block or
an if statement. -/
def Stmt.proper : Stmt → Bool
  | .infer .. | .assign .. | .print .. => true
  | .declare _ type _ _ => type ≠ .unknown
  | .ifThen _ body _ _ => properAll body
  | .ifElse _ body _ last _ => properAll body && (last.isBranch && last.proper)
  | .block body _ => properAll body
  | .broken .. => false

def properAll : List Stmt → Bool
  | [] => true
  | stmt :: rest => stmt.proper && properAll rest

end

theorem ne_unknown_of_ofLexeme? {lexeme : Lexeme} {type : Ty} (h : Ty.ofLexeme? lexeme = some type) :
    type ≠ .unknown := by
  rintro rfl
  cases lexeme with
  | symbol s => cases s <;> simp [Ty.ofLexeme?, Ty.ofSymbol?] at h
  | _ => simp [Ty.ofLexeme?] at h

theorem Spells.isBranch {part : Part} {ts : List Token} {stmts : List Stmt} (h : Spells part ts stmts)
    (hpart : part = .conditional ∨ part = .block) : ∀ stmt ∈ stmts, stmt.isBranch = true := by
  cases h with
  | block | ifThen | ifElse | elseIf => simp [Stmt.isBranch]
  | _ => simp at hpart

/-- Whatever tokens spell is proper. -/
theorem Spells.proper {part : Part} {ts : List Token} {stmts : List Stmt} (h : Spells part ts stmts) :
    properAll stmts = true := by
  induction h with
  | nil => rfl
  | cons _ _ ihfirst ihrest =>
      rw [properAll, properAll, Bool.and_true] at ihfirst
      rw [properAll, ihfirst, ihrest, Bool.true_and]
  | infer | assign | print => rfl
  | declare _ _ _ htype => simp [properAll, Stmt.proper, ne_unknown_of_ofLexeme? htype]
  | initial _ _ _ _ htype => simp [properAll, Stmt.proper, ne_unknown_of_ofLexeme? htype]
  | ofConditional _ ih => exact ih
  | ofBlock _ ih => exact ih
  | block _ _ _ ih => simpa [properAll, Stmt.proper] using ih
  | ifThen _ _ _ ih => simpa [properAll, Stmt.proper] using ih
  | ifElse _ _ _ _ hlast ihbody ihlast =>
      have hbranch := hlast.isBranch (.inr rfl) _ (List.mem_singleton.2 rfl)
      simp only [properAll, Stmt.proper, Bool.and_true] at ihbody ihlast ⊢
      rw [ihbody, ihlast, hbranch, Bool.and_true, Bool.and_true]
  | elseIf _ _ _ _ hlast ihbody ihlast =>
      have hbranch := hlast.isBranch (.inl rfl) _ (List.mem_singleton.2 rfl)
      simp only [properAll, Stmt.proper, Bool.and_true] at ihbody ihlast ⊢
      rw [ihbody, ihlast, hbranch, Bool.and_true, Bool.and_true]

end Grammar

open Grammar

/-! ### Expressions -/

/-- Every name in scope has a type of values. -/
def Scopes.Known (Γ : Scopes Ty) : Prop :=
  ∀ name, ¬ Γ.Means name .unknown

namespace Scopes.Known

variable {Γ : Scopes Ty}

theorem empty : Known {} := by
  intro name h
  simp [means_iff_find?, find?] at h

theorem bind (hΓ : Γ.Known) (name : String) {type : Ty} (htype : type ≠ .unknown) : (Γ.bind name type).Known := by
  intro other h
  rw [means_iff_find?] at h
  by_cases hne : other = name
  · rw [hne, find?_bind_self, Option.some.injEq] at h
    exact htype h
  · rw [find?_bind_of_ne _ _ hne, ← means_iff_find?] at h
    exact hΓ other h

theorem enter (hΓ : Γ.Known) : Γ.enter.Known := by
  intro name h
  rw [means_iff_find?, find?_enter, ← means_iff_find?] at h
  exact hΓ name h

end Scopes.Known

variable {Γ : Scopes Ty} {e : Expr Unit} {type : Ty}

theorem binding_of_means {name : String} (h : Γ.Means name type) : binding Γ name = ⟨type, true⟩ := by
  rw [Scopes.means_iff_find?] at h
  simp only [binding, h]

theorem means_of_binding {name : String} (h : (binding Γ name).declared = true) :
    Γ.Means name (binding Γ name).type := by
  rw [Scopes.means_iff_find?]
  cases hfind : Γ.find? name with
  | none => simp [binding, hfind] at h
  | some type => simp [binding, hfind]

theorem HasType.ne_unknown (hΓ : Γ.Known) (h : HasType Γ e type) : type ≠ .unknown := by
  cases h with
  | int | string | arithmetic | concat => decide
  | var loc hname =>
      rintro rfl
      exact hΓ _ hname

/-- An expression that has a type is usable at this type. -/
theorem HasType.check_annotate (hΓ : Γ.Known) (h : HasType Γ e type) :
    (e.annotate (binding Γ)).check = (true, []) ∧ (e.annotate (binding Γ)).type = type := by
  induction h with
  | int | string => exact ⟨rfl, rfl⟩
  | @var name type loc hname =>
      have hne := (HasType.var loc hname).ne_unknown hΓ
      simp [Expr.annotate, Expr.check, Expr.type, binding_of_means hname, hne]
  | arithmetic op loc _ _ ihleft ihright =>
      simp [Expr.annotate, Expr.check, Expr.type, ihleft, ihright, Expr.mathFault?, Ty.common]
  | concat loc _ _ ihleft ihright =>
      simp [Expr.annotate, Expr.check, Expr.type, ihleft, ihright, Expr.mathFault?, Ty.common]

/-- An expression without faults has a type: that of its operands, if the operation takes them. -/
theorem hasType_of_faults (hΓ : Γ.Known) (h : (e.annotate (binding Γ)).faults = []) :
    HasType Γ e (e.annotate (binding Γ)).type := by
  induction e with
  | int value loc => exact .int value loc
  | string text loc => exact .string text loc
  | var name note loc =>
      refine .var loc (means_of_binding ?_)
      by_cases hdeclared : (binding Γ name).declared = true
      · exact hdeclared
      · simp [Expr.annotate, Expr.faults, Expr.check, hdeclared] at h
  | math op left right loc ihleft ihright =>
      simp only [Expr.annotate, Expr.faults, Expr.check] at h ihleft ihright
      have hsides : (left.annotate (binding Γ)).check.2 = [] ∧ (right.annotate (binding Γ)).check.2 = [] := by
        split at h
        · split at h <;> simp_all
        · simpa using h
      have hleft := ihleft hsides.1
      have hright := ihright hsides.2
      -- both operands are usable, so the operation itself has been looked at
      simp only [(hleft.check_annotate hΓ).1, (hright.check_annotate hΓ).1, Bool.and_true, if_true] at h
      simp only [Expr.annotate, Expr.type]
      generalize (left.annotate (binding Γ)).type = l at h hleft ⊢
      generalize (right.annotate (binding Γ)).type = r at h hright ⊢
      have hsame : l = r := by
        by_cases hne : l = r
        · exact hne
        · simp [Expr.mathFault?, Ty.common, hne] at h
      subst hsame
      cases l with
      | unknown => exact absurd rfl (hleft.ne_unknown hΓ)
      | int => exact .arithmetic op loc hleft hright
      | string =>
          by_cases hadd : op = .add
          · subst hadd
            exact .concat loc hleft hright
          · simp [Expr.mathFault?, Ty.common, hadd] at h

/-- The faults of an expression are none exactly if it has a type. -/
theorem faults_annotate_iff (hΓ : Γ.Known) :
    (e.annotate (binding Γ)).faults = [] ↔ HasType Γ e (e.annotate (binding Γ)).type := by
  refine ⟨hasType_of_faults hΓ, fun h => ?_⟩
  rw [Expr.faults, (h.check_annotate hΓ).1]

theorem HasType.faults_annotate (hΓ : Γ.Known) (h : HasType Γ e type) : (e.annotate (binding Γ)).faults = [] := by
  rw [Expr.faults, (h.check_annotate hΓ).1]

theorem HasType.usable_annotate (hΓ : Γ.Known) (h : HasType Γ e type) : (e.annotate (binding Γ)).usable = true := by
  rw [Expr.usable, (h.check_annotate hΓ).1]

theorem HasType.type_annotate (hΓ : Γ.Known) (h : HasType Γ e type) : (e.annotate (binding Γ)).type = type :=
  (h.check_annotate hΓ).2

/-- A test has no faults exactly if both of its sides have one type. -/
theorem condition_faults_iff (hΓ : Γ.Known) {c : Condition Unit} :
    (c.annotate (binding Γ)).faults = [] ↔ c.WellTyped Γ := by
  simp only [Condition.faults, Condition.annotate, List.append_eq_nil_iff]
  constructor
  · rintro ⟨⟨hleft, hright⟩, hsame⟩
    have hl := hasType_of_faults hΓ hleft
    have hr := hasType_of_faults hΓ hright
    have heq : (c.left.annotate (binding Γ)).type = (c.right.annotate (binding Γ)).type := by
      by_cases hne : (c.left.annotate (binding Γ)).type = (c.right.annotate (binding Γ)).type
      · exact hne
      · simp [hl.usable_annotate hΓ, hr.usable_annotate hΓ, hne] at hsame
    exact ⟨_, hl, heq ▸ hr⟩
  · rintro ⟨type, hl, hr⟩
    refine ⟨⟨hl.faults_annotate hΓ, hr.faults_annotate hΓ⟩, ?_⟩
    simp [hl.type_annotate hΓ, hr.type_annotate hΓ]

/-! ### Statements -/

namespace Grammar

/-- Nothing has been noted, and the trees have no faults. -/
def Resolved.Clean (r : Resolved) : Prop :=
  r.notes = [] ∧ Tree.faultsAll r.trees = []

theorem faultsAll_append (front rest : List Tree.Stmt) :
    Tree.faultsAll (front ++ rest) = Tree.faultsAll front ++ Tree.faultsAll rest := by
  induction front with
  | nil => rfl
  | cons stmt front ih => rw [List.cons_append, Tree.faultsAll, Tree.faultsAll, ih, List.append_assoc]

theorem clean_cons {stmt : Stmt} {rest : List Stmt} :
    (resolveAll Γ (stmt :: rest)).Clean ↔ (stmt.resolve Γ).Clean ∧ (resolveAll (stmt.resolve Γ).scopes rest).Clean := by
  simp only [Resolved.Clean, resolveAll, faultsAll_append, List.append_eq_nil_iff]
  exact and_and_and_comm

theorem clean_singleton {stmt : Stmt} : (resolveAll Γ [stmt]).Clean ↔ (stmt.resolve Γ).Clean := by
  rw [clean_cons]
  exact and_iff_left ⟨rfl, rfl⟩

theorem clean_resolveDeclaration {name : String} {inferred : Bool} {value : Option (Expr Binding)} {loc : Location} :
    (resolveDeclaration Γ name type inferred value loc).Clean ↔
      Γ.Fresh name ∧ (Tree.Stmt.declare name type inferred value loc).faults = [] := by
  rw [Scopes.fresh_iff_declares, resolveDeclaration]
  cases hdeclares : Γ.declares name with
  | true => simp [Resolved.Clean]
  | false => simp [Resolved.Clean, Tree.faultsAll]

theorem scopes_resolveDeclaration {name : String} (hnew : Γ.Fresh name) (inferred : Bool)
    (value : Option (Expr Binding)) (loc : Location) :
    (resolveDeclaration Γ name type inferred value loc).scopes = Γ.bind name type := by
  rw [Scopes.fresh_iff_declares] at hnew
  simp [resolveDeclaration, hnew]

theorem clean_infer (hΓ : Γ.Known) {name : String} {value : Expr Unit} {loc : Location} :
    ((Stmt.infer name value loc).resolve Γ).Clean ↔
      Γ.Fresh name ∧ HasType Γ value (value.annotate (binding Γ)).type := by
  rw [Stmt.resolve, clean_resolveDeclaration, ← faults_annotate_iff hΓ]
  simp [Tree.Stmt.faults]

theorem clean_declare {name : String} {loc : Location} :
    ((Stmt.declare name type none loc).resolve Γ).Clean ↔ Γ.Fresh name := by
  rw [Stmt.resolve, clean_resolveDeclaration]
  simp [Tree.Stmt.faults]

theorem clean_initial (hΓ : Γ.Known) {name : String} {value : Expr Unit} {loc : Location} :
    ((Stmt.declare name type (some value) loc).resolve Γ).Clean ↔ Γ.Fresh name ∧ HasType Γ value type := by
  rw [Stmt.resolve, clean_resolveDeclaration, Option.map_some, Tree.Stmt.faults, List.append_eq_nil_iff]
  refine and_congr_right fun _ => ⟨?_, ?_⟩
  · rintro ⟨hfaults, hsame⟩
    have hvalue := hasType_of_faults hΓ hfaults
    by_cases heq : (value.annotate (binding Γ)).type = type
    · exact heq ▸ hvalue
    · simp [hvalue.usable_annotate hΓ, heq] at hsame
  · intro hvalue
    refine ⟨hvalue.faults_annotate hΓ, ?_⟩
    simp [hvalue.type_annotate hΓ]

theorem clean_assign (hΓ : Γ.Known) {name : String} {value : Expr Unit} {loc : Location} :
    ((Stmt.assign name value loc).resolve Γ).Clean ↔ ∃ type, Γ.Means name type ∧ HasType Γ value type := by
  simp only [Stmt.resolve, Resolved.Clean, Tree.faultsAll, Tree.Stmt.faults, List.append_nil, List.append_eq_nil_iff,
    true_and]
  constructor
  · rintro ⟨⟨htarget, hfaults⟩, hsame⟩
    have hvalue := hasType_of_faults hΓ hfaults
    have hdeclared : (binding Γ name).declared = true := by
      by_cases hd : (binding Γ name).declared = true
      · exact hd
      · simp [hd] at htarget
    have hmeans := means_of_binding hdeclared
    have hne := (HasType.var default hmeans).ne_unknown hΓ
    by_cases heq : (value.annotate (binding Γ)).type = (binding Γ name).type
    · exact ⟨_, hmeans, heq ▸ hvalue⟩
    · simp [hvalue.usable_annotate hΓ, hdeclared, hne, heq] at hsame
  · rintro ⟨type, hmeans, hvalue⟩
    refine ⟨⟨?_, hvalue.faults_annotate hΓ⟩, ?_⟩
    · simp [binding_of_means hmeans]
    · simp [binding_of_means hmeans, hvalue.type_annotate hΓ]

theorem clean_print (hΓ : Γ.Known) {value : Expr Unit} {loc : Location} :
    ((Stmt.print value loc).resolve Γ).Clean ↔ ∃ type, HasType Γ value type := by
  simp only [Stmt.resolve, Resolved.Clean, Tree.faultsAll, Tree.Stmt.faults, List.append_nil, true_and]
  constructor
  · intro h
    exact ⟨_, hasType_of_faults hΓ h⟩
  · rintro ⟨type, hvalue⟩
    exact hvalue.faults_annotate hΓ

theorem clean_ifThen (hΓ : Γ.Known) {cond : Condition Unit} {body : List Stmt} {brace loc : Location} :
    ((Stmt.ifThen cond body brace loc).resolve Γ).Clean ↔ cond.WellTyped Γ ∧ (resolveAll Γ.enter body).Clean := by
  rw [← condition_faults_iff hΓ]
  simp only [Stmt.resolve, Resolved.Clean, Tree.faultsAll, Tree.Stmt.faults, List.append_nil, List.append_eq_nil_iff]
  exact and_left_comm

/-- What may stand after `else` has one tree, which may stand there too. -/
theorem trees_of_isBranch (Γ : Scopes Ty) {stmt : Stmt} (h : stmt.isBranch = true) :
    ∃ tree, (stmt.resolve Γ).trees = [tree] ∧ tree.isBranch = true := by
  cases stmt with
  | ifThen | block => exact ⟨_, rfl, rfl⟩
  | ifElse cond body brace last loc =>
      refine ⟨_, rfl, ?_⟩
      split <;> rfl
  | _ => simp [Stmt.isBranch] at h

theorem clean_ifElse (hΓ : Γ.Known) {cond : Condition Unit} {body : List Stmt} {brace loc : Location} {last : Stmt}
    (hlast : last.isBranch = true) :
    ((Stmt.ifElse cond body brace last loc).resolve Γ).Clean ↔
      cond.WellTyped Γ ∧ (resolveAll Γ.enter body).Clean ∧ (last.resolve Γ).Clean := by
  obtain ⟨tree, htree, _⟩ := trees_of_isBranch Γ hlast
  rw [← condition_faults_iff hΓ]
  simp only [Stmt.resolve, Resolved.Clean, htree, Tree.faultsAll, Tree.Stmt.faults, List.append_nil,
    List.append_eq_nil_iff]
  constructor
  · rintro ⟨⟨hbody, hnotes⟩, ⟨hcond, hfaults⟩, hrest⟩
    exact ⟨hcond, ⟨hbody, hfaults⟩, hnotes, hrest⟩
  · rintro ⟨hcond, ⟨hbody, hfaults⟩, hnotes, hrest⟩
    exact ⟨⟨hbody, hnotes⟩, ⟨hcond, hfaults⟩, hrest⟩

theorem clean_block {body : List Stmt} {loc : Location} :
    ((Stmt.block body loc).resolve Γ).Clean ↔ (resolveAll Γ.enter body).Clean := by
  simp only [Stmt.resolve, Resolved.Clean, Tree.faultsAll, Tree.Stmt.faults, List.append_nil]

/-- Wherever the types are known, the statements are reported clean exactly if they are well typed. -/
def Agrees (stmts : List Stmt) : Prop :=
  ∀ Γ : Scopes Ty, Γ.Known → ((resolveAll Γ stmts).Clean ↔ WellTyped Γ stmts)

namespace Agrees

variable {name : String} {value : Expr Unit} {cond : Condition Unit} {body rest : List Stmt} {last : Stmt}
  {brace loc : Location}

theorem nil : Agrees [] := by
  intro Γ _
  exact iff_of_true ⟨rfl, rfl⟩ (.nil Γ)

theorem infer (hrest : Agrees rest) : Agrees (.infer name value loc :: rest) := by
  intro Γ hΓ
  rw [clean_cons, clean_infer hΓ]
  constructor
  · rintro ⟨⟨hnew, hvalue⟩, hclean⟩
    rw [Stmt.resolve, scopes_resolveDeclaration hnew, hrest _ (hΓ.bind name (hvalue.ne_unknown hΓ))] at hclean
    exact .infer loc hnew hvalue hclean
  · intro h
    cases h with
    | infer _ hnew hvalue htyped =>
        rw [Stmt.resolve, scopes_resolveDeclaration hnew, hvalue.type_annotate hΓ,
          hrest _ (hΓ.bind name (hvalue.ne_unknown hΓ))]
        exact ⟨⟨hnew, hvalue⟩, htyped⟩

theorem declare (htype : type ≠ .unknown) (hrest : Agrees rest) : Agrees (.declare name type none loc :: rest) := by
  intro Γ hΓ
  rw [clean_cons, clean_declare]
  constructor
  · rintro ⟨hnew, hclean⟩
    rw [Stmt.resolve, scopes_resolveDeclaration hnew, hrest _ (hΓ.bind name htype)] at hclean
    exact .declare loc hnew hclean
  · intro h
    cases h with
    | declare _ hnew htyped =>
        rw [Stmt.resolve, scopes_resolveDeclaration hnew, hrest _ (hΓ.bind name htype)]
        exact ⟨hnew, htyped⟩

theorem initial (htype : type ≠ .unknown) (hrest : Agrees rest) :
    Agrees (.declare name type (some value) loc :: rest) := by
  intro Γ hΓ
  rw [clean_cons, clean_initial hΓ]
  constructor
  · rintro ⟨⟨hnew, hvalue⟩, hclean⟩
    rw [Stmt.resolve, scopes_resolveDeclaration hnew, hrest _ (hΓ.bind name htype)] at hclean
    exact .initial loc hnew hvalue hclean
  · intro h
    cases h with
    | initial _ hnew hvalue htyped =>
        rw [Stmt.resolve, scopes_resolveDeclaration hnew, hrest _ (hΓ.bind name htype)]
        exact ⟨⟨hnew, hvalue⟩, htyped⟩

theorem assign (hrest : Agrees rest) : Agrees (.assign name value loc :: rest) := by
  intro Γ hΓ
  rw [clean_cons, clean_assign hΓ, Stmt.resolve, hrest Γ hΓ]
  constructor
  · rintro ⟨⟨type, hname, hvalue⟩, htyped⟩
    exact .assign loc hname hvalue htyped
  · intro h
    cases h with
    | assign _ hname hvalue htyped => exact ⟨⟨_, hname, hvalue⟩, htyped⟩

theorem print (hrest : Agrees rest) : Agrees (.print value loc :: rest) := by
  intro Γ hΓ
  rw [clean_cons, clean_print hΓ, Stmt.resolve, hrest Γ hΓ]
  constructor
  · rintro ⟨⟨type, hvalue⟩, htyped⟩
    exact .print loc hvalue htyped
  · intro h
    cases h with
    | print _ hvalue htyped => exact ⟨⟨_, hvalue⟩, htyped⟩

theorem ifThen (hbody : Agrees body) (hrest : Agrees rest) : Agrees (.ifThen cond body brace loc :: rest) := by
  intro Γ hΓ
  rw [clean_cons, clean_ifThen hΓ, Stmt.resolve, hbody _ hΓ.enter, hrest Γ hΓ]
  constructor
  · rintro ⟨⟨hcond, hinner⟩, htyped⟩
    exact .ifThen brace loc hcond hinner htyped
  · intro h
    cases h with
    | ifThen _ _ hcond hinner htyped => exact ⟨⟨hcond, hinner⟩, htyped⟩

theorem ifElse (hbranch : last.isBranch = true) (hbody : Agrees body) (hlast : Agrees [last]) (hrest : Agrees rest) :
    Agrees (.ifElse cond body brace last loc :: rest) := by
  intro Γ hΓ
  rw [clean_cons, clean_ifElse hΓ hbranch, Stmt.resolve, ← clean_singleton, hbody _ hΓ.enter, hlast Γ hΓ, hrest Γ hΓ]
  constructor
  · rintro ⟨⟨hcond, hinner, hother⟩, htyped⟩
    exact .ifElse brace loc hcond hinner hother htyped
  · intro h
    cases h with
    | ifElse _ _ hcond hinner hother htyped => exact ⟨⟨hcond, hinner, hother⟩, htyped⟩

theorem block (hbody : Agrees body) (hrest : Agrees rest) : Agrees (.block body loc :: rest) := by
  intro Γ hΓ
  rw [clean_cons, clean_block, Stmt.resolve, hbody _ hΓ.enter, hrest Γ hΓ]
  constructor
  · rintro ⟨hinner, htyped⟩
    exact .block loc hinner htyped
  · intro h
    cases h with
    | block _ hinner htyped => exact ⟨hinner, htyped⟩

end Agrees

mutual

theorem agrees_cons : (stmt : Stmt) → stmt.proper = true → (rest : List Stmt) → Agrees rest → Agrees (stmt :: rest)
  | .infer .., _, _, hrest => .infer hrest
  | .declare _ _ none _, h, _, hrest => .declare (of_decide_eq_true h) hrest
  | .declare _ _ (some _) _, h, _, hrest => .initial (of_decide_eq_true h) hrest
  | .assign .., _, _, hrest => .assign hrest
  | .print .., _, _, hrest => .print hrest
  | .ifThen _ body _ _, h, _, hrest => .ifThen (agrees_of_properAll body h) hrest
  | .ifElse _ body _ last _, h, _, hrest => by
      rw [Stmt.proper, Bool.and_eq_true, Bool.and_eq_true] at h
      obtain ⟨hbody, hbranch, hlast⟩ := h
      exact .ifElse hbranch (agrees_of_properAll body hbody) (agrees_cons last hlast [] .nil) hrest
  | .block body _, h, _, hrest => .block (agrees_of_properAll body h) hrest
  | .broken .., h, _, _ => absurd h Bool.false_ne_true

/-- Proper statements are reported clean exactly if they are well typed. -/
theorem agrees_of_properAll : (stmts : List Stmt) → properAll stmts = true → Agrees stmts
  | [], _ => .nil
  | stmt :: rest, h => by
      rw [properAll, Bool.and_eq_true] at h
      exact agrees_cons stmt h.1 rest (agrees_of_properAll rest h.2)

end

end Grammar

theorem Diagnostic.sort_eq_nil_iff {ds : List Diagnostic} : Diagnostic.sort ds = [] ↔ ds = [] := by
  rw [← List.length_eq_zero_iff, Diagnostic.sort, List.length_mergeSort, List.length_eq_zero_iff]

namespace Assembly

theorem diagnostics_eq_nil_iff {name : String} {tokens : List Token} :
    (ofTokens name tokens).diagnostics = [] ↔ (resolveAll {} (Grammar.read tokens)).Clean := by
  simp [ofTokens, read, Diagnostic.sort_eq_nil_iff, Tree.File.typeDiagnostics, Resolved.Clean]

/-- Tokens that follow the grammar are accepted exactly if the trees read from them, their notes aside, are
well typed, and these are the only statements that the tokens spell. -/
theorem accepts_iff_wellTyped (name : String) (tokens : List Token)
    (hgrammar : ∀ d ∈ (read name tokens).diagnostics, d.category ≠ .syntactic) :
    ((ofTokens name tokens).diagnostics = [] ↔ WellTyped {} (Tree.eraseAll (read name tokens).file.body)) ∧
    ∀ stmts, Spells .program tokens stmts ↔ stmts = Tree.eraseAll (read name tokens).file.body := by
  have hwhole := read_grammatical_iff.1 hgrammar
  have hproper := (spells_of_wholeAll_read hwhole).proper
  rw [eraseAll_read hwhole, diagnostics_eq_nil_iff]
  refine ⟨agrees_of_properAll _ hproper {} Scopes.Known.empty, fun stmts => ?_⟩
  rw [spells_iff_read]
  exact and_iff_right hwhole

/-- The tokens of `x := 1`, and of a block with `x := x + x` and `print(x)`. -/
def shadowing : List Token :=
  [⟨.identifier "x", ⟨0, 0⟩⟩, ⟨.symbol .infer, ⟨0, 2⟩⟩, ⟨.integer 1, ⟨0, 5⟩⟩, ⟨.symbol .openBrace, ⟨1, 0⟩⟩,
   ⟨.identifier "x", ⟨2, 1⟩⟩, ⟨.symbol .infer, ⟨2, 3⟩⟩, ⟨.identifier "x", ⟨2, 6⟩⟩, ⟨.symbol .plus, ⟨2, 8⟩⟩,
   ⟨.identifier "x", ⟨2, 10⟩⟩, ⟨.symbol .printWord, ⟨3, 1⟩⟩, ⟨.symbol .openParen, ⟨3, 6⟩⟩,
   ⟨.identifier "x", ⟨3, 7⟩⟩, ⟨.symbol .closeParen, ⟨3, 8⟩⟩, ⟨.symbol .closeBrace, ⟨4, 0⟩⟩]

theorem accepts_shadowing : (ofTokens "a" shadowing).diagnostics = [] :=
  diagnostics_eq_nil_iff.2 ⟨by decide, by decide⟩

/-- The inner declaration reads the variable that it hides. -/
theorem wellTyped_shadowing :
    (∀ d ∈ (read "a" shadowing).diagnostics, d.category ≠ .syntactic) ∧
      WellTyped {} (Tree.eraseAll (read "a" shadowing).file.body) ∧
      ∀ stmts, Spells .program shadowing stmts → WellTyped {} stmts := by
  have hgrammar : ∀ d ∈ (read "a" shadowing).diagnostics, d.category ≠ .syntactic := by decide
  obtain ⟨haccepts, hspells⟩ := accepts_iff_wellTyped "a" shadowing hgrammar
  have htyped := haccepts.1 accepts_shadowing
  refine ⟨hgrammar, htyped, fun stmts h => ?_⟩
  rwa [(hspells stmts).1 h]

end Assembly

end Lai
