import Lai.Build
import Lai.Proofs.C.Translation
import Lai.Proofs.Typing.Checking
/-!
# Accepted files can be compiled

The trees of well typed statements are translated to C, so for accepted files none of the faults of the
writer can arise. A build that gets past both gates therefore ends with a target text.
-/

namespace Lai

open Grammar C

/-! ### Well typed statements are translated -/

namespace C

theorem CType.toTy_inj {s t : CType} (h : s.toTy = t.toTy) : s = t := by
  cases s <;> cases t <;> simp_all [toTy]

theorem CType.exists_toTy {type : Ty} (h : type ≠ .unknown) : ∃ t : CType, t.toTy = type := by
  cases type with
  | unknown => exact absurd rfl h
  | int => exact ⟨.int, rfl⟩
  | string => exact ⟨.string, rfl⟩

/-- The types of the names in scope. -/
def typesOf (scopes : Scopes Local) : Scopes Ty :=
  scopes.map fun target => target.type.toTy

theorem exists_local_of_means {scopes : Scopes Local} {name : String} {type : Ty} (h : (typesOf scopes).Means name type) :
    ∃ target, scopes.find? name = some target ∧ target.type.toTy = type := by
  rw [Scopes.means_iff_find?, typesOf, Scopes.find?_map, Option.map_eq_some_iff] at h
  exact h

end C

variable {scopes : Scopes Local}

theorem HasType.exists_translation {e : Lai.Expr Unit} {type : Ty} (h : HasType (typesOf scopes) e type) :
    ∃ x t, CType.toTy t = type ∧ TranslatesExpr scopes (e.annotate (binding (typesOf scopes))) x t := by
  induction h with
  | int value loc => exact ⟨_, .int, rfl, .int value loc⟩
  | string text loc => exact ⟨_, .string, rfl, .string text loc⟩
  | var loc hname =>
      obtain ⟨target, hfind, htype⟩ := exists_local_of_means hname
      refine ⟨_, target.type, htype, .var loc hfind ?_⟩
      rw [binding_of_means hname, htype]
  | arithmetic op loc _ _ ihleft ihright =>
      obtain ⟨l, s, hs, hl⟩ := ihleft
      obtain ⟨r, t, ht, hr⟩ := ihright
      cases CType.toTy_inj (t := .int) hs
      cases CType.toTy_inj (t := .int) ht
      exact ⟨_, .int, rfl, .math op loc hl hr⟩
  | concat loc _ _ ihleft ihright =>
      obtain ⟨l, s, hs, hl⟩ := ihleft
      obtain ⟨r, t, ht, hr⟩ := ihright
      cases CType.toTy_inj (t := .string) hs
      cases CType.toTy_inj (t := .string) ht
      exact ⟨_, .string, rfl, .concat loc hl hr⟩

/-- An expression is translated to an expression of its own type. -/
theorem HasType.translates {e : Lai.Expr Unit} {t : CType} (h : HasType (typesOf scopes) e t.toTy) :
    ∃ x, TranslatesExpr scopes (e.annotate (binding (typesOf scopes))) x t := by
  obtain ⟨x, s, hs, hx⟩ := h.exists_translation
  exact ⟨x, CType.toTy_inj hs ▸ hx⟩

theorem Condition.WellTyped.translates {c : Condition Unit} (h : c.WellTyped (typesOf scopes)) :
    ∃ test, TranslatesTest scopes (c.annotate (binding (typesOf scopes))) test := by
  obtain ⟨type, hleft, hright⟩ := h
  obtain ⟨l, t, rfl, hl⟩ := hleft.exists_translation
  obtain ⟨r, hr⟩ := hright.translates
  exact ⟨_, .test c.op c.loc hl hr⟩

namespace C

/-- An if statement is translated together with what follows its `else`. -/
theorem TranslatesChain.exists_of_else {names inner after : Names} {cond : Condition Binding} {test : Test}
    {body : List Tree.Stmt} {stmts : List Stmt} {last : Tree.Stmt} {stmt : Stmt}
    (hcond : TranslatesTest names.scopes cond test) (hbody : TranslatesAll names.enter body stmts inner)
    (hlast : Translates (names.resume inner) last stmt after) (hbranch : last.isBranch = true) (brace loc : Location) :
    ∃ chain, TranslatesChain names (.ifElse cond body brace last loc) chain after := by
  cases hlast with
  | branch h => exact ⟨_, .elseIf brace loc hcond hbody h⟩
  | block mark h => exact ⟨_, .ifElse brace mark loc hcond hbody h⟩
  | _ => simp [Tree.Stmt.isBranch] at hbranch

end C

namespace Grammar

theorem resolveAll_cons_trees (Γ : Scopes Ty) (stmt : Stmt) (rest : List Stmt) :
    (resolveAll Γ (stmt :: rest)).trees = (stmt.resolve Γ).trees ++ (resolveAll (stmt.resolve Γ).scopes rest).trees := rfl

theorem properAll_cons {stmt : Stmt} {rest : List Stmt} :
    properAll (stmt :: rest) = true ↔ stmt.proper = true ∧ properAll rest = true := by
  rw [properAll, Bool.and_eq_true]

/-- Well typed statements are translated, whatever C variables stand for the names in scope. -/
theorem WellTyped.translates {Γ : Scopes Ty} {stmts : List Stmt} (h : WellTyped Γ stmts)
    (hproper : properAll stmts = true) : ∀ names : Names, typesOf names.scopes = Γ →
      ∃ code after, TranslatesAll names (resolveAll Γ stmts).trees code after := by
  induction h with
  | nil Γ =>
      intro names _
      exact ⟨[], names, .nil names⟩
  | @infer Γ name value type rest loc hnew hvalue _ ih =>
      rintro names rfl
      obtain ⟨x, t, rfl, hx⟩ := hvalue.exists_translation
      obtain ⟨code, after, hcode⟩ := ih (properAll_cons.1 hproper).2 (names.bind name t) rfl
      rw [resolveAll_cons_trees, Stmt.resolve, trees_resolveDeclaration, scopes_resolveDeclaration hnew, hx.type_eq]
      exact ⟨_, after, .cons (.declare name true loc (.value hx)) hcode⟩
  | @declare Γ name type rest loc hnew _ ih =>
      rintro names rfl
      obtain ⟨htype, hrest⟩ := properAll_cons.1 hproper
      obtain ⟨t, rfl⟩ := CType.exists_toTy (of_decide_eq_true htype)
      obtain ⟨code, after, hcode⟩ := ih hrest (names.bind name t) rfl
      rw [resolveAll_cons_trees, Stmt.resolve, trees_resolveDeclaration, scopes_resolveDeclaration hnew]
      exact ⟨_, after, .cons (.declare name false loc .zero) hcode⟩
  | @initial Γ name type value rest loc hnew hvalue _ ih =>
      rintro names rfl
      obtain ⟨x, t, rfl, hx⟩ := hvalue.exists_translation
      obtain ⟨code, after, hcode⟩ := ih (properAll_cons.1 hproper).2 (names.bind name t) rfl
      rw [resolveAll_cons_trees, Stmt.resolve, trees_resolveDeclaration, scopes_resolveDeclaration hnew]
      exact ⟨_, after, .cons (.declare name false loc (.value hx)) hcode⟩
  | @assign Γ name type value rest loc hname hvalue _ ih =>
      rintro names rfl
      obtain ⟨target, hfind, rfl⟩ := exists_local_of_means hname
      obtain ⟨x, hx⟩ := hvalue.translates
      obtain ⟨code, after, hcode⟩ := ih (properAll_cons.1 hproper).2 names rfl
      exact ⟨_, after, .cons (.assign _ loc hfind hx) hcode⟩
  | print loc hvalue _ ih =>
      rintro names rfl
      obtain ⟨x, t, rfl, hx⟩ := hvalue.exists_translation
      obtain ⟨code, after, hcode⟩ := ih (properAll_cons.1 hproper).2 names rfl
      exact ⟨_, after, .cons (.print loc hx) hcode⟩
  | ifThen brace loc hcond _ _ ihbody ih =>
      rintro names rfl
      obtain ⟨hbody, hrest⟩ := properAll_cons.1 hproper
      obtain ⟨test, htest⟩ := hcond.translates
      obtain ⟨stmts, inner, hstmts⟩ := ihbody hbody names.enter rfl
      obtain ⟨code, after, hcode⟩ := ih hrest (names.resume inner) rfl
      exact ⟨_, after, .cons (.branch (.ifThen brace loc htest hstmts)) hcode⟩
  | @ifElse Γ cond body rest last brace loc hcond _ _ _ ihbody ihlast ih =>
      rintro names rfl
      obtain ⟨hparts, hrest⟩ := properAll_cons.1 hproper
      rw [Stmt.proper, Bool.and_eq_true, Bool.and_eq_true] at hparts
      obtain ⟨hbody, hbranch, hlast⟩ := hparts
      obtain ⟨test, htest⟩ := hcond.translates
      obtain ⟨stmts, inner, hstmts⟩ := ihbody hbody names.enter rfl
      obtain ⟨tree, htree, hkind⟩ := trees_of_isBranch (typesOf names.scopes) hbranch
      obtain ⟨others, middle, hothers⟩ := ihlast (properAll_cons.2 ⟨hlast, rfl⟩) (names.resume inner) rfl
      rw [resolveAll_cons_trees, htree] at hothers
      rcases hothers with _ | ⟨hfirst, hnone⟩
      cases hnone
      obtain ⟨chain, hchain⟩ := TranslatesChain.exists_of_else htest hstmts hfirst hkind brace loc
      obtain ⟨code, after, hcode⟩ := ih hrest middle (by rw [hchain.scopes_eq])
      rw [resolveAll_cons_trees]
      simp only [Stmt.resolve, htree]
      exact ⟨_, after, .cons (.branch hchain) hcode⟩
  | block loc _ _ ihbody ih =>
      rintro names rfl
      obtain ⟨hbody, hrest⟩ := properAll_cons.1 hproper
      obtain ⟨stmts, inner, hstmts⟩ := ihbody hbody names.enter rfl
      obtain ⟨code, after, hcode⟩ := ih hrest (names.resume inner) rfl
      exact ⟨_, after, .cons (.block loc hstmts) hcode⟩

end Grammar

/-! ### Builds -/

namespace Assembly

theorem translates_of_accepted {name : String} {tokens : List Token} (h : (ofTokens name tokens).diagnostics = []) :
    ∃ code after, TranslatesAll {} (ofTokens name tokens).file.body code after := by
  have hclean := diagnostics_eq_nil_iff.1 h
  have hgrammatical : Grammatical (resolveAll {} (Grammar.read tokens)).notes := by simp [hclean.1, Grammatical]
  have hproper := (spells_of_wholeAll_read ((grammatical_resolveAll_iff {} _).1 hgrammatical)).proper
  have htyped := (agrees_of_properAll _ hproper {} Scopes.Known.empty).1 hclean
  exact htyped.translates hproper {} rfl

theorem translatesFiles_of_accepted {assemblies : List Assembly}
    (h : ∀ assembly ∈ assemblies, ∃ name tokens, assembly = ofTokens name tokens ∧ assembly.diagnostics = []) :
    ∃ blocks, TranslatesFiles (assemblies.map (·.file)) blocks := by
  induction assemblies with
  | nil => exact ⟨[], .nil⟩
  | cons assembly rest ih =>
      rw [List.forall_mem_cons] at h
      obtain ⟨⟨name, tokens, rfl, hclean⟩, hrest⟩ := h
      obtain ⟨code, after, hcode⟩ := translates_of_accepted hclean
      obtain ⟨blocks, hblocks⟩ := ih hrest
      exact ⟨_, .cons hcode hblocks⟩

end Assembly

namespace Build

/-- The build has not failed, or a gate has ended it. -/
def Outcome.Gated (outcome : Outcome) : Prop :=
  outcome.failure = none ∨ ∃ stage count, outcome.failure = some (.gate stage count)

theorem gated_gate {stage : String} {outcome : Outcome} {next : Outcome → Outcome}
    (h : outcome.log.count = 0 → (next outcome).Gated) : (gate stage outcome next).Gated := by
  unfold gate
  split
  · next hcount => exact h hcount
  · exact .inr ⟨_, _, rfl⟩

/-- Behind the second gate all files are compiled. -/
theorem generate_assemble {docs : List Document} {outcome : Outcome} (hlog : (assemble docs outcome).log.count = 0) :
    ∃ code, C.compile ((assemble docs outcome).files.getD []) = .ok code := by
  let assemblies := (docs.zip (outcome.tokens.getD [])).map fun read => Assembly.ofTokens read.1.name read.2
  have hclean : assemblies.flatMap (·.diagnostics) = [] := by
    simp only [assemble, Log.count, Log.reportAll, List.length_eq_zero_iff, List.append_eq_nil_iff] at hlog
    exact hlog.2
  have haccepted : ∀ assembly ∈ assemblies,
      ∃ name tokens, assembly = Assembly.ofTokens name tokens ∧ assembly.diagnostics = [] := by
    intro assembly hmem
    obtain ⟨⟨doc, tokens⟩, _, heq⟩ := List.mem_map.1 hmem
    exact ⟨doc.name, tokens, heq.symm, List.flatMap_eq_nil_iff.1 hclean assembly hmem⟩
  obtain ⟨blocks, hblocks⟩ := Assembly.translatesFiles_of_accepted haccepted
  exact ⟨_, hblocks.compile⟩

theorem gated_run (workers : Int) (docs : List Document) : (run { workers := workers } docs).Gated := by
  unfold run
  simp only [Bool.false_and, Bool.false_eq_true, if_false]
  apply gated_gate
  intro _
  apply gated_gate
  intro hlog
  obtain ⟨code, hcode⟩ := generate_assemble hlog
  simp only [generate, hcode]
  exact .inl rfl

/-- The statements of an accepted file are all written, so the file is compiled, and a build with the
target C that is not called off succeeds or ends at a gate. -/
theorem accepted_compiles :
    (∀ (name : String) (tokens : List Token), (Assembly.ofTokens name tokens).diagnostics = [] →
      (C.writeAll (Assembly.ofTokens name tokens).file.body {}).2 = none ∧
      ∃ code, C.compile [(Assembly.ofTokens name tokens).file] = .ok code) ∧
    ∀ (workers : Int) (docs : List Document),
      (run { workers := workers } docs).failure = none ∨
      ∃ stage count, (run { workers := workers } docs).failure = some (.gate stage count) := by
  refine ⟨fun name tokens haccepted => ?_, gated_run⟩
  obtain ⟨code, after, hcode⟩ := Assembly.translates_of_accepted haccepted
  have hwrites := hcode.writes [] 2
  change C.writeAll (Assembly.ofTokens name tokens).file.body {} = _ at hwrites
  exact ⟨by rw [hwrites], _, (TranslatesFiles.cons hcode .nil).compile⟩

theorem compiles_shadowing :
    (Assembly.ofTokens "a" Assembly.shadowing).diagnostics = [] ∧
      ∃ code, C.compile [(Assembly.ofTokens "a" Assembly.shadowing).file] = .ok code :=
  ⟨Assembly.accepts_shadowing, (accepted_compiles.1 "a" Assembly.shadowing Assembly.accepts_shadowing).2⟩

end Build

end Lai
