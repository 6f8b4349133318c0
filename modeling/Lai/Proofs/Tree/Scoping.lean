import Lai.Proofs.Tree.Binding
/-!
# The notes of a tree are those of lexical scoping

What a name is bound to at a place of a tree can be read off the tree: the first declaration of the name
in front of the place, in the innermost block around it that has one. Statements are resolved one after
the other, some of them broken off and left out of the tree, and the scopes kept meanwhile stand for
just the statements of the tree in front.
-/

namespace Lai

/-- The variables that the expression reads, each with its note. -/
def Expr.reads {β : Type} : Expr β → List (String × β)
  | .int .. | .string .. => []
  | .var name note _ => [(name, note)]
  | .math _ left right _ => left.reads ++ right.reads

theorem Expr.note_of_mem_reads {β γ : Type} (note : String → γ) {e : Expr β} {use : String × γ}
    (h : use ∈ (e.annotate note).reads) : use.2 = note use.1 := by
  induction e with
  | int | string => simp [annotate, reads] at h
  | var name _ loc =>
      obtain rfl : use = (name, note name) := by simpa [annotate, reads] using h
      rfl
  | math op left right loc ihleft ihright =>
      rw [annotate, reads, List.mem_append] at h
      exact h.elim ihleft ihright

/-! ### Lexical scoping -/

namespace Tree

/-- The names that the statement itself reads or assigns, each with its note. What stands in its blocks
or after its `else` is not among them. -/
def Stmt.uses : Stmt → List (String × Binding)
  | .declare _ _ _ value _ => value.toList.flatMap Expr.reads
  | .assign name target value _ => (name, target) :: value.reads
  | .print value _ => value.reads
  | .ifThen cond .. | .ifElse cond .. => cond.left.reads ++ cond.right.reads
  | .block .. => []

/-- The block of the statement. -/
def Stmt.body? : Stmt → Option (List Stmt)
  | .ifThen _ body .. | .ifElse _ body .. | .block body _ => some body
  | _ => none

/-- What follows the `else` of the statement. -/
def Stmt.otherwise? : Stmt → Option Stmt
  | .ifElse _ _ _ last _ => some last
  | _ => none

/-- The type that the statement declares the name with. -/
def Stmt.declares? (name : String) : Stmt → Option Ty
  | .declare other type .. => if other = name then some type else none
  | _ => none

/-- The type of the first declaration of the name among the statements. -/
def firstType? (stmts : List Stmt) (name : String) : Option Ty :=
  stmts.findSome? (Stmt.declares? name)

/-- What the name is bound to behind the given statements of each block, innermost block first. -/
def lexicalBinding (blocks : List (List Stmt)) (name : String) : Binding :=
  match blocks.findSome? (firstType? · name) with
  | some type => ⟨type, true⟩
  | none => ⟨.unknown, false⟩

/-- The statement stands in the trees behind the given statements of each block around it, innermost
block first. -/
inductive Stands : List Stmt → List (List Stmt) → Stmt → Prop where
  | here (earlier : List Stmt) (stmt : Stmt) (later : List Stmt) : Stands (earlier ++ stmt :: later) [earlier] stmt
  | inside {trees body : List Stmt} {blocks inner : List (List Stmt)} {outer stmt : Stmt}
      (houter : Stands trees blocks outer) (hbody : outer.body? = some body) (h : Stands body inner stmt) :
      Stands trees (inner ++ blocks) stmt
  | afterElse {trees : List Stmt} {blocks : List (List Stmt)} {outer last : Stmt}
      (houter : Stands trees blocks outer) (hlast : outer.otherwise? = some last) : Stands trees blocks last

end Tree

open Lai.Tree

namespace Grammar

/-! ### What the scopes stand for -/

/-- A declaration counts unless its block has one of the name already. -/
theorem lookup_resolveDeclaration (scopes : Scopes Ty) (name : String) (type : Ty) (inferred : Bool)
    (value : Option (Expr Binding)) (loc : Location) (other : String) :
    (resolveDeclaration scopes name type inferred value loc).scopes.inner.lookup other =
      (scopes.inner.lookup other).or (if name = other then some type else none) := by
  unfold resolveDeclaration
  by_cases hname : name = other
  · subst hname
    rw [if_pos rfl]
    by_cases hdeclares : scopes.declares name = true
    · obtain ⟨old, hold⟩ := Option.isSome_iff_exists.1 hdeclares
      rw [if_pos hdeclares, hold, Option.some_or]
    · have hnone : scopes.inner.lookup name = none := Option.not_isSome_iff_eq_none.1 hdeclares
      rw [if_neg hdeclares, hnone, Option.none_or, Scopes.bind, List.lookup_cons, beq_self_eq_true]
  · rw [if_neg hname, Option.or_none]
    split
    · rfl
    · rw [Scopes.bind, List.lookup_cons, beq_false_of_ne (Ne.symm hname)]

/-- Resolving a statement binds the name that its tree declares. -/
theorem lookup_resolve (scopes : Scopes Ty) (stmt : Stmt) (name : String) :
    (stmt.resolve scopes).scopes.inner.lookup name =
      (scopes.inner.lookup name).or (firstType? (stmt.resolve scopes).trees name) := by
  have hsilent {trees : List Tree.Stmt} (htrees : ∀ tree ∈ trees, tree.declares? name = none) :
      scopes.inner.lookup name = (scopes.inner.lookup name).or (firstType? trees name) := by
    rw [firstType?, List.findSome?_eq_none_iff.2 htrees, Option.or_none]
  cases stmt with
  | infer other value loc =>
      rw [Stmt.resolve, trees_resolveDeclaration, lookup_resolveDeclaration, firstType?, List.findSome?_singleton]
      rfl
  | declare other type value loc =>
      rw [Stmt.resolve, trees_resolveDeclaration, lookup_resolveDeclaration, firstType?, List.findSome?_singleton]
      rfl
  | assign | print | ifThen | block => exact hsilent (by simp [Stmt.resolve, Tree.Stmt.declares?])
  | ifElse cond body brace last loc =>
      refine hsilent ?_
      simp only [Stmt.resolve]
      split <;> simp [Tree.Stmt.declares?]
  | broken => exact hsilent (by simp [Stmt.resolve])

/-- Each block of the scopes has the names that the statements of the block declare, with the types of
their first declarations. -/
def Represents (scopes : Scopes Ty) (blocks : List (List Tree.Stmt)) : Prop :=
  (scopes.inner :: scopes.outer).map (fun entries name => entries.lookup name) = blocks.map firstType?

theorem represents_cons {scopes : Scopes Ty} {earlier : List Tree.Stmt} {around : List (List Tree.Stmt)} :
    Represents scopes (earlier :: around) ↔ (∀ name, scopes.inner.lookup name = firstType? earlier name) ∧
      scopes.outer.map (fun entries name => entries.lookup name) = around.map firstType? := by
  rw [Represents, List.map_cons, List.map_cons, List.cons.injEq, funext_iff]

namespace Represents

variable {scopes : Scopes Ty} {earlier : List Tree.Stmt} {blocks around : List (List Tree.Stmt)}

theorem empty : Represents {} [[]] := rfl

theorem enter (h : Represents scopes blocks) : Represents scopes.enter ([] :: blocks) :=
  represents_cons.2 ⟨fun _ => rfl, h⟩

/-- Looking up a name in the scopes is lexical scoping. -/
theorem binding_eq (h : Represents scopes blocks) (name : String) : binding scopes name = lexicalBinding blocks name := by
  have hfind : scopes.find? name = blocks.findSome? (firstType? · name) := by
    have hblocks := congrArg (List.findSome? fun find : String → Option Ty => find name) h
    rw [List.findSome?_map, List.findSome?_map] at hblocks
    exact hblocks
  unfold binding lexicalBinding
  generalize scopes.find? name = found at hfind
  subst hfind
  rfl

/-- Resolving a statement keeps up with what is left of it in the tree. -/
theorem resolve (h : Represents scopes (earlier :: around)) (stmt : Stmt) :
    Represents (stmt.resolve scopes).scopes ((earlier ++ (stmt.resolve scopes).trees) :: around) := by
  rw [represents_cons] at h ⊢
  refine ⟨fun name => ?_, ?_⟩
  · rw [lookup_resolve, h.1, firstType?, firstType?, firstType?, List.findSome?_append]
  · rw [outer_resolve, h.2]

end Represents

/-! ### Where a tree comes from -/

/-- The tree is made of a statement that was resolved where these scopes hold. -/
def Arises (scopes : Scopes Ty) (tree : Tree.Stmt) : Prop :=
  ∃ stmt : Stmt, tree ∈ (stmt.resolve scopes).trees

/-- What a resolved statement is made of: uses with the notes of the scopes, a block that was resolved
one block further in, and after `else` a statement that was resolved beside it. -/
structure Resolves (scopes : Scopes Ty) (tree : Tree.Stmt) : Prop where
  note_eq : ∀ use ∈ tree.uses, use.2 = binding scopes use.1
  body_eq : ∀ body, tree.body? = some body → ∃ stmts, body = (resolveAll scopes.enter stmts).trees
  otherwise : ∀ last, tree.otherwise? = some last → Arises scopes last

theorem resolves_declare (scopes : Scopes Ty) (name : String) (type : Ty) (inferred : Bool)
    (value : Option (Expr Unit)) (loc : Location) :
    Resolves scopes (.declare name type inferred (value.map (·.annotate (binding scopes))) loc) where
  note_eq := by
    intro use huse
    cases value with
    | none => simp [Tree.Stmt.uses] at huse
    | some value =>
        simp only [Tree.Stmt.uses, Option.map_some, Option.toList_some, List.flatMap_singleton] at huse
        exact Expr.note_of_mem_reads _ huse
  body_eq := by simp [Tree.Stmt.body?]
  otherwise := by simp [Tree.Stmt.otherwise?]

theorem note_of_mem_condition {scopes : Scopes Ty} {cond : Condition Unit} {use : String × Binding}
    (h : use ∈ (cond.annotate (binding scopes)).left.reads ++ (cond.annotate (binding scopes)).right.reads) :
    use.2 = binding scopes use.1 := by
  rw [List.mem_append] at h
  exact h.elim (Expr.note_of_mem_reads _) (Expr.note_of_mem_reads _)

theorem Arises.resolves {scopes : Scopes Ty} {tree : Tree.Stmt} (h : Arises scopes tree) : Resolves scopes tree := by
  obtain ⟨stmt, hmem⟩ := h
  cases stmt with
  | infer name value loc =>
      rw [Stmt.resolve, trees_resolveDeclaration, List.mem_singleton] at hmem
      exact hmem ▸ resolves_declare scopes name _ true (some value) loc
  | declare name type value loc =>
      rw [Stmt.resolve, trees_resolveDeclaration, List.mem_singleton] at hmem
      exact hmem ▸ resolves_declare scopes name type false value loc
  | assign name value loc =>
      obtain rfl := List.mem_singleton.1 hmem
      refine ⟨fun use huse => ?_, by simp [Tree.Stmt.body?], by simp [Tree.Stmt.otherwise?]⟩
      rcases List.mem_cons.1 huse with rfl | hread
      · rfl
      · exact Expr.note_of_mem_reads _ hread
  | print value loc =>
      obtain rfl := List.mem_singleton.1 hmem
      exact ⟨fun use huse => Expr.note_of_mem_reads _ huse, by simp [Tree.Stmt.body?], by simp [Tree.Stmt.otherwise?]⟩
  | ifThen cond body brace loc =>
      obtain rfl := List.mem_singleton.1 hmem
      exact ⟨fun use huse => note_of_mem_condition huse, fun _ hbody => ⟨body, (Option.some.inj hbody).symm⟩,
        by simp [Tree.Stmt.otherwise?]⟩
  | ifElse cond body brace last loc =>
      obtain rfl := List.mem_singleton.1 hmem
      cases hlast : (last.resolve scopes).trees with
      | nil =>
          exact ⟨fun use huse => note_of_mem_condition huse, fun _ hbody => ⟨body, (Option.some.inj hbody).symm⟩,
            by simp [Tree.Stmt.otherwise?]⟩
      | cons first rest =>
          refine ⟨fun use huse => note_of_mem_condition huse, fun _ hbody => ⟨body, (Option.some.inj hbody).symm⟩,
            fun other hother => ⟨last, ?_⟩⟩
          rw [hlast, ← Option.some.inj hother]
          exact List.mem_cons_self
  | block body loc =>
      obtain rfl := List.mem_singleton.1 hmem
      exact ⟨by simp [Tree.Stmt.uses], fun _ hbody => ⟨body, (Option.some.inj hbody).symm⟩, by simp [Tree.Stmt.otherwise?]⟩
  | broken blocks fault => simp [Stmt.resolve] at hmem

/-- A statement leaves one tree or none. -/
theorem trees_resolve (scopes : Scopes Ty) (stmt : Stmt) :
    (stmt.resolve scopes).trees = [] ∨ ∃ tree, (stmt.resolve scopes).trees = [tree] := by
  cases stmt with
  | infer | declare => exact .inr ⟨_, trees_resolveDeclaration ..⟩
  | assign | print | ifThen | ifElse | block => exact .inr ⟨_, rfl⟩
  | broken => exact .inl rfl

/-- The scopes in front of a tree stand for the trees in front of it. -/
theorem exists_scopes {stmts : List Stmt} {scopes : Scopes Ty} {before earlier later : List Tree.Stmt}
    {around : List (List Tree.Stmt)} {tree : Tree.Stmt} (hscopes : Represents scopes (before :: around))
    (htrees : (resolveAll scopes stmts).trees = earlier ++ tree :: later) :
    ∃ inner, Represents inner ((before ++ earlier) :: around) ∧ Arises inner tree := by
  induction stmts generalizing scopes before earlier with
  | nil => simp [resolveAll] at htrees
  | cons stmt rest ih =>
      have hfirst := hscopes.resolve stmt
      rw [resolveAll] at htrees
      rcases trees_resolve scopes stmt with hnone | ⟨first, hone⟩
      · rw [hnone, List.nil_append] at htrees
        rw [hnone, List.append_nil] at hfirst
        exact ih hfirst htrees
      · rw [hone, List.singleton_append] at htrees
        rw [hone] at hfirst
        cases earlier with
        | nil =>
            rw [List.nil_append, List.cons.injEq] at htrees
            rw [List.append_nil]
            exact ⟨scopes, hscopes, stmt, by simp [hone, htrees.1]⟩
        | cons other earlier =>
            rw [List.cons_append, List.cons.injEq] at htrees
            obtain ⟨inner, hinner, harises⟩ := ih hfirst htrees.2
            rw [List.append_assoc, List.singleton_append, htrees.1] at hinner
            exact ⟨inner, hinner, harises⟩

/-- Wherever a statement stands in the tree, it was resolved in scopes that stand for the blocks around
it. -/
theorem exists_scopes_of_stands {trees : List Tree.Stmt} {blocks : List (List Tree.Stmt)} {tree : Tree.Stmt}
    (h : Stands trees blocks tree) {stmts : List Stmt} {scopes : Scopes Ty} {around : List (List Tree.Stmt)}
    (hscopes : Represents scopes ([] :: around)) (htrees : trees = (resolveAll scopes stmts).trees) :
    ∃ inner, Represents inner (blocks ++ around) ∧ Arises inner tree := by
  induction h generalizing stmts scopes around with
  | here earlier tree later => exact exists_scopes hscopes htrees.symm
  | inside houter hbody h ihouter ih =>
      obtain ⟨outside, houtside, harises⟩ := ihouter hscopes htrees
      obtain ⟨inside, hinside⟩ := harises.resolves.body_eq _ hbody
      obtain ⟨inner, hinner, harises⟩ := ih houtside.enter hinside
      rw [← List.append_assoc] at hinner
      exact ⟨inner, hinner, harises⟩
  | afterElse houter hlast ih =>
      obtain ⟨inner, hinner, harises⟩ := ih hscopes htrees
      exact ⟨inner, hinner, harises.resolves.otherwise _ hlast⟩

/-- The trees are the same without a statement that has broken off, whatever it declares in its blocks. -/
theorem trees_resolveAll_broken (scopes : Scopes Ty) (front blocks back : List Stmt) (fault : Located Fault) :
    (resolveAll scopes (front ++ .broken blocks fault :: back)).trees = (resolveAll scopes (front ++ back)).trees := by
  induction front generalizing scopes with
  | nil => rfl
  | cons stmt front ih => simp only [List.cons_append, resolveAll, ih]

/-! ### The scopes while a text is read -/

namespace Descent

/-- What a statement leaves of the scopes that it was read with: the blocks around its own as they were, and in its
own the name bound that its tree declares, unless it has been bound before. One that has broken off binds nothing. -/
structure Leaves (scopes : Scopes Ty) (result : Except (Located Fault) Tree.Stmt) (later : Scopes Ty) : Prop where
  outer_eq : later.outer = scopes.outer
  lookup_eq : ∀ tree, result = .ok tree → ∀ name,
    later.inner.lookup name = (scopes.inner.lookup name).or (tree.declares? name)
  eq_of_error : ∀ fault, result = .error fault → later = scopes

theorem Agree.leaves {s s' : Scoped} {result : Except Break Stmt} {made : Except (Located Fault) Tree.Stmt}
    (h : Agree s (Makes s) result made s') : Leaves s.scopes made s'.scopes := by
  cases result with
  | error e =>
      cases made with
      | error fault =>
          obtain ⟨-, rfl⟩ := h
          exact ⟨rfl, by simp, fun _ _ => rfl⟩
      | ok tree => exact h.elim
  | ok stmt =>
      cases made with
      | error fault => exact h.elim
      | ok tree =>
          obtain ⟨htree, rfl⟩ := h
          refine ⟨outer_resolve s.scopes stmt, ?_, by simp⟩
          rintro _ ⟨⟩ name
          have hlookup := lookup_resolve s.scopes stmt name
          rw [htree, firstType?, List.findSome?_singleton] at hlookup
          exact hlookup

/-- A statement is read to an end from any scopes, wherever it stands. -/
theorem ends_scanStatement (taken : List Token) (t : Token) (rest : List Token) (s : Scoped) :
    ∃ made after s', Ends (m := trees) scanStatement ⟨taken, t :: rest⟩ s made after s' ∧ Leaves s.scopes made s'.scopes := by
  obtain ⟨result, ts, left, hcomes, -⟩ := comes_scanStatement taken t rest
  obtain ⟨made, s', hends, hagrees⟩ := hcomes.ends s
  exact ⟨made, _, s', hends, hagrees.leaves⟩

end Descent

end Grammar

open Grammar Descent

namespace Assembly

/-- Every name that is read or assigned in the tree is noted with what lexical scoping of the tree binds
it to. The tree and the reports are those of one descent that keeps the scopes in mind, which is outside all blocks
again at its end; each call for a statement leaves the blocks around it that it was entered with, and binds nothing
if the statement breaks off. So what has broken off leaves no trace in the tree. -/
theorem read_binds_lexically (name : String) (tokens : List Token) :
    (∀ blocks stmt, Stands (read name tokens).file.body blocks stmt →
      ∀ use ∈ stmt.uses, use.2 = lexicalBinding blocks use.1) ∧
    (∃ last : Scoped, Ends (m := trees) (scanStatements false) ⟨[], tokens⟩ {} (read name tokens).file.body ⟨tokens, []⟩ last ∧
      last.notes.map (Note.diagnostic name) = (read name tokens).diagnostics ∧ last.scopes.outer = []) ∧
    (∀ (taken : List Token) (t : Token) (rest : List Token) (s : Scoped), ∃ made after s',
      Ends (m := trees) scanStatement ⟨taken, t :: rest⟩ s made after s' ∧ Leaves s.scopes made s'.scopes) ∧
    ∀ scopes : Scopes Ty,
      (∀ (front blocks back : List Grammar.Stmt) (fault : Located Grammar.Fault),
        (resolveAll scopes (front ++ .broken blocks fault :: back)).trees = (resolveAll scopes (front ++ back)).trees) ∧
      ∀ stmt : Grammar.Stmt, (stmt.resolve scopes).scopes.outer = scopes.outer := by
  refine ⟨fun blocks stmt hstands use huse => ?_, ⟨_, ends_scanStatements tokens, rfl, ?_⟩, ends_scanStatement,
    fun scopes => ⟨trees_resolveAll_broken scopes, outer_resolve scopes⟩⟩
  · obtain ⟨inner, hinner, harises⟩ := exists_scopes_of_stands hstands Represents.empty rfl
    rw [List.append_nil] at hinner
    rw [← hinner.binding_eq]
    exact harises.resolves.note_eq use huse
  · exact outer_resolveAll {} (Grammar.read tokens)

/-- The tokens of `x := "s"`, of `if (1 == 1) { x := 1 } else 5`, which breaks off, and of `print(x)`. -/
def brokenBranch : List Token :=
  [⟨.identifier "x", ⟨0, 0⟩⟩, ⟨.symbol .infer, ⟨0, 2⟩⟩, ⟨.string "s", ⟨0, 5⟩⟩, ⟨.symbol .ifWord, ⟨1, 0⟩⟩,
   ⟨.symbol .openParen, ⟨1, 3⟩⟩, ⟨.integer 1, ⟨1, 4⟩⟩, ⟨.symbol .equal, ⟨1, 6⟩⟩, ⟨.integer 1, ⟨1, 9⟩⟩,
   ⟨.symbol .closeParen, ⟨1, 10⟩⟩, ⟨.symbol .openBrace, ⟨1, 12⟩⟩, ⟨.identifier "x", ⟨1, 14⟩⟩, ⟨.symbol .infer, ⟨1, 16⟩⟩,
   ⟨.integer 1, ⟨1, 19⟩⟩, ⟨.symbol .closeBrace, ⟨1, 21⟩⟩, ⟨.symbol .elseWord, ⟨1, 23⟩⟩, ⟨.integer 5, ⟨1, 28⟩⟩,
   ⟨.symbol .printWord, ⟨2, 0⟩⟩, ⟨.symbol .openParen, ⟨2, 5⟩⟩, ⟨.identifier "x", ⟨2, 6⟩⟩, ⟨.symbol .closeParen, ⟨2, 7⟩⟩]

/-- The variable printed is the text and not the number declared in the branch. -/
theorem binds_behind_brokenBranch :
    ∃ earlier, Stands (read "a" brokenBranch).file.body [earlier] (.print (.var "x" ⟨.string, true⟩ ⟨2, 6⟩) ⟨2, 0⟩) ∧
      lexicalBinding [earlier] "x" = ⟨.string, true⟩ := by
  have hstands : Stands (read "a" brokenBranch).file.body [[.declare "x" .string true (some (.string "s" ⟨0, 5⟩)) ⟨0, 0⟩]]
      (.print (.var "x" ⟨.string, true⟩ ⟨2, 6⟩) ⟨2, 0⟩) := .here _ _ []
  exact ⟨_, hstands, ((read_binds_lexically "a" brokenBranch).1 _ _ hstands ("x", _) List.mem_cons_self).symm⟩

end Assembly

end Lai
