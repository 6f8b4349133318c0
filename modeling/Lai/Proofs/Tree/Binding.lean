import Lai.Proofs.Grammar.Consumption
import Lai.Proofs.Scopes
/-!
# Names are bound while a text is read

Trees can be made in one descent with the scopes kept in mind: a block is entered behind its opening brace and
left behind its statements, a name is looked up as soon as it is read, a declaration binds its name as soon as it
has been read, and what is wrong is noted on the way, although the statement around all this may yet break off.
Wherever the descent that makes phrases comes to an end, this one does, and what it has made and noted is what
resolving the phrases comes to.
-/

namespace Lai.Grammar

/-! ### The blocks around a statement -/

/-- No statement changes the blocks around its own. -/
theorem outer_resolve (scopes : Scopes Ty) (stmt : Stmt) : (stmt.resolve scopes).scopes.outer = scopes.outer := by
  cases stmt with
  | infer | declare =>
      simp only [Stmt.resolve, resolveDeclaration]
      split <;> rfl
  | assign | print | ifThen | ifElse | block | broken => rfl

theorem outer_resolveAll (scopes : Scopes Ty) (stmts : List Stmt) :
    (resolveAll scopes stmts).scopes.outer = scopes.outer := by
  induction stmts generalizing scopes with
  | nil => rfl
  | cons stmt rest ih => exact (ih _).trans (outer_resolve scopes stmt)

namespace Descent

/-! ### Making trees -/

/-- The scopes at a place of a text, and what has been noted in front of it. -/
structure Scoped where
  scopes : Scopes Ty := {}
  notes : List (Located Note) := []

namespace Scoped

/-- Binds the name of a declaration, unless its block has a declaration of the name already. -/
def declare (s : Scoped) (name : String) (type : Ty) (loc : Location) : Scoped :=
  if s.scopes.declares name then { s with notes := s.notes ++ [⟨loc, .redeclared name⟩] }
  else { s with scopes := s.scopes.bind name type }

/-- The same place with more notes. -/
def noting (s : Scoped) (notes : List (Located Note)) : Scoped :=
  { s with notes := s.notes ++ notes }

/-- The place behind statements that have been resolved. -/
def after (s : Scoped) (resolved : Resolved) : Scoped :=
  ⟨resolved.scopes, s.notes ++ resolved.notes⟩

end Scoped

/-- Trees are made with the names bound that have been declared so far. -/
@[reducible] def trees : Maker where
  Note := Binding
  Made := Tree.Stmt
  Lost := Located Fault
  Mind := Scoped
  note s := binding s.scopes
  infer name value loc s := (.declare name value.type true (some value) loc, s.declare name value.type loc)
  declare name type value loc s := (.declare name type false value loc, s.declare name type loc)
  assign name value loc s := (.assign name (binding s.scopes name) value loc, s)
  print := .print
  ifThen := .ifThen
  ifElse := .ifElse
  block := .block
  enter s := { s with scopes := s.scopes.enter }
  leave s := { s with scopes := s.scopes.leave }
  lose fault := fault
  behind _ _ fault := fault
  report fault s := ([], s.noting [fault.map .broken])

/-! ### One descent beside the other -/

section

variable {α β γ δ : Type} {old : Answers phrases} {new : Answers trees} {s : Scoped} {post : α → β → Scoped → Prop}

/-- Wherever the first run comes to an end, the second one does with these scopes in mind, on the same buffer, and
what they come to is as stated. -/
def Follows (old : Answers phrases) (new : Answers trees) (s : Scoped) (x : Run phrases α) (y : Run trees β)
    (post : α → β → Scoped → Prop) : Prop :=
  ∀ b a after, x.interpret old b () = some (a, after, ()) →
    ∃ c s', y.interpret new b s = some (c, after, s') ∧ post a c s'

namespace Follows

theorem mono {x : Run phrases α} {y : Run trees β} {weak : α → β → Scoped → Prop} (h : Follows old new s x y post)
    (himp : ∀ a c s', post a c s' → weak a c s') : Follows old new s x y weak := by
  intro b a after hx
  obtain ⟨c, s', hy, hpost⟩ := h b a after hx
  exact ⟨c, s', hy, himp a c s' hpost⟩

theorem pure {a : α} {c : β} (h : post a c s) : Follows old new s (pure a) (pure c) post := by
  rintro b _ _ ⟨⟩
  exact ⟨c, s, rfl, h⟩

theorem bind {x : Run phrases γ} {y : Run trees δ} {f : γ → Run phrases α} {g : δ → Run trees β}
    {mid : γ → δ → Scoped → Prop} (h : Follows old new s x y mid)
    (hf : ∀ a c s', mid a c s' → Follows old new s' (f a) (g c) post) :
    Follows old new s (x >>= f) (y >>= g) post := by
  intro b a after hx
  rw [interpret_bind] at hx
  obtain ⟨⟨a', middle, ⟨⟩⟩, hfirst, hlast⟩ := Option.bind_eq_some_iff.1 hx
  obtain ⟨c', s', hnew, hmid⟩ := h b a' middle hfirst
  obtain ⟨c, s'', hrest, hpost⟩ := hf a' c' s' hmid middle a after hlast
  refine ⟨c, s'', ?_, hpost⟩
  rw [interpret_bind, hnew]
  exact hrest

theorem peek {f : Option Token → Run phrases α} {g : Option Token → Run trees β}
    (h : ∀ t, Follows old new s (f t) (g t) post) :
    Follows old new s (peek phrases >>= f) (peek trees >>= g) post :=
  fun b => h b.rest.head? b

theorem next {f : Option Token → Run phrases α} {g : Option Token → Run trees β}
    (h : ∀ t, Follows old new s (f t) (g t) post) :
    Follows old new s (next phrases >>= f) (next trees >>= g) post := by
  rintro ⟨taken, _ | ⟨t, rest⟩⟩
  · exact h none _
  · exact h (some t) _

theorem lastLoc {f : Location → Run phrases α} {g : Location → Run trees β}
    (h : ∀ loc, Follows old new s (f loc) (g loc) post) :
    Follows old new s (lastLoc phrases >>= f) (lastLoc trees >>= g) post :=
  fun b => h b.prev b

theorem consider {x : StateM Unit γ} {y : StateM Scoped δ} {f : γ → Run phrases α} {g : δ → Run trees β}
    (h : Follows old new (y s).2 (f (x ()).1) (g (y s).1) post) :
    Follows old new s (consider x >>= f) (consider y >>= g) post :=
  h

theorem check {symbol : Symbol} {f : Bool → Run phrases α} {g : Bool → Run trees β}
    (h : ∀ found, Follows old new s (f found) (g found) post) :
    Follows old new s (check phrases symbol >>= f) (check trees symbol >>= g) post := by
  simp only [Descent.check, bind_assoc]
  apply peek
  intro t
  by_cases ht : t.any (·.lexeme = .symbol symbol)
  · simp only [ht, if_true, bind_assoc, pure_bind]
    exact next fun _ => h true
  · simp only [ht, Bool.false_eq_true, if_false, pure_bind]
    exact h false

end Follows

/-- What two scans come to: values that are as stated, or one and the same fault, with the notes of the blocks that
have been read. -/
def Agree (s : Scoped) (good : α → β → Scoped → Prop) : Except Break α → Except (Located Fault) β → Scoped → Prop
  | .ok a, .ok c, s' => good a c s'
  | .error e, .error fault, s' => fault = e.fault ∧ s' = s.noting (resolveAll s.scopes e.blocks).notes
  | _, _, _ => False

/-- The value is made of the other one, and nothing else has come to mind. -/
def Plainly (s : Scoped) (made : α → β) (a : α) (c : β) (s' : Scoped) : Prop :=
  c = made a ∧ s' = s

namespace Follows

variable {good : α → β → Scoped → Prop}

/-- Runs that go on with what two scans have come to. -/
theorem bindAgree {x : Run phrases (Except Break γ)} {y : Run trees (Except (Located Fault) δ)}
    {f : Except Break γ → Run phrases α} {g : Except (Located Fault) δ → Run trees β} {mid : γ → δ → Scoped → Prop}
    (h : Follows old new s x y (Agree s mid))
    (herror : ∀ e : Break, Follows old new (s.noting (resolveAll s.scopes e.blocks).notes) (f (.error e))
      (g (.error e.fault)) post)
    (hok : ∀ a c s', mid a c s' → Follows old new s' (f (.ok a)) (g (.ok c)) post) :
    Follows old new s (x >>= f) (y >>= g) post := by
  refine h.bind ?_
  rintro (e | a) (fault | c) s' hagree
  · obtain ⟨rfl, rfl⟩ := hagree
    exact herror e
  · exact hagree.elim
  · exact hagree.elim
  · exact hok a c s' hagree

/-- What has broken off stays so. -/
theorem lost (e : Break) : Follows old new (s.noting (resolveAll s.scopes e.blocks).notes)
    (Pure.pure (.error e : Except Break α)) (Pure.pure (.error e.fault : Except (Located Fault) β)) (Agree s good) :=
  pure ⟨rfl, rfl⟩

theorem seq {made : γ → δ} {x : Scan phrases γ} {y : Scan trees δ} {f : γ → Scan phrases α} {g : δ → Scan trees β}
    (h : Follows old new s x.run y.run (Agree s (Plainly s made)))
    (hf : ∀ a, Follows old new s (f a).run (g (made a)).run (Agree s good)) :
    Follows old new s (x >>= f).run (y >>= g).run (Agree s good) := by
  rw [ExceptT.run_bind, ExceptT.run_bind]
  refine h.bindAgree lost ?_
  rintro a _ _ ⟨rfl, rfl⟩
  exact hf a

theorem fail {expected : Expected} {found : Option Token} :
    Follows old new s (fail expected found : Scan phrases α).run (Descent.fail expected found : Scan trees β).run
      (Agree s good) := by
  rintro b _ _ ⟨⟩
  exact ⟨_, s, rfl, rfl, by simp [Scoped.noting, resolveAll]⟩

theorem scanPeek {f : Option Token → Scan phrases α} {g : Option Token → Scan trees β}
    {post : Except Break α → Except (Located Fault) β → Scoped → Prop}
    (h : ∀ t, Follows old new s (f t).run (g t).run post) :
    Follows old new s ((liftM (Descent.peek phrases) : Scan phrases (Option Token)) >>= f).run
      ((liftM (Descent.peek trees) : Scan trees (Option Token)) >>= g).run post :=
  peek h

theorem scanNext {f : Option Token → Scan phrases α} {g : Option Token → Scan trees β}
    {post : Except Break α → Except (Located Fault) β → Scoped → Prop}
    (h : ∀ t, Follows old new s (f t).run (g t).run post) :
    Follows old new s ((liftM (Descent.next phrases) : Scan phrases (Option Token)) >>= f).run
      ((liftM (Descent.next trees) : Scan trees (Option Token)) >>= g).run post :=
  next h

theorem scanNoted {f : (String → Unit) → Scan phrases α} {g : (String → Binding) → Scan trees β}
    {post : Except Break α → Except (Located Fault) β → Scoped → Prop}
    (h : Follows old new s (f (phrases.note ())).run (g (binding s.scopes)).run post) :
    Follows old new s ((liftM (noted phrases) : Scan phrases (String → Unit)) >>= f).run
      ((liftM (noted trees) : Scan trees (String → Binding)) >>= g).run post :=
  h

theorem scanCheck {symbol : Symbol} {f : Bool → Scan phrases α} {g : Bool → Scan trees β}
    {post : Except Break α → Except (Located Fault) β → Scoped → Prop}
    (h : ∀ found, Follows old new s (f found).run (g found).run post) :
    Follows old new s ((liftM (Descent.check phrases symbol) : Scan phrases Bool) >>= f).run
      ((liftM (Descent.check trees symbol) : Scan trees Bool) >>= g).run post := by
  rw [show ((liftM (Descent.check phrases symbol) : Scan phrases Bool) >>= f).run =
      Descent.check phrases symbol >>= fun a => (f a).run from ExceptT.run_bind_lift _ _,
    show ((liftM (Descent.check trees symbol) : Scan trees Bool) >>= g).run =
      Descent.check trees symbol >>= fun a => (g a).run from ExceptT.run_bind_lift _ _]
  exact check h

theorem require (symbol : Symbol) : Follows old new s (require symbol : Scan phrases Location).run
    (Descent.require symbol : Scan trees Location).run (Agree s (Plainly s id)) := by
  rw [Descent.require, Descent.require]
  apply scanPeek
  intro t
  cases t with
  | none => exact fail
  | some t =>
      dsimp only
      split
      · exact scanNext fun _ => pure ⟨rfl, rfl⟩
      · exact fail

end Follows

/-! ### Calls -/

/-- The same call where trees are made. -/
def Call.view (s : Scoped) : Call phrases → Call trees
  | .binary least => .binary least
  | .operators least left => .operators least (left.annotate (binding s.scopes))
  | .operand => .operand
  | .skip line => .skip line
  | .statements inBlock => .statements inBlock
  | .statement => .statement
  | .conditional loc => .conditional loc
  | .otherwise cond body brace loc =>
    .otherwise (cond.annotate (binding s.scopes)) (resolveAll s.scopes.enter body).trees brace loc
  | .elseBranch => .elseBranch
  | .block => .block
  | .inside brace => .inside brace

/-- The tree is all that resolving the phrase leaves. -/
def Makes (s : Scoped) (stmt : Stmt) (tree : Tree.Stmt) (s' : Scoped) : Prop :=
  (stmt.resolve s.scopes).trees = [tree] ∧ s' = s.after (stmt.resolve s.scopes)

/-- A statement that may stand behind an `else` binds no name. -/
def MakesBranch (s : Scoped) (stmt : Stmt) (tree : Tree.Stmt) (s' : Scoped) : Prop :=
  Makes s stmt tree s' ∧ s'.scopes = s.scopes

/-- The block has been entered and left. -/
def MakesBlock (s : Scoped) (block : List Stmt × Location) (made : List Tree.Stmt × Location) (s' : Scoped) : Prop :=
  made = ((resolveAll s.scopes.enter block.1).trees, block.2) ∧
    s' = s.noting (resolveAll s.scopes.enter block.1).notes

/-- What the call comes to. -/
def Call.Agrees (s : Scoped) : (c : Call phrases) → c.Result → (c.view s).Result → Scoped → Prop
  | .binary _ | .operators .. | .operand => Agree s (Plainly s (Expr.annotate (binding s.scopes)))
  | .skip _ => Plainly s id
  | .statements _ => fun stmts made s' =>
    made = (resolveAll s.scopes stmts).trees ∧ s' = s.after (resolveAll s.scopes stmts)
  | .statement => Agree s (Makes s)
  | .conditional _ | .elseBranch => Agree s (MakesBranch s)
  -- The block of the test has been read before.
  | .otherwise _ body _ _ => fun result made s' =>
    ∀ start : Scoped, s = start.noting (resolveAll start.scopes.enter body).notes →
      Agree start (MakesBranch start) result made s'
  | .block | .inside _ => Agree s (MakesBlock s)

/-- Calls that come to an end do so where trees are made. -/
def Keeps (old : Answers phrases) (new : Answers trees) : Prop :=
  ∀ (c : Call phrases) (s : Scoped), Follows old new s (.call c .done) (.call (c.view s) .done) (c.Agrees s)

/-! ### What resolving leaves -/

theorem after_resolveDeclaration (s : Scoped) (name : String) (type : Ty) (inferred : Bool)
    (value : Option (Expr Binding)) (loc : Location) :
    s.declare name type loc = s.after (resolveDeclaration s.scopes name type inferred value loc) := by
  unfold Scoped.declare resolveDeclaration
  split
  · rfl
  · simp [Scoped.after]

theorem makes_of_resolve_eq {stmt : Stmt} {tree : Tree.Stmt} (hresolve : stmt.resolve s.scopes = ⟨s.scopes, [tree], []⟩) :
    Makes s stmt tree s := by
  simp [Makes, hresolve, Scoped.after]

/-- A branch joins the last one, which has been read behind it. -/
theorem MakesBranch.ifElse {body : List Stmt} {last : Stmt} {tree : Tree.Stmt} {s' : Scoped}
    (hlast : MakesBranch (s.noting (resolveAll s.scopes.enter body).notes) last tree s') (cond : Condition Unit)
    (brace loc : Location) :
    MakesBranch s (.ifElse cond body brace last loc)
      (.ifElse (cond.annotate (binding s.scopes)) (resolveAll s.scopes.enter body).trees brace tree loc) s' := by
  obtain ⟨⟨htree, rfl⟩, hscopes⟩ := hlast
  have htree : (last.resolve s.scopes).trees = [tree] := htree
  have hscopes : (last.resolve s.scopes).scopes = s.scopes := hscopes
  refine ⟨⟨?_, ?_⟩, hscopes⟩
  · simp only [Stmt.resolve, htree]
  · simp [Scoped.after, Scoped.noting, Stmt.resolve, hscopes]

theorem Agree.statement {result : Except Break Stmt} {made : Except (Located Fault) Tree.Stmt} {s' : Scoped}
    (hagree : Agree s (MakesBranch s) result made s') : Agree s (Makes s) result made s' := by
  cases result with
  | error e => cases made <;> exact hagree
  | ok stmt =>
      cases made with
      | error fault => exact hagree
      | ok tree => exact hagree.1

theorem agrees_cons (inBlock : Bool) (stmt : Stmt) (rest : List Stmt) :
    Call.Agrees s (.statements inBlock) (stmt :: rest)
      ((stmt.resolve s.scopes).trees ++ (resolveAll (stmt.resolve s.scopes).scopes rest).trees)
      ((s.after (stmt.resolve s.scopes)).after (resolveAll (stmt.resolve s.scopes).scopes rest)) :=
  ⟨rfl, by simp [Scoped.after, resolveAll]⟩

/-! ### Expressions -/

section

variable (h : Keeps old new)

include h

theorem follows_binary (least : Nat) : Follows old new s (Call.run (.binary least)) (Call.run (.binary least))
    (Agree s (Plainly s (Expr.annotate (binding s.scopes)))) := by
  rw [Call.run, Call.run]
  exact Follows.seq (h .operand s) fun left => h (.operators least left) s

theorem follows_operators (least : Nat) (left : Expr Unit) :
    Follows old new s (Call.run (.operators least left)) (Call.run (.operators least (left.annotate (binding s.scopes))))
      (Agree s (Plainly s (Expr.annotate (binding s.scopes)))) := by
  rw [Call.run, Call.run]
  apply Follows.scanPeek
  intro t
  cases t with
  | none => exact Follows.pure ⟨rfl, rfl⟩
  | some t =>
      dsimp only
      cases MathOp.ofLexeme? t.lexeme with
      | none => exact Follows.pure ⟨rfl, rfl⟩
      | some op =>
          dsimp only
          split
          · exact Follows.pure ⟨rfl, rfl⟩
          · apply Follows.scanNext
            intro _
            exact Follows.seq (h (.binary _) s) fun right => h (.operators least (.math op left right t.loc)) s

theorem follows_operand : Follows old new s (Call.run .operand) (Call.run .operand)
    (Agree s (Plainly s (Expr.annotate (binding s.scopes)))) := by
  rw [Call.run, Call.run]
  apply Follows.scanPeek
  intro t
  cases t with
  | none => exact Follows.fail
  | some t =>
      dsimp only
      cases operand? t with
      | some e =>
          apply Follows.scanNext
          intro _
          apply Follows.scanNoted
          exact Follows.pure ⟨by rw [annotate_phrases], rfl⟩
      | none =>
          dsimp only
          split
          · apply Follows.scanNext
            intro _
            exact Follows.seq (h (.binary 1) s) fun e => Follows.seq (Follows.require _) fun _ => Follows.pure ⟨rfl, rfl⟩
          · exact Follows.fail

theorem follows_scanExpr : Follows old new s (scanExpr : Scan phrases (Expr Unit)).run
    (scanExpr : Scan trees (Expr Binding)).run (Agree s (Plainly s (Expr.annotate (binding s.scopes)))) :=
  h (.binary 1) s

end

/-! ### Statements without blocks -/

theorem follows_make {x : StateM Unit Stmt} {y : StateM Scoped Tree.Stmt} (hmakes : Makes s (x ()).1 (y s).1 (y s).2) :
    Follows old new s (make x : Scan phrases Stmt).run (make y : Scan trees Tree.Stmt).run (Agree s (Makes s)) := by
  rintro b _ _ ⟨⟩
  exact ⟨_, _, rfl, hmakes⟩

theorem follows_scanType : Follows old new s (scanType : Scan phrases Ty).run (scanType : Scan trees Ty).run
    (Agree s (Plainly s id)) := by
  rw [scanType, scanType]
  apply Follows.scanNext
  intro t
  cases t with
  | none => exact Follows.fail
  | some t =>
      dsimp only
      cases Ty.ofLexeme? t.lexeme with
      | none => exact Follows.fail
      | some type => exact Follows.pure ⟨rfl, rfl⟩

section

variable (h : Keeps old new)

include h

theorem follows_scanNamed (name : String) (loc : Location) : Follows old new s (scanNamed name loc : Scan phrases Stmt).run
    (scanNamed name loc : Scan trees Tree.Stmt).run (Agree s (Makes s)) := by
  have hdeclare (type : Ty) (value : Option (Expr Unit)) : Makes s (.declare name type value loc)
      (.declare name type false (value.map (·.annotate (binding s.scopes))) loc) (s.declare name type loc) :=
    ⟨trees_resolveDeclaration .., after_resolveDeclaration ..⟩
  rw [scanNamed, scanNamed]
  apply Follows.scanNext
  intro _
  apply Follows.scanCheck
  intro infer
  cases infer with
  | true =>
      exact Follows.seq (follows_scanExpr h) fun value =>
        follows_make ⟨trees_resolveDeclaration .., after_resolveDeclaration ..⟩
  | false =>
      apply Follows.scanCheck
      intro colon
      cases colon with
      | true =>
          refine Follows.seq follows_scanType fun type => Follows.scanCheck fun initial => ?_
          cases initial with
          | true => exact Follows.seq (follows_scanExpr h) fun value => follows_make (hdeclare type (some value))
          | false => exact follows_make (hdeclare type none)
      | false =>
          apply Follows.scanCheck
          intro assign
          cases assign with
          | true => exact Follows.seq (follows_scanExpr h) fun value => follows_make (makes_of_resolve_eq (s := s) rfl)
          | false => exact Follows.scanPeek fun _ => Follows.fail

theorem follows_scanPrint (loc : Location) : Follows old new s (scanPrint loc : Scan phrases Stmt).run
    (scanPrint loc : Scan trees Tree.Stmt).run (Agree s (Makes s)) := by
  rw [scanPrint, scanPrint]
  apply Follows.scanNext
  intro _
  refine Follows.seq (Follows.require _) fun _ => Follows.seq (follows_scanExpr h) fun value => ?_
  exact Follows.seq (Follows.require _) fun _ => Follows.pure (makes_of_resolve_eq rfl)

/-! ### Blocks and if statements -/

theorem follows_scanTest : Follows old new s (scanTest : Scan phrases (Condition Unit)).run
    (scanTest : Scan trees (Condition Binding)).run (Agree s (Plainly s (Condition.annotate (binding s.scopes)))) := by
  rw [scanTest, scanTest]
  apply Follows.scanNext
  intro _
  refine Follows.seq (Follows.require _) fun _ => Follows.seq (follows_scanExpr h) fun left => Follows.scanNext fun t => ?_
  cases t with
  | none => exact Follows.fail
  | some t =>
      dsimp only
      cases CompareOp.ofLexeme? t.lexeme with
      | none => exact Follows.fail
      | some op =>
          refine Follows.seq (follows_scanExpr h) fun right => ?_
          exact Follows.seq (Follows.require _) fun _ => Follows.pure ⟨rfl, rfl⟩

theorem follows_inside (brace : Location) :
    Follows old new s (Call.run (.inside brace)) (Call.run (.inside brace)) (Agree s (MakesBlock s)) := by
  rw [Call.run, Call.run]
  apply Follows.consider
  refine (h (.statements true) _).bind ?_
  rintro body _ _ ⟨rfl, rfl⟩
  have hleave : (resolveAll s.scopes.enter body).scopes.leave = s.scopes :=
    Scopes.leave_eq_of_outer_eq (outer_resolveAll s.scopes.enter body)
  -- What the block has declared goes with it, so the names are bound as in front of the block.
  have hstate : trees.leave ((trees.enter s).after (resolveAll s.scopes.enter body)) =
      s.noting (resolveAll s.scopes.enter body).notes := by
    simp [Scoped.after, Scoped.noting, hleave]
  apply Follows.consider
  change Follows old new (trees.leave ((trees.enter s).after (resolveAll s.scopes.enter body))) _ _ _
  rw [hstate]
  refine (Follows.require .closeBrace).bindAgree ?_ ?_
  · intro e
    exact Follows.pure ⟨rfl, by simp [Scoped.noting, Break.behind, resolveAll, Stmt.resolve]⟩
  · rintro _ _ _ ⟨-, rfl⟩
    exact Follows.pure ⟨rfl, rfl⟩

theorem follows_block : Follows old new s (Call.run .block) (Call.run .block) (Agree s (MakesBlock s)) := by
  rw [Call.run, Call.run]
  refine (Follows.require .openBrace).bindAgree Follows.lost ?_
  rintro _ brace _ ⟨rfl, rfl⟩
  exact h (.inside brace) _

/-- A block as a statement of its own or as the last branch of one. -/
theorem follows_blockStatement :
    Follows old new s (do return (← scanBlock).map fun block => phrases.block block.1 block.2)
      (do return (← scanBlock).map fun block => trees.block block.1 block.2) (Agree s (MakesBranch s)) := by
  refine (h .block s).bindAgree Follows.lost ?_
  rintro ⟨body, brace⟩ _ _ ⟨rfl, rfl⟩
  exact Follows.pure ⟨⟨rfl, rfl⟩, rfl⟩

theorem follows_elseBranch :
    Follows old new s (Call.run .elseBranch) (Call.run .elseBranch) (Agree s (MakesBranch s)) := by
  rw [Call.run, Call.run]
  apply Follows.peek
  intro t
  cases t.filter (·.lexeme = .symbol .ifWord) with
  | none => exact follows_blockStatement h
  | some t => exact h (.conditional t.loc) s

theorem follows_otherwise (cond : Condition Unit) (body : List Stmt) (brace loc : Location) :
    Follows old new s (Call.run (.otherwise cond body brace loc))
      (Call.run (.otherwise (cond.annotate (binding s.scopes)) (resolveAll s.scopes.enter body).trees brace loc))
      (Call.Agrees s (.otherwise cond body brace loc)) := by
  rw [Call.run, Call.run]
  apply Follows.check
  intro found
  cases found with
  | false =>
      apply Follows.pure
      intro start hstart
      subst hstart
      exact ⟨⟨rfl, rfl⟩, rfl⟩
  | true =>
      refine (h .elseBranch s).bindAgree (fun e => Follows.pure ?_) fun last tree s' hlast => Follows.pure ?_
      · intro start hstart
        subst hstart
        exact ⟨rfl, by simp [Scoped.noting, Break.behind, resolveAll, Stmt.resolve]⟩
      · intro start hstart
        subst hstart
        exact hlast.ifElse cond brace loc

theorem follows_conditional (loc : Location) :
    Follows old new s (Call.run (.conditional loc)) (Call.run (.conditional loc)) (Agree s (MakesBranch s)) := by
  rw [Call.run, Call.run]
  refine (follows_scanTest h).bindAgree Follows.lost ?_
  rintro cond _ _ ⟨rfl, rfl⟩
  refine (h .block _).bindAgree Follows.lost ?_
  rintro ⟨body, brace⟩ _ _ ⟨rfl, rfl⟩
  exact (h (.otherwise cond body brace loc) _).mono fun _ _ _ hotherwise => hotherwise _ rfl

/-! ### All statements -/

theorem follows_skip (line : Int) :
    Follows old new s (Call.run (.skip line)) (Call.run (.skip line)) (Plainly s id) := by
  rw [Call.run, Call.run]
  apply Follows.peek
  intro t
  cases t with
  | none => exact Follows.pure ⟨rfl, rfl⟩
  | some t =>
      dsimp only
      split
      · exact Follows.next fun _ => h (.skip line) s
      · exact Follows.pure ⟨rfl, rfl⟩

theorem follows_statement : Follows old new s (Call.run .statement) (Call.run .statement) (Agree s (Makes s)) := by
  rw [Call.run, Call.run]
  apply Follows.peek
  intro t
  cases t with
  | none => exact Follows.fail
  | some t =>
      obtain ⟨lexeme, loc⟩ := t
      cases lexeme with
      | identifier name => exact follows_scanNamed h name loc
      | symbol symbol =>
          cases symbol with
          | printWord => exact follows_scanPrint h loc
          | ifWord => exact (h (.conditional loc) s).mono fun _ _ _ => Agree.statement
          | openBrace => exact (follows_blockStatement h).mono fun _ _ _ => Agree.statement
          | _ => exact Follows.next fun _ => Follows.fail
      | _ => exact Follows.next fun _ => Follows.fail

/-- A statement that has broken off is noted, and the next one is read with the same names bound. -/
theorem follows_statements (inBlock : Bool) :
    Follows old new s (Call.run (.statements inBlock)) (Call.run (.statements inBlock))
      (Call.Agrees s (.statements inBlock)) := by
  have hnil : Call.Agrees s (.statements inBlock) [] [] s := ⟨rfl, by simp [Scoped.after, resolveAll]⟩
  rw [Call.run, Call.run]
  apply Follows.peek
  intro t
  cases t with
  | none => exact Follows.pure hnil
  | some t =>
      dsimp only
      split
      · exact Follows.pure hnil
      · refine (h .statement s).bindAgree (fun e => ?_) fun stmt tree s' hstmt => ?_
        · have hbroken : (s.noting (resolveAll s.scopes e.blocks).notes).noting [e.fault.map .broken] =
              s.after (e.stmt.resolve s.scopes) := by
            simp [Scoped.after, Scoped.noting, Break.stmt, Stmt.resolve]
          apply Follows.consider
          change Follows old new ((s.noting (resolveAll s.scopes e.blocks).notes).noting [e.fault.map .broken]) _ _ _
          rw [hbroken]
          apply Follows.lastLoc
          intro loc
          refine (h (.skip _) _).bind ?_
          rintro _ _ _ ⟨-, rfl⟩
          refine (h (.statements inBlock) _).bind ?_
          rintro rest _ _ ⟨rfl, rfl⟩
          exact Follows.pure (agrees_cons inBlock e.stmt rest)
        · obtain ⟨htree, rfl⟩ := hstmt
          refine (h (.statements inBlock) _).bind ?_
          rintro rest _ _ ⟨rfl, rfl⟩
          have hcons := agrees_cons (s := s) inBlock stmt rest
          rw [htree] at hcons
          exact Follows.pure hcons

end

/-! ### The descent -/

theorem Keeps.step (h : Keeps old new) (c : Call phrases) (s : Scoped) :
    Follows old new s c.run (c.view s).run (c.Agrees s) := by
  cases c with
  | binary least => exact follows_binary h least
  | operators least left => exact follows_operators h least left
  | operand => exact follows_operand h
  | skip line => exact follows_skip h line
  | statements inBlock => exact follows_statements h inBlock
  | statement => exact follows_statement h
  | conditional loc => exact follows_conditional h loc
  | otherwise cond body brace loc => exact follows_otherwise h cond body brace loc
  | elseBranch => exact follows_elseBranch h
  | block => exact follows_block h
  | inside brace => exact follows_inside h brace

end

/-- Calls keep to this however deep they are nested. -/
theorem keeps_answer (depth : Nat) : Keeps (answer depth) (answer depth) := by
  induction depth with
  | zero =>
      intro c s b a after hx
      exact absurd hx (by simp [Run.interpret, answer])
  | succ depth ih =>
      intro c s b a after hx
      obtain ⟨⟨a', after', ⟨⟩⟩, hrun, hdone⟩ := Option.bind_eq_some_iff.1 hx
      obtain ⟨⟩ := hdone
      obtain ⟨c', s', hnew, hagrees⟩ := ih.step c s b _ _ hrun
      refine ⟨c', s', ?_, hagrees⟩
      simp only [Run.interpret, answer, hnew]
      rfl

/-- A call that comes to an end where phrases are made comes to an end where trees are made. -/
theorem Comes.ends {c : Call phrases} {b after : Buffer} {result : c.Result} (h : Comes (.call c .done) b result after)
    (s : Scoped) : ∃ made s', Ends (.call (c.view s) .done) b s made after s' ∧ c.Agrees s result made s' := by
  obtain ⟨depth, hrun⟩ := h
  obtain ⟨made, s', hmade, hagrees⟩ := keeps_answer depth c s b result after hrun
  exact ⟨made, s', ⟨depth, hmade⟩, hagrees⟩

/-- The descent with scopes makes what is resolved of the phrases that are read, and notes the same. -/
theorem ends_scanStatements (tokens : List Token) :
    Ends (m := trees) (scanStatements false) ⟨[], tokens⟩ {} (resolveAll {} (read tokens)).trees ⟨tokens, []⟩
      (Scoped.after {} (resolveAll {} (read tokens))) := by
  obtain ⟨made, s', hends, rfl, rfl⟩ := (comes_scanStatements_read tokens).ends {}
  exact hends

end Descent

end Lai.Grammar
