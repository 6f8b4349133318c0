import Lai.Proofs.C.Gate
import Lai.Proofs.C.Layout
import Lai.Proofs.C.Simulation
/-!
# Compiled programs do what was written

Accepted files are compiled to the printed form of a program that prints what the files print, one
after the other, and is undefined where they are. The text has one parse, and whatever program is read
from it does the same. A text with a NUL in it is cut short in C, so what the files do is done as it
stands by files without such texts, and by all files once their texts are cut in the same way.
-/

namespace Lai.C

open Text

/-! ### What is parsed alike does the same -/

theorem Expr.eval_of_tree_eq (store : Scopes Slot) {e f : Expr} (h : e.tree = f.tree) : e.eval store = f.eval store := by
  induction e generalizing f with
  | int value =>
      cases f with
      | int other => rw [Int32.toInt_inj.1 (CTree.ofInt_inj h)]
      | _ => exact absurd h.symm (CTree.ne_ofInt rfl _)
  | string value =>
      cases f with
      | int other => exact absurd h (CTree.ne_ofInt rfl _)
      | string other => rw [bytes_inj.1 (CTree.literal.inj h)]
      | _ => cases h
  | var v =>
      cases f with
      | int other => exact absurd h (CTree.ne_ofInt rfl _)
      | var u => simp only [Expr.eval, bytes_inj.1 (CTree.name.inj h)]
      | _ => cases h
  | math op left right ihleft ihright =>
      cases f with
      | int other => exact absurd h (CTree.ne_ofInt rfl _)
      | math other l r =>
          simp only [Expr.tree, CTree.group.injEq, CTree.binary.injEq, BinaryOp.math.injEq] at h
          simp only [Expr.eval, h.1, ihleft h.2.1, ihright h.2.2]
      | _ => cases h
  | concat left right ihleft ihright =>
      cases f with
      | int other => exact absurd h (CTree.ne_ofInt rfl _)
      | concat l r =>
          simp only [Expr.tree, CTree.ofCall, CTree.call.injEq, List.cons.injEq, and_true, true_and] at h
          simp only [Expr.eval, ihleft h.1, ihright h.2]
      | _ => cases h

/-- No expression is a call of `strcmp`, so a comparison of texts is not taken for one of integers. -/
theorem Expr.tree_ne_strcmp (e : Expr) (arguments : List CTree) : e.tree ≠ .ofCall "strcmp" arguments := by
  have hnames : bytes "lai_rt_concat" ≠ bytes "strcmp" := by decide
  cases e with
  | int value => exact Ne.symm (CTree.ne_ofInt rfl _)
  | concat left right => simp [Expr.tree, CTree.ofCall, hnames]
  | _ => simp [Expr.tree, CTree.ofCall]

theorem Test.eval_of_tree_eq (store : Scopes Slot) {t u : Test} (h : t.tree = u.tree) : t.eval store = u.eval store := by
  obtain ⟨type, op, left, right⟩ := t
  obtain ⟨other, op', left', right'⟩ := u
  cases type <;> cases other <;> simp only [Test.tree, CTree.ofCall, CTree.binary.injEq, BinaryOp.compare.injEq] at h
  · obtain ⟨rfl, hleft, hright⟩ := h
    simp only [Test.eval, Expr.eval_of_tree_eq store hleft, Expr.eval_of_tree_eq store hright]
  · exact absurd h.2.1 (left.tree_ne_strcmp _)
  · exact absurd h.2.1.symm (left'.tree_ne_strcmp _)
  · simp only [CTree.call.injEq, List.cons.injEq, and_true, true_and] at h
    obtain ⟨rfl, hleft, hright⟩ := h
    simp only [Test.eval, Expr.eval_of_tree_eq store hleft, Expr.eval_of_tree_eq store hright]

theorem CType.format_inj {type other : CType} (h : type.format = other.format) : type = other := by
  cases type <;> cases other <;> first | rfl | exact absurd h (by decide)

mutual

theorem Stmt.exec_of_tree_eq : (stmt : Stmt) → ∀ {other : Stmt}, stmt.tree = other.tree → stmt.exec = other.exec
  | .declare type v value, other, h => by
      cases other with
      | declare type' u value' =>
          simp only [Stmt.tree, CStmt.declare.injEq] at h
          obtain ⟨rfl, hname, hvalue⟩ := h
          funext s
          simp only [Stmt.exec, bytes_inj.1 hname, Expr.eval_of_tree_eq _ hvalue]
      | branch chain => cases chain <;> cases h
      | _ => cases h
  | .assign v value, other, h => by
      cases other with
      | assign u value' =>
          simp only [Stmt.tree, CStmt.assign.injEq] at h
          funext s
          simp only [Stmt.exec, bytes_inj.1 h.1, Expr.eval_of_tree_eq _ h.2]
      | branch chain => cases chain <;> cases h
      | _ => cases h
  | .print type value, other, h => by
      cases other with
      | print type' value' =>
          simp only [Stmt.tree, CTree.ofCall, CStmt.expression.injEq, CTree.call.injEq, List.cons.injEq, CTree.literal.injEq,
            and_true, true_and] at h
          obtain rfl := CType.format_inj (bytes_inj.1 h.1)
          funext s
          simp only [Stmt.exec, Expr.eval_of_tree_eq _ h.2]
      | branch chain => cases chain <;> cases h
      | _ => cases h
  | .branch chain, other, h => by
      cases other with
      | branch other =>
          funext s
          exact congrFun (chain.exec_of_tree_eq h) s
      | _ => cases chain <;> cases h
  | .block body, other, h => by
      cases other with
      | block others =>
          funext s
          simp only [Stmt.exec, execAll_of_tree_eq body (CStmt.block.inj h)]
      | branch chain => cases chain <;> cases h
      | _ => cases h

theorem Chain.exec_of_tree_eq : (chain : Chain) → ∀ {other : Chain}, chain.tree = other.tree → chain.exec = other.exec
  | .ifThen test body, other, h => by
      cases other with
      | ifThen test' body' =>
          simp only [Chain.tree, CStmt.ifThen.injEq] at h
          funext s
          simp only [Chain.exec, Test.eval_of_tree_eq _ h.1, execAll_of_tree_eq body h.2]
      | _ => cases h
  | .ifElse test body last, other, h => by
      cases other with
      | ifThen => cases h
      | ifElse test' body' last' =>
          simp only [Chain.tree, CStmt.ifElse.injEq, CStmt.block.injEq] at h
          funext s
          simp only [Chain.exec, Test.eval_of_tree_eq _ h.1, execAll_of_tree_eq body h.2.1, execAll_of_tree_eq last h.2.2]
      | elseIf test' body' chain =>
          simp only [Chain.tree, CStmt.ifElse.injEq] at h
          cases chain <;> cases h.2.2
  | .elseIf test body chain, other, h => by
      cases other with
      | ifThen => cases h
      | ifElse test' body' last' =>
          simp only [Chain.tree, CStmt.ifElse.injEq] at h
          cases chain <;> cases h.2.2
      | elseIf test' body' chain' =>
          simp only [Chain.tree, CStmt.ifElse.injEq] at h
          funext s
          simp only [Chain.exec, Test.eval_of_tree_eq _ h.1, execAll_of_tree_eq body h.2.1, chain.exec_of_tree_eq h.2.2]

theorem execAll_of_tree_eq : (stmts : List Stmt) → ∀ {others : List Stmt}, treesAll stmts = treesAll others →
    execAll stmts = execAll others
  | [], others, h => by
      cases others with
      | nil => rfl
      | cons => cases h
  | stmt :: rest, others, h => by
      cases others with
      | nil => cases h
      | cons other others =>
          simp only [treesAll, List.cons.injEq] at h
          funext s
          simp only [execAll, stmt.exec_of_tree_eq h.1, execAll_of_tree_eq rest h.2]

end

/-- Programs that are parsed alike do the same, whatever their files are called. -/
theorem Program.run_of_tree_eq {p q : Program} (h : p.tree = q.tree) : p.run = q.run := by
  have hblocks {bs cs : List Block} (h : bs.map (fun b => CStmt.block (treesAll b.body)) =
      cs.map (fun b => CStmt.block (treesAll b.body))) (output : List String) : runAfter output bs = runAfter output cs := by
    induction bs generalizing cs output with
    | nil => rw [List.map_eq_nil_iff.1 h.symm]
    | cons b bs ih =>
        obtain ⟨c, cs, rfl, hbody, hrest⟩ := List.map_eq_cons_iff.1 h.symm
        simp only [runAfter, execAll_of_tree_eq b.body (CStmt.block.inj hbody.symm), ih hrest.symm]
  exact hblocks (List.append_cancel_right h) []

/-! ### Runs -/

theorem upToNul_eq_self {text : String} (h : '\x00' ∉ text.toList) : upToNul text = text := by
  have hnone : ∀ c ∈ text.toList, decide (c ≠ '\x00') = true := by
    intro c hc
    exact decide_eq_true fun heq => h (heq ▸ hc)
  have hall := @List.takeWhile_append_of_pos _ _ _ [] hnone
  rw [List.append_nil, List.takeWhile_nil, List.append_nil] at hall
  rw [upToNul, hall, String.ofList_toList]

/-- The blocks of a program print what the files print, and do not get stuck. -/
theorem TranslatesFiles.runAfter_eq {files : List Tree.File} {blocks : List Block} (h : TranslatesFiles files blocks)
    (output : List String) :
    runAfter output blocks = Tree.runAfter output (files.map (·.mapText upToNul)) ∧
      runAfter output blocks ≠ .error .stuck := by
  induction h generalizing output with
  | nil =>
      refine ⟨rfl, ?_⟩
      intro hstuck
      cases hstuck
  | @cons file stmts after files blocks hbody hrest ih =>
      have hsim := hbody.simulates .empty {} output rfl
      change Simulates _ (Tree.execAll (Tree.mapTextAll upToNul file.body) ⟨{}, output⟩) (execAll stmts ⟨{}, output⟩) at hsim
      rw [List.map_cons, runAfter, Tree.runAfter, Tree.File.mapText]
      generalize Tree.execAll (Tree.mapTextAll upToNul file.body) ⟨{}, output⟩ = x at hsim ⊢
      cases x with
      | error trap =>
          obtain ⟨hregular, heq⟩ := hsim
          rw [heq]
          exact ⟨rfl, fun hstuck => hregular (Except.error.inj hstuck)⟩
      | ok s =>
          obtain ⟨cells, _, _, heq⟩ := hsim
          rw [heq]
          exact ih s.output

/-- Accepted files are compiled to a program that does what the files do with their texts cut. -/
theorem exists_program (sources : List (String × List Token))
    (haccepted : ∀ source ∈ sources, (Assembly.ofTokens source.1 source.2).diagnostics = []) :
    ∃ program : Program,
      compile (sources.map fun source => (Assembly.ofTokens source.1 source.2).file) = .ok program.text ∧
      program.run ≠ .error .stuck ∧
      program.run =
        Tree.run (sources.map fun source => (Assembly.ofTokens source.1 source.2).file.mapText upToNul) := by
  have hassemblies : ∀ assembly ∈ sources.map (fun source => Assembly.ofTokens source.1 source.2),
      ∃ name tokens, assembly = Assembly.ofTokens name tokens ∧ assembly.diagnostics = [] := by
    intro assembly hmem
    obtain ⟨source, hsource, rfl⟩ := List.mem_map.1 hmem
    exact ⟨source.1, source.2, rfl, haccepted source hsource⟩
  obtain ⟨blocks, hblocks⟩ := Assembly.translatesFiles_of_accepted hassemblies
  rw [List.map_map] at hblocks
  obtain ⟨hrun, hregular⟩ := hblocks.runAfter_eq []
  rw [List.map_map] at hrun
  exact ⟨⟨blocks⟩, hblocks.compile, hregular, hrun⟩

/-- Accepted files are compiled to the printed form of a program, which is the one parse of the text, so that
every program that can be read from the text does the same. It does not get stuck, and it does what the files do
with every text cut at its first NUL; if no text has a NUL, what the files do. -/
theorem compile_preserves_runs (sources : List (String × List Token))
    (haccepted : ∀ source ∈ sources, (Assembly.ofTokens source.1 source.2).diagnostics = []) :
    let files := sources.map fun source => (Assembly.ofTokens source.1 source.2).file
    ∃ program : Program,
      compile files = .ok program.text ∧
      (∀ stmts, ParsesProgram program.text stmts ↔ stmts = program.tree) ∧
      (∀ other : Program, ParsesProgram program.text other.tree → other.run = program.run) ∧
      program.run ≠ .error .stuck ∧
      program.run = Tree.run (files.map (·.mapText upToNul)) ∧
      ((∀ file ∈ files, ∀ text ∈ Tree.textsAll file.body, '\x00' ∉ text.toList) → program.run = Tree.run files) := by
  intro files
  obtain ⟨program, hcompile, hregular, hrun⟩ := exists_program sources haccepted
  have hcut : program.run = Tree.run (files.map (·.mapText upToNul)) := by
    rw [hrun, List.map_map]
    rfl
  refine ⟨program, hcompile, program.parses_text_iff, fun other h => ?_, hregular, hcut, fun hnul => ?_⟩
  · exact Program.run_of_tree_eq ((program.parses_text_iff _).1 h)
  have hfile : ∀ file ∈ files, file.mapText upToNul = file := by
    intro file hmem
    exact Tree.File.mapText_eq_self upToNul fun text htext => upToNul_eq_self (hnul file hmem text htext)
  rw [hcut, (List.map_congr_left hfile).trans (List.map_id files)]

/-- The inner variable is printed, with twice the value of the one that it hides. -/
theorem run_shadowing :
    (∀ source ∈ [("a", Assembly.shadowing)], (Assembly.ofTokens source.1 source.2).diagnostics = []) ∧
    ∃ program : Program,
      compile [(Assembly.ofTokens "a" Assembly.shadowing).file] = .ok program.text ∧ program.run = .ok ["2"] := by
  have haccepted : ∀ source ∈ [("a", Assembly.shadowing)],
      (Assembly.ofTokens source.1 source.2).diagnostics = [] := by
    rw [List.forall_mem_singleton]
    exact Assembly.accepts_shadowing
  obtain ⟨program, hcompile, _, _, _, hrun, _⟩ := compile_preserves_runs [("a", Assembly.shadowing)] haccepted
  exact ⟨haccepted, program, hcompile, hrun.trans rfl⟩

/-- The tokens of a test of two different texts that begin with NUL, and of a block that prints `1`. -/
def nulTest : List Token :=
  [⟨.symbol .ifWord, ⟨0, 0⟩⟩, ⟨.symbol .openParen, ⟨0, 3⟩⟩, ⟨.string "\x00a", ⟨0, 4⟩⟩, ⟨.symbol .equal, ⟨0, 9⟩⟩,
   ⟨.string "\x00b", ⟨0, 12⟩⟩, ⟨.symbol .closeParen, ⟨0, 16⟩⟩, ⟨.symbol .openBrace, ⟨0, 18⟩⟩,
   ⟨.symbol .printWord, ⟨0, 20⟩⟩, ⟨.symbol .openParen, ⟨0, 25⟩⟩, ⟨.integer 1, ⟨0, 26⟩⟩,
   ⟨.symbol .closeParen, ⟨0, 27⟩⟩, ⟨.symbol .closeBrace, ⟨0, 29⟩⟩]

/-- The texts differ, so the file prints nothing; they are equal up to NUL, so whatever program is read from the
compiled text prints a line. -/
theorem run_differs_at_nul :
    (Assembly.ofTokens "a" nulTest).diagnostics = [] ∧
    Tree.run [(Assembly.ofTokens "a" nulTest).file] = .ok [] ∧
    ∃ code, compile [(Assembly.ofTokens "a" nulTest).file] = .ok code ∧
      (∃ program : Program, ParsesProgram code program.tree) ∧
      ∀ program : Program, ParsesProgram code program.tree → program.run = .ok ["1"] := by
  have haccepted : (Assembly.ofTokens "a" nulTest).diagnostics = [] :=
    Assembly.diagnostics_eq_nil_iff.2 ⟨by decide, by decide⟩
  obtain ⟨program, hcompile, _, hrun⟩ :=
    exists_program [("a", nulTest)] (List.forall_mem_singleton.2 haccepted)
  have hparses := program.parses_text_iff
  refine ⟨haccepted, rfl, program.text, hcompile, ⟨program, (hparses _).2 rfl⟩, fun other h => ?_⟩
  exact (Program.run_of_tree_eq ((hparses _).1 h)).trans (hrun.trans rfl)

end Lai.C
