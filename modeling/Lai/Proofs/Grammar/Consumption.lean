import Lai.Assembly
import Lai.Proofs.Grammar.Breaks
import Lai.Proofs.Grammar.Mirroring
import Lai.Proofs.Tree.Erasure
/-!
# Every token is read once

Reading by descent comes to an end on every list of tokens and returns what the reader returns. Each token
is taken once and in its turn, a statement takes at least one, and no more statements and faults come out
than tokens went in.
-/

namespace Lai

namespace Grammar

/-! ### How much has been read -/

mutual

/-- The statements in the statement, itself and every block inside it included. One that broke off is none. -/
def Stmt.size : Stmt → Nat
  | .infer .. | .declare .. | .assign .. | .print .. => 1
  | .ifThen _ body _ _ => 2 + sizeAll body
  | .ifElse _ body _ otherwise _ => 2 + sizeAll body + otherwise.size
  | .block body _ => 1 + sizeAll body
  | .broken .. => 0

def sizeAll : List Stmt → Nat
  | [] => 0
  | stmt :: rest => stmt.size + sizeAll rest

end

/-- The statements and the faults in the statement. -/
def Stmt.load (stmt : Stmt) : Nat :=
  stmt.size + stmt.breaks.length

def loadAll (stmts : List Stmt) : Nat :=
  sizeAll stmts + (breaksAll stmts).length

@[simp] theorem loadAll_nil : loadAll [] = 0 := by
  simp [loadAll, sizeAll]

@[simp] theorem loadAll_cons (stmt : Stmt) (rest : List Stmt) : loadAll (stmt :: rest) = stmt.load + loadAll rest := by
  simp only [loadAll, sizeAll, Stmt.load, breaksAll_cons, List.length_append]
  omega

theorem length_breaksAll_le (stmts : List Stmt) : (breaksAll stmts).length ≤ loadAll stmts :=
  Nat.le_add_left _ _

theorem load_block (body : List Stmt) (brace : Location) : (Stmt.block body brace).load = 1 + loadAll body := by
  simp only [Stmt.load, Stmt.size, Stmt.breaks, loadAll]
  omega

theorem load_ifThen (cond : Condition Unit) (body : List Stmt) (brace loc : Location) :
    (Stmt.ifThen cond body brace loc).load = 2 + loadAll body := by
  simp only [Stmt.load, Stmt.size, Stmt.breaks, loadAll]
  omega

theorem load_ifElse (cond : Condition Unit) (body : List Stmt) (brace : Location) (otherwise : Stmt) (loc : Location) :
    (Stmt.ifElse cond body brace otherwise loc).load = 2 + loadAll body + otherwise.load := by
  simp only [Stmt.load, Stmt.size, Stmt.breaks, loadAll, List.length_append]
  omega

theorem Break.load_stmt (e : Break) : e.stmt.load = (breaksAll e.blocks).length + 1 := by
  simp [Break.stmt, Stmt.load, Stmt.size, Stmt.breaks]

theorem Break.length_breaksAll_behind (e : Break) (body : List Stmt) (brace : Location) :
    (breaksAll (e.behind (.block body brace)).blocks).length = (breaksAll body).length + (breaksAll e.blocks).length := by
  simp [behind, Stmt.breaks]

/-- Nothing is read for nothing. -/
theorem Stmt.one_le_load (stmt : Stmt) : 1 ≤ stmt.load := by
  cases stmt <;> simp only [Stmt.load, Stmt.size, Stmt.breaks, List.length_append, List.length_cons] <;> omega

/-! ### The reader behind a statement and behind a block -/

namespace Reader

variable {r other : Reader}

/-- The reader behind a statement that has been read, or has broken off. -/
def settled (r : Reader) (prev : Location) : Except Break Stmt → Reader
  | .ok stmt => { r.addBranches (some stmt) with prev := prev }
  | .error e => r.brokenOff prev e

/-- The reader behind a block. -/
def closed (r : Reader) (opening : Opening) (body : List Stmt) (brace prev : Location) : Reader :=
  match opening with
  | .plain => { r.add (.block body brace) with prev := prev }
  | .branch loc cond => { r with arms := ⟨loc, cond, body, brace⟩ :: r.arms, prev := prev, goal := .afterThen }
  | .otherwise => { r.addBranches (some (.block body brace)) with prev := prev }

theorem settled_of_arms_nil (harms : r.arms = []) (prev : Location) (stmt : Stmt) :
    r.settled prev (.ok stmt) = { r.add stmt with prev := prev } := by
  simp only [settled, addBranches, add, harms, branches, List.foldl_nil, Option.toList_some, List.singleton_append]

/-- The closing brace of a block that has been opened. -/
theorem begin_closeBrace {first t : Token} {opening : Opening} {body : List Stmt} {prev : Location}
    (ht : t.lexeme = .symbol .closeBrace) :
    ({ r.openBlock first opening with prev := prev, body := body.reverse } : Reader).begin t =
      r.closed opening body first.loc t.loc := by
  cases opening <;>
    simp only [begin, ht, openBlock, closeBlock, closed, add, addBranches, List.reverse_reverse]

/-- The end of the text in a block that has been opened. -/
theorem finish_openBlock {first : Token} {opening : Opening} {body : List Stmt} {prev : Location} :
    ({ r.openBlock first opening with prev := prev, body := body.reverse } : Reader).finish =
      (r.brokenOff prev (.behind (.block body first.loc) ⟨[], prev, .symbol .closeBrace, none⟩)).finish := by
  simp only [finish, endStatement, openBlock, brokenOff, Break.behind, endBlocks, List.reverse_reverse]

end Reader

namespace Descent

open Reader

section

variable {front : Buffer} {first : Reader} {b after : Buffer} {r other : Reader} {taken rest : List Token} {t : Token}

/-! ### Statements without blocks -/

/-- The statement has been read whole and counts as one. -/
def Completes (front : Buffer) (first r : Reader) (stmt : Stmt) (after : Buffer) : Prop :=
  stmt.load = 1 ∧ Mirrors front first after { r.add stmt with prev := after.prev }

theorem settle_of_stmt? {purpose : Purpose} {value : Expr Unit} {stmt : Stmt} (h : purpose.stmt? value = some stmt)
    (t : Token) : r.settle purpose value t = (r.add stmt).begin t := by
  cases purpose <;> simp only [Purpose.stmt?, Option.some.injEq, reduceCtorEq] at h <;> rw [← h, settle]

theorem settleEnd_of_stmt? {purpose : Purpose} {value : Expr Unit} {stmt : Stmt} (h : purpose.stmt? value = some stmt) :
    r.settleEnd purpose value = r.add stmt := by
  cases purpose <;> simp only [Purpose.stmt?, Option.some.injEq, reduceCtorEq] at h <;> rw [← h, settleEnd]

/-- An expression that is the last part of its statement. -/
theorem meets_value {bound : Nat} {made : Expr Unit → StateM Unit Stmt} (purpose : Purpose)
    (h : Mirrors front first b r) (hgoal : r.goal = .operand purpose {}) (hle : b.rest.length ≤ bound)
    (hstmt : ∀ value, purpose.stmt? value = some (made value ()).1) (hload : ∀ value, (made value ()).1.load = 1) :
    Meets (scanExpr >>= fun value => make (made value) : Scan phrases Stmt).run b
      (Yields front first r bound (Completes front first r)) := by
  refine (meets_scanExpr h hgoal).seq ⟨rfl, rfl, rfl, rfl⟩ hle ?_
  rintro value after hlength ⟨hstops, formula, rfl, houter, hmirrors⟩
  refine meets_make ⟨Nat.lt_of_lt_of_le hlength hle, hload _, hmirrors.replace (alike_of_ended rfl ?_ ?_) rfl⟩
  · intro t ht
    simp only [Reader.next, hstops.ofLexeme?_eq_none ht, houter, settle_of_stmt? (hstmt formula.value)]
    rfl
  · intro _
    simp only [endStatement, houter, settleEnd_of_stmt? (hstmt formula.value)]
    rfl

theorem next_afterName_reject {name : String} {loc : Location} (hgoal : r.goal = .afterName name loc)
    (hinfer : t.lexeme ≠ .symbol .infer) (hcolon : t.lexeme ≠ .symbol .colon) (hassign : t.lexeme ≠ .symbol .assign) :
    r.next t = r.reject t (.binder name) := by
  obtain ⟨lexeme, loc⟩ := t
  rw [Reader.next, hgoal]
  cases lexeme with
  | symbol s => cases s <;> simp_all
  | _ => rfl

theorem meets_scanType {name : String} {loc : Location} (h : Mirrors front first b r)
    (hgoal : r.goal = .afterColon name loc) :
    Meets scanType.run b (Yields front first r b.rest.length fun type after =>
      Mirrors front first after { r with prev := after.prev, goal := .afterType name type loc }) := by
  obtain ⟨taken, rest⟩ := b
  rw [scanType]
  cases rest with
  | nil => exact meets_reject h (Nat.le_refl _) (by simp) fun _ => by simp only [endStatement, hgoal]
  | cons t rest =>
      apply meets_scan_next
      dsimp only
      split
      · next type htype =>
          exact meets_pure.2 ⟨Nat.lt_succ_self _, h.take (by simp only [Reader.next, hgoal, htype])⟩
      · next htype => exact meets_refuse h (Nat.le_succ _) (by simp only [Reader.next, hgoal, htype])

theorem meets_scanNamed {name : String} (hnext : r.next t = r.take t (.afterName name t.loc))
    (h : Mirrors front first ⟨taken, t :: rest⟩ r) :
    Meets (scanNamed name t.loc).run ⟨taken, t :: rest⟩ (Yields front first r rest.length (Completes front first r)) := by
  rw [scanNamed]
  apply meets_scan_next
  have hname := h.next hnext
  apply meets_scan_check
  · rintro mark later ⟨⟩ hmark
    have hvalue := hname.next (show Reader.next _ mark = r.take mark (.operand (.infer name t.loc) {}) by
      simp only [Reader.next, Reader.take, hmark])
    exact (meets_value _ hvalue rfl (Nat.le_succ _) (fun _ => rfl) fun _ => rfl).within ⟨rfl, rfl, rfl, rfl⟩
  intro hinfer
  apply meets_scan_check
  · rintro mark later ⟨⟩ hmark
    have hcolon := hname.next (show Reader.next _ mark = r.take mark (.afterColon name t.loc) by
      simp only [Reader.next, Reader.take, hmark])
    refine (meets_scanType hcolon rfl).seq ⟨rfl, rfl, rfl, rfl⟩ (Nat.le_succ _) ?_
    intro type after hlength htype
    obtain ⟨taken', rest'⟩ := after
    apply meets_scan_check
    · rintro mark' later' ⟨⟩ hmark'
      have hvalue := htype.next (show Reader.next _ mark' = r.take mark' (.operand (.initial name type t.loc) {}) by
        simp only [Reader.next, Reader.take, hmark', if_true])
      refine (meets_value _ hvalue rfl ?_ (fun _ => rfl) fun _ => rfl).within ⟨rfl, rfl, rfl, rfl⟩
      simp only [List.length_cons] at hlength ⊢
      omega
    · intro hassign
      refine meets_pure.2 ⟨Nat.lt_succ_of_lt hlength, rfl, htype.replace (alike_of_ended rfl ?_ ?_) rfl⟩
      · intro t' ht'
        simp only [Reader.next, if_neg (hassign t' ht')]
        rfl
      · exact fun _ => rfl
  intro hcolon
  apply meets_scan_check
  · rintro mark later ⟨⟩ hmark
    have hvalue := hname.next (show Reader.next _ mark = r.take mark (.operand (.assign name t.loc) {}) by
      simp only [Reader.next, Reader.take, hmark])
    exact (meets_value _ hvalue rfl (Nat.le_succ _) (fun _ => rfl) fun _ => rfl).within ⟨rfl, rfl, rfl, rfl⟩
  intro hassign
  apply meets_scan_peek
  refine (meets_reject hname (Nat.le_refl _) ?_ fun _ => rfl).within ⟨rfl, rfl, rfl, rfl⟩
  intro t' ht'
  exact next_afterName_reject rfl (hinfer t' ht') (hcolon t' ht') (hassign t' ht')

theorem meets_scanPrint (hnext : r.next t = r.take t (.afterPrint t.loc)) (h : Mirrors front first ⟨taken, t :: rest⟩ r) :
    Meets (scanPrint t.loc).run ⟨taken, t :: rest⟩ (Yields front first r rest.length (Completes front first r)) := by
  rw [scanPrint]
  apply meets_scan_next
  have hopen : (r.take t (.afterPrint t.loc)).Demands .openParen rest fun t' => r.take t' (.operand (.print t.loc) {}) :=
    ⟨fun _ _ => rfl, fun _ => rfl⟩
  refine (meets_require (h.next hnext) hopen).seq ⟨rfl, rfl, rfl, rfl⟩ (Nat.le_refl _) ?_
  rintro _ inner hinner ⟨t', -, -, hvalue⟩
  refine (meets_scanExpr hvalue rfl).seq ⟨rfl, rfl, rfl, rfl⟩ (Nat.le_of_lt hinner) ?_
  rintro _ last hlast ⟨hstops, formula, rfl, houter, hmirrors⟩
  have hclose : Reader.Demands { r with prev := last.prev, goal := .operator (.print t.loc) formula } .closeParen last.rest
      fun t' => (r.take t' .start).add (.print formula.value t.loc) := by
    constructor
    · intro t' ht'
      simp only [Reader.next, hstops.ofLexeme?_eq_none ht', houter, settle]
      rfl
    · intro _
      simp only [endStatement, houter, settleEnd]
  refine (meets_require hmirrors hclose).seq ⟨rfl, rfl, rfl, rfl⟩ (Nat.le_of_lt (Nat.lt_trans hlast hinner)) ?_
  rintro _ after hafter ⟨t', -, -, hprinted⟩
  refine meets_pure.2 ⟨Nat.lt_trans hafter (Nat.lt_trans hlast hinner), rfl, ?_⟩
  rw [← hprinted.prev_eq]
  exact hprinted

/-! ### Blocks and if statements -/

theorem meets_scanTest (hnext : r.next t = r.take t (.afterIf t.loc)) (h : Mirrors front first ⟨taken, t :: rest⟩ r) :
    Meets scanTest.run ⟨taken, t :: rest⟩ (Yields front first r rest.length fun cond after =>
      Mirrors front first after { r with prev := after.prev, goal := .afterCondition t.loc cond }) := by
  rw [scanTest]
  apply meets_scan_next
  have hopen : (r.take t (.afterIf t.loc)).Demands .openParen rest fun t' => r.take t' (.operand (.left t.loc) {}) :=
    ⟨fun _ _ => rfl, fun _ => rfl⟩
  refine (meets_require (h.next hnext) hopen).seq ⟨rfl, rfl, rfl, rfl⟩ (Nat.le_refl _) ?_
  rintro _ inner hinner ⟨t', -, -, hleft⟩
  refine (meets_scanExpr hleft rfl).seq ⟨rfl, rfl, rfl, rfl⟩ (Nat.le_of_lt hinner) ?_
  rintro _ ⟨taken', rest'⟩ hlast ⟨hstops, formula, rfl, houter, hmirrors⟩
  cases rest' with
  | nil =>
      refine (meets_reject hmirrors (Nat.zero_le _) (by simp) fun _ => ?_).within ⟨rfl, rfl, rfl, rfl⟩
      simp only [endStatement, houter, settleEnd]
  | cons mark rest' =>
      have hnone := hstops.ofLexeme?_eq_none (t := mark) rfl
      have hlength : rest'.length < rest.length := Nat.lt_trans (Nat.lt_succ_self _) (Nat.lt_trans hlast hinner)
      apply meets_scan_next
      dsimp only
      split
      · next op hop =>
          have hright : Mirrors front first ⟨taken' ++ [mark], rest'⟩
              (r.take mark (.operand (.right t.loc formula.value op mark.loc) {})) :=
            hmirrors.next (by simp only [Reader.next, hnone, houter, settle, hop, Reader.take])
          refine (meets_scanExpr hright rfl).seq ⟨rfl, rfl, rfl, rfl⟩ (Nat.le_of_lt hlength) ?_
          rintro _ last hlast ⟨hstops, later, rfl, houter, hmirrors⟩
          have hclose : Reader.Demands
              { r with prev := last.prev, goal := .operator (.right t.loc formula.value op mark.loc) later }
              .closeParen last.rest fun t' => r.take t' (.afterCondition t.loc ⟨op, formula.value, later.value, mark.loc⟩) := by
            constructor
            · intro t' ht'
              simp only [Reader.next, hstops.ofLexeme?_eq_none ht', houter, settle]
              rfl
            · intro _
              simp only [endStatement, houter, settleEnd]
          refine (meets_require hmirrors hclose).seq ⟨rfl, rfl, rfl, rfl⟩ (Nat.le_of_lt (Nat.lt_trans hlast hlength)) ?_
          rintro _ after hafter ⟨t', -, -, htested⟩
          refine meets_pure.2 ⟨Nat.lt_trans hafter (Nat.lt_trans hlast hlength), ?_⟩
          have hprev : after.prev = t'.loc := htested.prev_eq.symm
          simp only [hprev]
          exact htested
      · next hop =>
          refine (meets_refuse hmirrors (Nat.le_of_lt hlength) ?_).within ⟨rfl, rfl, rfl, rfl⟩
          simp only [Reader.next, hnone, houter, settle, hop]

/-- The statements that follow have been read, up to the end of the text or the closing brace of their block. -/
structure YieldsAll (front : Buffer) (first r : Reader) (inBlock : Bool) (bound : Nat) (stmts : List Stmt)
    (after : Buffer) : Prop where
  load_le : loadAll stmts + after.rest.length ≤ bound
  head : ∀ t, after.rest.head? = some t → inBlock = true ∧ t.lexeme = .symbol .closeBrace
  mirrors : Mirrors front first after { r with prev := after.prev, body := stmts.reverse ++ r.body }

/-- A statement may follow for the reader, in a block if it says so. -/
structure Ready (r : Reader) (inBlock : Bool) : Prop where
  goal_eq : r.goal = .start
  arms_eq : r.arms = []
  frames_eq : inBlock = false → r.frames = []

/-- What scanning statements comes to. -/
def ScansStatements (front : Buffer) (first : Reader) (inBlock : Bool) (b : Buffer) : Prop :=
  ∀ r : Reader, Ready r inBlock → Mirrors front first b r →
    Meets (scanStatements inBlock) b (YieldsAll front first r inBlock b.rest.length)

/-- What scanning a block comes to. -/
def YieldsBlock (front : Buffer) (first r : Reader) (opening : Opening) (bound : Nat) :
    Except Break (List Stmt × Location) → Buffer → Prop
  | .ok (body, brace), after =>
      loadAll body + after.rest.length < bound ∧ Mirrors front first after (r.closed opening body brace after.prev)
  | .error e, after =>
      (breaksAll e.blocks).length + after.rest.length ≤ bound ∧ Mirrors front first after (r.brokenOff after.prev e)

/-- Behind the statements of a block stands its closing brace, or the text ends and the block is dropped. -/
theorem meets_closeBrace {opening : Opening} {body : List Stmt} {brace : Token}
    (h : Mirrors front first b { r.openBlock brace opening with prev := b.prev, body := body.reverse })
    (hhead : ∀ t, b.rest.head? = some t → t.lexeme = .symbol .closeBrace) :
    Meets (require .closeBrace).run b fun result after =>
      match result with
      | .ok _ => after.rest.length < b.rest.length ∧ Mirrors front first after (r.closed opening body brace.loc after.prev)
      | .error e => after.rest.length ≤ b.rest.length ∧ e.blocks = [] ∧
          Mirrors front first after (r.brokenOff after.prev (e.behind (.block body brace.loc))) := by
  obtain ⟨taken, rest⟩ := b
  cases rest with
  | nil =>
      rw [require]
      exact meets_scan_peek (meets_fail ⟨Nat.le_refl _, rfl, h.replace finish_openBlock rfl⟩)
  | cons t rest =>
      have ht := hhead t rfl
      refine meets_require_cons ht ⟨Nat.lt_succ_self _, ?_⟩
      rw [Buffer.prev_append_singleton]
      exact h.next ((next_of_start rfl t).trans (begin_closeBrace ht))

theorem meets_scanBody {opening : Opening} {brace : Token} (h : Mirrors front first b (r.openBlock brace opening))
    (hstatements : ScansStatements front first true b) :
    Meets (scanBody brace.loc) b (YieldsBlock front first r opening b.rest.length) := by
  refine meets_call (.inside _) ?_
  rw [Call.run]
  apply meets_consider
  refine (hstatements _ ⟨rfl, rfl, by simp⟩ h).bind ?_
  rintro body last ⟨hload, hhead, hmirrors⟩
  have hbody : Mirrors front first last { r.openBlock brace opening with prev := last.prev, body := body.reverse } := by
    simpa only [openBlock, List.append_nil] using hmirrors
  apply meets_consider
  refine (meets_closeBrace hbody fun t ht => (hhead t ht).2).bind ?_
  rintro (e | place) after hclose
  · obtain ⟨hlength, hblocks, hbroken⟩ := hclose
    refine meets_pure.2 ⟨?_, hbroken⟩
    have hbreaks := length_breaksAll_le body
    rw [Break.length_breaksAll_behind, hblocks, breaksAll_nil, List.length_nil]
    omega
  · obtain ⟨hlength, hclosed⟩ := hclose
    exact meets_pure.2 ⟨by omega, hclosed⟩

theorem meets_scanBlock {opening : Opening} (h : Mirrors front first b r)
    (hdemands : r.Demands .openBrace b.rest fun t => r.openBlock t opening)
    (hstatements : ∀ c : Buffer, c.rest.length < b.rest.length → ScansStatements front first true c) :
    Meets scanBlock b (YieldsBlock front first r opening b.rest.length) := by
  refine meets_call .block ?_
  rw [Call.run]
  refine (meets_require h hdemands).bind ?_
  rintro (e | brace) inner hopen
  · obtain ⟨hlength, hblocks, hmirrors⟩ := hopen
    exact meets_pure.2 ⟨by simpa [hblocks] using hlength, hmirrors⟩
  obtain ⟨hinner, t, -, rfl, hopened⟩ := hopen
  refine (meets_scanBody hopened (hstatements inner hinner)).mono ?_
  rintro (e | ⟨body, brace⟩) after hblock
  · exact ⟨Nat.le_trans hblock.1 (Nat.le_of_lt hinner), hblock.2⟩
  · exact ⟨Nat.lt_trans hblock.1 hinner, hblock.2⟩

theorem meets_scanBlock_cons {opening : Opening} (ht : t.lexeme = .symbol .openBrace)
    (h : Mirrors front first ⟨taken ++ [t], rest⟩ (r.openBlock t opening))
    (hstatements : ScansStatements front first true ⟨taken ++ [t], rest⟩) :
    Meets scanBlock ⟨taken, t :: rest⟩ (YieldsBlock front first r opening rest.length) := by
  have hopen : Meets (require .openBrace).run ⟨taken, t :: rest⟩ fun result inner =>
      result = .ok t.loc ∧ inner = ⟨taken ++ [t], rest⟩ := meets_require_cons ht ⟨rfl, rfl⟩
  refine meets_call .block ?_
  rw [Call.run]
  refine hopen.bind ?_
  rintro _ _ ⟨rfl, rfl⟩
  exact meets_scanBody h hstatements

/-- What stands for a statement that has been read, or has broken off. -/
def phrase : Except Break Stmt → Stmt
  | .ok stmt => stmt
  | .error e => e.stmt

/-- The statement of the reader `r` has come to the result. -/
structure Settles (front : Buffer) (first r : Reader) (bound : Nat) (result : Except Break Stmt) (after : Buffer) :
    Prop where
  load_le : (phrase result).load + after.rest.length ≤ bound
  mirrors : Mirrors front first after (r.settled after.prev result)

theorem Settles.mono {bound larger : Nat} {result : Except Break Stmt} (h : Settles front first r bound result after)
    (hle : bound ≤ larger) : Settles front first r larger result after :=
  ⟨Nat.le_trans h.load_le hle, h.mirrors⟩

/-- A statement that broke off when no more than the faults of its blocks had been counted. -/
theorem settles_error {bound : Nat} {e : Break} (hlength : (breaksAll e.blocks).length + after.rest.length < bound)
    (h : Mirrors front first after (r.brokenOff after.prev e)) : Settles front first r bound (.error e) after := by
  refine ⟨?_, h⟩
  simp only [phrase, Break.load_stmt]
  omega

/-- A statement without blocks, scanned from behind its first token on. -/
theorem Yields.settles {bound : Nat} {result : Except Break Stmt} (harms : r.arms = [])
    (h : Yields front first r bound (Completes front first r) result after) :
    Settles front first r (bound + 1) result after := by
  cases result with
  | ok stmt =>
      obtain ⟨hlength, hload, hmirrors⟩ := h
      refine ⟨?_, settled_of_arms_nil harms after.prev stmt ▸ hmirrors⟩
      simp only [phrase, hload]
      omega
  | error e =>
      obtain ⟨hlength, hblocks, hmirrors⟩ := h
      refine settles_error ?_ hmirrors
      rw [hblocks, breaksAll_nil, List.length_nil]
      omega

/-- A block, as a statement of its own or as the last branch of one. -/
theorem YieldsBlock.settles {opening : Opening} {bound : Nat} {result : Except Break (List Stmt × Location)}
    (h : YieldsBlock front first r opening bound result after)
    (hclosed : ∀ body brace prev, r.closed opening body brace prev = r.settled prev (.ok (.block body brace))) :
    Settles front first r (bound + 1) (result.map fun block => .block block.1 block.2) after := by
  rcases result with e | ⟨body, brace⟩
  · exact settles_error (Nat.lt_succ_of_le h.1) h.2
  · refine ⟨?_, hclosed body brace after.prev ▸ h.2⟩
    have hlength := h.1
    simp only [Except.map, phrase, load_block]
    omega

/-- What scanning an if statement comes to, the statement being the reader's or the last branch of it. -/
def ScansIf (front : Buffer) (first : Reader) (b : Buffer) : Prop :=
  ∀ (r : Reader) (t : Token), b.rest.head? = some t → r.next t = r.take t (.afterIf t.loc) → Mirrors front first b r →
    Meets (scanIf t.loc) b (Settles front first r b.rest.length)

theorem meets_scanElse (hgoal : r.goal = .afterElse) (h : Mirrors front first b r)
    (hstatements : ∀ c : Buffer, c.rest.length < b.rest.length → ScansStatements front first true c)
    (hif : ScansIf front first b) : Meets scanElse b (Settles front first r (b.rest.length + 1)) := by
  refine meets_call .elseBranch ?_
  rw [Call.run]
  apply meets_peek
  split
  · next t ht =>
      obtain ⟨hhead, hword⟩ := Option.filter_eq_some_iff.1 ht
      have hnext : r.next t = r.take t (.afterIf t.loc) := by
        simp only [Reader.next, hgoal, of_decide_eq_true hword, if_true]
      exact (hif r t hhead hnext h).mono fun _ _ hsettles => hsettles.mono (Nat.le_succ _)
  · next hnone =>
      have hdemands : r.Demands .openBrace b.rest fun t => r.openBlock t .otherwise := by
        refine ⟨fun t ht => ?_, fun _ => by simp only [endStatement, hgoal]⟩
        have hword : t.lexeme ≠ .symbol .ifWord := by simpa [ht] using hnone
        simp only [Reader.next, hgoal, if_neg hword]
      refine (meets_scanBlock h hdemands hstatements).bind ?_
      intro result after hblock
      exact meets_pure.2 (hblock.settles fun _ _ _ => rfl)

/-- A branch that has been read joins the break behind it. -/
theorem brokenOff_arm (arm : Arm) (e : Break) (prev : Location) :
    ({ r with arms := arm :: r.arms } : Reader).brokenOff prev e = r.brokenOff prev (e.behind arm.block) := by
  simp [brokenOff, Break.behind]

/-- Behind the block of a test: an `else` with the last branch, or the end of the statement. -/
theorem meets_scanOtherwise {cond : Condition Unit} {body : List Stmt} {brace loc : Location} {bound : Nat}
    (h : Mirrors front first b (r.closed (.branch loc cond) body brace b.prev))
    (hload : loadAll body + b.rest.length + 2 ≤ bound)
    (hstatements : ∀ c : Buffer, c.rest.length < b.rest.length → ScansStatements front first true c)
    (hif : ∀ c : Buffer, c.rest.length < b.rest.length → ScansIf front first c) :
    Meets (scanOtherwise cond body brace loc) b (Settles front first r bound) := by
  obtain ⟨taken, rest⟩ := b
  refine meets_call (.otherwise ..) ?_
  rw [Call.run]
  apply meets_check
  · rintro t rest ⟨⟩ ht
    have helse : Mirrors front first ⟨taken ++ [t], rest⟩
        ((r.closed (.branch loc cond) body brace t.loc).take t .afterElse) :=
      h.next (by simp only [Reader.next, closed, ht, if_true, Reader.take])
    have hshorter (c : Buffer) (hc : c.rest.length < rest.length) := hstatements c (Nat.lt_succ_of_lt hc)
    refine (meets_scanElse rfl helse hshorter (hif _ (Nat.lt_succ_self _))).bind ?_
    rintro (e | last) after ⟨hlast, hmirrors⟩
    · refine meets_pure.2 (settles_error ?_ (brokenOff_arm ⟨loc, cond, body, brace⟩ e after.prev ▸ hmirrors))
      have hbreaks := length_breaksAll_le body
      simp only [phrase, Break.load_stmt, List.length_cons] at hlast hload
      rw [Break.length_breaksAll_behind]
      omega
    · refine meets_pure.2 ⟨?_, hmirrors⟩
      simp only [phrase, List.length_cons] at hlast hload
      simp only [phrase, load_ifElse]
      omega
  · intro helse
    refine meets_pure.2 ⟨?_, h.replace (alike_of_ended rfl ?_ ?_) rfl⟩
    · dsimp only at hload
      simp only [phrase, load_ifThen]
      omega
    · intro t ht
      simp only [Reader.next, closed, if_neg (helse t ht)]
      rfl
    · exact fun _ => rfl

theorem scansIf (b : Buffer)
    (hstatements : ∀ c : Buffer, c.rest.length < b.rest.length → ScansStatements front first true c)
    (hif : ∀ c : Buffer, c.rest.length < b.rest.length → ScansIf front first c) : ScansIf front first b := by
  intro r t ht hnext h
  obtain ⟨taken, rest⟩ := b
  obtain ⟨rest, rfl⟩ := List.head?_eq_some_iff.1 ht
  refine meets_call (.conditional _) ?_
  rw [Call.run]
  refine (meets_scanTest hnext h).bind ?_
  rintro (e | cond) inner htest
  · obtain ⟨hlength, hblocks, hmirrors⟩ := htest
    refine meets_pure.2 (settles_error ?_ hmirrors)
    rw [hblocks, breaksAll_nil, List.length_nil, List.length_cons]
    omega
  obtain ⟨hinner, htested⟩ := htest
  have hdemands : Reader.Demands { r with prev := inner.prev, goal := .afterCondition t.loc cond } .openBrace inner.rest
      fun t' => r.openBlock t' (.branch t.loc cond) := ⟨fun _ _ => rfl, fun _ => rfl⟩
  have hshorter {n : Nat} (hn : n < inner.rest.length) : n < (t :: rest).length := by
    rw [List.length_cons]
    omega
  refine (meets_scanBlock htested hdemands fun c hc => hstatements c (hshorter hc)).bind ?_
  rintro (e | ⟨body, brace⟩) last ⟨hlast, hblock⟩
  · exact meets_pure.2 (settles_error (by rw [List.length_cons]; omega) hblock)
  · have hlength : last.rest.length < inner.rest.length := by omega
    refine meets_scanOtherwise hblock ?_ (fun c hc => hstatements c (hshorter (Nat.lt_trans hc hlength)))
      fun c hc => hif c (hshorter (Nat.lt_trans hc hlength))
    rw [List.length_cons]
    omega

/-! ### All statements -/

theorem meets_skipThrough {line : Int} (h : Mirrors front first b r) (hgoal : r.goal = .skip line) :
    Meets (skipThrough line) b fun _ after => after.rest.length ≤ b.rest.length ∧
      Mirrors front first after { r with prev := after.prev, goal := .start } := by
  obtain ⟨taken, rest⟩ := b
  induction rest generalizing taken r with
  | nil =>
      refine meets_call (.skip _) ?_
      rw [Call.run]
      apply meets_peek
      refine meets_pure.2 ⟨Nat.le_refl _, ?_⟩
      rw [← h.prev_eq]
      exact h.replace (show r.finish = _ by simp only [finish, endStatement, hgoal]) rfl
  | cons t rest ih =>
      refine meets_call (.skip _) ?_
      rw [Call.run]
      apply meets_peek
      dsimp only [List.head?_cons]
      split
      · next hle =>
          apply meets_next
          have hskip : r.next t = { r with prev := t.loc } := by simp only [Reader.next, hgoal, skipOr, if_pos hle]
          refine (ih (r := { r with prev := t.loc }) hgoal _ (h.next hskip)).mono ?_
          rintro _ after ⟨hlength, hmirrors⟩
          exact ⟨Nat.le_succ_of_le hlength, hmirrors⟩
      · next hgt =>
          refine meets_pure.2 ⟨Nat.le_refl _, ?_⟩
          rw [← h.prev_eq]
          refine h.replace (alike_of_ended rfl ?_ (by simp)) rfl
          rintro _ ⟨⟩
          simp only [Reader.next, hgoal, skipOr, if_neg hgt]
          exact begin_congr rfl rfl rfl t

theorem begin_eq_refuse (hname : ∀ name, t.lexeme ≠ .identifier name) (hprint : t.lexeme ≠ .symbol .printWord)
    (hif : t.lexeme ≠ .symbol .ifWord) (hopen : t.lexeme ≠ .symbol .openBrace)
    (hclose : t.lexeme = .symbol .closeBrace → r.frames = []) :
    r.begin t = Reader.refuse { r with start := t.loc.line } t .statement := by
  obtain ⟨lexeme, loc⟩ := t
  rw [begin]
  cases lexeme with
  | identifier name => exact absurd rfl (hname name)
  | symbol s => cases s <;> simp_all
  | _ => rfl

/-- A statement that has been scanned takes a token for itself and for each statement and fault in it. -/
theorem meets_scanStatement (h : Mirrors front first ⟨taken, t :: rest⟩ r) (hgoal : r.goal = .start)
    (harms : r.arms = []) (hstart : r.start = t.loc.line) (hbrace : t.lexeme = .symbol .closeBrace → r.frames = [])
    (hstatements : ScansStatements front first true ⟨taken ++ [t], rest⟩)
    (hif : ScansIf front first ⟨taken, t :: rest⟩) :
    Meets scanStatement ⟨taken, t :: rest⟩ (Settles front first r (rest.length + 1)) := by
  have hsame : { r with start := t.loc.line } = r := by rw [← hstart]
  have hbegin : r.next t = r.begin t := next_of_start hgoal t
  refine meets_call .statement ?_
  rw [Call.run]
  apply meets_peek
  dsimp only [List.head?_cons]
  split
  · next name ht =>
      have hnext : r.next t = r.take t (.afterName name t.loc) := by rw [hbegin, begin, hsame, ht]
      exact (meets_scanNamed hnext h).mono fun _ _ hyields => hyields.settles harms
  · next ht =>
      have hnext : r.next t = r.take t (.afterPrint t.loc) := by rw [hbegin, begin, hsame, ht]
      exact (meets_scanPrint hnext h).mono fun _ _ hyields => hyields.settles harms
  · next ht => exact hif r t rfl (by rw [hbegin, begin, hsame, ht]) h
  · next ht =>
      have hopened := h.next (show r.next t = r.openBlock t .plain by rw [hbegin, begin, hsame, ht])
      refine (meets_scanBlock_cons ht hopened hstatements).bind ?_
      intro result after hblock
      exact meets_pure.2 (hblock.settles fun body brace prev => (settled_of_arms_nil harms prev _).symm)
  · next hname hprint hif hopen =>
      have hnext : r.next t = r.refuse t .statement := by
        rw [hbegin, begin_eq_refuse hname hprint hif hopen hbrace, hsame]
      apply meets_next
      exact (meets_refuse h (Nat.le_refl _) hnext).mono fun _ _ hyields => Yields.settles harms hyields

/-- The statements behind the first one, which has been read or has broken off. -/
theorem meets_cons {inBlock : Bool} {bound : Nat} {stmt : Stmt} (hready : Ready r inBlock)
    (h : Mirrors front first b other) (hgoal : other.goal = .start) (harms : other.arms = [])
    (hframes : other.frames = r.frames) (hbody : other.body = stmt :: r.body) (hload : stmt.load + b.rest.length ≤ bound)
    (hstatements : ScansStatements front first inBlock b) :
    Meets (do return stmt :: (← scanStatements inBlock)) b (YieldsAll front first r inBlock bound) := by
  refine (hstatements other ⟨hgoal, harms, fun hblock => hframes.trans (hready.frames_eq hblock)⟩ h).bind ?_
  rintro stmts after ⟨hrest, hhead, hmirrors⟩
  have hall : stmts.reverse ++ other.body = (stmt :: stmts).reverse ++ r.body := by simp [hbody]
  refine meets_pure.2 ⟨?_, hhead, hmirrors.replace
    (alike_of_start hgoal hready.goal_eq hframes hall (harms.trans hready.arms_eq.symm) rfl) rfl⟩
  rw [loadAll_cons]
  omega

/-- Reading up to the end is reading statement by statement. -/
theorem scansStatements {inBlock : Bool} (b : Buffer)
    (hstatements : ∀ (inBlock : Bool) (c : Buffer), c.rest.length < b.rest.length → ScansStatements front first inBlock c)
    (hif : ScansIf front first b) : ScansStatements front first inBlock b := by
  intro r hready h
  -- Where no statement follows, nothing is read.
  have hend (hhead : ∀ t, b.rest.head? = some t → inBlock = true ∧ t.lexeme = .symbol .closeBrace) :
      Meets (pure [] : Run phrases (List Stmt)) b (YieldsAll front first r inBlock b.rest.length) := by
    refine meets_pure.2 ⟨by simp, hhead, ?_⟩
    rw [← h.prev_eq]
    exact h
  obtain ⟨taken, rest⟩ := b
  refine meets_call (.statements _) ?_
  rw [Call.run]
  apply meets_peek
  cases rest with
  | nil => exact hend (by simp)
  | cons t rest =>
      dsimp only [List.head?_cons]
      split
      · next hclose =>
          apply hend
          rintro _ ⟨⟩
          simpa using hclose
      · next hclose =>
          have hbrace : t.lexeme = .symbol .closeBrace → r.frames = [] := by
            intro ht
            exact hready.frames_eq (by simpa [ht] using hclose)
          -- A statement starts on the line of its first token.
          have hline : Mirrors front first ⟨taken, t :: rest⟩ { r with start := t.loc.line } :=
            h.replace (alike_of_start hready.goal_eq hready.goal_eq rfl rfl rfl rfl) rfl
          have hinner := hstatements true ⟨taken ++ [t], rest⟩ (Nat.lt_succ_self _)
          refine (meets_scanStatement hline hready.goal_eq hready.arms_eq rfl hbrace hinner hif).bind ?_
          rintro (e | stmt) after ⟨hload, hmirrors⟩
          · have hpos := e.stmt.one_le_load
            rw [phrase] at hload
            apply meets_consider
            apply meets_lastLoc
            refine (meets_skipThrough hmirrors rfl).bind ?_
            rintro _ last ⟨hlength, hskipped⟩
            have hbody : .broken (r.arms.reverse.map Arm.block ++ e.blocks) e.fault = e.stmt := by
              simp [Break.stmt, hready.arms_eq]
            refine meets_cons hready hskipped rfl rfl rfl (congrArg (· :: r.body) hbody) ?_ (hstatements inBlock last ?_)
            all_goals
              rw [List.length_cons]
              omega
          · have hpos := stmt.one_le_load
            rw [phrase] at hload
            have hsettled := settled_of_arms_nil (r := { r with start := t.loc.line }) hready.arms_eq after.prev stmt
            rw [hsettled] at hmirrors
            refine meets_cons hready hmirrors rfl rfl rfl rfl hload (hstatements inBlock after ?_)
            rw [List.length_cons]
            omega

theorem scansAll_of_length_lt (n : Nat) : ∀ b : Buffer, b.rest.length < n →
    ScansIf front first b ∧ ∀ inBlock, ScansStatements front first inBlock b := by
  induction n with
  | zero => exact fun _ h => absurd h (Nat.not_lt_zero _)
  | succ n ih =>
      intro b hlength
      have hshorter (c : Buffer) (hc : c.rest.length < b.rest.length) := ih c (by omega)
      have hif := scansIf b (fun c hc => (hshorter c hc).2 true) fun c hc => (hshorter c hc).1
      exact ⟨hif, fun inBlock => scansStatements b (fun inBlock c hc => (hshorter c hc).2 inBlock) hif⟩

theorem scansAll (b : Buffer) : ScansIf front first b ∧ ∀ inBlock, ScansStatements front first inBlock b :=
  scansAll_of_length_lt (b.rest.length + 1) b (Nat.lt_succ_self _)

/-- Scanning all statements takes all tokens, and a reader outside blocks adds the same statements to what it has. -/
theorem comes_scanStatements (hready : Ready r false) (hprev : r.prev = .origin) (tokens : List Token) :
    ∃ stmts, Comes (scanStatements false) ⟨[], tokens⟩ stmts ⟨tokens, []⟩ ∧ loadAll stmts ≤ tokens.length ∧
      (tokens.foldl Reader.next r).finish = r.body.reverse ++ stmts := by
  obtain ⟨stmts, ⟨taken, rest⟩, hcomes, hload, hhead, hmirrors⟩ := (scansAll ⟨[], tokens⟩).2 false r hready (.refl hprev)
  obtain ⟨ts, htaken, hrest, halike⟩ := hmirrors.reads
  cases rest with
  | cons t rest => exact absurd (hhead t rfl).1 (by simp)
  | nil =>
      obtain rfl : tokens = ts := by simpa using hrest
      obtain rfl : taken = tokens := htaken
      refine ⟨stmts, hcomes, by simpa using hload, Eq.trans halike ?_⟩
      simp only [finish, endStatement, hready.goal_eq, hready.frames_eq rfl, endBlocks, List.reverse_append,
        List.reverse_reverse]

/-- Reading by descent comes to an end behind the last token, with the statements that the reader reads. -/
theorem comes_scanStatements_read (tokens : List Token) :
    Comes (scanStatements false) ⟨[], tokens⟩ (read tokens) ⟨tokens, []⟩ := by
  obtain ⟨stmts, hcomes, -, hread⟩ := comes_scanStatements (r := {}) ⟨rfl, rfl, fun _ => rfl⟩ rfl tokens
  exact (show read tokens = stmts from hread) ▸ hcomes

theorem loadAll_read_le (tokens : List Token) : loadAll (read tokens) ≤ tokens.length := by
  obtain ⟨stmts, -, hload, hread⟩ := comes_scanStatements (r := {}) ⟨rfl, rfl, fun _ => rfl⟩ rfl tokens
  exact (show read tokens = stmts from hread) ▸ hload

/-- A statement is scanned to an end and has taken its first token, whether it has been read or has broken off. -/
theorem comes_scanStatement (taken : List Token) (t : Token) (rest : List Token) :
    ∃ result ts left, Comes scanStatement ⟨taken, t :: rest⟩ result ⟨taken ++ t :: ts, left⟩ ∧ rest = ts ++ left := by
  -- The reader that has come so far does not matter, so one that has read nothing will do.
  have hmirrors : Mirrors ⟨taken, t :: rest⟩ { prev := (Buffer.mk taken (t :: rest)).prev, start := t.loc.line } _ _ :=
    .refl rfl
  obtain ⟨result, ⟨_, left⟩, hcomes, hload, hsettled⟩ :=
    meets_scanStatement hmirrors rfl rfl rfl (fun _ => rfl) ((scansAll _).2 true) (scansAll _).1
  obtain ⟨ts, rfl, hrest, -⟩ := hsettled.reads
  have hpos := (phrase result).one_le_load
  cases ts with
  | nil =>
      have hlength := congrArg List.length hrest
      simp only [List.nil_append, List.length_cons] at hlength
      dsimp only at hload
      omega
  | cons first ts =>
      obtain ⟨rfl, hleft⟩ := List.cons.inj hrest
      exact ⟨result, ts, left, hcomes, hleft⟩

end

end Descent

end Grammar

/-! ### What comes out -/

namespace Tree

mutual

/-- The statements in the statement, itself and every block inside it included. -/
def Stmt.count : Stmt → Nat
  | .declare .. | .assign .. | .print .. => 1
  | .ifThen _ body _ _ => 2 + countAll body
  | .ifElse _ body _ otherwise _ => 2 + countAll body + otherwise.count
  | .block body _ => 1 + countAll body

/-- The statements in the statements, at all levels. -/
def countAll : List Stmt → Nat
  | [] => 0
  | stmt :: rest => stmt.count + countAll rest

end

theorem countAll_append (front rest : List Stmt) : countAll (front ++ rest) = countAll front + countAll rest := by
  induction front with
  | nil => simp [countAll]
  | cons stmt front ih => simp only [List.cons_append, countAll, ih, Nat.add_assoc]

end Tree

namespace Grammar

mutual

theorem countAll_resolve_le (scopes : Scopes Ty) : (stmt : Stmt) → Tree.countAll (stmt.resolve scopes).trees ≤ stmt.size
  | .infer .. | .declare .. => by
      simp [Stmt.resolve, trees_resolveDeclaration, Tree.countAll, Tree.Stmt.count, Stmt.size]
  | .assign .. | .print .. => by simp [Stmt.resolve, Tree.countAll, Tree.Stmt.count, Stmt.size]
  | .ifThen _ body _ _ => by
      have hbody := countAll_resolveAll_le scopes.enter body
      simp only [Stmt.resolve, Tree.countAll, Tree.Stmt.count, Stmt.size]
      omega
  | .ifElse _ body _ otherwise _ => by
      have hbody := countAll_resolveAll_le scopes.enter body
      have hlast := countAll_resolve_le scopes otherwise
      rw [Stmt.resolve, Stmt.size]
      cases htrees : (otherwise.resolve scopes).trees with
      | nil =>
          simp only [Tree.countAll, Tree.Stmt.count]
          omega
      | cons tree trees =>
          rw [htrees, Tree.countAll] at hlast
          simp only [Tree.countAll, Tree.Stmt.count]
          omega
  | .block body _ => by
      have hbody := countAll_resolveAll_le scopes.enter body
      simp only [Stmt.resolve, Tree.countAll, Tree.Stmt.count, Stmt.size]
      omega
  | .broken .. => by simp [Stmt.resolve, Tree.countAll]

theorem countAll_resolveAll_le (scopes : Scopes Ty) :
    (stmts : List Stmt) → Tree.countAll (resolveAll scopes stmts).trees ≤ sizeAll stmts
  | [] => by simp [resolveAll, Tree.countAll]
  | stmt :: rest => by
      have hfirst := countAll_resolve_le scopes stmt
      have hrest := countAll_resolveAll_le (stmt.resolve scopes).scopes rest
      simp only [resolveAll, Tree.countAll_append, sizeAll]
      omega

end

end Grammar

namespace Assembly

open Grammar Descent

/-- What is wrong with the grammar. -/
def faults (a : Assembly) : List Diagnostic :=
  a.diagnostics.filter fun d => d.category = .syntactic

theorem length_faults_read (name : String) (tokens : List Token) :
    (read name tokens).faults.length = (breaksAll (Grammar.read tokens)).length := by
  rw [faults, read, filter_syntactic_diagnostic, List.length_map, filterMap_resolveAll]

/-- Reading by descent comes to an end with every token taken once and in its turn, and returns what is read;
each call for a statement takes a token, whatever has been taken before; and no more statements and faults of
the grammar come out than tokens went in. -/
theorem read_takes_each_token_once (name : String) (tokens : List Token) :
    Comes (scanStatements false) ⟨[], tokens⟩ (Grammar.read tokens) ⟨tokens, []⟩ ∧
    (∀ (taken : List Token) (t : Token) (rest : List Token), ∃ result ts left,
      Comes scanStatement ⟨taken, t :: rest⟩ result ⟨taken ++ t :: ts, left⟩ ∧ rest = ts ++ left) ∧
    Tree.countAll (read name tokens).file.body + (read name tokens).faults.length ≤ tokens.length := by
  refine ⟨comes_scanStatements_read tokens, comes_scanStatement, ?_⟩
  calc Tree.countAll (read name tokens).file.body + (read name tokens).faults.length
      ≤ sizeAll (Grammar.read tokens) + (breaksAll (Grammar.read tokens)).length := by
        rw [length_faults_read]
        exact Nat.add_le_add_right (countAll_resolveAll_le {} _) _
    _ ≤ tokens.length := loadAll_read_le tokens

end Assembly

end Lai
