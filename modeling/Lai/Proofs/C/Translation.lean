import Lai.Proofs.C.Code
import Lai.Proofs.C.Frame
/-!
# What a tree is translated to

A tree is translated to C under the names in scope, each of which has a C variable and a type. The
rules take over the types that scoping has noted, so they only translate trees whose notes are right,
and what they translate the writer writes: the lines it adds are the printed form of the translation.
-/

namespace Lai.C

/-- The Lai type of a C type. -/
def CType.toTy : CType → Ty
  | .int => .int
  | .string => .string

@[simp] theorem CType.ofTy?_toTy (type : CType) : CType.ofTy? type.toTy = some type := by
  cases type <;> rfl

theorem CType.toTy_ne_unknown (type : CType) : type.toTy ≠ .unknown := by
  cases type <;> simp [toTy]

/-! ### Names -/

/-- What a name stands for in C: its variable and the type of its values. -/
structure Local where
  var : Var
  type : CType
  deriving DecidableEq, Repr

/-- The names in scope, and how often each name has been declared, latest count first. -/
structure Names where
  scopes : Scopes Local := {}
  counts : List (String × Nat) := []
  deriving DecidableEq, Repr

namespace Names

variable (names : Names)

def count (name : String) : Nat :=
  (names.counts.lookup name).getD 0

/-- What the next declaration of the name makes it stand for. -/
def next (name : String) (type : CType) : Local :=
  ⟨⟨name, names.count name + 1⟩, type⟩

def bind (name : String) (type : CType) : Names :=
  ⟨names.scopes.bind name (names.next name type), (name, names.count name + 1) :: names.counts⟩

def enter : Names :=
  ⟨names.scopes.enter, names.counts⟩

/-- The names behind a block that has been left with the given names: its declarations still count. -/
def resume (inner : Names) : Names :=
  ⟨names.scopes, inner.counts⟩

/-- The writer that goes on with these names. -/
def writer (lines : List IndentedLine) (depth : Nat) : Writer :=
  ⟨lines, depth, names.scopes.map Local.var, names.counts⟩

end Names

/-! ### Rules -/

/-- The expression is translated to a C expression of the type. -/
inductive TranslatesExpr (scopes : Scopes Local) : Lai.Expr Binding → Expr → CType → Prop where
  | int (value : Int32) (loc : Location) : TranslatesExpr scopes (.int value loc) (.int value) .int
  | string (text : String) (loc : Location) : TranslatesExpr scopes (.string text loc) (.string text) .string
  | var {name : String} {target : Local} {note : Binding} (loc : Location) (hname : scopes.find? name = some target)
      (hnote : note.type = target.type.toTy) : TranslatesExpr scopes (.var name note loc) (.var target.var) target.type
  | math (op : MathOp) {left right : Lai.Expr Binding} {l r : Expr} (loc : Location)
      (hleft : TranslatesExpr scopes left l .int) (hright : TranslatesExpr scopes right r .int) :
      TranslatesExpr scopes (.math op left right loc) (.math op l r) .int
  | concat {left right : Lai.Expr Binding} {l r : Expr} (loc : Location)
      (hleft : TranslatesExpr scopes left l .string) (hright : TranslatesExpr scopes right r .string) :
      TranslatesExpr scopes (.math .add left right loc) (.concat l r) .string

/-- The test is translated to a C test, on values of one type. -/
inductive TranslatesTest (scopes : Scopes Local) : Condition Binding → Test → Prop where
  | test (op : CompareOp) {left right : Lai.Expr Binding} {l r : Expr} {type : CType} (loc : Location)
      (hleft : TranslatesExpr scopes left l type) (hright : TranslatesExpr scopes right r type) :
      TranslatesTest scopes ⟨op, left, right, loc⟩ ⟨type, op, l, r⟩

/-- The first value of a declaration is translated: the value given, or else the zero of the type. -/
inductive TranslatesInitial (scopes : Scopes Local) (type : CType) : Option (Lai.Expr Binding) → Expr → Prop where
  | zero : TranslatesInitial scopes type none type.zero
  | value {value : Lai.Expr Binding} {x : Expr} (h : TranslatesExpr scopes value x type) :
      TranslatesInitial scopes type (some value) x

mutual

/-- The statement is translated, with the names before and after it. -/
inductive Translates : Names → Tree.Stmt → Stmt → Names → Prop where
  | declare {names : Names} (name : String) {type : CType} (inferred : Bool) {value : Option (Lai.Expr Binding)}
      {first : Expr} (loc : Location) (hvalue : TranslatesInitial names.scopes type value first) :
      Translates names (.declare name type.toTy inferred value loc)
        (.declare type (names.next name type).var first) (names.bind name type)
  | assign {names : Names} {name : String} {target : Local} (note : Binding) {value : Lai.Expr Binding} {x : Expr}
      (loc : Location) (hname : names.scopes.find? name = some target)
      (hvalue : TranslatesExpr names.scopes value x target.type) :
      Translates names (.assign name note value loc) (.assign target.var x) names
  | print {names : Names} {value : Lai.Expr Binding} {x : Expr} {type : CType} (loc : Location)
      (hvalue : TranslatesExpr names.scopes value x type) :
      Translates names (.print value loc) (.print type x) names
  | branch {names after : Names} {tree : Tree.Stmt} {chain : Chain} (h : TranslatesChain names tree chain after) :
      Translates names tree (.branch chain) after
  | block {names inner : Names} {body : List Tree.Stmt} {stmts : List Stmt} (loc : Location)
      (hbody : TranslatesAll names.enter body stmts inner) :
      Translates names (.block body loc) (.block stmts) (names.resume inner)

/-- The if statement is translated, with all that follows its `else`. -/
inductive TranslatesChain : Names → Tree.Stmt → Chain → Names → Prop where
  | ifThen {names inner : Names} {cond : Condition Binding} {test : Test} {body : List Tree.Stmt} {stmts : List Stmt}
      (brace loc : Location) (hcond : TranslatesTest names.scopes cond test)
      (hbody : TranslatesAll names.enter body stmts inner) :
      TranslatesChain names (.ifThen cond body brace loc) (.ifThen test stmts) (names.resume inner)
  | ifElse {names inner final : Names} {cond : Condition Binding} {test : Test} {body last : List Tree.Stmt}
      {stmts others : List Stmt} (brace mark loc : Location) (hcond : TranslatesTest names.scopes cond test)
      (hbody : TranslatesAll names.enter body stmts inner)
      (hlast : TranslatesAll (names.resume inner).enter last others final) :
      TranslatesChain names (.ifElse cond body brace (.block last mark) loc) (.ifElse test stmts others)
        (names.resume final)
  | elseIf {names inner after : Names} {cond : Condition Binding} {test : Test} {body : List Tree.Stmt}
      {stmts : List Stmt} {last : Tree.Stmt} {chain : Chain} (brace loc : Location)
      (hcond : TranslatesTest names.scopes cond test) (hbody : TranslatesAll names.enter body stmts inner)
      (hlast : TranslatesChain (names.resume inner) last chain after) :
      TranslatesChain names (.ifElse cond body brace last loc) (.elseIf test stmts chain) after

inductive TranslatesAll : Names → List Tree.Stmt → List Stmt → Names → Prop where
  | nil (names : Names) : TranslatesAll names [] [] names
  | cons {names middle after : Names} {tree : Tree.Stmt} {stmt : Stmt} {trees : List Tree.Stmt} {stmts : List Stmt}
      (hfirst : Translates names tree stmt middle) (hrest : TranslatesAll middle trees stmts after) :
      TranslatesAll names (tree :: trees) (stmt :: stmts) after

end

/-- An if statement declares nothing that outlasts it. -/
theorem TranslatesChain.scopes_eq {names after : Names} {tree : Tree.Stmt} {chain : Chain} :
    TranslatesChain names tree chain after → after.scopes = names.scopes
  | .ifThen .. => rfl
  | .ifElse .. => rfl
  | .elseIf _ _ _ _ hlast => hlast.scopes_eq

/-- The files are translated to one block each. -/
inductive TranslatesFiles : List Tree.File → List Block → Prop where
  | nil : TranslatesFiles [] []
  | cons {file : Tree.File} {stmts : List Stmt} {after : Names} {files : List Tree.File} {blocks : List Block}
      (hbody : TranslatesAll {} file.body stmts after) (hrest : TranslatesFiles files blocks) :
      TranslatesFiles (file :: files) (⟨file.name, stmts⟩ :: blocks)

/-! ### The writer writes the translation -/

section

variable {names after : Names} {scopes : Scopes Local} {lines : List IndentedLine} {depth : Nat}

theorem TranslatesExpr.type_eq {e : Lai.Expr Binding} {x : Expr} {type : CType} (h : TranslatesExpr scopes e x type) :
    e.type = type.toTy := by
  induction h with
  | int | string => rfl
  | var loc hname hnote => exact hnote
  | math op loc _ _ ihleft ihright => rw [Expr.type, ihleft, ihright, Ty.common, if_pos rfl]
  | concat loc _ _ ihleft ihright => rw [Expr.type, ihleft, ihright, Ty.common, if_pos rfl]

@[simp] theorem Names.put_writer (line : Line) :
    (names.writer lines depth).put line = names.writer (⟨depth, line⟩ :: lines) depth := rfl

@[simp] theorem Names.resume_resume (inner final : Names) : (names.resume inner).resume final = names.resume final := rfl

theorem Names.find_writer {name : String} {target : Local} (h : names.scopes.find? name = some target) (loc : Location) :
    (names.writer lines depth).find name loc = .ok target.var := by
  simp [Writer.find, writer, Scopes.find?_map, h]

theorem TranslatesExpr.writes {e : Lai.Expr Binding} {x : Expr} {type : CType}
    (h : TranslatesExpr names.scopes e x type) : (names.writer lines depth).expr e = .ok x := by
  have hknown := h.type_eq ▸ type.toTy_ne_unknown
  induction h with
  | int | string => rfl
  | var loc hname hnote =>
      rw [Writer.expr.eq_def, if_neg hknown]
      simp [Names.find_writer hname, Except.map]
  | math op loc hleft hright ihleft ihright =>
      rw [Writer.expr.eq_def, if_neg hknown]
      simp [ihleft (by simp [hleft.type_eq, CType.toTy]), ihright (by simp [hright.type_eq, CType.toTy]), hleft.type_eq,
        hright.type_eq, CType.toTy, Ty.common]
  | concat loc hleft hright ihleft ihright =>
      rw [Writer.expr.eq_def, if_neg hknown]
      simp [ihleft (by simp [hleft.type_eq, CType.toTy]), ihright (by simp [hright.type_eq, CType.toTy]), hleft.type_eq,
        hright.type_eq, CType.toTy, Ty.common]

theorem TranslatesTest.writes {cond : Condition Binding} {test : Test} (h : TranslatesTest names.scopes cond test) :
    (names.writer lines depth).test cond = .ok test := by
  cases h with
  | test op loc hleft hright =>
      simp [Writer.test, hleft.writes, hright.writes, hleft.type_eq]

theorem TranslatesInitial.writes {type : CType} {value : Option (Lai.Expr Binding)} {first : Expr}
    (h : TranslatesInitial names.scopes type value first) (loc : Location) :
    (names.writer lines depth).initialValue type.toTy value loc = .ok first := by
  cases h with
  | zero => simp [Writer.initialValue]
  | value h => simp [Writer.initialValue, h.writes]

/-- What a block adds inside is added one step further in. -/
theorem Names.inside_writer {trees : List Tree.Stmt} {stmts : List Stmt} {inner : Names}
    (h : ∀ lines depth, writeAll trees (names.enter.writer lines depth) =
      (inner.writer ((linesAll depth stmts).reverse ++ lines) depth, none)) :
    (names.writer lines depth).inside (writeAll trees) =
      ((names.resume inner).writer ((linesAll (depth + 1) stmts).reverse ++ lines) depth, none) := by
  have hinside : (names.writer lines depth).inside (writeAll trees) =
      let x := writeAll trees (names.enter.writer lines (depth + 1))
      ((names.resume ⟨{}, x.1.counts⟩).writer x.1.lines depth, x.2) := Writer.inside_writeAll _ trees
  rw [hinside, h]
  rfl

end

mutual

/-- The writer adds the printed form of the translation. -/
theorem Translates.writes {names after : Names} {tree : Tree.Stmt} {stmt : Stmt} :
    Translates names tree stmt after → ∀ lines depth,
      writeStmt .alone tree (names.writer lines depth) =
        (after.writer ((stmt.lines depth).reverse ++ lines) depth, none)
  | .declare name inferred loc hvalue, lines, depth => by
      simp only [writeStmt, Position.simple, Writer.declaration, hvalue.writes, CType.ofTy?_toTy]
      rfl
  | .assign note loc hname hvalue, lines, depth => by
      simp [writeStmt, Position.simple, Writer.assignment, hvalue.writes, Names.find_writer hname, Stmt.lines]
  | .print loc hvalue, lines, depth => by
      simp [writeStmt, Position.simple, Writer.printing, hvalue.writes, hvalue.type_eq, Stmt.lines]
  | .branch h, lines, depth => h.writes .alone lines depth
  | .block loc hbody, lines, depth => by
      simp [writeStmt, Names.inside_writer hbody.writes, Stmt.lines, Outcome.andThen, Position.openBlock]

theorem TranslatesChain.writes {names after : Names} {tree : Tree.Stmt} {chain : Chain} :
    TranslatesChain names tree chain after → ∀ position lines depth,
      writeStmt position tree (names.writer lines depth) =
        (after.writer ((chain.lines depth fun test => position.openIf test).reverse ++ lines) depth, none)
  | .ifThen brace loc hcond hbody, position, lines, depth => by
      simp [writeStmt, hcond.writes, Names.inside_writer hbody.writes, Chain.lines, Outcome.andThen]
  | .ifElse brace mark loc hcond hbody hlast, position, lines, depth => by
      simp [writeStmt, hcond.writes, Names.inside_writer hbody.writes, Names.inside_writer hlast.writes, Chain.lines, Outcome.andThen,
        Position.openBlock]
  | .elseIf brace loc hcond hbody hlast, position, lines, depth => by
      have hopening : (fun test => Position.openIf test (.afterElse loc)) = Line.openElseIf := rfl
      simp [writeStmt, hcond.writes, Names.inside_writer hbody.writes, hlast.writes, hopening, Chain.lines,
        Outcome.andThen]

theorem TranslatesAll.writes {names after : Names} {trees : List Tree.Stmt} {stmts : List Stmt} :
    TranslatesAll names trees stmts after → ∀ lines depth,
      writeAll trees (names.writer lines depth) = (after.writer ((linesAll depth stmts).reverse ++ lines) depth, none)
  | .nil _, lines, depth => rfl
  | .cons hfirst hrest, lines, depth => by
      simp [writeAll, hfirst.writes, Outcome.andThen, hrest.writes, linesAll]

end

theorem TranslatesFiles.sectionsOf {files : List Tree.File} {blocks : List Block} (h : TranslatesFiles files blocks) :
    sectionsOf files = .ok (blocks.map Block.toSection) := by
  induction h with
  | nil => rfl
  | @cons file stmts after files blocks hbody hrest ih =>
      have hwrites := hbody.writes [] 2
      have hsection : sectionOf file = .ok (Block.toSection ⟨file.name, stmts⟩) := by
        change writeAll file.body {} = _ at hwrites
        simp [sectionOf, hwrites, Names.writer, Block.toSection]
      rw [C.sectionsOf, hsection, ih, List.map_cons]

/-- Files are compiled to the printed form of what they are translated to. -/
theorem TranslatesFiles.compile {files : List Tree.File} {blocks : List Block} (h : TranslatesFiles files blocks) :
    C.compile files = .ok (Program.mk blocks).text := by
  rw [C.compile, h.sectionsOf, Program.text]

end Lai.C
