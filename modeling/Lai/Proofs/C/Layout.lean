import Lai.Proofs.C.Code
import Lai.Proofs.C.Rendering
import Lai.Proofs.C.Sections
/-!
# Written programs are parsed as themselves

The text of a program falls into the tokens of its lines: how far a line is indented makes no difference, and
the comment with the name of a file is passed over whatever the name is. These tokens are derived as the tree
of the program, so this is what the text says, and it says nothing else. The text is lexed as it stands, that
is, with no lines to join.
-/

namespace Lai.C

open Text

/-! ### Pieces that can be lexed on their own -/

/-- The text falls into these tokens whatever follows it. -/
def Splits (text : String) (ts : List CToken) : Prop :=
  ∀ rest, lex (bytes text ++ rest) = (lex rest).map (ts ++ ·)

section

variable {front back : String} {ts us : List CToken}

theorem Splits.append (h : Splits front ts) (h' : Splits back us) : Splits (front ++ back) (ts ++ us) := by
  intro rest
  rw [bytes_append, List.append_assoc, h, h']
  simp [Function.comp_def]

theorem Splits.before (h : Splits front ts) (h' : FallsInto back us) : FallsInto (front ++ back) (ts ++ us) := by
  intro rest hrest
  rw [bytes_append, List.append_assoc, h, h' rest hrest]
  simp [Function.comp_def]

theorem FallsInto.before (h : FallsInto front ts) (h' : Splits back us)
    (hback : ((bytes back).head?.any fun b => !isNumberByte b) = true) : Splits (front ++ back) (ts ++ us) := by
  intro rest
  rw [bytes_append, List.append_assoc, h _ (ends_append hback rest), h']
  simp [Function.comp_def]

theorem splits_nil : Splits "" [] := by
  intro rest
  simp [bytes]

theorem splits_space {b : UInt8} (hb : isSpace b = true) {text : String} (htext : bytes text = [b]) : Splits text [] := by
  intro rest
  rw [htext, List.singleton_append, lex_space hb]
  simp

theorem splits_blank : Splits " " [] :=
  splits_space (by decide) rfl

theorem splits_tab : Splits "\t" [] :=
  splits_space (by decide) rfl

theorem splits_lineBreak : Splits "\n" [] :=
  splits_space (by decide) rfl

theorem splits_open : Splits "(" [.mark (bytes "(")] :=
  fun _ => lex_token rfl rfl rfl

theorem splits_close : Splits ")" [.mark (bytes ")")] :=
  fun _ => lex_token rfl rfl rfl

theorem splits_semicolon : Splits ";" [.mark (bytes ";")] :=
  fun _ => lex_token rfl rfl rfl

theorem splits_openBrace : Splits "\x7b" [.mark (bytes "\x7b")] :=
  fun _ => lex_token rfl rfl rfl

theorem splits_closeBrace : Splits "\x7d" [.mark (bytes "\x7d")] :=
  fun _ => lex_token rfl rfl rfl

theorem splits_equals : Splits " = " [.mark (bytes "=")] := by
  intro rest
  have hmark : lex (bytes "= " ++ rest) = (lex (bytes " " ++ rest)).map (.mark (bytes "=") :: ·) := lex_token rfl rfl rfl
  have hspace (rest : List UInt8) : lex (bytes " " ++ rest) = lex rest := lex_space rfl rest
  rw [hspace] at hmark
  exact (hspace _).trans hmark

theorem splits_word {word : String} (hhead : ((bytes word).head?.any isNameHead) = true)
    (hall : (bytes word).all isNameByte = true) : Splits (word ++ " ") [.name (bytes word)] :=
  (fallsInto_name hhead hall).before splits_blank (by decide)

theorem splits_join {α : Type} {f : α → String} {g : α → List CToken} (h : ∀ a, Splits (f a) (g a)) (items : List α) :
    Splits (String.join (items.map f)) (items.flatMap g) := by
  induction items with
  | nil => exact splits_nil
  | cons a items ih =>
      rw [List.map_cons, String.join_cons, List.flatMap_cons]
      exact (h a).append ih

end

/-! ### Lines -/

/-- How `printf` is told to print a value of the type on a line. -/
def CType.format : CType → String
  | .int => "%d\n"
  | .string => "%s\n"

namespace Line

def tokens : Line → List CToken
  | .declare type v value =>
    type.tokens ++ .name (bytes v.text) :: .mark (bytes "=") :: value.tokens ++ [.mark (bytes ";")]
  | .assign v value => .name (bytes v.text) :: .mark (bytes "=") :: value.tokens ++ [.mark (bytes ";")]
  | .print type value => callTokens "printf" [.literal (bytes type.format)] value.tokens ++ [.mark (bytes ";")]
  | .openIf test =>
    .name (bytes "if") :: .mark (bytes "(") :: test.tokens ++ [.mark (bytes ")"), .mark (bytes "\x7b")]
  | .openElseIf test =>
    .mark (bytes "\x7d") :: .name (bytes "else") :: .name (bytes "if") :: .mark (bytes "(") :: test.tokens ++
      [.mark (bytes ")"), .mark (bytes "\x7b")]
  | .openElse => [.mark (bytes "\x7d"), .name (bytes "else"), .mark (bytes "\x7b")]
  | .openBlock => [.mark (bytes "\x7b")]
  | .close => [.mark (bytes "\x7d")]

/-- An asterisk is not taken for the beginning of a longer mark where a name follows. -/
theorem fallsInto_pointer (v : Var) :
    FallsInto ("const char *" ++ v.text) (CType.string.tokens ++ [.name (bytes v.text)]) := by
  have hconst : Splits ("const" ++ " ") [.name (bytes "const")] := splits_word (by decide) (by decide)
  have hchar : Splits ("char" ++ " ") [.name (bytes "char")] := splits_word (by decide) (by decide)
  have hpointer : FallsInto ("*" ++ v.text) [.mark (bytes "*"), .name (bytes v.text)] := by
    intro rest hrest
    obtain ⟨cs, htext⟩ : ∃ cs, v.text.toList = 'l' :: cs := ⟨_, v.toList_text⟩
    have hbytes : bytes v.text = 'l'.toUInt8 :: cs.map Char.toUInt8 := by rw [v.bytes_text, htext, List.map_cons]
    have hmark : lex (bytes "*" ++ (bytes v.text ++ rest)) = (lex (bytes v.text ++ rest)).map (.mark (bytes "*") :: ·) := by
      rw [hbytes]
      exact lex_token rfl rfl rfl
    rw [bytes_append, List.append_assoc, hmark, v.fallsInto_text rest hrest]
    simp [Function.comp_def]
  have hall := (hconst.append hchar).before hpointer
  rwa [← String.append_assoc] at hall

theorem fallsInto_declared (v : Var) : FallsInto ("int " ++ v.text) (CType.int.tokens ++ [.name (bytes v.text)]) := by
  have hint : Splits ("int" ++ " ") [.name (bytes "int")] := splits_word (by decide) (by decide)
  exact hint.before v.fallsInto_text

theorem splits_value {front : String} {ts : List CToken} (h : FallsInto front ts) (value : Expr) :
    Splits (front ++ " = " ++ value.text ++ ";") (ts ++ .mark (bytes "=") :: value.tokens ++ [.mark (bytes ";")]) := by
  have hvalue := ((h.before splits_equals (by decide)).before value.fallsInto_text).before splits_semicolon (by decide)
  simpa using hvalue

theorem bytes_text_print (type : CType) (value : Expr) :
    bytes (print type value).text = bytes (callText "printf" (stringLiteral type.format) value.text ++ ";") := by
  cases type with
  | int =>
      have htext : (print .int value).text = "printf(\"%d\\n\", " ++ value.text ++ ");" := rfl
      simp only [htext, callText, bytes_append, List.append_assoc]
      rfl
  | string =>
      have htext : (print .string value).text = "printf(\"%s\\n\", " ++ value.text ++ ");" := rfl
      simp only [htext, callText, bytes_append, List.append_assoc]
      rfl

theorem splits_print (type : CType) (value : Expr) : Splits (print type value).text (print type value).tokens := by
  have hname : FallsInto "printf" [.name (bytes "printf")] := fallsInto_name (by decide) (by decide)
  have hformat : FallsInto (stringLiteral type.format) [.literal (bytes type.format)] := fun rest _ => lex_literal _ rest
  have hcall := (fallsInto_call hname hformat value.fallsInto_text).before splits_semicolon (by decide)
  intro rest
  rw [bytes_text_print]
  exact hcall rest

theorem splits_openIf (test : Test) : Splits ("if (" ++ test.text ++ ") \x7b") (openIf test).tokens := by
  have hif : Splits ("if" ++ " " ++ "(") [.name (bytes "if"), .mark (bytes "(")] :=
    (splits_word (by decide) (by decide)).append splits_open
  have hend : Splits (")" ++ " " ++ "\x7b") [.mark (bytes ")"), .mark (bytes "\x7b")] :=
    (splits_close.append splits_blank).append splits_openBrace
  exact (hif.before test.fallsInto_text).before hend (by decide)

/-- What stands between two blocks of an if statement. -/
theorem splits_else : Splits "\x7d else " [.mark (bytes "\x7d"), .name (bytes "else")] := by
  have helse : Splits ("else" ++ " ") [.name (bytes "else")] := splits_word (by decide) (by decide)
  exact (splits_closeBrace.append splits_blank).append helse

/-- A line falls into its tokens. -/
theorem splits : (line : Line) → Splits line.text line.tokens
  | .declare .int v value => splits_value (fallsInto_declared v) value
  | .declare .string v value => splits_value (fallsInto_pointer v) value
  | .assign v value => splits_value v.fallsInto_text value
  | .print type value => splits_print type value
  | .openIf test => splits_openIf test
  | .openElseIf test => by
      have hline := splits_else.append (splits_openIf test)
      rwa [← String.append_assoc, ← String.append_assoc] at hline
  | .openElse => splits_else.append splits_openBrace
  | .openBlock => splits_openBrace
  | .close => splits_closeBrace

end Line

theorem IndentedLine.splits (l : IndentedLine) : Splits l.text l.line.tokens := by
  have htabs : Splits (String.ofList (List.replicate l.depth '\t')) [] := by
    intro rest
    rw [bytes_ofList]
    induction l.depth with
    | zero => simp
    | succ n ih =>
        rw [List.replicate_succ, List.flatMap_cons, List.append_assoc]
        exact (lex_space rfl _).trans ih
  exact htabs.append l.line.splits

/-! ### Comments -/

theorem behindBlock_append {run : List UInt8} (h : '*'.toUInt8 ∉ run) (rest : List UInt8) :
    behindBlock (run ++ rest) = behindBlock rest := by
  induction run with
  | nil => rfl
  | cons b run ih =>
      rw [List.mem_cons, not_or] at h
      rw [List.cons_append, behindBlock, if_neg fun hmark => h.1 hmark.1.symm, ih h.2]

/-- The mark that closes a comment is not found in what its name has become. -/
theorem behindBlock_commentText (name : List Char) (rest : List UInt8) :
    behindBlock ((commentText name).flatMap String.utf8EncodeChar ++ (bytes " */" ++ rest)) = some rest := by
  have hhead {name : List Char} (h : name.head? ≠ some '/') :
      ((commentText name).flatMap String.utf8EncodeChar ++ (bytes " */" ++ rest)).head? ≠ some '/'.toUInt8 := by
    cases hname : commentText name with
    | nil => exact fun heq => absurd (Option.some.inj heq) (by decide)
    | cons c more =>
        have hc : c ≠ '/' := by
          intro hslash
          rw [← head?_commentText, hname, hslash] at h
          exact h rfl
        obtain ⟨b, others, hbytes⟩ := List.exists_cons_of_ne_nil (@String.utf8EncodeChar_ne_nil c)
        have hb : b ≠ '/'.toUInt8 := ne_of_mem_utf8EncodeChar (by decide) hc (hbytes ▸ List.mem_cons_self)
        rw [List.flatMap_cons, hbytes]
        exact fun heq => hb (Option.some.inj heq)
  fun_induction commentText name with
  | case1 => rfl
  | case2 name ih => exact ih
  | case3 c name hmark ih =>
      rw [List.flatMap_cons, List.append_assoc]
      by_cases hc : c = '*'
      · have hslash : name.head? ≠ some '/' := by
          intro hname
          obtain ⟨name, rfl⟩ := List.head?_eq_some_iff.1 hname
          exact hmark name hc rfl
        rw [hc]
        exact (if_neg fun hpair => hhead hslash hpair.2).trans ih
      · rw [behindBlock_append fun hmem => ne_of_mem_utf8EncodeChar (by decide) hc hmem rfl, ih]

/-- The comment in front of a block is passed over. -/
theorem splits_blockOpening (name : String) :
    Splits ("\t/* " ++ String.ofList (commentText name.toList) ++ " */\n\t\x7b\n") [.mark (bytes "\x7b")] := by
  intro rest
  have hopen : Splits ("\n" ++ "\t" ++ "\x7b" ++ "\n") [.mark (bytes "\x7b")] :=
    ((splits_lineBreak.append splits_tab).append splits_openBrace).append splits_lineBreak
  simp only [bytes_append, bytes_ofList, List.append_assoc]
  calc
    _ = lex (bytes "/* " ++ ((commentText name.toList).flatMap String.utf8EncodeChar ++
          (bytes " */" ++ (bytes "\n\t\x7b\n" ++ rest)))) := lex_space rfl _
    _ = lex (bytes "\n\t\x7b\n" ++ rest) := lex_comment (by decide) (behindBlock_commentText name.toList _)
    _ = _ := hopen rest

/-! ### Statements -/

/-- The tokens of lines, how far each is indented aside. -/
def lineTokens (lines : List IndentedLine) : List CToken :=
  lines.flatMap (·.line.tokens)

@[simp] theorem lineTokens_nil : lineTokens [] = [] := rfl

@[simp] theorem lineTokens_cons (l : IndentedLine) (lines : List IndentedLine) :
    lineTokens (l :: lines) = l.line.tokens ++ lineTokens lines := rfl

@[simp] theorem lineTokens_append (lines more : List IndentedLine) :
    lineTokens (lines ++ more) = lineTokens lines ++ lineTokens more :=
  List.flatMap_append

mutual

/-- The tree of a statement, in which variables are known by how they are written. -/
def Stmt.tree : Stmt → CStmt
  | .declare type v value => .declare type (bytes v.text) value.tree
  | .assign v value => .assign (bytes v.text) value.tree
  | .print type value => .expression (.ofCall "printf" [.literal (bytes type.format), value.tree])
  | .branch chain => chain.tree
  | .block body => .block (treesAll body)

def Chain.tree : Chain → CStmt
  | .ifThen test body => .ifThen test.tree (treesAll body)
  | .ifElse test body last => .ifElse test.tree (treesAll body) (.block (treesAll last))
  | .elseIf test body chain => .ifElse test.tree (treesAll body) chain.tree

def treesAll : List Stmt → List CStmt
  | [] => []
  | stmt :: rest => stmt.tree :: treesAll rest

end

/-- Between two tests of a chain stand a closing brace and `else`. -/
theorem Chain.lineTokens_openElseIf (depth : Nat) (chain : Chain) :
    lineTokens (chain.lines depth .openElseIf) =
      .mark (bytes "\x7d") :: .name (bytes "else") :: lineTokens (chain.lines depth .openIf) := by
  cases chain <;> rfl

theorem derives_print (type : CType) (value : Expr) :
    DerivesTree (.chain 1) (callTokens "printf" [.literal (bytes type.format)] value.tokens)
      [.ofCall "printf" [.literal (bytes type.format), value.tree]] := by
  have hformat : DerivesTree (.chain signPrecedence) [.literal (bytes type.format)] [.literal (bytes type.format)] :=
    .operand (.literal _)
  have hname : bytes "printf" ∉ cKeywords := by decide
  have hcall := derives_callTokens hname (hformat.loosen (by decide)) (value.derives_tokens.loosen (by decide))
  exact (DerivesTree.operand hcall).loosen (by decide)

mutual

/-- The lines of a statement are derived as its tree. -/
theorem Stmt.derives (depth : Nat) : (stmt : Stmt) → DerivesCode .statement (lineTokens (stmt.lines depth)) [stmt.tree]
  | .declare type v value => by
      simpa [Stmt.lines, Stmt.tree, Line.tokens] using
        DerivesCode.declare type v.text_notMem_cKeywords (value.derives_tokens.loosen (by decide))
  | .assign v value => by
      simpa [Stmt.lines, Stmt.tree, Line.tokens] using
        DerivesCode.assign v.text_notMem_cKeywords (value.derives_tokens.loosen (by decide))
  | .print type value => by
      simpa [Stmt.lines, Stmt.tree, Line.tokens] using DerivesCode.expression (derives_print type value)
  | .branch chain => .ofConditional (chain.derives depth)
  | .block body => by
      simpa [Stmt.lines, Stmt.tree, Line.tokens] using DerivesCode.ofBlock (.block (derivesAll (depth + 1) body))

theorem Chain.derives (depth : Nat) : (chain : Chain) →
    DerivesCode .conditional (lineTokens (chain.lines depth .openIf)) [chain.tree]
  | .ifThen test body => by
      simpa [Chain.lines, Chain.tree, Line.tokens] using
        DerivesCode.ifThen test.derives_tokens (.block (derivesAll (depth + 1) body))
  | .ifElse test body last => by
      simpa [Chain.lines, Chain.tree, Line.tokens] using
        DerivesCode.ifElse test.derives_tokens (.block (derivesAll (depth + 1) body))
          (.ofBlock (.block (derivesAll (depth + 1) last)))
  | .elseIf test body chain => by
      simpa [Chain.lines, Chain.tree, Line.tokens, chain.lineTokens_openElseIf] using
        DerivesCode.ifElse test.derives_tokens (.block (derivesAll (depth + 1) body)) (.ofConditional (chain.derives depth))

theorem derivesAll (depth : Nat) : (stmts : List Stmt) → DerivesCode .body (lineTokens (linesAll depth stmts)) (treesAll stmts)
  | [] => .nil
  | stmt :: rest => by
      rw [linesAll, lineTokens_append]
      exact .cons (stmt.derives depth) (derivesAll depth rest)

end

/-! ### Programs -/

def Section.tokens (s : Section) : List CToken :=
  .mark (bytes "\x7b") :: lineTokens s.lines ++ [.mark (bytes "\x7d")]

theorem Section.splits (s : Section) : Splits s.text s.tokens := by
  have hlines := splits_join (fun l : IndentedLine => l.splits.append splits_lineBreak) s.lines
  have hclose : Splits ("\t" ++ "\x7d" ++ "\n") [.mark (bytes "\x7d")] :=
    (splits_tab.append splits_closeBrace).append splits_lineBreak
  have hall := ((splits_blockOpening s.name).append hlines).append hclose
  simp only [List.append_nil] at hall
  exact hall

/-- What stands behind the last section ends the main function. -/
theorem splits_ending : Splits ending
    [.name (bytes "return"), .number (bytes "0"), .mark (bytes ";"), .mark (bytes "\x7d")] := by
  have hword : Splits ("return" ++ " ") [.name (bytes "return")] := splits_word (by decide) (by decide)
  have hresult := ((splits_tab.append hword).before (fallsInto_decimal 0)).before splits_semicolon (by decide)
  exact ((hresult.append splits_lineBreak).append splits_closeBrace).append splits_lineBreak

/-- The text can be parsed as a main function with these statements, behind the lines that every program
begins with. -/
def ParsesProgram (code : String) (stmts : List CStmt) : Prop :=
  ∃ rest ts, code = preamble ++ rest ∧ lex (bytes rest) = some (ts ++ [.mark (bytes "\x7d")]) ∧
    DerivesCode .body ts stmts

theorem ParsesProgram.unique {code : String} {stmts others : List CStmt} (h : ParsesProgram code stmts)
    (h' : ParsesProgram code others) : stmts = others := by
  obtain ⟨rest, ts, rfl, hlex, hderives⟩ := h
  obtain ⟨more, us, hcode, hlex', hderives'⟩ := h'
  have hbytes := congrArg bytes hcode
  rw [bytes_append, bytes_append] at hbytes
  obtain rfl := bytes_inj.1 (List.append_cancel_left hbytes)
  have htokens : ts ++ [.mark (bytes "\x7d")] = us ++ [.mark (bytes "\x7d")] := Option.some.inj (hlex.symm.trans hlex')
  exact (hderives.unique hderives' htokens (by simp [CPart.Precedes]) (by simp [CPart.Precedes])).2

/-- The statements of the main function. -/
def Program.tree (p : Program) : List CStmt :=
  p.blocks.map (fun b => .block (treesAll b.body)) ++ [.result (.constant .decimal 0)]

theorem derives_blocks (blocks : List Block) {ts : List CToken} {stmts : List CStmt} (h : DerivesCode .body ts stmts) :
    DerivesCode .body ((blocks.map Block.toSection).flatMap Section.tokens ++ ts)
      (blocks.map (fun b => .block (treesAll b.body)) ++ stmts) := by
  induction blocks with
  | nil => exact h
  | cons b blocks ih =>
      have hblock : DerivesCode .statement b.toSection.tokens [.block (treesAll b.body)] := .ofBlock (.block (derivesAll 2 b.body))
      simpa using DerivesCode.cons hblock ih

/-- The text of a program has one parse, the tree of the program. -/
theorem Program.parses_text_iff (p : Program) (stmts : List CStmt) : ParsesProgram p.text stmts ↔ stmts = p.tree := by
  have htree : ParsesProgram p.text p.tree := by
    have hresult : DerivesCode .body [.name (bytes "return"), .number (bytes "0"), .mark (bytes ";")]
        [.result (.constant .decimal 0)] :=
      .cons (.result ((derives_intTokens 0).loosen (by decide))) .nil
    have hlex := (splits_join Section.splits (p.blocks.map Block.toSection)).append splits_ending []
    refine ⟨_, _, String.append_assoc, ?_, derives_blocks p.blocks hresult⟩
    rw [List.append_nil, lex, Option.map_some] at hlex
    rw [hlex]
    simp
  exact ⟨fun h => h.unique htree, fun h => h ▸ htree⟩

end Lai.C
