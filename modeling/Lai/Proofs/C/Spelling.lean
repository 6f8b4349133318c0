import Lai.C.Line
import Lai.Proofs.C.Context
import Lai.Proofs.C.Name
import Lai.Proofs.C.Scanner
/-!
# How lines are read back

Each line of a block is read as code from its first to its last character, whatever names and texts it is
made of. The code shows what the line was made to say: its braces, the variable that it declares and the
variables that it uses, each as it is written.
-/

namespace Lai.C

/-! ### Reading a line of text -/

/-- The words of C lines that name a type. -/
def typeWords : List String :=
  ["int", "const", "char"]

/-- The words of C lines that are not numbers and name no variable. -/
def reservedWords : List String :=
  typeWords ++ ["if", "else", "printf", "strcmp", "lai_rt_concat"]

def isName (word : String) : Bool :=
  !(word ∈ reservedWords) && !word.toList.head?.any Char.isDigit

/-- The word that a line declares, which stands behind words for a type, and the other words of the line. -/
def splitDeclared : List String → Option String × List String
  | [] => (none, [])
  | first :: rest =>
    if first ∈ typeWords then
      match rest.dropWhile (· ∈ typeWords) with
      | [] => (none, [])
      | name :: rest => (some name, rest)
    else (none, first :: rest)

/-- What a line of code says about blocks and variables, these being known by how they are written. -/
def Reading.ofCode (code : List Char) : Reading String :=
  let split := splitDeclared (words code)
  ⟨code.filter isBrace, split.1, split.2.filter isName⟩

def Reading.ofText (text : String) : Reading String :=
  .ofCode (codeOf .code text.toList)

/-! ### Words -/

theorem isBrace_of_isWordChar {c : Char} (hc : isWordChar c = true) : isBrace c = false := by
  have hopen : c ≠ '{' := ne_of_isWordChar hc (by decide)
  have hclose : c ≠ '}' := ne_of_isWordChar hc (by decide)
  simp [isBrace, hopen, hclose]

theorem filter_isBrace_word {text : List Char} (h : ∀ c ∈ text, isWordChar c = true) : text.filter isBrace = [] := by
  rw [List.filter_eq_nil_iff]
  intro c hc
  simp [isBrace_of_isWordChar (h c hc)]

theorem isWordChar_of_mem_toDigits {base : Nat} (hlow : 1 < base) (hhigh : base ≤ 16) {n : Nat} {c : Char}
    (h : c ∈ Nat.toDigits base n) : isWordChar c = true := by
  obtain ⟨digit, hdigit, rfl⟩ := exists_digitChar_of_mem_toDigits hlow h
  have hall : ∀ i : Fin 16, isWordChar i.val.digitChar = true := by decide
  exact hall ⟨digit, Nat.lt_of_lt_of_le hdigit hhigh⟩

theorem isWordChar_of_mem_digits {base : Nat} (hlow : 1 < base) (hhigh : base ≤ 16) {width n : Nat} {c : Char}
    (h : c ∈ Text.digits base width n) : isWordChar c = true := by
  rw [Text.digits, List.mem_append] at h
  rcases h with hzero | hdigit
  · obtain rfl := (List.mem_replicate.1 hzero).2
    rfl
  · exact isWordChar_of_mem_toDigits hlow hhigh hdigit

/-! ### Names -/

theorem isWordChar_of_mem_mangleChar {c d : Char} (h : d ∈ mangleChar c) : isWordChar d = true := by
  unfold mangleChar at h
  split at h
  · next hc =>
      obtain rfl := List.mem_singleton.1 h
      simp [isWordChar, hc]
  · rcases List.mem_append.1 h with hcode | hlast
    · rcases List.mem_cons.1 hcode with rfl | hdigit
      · rfl
      · exact isWordChar_of_mem_digits (by decide) (by decide) hdigit
    · obtain rfl := List.mem_singleton.1 hlast
      rfl

namespace Var

theorem isWordChar_of_mem_text (v : Var) {c : Char} (h : c ∈ v.text.toList) : isWordChar c = true := by
  rw [toList_text, List.mem_append, List.mem_append] at h
  rcases h with hmark | hname | hsuffix
  · have hall : "lai_v_".toList.all isWordChar = true := by decide
    exact List.all_eq_true.1 hall c hmark
  · obtain ⟨d, _, hd⟩ := List.mem_flatMap.1 hname
    exact isWordChar_of_mem_mangleChar hd
  · unfold suffix at hsuffix
    split at hsuffix
    · exact absurd hsuffix List.not_mem_nil
    · rcases List.mem_cons.1 hsuffix with rfl | hdigit
      · rfl
      · exact isWordChar_of_mem_toDigits (by decide) (by decide) hdigit

theorem reads (v : Var) : Reads .code .code v.text.toList v.text.toList :=
  .word fun _ hc => v.isWordChar_of_mem_text hc

theorem take_text (v : Var) : v.text.toList.take 6 = "lai_v_".toList := by
  rw [toList_text]
  rfl

theorem words_text (v : Var) : words v.text.toList = [v.text] := by
  have hne : v.text.toList ≠ [] := by
    rw [toList_text]
    simp
  rw [words_of_all hne fun c hc => v.isWordChar_of_mem_text hc, String.ofList_toList]

theorem text_notMem_reservedWords (v : Var) : v.text ∉ reservedWords := by
  intro h
  have hall : ∀ word ∈ reservedWords, word.toList.take 6 ≠ "lai_v_".toList := by decide
  exact hall v.text h v.take_text

@[simp] theorem isName_text (v : Var) : isName v.text = true := by
  have hhead : v.text.toList.head? = some 'l' := by
    rw [toList_text]
    rfl
  simp [isName, v.text_notMem_reservedWords, hhead]

end Var

/-! ### Literals -/

theorem isWordChar_of_mem_repr {n : Nat} {c : Char} (h : c ∈ n.repr.toList) : isWordChar c = true := by
  rw [Nat.toList_repr] at h
  exact isWordChar_of_mem_toDigits (by decide) (by decide) h

theorem words_repr (n : Nat) : words n.repr.toList = [n.repr] := by
  have hne : n.repr.toList ≠ [] := by
    rw [Nat.toList_repr]
    exact Nat.toDigits_ne_nil
  rw [words_of_all hne fun c hc => isWordChar_of_mem_repr hc, String.ofList_toList]

theorem isName_repr (n : Nat) : isName n.repr = false := by
  have hdigits (c : Char) (hc : c ∈ Nat.toDigits 10 n) : c.isDigit = true :=
    Nat.isDigit_of_mem_toDigits (by decide) (by decide) hc
  obtain ⟨first, rest, heq⟩ := List.exists_cons_of_ne_nil (Nat.toDigits_ne_nil (b := 10) (n := n))
  simp [isName, Nat.toList_repr, heq, hdigits first (by simp [heq])]

/-- The backslash takes in the first digit, and the others stand for themselves. -/
theorem reads_octal (n : Nat) : Reads .string .string ('\\' :: Text.digits 8 3 n) [] := by
  have hne : Text.digits 8 3 n ≠ [] := by simp [Text.digits]
  obtain ⟨first, rest, heq⟩ := List.exists_cons_of_ne_nil hne
  have hdigits (c : Char) (hc : c ∈ first :: rest) : c ≠ '"' ∧ c ≠ '\\' ∧ c ≠ '\n' := by
    have hword := isWordChar_of_mem_digits (by decide) (by decide) (heq ▸ hc)
    exact ⟨ne_of_isWordChar hword (by decide), ne_of_isWordChar hword (by decide), ne_of_isWordChar hword (by decide)⟩
  have hescape : Reads .string .string ['\\', first] [] :=
    ⟨rfl, rfl, by simp [Ne.symm (hdigits first List.mem_cons_self).2.2]⟩
  rw [heq]
  exact hescape.append (.quoted rest fun c hc => hdigits c (List.mem_cons_of_mem first hc))

theorem reads_literalChar (c : Char) : Reads .string .string (literalChar c) [] := by
  unfold literalChar
  split
  · exact ⟨rfl, rfl, by decide⟩
  split
  · exact ⟨rfl, rfl, by decide⟩
  split
  · exact ⟨rfl, rfl, by decide⟩
  split
  · exact ⟨rfl, rfl, by decide⟩
  split
  · exact ⟨rfl, rfl, by decide⟩
  split
  · exact reads_octal c.toNat
  · next hescape hquote hbreak _ _ _ => exact .quoted [c] (by simp [hescape, hquote, hbreak])

theorem reads_stringLiteral (s : String) : Reads .code .code (stringLiteral s).toList "\"".toList := by
  have hopen : Reads .code .string ['"'] "\"".toList := ⟨rfl, rfl, by decide⟩
  have hclose : Reads .string .code ['"'] [] := ⟨rfl, rfl, by decide⟩
  rw [stringLiteral, String.toList_ofList]
  exact (hopen.append (.flatMap reads_literalChar s.toList)).append hclose

/-! ### Expressions -/

namespace Expr

/-- The code of an expression: its text without the inside and the end of literals. -/
def code : Expr → String
  | .int value => Text.decimal value.toInt
  | .string _ => "\""
  | .var v => v.text
  | .math op left right => "(" ++ left.code ++ " " ++ op.text ++ " " ++ right.code ++ ")"
  | .concat left right => "lai_rt_concat(" ++ left.code ++ ", " ++ right.code ++ ")"

section

variable (op : MathOp) (left right : Expr) (value : String)

theorem code_string : (string value).code = "\"" := rfl

theorem code_math : (math op left right).code = "(" ++ left.code ++ " " ++ op.text ++ " " ++ right.code ++ ")" := rfl

theorem code_concat : (concat left right).code = "lai_rt_concat(" ++ left.code ++ ", " ++ right.code ++ ")" := rfl

end

def vars : Expr → List Var
  | .int _ => []
  | .string _ => []
  | .var v => [v]
  | .math _ left right => left.vars ++ right.vars
  | .concat left right => left.vars ++ right.vars

theorem reads_decimal (n : Int) : Reads .code .code (Text.decimal n).toList (Text.decimal n).toList := by
  cases n with
  | ofNat n => exact .word fun c hc => isWordChar_of_mem_repr hc
  | negSucc n =>
      rw [Text.decimal, String.toList_append]
      exact (Reads.plain "-".toList (by decide)).append (.word fun c hc => isWordChar_of_mem_repr hc)

theorem filter_isBrace_decimal (n : Int) : (Text.decimal n).toList.filter isBrace = [] := by
  cases n with
  | ofNat n => exact filter_isBrace_word fun c hc => isWordChar_of_mem_repr hc
  | negSucc n =>
      rw [Text.decimal, String.toList_append, List.filter_append,
        filter_isBrace_word fun c hc => isWordChar_of_mem_repr hc]
      rfl

theorem names_decimal (n : Int) : (words (Text.decimal n).toList).filter isName = [] := by
  cases n with
  | ofNat n =>
      rw [Text.decimal, words_repr, List.filter_cons, isName_repr]
      rfl
  | negSucc n =>
      rw [Text.decimal, String.toList_append, words_append_of_getLast? _ _ (by decide), words_repr, List.filter_append,
        List.filter_cons, isName_repr]
      rfl

/-- A slash that is an operator does not open a comment, because a blank follows it. -/
theorem reads_operator (op : MathOp) : ∃ mode,
    Reads .code mode op.text.toList op.text.toList ∧ Reads mode .code " ".toList " ".toList := by
  refine ⟨scan .code op.text.toList, ?_⟩
  cases op <;> exact ⟨⟨rfl, rfl, by decide⟩, ⟨rfl, rfl, by decide⟩⟩

theorem reads : (e : Expr) → Reads .code .code e.text.toList e.code.toList
  | .int value => reads_decimal value.toInt
  | .string value => reads_stringLiteral value
  | .var v => v.reads
  | .math op left right => by
      obtain ⟨_, hop, hblank⟩ := reads_operator op
      have hleft := ((Reads.plain "(".toList (by decide)).concat left.reads).concat (.plain " ".toList (by decide))
      exact (((hleft.concat hop).concat hblank).concat right.reads).concat (.plain ")".toList (by decide))
  | .concat left right =>
      have hleft := (Reads.plain "lai_rt_concat(".toList (by decide)).concat left.reads
      ((hleft.concat (.plain ", ".toList (by decide))).concat right.reads).concat (.plain ")".toList (by decide))

theorem filter_isBrace_code (e : Expr) : e.code.toList.filter isBrace = [] := by
  induction e with
  | int value => exact filter_isBrace_decimal value.toInt
  | string value => simp [code_string, isBrace]
  | var v => exact filter_isBrace_word fun c hc => v.isWordChar_of_mem_text hc
  | math op left right ihleft ihright =>
      have hop : op.text.toList.filter isBrace = [] := by cases op <;> rfl
      simp [code_math, ihleft, ihright, hop, isBrace]
  | concat left right ihleft ihright => simp [code_concat, ihleft, ihright, isBrace]

theorem names_code (e : Expr) : (words e.code.toList).filter isName = e.vars.map Var.text := by
  induction e with
  | int value => exact names_decimal value.toInt
  | string value =>
      rw [code_string, vars]
      decide
  | var v =>
      have hwords : words (var v).code.toList = [v.text] := v.words_text
      simp [hwords, vars]
  | math op left right ihleft ihright =>
      have hop : words op.text.toList = [] := by cases op <;> decide
      simp (disch := decide) only [code_math, String.toList_append, List.append_assoc, words_append_of_getLast?,
        words_append_append, words_append_of_head?, words_marks, hop, List.nil_append, List.append_nil,
        List.filter_append, ihleft, ihright, vars, List.map_append]
  | concat left right ihleft ihright =>
      have hcall : (words "lai_rt_concat(".toList).filter isName = [] := by decide
      simp (disch := decide) only [code_concat, String.toList_append, List.append_assoc, words_append_of_getLast?,
        words_append_append, words_append_of_head?, words_marks, hcall, List.nil_append, List.append_nil,
        List.filter_append, ihleft, ihright, vars, List.map_append]

end Expr

/-! ### Tests -/

namespace Test

def code (t : Test) : String :=
  match t.type with
  | .int => t.left.code ++ " " ++ t.op.text ++ " " ++ t.right.code
  | .string => "strcmp(" ++ t.left.code ++ ", " ++ t.right.code ++ ") " ++ t.op.text ++ " 0"

def vars (t : Test) : List Var :=
  t.left.vars ++ t.right.vars

theorem reads_operator (op : CompareOp) : Reads .code .code op.text.toList op.text.toList := by
  cases op <;> exact ⟨rfl, rfl, by decide⟩

theorem reads (t : Test) : Reads .code .code t.text.toList t.code.toList := by
  obtain ⟨type, op, left, right⟩ := t
  cases type with
  | int =>
      have hleft := left.reads.concat (.plain " ".toList (by decide))
      exact ((hleft.concat (reads_operator op)).concat (.plain " ".toList (by decide))).concat right.reads
  | string =>
      have hleft := (Reads.plain "strcmp(".toList (by decide)).concat left.reads
      have hcall := ((hleft.concat (.plain ", ".toList (by decide))).concat right.reads).concat
        (.plain ") ".toList (by decide))
      exact (hcall.concat (reads_operator op)).concat (.plain " 0".toList (by decide))

theorem filter_isBrace_code (t : Test) : t.code.toList.filter isBrace = [] := by
  obtain ⟨type, op, left, right⟩ := t
  have hop : op.text.toList.filter isBrace = [] := by cases op <;> rfl
  cases type <;> simp [code, Expr.filter_isBrace_code, hop, isBrace]

theorem names_code (t : Test) : (words t.code.toList).filter isName = t.vars.map Var.text := by
  obtain ⟨type, op, left, right⟩ := t
  have hop : words op.text.toList = [] := by cases op <;> decide
  cases type with
  | int =>
      simp (disch := decide) only [code, String.toList_append, List.append_assoc, words_append_append, words_marks, hop,
        List.nil_append, List.filter_append, Expr.names_code, vars, List.map_append]
  | string =>
      have hcall : (words "strcmp(".toList).filter isName = [] := by decide
      have hzero : (words " 0".toList).filter isName = [] := by decide
      simp (disch := decide) only [code, String.toList_append, List.append_assoc, words_append_of_getLast?,
        words_append_append, words_append_of_head?, words_marks, hop, hcall, hzero, List.nil_append, List.append_nil,
        List.filter_append, Expr.names_code, vars, List.map_append]

end Test

/-! ### Lines -/

def CType.words : CType → List String
  | .int => ["int"]
  | .string => ["const", "char"]

theorem splitDeclared_of_types (types : List String) (hne : types ≠ []) (htypes : ∀ word ∈ types, word ∈ typeWords)
    {name : String} (hname : name ∉ typeWords) (rest : List String) :
    splitDeclared (types ++ name :: rest) = (some name, rest) := by
  obtain ⟨first, types, rfl⟩ := List.exists_cons_of_ne_nil hne
  have hmore (word : String) (hword : word ∈ types) : decide (word ∈ typeWords) = true := by
    simpa using htypes word (List.mem_cons_of_mem first hword)
  rw [List.cons_append, splitDeclared, if_pos (htypes first List.mem_cons_self), List.dropWhile_append_of_pos hmore,
    List.dropWhile_cons_of_neg (by simpa using hname)]

theorem splitDeclared_of_notMem {first : String} (hfirst : first ∉ typeWords) (rest : List String) :
    splitDeclared (first :: rest) = (none, first :: rest) := by
  rw [splitDeclared, if_neg hfirst]

/-- A line that begins with a reserved word, not one for a type, uses what the words behind it name. -/
theorem Reading.ofCode_of_reserved {code : List Char} {first : String} {front rest : List String}
    (hwords : words code = first :: (front ++ rest)) (hfirst : first ∉ typeWords)
    (hfront : (first :: front).filter isName = []) :
    Reading.ofCode code = ⟨code.filter isBrace, none, rest.filter isName⟩ := by
  rw [ofCode, hwords, splitDeclared_of_notMem hfirst, ← List.cons_append, List.filter_append, hfront, List.nil_append]

theorem Var.text_notMem_typeWords (v : Var) : v.text ∉ typeWords :=
  fun h => v.text_notMem_reservedWords (List.mem_append_left _ h)

namespace Line

def code : Line → String
  | .declare .int v value => "int " ++ v.text ++ " = " ++ value.code ++ ";"
  | .declare .string v value => "const char *" ++ v.text ++ " = " ++ value.code ++ ";"
  | .assign v value => v.text ++ " = " ++ value.code ++ ";"
  | .print _ value => "printf(\", " ++ value.code ++ ");"
  | .openIf test => "if (" ++ test.code ++ ") \x7b"
  | .openElseIf test => "\x7d else if (" ++ test.code ++ ") \x7b"
  | .openElse => "\x7d else \x7b"
  | .openBlock => "\x7b"
  | .close => "\x7d"

section

variable (type : CType) (v : Var) (value : Expr) (test : Test)

theorem code_declare_int : (declare .int v value).code = "int " ++ v.text ++ " = " ++ value.code ++ ";" := rfl

theorem code_declare_string :
    (declare .string v value).code = "const char *" ++ v.text ++ " = " ++ value.code ++ ";" := rfl

theorem code_assign : (assign v value).code = v.text ++ " = " ++ value.code ++ ";" := rfl

theorem code_print : (print type value).code = "printf(\", " ++ value.code ++ ");" := rfl

theorem code_openIf : (openIf test).code = "if (" ++ test.code ++ ") \x7b" := rfl

theorem code_openElseIf : (openElseIf test).code = "\x7d else if (" ++ test.code ++ ") \x7b" := rfl

end

/-- What a line says about blocks and variables. -/
def reading : Line → Reading Var
  | .declare _ v value => ⟨[], some v, value.vars⟩
  | .assign v value => ⟨[], none, v :: value.vars⟩
  | .print _ value => ⟨[], none, value.vars⟩
  | .openIf test => ⟨['{'], none, test.vars⟩
  | .openElseIf test => ⟨['}', '{'], none, test.vars⟩
  | .openElse => ⟨['}', '{'], none, []⟩
  | .openBlock => ⟨['{'], none, []⟩
  | .close => ⟨['}'], none, []⟩

theorem reads : (line : Line) → Reads .code .code line.text.toList line.code.toList
  | .declare .int v value =>
      (((Reads.plain "int ".toList (by decide)).concat v.reads).concat (.plain " = ".toList (by decide))).concat
        value.reads |>.concat (.plain ";".toList (by decide))
  | .declare .string v value =>
      (((Reads.plain "const char *".toList (by decide)).concat v.reads).concat (.plain " = ".toList (by decide))).concat
        value.reads |>.concat (.plain ";".toList (by decide))
  | .assign v value =>
      (v.reads.concat (.plain " = ".toList (by decide))).concat value.reads |>.concat (.plain ";".toList (by decide))
  | .print .int value =>
      have hcall : Reads .code .code "printf(\"%d\\n\", ".toList "printf(\", ".toList := ⟨rfl, rfl, by decide⟩
      (hcall.concat value.reads).concat (.plain ");".toList (by decide))
  | .print .string value =>
      have hcall : Reads .code .code "printf(\"%s\\n\", ".toList "printf(\", ".toList := ⟨rfl, rfl, by decide⟩
      (hcall.concat value.reads).concat (.plain ");".toList (by decide))
  | .openIf test =>
      ((Reads.plain "if (".toList (by decide)).concat test.reads).concat (.plain ") \x7b".toList (by decide))
  | .openElseIf test =>
      ((Reads.plain "\x7d else if (".toList (by decide)).concat test.reads).concat (.plain ") \x7b".toList (by decide))
  | .openElse => .plain "\x7d else \x7b".toList (by decide)
  | .openBlock => .plain "\x7b".toList (by decide)
  | .close => .plain "\x7d".toList (by decide)

theorem filter_isBrace_code (line : Line) : line.code.toList.filter isBrace = line.reading.braces := by
  have hname (v : Var) : v.text.toList.filter isBrace = [] :=
    filter_isBrace_word fun c hc => v.isWordChar_of_mem_text hc
  cases line with
  | declare type v value =>
      cases type with
      | int => simp [code_declare_int, reading, hname, Expr.filter_isBrace_code, isBrace]
      | string => simp [code_declare_string, reading, hname, Expr.filter_isBrace_code, isBrace]
  | assign v value => simp [code_assign, reading, hname, Expr.filter_isBrace_code, isBrace]
  | print type value => simp [code_print, reading, Expr.filter_isBrace_code, isBrace]
  | openIf test => simp [code_openIf, reading, Test.filter_isBrace_code, isBrace]
  | openElseIf test => simp [code_openElseIf, reading, Test.filter_isBrace_code, isBrace]
  | openElse => rfl
  | openBlock => rfl
  | close => rfl

theorem words_assign (v : Var) (value : Expr) :
    words (Line.assign v value).code.toList = v.text :: words value.code.toList := by
  simp (disch := decide) only [code_assign, String.toList_append, List.append_assoc, words_append_append,
    words_append_of_head?, words_marks, v.words_text, List.nil_append, List.append_nil, List.singleton_append]

theorem words_declare (type : CType) (v : Var) (value : Expr) :
    words (Line.declare type v value).code.toList = type.words ++ v.text :: words value.code.toList := by
  rw [← words_assign]
  cases type with
  | int =>
      have hcode : (Line.declare .int v value).code.toList = "int ".toList ++ (Line.assign v value).code.toList := by
        simp [code_declare_int, code_assign]
      have htype : words "int ".toList = CType.int.words := by decide
      rw [hcode, words_append_of_getLast? _ _ (by decide), htype]
  | string =>
      have hcode : (Line.declare .string v value).code.toList =
          "const char *".toList ++ (Line.assign v value).code.toList := by
        simp [code_declare_string, code_assign]
      have htype : words "const char *".toList = CType.string.words := by decide
      rw [hcode, words_append_of_getLast? _ _ (by decide), htype]

/-- What the code of a line shows is what the line says. -/
theorem ofCode_code (line : Line) : Reading.ofCode line.code.toList = line.reading.map Var.text := by
  have hbraces := line.filter_isBrace_code
  cases line with
  | declare type v value =>
      have hsplit := splitDeclared_of_types type.words (by cases type <;> decide) (by cases type <;> decide)
        v.text_notMem_typeWords (words value.code.toList)
      rw [Reading.ofCode, words_declare, hsplit, value.names_code, hbraces]
      rfl
  | assign v value =>
      rw [Reading.ofCode, words_assign, splitDeclared_of_notMem v.text_notMem_typeWords, List.filter_cons,
        v.isName_text, if_pos rfl, value.names_code, hbraces]
      rfl
  | print type value =>
      have hcall : words "printf(\", ".toList = ["printf"] := by decide
      have hwords : words (Line.print type value).code.toList = "printf" :: ([] ++ words value.code.toList) := by
        rw [code_print, words_enclosed (by decide) (by decide), hcall]
        rfl
      rw [Reading.ofCode_of_reserved hwords (by decide) (by decide), value.names_code, hbraces]
      rfl
  | openIf test =>
      have hopen : words "if (".toList = ["if"] := by decide
      have hwords : words (Line.openIf test).code.toList = "if" :: ([] ++ words test.code.toList) := by
        rw [code_openIf, words_enclosed (by decide) (by decide), hopen]
        rfl
      rw [Reading.ofCode_of_reserved hwords (by decide) (by decide), test.names_code, hbraces]
      rfl
  | openElseIf test =>
      have hopen : words "\x7d else if (".toList = ["else", "if"] := by decide
      have hwords : words (Line.openElseIf test).code.toList = "else" :: (["if"] ++ words test.code.toList) := by
        rw [code_openElseIf, words_enclosed (by decide) (by decide), hopen]
        rfl
      rw [Reading.ofCode_of_reserved hwords (by decide) (by decide), test.names_code, hbraces]
      rfl
  | openElse => decide
  | openBlock => decide
  | close => decide

end Line

namespace IndentedLine

variable (l : IndentedLine)

def code : String :=
  String.ofList (List.replicate l.depth '\t') ++ l.line.code

theorem reads : Reads .code .code l.text.toList l.code.toList := by
  have hplain : (List.replicate l.depth '\t').all isPlain = true := by
    rw [List.all_replicate]
    simp [isPlain]
  have htabs := Reads.plain (List.replicate l.depth '\t') hplain
  simpa [text, code] using htabs.append l.line.reads

theorem filter_isBrace_code : l.code.toList.filter isBrace = l.line.reading.braces := by
  rw [← Line.filter_isBrace_code]
  simp [code, isBrace]

theorem ofText_text : Reading.ofText l.text = l.line.reading.map Var.text := by
  have htab : isWordChar '\t' = false := by decide
  have hwords : words l.code.toList = words l.line.code.toList := by
    rw [code, String.toList_append, String.toList_ofList, words_replicate_append l.depth htab]
  rw [Reading.ofText, l.reads.codeOf_eq, ← Line.ofCode_code, Reading.ofCode, Reading.ofCode, l.filter_isBrace_code,
    l.line.filter_isBrace_code, hwords]

end IndentedLine

end Lai.C
