/-!
# Scanning C

A C text is read character by character as code, as a comment of either kind or as a string literal with
escapes. What counts as code are the characters that are read outside of comments and literals; of a
literal these are its opening quote alone. Code falls into words and the marks between them. The text is
taken as it stands: lines that end with a backslash have been joined before, if at all, and a quotation
mark other than the double one is a mark like any other.
-/

namespace Lai.C

/-! ### Joined lines -/

section

variable {α : Type} [DecidableEq α] {escape lineBreak : α}

/-- Joins every line that ends with the escape to the next one. -/
def joinAt (escape lineBreak : α) : List α → List α
  | first :: second :: rest =>
    if first = escape ∧ second = lineBreak then joinAt escape lineBreak rest
    else first :: joinAt escape lineBreak (second :: rest)
  | text => text

theorem joinAt_eq_self {text : List α} (h : lineBreak ∉ text) : joinAt escape lineBreak text = text := by
  fun_induction joinAt escape lineBreak text with
  | case1 first second rest hpair => simp [hpair.2] at h
  | case2 first second rest _ ih => rw [ih fun hmem => h (List.mem_cons_of_mem _ hmem)]
  | case3 => rfl

theorem joinAt_cons {c : α} (hc : c ≠ escape) (rest : List α) :
    joinAt escape lineBreak (c :: rest) = c :: joinAt escape lineBreak rest := by
  cases rest with
  | nil => rfl
  | cons next rest => rw [joinAt, if_neg fun hpair => hc hpair.1]

theorem joinAt_append {front : List α} (h : escape ∉ front) (rest : List α) :
    joinAt escape lineBreak (front ++ rest) = front ++ joinAt escape lineBreak rest := by
  induction front with
  | nil => rfl
  | cons c front ih =>
      rw [List.mem_cons, not_or] at h
      rw [List.cons_append, joinAt_cons (Ne.symm h.1), ih h.2, List.cons_append]

/-- A text can be joined in parts if the second part does not begin with a line break. -/
theorem joinAt_append_cons (front : List α) {c : α} (hc : c ≠ lineBreak) (rest : List α) :
    joinAt escape lineBreak (front ++ c :: rest) = joinAt escape lineBreak front ++ joinAt escape lineBreak (c :: rest) := by
  fun_induction joinAt escape lineBreak front with
  | case1 first second front hpair ih => rw [List.cons_append, List.cons_append, joinAt, if_pos hpair, ih]
  | case2 first second front hpair ih =>
      rw [List.cons_append, List.cons_append, joinAt, if_neg hpair, ← List.cons_append, ih, List.cons_append]
  | case3 front hshort =>
      match front, hshort with
      | [], _ => rfl
      | [first], _ => rw [List.singleton_append, joinAt, if_neg fun hpair => hc hpair.2, List.singleton_append]
      | first :: second :: rest, hshort => exact absurd rfl (hshort first second rest)

/-- A line that does not end with the escape is left alone. -/
theorem joinAt_line {line : List α} (hescape : lineBreak ≠ escape) (hline : lineBreak ∉ line)
    (hlast : line.getLast? ≠ some escape) (rest : List α) :
    joinAt escape lineBreak (line ++ lineBreak :: rest) = line ++ lineBreak :: joinAt escape lineBreak rest := by
  induction line with
  | nil => exact joinAt_cons hescape rest
  | cons c line ih =>
      cases line with
      | nil =>
          have hc : c ≠ escape := by simpa using hlast
          rw [List.singleton_append, joinAt_cons hc, joinAt_cons hescape, List.singleton_append]
      | cons next line =>
          have hnext : next ≠ lineBreak := fun heq => hline (by simp [heq])
          rw [List.cons_append, List.cons_append, joinAt, if_neg fun hpair => hnext hpair.2, ← List.cons_append,
            ih (fun hmem => hline (List.mem_cons_of_mem c hmem)) (by simpa using hlast)]
          rfl

end

/-- The text as it is scanned once lines are joined. -/
def joinLines : List Char → List Char :=
  joinAt '\\' '\n'

/-! ### Modes -/

/-- What is being read. Behind a slash in code, behind an asterisk in a block comment and behind a
backslash in a literal the next character decides how reading goes on. -/
inductive Mode where
  | code
  | slash
  | blockComment
  | asterisk
  | lineComment
  | string
  | escape
  deriving DecidableEq, Repr

namespace Mode

/-- Whether the next character is read as code. -/
def isCode : Mode → Bool
  | .code | .slash => true
  | _ => false

/-- Whether the next character belongs to a block comment. -/
def isBlockComment : Mode → Bool
  | .blockComment | .asterisk => true
  | _ => false

def next (mode : Mode) (c : Char) : Mode :=
  match mode with
  | .code => if c = '/' then .slash else if c = '"' then .string else .code
  | .slash =>
    if c = '/' then .lineComment else if c = '*' then .blockComment else if c = '"' then .string else .code
  | .blockComment => if c = '*' then .asterisk else .blockComment
  | .asterisk => if c = '/' then .code else if c = '*' then .asterisk else .blockComment
  | .lineComment => if c = '\n' then .code else .lineComment
  | .string => if c = '"' then .code else if c = '\\' then .escape else .string
  | .escape => .string

end Mode

def scan (mode : Mode) (text : List Char) : Mode :=
  text.foldl Mode.next mode

/-- The characters of the text that are read as code. -/
def codeOf (mode : Mode) : List Char → List Char
  | [] => []
  | c :: rest => if mode.isCode then c :: codeOf (mode.next c) rest else codeOf (mode.next c) rest

section

variable (mode : Mode) (front rest : List Char)

@[simp] theorem scan_nil : scan mode [] = mode := rfl

@[simp] theorem scan_cons (c : Char) : scan mode (c :: rest) = scan (mode.next c) rest := rfl

@[simp] theorem scan_append : scan mode (front ++ rest) = scan (scan mode front) rest :=
  List.foldl_append

@[simp] theorem codeOf_nil : codeOf mode [] = [] := rfl

@[simp] theorem codeOf_append : codeOf mode (front ++ rest) = codeOf mode front ++ codeOf (scan mode front) rest := by
  induction front generalizing mode with
  | nil => rfl
  | cons c front ih =>
      simp only [List.cons_append, codeOf, ih, scan_cons]
      split <;> rfl

end

/-! ### Text that stays on its line -/

/-- Whether the character is code by itself and does not end the line. -/
def isPlain (c : Char) : Bool :=
  c != '/' && c != '"' && c != '\n'

/-- Reading the text, which has no line break, leads from one mode to another and finds this code. -/
structure Reads (before after : Mode) (text code : List Char) : Prop where
  scan_eq : scan before text = after
  codeOf_eq : codeOf before text = code
  oneLine : '\n' ∉ text

namespace Reads

variable {before middle after : Mode} {front rest code more : List Char}

theorem append (h : Reads before middle front code) (h' : Reads middle after rest more) :
    Reads before after (front ++ rest) (code ++ more) where
  scan_eq := by rw [scan_append, h.scan_eq, h'.scan_eq]
  codeOf_eq := by rw [codeOf_append, h.codeOf_eq, h.scan_eq, h'.codeOf_eq]
  oneLine := by
    rw [List.mem_append, not_or]
    exact ⟨h.oneLine, h'.oneLine⟩

theorem concat {front rest code more : String} (h : Reads before middle front.toList code.toList)
    (h' : Reads middle after rest.toList more.toList) : Reads before after (front ++ rest).toList (code ++ more).toList := by
  rw [String.toList_append, String.toList_append]
  exact h.append h'

theorem flatMap {f : Char → List Char} (h : ∀ c, Reads before before (f c) []) (text : List Char) :
    Reads before before (text.flatMap f) [] := by
  induction text with
  | nil => exact ⟨rfl, rfl, List.not_mem_nil⟩
  | cons c rest ih => exact (h c).append ih

/-- Characters that leave the mode as it is. -/
theorem steady {mode : Mode} (text : List Char) (h : ∀ c ∈ text, mode.next c = mode ∧ c ≠ '\n') :
    Reads mode mode text (if mode.isCode then text else []) := by
  induction text with
  | nil => exact ⟨rfl, by simp, List.not_mem_nil⟩
  | cons c rest ih =>
      obtain ⟨hnext, hbreak⟩ := h c List.mem_cons_self
      obtain ⟨hscan, hcode, honeLine⟩ := ih fun d hd => h d (List.mem_cons_of_mem c hd)
      refine ⟨by rw [scan_cons, hnext, hscan], ?_, ?_⟩
      · rw [codeOf, hnext, hcode]
        split <;> rfl
      · rw [List.mem_cons, not_or]
        exact ⟨Ne.symm hbreak, honeLine⟩

theorem plain (text : List Char) (h : text.all isPlain = true) : Reads .code .code text text := by
  refine steady text fun c hc => ?_
  obtain ⟨⟨hslash, hquote⟩, hbreak⟩ : (c ≠ '/' ∧ c ≠ '"') ∧ c ≠ '\n' := by
    simpa [isPlain] using List.all_eq_true.1 h c hc
  exact ⟨by simp [Mode.next, hslash, hquote], hbreak⟩

theorem quoted (text : List Char) (h : ∀ c ∈ text, c ≠ '"' ∧ c ≠ '\\' ∧ c ≠ '\n') : Reads .string .string text [] := by
  refine steady text fun c hc => ?_
  obtain ⟨hquote, hescape, hbreak⟩ := h c hc
  exact ⟨by simp [Mode.next, hquote, hescape], hbreak⟩

end Reads

/-! ### Words -/

def isWordChar (c : Char) : Bool :=
  c.isAlphanum || c == '_'

/-- The words of code: runs of letters, digits and underscores with other characters around them. -/
def words (code : List Char) : List String :=
  ((code.splitOnP fun c => !isWordChar c).filter (· ≠ [])).map String.ofList

@[simp] theorem words_nil : words [] = [] := by
  simp [words]

theorem words_append_cons (front rest : List Char) {c : Char} (hc : isWordChar c = false) :
    words (front ++ c :: rest) = words front ++ words rest := by
  rw [words, List.splitOnP_append_cons front rest (by rw [hc, Bool.not_false]), List.filter_append, List.map_append]
  rfl

theorem words_cons {c : Char} (hc : isWordChar c = false) (rest : List Char) : words (c :: rest) = words rest := by
  simpa using words_append_cons [] rest hc

theorem words_of_all {code : List Char} (hne : code ≠ []) (hall : ∀ c ∈ code, isWordChar c = true) :
    words code = [String.ofList code] := by
  have hsplit : code.splitOnP (fun c => !isWordChar c) = [code] :=
    List.splitOnP_eq_singleton fun c hc => by rw [hall c hc, Bool.not_true]
  simp [words, hsplit, hne]

theorem words_marks {text : List Char} (h : (text.all fun c => !isWordChar c) = true) : words text = [] := by
  induction text with
  | nil => exact words_nil
  | cons c rest ih =>
      rw [List.all_cons, Bool.and_eq_true, Bool.not_eq_true'] at h
      rw [words_cons h.1, ih h.2]

/-- Words end where a text ends with a mark. -/
theorem words_append_of_getLast? (front rest : List Char) (h : (front.getLast?.any fun c => !isWordChar c) = true) :
    words (front ++ rest) = words front ++ words rest := by
  rcases List.eq_nil_or_concat front with rfl | ⟨front, c, rfl⟩
  · simp at h
  · have hc : isWordChar c = false := by simpa using h
    rw [List.concat_eq_append, List.append_assoc, List.singleton_append, words_append_cons front rest hc,
      words_append_cons front [] hc, words_nil, List.append_nil]

theorem words_append_of_head? (front rest : List Char) (h : (rest.head?.any fun c => !isWordChar c) = true) :
    words (front ++ rest) = words front ++ words rest := by
  cases rest with
  | nil => simp at h
  | cons c rest =>
      have hc : isWordChar c = false := by simpa using h
      rw [words_append_cons front rest hc, words_cons hc]

theorem words_append_append (front middle rest : List Char) (hhead : (middle.head?.any fun c => !isWordChar c) = true)
    (hlast : (middle.getLast?.any fun c => !isWordChar c) = true) :
    words (front ++ (middle ++ rest)) = words front ++ (words middle ++ words rest) := by
  have hbreak : ((middle ++ rest).head?.any fun c => !isWordChar c) = true := by
    cases middle with
    | nil => simp at hhead
    | cons c middle => exact hhead
  rw [words_append_of_head? front (middle ++ rest) hbreak, words_append_of_getLast? middle rest hlast]

theorem words_append_marks (text : List Char) {marks : List Char} (h : (marks.all fun c => !isWordChar c) = true) :
    words (text ++ marks) = words text := by
  cases marks with
  | nil => rw [List.append_nil]
  | cons c rest =>
      rw [words_append_of_head? text (c :: rest) (by simp_all), words_marks h, List.append_nil]

theorem words_replicate_append (n : Nat) {c : Char} (hc : isWordChar c = false) (text : List Char) :
    words (List.replicate n c ++ text) = words text := by
  induction n with
  | zero => rfl
  | succ n ih => rw [List.replicate_succ, List.cons_append, words_cons hc, ih]

theorem words_enclosed {front back : String} (hfront : (front.toList.getLast?.any fun c => !isWordChar c) = true)
    (hback : (back.toList.all fun c => !isWordChar c) = true) (text : String) :
    words (front ++ text ++ back).toList = words front.toList ++ words text.toList := by
  rw [String.toList_append, String.toList_append, words_append_marks _ hback, words_append_of_getLast? _ _ hfront]

theorem ne_of_isWordChar {c d : Char} (hc : isWordChar c = true) (hd : isWordChar d = false) : c ≠ d := by
  rintro rfl
  exact Bool.false_ne_true (hd.symm.trans hc)

theorem isPlain_of_isWordChar {c : Char} (hc : isWordChar c = true) : isPlain c = true := by
  have hslash : c ≠ '/' := ne_of_isWordChar hc (by decide)
  have hquote : c ≠ '"' := ne_of_isWordChar hc (by decide)
  have hbreak : c ≠ '\n' := ne_of_isWordChar hc (by decide)
  simp [isPlain, hslash, hquote, hbreak]

theorem Reads.word {text : List Char} (h : ∀ c ∈ text, isWordChar c = true) : Reads .code .code text text :=
  .plain text (List.all_eq_true.2 fun c hc => isPlain_of_isWordChar (h c hc))

end Lai.C
