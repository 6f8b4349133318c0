import Lai.Proofs.C.Writing
/-!
# No text leaves its place

Names and texts of a program stay where they are written, whatever characters they have. The comment with
a file's name is open up to its own closing mark; every line of the file is code from end to end and stays
on its line; and the block around the lines is closed by its own last line. All this is said of the text
as it stands, which is what is scanned unless the name of a file has a backslash at the end of a line:
then lines are joined first, and what is left of the name may close its comment.
-/

namespace Lai.C

/-! ### Parts of a section -/

/-- What stands between the mark that opens the comment of the section and the slash that ends it. -/
def Section.remark (s : Section) : List Char :=
  ' ' :: (commentText s.name.toList ++ [' ', '*'])

def Section.comment (s : Section) : List Char :=
  "\t/*".toList ++ s.remark ++ ['/']

/-- What stands between the comment and the first line. -/
def blockOpening : List Char :=
  "\n\t\x7b\n".toList

def blockClosing : List Char :=
  "\t\x7d\n".toList

def linesText (lines : List IndentedLine) : List Char :=
  lines.flatMap fun l => l.text.toList ++ ['\n']

theorem Section.toList_text (s : Section) :
    s.text.toList = s.comment ++ blockOpening ++ linesText s.lines ++ blockClosing := by
  simp [text, comment, remark, blockOpening, blockClosing, linesText, String.toList_join, List.flatMap_map]

/-- The section stands in the code behind the given text, and nothing in it leaves its place. -/
structure Contained (code front : List Char) (s : Section) : Prop where
  stands : front ++ s.comment ++ blockOpening ++ linesText s.lines ++ blockClosing <+: code
  begins : scan .code front = .code
  remark_open : ∀ part, part <+: s.remark → (scan .code (front ++ "\t/*".toList ++ part)).isBlockComment = true
  comment_closed : scan .code (front ++ s.comment) = .code
  line : ∀ earlier l later, s.lines = earlier ++ l :: later →
    '\n' ∉ l.text.toList ∧
    scan .code (front ++ s.comment ++ blockOpening ++ linesText earlier) = .code ∧
    scan .code (front ++ s.comment ++ blockOpening ++ linesText earlier ++ l.text.toList) = .code
  block_open : ∀ part, part <+: linesText s.lines →
    ∃ depth, nest 0 (codeOf (scan .code (front ++ s.comment)) (blockOpening ++ part)) = some (depth + 1)
  block_closed :
    nest 0 (codeOf (scan .code (front ++ s.comment)) (blockOpening ++ linesText s.lines ++ blockClosing)) = some 0

/-! ### Comments -/

/-- Whatever has been read of the text, it belongs to a block comment. -/
def Remarks (mode : Mode) (text : List Char) : Prop :=
  ∀ part, part <+: text → (scan mode part).isBlockComment = true

theorem Remarks.nil {mode : Mode} (hmode : mode.isBlockComment = true) : Remarks mode [] := by
  intro part hpart
  rwa [List.prefix_nil.1 hpart]

theorem Remarks.cons {mode : Mode} {c : Char} {rest : List Char} (hmode : mode.isBlockComment = true)
    (hrest : Remarks (mode.next c) rest) : Remarks mode (c :: rest) := by
  intro part hpart
  cases part with
  | nil => exact hmode
  | cons d part =>
      obtain ⟨rfl, hmore⟩ := List.cons_prefix_cons.1 hpart
      exact hrest part hmore

theorem Remarks.append {mode : Mode} {front rest : List Char} (h : Remarks mode front)
    (hrest : Remarks (scan mode front) rest) : Remarks mode (front ++ rest) := by
  intro part hpart
  rcases List.prefix_or_prefix_of_prefix hpart (List.prefix_append front rest) with hfront | ⟨more, rfl⟩
  · exact h part hfront
  · rw [scan_append]
    exact hrest more ((List.prefix_append_right_inj front).1 hpart)

/-- An asterisk may stand in front of the name unless it begins with a slash. -/
theorem remarks_commentText (name : List Char) {mode : Mode}
    (hmode : mode = .blockComment ∨ (mode = .asterisk ∧ name.head? ≠ some '/')) : Remarks mode (commentText name) := by
  have hblock : mode.isBlockComment = true := by
    rcases hmode with rfl | ⟨rfl, _⟩ <;> rfl
  fun_induction commentText name generalizing mode with
  | case1 => exact .nil hblock
  | case2 name ih =>
      have hnext : mode.next '*' = .asterisk := by
        rcases hmode with rfl | ⟨rfl, _⟩ <;> rfl
      -- The asterisk, the blank that splits the mark, and the slash, which ends nothing there.
      refine .cons hblock ?_
      rw [hnext]
      exact .cons rfl (.cons rfl (ih (.inl rfl) rfl))
  | case3 c name hmark ih =>
      have hnext : mode.next c = if c = '*' then .asterisk else .blockComment := by
        rcases hmode with rfl | ⟨rfl, hhead⟩
        · rfl
        · have hslash : c ≠ '/' := by simpa using hhead
          simp [Mode.next, hslash]
      refine .cons hblock ?_
      rw [hnext]
      split
      · next hc =>
          refine ih (.inr ⟨rfl, fun hhead => ?_⟩) rfl
          obtain ⟨name, rfl⟩ := List.head?_eq_some_iff.1 hhead
          exact hmark name hc rfl
      · exact ih (.inl rfl) rfl

theorem scan_blank_asterisk {mode : Mode} (hmode : mode.isBlockComment = true) :
    Remarks mode [' ', '*'] ∧ scan mode [' ', '*'] = .asterisk := by
  have hblank : mode.next ' ' = .blockComment := by
    cases mode <;> simp_all [Mode.isBlockComment, Mode.next]
  refine ⟨.cons hmode ?_, ?_⟩
  · rw [hblank]
    exact .cons rfl (.nil rfl)
  · rw [scan_cons, hblank]
    rfl

/-- The comment is open up to its last asterisk. -/
theorem remarks_remark (s : Section) : Remarks .blockComment s.remark ∧ scan .blockComment s.remark = .asterisk := by
  have hname := remarks_commentText s.name.toList (.inl rfl)
  obtain ⟨hend, hscan⟩ := scan_blank_asterisk (hname _ (List.prefix_refl _))
  refine ⟨.cons rfl (hname.append hend), ?_⟩
  rw [Section.remark, scan_cons, scan_append]
  exact hscan

/-! ### Lines -/

theorem scan_flatMap {α : Type} {mode : Mode} {f : α → List Char} {items : List α}
    (h : ∀ a ∈ items, scan mode (f a) = mode) : scan mode (items.flatMap f) = mode := by
  induction items with
  | nil => rfl
  | cons a items ih =>
      rw [List.flatMap_cons, scan_append, h a List.mem_cons_self]
      exact ih fun b hb => h b (List.mem_cons_of_mem a hb)

theorem scan_linesText (lines : List IndentedLine) : scan .code (linesText lines) = .code := by
  refine scan_flatMap fun l _ => ?_
  rw [scan_append, l.reads.scan_eq]
  rfl

/-- The braces that are read as code are those of the lines. -/
theorem filter_isBrace_linesText (lines : List IndentedLine) :
    (codeOf .code (linesText lines)).filter isBrace = (lines.map fun l => l.line.reading).flatMap Reading.braces := by
  induction lines with
  | nil => rfl
  | cons l lines ih =>
      have hbreak : codeOf .code ['\n'] = ['\n'] := rfl
      have hnext : scan .code ['\n'] = .code := rfl
      have hline : linesText (l :: lines) = l.text.toList ++ (['\n'] ++ linesText lines) := by
        simp [linesText]
      rw [hline, codeOf_append, l.reads.scan_eq, l.reads.codeOf_eq, codeOf_append, hnext, hbreak, List.filter_append,
        List.filter_append, ih, l.filter_isBrace_code, List.map_cons, List.flatMap_cons]
      rfl

theorem nest_linesText {file : Tree.File} {s : Section} (h : sectionOf file = .ok s) :
    nest 0 (codeOf .code (linesText s.lines)) = some 0 := by
  obtain ⟨finish, hrun, houter, _⟩ := sectionOf_run h
  have hbraces := hrun.nest_braces
  rw [houter] at hbraces
  rw [← nest_filter, filter_isBrace_linesText]
  exact hbraces

/-! ### Sections and programs -/

theorem scan_comment (s : Section) : scan .code s.comment = .code := by
  have hopen : scan .code "\t/*".toList = .blockComment := rfl
  rw [Section.comment, scan_append, scan_append, hopen, (remarks_remark s).2]
  rfl

theorem scan_blockOpening : scan .code blockOpening = .code := rfl

theorem scan_text (s : Section) : scan .code s.text.toList = .code := by
  rw [s.toList_text, scan_append, scan_append, scan_append, scan_comment, scan_blockOpening, scan_linesText]
  rfl

theorem scan_preamble : scan .code preamble.toList = .code := by
  have hlines : ∀ line ∈ preambleLines, scan .code (line.toList ++ ['\n']) = .code := by decide +kernel
  have htext : preamble.toList = preambleLines.flatMap fun line => line.toList ++ ['\n'] := by
    simp [preamble, String.toList_join, List.flatMap_map]
  rw [htext]
  exact scan_flatMap hlines

/-- The text of a program up to one of its sections. -/
def textBefore (sections : List Section) : List Char :=
  preamble.toList ++ sections.flatMap fun s => s.text.toList

theorem scan_textBefore (sections : List Section) : scan .code (textBefore sections) = .code := by
  rw [textBefore, scan_append, scan_preamble]
  exact scan_flatMap fun s _ => scan_text s

theorem toList_programText (sections : List Section) :
    (programText sections).toList = textBefore sections ++ ending.toList := by
  simp [programText, textBefore, String.toList_join, List.flatMap_map]

theorem contained_of_nest {s : Section} (hnest : nest 0 (codeOf .code (linesText s.lines)) = some 0)
    {code front : List Char} (hstands : front ++ s.text.toList <+: code) (hfront : scan .code front = .code) :
    Contained code front s := by
  have hcomment : scan .code (front ++ s.comment) = .code := by rw [scan_append, hfront, scan_comment]
  have hopening : nest 0 (codeOf .code blockOpening) = some 1 := rfl
  have hlines := nest_add hnest 1
  refine ⟨?_, hfront, fun part hpart => ?_, hcomment, fun earlier l later heq => ?_, fun part hpart => ?_, ?_⟩
  · rw [s.toList_text] at hstands
    simpa using hstands
  · have hopen : scan .code "\t/*".toList = .blockComment := rfl
    rw [scan_append, scan_append, hfront, hopen]
    exact (remarks_remark s).1 part hpart
  · have hbefore : scan .code (front ++ s.comment ++ blockOpening ++ linesText earlier) = .code := by
      rw [scan_append, scan_append, hcomment, scan_blockOpening, scan_linesText]
    refine ⟨l.reads.oneLine, hbefore, ?_⟩
    rw [scan_append, hbefore, l.reads.scan_eq]
  · obtain ⟨rest, hrest⟩ := hpart
    rw [← hrest, codeOf_append, nest_append] at hnest
    obtain ⟨depth, hdepth, _⟩ := Option.bind_eq_some_iff.1 hnest
    refine ⟨depth, ?_⟩
    rw [hcomment, codeOf_append, scan_blockOpening, nest_append, hopening, Option.bind_some]
    exact nest_add hdepth 1
  · rw [hcomment, codeOf_append, codeOf_append, scan_append, scan_blockOpening, scan_linesText, nest_append, nest_append,
      hopening, Option.bind_some, hlines]
    rfl

/-- Reading the compiled text ends in code, and nothing in the section of any file leaves its place. -/
theorem compile_contained {files : List Tree.File} {code : String} (h : compile files = .ok code) :
    scan .code code.toList = .code ∧
    ∃ sections, files.map sectionOf = sections.map .ok ∧ code = programText sections ∧
      ∀ front s back, sections = front ++ s :: back → Contained code.toList (textBefore front) s := by
  obtain ⟨sections, hsections, rfl⟩ := compile_eq_ok_iff.1 h
  refine ⟨?_, sections, hsections, rfl, fun front s back heq => ?_⟩
  · rw [toList_programText, scan_append, scan_textBefore]
    rfl
  · obtain ⟨file, _, hfile⟩ := exists_sectionOf_eq hsections (s := s) (by simp [heq])
    refine contained_of_nest (nest_linesText hfile) ?_ (scan_textBefore front)
    rw [toList_programText, heq, textBefore, textBefore]
    simp

/-- A file whose name closes a comment and opens another, and which gives a variable with a brace in its
name a text of quotes, backslashes, comment marks, braces and a line break. -/
def unruly : Tree.File :=
  ⟨"*/\x7d/*\n",
    [.declare "\x7bä" .string true (some (.string "\\\"*/\x7d\n//\x01?" ⟨0, 7⟩)) ⟨0, 0⟩,
     .print (.var "\x7bä" ⟨.string, true⟩ ⟨1, 6⟩) ⟨1, 0⟩]⟩

def unrulySection : Section :=
  ⟨"*/\x7d/*\n",
    [⟨2, .declare .string ⟨"\x7bä", 1⟩ (.string "\\\"*/\x7d\n//\x01?")⟩,
     ⟨2, .print .string (.var ⟨"\x7bä", 1⟩)⟩]⟩

theorem contained_unruly :
    compile [unruly] = .ok (programText [unrulySection]) ∧
      Contained (programText [unrulySection]).toList (textBefore []) unrulySection := by
  have hcompile : compile [unruly] = .ok (programText [unrulySection]) := rfl
  obtain ⟨_, sections, hsections, _, hcontained⟩ := compile_contained hcompile
  have hsection : sectionOf unruly = .ok unrulySection := rfl
  rw [List.map_singleton, hsection] at hsections
  obtain rfl : sections = [unrulySection] := by simpa using hsections.symm
  exact ⟨hcompile, hcontained [] unrulySection [] rfl⟩

/-! ### Joined lines -/

theorem commentText_append_cons (front : List Char) {c : Char} (hc : c ≠ '/') (rest : List Char) :
    commentText (front ++ c :: rest) = commentText front ++ commentText (c :: rest) := by
  fun_induction commentText front with
  | case1 => rfl
  | case2 front ih => simp only [List.cons_append, commentText, ih]
  | case3 d front hmark ih =>
      rw [List.cons_append, commentText, ih, List.cons_append]
      intro more hd hmore
      cases front with
      | nil => exact hc (List.cons.inj hmore).1
      | cons next front => exact hmark front hd (by rw [(List.cons.inj hmore).1])

/-- If no line of a name ends with a backslash, none of its comment does. -/
theorem joinLines_commentText {name : List Char} (h : ¬ ['\\', '\n'] <:+: name) :
    joinLines (commentText name) = commentText name := by
  have hrest {c : Char} {name : List Char} (h : ¬ ['\\', '\n'] <:+: c :: name) : ¬ ['\\', '\n'] <:+: name :=
    fun hpair => h (hpair.trans (List.suffix_cons c name).isInfix)
  fun_induction commentText name with
  | case1 => rfl
  | case2 name ih =>
      rw [joinLines, joinAt_cons (by decide), joinAt_cons (by decide), joinAt_cons (by decide), ← joinLines, ih (hrest (hrest h))]
  | case3 c name _ ih =>
      cases name with
      | nil => rfl
      | cons next name =>
          have hpair : ¬ (c = '\\' ∧ next = '\n') := by
            rintro ⟨rfl, rfl⟩
            exact h (List.infix_append [] ['\\', '\n'] name)
          obtain ⟨more, hmore⟩ := List.head?_eq_some_iff.1 (head?_commentText (next :: name))
          have hsame := ih (hrest h)
          rw [hmore] at hsame ⊢
          rw [joinLines, joinAt, if_neg hpair, ← joinLines, hsame]

theorem IndentedLine.getLast?_text (l : IndentedLine) : l.text.toList.getLast? ≠ some '\\' := by
  have hlast {front back : String} {c : Char} (h : back.toList.getLast? = some c) :
      (front ++ back).toList.getLast? = some c := by
    rw [String.toList_append, List.getLast?_append, h]
    rfl
  have hline : l.line.text.toList.getLast? = some ';' ∨ l.line.text.toList.getLast? = some '\x7b' ∨
      l.line.text.toList.getLast? = some '\x7d' := by
    cases l.line with
    | declare type v value => cases type <;> exact Or.inl (hlast rfl)
    | assign v value => exact Or.inl (hlast rfl)
    | print type value => cases type <;> exact Or.inl (hlast rfl)
    | openIf test => exact Or.inr (Or.inl (hlast rfl))
    | openElseIf test => exact Or.inr (Or.inl (hlast rfl))
    | openElse => exact Or.inr (Or.inl rfl)
    | openBlock => exact Or.inr (Or.inl rfl)
    | close => exact Or.inr (Or.inr rfl)
  unfold IndentedLine.text
  rcases hline with h | h | h <;> rw [hlast h] <;> decide

theorem joinLines_flatMap {α : Type} {f : α → List Char} {items : List α}
    (h : ∀ a ∈ items, '\n' ∉ f a ∧ (f a).getLast? ≠ some '\\') (rest : List Char) :
    joinLines (items.flatMap (fun a => f a ++ ['\n']) ++ rest) = items.flatMap (fun a => f a ++ ['\n']) ++ joinLines rest := by
  induction items with
  | nil => rfl
  | cons a items ih =>
      obtain ⟨hline, hlast⟩ := h a List.mem_cons_self
      have hitems := ih fun b hb => h b (List.mem_cons_of_mem a hb)
      simp only [List.flatMap_cons, List.append_assoc, List.cons_append, List.nil_append]
      rw [joinLines, joinAt_line (by decide) hline hlast, ← joinLines, hitems]

theorem joinLines_preamble (rest : List Char) : joinLines (preamble.toList ++ rest) = preamble.toList ++ joinLines rest := by
  have htext : preamble.toList = preambleLines.flatMap fun line => line.toList ++ ['\n'] := by
    simp [preamble, String.toList_join, List.flatMap_map]
  rw [htext]
  exact joinLines_flatMap (by decide +kernel) rest

/-- Joining lines changes a section in its comment alone. -/
theorem joinLines_section (s : Section) (rest : List Char) :
    joinLines (s.text.toList ++ rest) =
      "\t/* ".toList ++ (joinLines (commentText s.name.toList) ++
        (" */\n\t\x7b\n".toList ++ (linesText s.lines ++ (blockClosing ++ joinLines rest)))) := by
  have htext : s.text.toList ++ rest = "\t/* ".toList ++ (commentText s.name.toList ++
      ' ' :: ("*/\n\t\x7b\n".toList ++ (linesText s.lines ++ (blockClosing ++ rest)))) := by
    simp [s.toList_text, Section.comment, Section.remark, blockOpening]
  have hlines (rest : List Char) : joinLines (linesText s.lines ++ rest) = linesText s.lines ++ joinLines rest :=
    joinLines_flatMap (fun l _ => ⟨l.reads.oneLine, l.getLast?_text⟩) rest
  rw [htext, joinLines, joinAt_append (by decide), joinAt_append_cons _ (by decide), joinAt_cons (by decide),
    joinAt_append (by decide), ← joinLines, hlines, joinLines, joinAt_append (by decide)]
  rfl

theorem name_of_sectionOf {file : Tree.File} {s : Section} (h : sectionOf file = .ok s) : s.name = file.name := by
  unfold sectionOf at h
  split at h
  · rw [← Except.ok.inj h]
  · contradiction

/-- If no line of a file's name ends with a backslash, there are no lines to join. -/
theorem joinLines_compile {files : List Tree.File} {code : String} (h : compile files = .ok code)
    (hnames : ∀ file ∈ files, ¬ ['\\', '\n'] <:+: file.name.toList) : joinLines code.toList = code.toList := by
  obtain ⟨sections, hsections, rfl⟩ := compile_eq_ok_iff.1 h
  have hfine : ∀ s ∈ sections, ¬ ['\\', '\n'] <:+: s.name.toList := by
    intro s hs
    obtain ⟨file, hfile, hsection⟩ := exists_sectionOf_eq hsections hs
    rw [name_of_sectionOf hsection]
    exact hnames file hfile
  have htexts (rest : List Char) : joinLines ((sections.flatMap fun s => s.text.toList) ++ rest) =
      (sections.flatMap fun s => s.text.toList) ++ joinLines rest := by
    clear h hsections hnames
    induction sections with
    | nil => rfl
    | cons s sections ih =>
        have hrest := ih fun t ht => hfine t (List.mem_cons_of_mem s ht)
        rw [List.flatMap_cons, List.append_assoc, joinLines_section, joinLines_commentText (hfine s List.mem_cons_self), hrest]
        simp [s.toList_text, Section.comment, Section.remark, blockOpening]
  rw [toList_programText, textBefore, List.append_assoc, joinLines_preamble, htexts]
  rfl

/-- What is left of a comment is code from some point on. -/
theorem exists_code_of_not_remarks {mode : Mode} {text : List Char} (hmode : mode.isBlockComment = true)
    (h : ¬ Remarks mode text) : ∃ part, part <+: text ∧ scan mode part = .code := by
  induction text generalizing mode with
  | nil => exact absurd (.nil hmode) h
  | cons c rest ih =>
      by_cases hnext : (mode.next c).isBlockComment = true
      · obtain ⟨part, hpart, hscan⟩ := ih hnext fun hrest => h (.cons hmode hrest)
        exact ⟨c :: part, List.cons_prefix_cons.2 ⟨rfl, hpart⟩, hscan⟩
      · refine ⟨[c], List.cons_prefix_cons.2 ⟨rfl, List.nil_prefix⟩, ?_⟩
        -- Only a slash behind an asterisk leaves a block comment, and it leads to code.
        cases mode <;> simp only [Mode.isBlockComment, Bool.false_eq_true] at hmode
        · by_cases hc : c = '*' <;> simp [Mode.next, Mode.isBlockComment, hc] at hnext
        · by_cases hc : c = '/'
          · rw [hc]
            rfl
          · by_cases hstar : c = '*' <;> simp [Mode.next, Mode.isBlockComment, hc, hstar] at hnext

/-- Once lines are joined, a name with an asterisk and a backslash in front of a line break and a slash
closes its comment: reading is back in code before the closing mark of the comment. -/
theorem joined_name_closes_comment {file : Tree.File} {files : List Tree.File} {code : String}
    (h : compile (file :: files) = .ok code) (hname : ['*', '\\', '\n', '/'] <:+: file.name.toList) :
    ∃ part rest, joinLines code.toList = preamble.toList ++ "\t/*".toList ++ part ++ rest ∧
      scan .code (preamble.toList ++ "\t/*".toList ++ part) = .code ∧ " */\n\t\x7b\n".toList <:+: rest := by
  obtain ⟨sections, hsections, rfl⟩ := compile_eq_ok_iff.1 h
  obtain ⟨s, more, rfl, hsection, -⟩ := List.map_eq_cons_iff.1 hsections.symm
  obtain ⟨front, back, hparts⟩ := hname
  rw [← name_of_sectionOf hsection.symm, List.append_assoc] at hparts
  have hcomment : joinLines (commentText s.name.toList) =
      joinLines (commentText front) ++ (['*', '/'] ++ joinLines (commentText back)) := by
    have hmark : commentText (['*', '\\', '\n', '/'] ++ back) = '*' :: '\\' :: '\n' :: '/' :: commentText back := by
      simp [commentText]
    rw [← hparts, List.cons_append, commentText_append_cons _ (by decide), ← List.cons_append, hmark]
    rw [joinLines, joinAt_append_cons _ (by decide), joinAt_cons (by decide), joinAt, if_pos ⟨rfl, rfl⟩,
      joinAt_cons (by decide)]
    rfl
  obtain ⟨later, hlater⟩ : ∃ later, joinLines (programText (s :: more)).toList = preamble.toList ++ ("\t/*".toList ++
      (' ' :: joinLines (commentText front) ++ (['*', '/'] ++ (joinLines (commentText back) ++
        (" */\n\t\x7b\n".toList ++ later))))) := by
    rw [toList_programText, textBefore, List.flatMap_cons, List.append_assoc, List.append_assoc, joinLines_preamble,
      joinLines_section, hcomment]
    exact ⟨linesText s.lines ++ (blockClosing ++ joinLines ((more.flatMap fun s => s.text.toList) ++ ending.toList)),
      by simp⟩
  have hopen (part : List Char) : scan .code (preamble.toList ++ "\t/*".toList ++ part) = scan .blockComment part := by
    rw [scan_append, scan_append, scan_preamble]
    rfl
  by_cases hremarks : Remarks .blockComment (' ' :: joinLines (commentText front))
  · -- Nothing before has closed the comment, so the asterisk and the slash do.
    have hinside := hremarks _ (List.prefix_refl _)
    refine ⟨' ' :: joinLines (commentText front) ++ ['*', '/'],
      joinLines (commentText back) ++ (" */\n\t\x7b\n".toList ++ later), ?_, ?_, List.infix_append' _ _ later⟩
    · rw [hlater]
      simp only [List.append_assoc]
    rw [hopen, scan_append]
    cases hmode : scan .blockComment (' ' :: joinLines (commentText front)) <;>
      simp only [hmode, Mode.isBlockComment, Bool.false_eq_true] at hinside <;> rfl
  · obtain ⟨part, ⟨others, hothers⟩, hscan⟩ := exists_code_of_not_remarks rfl hremarks
    refine ⟨part, others ++ (['*', '/'] ++ (joinLines (commentText back) ++ (" */\n\t\x7b\n".toList ++ later))), ?_, ?_, ?_⟩
    · rw [hlater, ← hothers]
      simp only [List.append_assoc]
    · rw [hopen, hscan]
    · exact ⟨others ++ (['*', '/'] ++ joinLines (commentText back)), later, by simp only [List.append_assoc]⟩

example : joinLines "\t/* *\\\n/ */".toList = "\t/* */ */".toList := by decide

end Lai.C
