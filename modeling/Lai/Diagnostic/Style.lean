/-!
# Styles

A terminal may show parts of a report in colours, which escape sequences inside the text switch on and
off. A style can be any way to put such sequences into a text, as long as what is seen of the text is
still its lines, with tabs as blanks and all lines of one width.
-/

namespace Lai

namespace Text

/-- The character that an escape sequence begins with; the letter `m` ends it. -/
def escapeMark : Char := '\x1b'

/-- The characters outside of escape sequences; the flag says whether the text begins inside of one. -/
def visibleChars : Bool → List Char → List Char
  | _, [] => []
  | true, c :: rest => visibleChars (c ≠ 'm') rest
  | false, c :: rest => if c = escapeMark then visibleChars true rest else c :: visibleChars false rest

/-- What is seen of a text. -/
def visible (text : String) : String :=
  String.ofList (visibleChars false text.toList)

/-- The text with four blanks for each tab. -/
def expandTabs (text : List Char) : List Char :=
  text.flatMap fun c => if c = '\t' then List.replicate 4 ' ' else [c]

theorem mem_of_mem_expandTabs {text : List Char} {c : Char} (hc : c ≠ ' ') (h : c ∈ expandTabs text) :
    c ∈ text := by
  obtain ⟨a, ha, hmem⟩ := List.mem_flatMap.1 h
  split at hmem
  · exact absurd (List.eq_of_mem_replicate hmem) hc
  · rwa [List.mem_singleton.1 hmem]

theorem expandTabs_eq_self {text : List Char} (h : '\t' ∉ text) : expandTabs text = text := by
  induction text with
  | nil => rfl
  | cons c rest ih =>
      have hc : c ≠ '\t' := fun heq => h (heq ▸ List.mem_cons_self)
      rw [expandTabs, List.flatMap_cons, if_neg hc, ← expandTabs, ih fun hmem => h (List.mem_cons_of_mem c hmem)]
      rfl

theorem visibleChars_append {front : List Char} (h : escapeMark ∉ front) (rest : List Char) :
    visibleChars false (front ++ rest) = front ++ visibleChars false rest := by
  induction front with
  | nil => rfl
  | cons c front ih =>
      have hc : c ≠ escapeMark := fun heq => h (heq ▸ List.mem_cons_self)
      rw [List.cons_append, visibleChars, if_neg hc, ih fun hmem => h (List.mem_cons_of_mem c hmem), List.cons_append]

/-- What is seen of a text behind a part without escape sequences. -/
theorem visible_append {front : String} (h : escapeMark ∉ front.toList) (rest : String) :
    visible (front ++ rest) = front ++ visible rest := by
  rw [visible, String.toList_append, visibleChars_append h, String.ofList_append, String.ofList_toList, visible]

theorem visible_eq_self {text : String} (h : escapeMark ∉ text.toList) : visible text = text := by
  have hall := visible_append h ""
  rwa [String.append_empty, show visible "" = "" from rfl, String.append_empty] at hall

end Text

open Text

namespace Style

/-- The text with each line break of two characters as one. -/
def joinReturns : List Char → List Char
  | '\r' :: '\n' :: rest => '\n' :: joinReturns rest
  | c :: rest => c :: joinReturns rest
  | [] => []

/-- The lines filled up with blanks to the widest of them. -/
def padLines (width : List Char → Nat) (lines : List (List Char)) : List (List Char) :=
  let widest := (lines.map width).foldr max 0
  lines.map fun line => line ++ List.replicate (widest - width line) ' '

/-- The text as a block: four blanks for each tab, and all lines of one width. -/
def block (width : List Char → Nat) (text : List Char) : List Char :=
  ['\n'].intercalate (padLines width ((joinReturns (expandTabs text)).splitOn '\n'))

theorem joinReturns_eq_self {text : List Char} (h : '\n' ∉ text) : joinReturns text = text := by
  fun_induction joinReturns text with
  | case1 => simp at h
  | case2 c rest _ ih => rw [ih fun hmem => h (List.mem_cons_of_mem c hmem)]
  | case3 => rfl

theorem block_of_line (width : List Char → Nat) {text : List Char} (h : '\n' ∉ text) :
    block width text = expandTabs text := by
  have hline : '\n' ∉ expandTabs text := fun hmem => h (mem_of_mem_expandTabs (by decide) hmem)
  simp [block, joinReturns_eq_self hline, List.splitOn_eq_singleton hline, padLines, List.intercalate]

theorem mem_of_mem_joinReturns {text : List Char} {c : Char} (h : c ∈ joinReturns text) : c ∈ text := by
  fun_induction joinReturns text with
  | case1 rest ih =>
      rcases List.mem_cons.1 h with rfl | hrest
      · simp
      · simp [ih hrest]
  | case2 a rest _ ih =>
      rcases List.mem_cons.1 h with rfl | hrest
      · exact List.mem_cons_self
      · exact List.mem_cons_of_mem a (ih hrest)
  | case3 => exact h

theorem mem_intercalate_iff {lines : List (List Char)} {separator c : Char} (hc : c ≠ separator) :
    c ∈ [separator].intercalate lines ↔ ∃ line ∈ lines, c ∈ line := by
  induction lines with
  | nil => simp
  | cons line rest ih =>
      cases rest with
      | nil => simp
      | cons next more =>
          rw [List.intercalate_cons_cons, List.mem_append, List.mem_append, ih, List.mem_singleton]
          simp [hc]

/-- Nothing but blanks and line breaks comes into a block. -/
theorem mem_of_mem_block {width : List Char → Nat} {text : List Char} {c : Char} (hblank : c ≠ ' ') (hbreak : c ≠ '\n')
    (h : c ∈ block width text) : c ∈ text := by
  obtain ⟨line, hline, hc⟩ := (mem_intercalate_iff hbreak).1 h
  obtain ⟨bare, hbare, rfl⟩ := List.mem_map.1 hline
  rcases List.mem_append.1 hc with hc | hc
  · have hwhole := (mem_intercalate_iff hbreak).2 ⟨bare, hbare, hc⟩
    rw [List.intercalate_splitOn] at hwhole
    exact mem_of_mem_expandTabs hblank (mem_of_mem_joinReturns hwhole)
  · exact absurd (List.eq_of_mem_replicate hc) hblank

end Style

/-- A way to show texts. What is seen of a text is a block of its lines, for some way to tell how wide a
line is. -/
structure Style where
  width : List Char → Nat
  render : String → String
  visible_render : ∀ text, escapeMark ∉ text.toList →
    visible (render text) = String.ofList (Style.block width text.toList)

namespace Style

/-- Of a text of one line without tabs all is seen and nothing else. -/
theorem visible_render_line (style : Style) {text : String} (hescape : escapeMark ∉ text.toList)
    (hline : '\n' ∉ text.toList) (htab : '\t' ∉ text.toList) : visible (style.render text) = text := by
  rw [style.visible_render text hescape, block_of_line _ hline, expandTabs_eq_self htab, String.ofList_toList]

/-- The style without colours, for characters of one width. -/
def plain : Style where
  width := List.length
  render text := String.ofList (block List.length text.toList)
  visible_render text hescape := by
    apply visible_eq_self
    rw [String.toList_ofList]
    exact fun hmem => hescape (mem_of_mem_block (by decide) (by decide) hmem)

end Style

/-- The styles of the parts of a report. -/
structure Styles where
  header : Style
  caret : Style
  kind : Style

/-- Reports without colours. -/
def Styles.plain : Styles := ⟨.plain, .plain, .plain⟩

end Lai
