import Lai.Document
/-!
# Lines and their ends

Splitting a text into lines undoes joining lines, whatever end each line has got. A text is empty, one
line without an end, or a line with its end in front of a text, and splitting follows these three cases.
-/

namespace Lai

namespace Document

/-! ### Splitting line by line -/

@[simp] theorem splitLines_nil : splitLines [] = [] := by
  simp [splitLines, List.splitOn_nil]

/-- A text without a line feed is its only line. -/
theorem splitLines_of_not_mem {line : List Char} (hline : '\n' ∉ line) (hne : line ≠ []) :
    splitLines line = [dropReturn line] := by
  simp [splitLines, List.splitOn_eq_singleton hline, hne]

/-- The first line feed ends the first line, and the rest of the text is split on its own. -/
theorem splitLines_append_cons {line : List Char} (hline : '\n' ∉ line) (rest : List Char) :
    splitLines (line ++ '\n' :: rest) = dropReturn line :: splitLines rest := by
  have hparts := List.splitOn_append_cons_self_of_not_mem hline rest
  have hlast : (line :: rest.splitOn '\n').getLast? = (rest.splitOn '\n').getLast? :=
    List.getLast?_cons_of_ne_nil (List.splitOn_ne_nil _ _)
  simp only [splitLines, hparts, hlast]
  split
  · rw [List.dropLast_cons_of_ne_nil (List.splitOn_ne_nil _ _), List.map_cons]
  · rw [List.map_cons]

/-- What holds of the empty text and of every line without an end, and of every text with one more line
in front, holds of all texts. -/
theorem lines_induction {motive : List Char → Prop} (hempty : motive [])
    (hlast : ∀ line, '\n' ∉ line → line ≠ [] → motive line)
    (hline : ∀ line rest, '\n' ∉ line → motive rest → motive (line ++ '\n' :: rest)) (text : List Char) :
    motive text := by
  induction hlength : text.length using Nat.strongRecOn generalizing text with
  | ind n ih =>
      by_cases hmem : '\n' ∈ text
      · obtain ⟨line, rest, rfl, hnot⟩ := List.eq_append_cons_of_mem hmem
        exact hline line rest hnot (ih rest.length (by simp at hlength; omega) rest rfl)
      · by_cases hne : text = []
        · exact hne ▸ hempty
        · exact hlast text hmem hne

theorem not_mem_dropReturn {line : List Char} (hline : '\n' ∉ line) : '\n' ∉ dropReturn line := by
  unfold dropReturn
  split
  · exact fun hmem => hline (List.dropLast_subset _ hmem)
  · exact hline

theorem not_mem_of_mem_splitLines (text : List Char) : ∀ line ∈ splitLines text, '\n' ∉ line := by
  induction text using lines_induction with
  | hempty => simp
  | hlast line hnot hne => simpa [splitLines_of_not_mem hnot hne] using not_mem_dropReturn hnot
  | hline line rest hnot ih => simpa [splitLines_append_cons hnot] using ⟨not_mem_dropReturn hnot, ih⟩

theorem length_splitLines (text : List Char) :
    (splitLines text).length = text.count '\n' + if text = [] ∨ text.getLast? = some '\n' then 0 else 1 := by
  induction text using lines_induction with
  | hempty => rfl
  | hlast line hnot hne =>
      have hend : line.getLast? ≠ some '\n' := fun hend => hnot (List.mem_of_getLast? hend)
      simp [splitLines_of_not_mem hnot hne, List.count_eq_zero_of_not_mem hnot, hne, hend]
  | hline line rest hnot ih =>
      have hend : (line ++ '\n' :: rest).getLast? = some '\n' ↔ rest = [] ∨ rest.getLast? = some '\n' := by
        cases rest with
        | nil => simp
        | cons c rest => simp [List.getLast?_cons]
      simp only [splitLines_append_cons hnot, List.length_cons, ih, List.count_append, List.count_cons_self,
        List.count_eq_zero_of_not_mem hnot, List.append_eq_nil_iff, reduceCtorEq, and_false, false_or, hend]
      omega

/-! ### Joining lines -/

/-- The end of a line. -/
inductive LineEnd where
  | feed
  | returnFeed
  deriving DecidableEq, Repr

/-- How the end of a line is written. -/
def LineEnd.text : LineEnd → String
  | .feed => "\n"
  | .returnFeed => "\r\n"

/-- The text of lines that all have ends. -/
def joinLines (lines : List (String × LineEnd)) : String :=
  String.join (lines.map fun line => line.1 ++ line.2.text)

/-- No line feed stands in the line and no carriage return at its end. -/
def IsPlain (line : String) : Prop :=
  '\n' ∉ line.toList ∧ line.toList.getLast? ≠ some '\r'

instance (line : String) : Decidable (IsPlain line) :=
  inferInstanceAs (Decidable (_ ∧ _))

theorem IsPlain.dropReturn_eq {line : String} (h : IsPlain line) : dropReturn line.toList = line.toList := by
  rw [dropReturn, if_neg h.2]

/-- Whatever its end is, a line in front of a text is the first one. -/
theorem IsPlain.splitLines_cons {line : String} (h : IsPlain line) (lineEnd : LineEnd) (rest : List Char) :
    splitLines (line.toList ++ lineEnd.text.toList ++ rest) = line.toList :: splitLines rest := by
  cases lineEnd with
  | feed =>
      rw [List.append_assoc]
      exact (splitLines_append_cons h.1 rest).trans (by rw [h.dropReturn_eq])
  | returnFeed =>
      have hnot : '\n' ∉ line.toList ++ ['\r'] := by simpa using h.1
      have hdrop : dropReturn (line.toList ++ ['\r']) = line.toList := by simp [dropReturn]
      have hsplit := splitLines_append_cons hnot rest
      rw [hdrop, List.append_assoc] at hsplit
      rw [List.append_assoc]
      exact hsplit

/-- A last line without an end is there exactly if it is not empty. -/
theorem IsPlain.splitLines_eq {last : String} (h : IsPlain last) :
    (splitLines last.toList).map String.ofList = if last = "" then [] else [last] := by
  split
  · next hempty => simp [hempty]
  · next hne =>
      have hne' : last.toList ≠ [] := by simpa using hne
      simp [splitLines_of_not_mem h.1 hne', h.dropReturn_eq]

theorem splitLines_joinLines {lines : List (String × LineEnd)} (hlines : ∀ line ∈ lines, IsPlain line.1)
    (rest : List Char) :
    splitLines ((joinLines lines).toList ++ rest) = lines.map (·.1.toList) ++ splitLines rest := by
  induction lines with
  | nil => simp [joinLines]
  | cons line lines ih =>
      obtain ⟨hline, hrest⟩ := List.forall_mem_cons.1 hlines
      have hjoin : (joinLines (line :: lines)).toList =
          line.1.toList ++ line.2.text.toList ++ (joinLines lines).toList := by
        simp [joinLines, String.toList_join]
      rw [hjoin, List.append_assoc, hline.splitLines_cons, ih hrest, List.map_cons, List.cons_append]

/-- The lines of a text are the lines that were joined, each with an end of its own choice and the last
one with or without an end; and there is one line for each line feed and for what stands behind the last
of them. -/
theorem ofText_undoes_joining (name : String) :
    (∀ (lines : List (String × LineEnd)) (last : String), (∀ line ∈ lines, IsPlain line.1) → IsPlain last →
      (ofText name (joinLines lines ++ last)).lines = lines.map Prod.fst ++ if last = "" then [] else [last]) ∧
    ∀ text : String, (∀ line ∈ (ofText name text).lines, '\n' ∉ line.toList) ∧
      (ofText name text).lines.length =
        text.toList.count '\n' + if text = "" ∨ text.toList.getLast? = some '\n' then 0 else 1 := by
  constructor
  · intro lines last hlines hlast
    simp only [ofText, String.toList_append, splitLines_joinLines hlines, List.map_append, hlast.splitLines_eq,
      List.map_map]
    congr 1
    exact List.map_congr_left fun line _ => by simp
  · intro text
    constructor
    · intro line hline
      obtain ⟨chars, hchars, rfl⟩ := List.mem_map.1 hline
      simpa using not_mem_of_mem_splitLines _ chars hchars
    · simp [ofText, length_splitLines]

/-- A carriage return inside a line, an empty line, both ends, and a last line without one. -/
theorem ofText_mixedEnds : (∀ line ∈ [("a\rb", LineEnd.returnFeed), ("", LineEnd.feed)], IsPlain line.1) ∧ IsPlain "c" ∧
    (ofText "m" (joinLines [("a\rb", .returnFeed), ("", .feed)] ++ "c")).lines = ["a\rb", "", "c"] := by
  have hlines : ∀ line ∈ [("a\rb", LineEnd.returnFeed), ("", LineEnd.feed)], IsPlain line.1 := by decide
  have hlast : IsPlain "c" := by decide
  exact ⟨hlines, hlast, by simpa using (ofText_undoes_joining "m").1 _ "c" hlines hlast⟩

end Document

end Lai
