import Lai.Token.Scan
/-!
# Where tokens and lexical faults stand

Every token and every lexical fault stands at a character of the line it was found on. The faults of
a text come in reading order, with one exception: that a string literal is not closed is noticed at
the end of its line and reported at its opening quote, so after the escapes without a meaning that it
holds.
-/

namespace Lai

namespace Location

/-- The place of a character of the document. -/
structure IsIn (l : Location) (doc : Document) : Prop where
  line_nonneg : 0 ≤ l.line
  line_lt : l.line < doc.lines.length
  column_nonneg : 0 ≤ l.column
  column_lt : l.column < (doc.line l.line).length

/-- Reading order, in which a place follows itself. -/
def InOrder (a b : Location) : Prop :=
  a.line < b.line ∨ a.line = b.line ∧ a.column ≤ b.column

theorem not_before_iff {a b : Location} : ¬ b.Before a ↔ a.InOrder b := by
  unfold Before InOrder
  omega

theorem inOrder_on_line {line : Int} {a b : Nat} : InOrder ⟨line, a⟩ ⟨line, b⟩ ↔ a ≤ b := by
  simp [InOrder]

theorem InOrder.trans {a b c : Location} (hab : a.InOrder b) (hbc : b.InOrder c) : a.InOrder c := by
  unfold InOrder at *
  omega

theorem InOrder.total (a b : Location) : a.InOrder b ∨ b.InOrder a := by
  unfold InOrder
  omega

end Location

theorem Document.line_of_getElem? {doc : Document} {i : Int} {text : String} (hi : 0 ≤ i)
    (h : doc.lines[i.toNat]? = some text) : doc.line i = text := by
  have hnonneg : ¬ i < 0 := by omega
  rw [Document.line, if_neg hnonneg, h, Option.getD_some]

/-! ### Segments -/

namespace Piece

theorem bounds_of_mem_faults {offset : Nat} {ps : List Piece} {found : Nat × LexicalFault}
    (h : found ∈ faults offset ps) :
    offset ≤ found.1 ∧ found.1 < offset + (ps.flatMap chars).length := by
  induction ps generalizing offset with
  | nil => simp [faults] at h
  | cons p ps ih =>
      have hp : 0 < p.chars.length := by cases p <;> simp [chars]
      simp only [List.flatMap_cons, List.length_append]
      simp only [faults] at h
      split at h
      · have := ih h
        omega
      · rcases List.mem_cons.1 h with rfl | h
        · dsimp only
          omega
        · have := ih h
          omega

theorem faults_eq_nil_iff (offset : Nat) (ps : List Piece) :
    faults offset ps = [] ↔ (ps.any fun p => !p.known) = false := by
  induction ps generalizing offset with
  | nil => simp [faults]
  | cons p ps ih => cases hp : p.known <;> simp [faults, hp, ih]

theorem pairwise_faults (offset : Nat) (ps : List Piece) : (faults offset ps).Pairwise fun a b => a.1 ≤ b.1 := by
  induction ps generalizing offset with
  | nil => exact .nil
  | cons p ps ih =>
      simp only [faults]
      split
      · apply ih
      · refine List.pairwise_cons.2 ⟨?_, ih _⟩
        intro found hfound
        have := bounds_of_mem_faults hfound
        dsimp only
        omega

end Piece

namespace Segment

/-- Whether the segment is a string literal that is not closed and holds an escape without a meaning. -/
def tangled : Segment → Bool
  | .unclosed ps _ => ps.any fun p => !p.known
  | _ => false

theorem chars_pos_of_mem_cutAll {cs : List Char} {s : Segment} (h : s ∈ cutAll cs) : 0 < s.chars.length := by
  induction cs using cutAll.induct with
  | case1 => simp [cutAll] at h
  | case2 c cs ih =>
      rw [cutAll] at h
      rcases List.mem_cons.1 h with rfl | h
      · apply cut_chars_pos
      · exact ih h

theorem offset_lt_of_mem_faults {s : Segment} (hpos : 0 < s.chars.length) {found : Nat × LexicalFault}
    (h : found ∈ s.faults) : found.1 < s.chars.length := by
  cases s with
  | quoted ps =>
      have := Piece.bounds_of_mem_faults h
      simp only [chars, List.length_append, List.length_cons]
      omega
  | unclosed ps dangling =>
      rcases List.mem_append.1 h with h | h
      · have := Piece.bounds_of_mem_faults h
        simp only [chars, List.length_append, List.length_cons]
        omega
      · obtain rfl := List.mem_singleton.1 h
        exact hpos
  | number digits =>
      simp only [faults] at h
      split at h
      · simp at h
      · obtain rfl := List.mem_singleton.1 h
        exact hpos
  | malformed digits rest =>
      obtain rfl := List.mem_singleton.1 h
      exact hpos
  | stray c =>
      obtain rfl := List.mem_singleton.1 h
      exact hpos
  | _ => simp [faults] at h

/-- Only a missing end is reported in front of what was reported before it. -/
theorem pairwise_faults_iff (s : Segment) : (s.faults.Pairwise fun a b => a.1 ≤ b.1) ↔ s.tangled = false := by
  cases s with
  | quoted ps => exact iff_of_true (Piece.pairwise_faults 1 ps) rfl
  | unclosed ps dangling =>
      rw [tangled, ← Piece.faults_eq_nil_iff 1, faults, List.pairwise_append]
      constructor
      · intro h
        apply List.eq_nil_iff_forall_not_mem.2
        intro found hfound
        have hlow := (Piece.bounds_of_mem_faults hfound).1
        have hhigh := h.2.2 found hfound _ (List.mem_singleton_self _)
        dsimp only at hhigh
        omega
      · intro h
        simp [h]
  | number digits =>
      refine iff_of_true ?_ rfl
      simp only [faults]
      split <;> simp
  | _ => simp [faults, tangled]

theorem bounds_of_mem_place {column : Nat} {segments : List Segment} {placed : Nat × Segment}
    (h : placed ∈ place column segments) :
    placed.2 ∈ segments ∧ column ≤ placed.1 ∧
      placed.1 + placed.2.chars.length ≤ column + (segments.flatMap chars).length := by
  induction segments generalizing column with
  | nil => simp [place] at h
  | cons s rest ih =>
      simp only [List.flatMap_cons, List.length_append]
      rcases List.mem_cons.1 h with rfl | h
      · refine ⟨List.mem_cons_self, ?_, ?_⟩ <;> dsimp only <;> omega
      · obtain ⟨hmem, hlow, hhigh⟩ := ih h
        refine ⟨List.mem_cons_of_mem _ hmem, ?_, ?_⟩ <;> omega

theorem exists_place_of_mem (column : Nat) {segments : List Segment} {s : Segment} (h : s ∈ segments) :
    ∃ start, (start, s) ∈ place column segments := by
  induction segments generalizing column with
  | nil => simp at h
  | cons first rest ih =>
      rcases List.mem_cons.1 h with rfl | h
      · exact ⟨column, List.mem_cons_self⟩
      · obtain ⟨start, hstart⟩ := ih (column + first.chars.length) h
        exact ⟨start, List.mem_cons_of_mem _ hstart⟩

theorem pairwise_place (column : Nat) (segments : List Segment) :
    (place column segments).Pairwise fun a b => a.1 + a.2.chars.length ≤ b.1 := by
  induction segments generalizing column with
  | nil => exact .nil
  | cons s rest ih =>
      refine List.pairwise_cons.2 ⟨?_, ih _⟩
      intro placed hplaced
      exact (bounds_of_mem_place hplaced).2.1

end Segment

/-! ### Lines -/

namespace Scan

open Segment

theorem mem_tokens_ofLine {line : Nat} {text : List Char} {t : Token} (h : t ∈ (ofLine line text).tokens) :
    ∃ column : Nat, t.loc = ⟨line, column⟩ ∧ column < text.length := by
  simp only [ofLine, List.mem_flatMap, List.mem_map] at h
  obtain ⟨_, ⟨placed, hplaced, rfl⟩, ht⟩ := h
  obtain ⟨lexeme, -, rfl⟩ := List.mem_map.1 ht
  obtain ⟨hmem, -, hend⟩ := bounds_of_mem_place hplaced
  have hpos := chars_pos_of_mem_cutAll hmem
  rw [cutAll_chars] at hend
  exact ⟨placed.1, rfl, by omega⟩

/-- Where the faults of a segment are reported. -/
theorem mem_faults_ofSegment {line : Nat} {placed : Nat × Segment} (hpos : 0 < placed.2.chars.length)
    {fault : Located LexicalFault} (h : fault ∈ (ofSegment line placed).faults) :
    ∃ column : Nat, fault.loc = ⟨line, column⟩ ∧ placed.1 ≤ column ∧ column < placed.1 + placed.2.chars.length := by
  obtain ⟨found, hfound, rfl⟩ := List.mem_map.1 h
  have := offset_lt_of_mem_faults hpos hfound
  exact ⟨placed.1 + found.1, rfl, by omega, by omega⟩

theorem mem_faults_ofLine {line : Nat} {text : List Char} {fault : Located LexicalFault}
    (h : fault ∈ (ofLine line text).faults) : ∃ column : Nat, fault.loc = ⟨line, column⟩ ∧ column < text.length := by
  simp only [ofLine, List.mem_flatMap, List.mem_map] at h
  obtain ⟨_, ⟨placed, hplaced, rfl⟩, hfault⟩ := h
  obtain ⟨hmem, -, hend⟩ := bounds_of_mem_place hplaced
  obtain ⟨column, hloc, -, hlt⟩ := mem_faults_ofSegment (chars_pos_of_mem_cutAll hmem) hfault
  rw [cutAll_chars] at hend
  exact ⟨column, hloc, by omega⟩

theorem inOrder_ofSegment_iff (line : Nat) (placed : Nat × Segment) :
    ((ofSegment line placed).faults.Pairwise fun a b => a.loc.InOrder b.loc) ↔ placed.2.tangled = false := by
  rw [← pairwise_faults_iff, ofSegment, List.pairwise_map]
  simp only [Location.inOrder_on_line, Nat.add_le_add_iff_left]

theorem inOrder_ofLine_iff (line : Nat) (text : List Char) :
    ((ofLine line text).faults.Pairwise fun a b => a.loc.InOrder b.loc) ↔ ∀ s ∈ cutAll text, s.tangled = false := by
  simp only [ofLine, List.flatMap_map, List.pairwise_flatMap, inOrder_ofSegment_iff]
  constructor
  · intro h s hs
    obtain ⟨start, hstart⟩ := exists_place_of_mem 0 hs
    exact h.1 _ hstart
  · intro h
    have hmem : ∀ placed ∈ place 0 (cutAll text), placed.2 ∈ cutAll text := fun placed hplaced =>
      (bounds_of_mem_place hplaced).1
    refine ⟨fun placed hplaced => h _ (hmem placed hplaced), ?_⟩
    -- What is found in a segment stands before the end of the segment, and the next one begins there.
    refine (pairwise_place 0 (cutAll text)).imp_of_mem ?_
    intro first second hfirst hsecond hle a ha b hb
    obtain ⟨column, haloc, -, hhigh⟩ := mem_faults_ofSegment (chars_pos_of_mem_cutAll (hmem _ hfirst)) ha
    obtain ⟨other, hbloc, hlow, -⟩ := mem_faults_ofSegment (chars_pos_of_mem_cutAll (hmem _ hsecond)) hb
    rw [haloc, hbloc, Location.inOrder_on_line]
    omega

/-! ### Texts -/

theorem isIn_of_mem_line {doc : Document} {text : String} {line column : Nat} (hline : (text, line) ∈ doc.lines.zipIdx)
    (hcolumn : column < text.toList.length) : Location.IsIn ⟨line, column⟩ doc := by
  have hget : doc.lines[line]? = some text := List.mem_zipIdx_iff_getElem?.1 hline
  have hlt : line < doc.lines.length := (List.getElem?_eq_some_iff.1 hget).1
  refine ⟨Int.natCast_nonneg line, Int.ofNat_lt.2 hlt, Int.natCast_nonneg column, ?_⟩
  rw [Document.line_of_getElem? (Int.natCast_nonneg line) hget, ← String.length_toList]
  exact Int.ofNat_lt.2 hcolumn

theorem isIn_of_mem_tokens {doc : Document} {t : Token} (h : t ∈ (ofLines doc.lines).tokens) : t.loc.IsIn doc := by
  simp only [ofLines, List.mem_flatMap, List.mem_map] at h
  obtain ⟨_, ⟨⟨text, line⟩, hline, rfl⟩, ht⟩ := h
  obtain ⟨column, hloc, hcolumn⟩ := mem_tokens_ofLine ht
  rw [hloc]
  exact isIn_of_mem_line hline hcolumn

theorem isIn_of_mem_faults {doc : Document} {fault : Located LexicalFault} (h : fault ∈ (ofLines doc.lines).faults) :
    fault.loc.IsIn doc := by
  simp only [ofLines, List.mem_flatMap, List.mem_map] at h
  obtain ⟨_, ⟨⟨text, line⟩, hline, rfl⟩, hfault⟩ := h
  obtain ⟨column, hloc, hcolumn⟩ := mem_faults_ofLine hfault
  rw [hloc]
  exact isIn_of_mem_line hline hcolumn

/-- The faults of a text are in reading order exactly if no string literal in it is both open and faulty. -/
theorem inOrder_ofLines_iff (lines : List String) :
    ((ofLines lines).faults.Pairwise fun a b => a.loc.InOrder b.loc) ↔
      ∀ text ∈ lines, ∀ s ∈ cutAll text.toList, s.tangled = false := by
  simp only [ofLines, List.flatMap_map, List.pairwise_flatMap, inOrder_ofLine_iff]
  constructor
  · intro h text htext
    obtain ⟨line, hget⟩ := List.getElem?_of_mem htext
    exact h.1 (text, line) (List.mem_zipIdx_iff_getElem?.2 hget)
  · intro h
    refine ⟨fun placed hplaced => h _ (List.fst_mem_of_mem_zipIdx hplaced), ?_⟩
    have hlines : lines.zipIdx.Pairwise fun a b => a.2 < b.2 := by
      rw [← List.pairwise_map (f := Prod.snd), List.zipIdx_map_snd]
      exact List.pairwise_lt_range'
    refine hlines.imp ?_
    intro first second hlt a ha b hb
    obtain ⟨column, haloc, -⟩ := mem_faults_ofLine ha
    obtain ⟨other, hbloc, -⟩ := mem_faults_ofLine hb
    rw [haloc, hbloc]
    simp only [Location.InOrder]
    omega

end Scan

end Lai
