import Lai.Diagnostic.Excerpt
import Lai.Proofs.Build.Independence
import Lai.Proofs.Token.Placement
import Lai.Proofs.Tree.Places
/-!
# What builds report

The log of a build consists of what is reported about each document, in the order of the documents.
Every report is about a character of its document, so an excerpt from that document has a line and
something to put the caret under. The excerpt is taken from the last document of the name, though, which
may be another one and lack the line. About one document the reports come in reading order, unless the
document has a string literal that is not closed and holds an escape without a meaning.
-/

namespace Lai

/-! ### Order and places of single reports -/

theorem Diagnostic.pairwise_sort (ds : List Diagnostic) : (sort ds).Pairwise fun a b => a.loc.InOrder b.loc := by
  have hsorted : (sort ds).Pairwise fun a b => decide (¬ b.loc.Before a.loc) = true := by
    apply List.pairwise_mergeSort
    · intro a b c hab hbc
      simp only [decide_eq_true_eq, Location.not_before_iff] at hab hbc ⊢
      exact hab.trans hbc
    · intro a b
      simpa [Location.not_before_iff] using Location.InOrder.total a.loc b.loc
  refine hsorted.imp ?_
  intro a b hab
  rwa [decide_eq_true_eq, Location.not_before_iff] at hab

/-- A place is in a document exactly if the document has a line with a character there. -/
theorem Location.isIn_iff_exists_char {l : Location} {doc : Document} (hline : 0 ≤ l.line) :
    l.IsIn doc ↔ ∃ before c after, doc.lines[l.line.toNat]? = some (String.ofList (before ++ c :: after)) ∧
      (before.length : Int) = l.column := by
  constructor
  · intro h
    obtain ⟨text, htext⟩ : ∃ text, doc.lines[l.line.toNat]? = some text := by
      have hlt := h.line_lt
      exact ⟨_, List.getElem?_eq_getElem (by omega)⟩
    have hlt := h.column_lt
    have hnonneg := h.column_nonneg
    rw [Document.line_of_getElem? hline htext, ← String.length_toList] at hlt
    have hcolumn : l.column.toNat < text.toList.length := by omega
    refine ⟨text.toList.take l.column.toNat, text.toList[l.column.toNat], text.toList.drop (l.column.toNat + 1), ?_, ?_⟩
    · rw [htext, List.getElem_cons_drop, List.take_append_drop, String.ofList_toList]
    · rw [List.length_take]
      omega
  · rintro ⟨before, c, after, htext, hcolumn⟩
    have hlt := (List.getElem?_eq_some_iff.1 htext).1
    refine ⟨hline, by omega, by omega, ?_⟩
    rw [Document.line_of_getElem? hline htext, String.length_ofList, List.length_append, List.length_cons]
    omega

namespace Diagnostic

/-- A diagnostic about one of the documents is shown with a line of the last document of that name. -/
theorem render_eq_excerpt_last (styles : Styles) {d : Diagnostic} {docs : List Document} {doc : Document}
    (hdoc : doc ∈ docs) (hfile : d.file = doc.name) :
    ∃ front found back, docs = front ++ found :: back ∧ found.name = doc.name ∧
      (∀ other ∈ back, other.name ≠ doc.name) ∧ d.render styles docs = d.excerpt styles found := by
  unfold render
  cases hfind : docs.reverse.find? (·.name = d.file) with
  | none =>
      rw [List.find?_eq_none] at hfind
      exact absurd hfile.symm (by simpa using hfind doc (List.mem_reverse.2 hdoc))
  | some found =>
      obtain ⟨hname, behind, before, hdocs, hother⟩ := List.find?_eq_some_iff_append.1 hfind
      rw [List.reverse_eq_iff, List.reverse_append, List.reverse_cons, List.append_assoc] at hdocs
      refine ⟨before.reverse, found, behind.reverse, hdocs, by simpa [hfile] using hname, fun other hmem => ?_, rfl⟩
      simpa [hfile] using hother other (List.mem_reverse.1 hmem)

end Diagnostic

namespace Build

/-! ### The log -/

/-- What a build of the documents reports about one of them. -/
def reported (options : Options) (docs : List Document) (doc : Document) : List Diagnostic :=
  if options.cancelled then []
  else if docs.flatMap lexical = [] then (assembly doc).diagnostics
  else lexical doc

theorem log_generate (backend : Backend) (outcome : Outcome) : (generate backend outcome).log = outcome.log := by
  rw [generate]
  split <;> rfl

theorem log_gate_generate (stage : String) (backend : Backend) (outcome : Outcome) :
    (gate stage outcome (generate backend)).log = outcome.log := by
  rw [gate]
  split
  · exact log_generate backend outcome
  · rfl

/-- The log consists of what is reported about each document, in the order of the documents. -/
theorem diagnostics_run (options : Options) (docs : List Document) :
    (run options docs).log.diagnostics = docs.flatMap (reported options docs) := by
  by_cases hcancelled : (options.cancelled && !docs.isEmpty) = true
  · have hall : options.cancelled = true := by simp_all
    have hnone : docs.flatMap (reported options docs) = [] := by simp [reported, hall]
    rw [run, if_pos hcancelled, hnone]
  have hrun : run options docs = gate "tokenizing" (scanned docs) fun outcome =>
      gate "assembling" (assemble docs outcome) (generate options.backend) := by
    simp only [run, if_neg hcancelled, tokenize_eq_scanned]
  have hreported (doc : Document) (hdoc : doc ∈ docs) : reported options docs doc =
      if docs.flatMap lexical = [] then (assembly doc).diagnostics else lexical doc := by
    have hnot : options.cancelled = false := by
      have := List.ne_nil_of_mem hdoc
      simp_all
    rw [reported, hnot, if_neg Bool.false_ne_true]
  have hlogs : docs.flatMap (reported options docs) =
      docs.flatMap fun doc => if docs.flatMap lexical = [] then (assembly doc).diagnostics else lexical doc := by
    rw [List.flatMap_def, List.flatMap_def, List.map_congr_left hreported]
  rw [hrun, hlogs, gate]
  by_cases hlexical : docs.flatMap lexical = []
  · have hnone : (scanned docs).log.count = 0 := List.length_eq_zero_iff.2 hlexical
    rw [if_pos hnone, log_gate_generate, assemble_eq_assembled docs hlexical]
    simp only [if_pos hlexical]
    rfl
  · have hcount : (scanned docs).log.count ≠ 0 := fun h => hlexical (List.length_eq_zero_iff.1 h)
    rw [if_neg hcount]
    simp only [if_neg hlexical]
    rfl

theorem mem_reported {options : Options} {docs : List Document} {doc : Document} {d : Diagnostic}
    (h : d ∈ reported options docs doc) : d ∈ lexical doc ∨ d ∈ (assembly doc).diagnostics := by
  rw [reported] at h
  split at h
  · exact absurd h List.not_mem_nil
  · split at h
    · exact .inr h
    · exact .inl h

theorem place_of_mem_reported {options : Options} {docs : List Document} {doc : Document} {d : Diagnostic}
    (h : d ∈ reported options docs doc) : d.file = doc.name ∧ d.loc.IsIn doc := by
  rcases mem_reported h with hlexical | hassembly
  · obtain ⟨fault, hfault, rfl⟩ := List.mem_map.1 hlexical
    exact ⟨rfl, Scan.isIn_of_mem_faults hfault⟩
  · obtain ⟨hfile, t, ht, hloc⟩ := Assembly.place_of_mem_diagnostics hassembly
    rw [hloc]
    exact ⟨hfile, Scan.isIn_of_mem_tokens ht⟩

/-! ### Places -/

/-- What assembling reports is at one of the tokens. What a build reports about a document has the name
of the document and the place of one of its characters. It is shown with a line of the last document of
that name, above as many blanks as there are characters before the place, and a caret. If the documents
of the name have the same lines, the line exists and the caret stands under its character; else there may
be no such character, or no such line, and then an empty one is shown. -/
theorem run_points_into_documents (styles : Styles) (options : Options) (docs : List Document) :
    (∀ (name : String) (tokens : List Token), ∀ d ∈ (Assembly.ofTokens name tokens).diagnostics,
      d.file = name ∧ ∃ t ∈ tokens, d.loc = t.loc) ∧
    (run options docs).log.diagnostics = docs.flatMap (reported options docs) ∧
    ∀ doc ∈ docs, ∀ d ∈ reported options docs doc,
      d.file = doc.name ∧ d.loc.IsIn doc ∧
      ∃ front found back, docs = front ++ found :: back ∧ found.name = doc.name ∧
        (∀ other ∈ back, other.name ≠ doc.name) ∧
        d.render styles docs =
          styles.header.render ("Error in file '" ++ doc.name ++ "(" ++ Text.decimal (Location.ordinal d.loc.line) ++ ")':") ++
          "\n\t" ++ (found.line d.loc.line).map (fun c => if c = '\t' then ' ' else c) ++
          "\n\t" ++ String.ofList (List.replicate d.loc.column.toNat ' ') ++ styles.caret.render "^" ++
          "\n" ++ styles.kind.render (d.category.text ++ ":") ++ " " ++ d.message ++ "\n\n" ∧
        Text.visible (styles.caret.render "^") = "^" ∧
        ((∃ before c after, found.lines[d.loc.line.toNat]? = some (String.ofList (before ++ c :: after)) ∧
          (before.length : Int) = d.loc.column) ↔ d.loc.IsIn found) ∧
        ((∀ other ∈ docs, other.name = doc.name → other.lines = doc.lines) → d.loc.IsIn found) ∧
        (found.lines.length ≤ d.loc.line → found.line d.loc.line = "") := by
  refine ⟨fun name tokens d hd => Assembly.place_of_mem_diagnostics hd, diagnostics_run options docs, ?_⟩
  intro doc hdoc d hd
  obtain ⟨hfile, hloc⟩ := place_of_mem_reported hd
  obtain ⟨front, found, back, rfl, hname, hback, hrender⟩ := Diagnostic.render_eq_excerpt_last styles hdoc hfile
  refine ⟨hfile, hloc, front, found, back, rfl, hname, hback, ?_, ?_, ?_, ?_, ?_⟩
  · rw [hrender, Diagnostic.excerpt, hfile]
  · exact styles.caret.visible_render_line (by decide) (by decide) (by decide)
  · exact (Location.isIn_iff_exists_char hloc.line_nonneg).symm
  · intro hsame
    have hlines := hsame found (by simp) hname
    refine ⟨hloc.line_nonneg, hlines ▸ hloc.line_lt, hloc.column_nonneg, ?_⟩
    rw [Document.line, hlines]
    exact hloc.column_lt
  · intro hlines
    have hnonneg := hloc.line_nonneg
    rw [Document.line, if_neg (by omega), List.getElem?_eq_none (by omega), Option.getD_none]

def cutShort : Document := ⟨"b", ["\tprint(1 +"]⟩

/-- The operand that a text lacks at its end is missed at its last token, shown behind a tab. -/
theorem points_into_cutShort :
    ∃ d ∈ reported {} [cutShort] cutShort,
      (∃ t ∈ (Scan.ofLines cutShort.lines).tokens, d.loc = t.loc) ∧ d.loc.IsIn cutShort ∧
      (∃ before c after, cutShort.lines[d.loc.line.toNat]? = some (String.ofList (before ++ c :: after)) ∧
        before.length = 9) ∧
      d.render .plain [cutShort] =
        "Error in file 'b(1)':\n\t print(1 +\n\t         ^\nsyntax error: Expecting expression but found EOF\n\n" := by
  have hlexical : [cutShort].flatMap lexical = [] := by decide +kernel
  let d : Diagnostic := ⟨"b", ⟨0, 9⟩, .syntactic, "Expecting expression but found EOF"⟩
  have hnote : d ∈ (Assembly.read "b" (Scan.ofLines cutShort.lines).tokens).diagnostics := by decide +kernel
  have hassembly : d ∈ (assembly cutShort).diagnostics := List.mem_mergeSort.2 (List.mem_append_left _ hnote)
  have hreported : d ∈ reported {} [cutShort] cutShort := by
    rw [reported, if_neg Bool.false_ne_true, if_pos hlexical]
    exact hassembly
  obtain ⟨hassembled, -, hpoints⟩ := run_points_into_documents .plain {} [cutShort]
  obtain ⟨-, hin, front, found, back, hdocs, -, -, hrender, -, hchar, hsame, -⟩ := hpoints cutShort (by simp) d hreported
  obtain rfl : cutShort = found := by
    have hmem : found ∈ [cutShort] := hdocs ▸ by simp
    exact (List.mem_singleton.1 hmem).symm
  obtain ⟨before, c, after, hline, hcolumn⟩ := hchar.2 (hsame (by simp))
  exact ⟨d, hreported, (hassembled _ _ d hassembly).2, hin, ⟨before, c, after, hline, Int.ofNat.inj hcolumn⟩,
    hrender.trans (by decide +kernel)⟩

def sameName : List Document := [⟨"a", ["", "?"]⟩, ⟨"a", []⟩]

/-- Of two documents with one name the last is looked at, though it may lack the line. -/
theorem render_lacks_line :
    ∃ d ∈ (run {} sameName).log.diagnostics, ∃ doc ∈ sameName, d ∈ reported {} sameName doc ∧
      doc.line d.loc.line = "?" ∧
      d.render .plain sameName = "Error in file 'a(2)':\n\t\n\t^\nlexical error: unrecognized character '?'\n\n" := by
  have hreported : reported {} sameName ⟨"a", ["", "?"]⟩ = [⟨"a", ⟨1, 0⟩, .lexical, "unrecognized character '?'"⟩] := by
    decide +kernel
  have hmem : (⟨"a", ["", "?"]⟩ : Document) ∈ sameName := by simp [sameName]
  refine ⟨⟨"a", ⟨1, 0⟩, .lexical, "unrecognized character '?'"⟩, ?_, _, hmem, ?_, by decide +kernel, by decide +kernel⟩
  · rw [diagnostics_run]
    exact List.mem_flatMap.2 ⟨_, hmem, by rw [hreported]; exact List.mem_singleton_self _⟩
  · rw [hreported]
    exact List.mem_singleton_self _

/-! ### Order -/

/-- The lexical faults of a document come in reading order unless it has a string literal that is not
closed and holds an escape without a meaning. -/
theorem lexical_inOrder_iff (doc : Document) :
    ((lexical doc).Pairwise fun a b => a.loc.InOrder b.loc) ↔
      ∀ text ∈ doc.lines, ∀ s ∈ Segment.cutAll text.toList, s.tangled = false := by
  rw [← Scan.inOrder_ofLines_iff, lexical, Scan.diagnostics, List.pairwise_map]
  rfl

/-- The log goes through the documents in their order, and through each document in reading order, unless
a string literal of the document is not closed and holds an escape without a meaning. -/
theorem run_reports_in_order (options : Options) (docs : List Document) :
    (run options docs).log.diagnostics = docs.flatMap (reported options docs) ∧
    ∀ doc ∈ docs, (∀ d ∈ reported options docs doc, d.file = doc.name) ∧
      (((reported options docs doc).Pairwise fun a b => a.loc.InOrder b.loc) ↔
        options.cancelled = true ∨ ∀ text ∈ doc.lines, ∀ s ∈ Segment.cutAll text.toList, s.tangled = false) := by
  refine ⟨diagnostics_run options docs, fun doc hdoc => ⟨fun d hd => (place_of_mem_reported hd).1, ?_⟩⟩
  rw [← lexical_inOrder_iff, reported]
  split
  · rename_i hcancelled
    exact iff_of_true .nil (.inl hcancelled)
  · rename_i hcancelled
    split
    · rename_i hlexical
      have hnone : lexical doc = [] := List.flatMap_eq_nil_iff.1 hlexical doc hdoc
      refine iff_of_true (Diagnostic.pairwise_sort _) (.inr ?_)
      rw [hnone]
      exact .nil
    · exact (or_iff_right hcancelled).symm

def openEscape : Document := ⟨"a", ["x := \"\\q"]⟩

/-- The escape is reported first, at its backslash, and then the literal, at its opening quote. -/
theorem log_out_of_order :
    ∃ first second, (run {} [openEscape]).log.diagnostics = [first, second] ∧ second.loc.Before first.loc := by
  have hlexical : ∃ first second, lexical openEscape = [first, second] ∧ second.loc.Before first.loc := by
    refine ⟨⟨"a", ⟨0, 6⟩, .lexical, "unknown escape sequence '\\q'"⟩, ⟨"a", ⟨0, 5⟩, .lexical, "unterminated string literal"⟩, ?_⟩
    decide +kernel
  obtain ⟨first, second, hboth, hbefore⟩ := hlexical
  refine ⟨first, second, ?_, hbefore⟩
  rw [diagnostics_run, List.flatMap_singleton, reported, List.flatMap_singleton, hboth, if_neg Bool.false_ne_true,
    if_neg (List.cons_ne_nil _ _)]

def strays : Document := ⟨"b", ["? ?", "\""]⟩

/-- Three faults in order, beside two that are not. -/
theorem reports_strays_in_order :
    (¬ (reported {} [openEscape, strays] openEscape).Pairwise fun a b => a.loc.InOrder b.loc) ∧
    (reported {} [openEscape, strays] strays).length = 3 ∧
    (reported {} [openEscape, strays] strays).Pairwise fun a b => a.loc.InOrder b.loc := by
  have horder := (run_reports_in_order {} [openEscape, strays]).2
  refine ⟨?_, by decide +kernel, ?_⟩
  · rw [(horder openEscape (by simp)).2]
    decide +kernel
  · rw [(horder strays (by simp)).2]
    decide +kernel

end Build

end Lai
