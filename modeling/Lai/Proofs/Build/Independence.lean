import Lai.Proofs.C.Gate
import Lai.Proofs.C.Sections
/-!
# Builds of several documents

The stages look at documents one by one; the gates look at all of them together. So a build of several
documents comes to what the builds of the single documents come to, except that one document with a
lexical fault keeps all others from being assembled.
-/

namespace Lai.Build

/-- What scanning the document reports. -/
def lexical (doc : Document) : List Diagnostic :=
  (Scan.ofLines doc.lines).diagnostics doc.name

/-- The tree of the document, and what is wrong with it. -/
def assembly (doc : Document) : Assembly :=
  .ofTokens doc.name (Scan.ofLines doc.lines).tokens

/-! ### What the stages come to -/

variable (workers : Int) (docs : List Document)

/-- The build behind the first stage. -/
def scanned : Outcome where
  stages := [.tokenizing docs.length]
  tokens := some (docs.map fun doc => (Scan.ofLines doc.lines).tokens)
  log := ⟨docs.flatMap lexical⟩

/-- The build behind the second stage, if nothing was reported in the first. -/
def assembled : Outcome where
  stages := [.tokenizing docs.length, .assembling]
  tokens := some (docs.map fun doc => (Scan.ofLines doc.lines).tokens)
  files := some (docs.map fun doc => (assembly doc).file)
  log := ⟨docs.flatMap fun doc => (assembly doc).diagnostics⟩

theorem zip_map_self {α β : Type} (f : α → β) (xs : List α) : xs.zip (xs.map f) = xs.map fun x => (x, f x) := by
  simpa using List.zip_map' (f := id) (g := f) (l := xs)

theorem tokenize_eq_scanned : tokenize workers docs { stages := [.tokenizing docs.length] } = scanned docs := by
  simp only [tokenize, scanAll, mapWorkers_eq_map, zip_map_self, List.map_map, List.flatMap_map]
  rfl

theorem assemble_eq_assembled (hlexical : docs.flatMap lexical = []) : assemble docs (scanned docs) = assembled docs := by
  simp only [assemble, scanned, Option.getD_some, zip_map_self, List.map_map, List.flatMap_map, hlexical]
  rfl

theorem run_eq : run { workers := workers } docs =
    gate "tokenizing" (scanned docs) fun outcome => gate "assembling" (assemble docs outcome) (generate C.compile) := by
  simp only [run, Bool.false_and, Bool.false_eq_true, if_false, tokenize_eq_scanned]

variable {workers docs}

/-- A lexical fault ends the build at the first gate. -/
theorem run_of_lexical (hlexical : docs.flatMap lexical ≠ []) :
    run { workers := workers } docs =
      { scanned docs with failure := some (.gate "tokenizing" (docs.flatMap lexical).length) } := by
  have hcount : (scanned docs).log.count ≠ 0 := fun h => hlexical (List.length_eq_zero_iff.1 h)
  rw [run_eq, gate, if_neg hcount]
  rfl

/-- Without lexical faults, any other fault ends the build at the second gate. -/
theorem run_of_faulty (hlexical : docs.flatMap lexical = [])
    (hfaulty : docs.flatMap (fun doc => (assembly doc).diagnostics) ≠ []) :
    run { workers := workers } docs =
      { assembled docs with
        failure := some (.gate "assembling" (docs.flatMap fun doc => (assembly doc).diagnostics).length) } := by
  have hnone : (scanned docs).log.count = 0 := List.length_eq_zero_iff.2 hlexical
  have hcount : (assembled docs).log.count ≠ 0 := fun h => hfaulty (List.length_eq_zero_iff.1 h)
  rw [run_eq, gate, if_pos hnone, assemble_eq_assembled docs hlexical, gate, if_neg hcount]
  rfl

/-- The section of the document, if its tree can be written. -/
def sectionFor (doc : Document) : C.Section :=
  match C.sectionOf (assembly doc).file with
  | .ok s => s
  | .error _ => default

theorem sectionOf_assembly {doc : Document} (h : (assembly doc).diagnostics = []) :
    C.sectionOf (assembly doc).file = .ok (sectionFor doc) := by
  obtain ⟨code, after, hcode⟩ := Assembly.translates_of_accepted h
  obtain ⟨s, _, hs, _⟩ := C.sectionsOf_cons_eq_ok_iff.1 (C.TranslatesFiles.cons hcode .nil).sectionsOf
  change C.sectionOf (assembly doc).file = .ok s at hs
  rw [sectionFor, hs]

theorem compile_assembled (hclean : ∀ doc ∈ docs, (assembly doc).diagnostics = []) :
    C.compile (docs.map fun doc => (assembly doc).file) = .ok (C.programText (docs.map sectionFor)) := by
  refine C.compile_eq_ok_iff.2 ⟨docs.map sectionFor, ?_, rfl⟩
  rw [List.map_map, List.map_map]
  exact List.map_congr_left fun doc hdoc => sectionOf_assembly (hclean doc hdoc)

/-- Without any fault the build ends with the sections of all documents. -/
theorem run_of_clean (hlexical : docs.flatMap lexical = [])
    (hclean : docs.flatMap (fun doc => (assembly doc).diagnostics) = []) :
    run { workers := workers } docs =
      { assembled docs with
        stages := [.tokenizing docs.length, .assembling, .generating]
        code := C.programText (docs.map sectionFor) } := by
  have hnone : (scanned docs).log.count = 0 := List.length_eq_zero_iff.2 hlexical
  have hcount : (assembled docs).log.count = 0 := List.length_eq_zero_iff.2 hclean
  have hcompile := compile_assembled (List.flatMap_eq_nil_iff.1 hclean)
  rw [run_eq, gate, if_pos hnone, assemble_eq_assembled docs hlexical, gate, if_pos hcount, generate]
  simp only [assembled, Option.getD_some, hcompile]
  rfl

/-! ### Documents together and alone -/

theorem failure_eq_none_iff : (run { workers := workers } docs).failure = none ↔
    docs.flatMap lexical = [] ∧ docs.flatMap (fun doc => (assembly doc).diagnostics) = [] := by
  by_cases hlexical : docs.flatMap lexical = []
  · by_cases hclean : docs.flatMap (fun doc => (assembly doc).diagnostics) = []
    · rw [run_of_clean hlexical hclean]
      exact iff_of_true rfl ⟨hlexical, hclean⟩
    · rw [run_of_faulty hlexical hclean]
      exact iff_of_false (Option.some_ne_none _) fun h => hclean h.2
  · rw [run_of_lexical hlexical]
    exact iff_of_false (Option.some_ne_none _) fun h => hlexical h.1

theorem failure_alone_eq_none_iff {doc : Document} : (run { workers := workers } [doc]).failure = none ↔
    lexical doc = [] ∧ (assembly doc).diagnostics = [] := by
  rw [failure_eq_none_iff, List.flatMap_singleton, List.flatMap_singleton]

/-- Without lexical faults the log holds what assembling the documents reports. -/
theorem diagnostics_of_no_lexical (hlexical : docs.flatMap lexical = []) :
    (run { workers := workers } docs).log.diagnostics = docs.flatMap fun doc => (assembly doc).diagnostics := by
  by_cases hclean : docs.flatMap (fun doc => (assembly doc).diagnostics) = []
  · rw [run_of_clean hlexical hclean]
    rfl
  · rw [run_of_faulty hlexical hclean]
    rfl

theorem diagnostics_alone {doc : Document} (hlexical : lexical doc = []) :
    (run { workers := workers } [doc]).log.diagnostics = (assembly doc).diagnostics := by
  rw [diagnostics_of_no_lexical (by rw [List.flatMap_singleton, hlexical]), List.flatMap_singleton]

theorem code_of_failure_eq_none (h : (run { workers := workers } docs).failure = none) :
    (run { workers := workers } docs).code =
      C.preamble ++ String.join (docs.map fun doc => (sectionFor doc).text) ++ C.ending := by
  obtain ⟨hlexical, hclean⟩ := failure_eq_none_iff.1 h
  rw [run_of_clean hlexical hclean]
  simp only [C.programText, List.map_map]
  rfl

/-- A build that fails ends at a gate, which counts the whole log, and has no code. -/
theorem gate_of_failure (h : (run { workers := workers } docs).failure ≠ none) :
    (run { workers := workers } docs).code = "" ∧
    ∃ stage, (run { workers := workers } docs).failure =
      some (.gate stage (run { workers := workers } docs).log.diagnostics.length) := by
  rw [Ne, failure_eq_none_iff] at h
  by_cases hlexical : docs.flatMap lexical = []
  · rw [run_of_faulty hlexical fun hclean => h ⟨hlexical, hclean⟩]
    exact ⟨rfl, "assembling", rfl⟩
  · rw [run_of_lexical hlexical]
    exact ⟨rfl, "tokenizing", rfl⟩

/-- Documents are built as if each were built alone: all succeed exactly if each does, and then the
code consists of the blocks of the single builds. If no document has a lexical fault the log consists
of the logs of the single builds; otherwise of the lexical faults alone. -/
theorem run_independent (workers alone : Int) (docs : List Document) :
    let whole := run { workers := workers } docs
    let own := fun doc : Document => run { workers := alone } [doc]
    (whole.failure = none ↔ ∀ doc ∈ docs, (own doc).failure = none) ∧
    (whole.failure = none → ∃ block : Document → String,
      (∀ doc ∈ docs, (own doc).code = C.preamble ++ block doc ++ C.ending) ∧
      whole.code = C.preamble ++ String.join (docs.map block) ++ C.ending) ∧
    ((∃ doc ∈ docs, lexical doc ≠ []) →
      whole.log.diagnostics = docs.flatMap lexical ∧ whole.files = none ∧
      whole.failure = some (.gate "tokenizing" whole.log.diagnostics.length)) ∧
    ((∀ doc ∈ docs, lexical doc = []) →
      whole.log.diagnostics = docs.flatMap fun doc => (own doc).log.diagnostics) ∧
    (whole.failure ≠ none →
      whole.code = "" ∧ ∃ stage, whole.failure = some (.gate stage whole.log.diagnostics.length)) := by
  intro whole own
  have hnone : whole.failure = none ↔ ∀ doc ∈ docs, (own doc).failure = none := by
    rw [failure_eq_none_iff, List.flatMap_eq_nil_iff, List.flatMap_eq_nil_iff]
    constructor
    · rintro ⟨hlexical, hclean⟩ doc hdoc
      exact failure_alone_eq_none_iff.2 ⟨hlexical doc hdoc, hclean doc hdoc⟩
    · intro h
      have hown := fun doc hdoc => failure_alone_eq_none_iff.1 (h doc hdoc)
      exact ⟨fun doc hdoc => (hown doc hdoc).1, fun doc hdoc => (hown doc hdoc).2⟩
  refine ⟨hnone, fun h => ?_, fun h => ?_, fun h => ?_, gate_of_failure⟩
  · refine ⟨fun doc => (sectionFor doc).text, fun doc hdoc => ?_, code_of_failure_eq_none h⟩
    have hown := code_of_failure_eq_none (hnone.1 h doc hdoc)
    simpa using hown
  · have hlexical : docs.flatMap lexical ≠ [] := by simpa using h
    simp only [whole, run_of_lexical hlexical]
    exact ⟨rfl, rfl, rfl⟩
  · rw [diagnostics_of_no_lexical (List.flatMap_eq_nil_iff.2 h)]
    rw [List.flatMap_def, List.flatMap_def]
    exact congrArg List.flatten (List.map_congr_left fun doc hdoc => (diagnostics_alone (h doc hdoc)).symm)

def counting : Document := ⟨"a", ["n := 1", "if (n == 1) \x7b print(n + 2) \x7d"]⟩

def greeting : Document := ⟨"b", ["s := \"hi\"", "print(s)"]⟩

def openQuote : Document := ⟨"c", ["\""]⟩

/-- Two documents have the blocks that they have alone; beside a document that only opens a quote they are
not even assembled. -/
theorem run_beside_openQuote :
    ((∀ doc ∈ [counting, greeting], lexical doc = []) ∧ (run {} [counting, greeting]).failure = none ∧
      ∃ block : Document → String,
        (run {} [counting]).code = C.preamble ++ block counting ++ C.ending ∧
        (run {} [greeting]).code = C.preamble ++ block greeting ++ C.ending ∧
        (run {} [counting, greeting]).code = C.preamble ++ String.join [block counting, block greeting] ++ C.ending ∧
        block counting = "\t/* a */\n\t\x7b\n\t\tint lai_v_n = 1;\n\t\tif (lai_v_n == 1) \x7b\n" ++
          "\t\t\tprintf(\"%d\\n\", (lai_v_n + 2));\n\t\t\x7d\n\t\x7d\n") ∧
    (∃ doc ∈ [counting, openQuote], lexical doc ≠ []) ∧ (run {} [counting, openQuote]).files = none := by
  have hclean : ∀ doc ∈ [counting, greeting], lexical doc = [] := by decide +kernel
  have hcounting : (assembly counting).diagnostics = [] :=
    Assembly.diagnostics_eq_nil_iff.2 ⟨by decide +kernel, by decide +kernel⟩
  have hgreeting : (assembly greeting).diagnostics = [] :=
    Assembly.diagnostics_eq_nil_iff.2 ⟨by decide +kernel, by decide +kernel⟩
  have hnone : (run {} [counting, greeting]).failure = none := by
    refine failure_eq_none_iff.2 ⟨List.flatMap_eq_nil_iff.2 hclean, ?_⟩
    simp only [List.flatMap_cons, List.flatMap_nil, hcounting, hgreeting, List.append_nil]
  have hlexical : ∃ doc ∈ [counting, openQuote], lexical doc ≠ [] := by decide +kernel
  obtain ⟨block, hown, hcode⟩ := (run_independent 1 1 [counting, greeting]).2.1 hnone
  have halone := hown counting (by simp)
  have hsection : (run {} [counting]).code = C.preamble ++ (sectionFor counting).text ++ C.ending := by
    simpa using code_of_failure_eq_none (failure_alone_eq_none_iff.2 ⟨hclean counting (by simp), hcounting⟩)
  have hblock : block counting = (sectionFor counting).text := by
    rw [halone, String.append_assoc, String.append_assoc, String.append_right_inj, String.append_left_inj] at hsection
    exact hsection
  refine ⟨⟨hclean, hnone, block, halone, hown greeting (by simp), hcode, ?_⟩, hlexical,
    ((run_independent 1 1 [counting, openQuote]).2.2.1 hlexical).2.1⟩
  rw [hblock]
  decide +kernel

end Lai.Build
