import Lai.Command
import Lai.Host.Session
import Lai.Proofs.Build.Reports
import Lai.Proofs.Host.FileTree
import Lai.Proofs.Text.Bytes
/-!
# The command does all or nothing

Up to the last gate the command only reads and prints. So whatever makes it fail there, be it the
arguments, a file or the build, the files are left as they were; after the last gate one file is written.
-/

namespace Lai

/-- The session after more has been printed. -/
def Session.printing (s : Session) (output errors : String) : Session :=
  { s with output := s.output ++ output, errors := s.errors ++ errors }

namespace Session

variable (s : Session)

@[simp] theorem printing_empty : s.printing "" "" = s := by
  simp [printing]

theorem tree_printing (output errors : String) : (s.printing output errors).tree = s.tree := rfl

@[simp] theorem printing_printing (output errors more worse : String) :
    (s.printing output errors).printing more worse = s.printing (output ++ more) (errors ++ worse) := by
  simp [printing, String.append_assoc]

end Session

namespace Build

/-! ### Builds that may be called off -/

variable {workers : Int} {cancelled : Bool} {docs : List Document}

/-- A build that is called off has nothing but its first announcement. -/
theorem run_cancelled_or (workers : Int) (cancelled : Bool) (docs : List Document) :
    run { workers := workers, cancelled := cancelled } docs =
      if cancelled && !docs.isEmpty then { stages := [.tokenizing docs.length], failure := some .cancelled }
      else run { workers := workers } docs := by
  rfl

theorem diagnostics_ne_nil_of_failure (h : (run { workers := workers } docs).failure ≠ none) :
    (run { workers := workers } docs).log.diagnostics ≠ [] := by
  rw [Ne, failure_eq_none_iff] at h
  by_cases hlexical : docs.flatMap lexical = []
  · rw [diagnostics_of_no_lexical hlexical]
    exact fun hclean => h ⟨hlexical, hclean⟩
  · rw [run_of_lexical hlexical]
    exact hlexical

/-- A gate that ends a build counts what is in the log, and there is something in it. -/
theorem count_of_gate {stage : String} {count : Int}
    (h : (run { workers := workers, cancelled := cancelled } docs).failure = some (.gate stage count)) :
    count = (run { workers := workers, cancelled := cancelled } docs).log.diagnostics.length ∧ 0 < count := by
  rw [run_cancelled_or] at h ⊢
  split at h
  · simp at h
  · rename_i hgoes
    rw [if_neg hgoes]
    have hfailure : (run { workers := workers } docs).failure ≠ none := by
      rw [h]
      exact Option.some_ne_none _
    obtain ⟨-, stage', hstage⟩ := gate_of_failure hfailure
    rw [h, Option.some.injEq, Failure.gate.injEq] at hstage
    have hpos := List.length_pos_iff.2 (diagnostics_ne_nil_of_failure hfailure)
    exact ⟨hstage.2, by omega⟩

/-- A build that succeeds has the target text of the trees of its documents, in their order. -/
theorem compile_eq_code (h : (run { workers := workers, cancelled := cancelled } docs).failure = none) :
    C.compile (docs.map fun doc => (assembly doc).file) =
      .ok (run { workers := workers, cancelled := cancelled } docs).code := by
  rw [run_cancelled_or] at h ⊢
  split at h
  · simp at h
  · rename_i hgoes
    obtain ⟨hlexical, hclean⟩ := failure_eq_none_iff.1 h
    rw [if_neg hgoes, run_of_clean hlexical hclean]
    exact compile_assembled (List.flatMap_eq_nil_iff.1 hclean)

end Build

namespace Command

/-- The files are the last arguments. -/
theorem files_suffix_of_follow {settings followed : Settings} {args : List String}
    (h : settings.follow args = .ok followed) : followed.files <:+ args := by
  fun_induction Settings.follow settings args with
  | case1 =>
      obtain rfl := Except.ok.inj h
      exact List.suffix_rfl
  | case2 =>
      obtain rfl := Except.ok.inj h
      exact List.suffix_rfl
  | case3 =>
      obtain rfl := Except.ok.inj h
      exact List.suffix_cons _ _
  | case6 _ _ _ _ _ _ _ ih => exact (ih h).trans (List.suffix_cons _ _)
  | case8 _ _ _ _ _ _ _ _ _ _ ih => exact (ih h).trans (List.suffix_cons _ _)
  | case10 _ _ _ _ _ _ _ _ _ _ ih => exact (ih h).trans (List.suffix_cons _ _)
  | case13 _ _ _ _ _ _ _ _ _ _ ih => exact ((ih h).trans (List.suffix_cons _ _)).trans (List.suffix_cons _ _)
  | _ => contradiction

theorem files_suffix_of_ofArgs {settings : Settings} {args : List String} {history : String}
    (h : Settings.ofArgs args history = .ok settings) : settings.files <:+ args := by
  unfold Settings.ofArgs at h
  cases hfollow : Settings.follow {} args with
  | error e => simp [hfollow] at h
  | ok followed =>
      simp only [hfollow] at h
      have hfiles := files_suffix_of_follow hfollow
      split at h
      · contradiction
      · obtain rfl := Except.ok.inj h
        exact hfiles

/-! ### What the parts of the command do -/

/-- The lines of the log, if the log was asked for. -/
def logText (settings : Settings) (messages : List String) : String :=
  if settings.verbose then String.join (messages.map fun message => "laic: " ++ message ++ "\n") else ""

/-- The announcements that files are loaded. -/
def loading (files : List String) : List String :=
  files.map fun path => "Loading file: " ++ path ++ "..."

/-- The documents at the given paths, or the error of the first path that cannot be read. -/
def load (tree : FileTree) (files : List String) : Except FileError (List Document) :=
  files.mapM fun path => (tree.read path).map fun bytes => .ofText path (Text.decode bytes)

theorem load_cons {tree : FileTree} {path : String} {rest : List String} {docs : List Document}
    (h : load tree (path :: rest) = .ok docs) :
    ∃ bytes more, tree.read path = .ok bytes ∧ load tree rest = .ok more ∧
      docs = .ofText path (Text.decode bytes) :: more := by
  rw [load, List.mapM_cons] at h
  cases hread : tree.read path with
  | error e => rw [hread] at h; contradiction
  | ok bytes =>
      rw [hread] at h
      cases hrest : load tree rest with
      | error e => rw [← load, hrest] at h; contradiction
      | ok more =>
          rw [← load, hrest] at h
          exact ⟨bytes, more, rfl, rfl, (Except.ok.inj h).symm⟩

/-- The documents have the names of their files, in that order, and hold what is read there. -/
theorem documents_of_load {tree : FileTree} {files : List String} {docs : List Document}
    (h : load tree files = .ok docs) : docs.map (·.name) = files ∧
      ∀ doc ∈ docs, ∃ bytes, tree.read doc.name = .ok bytes ∧ doc = .ofText doc.name (Text.decode bytes) := by
  induction files generalizing docs with
  | nil =>
      obtain rfl : [] = docs := Except.ok.inj h
      exact ⟨rfl, fun doc hdoc => nomatch hdoc⟩
  | cons path rest ih =>
      obtain ⟨bytes, more, hread, hrest, rfl⟩ := load_cons h
      obtain ⟨hnames, hmore⟩ := ih hrest
      refine ⟨by rw [List.map_cons, hnames]; rfl, fun doc hdoc => ?_⟩
      rcases List.mem_cons.1 hdoc with rfl | hdoc
      · exact ⟨bytes, hread, rfl⟩
      · exact hmore doc hdoc

/-- Files that are named twice are read twice, and give the same document. -/
theorem eq_of_load {tree : FileTree} {files : List String} {docs : List Document} (h : load tree files = .ok docs)
    {doc other : Document} (hdoc : doc ∈ docs) (hother : other ∈ docs) (hname : other.name = doc.name) : other = doc := by
  obtain ⟨bytes, hread, hof⟩ := (documents_of_load h).2 doc hdoc
  obtain ⟨more, hmore, hofOther⟩ := (documents_of_load h).2 other hother
  rw [hname, hread] at hmore
  rw [hof, hofOther, hname, Except.ok.inj hmore]

variable (styles : Styles) (settings : Settings) (s : Session)

theorem run_bind_eq {α β : Type} {x : StateM Session α} {f : α → StateM Session β} {s after : Session} {a : α}
    (h : x.run s = (a, after)) : (x >>= f).run s = (f a).run after := by
  rw [StateT.run_bind, h]
  rfl

theorem run_print (text : String) : (Host.print text : StateM Session Unit).run s = ((), s.printing text "") := by
  change ((), { s with output := s.output ++ text }) = _
  simp [Session.printing]

theorem run_printError (text : String) :
    (Host.printError text : StateM Session Unit).run s = ((), s.printing "" text) := by
  change ((), { s with errors := s.errors ++ text }) = _
  simp [Session.printing]

theorem logText_nil : logText settings [] = "" := by
  simp [logText]

theorem logText_append (first second : List String) :
    logText settings (first ++ second) = logText settings first ++ logText settings second := by
  unfold logText
  split
  · rw [List.map_append, String.join_append]
  · rfl

theorem run_announce (message : String) :
    (announce settings message : StateM Session Unit).run s = ((), s.printing "" (logText settings [message])) := by
  unfold announce logText
  split
  · simpa using run_printError s _
  · rw [Session.printing_empty]
    rfl

theorem run_announceAll {α : Type} (message : α → String) (xs : List α) :
    (xs.forM fun x => announce settings (message x) : StateM Session Unit).run s =
      ((), s.printing "" (logText settings (xs.map message))) := by
  induction xs generalizing s with
  | nil =>
      rw [List.map_nil, logText_nil, Session.printing_empty]
      rfl
  | cons x xs ih =>
      have hlog := logText_append settings [message x] (xs.map message)
      rw [List.singleton_append] at hlog
      have hrest := ih (s.printing "" (logText settings [message x]))
      rw [Session.printing_printing, ← hlog] at hrest
      simp only [List.forM_eq_forM, List.forM_cons, StateT.run_bind, run_announce]
      exact hrest

theorem run_readDocuments (files : List String) :
    (readDocuments files : StateM Session (Except FileError (List Document))).run s = (load s.tree files, s) := by
  induction files with
  | nil => rfl
  | cons path rest ih =>
      have hread : (FileReader.readFile path : StateM Session (Except FileError String)).run s =
          ((s.tree.read path).map Text.decode, s) := rfl
      -- Reading leaves the session alone, so the later files are read from the same tree.
      simp only [readDocuments, StateT.run_bind, hread, load, List.mapM_cons]
      cases hpath : s.tree.read path with
      | error e => rfl
      | ok text =>
          change (StateT.run (readDocuments rest >>= _) s : Id _) = _
          simp only [StateT.run_bind, ih, load]
          cases (rest.mapM fun path => (s.tree.read path).map fun bytes => Document.ofText path (Text.decode bytes)) <;> rfl

/-- What is printed about a build that failed. -/
def complaint (styles : Styles) (docs : List Document) (log : Log) : Build.Failure → String
  | .gate _ count => failureReport styles docs log count
  | _ => ""

/-- A file that has been written is announced, and without a compiler that is all. -/
theorem run_deliver (docs : List Document) (code : String) {tree : FileTree} (hcc : settings.cc = "")
    (hwrite : s.tree.write settings.output (Text.bytes code) = .ok tree) :
    (deliver settings docs code : StateM Session (Option Failure)).run s =
      (none, { s.printing ("compiled " ++ Nat.repr docs.length ++ " file(s) -> " ++ settings.output ++ "\n") "" with
        tree := tree }) := by
  have hfile : (Host.writeFile settings.output code : StateM Session (Except FileError Unit)).run s =
      (.ok (), { s with tree := tree }) := by
    change s.writeFile settings.output code = _
    rw [Session.writeFile, hwrite]
  rw [deliver, run_bind_eq hfile]
  dsimp only
  rw [run_bind_eq (run_print _ _), if_pos hcc]
  rfl

theorem run_deliver_error (docs : List Document) (code : String) {e : FileError}
    (hwrite : s.tree.write settings.output (Text.bytes code) = .error e) :
    (deliver settings docs code : StateM Session (Option Failure)).run s = (some (.write settings.output e), s) := by
  have hfile : (Host.writeFile settings.output code : StateM Session (Except FileError Unit)).run s = (.error e, s) := by
    change s.writeFile settings.output code = _
    rw [Session.writeFile, hwrite]
  rw [deliver, run_bind_eq hfile]
  rfl

theorem run_remember (record : Build.Record) (hhistory : settings.history = "") :
    (remember settings record : StateM Session Unit).run s = ((), s) := by
  rw [remember, if_neg fun h => h hhistory]
  rfl

/-- Without a history, a build is announced and dumped before anything is done about its end. -/
theorem run_compileDocuments (docs : List Document) (cancelled : Bool) (hhistory : settings.history = "") :
    (compileDocuments styles settings docs cancelled : StateM Session (Option Failure)).run s =
      let outcome := Build.run { workers := settings.workers, cancelled := cancelled } docs
      let shown := s.printing (dumps settings docs outcome) (logText settings (outcome.stages.map (·.text)))
      match outcome.failure with
      | none => (deliver settings docs outcome.code : StateM Session (Option Failure)).run shown
      | some failure => (some (.build failure), shown.printing "" (complaint styles docs outcome.log failure)) := by
  have hclock (s : Session) : (Host.clock : StateM Session Int).run s = (0, s) := rfl
  rw [compileDocuments, run_bind_eq (hclock s)]
  dsimp only
  rw [run_bind_eq (run_announceAll settings s _ _), run_bind_eq (hclock _), run_bind_eq (run_print _ _),
    run_bind_eq (run_remember settings _ _ hhistory), Session.printing_printing,
    String.empty_append, String.append_empty]
  cases (Build.run { workers := settings.workers, cancelled := cancelled } docs).failure with
  | none => rfl
  | some failure =>
      cases failure with
      | gate stage count =>
          dsimp only
          rw [run_bind_eq (run_printError _ _)]
          rfl
      | cancelled =>
          dsimp only [complaint]
          rw [Session.printing_empty]
          rfl
      | backend message =>
          dsimp only [complaint]
          rw [Session.printing_empty]
          rfl

/-! ### Whole runs -/

variable {styles settings s} {args : List String} {history : String} {docs : List Document} {cancelled : Bool}

theorem run_of_usage {e : UsageError} (hargs : Settings.ofArgs args history = .error e) :
    (run styles args history cancelled : StateM Session (Option Failure)).run s = (some (.usage e), s.printing "" e.report) := by
  rw [run, hargs]
  dsimp only
  rw [run_bind_eq (run_printError _ _)]
  rfl

theorem run_of_settings (hargs : Settings.ofArgs args history = .ok settings) :
    (run styles args history cancelled : StateM Session (Option Failure)).run s =
      let announced := s.printing "" (logText settings (loading settings.files))
      match load s.tree settings.files with
      | .error e => (some (.load e), announced)
      | .ok docs => (compileDocuments styles settings docs cancelled : StateM Session (Option Failure)).run announced := by
  rw [run, hargs]
  dsimp only
  rw [run_bind_eq (run_announceAll settings s _ _), run_bind_eq (run_readDocuments _ _),
    Session.tree_printing]
  cases load s.tree settings.files <;> rfl

section

variable {outcome : Build.Outcome} (hargs : Settings.ofArgs args history = .ok settings)
  (hhistory : settings.history = "") (hload : load s.tree settings.files = .ok docs)
  (hbuild : Build.run { workers := settings.workers, cancelled := cancelled } docs = outcome)

include hargs hhistory hload hbuild

theorem run_of_build : (run styles args history cancelled : StateM Session (Option Failure)).run s =
    let log := logText settings (loading settings.files ++ outcome.stages.map (·.text))
    let shown := s.printing (dumps settings docs outcome) log
    match outcome.failure with
    | none => (deliver settings docs outcome.code : StateM Session (Option Failure)).run shown
    | some failure => (some (.build failure), shown.printing "" (complaint styles docs outcome.log failure)) := by
  rw [run_of_settings hargs, hload]
  dsimp only
  rw [run_compileDocuments styles settings _ docs cancelled hhistory, hbuild, logText_append]
  dsimp only
  rw [Session.printing_printing, String.empty_append]

theorem run_of_failure {failure : Build.Failure} (hfailure : outcome.failure = some failure) :
    (run styles args history cancelled : StateM Session (Option Failure)).run s =
      (some (.build failure), s.printing (dumps settings docs outcome)
        (logText settings (loading settings.files ++ outcome.stages.map (·.text)) ++
          complaint styles docs outcome.log failure)) := by
  rw [run_of_build hargs hhistory hload hbuild, hfailure]
  dsimp only
  rw [Session.printing_printing, String.append_empty]

theorem run_of_success {tree : FileTree} (hfailure : outcome.failure = none) (hcc : settings.cc = "")
    (hwrite : s.tree.write settings.output (Text.bytes outcome.code) = .ok tree) :
    (run styles args history cancelled : StateM Session (Option Failure)).run s =
      (none, { s.printing (dumps settings docs outcome ++
          ("compiled " ++ Nat.repr docs.length ++ " file(s) -> " ++ settings.output ++ "\n"))
        (logText settings (loading settings.files ++ outcome.stages.map (·.text))) with tree := tree }) := by
  have hdeliver := run_deliver settings (s.printing (dumps settings docs outcome)
    (logText settings (loading settings.files ++ outcome.stages.map (·.text)))) docs outcome.code hcc hwrite
  rw [run_of_build hargs hhistory hload hbuild, hfailure]
  rw [Session.printing_printing, String.append_empty] at hdeliver
  exact hdeliver

theorem run_of_write_error {e : FileError} (hfailure : outcome.failure = none)
    (hwrite : s.tree.write settings.output (Text.bytes outcome.code) = .error e) :
    (run styles args history cancelled : StateM Session (Option Failure)).run s =
      (some (.write settings.output e), s.printing (dumps settings docs outcome)
        (logText settings (loading settings.files ++ outcome.stages.map (·.text)))) := by
  rw [run_of_build hargs hhistory hload hbuild, hfailure]
  exact run_deliver_error settings _ docs outcome.code hwrite

end

/-! ### What is shown of a failed build -/

theorem not_mem_numbered {c : Char} (hc : c.isDigit = false) {front back : String} (hfront : c ∉ front.toList)
    (hback : c ∉ back.toList) (n : Nat) : c ∉ (front ++ Text.decimal n ++ back).toList := by
  have hnumber : c ∉ (Text.decimal n).toList := by
    change c ∉ (Nat.repr n).toList
    rw [Nat.toList_repr]
    intro hmem
    rw [Nat.isDigit_of_mem_toDigits (by decide) (by decide) hmem] at hc
    contradiction
  simp [hfront, hnumber, hback]

/-- All of the failure line is seen, whatever the style. -/
theorem visible_failureLine (style : Style) (n : Nat) :
    Text.visible (style.render ("Compilation failed with " ++ Text.decimal n ++ " errors.")) =
      "Compilation failed with " ++ Text.decimal n ++ " errors." :=
  style.visible_render_line (not_mem_numbered (by decide) (by decide) (by decide) n)
    (not_mem_numbered (by decide) (by decide) (by decide) n) (not_mem_numbered (by decide) (by decide) (by decide) n)

/-- What a build reports about files is shown with a line of the file. -/
theorem render_of_load (styles : Styles) {tree : FileTree} {files : List String} (hload : load tree files = .ok docs)
    {options : Build.Options} {d : Diagnostic} (hd : d ∈ (Build.run options docs).log.diagnostics) :
    ∃ doc ∈ docs, doc.name = d.file ∧ d.loc.IsIn doc ∧ d.render styles docs = d.excerpt styles doc := by
  rw [Build.diagnostics_run] at hd
  obtain ⟨doc, hdoc, hreported⟩ := List.mem_flatMap.1 hd
  obtain ⟨hfile, hloc⟩ := Build.place_of_mem_reported hreported
  obtain ⟨front, found, back, hdocs, hname, -, hrender⟩ := Diagnostic.render_eq_excerpt_last styles hdoc hfile
  obtain rfl : found = doc := eq_of_load hload hdoc (by simp [hdocs]) hname
  exact ⟨found, hdoc, hfile.symm, hloc, hrender⟩

/-- The command does all or nothing, if no history is kept. If the arguments cannot be followed, a file
cannot be read or the build fails, it fails with that; the files stay as they were, and nothing but the
dumps that were asked for is printed. If a gate has ended the build, what is printed about it ends with a
block for each diagnostic of the log, with the line of the file that it is about, and with their number.
If the build succeeds and its output can be written, only the file at that path changes, and it gets the
target text of the trees of the files as they were given. -/
theorem run_all_or_nothing (styles : Styles) (args : List String) (history : String) (cancelled : Bool)
    (before : Session)
    (hhistory : ∀ settings, Settings.ofArgs args history = .ok settings → settings.history = "") :
    let result := (run styles args history cancelled : StateM Session (Option Failure)).run before
    let after := result.2
    (∀ e, Settings.ofArgs args history = .error e →
      result.1 = some (.usage e) ∧ after.tree = before.tree ∧ after.output = before.output) ∧
    ∀ settings, Settings.ofArgs args history = .ok settings →
      settings.files <:+ args ∧
      (∀ e, load before.tree settings.files = .error e →
        result.1 = some (.load e) ∧ after.tree = before.tree ∧ after.output = before.output) ∧
      ∀ docs, load before.tree settings.files = .ok docs →
        let outcome := Build.run { workers := settings.workers, cancelled := cancelled } docs
        docs.map (·.name) = settings.files ∧
        (∀ failure, outcome.failure = some failure →
          result.1 = some (.build failure) ∧ after.tree = before.tree ∧
          after.output = before.output ++ dumps settings docs outcome ∧
          ∀ stage count, failure = .gate stage count →
            let log := logText settings (loading settings.files ++ outcome.stages.map (·.text))
            let diagnostics := outcome.log.diagnostics
            let line := "Compilation failed with " ++ Text.decimal diagnostics.length ++ " errors."
            count = diagnostics.length ∧ 0 < diagnostics.length ∧ Text.visible (styles.header.render line) = line ∧
            ∃ block : Diagnostic → String,
              after.errors = before.errors ++ log ++ String.join (diagnostics.map block) ++
                styles.header.render line ++ "\n" ∧
              ∀ d ∈ diagnostics, ∃ doc ∈ docs, doc.name = d.file ∧ d.loc.IsIn doc ∧ block d =
                styles.header.render
                  ("Error in file '" ++ d.file ++ "(" ++ Text.decimal (Location.ordinal d.loc.line) ++ ")':") ++
                "\n\t" ++ (doc.line d.loc.line).map (fun c => if c = '\t' then ' ' else c) ++
                "\n\t" ++ String.ofList (List.replicate d.loc.column.toNat ' ') ++ styles.caret.render "^" ++
                "\n" ++ styles.kind.render (d.category.text ++ ":") ++ " " ++ d.message ++ "\n\n") ∧
        (outcome.failure = none →
          (∀ e, before.tree.write settings.output (Text.bytes outcome.code) = .error e →
            result.1 = some (.write settings.output e) ∧ after.tree = before.tree) ∧
          (settings.cc = "" → ∀ tree, before.tree.write settings.output (Text.bytes outcome.code) = .ok tree →
            result.1 = none ∧ before.tree.Wrote settings.output (Text.bytes outcome.code) after.tree ∧
            (before.tree.find? settings.output ≠ some .sink →
              (∀ number, before.tree.find? settings.output = some (.file number) →
                (before.tree.data number).access.read = true) →
              after.readFile settings.output = .ok outcome.code) ∧
            C.compile (docs.map fun doc => (Build.assembly doc).file) = .ok outcome.code)) := by
  intro result after
  refine ⟨fun e hargs => ?_, fun settings hargs => ⟨files_suffix_of_ofArgs hargs, fun e hload => ?_, fun docs hload =>
    ⟨(documents_of_load hload).1, fun failure hfailure => ?_, fun hfailure => ⟨fun e hwrite => ?_, ?_⟩⟩⟩⟩
  · have hrun : result = _ := run_of_usage hargs
    rw [show after = result.2 from rfl, hrun]
    exact ⟨rfl, rfl, String.append_empty⟩
  · have hrun : result = _ := run_of_settings hargs
    rw [hload] at hrun
    rw [show after = result.2 from rfl, hrun]
    exact ⟨rfl, rfl, String.append_empty⟩
  · have hrun : result = _ := run_of_failure hargs (hhistory settings hargs) hload rfl hfailure
    rw [show after = result.2 from rfl, hrun]
    refine ⟨rfl, rfl, rfl, ?_⟩
    intro stage count hgate log diagnostics line
    rw [hgate] at hfailure
    obtain ⟨hcount, hpos⟩ := Build.count_of_gate hfailure
    have hlength : 0 < diagnostics.length := Int.natCast_pos.1 (hcount ▸ hpos)
    refine ⟨hcount, hlength, visible_failureLine _ _, fun d => d.render styles docs, ?_, fun d hd => ?_⟩
    · simp only [Session.printing, complaint, failureReport, Diagnostic.failureLine, String.append_assoc, hgate, hcount,
        log, line, diagnostics]
    · obtain ⟨doc, hdoc, hname, hloc, hrender⟩ := render_of_load styles hload hd
      exact ⟨doc, hdoc, hname, hloc, hrender⟩
  · have hrun : result = _ := run_of_write_error hargs (hhistory settings hargs) hload rfl hfailure hwrite
    rw [show after = result.2 from rfl, hrun]
    exact ⟨rfl, rfl⟩
  · intro hcc tree hwrite
    have hrun : result = _ := run_of_success hargs (hhistory settings hargs) hload rfl hfailure hcc hwrite
    rw [show after = result.2 from rfl, hrun]
    have hwrote := FileTree.wrote_of_write hwrite
    refine ⟨rfl, hwrote, fun hsink hreadable => ?_, Build.compile_eq_code hfailure⟩
    rw [Session.readFile, hwrote.read hsink hreadable, Except.map, Text.decode_bytes]

/-- A desk with two texts, a file that cannot be read, and an output that has two names and a link to it. -/
def desk : Session where
  tree := {
    home := ["desk"]
    nodes := [(["desk"], .folder {}), (["desk", "a.lai"], .file 0), (["desk", "b.lai"], .file 1),
      (["desk", "locked.lai"], .file 2), (["desk", "out.c"], .file 3), (["desk", "copy.c"], .file 3),
      (["desk", "to.c"], .link "../desk/out.c")]
    store := [(0, { bytes := Text.bytes "n := 1\nprint(n + 2)\n" }), (1, { bytes := Text.bytes "?" }),
      (2, { access := { read := false } }), (3, { bytes := Text.bytes "old" })] }

/-- The first text is compiled into the output, by its link and under both its names; the second is refused
and shown; the file that cannot be read is not touched. -/
theorem all_or_nothing_at_desk :
    ((∀ settings, Settings.ofArgs ["-o", "to.c", "a.lai"] "" = .ok settings → settings.history = "") ∧
      let result := (run .plain ["-o", "to.c", "a.lai"] "" : StateM Session (Option Failure)).run desk
      result.1 = none ∧ result.2.tree.content? "b.lai" = some (Text.bytes "?") ∧
      ∃ code, C.compile [(Build.assembly ⟨"a.lai", ["n := 1", "print(n + 2)"]⟩).file] = .ok code ∧
        result.2.readFile "to.c" = .ok code ∧ result.2.tree.content? "out.c" = some (Text.bytes code) ∧
        result.2.tree.content? "copy.c" = some (Text.bytes code)) ∧
    ((∀ settings, Settings.ofArgs ["b.lai"] "" = .ok settings → settings.history = "") ∧
      let result := (run .plain ["b.lai"] "" : StateM Session (Option Failure)).run desk
      result.1 = some (.build (.gate "tokenizing" 1)) ∧ result.2.tree = desk.tree ∧
      result.2.errors = "Error in file 'b.lai(1)':\n\t?\n\t^\nlexical error: unrecognized character '?'\n\n" ++
        "Compilation failed with 1 errors.\n") ∧
    (∀ settings, Settings.ofArgs ["locked.lai"] "" = .ok settings → settings.history = "") ∧
      let result := (run .plain ["locked.lai"] "" : StateM Session (Option Failure)).run desk
      result.1 = some (.load ⟨.opening, "locked.lai", .denied⟩) ∧ result.2.tree = desk.tree := by
  have hhistory {args : List String} {settings : Settings} (h : Settings.ofArgs args "" = .ok settings)
      (hempty : settings.history = "") : ∀ found, Settings.ofArgs args "" = .ok found → found.history = "" := by
    intro found hfound
    rw [h] at hfound
    rwa [← Except.ok.inj hfound]
  have hofText (name text : String) (lines : List String) (h : (Document.ofText name text).lines = lines) :
      Document.ofText name (Text.decode (Text.bytes text)) = ⟨name, lines⟩ := by
    rw [Text.decode_bytes, ← h]
    rfl
  refine ⟨?_, ?_, ?_⟩
  · have hargs : Settings.ofArgs ["-o", "to.c", "a.lai"] "" = .ok { output := "to.c", files := ["a.lai"] } := rfl
    have hload : load desk.tree ["a.lai"] = .ok [⟨"a.lai", ["n := 1", "print(n + 2)"]⟩] := by
      rw [← hofText "a.lai" "n := 1\nprint(n + 2)\n" _ (by decide +kernel)]
      rfl
    have hfailure : (Build.run {} [⟨"a.lai", ["n := 1", "print(n + 2)"]⟩]).failure = none :=
      Build.failure_alone_eq_none_iff.2 ⟨by decide +kernel,
        Assembly.diagnostics_eq_nil_iff.2 ⟨by decide +kernel, by decide +kernel⟩⟩
    have hto : desk.tree.find? "to.c" = some (.file 3) := rfl
    refine ⟨hhistory hargs rfl, ?_⟩
    obtain ⟨hnone, hwrote, hread, hcompile⟩ :=
      ((((run_all_or_nothing .plain _ "" false desk (hhistory hargs rfl)).2 _ hargs).2.2 _ hload).2.2 hfailure).2 rfl
        _ rfl
    refine ⟨hnone, ?_, _, hcompile, ?_, hwrote.shared "out.c" 3 rfl hto, hwrote.shared "copy.c" 3 rfl hto⟩
    · refine Classical.byContradiction fun hchanged => ?_
      have hsame : some (FileNode.file 1) = some (FileNode.file 3) := (hwrote.changed "b.lai" hchanged).1
      contradiction
    · refine hread (by rw [hto]; simp) fun number hnumber => ?_
      rw [hto, Option.some.injEq, FileNode.file.injEq] at hnumber
      rw [← hnumber]
      rfl
  · have hargs : Settings.ofArgs ["b.lai"] "" = .ok { files := ["b.lai"] } := rfl
    have hload : load desk.tree ["b.lai"] = .ok [⟨"b.lai", ["?"]⟩] := by
      rw [← hofText "b.lai" "?" _ (by decide +kernel)]
      rfl
    have hlexical : [⟨"b.lai", ["?"]⟩].flatMap Build.lexical =
        [⟨"b.lai", ⟨0, 0⟩, .lexical, "unrecognized character '?'"⟩] := by decide +kernel
    have hrun : Build.run {} [⟨"b.lai", ["?"]⟩] = _ := Build.run_of_lexical (hlexical ▸ List.cons_ne_nil _ _)
    rw [hlexical] at hrun
    have hfailure := congrArg (·.failure) hrun
    have hlog : (Build.run {} [⟨"b.lai", ["?"]⟩]).log.diagnostics = _ := (congrArg (·.log.diagnostics) hrun).trans hlexical
    refine ⟨hhistory hargs rfl, ?_⟩
    obtain ⟨hfailed, htree, -, hgate⟩ :=
      (((run_all_or_nothing .plain _ "" false desk (hhistory hargs rfl)).2 _ hargs).2.2 _ hload).2.1 _ hfailure
    refine ⟨hfailed, htree, ?_⟩
    obtain ⟨-, -, -, block, herrors, hblock⟩ := hgate _ _ rfl
    obtain ⟨doc, hdoc, -, -, htext⟩ := hblock _ (hlog ▸ List.mem_singleton_self _)
    obtain rfl := List.mem_singleton.1 hdoc
    rw [herrors, hlog, List.map_singleton, htext]
    decide +kernel
  · have hargs : Settings.ofArgs ["locked.lai"] "" = .ok { files := ["locked.lai"] } := rfl
    have hload : load desk.tree ["locked.lai"] = .error ⟨.opening, "locked.lai", .denied⟩ := rfl
    refine ⟨hhistory hargs rfl, ?_⟩
    obtain ⟨hfailed, htree, -⟩ :=
      ((run_all_or_nothing .plain _ "" false desk (hhistory hargs rfl)).2 _ hargs).2.1 _ hload
    exact ⟨hfailed, htree⟩

end Command

end Lai
