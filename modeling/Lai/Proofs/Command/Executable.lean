import Lai.Command
/-!
# Programs beside their C files

A path is a folder, which is empty or ends with a slash, and a name without slashes. The program made
from a C file is put into the folder of the file, under another name. It gets a name of its own, with
one exception: a file in a folder whose name is nothing but an extension leaves no name over, and the
path of its program is the folder.
-/

namespace Lai.Text.Path

/-- The part of the path up to its last slash. -/
def folderPart (path : List Char) : List Char :=
  (path.reverse.dropWhile (· ≠ '/')).reverse

theorem folderPart_append_lastPart (path : List Char) : folderPart path ++ lastPart path = path := by
  rw [folderPart, lastPart, ← List.reverse_append, List.takeWhile_append_dropWhile, List.reverse_reverse]

theorem slash_notMem_lastPart (path : List Char) : '/' ∉ lastPart path := by
  intro h
  have hall := List.all_eq_true.1 (List.all_takeWhile (p := (· ≠ '/')) (l := path.reverse)) '/' (List.mem_reverse.1 h)
  simp at hall

/-! ### Names behind a path -/

section

variable {front name : List Char}

theorem ne_slash_of_mem_reverse (hname : '/' ∉ name) : ∀ c ∈ name.reverse, decide (c ≠ '/') = true := by
  intro c hc
  rw [decide_eq_true_eq]
  rintro rfl
  exact hname (List.mem_reverse.1 hc)

theorem folderPart_append (hname : '/' ∉ name) : folderPart (front ++ name) = folderPart front := by
  rw [folderPart, List.reverse_append, List.dropWhile_append_of_pos (ne_slash_of_mem_reverse hname), folderPart]

theorem lastPart_append (hname : '/' ∉ name) : lastPart (front ++ name) = lastPart front ++ name := by
  rw [lastPart, List.reverse_append, List.takeWhile_append_of_pos (ne_slash_of_mem_reverse hname), List.reverse_append,
    List.reverse_reverse, lastPart]

end

/-- A folder is a path whose last element is empty. -/
theorem lastPart_folderPart (path : List Char) : lastPart (folderPart path) = [] := by
  have h : lastPart (folderPart path ++ lastPart path) = _ := lastPart_append (slash_notMem_lastPart path)
  rw [folderPart_append_lastPart] at h
  exact List.append_left_eq_self.1 h.symm

theorem folderPart_folderPart (path : List Char) : folderPart (folderPart path) = folderPart path := by
  have h := folderPart_append_lastPart (folderPart path)
  rwa [lastPart_folderPart, List.append_nil] at h

/-! ### Extensions -/

/-- A name with a dot in it is cut at its last dot. -/
theorem exists_stem {name : List Char} (h : '.' ∈ name) : ∃ stem ext, name = stem ++ '.' :: ext ∧ '.' ∉ ext := by
  obtain ⟨ext, stem, hreverse, hext⟩ := List.eq_append_cons_of_mem (List.mem_reverse.2 h)
  refine ⟨stem.reverse, ext.reverse, ?_, by simpa using hext⟩
  rw [← List.reverse_reverse name, hreverse]
  simp

theorem eq_nil_of_dot_cons_eq {middle ext ext' : List Char} (hext : '.' ∉ ext)
    (h : '.' :: ext = middle ++ '.' :: ext') : middle = [] := by
  cases middle with
  | nil => rfl
  | cons c middle => exact absurd ((List.cons.inj h).2 ▸ by simp) hext

/-- There is only one way to cut a name at its last dot. -/
theorem stem_inj {stem stem' ext ext' : List Char} (hext : '.' ∉ ext) (hext' : '.' ∉ ext')
    (h : stem ++ '.' :: ext = stem' ++ '.' :: ext') : stem = stem' := by
  rcases List.append_eq_append_iff.1 h with ⟨middle, hstem, hrest⟩ | ⟨middle, hstem, hrest⟩
  · rw [hstem, eq_nil_of_dot_cons_eq hext hrest, List.append_nil]
  · rw [hstem, eq_nil_of_dot_cons_eq hext' hrest, List.append_nil]

section

variable {front ext : List Char} {path : String}

theorem extensionLength_of_dot (hslash : '/' ∉ ext) (hdot : '.' ∉ ext) :
    extensionLength (front ++ '.' :: ext) = ext.length + 1 := by
  have hrun : ∀ c ∈ ext.reverse, decide (c ≠ '/' ∧ c ≠ '.') = true := by
    intro c hc
    rw [decide_eq_true_eq]
    exact ⟨fun h => hslash (h ▸ List.mem_reverse.1 hc), fun h => hdot (h ▸ List.mem_reverse.1 hc)⟩
  have hreverse : (front ++ '.' :: ext).reverse = ext.reverse ++ '.' :: front.reverse := by simp
  have htail : (front ++ '.' :: ext).reverse.takeWhile (fun c => c ≠ '/' ∧ c ≠ '.') = ext.reverse := by
    rw [hreverse, List.takeWhile_append_of_pos hrun]
    simp
  rw [extensionLength, htail, hreverse]
  simp

theorem exists_ext_of_extensionLength_ne_zero {path : List Char} (h : extensionLength path ≠ 0) :
    ∃ front ext, path = front ++ '.' :: ext ∧ '/' ∉ ext := by
  have hsplit := List.takeWhile_append_dropWhile (p := fun c => decide (c ≠ '/' ∧ c ≠ '.')) (l := path.reverse)
  have hrun := List.all_eq_true.1 (List.all_takeWhile (p := fun c => decide (c ≠ '/' ∧ c ≠ '.')) (l := path.reverse))
  have hfound : path.reverse[(path.reverse.takeWhile fun c => c ≠ '/' ∧ c ≠ '.').length]? = some '.' := by
    by_cases hdot : path.reverse[(path.reverse.takeWhile fun c => c ≠ '/' ∧ c ≠ '.').length]? = some '.'
    · exact hdot
    · exact absurd (if_neg hdot) h
  generalize path.reverse.takeWhile (fun c => decide (c ≠ '/' ∧ c ≠ '.')) = tail at hfound hsplit hrun
  generalize path.reverse.dropWhile (fun c => decide (c ≠ '/' ∧ c ≠ '.')) = front at hsplit
  rw [← hsplit, List.getElem?_append_right (Nat.le_refl _), Nat.sub_self] at hfound
  cases front with
  | nil => simp at hfound
  | cons c front =>
      obtain rfl : c = '.' := by simpa using hfound
      refine ⟨front.reverse, tail.reverse, ?_, ?_⟩
      · rw [← List.reverse_reverse path, ← hsplit]
        simp
      · intro hmem
        simpa using hrun '/' (List.mem_reverse.1 hmem)

theorem extensionLength_of_no_dot {path : List Char} (hdot : '.' ∉ lastPart path) : extensionLength path = 0 := by
  apply Decidable.byContradiction
  intro hne
  -- A dot found from the end, with no slash behind it, stands in the last element.
  obtain ⟨front, ext, rfl, hslash⟩ := exists_ext_of_extensionLength_ne_zero hne
  rw [lastPart_append (by simpa using hslash)] at hdot
  simp at hdot

theorem dropExtension_of_dot (hslash : '/' ∉ ext) (hdot : '.' ∉ ext) :
    dropExtension (String.ofList (front ++ '.' :: ext)) = String.ofList front := by
  rw [dropExtension, String.toList_ofList, extensionLength_of_dot hslash hdot]
  simp

theorem dropExtension_of_no_dot (hdot : '.' ∉ lastPart path.toList) : dropExtension path = path := by
  rw [dropExtension, extensionLength_of_no_dot hdot]
  simp

end

end Lai.Text.Path

namespace Lai.Command

open Text.Path

/-- The name that the program made from a C file of the given name gets in a folder. -/
inductive Renames (folder : List Char) : (name program : List Char) → Prop where
  | extend {name : List Char} (hdot : '.' ∉ name) : Renames folder name (name ++ ".out".toList)
  | extendBare {ext : List Char} (hfolder : folder = []) (hdot : '.' ∉ ext) :
      Renames folder ('.' :: ext) ('.' :: ext ++ ".out".toList)
  | cut {stem ext : List Char} (hrest : folder ++ stem ≠ []) (hdot : '.' ∉ ext) :
      Renames folder (stem ++ '.' :: ext) stem

namespace Renames

variable {folder name program : List Char}

theorem ne (h : Renames folder name program) : program ≠ name := by
  cases h with
  | extend => simp
  | extendBare => simp
  | cut => simp

theorem slash_notMem (h : Renames folder name program) (hname : '/' ∉ name) : '/' ∉ program := by
  cases h with
  | extend hdot => simpa using hname
  | extendBare hfolder hdot => simpa using hname
  | cut hrest hdot => exact fun hmem => hname (List.mem_append_left _ hmem)

/-- Unless it ends with the extension of programs, the name has been cut off in front of the last dot. -/
theorem eq_iff (h : Renames folder name program) {short : List Char} (hshort : ¬ ".out".toList <:+ short) :
    program = short ↔ folder ++ short ≠ [] ∧ ∃ ext, name = short ++ '.' :: ext ∧ '.' ∉ ext := by
  cases h with
  | extend hdot =>
      refine iff_of_false (fun heq => hshort (heq ▸ List.suffix_append _ _)) ?_
      rintro ⟨-, ext, hname, -⟩
      exact hdot (hname ▸ by simp)
  | extendBare hfolder hdot =>
      refine iff_of_false (fun heq => hshort (heq ▸ List.suffix_append _ _)) ?_
      rintro ⟨hrest, ext, hname, -⟩
      rw [hfolder, eq_nil_of_dot_cons_eq hdot hname] at hrest
      exact hrest rfl
  | cut hrest hdot =>
      constructor
      · rintro rfl
        exact ⟨hrest, _, rfl, hdot⟩
      · rintro ⟨-, ext, hname, hext⟩
        exact stem_inj hdot hext hname

end Renames

section

variable {front ext : List Char}

theorem programPath_of_no_dot {source : String} (hdot : '.' ∉ lastPart source.toList) :
    programPath source = source ++ ".out" := by
  rw [programPath, dropExtension_of_no_dot hdot]
  exact if_pos (.inr rfl)

theorem programPath_of_dot (hfront : front ≠ []) (hslash : '/' ∉ ext) (hdot : '.' ∉ ext) :
    programPath (String.ofList (front ++ '.' :: ext)) = String.ofList front := by
  have hshorter : String.ofList front ≠ String.ofList (front ++ '.' :: ext) := by
    intro h
    simpa using String.ofList_injective h
  have hsome : String.ofList front ≠ "" := fun h => hfront (String.ofList_eq_empty_iff.1 h)
  rw [programPath, dropExtension_of_dot hslash hdot]
  exact if_neg (not_or.2 ⟨hsome, hshorter⟩)

theorem programPath_of_bare (hslash : '/' ∉ ext) (hdot : '.' ∉ ext) :
    programPath (String.ofList ('.' :: ext)) = String.ofList ('.' :: ext) ++ ".out" := by
  have hbare : dropExtension (String.ofList ([] ++ '.' :: ext)) = String.ofList [] := dropExtension_of_dot hslash hdot
  rw [List.nil_append] at hbare
  rw [programPath, hbare]
  exact if_pos (.inl rfl)

end

/-- The program is put into the folder of the C file. -/
theorem exists_renames {folder name : List Char} (hfolder : lastPart folder = []) (hname : '/' ∉ name) :
    ∃ program, (programPath (String.ofList (folder ++ name))).toList = folder ++ program ∧ Renames folder name program := by
  by_cases hdot : '.' ∈ name
  · obtain ⟨stem, ext, rfl, hext⟩ := exists_stem hdot
    have hslash : '/' ∉ ext := fun hmem => hname (by simp [hmem])
    by_cases hrest : folder ++ stem = []
    · obtain ⟨rfl, rfl⟩ := List.append_eq_nil_iff.1 hrest
      refine ⟨'.' :: ext ++ ".out".toList, ?_, .extendBare rfl hext⟩
      rw [List.nil_append, List.nil_append, programPath_of_bare hslash hext, String.toList_append, String.toList_ofList,
        List.nil_append]
    · refine ⟨stem, ?_, .cut hrest hext⟩
      rw [← List.append_assoc, programPath_of_dot hrest hslash hext, String.toList_ofList]
  · refine ⟨name ++ ".out".toList, ?_, .extend hdot⟩
    have hlast : lastPart (String.ofList (folder ++ name)).toList = name := by
      rw [String.toList_ofList, lastPart_append hname, hfolder, List.nil_append]
    rw [programPath_of_no_dot (by rwa [hlast]), String.toList_append, String.toList_ofList, List.append_assoc]

/-- The program made from a C file is put beside the file: in its folder, under another name, which is empty
exactly if the file is in a folder and its name is nothing but an extension. It is one of the two names that
always mean a folder exactly if the name of the file is this name with an extension. -/
theorem program_beside_source (source : String) :
    let program := programPath source
    program ≠ source ∧ folderPart program.toList = folderPart source.toList ∧
    (lastPart program.toList = [] ↔
      folderPart source.toList ≠ [] ∧ ∃ ext, lastPart source.toList = '.' :: ext ∧ '.' ∉ ext) ∧
    ∀ dots ∈ [['.'], ['.', '.']],
      lastPart program.toList = dots ↔ ∃ ext, lastPart source.toList = dots ++ '.' :: ext ∧ '.' ∉ ext := by
  intro program
  obtain ⟨name, hprogram, hrenames⟩ :=
    exists_renames (lastPart_folderPart source.toList) (slash_notMem_lastPart source.toList)
  rw [folderPart_append_lastPart, String.ofList_toList] at hprogram
  have hslash := hrenames.slash_notMem (slash_notMem_lastPart source.toList)
  have hlast : lastPart program.toList = name := by
    rw [hprogram, lastPart_append hslash, lastPart_folderPart, List.nil_append]
  have hfolder : folderPart program.toList = folderPart source.toList := by
    rw [hprogram, folderPart_append hslash, folderPart_folderPart]
  refine ⟨fun heq => hrenames.ne (by rw [← hlast, heq]), hfolder, ?_, ?_⟩
  · rw [hlast, hrenames.eq_iff (by decide), List.append_nil]
    rfl
  · intro dots hdots
    have hout : ¬ ".out".toList <:+ dots ∧ dots ≠ [] := by
      revert dots
      decide
    rw [hlast, hrenames.eq_iff hout.1, and_iff_right]
    simp [hout.2]

/-- A file whose name is an extension leaves no name for the program but the folder. -/
theorem program_replaces_folder :
    lastPart "dir/.c".toList ≠ [] ∧ programPath "dir/.c" = "dir/" ∧ lastPart (programPath "dir/.c").toList = [] := by
  decide

end Lai.Command
