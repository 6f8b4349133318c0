import Lai.C.Program
/-!
# The sections of a program

Files are compiled one by one: each file alone decides whether it can be written and what its section
is, and the program is the sections in the order of the files between a fixed beginning and ending.
-/

namespace Lai.C

theorem head?_commentText (name : List Char) : (commentText name).head? = name.head? := by
  fun_cases commentText name <;> rfl

theorem sectionsOf_cons_eq_ok_iff {file : Tree.File} {files : List Tree.File} {sections : List Section} :
    sectionsOf (file :: files) = .ok sections ↔
      ∃ s ss, sectionOf file = .ok s ∧ sectionsOf files = .ok ss ∧ s :: ss = sections := by
  rw [sectionsOf]
  cases sectionOf file with
  | error message => simp
  | ok s => cases sectionsOf files <;> simp

/-- Files have the sections that they have one by one. -/
theorem sectionsOf_eq_ok_iff {files : List Tree.File} {sections : List Section} :
    sectionsOf files = .ok sections ↔ files.map sectionOf = sections.map .ok := by
  induction files generalizing sections with
  | nil => simp [sectionsOf, eq_comm]
  | cons file files ih =>
      rw [sectionsOf_cons_eq_ok_iff, List.map_cons, eq_comm (b := sections.map _), List.map_eq_cons_iff]
      constructor
      · rintro ⟨s, ss, hfile, hfiles, rfl⟩
        exact ⟨s, ss, rfl, hfile.symm, (ih.1 hfiles).symm⟩
      · rintro ⟨s, ss, rfl, hfile, hfiles⟩
        exact ⟨s, ss, hfile.symm, ih.2 hfiles.symm, rfl⟩

theorem exists_sectionOf_eq {files : List Tree.File} {sections : List Section}
    (h : files.map sectionOf = sections.map .ok) {s : Section} (hs : s ∈ sections) :
    ∃ file ∈ files, sectionOf file = .ok s := by
  have hmem : .ok s ∈ files.map sectionOf := by
    rw [h]
    exact List.mem_map_of_mem hs
  exact List.mem_map.1 hmem

/-- What is compiled is the text of a program with the files' sections. -/
theorem compile_eq_ok_iff {files : List Tree.File} {code : String} :
    compile files = .ok code ↔ ∃ sections, files.map sectionOf = sections.map .ok ∧ code = programText sections := by
  simp only [← sectionsOf_eq_ok_iff, compile]
  cases sectionsOf files with
  | error message => simp
  | ok sections => simp [eq_comm]

end Lai.C
