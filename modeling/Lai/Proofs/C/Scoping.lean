import Lai.Proofs.C.Writing
/-!
# Compiled files are well scoped

In the lines that a file is compiled to, read as C text, every variable is used behind its declaration and
inside the block of it, no variable is declared twice in the file, and no first value reads the variable
that it is given to. This holds of all trees, also of those with names that are declared again in one block.
-/

namespace Lai.C

open Context

theorem sectionOf_wellScoped {file : Tree.File} {s : Section} (h : sectionOf file = .ok s) :
    WellScoped (s.lines.map fun l => Reading.ofText l.text) := by
  obtain ⟨finish, hrun, _, hordinals⟩ := sectionOf_run h
  have htracks := Tracks.empty.run hrun
  rw [List.nil_append] at htracks
  have hlow (v : Var) (hv : v ∈ (s.lines.map fun l => l.line.reading).filterMap Reading.declared) : 1 ≤ v.ordinal :=
    hordinals v ((htracks.seen v).2 hv)
  have htexts : (s.lines.map fun l => Reading.ofText l.text) =
      (s.lines.map fun l => l.line.reading).map (Reading.map Var.text) := by
    rw [List.map_map]
    exact List.map_congr_left fun l _ => l.ofText_text
  rw [htexts]
  -- Variables with different ordinals or names are written differently, so nothing is mixed up in the text.
  exact htracks.wellScoped.map fun u hu v hv => Var.text_inj (hlow u hu) (hlow v hv)

/-- The lines of every file are well scoped. -/
theorem compile_wellScoped {files : List Tree.File} {code : String} (h : compile files = .ok code) :
    ∃ sections, files.map sectionOf = sections.map .ok ∧ code = programText sections ∧
      ∀ s ∈ sections, WellScoped (s.lines.map fun l => Reading.ofText l.text) := by
  obtain ⟨sections, hsections, hcode⟩ := compile_eq_ok_iff.1 h
  refine ⟨sections, hsections, hcode, fun s hs => ?_⟩
  obtain ⟨file, _, hfile⟩ := exists_sectionOf_eq hsections hs
  exact sectionOf_wellScoped hfile

/-- A file that declares `x` again and again, each time with the value of the one before: in one block, and
in both branches of a test. -/
def redeclaring : Tree.File :=
  let x (loc : Location) : Lai.Expr Binding := .var "x" ⟨.int, true⟩ loc
  ⟨"a.lai",
    [.declare "x" .int true (some (.int 1 ⟨0, 5⟩)) ⟨0, 0⟩,
     .declare "x" .int true (some (x ⟨1, 5⟩)) ⟨1, 0⟩,
     .ifElse ⟨.equal, x ⟨2, 4⟩, .int 1 ⟨2, 9⟩, ⟨2, 4⟩⟩ [.declare "x" .int true (some (x ⟨3, 6⟩)) ⟨3, 1⟩] ⟨4, 0⟩
       (.block [.declare "x" .int true (some (x ⟨5, 6⟩)) ⟨5, 1⟩, .print (x ⟨6, 7⟩) ⟨6, 1⟩] ⟨7, 0⟩) ⟨2, 0⟩,
     .print (x ⟨8, 6⟩) ⟨8, 0⟩]⟩

def redeclaringSection : Section :=
  ⟨"a.lai",
    [⟨2, .declare .int ⟨"x", 1⟩ (.int 1)⟩,
     ⟨2, .declare .int ⟨"x", 2⟩ (.var ⟨"x", 1⟩)⟩,
     ⟨2, .openIf ⟨.int, .equal, .var ⟨"x", 2⟩, .int 1⟩⟩,
     ⟨3, .declare .int ⟨"x", 3⟩ (.var ⟨"x", 2⟩)⟩,
     ⟨2, .openElse⟩,
     ⟨3, .declare .int ⟨"x", 4⟩ (.var ⟨"x", 2⟩)⟩,
     ⟨3, .print .int (.var ⟨"x", 4⟩)⟩,
     ⟨2, .close⟩,
     ⟨2, .print .int (.var ⟨"x", 2⟩)⟩]⟩

theorem wellScoped_redeclaring :
    compile [redeclaring] = .ok (programText [redeclaringSection]) ∧
      WellScoped (redeclaringSection.lines.map fun l => Reading.ofText l.text) := by
  have hcompile : compile [redeclaring] = .ok (programText [redeclaringSection]) := rfl
  obtain ⟨sections, hsections, _, hscoped⟩ := compile_wellScoped hcompile
  have hsection : sectionOf redeclaring = .ok redeclaringSection := rfl
  rw [List.map_singleton, hsection] at hsections
  obtain rfl : sections = [redeclaringSection] := by simpa using hsections.symm
  exact ⟨hcompile, hscoped redeclaringSection List.mem_cons_self⟩

end Lai.C
