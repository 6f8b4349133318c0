import Lai.C.Writer
/-!
# C programs

A C program holds one block per file inside its main function, in the order of the files, after a
fixed beginning that defines how texts are joined.
-/

namespace Lai.C

/-- The lines of one file, under the file's name. -/
structure Section where
  name : String
  lines : List IndentedLine
  deriving DecidableEq, Inhabited, Repr

/-- The name inside a comment, with every end-of-comment mark in it split. -/
def commentText : List Char → List Char
  | [] => []
  | '*' :: '/' :: rest => '*' :: ' ' :: '/' :: commentText rest
  | c :: rest => c :: commentText rest

/-- How the section is written. -/
def Section.text (s : Section) : String :=
  "\t/* " ++ String.ofList (commentText s.name.toList) ++ " */\n\t\x7b\n" ++
    String.join (s.lines.map fun line => line.text ++ "\n") ++ "\t\x7d\n"

/-- The lines in front of the first section. -/
def preambleLines : List String :=
  ["/* This code was generated by laic. */",
   "",
   "#include <stdio.h>",
   "#include <stdlib.h>",
   "#include <string.h>",
   "",
   "static const char *lai_rt_concat(const char *a, const char *b) \x7b",
   "\tsize_t la = strlen(a);",
   "\tsize_t lb = strlen(b);",
   "\tchar *out = malloc(la + lb + 1);",
   "\tif (out == NULL) \x7b",
   "\t\tfputs(\"lai: out of memory\\n\", stderr);",
   "\t\texit(1);",
   "\t\x7d",
   "\tmemcpy(out, a, la);",
   "\tmemcpy(out + la, b, lb + 1);",
   "\treturn out;",
   "\x7d",
   "",
   "int main(void) \x7b"]

/-- What stands in front of the first section. -/
def preamble : String :=
  String.join (preambleLines.map (· ++ "\n"))

/-- What stands after the last section. -/
def ending : String :=
  "\treturn 0;\n\x7d\n"

/-- The C text with the given sections. -/
def programText (sections : List Section) : String :=
  preamble ++ String.join (sections.map Section.text) ++ ending

/-- The section of a file. -/
def sectionOf (file : Tree.File) : Except String Section :=
  match writeAll file.body {} with
  | (w, none) => .ok ⟨file.name, w.lines.reverse⟩
  | (_, some fault) => .error (faultText file.name fault)

/-- The sections of the files, up to the first file that cannot be written. -/
def sectionsOf : List Tree.File → Except String (List Section)
  | [] => .ok []
  | file :: rest =>
    match sectionOf file with
    | .error message => .error message
    | .ok s =>
      match sectionsOf rest with
      | .error message => .error message
      | .ok ss => .ok (s :: ss)

/-- Compiles files to one C program. -/
def compile (files : List Tree.File) : Except String String :=
  match sectionsOf files with
  | .ok sections => .ok (programText sections)
  | .error message => .error message

end Lai.C
