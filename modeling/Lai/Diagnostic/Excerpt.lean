import Lai.Diagnostic
import Lai.Diagnostic.Style
import Lai.Document
/-!
# Excerpts

An excerpt shows a diagnostic with the line it is about and a caret under the place. Tabs of the line
are shown as single spaces, so that the caret stands under its character.
-/

namespace Lai.Diagnostic

/-- The excerpt of a diagnostic from its document. -/
def excerpt (styles : Styles) (doc : Document) (d : Diagnostic) : String :=
  styles.header.render ("Error in file '" ++ d.file ++ "(" ++ Text.decimal (Location.ordinal d.loc.line) ++ ")':") ++
    "\n\t" ++ (doc.line d.loc.line).map (fun c => if c = '\t' then ' ' else c) ++
    "\n\t" ++ String.ofList (List.replicate d.loc.column.toNat ' ') ++ styles.caret.render "^" ++
    "\n" ++ styles.kind.render (d.category.text ++ ":") ++ " " ++ d.message ++ "\n\n"

/-- What is shown of a diagnostic whose document is not at hand. -/
def remark (d : Diagnostic) : String :=
  "Error in unloaded file: " ++ d.file ++ "(line=" ++ Text.decimal (Location.ordinal d.loc.line) ++
    ", char=" ++ Text.decimal d.loc.column ++ "):\n" ++ d.message ++ "\n\n"

/-- What is shown of a diagnostic. Of several documents with the name of its file the last one
counts. -/
def render (styles : Styles) (docs : List Document) (d : Diagnostic) : String :=
  match docs.reverse.find? (·.name = d.file) with
  | some doc => d.excerpt styles doc
  | none => d.remark

/-- The closing line of a failed compilation. -/
def failureLine (styles : Styles) (count : Int) : String :=
  styles.header.render ("Compilation failed with " ++ Text.decimal count ++ " errors.") ++ "\n"

end Lai.Diagnostic
