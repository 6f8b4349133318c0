import Lai.Tree
/-!
# Outlines

An outline shows the tree of each file, one statement per line, indented by how deep it is nested.
-/

namespace Lai.Tree

/-- The value of an inferred declaration, or the mark of a missing one. -/
def valueText : Option (Expr Binding) → String
  | some value => value.text
  | none => "%!s(<nil>)"

/-- One line of an outline. -/
def outlineLine (depth : Nat) (text : String) : String :=
  String.ofList (List.replicate depth '\t') ++ text ++ "\n"

mutual

/-- The outline of a statement. -/
def Stmt.outline (depth : Nat) : Stmt → String
  | .declare name type true value _ =>
    outlineLine depth ("<Declare " ++ name ++ " := " ++ valueText value ++ "> : " ++ type.text)
  | .declare name type false (some value) _ =>
    outlineLine depth ("<Declare " ++ name ++ " : " ++ type.text ++ " = " ++ value.text ++ ">")
  | .declare name type false none _ => outlineLine depth ("<Declare " ++ name ++ " : " ++ type.text ++ ">")
  | .assign name _ value _ =>
    outlineLine depth ("<Assign " ++ name ++ " = " ++ value.text ++ "> : " ++ value.type.text)
  | .print value _ => outlineLine depth ("<Print " ++ value.text ++ "> : " ++ value.type.text)
  | .ifThen cond body _ _ =>
    outlineLine depth ("<If " ++ cond.text ++ ">") ++
      outlineLine (depth + 1) "<Block>" ++ outlineAll (depth + 2) body
  | .ifElse cond body _ otherwise _ =>
    outlineLine depth ("<If " ++ cond.text ++ ">") ++
      outlineLine (depth + 1) "<Block>" ++ outlineAll (depth + 2) body ++
      outlineLine depth "<Else>" ++ otherwise.outline (depth + 1)
  | .block body _ => outlineLine depth "<Block>" ++ outlineAll (depth + 1) body

/-- The outline of statements that follow each other. -/
def outlineAll (depth : Nat) : List Stmt → String
  | [] => ""
  | stmt :: rest => stmt.outline depth ++ outlineAll depth rest

end

/-- The outline of one file. -/
def File.outline (file : File) : String :=
  "\n<File " ++ file.name ++ ">\n" ++ outlineAll 1 file.body

/-- The outline of files. -/
def outlines (files : List File) : String :=
  "AST:\n" ++ String.join (files.map File.outline) ++ "\n"

end Lai.Tree
