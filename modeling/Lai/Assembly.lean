import Lai.Grammar.Reader
import Lai.Tree.Resolve
import Lai.Typing
/-!
# Assembly

Assembling turns the tokens of a file into its tree. The tree holds every statement that could be
read; what is wrong with the grammar, the scopes and the types is reported beside it, in reading
order.
-/

namespace Lai

/-- The tree of a file and what is wrong with it. -/
structure Assembly where
  file : Tree.File
  diagnostics : List Diagnostic
  deriving Inhabited, Repr

namespace Assembly

/-- Reads the tokens and resolves scopes. Reports come in the order in which they arise. -/
def read (name : String) (tokens : List Token) : Assembly :=
  let resolved := Grammar.resolveAll {} (Grammar.read tokens)
  ⟨⟨name, resolved.trees⟩, resolved.notes.map (Grammar.Note.diagnostic name)⟩

/-- Reads the tokens, resolves scopes and checks types. -/
def ofTokens (name : String) (tokens : List Token) : Assembly :=
  let plain := read name tokens
  { plain with diagnostics := Diagnostic.sort (plain.diagnostics ++ plain.file.typeDiagnostics) }

end Assembly

end Lai
