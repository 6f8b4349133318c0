import Lai.Assembly
import Lai.Proofs.Grammar.Derivation
import Lai.Proofs.Grammar.Reading
import Lai.Proofs.Tree.Erasure
/-!
# What is accepted

Reading reports no fault of the grammar exactly on the sequences of tokens whose kinds can be derived,
and the trees it returns for them are, their notes aside, the only statements that the tokens spell.
-/

namespace Lai

namespace Grammar

/-- Tokens spell statements exactly if these are read from them and none of them has broken off. -/
theorem spells_iff_read {tokens : List Token} {stmts : List Stmt} :
    Spells .program tokens stmts ↔ wholeAll (read tokens) = true ∧ stmts = read tokens := by
  constructor
  · intro h
    have hread := read_of_spells h
    exact ⟨hread.symm ▸ h.whole, hread.symm⟩
  · rintro ⟨hwhole, rfl⟩
    exact spells_of_wholeAll_read hwhole

/-- The statements read have not broken off exactly if the kinds of the tokens can be derived. -/
theorem wholeAll_read_iff_derives {tokens : List Token} :
    wholeAll (read tokens) = true ↔ Derives .program (kinds tokens) := by
  rw [derives_program_iff]
  constructor
  · intro hwhole
    exact ⟨_, spells_of_wholeAll_read hwhole⟩
  · rintro ⟨stmts, h⟩
    exact (spells_iff_read.1 h).1

end Grammar

open Grammar

namespace Assembly

theorem read_grammatical_iff {name : String} {tokens : List Token} :
    (∀ d ∈ (read name tokens).diagnostics, d.category ≠ .syntactic) ↔ wholeAll (Grammar.read tokens) = true := by
  rw [← grammatical_resolveAll_iff {}]
  exact List.forall_mem_map

theorem eraseAll_read {name : String} {tokens : List Token} (hwhole : wholeAll (Grammar.read tokens) = true) :
    Tree.eraseAll (read name tokens).file.body = Grammar.read tokens :=
  eraseAll_resolveAll {} _ hwhole

/-- No fault of the grammar is reported exactly if the kinds of the tokens can be derived as a program,
and then the trees are the only statements that the tokens spell. -/
theorem read_follows_grammar (name : String) (tokens : List Token) :
    ((∀ d ∈ (read name tokens).diagnostics, d.category ≠ .syntactic) ↔ Derives .program (kinds tokens)) ∧
    ∀ stmts, Spells .program tokens stmts ↔
      Derives .program (kinds tokens) ∧ stmts = Tree.eraseAll (read name tokens).file.body := by
  refine ⟨read_grammatical_iff.trans wholeAll_read_iff_derives, fun stmts => ?_⟩
  rw [spells_iff_read, ← wholeAll_read_iff_derives]
  constructor
  · rintro ⟨hwhole, rfl⟩
    exact ⟨hwhole, (eraseAll_read hwhole).symm⟩
  · rintro ⟨hwhole, rfl⟩
    exact ⟨hwhole, eraseAll_read hwhole⟩

end Assembly

end Lai
