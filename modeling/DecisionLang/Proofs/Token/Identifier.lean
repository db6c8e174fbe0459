import DecisionLang.Proofs.Grammar.Deciding
import DecisionLang.Proofs.Token.Spelled

/-!
# Identifiers

A word starts with a letter or an underscore and goes on with letters, digits and underscores. The
names that lines give to things are words that are not reserved. Main statement:
`Line.hasIdentifiers_of_read`.
-/

namespace DecisionLang

structure IsIdentifier (name : String) : Prop where
  word : Text.IsWord name.toList
  free : Keyword.ofSpelling? name = none

namespace Token

variable {text : List Char} {name : String}

theorem isWord_of_scanFrom {column : Nat} {previous : Option TokenKind} {tokens : List Token}
    (h : scanFrom column previous text = .ok tokens) :
    ∀ token ∈ tokens, token.kind = .word name → Text.IsWord name.toList := by
  intro token htoken hkind
  obtain ⟨_, _, _, _, hscanned⟩ := exists_scanToken_of_mem h token htoken
  rw [hkind] at hscanned
  obtain ⟨_, _, _, _, hstands⟩ := scanToken_eq_ok_iff.1 hscanned
  cases hstands.form with
  | word hword =>
    rw [String.toList_ofList]
    exact hword

end Token

/-- Names among tokens are identifiers. -/
def Token.HasIdentifiers (tokens : List Token) : Prop :=
  ∀ token ∈ tokens, ∀ name, token.name? = some name → IsIdentifier name

theorem Token.HasIdentifiers.subset {tokens part : List Token} (h : HasIdentifiers tokens)
    (hpart : part ⊆ tokens) : HasIdentifiers part := fun token htoken => h token (hpart htoken)

/-- Names in a line that was read are identifiers. -/
theorem Line.hasIdentifiers_of_read {file text : String} {index : Nat} {line : Line}
    (h : Line.read file index text = .ok line) : Token.HasIdentifiers line.tokens := by
  intro token htoken name hname
  obtain ⟨tokens, hscan, hstart, _⟩ := exists_scan_of_read h
  obtain ⟨hkind, hfree⟩ := Token.name?_eq_some_iff.1 hname
  exact ⟨Token.isWord_of_scanFrom hscan token (hstart.subset htoken) hkind, hfree⟩

end DecisionLang
