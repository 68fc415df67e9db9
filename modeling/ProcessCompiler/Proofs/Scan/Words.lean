import ProcessCompiler.Proofs.Scan.Spelling
/-!
# Words

A word that stands alone scans to the leaf that it is in any text: the name of
every identifier among the tokens of a text is one identifier by itself,
`tokenize_of_mem_identsOf`, and a reserved word is that reserved word.
-/

namespace ProcessCompiler

namespace Grammar

namespace Scan

open Text Lexeme

variable {x w rest : List Char} {n : String} {L : List Lexeme}

/-- A word is all of its characters, with none that quotes. -/
structure IsWord (w : List Char) : Prop where
  start : startsWith isWordStart w = true
  rest : ∀ c ∈ w, isWordRest c = true

theorem isWord_of_word {after : List Char} (h : word x = some (w, after)) : IsWord w := by
  unfold word at h
  split at h
  · rename_i hstart
    cases x with
    | nil => cases hstart
    | cons c x =>
      have hc : isWordStart c = true := hstart
      have hrest : isWordRest c = true := by simp [isWordRest, hc]
      cases h
      refine ⟨?_, fun d hd => List.mem_takeWhile_imp hd⟩
      rw [List.takeWhile_cons_of_pos hrest]
      exact hc
  · cases h

namespace IsWord

theorem not_mem (h : IsWord w) {c : Char} (hc : isWordRest c = false) : c ∉ w := fun hmem =>
  ne_of_isWordRest (h.rest c hmem) hc rfl

theorem word_eq (h : IsWord w) : word w = some (w, []) := by
  rw [word, if_pos h.start, List.takeWhile_eq_self_iff.2 h.rest,
    List.dropWhile_eq_nil_iff.2 h.rest]

theorem looksQuoted_eq (h : IsWord w) : looksQuoted w = false := by
  refine Bool.eq_false_iff.2 fun hquoted => ?_
  rcases mem_of_looksQuoted hquoted with hmem | hmem | hmem <;> exact h.not_mem rfl hmem

theorem not_raw (h : IsWord w) (r : List Char) : w ≠ 'r' :: '#' :: r := by
  rintro rfl
  exact h.not_mem (c := '#') rfl (by simp)

end IsWord

/-- Alone, a word is the name that it is in a text. -/
theorem lexemes_of_name (h : name x = some (.ident n, rest)) :
    lexemes n.toList = some [.leaf (.ident n)] := by
  have hscans : startsWith isWordStart n.toList = true ∧ looksQuoted n.toList = false ∧
      name n.toList = some (.ident n, []) := by
    unfold name at h
    split at h
    · -- A raw name.
      split at h
      · rename_i w after hword
        have hw := isWord_of_word hword
        split at h
        · cases h
        · rename_i hunraw
          cases h
          rw [String.toList_ofList]
          refine ⟨rfl, ?_, ?_⟩
          · cases w with
            | nil => rfl
            | cons c w =>
              have hquote : c ≠ '"' := ne_of_isWordRest (hw.rest c List.mem_cons_self) rfl
              have hhash : c ≠ '#' := ne_of_isWordRest (hw.rest c List.mem_cons_self) rfl
              simp [looksQuoted, hquote, hhash]
          · simp [name, hw.word_eq, hunraw]
      · cases h
    · split at h
      · rename_i w after hword
        have hw := isWord_of_word hword
        simp only [Option.some.injEq, Prod.mk.injEq] at h
        obtain ⟨hleaf, rfl⟩ := h
        split at hleaf
        · cases hleaf
        · rename_i hkeyword
          cases hleaf
          rw [String.toList_ofList]
          refine ⟨hw.start, hw.looksQuoted_eq, ?_⟩
          rw [name_of_not_raw hw.not_raw, hw.word_eq]
          simp [hkeyword]
      · cases h
  have hlex : Scans (n.toList ++ []) [.leaf (.ident n)] [] :=
    scans_word hscans.1 hscans.2.1 hscans.2.2 ⟨rfl, rfl, rfl⟩
  rwa [List.append_nil] at hlex

theorem punctLeaf_ne_ident : punctLeaf x ≠ some (.ident n, rest) := by
  intro h
  unfold punctLeaf at h
  split at h
  · unfold lifetime at h
    split at h
    · split_ifs at h
      all_goals cases h
    · cases h
  · cases h
  · cases h

/-- An identifier is found by its name, or documents what follows. -/
theorem lexemes_of_step_ident {found : List Lexeme} (h : step x = some (found, rest))
    (hn : .leaf (.ident n) ∈ found) : lexemes n.toList = some [.leaf (.ident n)] := by
  unfold step at h
  split at h
  · rename_i inner text _ hdoc
    cases h
    obtain rfl : n = "doc" := by cases inner <;> simpa [docLexemes] using hn
    rfl
  · split at h
    · cases h
      simp at hn
    · split at h
      · rename_i b _ hbracket
        cases h
        obtain rfl := List.mem_singleton.1 hn
        unfold bracket at hbracket
        split at hbracket <;> cases hbracket
      · obtain ⟨⟨l, after⟩, hleaf, heq⟩ := Option.map_eq_some_iff.1 h
        cases heq
        obtain rfl : Leaf.ident n = l := by simpa using hn
        unfold leaf at hleaf
        split at hleaf
        · cases hleaf
        · split at hleaf
          · cases hleaf
            exact absurd ‹_› punctLeaf_ne_ident
          · split at hleaf
            · cases hleaf
            · exact lexemes_of_name hleaf

theorem lexemes_of_mem_lexemes (h : lexemes x = some L) (hn : .leaf (.ident n) ∈ L) :
    lexemes n.toList = some [.leaf (.ident n)] := by
  induction hlen : x.length using Nat.strong_induction_on generalizing x L with
  | h k ih =>
    rcases lexemes_cases h with ⟨-, rfl⟩ | ⟨c, y, found, after, L', hgap, hstep, hafter, rfl⟩
    · cases hn
    · rcases List.mem_append.1 hn with hn | hn
      · exact lexemes_of_step_ident hstep hn
      · have hle := (suffix_gapFrom hgap).length_le
        have hlt := step_length_lt hstep
        exact ih after.length (by omega) hafter hn rfl

end Scan

namespace Token

mutual

/-- The names of the identifiers in a token. -/
def idents : Token → List String
  | leaf (.ident n) => [n]
  | leaf _ => []
  | group _ inner => identsOf inner

/-- The names of the identifiers in a token list, also inside brackets. -/
def identsOf : List Token → List String
  | [] => []
  | t :: ts => idents t ++ identsOf ts

end

end Token

open Scan Lexeme Token

variable {L : List Lexeme} {ts : List Token} {n : String}

theorem mem_of_mem_identsOf (h : Nests L ts) (hn : n ∈ identsOf ts) : .leaf (.ident n) ∈ L := by
  induction h with
  | nil => cases hn
  | @leaf l L ts h ih =>
    rcases List.mem_append.1 hn with hn | hn
    · cases l with
      | ident n' =>
        obtain rfl := List.mem_singleton.1 hn
        exact List.mem_cons_self
      | _ => cases hn
    · exact List.mem_cons_of_mem _ (ih hn)
  | group hinner h ihinner ih =>
    rcases List.mem_append.1 hn with hn | hn
    · simp [ihinner hn]
    · simp [ih hn]

/-- **The name of an identifier is one identifier by itself.** -/
theorem tokenize_of_mem_identsOf {x : List Char} (h : tokenize x = some ts)
    (hn : n ∈ identsOf ts) : tokenize n.toList = some [.leaf (.ident n)] := by
  obtain ⟨L, hlex, hnest⟩ := Option.bind_eq_some_iff.1 h
  have hmem := mem_of_mem_identsOf (nest_eq_some_iff.1 hnest) hn
  exact tokenize_of_lexemes (lexemes_of_mem_lexemes hlex hmem) (.leaf .nil)

/-- A reserved word by itself is that word. -/
theorem tokenize_keyword (k : Keyword) : tokenize k.text.toList = some [.leaf (.keyword k)] := by
  cases k <;> rfl

end Grammar

end ProcessCompiler
