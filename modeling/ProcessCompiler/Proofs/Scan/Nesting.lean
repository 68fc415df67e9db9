import ProcessCompiler.Grammar.Token
import Mathlib.Data.List.Basic
/-!
# Nesting of brackets

`Nests L ts` says that the brackets among the lexemes `L` match, and that `ts`
are the tokens they make. Matching with a stack of open brackets finds exactly
these tokens; what the scanner needs of it, that tokens can be put in a row and
into brackets and taken apart again, and that each kind of bracket closes as
often as it opens and never before, is read off the rules.
-/

namespace ProcessCompiler

namespace Grammar

namespace Lexeme

/-- The lexemes match to the tokens. -/
inductive Nests : List Lexeme → List Token → Prop where
  | nil : Nests [] []
  | leaf {l : Leaf} {L : List Lexeme} {ts : List Token} (h : Nests L ts) :
    Nests (leaf l :: L) (.leaf l :: ts)
  | group {d : Delimiter} {I L : List Lexeme} {inner ts : List Token} (hinner : Nests I inner)
    (h : Nests L ts) : Nests (opening d :: (I ++ closing d :: L)) (.group d inner :: ts)

variable {L M : List Lexeme} {ts us seen : List Token} {d : Delimiter}
  {outer : List (Delimiter × List Token)}

/-- The last lexeme of a token. -/
def lastOf : Token → Lexeme
  | .leaf l => leaf l
  | .group d _ => closing d

namespace Nests

theorem append (h : Nests L ts) (h' : Nests M us) : Nests (L ++ M) (ts ++ us) := by
  induction h with
  | nil => exact h'
  | leaf _ ih => exact .leaf ih
  | group hinner _ _ ih =>
    rw [List.cons_append, List.append_assoc, List.cons_append]
    exact .group hinner ih

theorem nestFrom_append (h : Nests L ts) (outer : List (Delimiter × List Token))
    (seen : List Token) (M : List Lexeme) :
    nestFrom outer seen (L ++ M) = nestFrom outer (ts.reverse ++ seen) M := by
  induction h generalizing outer seen M with
  | nil => rfl
  | leaf _ ih =>
    rw [List.cons_append, nestFrom, ih]
    simp
  | group _ _ ihinner ih =>
    rw [List.cons_append, nestFrom, List.append_assoc, ihinner, List.cons_append, nestFrom,
      if_pos rfl, ih]
    simp

/-- Each kind of bracket closes as often as it opens. -/
theorem count_eq (h : Nests L ts) (d : Delimiter) :
    L.count (opening d) = L.count (closing d) := by
  induction h with
  | nil => rfl
  | leaf _ ih => simpa [List.count_cons] using ih
  | @group d' I L _ _ _ _ ihinner ih =>
    by_cases hd : d' = d
    · subst hd
      simp only [List.count_cons, List.count_append, beq_iff_eq, reduceCtorEq]
      simp
      omega
    · simp [List.count_append, hd]
      omega

/-- The last lexeme is the last one of the last token. -/
theorem getLast?_eq (h : Nests L ts) : L.getLast? = ts.getLast?.map lastOf := by
  induction h with
  | nil => rfl
  | @leaf l L ts _ ih =>
    rw [List.getLast?_cons, List.getLast?_cons, ih]
    cases ts.getLast? <;> rfl
  | @group d I L inner ts _ _ _ ih =>
    rw [← List.cons_append, List.getLast?_append_of_ne_nil _ (List.cons_ne_nil _ _),
      List.getLast?_cons, List.getLast?_cons, ih]
    cases ts.getLast? <;> rfl

/-- It opens no bracket. -/
theorem getLast?_ne (h : Nests L ts) (d : Delimiter) : L.getLast? ≠ some (opening d) := by
  rw [h.getLast?_eq]
  intro hlast
  obtain ⟨t, -, ht⟩ := Option.map_eq_some_iff.1 hlast
  cases t <;> cases ht

/-- A leaf at the end is the last token. -/
theorem getLast?_leaf {l : Leaf} (h : Nests L ts) (hl : L.getLast? = some (.leaf l)) :
    ts.getLast? = some (.leaf l) := by
  rw [h.getLast?_eq] at hl
  obtain ⟨t, hlast, ht⟩ := Option.map_eq_some_iff.1 hl
  cases t <;> cases ht
  exact hlast

/-- A bracket that closes at the end ends the last token. -/
theorem getLast?_closing (h : Nests L ts) (hd : L.getLast? = some (closing d)) :
    ∃ inner, ts.getLast? = some (.group d inner) := by
  rw [h.getLast?_eq] at hd
  obtain ⟨t, hlast, ht⟩ := Option.map_eq_some_iff.1 hd
  cases t <;> cases ht
  exact ⟨_, hlast⟩

/-- A bracket does not close before one opens. -/
theorem head?_ne (h : Nests L ts) (d : Delimiter) : L.head? ≠ some (closing d) := by
  cases h <;> nofun

/-- What stands inside brackets that make all of one token. -/
theorem of_group (h : Nests (opening d :: L) [.group d ts]) :
    ∃ I, L = I ++ [closing d] ∧ Nests I ts := by
  generalize hM : opening d :: L = M at h
  cases h with
  | @group _ I L' _ _ hinner h =>
    obtain ⟨-, rfl⟩ := List.cons.inj hM
    cases h
    exact ⟨I, rfl, hinner⟩

/-- Tokens in a row are made of lexemes in a row. -/
theorem exists_append (h : Nests L (ts ++ us)) :
    ∃ K M, L = K ++ M ∧ Nests K ts ∧ Nests M us := by
  induction ts generalizing L with
  | nil => exact ⟨[], L, rfl, .nil, h⟩
  | cons t ts ih =>
    generalize hrow : t :: ts ++ us = row at h
    cases h with
    | nil => cases hrow
    | leaf h =>
      obtain ⟨rfl, rfl⟩ := List.cons.inj hrow
      obtain ⟨K, M, rfl, hK, hM⟩ := ih h
      exact ⟨_, M, rfl, .leaf hK, hM⟩
    | group hinner h =>
      obtain ⟨rfl, rfl⟩ := List.cons.inj hrow
      obtain ⟨K, M, rfl, hK, hM⟩ := ih h
      refine ⟨_, M, ?_, .group hinner hK, hM⟩
      simp

/-- No bracket closes before it opens. -/
theorem count_closing_le {K : List Lexeme} (h : Nests (K ++ M) ts) (d : Delimiter) :
    K.count (closing d) ≤ K.count (opening d) := by
  generalize hL : K ++ M = L at h
  induction h generalizing K M with
  | nil =>
    rw [(List.append_eq_nil_iff.1 hL).1]
    exact Nat.le_refl _
  | leaf _ ih =>
    rcases K with _ | ⟨l, K⟩
    · exact Nat.le_refl _
    · obtain ⟨rfl, htail⟩ := List.cons.inj hL
      simpa [List.count_cons] using ih htail
  | @group d' I L _ _ hinner _ ihinner ih =>
    rcases K with _ | ⟨l, K⟩
    · exact Nat.le_refl _
    obtain ⟨rfl, htail⟩ := List.cons.inj hL
    rcases List.append_eq_append_iff.1 htail with ⟨J, rfl, -⟩ | ⟨J, rfl, hJ⟩
    · have hle := ihinner (M := J) rfl
      simp only [List.count_cons, beq_iff_eq, reduceCtorEq, if_false]
      omega
    · have heq := hinner.count_eq d
      rcases J with _ | ⟨l, J⟩
      · simp only [List.count_cons, List.append_nil, beq_iff_eq, reduceCtorEq, if_false]
        omega
      · obtain ⟨rfl, hbehind⟩ := List.cons.inj hJ
        have hle := ih hbehind.symm
        by_cases hd : d' = d
        · subst hd
          simp [List.count_append]
          omega
        · simp [List.count_append, hd]
          omega

end Nests

/-- What is left to be matched below a stack of open brackets. -/
def Completes : List (Delimiter × List Token) → List Token → List Lexeme → List Token → Prop
  | [], seen, L, ts => ∃ us, Nests L us ∧ ts = seen.reverse ++ us
  | (d, before) :: outer, seen, L, ts => ∃ I inner M, L = I ++ closing d :: M ∧ Nests I inner ∧
      Completes outer (.group d (seen.reverse ++ inner) :: before) M ts

theorem Completes.prepend (h : Completes outer (us.reverse ++ seen) M ts) (hL : Nests L us) :
    Completes outer seen (L ++ M) ts := by
  cases outer with
  | nil =>
    obtain ⟨vs, hvs, rfl⟩ := h
    exact ⟨us ++ vs, hL.append hvs, by simp⟩
  | cons open_ outer =>
    obtain ⟨I, inner, M, rfl, hI, h⟩ := h
    refine ⟨L ++ I, us ++ inner, M, by rw [List.append_assoc], hL.append hI, ?_⟩
    simpa using h

theorem completes_of_nestFrom (h : nestFrom outer seen L = some ts) :
    Completes outer seen L ts := by
  fun_induction nestFrom outer seen L with
  | case1 seen => exact ⟨[], .nil, by simpa using h.symm⟩
  | case2 => cases h
  | case3 outer seen l L ih =>
    have hleaf : Nests [leaf l] [.leaf l] := .leaf .nil
    have hrest : Completes outer ([Token.leaf l].reverse ++ seen) L ts := ih h
    exact hrest.prepend hleaf
  | case4 outer seen d L ih =>
    obtain ⟨I, inner, M, rfl, hI, h⟩ := ih h
    have hgroup : Nests (opening d :: (I ++ [closing d])) [.group d inner] := .group hI .nil
    have heq : opening d :: (I ++ closing d :: M) = opening d :: (I ++ [closing d]) ++ M := by simp
    have hrest : Completes outer ([Token.group d inner].reverse ++ seen) M ts := h
    rw [heq]
    exact hrest.prepend hgroup
  | case5 => cases h
  | case6 d before outer seen L ih =>
    exact ⟨[], [], L, rfl, .nil, by simpa using ih h⟩
  | case7 => cases h

/-- **Matching brackets finds the tokens the lexemes match to, and no others.** -/
theorem nest_eq_some_iff : nest L = some ts ↔ Nests L ts := by
  constructor
  · intro h
    obtain ⟨us, hus, rfl⟩ := completes_of_nestFrom h
    exact hus
  · intro h
    have hrun := h.nestFrom_append [] [] []
    simpa [nest, nestFrom] using hrun

theorem nestFrom_of_append (h : nestFrom outer seen (L ++ M) = some ts) (hM : Nests M us) :
    ∃ before, ts = before ++ us ∧ nestFrom outer seen L = some before := by
  fun_induction nestFrom outer seen L with
  | case1 seen =>
    have hrun := hM.nestFrom_append [] seen []
    rw [List.append_nil] at hrun
    rw [List.nil_append, hrun, nestFrom] at h
    exact ⟨seen.reverse, by simpa using h.symm, rfl⟩
  | case2 frame outer seen =>
    have hrun := hM.nestFrom_append (frame :: outer) seen []
    rw [List.append_nil] at hrun
    rw [List.nil_append, hrun, nestFrom] at h
    cases h
  | case3 outer seen l L ih => exact ih (by rwa [List.cons_append, nestFrom] at h)
  | case4 outer seen d L ih => exact ih (by rwa [List.cons_append, nestFrom] at h)
  | case5 seen d L =>
    rw [List.cons_append, nestFrom] at h
    cases h
  | case6 d before outer seen L ih => exact ih (by rwa [List.cons_append, nestFrom, if_pos rfl] at h)
  | case7 d before outer seen d' L hd =>
    rw [List.cons_append, nestFrom, if_neg hd] at h
    cases h

/-- What stands before lexemes that match matches on its own. -/
theorem Nests.exists_before (h : Nests (L ++ M) ts) (hM : Nests M us) :
    ∃ before, ts = before ++ us ∧ Nests L before := by
  obtain ⟨before, hts, hbefore⟩ := nestFrom_of_append (nest_eq_some_iff.2 h) hM
  exact ⟨before, hts, nest_eq_some_iff.1 hbefore⟩

/-- What follows lexemes that match matches on its own. -/
theorem Nests.exists_behind (h : Nests (L ++ M) ts) (hL : Nests L us) :
    ∃ more, ts = us ++ more ∧ Nests M more := by
  have hrun := nest_eq_some_iff.2 h
  rw [nest, hL.nestFrom_append, List.append_nil] at hrun
  obtain ⟨more, hmore, rfl⟩ := completes_of_nestFrom hrun
  exact ⟨more, by rw [List.reverse_reverse], hmore⟩

end Lexeme

end Grammar

end ProcessCompiler
