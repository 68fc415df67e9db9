import ProcessCompiler.Proofs.Scan.ShiftedLeaves
/-!
# What a shifted text means

Step by step, a shifted text is scanned as the text is (`follows_step`). As long
as the pieces that are taken are not broken, a step finds the same and goes on at
the same place. At the first piece that is broken it finds something that means
something else, or nothing. So a shifted text means the same exactly if no piece
of the text is broken (`senses_of_shifted`).
-/

namespace ProcessCompiler

namespace Grammar

namespace Scan

open Text Layout

variable {w : ℕ} {k t x x' y z z' rest : List Char} {c : Char} {l : Lexeme}

/-- The senses of one step. -/
def stepSenses (x : List Char) : Option (List Sense × List Char) :=
  (step x).map fun (found, rest) => (found.map senseOf, rest)

/-! ## Comments that document -/

theorem stepSenses_of_docComment {inner : Bool} (h : docComment x = some (inner, t, rest)) :
    stepSenses x = some ((docLexemes inner t).map senseOf, rest) := by
  rw [stepSenses, step, h, Option.map_some]

/-- The text of a comment, as a string, has the text as its value. -/
theorem senseOf_docText (t : List Char) :
    senseOf (.leaf (.literal ⟨.string, (Text.quoted (String.ofList t)).toList⟩)) =
      .string .string (t.flatMap bytes) [] := by
  have htext : (Text.quoted (String.ofList t)).toList = '"' :: (t.flatMap escaped ++ ['"']) := by
    simp [Text.quoted]
  have hvalue : stringOf ⟨.string, '"' :: (t.flatMap escaped ++ ['"'])⟩ =
      some (t.flatMap bytes, []) :=
    stringValue_flatMap_escaped t []
  rw [htext, senseOf, hvalue]

/-- Comments with other texts mean something else. -/
theorem map_docLexemes_ne {t' : List Char} (inner : Bool) (h : t'.flatMap bytes ≠ t.flatMap bytes) :
    ((docLexemes inner t').map senseOf).length = ((docLexemes inner t).map senseOf).length ∧
      (docLexemes inner t').map senseOf ≠ (docLexemes inner t).map senseOf := by
  constructor
  · simp [docLexemes]
  · simp [docLexemes, senseOf_docText, h]

/-- A comment that ends with its line. -/
theorem follows_lineText {inner i : Bool} (hk : k.all isInner = true) (h : Shifted w z z')
    (hfound : docComment.checked inner (lineText z) = some (i, t, rest))
    (hdoc : docComment (k ++ z') = docComment.checked inner (lineText z')) :
    Follows w (stepSenses (k ++ z')) ((docLexemes i t).map senseOf) (taken (k ++ z) rest) rest := by
  obtain ⟨rfl, hline, hreturn⟩ := docComment_checked.1 hfound
  obtain ⟨hfeed, hz⟩ := eq_append_of_lineText hline
  obtain ⟨rest', hline', hrest⟩ :=
    lineText_of_shifted h hline (not_mem_of_noBareReturn hreturn hfeed)
  have hkfeed := not_mem_of_all_isInner hk
  refine .same ?_ (stepSenses_of_docComment ?_) hrest
  · rcases hz with rfl | rfl
    · rw [taken_eq (u := k ++ t) (by simp)]
      exact isBroken_of_not_mem (by simp [hkfeed, hfeed])
    · rw [taken_eq (u := k ++ (t ++ ['\r'])) (by simp)]
      exact isBroken_of_not_mem (by simp [hkfeed, hfeed])
  · rw [hdoc, hline']
    exact docComment_checked.2 ⟨rfl, rfl, hreturn⟩

/-- A comment that is no gap and documents nothing begins no step. -/
theorem step_of_docComment_none (h : docComment ('/' :: '*' :: x) = none) :
    step ('/' :: '*' :: x) = none := by
  have hleaf : leaf ('/' :: '*' :: x) = none := by
    rcases hl : leaf ('/' :: '*' :: x) with _ | ⟨l, rest⟩
    · rfl
    · exact absurd rfl (not_comment_of_leaf hl rfl).2
  have hmark : missingMark.isPrefixOf ('/' :: '*' :: x) = false := rfl
  have hbracket : bracket ('/' :: '*' :: x) = none := rfl
  simp [step, h, hleaf, hmark, hbracket]

/-- A comment that goes on. -/
theorem follows_blockText (hw : 0 < w) {inner i : Bool} (h : Shifted w z z') (hc : c ≠ '\n')
    (hfound : (blockText 0 z).bind (docComment.checked inner) = some (i, t, rest))
    (hdoc : docComment ('/' :: '*' :: c :: z') =
      (blockText 0 z').bind (docComment.checked inner)) :
    Follows w (stepSenses ('/' :: '*' :: c :: z')) ((docLexemes i t).map senseOf)
      (taken ('/' :: '*' :: c :: z) rest) rest := by
  obtain ⟨found, hblock, hchecked⟩ := Option.bind_eq_some_iff.1 hfound
  obtain ⟨rfl, rfl, hreturn⟩ := docComment_checked.1 hchecked
  obtain ⟨t', rest', hblock', hrest, hstated⟩ := blockText_of_shifted hw h hblock
  rw [hblock', Option.bind_some] at hdoc
  have hpiece : taken ('/' :: '*' :: c :: z) rest = '/' :: '*' :: c :: (t ++ ['*', '/']) :=
    taken_eq (by simp [eq_append_of_blockText hblock])
  have hbroken : isBroken ('/' :: '*' :: c :: (t ++ ['*', '/'])) = true ↔ '\n' ∈ t := by
    rw [isBroken, List.contains_iff_mem]
    · simp [Ne.symm hc]
    all_goals simp
  rw [hpiece]
  by_cases hmem : '\n' ∈ t
  · refine .changed (hbroken.2 hmem) fun S' r' heq => ?_
    rcases hdoc' : docComment ('/' :: '*' :: c :: z') with _ | ⟨i', s', r⟩
    · rw [stepSenses, step_of_docComment_none hdoc'] at heq
      cases heq
    · rw [stepSenses_of_docComment hdoc'] at heq
      obtain ⟨rfl, rfl⟩ := Prod.mk.inj (Option.some.inj heq)
      obtain ⟨rfl, heq', -⟩ := docComment_checked.1 (hdoc.symm.trans hdoc')
      obtain ⟨rfl, rfl⟩ := Prod.mk.inj heq'
      exact map_docLexemes_ne inner (hstated.parted hmem).ne.symm
  · refine .same (Bool.eq_false_iff.2 (mt hbroken.1 hmem)) (stepSenses_of_docComment ?_) hrest
    rw [hdoc, hstated.line hmem]
    exact docComment_checked.2 ⟨rfl, rfl, hreturn⟩

theorem ne_cons_of_shifted (h : Shifted w x x') (hreturn : (c == '\r') = false)
    (hfeed : (c == '\n') = false) (hx : ∀ r, x ≠ c :: r) (r : List Char) : x' ≠ c :: r := by
  rintro rfl
  have hstart := startsWith_of_shifted (p := (c == ·)) h hreturn hfeed
  cases x with
  | nil => simp [startsWith] at hstart
  | cons d x =>
    obtain rfl : c = d := by simpa [startsWith] using hstart
    exact hx x rfl

/-- **Comments that document, in a shifted text.** -/
theorem follows_docComment (hw : 0 < w) (h : Shifted w x x') {inner : Bool}
    (hdoc : docComment x = some (inner, t, rest)) :
    Follows w (stepSenses x') ((docLexemes inner t).map senseOf) (taken x rest) rest := by
  unfold docComment at hdoc
  split at hdoc
  · obtain ⟨z', rfl, hz⟩ := Shifted.past (u := ['/', '/', '!']) h rfl
    exact follows_lineText (k := ['/', '/', '!']) rfl hz hdoc rfl
  · obtain ⟨z', rfl, hz⟩ := Shifted.past (u := ['/', '*', '!']) h rfl
    exact follows_blockText hw hz (by decide) hdoc rfl
  · cases hdoc
  · rename_i z hslash
    obtain ⟨z', rfl, hz⟩ := Shifted.past (u := ['/', '/', '/']) h rfl
    refine follows_lineText (k := ['/', '/', '/']) rfl hz hdoc ?_
    rw [List.cons_append, List.cons_append, List.cons_append, List.nil_append, docComment]
    exact ne_cons_of_shifted hz rfl rfl hslash
  · cases hdoc
  · rename_i z hstar
    obtain ⟨z', rfl, hz⟩ := Shifted.past (u := ['/', '*', '*']) h rfl
    refine follows_blockText hw hz (by decide) hdoc ?_
    rw [docComment]
    exact ne_cons_of_shifted hz rfl rfl hstar
  · cases hdoc

/-! ## Steps -/

theorem isPrefixOf_of_shifted (h : Shifted w x x') (hk : k.all isInner = true) :
    k.isPrefixOf x' = k.isPrefixOf x := by
  induction k generalizing x x' with
  | nil => simp
  | cons c k ih =>
    rw [List.all_cons, Bool.and_eq_true, isInner_iff] at hk
    obtain ⟨⟨hreturn, hfeed⟩, hk⟩ := hk
    rcases h.atEnd_or_cons with ⟨hx, hx'⟩ | ⟨d, y, y', rfl, rfl, -, hy⟩
    · have hend : ∀ {b}, AtEnd b → (c :: k).isPrefixOf b = false := by
        intro b hb
        cases hb with
        | nil => rfl
        | feed => simp [List.isPrefixOf, hfeed]
        | carriage => simp [List.isPrefixOf, hreturn]
      rw [hend hx, hend hx']
    · rw [List.isPrefixOf, List.isPrefixOf, ih hy hk]

/-- A bracket is one character. -/
theorem exists_cons_of_bracket (h : bracket x = some (l, rest)) :
    ∃ c, x = c :: rest ∧ c ≠ '\r' ∧ c ≠ '\n' ∧ ∀ r, bracket (c :: r) = some (l, r) := by
  unfold bracket at h
  split at h
  case h_7 => cases h
  all_goals
    obtain ⟨rfl, rfl⟩ := Prod.mk.inj (Option.some.inj h)
    exact ⟨_, rfl, by decide, by decide, fun r => rfl⟩

theorem bracket_eq_none_of_shifted (h : Shifted w x x') (hx : bracket x = none) :
    bracket x' = none := by
  rcases hx' : bracket x' with _ | ⟨l, rest⟩
  · rfl
  · obtain ⟨c, rfl, hreturn, hfeed, hc⟩ := exists_cons_of_bracket hx'
    refine absurd rfl (ne_cons_of_shifted h (by simp [hreturn]) (by simp [hfeed]) ?_ rest)
    rintro r rfl
    rw [hc] at hx
    cases hx

/-- What begins with a leaf begins with one in the shifted text. -/
theorem stepSenses_of_leaf (h : Shifted w x x') {l : Leaf} (hl : leaf x = some (l, rest))
    (hmark : missingMark.isPrefixOf x = false) (hbracket : bracket x = none) :
    stepSenses x' = leafSense x' := by
  have hcomment : ∀ d ∈ ['/', '*'], ['/', d].isPrefixOf x' = false := by
    intro d hd
    have hinner : ['/', d].all isInner = true := by
      simp only [List.mem_cons, List.not_mem_nil, or_false] at hd
      rcases hd with rfl | rfl <;> rfl
    rw [isPrefixOf_of_shifted h hinner]
    by_contra hx
    rw [Bool.not_eq_false] at hx
    obtain ⟨r, rfl⟩ := List.isPrefixOf_iff_prefix.1 hx
    have hne := not_comment_of_leaf hl rfl
    simp [hne.1, hne.2] at hd
  have hdoc : docComment x' = none := by
    refine docComment_eq_none fun d r hx => ?_
    subst hx
    constructor
    · rintro rfl
      simpa using hcomment '/' (by simp)
    · rintro rfl
      simpa using hcomment '*' (by simp)
  have hmark' : missingMark.isPrefixOf x' = false := by
    rw [isPrefixOf_of_shifted (k := missingMark) h rfl, hmark]
  rw [stepSenses, step, hdoc, hmark', bracket_eq_none_of_shifted h hbracket, leafSense]
  simp [Option.map_map, Function.comp_def]

/-- A bracket is found in the shifted text as well. -/
theorem follows_bracket (h : Shifted w x x') (hmark : missingMark.isPrefixOf x = false)
    (hbracket : bracket x = some (l, rest)) :
    Follows w (stepSenses x') [senseOf l] (taken x rest) rest := by
  obtain ⟨c, rfl, hreturn, hfeed, hc⟩ := exists_cons_of_bracket hbracket
  obtain ⟨rest', rfl, hrest⟩ := h.cons hreturn hfeed
  have hdoc' : docComment (c :: rest') = none := by
    refine docComment_eq_none fun d y hx => ?_
    obtain ⟨rfl, -⟩ := List.cons.inj hx
    cases hc rest
  have hmark' : missingMark.isPrefixOf (c :: rest') = false := by
    rw [isPrefixOf_of_shifted (k := missingMark) h rfl, hmark]
  refine .same ?_ ?_ hrest
  · have hpiece : taken (c :: rest) rest = [c] := taken_append [c] rest
    rw [hpiece]
    exact isBroken_of_not_mem (by simp [Ne.symm hfeed])
  · rw [stepSenses, step, hdoc', hmark', hc]
    rfl

/-- **One step in a shifted text.** -/
theorem follows_step (hw : 0 < w) (h : Shifted w x x') {found : List Lexeme}
    (hstep : step x = some (found, rest)) :
    Follows w (stepSenses x') (found.map senseOf) (taken x rest) rest := by
  unfold step at hstep
  rcases hdoc : docComment x with _ | ⟨inner, t, r⟩
  · simp only [hdoc] at hstep
    by_cases hmark : missingMark.isPrefixOf x = true
    · obtain ⟨y, rfl⟩ := List.isPrefixOf_iff_prefix.1 hmark
      obtain ⟨y', rfl, hy⟩ := Shifted.past (u := missingMark) h rfl
      rw [if_pos hmark, List.drop_left] at hstep
      obtain ⟨rfl, rfl⟩ := Prod.mk.inj (Option.some.inj hstep)
      refine .same ?_ rfl hy
      rw [taken_append]
      rfl
    · rw [if_neg hmark] at hstep
      rw [Bool.not_eq_true] at hmark
      rcases hbracket : bracket x with _ | ⟨l, r⟩
      · simp only [hbracket] at hstep
        obtain ⟨⟨l, r⟩, hl, heq⟩ := Option.map_eq_some_iff.1 hstep
        obtain ⟨rfl, rfl⟩ := Prod.mk.inj heq
        rw [stepSenses_of_leaf h hl hmark hbracket]
        exact follows_leaf hw h hl
      · simp only [hbracket] at hstep
        obtain ⟨rfl, rfl⟩ := Prod.mk.inj (Option.some.inj hstep)
        exact follows_bracket h hmark hbracket
  · simp only [hdoc] at hstep
    obtain ⟨rfl, rfl⟩ := Prod.mk.inj (Option.some.inj hstep)
    exact follows_docComment hw h hdoc

/-! ## Texts -/

theorem senses_of_gap (hgap : gap x = some y) (hy : y ≠ []) :
    senses x = (stepSenses y).bind fun (S, rest) => (senses rest).map (S ++ ·) := by
  obtain ⟨c, z, rfl⟩ := List.exists_cons_of_ne_nil hy
  rcases hstep : step (c :: z) with _ | ⟨found, rest⟩
  · rw [senses_of_step_none hgap hstep, stepSenses, hstep]
    rfl
  · rw [senses_of_step hgap hstep, stepSenses, hstep]
    rfl

/-- **What a shifted text means**: the same as the text, exactly if no piece of it
is broken. -/
theorem senses_of_shifted (hw : 0 < w) (h : Shifted w x x') {L : List Lexeme}
    (hx : lexemes x = some L) :
    senses x' = senses x ↔ ∀ piece ∈ pieces x, isBroken piece = false := by
  induction hn : x.length using Nat.strongRecOn generalizing x x' L with
  | _ n ih =>
    subst hn
    rcases lexemes_cases hx with ⟨hgap, -⟩ | ⟨c, y, found, rest, L', hgap, hstep, hrest, -⟩
    · obtain ⟨y', hgap', hy⟩ := gapFrom_of_shifted (s := .blank) h trivial hgap
      obtain rfl : y' = [] := hy.elim (·.2) fun hne => absurd rfl hne.1
      rw [senses_of_gap_nil hgap, senses_of_gap_nil hgap', pieces_of_gap_nil hgap]
      simp
    · obtain ⟨y', hgap', hy⟩ := gapFrom_of_shifted (s := .blank) h trivial hgap
      have hy : Shifted w (c :: y) y' := hy.elim (fun hnil => absurd hnil.1 (by simp)) (·.2)
      have hlength : rest.length < x.length :=
        (step_length_lt hstep).trans_le (suffix_gapFrom hgap).length_le
      have hsenses : senses x = some (found.map senseOf ++ L'.map senseOf) := by
        rw [senses_of_step hgap hstep, senses, hrest]
        rfl
      rw [pieces_of_step hgap hstep]
      rcases follows_step hw hy hstep with ⟨hwhole, hfound, hrest'⟩ | ⟨hbroken, hfound⟩
      · have hih := ih rest.length hlength hrest' hrest rfl
        rw [senses_of_gap hgap' (hy.ne_nil), hfound, Option.bind_some,
          senses_of_step hgap hstep, List.forall_mem_cons, ← hih, and_iff_right hwhole]
        exact (Option.map_injective (List.append_right_injective _)).eq_iff
      · refine iff_of_false ?_ fun hall => ?_
        · rw [senses_of_gap hgap' hy.ne_nil, hsenses]
          rcases hstep' : stepSenses y' with _ | ⟨S', rest'⟩
          · simp
          · obtain ⟨hlen, hne⟩ := hfound S' rest' hstep'
            intro heq
            obtain ⟨T, -, happend⟩ := Option.map_eq_some_iff.1 heq
            exact hne (List.append_inj_left happend hlen)
        · rw [hall _ List.mem_cons_self] at hbroken
          cases hbroken

end Scan

end Grammar

end ProcessCompiler
