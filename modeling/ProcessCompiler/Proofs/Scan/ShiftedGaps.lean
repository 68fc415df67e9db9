import ProcessCompiler.Proofs.Scan.ShiftedRawStrings
/-!
# Gaps and comments in a shifted text

The end of a line is the end of a comment that ends with its line, and nothing
to other comments or between tokens. So the gaps of a shifted text end where
those of the text do (`gapFrom_of_shifted`), and a comment that documents in one
line says the same. One that runs over several lines says something else
(`blockText_of_shifted`).
-/

namespace ProcessCompiler

namespace Grammar

namespace Scan

open Text Layout

variable {w : ℕ} {b m t u x x' y rest : List Char} {c : Char} {s : GapState}

/-- Where a line ends, nothing goes on. -/
theorem border_of_atEnd (h : AtEnd b) : Border b := by
  cases h with
  | nil => exact ⟨rfl, rfl, rfl⟩
  | feed => exact ⟨rfl, rfl, rfl⟩
  | carriage => exact ⟨rfl, rfl, rfl⟩

/-- The end of a line is blank, in the text and in the shifted one. -/
theorem isBlank_of_mem_stop (r : ℕ) (hm : ∀ c ∈ m, isBlank c = true) :
    ∀ c ∈ List.replicate r '\r' ++ m, isBlank c = true := by
  intro c hc
  rcases List.mem_append.1 hc with hc | hc
  · rw [List.eq_of_mem_replicate hc]
    rfl
  · exact hm c hc

theorem isBlank_of_mem_shift (j k w : ℕ) :
    ∀ c ∈ List.replicate j '\r' ++ List.replicate k '\n' ++ List.replicate w ' ',
      isBlank c = true := by
  intro c hc
  simp only [List.mem_append] at hc
  rcases hc with (hc | hc) | hc <;>
  · rw [List.eq_of_mem_replicate hc]
    rfl

/-! ## Gaps -/

/-- Where the scan of a gap stands behind blanks. -/
def GapState.pastBlanks (u : List Char) : GapState → GapState
  | .line => if '\n' ∈ u then .blank else .line
  | s => s

/-- Blanks in a gap or a comment. -/
theorem gapFrom_blanks (hu : ∀ c ∈ u, isBlank c = true) (hs : ∀ next, s ≠ .second next)
    (x : List Char) : gapFrom s (u ++ x) = gapFrom (s.pastBlanks u) x := by
  induction u generalizing s with
  | nil => cases s <;> simp [GapState.pastBlanks]
  | cons c u ih =>
    have hblank : isBlank c = true := hu c List.mem_cons_self
    have htail : ∀ d ∈ u, isBlank d = true := fun d hd => hu d (List.mem_cons_of_mem _ hd)
    have hslash : c ≠ '/' := ne_of_isBlank hblank rfl
    have hstar : c ≠ '*' := ne_of_isBlank hblank rfl
    rw [List.cons_append]
    cases s with
    | blank =>
      have hstep : gapStep c (u ++ x) .blank = some .blank := by
        simp [gapStep, isMark, hslash, isGap, hblank]
      simp only [gapFrom, hstep]
      exact ih htail (by simp)
    | line =>
      by_cases hc : c = '\n'
      · subst hc
        have hblank := ih (s := .blank) htail (by simp)
        simpa [gapFrom, gapStep, GapState.pastBlanks] using hblank
      · have hline := ih (s := .line) htail (by simp)
        simpa [gapFrom, gapStep, GapState.pastBlanks, hc, Ne.symm hc] using hline
    | block depth =>
      have hstep : gapStep c (u ++ x) (.block depth) = some (.block depth) := by
        simp [gapStep, isMark, hslash, hstar]
      simp only [gapFrom, hstep]
      exact ih htail (by simp)
    | second next => exact absurd rfl (hs next)

/-- Before a blank the scan of a gap is not inside a mark. -/
theorem GapState.Meets.ne_second (hs : s.Meets x) (hx : ∀ c, x.head? = some c → isBlank c = true)
    (next : GapState) : s ≠ .second next := by
  rintro rfl
  obtain ⟨⟨d, hd, heq⟩, -⟩ := hs
  have hblank := hx d heq
  simp only [List.mem_cons, List.not_mem_nil, or_false] at hd
  rcases hd with rfl | rfl
  · cases hblank
  · cases hblank

theorem GapState.meets_pastBlanks (hs : ∀ next, s ≠ .second next) (u x : List Char) :
    (s.pastBlanks u).Meets x := by
  cases s with
  | blank => trivial
  | line => unfold pastBlanks; split_ifs <;> trivial
  | block depth => trivial
  | second next => exact absurd rfl (hs next)

/-- One move in a gap is the same in the shifted text. -/
theorem gapStep_of_shifted (h : Shifted w x x') (c : Char) (s : GapState) :
    gapStep c x' s = gapStep c x s := by
  obtain ⟨u, b, b', rfl, rfl, -, hb, hb', -⟩ := h.exists_line
  rw [gapStep_append (border_of_atEnd hb), gapStep_append (border_of_atEnd hb')]

/-- **A gap of a shifted text** ends where that of the text does. -/
theorem gapFrom_of_shifted (h : Shifted w x x') (hs : s.Meets x) (hy : gapFrom s x = some y) :
    ∃ y', gapFrom s x' = some y' ∧ (y = [] ∧ y' = [] ∨ y ≠ [] ∧ Shifted w y y') := by
  induction h generalizing s with
  | @stop r j k m hm hhead hj =>
    have hold := isBlank_of_mem_stop r hm
    have hnew := isBlank_of_mem_shift j (k + 1) 0
    rw [List.replicate_zero, List.append_nil] at hnew
    have hplain := hs.ne_second fun c hc => hold c (List.mem_of_mem_head? hc)
    have hy' := gapFrom_blanks hold hplain []
    have hend := gapFrom_blanks hnew hplain []
    rw [List.append_nil, hy] at hy'
    rw [List.append_nil] at hend
    rw [hend]
    cases s with
    | blank => exact ⟨[], rfl, .inl ⟨Option.some.inj hy', rfl⟩⟩
    | line =>
      refine ⟨[], ?_, .inl ⟨?_, rfl⟩⟩
      · simp [GapState.pastBlanks, gapFrom]
      · simp only [GapState.pastBlanks] at hy'
        split_ifs at hy' <;> exact Option.some.inj hy'
    | block depth => cases hy'
    | second next => exact absurd rfl (hplain next)
  | @turn r j m x x' hm hlast hj h ih =>
    have hplain := hs.ne_second (by cases r <;> rintro c ⟨⟩ <;> rfl)
    -- A line ends in both, so the scan stands at the same place behind them.
    have hsame : s.pastBlanks (List.replicate j '\r' ++ List.replicate (m.count '\n' + 1) '\n' ++
        List.replicate w ' ') = s.pastBlanks (List.replicate r '\r' ++ '\n' :: m) := by
      cases s <;> simp [GapState.pastBlanks]
    rw [gapFrom_blanks (isBlank_of_mem_turn r hm) hplain] at hy
    rw [gapFrom_blanks (isBlank_of_mem_shift j _ w) hplain, hsame]
    exact ih (GapState.meets_pastBlanks hplain _ x) hy
  | @keep c x x' hc hr h ih =>
    simp only [gapFrom] at hy ⊢
    rw [gapStep_of_shifted h]
    cases hstep : gapStep c x s with
    | some s' =>
      simp only [hstep] at hy ⊢
      exact ih (meets_of_gapStep hs hstep) hy
    | none =>
      simp only [hstep] at hy ⊢
      obtain rfl := Option.some.inj hy
      exact ⟨c :: x', rfl, .inr ⟨List.cons_ne_nil _ _, .keep hc hr h⟩⟩

/-! ## Comments that end with their line -/

/-- The text of such a comment is the rest of its line, but for a return at its
end. -/
theorem eq_append_of_lineText (h : lineText x = (t, rest)) :
    '\n' ∉ t ∧ (x = t ++ rest ∨ x = t ++ '\r' :: rest) := by
  fun_induction lineText x generalizing t with
  | case1 x =>
    obtain ⟨rfl, rfl⟩ := Prod.mk.inj h
    exact ⟨List.not_mem_nil, .inr rfl⟩
  | case2 x =>
    obtain ⟨rfl, rfl⟩ := Prod.mk.inj h
    exact ⟨List.not_mem_nil, .inl rfl⟩
  | case3 c x hreturn hfeed s r hs ih =>
    obtain ⟨rfl, rfl⟩ := Prod.mk.inj h
    obtain ⟨hmem, hx⟩ := ih hs
    refine ⟨?_, ?_⟩
    · rw [List.mem_cons, not_or]
      exact ⟨Ne.symm hfeed, hmem⟩
    · rcases hx with hx | hx
      · exact .inl (congrArg (c :: ·) hx)
      · exact .inr (congrArg (c :: ·) hx)
  | case4 =>
    obtain ⟨rfl, rfl⟩ := Prod.mk.inj h
    exact ⟨List.not_mem_nil, .inl rfl⟩

theorem lineText_cons (hc : c ≠ '\n') (hr : c = '\r' → x.head? ≠ some '\n') :
    lineText (c :: x) = (c :: (lineText x).1, (lineText x).2) := by
  rw [lineText]
  · rintro rest rfl rfl
    exact hr rfl rfl
  · exact hc

/-- At the end of a line nothing is left for the comment. -/
theorem lineText_returns {r : ℕ} (hm : m = [] ∨ m.head? = some '\n')
    (h : lineText (List.replicate r '\r' ++ m) = (t, rest)) (ht : '\r' ∉ t) :
    t = [] ∧ rest = m ∧ r ≤ 1 := by
  have hkept : ∀ y, y.head? ≠ some '\n' → lineText ('\r' :: y) ≠ (t, rest) := by
    intro y hy heq
    rw [lineText_cons (by decide) fun _ => hy] at heq
    exact ht ((Prod.mk.inj heq).1 ▸ List.mem_cons_self)
  rcases r with _ | _ | r
  · rcases hm with rfl | hm
    · obtain ⟨rfl, rfl⟩ := Prod.mk.inj h
      exact ⟨rfl, rfl, Nat.zero_le 1⟩
    · obtain ⟨m, rfl⟩ := List.head?_eq_some_iff.1 hm
      obtain ⟨rfl, rfl⟩ := Prod.mk.inj h
      exact ⟨rfl, rfl, Nat.zero_le 1⟩
  · rcases hm with rfl | hm
    · exact absurd h (hkept [] nofun)
    · obtain ⟨m, rfl⟩ := List.head?_eq_some_iff.1 hm
      obtain ⟨rfl, rfl⟩ := Prod.mk.inj h
      exact ⟨rfl, rfl, le_rfl⟩
  · refine absurd h (hkept _ ?_)
    rw [List.replicate_succ]
    nofun

/-- **A comment that ends with its line** says the same in the shifted text. -/
theorem lineText_of_shifted (h : Shifted w x x') (ht : lineText x = (t, rest)) (hr : '\r' ∉ t) :
    ∃ rest', lineText x' = (t, rest') ∧ Shifted w rest rest' := by
  induction h generalizing t with
  | @stop r j k m hm hhead hj =>
    obtain ⟨rfl, rfl, hr⟩ := lineText_returns hhead ht hr
    obtain rfl : j = 0 := by omega
    exact ⟨_, rfl, .stop (r := 0) hm hhead (Nat.zero_le _)⟩
  | @turn r j m x x' hm hlast hj h =>
    rw [List.append_assoc, List.cons_append] at ht
    obtain ⟨rfl, rfl, hr⟩ := lineText_returns (.inr rfl) ht hr
    obtain rfl : j = 0 := by omega
    exact ⟨_, rfl, .turn (r := 0) (j := 0) hm hlast (Nat.zero_le _) h⟩
  | @keep c x x' hc hreturn h ih =>
    rw [lineText_cons hc hreturn] at ht
    obtain ⟨rfl, rfl⟩ := Prod.mk.inj ht
    rw [List.mem_cons, not_or] at hr
    obtain ⟨rest', hrest', hshifted⟩ := ih rfl hr.2
    refine ⟨rest', ?_, hshifted⟩
    rw [lineText_cons hc (absurd · (Ne.symm hr.1)), hrest']

/-! ## Comments that go on -/

theorem eq_append_of_blockText {depth : ℕ} (h : blockText depth x = some (t, rest)) :
    x = t ++ '*' :: '/' :: rest := by
  fun_induction blockText depth x generalizing t with
  | case1 depth x ih =>
    obtain ⟨⟨s, r⟩, hs, heq⟩ := Option.map_eq_some_iff.1 h
    obtain ⟨rfl, rfl⟩ := Prod.mk.inj heq
    rw [ih hs]
    rfl
  | case2 x =>
    obtain ⟨rfl, rfl⟩ := Prod.mk.inj (Option.some.inj h)
    rfl
  | case3 x depth ih =>
    obtain ⟨⟨s, r⟩, hs, heq⟩ := Option.map_eq_some_iff.1 h
    obtain ⟨rfl, rfl⟩ := Prod.mk.inj heq
    rw [ih hs]
    rfl
  | case4 depth c x hopen hclose ih =>
    obtain ⟨⟨s, r⟩, hs, heq⟩ := Option.map_eq_some_iff.1 h
    obtain ⟨rfl, rfl⟩ := Prod.mk.inj heq
    rw [ih hs]
    rfl
  | case5 => cases h

/-- A character that begins no mark is part of the comment. -/
theorem blockText_cons (depth : ℕ) (hopen : isMark '/' '*' c x = false)
    (hclose : isMark '*' '/' c x = false) :
    blockText depth (c :: x) = (blockText depth x).map fun (s, r) => (c :: s, r) := by
  rw [blockText]
  · rintro rest rfl rfl
    cases hopen
  · rintro rest rfl rfl
    cases hclose

theorem blockText_blanks (depth : ℕ) (hu : ∀ c ∈ u, isBlank c = true) (x : List Char) :
    blockText depth (u ++ x) = (blockText depth x).map fun (s, r) => (u ++ s, r) := by
  induction u with
  | nil => simp
  | cons c u ih =>
    have hblank : isBlank c = true := hu c List.mem_cons_self
    have hslash : c ≠ '/' := ne_of_isBlank hblank rfl
    have hstar : c ≠ '*' := ne_of_isBlank hblank rfl
    rw [List.cons_append, blockText_cons depth (by simp [isMark, hslash]) (by simp [isMark, hstar]),
      ih fun d hd => hu d (List.mem_cons_of_mem _ hd), Option.map_map]
    rfl

theorem exists_cons_of_isMark {d e : Char} (h : isMark d e c x = true) :
    c = d ∧ ∃ y, x = e :: y := by
  simp only [isMark, Bool.and_eq_true, beq_iff_eq] at h
  exact ⟨h.1, List.head?_eq_some_iff.1 h.2⟩

theorem isMark_of_shifted (h : Shifted w x x') {d : Char} (hd : isJoining d = true) (e c : Char) :
    isMark e d c x' = isMark e d c x := by
  obtain ⟨u, b, b', rfl, rfl, -, hb, hb', -⟩ := h.exists_line
  rw [isMark, isMark, head?_append (border_of_atEnd hb) hd, head?_append (border_of_atEnd hb') hd]

/-- What becomes of the text of a comment: a line stays as it is, and several
lines say something else. -/
structure Restated (t t' : List Char) : Prop extends
    Revalued t (t.flatMap bytes) (t'.flatMap bytes) where
  line : '\n' ∉ t → t' = t

namespace Restated

variable {t' : List Char}

theorem nil : Restated [] [] := ⟨⟨fun _ => rfl, nofun⟩, fun _ => rfl⟩

theorem append (h : Restated t t') (hu : '\n' ∉ u) : Restated (u ++ t) (u ++ t') := by
  induction u with
  | nil => exact h
  | cons c u ih =>
    rw [List.mem_cons, not_or] at hu
    have htail := ih hu.2
    refine ⟨htail.toRevalued.cons (Ne.symm hu.1) (bytes c), fun hline => ?_⟩
    rw [List.cons_append, List.cons_append,
      htail.line fun hmem => hline (List.mem_cons_of_mem _ hmem)]

theorem turn (hw : 0 < w) (h : Restated t t') (hlast : u.getLast? = some '\n') (k : List Char) :
    Restated (u ++ t) (k ++ List.replicate w ' ' ++ t') := by
  obtain ⟨front, rfl⟩ := List.getLast?_eq_some_iff.1 hlast
  have hspaces : (List.replicate w ' ').flatMap bytes = List.replicate w 32 := by
    rw [List.flatMap_replicate]
    exact List.flatten_replicate_singleton
  have hvalue := h.toRevalued.turn (m := front ++ ['\n']) hw (by simp) (front.flatMap bytes)
    (k.flatMap bytes)
  refine ⟨?_, fun hline => absurd (by simp) hline⟩
  rw [List.flatMap_append, List.flatMap_append, List.flatMap_append, List.flatMap_append, hspaces,
    List.append_assoc (front.flatMap bytes)]
  exact hvalue

end Restated

/-- Characters of a comment inside a line: a mark, or a character that begins
none. -/
theorem exists_restated_append {depth d : ℕ} {y y' : List Char} (hu : '\n' ∉ u)
    (happend : ∀ z ∈ [y, y'], blockText depth (u ++ z) =
      (blockText d z).map fun (s, r) => (u ++ s, r))
    (hy : ∀ t, blockText d y = some (t, rest) → ∃ t' rest', blockText d y' = some (t', rest') ∧
      Shifted w rest rest' ∧ Restated t t')
    (ht : blockText depth (u ++ y) = some (t, rest)) :
    ∃ t' rest', blockText depth (u ++ y') = some (t', rest') ∧ Shifted w rest rest' ∧
      Restated t t' := by
  rw [happend y (by simp)] at ht
  obtain ⟨⟨s, r⟩, hs, heq⟩ := Option.map_eq_some_iff.1 ht
  obtain ⟨rfl, rfl⟩ := Prod.mk.inj heq
  obtain ⟨t', rest', ht', hrest, hstated⟩ := hy s hs
  refine ⟨u ++ t', rest', ?_, hrest, hstated.append hu⟩
  rw [happend y' (by simp), ht', Option.map_some]

/-- **A comment in one line** says the same in the shifted text, and one that
goes on says something else. -/
theorem blockText_of_shifted (hw : 0 < w) (h : Shifted w x x') {depth : ℕ}
    (ht : blockText depth x = some (t, rest)) :
    ∃ t' rest', blockText depth x' = some (t', rest') ∧ Shifted w rest rest' ∧ Restated t t' := by
  -- A mark takes two characters, so the induction is on the length of the text.
  induction hn : x.length using Nat.strongRecOn generalizing x x' depth t with
  | _ n ih =>
    subst hn
    cases h with
    | @stop r j k m hm =>
      have hnone := blockText_blanks depth (isBlank_of_mem_stop r hm) []
      rw [List.append_nil, ht] at hnone
      cases hnone
    | @turn r j m x x' hm hlast hj h =>
      rw [blockText_blanks depth (isBlank_of_mem_turn r hm)] at ht
      obtain ⟨⟨s, r'⟩, hs, heq⟩ := Option.map_eq_some_iff.1 ht
      obtain ⟨rfl, rfl⟩ := Prod.mk.inj heq
      have hlength : x.length < (List.replicate r '\r' ++ '\n' :: m ++ x).length := by
        simp only [List.length_append, List.length_cons]
        omega
      obtain ⟨t', rest', ht', hrest, hstated⟩ := ih x.length hlength h hs rfl
      have hturn := hstated.turn hw (getLast?_turn r hlast)
        (List.replicate j '\r' ++ List.replicate (m.count '\n' + 1) '\n')
      refine ⟨_, rest', ?_, hrest, hturn⟩
      rw [blockText_blanks depth (isBlank_of_mem_shift j _ w), ht', Option.map_some]
    | @keep c x x' hc hr h =>
      by_cases hopen : isMark '/' '*' c x = true
      · obtain ⟨rfl, y, rfl⟩ := exists_cons_of_isMark hopen
        obtain ⟨y', rfl, hy⟩ := h.cons (by decide) (by decide)
        have hlength : y.length < ('/' :: '*' :: y).length := Nat.lt_add_of_pos_right Nat.two_pos
        exact exists_restated_append (u := ['/', '*']) (by simp) (fun z _ => rfl)
          (fun s hs => ih y.length hlength hy hs rfl) ht
      · by_cases hclose : isMark '*' '/' c x = true
        · obtain ⟨rfl, y, rfl⟩ := exists_cons_of_isMark hclose
          obtain ⟨y', rfl, hy⟩ := h.cons (by decide) (by decide)
          have hlength : y.length < ('*' :: '/' :: y).length := Nat.lt_add_of_pos_right Nat.two_pos
          cases depth with
          | zero =>
            obtain ⟨rfl, rfl⟩ := Prod.mk.inj (Option.some.inj ht)
            exact ⟨[], y', rfl, hy, .nil⟩
          | succ depth =>
            exact exists_restated_append (u := ['*', '/']) (by simp) (fun z _ => rfl)
              (fun s hs => ih y.length hlength hy hs rfl) ht
        · rw [Bool.not_eq_true] at hopen hclose
          refine exists_restated_append (u := [c]) (d := depth) (by simpa using Ne.symm hc) ?_
            (fun s hs => ih x.length (Nat.lt_succ_self _) h hs rfl) ht
          simp only [List.mem_cons, List.not_mem_nil, or_false]
          rintro z (rfl | rfl)
          · exact blockText_cons depth hopen hclose
          · rw [← isMark_of_shifted h rfl] at hopen hclose
            exact blockText_cons depth hopen hclose

end Scan

end Grammar

end ProcessCompiler
