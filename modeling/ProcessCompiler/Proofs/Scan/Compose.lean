import ProcessCompiler.Proofs.Scan.Progress
/-!
# Texts in a row

What the scanner makes of two texts in a row. Where the first text is scanned
on its own and the second begins at a border, the lexemes of both stand in a
row, unless the first ends inside a comment that runs to the end of its line:
then the rest of that line is lost.
-/

namespace ProcessCompiler

namespace Grammar

namespace Scan

open Text

variable {b t x y rest : List Char} {c : Char} {s : GapState} {L : List Lexeme}

/-! ## Gaps -/

theorem head?_append (hb : Border b) {d : Char} (hd : isJoining d = true) (x : List Char) :
    ((x ++ b).head? == some d) = (x.head? == some d) := by
  rcases x with _ | ⟨c, x⟩
  · rcases b with _ | ⟨c, b⟩
    · rfl
    · simp [hb.ne_punct hd]
  · rfl

theorem tail_append {d : Char} (h : (x.head? == some d) = true) : (x ++ b).tail = x.tail ++ b := by
  rcases x with _ | ⟨c, x⟩
  · cases h
  · rfl

theorem isDocLine_append (hb : Border b) (x : List Char) : isDocLine (x ++ b) = isDocLine x := by
  unfold isDocLine
  rw [head?_append hb rfl, head?_append hb rfl]
  by_cases hx : (x.head? == some '/') = true
  · rw [tail_append hx, bne, head?_append hb rfl, bne]
  · simp [hx]

theorem isDocBlock_append (hb : Border b) (x : List Char) : isDocBlock (x ++ b) = isDocBlock x := by
  unfold isDocBlock
  rw [head?_append hb rfl, head?_append hb rfl]
  by_cases hx : (x.head? == some '*') = true
  · rw [tail_append hx, bne, head?_append hb rfl, bne, head?_append hb rfl, bne, bne]
  · simp [hx]

/-- A move of the scan of a gap is the same before a border. -/
theorem gapStep_append (hb : Border b) (c : Char) (x : List Char) (s : GapState) :
    gapStep c (x ++ b) s = gapStep c x s := by
  have hmark : ∀ {a d}, isJoining d = true → isMark a d c (x ++ b) = isMark a d c x := fun hd => by
    rw [isMark, head?_append hb hd, isMark]
  have htail : ∀ {a d}, isMark a d c x = true → (x ++ b).tail = x.tail ++ b := fun h =>
    tail_append (Bool.and_eq_true_iff.1 h).2
  cases s with
  | blank =>
    simp only [gapStep, hmark (show isJoining '/' = true from rfl),
      hmark (show isJoining '*' = true from rfl)]
    by_cases h₁ : isMark '/' '/' c x = true
    · rw [if_pos h₁, if_pos h₁, htail h₁, isDocLine_append hb]
    · rw [if_neg h₁, if_neg h₁]
      by_cases h₂ : isMark '/' '*' c x = true
      · rw [if_pos h₂, if_pos h₂, htail h₂, isDocBlock_append hb]
      · rw [if_neg h₂, if_neg h₂]
  | line => rfl
  | block depth =>
    simp only [gapStep, hmark (show isJoining '/' = true from rfl),
      hmark (show isJoining '*' = true from rfl)]
  | second next => rfl

/-- A gap that ends before the text does ends in the same place. -/
theorem gapFrom_append (hb : Border b) (h : gapFrom s x = some y) (hy : y ≠ []) :
    gapFrom s (x ++ b) = some (y ++ b) := by
  induction x generalizing s with
  | nil =>
    simp only [gapFrom] at h
    split_ifs at h
    exact absurd (Option.some.inj h).symm hy
  | cons c x ih =>
    simp only [List.cons_append, gapFrom, gapStep_append hb] at h ⊢
    split at h
    · exact ih h
    · rw [← Option.some.inj h]
      rfl

/-- A gap that takes all of a text goes on behind it, outside comments or in
one that ends with its line. -/
theorem gapFrom_append_nil (h : gapFrom s x = some []) :
    (∀ b, Border b → gapFrom s (x ++ b) = gap b) ∨
      ∀ b, Border b → gapFrom s (x ++ b) = gapFrom .line b := by
  induction x generalizing s with
  | nil =>
    simp only [gapFrom] at h
    split_ifs at h with hs
    rcases Bool.or_eq_true_iff.1 hs with hs | hs
    · exact .inl fun b _ => by rw [of_decide_eq_true hs]; rfl
    · exact .inr fun b _ => by rw [of_decide_eq_true hs]; rfl
  | cons c x ih =>
    simp only [gapFrom] at h
    split at h
    · rename_i s' hs
      have hnext : ∀ b, Border b → gapFrom s (c :: x ++ b) = gapFrom s' (x ++ b) := fun b hb => by
        simp only [List.cons_append, gapFrom, gapStep_append hb, hs]
      rcases ih h with ih | ih
      · exact .inl fun b hb => (hnext b hb).trans (ih b hb)
      · exact .inr fun b hb => (hnext b hb).trans (ih b hb)
    · cases h

/-- What stands behind a line. -/
def afterLine (b : List Char) : List Char := b.dropWhile (· != '\n')

theorem gapFrom_line (b : List Char) : gapFrom .line b = gap (afterLine b) := by
  induction b with
  | nil => rfl
  | cons c b ih =>
    by_cases hc : c = '\n'
    · subst hc
      rfl
    · simp [gapFrom, gapStep, afterLine, hc] at ih ⊢
      exact ih

/-- What follows the gap at the start of a text ends it. -/
theorem suffix_gapFrom (h : gapFrom s x = some y) : y <:+ x := by
  induction x generalizing s with
  | nil =>
    simp only [gapFrom] at h
    split_ifs at h
    obtain rfl := Option.some.inj h
    exact List.suffix_rfl
  | cons c x ih =>
    simp only [gapFrom] at h
    split at h
    · exact (ih h).trans (List.suffix_cons _ _)
    · obtain rfl := Option.some.inj h
      exact List.suffix_rfl

/-- A scan stands before the second character of a mark only where there is
one. -/
def GapState.Meets (x : List Char) : GapState → Prop
  | .second next => (∃ c ∈ ['/', '*'], x.head? = some c) ∧ ∀ n, next ≠ .second n
  | _ => True

theorem meets_of_gapStep {s' : GapState} (hs : s.Meets (c :: x)) (h : gapStep c x s = some s') :
    s'.Meets x := by
  have hmark : ∀ {a d}, d ∈ ['/', '*'] → isMark a d c x = true → ∃ d ∈ ['/', '*'], x.head? = some d :=
    fun {a d} hd h => ⟨d, hd, eq_of_beq (Bool.and_eq_true_iff.1 h).2⟩
  cases s with
  | blank =>
    simp only [gapStep] at h
    split_ifs at h with h₁ h₂ h₃ h₄ h₅ <;> obtain rfl := Option.some.inj h
    · trivial
    · exact ⟨hmark (by simp) h₃, by simp⟩
    · trivial
  | line =>
    obtain rfl := Option.some.inj h
    split_ifs <;> trivial
  | block depth =>
    simp only [gapStep] at h
    split_ifs at h with h₁ h₂ <;> obtain rfl := Option.some.inj h
    · exact ⟨hmark (by simp) h₁, by simp⟩
    · refine ⟨hmark (by simp) h₂, fun n => ?_⟩
      cases depth <;> simp
    · trivial
  | second next =>
    obtain rfl := Option.some.inj h
    cases next with
    | second n => exact absurd rfl (hs.2 n)
    | _ => trivial

/-- A gap that takes the end of a statement at the end of a text ends in a
comment that ends with its line. -/
theorem gapFrom_stop {e : Char} (he : isStop e = true) (hs : s.Meets x) (h : gapFrom s x = some [])
    (hx : x.getLast? = some e) (hb : Border b) : gapFrom s (x ++ b) = gapFrom .line b := by
  induction x generalizing s with
  | nil => cases hx
  | cons c x ih =>
    simp only [List.cons_append, gapFrom, gapStep_append hb] at h ⊢
    split at h
    · rename_i s' hs'
      have hmeets := meets_of_gapStep hs hs'
      rcases x with _ | ⟨d, x⟩
      · obtain rfl : c = e := Option.some.inj hx
        cases s with
        | blank => rcases isStop_iff.1 he with rfl | rfl <;> cases hs'
        | line =>
          obtain rfl : s' = .line := by
            rcases isStop_iff.1 he with rfl | rfl <;> exact (Option.some.inj hs').symm
          rfl
        | block depth =>
          obtain rfl : s' = .block depth := by
            rcases isStop_iff.1 he with rfl | rfl <;> exact (Option.some.inj hs').symm
          cases h
        | second next =>
          obtain ⟨⟨d, hd, heq⟩, -⟩ := hs
          obtain rfl := Option.some.inj heq
          rcases isStop_iff.1 he with rfl | rfl <;> simp at hd
      · exact ih hmeets h hx
    · cases h

/-! ## Lexemes -/

/-- As many steps as a text has characters are enough. -/
theorem lexemesIn_eq {m n : ℕ} (hm : x.length < m) (hn : x.length < n) :
    lexemesIn m x = lexemesIn n x := by
  induction m generalizing n x with
  | zero => cases hm
  | succ m ih =>
    obtain ⟨n, rfl⟩ := Nat.exists_eq_add_one_of_ne_zero (Nat.ne_of_gt (Nat.zero_lt_of_lt hn))
    rcases hgap : gap x with _ | _ | ⟨c, y⟩
    · simp only [lexemesIn, hgap]
    · simp only [lexemesIn, hgap]
    · rcases hstep : step (c :: y) with _ | ⟨found, rest⟩
      · simp only [lexemesIn, hgap, hstep]
      · have hle := (suffix_gapFrom hgap).length_le
        have hlt := step_length_lt hstep
        simp only [lexemesIn, hgap, hstep]
        rw [ih (n := n) (by omega) (by omega)]

theorem lexemes_of_gap_none (h : gap x = none) : lexemes x = none := by
  simp only [lexemes, lexemesIn, h]

theorem lexemes_of_gap_nil (h : gap x = some []) : lexemes x = some [] := by
  simp only [lexemes, lexemesIn, h]

theorem lexemes_of_step_none (hgap : gap x = some (c :: y)) (hstep : step (c :: y) = none) :
    lexemes x = none := by
  simp only [lexemes, lexemesIn, hgap, hstep]

/-- The lexemes of a text are those of a step, and those of what follows. -/
theorem lexemes_of_step {found : List Lexeme} (hgap : gap x = some (c :: y))
    (hstep : step (c :: y) = some (found, rest)) : lexemes x = (lexemes rest).map (found ++ ·) := by
  have hle := (suffix_gapFrom hgap).length_le
  have hlt := step_length_lt hstep
  have hrest : lexemesIn x.length rest = lexemes rest := lexemesIn_eq (by omega) (by omega)
  rw [lexemes, lexemesIn]
  simp only [hgap, hstep, hrest]

theorem lexemes_congr (h : gap x = gap y) : lexemes x = lexemes y := by
  rcases hgap : gap x with _ | _ | ⟨c, z⟩
  · rw [lexemes_of_gap_none hgap, lexemes_of_gap_none (h ▸ hgap)]
  · rw [lexemes_of_gap_nil hgap, lexemes_of_gap_nil (h ▸ hgap)]
  · rcases hstep : step (c :: z) with _ | ⟨found, rest⟩
    · rw [lexemes_of_step_none hgap hstep, lexemes_of_step_none (h ▸ hgap) hstep]
    · rw [lexemes_of_step hgap hstep, lexemes_of_step (x := y) (h ▸ hgap) hstep]

/-- How the scan of a text goes on that has lexemes. -/
theorem lexemes_cases (h : lexemes x = some L) :
    gap x = some [] ∧ L = [] ∨ ∃ c y found rest L', gap x = some (c :: y) ∧
      step (c :: y) = some (found, rest) ∧ lexemes rest = some L' ∧ L = found ++ L' := by
  rcases hgap : gap x with _ | _ | ⟨c, y⟩
  · rw [lexemes_of_gap_none hgap] at h
    cases h
  · rw [lexemes_of_gap_nil hgap] at h
    exact .inl ⟨rfl, (Option.some.inj h).symm⟩
  · rcases hstep : step (c :: y) with _ | ⟨found, rest⟩
    · rw [lexemes_of_step_none hgap hstep] at h
      cases h
    · rw [lexemes_of_step hgap hstep] at h
      obtain ⟨L', hL', heq⟩ := Option.map_eq_some_iff.1 h
      exact .inr ⟨c, y, found, rest, L', rfl, hstep, hL', heq.symm⟩

/-- The brackets among lexemes. -/
def brackets (L : List Lexeme) : List Lexeme :=
  L.filter fun
    | .leaf _ => false
    | _ => true

theorem brackets_append (L L' : List Lexeme) : brackets (L ++ L') = brackets L ++ brackets L' :=
  List.filter_append _ _

/-- Lexemes with the same brackets open and close each kind as often. -/
theorem count_eq_of_brackets {L L' : List Lexeme} (h : brackets L = brackets L') (d : Delimiter) :
    L.count (.opening d) = L'.count (.opening d) ∧ L.count (.closing d) = L'.count (.closing d) := by
  have hopening : ∀ M : List Lexeme, (brackets M).count (.opening d) = M.count (.opening d) :=
    fun M => List.count_filter rfl
  have hclosing : ∀ M : List Lexeme, (brackets M).count (.closing d) = M.count (.closing d) :=
    fun M => List.count_filter rfl
  rw [← hopening, ← hclosing, h, hopening, hclosing]
  exact ⟨rfl, rfl⟩

/-- A bracket behind a border does not complete the mark of a missing
expression. -/
def Unmarked (L : List Lexeme) (b : List Char) : Prop :=
  L.getLast? = some (.opening .paren) → b.head? ≠ some ')'

/-- The text ends outside comments: what stands behind it is scanned as if it
stood alone. -/
structure Closes (t : List Char) (L : List Lexeme) : Prop where
  append : ∀ b, Border b → Unmarked L b → lexemes (t ++ b) = (lexemes b).map (L ++ ·)
  stop : ∀ c, t.getLast? = some c → isStop c = true → ∃ front, L = front ++ [stopLexeme c false]

/-- The text ends inside a comment that takes the rest of the line. The comment
may document, and then its text grows. -/
structure RunsOn (t : List Char) (L : List Lexeme) : Prop where
  append : ∀ b, Border b → Unmarked L b → '\r' ∉ b.takeWhile (· != '\n') →
    ∃ L', brackets L' = brackets L ∧ lexemes (t ++ b) = (lexemes (afterLine b)).map (L' ++ ·)

/-- The text ends inside a comment that takes the rest of the line and means
nothing. -/
structure Trails (t : List Char) (L : List Lexeme) : Prop where
  append : ∀ b, Border b → Unmarked L b → lexemes (t ++ b) = (lexemes (afterLine b)).map (L ++ ·)

/-- The text ends inside a comment that documents: whatever it takes, its
attribute stands before the lexemes of the next line. -/
structure Documents (t : List Char) (L : List Lexeme) : Prop extends RunsOn t L where
  last : ∃ K inner y, L = K ++ docLexemes inner y ∧
    ∀ b M, Border b → Unmarked L b → lexemes (t ++ b) = some M →
      ∃ y' N, lexemes (afterLine b) = some N ∧ M = K ++ (docLexemes inner y' ++ N)

theorem Closes.semi (h : Closes t L) (ht : t.getLast? = some ';') :
    ∃ front, L = front ++ [.leaf (.punct ';' false)] := h.stop _ ht rfl

theorem Trails.runsOn (h : Trails t L) : RunsOn t L :=
  ⟨fun b hb hmark _ => ⟨L, rfl, h.append b hb hmark⟩⟩

theorem lineText_of_no_return (h : '\r' ∉ x.takeWhile (· != '\n')) :
    lineText x = (x.takeWhile (· != '\n'), afterLine x) := by
  induction x with
  | nil => rfl
  | cons c x ih =>
    by_cases hc : c = '\n'
    · subst hc
      rfl
    · have hr : c ≠ '\r' := by
        rintro rfl
        simp at h
      have htake : (c :: x).takeWhile (· != '\n') = c :: x.takeWhile (· != '\n') := by simp [hc]
      have hafter : afterLine (c :: x) = afterLine x := by simp [afterLine, hc]
      rw [htake] at h ⊢
      rw [lineText, ih fun hx => h (List.mem_cons_of_mem _ hx), hafter]
      · exact fun r hcr => absurd hcr hr
      · exact hc

/-- No carriage return at the end of the first text is completed by a line feed
at the start of the second. -/
def KeepsReturn (x y : List Char) : Prop := x.getLast? = some '\r' → y.head? ≠ some '\n'

theorem getLast?_of_suffix {α : Type} {x y : List α} (h : y <:+ x) (hy : y ≠ []) :
    y.getLast? = x.getLast? := by
  obtain ⟨u, rfl⟩ := h
  rw [List.getLast?_append_of_ne_nil u hy]

namespace KeepsReturn

variable {z : List Char}

theorem suffix (h : KeepsReturn x z) (hy : y <:+ x) : KeepsReturn y z := by
  intro hlast
  have hne : y ≠ [] := by rintro rfl; cases hlast
  exact h (getLast?_of_suffix hy hne ▸ hlast)

theorem tail (h : KeepsReturn (c :: x) z) : KeepsReturn x z := h.suffix (List.suffix_cons c x)

/-- A return before such a text is not completed. -/
theorem ne_feed (h : KeepsReturn ('\r' :: x) z) (hx : ∀ r, x ≠ '\n' :: r) (r : List Char) :
    x ++ z ≠ '\n' :: r := by
  refine append_ne_cons hx ?_ r
  rintro rfl r rfl
  exact h rfl rfl

end KeepsReturn

theorem lineText_snd (x : List Char) : (lineText x).2 = afterLine x := by
  fun_induction lineText x with
  | case1 => rfl
  | case2 => rfl
  | case3 c x h₁ h₂ s r hs ih =>
    rw [hs] at ih
    have hc : (c != '\n') = true := bne_iff_ne.2 h₂
    rw [afterLine, List.dropWhile_cons, if_pos hc]
    exact ih
  | case4 => rfl

/-- The line of a text that holds none of its ends goes on behind it. -/
theorem lineText_append_of_not_mem (hn : '\n' ∉ x) (hx : KeepsReturn x y) :
    lineText (x ++ y) = (x ++ (lineText y).1, (lineText y).2) := by
  induction x with
  | nil => rfl
  | cons c x ih =>
    rw [List.mem_cons, not_or] at hn
    have hfeed : ∀ r, c = '\r' → x ++ y ≠ '\n' :: r := by
      rintro r rfl
      exact hx.ne_feed (fun r hr => hn.2 (hr ▸ List.mem_cons_self)) r
    rw [List.cons_append, lineText, ih hn.2 hx.tail]
    · rfl
    · exact hfeed
    · exact Ne.symm hn.1

/-- A line that takes all of a text. -/
theorem lineText_eq_nil (h : lineText x = (y, [])) : y = x ∧ '\n' ∉ x := by
  fun_induction lineText x generalizing y with
  | case1 => cases (Prod.mk.inj h).2
  | case2 => cases (Prod.mk.inj h).2
  | case3 c x h₁ h₂ s r hs ih =>
    obtain ⟨rfl, rfl⟩ := Prod.mk.inj h
    obtain ⟨rfl, hx⟩ := ih hs
    exact ⟨rfl, by simpa [Ne.symm h₂] using hx⟩
  | case4 => exact ⟨(Prod.mk.inj h).1.symm, List.not_mem_nil⟩

theorem noBareReturn_of_not_mem (h : '\r' ∉ x) : noBareReturn x = true := by
  fun_induction noBareReturn x with
  | case1 r ih => simp at h
  | case2 r hr => simp at h
  | case3 c r h₁ h₂ ih => exact ih fun hr => h (List.mem_cons_of_mem _ hr)
  | case4 => rfl

theorem not_mem_of_noBareReturn (h : noBareReturn x = true) (hx : '\n' ∉ x) : '\r' ∉ x := by
  fun_induction noBareReturn x with
  | case1 r ih => simp at hx
  | case2 r hr => cases h
  | case3 c r h₁ h₂ ih =>
    have hc : c ≠ '\r' := fun hc => h₂ hc
    simpa [Ne.symm hc] using ih h fun hr => hx (List.mem_cons_of_mem _ hr)
  | case4 => exact List.not_mem_nil

/-- A comment that documents and takes all of the text holds no return. -/
theorem not_mem_of_docComment {inner : Bool} (h : docComment x = some (inner, y, []))
    (hline : startsLine x = true) : '\r' ∉ y := by
  have hchecked : ∀ {r i}, docComment.checked i (lineText r) = some (inner, y, []) → '\r' ∉ y := by
    intro r i h
    obtain ⟨rfl, htext, hy⟩ := docComment_checked.1 h
    obtain ⟨rfl, hn⟩ := lineText_eq_nil htext
    exact not_mem_of_noBareReturn hy hn
  unfold docComment at h
  split at h
  · exact hchecked h
  · cases hline
  · cases h
  · exact hchecked h
  · cases hline
  · cases hline
  · cases h

/-- A comment that documents and takes the rest of the line. It is none if a
bare return stands there. -/
theorem docComment_runsOn (hb : Border b) {inner : Bool} (h : docComment x = some (inner, y, []))
    (hline : startsLine x = true) :
    docComment (x ++ b) = docComment.checked inner (y ++ (lineText b).1, afterLine b) := by
  have hchecked : ∀ {r i}, docComment.checked i (lineText r) = some (inner, y, []) →
      docComment.checked i (lineText (r ++ b)) =
        docComment.checked inner (y ++ (lineText b).1, afterLine b) := by
    intro r i h
    obtain ⟨rfl, htext, hy⟩ := docComment_checked.1 h
    obtain ⟨rfl, hn⟩ := lineText_eq_nil htext
    have hreturn : '\r' ∉ y := not_mem_of_noBareReturn hy hn
    rw [lineText_append_of_not_mem hn fun hlast => absurd (List.mem_of_getLast? hlast) hreturn,
      lineText_snd]
  unfold docComment at h
  split at h
  · exact hchecked h
  · cases hline
  · cases h
  · rename_i r hslash
    have hslash' := append_ne_cons hslash fun _ => hb.ne_cons (show isJoining '/' = true from rfl)
    rw [List.cons_append, List.cons_append, List.cons_append, docComment]
    · exact hchecked h
    · exact hslash'
  · cases hline
  · cases hline
  · cases h

/-- A text that is nothing but a gap. -/
theorem closes_or_trails_of_gap (h : gap t = some []) : Closes t [] ∨ Trails t [] := by
  have hline : (∀ b, Border b → gap (t ++ b) = gapFrom .line b) → Trails t [] := fun hline =>
    ⟨fun b hb _ => by
      rw [lexemes_congr ((hline b hb).trans (gapFrom_line b))]
      simp⟩
  by_cases hstop : ∃ e, t.getLast? = some e ∧ isStop e = true
  · obtain ⟨e, ht, he⟩ := hstop
    exact .inr (hline fun b hb => gapFrom_stop he trivial h ht hb)
  · rcases gapFrom_append_nil h with hend | hend
    · refine .inl ⟨fun b hb _ => ?_, fun e ht he => absurd ⟨e, ht, he⟩ hstop⟩
      rw [lexemes_congr (hend b hb)]
      simp
    · exact .inr (hline hend)

theorem Unmarked.right {L' : List Lexeme} (h : Unmarked (L ++ L') b) : Unmarked L' b := by
  intro hlast
  have hne : L' ≠ [] := by rintro rfl; cases hlast
  exact h ((List.getLast?_append_of_ne_nil L hne).trans hlast)

/-- The mark of a missing expression is not completed behind a text with
lexemes. -/
theorem missingMark_of_unmarked (hb : Border b) {found L' : List Lexeme}
    (hstep : step (c :: y) = some (found, rest)) (hrest : lexemes rest = some L')
    (hmark : Unmarked (found ++ L') b) (h : missingMark.isPrefixOf (c :: y ++ b) = true) :
    missingMark.isPrefixOf (c :: y) = true := by
  rcases missingMark_append hb h with hx | hx | hx
  · exact hx
  · cases hx
  · rw [hx] at hstep h
    have hopening : step missingMark.dropLast = some ([.opening .paren], missingMark.dropLast.tail) := rfl
    have hgap : gap missingMark.dropLast.tail = some [] := rfl
    obtain ⟨rfl, rfl⟩ := Prod.mk.inj (Option.some.inj (hopening.symm.trans hstep))
    obtain rfl := Option.some.inj ((lexemes_of_gap_nil hgap).symm.trans hrest)
    rcases b with _ | ⟨d, b⟩
    · cases h
    · obtain rfl : ')' = d := by simpa [missingMark, List.isPrefixOf] using h
      exact absurd rfl (hmark rfl)

/-- What a step takes from a text it takes with any text behind a border, unless
it is a comment that takes the rest of the line. -/
theorem lexemes_append_of_step (hb : Border b) {found L' : List Lexeme}
    (hgap : gap t = some (c :: y)) (hstep : step (c :: y) = some (found, rest))
    (hrest : lexemes rest = some L') (hmark : Unmarked (found ++ L') b)
    (hline : ∀ inner z, docComment (c :: y) = some (inner, z, rest) → startsLine (c :: y) = true →
      rest ≠ []) : lexemes (t ++ b) = (lexemes (rest ++ b)).map (found ++ ·) := by
  have hgap' := gapFrom_append hb hgap (List.cons_ne_nil c y)
  exact lexemes_of_step hgap'
    (step_append hb hstep hline (missingMark_of_unmarked hb hstep hrest hmark))

theorem brackets_docLexemes (inner : Bool) (text : List Char) :
    brackets (docLexemes inner text) = [.opening .bracket, .closing .bracket] := by
  cases inner <;> simp [brackets, docLexemes]

/-- The last of its lexemes is the bracket of an attribute. -/
theorem exists_docLexemes (inner : Bool) (text : List Char) :
    ∃ K, docLexemes inner text = K ++ [.closing .bracket] :=
  ⟨(docLexemes inner text).dropLast, by cases inner <;> rfl⟩

/-- The bracket of the attribute stands before the lexemes of the next line. -/
theorem Documents.exists_closing {M : List Lexeme} (h : Documents t L) (hb : Border b)
    (hmark : Unmarked L b) (hM : lexemes (t ++ b) = some M) :
    ∃ K N, lexemes (afterLine b) = some N ∧ M = K ++ .closing .bracket :: N ∧
      brackets (K ++ [.closing .bracket]) = brackets L := by
  obtain ⟨K, inner, y, rfl, hlast⟩ := h.last
  obtain ⟨y', N, hN, rfl⟩ := hlast b M hb hmark hM
  obtain ⟨D, hD⟩ := exists_docLexemes inner y'
  refine ⟨K ++ D, N, hN, by simp [hD], ?_⟩
  rw [List.append_assoc, ← hD, brackets_append, brackets_append, brackets_docLexemes,
    brackets_docLexemes]

/-- A comment that begins here and documents nothing is no step. -/
theorem step_of_startsLine (hline : startsLine x = true) (hdoc : docComment x = none) :
    step x = none := by
  obtain ⟨r, rfl⟩ := List.isPrefixOf_iff_prefix.1 hline
  rcases hleaf : leaf ('/' :: '/' :: r) with _ | ⟨l, rest⟩
  · have hbracket : bracket ('/' :: '/' :: r) = none := rfl
    have hmark : missingMark.isPrefixOf ('/' :: '/' :: r) = false := rfl
    rw [List.cons_append, List.cons_append, List.nil_append] at hdoc ⊢
    simp [step, hdoc, hmark, hbracket, hleaf]
  · exact absurd rfl (not_comment_of_leaf hleaf rfl).1

/-- The step of a comment that documents and takes the rest of the line. -/
theorem documents_of_docComment {found : List Lexeme} {inner : Bool} {z : List Char}
    (hgap : gap t = some (c :: y)) (hstep : step (c :: y) = some (found, []))
    (hdoc : docComment (c :: y) = some (inner, z, [])) (hline : startsLine (c :: y) = true) :
    Documents t found := by
  have hfound : found = docLexemes inner z := by
    simp only [step, hdoc] at hstep
    exact (Prod.mk.inj (Option.some.inj hstep)).1.symm
  have hstep' : ∀ b, Border b → noBareReturn (z ++ (lineText b).1) = true →
      lexemes (t ++ b) =
        (lexemes (afterLine b)).map (docLexemes inner (z ++ (lineText b).1) ++ ·) := by
    intro b hb hreturn
    have hdoc' := docComment_runsOn hb hdoc hline
    rw [docComment_checked.2 ⟨rfl, rfl, hreturn⟩, List.cons_append] at hdoc'
    have hnext : step (c :: (y ++ b)) =
        some (docLexemes inner (z ++ (lineText b).1), afterLine b) := by
      simp only [step, hdoc']
    exact lexemes_of_step (gapFrom_append hb hgap (List.cons_ne_nil c y)) hnext
  refine ⟨⟨fun b hb _ hr => ⟨docLexemes inner (z ++ (lineText b).1), ?_, hstep' b hb ?_⟩⟩, ?_⟩
  · rw [hfound, brackets_docLexemes, brackets_docLexemes]
  · have hreturn := not_mem_of_docComment hdoc hline
    rw [lineText_of_no_return hr]
    exact noBareReturn_of_not_mem fun hmem => (List.mem_append.1 hmem).elim hreturn hr
  · refine ⟨[], inner, z, hfound, fun b M hb _ hM => ?_⟩
    by_cases hreturn : noBareReturn (z ++ (lineText b).1) = true
    · rw [hstep' b hb hreturn] at hM
      obtain ⟨N, hN, rfl⟩ := Option.map_eq_some_iff.1 hM
      exact ⟨z ++ (lineText b).1, N, hN, rfl⟩
    · have hdoc' := docComment_runsOn hb hdoc hline
      have hline' : startsLine (c :: (y ++ b)) = true := by
        obtain ⟨r, hr⟩ := List.isPrefixOf_iff_prefix.1 hline
        rw [← List.cons_append, ← hr]
        rfl
      rw [docComment.checked, if_neg hreturn, List.cons_append] at hdoc'
      have hnone := step_of_startsLine hline' hdoc'
      rw [lexemes_of_step_none (gapFrom_append hb hgap (List.cons_ne_nil c y)) hnone] at hM
      cases hM

theorem step_singleton (hc : isStop c = true) : step [c] = some ([stopLexeme c false], []) := by
  rcases isStop_iff.1 hc with rfl | rfl <;> rfl

/-- The end of a statement at the end of a text is left for later steps, or is a
step of its own. -/
theorem step_stop {found : List Lexeme} (hc : isStop c = true) (hx : x.getLast? = some c)
    (hstep : step x = some (found, rest)) (hclosed : ∀ inner z,
      docComment x = some (inner, z, rest) → startsLine x = true → rest ≠ []) :
    rest.getLast? = some c ∨ rest = [] ∧ found = [stopLexeme c false] := by
  rcases step_progress hstep with htakes | ⟨d, joint, hd, rfl, rfl⟩ | ⟨hsuffix, hline, inner, z, hdoc⟩
  · exact .inl (htakes.getLast? hc hx)
  · rcases rest with _ | ⟨e, rest⟩
    · obtain rfl : d = c := Option.some.inj hx
      rw [step_singleton hd] at hstep
      exact .inr ⟨rfl, (Prod.mk.inj (Option.some.inj hstep)).1.symm⟩
    · exact .inl hx
  · have hne := hclosed inner z hdoc hline
    rw [getLast?_of_suffix (hsuffix.trans (List.tail_suffix x)) hne]
    exact .inl hx

/-! ### One step more

What the text of the steps behind is known to end in, the whole text ends in. -/

section OneStep

variable {found L' : List Lexeme}

theorem Closes.of_step
    (happend : ∀ b, Border b → Unmarked (found ++ L') b →
      lexemes (t ++ b) = (lexemes (rest ++ b)).map (found ++ ·))
    (hgap : gap t = some (c :: y)) (hstep : step (c :: y) = some (found, rest))
    (hrest : lexemes rest = some L')
    (hclosed : ∀ inner z, docComment (c :: y) = some (inner, z, rest) →
      startsLine (c :: y) = true → rest ≠ [])
    (hend : Closes rest L') : Closes t (found ++ L') := by
  constructor
  · intro b hb hmark
    rw [happend b hb hmark, hend.append b hb hmark.right, Option.map_map]
    simp [Function.comp_def]
  · intro e hlast he
    have hy := (getLast?_of_suffix (suffix_gapFrom hgap) (List.cons_ne_nil c y)).trans hlast
    -- The sign that ends the text stands in the rest, or is what the step took.
    rcases step_stop he hy hstep hclosed with hrest' | ⟨rfl, rfl⟩
    · obtain ⟨front, rfl⟩ := hend.stop e hrest' he
      exact ⟨found ++ front, by rw [List.append_assoc]⟩
    · obtain rfl := Option.some.inj ((lexemes_of_gap_nil rfl).symm.trans hrest)
      exact ⟨[], rfl⟩

theorem Trails.of_step
    (happend : ∀ b, Border b → Unmarked (found ++ L') b →
      lexemes (t ++ b) = (lexemes (rest ++ b)).map (found ++ ·))
    (hend : Trails rest L') : Trails t (found ++ L') := by
  refine ⟨fun b hb hmark => ?_⟩
  rw [happend b hb hmark, hend.append b hb hmark.right, Option.map_map]
  simp [Function.comp_def]

theorem Documents.of_step
    (happend : ∀ b, Border b → Unmarked (found ++ L') b →
      lexemes (t ++ b) = (lexemes (rest ++ b)).map (found ++ ·))
    (hend : Documents rest L') : Documents t (found ++ L') := by
  refine ⟨⟨fun b hb hmark hr => ?_⟩, ?_⟩
  · obtain ⟨L'', hbrackets, heq⟩ := hend.append b hb hmark.right hr
    refine ⟨found ++ L'', by rw [brackets_append, brackets_append, hbrackets], ?_⟩
    rw [happend b hb hmark, heq, Option.map_map]
    simp [Function.comp_def]
  · obtain ⟨K, inner, y, rfl, hlast⟩ := hend.last
    refine ⟨found ++ K, inner, y, by rw [List.append_assoc], fun b M hb hmark hM => ?_⟩
    rw [happend b hb hmark] at hM
    obtain ⟨M', hM', rfl⟩ := Option.map_eq_some_iff.1 hM
    obtain ⟨y', N, hN, rfl⟩ := hlast b M' hb hmark.right hM'
    exact ⟨y', N, hN, by rw [List.append_assoc]⟩

end OneStep

/-- **A text ends outside comments, or in one that takes the rest of the
line.** -/
theorem closes_or_trails_or_documents (h : lexemes t = some L) :
    Closes t L ∨ Trails t L ∨ Documents t L := by
  induction hn : t.length using Nat.strongRecOn generalizing t L with
  | _ n ih =>
    subst hn
    rcases lexemes_cases h with ⟨hgap, rfl⟩ | ⟨c, y, found, rest, L', hgap, hstep, hrest, rfl⟩
    · exact (closes_or_trails_of_gap hgap).imp_right .inl
    -- A comment that documents and that nothing ends is the last step.
    by_cases hopen : rest = [] ∧ startsLine (c :: y) = true ∧
        ∃ inner z, docComment (c :: y) = some (inner, z, rest)
    · obtain ⟨rfl, hline, inner, z, hdoc⟩ := hopen
      obtain rfl := Option.some.inj ((lexemes_of_gap_nil rfl).symm.trans hrest)
      rw [List.append_nil]
      exact .inr (.inr (documents_of_docComment hgap hstep hdoc hline))
    have hclosed : ∀ inner z, docComment (c :: y) = some (inner, z, rest) →
        startsLine (c :: y) = true → rest ≠ [] := fun inner z hdoc hline hnil =>
      hopen ⟨hnil, hline, inner, z, hdoc⟩
    have happend : ∀ b, Border b → Unmarked (found ++ L') b →
        lexemes (t ++ b) = (lexemes (rest ++ b)).map (found ++ ·) := fun b hb hmark =>
      lexemes_append_of_step hb hgap hstep hrest hmark hclosed
    have hlt : rest.length < t.length :=
      Nat.lt_of_lt_of_le (step_length_lt hstep) (suffix_gapFrom hgap).length_le
    rcases ih rest.length hlt hrest rfl with hend | hend | hend
    · exact .inl (hend.of_step happend hgap hstep hrest hclosed)
    · exact .inr (.inl (hend.of_step happend))
    · exact .inr (.inr (hend.of_step happend))

theorem closes_or_runsOn (h : lexemes t = some L) : Closes t L ∨ RunsOn t L :=
  (closes_or_trails_or_documents h).imp_right (·.elim Trails.runsOn Documents.toRunsOn)

/-! ## The end of a text -/

/-- The text ends inside a comment that takes the rest of its line: a bracket
behind it is read only on the next line. -/
def endsInLine (t : List Char) : Bool := lexemes (t ++ ['(']) != lexemes (t ++ ['\n', '('])

theorem border_paren (b : List Char) : Border ('(' :: b) := ⟨rfl, rfl, rfl⟩

theorem border_line (b : List Char) : Border ('\n' :: b) := ⟨rfl, rfl, rfl⟩

theorem RunsOn.endsInLine (h : RunsOn t L) : endsInLine t = true := by
  obtain ⟨L₁, hL₁, heq₁⟩ := h.append ['('] (border_paren []) (fun _ => nofun) (by decide)
  obtain ⟨L₂, hL₂, heq₂⟩ := h.append ['\n', '('] (border_line ['(']) (fun _ => nofun) (by decide)
  have h₁ : lexemes (t ++ ['(']) = some (L₁ ++ []) := heq₁
  have h₂ : lexemes (t ++ ['\n', '(']) = some (L₂ ++ [.opening .paren]) := heq₂
  refine bne_iff_ne.2 fun heq => ?_
  have hlist : L₁ ++ [] = L₂ ++ [.opening .paren] := Option.some.inj (h₁.symm.trans (heq.trans h₂))
  have hbrackets := congrArg brackets hlist
  rw [brackets_append, brackets_append, hL₁, hL₂] at hbrackets
  exact absurd (List.append_cancel_left hbrackets) nofun

theorem Closes.endsInLine (h : Closes t L) : endsInLine t = false := by
  have h₁ := h.append ['('] (border_paren []) (fun _ => nofun)
  have h₂ := h.append ['\n', '('] (border_line ['(']) (fun _ => nofun)
  exact bne_eq_false_iff_eq.2 (h₁.trans h₂.symm)

/-- A text with lexemes that does not end in a comment to the end of its line. -/
theorem closes_of_lexemes (h : lexemes t = some L) (hend : endsInLine t = false) : Closes t L :=
  (closes_or_runsOn h).resolve_right fun hline => by simp [hline.endsInLine] at hend

/-- A text with lexemes that does. -/
theorem runsOn_of_lexemes (h : lexemes t = some L) (hend : endsInLine t = true) : RunsOn t L :=
  (closes_or_runsOn h).resolve_left fun hclosed => by simp [hclosed.endsInLine] at hend

end Scan

end Grammar

end ProcessCompiler
