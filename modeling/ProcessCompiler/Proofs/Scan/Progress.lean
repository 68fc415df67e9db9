import ProcessCompiler.Proofs.Scan.Step
/-!
# Progress of the scanner

Every scanner takes characters from the start of a text. The last one it takes
is no semicolon and no closing brace, unless that is all it takes. So a scan
gets shorter with every step, and a text that ends with one of the two ends with
its lexeme.
-/

namespace ProcessCompiler

namespace Grammar

namespace Scan

open Text

/-- The characters that can end a statement. -/
def isStop (c : Char) : Bool := c == ';' || c == '\x7d'

theorem isStop_iff {c : Char} : isStop c = true ↔ c = ';' ∨ c = '\x7d' := by
  simp [isStop]

/-- The lexeme of such a character. -/
def stopLexeme (c : Char) (joint : Bool) : Lexeme :=
  if c = ';' then .leaf (.punct ';' joint) else .closing .brace

/-- `rest` is what is left of a text behind one or more characters, the last
of which ends no statement. -/
inductive Takes : List Char → List Char → Prop where
  | last {c : Char} {rest : List Char} (hc : isStop c = false) : Takes (c :: rest) rest
  | more {c : Char} {x rest : List Char} (h : Takes x rest) : Takes (c :: x) rest

variable {x y rest : List Char} {c : Char} {p : Char → Bool}

namespace Takes

theorem length_lt (h : Takes x rest) : rest.length < x.length := by
  induction h with
  | last => exact Nat.lt_succ_self _
  | more _ ih => exact Nat.lt_succ_of_lt ih

theorem of_suffix (hy : y <:+ x) (h : Takes y rest) : Takes x rest := by
  obtain ⟨u, rfl⟩ := hy
  induction u with
  | nil => exact h
  | cons c u ih => exact .more ih

theorem suffix (h : Takes x rest) : rest <:+ x := by
  induction h with
  | last => exact List.suffix_cons _ _
  | more _ ih => exact ih.trans (List.suffix_cons _ _)

theorem trans (h : Takes x y) (h' : Takes y rest) : Takes x rest := .of_suffix h.suffix h'

/-- The end of a statement at the end of a text is not taken. -/
theorem getLast? (h : Takes x rest) (hc : isStop c = true) (hx : x.getLast? = some c) :
    rest.getLast? = some c := by
  induction h with
  | @last d rest hd =>
    rcases rest with _ | ⟨e, rest⟩
    · obtain rfl : d = c := Option.some.inj hx
      rw [hc] at hd
      cases hd
    · exact hx
  | @more d x rest h ih =>
    refine ih ?_
    obtain ⟨e, x, rfl⟩ := List.exists_cons_of_ne_nil (show x ≠ [] by rintro rfl; cases h)
    exact hx

/-- Characters of a class in which none ends a statement. -/
theorem dropWhile (hp : ∀ c, p c = true → isStop c = false) (x : List Char) :
    x.dropWhile p = x ∨ Takes x (x.dropWhile p) := by
  induction x with
  | nil => exact .inl rfl
  | cons c x ih =>
    by_cases hc : p c = true
    · rw [List.dropWhile_cons_of_pos hc]
      rcases ih with h | h
      · rw [h]
        exact .inr (.last (hp c hc))
      · exact .inr (.more h)
    · exact .inl (List.dropWhile_cons_of_neg hc)

/-- At least one character of such a class. -/
theorem dropWhile_of_startsWith {q : Char → Bool} (hp : ∀ c, p c = true → isStop c = false)
    (hq : ∀ c, q c = true → p c = true) (h : startsWith q x = true) :
    Takes x (x.dropWhile p) := by
  refine (dropWhile hp x).resolve_left fun heq => ?_
  cases x with
  | nil => cases h
  | cons c x =>
    rw [List.dropWhile_cons_of_pos (hq c h)] at heq
    have hlen := congrArg List.length heq
    have hle := (List.dropWhile_suffix p (l := x)).length_le
    simp only [List.length_cons] at hlen
    omega

/-- A number of characters, none of which ends a statement. -/
theorem drop {n : ℕ} (h : ∀ c ∈ x.take n, isStop c = false) : x.drop n = x ∨ Takes x (x.drop n) := by
  induction n generalizing x with
  | zero => exact .inl rfl
  | succ n ih =>
    cases x with
    | nil => exact .inl rfl
    | cons c x =>
      rcases ih fun d hd => h d (List.mem_cons_of_mem c hd) with heq | h'
      · rw [List.drop_succ_cons, heq]
        exact .inr (.last (h c List.mem_cons_self))
      · exact .inr (.more h')

theorem trans_or (h : Takes x y) (h' : rest = y ∨ Takes y rest) : Takes x rest := by
  rcases h' with rfl | h'
  · exact h
  · exact h.trans h'

end Takes

/-- A class that has neither a semicolon nor a closing brace. -/
theorem not_isStop (hsemi : p ';' = false) (hbrace : p '\x7d' = false) (c : Char)
    (hc : p c = true) : isStop c = false := by
  refine Bool.eq_false_iff.2 fun hstop => ?_
  rcases isStop_iff.1 hstop with rfl | rfl
  · simp [hsemi] at hc
  · simp [hbrace] at hc

/-! ## Words and numbers -/

theorem takes_dropWord (x : List Char) : dropWord x = x ∨ Takes x (dropWord x) := by
  unfold dropWord
  split_ifs
  · exact Takes.dropWhile (not_isStop rfl rfl) x
  · exact .inl rfl

theorem suffix_dropWord (x : List Char) : dropWord x <:+ x := by
  rcases takes_dropWord x with heq | h
  · exact heq.symm ▸ List.suffix_rfl
  · exact h.suffix

theorem takes_dropSuffix (h : dropSuffix x = some rest) : rest = x ∨ Takes x rest := by
  simp only [dropSuffix] at h
  split_ifs at h
  rw [← Option.some.inj h]
  exact takes_dropWord x

theorem takes_word {w : List Char} (h : word x = some (w, rest)) : Takes x rest := by
  unfold word at h
  split_ifs at h with hx
  obtain ⟨-, rfl⟩ := Prod.mk.inj (Option.some.inj h)
  exact .dropWhile_of_startsWith (not_isStop rfl rfl) (fun c hc => by simp [isWordRest, hc]) hx

theorem takes_name {l : Leaf} (h : name x = some (l, rest)) : Takes x rest := by
  by_cases hraw : ∃ r, x = 'r' :: '#' :: r
  · obtain ⟨r, rfl⟩ := hraw
    simp only [name] at h
    split at h
    · rename_i w after hw
      split_ifs at h
      obtain ⟨-, rfl⟩ := Prod.mk.inj (Option.some.inj h)
      exact .more (.more (takes_word hw))
    · cases h
  · rw [name_of_not_raw fun r h => hraw ⟨r, h⟩] at h
    obtain ⟨⟨w, r⟩, hw, heq⟩ := Option.map_eq_some_iff.1 h
    obtain ⟨-, rfl⟩ := Prod.mk.inj heq
    exact takes_word hw

theorem isDigitOrGap_of_isDigit (c : Char) (h : isDigit c = true) : isDigitOrGap c = true := by
  simp [isDigitOrGap, h]

theorem takes_exponent {plain : Option (List Char)} (h : exponent plain x = some rest) :
    plain = some rest ∨ Takes x rest := by
  simp only [exponent] at h
  generalize hy : (if startsWith (fun c => c == '+' || c == '-') (x.dropWhile (· == '_')) = true then
    (x.dropWhile (· == '_')).tail.dropWhile (· == '_') else x.dropWhile (· == '_')) = y at h
  have hsuffix : y <:+ x := by
    have hgaps : ∀ z : List Char, z.dropWhile (· == '_') <:+ z := fun z => List.dropWhile_suffix _
    rw [← hy]
    split_ifs
    · exact (hgaps _).trans ((List.tail_suffix _).trans (hgaps x))
    · exact hgaps x
  split_ifs at h with hdigit
  · rw [← Option.some.inj h]
    exact .inr (.of_suffix hsuffix (.dropWhile_of_startsWith (not_isStop rfl rfl) isDigitOrGap_of_isDigit hdigit))
  · exact .inl h

theorem takes_decimalDigits (h : decimalDigits x = some rest) : Takes x rest := by
  unfold decimalDigits at h
  split_ifs at h with hx
  have hdigits : Takes x (x.dropWhile isDigitOrGap) :=
    .dropWhile_of_startsWith (not_isStop rfl rfl) isDigitOrGap_of_isDigit hx
  split at h
  · rename_i after heq
    rw [heq] at hdigits
    split_ifs at h with hpoint
    have hfraction : Takes x (after.dropWhile isDigitOrGap) := 
      (hdigits.trans (.last rfl)).trans_or (Takes.dropWhile (not_isStop rfl rfl) after)
    simp only at h
    split_ifs at h with he
    · rcases takes_exponent h with heq | h
      · rw [← Option.some.inj heq]
        exact hfraction
      · exact hfraction.trans (.of_suffix (List.tail_suffix _) h)
    · rw [← Option.some.inj h]
      exact hfraction
  · rename_i c r hc heq
    rw [heq] at hdigits
    split_ifs at h with he
    rcases takes_exponent h with h | h
    · cases h
    · exact hdigits.trans (.more h)
  · cases h

theorem takes_integerDigits {base : ℕ} {empty : Bool} (h : integerDigits base empty x = some rest) :
    empty = false ∧ rest = x ∨ Takes x rest := by
  induction x generalizing empty with
  | nil =>
    simp only [integerDigits] at h
    split_ifs at h with he
    exact .inl ⟨by simpa using he, (Option.some.inj h).symm⟩
  | cons c x ih =>
    have hmore : ∀ {e}, isStop c = false → integerDigits base e x = some rest → Takes (c :: x) rest := by
      intro e hc h
      rcases ih h with ⟨-, rfl⟩ | h
      · exact .last hc
      · exact .more h
    have hstop : ∀ {e : Bool}, (if e = true then none else some (c :: x)) = some rest →
        e = false ∧ rest = c :: x := by
      intro e h
      split_ifs at h with he
      exact ⟨by simpa using he, (Option.some.inj h).symm⟩
    simp only [integerDigits] at h
    split at h
    · rename_i hc
      split_ifs at h
      have hgap : isStop c = false := by
        rw [beq_iff_eq.1 hc]
        rfl
      exact .inr (hmore hgap h)
    · split at h
      · rename_i d hd
        have hdigit : isStop c = false :=
          not_isStop (p := fun c => (hexValue? c).isSome) rfl rfl c (by simp [hd])
        split_ifs at h with h₁ h₂ he
        · exact .inr (hmore hdigit h)
        · exact .inl (hstop (by rw [if_neg he]; exact h))
      · exact .inl (hstop h)

theorem suffix_integerBase (x : List Char) : (integerBase x).2 <:+ x := by
  unfold integerBase
  split
  · exact (List.suffix_cons _ _).trans (List.suffix_cons _ _)
  · exact (List.suffix_cons _ _).trans (List.suffix_cons _ _)
  · exact (List.suffix_cons _ _).trans (List.suffix_cons _ _)
  · exact List.suffix_rfl

/-! ## Literals -/

theorem takes_stringFrom {f : Flavour} {s : StringState} (h : stringFrom f s x = some rest) :
    Takes x rest := by
  induction x generalizing s with
  | nil => cases h
  | cons c x ih =>
    simp only [stringFrom] at h
    split at h
    · rename_i hclose
      obtain rfl := Option.some.inj h
      exact .last (by rw [eq_of_stringStep_close hclose]; rfl)
    · exact .more (ih h)
    · cases h

theorem takes_rawFrom {f : Flavour} {n : ℕ} (h : rawFrom f n x = some rest) : Takes x rest := by
  fun_induction rawFrom f n x with
  | case2 r hn =>
    rw [← Option.some.inj h]
    rw [Bool.and_eq_true, List.all_eq_true] at hn
    have hhash : ∀ c ∈ r.take n, isStop c = false := by
      intro c hc
      rw [beq_iff_eq.1 (hn.2 c hc)]
      rfl
    exact (Takes.last rfl).trans_or (Takes.drop hhash)
  | case3 r hn ih => exact .more (ih h)
  | case4 r ih => exact .more (.more (ih h))
  | case6 c r hq hr hr' hc ih => exact .more (ih h)
  | _ => cases h

theorem takes_rawString {f : Flavour} (h : rawString f x = some rest) : Takes x rest := by
  simp only [rawString] at h
  split at h
  · rename_i r heq
    split_ifs at h
    have hsuffix : '"' :: r <:+ x := heq ▸ List.dropWhile_suffix _
    exact .of_suffix hsuffix (.more (takes_rawFrom h))
  · cases h

theorem takes_closed {found : Option (List Char)} (hfound : ∀ y, found = some y → y <:+ x)
    (h : found.bind closeQuote = some rest) : Takes x rest := by
  obtain ⟨y, hy, h⟩ := Option.bind_eq_some_iff.1 h
  unfold closeQuote at h
  split at h
  · obtain rfl := Option.some.inj h
    exact .of_suffix (hfound _ hy) (.last rfl)
  · cases h

theorem suffix_unicodeFrom {v n : ℕ} (h : unicodeFrom v n x = some rest) : rest <:+ x := by
  induction x generalizing v n with
  | nil => cases h
  | cons c x ih =>
    simp only [unicodeFrom] at h
    split at h
    · exact (ih h).trans (List.suffix_cons _ _)
    · rw [← Option.some.inj h]
      exact List.suffix_cons _ _
    · cases h

theorem suffix_oneChar (h : oneChar x = some rest) : rest <:+ x := by
  unfold oneChar at h
  split at h
  · split_ifs at h
    exact ⟨['\\', 'x', _, _], by rw [← Option.some.inj h]; rfl⟩
  · exact (suffix_unicodeFrom h).trans ⟨['\\', 'u', '\x7b'], rfl⟩
  · split_ifs at h
    exact ⟨['\\', _], by rw [← Option.some.inj h]; rfl⟩
  · cases h
  · exact ⟨[_], by rw [← Option.some.inj h]; rfl⟩
  · cases h

theorem suffix_oneByte (h : oneByte x = some rest) : rest <:+ x := by
  unfold oneByte at h
  split at h
  · split_ifs at h
    exact ⟨['\\', 'x', _, _], by rw [← Option.some.inj h]; rfl⟩
  · split_ifs at h
    exact ⟨['\\', _], by rw [← Option.some.inj h]; rfl⟩
  · cases h
  · split_ifs at h
    exact ⟨[_], by rw [← Option.some.inj h]; rfl⟩
  · cases h

theorem takes_quotedOf {kind : LiteralKind} {found : Option (List Char)} {l : Literal}
    (hfound : ∀ r, found = some r → Takes x r) (h : quotedOf kind y found = some (l, rest)) :
    Takes x rest := by
  obtain ⟨r, hr, heq⟩ := Option.map_eq_some_iff.1 h
  obtain ⟨-, rfl⟩ := Prod.mk.inj heq
  exact (hfound r hr).trans_or (takes_dropWord r)

theorem takes_quoted {l : Literal} (h : quoted x = some (l, rest)) : Takes x rest := by
  unfold quoted at h
  split at h
  · exact takes_quotedOf (fun r hr => .more (takes_stringFrom hr)) h
  · exact takes_quotedOf (fun r hr => .more (.more (takes_stringFrom hr))) h
  · exact takes_quotedOf (fun r hr => .more (.more (takes_rawString hr))) h
  · exact takes_quotedOf (fun r hr => .more (.more (takes_stringFrom hr))) h
  · exact takes_quotedOf (fun r hr => .more (.more (takes_rawString hr))) h
  · exact takes_quotedOf (fun r hr => .more (.more (takes_closed (fun _ => suffix_oneByte) hr))) h
  · exact takes_quotedOf (fun r hr => .more (takes_closed (fun _ => suffix_oneChar) hr)) h
  · exact takes_quotedOf (fun r hr => .more (takes_rawString hr)) h
  · cases h

theorem takes_number (h : (decimal x <|> integer x) = some rest) : Takes x rest := by
  cases hd : decimal x with
  | some r =>
    rw [hd] at h
    obtain rfl := Option.some.inj h
    obtain ⟨y, hy, hsuffix⟩ := Option.bind_eq_some_iff.1 hd
    exact (takes_decimalDigits hy).trans_or (takes_dropSuffix hsuffix)
  | none =>
    rw [hd] at h
    obtain ⟨y, hy, hsuffix⟩ := Option.bind_eq_some_iff.1 h
    have hy := (takes_integerDigits hy).resolve_left (by simp)
    exact (Takes.of_suffix (suffix_integerBase x) hy).trans_or (takes_dropSuffix hsuffix)

theorem takes_literal {l : Literal} (h : literal x = some (l, rest)) : Takes x rest := by
  by_cases hx : startsWith isDigit x = true
  · rw [literal_of_digit hx] at h
    obtain ⟨r, hr, heq⟩ := Option.map_eq_some_iff.1 h
    obtain ⟨-, rfl⟩ := Prod.mk.inj heq
    exact takes_number hr
  · rw [literal_of_not_digit (by simpa using hx)] at h
    exact takes_quoted h

/-! ## Steps -/

theorem takes_blockText {depth : ℕ} (h : blockText depth x = some (y, rest)) : Takes x rest := by
  fun_induction blockText depth x generalizing y with
  | case1 depth x ih =>
    obtain ⟨⟨s, r⟩, hs, heq⟩ := Option.map_eq_some_iff.1 h
    obtain ⟨-, rfl⟩ := Prod.mk.inj heq
    exact .more (.more (ih hs))
  | case2 x =>
    obtain ⟨-, rfl⟩ := Prod.mk.inj (Option.some.inj h)
    exact .more (.last rfl)
  | case3 x depth ih =>
    obtain ⟨⟨s, r⟩, hs, heq⟩ := Option.map_eq_some_iff.1 h
    obtain ⟨-, rfl⟩ := Prod.mk.inj heq
    exact .more (.more (ih hs))
  | case4 depth c x h₁ h₂ ih =>
    obtain ⟨⟨s, r⟩, hs, heq⟩ := Option.map_eq_some_iff.1 h
    obtain ⟨-, rfl⟩ := Prod.mk.inj heq
    exact .more (ih hs)
  | case5 => cases h

theorem suffix_lineText (x : List Char) : (lineText x).2 <:+ x := by
  fun_induction lineText x with
  | case1 x => exact List.suffix_cons _ _
  | case2 x => exact List.suffix_rfl
  | case3 c x h₁ h₂ s r hs ih => exact (hs ▸ ih).trans (List.suffix_cons _ _)
  | case4 => exact List.suffix_rfl

theorem docComment_progress {inner : Bool} (h : docComment x = some (inner, y, rest)) :
    Takes x rest ∨ rest <:+ x.tail ∧ startsLine x = true := by
  unfold docComment at h
  split at h
  · obtain ⟨-, htext, -⟩ := docComment_checked.1 h
    have hsuffix := htext ▸ suffix_lineText _
    exact .inr ⟨hsuffix.trans ⟨['/', '!'], rfl⟩, rfl⟩
  · obtain ⟨found, hfound, h⟩ := Option.bind_eq_some_iff.1 h
    obtain ⟨-, rfl, -⟩ := docComment_checked.1 h
    exact .inl (.more (.more (.more (takes_blockText hfound))))
  · cases h
  · obtain ⟨-, htext, -⟩ := docComment_checked.1 h
    have hsuffix := htext ▸ suffix_lineText _
    exact .inr ⟨hsuffix.trans ⟨['/', '/'], rfl⟩, rfl⟩
  · cases h
  · obtain ⟨found, hfound, h⟩ := Option.bind_eq_some_iff.1 h
    obtain ⟨-, rfl, -⟩ := docComment_checked.1 h
    exact .inl (.more (.more (.more (takes_blockText hfound))))
  · cases h

theorem lifetime_progress {l : Leaf} (h : lifetime x = some (l, rest)) :
    rest = x ∨ Takes x rest := by
  unfold lifetime at h
  split at h
  · rename_i n after hname
    split_ifs at h
    · obtain ⟨-, rfl⟩ := Prod.mk.inj (Option.some.inj h)
      exact .inl rfl
    · obtain ⟨-, rfl⟩ := Prod.mk.inj (Option.some.inj h)
      exact .inr (takes_name hname)
  · cases h

theorem leaf_progress {l : Leaf} (h : leaf x = some (l, rest)) :
    Takes x rest ∨ ∃ joint, x = ';' :: rest ∧ l = .punct ';' joint := by
  unfold leaf at h
  split at h
  · rename_i lit r hlit
    obtain ⟨-, rfl⟩ := Prod.mk.inj (Option.some.inj h)
    exact .inl (takes_literal hlit)
  · split at h
    · rename_i found hp
      obtain rfl := Option.some.inj h
      rcases hpunct : punct x with _ | ⟨c, r⟩
      · rw [punctLeaf, hpunct] at hp
        cases hp
      obtain ⟨rfl, -⟩ := exists_cons_of_punct hpunct
      by_cases hquote : c = '\''
      · subst hquote
        rw [punctLeaf, hpunct] at hp
        exact .inl ((Takes.last rfl).trans_or (lifetime_progress hp))
      · rw [punctLeaf_of_punct hpunct hquote] at hp
        obtain ⟨rfl, rfl⟩ := Prod.mk.inj (Option.some.inj hp)
        by_cases hc : c = ';'
        · exact .inr ⟨_, by rw [hc], by rw [hc]⟩
        · refine .inl (.last (Bool.eq_false_iff.2 fun hstop => ?_))
          obtain rfl := (isStop_iff.1 hstop).resolve_left hc
          cases hpunct
    · split_ifs at h
      exact .inl (takes_name h)

theorem bracket_progress {br : Lexeme} (h : bracket x = some (br, rest)) :
    Takes x rest ∨ x = '\x7d' :: rest ∧ br = .closing .brace := by
  unfold bracket at h
  split at h
  case h_6 =>
    obtain ⟨rfl, rfl⟩ := Prod.mk.inj (Option.some.inj h)
    exact .inr ⟨rfl, rfl⟩
  case h_7 => cases h
  all_goals
    obtain ⟨-, rfl⟩ := Prod.mk.inj (Option.some.inj h)
    exact .inl (.last rfl)

/-- A step takes characters from the start of a text. If the last of them can
end a statement, it takes nothing else, or a comment that runs on to the end of
its line. -/
theorem step_progress {found : List Lexeme} (h : step x = some (found, rest)) :
    Takes x rest ∨ (∃ c joint, isStop c = true ∧ x = c :: rest ∧ found = [stopLexeme c joint]) ∨
      rest <:+ x.tail ∧ startsLine x = true ∧ ∃ inner y, docComment x = some (inner, y, rest) := by
  unfold step at h
  rcases hdoc : docComment x with _ | ⟨inner, y, r⟩
  · simp only [hdoc] at h
    split_ifs at h with hm
    · obtain ⟨x, rfl⟩ := List.isPrefixOf_iff_prefix.1 hm
      obtain ⟨-, rfl⟩ := Prod.mk.inj (Option.some.inj h)
      have hsuffix : ')' :: x <:+ missingMark ++ x := ⟨missingMark.dropLast, rfl⟩
      exact .inl (.of_suffix hsuffix (.last rfl))
    · split at h
      · rename_i br r hbr
        obtain ⟨rfl, rfl⟩ := Prod.mk.inj (Option.some.inj h)
        rcases bracket_progress hbr with h | ⟨hx, rfl⟩
        · exact .inl h
        · exact .inr (.inl ⟨_, false, rfl, hx, rfl⟩)
      · obtain ⟨⟨l, r⟩, hleaf, heq⟩ := Option.map_eq_some_iff.1 h
        obtain ⟨rfl, rfl⟩ := Prod.mk.inj heq
        rcases leaf_progress hleaf with h | ⟨joint, hx, rfl⟩
        · exact .inl h
        · exact .inr (.inl ⟨_, joint, rfl, hx, rfl⟩)
  · rw [hdoc] at h
    obtain ⟨-, rfl⟩ := Prod.mk.inj (Option.some.inj h)
    rcases docComment_progress hdoc with h | ⟨hsuffix, hline⟩
    · exact .inl h
    · exact .inr (.inr ⟨hsuffix, hline, inner, y, rfl⟩)

theorem step_length_lt {found : List Lexeme} (h : step x = some (found, rest)) :
    rest.length < x.length := by
  rcases step_progress h with h | ⟨_, _, -, rfl, -⟩ | ⟨hsuffix, hline, -⟩
  · exact h.length_lt
  · exact Nat.lt_succ_self _
  · obtain ⟨c, x, rfl⟩ := List.exists_cons_of_ne_nil (show x ≠ [] by rintro rfl; cases hline)
    exact Nat.lt_succ_of_le hsuffix.length_le

theorem step_suffix {found : List Lexeme} (h : step x = some (found, rest)) : rest <:+ x := by
  rcases step_progress h with h | ⟨_, _, -, rfl, -⟩ | ⟨hsuffix, -⟩
  · exact h.suffix
  · exact List.suffix_cons _ _
  · exact hsuffix.trans (List.tail_suffix x)

end Scan

end Grammar

end ProcessCompiler
