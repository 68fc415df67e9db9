import ProcessCompiler.Proofs.Snippet.Ending
/-!
# What a text loses at its end

Blanks and semicolons behind a text are dropped before it is cut. The tokens of
what is left are those of the text up to some semicolons, unless it ends in a
comment that documents. Main statements: `exists_tokens_body` and
`isSome_split_iff_isExpr`, which says of the tokens behind the last semicolon
alone whether the text is cut, and `isSome_split_iff_of_endsInLine` for the
texts that end inside a comment.
-/

namespace ProcessCompiler

open Grammar Scan Lexeme Text

namespace Grammar

/-- Semicolons, none directly followed by another character of its kind. -/
def semis (n : ℕ) : List Token := List.replicate n (.leaf (.punct ';' false))

theorem semis_succ (n : ℕ) : semis (n + 1) = semis n ++ [.leaf (.punct ';' false)] :=
  List.replicate_succ'

variable {u v : List Token}

/-- Tokens that end in no semicolon have none behind them. -/
theorem eq_zero_of_append_semis {m : ℕ} (hv : endsInSemi v = false) (h : v = u ++ semis m) : m = 0 := by
  cases m with
  | zero => rfl
  | succ m =>
    rw [semis_succ, ← List.append_assoc] at h
    rw [endsInSemi_iff.2 ⟨_, _, h⟩] at hv
    cases hv

/-- Tokens that end in a semicolon end in no attribute. -/
theorem Proper.of_endsInSemi (h : endsInSemi u = true) : Proper u := by
  obtain ⟨u, joint, rfl⟩ := endsInSemi_iff.1 h
  intro v joint' t heq ht
  have hlast := congrArg List.getLast? heq
  cases ht <;> simp at hlast

/-- Behind the last semicolon there is none. -/
theorem eq_nil_of_endsInSemi (hu : u ++ v = [] ∨ endsInSemi (u ++ v) = true)
    (hv : ∀ t ∈ v, t.isSemi = false) : v = [] := by
  by_contra hne
  rcases hu with hu | hu
  · exact hne (List.append_eq_nil_iff.1 hu).2
  · rw [endsInSemi_append hne, endsInSemi_of_notMem hv] at hu
    cases hu

theorem endsInExpr_append_iff (hu : u = [] ∨ endsInSemi u = true) (hv : ∀ t ∈ v, t.isSemi = false) :
    EndsInExpr (u ++ v) ↔ ∃ e, IsExpr v e ∧ e.isLetting = false := by
  constructor
  · rintro ⟨front, run, e, heq, hfront, he, hletting⟩
    rcases List.append_eq_append_iff.1 heq with ⟨x, rfl, rfl⟩ | ⟨x, rfl, rfl⟩
    · obtain rfl := eq_nil_of_endsInSemi hfront fun t ht => hv t (List.mem_append_left run ht)
      exact ⟨e, he, hletting⟩
    · obtain rfl := eq_nil_of_endsInSemi hu fun t ht => he.notMem_semi t (List.mem_append_left v ht)
      exact ⟨e, he, hletting⟩
  · rintro ⟨e, he, hletting⟩
    exact ⟨u, v, e, rfl, hu, he, hletting⟩

theorem EndsInExpr.proper (h : EndsInExpr u) : Proper u := by
  obtain ⟨front, run, e, rfl, rfl | hfront, he, -⟩ := h
  · exact he.proper
  · exact .append (.of_endsInSemi hfront) he.proper

theorem not_endsInExpr_of_endsInSemi (h : endsInSemi u = true) : ¬EndsInExpr u := by
  rintro ⟨front, run, e, rfl, -, he, -⟩
  rw [endsInSemi_append he.ne_nil, endsInSemi_of_notMem he.notMem_semi] at h
  cases h

namespace Scan

variable {x z b : List Char} {L M : List Lexeme}

/-- The lexemes of semicolons. -/
def semiLexemes (n : ℕ) : List Lexeme := List.replicate n (.leaf (.punct ';' false))

theorem nests_semiLexemes (n : ℕ) : Nests (semiLexemes n) (semis n) := by
  induction n with
  | zero => exact .nil
  | succ n ih => exact .leaf ih

theorem brackets_semiLexemes (n : ℕ) : brackets (semiLexemes n) = [] := by
  induction n with
  | zero => rfl
  | succ n ih => exact ih

theorem border_isLoose_append (hz : ∀ c ∈ z, isLoose c = true) (hb : Border b) : Border (z ++ b) := by
  cases z with
  | nil => exact hb
  | cons c z =>
    rcases Bool.or_eq_true_iff.1 (hz c List.mem_cons_self) with hc | hc
    · exact border_of_isBlank hc _
    · rw [eq_of_beq hc]
      exact border_semi _

theorem border_of_isLoose (hz : ∀ c ∈ z, isLoose c = true) : Border z :=
  List.append_nil z ▸ border_isLoose_append hz ⟨rfl, rfl, rfl⟩

theorem unmarked_isLoose_append (hz : ∀ c ∈ z, isLoose c = true) (hb : Unmarked L b) :
    Unmarked L (z ++ b) := by
  cases z with
  | nil => exact hb
  | cons c z =>
    intro _ hhead
    obtain rfl := Option.some.inj hhead
    cases hz _ List.mem_cons_self

theorem unmarked_of_isLoose (hz : ∀ c ∈ z, isLoose c = true) : Unmarked L z :=
  List.append_nil z ▸ unmarked_isLoose_append hz fun _ => nofun

/-- Blanks and semicolons are scanned one by one, whatever follows them. -/
theorem lexemes_isLoose_append (hz : ∀ c ∈ z, isLoose c = true) (hb : Border b) :
    lexemes (z ++ b) = (lexemes b).map (semiLexemes (z.count ';') ++ ·) := by
  induction z with
  | nil => simp [semiLexemes]
  | cons c z ih =>
    have hrest : ∀ d ∈ z, isLoose d = true := fun d hd => hz d (List.mem_cons_of_mem c hd)
    rcases Bool.or_eq_true_iff.1 (hz c List.mem_cons_self) with hc | hc
    · have hne : c ≠ ';' := by
        rintro rfl
        cases hc
      have hscans := Invocation.scans_blanks (s := [c]) (by simpa [Blank] using hc) (z ++ b)
      rw [List.cons_append, ← List.singleton_append, show _ = _ from hscans, ih hrest,
        List.count_cons_of_ne hne, Option.map_map]
      rfl
    · obtain rfl := eq_of_beq hc
      have hjoins : joins (z ++ b) = false := joins_append (border_isLoose_append hrest hb) []
      rw [List.cons_append, show _ = _ from scans_semi (z ++ b), ih hrest, hjoins,
        List.count_cons_self, Option.map_map]
      rfl

theorem lexemes_of_isLoose (hz : ∀ c ∈ z, isLoose c = true) :
    lexemes z = some (semiLexemes (z.count ';')) := by
  have hnil := lexemes_isLoose_append hz (b := []) ⟨rfl, rfl, rfl⟩
  rw [List.append_nil, show lexemes [] = some [] from rfl] at hnil
  simpa using hnil

theorem Closes.endsInLine_append (h : Closes x L) (hz : ∀ c ∈ z, isLoose c = true) :
    Scan.endsInLine (x ++ z) = false := by
  have hbehind : ∀ b, Border b → Unmarked L b →
      Scan.lexemes (x ++ z ++ b) = ((Scan.lexemes b).map (semiLexemes (z.count ';') ++ ·)).map (L ++ ·) := by
    intro b hb hmark
    rw [List.append_assoc, h.append _ (border_isLoose_append hz hb) (unmarked_isLoose_append hz hmark),
      lexemes_isLoose_append hz hb]
  refine bne_eq_false_iff_eq.2 ?_
  rw [hbehind _ (border_paren []) fun _ => nofun, hbehind _ (border_line _) fun _ => nofun]
  rfl

/-- A text has lexemes if it has with them behind it. -/
theorem exists_lexemes_of_isLoose (hz : ∀ c ∈ z, isLoose c = true) (hx : KeepsReturn x z)
    (h : lexemes (x ++ z) = some L) : ∃ M, lexemes x = some M := by
  cases z with
  | nil => exact ⟨L, by rwa [List.append_nil] at h⟩
  | cons c z =>
    refine Option.ne_none_iff_exists'.1 fun hnone => ?_
    have htrail : IsTrail (c :: z) := by
      refine ⟨c, z, hz c List.mem_cons_self, fun d hd => ?_, rfl⟩
      rw [hz d (List.mem_cons_of_mem c hd), Bool.true_or]
    rw [lexemes_trail htrail hx hnone] at h
    cases h

/-- A comment goes on up to the end of its line. -/
theorem afterLine_append_of_notMem (hz : '\n' ∉ z) : afterLine (z ++ b) = afterLine b := by
  induction z with
  | nil => rfl
  | cons c z ih =>
    rw [List.mem_cons, not_or] at hz
    rw [List.cons_append, afterLine, List.dropWhile_cons, if_pos (bne_iff_ne.2 (Ne.symm hz.1))]
    exact ih hz.2

theorem afterLine_append_of_mem (hz : '\n' ∈ z) : afterLine (z ++ b) = afterLine z ++ b := by
  induction z with
  | nil => cases hz
  | cons c z ih =>
    by_cases hc : c = '\n'
    · subst hc
      rfl
    · have hne : (c != '\n') = true := bne_iff_ne.2 hc
      rw [List.cons_append, afterLine, afterLine, List.dropWhile_cons, List.dropWhile_cons, if_pos hne,
        if_pos hne]
      exact ih ((List.mem_cons.1 hz).resolve_left (Ne.symm hc))

theorem isLoose_afterLine (hz : ∀ c ∈ z, isLoose c = true) : ∀ c ∈ afterLine z, isLoose c = true :=
  fun c hc => hz c ((List.dropWhile_suffix _).mem hc)

theorem Trails.endsInLine_append (h : Trails x L) (hz : ∀ c ∈ z, isLoose c = true) :
    endsInLine (x ++ z) = !z.contains '\n' := by
  have hbehind : ∀ b, Border b → Unmarked L b →
      Scan.lexemes (x ++ z ++ b) = (Scan.lexemes (afterLine (z ++ b))).map (L ++ ·) := by
    intro b hb hmark
    rw [List.append_assoc, h.append _ (border_isLoose_append hz hb) (unmarked_isLoose_append hz hmark)]
  rw [endsInLine, hbehind _ (border_paren []) fun _ => nofun, hbehind _ (border_line _) fun _ => nofun]
  by_cases hmem : '\n' ∈ z
  · rw [afterLine_append_of_mem hmem, afterLine_append_of_mem hmem,
      lexemes_isLoose_append (isLoose_afterLine hz) (border_paren []),
      lexemes_isLoose_append (isLoose_afterLine hz) (border_line _), List.contains_iff_mem.2 hmem]
    exact bne_eq_false_iff_eq.2 rfl
  · rw [afterLine_append_of_notMem hmem, afterLine_append_of_notMem hmem]
    have hlines : (lexemes (afterLine ['('])).map (L ++ ·) = some (L ++ []) := rfl
    have hnext : (lexemes (afterLine ['\n', '('])).map (L ++ ·) = some (L ++ [.opening .paren]) := rfl
    rw [hlines, hnext, Bool.eq_false_iff.2 fun hc => hmem (List.contains_iff_mem.1 hc)]
    exact bne_iff_ne.2 (by simp)

/-- They bring no bracket, nor hide one. -/
theorem brackets_isLoose (hz : ∀ c ∈ z, isLoose c = true) (hL : lexemes x = some L)
    (hM : lexemes (x ++ z) = some M) : brackets M = brackets L := by
  have hborder := border_of_isLoose hz
  have hmark : Unmarked L z := unmarked_of_isLoose hz
  cases hend : endsInLine x with
  | false =>
    rw [(closes_of_lexemes hL hend).append z hborder hmark, lexemes_of_isLoose hz] at hM
    obtain rfl := Option.some.inj hM
    rw [brackets_append, brackets_semiLexemes, List.append_nil]
  | true =>
    obtain ⟨K, N, hN, rfl, hK⟩ := exists_of_endsInLine hL hend hborder hmark hM
    rw [lexemes_of_isLoose (isLoose_afterLine hz)] at hN
    obtain rfl := Option.some.inj hN
    rw [brackets_append, brackets_semiLexemes, List.append_nil, hK]

/-- A comment that documents is an attribute. -/
theorem nests_docLexemes (inner : Bool) (y : List Char) :
    ∃ t, Nests (docLexemes inner y) (.leaf (.punct '#' false) :: t) ∧ BehindHash t := by
  cases inner with
  | false => exact ⟨_, .leaf (.group (.leaf (.leaf (.leaf .nil))) .nil), .group _ _⟩
  | true => exact ⟨_, .leaf (.leaf (.group (.leaf (.leaf (.leaf .nil))) .nil)), .bangGroup _ _ _⟩

end Scan

end Grammar

namespace Invocation

/-- What is dropped around the body of a text: blanks, and the semicolons behind
which there are only blanks. -/
structure Trail (text : List Char) where
  lead : List Char
  gap : List Char
  count : ℕ
  rest : List Char
  lead_blank : Blank lead
  gap_blank : Blank gap
  rest_blank : Blank rest
  trim_eq : trim text = body text ++ (gap ++ List.replicate count ';')
  text_eq : text = lead ++ (trim text ++ rest)
  getLast?_iff : (trim text).getLast? = some ';' ↔ count ≠ 0

theorem nonempty_trail (text : List Char) : Nonempty (Trail text) := by
  obtain ⟨lead, hlead, htext⟩ := exists_append_trimStart text
  obtain ⟨rest, hrest, hstart⟩ := exists_append_dropEndWhile isBlank (trimStart text)
  obtain ⟨semis, hsemis, htrim⟩ := exists_append_dropEndWhile (· == ';') (trim text)
  obtain ⟨gap, hgap, hdrop⟩ := exists_append_dropEndWhile isBlank (dropEndWhile (· == ';') (trim text))
  have heq : semis = List.replicate semis.length ';' :=
    List.eq_replicate_iff.2 ⟨rfl, fun c hc => eq_of_beq (hsemis c hc)⟩
  refine ⟨⟨lead, gap, semis.length, rest, hlead, hgap, hrest, ?_,
    htext.trans (congrArg (lead ++ ·) hstart), ?_⟩⟩
  · rw [← List.append_assoc, body, trimEnd, ← hdrop, ← heq, ← htrim]
  · rcases semis with _ | ⟨c, semis⟩
    · rw [List.append_nil] at htrim
      refine ⟨fun hlast => ?_, fun hne => absurd rfl hne⟩
      have hnot := getLast?_dropEndWhile (· == ';') (trim text) ';' (htrim ▸ hlast)
      cases hnot
    · refine ⟨fun _ => by simp, fun _ => ?_⟩
      rw [htrim, List.getLast?_append_of_ne_nil _ (List.cons_ne_nil c semis), heq,
        List.getLast?_replicate]
      rfl

namespace Trail

variable {t : List Char} (k : Trail t) {L M : List Lexeme}

theorem isLoose_stripped : ∀ c ∈ k.gap ++ List.replicate k.count ';', isLoose c = true := by
  intro c hc
  rcases List.mem_append.1 hc with hc | hc
  · exact isLoose_of_isBlank (k.gap_blank c hc)
  · rw [(List.mem_replicate.1 hc).2]
    rfl

theorem isLoose : ∀ c ∈ k.gap ++ (List.replicate k.count ';' ++ k.rest), Scan.isLoose c = true := by
  intro c hc
  rw [← List.append_assoc] at hc
  exact (List.mem_append.1 hc).elim (k.isLoose_stripped c)
    fun hc => isLoose_of_isBlank (k.rest_blank c hc)

theorem lexemes_body (h : lexemes t = some L) :
    lexemes (body t ++ (k.gap ++ (List.replicate k.count ';' ++ k.rest))) = some L := by
  rw [k.text_eq, show _ = _ from scans_blanks k.lead_blank _, k.trim_eq] at h
  simpa using h

/-- The body of a text has lexemes if the text has. -/
theorem exists_lexemes_body (k : Trail t) (h : lexemes t = some L) : ∃ M, lexemes (body t) = some M :=
  exists_lexemes_of_isLoose k.isLoose (fun hreturn => by cases getLast?_body _ _ hreturn)
    (k.lexemes_body h)

end Trail

/-! ## The tokens of the body -/

/-- The last character that is no blank is a semicolon outside comments. -/
def stopsAtSemi (text : String) : Bool :=
  (trim text.toList).getLast? == some ';' && !endsInLine (trim text.toList)

variable {text : String} {block : List Stmt}

theorem count_of_blank {w : List Char} (hw : Blank w) : w.count ';' = 0 :=
  List.count_eq_zero.2 fun hmem => by cases hw _ hmem

theorem blank_afterLine {w : List Char} (hw : Blank w) : Blank (afterLine w) :=
  fun c hc => hw c ((List.dropWhile_suffix _).mem hc)

/-- The tokens of a text that ends outside comments are those of its body and
semicolons behind them, unless a comment at the end of the body documents. -/
theorem exists_tokens_body (h : Harness.statements.parse text = .ok block)
    (hend : endsInLine text.toList = false) :
    ∃ T ts front m, tokenize text.toList = some T ∧ IsBlock T block ∧
      tokenize (body text.toList) = some ts ∧ T = front ++ semis m ∧
      (front = ts ∧ (m ≠ 0 ↔ stopsAtSemi text = true) ∨ ¬Proper front ∧ ¬Proper ts) := by
  obtain ⟨L, T, hcloses, hL, hreads⟩ := Harness.closes_of_parse_statements h hend
  have htokens : tokenize text.toList = some T := tokenize_of_lexemes hcloses.lexemes hL
  obtain ⟨k⟩ := nonempty_trail text.toList
  obtain ⟨K, hK⟩ := k.exists_lexemes_body hcloses.lexemes
  have hlex := k.lexemes_body hcloses.lexemes
  have hborder := border_of_isLoose k.isLoose
  have hmark : Unmarked K _ := unmarked_of_isLoose k.isLoose
  have hstops : stopsAtSemi text =
      (k.count != 0 && !endsInLine (body text.toList ++ (k.gap ++ List.replicate k.count ';'))) := by
    rw [stopsAtSemi, ← k.trim_eq,
      Bool.eq_iff_iff.2 ((beq_iff_eq.trans k.getLast?_iff).trans bne_iff_ne.symm)]
  rcases closes_or_trails_or_documents hK with hbody | htrails | hdocuments
  · rw [hbody.append _ hborder hmark, lexemes_of_isLoose k.isLoose] at hlex
    obtain rfl := Option.some.inj hlex
    obtain ⟨ts, rfl, hts⟩ := hL.exists_before (nests_semiLexemes _)
    refine ⟨_, ts, ts, _, htokens, ⟨_, hreads⟩, tokenize_of_lexemes hK hts, rfl, .inl ⟨rfl, ?_⟩⟩
    rw [hstops, hbody.endsInLine_append k.isLoose_stripped]
    simp [count_of_blank k.gap_blank, count_of_blank k.rest_blank]
  · rw [htrails.append _ hborder hmark, lexemes_of_isLoose (isLoose_afterLine k.isLoose)] at hlex
    obtain rfl := Option.some.inj hlex
    obtain ⟨ts, rfl, hts⟩ := hL.exists_before (nests_semiLexemes _)
    refine ⟨_, ts, ts, _, htokens, ⟨_, hreads⟩, tokenize_of_lexemes hK hts, rfl, .inl ⟨rfl, ?_⟩⟩
    rw [hstops, htrails.endsInLine_append k.isLoose_stripped]
    -- Only the end of a line among the blanks leaves the semicolons to be read.
    have hfeed : '\n' ∉ List.replicate k.count ';' :=
      fun hmem => by cases (List.mem_replicate.1 hmem).2
    by_cases hmem : '\n' ∈ k.gap
    · rw [afterLine_append_of_mem hmem]
      simp [count_of_blank (blank_afterLine k.gap_blank), count_of_blank k.rest_blank, hmem]
    · rw [afterLine_append_of_notMem hmem, afterLine_append_of_notMem hfeed]
      simp [count_of_blank (blank_afterLine k.rest_blank), hmem, hfeed]
  · obtain ⟨K, inner, y, rfl, hbehind⟩ := hdocuments.last
    obtain ⟨y', N, hN, rfl⟩ := hbehind _ _ hborder hmark hlex
    rw [lexemes_of_isLoose (isLoose_afterLine k.isLoose)] at hN
    obtain rfl := Option.some.inj hN
    rw [← List.append_assoc] at hL
    obtain ⟨front, rfl, hfront⟩ := hL.exists_before (nests_semiLexemes _)
    obtain ⟨t', hdoc', ht'⟩ := nests_docLexemes inner y'
    obtain ⟨t, hdoc, ht⟩ := nests_docLexemes inner y
    obtain ⟨before, rfl, hbefore⟩ := hfront.exists_before hdoc'
    exact ⟨_, _, _, _, htokens, ⟨_, hreads⟩, tokenize_of_lexemes hK (hbefore.append hdoc), rfl,
      .inr ⟨fun hproper => hproper _ _ _ rfl ht', fun hproper => hproper _ _ _ rfl ht⟩⟩

/-- **Whether a text is cut is said by the tokens behind its last semicolon**, a
semicolon at its end aside, which the text must end in to be rid of it. -/
theorem isSome_split_iff_isExpr (h : Harness.statements.parse text = .ok block)
    (hend : endsInLine text.toList = false) {u v w : List Token}
    (htokens : tokenize text.toList = some (u ++ (v ++ w))) (hu : u = [] ∨ endsInSemi u = true)
    (hne : v ≠ []) (hsemi : ∀ t ∈ v, t.isSemi = false)
    (hw : w = [] ∨ ∃ joint, w = [.leaf (.punct ';' joint)]) :
    (split text).isSome = true ↔
      (w = [] ∨ stopsAtSemi text = true) ∧ ∃ e, IsExpr v e ∧ e.isLetting = false := by
  obtain ⟨T, ts, front, m, hT, -, hts, heq, hcases⟩ := exists_tokens_body h hend
  obtain rfl : u ++ (v ++ w) = T := Option.some.inj (htokens.symm.trans hT)
  have hsplit : (split text).isSome = true ↔ EndsInExpr ts := by
    rw [isSome_split_iff_endsInExpr h hend, hts]
    simp
  have hopen : endsInSemi (u ++ v) = false := by
    rw [endsInSemi_append hne, endsInSemi_of_notMem hsemi]
  rw [hsplit, ← endsInExpr_append_iff hu hsemi]
  rcases hw with rfl | ⟨joint, rfl⟩
  · rw [List.append_nil] at heq
    obtain rfl := eq_zero_of_append_semis hopen heq
    obtain rfl : u ++ v = front := heq.trans (List.append_nil front)
    rcases hcases with ⟨rfl, -⟩ | ⟨hfront, hproper⟩
    · simp
    · simp [mt EndsInExpr.proper hfront, mt EndsInExpr.proper hproper]
  · cases m with
    | zero =>
      obtain rfl : u ++ (v ++ [.leaf (.punct ';' joint)]) = front := heq.trans (List.append_nil front)
      have hlast : endsInSemi (u ++ (v ++ [.leaf (.punct ';' joint)])) = true :=
        endsInSemi_iff.2 ⟨u ++ v, joint, by rw [List.append_assoc]⟩
      rcases hcases with ⟨rfl, hstops⟩ | ⟨hfront, -⟩
      · simp [not_endsInExpr_of_endsInSemi hlast, Bool.eq_false_iff.2 (hstops.not.1 (by simp))]
      · exact absurd (Proper.of_endsInSemi hlast) hfront
    | succ m =>
      rw [semis_succ, ← List.append_assoc, ← List.append_assoc] at heq
      obtain ⟨heq, -⟩ := List.append_inj' heq rfl
      obtain rfl := eq_zero_of_append_semis hopen heq
      obtain rfl : u ++ v = front := heq.trans (List.append_nil front)
      rcases hcases with ⟨rfl, hstops⟩ | ⟨hfront, hproper⟩
      · simp [hstops.1 nofun]
      · simp [mt EndsInExpr.proper hfront, mt EndsInExpr.proper hproper]

/-! ## Texts that end in a comment -/

/-- A text that ends in a comment has closed its block, so its body does not
match. -/
theorem tokenize_body_eq_none (h : Harness.statements.parse text = .ok block)
    (hend : endsInLine text.toList = true) : tokenize (body text.toList) = none := by
  refine Option.eq_none_iff_forall_ne_some.2 fun ts hts => ?_
  obtain ⟨L, hL, -, -, hcount⟩ := Harness.runsOn_of_parse_statements h hend
  obtain ⟨K, hK, hnests⟩ := exists_nests_of_tokenize hts (body_ne_orderMark h)
  obtain ⟨k⟩ := nonempty_trail text.toList
  obtain ⟨hopening, hclosing⟩ :=
    count_eq_of_brackets (brackets_isLoose k.isLoose hK (k.lexemes_body hL)) .brace
  have hbalance := hnests.count_eq .brace
  omega

/-- **A text that ends in a comment is cut only inside one.** -/
theorem isSome_split_iff_of_endsInLine (h : Harness.statements.parse text = .ok block)
    (hend : endsInLine text.toList = true) :
    (split text).isSome = true ↔
      ∃ k : Semicolon (body text.toList), k.Works ∧ endsInLine k.front = true := by
  have hnone := tokenize_body_eq_none h hend
  rw [isSome_split_iff]
  constructor
  · rintro (htail | ⟨k, hworks⟩)
    · obtain ⟨ts, hts⟩ := exists_tokenize_of_isTail htail
      rw [hnone] at hts
      cases hts
    · refine ⟨k, hworks, Bool.eq_true_of_not_eq_false fun hfront => ?_⟩
      obtain ⟨before, run, joint, -, hbody⟩ :=
        hworks.tokenize_body (Harness.accepts_iff.2 ⟨block, h⟩) hfront
      rw [hnone] at hbody
      cases hbody
  · exact fun ⟨k, hworks, _⟩ => .inr ⟨k, hworks⟩

end Invocation

end ProcessCompiler
