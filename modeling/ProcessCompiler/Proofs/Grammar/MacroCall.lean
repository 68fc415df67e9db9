import ProcessCompiler.Proofs.Grammar.EarlyExpression
/-!
# Macro calls in the place of statements

A macro call with braces is told from other statements by its plain path. Where
it stands alone it is the expression that the same tokens are anywhere else:
`early_of_macroPath`.
-/

namespace ProcessCompiler

namespace Grammar

open Parse

variable {R : Rules} {ts : List Token} {note : Option Delimiter} {k : ℕ} {st st' : Stream}
  {name : String} {segments : List Segment} {p : Path} {m : MacroCall}

/-- The words that a plain path may hold. -/
theorem plainSegment?_cases (h : plainSegment? ts = some name) :
    (∃ x, ts = .leaf (.ident name) :: x) ∨
      ∃ w x, ts = .leaf (.keyword w) :: x ∧ name = w.text ∧
        (w = .super_ ∨ w = .self_ ∨ w = .upperSelf ∨ w = .crate_) := by
  unfold plainSegment? at h
  split at h
  · cases h
    exact .inl ⟨_, rfl⟩
  · split at h
    · rename_i hword
      cases h
      exact .inr ⟨_, _, rfl, rfl, hword⟩
    · cases h
  · cases h

theorem startsPlain_of_plainSegment? (h : plainSegment? ts = some name) : startsPlain ts = true := by
  rcases plainSegment?_cases h with ⟨x, rfl⟩ | ⟨w, x, rfl, -⟩ <;> rfl

theorem plainSegments_cases (h : plainSegments (k + 1) st = .ok (segments, st')) :
    isSymbol .colon2 st.tokens = false ∧ segments = [] ∧ st' = st ∨
    isSymbol .colon2 st.tokens = true ∧ ∃ name more, plainSegment? (st.tokens.drop 2) = some name ∧
      segments = ⟨name, .absent⟩ :: more ∧
      plainSegments k ⟨st.tokens.drop 3, st.leftover⟩ = .ok (more, st') := by
  obtain ⟨rooted, st₁, hroot, h⟩ := bind_ok h
  rw [symbol?_apply] at hroot
  split at hroot
  · rename_i hcolon
    cases hroot
    refine .inr ⟨hcolon, ?_⟩
    obtain ⟨us, st₁, htokens, h⟩ := bind_ok h
    cases htokens
    cases hsegment : plainSegment? (st.tokens.drop 2) with
    | none =>
      simp only [show Symbol.colon2.chars.length = 2 from rfl, hsegment] at h
      cases h
    | some name =>
      simp only [show Symbol.colon2.chars.length = 2 from rfl, hsegment] at h
      obtain ⟨⟨⟩, st₁, hskip, h⟩ := bind_ok h
      cases hskip
      obtain ⟨more, st₁, hmore, h⟩ := bind_ok h
      cases h
      rw [List.drop_drop] at hmore
      exact ⟨name, more, rfl, rfl, hmore⟩
  · rename_i hcolon
    cases hroot
    cases h
    exact .inl ⟨Bool.eq_false_iff.2 hcolon, rfl, rfl⟩

/-- Behind a plain segment there are no generic arguments. -/
theorem startsAngle_of_plainSegments (h : plainSegments k st = .ok (segments, st')) :
    startsAngle true st.tokens = false := by
  cases k with
  | zero => cases h
  | succ k =>
    rcases plainSegments_cases h with ⟨hcolon, -⟩ | ⟨-, name, more, hname, -⟩
    · simp [startsAngle, hcolon]
    · simp [startsAngle, isSymbol_of_startsPlain (startsPlain_of_plainSegment? hname)]

theorem segment_of_plainSegment (hname : plainSegment? ts = some name)
    (hangle : startsAngle true (ts.drop 1) = false) :
    segment R true ⟨ts, note⟩ = .ok (⟨name, .absent⟩, ⟨ts.drop 1, note⟩) := by
  have hend : ∀ (x : List Token) (name : String) (q : Parse Segment), startsAngle true x = false →
      (if startsAngle true x then q else pure ⟨name, .absent⟩) ⟨x, note⟩ =
        .ok (⟨name, .absent⟩, ⟨x, note⟩) := by
    intro x name q hx
    rw [if_neg (by simp [hx])]
    rfl
  rcases plainSegment?_cases hname with ⟨x, rfl⟩ | ⟨w, x, rfl, rfl, hw⟩
  · exact hend x name _ hangle
  · rcases hw with rfl | rfl | rfl | rfl
    · rfl
    · rfl
    · exact hend x _ _ hangle
    · rfl

/-- The further segments of a plain path are those of a path. -/
theorem moreSegments_of_plainSegments (h : plainSegments k st = .ok (segments, st')) :
    moreSegments R true k st = .ok (segments, st') ∧
      segments.all (fun s => s.arguments matches .absent) = true := by
  induction k generalizing st segments with
  | zero => cases h
  | succ k ih =>
    rcases plainSegments_cases h with ⟨hcolon, rfl, rfl⟩ | ⟨hcolon, name, more, hname, rfl, hmore⟩
    · simp only [moreSegments, Parse.bind_apply, tokens, hcolon]
      exact ⟨rfl, rfl⟩
    · obtain ⟨hrest, hall⟩ := ih hmore
      have hparen : isGroup .paren (st.tokens.drop 2) = false := by
        rcases plainSegment?_cases hname with ⟨x, hx⟩ | ⟨w, x, hx, -⟩ <;> rw [hx] <;> rfl
      have hangle : startsAngle true ((st.tokens.drop 2).drop 1) = false := by
        rw [List.drop_drop]
        exact startsAngle_of_plainSegments hmore
      have hsegment : segment R true ⟨st.tokens.drop 2, st.leftover⟩ =
          .ok (⟨name, .absent⟩, ⟨(st.tokens.drop 2).drop 1, st.leftover⟩) :=
        segment_of_plainSegment hname hangle
      rw [List.drop_drop] at hsegment
      refine ⟨?_, by simp [hall]⟩
      simp only [moreSegments, Parse.bind_apply, tokens]
      rw [if_pos (by simp [hcolon, hparen])]
      simp only [Parse.bind_apply, symbol_of_isSymbol hcolon]
      rw [show Symbol.colon2.chars.length = 2 from rfl, hsegment]
      simp only [hrest]
      rfl

/-- The parts of a plain path. -/
theorem plainPath_cases (h : plainPath st = .ok (p, st')) :
    ∃ rooted st₁ name more, symbol? .colon2 st = .ok (rooted, st₁) ∧
      plainSegment? st₁.tokens = some name ∧ p = ⟨none, rooted, ⟨name, .absent⟩ :: more⟩ ∧
      plainSegments ((st₁.tokens.drop 1).length + 1) ⟨st₁.tokens.drop 1, st₁.leftover⟩ =
        .ok (more, st') := by
  obtain ⟨rooted, st₁, hroot, h⟩ := bind_ok h
  obtain ⟨us, st₂, htokens, h⟩ := bind_ok h
  cases htokens
  cases hname : plainSegment? st₁.tokens with
  | none =>
    simp only [hname] at h
    obtain ⟨ts, note⟩ := st₁
    rcases ts with _ | ⟨(_ | _ | _ | _ | _) | _, x⟩
    case cons.leaf.ident => cases hname
    all_goals cases h
  | some name =>
    simp only [hname] at h
    obtain ⟨⟨⟩, st₂, hskip, h⟩ := bind_ok h
    cases hskip
    obtain ⟨us, st₂, htokens, h⟩ := bind_ok h
    cases htokens
    obtain ⟨more, st₂, hmore, h⟩ := bind_ok h
    cases h
    exact ⟨rooted, st₁, name, more, hroot, hname, rfl, hmore⟩

/-- A path is rooted by `::`, and else begins with its first segment. -/
theorem root_cases {rooted : Bool} {st₁ : Stream} (h : symbol? .colon2 st = .ok (rooted, st₁)) :
    isSymbol .colon2 st.tokens = true ∧ rooted = true ∧ st₁ = ⟨st.tokens.drop 2, st.leftover⟩ ∨
      isSymbol .colon2 st.tokens = false ∧ rooted = false ∧ st₁ = st := by
  rw [symbol?_apply] at h
  split at h
  · cases h
    exact .inl ⟨‹_›, rfl, rfl⟩
  · cases h
    exact .inr ⟨Bool.eq_false_iff.2 ‹_›, rfl, rfl⟩

/-- **A plain path is a path.** -/
theorem path_of_plainPath (h : plainPath st = .ok (p, st')) :
    path R true st = .ok (p, st') ∧ p.qualifier = none ∧ p.isPlain = true := by
  obtain ⟨rooted, st₁, name, more, hroot, hname, rfl, hmore⟩ := plainPath_cases h
  obtain ⟨hrest, hall⟩ := moreSegments_of_plainSegments (R := R) hmore
  have hsegment : segment R true ⟨st₁.tokens, st₁.leftover⟩ =
      .ok (⟨name, .absent⟩, ⟨st₁.tokens.drop 1, st₁.leftover⟩) :=
    segment_of_plainSegment hname (startsAngle_of_plainSegments hmore)
  refine ⟨?_, rfl, ?_⟩
  · have hlt : isSymbol .lt st.tokens = false := by
      rcases root_cases hroot with ⟨hcolon, -⟩ | ⟨-, -, rfl⟩
      · obtain ⟨joint, x, hx⟩ := exists_of_startsPunct hcolon
        rw [hx]
        rfl
      · exact isSymbol_of_startsPlain (startsPlain_of_plainSegment? hname) _
    simp only [path, Parse.bind_apply, tokens, hlt, Bool.false_eq_true, if_false, unqualifiedPath,
      hroot, restOfPath]
    rw [show st₁ = ⟨st₁.tokens, st₁.leftover⟩ from rfl, hsegment]
    simp only [hrest]
    rfl
  · simp only [Path.isPlain, List.all_cons, Bool.true_and]
    exact hall

/-- Behind the first word of the path there is no `#`. -/
theorem CallsMacro.noHash {mid : Stream} (h : CallsMacro ts note p mid)
    (hcolon : isSymbol .colon2 ts = false) : isSymbol .hash (ts.drop 1) = false := by
  obtain ⟨rooted, st₁, name, more, hroot, hname, rfl, hmore⟩ := plainPath_cases h.path
  rcases root_cases hroot with ⟨hroot, -⟩ | ⟨-, -, rfl⟩
  · rw [hcolon] at hroot
    cases hroot
  · have hstart : ∀ y, isSymbol y (ts.drop 1) = true → (y = .colon2 ∨ y = .bang) →
        isSymbol .hash (ts.drop 1) = false := by
      rintro y hy (rfl | rfl) <;>
      · obtain ⟨joint, x, hx⟩ := exists_of_startsPunct hy
        rw [hx]
        rfl
    rcases plainSegments_cases hmore with ⟨-, -, rfl⟩ | ⟨hmore, -⟩
    · exact hstart _ h.bang (.inr rfl)
    · exact hstart _ hmore (.inl rfl)

/-- An atom that begins with a plain path and a `!`. -/
theorem atom_of_callsMacro {mid : Stream} (h : CallsMacro ts note p mid) :
    atom R true ⟨ts, note⟩ = pathExpr R true ⟨ts, note⟩ := by
  obtain ⟨rooted, st₁, name, more, hroot, hname, rfl, hmore⟩ := plainPath_cases h.path
  rcases root_cases hroot with ⟨hcolon, -⟩ | ⟨hcolon, -, rfl⟩
  · obtain ⟨joint, x, rfl⟩ := exists_of_startsPunct hcolon
    simp only [atom, Parse.bind_apply, tokens]
    rw [if_neg (by simp [isLiteral]), if_neg (by simp [isKeyword]), if_neg (by simp [isKeyword]),
      if_neg (by simp [startsClosure, isKeyword, isSymbol, startsPunct, Symbol.chars]),
      if_neg (by simp [isWord]), if_pos (by simp [startsPathExpr, hcolon])]
  · have hhash := h.noHash hcolon
    rcases plainSegment?_cases hname with ⟨x, rfl⟩ | ⟨w, x, rfl, rfl, hw⟩
    · simp only [atom, Parse.bind_apply, tokens]
      rw [if_neg (by simp [isLiteral]), if_neg (by simp [isKeyword]), if_neg (by simp [isKeyword]),
        if_neg (by simp [startsClosure, isKeyword, isSymbol, startsPunct, Symbol.chars]),
        if_neg (by simpa using fun _ => hhash), if_pos (by simp [startsPathExpr, isPathWord, isIdent])]
    · rcases hw with rfl | rfl | rfl | rfl <;> rfl

/-- What a plain path does not begin with. -/
theorem start_of_plainPath (h : plainPath ⟨ts, note⟩ = .ok (p, st')) :
    startsBlock ts = false ∧ isKeyword .let_ ts = false ∧ isSymbol .hash ts = false ∧
      startsUnary ts = false ∧ goesOn ts = false := by
  obtain ⟨rooted, st₁, name, more, hroot, hname, rfl, hmore⟩ := plainPath_cases h
  rcases root_cases hroot with ⟨hcolon, -⟩ | ⟨hcolon, -, rfl⟩
  · obtain ⟨joint, x, rfl⟩ := exists_of_startsPunct hcolon
    cases joint <;> exact ⟨rfl, rfl, rfl, rfl, rfl⟩
  · rcases plainSegment?_cases hname with ⟨x, rfl⟩ | ⟨w, x, rfl, rfl, rfl | rfl | rfl | rfl⟩ <;>
      exact ⟨rfl, rfl, rfl, rfl, rfl⟩

theorem startsBang_of_macroTail (hbang : isSymbol .bang st.tokens = true)
    (h : macroTail p st = .ok (m, st')) : startsBang st.tokens = true := by
  obtain ⟨ts, note⟩ := st
  obtain ⟨joint, x, rfl⟩ := exists_of_startsPunct hbang
  obtain ⟨⟨⟩, st₁, hsign, h⟩ := bind_ok h
  rw [symbol_of_isSymbol hbang] at hsign
  cases hsign
  rcases x with _ | ⟨_ | ⟨d, inner⟩, x⟩
  · cases h
  · cases h
  · cases joint <;> rfl

/-- **A macro call in the place of a statement** is the expression that its tokens
are there, if nothing goes on behind it. -/
theorem early_of_macroPath {mid : Stream} {rest : List Token} {note' : Option Delimiter}
    (h : CallsMacro ts note p mid)
    (hread : (plainPath >>= macroTail) ⟨ts, note⟩ = .ok (m, ⟨rest, note'⟩))
    (hrest : goesOn rest = false) :
    (Rules.ofDepth 3).early ⟨ts, note⟩ = .ok (.macroCall m, ⟨rest, note'⟩) := by
  rw [Parse.bind_apply, h.path] at hread
  have hread : macroTail p mid = .ok (m, ⟨rest, note'⟩) := hread
  obtain ⟨hblock, -, hhash, hunary, -⟩ := start_of_plainPath h.path
  obtain ⟨hpath, hqualifier, hplain⟩ := path_of_plainPath (R := Rules.ofDepth 1) h.path
  have hatom : atom (Rules.ofDepth 1) true ⟨ts, note⟩ = .ok (.macroCall m, ⟨rest, note'⟩) := by
    rw [atom_of_callsMacro h]
    simp only [pathExpr, Parse.bind_apply, hpath, tokens]
    rw [if_pos (by simp [hqualifier, hplain, startsBang_of_macroTail h.bang hread]),
      Parse.bind_apply, hread]
    rfl
  have hunary : (Rules.ofDepth 2).unary true ⟨ts, note⟩ = .ok (.macroCall m, ⟨rest, note'⟩) := by
    show unaryRule (Rules.ofDepth 1) true ⟨ts, note⟩ = _
    rw [unaryRule_of_noHash hhash, operand_of_atom hunary, Parse.bind_apply, hatom]
    exact trailersRule_of_not_goesOn hrest
  show earlyRule (Rules.ofDepth 2) ⟨ts, note⟩ = _
  simp only [earlyRule, Parse.bind_apply, outerAttributes_of_noHash hhash, earlyAtom_apply, hblock,
    hunary, tokens, Bool.false_eq_true, if_false]
  exact climbRule_of_not_goesOn (R := Rules.ofDepth 1) (e := .macroCall m) hrest

end Grammar

end ProcessCompiler
