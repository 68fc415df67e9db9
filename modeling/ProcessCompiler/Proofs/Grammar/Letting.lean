import ProcessCompiler.Proofs.Grammar.EarlyExpression
/-!
# Bindings read as tests

A binding and the test of a value against a pattern begin alike. The value of a
test stops before the operators that bind less strongly than a comparison, and
they take the whole test for their first operand. So a binding without its
semicolon is an expression, and it is a test unless such an operator stands at
the top of its value: `exists_expr_of_binding`.
-/

namespace ProcessCompiler

namespace Grammar

open Parse

variable {R : Rules} {ts rest : List Token} {note note' : Option Delimiter} {n : ℕ}
  {structs : Bool} {e r : Expr} {s : Stmt} {st st' st₁ : Stream} {base level : Precedence}

/-! ## Weak operators -/

/-- An operator stands at the top of the expression that binds less strongly than
a comparison. -/
def Expr.isWeak : Expr → Bool
  | .binary op left _ => op.precedence.rank < Precedence.compare.rank || left.isWeak
  | .assign .. | .range (some _) .. => true
  | .cast e _ => e.isWeak
  | _ => false

/-- A weak operator stays at the top, and makes what it is taken into weak. -/
theorem ClimbStep.isWeak {e₁ : Expr} {st₁ : Stream} (h : ClimbStep R structs e st level e₁ st₁) :
    e₁.isWeak = (decide (level.rank < Precedence.compare.rank) || e.isWeak) := by
  cases h with
  | binary ahead once sign operand => rfl
  | assign noBinary ahead sign operand => rfl
  | range noBinary noAssign ahead read => rfl
  | cast noBinary noAssign noRange ahead read => rfl

theorem isWeak_of_climb (he : e.isWeak = true)
    (h : (Rules.ofDepth n).climb e structs base st = .ok (r, st')) : r.isWeak = true := by
  induction n generalizing e st with
  | zero => cases h
  | succ n ih =>
    rcases climbRule_cases h with ⟨rfl, -, -⟩ | ⟨-, level, e₁, st₁, -, hstep, h⟩
    · exact he
    · exact ih (by rw [hstep.isWeak, he, Bool.or_true]) h

/-- Operators that bind as strongly as a comparison are not weak. -/
theorem not_isWeak_of_climb (he : e.isWeak = false)
    (h : (Rules.ofDepth n).climb e structs .compare st = .ok (r, st')) : r.isWeak = false := by
  induction n generalizing e st with
  | zero => cases h
  | succ n ih =>
    rcases climbRule_cases h with ⟨rfl, -, -⟩ | ⟨-, level, e₁, st₁, hlevel, hstep, h⟩
    · exact he
    · refine ih ?_ h
      rw [hstep.isWeak, he, Bool.or_false, decide_eq_false_iff_not]
      omega

theorem Expr.not_isWeak_of_isBlockLike (h : e.isBlockLike = true) : e.isWeak = false := by
  cases e <;> first | rfl | cases h

theorem Expr.not_isWeak_of_isPlainAtom (h : e.isPlainAtom = true) : e.isWeak = false := by
  unfold isPlainAtom at h
  split at h <;> first | rfl | cases h

theorem Expr.not_isWeak_of_isTrailed (h : e.isTrailed = true) : e.isWeak = false := by
  unfold isTrailed at h
  split at h <;> first | rfl | cases h

theorem Expr.not_isWeak_of_isPrefixed (h : e.isPrefixed = true) : e.isWeak = false := by
  unfold isPrefixed at h
  split at h <;> first | rfl | cases h

/-- No operator stands at the top of an operand. -/
theorem not_isWeak_of_unaryRule (h : unaryRule (Rules.ofDepth n) structs st = .ok (e, st')) :
    e.isWeak = false := by
  rw [unaryRule_eq] at h
  obtain ⟨attributes, st₁, -, h⟩ := bind_ok h
  obtain ⟨e₁, st₂, hoperand, hattach⟩ := bind_ok h
  have he₁ : e₁.isWeak = false := by
    rcases operand_cases hoperand with hop | ⟨e₂, st₃, hatom, htrailers⟩
    · exact Expr.not_isWeak_of_isPrefixed hop
    rcases eq_or_isTrailed_of_trailers htrailers with ⟨rfl, -⟩ | htrailed
    · cases atomForm_of_atom hatom with
      | path start read =>
        refine (show Yields (Expr.isWeak · = false) (pathExpr _ structs) from ?_) _ _ _ read
        exact .bind <| .bind <| .ite (.bind <| .pure rfl)
          (.ite (.bind <| .pure rfl) (.pure rfl))
      | block start block => exact Expr.not_isWeak_of_isBlockLike block
      | range => rfl
      | letting start => rfl
      | plain plain => exact Expr.not_isWeak_of_isPlainAtom plain
    · exact Expr.not_isWeak_of_isTrailed htrailed
  unfold attach at hattach
  split at hattach
  · cases hattach
  · cases hattach
    unfold withAttributes
    split
    · exact he₁
    · rfl

/-- **A test in the place of its value.** The operators that the value of a test
leaves take the test instead, and there are such operators exactly if the value
with them is weak. -/
theorem climb_letting {l : Expr} (hletting : l.isLetting = true) (hrange : l.isRange = false)
    (he : e.isWeak = false) (hstop : e.isRange = true ∨ takes .compare st.tokens = false)
    (h : (Rules.ofDepth n).climb e structs .jump st = .ok (r, st'))
    (hend : goesOn st'.tokens = false) :
    ∃ r', (Rules.ofDepth n).climb l structs .jump st = .ok (r', st') ∧ r'.isLetting = !r.isWeak := by
  cases n with
  | zero => cases h
  | succ n =>
    rcases climbRule_cases h with ⟨rfl, rfl, -⟩ | ⟨hnot, level, e₁, st₁, hlevel, hstep, hrest⟩
    · exact ⟨l, climbRule_of_not_goesOn hend, by rw [hletting, he]; rfl⟩
    -- The first operator is weak, since the value has taken all others.
    have hweak : level.rank < Precedence.compare.rank := by
      refine Nat.lt_of_not_le fun hstrong => ?_
      rw [hnot, hstep.takes hstrong] at hstop
      simp at hstop
    have honce : level = .compare → l.isComparison = e.isComparison := by
      rintro rfl
      omega
    obtain ⟨l₁, hstep', halike⟩ := hstep.alike honce
    obtain ⟨r', hr', halike'⟩ := climb_alike halike hrest
    refine ⟨r', (climbRule_step hrange hlevel hstep').trans hr', ?_⟩
    have hr : r.isWeak = true := isWeak_of_climb (by rw [hstep.isWeak]; simp [hweak]) hrest
    rw [← halike'.letting, hr]
    rcases (climb_cases hrest).1 with ⟨rfl, -⟩ | hop
    · exact (Expr.shape_of_isOperation hstep.isOperation).1
    · exact (Expr.shape_of_isOperation hop).1

/-! ## Bindings -/

/-- No pattern begins with a `|`. -/
theorem not_bar_of_pattern {form : PatternForm}
    (h : (Rules.ofDepth n).pattern st = .ok (form, st')) : isSymbol .bar st.tokens = false := by
  refine Bool.eq_false_iff.2 fun hbar => ?_
  obtain ⟨ts, note⟩ := st
  obtain ⟨joint, x, rfl⟩ := exists_of_startsPunct hbar
  cases n with
  | zero => cases h
  | succ n => cases joint <;> cases h

/-- One pattern is all alternatives, if no `|` is around it. -/
theorem span_alternatives {pattern : List Token} (hstart : isSymbol .bar st.tokens = false)
    (h : span R.pattern st = .ok (pattern, st₁)) (hend : isLoneBar st₁.tokens = false) :
    span (alternatives R) st = .ok (pattern, st₁) := by
  obtain ⟨⟨form, us⟩, st₂, hspanned, h⟩ := bind_ok h
  cases h
  obtain ⟨ts, st₃, htokens, h⟩ := bind_ok hspanned
  cases htokens
  obtain ⟨form, st₃, hpattern, h⟩ := bind_ok h
  obtain ⟨ts, st₄, htokens, h⟩ := bind_ok h
  cases htokens
  cases h
  have halternatives : alternatives R st = .ok (form, st₁) := by
    simp only [alternatives, Parse.bind_apply, symbol?_apply, hstart, Bool.false_eq_true, if_false,
      hpattern, tokens, hend, Bool.or_self]
    rfl
  simp only [span, spanned, Parse.bind_apply, tokens, halternatives]
  rfl

theorem not_isLoneBar {c : Char} {cs : List Char} (h : startsPunct (c :: cs) ts = true)
    (hc : c ≠ '|') : isLoneBar ts = false := by
  obtain ⟨joint, x, rfl⟩ := exists_of_startsPunct h
  simp [isLoneBar, isSymbol, startsPunct, Symbol.chars, hc.symm]

/-- A binding behind its pattern and type. -/
def bindingTail (R : Rules) (attributes pattern : List Token) (type : Option (List Token)) :
    Parse Stmt := do
  if ← symbol? .eq then
    let value ← R.expr true
    let otherwise ← if !value.endsInBrace && isKeyword .else_ (← tokens) then do
        keyword .else_
        some <$> plainBody R
      else pure none
    symbol .semi
    return .binding attributes pattern type (some value) otherwise
  else
    symbol .semi
    return .binding attributes pattern type none none

theorem bindingStmt_eq (R : Rules) (attributes : List Token) : bindingStmt R attributes =
    (keyword .let_ >>= fun _ => span R.pattern >>= fun pattern => symbol? .colon >>= fun typed =>
      if typed then (some <$> span (R.type true)) >>= bindingTail R attributes pattern
      else bindingTail R attributes pattern none) := rfl

section

variable {attributes pattern : List Token} {type : Option (List Token)}

theorem yields_bindingTail : Yields (fun s => ∃ value otherwise,
    s = .binding attributes pattern type value otherwise) (bindingTail R attributes pattern type) :=
  .bind <| .ite
    (.bind <| .bind <| .ite (.bind <| .bind <| .bind <| .pure ⟨_, _, rfl⟩)
      (.bind <| .bind <| .pure ⟨_, _, rfl⟩))
    (.bind <| .pure ⟨_, _, rfl⟩)

theorem bindingTail_cases (h : bindingTail R attributes pattern type ⟨ts, note⟩ = .ok (s, ⟨rest, note'⟩)) :
    isSymbol .eq ts = false ∧ isLoneBar ts = false ∧ s = .binding attributes pattern type none none ∨
    isSymbol .eq ts = true ∧ ∃ e otherwise st₂, s = .binding attributes pattern type (some e) otherwise ∧
      R.expr true ⟨ts.drop 1, note⟩ = .ok (e, st₂) ∧
      (otherwise = none ∧ (∃ joint, st₂ = ⟨.leaf (.punct ';' joint) :: rest, note'⟩) ∨
        otherwise ≠ none ∧ isKeyword .else_ st₂.tokens = true) := by
  obtain ⟨valued, st₁, heq, h⟩ := bind_ok h
  rw [symbol?_apply] at heq
  split at heq
  · rename_i heq'
    cases heq
    refine .inr ⟨heq', ?_⟩
    obtain ⟨value, ⟨ts₂, note₂⟩, hvalue, h⟩ := bind_ok h
    obtain ⟨us, st₂, htokens, h⟩ := bind_ok h
    cases htokens
    dsimp only at h
    split at h
    · rename_i helse
      rw [Bool.and_eq_true] at helse
      obtain ⟨⟨⟩, st₂, -, h⟩ := bind_ok h
      obtain ⟨otherwise, st₃, hbody, h⟩ := bind_ok h
      obtain ⟨⟨⟩, st₄, -, h⟩ := bind_ok h
      cases h
      obtain ⟨body, -, rfl⟩ := map_ok hbody
      exact ⟨value, some body, _, rfl, hvalue, .inr ⟨nofun, helse.2⟩⟩
    · obtain ⟨otherwise, st₃, hbody, h⟩ := bind_ok h
      cases hbody
      obtain ⟨⟨⟩, st₄, hsemi, h⟩ := bind_ok h
      obtain ⟨joint, x, rfl, rfl⟩ := exists_of_symbol_semi hsemi
      cases h
      exact ⟨value, none, _, rfl, hvalue, .inl ⟨rfl, joint, rfl⟩⟩
  · rename_i heq'
    cases heq
    obtain ⟨⟨⟩, st₂, hsemi, h⟩ := bind_ok h
    obtain ⟨joint, x, rfl, rfl⟩ := exists_of_symbol_semi hsemi
    cases h
    exact .inl ⟨Bool.eq_false_iff.2 heq', rfl, rfl⟩

/-- The parts of a binding. -/
theorem bindingStmt_cases (h : bindingStmt R attributes ⟨ts, note⟩ = .ok (s, ⟨rest, note'⟩)) :
    ∃ x pattern type value otherwise st₁, ts = .leaf (.keyword .let_) :: x ∧
      s = .binding attributes pattern type value otherwise ∧
      span R.pattern ⟨x, note⟩ = .ok (pattern, st₁) ∧ isLoneBar st₁.tokens = false ∧
      (isSymbol .eq st₁.tokens = false ∧ (type ≠ none ∨ value = none) ∨
        isSymbol .eq st₁.tokens = true ∧ type = none ∧ ∃ e st₂, value = some e ∧
          R.expr true ⟨st₁.tokens.drop 1, st₁.leftover⟩ = .ok (e, st₂) ∧
          (otherwise = none ∧ (∃ joint, st₂ = ⟨.leaf (.punct ';' joint) :: rest, note'⟩) ∨
            otherwise ≠ none ∧ isKeyword .else_ st₂.tokens = true)) := by
  rw [bindingStmt_eq] at h
  obtain ⟨⟨⟩, st₀, hlet, h⟩ := bind_ok h
  obtain ⟨x, rfl⟩ : ∃ x, ts = .leaf (.keyword .let_) :: x := by
    refine exists_of_isKeyword ?_
    simp only [keyword, Parse.bind_apply, tokens] at hlet
    split at hlet
    · assumption
    · cases hlet
  cases hlet
  obtain ⟨pattern, st₁, hpattern, h⟩ := bind_ok h
  obtain ⟨typed, st₂, hcolon, h⟩ := bind_ok h
  rw [symbol?_apply] at hcolon
  split at hcolon
  · rename_i hcolon'
    cases hcolon
    obtain ⟨type, st₃, htype, h⟩ := bind_ok h
    obtain ⟨type, -, rfl⟩ := map_ok htype
    obtain ⟨value, otherwise, rfl⟩ := yields_bindingTail _ _ _ h
    refine ⟨x, pattern, some type, value, otherwise, st₁, rfl, rfl, hpattern,
      not_isLoneBar hcolon' (by decide), .inl ⟨?_, .inl (Option.some_ne_none type)⟩⟩
    obtain ⟨joint, y, hy⟩ := exists_of_startsPunct hcolon'
    rw [hy]
    rfl
  · cases hcolon
    rcases bindingTail_cases h with ⟨heq, hbar, rfl⟩ | ⟨heq, e, otherwise, st₂, rfl, hvalue, hend⟩
    · exact ⟨x, pattern, none, none, none, st₁, rfl, rfl, hpattern, hbar, .inl ⟨heq, .inr rfl⟩⟩
    · exact ⟨x, pattern, none, some e, otherwise, st₁, rfl, rfl, hpattern,
        not_isLoneBar heq (by decide), .inr ⟨heq, rfl, e, st₂, rfl, hvalue, hend⟩⟩

end

/-! ## The expression in a binding -/

/-- Before an operator stands no call, field or index. -/
theorem not_trails_of_takes (h : takes base ts = true) :
    isGroup .paren ts = false ∧ isLoneDot ts = false ∧ isGroup .bracket ts = false ∧
      isSymbol .question ts = false := by
  have hstart : ∀ {c : Char} {cs : List Char}, startsPunct (c :: cs) ts = true → c ≠ '.' → c ≠ '?' →
      isGroup .paren ts = false ∧ isLoneDot ts = false ∧ isGroup .bracket ts = false ∧
        isSymbol .question ts = false := by
    intro c cs hc hdot hquestion
    obtain ⟨joint, x, rfl⟩ := exists_of_startsPunct hc
    simp [isGroup, isLoneDot, isSymbol, startsPunct, Symbol.chars, hdot.symm, hquestion.symm]
  unfold takes at h
  split at h
  · rename_i y op hop
    have hops : ∀ p ∈ binaryOps, p.1.chars.head?.any (fun c => c != '.' && c != '?') = true := by decide
    have hy := hops _ (List.mem_of_find?_eq_some hop)
    have hahead : isSymbol y ts = true :=
      List.find?_some (p := fun q : Symbol × BinaryOp => isSymbol q.1 ts) hop
    obtain ⟨c, hc, hne⟩ := (Option.any_eq_true _ _).1 hy
    obtain ⟨cs, hcs⟩ := List.head?_eq_some_iff.1 hc
    rw [isSymbol, hcs] at hahead
    simp only [Bool.and_eq_true, bne_iff_ne] at hne
    exact hstart hahead hne.1 hne.2
  · simp only [Bool.or_eq_true, Bool.and_eq_true] at h
    rcases h with (⟨-, hassign⟩ | ⟨-, hdots⟩) | ⟨-, has⟩
    · rw [isAssign, Bool.and_eq_true] at hassign
      exact hstart hassign.1 (by decide) (by decide)
    · have hlone : isLoneDot ts = false := by simp [isLoneDot, hdots]
      refine ⟨?_, hlone, ?_⟩ <;> obtain ⟨joint, x, rfl⟩ := exists_of_startsPunct hdots
      · rfl
      · exact ⟨rfl, rfl⟩
    · obtain ⟨x, rfl⟩ := exists_of_isKeyword has
      exact ⟨rfl, rfl, rfl, rfl⟩

section

variable {attributes pattern x : List Token} {st₂ : Stream} {value : Expr}

theorem atom_let : atom R structs ⟨.leaf (.keyword .let_) :: x, note⟩ =
    lettingExpr R structs ⟨.leaf (.keyword .let_) :: x, note⟩ := rfl

/-- What a binding has before its value is read alike in a test. -/
theorem span_alternatives_of_binding
    (hpattern : span (Rules.ofDepth n).pattern ⟨x, note⟩ = .ok (pattern, st₁))
    (hbar : isLoneBar st₁.tokens = false) :
    span (alternatives (Rules.ofDepth n)) ⟨x, note⟩ = .ok (pattern, st₁) := by
  obtain ⟨⟨form, us⟩, st₂, hspanned, -⟩ := bind_ok hpattern
  obtain ⟨ts, st₃, htokens, hread⟩ := bind_ok hspanned
  cases htokens
  obtain ⟨form, st₃, hread, -⟩ := bind_ok hread
  exact span_alternatives (not_bar_of_pattern hread) hpattern hbar

/-- **A binding without its semicolon is an expression**, if it has a value and no
type; it is a test unless the value is weak. -/
theorem exists_expr_of_binding
    (hattributes : outerAttributes (Rules.ofDepth n) st =
      .ok (attributes, ⟨.leaf (.keyword .let_) :: x, note⟩))
    (hpattern : span (Rules.ofDepth n).pattern ⟨x, note⟩ = .ok (pattern, st₁))
    (hbar : isLoneBar st₁.tokens = false) (heq : isSymbol .eq st₁.tokens = true)
    (hvalue : (Rules.ofDepth n).expr true ⟨st₁.tokens.drop 1, st₁.leftover⟩ = .ok (value, st₂))
    (hend : goesOn st₂.tokens = false) :
    ∃ e, (Rules.ofDepth (n + 2)).expr true st = .ok (e, st₂) ∧ e.isLetting = !value.isWeak := by
  rcases n with _ | _ | n
  · cases hvalue
  · cases hvalue
  have hup : (Rules.ofDepth (n + 1)).Agree (Rules.ofDepth (n + 2)) := Rules.agree_ofDepth (Nat.le_succ _)
  obtain ⟨lhs, st₃, hunary, hclimb⟩ := bind_ok hvalue
  have hhigh : Precedence.jump.rank ≤ Precedence.compare.rank := by decide
  obtain ⟨e₁, st₄, hfirst, hrest⟩ := climb_split hhigh hclimb
  have hrest' := (hup.climb .closed never _ _ _ _).ok hrest
  have hweak : e₁.isWeak = false := not_isWeak_of_climb (not_isWeak_of_unaryRule hunary) hfirst
  have hatom : atom (Rules.ofDepth (n + 2)) true ⟨.leaf (.keyword .let_) :: x, note⟩ =
      .ok (.letting pattern e₁, st₄) := by
    have hlet : keyword .let_ ⟨.leaf (.keyword .let_) :: x, note⟩ = .ok ((), ⟨x, note⟩) := rfl
    have hunary' := (hup.unary .closed never _ _).ok hunary
    have hfirst' := (hup.climb .closed never _ _ _ _).ok hfirst
    simp only [atom_let, lettingExpr, Parse.bind_apply, hlet,
      span_alternatives_of_binding hpattern hbar, symbol_of_isSymbol heq]
    rw [show Symbol.eq.chars.length = 1 from rfl, hunary']
    simp only [hfirst']
    rfl
  -- Behind the value of the test there is an operator, or nothing that goes on.
  have htrailers : (Rules.ofDepth (n + 2)).trailers (.letting pattern e₁) st₄ =
      .ok (.letting pattern e₁, st₄) := by
    rcases climbRule_cases hrest with ⟨-, rfl, -⟩ | ⟨-, level, e₂, st₅, -, hstep, -⟩
    · exact trailersRule_of_not_goesOn hend
    · have htakes : takes .jump st₄.tokens = true := hstep.takes (Nat.zero_le _)
      obtain ⟨hparen, hdot, hbracket, hquestion⟩ := not_trails_of_takes htakes
      show trailersRule (Rules.ofDepth (n + 1)) _ _ = _
      simp only [trailersRule, Parse.bind_apply, tokens, hparen, hdot, hbracket, hquestion,
        Bool.false_and, Bool.false_eq_true, if_false]
      rfl
  have hoperand : operand (Rules.ofDepth (n + 2)) true ⟨.leaf (.keyword .let_) :: x, note⟩ =
      .ok (.letting pattern e₁, st₄) := by
    rw [operand_of_atom rfl, Parse.bind_apply, hatom]
    exact htrailers
  have hbare : ∀ l : Expr, l.Alike (withAttributes attributes l) := Expr.alike_withAttributes attributes
  obtain ⟨e, hclimb', hletting⟩ := climb_letting ((hbare (.letting pattern e₁)).letting.symm)
    ((hbare (.letting pattern e₁)).range.symm) hweak (climb_cases hfirst).2 hrest' hend
  refine ⟨e, expr_of_operand hattributes hoperand ?_ hclimb', hletting⟩
  unfold attach
  rw [if_neg (by simp [Expr.isRange, Expr.bare])]
  rfl

/-- A binding without a value, or with a type, is no expression. -/
theorem not_expr_of_binding {m : ℕ}
    (hattributes : outerAttributes (Rules.ofDepth n) st =
      .ok (attributes, ⟨.leaf (.keyword .let_) :: x, note⟩))
    (hpattern : span (Rules.ofDepth n).pattern ⟨x, note⟩ = .ok (pattern, st₁))
    (hbar : isLoneBar st₁.tokens = false) (heq : isSymbol .eq st₁.tokens = false) :
    (Rules.ofDepth m).expr true st ≠ .ok (e, st') := by
  intro h
  obtain ⟨k, e₁, st₂, hoperand, -, -⟩ := exists_operand_of_expr h hattributes
  rw [operand_of_atom rfl] at hoperand
  obtain ⟨e₂, st₃, hatom, -⟩ := bind_ok hoperand
  rw [atom_let] at hatom
  obtain ⟨⟨⟩, st₄, hlet, hatom⟩ := bind_ok hatom
  cases hlet
  obtain ⟨pattern', st₄, hspan, hatom⟩ := bind_ok hatom
  obtain ⟨⟨⟩, st₅, hsign, -⟩ := bind_ok hatom
  obtain ⟨-, rfl⟩ := Rules.ok_unique (fun h u => .span (alternatives_agree h)) hspan
    (span_alternatives_of_binding hpattern hbar)
  rw [isSymbol_of_symbol hsign] at heq
  cases heq

end

end Grammar

end ProcessCompiler
