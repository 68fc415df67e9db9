import ProcessCompiler.Proofs.Grammar.Division
/-!
# Operators one by one

The operators behind an operand are taken one at a time. `ClimbStep` is one such
step, and says how strongly the operator binds; an expression is over where no
operator is ahead that binds strongly enough. What becomes of an operand depends
on little of it: `climb_alike`. And the operators that bind more strongly than
some strength may be taken first: `climb_split`.
-/

namespace ProcessCompiler

namespace Grammar

open Parse

variable {R : Rules} {ts : List Token} {note : Option Delimiter} {n : ℕ}
  {structs : Bool} {e e' r : Expr} {st st' : Stream} {base level : Precedence}

/-- One operator behind an operand, with how strongly it binds and what it
makes. -/
inductive ClimbStep (R : Rules) (structs : Bool) (e : Expr) (st : Stream) :
    Precedence → Expr → Stream → Prop
  | binary {y : Symbol} {op : BinaryOp} {right : Expr} {st₁ st₂ : Stream}
      (ahead : binaryOp? st.tokens = some (y, op))
      (once : (op.precedence = .compare && e.isComparison) = false)
      (sign : symbol y st = .ok ((), st₁))
      (operand : rightOperand R structs op.precedence st₁ = .ok (right, st₂)) :
      ClimbStep R structs e st op.precedence (.binary op e right) st₂
  | assign {right : Expr} {st₁ st₂ : Stream} (noBinary : binaryOp? st.tokens = none)
      (ahead : isAssign st.tokens = true) (sign : symbol .eq st = .ok ((), st₁))
      (operand : rightOperand R structs .assign st₁ = .ok (right, st₂)) :
      ClimbStep R structs e st .assign (.assign e right) st₂
  | range {closed : Bool} {stop : Option Expr} {st₁ : Stream} (noBinary : binaryOp? st.tokens = none)
      (noAssign : isAssign st.tokens = false) (ahead : isSymbol .dot2 st.tokens = true)
      (read : rangeFrom R structs (some e) st = .ok (.range (some e) closed stop, st₁)) :
      ClimbStep R structs e st .range (.range (some e) closed stop) st₁
  | cast {type : List Token} {st₁ : Stream} (noBinary : binaryOp? st.tokens = none)
      (noAssign : isAssign st.tokens = false) (noRange : isSymbol .dot2 st.tokens = false)
      (ahead : isKeyword .as_ st.tokens = true)
      (read : castFrom R e st = .ok (.cast e type, st₁)) :
      ClimbStep R structs e st .cast (.cast e type) st₁

/-- An operator is ahead that binds at least as strongly as `base`. -/
def takes (base : Precedence) (ts : List Token) : Bool :=
  match binaryOp? ts with
  | some (_, op) => base.rank ≤ op.precedence.rank
  | none => (base.rank ≤ Precedence.assign.rank && isAssign ts) ||
      (base.rank ≤ Precedence.range.rank && isSymbol .dot2 ts) ||
      (base.rank ≤ Precedence.cast.rank && isKeyword .as_ ts)

theorem climbRule_of_not_takes (h : takes base ts = false) :
    climbRule R e structs base ⟨ts, note⟩ = .ok (e, ⟨ts, note⟩) := by
  unfold climbRule
  split
  · rfl
  · simp only [Parse.bind_apply, tokens]
    unfold takes at h
    split at h
    · rename_i y op hop
      simp only [hop]
      rw [if_pos (by simpa using h)]
      rfl
    · rename_i hop
      simp only [Bool.or_eq_false_iff] at h
      simp only [hop, h, Bool.false_eq_true, if_false]
      rfl

theorem climbRule_of_isRange (h : e.isRange = true) : climbRule R e structs base st = .ok (e, st) := by
  rw [climbRule, if_pos h]
  rfl

theorem takes_of_le {high : Precedence} (hhigh : base.rank ≤ high.rank) (h : takes base ts = false) :
    takes high ts = false := by
  unfold takes at h ⊢
  split at h
  · simp only [decide_eq_false_iff_not] at h ⊢
    omega
  · simp only [Bool.or_eq_false_iff, Bool.and_eq_false_iff, decide_eq_false_iff_not] at h ⊢
    refine ⟨⟨h.1.1.imp_left ?_, h.1.2.imp_left ?_⟩, h.2.imp_left ?_⟩ <;> omega

theorem yields_castFrom : Yields (fun e' => ∃ type, e' = .cast e type) (castFrom R e) := by
  refine .bind <| .bind fun {type} => .bind fun {ts} => ?_
  split
  · exact fun _ _ _ h => nomatch h
  · exact .pure ⟨type, rfl⟩

theorem yields_rangeFrom {start : Option Expr} :
    Yields (fun e => ∃ closed stop, e = .range start closed stop) (rangeFrom R structs start) := by
  refine .bind <| .bind fun {_} => ?_
  split
  · exact .pure ⟨_, _, rfl⟩
  · exact .bind <| .pure ⟨_, _, rfl⟩

theorem exists_of_isKeyword {k : Keyword} (h : isKeyword k ts = true) :
    ∃ x, ts = .leaf (.keyword k) :: x := by
  unfold isKeyword at h
  split at h
  · exact ⟨_, by rw [eq_of_beq h]⟩
  · cases h

theorem exists_of_startsPunct {c : Char} {cs : List Char} (h : startsPunct (c :: cs) ts = true) :
    ∃ joint x, ts = .leaf (.punct c joint) :: x := by
  unfold startsPunct at h
  split at h
  · rename_i heq
    cases heq
  · rename_i heq
    cases heq
    exact ⟨_, _, by rw [eq_of_beq h]⟩
  · rename_i heq
    cases heq
    simp only [Bool.and_eq_true, beq_iff_eq] at h
    exact ⟨_, _, by rw [h.1.1]⟩
  · cases h

theorem symbol_of_isSymbol {y : Symbol} (h : isSymbol y st.tokens = true) :
    symbol y st = .ok ((), ⟨st.tokens.drop y.chars.length, st.leftover⟩) := by
  simp only [symbol, Parse.bind_apply, tokens, h, if_true]
  rfl

theorem isSymbol_of_symbol {y : Symbol} (h : symbol y st = .ok ((), st')) :
    isSymbol y st.tokens = true := by
  refine Bool.not_eq_false _ ▸ fun hy => ?_
  simp only [symbol, Parse.bind_apply, tokens, hy] at h
  cases h

theorem exists_of_symbol_semi (h : symbol .semi ⟨ts, note⟩ = .ok ((), st)) :
    ∃ joint x, ts = .leaf (.punct ';' joint) :: x ∧ st = ⟨x, note⟩ := by
  obtain ⟨joint, x, rfl⟩ := exists_of_isSymbol_semi (isSymbol_of_symbol h)
  cases h
  exact ⟨joint, x, rfl, rfl⟩

/-- Two dots are neither an assignment nor a cast. -/
theorem not_assign_of_dot2 (h : isSymbol .dot2 ts = true) :
    isAssign ts = false ∧ isKeyword .as_ ts = false := by
  obtain ⟨joint, x, rfl⟩ := exists_of_startsPunct h
  exact ⟨rfl, rfl⟩

theorem not_cast_of_isAssign (h : isAssign ts = true) : isKeyword .as_ ts = false := by
  refine Bool.eq_false_iff.2 fun has => ?_
  obtain ⟨x, rfl⟩ := exists_of_isKeyword has
  cases h

/-- **Operators are taken one at a time**, as long as one is ahead that binds
strongly enough. -/
theorem climbRule_cases (h : climbRule R e structs base st = .ok (r, st')) :
    r = e ∧ st' = st ∧ (e.isRange = true ∨ takes base st.tokens = false) ∨
    e.isRange = false ∧ ∃ level e₁ st₁, base.rank ≤ level.rank ∧
      ClimbStep R structs e st level e₁ st₁ ∧ R.climb e₁ structs base st₁ = .ok (r, st') := by
  unfold climbRule at h
  split at h
  · cases h
    exact .inl ⟨rfl, rfl, .inl ‹_›⟩
  rename_i hrange
  have hrange := Bool.eq_false_iff.2 hrange
  obtain ⟨ts, st₁, htokens, h⟩ := bind_ok h
  cases htokens
  unfold takes
  rcases hop : binaryOp? st.tokens with _ | ⟨y, op⟩ <;> simp only [hop] at h <;> dsimp only <;>
    split_ifs at h
  · -- An assignment.
    rename_i hassign
    rw [Bool.and_eq_true] at hassign
    obtain ⟨⟨⟩, st₁, hsign, h⟩ := bind_ok h
    obtain ⟨right, st₂, hright, h⟩ := bind_ok h
    exact .inr ⟨hrange, _, _, _, by simpa using hassign.1, .assign hop hassign.2 hsign hright, h⟩
  · -- A range that the expression begins.
    rename_i hassign hdots
    rw [Bool.and_eq_true] at hdots
    obtain ⟨e₁, st₁, hread, h⟩ := bind_ok h
    obtain ⟨closed, stop, rfl⟩ := yields_rangeFrom _ _ _ hread
    exact .inr ⟨hrange, _, _, _, by simpa using hdots.1,
      .range hop (not_assign_of_dot2 hdots.2).1 hdots.2 hread, h⟩
  · -- A cast.
    rename_i hassign hdots has
    rw [Bool.and_eq_true] at has
    obtain ⟨e₁, st₁, hread, h⟩ := bind_ok h
    obtain ⟨type, rfl⟩ := yields_castFrom _ _ _ hread
    obtain ⟨x, hx⟩ := exists_of_isKeyword has.2
    refine .inr ⟨hrange, _, _, _, by simpa using has.1, .cast hop ?_ ?_ has.2 hread, h⟩ <;>
      rw [hx] <;> rfl
  · rename_i hassign hdots has
    cases h
    refine .inl ⟨rfl, rfl, .inr ?_⟩
    simp only [Bool.or_eq_false_iff]
    exact ⟨⟨Bool.eq_false_iff.2 hassign, Bool.eq_false_iff.2 hdots⟩, Bool.eq_false_iff.2 has⟩
  · -- An operator that binds weaker than the base.
    rename_i hweak
    cases h
    exact .inl ⟨rfl, rfl, .inr (by simpa using hweak)⟩
  · -- A comparison of a comparison is refused.
    cases h
  · rename_i hstrong honce
    obtain ⟨⟨⟩, st₁, hsign, h⟩ := bind_ok h
    obtain ⟨right, st₂, hright, h⟩ := bind_ok h
    exact .inr ⟨hrange, _, _, _, by omega, .binary hop (Bool.eq_false_iff.2 honce) hsign hright, h⟩

/-- A weaker operator is not taken. -/
theorem ClimbStep.not_takes {e₁ : Expr} {st₁ : Stream} (h : ClimbStep R structs e st level e₁ st₁)
    (hlevel : level.rank < base.rank) : takes base st.tokens = false := by
  unfold takes
  cases h with
  | binary ahead once sign operand =>
    rw [ahead]
    simpa using hlevel
  | assign noBinary ahead sign operand =>
    have hdots : isSymbol .dot2 st.tokens = false :=
      Bool.eq_false_iff.2 fun hdots => by simp [(not_assign_of_dot2 hdots).1] at ahead
    rw [noBinary]
    simp [hdots, not_cast_of_isAssign ahead, hlevel]
  | range noBinary noAssign ahead read =>
    rw [noBinary]
    simp [noAssign, (not_assign_of_dot2 ahead).2, hlevel]
  | cast noBinary noAssign noRange ahead read =>
    rw [noBinary]
    simp [noAssign, noRange, hlevel]

/-- A stronger operator is taken. -/
theorem ClimbStep.takes {e₁ : Expr} {st₁ : Stream} (h : ClimbStep R structs e st level e₁ st₁)
    (hlevel : base.rank ≤ level.rank) : Grammar.takes base st.tokens = true := by
  unfold Grammar.takes
  cases h with
  | binary ahead once sign operand =>
    rw [ahead]
    simpa using hlevel
  | assign noBinary ahead sign operand =>
    rw [noBinary]
    simp [ahead, hlevel]
  | range noBinary noAssign ahead read =>
    rw [noBinary]
    simp [ahead, hlevel]
  | cast noBinary noAssign noRange ahead read =>
    rw [noBinary]
    simp [ahead, hlevel]

/-- An operator that binds strongly enough is taken. -/
theorem climbRule_step {e₁ : Expr} {st₁ : Stream} (hrange : e.isRange = false)
    (hlevel : base.rank ≤ level.rank) (h : ClimbStep R structs e st level e₁ st₁) :
    climbRule R e structs base st = R.climb e₁ structs base st₁ := by
  unfold climbRule
  rw [if_neg (by simp [hrange])]
  simp only [Parse.bind_apply, tokens]
  cases h with
  | binary ahead once sign operand =>
    simp only [ahead]
    rw [if_neg (by omega), if_neg (by simp [once])]
    simp only [Parse.bind_apply, sign, operand]
  | assign noBinary ahead sign operand =>
    simp only [noBinary]
    rw [if_pos (by simp [hlevel, ahead])]
    simp only [Parse.bind_apply, sign, operand]
  | range noBinary noAssign ahead read =>
    simp only [noBinary]
    rw [if_neg (by simp [noAssign]), if_pos (by simp [hlevel, ahead])]
    simp only [Parse.bind_apply, read]
  | cast noBinary noAssign noRange ahead read =>
    simp only [noBinary]
    rw [if_neg (by simp [noAssign]), if_neg (by simp [noRange]), if_pos (by simp [hlevel, ahead])]
    simp only [Parse.bind_apply, read]

/-! ## What operators make of an operand -/

/-- A range without a start. -/
def Expr.isStartless : Expr → Bool
  | .range none _ _ => true
  | _ => false

theorem Expr.isRange_of_isStartless (h : e.isStartless = true) : e.isRange = true := by
  unfold isStartless at h
  split at h
  · rfl
  · cases h

theorem Expr.isLetting_of_isStartless (h : e.isStartless = true) : e.isLetting = false := by
  unfold isStartless at h
  split at h
  · rfl
  · cases h

/-- An operator with its operands. -/
def Expr.isOperation : Expr → Bool
  | .binary .. | .assign .. | .range (some _) .. | .cast .. => true
  | _ => false

theorem Expr.shape_of_isOperation (h : e.isOperation = true) :
    e.isLetting = false ∧ e.isStartless = false ∧ e.needsSemicolon = true := by
  unfold isOperation at h
  split at h
  · exact ⟨rfl, rfl, rfl⟩
  · exact ⟨rfl, rfl, rfl⟩
  · exact ⟨rfl, rfl, rfl⟩
  · exact ⟨rfl, rfl, rfl⟩
  · cases h

theorem ClimbStep.isOperation {e₁ : Expr} {st₁ : Stream}
    (h : ClimbStep R structs e st level e₁ st₁) : e₁.isOperation = true := by
  cases h <;> rfl

/-- What operators make of an operand, and where they end. -/
theorem climb_cases (h : (Rules.ofDepth n).climb e structs base st = .ok (r, st')) :
    (r = e ∧ st' = st ∨ r.isOperation = true) ∧ (r.isRange = true ∨ takes base st'.tokens = false) := by
  induction n generalizing e st with
  | zero => cases h
  | succ n ih =>
    rcases climbRule_cases h with ⟨rfl, rfl, hstop⟩ | ⟨-, level, e₁, st₁, -, hstep, h⟩
    · exact ⟨.inl ⟨rfl, rfl⟩, hstop⟩
    · obtain ⟨hr, hstop⟩ := ih h
      refine ⟨.inr ?_, hstop⟩
      rcases hr with ⟨rfl, -⟩ | hr
      · exact hstep.isOperation
      · exact hr

theorem climb_of_isRange (he : e.isRange = true)
    (h : (Rules.ofDepth n).climb e structs base st = .ok (r, st')) : r = e ∧ st' = st := by
  cases n with
  | zero => cases h
  | succ n =>
    rcases climbRule_cases h with ⟨rfl, rfl, -⟩ | ⟨hrange, -⟩
    · exact ⟨rfl, rfl⟩
    · rw [he] at hrange
      cases hrange

/-- Two expressions that operators behind them take alike. -/
structure Expr.Alike (e e' : Expr) : Prop where
  letting : e.isLetting = e'.isLetting
  range : e.isRange = e'.isRange
  comparison : e.isComparison = e'.isComparison

theorem Expr.alike_withAttributes (attributes : List Token) (e : Expr) :
    e.Alike (withAttributes attributes e) := by
  unfold withAttributes
  split <;> exact ⟨rfl, rfl, rfl⟩

theorem rangeFrom_start {closed : Bool} {stop : Option Expr}
    (h : rangeFrom R structs (some e) st = .ok (.range (some e) closed stop, st')) (e' : Expr) :
    rangeFrom R structs (some e') st = .ok (.range (some e') closed stop, st') := by
  obtain ⟨closed', st₁, hdots, h⟩ := bind_ok h
  obtain ⟨ts, st₂, htokens, h⟩ := bind_ok h
  cases htokens
  simp only [rangeFrom, Parse.bind_apply, hdots, tokens]
  split at h
  · cases h
    rw [if_pos ‹_›]
    rfl
  · obtain ⟨right, st₂, hright, h⟩ := bind_ok h
    cases h
    rw [if_neg ‹_›, Parse.bind_apply, hright]
    rfl

theorem castFrom_operand {type : List Token} (h : castFrom R e st = .ok (.cast e type, st'))
    (e' : Expr) : castFrom R e' st = .ok (.cast e' type, st') := by
  obtain ⟨⟨⟩, st₁, hword, h⟩ := bind_ok h
  obtain ⟨type', st₂, htype, h⟩ := bind_ok h
  obtain ⟨ts, st₃, htokens, h⟩ := bind_ok h
  cases htokens
  simp only [castFrom, Parse.bind_apply, hword, htype, tokens]
  cases hfollower : castFollower? st₂.tokens with
  | some what =>
    simp only [hfollower] at h
    cases h
  | none =>
    simp only [hfollower] at h
    cases h
    rfl

/-- A step from one of them is a step from the other. -/
theorem ClimbStep.alike {e₁ : Expr} {st₁ : Stream} (h : ClimbStep R structs e st level e₁ st₁)
    (honce : level = .compare → e'.isComparison = e.isComparison) :
    ∃ e₁', ClimbStep R structs e' st level e₁' st₁ ∧ e₁.Alike e₁' := by
  cases h with
  | @binary y op right st₁ st₂ ahead once sign operand =>
    refine ⟨_, .binary ahead ?_ sign operand, rfl, rfl, rfl⟩
    by_cases hlevel : op.precedence = .compare
    · rw [honce hlevel]
      exact once
    · simp [hlevel]
  | assign noBinary ahead sign operand =>
    exact ⟨_, .assign noBinary ahead sign operand, rfl, rfl, rfl⟩
  | range noBinary noAssign ahead read =>
    exact ⟨_, .range noBinary noAssign ahead (rangeFrom_start read e'), rfl, rfl, rfl⟩
  | cast noBinary noAssign noRange ahead read =>
    exact ⟨_, .cast noBinary noAssign noRange ahead (castFrom_operand read e'), rfl, rfl, rfl⟩

theorem climb_alike (he : e.Alike e')
    (h : (Rules.ofDepth n).climb e structs base st = .ok (r, st')) :
    ∃ r', (Rules.ofDepth n).climb e' structs base st = .ok (r', st') ∧ r.Alike r' := by
  induction n generalizing e e' st with
  | zero => cases h
  | succ n ih =>
    rcases climbRule_cases h with ⟨rfl, rfl, hstop⟩ | ⟨hrange, level, e₁, st₁, hlevel, hstep, h⟩
    · refine ⟨e', ?_, he⟩
      rcases hstop with hrange | htakes
      · exact climbRule_of_isRange (he.range ▸ hrange)
      · exact climbRule_of_not_takes htakes
    · obtain ⟨e₁', hstep', he₁⟩ := hstep.alike fun _ => he.comparison.symm
      obtain ⟨r', hr', hr⟩ := ih he₁ h
      exact ⟨r', (climbRule_step (he.range ▸ hrange) hlevel hstep').trans hr', hr⟩

/-- **The operators that bind at least as strongly as `high` may be taken first.** -/
theorem climb_split {high : Precedence} (hhigh : base.rank ≤ high.rank)
    (h : (Rules.ofDepth n).climb e structs base st = .ok (r, st')) :
    ∃ e₂ st₂, (Rules.ofDepth n).climb e structs high st = .ok (e₂, st₂) ∧
      (Rules.ofDepth n).climb e₂ structs base st₂ = .ok (r, st') := by
  induction n generalizing e st with
  | zero => cases h
  | succ n ih =>
    rcases climbRule_cases h with ⟨rfl, rfl, hstop⟩ | ⟨hrange, level, e₁, st₁, hlevel, hstep, hrest⟩
    · refine ⟨r, st', ?_, h⟩
      rcases hstop with hrange | htakes
      · exact climbRule_of_isRange hrange
      · exact climbRule_of_not_takes (takes_of_le hhigh htakes)
    · by_cases hstrong : high.rank ≤ level.rank
      · obtain ⟨e₂, st₂, hfirst, hsecond⟩ := ih hrest
        refine ⟨e₂, st₂, (climbRule_step hrange hstrong hstep).trans hfirst, ?_⟩
        exact ((Rules.agree_ofDepth (Nat.le_succ n)).climb .closed never _ _ _ _).ok hsecond
      · exact ⟨e, st, climbRule_of_not_takes (hstep.not_takes (Nat.lt_of_not_le hstrong)), h⟩

end Grammar

end ProcessCompiler
