import ProcessCompiler.Proofs.Grammar.TypeAgreement
import ProcessCompiler.Grammar.Pattern
/-!
# Agreement of patterns

Patterns, read over rules that agree, agree.
-/

namespace ProcessCompiler

namespace Grammar

open Parse

variable {R R' : Rules} {S : Seam} {u : List Token} {Q : PatternForm → Prop}

@[simp]
theorem isLoneBar_right : isLoneBar (u ++ S.right) = isLoneBar (u ++ S.left) := by
  simp [isLoneBar]

variable (h : R.Agree R')
include h

theorem moreAlternatives_agree {Q : Unit → Prop} {n m : ℕ} (hnm : n ≤ m) :
    AgreeAt S Q u (moreAlternatives R n) (moreAlternatives R' m) := by
  induction n generalizing S Q u m with
  | zero => exact AgreeAt.tooDeep
  | succ n ih =>
    obtain ⟨m, rfl⟩ := Nat.exists_eq_add_of_lt hnm
    unfold moreAlternatives
    exact .tokens <| .choice (by simp) (.seq (.symbol (by decide)) <|
      .seq (.discard (h.pattern _ _ _)) <| ih (Nat.le_add_right n m)) <| .pure _

theorem alternatives_agree : AgreeAt S Q u (alternatives R) (alternatives R') := by
  unfold alternatives
  exact .seq (.symbol? (by decide)) <| .seq (h.pattern _ _ _) <| .tokens <|
    .choice (by simp) (.seq (moreAlternatives_agree h (Seam.rounds_le _)) <| .pure _) <| .pure _

omit h in
/-- An integer ahead is a literal. -/
theorem isLiteral_of_integerText? {ts : List Token} {r : Bool × List Char}
    (h : integerText? ts = some r) : isLiteral ts = true := by
  unfold integerText? at h
  split at h
  · rfl
  · rfl
  · cases h

omit h in
@[simp]
theorem integerText?_right : integerText? (u ++ S.right) = integerText? (u ++ S.left) := by
  rcases u with _ | ⟨(_ | _ | _ | ⟨c, joint⟩ | ⟨_ | _ | _ | _ | _ | _ | _, _⟩) | _, u⟩
  case cons.leaf.punct =>
    by_cases hc : c = '-'
    · subst hc
      rcases u with _ | ⟨(_ | _ | _ | _ | ⟨_ | _ | _ | _ | _ | _ | _, _⟩) | _, u⟩
      · cases S <;> rfl
      all_goals rfl
    · have hnone : ∀ ts, integerText? (.leaf (.punct c joint) :: ts) = none := by
        intro ts
        unfold integerText?
        split <;> simp_all
      simp only [List.cons_append, hnone]
  case nil => cases S <;> rfl
  all_goals rfl

omit h in
/-- The position that a number spells is found without reading on. -/
theorem AgreeAt.bindMemberIndex {α : Type} {Q : α → Prop} {f g : ℕ → Parse α} {negative : Bool}
    {text : List Char} (h : ∀ i, AgreeAt S Q u (f i) (g i)) :
    AgreeAt S Q u (memberIndex negative text >>= f) (memberIndex negative text >>= g) := by
  unfold memberIndex
  repeat' split
  all_goals first | exact h _ | exact AgreeAt.bindFail _

omit h in
theorem member_agree {Q : Member → Prop} :
    AgreeAt S Q u member member := by
  unfold member
  refine .start nofun <| .tokens (.choice (by simp) (.seq .ident <| .pure _) ?_)
  rw [integerText?_right]
  split
  case h_1 negative text hr =>
    exact .bindMemberIndex fun i =>
      .seq (.literal (isLiteral_of_integerText? hr)) <| .pure _
  case h_2 => exact .expect _ _

theorem fieldPattern_agree {Q : Unit → Prop} :
    AgreeAt S Q u (fieldPattern R) (fieldPattern R') := by
  unfold fieldPattern
  refine .seq (.keyword? _) <| .seq (.keyword? _) <| .seq (.keyword? _) ?_
  refine .choice Iff.rfl (.discard .ident) <| .bind member_agree fun name _ {_} => ?_
  cases name with
  | named =>
    exact .seq (.symbol? (by decide)) <| .choice Iff.rfl (.discard (alternatives_agree h)) <|
      .pure _
  | position =>
    exact .seq (.symbol (by decide)) <| .discard (alternatives_agree h)

theorem fieldPatterns_agree {Q : Unit → Prop} {n m : ℕ} (hnm : n ≤ m) :
    AgreeAt .closed Q u (fieldPatterns R n) (fieldPatterns R' m) := by
  induction n generalizing Q u m with
  | zero => exact AgreeAt.tooDeep
  | succ n ih =>
    obtain ⟨m, rfl⟩ := Nat.exists_eq_add_of_lt hnm
    unfold fieldPatterns
    refine .tokens <| .choice (by simp) (.pure _) <| .seq (.discard (outerAttributes_agree h)) <|
      .seq (.symbol? (by decide)) <| .choice Iff.rfl (.pure _) <| .seq (fieldPattern_agree h) <|
        .tokens ?_
    exact .choice (by simp) (.pure _) <| .seq (.symbol (by decide)) <| ih (Nat.le_add_right n m)

theorem patterns_agree {Q : Unit → Prop} : AgreeAt .closed Q u (patterns R) (patterns R') := by
  unfold patterns
  exact .discard (.commas <| alternatives_agree h)

omit h in
@[simp]
theorem endsRange_right [S.Unspent] : endsRange (u ++ S.right) = endsRange (u ++ S.left) := by
  have h := isEmpty_or_isSymbol_semi_right (S := S) (u := u)
    (isSymbol .bar (u ++ S.left) || isSymbol .eq (u ++ S.left) || isLoneColon (u ++ S.left) ||
      isSymbol .comma (u ++ S.left))
  simp only [← Bool.or_assoc] at h
  simp [endsRange, h]

theorem rangeBound?_agree [S.Unspent] {Q : Bool → Prop} :
    AgreeAt S Q u (rangeBound? R) (rangeBound? R') := by
  unfold rangeBound?
  exact .tokens <| .choice (by simp) (.pure _) <|
    .ite (by simp) (fun hc => .seq (.literal hc) <| .pure _) fun _ =>
    .choice (by simp) (.seq (.discard (path_agree h)) <| .pure _) <|
    .choice (by simp) (.seq (.keyword _) <| .seq (.discard (bracedBody_agree h)) <|
      .pure _) <| .expect _ _

omit h in
theorem rangeDots_takes {old : Bool} : TakesAt S u (rangeDots old) (rangeDots old) where
  firm := by
    intro _
    have hdots : ∀ {y : Symbol} {b : Bool}, y ≠ .semi →
        FirmAt S u (symbol y >>= fun _ => pure b) (symbol y >>= fun _ => pure b) :=
      fun hy => .seq (TakesAt.symbol hy).firm <| .pure _
    unfold rangeDots
    exact .tokens <| .choice (by simp) (hdots (by decide)) <|
      .choice (by simp) (.choice Iff.rfl (hdots (by decide)) <| .expect _ _) <| hdots (by decide)
  refuses _ := nofun

theorem rangeTail_agree : AgreeAt S Q u (rangeTail R) (rangeTail R') := by
  unfold rangeTail
  exact .after rangeDots_takes <| .seq (rangeBound?_agree h) <| .choice Iff.rfl (.bindExpect _) <|
    .pure _

theorem pathPattern_agree : AgreeAt S Q u (pathPattern R) (pathPattern R') := by
  unfold pathPattern
  exact .seq (path_agree h) <| .tokens <|
    .choice (by simp) (.seq (.discard macroTail_agree) <| .pure _) <|
    .choice (by simp) (.seq (.within <| .tokens
      (fieldPatterns_agree h (Seam.rounds_le _))) <| .pure _) <|
    .choice (by simp) (.seq (.within <| patterns_agree h) <| .pure _) <|
    .choice (by simp) (rangeTail_agree h) <| .pure _

theorem namePattern_agree : AgreeAt S Q u (namePattern R) (namePattern R') := by
  unfold namePattern
  refine .seq (.discard (.keyword? _)) <| .seq (.discard (.keyword? _)) <| .tokens <|
    .either (by simp) (fun hc => .skip (isKeyword_pos hc)) (fun _ => .discard .ident) <|
      .seq (.symbol? (by decide)) ?_
  exact .when Iff.rfl (fun _ => .discard (h.pattern _ _ _)) <| .pure _

theorem literalPattern_agree [S.Unspent] :
    AgreeAt S Q u (literalPattern R) (literalPattern R') := by
  unfold literalPattern
  exact .seq (.discard (rangeBound?_agree h)) <| .tokens <| .choice (by simp) (rangeTail_agree h) <|
    .pure _

theorem openPattern_agree : AgreeAt S Q u (openPattern R) (openPattern R') := by
  unfold openPattern
  exact .after rangeDots_takes <| .seq (rangeBound?_agree h) <| .choice Iff.rfl (.pure _) <|
    .choice Iff.rfl (.expect _ _) <| .pure _

theorem slicePattern_agree : AgreeAt S Q u (slicePattern R) (slicePattern R') := by
  unfold slicePattern
  exact .seq (.discard (.within <| .commas <| .seq (alternatives_agree h) <|
    .choice Iff.rfl (.fail _) <| .pure _)) <| .pure _

omit h in
@[simp]
theorem startsPathPattern_right [S.Unspent] :
    startsPathPattern (u ++ S.right) = startsPathPattern (u ++ S.left) := by
  unfold startsPathPattern
  grind -ring -linarith

theorem patternRule_agree : AgreeAt S Q u (patternRule R) (patternRule R') := by
  unfold patternRule
  exact .start nofun <| .tokens <| .choice (by simp) (pathPattern_agree h) <|
    .ite (by simp) (fun hc => .seq (.skip (isKeyword_pos hc)) <| .pure _) fun _ =>
    .ite (by simp) (fun hc => .seq (.skip (isKeyword_pos hc)) <|
      .seq (.discard (h.pattern _ _ _)) <| .pure _) fun _ =>
    .choice (by simp) (literalPattern_agree h) <| .choice (by simp) (namePattern_agree h) <|
    .choice (by simp) (.seq (.symbol (by decide)) <| .seq (.discard (.keyword? _)) <|
        .seq (.discard (h.pattern _ _ _)) <| .pure _) <|
    .choice (by simp) (.seq (.within <| patterns_agree h) <| .pure _) <|
    .choice (by simp) (slicePattern_agree h) <| .choice (by simp) (openPattern_agree h) <|
    .expect _ _

end Grammar

end ProcessCompiler
