import ProcessCompiler.Proofs.Grammar.Seam
/-!
# Agreement of parsers

Three questions about the grammar have one answer. A phrase is read alike
however deep the grammar may follow it, as long as it is deep enough; a phrase
that ends before a semicolon is read alike whatever stands behind that
semicolon, and even if the list ended there; and a phrase that ends with a block
is read alike at the end of a list and before a name. All of them compare two
readers on two token lists with a common front, so all are one relation:
`AgreeAt` over a `Seam`, the place where the lists part. The lemmas here say
that the combinators of the grammar keep the relation.

A reader may also take the semicolon of the seam, as the last thing it does.
The relation says for which values it may. Once the block of the seam has been
taken the first list has ended, and a reader that goes on must not see the name
in the second one.
-/

namespace ProcessCompiler

namespace Grammar

variable {α β : Type} {S : Seam} {u v : List Token}

/-! ## The relation -/

/-- The first reader has gone past the seam: both took the semicolon, it came to
the end of its list where the second list goes on, or both took the block. What
is read with the semicolon may keep its token, so the values are equal if the
semicolons are. -/
def Seam.Passed (S : Seam) (Q : α → Prop) (a : α) (s : Stream)
    (r : Except SyntaxError (α × Stream)) : Prop :=
  match S with
  | .closed => False
  | .semi joint joint' short long _ => Q a ∧ s.tokens = short ∧
    ∃ a', (joint = joint' → a' = a) ∧ Q a' ∧ r = .ok (a', ⟨long, s.leftover⟩)
  | .ended strict _ _ => Q a ∧ s.tokens = [] ∧
    (strict = true → ∃ e', r = .error e' ∧ e'.cause ≠ .tooDeep)
  | .block _ name more =>
    s.tokens = [] ∧ r = .ok (a, ⟨.leaf (.ident name) :: more, s.leftover⟩)
  | .spent _ _ => False

/-- Two results agree over a seam: values and notes are equal, and the rests
part at the seam, or the seam was passed and `Q` allows that for the value. A
first reader that gave up for want of depth agrees with anything, and a refusal
agrees with every refusal that is not for want of depth. -/
def Agreeing (S : Seam) (Q : α → Prop) (u : List Token) :
    Except SyntaxError (α × Stream) → Except SyntaxError (α × Stream) → Prop
  | .ok (a, s), r =>
    (∃ v, v <:+ u ∧ s.tokens = v ++ S.left ∧ r = .ok (a, ⟨v ++ S.right, s.leftover⟩)) ∨
      S.Passed Q a s r
  | .error e, r => S.IsLenient ∨ e.cause = .tooDeep ∨ ∃ e', r = .error e' ∧ e'.cause ≠ .tooDeep

/-- Two readers agree on the tokens `u` before a seam. -/
def AgreeAt (S : Seam) (Q : α → Prop) (u : List Token) (p q : Parse α) : Prop :=
  S.Admits u → ∀ note, Agreeing S Q u (p ⟨u ++ S.left, note⟩) (q ⟨u ++ S.right, note⟩)

/-- No semicolon is taken. -/
def never : α → Prop := fun _ => False

/-- Nothing is read where there is no token. -/
def Refuses (p : Parse α) : Prop := ∀ note a s, p ⟨[], note⟩ ≠ .ok (a, s)

/-- What one reader after the other does. -/
theorem Parse.bind_apply (p : Parse α) (f : α → Parse β) (s : Stream) :
    (p >>= f) s = match p s with
      | .ok (a, s') => f a s'
      | .error e => .error e := by
  show (p s >>= fun r => f r.1 r.2) = _
  cases p s <;> rfl

/-- What reading a symbol if it is there does. -/
theorem Parse.symbol?_apply (y : Symbol) (s : Stream) :
    Parse.symbol? y s =
      if isSymbol y s.tokens then .ok (true, ⟨s.tokens.drop y.chars.length, s.leftover⟩)
      else .ok (false, s) := by
  simp only [Parse.symbol?, Parse.bind_apply, Parse.tokens]
  split <;> rfl

theorem Refuses.bind {p : Parse α} {f : α → Parse β} (h : Refuses p) : Refuses (p >>= f) := by
  intro note b s
  rw [Parse.bind_apply]
  cases hp : p ⟨[], note⟩ with
  | error e => nofun
  | ok r => exact absurd hp (h note r.1 r.2)

namespace Agreeing

variable {Q : α → Prop} {r : Except SyntaxError (α × Stream)} {e : SyntaxError}

/-- A refusal is handed on. -/
theorem refusal {Q' : β → Prop} {r' : Except SyntaxError (β × Stream)}
    (h : Agreeing S Q u (.error e) r)
    (hr : ∀ e', r = .error e' → r' = .error e') : Agreeing S Q' u (.error e) r' := by
  rcases h with h | h | ⟨e', h, he'⟩
  · exact .inl h
  · exact .inr (.inl h)
  · exact .inr (.inr ⟨e', hr e' h, he'⟩)

/-- What is read behind a part of the tokens is read behind all of them. -/
theorem of_suffix {l : Except SyntaxError (α × Stream)} (h : Agreeing S Q v l r) (hv : v <:+ u) :
    Agreeing S Q u l r := by
  rcases l with e | ⟨a, s⟩
  · exact h
  · exact h.imp_left fun ⟨w, hw, h⟩ => ⟨w, hw.trans hv, h⟩

end Agreeing

/-! ## Readers that keep to the front -/

/-- Two readers agree before a seam, neither passes it, and they refuse
together. -/
def FirmAt (S : Seam) (u : List Token) (p q : Parse α) : Prop :=
  ∀ note, match p ⟨u ++ S.left, note⟩ with
    | .ok (a, s) => ∃ v, v <:+ u ∧ s.tokens = v ++ S.left ∧
        q ⟨u ++ S.right, note⟩ = .ok (a, ⟨v ++ S.right, s.leftover⟩)
    | .error e => e.cause = .tooDeep ∨
        ∃ e', q ⟨u ++ S.right, note⟩ = .error e' ∧ e'.cause ≠ .tooDeep

/-- Whether brackets can be read does not depend on what stands behind them. -/
theorem within_cases {p q : Parse α} (d d' : Delimiter) {inner : List Token}
    (h : AgreeAt .closed never inner p q) (note : Option Delimiter) :
    (∃ a note', (∀ x, Parse.within d p ⟨.group d' inner :: x, note⟩ = .ok (a, ⟨x, note'⟩)) ∧
        ∀ x, Parse.within d q ⟨.group d' inner :: x, note⟩ = .ok (a, ⟨x, note'⟩)) ∨
      ∃ e, (∀ x, Parse.within d p ⟨.group d' inner :: x, note⟩ = .error e) ∧
        (e.cause = .tooDeep ∨ ∃ e', (∀ x, Parse.within d q ⟨.group d' inner :: x, note⟩ =
          .error e') ∧ e'.cause ≠ .tooDeep) := by
  have h := h trivial note
  simp only [Seam.left, Seam.right, List.append_nil] at h
  simp only [Parse.within]
  by_cases hd : (d == d') = true
  · simp only [if_pos hd]
    cases hr : p ⟨inner, note⟩ with
    | error e =>
      rw [hr] at h
      rcases h with h | h | ⟨e', h, he'⟩
      · exact h.elim
      · exact .inr ⟨e, fun _ => rfl, .inl h⟩
      · rw [h]
        exact .inr ⟨e, fun _ => rfl, .inr ⟨e', fun _ => rfl, he'⟩⟩
    | ok r =>
      obtain ⟨a, s⟩ := r
      rw [hr] at h
      rcases h with ⟨v, -, hs, h⟩ | hpassed
      · simp only [Seam.left, Seam.right, List.append_nil] at hs h
        rw [h, ← hs]
        exact .inl ⟨a, _, fun _ => rfl, fun _ => rfl⟩
      · exact hpassed.elim
  · simp only [if_neg hd]
    have hcause : Cause.expected [.delimiter d] ≠ .tooDeep := by simp
    exact .inr ⟨⟨false, .expected [.delimiter d]⟩, fun _ => rfl,
      .inr ⟨⟨false, .expected [.delimiter d]⟩, fun _ => rfl, hcause⟩⟩

namespace FirmAt

variable {p q : Parse α}

theorem agree {Q : α → Prop} (h : FirmAt S u p q) : AgreeAt S Q u p q := by
  intro _ note
  have h := h note
  cases hr : p ⟨u ++ S.left, note⟩ with
  | error e =>
    rw [hr] at h
    exact .inr h
  | ok r =>
    rw [hr] at h
    exact .inl h

theorem pure (a : α) : FirmAt S u (Pure.pure a) (Pure.pure a) :=
  fun _ => ⟨u, List.suffix_refl u, rfl, rfl⟩

theorem bind {f g : α → Parse β} (hp : FirmAt S u p q) (hf : ∀ a v, FirmAt S v (f a) (g a)) :
    FirmAt S u (p >>= f) (q >>= g) := by
  intro note
  have h := hp note
  rw [Parse.bind_apply, Parse.bind_apply]
  cases hr : p ⟨u ++ S.left, note⟩ with
  | error e =>
    rw [hr] at h
    exact h.imp_right fun ⟨e', h, he'⟩ => ⟨e', by rw [h], he'⟩
  | ok r =>
    obtain ⟨a, ⟨tokens, note'⟩⟩ := r
    rw [hr] at h
    obtain ⟨v, hv, rfl, h⟩ := h
    have hcont := hf a v note'
    rw [h]
    dsimp only
    cases hfa : f a ⟨v ++ S.left, note'⟩ with
    | error e =>
      rw [hfa] at hcont
      exact hcont
    | ok r =>
      rw [hfa] at hcont
      obtain ⟨w, hw, hcont⟩ := hcont
      exact ⟨w, hw.trans hv, hcont⟩

theorem seq {f g : α → Parse β} (hp : FirmAt S u p q) (hf : ∀ {a v}, FirmAt S v (f a) (g a)) :
    FirmAt S u (p >>= f) (q >>= g) := bind hp fun _ _ => hf

theorem discard (h : FirmAt S u p q) : FirmAt S u (Functor.discard p) (Functor.discard q) :=
  h.bind fun _ _ => pure _

theorem tokens {f g : List Token → Parse α} (h : FirmAt S u (f (u ++ S.left)) (g (u ++ S.right))) :
    FirmAt S u (Parse.tokens >>= f) (Parse.tokens >>= g) := fun note => h note

theorem ite {p' q' : Parse α} {c d : Prop} [Decidable c] [Decidable d] (hcd : d ↔ c)
    (hp : c → FirmAt S u p q) (hq : ¬c → FirmAt S u p' q') :
    FirmAt S u (if c then p else p') (if d then q else q') := by
  by_cases hc : c
  · rw [if_pos hc, if_pos (hcd.2 hc)]
    exact hp hc
  · rw [if_neg hc, if_neg fun hd => hc (hcd.1 hd)]
    exact hq hc

theorem choice {p' q' : Parse α} {c d : Prop} [Decidable c] [Decidable d] (hcd : d ↔ c)
    (hp : FirmAt S u p q) (hq : FirmAt S u p' q') :
    FirmAt S u (if c then p else p') (if d then q else q') := ite hcd (fun _ => hp) fun _ => hq

theorem expect (what what' : List Expectation) :
    FirmAt S u (Parse.expect (α := α) what) (Parse.expect what') := fun _ => .inr ⟨_, rfl, nofun⟩

theorem fail {c : Cause} (hc : c ≠ .tooDeep) :
    FirmAt S u (Parse.fail (α := α) c) (Parse.fail c) := fun _ => .inr ⟨_, rfl, hc⟩

theorem failHere {c : Cause} (hc : c ≠ .tooDeep) :
    FirmAt S u (Parse.failHere (α := α) c) (Parse.failHere c) := fun _ => .inr ⟨_, rfl, hc⟩

theorem tooDeep : FirmAt S u (Parse.fail .tooDeep) q := fun _ => .inl rfl

/-- Passing over tokens before the seam. -/
theorem skip {n : ℕ} (h : n ≤ u.length) : FirmAt S u (Parse.skip n) (Parse.skip n) := by
  intro note
  refine ⟨u.drop n, List.drop_suffix n u, drop_left h, ?_⟩
  rw [← drop_right h]
  rfl

theorem symbol? {y : Symbol} (hy : y ≠ .semi) :
    FirmAt S u (Parse.symbol? y) (Parse.symbol? y) := by
  unfold Parse.symbol?
  exact .tokens <| .ite (by rw [isSymbol_right hy]) (fun hc => .bind (.skip (isSymbol_length hc hy))
    fun _ _ => .pure _) fun _ => .pure _

theorem keyword? (k : Keyword) : FirmAt S u (Parse.keyword? k) (Parse.keyword? k) := by
  unfold Parse.keyword?
  exact .tokens <| .ite (by simp) (fun hc => .bind (.skip (isKeyword_pos hc)) fun _ _ => .pure _)
    fun _ => .pure _

theorem lifetime? : FirmAt S u Parse.lifetime? Parse.lifetime? := by
  unfold Parse.lifetime?
  refine tokens ?_
  rcases u with _ | ⟨(_ | _ | _ | _ | _) | _, u⟩
  · cases S <;> exact pure _
  case cons.leaf.lifetime => exact .bind (.skip (Nat.le_add_left 1 _)) fun _ _ => .pure _
  all_goals exact .pure _

/-- Brackets that are ahead, with what is between them. -/
theorem within {d d' : Delimiter} {inner : List Token} (h : AgreeAt .closed never inner p q) :
    FirmAt S (.group d' inner :: u) (Parse.within d p) (Parse.within d q) := by
  intro note
  rcases within_cases d d' h note with ⟨a, note', hp, hq⟩ | ⟨e, hp, he⟩
  · rw [List.cons_append, List.cons_append, hp, hq]
    exact ⟨u, List.suffix_cons _ u, rfl, rfl⟩
  · rw [List.cons_append, List.cons_append, hp]
    exact he.imp_right fun ⟨e', hq, he'⟩ => ⟨e', hq _, he'⟩

end FirmAt

/-- Two such readers that need a token. -/
structure TakesAt (S : Seam) (u : List Token) (p q : Parse α) : Prop where
  firm : ∀ [S.Unspent], FirmAt S u p q
  refuses : u = [] → Refuses p

namespace TakesAt

variable {p q : Parse α}

theorem skip {n : ℕ} (h : n + 1 ≤ u.length) :
    TakesAt S u (Parse.skip (n + 1)) (Parse.skip (n + 1)) where
  firm := .skip h
  refuses hu := by
    subst hu
    cases h

/-- Reading a symbol, unless it is that of the seam. -/
theorem symbol {y : Symbol} (hy : y ≠ .semi) :
    TakesAt S u (Parse.symbol y) (Parse.symbol y) where
  firm := by
    unfold Parse.symbol
    exact .tokens <| .ite (by rw [isSymbol_right hy]) (fun hc => .skip (isSymbol_length hc hy))
      fun _ => .fail nofun
  refuses _ := by cases y <;> nofun

theorem keyword (k : Keyword) : TakesAt S u (Parse.keyword k) (Parse.keyword k) where
  firm := by
    unfold Parse.keyword
    exact .tokens <| .ite (by simp) (fun hc => .skip (isKeyword_pos hc)) fun _ => .expect _ _
  refuses _ := nofun

theorem ident : TakesAt S u Parse.ident Parse.ident where
  firm := fun {hS} => by
    unfold Parse.ident
    refine .tokens ?_
    rcases u with _ | ⟨(_ | _ | _ | _ | _) | _, u⟩
    · cases S with
      | spent name more => exact absurd rfl (hS.ne name more)
      | _ => exact .expect _ _
    case cons.leaf.ident => exact .bind (.skip (Nat.le_add_left 1 _)) fun _ _ => .pure _
    case cons.leaf.keyword => exact .failHere nofun
    all_goals exact .expect _ _
  refuses _ := nofun

theorem anyWord : TakesAt S u Parse.anyWord Parse.anyWord where
  firm := fun {hS} => by
    unfold Parse.anyWord
    refine .tokens ?_
    rcases u with _ | ⟨(_ | _ | _ | _ | _) | _, u⟩
    · cases S with
      | spent name more => exact absurd rfl (hS.ne name more)
      | _ => exact .expect _ _
    case cons.leaf.ident => exact .bind (.skip (Nat.le_add_left 1 _)) fun _ _ => .pure _
    case cons.leaf.keyword => exact .bind (.skip (Nat.le_add_left 1 _)) fun _ _ => .pure _
    all_goals exact .expect _ _
  refuses _ := nofun

theorem lifetime : TakesAt S u Parse.lifetime Parse.lifetime where
  firm := by
    unfold Parse.lifetime
    refine .tokens ?_
    rcases u with _ | ⟨(_ | _ | _ | _ | _) | _, u⟩
    · cases S <;> exact .expect _ _
    case cons.leaf.lifetime => exact .bind (.skip (Nat.le_add_left 1 _)) fun _ _ => .pure _
    all_goals exact .expect _ _
  refuses _ := nofun

end TakesAt

namespace AgreeAt

variable {Q : α → Prop} {p q : Parse α}

/-- What a second reader does where the first one reads. -/
theorem cases_ok [S.Unspent] (h : AgreeAt S Q u p q) {a : α} {note note' : Option Delimiter}
    {rest : List Token} (hp : p ⟨u ++ S.left, note⟩ = .ok (a, ⟨rest, note'⟩)) :
    (∃ v, v <:+ u ∧ rest = v ++ S.left ∧ q ⟨u ++ S.right, note⟩ = .ok (a, ⟨v ++ S.right, note'⟩)) ∨
      S.Passed Q a ⟨rest, note'⟩ (q ⟨u ++ S.right, note⟩) := by
  have h := h (S.admits u) note
  rw [hp] at h
  exact h

/-- Where the lists part at their end, it reads the same, and what is left
stood at the end. -/
theorem ok_suffix (h : AgreeAt .closed Q u p q) {a : α} {note note' : Option Delimiter}
    {rest : List Token} (hp : p ⟨u, note⟩ = .ok (a, ⟨rest, note'⟩)) :
    rest <:+ u ∧ q ⟨u, note⟩ = .ok (a, ⟨rest, note'⟩) := by
  have hnil : u ++ [] = u := List.append_nil u
  rcases h.cases_ok (show p ⟨u ++ Seam.closed.left, note⟩ = _ from hnil.symm ▸ hp)
    with ⟨v, hv, rfl, hq⟩ | hpassed
  · exact ⟨(List.append_nil v).symm ▸ hv, hnil ▸ hq⟩
  · exact hpassed.elim

theorem ok (h : AgreeAt .closed Q u p q) {a : α} {note note' : Option Delimiter}
    {rest : List Token} (hp : p ⟨u, note⟩ = .ok (a, ⟨rest, note'⟩)) :
    q ⟨u, note⟩ = .ok (a, ⟨rest, note'⟩) := (h.ok_suffix hp).2

/-- Where lists part at their end there is no seam to pass. -/
theorem closed {Q' : α → Prop} (h : AgreeAt .closed Q' u p q) : AgreeAt .closed Q u p q := by
  intro hu note
  have h := h hu note
  cases hr : p ⟨u ++ Seam.closed.left, note⟩ with
  | error e =>
    rw [hr] at h
    exact h
  | ok r =>
    rw [hr] at h
    exact h.imp_right False.elim

theorem pure (a : α) : AgreeAt S Q u (Pure.pure a) (Pure.pure a) :=
  fun _ _ => .inl ⟨u, List.suffix_refl u, rfl, rfl⟩

/-- Only the tokens that may stand before the seam matter. -/
theorem admitting (h : S.Admits u → AgreeAt S Q u p q) : AgreeAt S Q u p q := fun hu => h hu hu

/-- One reader after the other. The first may come to the end of its list where
the second list goes on, if nothing more can be read there. -/
theorem bind_refuses {Q : β → Prop} {P : α → Prop} {f g : α → Parse β} (hp : AgreeAt S P u p q)
    (hP : ∀ a, P a → S.IsEnded ∧ Refuses (f a))
    (hf : ∀ a v {b : Bool}, AgreeAt (S.cut b) Q v (f a) (g a)) :
    AgreeAt S Q u (p >>= f) (q >>= g) := by
  intro hu note
  have h := hp hu note
  rw [Parse.bind_apply, Parse.bind_apply]
  cases hr : p ⟨u ++ S.left, note⟩ with
  | error e =>
    rw [hr] at h
    exact h.refusal fun e' he' => by rw [he']
  | ok r =>
    obtain ⟨a, ⟨tokens, note'⟩⟩ := r
    rw [hr] at h
    rcases h with ⟨v, hv, rfl, h⟩ | hpassed
    · have hcont := @hf a v false
      rw [Seam.cut_false] at hcont
      rw [h]
      exact (hcont (hu.of_suffix hv) note').of_suffix hv
    · cases S with
      | closed => exact hpassed.elim
      | semi => exact (hP a hpassed.1).1.elim
      | ended strict joint long =>
        obtain ⟨hPa, rfl, hstrict⟩ := hpassed
        dsimp only
        cases hfa : f a ⟨[], note'⟩ with
        | error e =>
          cases strict with
          | false => exact .inl rfl
          | true =>
            obtain ⟨e', h, he'⟩ := hstrict rfl
            rw [h]
            exact .inr (.inr ⟨e', rfl, he'⟩)
        | ok r => exact absurd hfa ((hP a hPa).2 note' r.1 r.2)
      | block inner name more =>
        -- The block was taken: the second reader goes on where the first list has ended.
        obtain ⟨rfl, h⟩ : tokens = [] ∧ _ := hpassed
        have hcont := (@hf a [] true) rfl note'
        rw [h]
        dsimp only
        cases hfa : f a ⟨[], note'⟩ with
        | error e => exact .inl trivial
        | ok r =>
          rw [show f a ⟨[] ++ ((Seam.block inner name more).cut true).left, note'⟩ = _ from hfa]
            at hcont
          rcases hcont with ⟨v, hv, hr, hcont⟩ | hpassed
          · cases List.suffix_nil.1 hv
            exact .inr ⟨hr, hcont⟩
          · exact hpassed.elim
      | spent => exact hpassed.elim

/-- One reader after the other, the first of which leaves the semicolon. -/
theorem bind {Q : β → Prop} {f g : α → Parse β} (hp : AgreeAt S never u p q)
    (hf : ∀ a v {b : Bool}, AgreeAt (S.cut b) Q v (f a) (g a)) :
    AgreeAt S Q u (p >>= f) (q >>= g) :=
  bind_refuses hp (fun _ => False.elim) hf

/-- The same, where it makes no difference what the first one read. -/
theorem seq {Q : β → Prop} {f g : α → Parse β} (hp : AgreeAt S never u p q)
    (hf : ∀ {a v b}, AgreeAt (S.cut b) Q v (f a) (g a)) : AgreeAt S Q u (p >>= f) (q >>= g) :=
  bind hp fun _ _ => hf

/-- One reader after another that keeps to the front. -/
theorem firmly {Q : β → Prop} {f g : α → Parse β} (hp : FirmAt S u p q)
    (hf : ∀ {a v}, AgreeAt S Q v (f a) (g a)) : AgreeAt S Q u (p >>= f) (q >>= g) := by
  intro hu note
  have h := hp note
  rw [Parse.bind_apply, Parse.bind_apply]
  cases hr : p ⟨u ++ S.left, note⟩ with
  | error e =>
    rw [hr] at h
    exact .inr (h.imp_right fun ⟨e', h, he'⟩ => ⟨e', by rw [h], he'⟩)
  | ok r =>
    obtain ⟨a, ⟨tokens, note'⟩⟩ := r
    rw [hr] at h
    obtain ⟨v, hv, rfl, h⟩ := h
    rw [h]
    exact (hf (hu.of_suffix hv) note').of_suffix hv

/-- A reader, and a value made of what it gave. -/
theorem bindPure {Q : β → Prop} {Q' : α → Prop} {f : α → β} (h : AgreeAt S Q' u p q)
    (hf : ∀ a, Q' a → Q (f a)) :
    AgreeAt S Q u (p >>= fun a => Pure.pure (f a)) (q >>= fun a => Pure.pure (f a)) := by
  intro hu note
  have h := h hu note
  rw [Parse.bind_apply, Parse.bind_apply]
  cases hr : p ⟨u ++ S.left, note⟩ with
  | error e =>
    rw [hr] at h
    exact h.refusal fun e' he' => by rw [he']
  | ok r =>
    obtain ⟨a, s⟩ := r
    rw [hr] at h
    rcases h with ⟨v, hv, hs, h⟩ | hpassed
    · rw [h]
      exact .inl ⟨v, hv, hs, rfl⟩
    · refine .inr ?_
      cases S with
      | closed => exact hpassed
      | semi =>
        obtain ⟨hQ, hs, a', heq, hQ', h⟩ := hpassed
        rw [h]
        exact ⟨hf a hQ, hs, f a', fun hjoint => congrArg f (heq hjoint), hf a' hQ', rfl⟩
      | ended =>
        refine ⟨hf a hpassed.1, hpassed.2.1, fun hstrict => ?_⟩
        obtain ⟨e', h, he'⟩ := hpassed.2.2 hstrict
        exact ⟨e', by rw [h], he'⟩
      | block =>
        obtain ⟨hs, h⟩ := hpassed
        rw [h]
        exact ⟨hs, rfl⟩
      | spent => exact hpassed

theorem map {Q : β → Prop} (f : α → β) (h : AgreeAt S never u p q) :
    AgreeAt S Q u (f <$> p) (f <$> q) :=
  h.bindPure fun _ => False.elim

theorem discard {Q : PUnit → Prop} (h : AgreeAt S never u p q) :
    AgreeAt S Q u (Functor.discard p) (Functor.discard q) :=
  h.bindPure fun _ => False.elim

/-- Where the first list has ended and nothing more is read from it, nothing is
said of the second one. -/
theorem of_refuses [hlax : S.Lax] (hS : S.IsEnded) (hp : Refuses p) : AgreeAt S Q [] p q := by
  intro _ note
  have hlenient := hlax.lenient hS
  cases S with
  | ended strict joint long =>
    cases hr : p ⟨[] ++ (Seam.ended strict joint long).left, note⟩ with
    | error e => exact .inl hlenient
    | ok r => exact absurd hr (hp note r.1 r.2)
  | _ => exact hS.elim

/-- A phrase needs tokens, so the block before it has not been taken. -/
theorem start (hp : Refuses p) (h : ∀ [S.Unspent], AgreeAt S Q u p q) : AgreeAt S Q u p q := by
  rcases S.unspent_or with hS | ⟨name, more, rfl⟩
  · exact h
  · rintro rfl note
    cases hr : p ⟨[] ++ (Seam.spent name more).left, note⟩ with
    | error e => exact .inl trivial
    | ok r => exact absurd hr (hp note r.1 r.2)

/-- What follows a token that was read: the block before it was not taken. -/
theorem after {Q : β → Prop} {f g : α → Parse β} (hp : TakesAt S u p q)
    (hf : ∀ [S.Unspent] {a v}, AgreeAt S Q v (f a) (g a)) : AgreeAt S Q u (p >>= f) (q >>= g) := by
  by_cases hu : u = []
  · exact start (hp.refuses hu).bind (firmly hp.firm hf)
  · rcases S.unspent_or with hS | ⟨name, more, rfl⟩
    · exact firmly hp.firm hf
    · exact fun hadmits => absurd hadmits hu

/-- Looking at the tokens ahead. -/
theorem tokens {f g : List Token → Parse α}
    (h : AgreeAt S Q u (f (u ++ S.left)) (g (u ++ S.right))) :
    AgreeAt S Q u (Parse.tokens >>= f) (Parse.tokens >>= g) := fun hu note => h hu note

/-- A test that gives one answer on both sides, and a reader for either
answer. -/
theorem ite {p' q' : Parse α} {c d : Prop} [Decidable c] [Decidable d] (hcd : d ↔ c)
    (hp : c → AgreeAt S Q u p q) (hq : ¬c → AgreeAt S Q u p' q') :
    AgreeAt S Q u (if c then p else p') (if d then q else q') := by
  by_cases hc : c
  · rw [if_pos hc, if_pos (hcd.2 hc)]
    exact hp hc
  · rw [if_neg hc, if_neg fun hd => hc (hcd.1 hd)]
    exact hq hc

/-- The same, where the answer is of no use to the readers. -/
theorem choice {p' q' : Parse α} {c d : Prop} [Decidable c] [Decidable d] (hcd : d ↔ c)
    (hp : AgreeAt S Q u p q) (hq : AgreeAt S Q u p' q') :
    AgreeAt S Q u (if c then p else p') (if d then q else q') := ite hcd (fun _ => hp) fun _ => hq

/-- One of two readers, and what follows either. -/
theorem either {Q : β → Prop} {p' q' : Parse α} {f g : α → Parse β} {c d : Prop} [Decidable c]
    [Decidable d] (hcd : d ↔ c) (hp : c → AgreeAt S never u p q)
    (hp' : ¬c → AgreeAt S never u p' q')
    (hf : ∀ {a v b}, AgreeAt (S.cut b) Q v (f a) (g a)) :
    AgreeAt S Q u (if c then p >>= f else p' >>= f) (if d then q >>= g else q' >>= g) :=
  ite hcd (fun hc => (hp hc).seq hf) fun hc => (hp' hc).seq hf

/-- A reader that is run on a condition, and what follows either way. -/
theorem when {Q : β → Prop} {p q : Parse PUnit} {f g : PUnit → Parse β} {c d : Prop}
    [Decidable c] [Decidable d] (hcd : d ↔ c) (hp : c → AgreeAt S never u p q)
    (hf : ∀ {v b}, AgreeAt (S.cut b) Q v (f ⟨⟩) (g ⟨⟩)) :
    AgreeAt S Q u (if c then p >>= f else f ⟨⟩) (if d then q >>= g else g ⟨⟩) :=
  ite hcd (fun hc => (hp hc).seq hf) fun _ => S.cut_false ▸ @hf u false

/-! ## Single tokens -/

theorem fail (c : Cause) : AgreeAt S Q u (Parse.fail c) (Parse.fail c) := by
  intro _ note
  by_cases hc : c = .tooDeep
  · exact .inr (.inl hc)
  · exact .inr (.inr ⟨_, rfl, hc⟩)

theorem failHere (c : Cause) : AgreeAt S Q u (Parse.failHere c) (Parse.failHere c) := by
  intro _ note
  by_cases hc : c = .tooDeep
  · exact .inr (.inl hc)
  · exact .inr (.inr ⟨_, rfl, hc⟩)

/-- Refusals agree, whatever they ask for. -/
theorem expect (what what' : List Expectation) :
    AgreeAt S Q u (Parse.expect what) (Parse.expect what') :=
  fun _ _ => .inr (.inr ⟨_, rfl, nofun⟩)

/-- So do failures that depend on the tokens ahead. -/
theorem failAlike {c c' : Prop} [Decidable c] [Decidable c'] {e e' : Cause} (he : e ≠ .tooDeep)
    (he' : e' ≠ .tooDeep) :
    AgreeAt S Q u (if c then Parse.fail e else Parse.fail e')
      (if c' then Parse.fail e else Parse.fail e') := by
  intro _ note
  have hright : ∃ f, (if c' then Parse.fail e else Parse.fail e' : Parse α) ⟨u ++ S.right, note⟩ =
      .error f ∧ f.cause ≠ .tooDeep := by
    split
    · exact ⟨_, rfl, he⟩
    · exact ⟨_, rfl, he'⟩
  split <;> exact .inr (.inr hright)

/-- Nothing is read behind a failure. -/
theorem bindFail {Q : β → Prop} {f g : α → Parse β} (c : Cause) :
    AgreeAt S Q u (Parse.fail c >>= f) (Parse.fail c >>= g) := fail c

theorem bindFailHere {Q : β → Prop} {f g : α → Parse β} (c : Cause) :
    AgreeAt S Q u (Parse.failHere c >>= f) (Parse.failHere c >>= g) := failHere c

theorem bindExpect {Q : β → Prop} {f g : α → Parse β} (what : List Expectation) :
    AgreeAt S Q u (Parse.expect what >>= f) (Parse.expect what >>= g) := expect what what

/-- A first reader that gives up agrees with any other. -/
theorem tooDeep : AgreeAt S Q u (Parse.fail .tooDeep) q := fun _ _ => .inr (.inl rfl)

/-- Passing over tokens before the seam. -/
theorem skip {Q : Unit → Prop} {n : ℕ} (h : n ≤ u.length) :
    AgreeAt S Q u (Parse.skip n) (Parse.skip n) := (FirmAt.skip h).agree

theorem skip_closed {Q : Unit → Prop} (n : ℕ) :
    AgreeAt .closed Q u (Parse.skip n) (Parse.skip n) := by
  intro _ note
  refine .inl ⟨u.drop n, List.drop_suffix n u, ?_, ?_⟩ <;>
    simp [Parse.skip, Seam.left, Seam.right]

/-- Passing over brackets, which may be the block of the seam. -/
theorem skip_group {Q : Unit → Prop} {d : Delimiter} (h : isGroup d (u ++ S.left) = true) :
    AgreeAt S Q u (Parse.skip 1) (Parse.skip 1) := by
  cases u with
  | cons t u => exact skip (Nat.succ_le_succ (Nat.zero_le _))
  | nil =>
    cases S with
    | block inner name more => exact fun _ _ => .inr ⟨rfl, rfl⟩
    | _ => cases h

/-- A token that is needed. -/
theorem of_takes (h : TakesAt S u p q) : AgreeAt S Q u p q := by
  by_cases hu : u = []
  · exact start (h.refuses hu) h.firm.agree
  · rcases S.unspent_or with hS | ⟨name, more, rfl⟩
    · exact h.firm.agree
    · exact fun hadmits => absurd hadmits hu

theorem symbol {Q : Unit → Prop} {y : Symbol} (hy : y ≠ .semi) :
    AgreeAt S Q u (Parse.symbol y) (Parse.symbol y) := of_takes (.symbol hy)

theorem symbol? {Q : Bool → Prop} {y : Symbol} (hy : y ≠ .semi) :
    AgreeAt S Q u (Parse.symbol? y) (Parse.symbol? y) := (FirmAt.symbol? hy).agree

theorem keyword {Q : Unit → Prop} (k : Keyword) :
    AgreeAt S Q u (Parse.keyword k) (Parse.keyword k) := of_takes (.keyword k)

theorem keyword? {Q : Bool → Prop} (k : Keyword) :
    AgreeAt S Q u (Parse.keyword? k) (Parse.keyword? k) := (FirmAt.keyword? k).agree

theorem ident {Q : String → Prop} : AgreeAt S Q u Parse.ident Parse.ident := of_takes .ident

theorem anyWord {Q : String → Prop} : AgreeAt S Q u Parse.anyWord Parse.anyWord :=
  of_takes .anyWord

theorem lifetime {Q : String → Prop} : AgreeAt S Q u Parse.lifetime Parse.lifetime :=
  of_takes .lifetime

theorem lifetime? {Q : Option String → Prop} :
    AgreeAt S Q u Parse.lifetime? Parse.lifetime? := FirmAt.lifetime?.agree

/-- A symbol that may be there, and what follows if it is. -/
theorem symbolThen {y : Symbol} {p' q' : Parse α} (hy : y ≠ .semi)
    (hp : ∀ [S.Unspent] {v}, AgreeAt S Q v p q) (hp' : ∀ {v}, AgreeAt S Q v p' q') :
    AgreeAt S Q u (Parse.symbol? y >>= fun b => if b = true then p else p')
      (Parse.symbol? y >>= fun b => if b = true then q else q') := by
  rcases S.unspent_or with hS | ⟨name, more, rfl⟩
  · exact firmly (.symbol? hy) (choice Iff.rfl hp hp')
  · rintro rfl note
    have hleft : isSymbol y [] = false := by cases y <;> rfl
    have hright : isSymbol y (.leaf (.ident name) :: more) = false := by cases y <;> rfl
    simp only [Parse.bind_apply, Parse.symbol?_apply, Seam.left, Seam.right, List.nil_append,
      hleft, hright]
    exact hp' rfl note

theorem keywordThen {k : Keyword} {p' q' : Parse α}
    (hp : ∀ [S.Unspent] {v}, AgreeAt S Q v p q) (hp' : ∀ {v}, AgreeAt S Q v p' q') :
    AgreeAt S Q u (Parse.keyword? k >>= fun b => if b = true then p else p')
      (Parse.keyword? k >>= fun b => if b = true then q else q') := by
  rcases S.unspent_or with hS | ⟨name, more, rfl⟩
  · exact firmly (.keyword? k) (choice Iff.rfl hp hp')
  · rintro rfl note
    exact hp' rfl note

theorem anyGroup {Q : Delimiter × List Token → Prop} :
    AgreeAt S Q u Parse.anyGroup Parse.anyGroup := by
  unfold Parse.anyGroup
  refine tokens ?_
  rcases u with _ | ⟨(_ | _ | _ | _ | _) | _, u⟩
  · cases S with
    | block inner name more => exact fun _ _ => .inr ⟨rfl, rfl⟩
    | _ => exact expect _ _
  case cons.group => exact .bind (.skip (Nat.le_add_left 1 _)) fun _ _ => .pure _
  all_goals exact .expect _ _

/-- Reading brackets. What is between them ends with them on both sides. -/
theorem within {d : Delimiter} (h : ∀ {v}, AgreeAt .closed never v p q) :
    AgreeAt S Q u (Parse.within d p) (Parse.within d q) := by
  rcases u with _ | ⟨l | ⟨d', inner⟩, u⟩
  · cases S with
    | block inner name more =>
      intro _ note
      show Agreeing _ _ _ (Parse.within d p ⟨[.group .brace inner], note⟩) _
      rcases within_cases d .brace h note with ⟨a, note', hp, hq⟩ | ⟨e, hp, -⟩
      · rw [hp]
        exact .inr ⟨rfl, hq _⟩
      · rw [hp]
        exact .inl trivial
    | _ => exact expect _ _
  · exact expect _ _
  · exact (FirmAt.within h).agree

/-- Reading, and keeping the tokens that were read. -/
theorem spanned {Q : α × List Token → Prop} {Q' : α → Prop} (h : AgreeAt S Q' u p q)
    (hQ : ∀ a ts, Q' a → Q (a, ts)) : AgreeAt S Q u (Parse.spanned p) (Parse.spanned q) := by
  intro hu note
  have h := h hu note
  simp only [Parse.spanned, Parse.tokens, Parse.bind_apply]
  cases hr : p ⟨u ++ S.left, note⟩ with
  | error e =>
    rw [hr] at h
    exact h.refusal fun e' he' => by rw [he']
  | ok r =>
    obtain ⟨a, s⟩ := r
    rw [hr] at h
    rcases h with ⟨v, hv, hs, h⟩ | hpassed
    · rw [h]
      refine .inl ⟨v, hv, hs, ?_⟩
      have hlen : u.length - v.length ≤ u.length := Nat.sub_le _ _
      simp [hs, Nat.add_sub_add_right, List.take_append_of_le_length hlen]
      rfl
    · refine .inr ?_
      cases S with
      | closed => exact hpassed
      | semi joint joint' short long le =>
        obtain ⟨hQ', hs, a', heq, hQ'', h⟩ := hpassed
        rw [h]
        refine ⟨hQ a _ hQ', hs, _, fun hjoint => ?_, hQ a' _ hQ'', rfl⟩
        have hcount : ∀ n, u.length + (n + 1) - n = u.length + 1 := by omega
        simp [hs, heq hjoint, hjoint, Seam.left, Seam.right, hcount, List.take_append]
      | ended =>
        refine ⟨hQ a _ hpassed.1, hpassed.2.1, fun hstrict => ?_⟩
        obtain ⟨e', h, he'⟩ := hpassed.2.2 hstrict
        exact ⟨e', by rw [h], he'⟩
      | block inner name more =>
        obtain ⟨hs, h⟩ := hpassed
        rw [h]
        refine ⟨hs, ?_⟩
        have hcount : u.length + (more.length + 1 + 1) - (more.length + 1) = u.length + 1 := by omega
        simp [hs, Seam.left, Seam.right, hcount, List.take_append]
        rfl
      | spent => exact hpassed

theorem span {Q : List Token → Prop} (h : AgreeAt S never u p q) :
    AgreeAt S Q u (Parse.span p) (Parse.span q) := by
  unfold Parse.span
  exact (h.spanned (Q := never) fun _ _ => id).bind fun _ _ => pure _

/-- Reading that may be taken back. -/
theorem attempt {Q : Option α → Prop} (h : AgreeAt .closed never u p q) :
    AgreeAt .closed Q u (Parse.attempt p) (Parse.attempt q) := by
  intro hu note
  have h := h hu note
  simp only [Parse.attempt]
  cases hr : p ⟨u ++ Seam.closed.left, note⟩ with
  | error e =>
    rw [hr] at h
    by_cases he : e.cause = .tooDeep
    · simp only [if_pos he]
      exact .inr (.inl he)
    · rcases h with h | h | ⟨e', h, he'⟩
      · exact h.elim
      · exact absurd h he
      · simp only [if_neg he, h, if_neg he']
        exact .inl ⟨u, List.suffix_refl u, rfl, rfl⟩
  | ok r =>
    obtain ⟨a, s⟩ := r
    rw [hr] at h
    rcases h with ⟨v, hv, hs, h⟩ | hpassed
    · rw [h]
      exact .inl ⟨v, hv, hs, rfl⟩
    · exact hpassed.elim

/-- Reading a literal that is there. -/
theorem literal {Q : Unit → Prop} (h : isLiteral (u ++ S.left) = true) :
    AgreeAt S Q u Parse.literal Parse.literal := by
  unfold Parse.literal
  refine tokens ?_
  cases u with
  | nil => cases S <;> cases h
  | cons t u =>
    rcases t with (_ | _ | _ | ⟨c, joint⟩ | _) | _
    case leaf.punct =>
      refine skip ?_
      rw [List.cons_append, isLiteral_punct, Bool.and_eq_true] at h
      exact Nat.succ_le_succ (isNumber_pos h.2)
    all_goals exact skip (Nat.succ_le_succ (Nat.zero_le _))

/-! ## Repetition -/

theorem repeatIn {Q : List α → Prop} {more : List Token → Bool}
    (hmore : ∀ v {b : Bool}, more (v ++ (S.cut b).right) = more (v ++ (S.cut b).left))
    (h : ∀ v {b : Bool}, AgreeAt (S.cut b) never v p q) {n m : ℕ} (hnm : n ≤ m) {b : Bool} :
    AgreeAt (S.cut b) Q u (Parse.repeatIn more p n) (Parse.repeatIn more q m) := by
  induction n generalizing Q u m b with
  | zero => exact tooDeep
  | succ n ih =>
    obtain ⟨m, rfl⟩ := Nat.exists_eq_add_of_lt hnm
    unfold Parse.repeatIn
    refine .tokens <| .ite (by rw [hmore]) (fun _ => .bind (h _) fun _ _ {_} => ?_) fun _ => .pure _
    rw [Seam.cut_cut]
    exact .bind (ih (Nat.le_add_right n m)) fun _ _ => .pure _

theorem repeatWhile {Q : List α → Prop} {more : List Token → Bool}
    (hmore : ∀ v {b : Bool}, more (v ++ (S.cut b).right) = more (v ++ (S.cut b).left))
    (h : ∀ v {b : Bool}, AgreeAt (S.cut b) never v p q) :
    AgreeAt S Q u (Parse.repeatWhile more p) (Parse.repeatWhile more q) := by
  refine tokens ?_
  have hall := repeatIn (Q := Q) (u := u) hmore h (S.rounds_le u) (b := false)
  rwa [Seam.cut_false] at hall

/-- To the end of the tokens, where both lists end. -/
theorem repeatAll {Q : List α → Prop} (h : ∀ {v}, AgreeAt .closed never v p q) :
    AgreeAt .closed Q u (Parse.repeatAll p) (Parse.repeatAll q) :=
  repeatWhile (fun _ => rfl) fun _ => h

/-- Rounds with a separator in between. They may stop at the semicolon where the
first list ends, or come to that end, if nothing more can be read there. -/
theorem separatedIn {Q : List α → Prop} {stop : List Token → Bool} {sep sep' : Parse Unit}
    (hstop : ∀ v {b : Bool}, stop (v ++ (S.cut b).right) = stop (v ++ (S.cut b).left) ∨
      S.IsEnded ∧ S.Lax ∧ v = [] ∧ Refuses p)
    (hend : S.IsEnded → stop [] = false ∧ Refuses sep)
    (hsep : ∀ v {b : Bool}, AgreeAt (S.cut b) never v sep sep')
    (h : ∀ v {b : Bool}, AgreeAt (S.cut b) (fun _ => S.IsEnded) v p q) {n m : ℕ} (hnm : n ≤ m)
    {b : Bool} :
    AgreeAt (S.cut b) Q u (Parse.separatedIn stop sep p n) (Parse.separatedIn stop sep' q m) := by
  induction n generalizing Q u m b with
  | zero => exact tooDeep
  | succ n ih =>
    obtain ⟨m, rfl⟩ := Nat.exists_eq_add_of_lt hnm
    unfold Parse.separatedIn
    have hrefuses : S.IsEnded → ∀ a : α, Refuses (Parse.tokens >>= fun ts =>
        if stop ts then Pure.pure [a]
        else sep >>= fun _ => Parse.separatedIn stop sep p n >>= fun as => Pure.pure (a :: as)) := by
      intro hS a note as s
      show (if stop [] then _ else _ : Parse (List α)) ⟨[], note⟩ ≠ _
      rw [(hend hS).1]
      exact (hend hS).2.bind note as s
    refine .tokens ?_
    rcases @hstop u b with heq | ⟨hS, hlax, rfl, hp⟩
    · refine .ite (by rw [heq]) (fun _ => .pure _) fun _ => .bind_refuses (h u)
        (fun a hS => ⟨(Seam.isEnded_cut b).2 hS, hrefuses hS a⟩) fun a v {c} => ?_
      rw [Seam.cut_cut]
      rcases @hstop v (b || c) with heq | ⟨hS, hlax, rfl, hp⟩
      · refine .tokens (.ite (by rw [heq]) (fun _ => .pure _) fun _ => .bind (hsep v) fun _ _ {_} => ?_)
        rw [Seam.cut_cut]
        exact .bind (ih (Nat.le_add_right n m)) fun _ _ => .pure _
      · exact .of_refuses ((Seam.isEnded_cut _).2 hS) (hrefuses hS a)
    · refine .of_refuses ((Seam.isEnded_cut _).2 hS) ?_
      rw [List.nil_append, Seam.left_cut hS, (hend hS).1]
      exact hp.bind

theorem separated {Q : List α → Prop} {stop : List Token → Bool} {sep sep' : Parse Unit}
    (hstop : ∀ v {b : Bool}, stop (v ++ (S.cut b).right) = stop (v ++ (S.cut b).left) ∨
      S.IsEnded ∧ S.Lax ∧ v = [] ∧ Refuses p)
    (hend : S.IsEnded → stop [] = false ∧ Refuses sep)
    (hsep : ∀ v {b : Bool}, AgreeAt (S.cut b) never v sep sep')
    (h : ∀ v {b : Bool}, AgreeAt (S.cut b) (fun _ => S.IsEnded) v p q) :
    AgreeAt S Q u (Parse.separated stop sep p) (Parse.separated stop sep' q) := by
  refine tokens ?_
  have hall := separatedIn (Q := Q) (u := u) hstop hend hsep h (S.rounds_le u) (b := false)
  rwa [Seam.cut_false] at hall

theorem commas {Q : List α → Prop} (h : ∀ {v}, AgreeAt .closed never v p q) :
    AgreeAt .closed Q u (Parse.commas p) (Parse.commas q) :=
  separated (S := .closed) (fun _ => .inl rfl) False.elim (fun _ => symbol (by decide)) fun _ =>
    h.closed

/-- No phrase is read at a semicolon, however deep the rules go. -/
def FailsAtSemi (q : Parse α) : Prop :=
  ∀ joint long note, ∃ e, q ⟨.leaf (.punct ';' joint) :: long, note⟩ = .error e ∧
    e.cause ≠ .tooDeep

/-- Rounds that go on behind a link. They may end with the first list where the
second one goes on, if `Q` allows that. -/
theorem linkedIn {Q : List α → Prop} {stop : List Token → Bool} {link : Symbol}
    (hlink : link ≠ .semi)
    (hstop : ∀ v {b : Bool} [(S.cut b).Unspent],
      stop (v ++ (S.cut b).right) = stop (v ++ (S.cut b).left) ∨
        S.IsEnded ∧ v = [] ∧ stop [] = true ∧ (∀ as, Q as) ∧
          stop (v ++ (S.cut b).right) = false ∧ FailsAtSemi q)
    (h : ∀ v {b : Bool}, AgreeAt (S.cut b) never v p q) {n m : ℕ} (hnm : n ≤ m) {b : Bool}
    [(S.cut b).Unspent] :
    AgreeAt (S.cut b) Q u (Parse.linkedIn stop link p n) (Parse.linkedIn stop link q m) := by
  induction n generalizing Q u m b with
  | zero => exact tooDeep
  | succ n ih =>
    obtain ⟨m, rfl⟩ := Nat.exists_eq_add_of_lt hnm
    unfold Parse.linkedIn
    refine .tokens ?_
    rcases hstop u (b := b) with heq | ⟨hS, rfl, hnil, hQ, hright, hq⟩
    · refine .ite (by rw [heq]) (fun _ => .pure _) fun _ => .bind (h _) fun a _ {_} => ?_
      rw [Seam.cut_cut]
      refine .symbolThen hlink (.bindPure (ih (fun v {b} _ => ?_) (Nat.le_add_right n m))
        fun _ => id) (.pure _)
      rcases hstop v (b := b) with heq | ⟨hS, hv, hnil, hQ, hfails⟩
      · exact .inl heq
      · exact .inr ⟨hS, hv, hnil, fun as => hQ (a :: as), hfails⟩
    · intro _ note
      rw [List.nil_append, Seam.left_cut hS, if_pos hnil, hright]
      cases S with
      | ended strict joint long =>
        obtain ⟨e', h, he'⟩ := hq joint long note
        refine .inr ⟨hQ [], rfl, fun _ => ⟨e', ?_, he'⟩⟩
        show (q >>= _) ⟨.leaf (.punct ';' joint) :: long, note⟩ = _
        rw [Parse.bind_apply, h]
      | _ => exact hS.elim

theorem linked [hS : S.Unspent] {Q : List α → Prop} {stop : List Token → Bool} {link : Symbol}
    (hlink : link ≠ .semi)
    (hstop : ∀ v {b : Bool} [(S.cut b).Unspent],
      stop (v ++ (S.cut b).right) = stop (v ++ (S.cut b).left) ∨
        S.IsEnded ∧ v = [] ∧ stop [] = true ∧ (∀ as, Q as) ∧
          stop (v ++ (S.cut b).right) = false ∧ FailsAtSemi q)
    (h : ∀ v {b : Bool}, AgreeAt (S.cut b) never v p q) :
    AgreeAt S Q u (Parse.linked stop link p) (Parse.linked stop link q) := by
  refine tokens ?_
  have hfalse : (S.cut false).Unspent := by rwa [Seam.cut_false]
  have hall := linkedIn (Q := Q) (u := u) hlink hstop h (S.rounds_le u) (b := false)
  rwa [Seam.cut_false] at hall

/-! ## The semicolon of the seam -/

/-- Reading a semicolon, which may be that of the seam. -/
theorem symbol_semi [S.Lax] {T : Seam} [hT : S.From T] {Q : Unit → Prop} (hQ : T.IsSemi → Q ()) :
    AgreeAt S Q u (Parse.symbol .semi) (Parse.symbol .semi) := by
  by_cases hended : S.IsEnded ∧ u = []
  · obtain ⟨hS, rfl⟩ := hended
    exact of_refuses hS nofun
  · unfold Parse.symbol
    refine tokens ?_
    rw [isSymbol_semi_right fun hS hu => hended ⟨hS, hu⟩]
    split
    case isTrue h =>
      rcases eq_or_of_isSymbol_semi h with
        ⟨joint, v, rfl⟩ | ⟨rfl, joint, joint', short, long, le, rfl⟩
      · exact skip (Nat.succ_le_succ (Nat.zero_le _))
      · have hQ := hQ (hT.isSemi trivial)
        exact fun _ _ => .inr ⟨hQ, rfl, _, fun _ => rfl, hQ, rfl⟩
    case isFalse => exact fail _

/-- A test for the semicolon, where nothing else can be read at the end of the
first list. -/
theorem ite_semi [S.Lax] {p' q' : Parse α} (hp : AgreeAt S Q u p q) (hp' : AgreeAt S Q u p' q')
    (hrefuses : S.IsEnded → Refuses p') :
    AgreeAt S Q u (if isSymbol .semi (u ++ S.left) then p else p')
      (if isSymbol .semi (u ++ S.right) then q else q') := by
  by_cases hended : S.IsEnded ∧ u = []
  · obtain ⟨hS, rfl⟩ := hended
    refine of_refuses hS ?_
    rw [List.nil_append, ← S.cut_false, Seam.left_cut hS]
    exact hrefuses hS
  · exact ite (by rw [isSymbol_semi_right fun hS hu => hended ⟨hS, hu⟩]) (fun _ => hp) fun _ => hp'

/-- Reading a semicolon if one is there, which may be that of the seam; it
is the last thing that is read then. -/
theorem symbol?_semi [S.Lax] {T : Seam} [hT : S.From T] {Q : β → Prop} {f g : Bool → Parse β} {b : β}
    (hf : f true = Pure.pure b) (hg : g true = Pure.pure b) (hQ : T.IsSemi → Q b)
    (hrefuses : S.IsEnded → Refuses (f false)) (h : AgreeAt S Q u (f false) (g false)) :
    AgreeAt S Q u (Parse.symbol? .semi >>= f) (Parse.symbol? .semi >>= g) := by
  by_cases hended : S.IsEnded ∧ u = []
  · obtain ⟨hS, rfl⟩ := hended
    exact of_refuses hS (hrefuses hS)
  · intro hu note
    simp only [Parse.bind_apply, Parse.symbol?_apply,
      isSymbol_semi_right fun hS hu => hended ⟨hS, hu⟩]
    by_cases hsemi : isSymbol .semi (u ++ S.left) = true
    · simp only [if_pos hsemi, hf, hg]
      rcases eq_or_of_isSymbol_semi hsemi with
        ⟨joint, v, rfl⟩ | ⟨rfl, joint, joint', short, long, le, rfl⟩
      · exact .inl ⟨v, List.suffix_cons _ v, rfl, rfl⟩
      · have hQ := hQ (hT.isSemi trivial)
        exact .inr ⟨hQ, rfl, b, fun _ => rfl, hQ, rfl⟩
    · simp only [if_neg hsemi]
      exact h hu note

/-- Where the lists part at their end, any symbol is read alike. -/
theorem symbol_closed {Q : Unit → Prop} (y : Symbol) :
    AgreeAt .closed Q u (Parse.symbol y) (Parse.symbol y) := by
  by_cases hy : y = .semi
  · subst hy
    exact symbol_semi (T := .closed) False.elim
  · exact symbol hy

theorem symbol?_closed {Q : Bool → Prop} (y : Symbol) :
    AgreeAt .closed Q u (Parse.symbol? y) (Parse.symbol? y) := by
  by_cases hy : y = .semi
  · subst hy
    have h : AgreeAt .closed Q u (Parse.symbol? .semi >>= Pure.pure)
        (Parse.symbol? .semi >>= Pure.pure) :=
      symbol?_semi (T := .closed) rfl rfl False.elim False.elim (pure _)
    rwa [bind_pure] at h
  · exact symbol? hy

end AgreeAt

/-! ## Looking ahead -/

/-- Looking ahead by a reader that keeps to the front: what follows may depend
on what it would read, and on the tokens behind that. -/
theorem AgreeAt.lookAhead {Q : β → Prop} {p q : Parse α} {f g : Option (α × List Token) → Parse β}
    (h : FirmAt S u p q) (hnone : AgreeAt S Q u (f none) (g none))
    (hsome : ∀ a v, AgreeAt S Q u (f (some (a, v ++ S.left))) (g (some (a, v ++ S.right)))) :
    AgreeAt S Q u (Parse.lookAhead p >>= f) (Parse.lookAhead q >>= g) := by
  intro hu note
  have h := h note
  simp only [Parse.bind_apply, Parse.lookAhead]
  cases hr : p ⟨u ++ S.left, note⟩ with
  | error e =>
    rw [hr] at h
    by_cases he : e.cause = .tooDeep
    · simp only [if_pos he]
      exact .inr (.inl he)
    · rcases h with h | ⟨e', h, he'⟩
      · exact absurd h he
      · simp only [if_neg he, h, if_neg he']
        exact hnone hu note
  | ok r =>
    obtain ⟨a, s⟩ := r
    rw [hr] at h
    obtain ⟨v, -, hs, h⟩ := h
    simp only [h, hs]
    exact hsome a v hu note

/-! ## Rules -/

/-- Two sets of rules agree. Statements and declarations stand between
brackets only, so they part at their end. -/
structure Rules.Agree (R R' : Rules) : Prop where
  expr : ∀ S Q u structs, AgreeAt S Q u (R.expr structs) (R'.expr structs)
  unary : ∀ S Q u structs, AgreeAt S Q u (R.unary structs) (R'.unary structs)
  climb : ∀ S Q u lhs structs base,
    AgreeAt S Q u (R.climb lhs structs base) (R'.climb lhs structs base)
  trailers : ∀ S Q u e, AgreeAt S Q u (R.trailers e) (R'.trailers e)
  early : ∀ S Q u, AgreeAt S Q u R.early R'.early
  type : ∀ S Q u plus, AgreeAt S Q u (R.type plus) (R'.type plus)
  bound : ∀ S Q u capture const, AgreeAt S Q u (R.bound capture const) (R'.bound capture const)
  bound_refuses : ∀ capture const, Refuses (R.bound capture const)
  unary_refuses : ∀ structs, Refuses (R.unary structs)
  early_refuses : Refuses R.early
  binder : ∀ S Q u, AgreeAt S Q u R.binder R'.binder
  pattern : ∀ S Q u, AgreeAt S Q u R.pattern R'.pattern
  stmts : ∀ Q u, AgreeAt .closed Q u R.stmts R'.stmts
  item : ∀ Q u, AgreeAt .closed Q u R.item R'.item
  useTree : ∀ S Q u root, AgreeAt S Q u (R.useTree root) (R'.useTree root)
  namedFields : ∀ S Q u, AgreeAt S Q u R.namedFields R'.namedFields

/-- The rules that follow no phrase agree with all rules. -/
theorem Rules.agree_none (R : Rules) : Rules.none.Agree R where
  expr _ _ _ _ := AgreeAt.tooDeep
  unary _ _ _ _ := AgreeAt.tooDeep
  climb _ _ _ _ _ _ := AgreeAt.tooDeep
  trailers _ _ _ _ := AgreeAt.tooDeep
  early _ _ _ := AgreeAt.tooDeep
  type _ _ _ _ := AgreeAt.tooDeep
  bound _ _ _ _ _ := AgreeAt.tooDeep
  bound_refuses _ _ := nofun
  unary_refuses _ := nofun
  early_refuses := nofun
  binder _ _ _ := AgreeAt.tooDeep
  pattern _ _ _ := AgreeAt.tooDeep
  stmts _ _ := AgreeAt.tooDeep
  item _ _ := AgreeAt.tooDeep
  useTree _ _ _ _ := AgreeAt.tooDeep
  namedFields _ _ _ := AgreeAt.tooDeep

end Grammar

end ProcessCompiler
