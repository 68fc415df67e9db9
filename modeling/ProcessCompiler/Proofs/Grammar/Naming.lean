import ProcessCompiler.Proofs.Grammar.EarlyExpression
import ProcessCompiler.Proofs.Scan.Words
/-!
# Where names come from

The segments of a path take their names from the identifiers among the tokens, or
from five reserved words. `Gives W Q p` says of a reader that it gives values with
a property, from tokens whose identifiers are all in `W`; since every reader of the
grammar leaves an end of its tokens, this can be followed from one reader to the
next.
-/

namespace ProcessCompiler

namespace Grammar

open Parse

variable {α β : Type} {W : String → Prop} {Q : α → Prop} {p : Parse α} {R : Rules}
  {ts rest inner : List Token} {d : Delimiter}

/-! ## Tokens with known names -/

/-- The identifiers among the tokens are all in `W`. -/
def Known (W : String → Prop) (ts : List Token) : Prop := ∀ n ∈ Token.identsOf ts, W n

theorem Known.of_suffix (h : Known W ts) (hrest : rest <:+ ts) : Known W rest := by
  obtain ⟨u, rfl⟩ := hrest
  induction u with
  | nil => exact h
  | cons t u ih => exact ih fun n hn => h n (List.mem_append_right _ hn)

theorem Known.inside (h : Known W (.group d inner :: ts)) : Known W inner := fun n hn =>
  h n (List.mem_append_left _ hn)

theorem Known.head {n : String} (h : Known W (.leaf (.ident n) :: ts)) : W n :=
  h n List.mem_cons_self

/-! ## Readers -/

/-- What a reader leaves is an end of its tokens. -/
def Leaves (p : Parse α) : Prop := ∀ st a st', p st = .ok (a, st') → st'.tokens <:+ st.tokens

theorem Leaves.of_agree {q : Parse α} (h : ∀ u, AgreeAt .closed Q u p q) : Leaves p :=
  fun ⟨u, _⟩ _ _ hp => ((h u).ok_suffix hp).1

/-- From tokens with known names, a reader gives values with a property. -/
def Gives (W : String → Prop) (Q : α → Prop) (p : Parse α) : Prop :=
  ∀ st a st', Known W st.tokens → p st = .ok (a, st') → Q a

namespace Gives

theorem of_yields (h : Yields Q p) : Gives W Q p := fun st a st' _ hp => h st a st' hp

theorem pure {a : α} (h : Q a) : Gives W Q (Pure.pure a) := of_yields (.pure h)

theorem bind {T : β → Prop} {f : α → Parse β} (hp : Gives W Q p) (hleaves : Leaves p)
    (hf : ∀ a, Q a → Gives W T (f a)) : Gives W T (p >>= f) := by
  intro st b st' hst h
  obtain ⟨a, st₁, hread, h⟩ := bind_ok h
  exact hf a (hp _ _ _ hst hread) _ _ _ (hst.of_suffix (hleaves _ _ _ hread)) h

/-- What was read first does not matter. -/
theorem after {T : β → Prop} {f : α → Parse β} (hleaves : Leaves p) (hf : ∀ a, Gives W T (f a)) :
    Gives W T (p >>= f) :=
  bind (Q := fun _ => True) (fun _ _ _ _ _ => trivial) hleaves fun a _ => hf a

theorem bindPure {T : β → Prop} {f : α → β} (hp : Gives W Q p) (hf : ∀ a, Q a → T (f a)) :
    Gives W T (p >>= fun a => Pure.pure (f a)) := by
  intro st b st' hst h
  obtain ⟨a, st₁, hread, h⟩ := bind_ok h
  cases h
  exact hf a (hp _ _ _ hst hread)

theorem tokens {f : List Token → Parse α} (hf : ∀ ts, Gives W Q (f ts)) :
    Gives W Q (Parse.tokens >>= f) := fun st a st' hst h => hf st.tokens st a st' hst h

theorem ite {c : Prop} [Decidable c] {q : Parse α} (hp : Gives W Q p) (hq : Gives W Q q) :
    Gives W Q (if c then p else q) := by
  split
  · exact hp
  · exact hq

theorem tooDeep : Gives W Q (Parse.fail .tooDeep) := fun _ _ _ _ h => nomatch h

theorem within (h : Gives W Q p) : Gives W Q (Parse.within d p) := by
  rintro ⟨ts, note⟩ a st' hst ha
  unfold Parse.within at ha
  split at ha
  · rename_i hts
    obtain rfl : ts = _ := hts
    split at ha
    · split at ha
      · cases ha
        exact h _ _ _ hst.inside ‹_›
      · cases ha
    · cases ha
  · cases ha

theorem separatedIn {stop : List Token → Bool} {separator : Parse Unit} (h : Gives W Q p)
    (hleaves : Leaves p) (hseparator : Leaves separator) (k : ℕ) :
    Gives W (∀ a ∈ ·, Q a) (Parse.separatedIn stop separator p k) := by
  induction k with
  | zero => exact tooDeep
  | succ k ih =>
    refine tokens fun ts => ite (pure nofun) (bind h hleaves fun a ha => tokens fun ts =>
      ite (pure ?_) (after hseparator fun _ => bindPure ih fun as has => ?_))
    · simpa using ha
    · simpa using ⟨ha, has⟩

theorem commas (h : Gives W Q p) (hleaves : Leaves p) :
    Gives W (∀ a ∈ ·, Q a) (Parse.commas p) :=
  tokens fun _ => separatedIn h hleaves (.of_agree (Q := never) fun _ => .symbol (by decide)) _

end Gives

/-! ## Paths -/

/-- The reserved words that a path may hold in the place of names. -/
def pathWords : List Keyword := [.self_, .upperSelf, .super_, .crate_, .try_]

theorem gives_ident : Gives W W ident := by
  rintro ⟨ts, note⟩ n st' hst h
  unfold ident at h
  obtain ⟨us, st₁, htokens, h⟩ := bind_ok h
  cases htokens
  dsimp only at h
  split at h
  · cases h
    exact hst.head
  · cases h
  · cases h

theorem exists_of_isKeywordOf {ks : List Keyword} (h : isKeywordOf ks ts = true) :
    ∃ k ∈ ks, ∃ x, ts = .leaf (.keyword k) :: x := by
  obtain ⟨k, hk, h⟩ := List.any_eq_true.1 h
  exact ⟨k, hk, exists_of_isKeyword h⟩

/-- The name of a segment is an identifier, or one of the reserved words. -/
theorem gives_segment (hW : ∀ k ∈ pathWords, W k.text) (inExpr : Bool) :
    Gives W (fun s => W s.name) (segment R inExpr) := by
  rintro ⟨ts, note⟩ s st' hst h
  obtain ⟨us, st₁, htokens, h⟩ := bind_ok h
  cases htokens
  dsimp only at h
  split at h
  · rename_i hword
    obtain ⟨k, hk, x, rfl⟩ := exists_of_isKeywordOf hword
    cases h
    exact hW k (by revert hk; simp only [pathWords]; cases k <;> decide)
  · -- The name is read first, and kept whatever follows it.
    have hkeep : ∀ name, W name → Yields (fun s : Segment => W s.name) (tokens >>= fun ts =>
        if startsAngle inExpr ts = true then
          (span do discard (symbol? .colon2); angleArguments R) >>= fun arguments =>
            pure ⟨name, .angle arguments⟩
        else pure ⟨name, .absent⟩) :=
      fun name hname => .bind <| .ite (.bind <| .pure hname) (.pure hname)
    split at h
    · rename_i hself
      obtain ⟨x, rfl⟩ := exists_of_isKeyword hself
      obtain ⟨name, st₁, hname, h⟩ := bind_ok h
      cases hname
      exact hkeep _ (hW .upperSelf (by decide)) _ _ _ h
    · obtain ⟨name, st₁, hname, h⟩ := bind_ok h
      exact hkeep name (gives_ident _ _ _ hst hname) _ _ _ h

theorem gives_moreSegments (hW : ∀ k ∈ pathWords, W k.text) (h : R.Agree R) (inExpr : Bool) (k : ℕ) :
    Gives W (∀ s ∈ ·, W s.name) (moreSegments R inExpr k) := by
  induction k with
  | zero => exact .tooDeep
  | succ k ih =>
    refine .tokens fun _ => .ite (.after (.of_agree (Q := never) fun _ => .symbol (by decide)) fun _ =>
      .bind (gives_segment hW inExpr) (.of_agree (Q := never) fun _ => segment_agree h) fun s hs =>
        .bindPure ih fun more hmore => ?_) (.pure nofun)
    simpa using ⟨hs, hmore⟩

/-- **The names of a path** are identifiers or reserved words, unless the path has
a qualifier. -/
theorem gives_path (hW : ∀ k ∈ pathWords, W k.text) (h : R.Agree R) (inExpr : Bool) :
    Gives W (fun p => p.qualifier = none → ∀ s ∈ p.segments, W s.name) (path R inExpr) := by
  refine .tokens fun _ => .ite (.of_yields ?_) ?_
  · exact .bind <| .bind <| .bind <| .bind <| .bind <| .bind <| .pure nofun
  · refine .after (.of_agree (Q := never) fun _ => .symbol? (by decide)) fun _ =>
      .bind (gives_segment hW inExpr) (.of_agree (Q := never) fun _ => segment_agree h) fun s hs =>
        .bindPure (Q := fun more => ∀ s ∈ more, W s.name)
          (.tokens fun _ => gives_moreSegments hW h inExpr _) fun more hmore _ => ?_
    simpa using ⟨hs, hmore⟩

end Grammar

end ProcessCompiler
