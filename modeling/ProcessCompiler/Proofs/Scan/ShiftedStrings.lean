import ProcessCompiler.Proofs.Program.Shifting
import ProcessCompiler.Proofs.Scan.Meaning
/-!
# Strings in a shifted text

A string of a text is a string of the shifted text as well, with the same
suffix. Its value is the same if no line ends in it but behind a backslash.
Otherwise the value is another one: the shifted string has fewer line feeds, or
behind its last one there are blanks that the string did not have
(`Apart`).
-/

namespace ProcessCompiler

namespace Grammar

namespace Scan

open Text Layout

variable {w : ℕ} {m u x x' rest : List Char} {c : Char} {f : Flavour} {s : StringState}
variable {p p' v v' : List UInt8}

/-! ## Values that differ -/

/-- The values end alike, with a line feed before that in one and a blank in the
other. -/
def Parted (v v' : List UInt8) : Prop := ∃ p p' q, v = p ++ 10 :: q ∧ v' = p' ++ 32 :: q

/-- The values differ: the second one has fewer line feeds, or a blank in the
place of one. -/
def Apart (v v' : List UInt8) : Prop := v'.count 10 < v.count 10 ∨ Parted v v'

theorem Parted.ne (h : Parted v v') : v ≠ v' := by
  rintro rfl
  obtain ⟨p, p', q, rfl, heq⟩ := h
  have hsplit : p ++ [10] = p' ++ [32] :=
    List.append_cancel_right (show p ++ [10] ++ q = p' ++ [32] ++ q by simpa using heq)
  have hlast := congrArg List.getLast? hsplit
  simp at hlast

theorem Parted.append (h : Parted v v') (p p' : List UInt8) : Parted (p ++ v) (p' ++ v') := by
  obtain ⟨a, a', q, rfl, rfl⟩ := h
  exact ⟨p ++ a, p' ++ a', q, by simp, by simp⟩

/-- A line end that turns into line feeds and blanks makes a difference. -/
theorem parted_turn (hw : 0 < w) (h : v' = v ∨ Parted v v') (p p' : List UInt8) :
    Parted (p ++ 10 :: v) (p' ++ List.replicate w 32 ++ v') := by
  rcases h with rfl | h
  · obtain ⟨n, rfl⟩ := Nat.exists_eq_add_one_of_ne_zero (Nat.ne_of_gt hw)
    refine ⟨p, p' ++ List.replicate n 32, v', rfl, ?_⟩
    rw [List.replicate_succ']
    simp
  · have happend := h.append (p ++ [10]) (p' ++ List.replicate w 32)
    rwa [List.append_assoc, List.singleton_append] at happend

/-- What becomes of a value with the line ends of a text in it: it stays as it is
only if there are none. -/
structure Revalued (u : List Char) (v v' : List UInt8) : Prop where
  same : '\n' ∉ u → v' = v
  parted : '\n' ∈ u → Parted v v'

theorem Revalued.cons (h : Revalued u v v') (hc : c ≠ '\n') (p : List UInt8) :
    Revalued (c :: u) (p ++ v) (p ++ v') := by
  constructor
  · intro hmem
    rw [h.same fun hu => hmem (List.mem_cons_of_mem _ hu)]
  · intro hmem
    exact (h.parted ((List.mem_cons.1 hmem).resolve_left (Ne.symm hc))).append p p

/-- The next line begins behind other bytes. -/
theorem Revalued.turn (hw : 0 < w) (h : Revalued u v v') (hm : '\n' ∈ m) (p p' : List UInt8) :
    Revalued (m ++ u) (p ++ 10 :: v) (p' ++ List.replicate w 32 ++ v') := by
  refine ⟨fun hmem => absurd (List.mem_append_left _ hm) hmem, fun _ => parted_turn hw ?_ p p'⟩
  by_cases hmem : '\n' ∈ u
  · exact .inr (h.parted hmem)
  · exact .inl (h.same hmem)

theorem Apart.ne (h : Apart v v') : v ≠ v' := by
  rintro rfl
  rcases h with h | h
  · exact lt_irrefl _ h
  · exact h.ne rfl

theorem Apart.append (h : Apart v v') (hp : p'.count 10 ≤ p.count 10) : Apart (p ++ v) (p' ++ v') := by
  rcases h with h | h
  · left
    rw [List.count_append, List.count_append]
    omega
  · exact .inr (h.append p p')

/-- Only a line feed has a line feed's byte. -/
theorem count_bytes (c : Char) : (bytes c).count 10 = if c = '\n' then 1 else 0 := by
  split_ifs with hc
  · rw [hc]
    rfl
  · rw [List.count_eq_zero]
    intro hmem
    have hval : c.val.toNat ≠ 10 := fun h => hc (Char.ext (UInt32.toNat_inj.1 h))
    have hbyte : ∀ n, (10 : UInt8) = UInt8.ofNat n ↔ n % 256 = 10 := by
      intro n
      rw [← UInt8.toNat_inj, UInt8.toNat_ofNat']
      exact eq_comm
    simp only [bytes, String.utf8EncodeChar] at hmem
    split_ifs at hmem <;>
      simp only [List.mem_cons, List.not_mem_nil, or_false, hbyte] at hmem <;> omega

/-! ## The end of a line inside a string -/

/-- The end of a line and the blank lines behind it are blanks. -/
theorem isBlank_of_mem_turn (r : ℕ) (hm : ∀ c ∈ m, isBlank c = true) :
    ∀ c ∈ List.replicate r '\r' ++ '\n' :: m, isBlank c = true := by
  intro c hc
  simp only [List.mem_append, List.mem_cons] at hc
  rcases hc with hc | rfl | hc
  · rw [List.eq_of_mem_replicate hc]
    rfl
  · rfl
  · exact hm c hc

theorem getLast?_turn (r : ℕ) (hlast : m = [] ∨ m.getLast? = some '\n') :
    (List.replicate r '\r' ++ '\n' :: m).getLast? = some '\n' := by
  rw [List.getLast?_append, List.getLast?_cons]
  rcases hlast with rfl | hlast
  · rfl
  · rw [hlast]
    rfl

theorem count_turn (r : ℕ) (m : List Char) :
    (List.replicate r '\r' ++ '\n' :: m).count '\n' = m.count '\n' + 1 := by
  rw [List.count_append, List.count_cons_self, List.count_replicate]
  simp

theorem turn_assoc (r : ℕ) (m x : List Char) :
    List.replicate r '\r' ++ '\n' :: m ++ x = List.replicate r '\r' ++ '\n' :: (m ++ x) := by
  simp

/-- A character of a string closes it, or moves it on and adds to its value. -/
theorem stringValue_cons (h : stringValue f s (c :: x) = some (v, rest)) :
    (stringStep f s c = .close ∧ v = [] ∧ rest = x) ∨
      ∃ s' v', stringStep f s c = .go s' ∧ stringValue f s' x = some (v', rest) ∧
        v = s.value c ++ v' := by
  simp only [stringValue] at h
  cases hstep : stringStep f s c with
  | refuse =>
    rw [hstep] at h
    cases h
  | close =>
    rw [hstep] at h
    obtain ⟨rfl, rfl⟩ := Prod.mk.inj (Option.some.inj h)
    exact .inl ⟨rfl, rfl, rfl⟩
  | go s' =>
    rw [hstep] at h
    obtain ⟨⟨v', r⟩, hv, heq⟩ := Option.map_eq_some_iff.1 h
    obtain ⟨rfl, rfl⟩ := Prod.mk.inj heq
    exact .inr ⟨s', v', rfl, hv, rfl⟩

theorem stringValue_of_go {s' : StringState} (hstep : stringStep f s c = .go s')
    (h : stringValue f s' x = some (v, rest)) :
    stringValue f s (c :: x) = some (s.value c ++ v, rest) := by
  simp only [stringValue, hstep, h, Option.map_some]

theorem exists_of_go {s' : StringState} (hstep : stringStep f s c = .go s')
    (h : stringValue f s (c :: x) = some (v, rest)) :
    ∃ v', stringValue f s' x = some (v', rest) ∧ v = s.value c ++ v' := by
  rcases stringValue_cons h with ⟨hclose, -⟩ | ⟨s'', v', hgo, hv, rfl⟩
  · rw [hclose] at hstep
    cases hstep
  · obtain rfl : s'' = s' := StringStep.go.inj (hgo.symm.trans hstep)
    exact ⟨v', hv, rfl⟩

theorem breaksIn_of_go {s' : StringState} (hstep : stringStep f s c = .go s') :
    breaksIn f s (c :: x) =
      ((c == '\n' && (s = .plain || s = .carriage)) || breaksIn f s' x) := by
  simp only [breaksIn, hstep]

/-- A blank is none of the characters that a string stops at. -/
theorem ne_of_isBlank (hc : isBlank c = true) {d : Char} (hd : isBlank d = false) : c ≠ d := by
  rintro rfl
  rw [hd] at hc
  cases hc

/-- What a carriage return does to a string. -/
theorem stringStep_return (f : Flavour) (s : StringState) :
    stringStep f s '\r' = match s with
      | .plain => .go .carriage
      | .escape | .skip => .go .skipCarriage
      | _ => .refuse := by
  cases s <;> cases f <;> rfl

/-- What a line feed does to a string. -/
theorem stringStep_feed (f : Flavour) (s : StringState) :
    stringStep f s '\n' = match s with
      | .plain | .carriage => .go .plain
      | .escape | .skip | .skipCarriage => .go .skip
      | _ => .refuse := by
  cases s <;> cases f <;> rfl

/-- A blank that is no line end, in a string. -/
theorem stringStep_blank (hc : isBlank c = true) (hr : c ≠ '\r') :
    stringStep f .plain c = if f.admits c then .go .plain else .refuse := by
  have hquote : c ≠ '"' := ne_of_isBlank hc rfl
  have hslash : c ≠ '\\' := ne_of_isBlank hc rfl
  simp [stringStep, plainStep, hquote, hr, hslash]

theorem plainValue_blank (hc : isBlank c = true) (hr : c ≠ '\r') : plainValue c = bytes c := by
  have hslash : c ≠ '\\' := ne_of_isBlank hc rfl
  simp [plainValue, hr, hslash]

/-- Behind a carriage return only a line feed may come. -/
theorem stringValue_return (h : stringValue f s ('\r' :: x) = some (v, rest)) :
    ∃ y, x = '\n' :: y := by
  rcases stringValue_cons h with ⟨hstep, -⟩ | ⟨s', v', hstep, hv, -⟩
  · exact absurd (eq_of_stringStep_close hstep) (by decide)
  have hs' : s' = .carriage ∨ s' = .skipCarriage := by
    rw [stringStep_return] at hstep
    cases s <;> simp_all
  cases x with
  | nil => cases hv
  | cons d y =>
    by_cases hd : d = '\n'
    · exact ⟨y, by rw [hd]⟩
    · rcases hs' with rfl | rfl <;> simp [stringValue, stringStep, hd] at hv

/-- A string has no return but at the end of a line. -/
theorem ne_return_of_stringValue (hr : c = '\r' → x.head? ≠ some '\n')
    (h : stringValue f s (c :: x) = some (v, rest)) : c ≠ '\r' := by
  rintro rfl
  obtain ⟨y, rfl⟩ := stringValue_return h
  exact hr rfl rfl

theorem getLast?_tail {d : Char} (h : (c :: u).getLast? = some d) :
    u = [] ∧ c = d ∨ u.getLast? = some d := by
  cases u with
  | nil => exact .inl ⟨rfl, Option.some.inj h⟩
  | cons e u => exact .inr h

theorem exists_feed_of_return (hlast : u.getLast? = some '\n')
    (h : stringValue f s ('\r' :: (u ++ x)) = some (v, rest)) : ∃ u', u = '\n' :: u' := by
  obtain ⟨y, hy⟩ := stringValue_return h
  cases u with
  | nil => cases hlast
  | cons d u =>
    rw [List.cons_append] at hy
    exact ⟨u, by rw [(List.cons.inj hy).1]⟩

/-- **Blanks and line ends in a string**, up to a line feed: each line end is a
line feed of the value. -/
theorem stringValue_blanks (hu : ∀ c ∈ u, isBlank c = true) (hlast : u.getLast? = some '\n')
    (h : stringValue f .plain (u ++ x) = some (v, rest)) :
    ∃ p v', v = p ++ 10 :: v' ∧ stringValue f .plain x = some (v', rest) ∧
      p.count 10 + 1 = u.count '\n' ∧ breaksIn f .plain (u ++ x) = true := by
  induction hn : u.length using Nat.strongRecOn generalizing u v with
  | _ n ih =>
    -- Behind a line end the rest of the blanks may be none.
    have hfed : ∀ {u₂ v₂}, u₂.length < n → (∀ c ∈ u₂, isBlank c = true) →
        (u₂ = [] ∨ u₂.getLast? = some '\n') → stringValue f .plain (u₂ ++ x) = some (v₂, rest) →
        ∃ p v', 10 :: v₂ = p ++ 10 :: v' ∧ stringValue f .plain x = some (v', rest) ∧
          p.count 10 = u₂.count '\n' := by
      rintro u₂ v₂ hlen hblank (rfl | hlast) hv
      · exact ⟨[], v₂, rfl, hv, rfl⟩
      · obtain ⟨p, v', rfl, hx, hcount, -⟩ := ih _ hlen hblank hlast hv rfl
        exact ⟨10 :: p, v', rfl, hx, by rw [List.count_cons_self, hcount]⟩
    cases u with
    | nil => cases hlast
    | cons c u =>
      have hblank : isBlank c = true := hu c List.mem_cons_self
      have htail : ∀ d ∈ u, isBlank d = true := fun d hd => hu d (List.mem_cons_of_mem _ hd)
      have hlen : u.length < n := by rw [← hn, List.length_cons]; omega
      rw [List.cons_append] at h ⊢
      by_cases hfeed : c = '\n'
      · subst hfeed
        have hstep : stringStep f .plain '\n' = .go .plain := stringStep_feed f .plain
        obtain ⟨v₂, hv, rfl⟩ := exists_of_go hstep h
        have hu₂ : u = [] ∨ u.getLast? = some '\n' := (getLast?_tail hlast).imp_left And.left
        obtain ⟨p, v', heq, hx, hcount⟩ := hfed hlen htail hu₂ hv
        refine ⟨p, v', heq, hx, ?_, ?_⟩
        · rw [List.count_cons_self, hcount]
        · rw [breaksIn_of_go hstep]
          rfl
      · have hlast' := (getLast?_tail hlast).resolve_left fun h => hfeed h.2
        by_cases hreturn : c = '\r'
        · subst hreturn
          obtain ⟨u, rfl⟩ := exists_feed_of_return hlast' h
          have hstep : stringStep f .plain '\r' = .go .carriage := stringStep_return f .plain
          have hstep₂ : stringStep f .carriage '\n' = .go .plain := stringStep_feed f .carriage
          obtain ⟨v₁, hv₁, rfl⟩ := exists_of_go hstep h
          obtain ⟨v₂, hv₂, rfl⟩ := exists_of_go hstep₂ hv₁
          have hu₂ : u = [] ∨ u.getLast? = some '\n' := (getLast?_tail hlast').imp_left And.left
          obtain ⟨p, v', heq, hx, hcount⟩ :=
            hfed (Nat.lt_of_succ_lt hlen) (fun d hd => htail d (List.mem_cons_of_mem _ hd)) hu₂ hv₂
          refine ⟨p, v', heq, hx, ?_, ?_⟩
          · rw [List.count_cons_of_ne (by decide), List.count_cons_self, hcount]
          · rw [breaksIn_of_go hstep, List.cons_append, breaksIn_of_go hstep₂]
            rfl
        · have hstep := stringStep_blank (f := f) hblank hreturn
          by_cases hadmits : f.admits c = true
          · rw [if_pos hadmits] at hstep
            obtain ⟨v₂, hv, rfl⟩ := exists_of_go hstep h
            obtain ⟨p, v', rfl, hx, hcount, hbreak⟩ := ih _ hlen htail hlast' hv rfl
            refine ⟨plainValue c ++ p, v', (List.append_assoc _ _ _).symm, hx, ?_, ?_⟩
            · rw [List.count_append, plainValue_blank hblank hreturn, count_bytes, if_neg hfeed,
                Nat.zero_add, hcount, List.count_cons_of_ne (Ne.symm hfeed).symm]
            · rw [breaksIn_of_go hstep, hbreak, Bool.or_true]
          · rw [if_neg hadmits] at hstep
            simp only [stringValue, hstep] at h
            cases h

/-- A character that adds nothing to the value. -/
theorem stringValue_of_silent {s' : StringState} (hstep : stringStep f s c = .go s')
    (hvalue : s.value c = []) (x : List Char) :
    stringValue f s (c :: x) = stringValue f s' x := by
  simp only [stringValue, hstep, hvalue, List.nil_append]
  cases stringValue f s' x <;> rfl

/-- Blanks and line ends that are skipped behind an escaped line end. -/
inductive Skipped : List Char → Prop where
  | nil : Skipped []
  | blank {c : Char} {u : List Char} (hc : c = ' ' ∨ c = '\t' ∨ c = '\n') (hu : Skipped u) :
      Skipped (c :: u)
  | lineEnd {u : List Char} (hu : Skipped u) : Skipped ('\r' :: '\n' :: u)

theorem stringStep_skip (f : Flavour) (hc : c = ' ' ∨ c = '\t' ∨ c = '\n') :
    stringStep f .skip c = .go .skip := by
  rcases hc with rfl | rfl | rfl <;> rfl

theorem value_skip (hc : c = ' ' ∨ c = '\t' ∨ c = '\n') : StringState.skip.value c = [] := by
  rcases hc with rfl | rfl | rfl <;> rfl

/-- They add nothing to a string of any flavour. -/
theorem Skipped.stringValue (hu : Skipped u) (f : Flavour) (y : List Char) :
    stringValue f .skip (u ++ y) = stringValue f .skip y ∧
      breaksIn f .skip (u ++ y) = breaksIn f .skip y := by
  induction hu with
  | nil => exact ⟨rfl, rfl⟩
  | blank hc hu ih =>
    have hstep := stringStep_skip f hc
    rw [List.cons_append, stringValue_of_silent hstep (value_skip hc), breaksIn_of_go hstep, ih.1,
      ih.2]
    exact ⟨rfl, by simp⟩
  | lineEnd hu ih =>
    have hreturn : stringStep f .skip '\r' = .go .skipCarriage := stringStep_return f .skip
    have hfeed : stringStep f .skipCarriage '\n' = .go .skip := stringStep_feed f .skipCarriage
    rw [List.cons_append, List.cons_append, stringValue_of_silent hreturn rfl,
      stringValue_of_silent hfeed rfl, breaksIn_of_go hreturn, breaksIn_of_go hfeed, ih.1, ih.2]
    exact ⟨rfl, by simp⟩

theorem Skipped.append {u' : List Char} (hu : Skipped u) (hu' : Skipped u') : Skipped (u ++ u') := by
  induction hu with
  | nil => exact hu'
  | blank hc _ ih => exact .blank hc ih
  | lineEnd _ ih => exact .lineEnd ih

theorem Skipped.replicate (hc : c = ' ' ∨ c = '\t' ∨ c = '\n') (n : ℕ) :
    Skipped (List.replicate n c) := by
  induction n with
  | zero => exact .nil
  | succ n ih => exact .blank hc ih

/-- **Blanks and line ends behind an escaped line end** are skipped, up to a line
feed, unless there is a blank among them that a string does not skip. -/
theorem skipped_or_of_stringValue (hu : ∀ c ∈ u, isBlank c = true)
    (hlast : u = [] ∨ u.getLast? = some '\n')
    (h : stringValue f .skip (u ++ x) = some (v, rest)) :
    Skipped u ∨ ∃ p v', v = p ++ v' ∧ stringValue f .plain x = some (v', rest) ∧
      0 < p.count 10 ∧ breaksIn f .skip (u ++ x) = true := by
  induction hn : u.length using Nat.strongRecOn generalizing u v with
  | _ n ih =>
    cases u with
    | nil => exact .inl .nil
    | cons c u =>
      have hlast := hlast.resolve_left (List.cons_ne_nil c u)
      have hblank : isBlank c = true := hu c List.mem_cons_self
      have htail : ∀ d ∈ u, isBlank d = true := fun d hd => hu d (List.mem_cons_of_mem _ hd)
      have hlen : u.length < n := by rw [← hn, List.length_cons]; omega
      rw [List.cons_append] at h ⊢
      by_cases hskip : c = ' ' ∨ c = '\t' ∨ c = '\n'
      · have hstep := stringStep_skip f hskip
        rw [stringValue_of_silent hstep (value_skip hskip)] at h
        have hu₂ : u = [] ∨ u.getLast? = some '\n' := (getLast?_tail hlast).imp_left And.left
        rcases ih _ hlen htail hu₂ h rfl with hskipped | ⟨p, v', rfl, hx, hcount, hbreak⟩
        · exact .inl (.blank hskip hskipped)
        · refine .inr ⟨p, v', rfl, hx, hcount, ?_⟩
          rw [breaksIn_of_go hstep, hbreak, Bool.or_true]
      · have hfeed : c ≠ '\n' := fun hc => hskip (.inr (.inr hc))
        have hlast' := (getLast?_tail hlast).resolve_left fun h => hfeed h.2
        by_cases hreturn : c = '\r'
        · subst hreturn
          obtain ⟨u, rfl⟩ := exists_feed_of_return hlast' h
          have hstep : stringStep f .skip '\r' = .go .skipCarriage := stringStep_return f .skip
          have hstep₂ : stringStep f .skipCarriage '\n' = .go .skip :=
            stringStep_feed f .skipCarriage
          rw [List.cons_append, stringValue_of_silent hstep rfl, stringValue_of_silent hstep₂ rfl] at h
          have hu₂ : u = [] ∨ u.getLast? = some '\n' := (getLast?_tail hlast').imp_left And.left
          rcases ih _ (Nat.lt_of_succ_lt hlen) (fun d hd => htail d (List.mem_cons_of_mem _ hd)) hu₂ h
            rfl with hskipped | ⟨p, v', rfl, hx, hcount, hbreak⟩
          · exact .inl (.lineEnd hskipped)
          · refine .inr ⟨p, v', rfl, hx, hcount, ?_⟩
            rw [breaksIn_of_go hstep, List.cons_append, breaksIn_of_go hstep₂, hbreak]
            simp
        · -- The string goes on with a blank, and a line ends behind it.
          have hstep : stringStep f .skip c = stringStep f .plain c := by
            simp only [not_or] at hskip
            simp [stringStep, hskip, hreturn]
          rw [stringStep_blank hblank hreturn] at hstep
          by_cases hadmits : f.admits c = true
          · rw [if_pos hadmits] at hstep
            obtain ⟨v₂, hv, rfl⟩ := exists_of_go hstep h
            obtain ⟨p, v', rfl, hx, hcount, hbreak⟩ := stringValue_blanks htail hlast' hv
            refine .inr ⟨StringState.skip.value c ++ p ++ [10], v', by simp, hx, by simp, ?_⟩
            rw [breaksIn_of_go hstep, hbreak, Bool.or_true]
          · rw [if_neg hadmits] at hstep
            simp only [stringValue, hstep] at h
            cases h

/-! ## Strings -/

/-- A string has at most one return at the end of a line. -/
theorem returns_le_one {r : ℕ} (h : stringValue f s (List.replicate r '\r' ++ x) = some (v, rest)) :
    r ≤ 1 := by
  rcases r with _ | _ | r
  · omega
  · omega
  · obtain ⟨y, hy⟩ := stringValue_return h
    cases hy

/-- The end of a line behind a backslash. -/
theorem stringValue_escaped_end (hs : s = .escape ∨ s = .skip) {r : ℕ} (hr : r ≤ 1) (f : Flavour)
    (y : List Char) :
    stringValue f s (List.replicate r '\r' ++ '\n' :: y) = stringValue f .skip y ∧
      breaksIn f s (List.replicate r '\r' ++ '\n' :: y) = breaksIn f .skip y := by
  have hfeed : ∀ s', s' = .escape ∨ s' = .skip ∨ s' = .skipCarriage →
      stringValue f s' ('\n' :: y) = stringValue f .skip y ∧
        breaksIn f s' ('\n' :: y) = breaksIn f .skip y := by
    intro s' hs'
    have hstep : stringStep f s' '\n' = .go .skip := by
      rw [stringStep_feed]
      rcases hs' with rfl | rfl | rfl <;> rfl
    rw [breaksIn_of_go hstep]
    rcases hs' with rfl | rfl | rfl <;>
      exact ⟨stringValue_of_silent hstep rfl y, by simp⟩
  rcases r with _ | _ | r
  · exact hfeed s (by tauto)
  · have hreturn : stringStep f s '\r' = .go .skipCarriage := by
      rw [stringStep_return]
      rcases hs with rfl | rfl <;> rfl
    have hvalue : s.value '\r' = [] := by
      rcases hs with rfl | rfl <;> rfl
    show stringValue f s ('\r' :: '\n' :: y) = _ ∧ breaksIn f s ('\r' :: '\n' :: y) = _
    rw [stringValue_of_silent hreturn hvalue, breaksIn_of_go hreturn]
    simpa using hfeed .skipCarriage (by tauto)
  · omega

/-- The beginning of a shifted line is skipped behind an escaped line end. -/
theorem stringValue_escaped_turn (hs : s = .escape ∨ s = .skip) (f : Flavour) (k w : ℕ)
    (y : List Char) :
    stringValue f s (List.replicate (k + 1) '\n' ++ List.replicate w ' ' ++ y) =
      stringValue f .skip y := by
  have hskipped : Skipped (List.replicate k '\n' ++ List.replicate w ' ') :=
    (Skipped.replicate (by tauto) k).append (.replicate (by tauto) w)
  have hend := (stringValue_escaped_end hs (r := 0) (Nat.zero_le 1) f
    (List.replicate k '\n' ++ List.replicate w ' ' ++ y)).1
  rw [(hskipped.stringValue f y).1] at hend
  simpa [List.replicate_succ] using hend

/-- Elsewhere it adds line feeds and blanks to the value. -/
theorem stringValue_turn (f : Flavour) (k w : ℕ) (h : stringValue f .plain x = some (v, rest)) :
    stringValue f .plain (List.replicate k '\n' ++ List.replicate w ' ' ++ x) =
      some (List.replicate k 10 ++ List.replicate w 32 ++ v, rest) := by
  have hfeed : stringStep f .plain '\n' = .go .plain := stringStep_feed f .plain
  have hspace : stringStep f .plain ' ' = .go .plain := by cases f <;> rfl
  have hspaces : stringValue f .plain (List.replicate w ' ' ++ x) =
      some (List.replicate w 32 ++ v, rest) := by
    induction w with
    | zero => exact h
    | succ w ih =>
      rw [List.replicate_succ, List.cons_append, stringValue_of_go hspace ih]
      rfl
  rw [List.append_assoc, List.append_assoc]
  induction k with
  | zero => exact hspaces
  | succ k ih =>
    rw [List.replicate_succ, List.cons_append, stringValue_of_go hfeed ih]
    rfl

/-- A state that a scan is in after a line end has come in full. -/
def Settled (s : StringState) : Prop := s ≠ .carriage ∧ s ≠ .skipCarriage

theorem settled_of_go {s' : StringState} (h : stringStep f s c = .go s') (hc : c ≠ '\r') :
    Settled s' := by
  constructor <;> rintro rfl <;> cases s <;>
    simp only [stringStep, plainStep, escapeStep, digitStep] at h <;> grind -ring -linarith

/-- A line ends in a string outside escapes, or behind a backslash. -/
theorem cases_of_lineEnd {r : ℕ} (hs : Settled s)
    (h : stringValue f s (List.replicate r '\r' ++ '\n' :: x) = some (v, rest)) :
    s = .plain ∨ s = .escape ∨ s = .skip := by
  have hstep : ∀ c y, c = '\r' ∨ c = '\n' → stringValue f s (c :: y) = some (v, rest) →
      s = .plain ∨ s = .escape ∨ s = .skip := by
    intro c y hc hy
    rcases stringValue_cons hy with ⟨hclose, -⟩ | ⟨s', -, hgo, -⟩
    · rcases hc with rfl | rfl <;> exact absurd (eq_of_stringStep_close hclose) (by decide)
    · rcases hc with rfl | rfl
      · rw [stringStep_return] at hgo
        cases s <;> simp_all
      · rw [stringStep_feed] at hgo
        obtain ⟨h₁, h₂⟩ := hs
        cases s <;> simp_all
  cases r with
  | zero => exact hstep '\n' x (.inr rfl) h
  | succ r => exact hstep '\r' _ (.inl rfl) h

/-- A text of returns and blanks holds no string. -/
theorem stringValue_stop {r : ℕ} (hm : ∀ c ∈ m, isBlank c = true) :
    stringValue f s (List.replicate r '\r' ++ m) = none := by
  cases h : stringValue f s (List.replicate r '\r' ++ m) with
  | none => rfl
  | some found =>
    have hfrom := stringFrom_eq f s (List.replicate r '\r' ++ m)
    rw [h, Option.map_some] at hfrom
    have hquote := mem_of_stringFrom hfrom
    rcases List.mem_append.1 hquote with hquote | hquote
    · exact absurd (List.eq_of_mem_replicate hquote) (by decide)
    · exact absurd (hm _ hquote) (by decide)

/-- The string of a text is one of the shifted text, with a value that has no
more line feeds. It is the same value if no line ends in the string but behind a
backslash, and another one otherwise. -/
structure Carries (w : ℕ) (f : Flavour) (s : StringState) (x' : List Char) (v : List UInt8)
    (rest : List Char) (breaks : Bool) (v' : List UInt8) (rest' : List Char) : Prop where
  value : stringValue f s x' = some (v', rest')
  shifted : Shifted w rest rest'
  count_le : v'.count 10 ≤ v.count 10
  same : breaks = false → v' = v
  apart : breaks = true → Apart v v'

/-- Where a line ends in a string, the shifted string has another value. -/
theorem Carries.turn {b : Bool} {k : ℕ} {rest' : List Char} (hw : 0 < w)
    (h : Carries w f .plain x' v rest b v' rest') (hk : p.count 10 + 1 = k) :
    Carries w f .plain (List.replicate k '\n' ++ List.replicate w ' ' ++ x') (p ++ 10 :: v) rest
      true (List.replicate k 10 ++ List.replicate w 32 ++ v') rest' := by
  have hcount : (List.replicate k 10 ++ List.replicate w 32 : List UInt8).count 10 = k := by
    simp [List.count_replicate]
  have hcount' : (p ++ [10]).count 10 = k := by simp [hk]
  have hsplit : p ++ 10 :: v = (p ++ [10]) ++ v := by simp
  refine ⟨stringValue_turn f k w h.value, h.shifted, ?_, nofun, fun _ => ?_⟩
  · have hle := h.count_le
    rw [hsplit]
    simp only [List.count_append] at hcount hcount' ⊢
    omega
  · cases b with
    | true =>
      rw [hsplit]
      exact (h.apart rfl).append (by rw [hcount, hcount'])
    | false => exact .inr (parted_turn hw (.inl (h.same rfl)) p _)

/-- A character inside a line is kept. -/
theorem Carries.cons {s' : StringState} {rest' : List Char} (hstep : stringStep f s c = .go s')
    (hc : c ≠ '\n') (h : Carries w f s' x' v rest (breaksIn f s' x) v' rest') :
    Carries w f s (c :: x') (s.value c ++ v) rest (breaksIn f s (c :: x)) (s.value c ++ v') rest' := by
  have hbreaks : breaksIn f s (c :: x) = breaksIn f s' x := by
    rw [breaksIn_of_go hstep]
    simp [hc]
  rw [hbreaks]
  refine ⟨stringValue_of_go hstep h.value, h.shifted, ?_, ?_, ?_⟩
  · rw [List.count_append, List.count_append]
    exact Nat.add_le_add_left h.count_le _
  · intro hwhole
    rw [h.same hwhole]
  · intro hbreak
    exact (h.apart hbreak).append le_rfl

/-- The scan of a string has left the blanks behind an escaped line end, while
that of the shifted string still is among them. -/
def Lags (w : ℕ) (f : Flavour) (x' : List Char) (v : List UInt8) (rest : List Char) : Prop :=
  ∃ v' rest', stringValue f .skip x' = some (v', rest') ∧ Shifted w rest rest' ∧
    v'.count 10 ≤ v.count 10

/-- **The end of a line inside a string.** What is known of the next line says what
becomes of the string. -/
theorem exists_carries_turn (hw : 0 < w) {r j : ℕ} (hs : Settled s)
    (hm : ∀ c ∈ m, isBlank c = true) (hlast : m = [] ∨ m.getLast? = some '\n') (hj : j ≤ r - 1)
    (hcarries : ∀ s v, Settled s → stringValue f s x = some (v, rest) →
      ∃ v' rest', Carries w f s x' v rest (breaksIn f s x) v' rest')
    (hlags : ∀ v, stringValue f .plain x = some (v, rest) → Lags w f x' v rest)
    (h : stringValue f s (List.replicate r '\r' ++ '\n' :: m ++ x) = some (v, rest)) :
    ∃ v' rest', Carries w f s (List.replicate j '\r' ++ List.replicate (m.count '\n' + 1) '\n' ++
        List.replicate w ' ' ++ x') v rest
      (breaksIn f s (List.replicate r '\r' ++ '\n' :: m ++ x)) v' rest' := by
  have hr : r ≤ 1 := returns_le_one (turn_assoc r m x ▸ h)
  obtain rfl : j = 0 := by omega
  rcases cases_of_lineEnd hs (turn_assoc r m x ▸ h) with rfl | hstate
  · obtain ⟨p, v₂, rfl, hx, hk, hbreak⟩ :=
      stringValue_blanks (isBlank_of_mem_turn r hm) (getLast?_turn r hlast) h
    obtain ⟨v', rest', hv'⟩ := hcarries .plain v₂ hs hx
    rw [hbreak]
    exact ⟨_, rest', hv'.turn hw (hk.trans (count_turn r m))⟩
  · have hend := stringValue_escaped_end hstate hr f (m ++ x)
    rw [turn_assoc, hend.1] at h
    rw [turn_assoc, hend.2]
    have hturn := stringValue_escaped_turn hstate f (m.count '\n') w x'
    rcases skipped_or_of_stringValue hm hlast h with hskipped | ⟨p, v₂, rfl, hx, hp, hbreak⟩
    · obtain ⟨hvalue, hbreaks⟩ := hskipped.stringValue f x
      rw [hvalue] at h
      rw [hbreaks]
      obtain ⟨v', rest', hv'⟩ := hcarries .skip v ⟨nofun, nofun⟩ h
      exact ⟨v', rest', { hv' with value := hturn.trans hv'.value }⟩
    · -- The scan of the text is not among the skipped blanks any more.
      obtain ⟨v', rest', hv', hrest', hle⟩ := hlags v₂ hx
      have hlt : v'.count 10 < (p ++ v₂).count 10 := by
        rw [List.count_append]
        omega
      rw [hbreak]
      exact ⟨v', rest', hturn.trans hv', hrest', hlt.le, nofun, fun _ => .inl hlt⟩

theorem lags_turn {r j : ℕ} (hm : ∀ c ∈ m, isBlank c = true)
    (hlast : m = [] ∨ m.getLast? = some '\n') (hj : j ≤ r - 1)
    (hlags : ∀ v, stringValue f .plain x = some (v, rest) → Lags w f x' v rest)
    (h : stringValue f .plain (List.replicate r '\r' ++ '\n' :: m ++ x) = some (v, rest)) :
    Lags w f (List.replicate j '\r' ++ List.replicate (m.count '\n' + 1) '\n' ++
      List.replicate w ' ' ++ x') v rest := by
  have hr : r ≤ 1 := returns_le_one (turn_assoc r m x ▸ h)
  obtain rfl : j = 0 := by omega
  obtain ⟨p, v₂, rfl, hx, -⟩ :=
    stringValue_blanks (isBlank_of_mem_turn r hm) (getLast?_turn r hlast) h
  obtain ⟨v', rest', hv', hrest', hle⟩ := hlags v₂ hx
  have hturn := stringValue_escaped_turn (.inr rfl) f (m.count '\n') w x'
  refine ⟨v', rest', hturn.trans hv', hrest', hle.trans ?_⟩
  rw [List.count_append, List.count_cons]
  omega

/-- A blank that is skipped leaves the scan of the shifted string behind; with any
other character both go on alike. -/
theorem lags_cons (hc : c ≠ '\r') (hfeed : c ≠ '\n') (hshifted : Shifted w x x')
    (hcarries : ∀ s v, Settled s → stringValue f s x = some (v, rest) →
      ∃ v' rest', Carries w f s x' v rest (breaksIn f s x) v' rest')
    (hlags : ∀ v, stringValue f .plain x = some (v, rest) → Lags w f x' v rest)
    (h : stringValue f .plain (c :: x) = some (v, rest)) : Lags w f (c :: x') v rest := by
  by_cases hskip : c = ' ' ∨ c = '\t' ∨ c = '\n'
  · have hstep : stringStep f .plain c = .go .plain := by
      rcases hskip with rfl | rfl | rfl <;> cases f <;> rfl
    obtain ⟨v₂, hv₂, rfl⟩ := exists_of_go hstep h
    obtain ⟨v', rest', hv', hrest', hle⟩ := hlags v₂ hv₂
    refine ⟨v', rest', ?_, hrest', ?_⟩
    · rw [stringValue_of_silent (stringStep_skip f hskip) (value_skip hskip), hv']
    · rw [List.count_append]
      omega
  · simp only [not_or] at hskip
    have hsame : stringStep f .skip c = stringStep f .plain c := by
      simp [stringStep, hskip, hc]
    have hvalue : StringState.skip.value c = StringState.plain.value c := by
      simp [StringState.value, hskip]
    rcases stringValue_cons h with ⟨hclose, rfl, rfl⟩ | ⟨s', v₂, hstep, hv₂, rfl⟩
    · refine ⟨[], x', ?_, hshifted, le_rfl⟩
      simp only [stringValue, hsame, hclose]
    · obtain ⟨v', rest', hv'⟩ := hcarries s' v₂ (settled_of_go hstep hc) hv₂
      have hcons := hv'.cons (hsame.trans hstep) hfeed
      rw [hvalue] at hcons
      exact ⟨_, rest', hcons.value, hcons.shifted, hcons.count_le⟩

/-- **Strings in a shifted text.** -/
theorem carries_of_shifted (hw : 0 < w) (h : Shifted w x x') :
    (∀ s v rest, Settled s → stringValue f s x = some (v, rest) →
      ∃ v' rest', Carries w f s x' v rest (breaksIn f s x) v' rest') ∧
    ∀ v rest, stringValue f .plain x = some (v, rest) → Lags w f x' v rest := by
  induction h with
  | @stop r j k m hm hhead hj =>
    constructor
    · intro s v rest hs hv
      rw [stringValue_stop hm] at hv
      cases hv
    · intro v rest hv
      rw [stringValue_stop hm] at hv
      cases hv
  | @turn r j m x x' hm hlast hj h ih =>
    constructor
    · intro s v rest hs hv
      exact exists_carries_turn hw hs hm hlast hj (ih.1 · · rest) (ih.2 · rest) hv
    · intro v rest hv
      exact lags_turn hm hlast hj (ih.2 · rest) hv
  | @keep c x x' hc hr h ih =>
    constructor
    · intro s v rest hs hv
      have hc' := ne_return_of_stringValue hr hv
      rcases stringValue_cons hv with ⟨hclose, rfl, rfl⟩ | ⟨s', v₂, hstep, hv₂, rfl⟩
      · refine ⟨[], x', ?_, h, le_rfl, fun _ => rfl, ?_⟩
        · simp only [stringValue, hclose]
        · simp [breaksIn, hclose]
      · obtain ⟨v', rest', hv'⟩ := ih.1 s' v₂ rest (settled_of_go hstep hc') hv₂
        exact ⟨_, rest', hv'.cons hstep hc⟩
    · intro v rest hv
      exact lags_cons (ne_return_of_stringValue hr hv) hc h (ih.1 · · rest) (ih.2 · rest) hv

end Scan

end Grammar

end ProcessCompiler
