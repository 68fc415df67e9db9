import ProcessCompiler.Proofs.Grammar.Agreement
/-!
# Readers that come to an answer

Rules of a given depth give up where a phrase is nested more deeply. They never
do so on a token list that is small enough: each step further in is paid for by
a token. `Settles n c b w ts p` says so of one reader. If the tokens `ts` leave
`c` levels of the depth `n` over, then `p` refuses them for a reason of its own,
or it takes some tokens from the front; at least one, if `b` is set, and with no
attribute at the end of what it takes, if `w` is. The lemmas here say that the
combinators of the grammar keep the property.

No reader takes back the note on tokens that were left over in brackets.
-/

namespace ProcessCompiler

namespace Grammar

variable {α β : Type}

/-! ## Sizes -/

theorem Token.size_pos (t : Token) : 0 < t.size := by
  cases t <;> simp [Token.size]

@[simp]
theorem Token.sizes_append (u v : List Token) :
    Token.sizes (u ++ v) = Token.sizes u + Token.sizes v := by
  induction u with
  | nil => simp [Token.sizes]
  | cons t u ih => simp [Token.sizes, ih, Nat.add_assoc]

theorem Token.sizes_pos {u : List Token} (h : u ≠ []) : 0 < Token.sizes u := by
  cases u with
  | nil => exact absurd rfl h
  | cons t u => exact Nat.add_pos_left t.size_pos _

/-! ## Attributes at the end of a token list -/

/-- What may stand behind the `#` of an attribute, up to its end. -/
inductive BehindHash : List Token → Prop
  | nil : BehindHash []
  | bang (joint : Bool) : BehindHash [.leaf (.punct '!' joint)]
  | group (d : Delimiter) (inner : List Token) : BehindHash [.group d inner]
  | bangGroup (joint : Bool) (d : Delimiter) (inner : List Token) :
    BehindHash [.leaf (.punct '!' joint), .group d inner]

theorem BehindHash.of_append {u v : List Token} (h : BehindHash (u ++ v)) : BehindHash u := by
  generalize hw : u ++ v = w at h
  cases h with
  | nil => simp_all [BehindHash.nil]
  | bang joint =>
    rcases u with _ | ⟨t, u⟩ <;> simp_all [BehindHash.nil, BehindHash.bang]
  | group d inner =>
    rcases u with _ | ⟨t, u⟩ <;> simp_all [BehindHash.nil, BehindHash.group]
  | bangGroup joint d inner =>
    rcases u with _ | ⟨t, _ | ⟨t', u⟩⟩ <;>
      simp_all [BehindHash.nil, BehindHash.bang, BehindHash.bangGroup]

/-- The tokens do not end with an attribute, nor within one. -/
def Proper (u : List Token) : Prop :=
  ∀ v joint t, u = v ++ .leaf (.punct '#' joint) :: t → ¬BehindHash t

namespace Proper

variable {u v : List Token}

theorem of_notMem (h : ∀ joint, .leaf (.punct '#' joint) ∉ u) : Proper u := by
  rintro v joint t rfl
  exact absurd (List.mem_append_right v List.mem_cons_self) (h joint)

theorem nil : Proper [] := of_notMem fun _ => List.not_mem_nil

theorem append (hu : Proper u) (hv : Proper v) : Proper (u ++ v) := by
  intro w joint t heq
  rcases List.append_eq_append_iff.1 heq with ⟨x, rfl, rfl⟩ | ⟨x, rfl, hx⟩
  · exact hv x joint t rfl
  · rcases x with _ | ⟨a, x⟩
    · exact hv [] joint t hx.symm
    · obtain ⟨rfl, rfl⟩ := List.cons.inj hx
      exact fun ht => hu w joint x rfl ht.of_append

/-- What follows a token is judged alone, if that token cannot stand before it
in an attribute. -/
theorem append_cons {t : Token} (ht : ∀ joint, t ≠ .leaf (.punct '#' joint))
    (hv : Proper v) (hcut : ∀ x, ¬BehindHash (x ++ t :: v)) : Proper (u ++ t :: v) := by
  intro w joint y heq hy
  rcases List.append_eq_append_iff.1 heq with ⟨x, rfl, hx⟩ | ⟨x, rfl, hx⟩
  · rcases x with _ | ⟨a, x⟩
    · exact ht joint (List.cons.inj hx).1
    · obtain ⟨rfl, rfl⟩ := List.cons.inj hx
      exact hv x joint y rfl hy
  · rcases x with _ | ⟨a, x⟩
    · exact ht joint (List.cons.inj hx).1.symm
    · obtain ⟨rfl, rfl⟩ := List.cons.inj hx
      exact hcut x hy

/-- What follows a whole attribute is judged alone. -/
theorem group_append (d : Delimiter) (inner : List Token) (hv : Proper v) (hne : v ≠ []) :
    Proper (u ++ .group d inner :: v) := by
  refine append_cons nofun hv fun x hx => ?_
  obtain ⟨a, v, rfl⟩ := List.exists_cons_of_ne_nil hne
  generalize hy : x ++ .group d inner :: a :: v = y at hx
  cases hx <;> rcases x with _ | ⟨b, _ | ⟨b', x⟩⟩ <;> simp_all

/-- So is what follows a name. -/
theorem ident_append (name : String) (hv : Proper v) :
    Proper (u ++ .leaf (.ident name) :: v) := by
  refine append_cons nofun hv fun x hx => ?_
  generalize hy : x ++ .leaf (.ident name) :: v = y at hx
  cases hx <;> rcases x with _ | ⟨b, _ | ⟨b', x⟩⟩ <;> simp_all

end Proper

/-! ## The relation -/

/-- A result on the tokens `ts` that is no want of depth; the tokens that were
taken are as `P` says. -/
inductive Settled (P : List Token → Prop) (ts : List Token) (note : Option Delimiter) :
    Except SyntaxError (α × Stream) → Prop
  | error {e : SyntaxError} (cause : e.cause ≠ .tooDeep) : Settled P ts note (.error e)
  | ok {a : α} {u rest : List Token} {note' : Option Delimiter} (eq : ts = u ++ rest)
      (taken : P u) (notes : note' = none → note = none) : Settled P ts note (.ok (a, ⟨rest, note'⟩))

/-- A reader comes to an answer on the tokens `ts`, if they leave `c` levels of
the depth `n`, and takes tokens that are as `P` says. -/
def SettlesBy (n c : ℕ) (P : List Token → Prop) (ts : List Token) (p : Parse α) : Prop :=
  2 * Token.sizes ts + c ≤ n → ∀ note, Settled P ts note (p ⟨ts, note⟩)

namespace SettlesBy

variable {n c : ℕ} {P Q : List Token → Prop} {ts : List Token} {p : Parse α}

theorem mono (h : SettlesBy n c P ts p) (hPQ : ∀ u, P u → Q u) : SettlesBy n c Q ts p := by
  intro hn note
  have hres := h hn note
  generalize p ⟨ts, note⟩ = r at hres
  cases hres with
  | error cause => exact .error cause
  | ok eq taken notes => exact .ok eq (hPQ _ taken) notes

/-- More levels do no harm. -/
theorem deepen {c' : ℕ} (h : SettlesBy n c P ts p) (hc : c ≤ c') : SettlesBy n c' P ts p :=
  fun hn => h (by omega)

theorem pure (a : α) (hP : P []) : SettlesBy n c P ts (Pure.pure a) :=
  fun _ _ => .ok (u := []) rfl hP id

/-- One reader after the other. What the first one takes pays for levels. -/
theorem bind {T : List Token → Prop} {f : α → Parse β} (hp : SettlesBy n c P ts p)
    (hf : ∀ a u v, ts = u ++ v → P u → SettlesBy n (c + 2 * Token.sizes u) Q v (f a))
    (hT : ∀ u v, P u → Q v → T (u ++ v)) : SettlesBy n c T ts (p >>= f) := by
  intro hn note
  rw [Parse.bind_apply]
  have hres := hp hn note
  generalize p ⟨ts, note⟩ = r at hres
  cases hres with
  | error cause => exact .error cause
  | @ok a u rest note' eq taken notes =>
    subst eq
    have hcont := hf a u rest rfl taken (by simp at hn; omega) note'
    dsimp only
    generalize f a ⟨rest, note'⟩ = r at hcont
    cases hcont with
    | error cause => exact .error cause
    | @ok _ u' _ _ eq' taken' notes' =>
      subst eq'
      exact .ok (List.append_assoc ..).symm (hT u u' taken taken') fun hnote => notes (notes' hnote)

theorem map (f : α → β) (h : SettlesBy n c P ts p) : SettlesBy n c P ts (f <$> p) := by
  intro hn note
  show Settled P ts note ((p >>= fun a => Pure.pure (f a)) ⟨ts, note⟩)
  rw [Parse.bind_apply]
  have hres := h hn note
  generalize p ⟨ts, note⟩ = r at hres
  cases hres with
  | error cause => exact .error cause
  | ok eq taken notes => exact .ok eq taken notes

theorem spanned (h : SettlesBy n c P ts p) : SettlesBy n c P ts (Parse.spanned p) := by
  intro hn note
  simp only [Parse.spanned, Parse.tokens, Parse.bind_apply]
  have hres := h hn note
  generalize p ⟨ts, note⟩ = r at hres
  cases hres with
  | error cause => exact .error cause
  | ok eq taken notes => exact .ok eq taken notes

theorem span (h : SettlesBy n c P ts p) : SettlesBy n c P ts (Parse.span p) := h.spanned.map _

theorem skip {k : ℕ} (h : P (ts.take k)) : SettlesBy n c P ts (Parse.skip k) :=
  fun _ _ => .ok (List.take_append_drop k ts).symm h id

/-- What is between brackets has four levels more. -/
theorem within {d : Delimiter} (hP : ∀ d inner, P [.group d inner])
    (h : ∀ v, SettlesBy n (c + 4) (fun _ => True) v p) : SettlesBy n c P ts (Parse.within d p) := by
  intro hn note
  unfold Parse.within
  rcases ts with _ | ⟨_ | ⟨d', inner⟩, v⟩
  · exact .error nofun
  · exact .error nofun
  · dsimp only
    split
    · have hres := h inner (by simp [Token.sizes, Token.size] at hn; omega) note
      generalize p ⟨inner, note⟩ = r at hres
      cases hres with
      | error cause => exact .error cause
      | @ok _ _ _ note' eq taken notes =>
        refine .ok (u := [.group d' inner]) rfl (hP d' inner) fun hnote => notes ?_
        cases note' with
        | none => rfl
        | some d => cases hnote
    · exact .error nofun

/-- Rounds that take a token each. -/
theorem repeatIn {more : List Token → Bool} (hne : ∀ u, Q u → u ≠ []) (hnil : P [])
    (happend : ∀ u v, Q u → P v → P (u ++ v)) (h : ∀ v, more v = true → SettlesBy n c Q v p)
    {k : ℕ} (hk : ts.length < k) : SettlesBy n c P ts (Parse.repeatIn more p k) := by
  induction k generalizing ts with
  | zero => exact absurd hk (Nat.not_lt_zero _)
  | succ k ih =>
    unfold Parse.repeatIn
    show SettlesBy n c P ts (if more ts then _ else _)
    split
    · refine bind (h ts ‹_›) (fun a u v heq hu => map _ (deepen (ih ?_) (Nat.le_add_right c _))) happend
      have hlen := List.length_pos_iff.2 (hne u hu)
      simp [heq] at hk
      omega
    · exact pure _ hnil

end SettlesBy

/-- What a reader takes: a token at least, if `b` is set, and no attribute at its
end, if `w` is. -/
def Part (b w : Bool) (u : List Token) : Prop := (b = true → u ≠ []) ∧ (w = true → Proper u)

theorem Part.nil {w : Bool} : Part false w [] := ⟨nofun, fun _ => .nil⟩

theorem Part.append {b w : Bool} {u v : List Token} (hu : Part false w u) (hv : Part b w v) :
    Part b w (u ++ v) :=
  ⟨fun hb hnil => hv.1 hb (List.append_eq_nil_iff.1 hnil).2, fun hw => (hu.2 hw).append (hv.2 hw)⟩

theorem Part.append_left {b w : Bool} {u v : List Token} (hu : Part true w u)
    (hv : Part false w v) : Part b w (u ++ v) :=
  ⟨fun _ hnil => hu.1 rfl (List.append_eq_nil_iff.1 hnil).1,
    fun hw => (hu.2 hw).append (hv.2 hw)⟩

/-- A reader comes to an answer on the tokens `ts`, if they leave `c` levels of
the depth `n`. -/
def Settles (n c : ℕ) (b w : Bool) (ts : List Token) (p : Parse α) : Prop :=
  SettlesBy n c (Part b w) ts p

namespace Settles

variable {n c : ℕ} {b w : Bool} {ts : List Token} {p : Parse α}

theorem pure (a : α) : Settles n c false w ts (Pure.pure a) := SettlesBy.pure a .nil

/-- One reader after the other, with no more tokens ahead. -/
theorem shorter {f : α → Parse β} (hp : Settles n c false w ts p)
    (hf : ∀ a v, v.length ≤ ts.length → Settles n c b w v (f a)) :
    Settles n c b w ts (p >>= f) := by
  refine SettlesBy.bind hp (fun a u v heq _ => ?_) fun _ _ => Part.append
  exact (hf a v (by simp [heq])).deepen (Nat.le_add_right c _)

theorem bind {f : α → Parse β} (hp : Settles n c false w ts p)
    (hf : ∀ a v, Settles n c b w v (f a)) : Settles n c b w ts (p >>= f) :=
  hp.shorter fun a v _ => hf a v

/-- The same, where it makes no difference what the first one read. -/
theorem seq {f : α → Parse β} (hp : Settles n c false w ts p)
    (hf : ∀ {a v}, Settles n c b w v (f a)) : Settles n c b w ts (p >>= f) := hp.bind fun _ _ => hf

/-- What follows a token has two levels more, and fewer tokens ahead. -/
theorem rounds {f : α → Parse β} (hp : Settles n c true w ts p)
    (hf : ∀ a v, v.length < ts.length → Settles n (c + 2) false w v (f a)) :
    Settles n c b w ts (p >>= f) := by
  refine SettlesBy.bind hp (fun a u v heq hu => ?_) fun _ _ => Part.append_left
  have hlen := List.length_pos_iff.2 (hu.1 rfl)
  have hsize := Token.sizes_pos (hu.1 rfl)
  exact (hf a v (by simp [heq]; omega)).deepen (by omega)

theorem after {f : α → Parse β} (hp : Settles n c true w ts p)
    (hf : ∀ {a v}, Settles n (c + 2) false w v (f a)) : Settles n c b w ts (p >>= f) :=
  hp.rounds fun _ _ _ => hf

theorem map (f : α → β) (h : Settles n c b w ts p) : Settles n c b w ts (f <$> p) :=
  SettlesBy.map f h

theorem discard (h : Settles n c b w ts p) : Settles n c b w ts (Functor.discard p) := h.map _

/-- A value made of what a reader gave. -/
theorem bindPure {f : α → β} (h : Settles n c b w ts p) :
    Settles n c b w ts (p >>= fun a => Pure.pure (f a)) := h.map f

theorem tokens {f : List Token → Parse α} (h : Settles n c b w ts (f ts)) :
    Settles n c b w ts (Parse.tokens >>= f) := h

theorem ite {q : Parse α} {d : Prop} [Decidable d] (hp : d → Settles n c b w ts p)
    (hq : ¬d → Settles n c b w ts q) : Settles n c b w ts (if d then p else q) := by
  split
  · exact hp ‹_›
  · exact hq ‹_›

/-- The same, where the answer is of no use to the readers. -/
theorem choice {q : Parse α} {d : Prop} [Decidable d] (hp : Settles n c b w ts p)
    (hq : Settles n c b w ts q) : Settles n c b w ts (if d then p else q) :=
  ite (fun _ => hp) fun _ => hq

theorem fail {e : Cause} (he : e ≠ .tooDeep) : Settles n c b w ts (Parse.fail (α := α) e) :=
  fun _ _ => .error he

theorem failHere {e : Cause} (he : e ≠ .tooDeep) :
    Settles n c b w ts (Parse.failHere (α := α) e) := fun _ _ => .error he

theorem expect (what : List Expectation) : Settles n c b w ts (Parse.expect (α := α) what) :=
  failHere nofun

/-- A failure, where nothing follows. -/
theorem bindFail {e : Cause} {f : α → Parse β} (he : e ≠ .tooDeep) :
    Settles n c b w ts (Parse.fail e >>= f) := fun _ _ => .error he

theorem bindFailHere {e : Cause} {f : α → Parse β} (he : e ≠ .tooDeep) :
    Settles n c b w ts (Parse.failHere e >>= f) := fun _ _ => .error he

theorem bindExpect {f : α → Parse β} (what : List Expectation) :
    Settles n c b w ts (Parse.expect what >>= f) := fun _ _ => .error nofun

/-- One of two readers, and what follows either. -/
theorem either {q : Parse α} {f : α → Parse β} {d : Prop} [Decidable d]
    (hp : d → Settles n c false w ts p) (hq : ¬d → Settles n c false w ts q)
    (hf : ∀ {a v}, Settles n c b w v (f a)) :
    Settles n c b w ts (if d then p >>= f else q >>= f) :=
  ite (fun hd => (hp hd).seq hf) fun hd => (hq hd).seq hf

theorem afterEither {q : Parse α} {f : α → Parse β} {d : Prop} [Decidable d]
    (hp : d → Settles n c true w ts p) (hq : ¬d → Settles n c true w ts q)
    (hf : ∀ {a v}, Settles n (c + 2) false w v (f a)) :
    Settles n c b w ts (if d then p >>= f else q >>= f) :=
  ite (fun hd => (hp hd).after hf) fun hd => (hq hd).after hf

/-- A reader that is run on a condition, and what follows either way. -/
theorem when {p : Parse PUnit} {f : PUnit → Parse β} {d : Prop} [Decidable d]
    (hp : d → Settles n c false w ts p) (hf : ∀ {v}, Settles n c b w v (f ⟨⟩)) :
    Settles n c b w ts (if d then p >>= f else f ⟨⟩) :=
  ite (fun hd => (hp hd).seq hf) fun _ => hf

/-! ## Single tokens -/

theorem skip {k : ℕ} (hb : b = true → 0 < k ∧ ts ≠ []) (hw : Proper (ts.take k)) :
    Settles n c b w ts (Parse.skip k) := by
  refine SettlesBy.skip ⟨fun h hnil => ?_, fun _ => hw⟩
  obtain ⟨hk, hts⟩ := hb h
  rcases List.take_eq_nil_iff.1 hnil with rfl | rfl
  · exact absurd hk (Nat.lt_irrefl 0)
  · exact hts rfl

/-- Passing over tokens of which only the number matters. -/
theorem skip_loose (k : ℕ) : Settles n c false false ts (Parse.skip k) :=
  SettlesBy.skip ⟨nofun, nofun⟩

/-- Passing over two reserved words that are ahead. -/
theorem skip_keywords {k k' : Keyword} (h : isKeyword k ts = true)
    (h' : isKeyword k' (ts.drop 1) = true) : Settles n c b w ts (Parse.skip 2) := by
  rcases ts with _ | ⟨(_ | _ | _ | _ | _) | _, _ | ⟨(_ | _ | _ | _ | _) | _, v⟩⟩
  case cons.leaf.keyword.cons.leaf.keyword =>
    exact skip (fun _ => ⟨Nat.two_pos, List.cons_ne_nil _ _⟩) (.of_notMem fun joint => by simp)
  all_goals first | cases h | cases h'

/-- Passing over one token that is no `#`. -/
theorem skip_one {t : Token} {v : List Token} (ht : ∀ joint, t ≠ .leaf (.punct '#' joint)) :
    Settles n c b w (t :: v) (Parse.skip 1) := by
  refine skip (fun _ => ⟨Nat.one_pos, List.cons_ne_nil t v⟩) (.of_notMem fun joint hmem => ?_)
  exact ht joint (List.mem_singleton.1 hmem).symm

end Settles

/-- The tokens of a run of punctuation are those it is written with. -/
theorem mem_chars_of_mem_take {cs : List Char} {ts : List Token} (h : startsPunct cs ts = true)
    {c : Char} {joint : Bool} (hmem : .leaf (.punct c joint) ∈ ts.take cs.length) : c ∈ cs := by
  induction cs generalizing ts with
  | nil => simp at hmem
  | cons d cs ih =>
    rcases ts with _ | ⟨(_ | _ | _ | ⟨d', joint'⟩ | _) | _, ts⟩
    case cons.leaf.punct =>
      cases cs with
      | nil =>
        obtain rfl : d = d' := of_decide_eq_true h
        simp_all
      | cons d'' cs =>
        rw [startsPunct_cons, Bool.and_eq_true, Bool.and_eq_true] at h
        obtain rfl : d = d' := of_decide_eq_true h.1.1
        rcases List.mem_cons.1 hmem with heq | hmem
        · simp_all
        · exact List.mem_cons_of_mem d (ih h.2 hmem)
    all_goals cases cs <;> simp_all [startsPunct]

theorem Symbol.hash_notMem_chars {y : Symbol} (h : y ≠ .hash) : '#' ∉ y.chars := by
  cases y <;> first | exact absurd rfl h | decide

theorem Symbol.chars_ne_nil (y : Symbol) : y.chars ≠ [] := by cases y <;> nofun

theorem ne_nil_of_isSymbol {y : Symbol} {ts : List Token} (h : isSymbol y ts = true) :
    ts ≠ [] := by
  rintro rfl
  obtain ⟨c, cs, hcs⟩ := List.exists_cons_of_ne_nil y.chars_ne_nil
  rw [isSymbol, hcs, startsPunct_nil] at h
  cases h

namespace Settles

variable {n c : ℕ} {b w : Bool} {ts : List Token} {p : Parse α}

/-- Passing over a symbol that is ahead. -/
theorem skip_symbol {y : Symbol} (hy : y ≠ .hash) (h : isSymbol y ts = true) :
    Settles n c b w ts (Parse.skip y.chars.length) :=
  skip (fun _ => ⟨List.length_pos_iff.2 y.chars_ne_nil, ne_nil_of_isSymbol h⟩)
    (.of_notMem fun _ hmem => Symbol.hash_notMem_chars hy (mem_chars_of_mem_take h hmem))

theorem symbol {y : Symbol} (hy : y ≠ .hash) : Settles n c b w ts (Parse.symbol y) :=
  tokens (ite (fun h => skip_symbol hy h) fun _ => fail nofun)

/-- A symbol that may be there, and what follows either way. -/
theorem symbolRounds {y : Symbol} {f : Bool → Parse α} (hy : y ≠ .hash)
    (ht : ∀ v, v.length < ts.length → Settles n (c + 2) false w v (f true))
    (hf : Settles n c b w ts (f false)) : Settles n c b w ts (Parse.symbol? y >>= f) := by
  by_cases h : isSymbol y ts = true
  · have hskip : Settles n c true w ts (Parse.skip y.chars.length) := skip_symbol hy h
    have hall : Settles n c b w ts (Parse.skip y.chars.length >>= fun _ => f true) :=
      hskip.rounds fun _ => ht
    intro hn note
    rw [Parse.bind_apply, Parse.symbol?_apply, if_pos h]
    exact hall hn note
  · intro hn note
    rw [Parse.bind_apply, Parse.symbol?_apply, if_neg h]
    exact hf hn note

theorem symbolThen {y : Symbol} {f : Bool → Parse α} (hy : y ≠ .hash)
    (ht : ∀ {v}, Settles n (c + 2) false w v (f true)) (hf : Settles n c b w ts (f false)) :
    Settles n c b w ts (Parse.symbol? y >>= f) := symbolRounds hy (fun _ _ => ht) hf

theorem symbol? {y : Symbol} (hy : y ≠ .hash) : Settles n c false w ts (Parse.symbol? y) := by
  have h : Settles n c false w ts (Parse.symbol? y >>= Pure.pure) :=
    symbolThen hy (pure _) (pure _)
  rwa [bind_pure] at h

/-- Passing over a reserved word that is ahead. -/
theorem skip_keyword {k : Keyword} (h : isKeyword k ts = true) :
    Settles n c b w ts (Parse.skip 1) := by
  rcases ts with _ | ⟨(_ | _ | _ | _ | _) | _, v⟩
  case cons.leaf.keyword => exact skip_one nofun
  all_goals cases h

theorem keyword (k : Keyword) : Settles n c b w ts (Parse.keyword k) :=
  tokens (ite skip_keyword fun _ => expect _)

theorem keywordRounds {k : Keyword} {f : Bool → Parse α}
    (ht : ∀ v, v.length < ts.length → Settles n (c + 2) false w v (f true))
    (hf : Settles n c b w ts (f false)) : Settles n c b w ts (Parse.keyword? k >>= f) := by
  by_cases h : isKeyword k ts = true
  · have hskip : Settles n c true w ts (Parse.skip 1) := skip_keyword h
    have hall : Settles n c b w ts (Parse.skip 1 >>= fun _ => f true) :=
      hskip.rounds fun _ => ht
    intro hn note
    have heq : Parse.keyword? k ⟨ts, note⟩ = .ok (true, ⟨ts.drop 1, note⟩) := by
      simp only [Parse.keyword?, Parse.bind_apply, Parse.tokens, if_pos h]
      rfl
    rw [Parse.bind_apply, heq]
    exact hall hn note
  · intro hn note
    have heq : Parse.keyword? k ⟨ts, note⟩ = .ok (false, ⟨ts, note⟩) := by
      simp only [Parse.keyword?, Parse.bind_apply, Parse.tokens, if_neg h]
      rfl
    rw [Parse.bind_apply, heq]
    exact hf hn note

theorem keywordThen {k : Keyword} {f : Bool → Parse α}
    (ht : ∀ {v}, Settles n (c + 2) false w v (f true)) (hf : Settles n c b w ts (f false)) :
    Settles n c b w ts (Parse.keyword? k >>= f) := keywordRounds (fun _ _ => ht) hf

theorem keyword? (k : Keyword) : Settles n c false w ts (Parse.keyword? k) := by
  have h : Settles n c false w ts (Parse.keyword? k >>= Pure.pure) := keywordThen (pure _) (pure _)
  rwa [bind_pure] at h

theorem ident : Settles n c b w ts Parse.ident := by
  refine tokens ?_
  rcases ts with _ | ⟨(_ | _ | _ | _ | _) | _, v⟩
  case cons.leaf.ident => exact bindPure (skip_one nofun)
  case cons.leaf.keyword => exact failHere nofun
  all_goals exact expect _

theorem anyWord : Settles n c b w ts Parse.anyWord := by
  refine tokens ?_
  rcases ts with _ | ⟨(_ | _ | _ | _ | _) | _, v⟩
  case cons.leaf.ident => exact bindPure (skip_one nofun)
  case cons.leaf.keyword => exact bindPure (skip_one nofun)
  all_goals exact expect _

theorem lifetime : Settles n c b w ts Parse.lifetime := by
  refine tokens ?_
  rcases ts with _ | ⟨(_ | _ | _ | _ | _) | _, v⟩
  case cons.leaf.lifetime => exact bindPure (skip_one nofun)
  all_goals exact expect _

theorem lifetime? : Settles n c false w ts Parse.lifetime? := by
  refine tokens ?_
  rcases ts with _ | ⟨(_ | _ | _ | _ | _) | _, v⟩
  case cons.leaf.lifetime => exact bindPure (skip_one nofun)
  all_goals exact pure _

/-- Reading a literal that is ahead. -/
theorem literal (h : isLiteral ts = true) : Settles n c b w ts Parse.literal := by
  refine tokens ?_
  rcases ts with _ | ⟨(_ | _ | _ | ⟨d, joint⟩ | _) | _, v⟩
  case cons.leaf.punct =>
    rw [isLiteral_punct, Bool.and_eq_true] at h
    obtain rfl : d = '-' := of_decide_eq_true h.1
    refine skip (fun _ => ⟨Nat.two_pos, List.cons_ne_nil _ v⟩) (.of_notMem fun joint' hmem => ?_)
    rcases v with _ | ⟨(_ | _ | _ | _ | _) | _, v⟩ <;> simp_all [isNumber]
  case cons.leaf.ident => cases h
  case cons.leaf.lifetime => cases h
  case cons.leaf.keyword => exact skip_one nofun
  case cons.leaf.literal => exact skip_one nofun
  all_goals cases h

/-- Passing over a test's token that is ahead: an identifier. -/
theorem skip_ident (h : isIdent ts = true) : Settles n c b w ts (Parse.skip 1) := by
  rcases ts with _ | ⟨(_ | _ | _ | _ | _) | _, v⟩
  case cons.leaf.ident => exact skip_one nofun
  all_goals cases h

theorem skip_word {name : String} (h : isWord name ts = true) :
    Settles n c b w ts (Parse.skip 1) := by
  rcases ts with _ | ⟨(_ | _ | _ | _ | _) | _, v⟩
  case cons.leaf.ident => exact skip_one nofun
  all_goals cases h

theorem skip_keywordOf {ks : List Keyword} (h : isKeywordOf ks ts = true) :
    Settles n c b w ts (Parse.skip 1) := by
  obtain ⟨k, -, hk⟩ := List.any_eq_true.1 h
  exact skip_keyword hk

theorem skip_string (h : isString ts = true) : Settles n c b w ts (Parse.skip 1) := by
  rcases ts with _ | ⟨(_ | _ | _ | _ | _) | _, v⟩
  case cons.leaf.literal => exact skip_one nofun
  all_goals cases h

theorem skip_group {d : Delimiter} (h : isGroup d ts = true) :
    Settles n c b w ts (Parse.skip 1) := by
  rcases ts with _ | ⟨(_ | _ | _ | _ | _) | _, v⟩
  case cons.group => exact skip_one nofun
  all_goals cases h

theorem skip_anyGroup (h : isAnyGroup ts = true) : Settles n c b w ts (Parse.skip 1) := by
  rcases ts with _ | ⟨(_ | _ | _ | _ | _) | _, v⟩
  case cons.group => exact skip_one nofun
  all_goals cases h

/-! ## Brackets and spans -/

/-- What is between brackets has four levels more. -/
theorem within {d : Delimiter} (h : ∀ {v}, Settles n (c + 4) false false v p) :
    Settles n c b w ts (Parse.within d p) :=
  SettlesBy.within (fun _ _ => ⟨nofun, fun _ => .of_notMem fun joint => by simp⟩) fun _ =>
    h.mono fun _ _ => trivial

theorem anyGroup : Settles n c b w ts Parse.anyGroup := by
  refine tokens ?_
  rcases ts with _ | ⟨(_ | _ | _ | _ | _) | _, v⟩
  case cons.group => exact bindPure (skip_one nofun)
  all_goals exact expect _

theorem spanned (h : Settles n c b w ts p) : Settles n c b w ts (Parse.spanned p) :=
  SettlesBy.spanned h

theorem span (h : Settles n c b w ts p) : Settles n c b w ts (Parse.span p) := SettlesBy.span h

/-- Reading that may be taken back, and what follows either way. -/
theorem attemptThen {f : Option α → Parse β} (hp : Settles n c true w ts p)
    (hsome : ∀ {a v}, Settles n (c + 2) false w v (f (some a)))
    (hnone : Settles n c b w ts (f none)) : Settles n c b w ts (Parse.attempt p >>= f) := by
  intro hn note
  have hall : Settles n c b w ts (p >>= fun a => f (some a)) := hp.after hsome
  have hall := hall hn note
  rw [Parse.bind_apply] at hall ⊢
  have hres := hp hn note
  unfold Parse.attempt
  generalize p ⟨ts, note⟩ = r at hres hall
  cases hres with
  | error cause =>
    simp only [if_neg cause]
    exact hnone hn note
  | ok eq taken notes => exact hall

/-- Looking ahead, with nothing read. -/
theorem lookAhead {f : Option (α × List Token) → Parse β} (hp : Settles n c false w ts p)
    (hf : ∀ r, Settles n c b w ts (f r)) : Settles n c b w ts (Parse.lookAhead p >>= f) := by
  intro hn note
  have hres := hp hn note
  rw [Parse.bind_apply]
  unfold Parse.lookAhead
  generalize p ⟨ts, note⟩ = r at hres
  cases hres with
  | error cause =>
    simp only [if_neg cause]
    exact hf none hn note
  | ok eq taken notes => exact hf _ hn note

/-- Looking ahead. Where the reader would refuse, it is run and refuses. -/
theorem lookAheadThen {f : Option (α × List Token) → Parse β} {g : α → Parse β}
    (hp : Settles n c false w ts p)
    (hsome : ∀ a rest, Settles n c b w ts (f (some (a, rest)))) (hnone : f none = p >>= g) :
    Settles n c b w ts (Parse.lookAhead p >>= f) := by
  intro hn note
  have hres := hp hn note
  rw [Parse.bind_apply]
  unfold Parse.lookAhead
  generalize hr : p ⟨ts, note⟩ = r at hres
  cases hres with
  | error cause =>
    simp only [if_neg cause, hnone, Parse.bind_apply, hr]
    exact .error cause
  | ok eq taken notes => exact hsome _ _ hn note

/-! ## Repetition -/

theorem repeatIn {more : List Token → Bool} (h : ∀ v, more v = true → Settles n c true w v p)
    {k : ℕ} (hk : ts.length < k) : Settles n c false w ts (Parse.repeatIn more p k) :=
  SettlesBy.repeatIn (fun _ hu => hu.1 rfl) .nil (fun _ _ => Part.append_left) h hk

theorem repeatWhile {more : List Token → Bool} (h : ∀ v, more v = true → Settles n c true w v p) :
    Settles n c false w ts (Parse.repeatWhile more p) :=
  tokens (repeatIn h (Nat.lt_succ_self _))

theorem repeatAll (h : ∀ {v}, Settles n c true w v p) :
    Settles n c false w ts (Parse.repeatAll p) := repeatWhile fun _ _ => h

/-- Rounds are divided by a separator, so they need not take a token
themselves. -/
theorem separatedIn {stop : List Token → Bool} {separator : Parse Unit}
    (hsep : ∀ v, Settles n c true w v separator) (h : ∀ v, Settles n c false w v p) {k : ℕ}
    (hk : ts.length < k) : Settles n c false w ts (Parse.separatedIn stop separator p k) := by
  induction k generalizing ts with
  | zero => exact absurd hk (Nat.not_lt_zero _)
  | succ k ih =>
    unfold Parse.separatedIn
    refine tokens (ite (fun _ => pure _) fun _ => shorter (h ts) fun a v hv => tokens ?_)
    refine ite (fun _ => pure _) fun _ => rounds (hsep v) fun _ v' hv' => bindPure ?_
    exact (ih (by omega)).deepen (Nat.le_add_right c 2)

theorem separated {stop : List Token → Bool} {separator : Parse Unit}
    (hsep : ∀ v, Settles n c true w v separator) (h : ∀ v, Settles n c false w v p) :
    Settles n c false w ts (Parse.separated stop separator p) :=
  tokens (separatedIn hsep h (Nat.lt_succ_self _))

theorem commas (h : ∀ {v}, Settles n c false w v p) : Settles n c false w ts (Parse.commas p) :=
  separated (fun _ => symbol (by decide)) fun _ => h

theorem linkedIn {stop : List Token → Bool} {link : Symbol} (hlink : link ≠ .hash)
    (h : ∀ v, Settles n c false w v p) {k : ℕ} (hk : ts.length < k) :
    Settles n c false w ts (Parse.linkedIn stop link p k) := by
  induction k generalizing ts with
  | zero => exact absurd hk (Nat.not_lt_zero _)
  | succ k ih =>
    unfold Parse.linkedIn
    refine tokens (ite (fun _ => pure _) fun _ => shorter (h ts) fun a v hv => ?_)
    refine symbolRounds hlink (fun v' hv' => ?_) (pure _)
    exact bindPure ((ih (by omega)).deepen (Nat.le_add_right c 2))

theorem linked {stop : List Token → Bool} {link : Symbol} (hlink : link ≠ .hash)
    (h : ∀ v, Settles n c false w v p) : Settles n c false w ts (Parse.linked stop link p) :=
  tokens (linkedIn hlink h (Nat.lt_succ_self _))

end Settles

/-! ## Rules -/

/-- A set of rules comes to an answer within the depth `n`. The number of levels
that a rule needs on top of its tokens is greater than that of every rule it
uses before it takes a token. -/
structure Rules.Settle (R : Rules) (n : ℕ) : Prop where
  binder : ∀ {c b w ts}, 1 ≤ c → Settles n c b w ts R.binder
  bound : ∀ {c b w ts capture const}, 2 ≤ c → Settles n c b w ts (R.bound capture const)
  pattern : ∀ {c b w ts}, 2 ≤ c → Settles n c b w ts R.pattern
  unary : ∀ {c b w ts structs}, 2 ≤ c → Settles n c b w ts (R.unary structs)
  climb : ∀ {c w ts lhs structs base}, 2 ≤ c → Settles n c false w ts (R.climb lhs structs base)
  trailers : ∀ {c w ts e}, 2 ≤ c → Settles n c false w ts (R.trailers e)
  item : ∀ {c b w ts}, 2 ≤ c → Settles n c b w ts R.item
  useTree : ∀ {c b w ts root}, 2 ≤ c → Settles n c b w ts (R.useTree root)
  namedFields : ∀ {c b w ts}, 2 ≤ c → Settles n c b w ts R.namedFields
  type : ∀ {c b w ts plus}, 3 ≤ c → Settles n c b w ts (R.type plus)
  expr : ∀ {c b w ts structs}, 3 ≤ c → Settles n c b w ts (R.expr structs)
  early : ∀ {c b w ts}, 3 ≤ c → Settles n c b w ts R.early
  stmts : ∀ {c w ts}, 4 ≤ c → Settles n c false w ts R.stmts

end Grammar

end ProcessCompiler
