import ProcessCompiler.Proofs.Grammar.ExpressionStatement
/-!
# Declarations read as expressions

A declaration begins with a word of its own, or with a name before another word.
No expression begins with the first, and before the second an expression is over
behind the name. One declaration is an expression as well: the call of a macro by
the word `crate` alone.
-/

namespace ProcessCompiler

namespace Grammar

open Parse

variable {R : Rules} {ts x rest : List Token} {note note' : Option Delimiter}
  {structs : Bool} {e : Expr} {st : Stream} {i : Item}

/-! ## Words that begin declarations -/

/-- The words that begin nothing but declarations. -/
def itemWords : List Keyword :=
  [.pub_, .extern_, .use_, .fn_, .mod_, .type_, .struct_, .enum_, .trait_, .impl_, .macro_]

theorem not_atom_of_mem_itemWords {k : Keyword} (hk : k ∈ itemWords) :
    atom R structs ⟨.leaf (.keyword k) :: x, note⟩ ≠ .ok (e, st) := by
  simp only [itemWords, List.mem_cons, List.not_mem_nil, or_false] at hk
  rcases hk with rfl | rfl | rfl | rfl | rfl | rfl | rfl | rfl | rfl | rfl | rfl <;> nofun

theorem discard_keyword? {k : Keyword} (h : isKeyword k ts = false) :
    (discard (keyword? k) : Parse Unit) ⟨ts, note⟩ = .ok ((), ⟨ts, note⟩) := by
  have hread : keyword? k ⟨ts, note⟩ = .ok (false, ⟨ts, note⟩) := by
    simp only [keyword?, Parse.bind_apply, tokens, h]
    rfl
  show (keyword? k >>= fun _ => pure ()) ⟨ts, note⟩ = _
  rw [Parse.bind_apply, hread]
  rfl

/-- The words before a closure are followed by a bar. -/
theorem not_closure_of_const (hstatic : isKeyword .static_ x = false)
    (hmove : isKeyword .move_ x = false) (hbar : isSymbol .bar x = false)
    (hasync : isKeyword .async_ x = true → isKeywordOf [.unsafe_, .extern_, .fn_] (x.drop 1) = true) :
    closure R structs ⟨.leaf (.keyword .const_) :: x, note⟩ ≠ .ok (e, st) := by
  intro h
  obtain ⟨head, st₁, hspan, -⟩ := bind_ok h
  obtain ⟨⟨⟨⟩, us⟩, st₂, hspanned, -⟩ := bind_ok hspan
  obtain ⟨us, st₃, htokens, hspanned⟩ := bind_ok hspanned
  cases htokens
  obtain ⟨⟨⟩, st₃, hhead, -⟩ := bind_ok hspanned
  obtain ⟨⟨⟩, st₄, hword, hhead⟩ := bind_ok hhead
  cases hword
  obtain ⟨⟨⟩, st₄, hword, hhead⟩ := bind_ok hhead
  cases hword
  obtain ⟨⟨⟩, st₄, hword, hhead⟩ := bind_ok hhead
  cases hword.symm.trans (discard_keyword? hstatic)
  by_cases ha : isKeyword .async_ x = true
  · obtain ⟨y, rfl⟩ := exists_of_isKeyword ha
    obtain ⟨k, hk, z, rfl⟩ : ∃ k ∈ [Keyword.unsafe_, .extern_, .fn_], ∃ z, y = .leaf (.keyword k) :: z := by
      obtain ⟨k, hk, h⟩ := List.any_eq_true.1 (hasync rfl)
      exact ⟨k, hk, exists_of_isKeyword h⟩
    simp only [List.mem_cons, List.not_mem_nil, or_false] at hk
    rcases hk with rfl | rfl | rfl <;> cases hhead
  · obtain ⟨⟨⟩, st₄, hword, hhead⟩ := bind_ok hhead
    cases hword.symm.trans (discard_keyword? (Bool.eq_false_iff.2 ha))
    obtain ⟨⟨⟩, st₄, hword, hhead⟩ := bind_ok hhead
    cases hword.symm.trans (discard_keyword? hmove)
    obtain ⟨⟨⟩, st₄, hword, hhead⟩ := bind_ok hhead
    exact Bool.false_ne_true (hbar.symm.trans (isSymbol_of_symbol hword))

theorem not_bracedBody {body : List Stmt} (h : isGroup .brace ts = false) :
    bracedBody R ⟨ts, note⟩ ≠ .ok (body, st) := by
  intro hread
  unfold bracedBody Parse.within at hread
  split at hread
  · rename_i hts
    obtain rfl : ts = _ := hts
    split at hread
    · rename_i hd
      rw [isGroup, hd] at h
      cases h
    · cases hread
  · cases hread

theorem exists_of_isIdent (h : isIdent ts = true) : ∃ w x, ts = .leaf (.ident w) :: x := by
  unfold isIdent at h
  split at h
  · exact ⟨_, _, rfl⟩
  · cases h

theorem atom_const (h : isGroup .brace x = false) :
    atom R structs ⟨.leaf (.keyword .const_) :: x, note⟩ =
      closure R structs ⟨.leaf (.keyword .const_) :: x, note⟩ := by
  simp only [atom, Parse.bind_apply, tokens]
  rw [if_neg (by simp [isLiteral]), if_neg (by simp [isKeyword]), if_neg (by simp [isKeyword]),
    if_pos (by simp [startsClosure, isKeyword, h])]

theorem not_atom_unsafe (h : isGroup .brace x = false) :
    atom R structs ⟨.leaf (.keyword .unsafe_) :: x, note⟩ ≠ .ok (e, st) := by
  have hblock : atom R structs ⟨.leaf (.keyword .unsafe_) :: x, note⟩ =
      wordedBlock R .unsafe_ .unsafe_ ⟨.leaf (.keyword .unsafe_) :: x, note⟩ := rfl
  rw [hblock]
  intro hread
  obtain ⟨⟨⟩, st₁, hunsafe, hread⟩ := bind_ok hread
  cases hunsafe
  obtain ⟨body, st₁, hbody, -⟩ := bind_ok hread
  exact not_bracedBody h hbody

/-- The word of a variable, with a name where a closure has its bar. -/
theorem not_atom_static (h : isKeyword .mut_ x = true ∨ isIdent x = true) :
    atom R structs ⟨.leaf (.keyword .static_) :: x, note⟩ ≠ .ok (e, st) := by
  rcases h with h | h
  · obtain ⟨y, rfl⟩ := exists_of_isKeyword h
    nofun
  · obtain ⟨w, y, rfl⟩ := exists_of_isIdent h
    nofun

/-- The word of a function that is run later. -/
theorem not_atom_async (h : isKeywordOf [.unsafe_, .extern_, .fn_] x = true) :
    atom R structs ⟨.leaf (.keyword .async_) :: x, note⟩ ≠ .ok (e, st) := by
  obtain ⟨k, hk, hword⟩ := List.any_eq_true.1 h
  obtain ⟨y, rfl⟩ := exists_of_isKeyword hword
  simp only [List.mem_cons, List.not_mem_nil, or_false] at hk
  rcases hk with rfl | rfl | rfl <;> nofun

/-- **What a declaration begins with**: the word `crate`, a name before another
word, or a word that no atom begins with here. -/
inductive ItemStart : List Token → Prop
  | crate {x : List Token} (hcolon : isSymbol .colon2 x = false) :
    ItemStart (.leaf (.keyword .crate_) :: x)
  | name {w : String} {x : List Token} (hnext : isAnyWord x = true)
    (has : isKeyword .as_ x = false) : ItemStart (.leaf (.ident w) :: x)
  | word {k : Keyword} {x : List Token} (has : k ≠ .as_)
    (hatom : ∀ R structs note e st, atom R structs ⟨.leaf (.keyword k) :: x, note⟩ ≠ .ok (e, st)) :
    ItemStart (.leaf (.keyword k) :: x)

theorem itemStart_of_mem_itemWords {k : Keyword} (hk : k ∈ itemWords) (h : isKeyword k ts = true) :
    ItemStart ts := by
  obtain ⟨x, rfl⟩ := exists_of_isKeyword h
  refine .word ?_ fun _ _ _ _ _ => not_atom_of_mem_itemWords hk
  rintro rfl
  revert hk
  decide

theorem itemStart_of_isWord {w : String} (h : isWord w ts = true)
    (hnext : isAnyWord (ts.drop 1) = true) (has : isKeyword .as_ (ts.drop 1) = false) :
    ItemStart ts := by
  unfold isWord at h
  split at h
  · exact .name hnext has
  · cases h

theorem itemStart_of_startsItem (h : startsItem ts = true) : ItemStart ts := by
  -- One case for each choice of `startsItem`, in its order.
  simp only [startsItem, Bool.or_eq_true, Bool.and_eq_true, Bool.not_eq_true', isKeywordOf,
    List.any_cons, List.any_nil, Bool.or_false, or_assoc] at h
  rcases h with h | ⟨h, hcolon⟩ | h | h | ⟨h, hnext⟩ | ⟨h, hnext⟩ | ⟨h, hbrace⟩ | ⟨h, hnext⟩ |
    h | h | h | h | h | ⟨h, hnext⟩ | ⟨h, hnext⟩ | h | ⟨h, hnext⟩ | h | h
  · exact itemStart_of_mem_itemWords (by decide) h
  · obtain ⟨x, rfl⟩ := exists_of_isKeyword h
    exact .crate hcolon
  · exact itemStart_of_mem_itemWords (by decide) h
  · exact itemStart_of_mem_itemWords (by decide) h
  · obtain ⟨x, rfl⟩ := exists_of_isKeyword h
    exact .word (by decide) fun _ _ _ _ _ => not_atom_static hnext
  · -- A constant, with no block and no closure behind the word.
    obtain ⟨x, rfl⟩ := exists_of_isKeyword h
    simp only [List.drop_succ_cons, List.drop_zero, Bool.or_eq_false_iff, Bool.and_eq_false_imp,
      Bool.not_eq_false'] at hnext
    obtain ⟨⟨⟨⟨hbrace, hstatic⟩, hasync⟩, hmove⟩, hbar⟩ := hnext
    refine .word (by decide) fun R structs note e st => ?_
    rw [atom_const hbrace]
    exact not_closure_of_const hstatic hmove hbar (by simpa [isKeywordOf] using hasync)
  · obtain ⟨x, rfl⟩ := exists_of_isKeyword h
    exact .word (by decide) fun _ _ _ _ _ => not_atom_unsafe hbrace
  · obtain ⟨x, rfl⟩ := exists_of_isKeyword h
    have hasync : isKeywordOf [.unsafe_, .extern_, .fn_] x = true := by
      simpa [isKeywordOf] using hnext
    exact .word (by decide) fun _ _ _ _ _ => not_atom_async hasync
  · exact itemStart_of_mem_itemWords (by decide) h
  · exact itemStart_of_mem_itemWords (by decide) h
  · exact itemStart_of_mem_itemWords (by decide) h
  · exact itemStart_of_mem_itemWords (by decide) h
  · exact itemStart_of_mem_itemWords (by decide) h
  · obtain ⟨v, y, hy⟩ := exists_of_isIdent hnext
    exact itemStart_of_isWord h (by rw [hy]; rfl) (by rw [hy]; rfl)
  · obtain ⟨y, hy⟩ := exists_of_isKeyword hnext
    exact itemStart_of_isWord h (by rw [hy]; rfl) (by rw [hy]; rfl)
  · exact itemStart_of_mem_itemWords (by decide) h
  · rcases hnext with hnext | hnext <;>
    · obtain ⟨y, hy⟩ := exists_of_isKeyword hnext
      exact itemStart_of_isWord h (by rw [hy]; rfl) (by rw [hy]; rfl)
  · exact itemStart_of_mem_itemWords (by decide) h
  · exact itemStart_of_mem_itemWords (by decide) h

/-! ## What an expression takes of a declaration -/

/-- A name before another word is an atom of its own. -/
theorem atom_of_word {w : String} (h : isAnyWord x = true) :
    atom R true ⟨.leaf (.ident w) :: x, note⟩ =
      .ok (.path ⟨none, false, [⟨w, .absent⟩]⟩, ⟨x, note⟩) := by
  have hhash : isSymbol .hash x = false := by
    unfold isAnyWord at h
    split at h
    · rfl
    · rfl
    · cases h
  simp only [atom, Parse.bind_apply, tokens]
  rw [if_neg (by simp [isLiteral]), if_neg (by simp [isKeyword]), if_neg (by simp [isKeyword]),
    if_neg (by simp [startsClosure, isKeyword, isSymbol, startsPunct, Symbol.chars]),
    if_neg (by simp [hhash]), if_pos (by simp [startsPathExpr, isPathWord, isIdent])]
  unfold isAnyWord at h
  split at h
  · rfl
  · rfl
  · cases h

/-- The call of a macro by the word `crate` alone. -/
def Item.callsCrate (i : Item) : Bool :=
  match i.tokens with
  | .leaf (.keyword .crate_) :: .leaf (.punct '!' _) :: .group _ _ :: _ => true
  | _ => false

theorem Item.exists_of_callsCrate (h : i.callsCrate = true) : ∃ joint d inner z,
    i.tokens = .leaf (.keyword .crate_) :: .leaf (.punct '!' joint) :: .group d inner :: z := by
  unfold callsCrate at h
  split at h
  · rename_i hi
    exact ⟨_, _, _, _, hi⟩
  · cases h

/-- The tokens of a declaration are those that are read. -/
theorem tokens_of_itemFrom (hagree : R.Agree R)
    (h : itemFrom R ⟨ts, note⟩ = .ok (i, ⟨rest, note'⟩)) :
    ts = i.tokens ++ rest ∧ itemTail R ⟨ts, note⟩ = .ok (i.kind, ⟨rest, note'⟩) := by
  obtain ⟨u, rfl⟩ := ((itemFrom_agree (S := .closed) (Q := fun _ => True) hagree
    fun _ _ => trivial).ok_suffix h).1
  obtain ⟨⟨kind, us⟩, st₁, hspanned, h⟩ := bind_ok h
  cases h
  obtain rfl := spanned_ok hspanned
  obtain ⟨before, st₂, htokens, hspanned⟩ := bind_ok hspanned
  cases htokens
  obtain ⟨kind', st₂, htail, hspanned⟩ := bind_ok hspanned
  obtain ⟨hpair, rfl⟩ := Prod.mk.inj (Except.ok.inj hspanned)
  obtain ⟨rfl, -⟩ := Prod.mk.inj hpair
  exact ⟨rfl, htail⟩

section

variable {joint : Bool} {d : Delimiter} {inner z : List Token}

/-- The atom that such a call is. -/
theorem atom_crate : atom R true
    ⟨.leaf (.keyword .crate_) :: .leaf (.punct '!' joint) :: .group d inner :: z, note⟩ =
      .ok (.macroCall ⟨⟨none, false, [⟨Keyword.crate_.text, .absent⟩]⟩, d, inner⟩, ⟨z, note⟩) := by
  cases joint <;> rfl

theorem itemTail_crate : itemTail R ⟨.leaf (.keyword .crate_) :: x, note⟩ =
    itemOf .macroCall macroItem ⟨.leaf (.keyword .crate_) :: x, note⟩ := rfl

theorem macroItem_crate :
    macroItem ⟨.leaf (.keyword .crate_) :: .leaf (.punct '!' joint) :: .group d inner :: z, note⟩ =
      (if d ≠ .brace then symbol .semi else pure ()) ⟨z, note⟩ := rfl

end

/-- Such a call ends behind its brackets, or with a semicolon behind them. -/
theorem stopsAt_of_callsCrate (hagree : R.Agree R) (hcalls : i.callsCrate = true)
    (h : itemFrom R ⟨ts, note⟩ = .ok (i, ⟨rest, note'⟩)) :
    note' = note ∧ ∃ m w, (Stmt.item i).StopsAt w rest ∧
      ∀ R', atom R' true ⟨ts, note⟩ = .ok (.macroCall m, ⟨w, note⟩) := by
  obtain ⟨hts, htail⟩ := tokens_of_itemFrom hagree h
  obtain ⟨joint, d, inner, z, hi⟩ := Item.exists_of_callsCrate hcalls
  rw [hi] at hts
  obtain rfl : ts = .leaf (.keyword .crate_) :: .leaf (.punct '!' joint) :: .group d inner ::
    (z ++ rest) := hts
  rw [itemTail_crate] at htail
  obtain ⟨⟨⟩, st₁, hread, hkind⟩ := bind_ok htail
  obtain rfl : st₁ = ⟨rest, note'⟩ := (Prod.mk.inj (Except.ok.inj hkind)).2
  rw [macroItem_crate] at hread
  split at hread
  · obtain ⟨joint', y, hy, hst⟩ := exists_of_symbol_semi hread
    cases hst
    have hz : z = [.leaf (.punct ';' joint')] := List.append_cancel_right (hy.trans rfl)
    refine ⟨rfl, _, _, .inr ⟨joint', hy, ?_⟩, fun R' => atom_crate⟩
    simp [Stmt.endsInSemi, hi, hz, Token.isSemi]
  · obtain ⟨hrest, rfl⟩ := Stream.mk.inj (Prod.mk.inj (Except.ok.inj hread)).2
    refine ⟨rfl, _, _, .inl ⟨hrest, ?_⟩, fun R' => atom_crate⟩
    simp [Stmt.endsInSemi, hi, List.append_left_eq_self.1 hrest, Token.isSemi]

/-- A macro that is called with a name behind the `!` is no atom. -/
theorem not_atom_of_callsMacro {p : Path} {mid : Stream} (h : CallsMacro ts note p mid)
    (hnext : isIdent (mid.tokens.drop 1) = true ∨ isKeyword .try_ (mid.tokens.drop 1) = true) :
    atom R true ⟨ts, note⟩ ≠ .ok (e, st) := by
  obtain ⟨hpath, hqualifier, hplain⟩ := path_of_plainPath (R := R) h.path
  obtain ⟨us, note₁⟩ := mid
  obtain ⟨joint, y, hy⟩ := exists_of_startsPunct h.bang
  obtain rfl : us = _ := hy
  have hbang : startsBang (.leaf (.punct '!' joint) :: y) = true ∧
      ∀ m st, macroTail p ⟨.leaf (.punct '!' joint) :: y, note₁⟩ ≠ .ok (m, st) := by
    rcases hnext with hnext | hnext
    · obtain ⟨w, z, hz⟩ := exists_of_isIdent hnext
      obtain rfl : y = _ := hz
      cases joint <;> exact ⟨rfl, fun _ _ => nofun⟩
    · obtain ⟨z, hz⟩ := exists_of_isKeyword hnext
      obtain rfl : y = _ := hz
      cases joint <;> exact ⟨rfl, fun _ _ => nofun⟩
  rw [atom_of_callsMacro h]
  intro hread
  simp only [pathExpr, Parse.bind_apply, hpath, tokens] at hread
  rw [if_pos (by simp [hqualifier, hplain, hbang.1])] at hread
  obtain ⟨m, st₁, hread, -⟩ := bind_ok hread
  exact hbang.2 m st₁ hread

theorem exists_of_anyGroup {d : Delimiter} {inner : List Token}
    (h : anyGroup ⟨ts, note⟩ = .ok ((d, inner), st)) :
    ∃ z, ts = .group d inner :: z ∧ st = ⟨z, note⟩ := by
  obtain ⟨us, st₁, htokens, h⟩ := bind_ok h
  cases htokens
  dsimp only at h
  split at h
  · cases h
    exact ⟨_, rfl, rfl⟩
  · cases h

/-- The call of a macro by `crate` has its brackets behind the `!`, or a name before
them. -/
theorem crate_cases (hcolon : isSymbol .colon2 x = false)
    (h : macroItem ⟨.leaf (.keyword .crate_) :: x, note⟩ = .ok ((), ⟨rest, note'⟩)) :
    (∃ p, CallsMacro (.leaf (.keyword .crate_) :: x) note p ⟨x, note⟩ ∧
      (isIdent (x.drop 1) = true ∨ isKeyword .try_ (x.drop 1) = true)) ∨
    ∃ joint d inner z, x = .leaf (.punct '!' joint) :: .group d inner :: (z ++ rest) := by
  obtain ⟨⟨⟩, mid, hdiscard, h⟩ := bind_ok h
  obtain ⟨p, hpath, -⟩ := map_ok hdiscard
  obtain rfl : mid = ⟨x, note⟩ := by
    obtain ⟨rooted, st₁, name, more, hroot, hname, -, hmore⟩ := plainPath_cases hpath
    cases hroot
    rcases plainSegments_cases hmore with ⟨-, -, rfl⟩ | ⟨hcolon', -⟩
    · rfl
    · exact (Bool.false_ne_true (hcolon.symm.trans hcolon')).elim
  obtain ⟨⟨⟩, st₁, hbang, h⟩ := bind_ok h
  have hbang' := isSymbol_of_symbol hbang
  obtain ⟨joint, y, hy⟩ := exists_of_startsPunct hbang'
  obtain rfl : x = _ := hy
  cases hbang
  obtain ⟨us, st₁, htokens, h⟩ := bind_ok h
  cases htokens
  split at h
  · rename_i hword
    exact .inl ⟨p, ⟨hpath, hbang'⟩, (Bool.or_eq_true_iff.1 hword).symm⟩
  · obtain ⟨⟨d, inner⟩, st₁, hgroup, h⟩ := bind_ok h
    obtain ⟨z, hz, rfl⟩ := exists_of_anyGroup hgroup
    obtain rfl : y = _ := hz
    dsimp only at h
    split at h
    · obtain ⟨joint', z, rfl, hst⟩ := exists_of_symbol_semi h
      cases hst
      exact .inr ⟨joint, d, inner, [_], rfl⟩
    · cases h
      exact .inr ⟨joint, d, inner, [], rfl⟩

/-- A declaration begins here: with a word of its own, or with a macro that is
called with a name. -/
def BeginsItem (ts : List Token) (note : Option Delimiter) : Prop :=
  startsItem ts = true ∨ ∃ p mid, CallsMacro ts note p mid ∧
    (isIdent (mid.tokens.drop 1) = true ∨ isKeyword .try_ (mid.tokens.drop 1) = true)

/-- **What an expression takes of a declaration** that calls no macro by the word
`crate`: one name, or nothing. -/
theorem atom_of_item (hagree : R.Agree R) (hstart : BeginsItem ts note)
    (h : itemFrom R ⟨ts, note⟩ = .ok (i, ⟨rest, note'⟩)) (hcalls : i.callsCrate = false) :
    (∃ w x, ts = .leaf (.ident w) :: x ∧ isAnyWord x = true ∧ isKeyword .as_ x = false) ∨
      ∀ R' e st, atom R' true ⟨ts, note⟩ ≠ .ok (e, st) := by
  rcases hstart with hstart | ⟨p, mid, hmacro, hnext⟩
  · cases itemStart_of_startsItem hstart with
    | crate hcolon =>
      obtain ⟨hts, htail⟩ := tokens_of_itemFrom hagree h
      rw [itemTail_crate] at htail
      obtain ⟨⟨⟩, st₁, hread, hkind⟩ := bind_ok htail
      obtain rfl : st₁ = ⟨rest, note'⟩ := (Prod.mk.inj (Except.ok.inj hkind)).2
      rcases crate_cases hcolon hread with ⟨p, hmacro, hnext⟩ | ⟨joint, d, inner, z, rfl⟩
      · exact .inr fun R' e st => not_atom_of_callsMacro hmacro hnext
      · have hi : .leaf (.keyword .crate_) :: .leaf (.punct '!' joint) :: .group d inner :: z =
            i.tokens := List.append_cancel_right hts
        rw [Item.callsCrate, ← hi] at hcalls
        cases hcalls
    | name hnext has => exact .inl ⟨_, _, rfl, hnext, has⟩
    | word has hatom => exact .inr fun R' e st => hatom R' true note e st
  · exact .inr fun R' e st => not_atom_of_callsMacro hmacro hnext

end Grammar

end ProcessCompiler
