import ProcessCompiler.Proofs.Grammar.Sequence
/-!
# Reading known phrases

What the rules give on tokens that are known, at every depth from some one
on. `ReadsFrom d rule ts a rest` says that the rule reads from `ts` up to
`rest` and gives `a`, whatever the depth, as long as it is at least `d`. The
lemmas follow the grammar: each names the phrase it is about, and leaves what
is read inside that phrase and behind it to its hypotheses.
-/

namespace ProcessCompiler

namespace Grammar

open Parse

variable {α β : Type}

/-- `p` reads from `ts` up to `rest` and gives `a`. -/
def Reads (p : Parse α) (ts : List Token) (a : α) (rest : List Token) : Prop :=
  p ⟨ts, none⟩ = .ok (a, ⟨rest, none⟩)

namespace Reads

variable {p : Parse α} {ts mid rest inner : List Token} {a : α} {b : β}

theorem pure (a : α) : Reads (Pure.pure a) ts a ts := rfl

theorem bind {f : α → Parse β} (hp : Reads p ts a mid) (hf : Reads (f a) mid b rest) :
    Reads (p >>= f) ts b rest := by
  unfold Reads at *
  rw [Parse.bind_apply, hp]
  exact hf

theorem map (f : α → β) (hp : Reads p ts a rest) : Reads (f <$> p) ts (f a) rest :=
  hp.bind (f := fun a => Pure.pure (f a)) rfl

theorem discard (hp : Reads p ts a rest) : Reads (Functor.discard p) ts ⟨⟩ rest :=
  hp.bind (f := fun _ => Pure.pure PUnit.unit) rfl

theorem tokens {f : List Token → Parse β} (hf : Reads (f ts) ts b rest) :
    Reads (Parse.tokens >>= f) ts b rest := hf

theorem pos {c : Prop} [Decidable c] {q : Parse α} (hc : c) (hp : Reads p ts a rest) :
    Reads (if c then p else q) ts a rest := by
  rw [if_pos hc]
  exact hp

theorem neg {c : Prop} [Decidable c] {q : Parse α} (hc : ¬c) (hp : Reads p ts a rest) :
    Reads (if c then q else p) ts a rest := by
  rw [if_neg hc]
  exact hp

/-- A symbol that is not there. -/
theorem noSymbol {y : Symbol} (h : isSymbol y ts = false) : Reads (Parse.symbol? y) ts false ts :=
  tokens (neg (by simp [h]) (pure _))

/-- Looking ahead at what can be read. -/
theorem lookAhead (hp : Reads p ts a rest) : Reads (Parse.lookAhead p) ts (some (a, rest)) ts := by
  unfold Reads at *
  simp only [Parse.lookAhead, hp]

/-- Looking ahead at what cannot. -/
theorem lookAhead_none {c : SyntaxError} (hp : p ⟨ts, Option.none⟩ = .error c)
    (hc : c.cause ≠ .tooDeep) : Reads (Parse.lookAhead p) ts Option.none ts := by
  unfold Reads
  simp only [Parse.lookAhead, hp, if_neg hc]

/-- Reading brackets whose inside is read to its end. -/
theorem within {d : Delimiter} (hp : Reads p inner a []) :
    Reads (Parse.within d p) (.group d inner :: rest) a rest := by
  unfold Reads at *
  simp only [Parse.within, beq_self_eq_true, if_true, hp]
  rfl

/-- The tokens that are read. -/
theorem span {u : List Token} (hp : Reads p (u ++ rest) a rest) :
    Reads (Parse.span p) (u ++ rest) u rest := by
  unfold Reads at *
  simp only [Parse.span, Parse.spanned, Parse.bind_apply, Parse.tokens, hp]
  simp
  rfl

theorem separatedIn_one {stop : List Token → Bool} {sep : Parse Unit} (hts : stop ts = false)
    (hp : Reads p ts a rest) (hstop : stop rest = true) (n : ℕ) :
    Reads (Parse.separatedIn stop sep p (n + 1)) ts [a] rest :=
  tokens (neg (by simp [hts]) (hp.bind (tokens (pos hstop (pure _)))))

theorem separatedIn_cons {stop : List Token → Bool} {sep : Parse Unit} {as : List α} {n : ℕ}
    {next : List Token} (hts : stop ts = false) (hp : Reads p ts a mid) (hmid : stop mid = false)
    (hsep : Reads sep mid () next) (has : Reads (Parse.separatedIn stop sep p n) next as rest) :
    Reads (Parse.separatedIn stop sep p (n + 1)) ts (a :: as) rest :=
  tokens (neg (by simp [hts]) (hp.bind (tokens (neg (by simp [hmid])
    (hsep.bind (has.bind (pure _)))))))

theorem commas_nil : Reads (Parse.commas p) [] [] [] := rfl

theorem commas_one (hts : ts ≠ []) (hp : Reads p ts a []) : Reads (Parse.commas p) ts [a] [] :=
  tokens (separatedIn_one (by simpa using hts) hp rfl _)

theorem commas_two {joint : Bool} {a' : α} (hts : ts ≠ []) (hrest : rest ≠ [])
    (hp : Reads p ts a (.leaf (.punct ',' joint) :: rest)) (hp' : Reads p rest a' []) :
    Reads (Parse.commas p) ts [a, a'] [] := by
  obtain ⟨t, ts, rfl⟩ := List.exists_cons_of_ne_nil hts
  refine tokens (separatedIn_cons (by simp) hp (by simp) rfl ?_)
  exact separatedIn_one (by simpa using hrest) hp' rfl _

end Reads

/-- A path of one name. -/
def Path.name (n : String) : Path := ⟨none, false, [⟨n, .absent⟩]⟩

/-- A variable or a function by its name. -/
def Expr.name (n : String) : Expr := .path (.name n)

/-- What may follow a name that is neither a longer path nor a macro call nor
a record. -/
structure EndsName (structs : Bool) (rest : List Token) : Prop where
  path : isSymbol .colon2 rest = false
  bang : isSymbol .bang rest = false
  hash : isSymbol .hash rest = false
  word : isAnyWord rest = false
  brace : (structs && isGroup .brace rest) = false

section Rules

variable {R : Rules} {ts rest : List Token}

/-- No attributes are read where none begins. -/
theorem reads_outerAttributes (h : isSymbol .hash ts = false) :
    Reads (outerAttributes R) ts [] ts := by
  refine Reads.span (u := []) (a := []) (Reads.tokens ?_)
  exact Reads.tokens (Reads.neg (by simp [h]) (Reads.pure _))

/-- Nor are attributes of what encloses them. -/
theorem reads_innerAttributes (h : isSymbol .hash ts = false) :
    Reads (innerAttributes R) ts ⟨⟩ ts :=
  .discard (a := []) (.tokens (.tokens (.neg (by simp [h]) (.pure _))))

/-- An expression ends before these tokens: at the end of its list, before a
comma or a semicolon, or before a block. -/
def endsExpr : List Token → Bool
  | [] => true
  | .leaf (.punct c _) :: _ => c == ',' || c == ';'
  | .group .brace _ :: _ => true
  | _ => false

theorem endsExpr_cases (h : endsExpr ts = true) :
    ts = [] ∨ (∃ joint x, ts = .leaf (.punct ',' joint) :: x) ∨
      (∃ joint x, ts = .leaf (.punct ';' joint) :: x) ∨ ∃ inner x, ts = .group .brace inner :: x := by
  rcases ts with _ | ⟨(_ | _ | _ | ⟨c, joint⟩ | _) | ⟨_ | _ | _, inner⟩, x⟩
  case cons.leaf.punct =>
    rcases Bool.or_eq_true_iff.1 h with hc | hc
    · exact .inr (.inl ⟨joint, x, by rw [eq_of_beq hc]⟩)
    · exact .inr (.inr (.inl ⟨joint, x, by rw [eq_of_beq hc]⟩))
  case cons.group.brace => exact .inr (.inr (.inr ⟨inner, x, rfl⟩))
  case nil => exact .inl rfl
  all_goals cases h

/-- Where an expression ends no operator is ahead. -/
theorem reads_climbRule (h : endsExpr ts = true) (e : Expr) (structs : Bool) (base : Precedence) :
    Reads (climbRule R e structs base) ts e ts := by
  unfold climbRule
  by_cases he : e.isRange = true
  · exact .pos he (.pure _)
  · refine .neg he (.tokens ?_)
    rcases endsExpr_cases h with rfl | ⟨joint, x, rfl⟩ | ⟨joint, x, rfl⟩ | ⟨inner, x, rfl⟩
    all_goals
      exact .neg (by simp [isAssign, isSymbol, startsPunct, Symbol.chars]) (.neg
        (by simp [isSymbol, startsPunct, Symbol.chars]) (.neg (by simp [isKeyword]) (.pure _)))

/-- Where an expression ends neither a call nor a field nor an index is
ahead. -/
theorem reads_trailersRule (h : endsExpr ts = true) (e : Expr) :
    Reads (trailersRule R e) ts e ts := by
  rcases endsExpr_cases h with rfl | ⟨joint, x, rfl⟩ | ⟨joint, x, rfl⟩ | ⟨inner, x, rfl⟩
  all_goals rfl

/-- A path of one name, unless it goes on. -/
theorem reads_path_name (n : String) (hpath : isSymbol .colon2 rest = false) :
    Reads (path R true) (.leaf (.ident n) :: rest) (.name n) rest := by
  have hsegment : Reads (segment R true) (.leaf (.ident n) :: rest) ⟨n, .absent⟩ rest := by
    refine .tokens (.neg Bool.false_ne_true (.neg Bool.false_ne_true (.bind rfl (.tokens ?_))))
    exact .neg (by simp [startsAngle, hpath]) (.pure _)
  have hmore : Reads (restOfPath R true) rest [] rest :=
    .tokens (.tokens (.neg (by simp [hpath]) (.pure _)))
  exact .tokens (.neg Bool.false_ne_true (.bind rfl (hsegment.bind (hmore.bind (.pure _)))))

/-- A name, unless it begins a longer path, a macro call or a record. -/
theorem reads_atom_name (n : String) {structs : Bool} (hpath : isSymbol .colon2 rest = false)
    (hbang : isSymbol .bang rest = false) (hhash : isSymbol .hash rest = false)
    (hbrace : (structs && isGroup .brace rest) = false) :
    Reads (atom R structs) (.leaf (.ident n) :: rest) (.name n) rest := by
  have hpathExpr : Reads (pathExpr R structs) (.leaf (.ident n) :: rest) (.name n) rest := by
    refine (reads_path_name n hpath).bind (.tokens (.neg ?_ (.neg ?_ (.pure _))))
    · simp [startsBang, hbang]
    · simp [hbrace]
  refine .tokens (.neg Bool.false_ne_true (.neg Bool.false_ne_true (.neg Bool.false_ne_true
    (.neg Bool.false_ne_true (.neg ?_ (.pos rfl hpathExpr))))))
  simp [hhash]

/-- The first token is no punctuation. -/
def startsPlain : List Token → Bool
  | [] => false
  | .leaf (.punct _ _) :: _ => false
  | _ => true

/-- Before such a token stands no symbol. -/
theorem isSymbol_of_startsPlain (h : startsPlain ts = true) (y : Symbol) :
    isSymbol y ts = false := by
  rcases ts with _ | ⟨(_ | _ | _ | _ | _) | _, x⟩
  case nil => cases h
  case cons.leaf.punct => cases h
  all_goals cases y <;> rfl

/-- An atom with what is behind it. -/
theorem reads_unaryRule {structs : Bool} {e e' : Expr} {mid : List Token}
    (hts : startsPlain ts = true) (hatom : Reads (atom R structs) ts e mid)
    (htrailers : Reads (R.trailers e) mid e' rest) : Reads (unaryRule R structs) ts e' rest := by
  have hno := isSymbol_of_startsPlain hts
  refine (reads_outerAttributes (hno _)).bind (.tokens (.neg (by simp [hno]) (.neg (by simp [hno])
    (.neg (by simp [hno]) (.neg (by simp [hno]) ?_)))))
  exact hatom.bind (htrailers.bind (.neg (by simp) (.pure _)))

/-- An operand begins here that is no block, loop or branch. -/
def startsOperand : List Token → Bool
  | .leaf (.ident _) :: _ => true
  | .leaf (.literal _) :: _ => true
  | .leaf (.keyword .return_) :: _ => true
  | .group .paren _ :: _ => true
  | _ => false

theorem startsPlain_of_startsOperand (h : startsOperand ts = true) : startsPlain ts = true := by
  unfold startsOperand at h
  split at h <;> first | rfl | cases h

/-- An expression in the place of a statement that begins with an operand. -/
theorem reads_earlyRule_operand {e e' : Expr} {mid : List Token} (hts : startsOperand ts = true)
    (hunary : Reads (R.unary true) ts e mid) (he : e.isBlockLike = false)
    (hclimb : Reads (R.climb e true .jump) mid e' rest) : Reads (earlyRule R) ts e' rest := by
  have hattr := isSymbol_of_startsPlain (startsPlain_of_startsOperand hts) .hash
  have hatom : Reads (earlyAtom R) ts e mid := by
    unfold startsOperand at hts
    split at hts
    case h_5 => cases hts
    all_goals exact hunary
  refine (reads_outerAttributes hattr).bind (hatom.bind (.tokens (.pos ?_ hclimb)))
  simp [he]

/-- An expression in the place of a statement that ends with a block. -/
theorem reads_earlyRule_block {e : Expr} (hattr : isSymbol .hash ts = false)
    (hatom : Reads (earlyAtom R) ts e rest) (he : e.isBlockLike = true)
    (hdot : isLoneDot rest = false) (hquestion : isSymbol .question rest = false) :
    Reads (earlyRule R) ts e rest :=
  (reads_outerAttributes hattr).bind (hatom.bind (.tokens (.neg (by simp [he])
    (.neg (by simp [hdot, hquestion]) (.pure _)))))

/-- A statement that is an expression with a semicolon behind it. -/
theorem reads_exprStmt_semi {e : Expr} {joint : Bool} (he : ∀ m, e.bare ≠ .macroCall m)
    (h : Reads R.early ts e (.leaf (.punct ';' joint) :: rest)) :
    Reads (exprStmt R []) ts (.expr [] e true) rest := by
  refine h.bind (.bind rfl ?_)
  cases hbare : e.bare
  case macroCall m => exact absurd hbare (he m)
  all_goals exact .pure _

/-- A statement that is an expression without a semicolon. -/
theorem reads_exprStmt_end {e : Expr} (he : ∀ m, e.bare ≠ .macroCall m)
    (hrest : isSymbol .semi rest = false) (h : Reads R.early ts e rest) :
    Reads (exprStmt R []) ts (.expr [] e false) rest := by
  refine h.bind (.bind (.tokens (.neg (by simp [hrest]) (.pure _))) ?_)
  cases hbare : e.bare
  case macroCall m => exact absurd hbare (he m)
  all_goals exact .pure _

/-- A plain path of one name, unless it goes on. -/
theorem reads_plainPath_name {n : String} (h : isSymbol .colon2 rest = false) :
    Reads plainPath (.leaf (.ident n) :: rest) (.name n) rest :=
  .bind rfl (.tokens (.bind rfl (.tokens (.bind (.bind (.noSymbol h) (.pure _)) (.pure _)))))

/-- Without a word ahead there is neither a name nor a reserved word. -/
theorem isIdent_of_isAnyWord (h : isAnyWord ts = false) :
    isIdent ts = false ∧ ∀ k, isKeyword k ts = false := by
  rcases ts with _ | ⟨(_ | _ | _ | _ | _) | _, x⟩
  case cons.leaf.ident => cases h
  case cons.leaf.keyword => cases h
  all_goals exact ⟨rfl, fun _ => rfl⟩

/-- A statement that begins with a name, and is no macro call. -/
theorem reads_stmt_name {n : String} {mid : List Token} {s : Stmt} (hend : EndsName true mid)
    (h : Reads (exprStmt R []) (.leaf (.ident n) :: mid) s rest) :
    Reads (stmt R) (.leaf (.ident n) :: mid) s rest := by
  obtain ⟨hident, hkeyword⟩ := isIdent_of_isAnyWord hend.word
  have hitem : startsItem (.leaf (.ident n) :: mid) = false := by
    have hhead : ∀ k, isKeyword k (.leaf (.ident n) :: mid) = false := fun _ => rfl
    simp [startsItem, isKeywordOf, hhead, hident, hkeyword]
  refine (reads_outerAttributes rfl).bind (.tokens (.bind
    (.lookAhead (reads_plainPath_name hend.path)) (.neg ?_ (.neg Bool.false_ne_true (.neg ?_ h)))))
  · simp [Option.filter, hend.bang]
  · simp [Option.filter, hend.bang, hitem]

/-- A statement that begins with a word for a branch, a selection or a
return. -/
theorem reads_stmt_keyword {k : Keyword} {mid : List Token} {s : Stmt}
    (hk : k = .if_ ∨ k = .match_ ∨ k = .return_)
    (h : Reads (exprStmt R []) (.leaf (.keyword k) :: mid) s rest) :
    Reads (stmt R) (.leaf (.keyword k) :: mid) s rest := by
  refine (reads_outerAttributes rfl).bind (.tokens (.bind
    (.lookAhead_none (c := ⟨false, .reserved k⟩) ?_ nofun) (.neg ?_ (.neg ?_ (.neg ?_ h)))))
  all_goals rcases hk with rfl | rfl | rfl
  all_goals first | rfl | exact Bool.false_ne_true

end Rules

/-! ## Depth -/

/-- The rule reads from `ts` up to `rest` and gives `a`, at every depth from
`d` on. -/
def ReadsFrom (d : ℕ) (rule : Rules → Parse α) (ts : List Token) (a : α) (rest : List Token) :
    Prop :=
  ∀ n, d ≤ n → Reads (rule (.ofDepth n)) ts a rest

namespace ReadsFrom

variable {d : ℕ} {rule : Rules → Parse α} {a : α} {e e' : Expr} {structs : Bool}
  {ts mid rest inner : List Token}

theorem mono {d' : ℕ} (h : ReadsFrom d rule ts a rest) (hd : d ≤ d') :
    ReadsFrom d' rule ts a rest := fun n hn => h n (Nat.le_trans hd hn)

/-- What holds of a rule over all rules from some depth on holds of the rules
one level further out. -/
theorem next {r : Rules → Parse α}
    (h : ∀ n, d ≤ n → Reads (r (.ofDepth n)) ts a rest)
    (heq : ∀ R, rule (Rules.next R) = r R) : ReadsFrom (d + 1) rule ts a rest := by
  intro n hn
  obtain ⟨n, rfl⟩ := Nat.exists_eq_add_of_le' hn
  have hrule : rule (.ofDepth (n + d + 1)) = r (.ofDepth (n + d)) := heq _
  rw [← Nat.add_assoc, hrule]
  exact h _ (Nat.le_add_left d n)

/-! ### Calls, fields and indices -/

theorem trailers_end (h : endsExpr ts = true) : ReadsFrom 1 (·.trailers e) ts e ts :=
  next (r := fun R => trailersRule R e) (d := 0) (fun _ _ => reads_trailersRule h e) fun _ => rfl

theorem call {arguments : List Expr}
    (hargs : ReadsFrom d (fun R => commas (R.expr true)) inner arguments [])
    (h : ReadsFrom d (·.trailers (.call e arguments)) mid e' rest) :
    ReadsFrom (d + 1) (·.trailers e) (.group .paren inner :: mid) e' rest := by
  refine next (r := fun R => trailersRule R e) (fun n hn => ?_) fun _ => rfl
  exact .tokens (.pos rfl ((hargs n hn).within.bind (h n hn)))

theorem methodCall {name : String} {arguments : List Expr} (he : e.isRange = false)
    (hargs : ReadsFrom d (fun R => commas (R.expr true)) inner arguments [])
    (h : ReadsFrom d (·.trailers (.methodCall e name none arguments)) mid e' rest) :
    ReadsFrom (d + 1) (·.trailers e)
      (.leaf (.punct '.' false) :: .leaf (.ident name) :: .group .paren inner :: mid) e' rest := by
  refine next (r := fun R => trailersRule R e) (fun n hn => ?_) fun _ => rfl
  refine .tokens (.neg Bool.false_ne_true (.pos (by rw [he]; rfl) (.bind ?_ (h n hn))))
  unfold dotFrom
  refine .bind rfl (.tokens ?_)
  unfold memberFrom
  refine .bind rfl (.bind rfl (.tokens (.neg Bool.false_ne_true (.bind (.pure _) (.tokens
    (.pos rfl ?_))))))
  exact (hargs n hn).within.bind (.pure _)

theorem await (he : e.isRange = false) (h : ReadsFrom d (·.trailers (.await e)) mid e' rest) :
    ReadsFrom (d + 1) (·.trailers e)
      (.leaf (.punct '.' false) :: .leaf (.keyword .await_) :: mid) e' rest := by
  refine next (r := fun R => trailersRule R e) (fun n hn => ?_) fun _ => rfl
  exact .tokens (.neg Bool.false_ne_true (.pos (by rw [he]; rfl) (.bind rfl (h n hn))))

theorem propagate {joint : Bool} (he : e.isRange = false)
    (h : ReadsFrom d (·.trailers (.propagate e)) mid e' rest) :
    ReadsFrom (d + 1) (·.trailers e) (.leaf (.punct '?' joint) :: mid) e' rest := by
  refine next (r := fun R => trailersRule R e) (fun n hn => ?_) fun _ => rfl
  exact .tokens (.neg Bool.false_ne_true (.neg (by rw [he]; exact Bool.false_ne_true) (.neg Bool.false_ne_true
    (.pos (by rw [he]; rfl) (.bind rfl (h n hn))))))

/-! ### Operands -/

theorem name {n : String} (hend : EndsName structs mid)
    (h : ReadsFrom d (·.trailers (.name n)) mid e rest) :
    ReadsFrom (d + 1) (·.unary structs) (.leaf (.ident n) :: mid) e rest :=
  next (r := fun R => unaryRule R structs)
    (fun k hk => reads_unaryRule rfl
      (reads_atom_name n hend.path hend.bang hend.hash hend.brace) (h k hk)) fun _ => rfl

theorem literal {l : Literal} (h : ReadsFrom d (·.trailers (.literal l)) mid e rest) :
    ReadsFrom (d + 1) (·.unary structs) (.leaf (.literal l) :: mid) e rest :=
  next (r := fun R => unaryRule R structs)
    (fun k hk => reads_unaryRule rfl (.tokens (.pos rfl (.bind rfl (.pure _)))) (h k hk)) fun _ => rfl

theorem paren (hinner : ReadsFrom d (·.expr true) inner e []) (hne : inner ≠ [])
    (h : ReadsFrom d (·.trailers (.paren e)) mid e' rest) :
    ReadsFrom (d + 1) (·.unary structs) (.group .paren inner :: mid) e' rest := by
  refine next (r := fun R => unaryRule R structs) (fun k hk => ?_) fun _ => rfl
  have hparen : Reads (parenExpr (.ofDepth k)) (.group .paren inner :: mid) (.paren e) mid :=
    .within (.tokens (.neg (by simpa using hne) ((hinner k hk).bind (.tokens (.pos rfl (.pure _))))))
  have hatom : Reads (atom (.ofDepth k) structs) (.group .paren inner :: mid) (.paren e) mid :=
    hparen
  exact reads_unaryRule rfl hatom (h k hk)

theorem unit (h : ReadsFrom d (·.trailers (.tuple [])) mid e rest) :
    ReadsFrom (d + 1) (·.unary structs) (.group .paren [] :: mid) e rest :=
  next (r := fun R => unaryRule R structs)
    (fun k hk => reads_unaryRule rfl rfl (h k hk)) fun _ => rfl

/-- An expression without operators. -/
theorem expr (h : ReadsFrom (d + 1) (·.unary structs) ts e rest) (hend : endsExpr rest = true) :
    ReadsFrom (d + 2) (·.expr structs) ts e rest := by
  refine next (r := fun R => exprRule R structs) (fun k hk => (h k hk).bind ?_) fun _ => rfl
  obtain ⟨k, rfl⟩ := Nat.exists_eq_add_of_le' hk
  exact reads_climbRule hend e structs .jump

/-! ### Arguments -/

theorem noArguments : ReadsFrom d (fun R => commas (R.expr true)) [] [] [] :=
  fun _ _ => Reads.commas_nil

theorem argument (h : ReadsFrom d (·.expr true) ts e []) (hts : ts ≠ []) :
    ReadsFrom d (fun R => commas (R.expr true)) ts [e] [] :=
  fun n hn => Reads.commas_one hts (h n hn)

theorem arguments {joint : Bool} (h : ReadsFrom d (·.expr true) ts e (.leaf (.punct ',' joint) :: mid))
    (h' : ReadsFrom d (·.expr true) mid e' []) (hts : ts ≠ []) (hmid : mid ≠ []) :
    ReadsFrom d (fun R => commas (R.expr true)) ts [e, e'] [] :=
  fun n hn => Reads.commas_two hts hmid (h n hn) (h' n hn)

/-! ### Statements -/

/-- An expression that does not end with a block of its own. -/
theorem early (hts : startsOperand ts = true) (h : ReadsFrom (d + 1) (·.unary true) ts e rest)
    (he : e.isBlockLike = false) (hend : endsExpr rest = true) :
    ReadsFrom (d + 2) (·.early) ts e rest := by
  refine next (r := earlyRule) (fun k hk => ?_) fun _ => rfl
  refine reads_earlyRule_operand hts (h k hk) he ?_
  obtain ⟨k, rfl⟩ := Nat.exists_eq_add_of_le' hk
  exact reads_climbRule hend e true .jump

/-- A statement with a semicolon that begins with a name. -/
theorem stmt_name {n : String} {joint : Bool} (hend : EndsName true mid)
    (h : ReadsFrom d (·.early) (.leaf (.ident n) :: mid) e (.leaf (.punct ';' joint) :: rest))
    (he : ∀ m, e.bare ≠ .macroCall m) :
    ReadsFrom d stmt (.leaf (.ident n) :: mid) (.expr [] e true) rest :=
  fun k hk => reads_stmt_name hend (reads_exprStmt_semi he (h k hk))

/-- A statement without a semicolon that begins with a name. -/
theorem stmt_name_end {n : String} (hend : EndsName true mid)
    (h : ReadsFrom d (·.early) (.leaf (.ident n) :: mid) e rest) (hrest : isSymbol .semi rest = false)
    (he : ∀ m, e.bare ≠ .macroCall m) :
    ReadsFrom d stmt (.leaf (.ident n) :: mid) (.expr [] e false) rest :=
  fun k hk => reads_stmt_name hend (reads_exprStmt_end he hrest (h k hk))

/-- The statements of a block, read within as many rounds as there are
tokens. -/
theorem stmts {fuel : ℕ} {stmts : List Stmt} (h : ReadsFrom d (stmtsIn · fuel) ts stmts [])
    (hfuel : fuel ≤ ts.length + 1) : ReadsFrom (d + 1) (·.stmts) ts stmts [] :=
  next (r := stmtsRule) (fun k hk =>
    (stmtsIn_agree (Q := never) (Rules.agree_ofDepth (Nat.le_refl k)) hfuel).ok (h k hk)) fun _ => rfl

theorem stmtsIn_last {s : Stmt} (hts : startsPlain ts = true) (h : ReadsFrom d stmt ts s [])
    (fuel : ℕ) : ReadsFrom d (stmtsIn · (fuel + 1)) ts [s] [] := fun k hk =>
  Grammar.stmtsIn_last (isSymbol_of_startsPlain hts _) (by rintro rfl; cases hts) (h k hk) fuel

theorem stmtsIn_cons {s : Stmt} {stmts : List Stmt} {fuel : ℕ} (hts : startsPlain ts = true)
    (h : ReadsFrom d stmt ts s mid) (hmid : mid ≠ []) (hs : s.Closed)
    (hmore : ReadsFrom d (stmtsIn · fuel) mid stmts []) :
    ReadsFrom d (stmtsIn · (fuel + 1)) ts (s :: stmts) [] := fun k hk =>
  Grammar.stmtsIn_cons (isSymbol_of_startsPlain hts _) (by rintro rfl; cases hts) (h k hk) hmid hs
    (hmore k hk)

/-- A branch without an alternative, at the end of a block. -/
theorem branch {condition : Expr} {body : List Token} {stmts : List Stmt}
    (hcondition : ReadsFrom d (·.expr false) ts condition [.group .brace body])
    (hbody : ReadsFrom d (·.stmts) body stmts []) :
    ReadsFrom (d + 1) (·.early) (.leaf (.keyword .if_) :: ts) (.branch condition stmts none) [] :=
  next (r := earlyRule) (fun k hk => reads_earlyRule_block rfl (.tokens (.pos rfl (.tokens
    (.bind rfl ((hcondition k hk).bind ((hbody k hk).within.bind (.bind rfl (.pure _))))))))
    rfl rfl rfl) fun _ => rfl

/-- A block of its own. -/
theorem block {stmts : List Stmt} (h : ReadsFrom d (·.stmts) inner stmts [])
    (hattr : isSymbol .hash inner = false) :
    ReadsFrom (d + 1) (·.early) [.group .brace inner] (.block .plain none stmts) [] :=
  next (r := earlyRule) (fun k hk => reads_earlyRule_block rfl
    (.tokens (.bind (.within ((reads_innerAttributes hattr).bind (h k hk))) (.pure _)))
    rfl rfl rfl) fun _ => rfl

/-- An assignment, from its sign on. -/
theorem assign {lhs : Expr} (hright : ReadsFrom (d + 1) (·.unary structs) mid e rest)
    (hlhs : lhs.isRange = false) (hend : endsExpr rest = true) :
    ReadsFrom (d + 2) (·.climb lhs structs .jump) (.leaf (.punct '=' false) :: mid)
      (.assign lhs e) rest := by
  refine next (r := fun R => climbRule R lhs structs .jump) (fun k hk => ?_) fun _ => rfl
  have hoperand : Reads (rightOperand (.ofDepth k) structs .assign) mid e rest := by
    refine (hright k hk).bind (.tokens (.tokens (.neg ?_ (.pure _))))
    rcases endsExpr_cases hend with rfl | ⟨joint, x, rfl⟩ | ⟨joint, x, rfl⟩ | ⟨inner, x, rfl⟩ <;>
      exact Bool.false_ne_true
  have hclimb : Reads ((Rules.ofDepth k).climb (.assign lhs e) structs .jump) rest
      (.assign lhs e) rest := by
    obtain ⟨k, rfl⟩ := Nat.exists_eq_add_of_le' hk
    exact reads_climbRule hend (.assign lhs e) structs .jump
  refine .neg (by simp [hlhs]) (.tokens ?_)
  exact .pos rfl (.bind rfl (hoperand.bind hclimb))

/-! ### Selections -/

/-- A name that is bound. -/
theorem pattern_name (n : String) : ReadsFrom 1 (·.pattern) [.leaf (.ident n)] .other [] :=
  next (r := patternRule) (d := 0) (fun _ _ => rfl) fun _ => rfl

/-- The pattern of a value in a wrapper, which is bound to a name. -/
theorem pattern_call (n v : String) : ReadsFrom 2 (·.pattern)
    (.leaf (.ident n) :: .group .paren [.leaf (.ident v)] :: rest) .other rest := by
  refine next (r := patternRule) (fun k hk => .tokens (.pos rfl ?_)) fun _ => rfl
  have hinner : Reads (patterns (.ofDepth k)) [.leaf (.ident v)] ⟨⟩ [] :=
    .discard (.commas_one (List.cons_ne_nil _ _) (.bind rfl ((pattern_name v k hk).bind
      (.tokens (.neg Bool.false_ne_true (.pure _))))))
  refine (reads_path_name n rfl).bind (.tokens (.neg Bool.false_ne_true (.neg Bool.false_ne_true
    (.pos rfl (.bind (.within hinner) (.pure _))))))

/-- The pattern of a case for a value in a wrapper, up to its arrow. -/
def callPattern (n v : String) : List Token := [.leaf (.ident n), .group .paren [.leaf (.ident v)]]

theorem callPattern_span (n v : String) {k : ℕ} (hk : 2 ≤ k) :
    Reads (span (alternatives (.ofDepth k))) (callPattern n v ++ .leaf (.punct '=' true) :: ts)
      (callPattern n v) (.leaf (.punct '=' true) :: ts) := by
  refine .span (a := .other) (.bind rfl ((pattern_call n v k hk).bind ?_))
  exact .tokens (.neg Bool.false_ne_true (.pure _))

/-- The case of a value in a wrapper. A comma stands behind it, or it ends the
selection with a block. -/
theorem arm_call {n v : String} (hd : 2 ≤ d) (h : ReadsFrom d (·.early) ts e mid)
    (hmid : e.isBlockLike = false ∧ (∃ joint, mid = .leaf (.punct ',' joint) :: rest) ∨
      e.isBlockLike = true ∧ mid = [] ∧ rest = []) :
    ReadsFrom d arm (callPattern n v ++ .leaf (.punct '=' true) :: .leaf (.punct '>' false) :: ts)
      (.mk (callPattern n v) none e) rest := by
  intro k hk
  have hguard : Reads (guard? (.ofDepth k)) (.leaf (.punct '=' true) :: .leaf (.punct '>' false) :: ts)
      none (.leaf (.punct '=' true) :: .leaf (.punct '>' false) :: ts) := rfl
  have harrow : Reads (symbol .fatArrow) (.leaf (.punct '=' true) :: .leaf (.punct '>' false) :: ts)
      () ts := rfl
  refine (Reads.discard (reads_outerAttributes rfl)).bind ((callPattern_span n v
    (Nat.le_trans hd hk)).bind (hguard.bind (harrow.bind ((h k hk).bind (.tokens ?_)))))
  rcases hmid with ⟨he, joint, rfl⟩ | ⟨he, rfl, rfl⟩
  · exact .pos (by simp [he]) (.bind rfl (.pure _))
  · exact .neg (by simp [he]) (.bind rfl (.pure _))

/-- A selection by two cases. -/
theorem select {scrutinee : Expr} {t t' : Token} {cases tail : List Token} {a b : Arm}
    (hscrutinee : ReadsFrom d (·.expr false) ts scrutinee (.group .brace (t :: t' :: cases) :: rest))
    (hattr : isSymbol .hash (t :: t' :: cases) = false) (ha : ReadsFrom d arm (t :: t' :: cases) a tail)
    (htail : tail ≠ []) (hb : ReadsFrom d arm tail b [])
    (hdot : isLoneDot rest = false) (hquestion : isSymbol .question rest = false) :
    ReadsFrom (d + 1) (·.early) (.leaf (.keyword .match_) :: ts) (.select scrutinee [a, b]) rest := by
  refine next (r := earlyRule) (fun k hk => ?_) fun _ => rfl
  have harms : Reads (repeatAll (arm (.ofDepth k))) (t :: t' :: cases) [a, b] [] := by
    refine .tokens (.tokens (.pos rfl ((ha k hk).bind (.bind (a := [b]) ?_ (.pure _)))))
    exact .tokens (.pos (by simpa using htail) ((hb k hk).bind (.bind (a := []) rfl (.pure _))))
  refine reads_earlyRule_block rfl ?_ rfl hdot hquestion
  exact .tokens (.neg Bool.false_ne_true (.neg Bool.false_ne_true (.neg Bool.false_ne_true
    (.neg Bool.false_ne_true (.pos rfl (.bind rfl ((hscrutinee k hk).bind
    (.bind (.within ((reads_innerAttributes hattr).bind harms)) (.pure _)))))))))

/-- A return with the value of an expression that begins with a name. -/
theorem return_ {n : String} (h : ReadsFrom (d + 1) (·.expr true) (.leaf (.ident n) :: mid) e rest)
    (hend : endsExpr rest = true) :
    ReadsFrom (d + 3) (·.early) (.leaf (.keyword .return_) :: .leaf (.ident n) :: mid)
      (.jump .return_ none (some e)) rest := by
  refine early (d := d + 1) rfl ?_ rfl hend
  refine next (r := fun R => unaryRule R true) (fun k hk => ?_) fun _ => rfl
  have htrailers : Reads ((Rules.ofDepth k).trailers (.jump .return_ none (some e))) rest
      (.jump .return_ none (some e)) rest := by
    obtain ⟨k, rfl⟩ := Nat.exists_eq_add_of_le' hk
    exact reads_trailersRule hend (.jump .return_ none (some e))
  have hjump : Reads (do keyword .return_; return Expr.jump .return_ none (← jumpValue? (.ofDepth k)))
      (.leaf (.keyword .return_) :: .leaf (.ident n) :: mid) (Expr.jump .return_ none (some e)) rest :=
    .bind rfl (.bind (.tokens (.pos rfl ((h k hk).map some))) (.pure _))
  have hatom : Reads (atom (.ofDepth k) true)
      (.leaf (.keyword .return_) :: .leaf (.ident n) :: mid) (.jump .return_ none (some e)) rest :=
    hjump
  exact reads_unaryRule rfl hatom htrailers

end ReadsFrom

end Grammar

end ProcessCompiler
