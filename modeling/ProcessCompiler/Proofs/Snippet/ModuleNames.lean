import ProcessCompiler.Proofs.Grammar.Naming
import ProcessCompiler.Snippet.Modules
/-!
# Names of modules

What a text calls is named by a path in it, so the name of a module is one of the
text's identifiers, or one of the reserved words that a path may begin with. The
second is no name of a module: `self.list()` is a call of the text's own.
-/

namespace ProcessCompiler

open Grammar Parse

variable {W : String → Prop} {R : Rules} {e : Expr} {n : ℕ} {structs : Bool} {base : Precedence}

/-! ## Expressions -/

/-- Wherever a statement could find a module's name in an expression, it finds one
in `W`. -/
structure Grammar.Expr.Named (W : String → Prop) (e : Expr) : Prop where
  path : ∀ p, e.bare = .path p → p.qualifier = none → ∀ s ∈ p.segments, W s.name
  argument : ∀ m, argumentModule? e = some m → W m
  invoked : ∀ attributes terminated m,
    invokedModule? (.expr attributes e terminated) = some m → W m

/-- The expressions that are looked at for names. -/
def Grammar.Expr.isNaming (e : Expr) : Bool :=
  match e.bare with
  | .path _ | .call .. | .methodCall .. | .field .. => true
  | _ => false

namespace Grammar.Expr.Named

theorem of_not_isNaming (h : e.isNaming = false) : e.Named W := by
  unfold isNaming at h
  refine ⟨fun p hp => ?_, fun m hm => ?_, fun _ _ m hm => ?_⟩
  · rw [hp] at h
    cases h
  · unfold argumentModule? at hm
    split at hm <;> rename_i hbare
    · rw [hbare] at h
      cases h
    · rw [hbare] at h
      cases h
    · rw [hbare] at h
      cases h
    · cases hm
  · unfold invokedModule? at hm
    dsimp only at hm
    split at hm
    · rename_i hbare
      rw [hbare] at h
      cases h
    · cases hm

theorem withAttributes (h : e.Named W) (attributes : List Token) :
    (Grammar.withAttributes attributes e).Named W := by
  unfold Grammar.withAttributes
  split
  · exact h
  · exact ⟨h.path, h.argument, h.invoked⟩

theorem bareName? (h : e.Named W) {m : String} (hm : ProcessCompiler.bareName? e = some m) : W m := by
  unfold ProcessCompiler.bareName? at hm
  split at hm
  · rename_i p hp
    split at hm
    · rename_i hq
      unfold Path.bareName? at hm
      split at hm
      · rename_i hsegments
        split at hm
        · cases hm
        · cases hm
          exact h.path p hp (Option.isNone_iff_eq_none.1 hq) ⟨m, .absent⟩ (by simp [hsegments])
      · cases hm
    · cases hm
  · cases hm

theorem call (h : e.Named W) {arguments : List Expr} (ha : ∀ a ∈ arguments, a.Named W) :
    (Expr.call e arguments).Named W := by
  refine ⟨nofun, fun m hm => ?_, fun _ _ m hm => ?_⟩
  · simp only [argumentModule?, bare] at hm
    split at hm
    · rename_i hp
      cases hm
      exact h.path _ hp rfl _ (by simp)
    · cases hm
  · cases arguments with
    | nil => cases hm
    | cons a arguments =>
      simp only [invokedModule?, bare] at hm
      split at hm
      · exact (ha a List.mem_cons_self).argument m hm
      · cases hm

theorem methodCall (h : e.Named W) (method : String) (generics : Option (List Token))
    (arguments : List Expr) : (Expr.methodCall e method generics arguments).Named W :=
  ⟨nofun, fun _ hm => h.bareName? hm, nofun⟩

theorem field (h : e.Named W) (member : Member) : (Expr.field e member).Named W :=
  ⟨nofun, fun _ hm => h.bareName? hm, nofun⟩

end Grammar.Expr.Named

theorem Grammar.Expr.isNaming_of_isBlockLike (h : e.isBlockLike = true) : e.isNaming = false := by
  unfold isBlockLike at h
  unfold isNaming
  split at h <;> rename_i hbare <;> first | rw [hbare] | cases h

/-! ## Readers of expressions -/

/-- Where no name is looked for, none is found. -/
theorem gives_of_not_isNaming {p : Parse Expr} (h : Yields (·.isNaming = false) p) :
    Gives W (Expr.Named W) p :=
  .of_yields fun st e st' hp => .of_not_isNaming (h st e st' hp)

theorem gives_pathExpr (hW : ∀ k ∈ pathWords, W k.text) (hagree : R.Agree R) :
    Gives W (Expr.Named W) (pathExpr R structs) := by
  refine .bind (gives_path hW hagree true) (.of_agree (Q := never) fun _ => path_agree hagree)
    fun p hp => .of_yields ?_
  refine .bind <| .ite (.bind <| .pure (.of_not_isNaming rfl))
    (.ite (.bind <| .pure (.of_not_isNaming rfl)) (.pure ⟨?_, nofun, nofun⟩))
  rintro _ ⟨⟩
  exact hp

theorem Grammar.Expr.isNaming_of_isPlainAtom (h : e.isPlainAtom = true) : e.isNaming = false := by
  unfold isPlainAtom at h
  split at h <;> first | rfl | cases h

/-- Of the atoms, only paths name anything. -/
theorem gives_atom (hW : ∀ k ∈ pathWords, W k.text) (hagree : R.Agree R) :
    Gives W (Expr.Named W) (atom R structs) := by
  intro st e st' hst h
  cases atomForm_of_atom h with
  | path start read => exact gives_pathExpr hW hagree _ _ _ hst read
  | block start block => exact .of_not_isNaming (Expr.isNaming_of_isBlockLike block)
  | range => exact .of_not_isNaming rfl
  | letting start => exact .of_not_isNaming rfl
  | plain plain => exact .of_not_isNaming (Expr.isNaming_of_isPlainAtom plain)

theorem yields_foldl_field (he : e.Named W) (positions : List ℕ) :
    (positions.foldl (fun e i => Expr.field e (.position i)) e).Named W := by
  induction positions generalizing e with
  | nil => exact he
  | cons i positions ih => exact ih (he.field _)

theorem yields_named_memberFrom (he : e.Named W) : Yields (Expr.Named W) (memberFrom R e) := by
  refine .bind fun {awaited} => .ite (.pure (.of_not_isNaming rfl)) (.bind fun {m} => ?_)
  cases m with
  | position => exact .pure (he.field _)
  | named name =>
    have hgo : ∀ generics : Option (List Token), Yields (Expr.Named W) (tokens >>= fun ts =>
        if (generics.isSome || isGroup .paren ts) = true then
          within .paren (commas (R.expr true)) >>= fun arguments =>
            pure (.methodCall e name generics arguments)
        else pure (.field e (.named name))) :=
      fun _ => .bind <| .ite (.bind <| .pure (he.methodCall _ _ _)) (.pure (he.field _))
    exact .bind <| .ite (.bind <| hgo _) (.bind <| hgo _)

theorem yields_named_dotFrom (he : e.Named W) : Yields (Expr.Named W) (dotFrom R e) := by
  refine .bind <| .bind fun {ts} => ?_
  split
  · refine .bind fun st e' st' h => ?_
    obtain ⟨⟨e₁, open_⟩, st₁, hfields, h⟩ := bind_ok h
    obtain ⟨positions, st₂, -, hfields⟩ := bind_ok hfields
    cases hfields
    have he₁ := yields_foldl_field he positions
    dsimp only at h
    split at h
    · exact yields_named_memberFrom he₁ _ _ _ h
    · cases h
      exact he₁
  · exact yields_named_memberFrom he

/-! ## Rules -/

/-- The rules for expressions give expressions with known names. -/
structure Grammar.Rules.Naming (W : String → Prop) (R : Rules) : Prop where
  expr : ∀ structs, Gives W (Expr.Named W) (R.expr structs)
  unary : ∀ structs, Gives W (Expr.Named W) (R.unary structs)
  climb : ∀ e structs base, e.Named W → Yields (Expr.Named W) (R.climb e structs base)
  trailers : ∀ e, e.Named W → Gives W (Expr.Named W) (R.trailers e)
  early : Gives W (Expr.Named W) R.early

/-- An operator names nothing. -/
theorem yields_named_climbRule (h : R.Naming W) (he : e.Named W) :
    Yields (Expr.Named W) (climbRule R e structs base) := by
  intro st r st' hread
  rcases climbRule_cases hread with ⟨rfl, -, -⟩ | ⟨-, level, e₁, st₁, -, hstep, hread⟩
  · exact he
  · refine h.climb e₁ structs base (.of_not_isNaming ?_) _ _ _ hread
    cases hstep <;> rfl

theorem gives_trailersRule (h : R.Naming W) (hagree : R.Agree R) (he : e.Named W) :
    Gives W (Expr.Named W) (trailersRule R e) := by
  have hexpr : Leaves (R.expr true) := .of_agree (Q := never) fun _ => hagree.expr _ _ _ _
  refine .tokens fun ts => .ite ?_ (.ite ?_ (.ite ?_ (.ite ?_ (.pure he))))
  · refine .bind (.within (.commas (h.expr true) hexpr))
      (.of_agree (Q := never) fun _ => .within <| .commas <| hagree.expr _ _ _ _)
      fun arguments harguments => h.trailers _ (he.call harguments)
  · exact .bind (.of_yields (yields_named_dotFrom he))
      (.of_agree (Q := never) fun _ => dotFrom_agree hagree) fun e he => h.trailers e he
  · exact .after (.of_agree (Q := never) fun _ => .within <| hagree.expr _ _ _ _) fun _ =>
      h.trailers _ (.of_not_isNaming rfl)
  · exact .after (.of_agree (Q := never) fun _ => .symbol (by decide)) fun _ =>
      h.trailers _ (.of_not_isNaming rfl)

theorem gives_unaryRule (hW : ∀ k ∈ pathWords, W k.text) (h : R.Naming W) (hagree : R.Agree R) :
    Gives W (Expr.Named W) (unaryRule R structs) := by
  refine .after (.of_agree (Q := never) fun _ => outerAttributes_agree hagree) fun attributes =>
    .tokens fun ts => ?_
  have hunnamed : ∀ {e : Expr}, e.isNaming = false → (withAttributes attributes e).Named W :=
    fun he => (Expr.Named.of_not_isNaming he).withAttributes _
  refine .ite (.bindPure (Q := Expr.Named W) ?_ fun e he => he.withAttributes _) <|
    .ite (.of_yields (.bind <| .bind <| .pure (hunnamed rfl))) <|
    .ite (.of_yields (.bind <| .bind <| .pure (hunnamed rfl))) <|
    .ite (.of_yields (.bind <| .bind <| .pure (hunnamed rfl))) ?_
  · exact gives_of_not_isNaming (.bind <| .bind <|
      .ite (.bind <| .bind <| .pure rfl) (.bind <| .bind <| .pure rfl))
  · refine .bind (gives_atom hW hagree) (.of_agree (Q := never) fun _ => atom_agree hagree) fun e he =>
      .bind (h.trailers e he) (.of_agree (Q := never) fun _ => hagree.trailers _ _ _ _) fun e he => ?_
    exact .ite (fun _ _ _ _ h => nomatch h) (.pure (he.withAttributes _))

theorem gives_earlyRule (hW : ∀ k ∈ pathWords, W k.text) (h : R.Naming W) (hagree : R.Agree R) :
    Gives W (Expr.Named W) (earlyRule R) := by
  have hatom : Gives W (Expr.Named W) (earlyAtom R) := by
    rintro ⟨ts, note⟩ e st' hst hread
    rw [earlyAtom_apply] at hread
    split at hread
    · exact gives_atom hW hagree _ _ _ hst hread
    · exact h.unary true _ _ _ hst hread
  refine .after (.of_agree (Q := never) fun _ => outerAttributes_agree hagree) fun attributes =>
    .bind hatom (.of_agree (Q := never) fun _ => earlyAtom_agree hagree) fun e he => .tokens fun ts => ?_
  refine .ite (.of_yields (h.climb _ _ _ (he.withAttributes _))) (.ite ?_ (.pure (he.withAttributes _)))
  exact .bind (h.trailers e he) (.of_agree (Q := never) fun _ => hagree.trailers _ _ _ _) fun e he =>
    .of_yields (h.climb _ _ _ (he.withAttributes _))

theorem Grammar.Rules.naming_ofDepth (hW : ∀ k ∈ pathWords, W k.text) (n : ℕ) :
    (Rules.ofDepth n).Naming W := by
  induction n with
  | zero =>
    exact ⟨fun _ => .tooDeep, fun _ => .tooDeep, fun _ _ _ _ => (fun _ _ _ h => nomatch h),
      fun _ _ => .tooDeep, .tooDeep⟩
  | succ n ih =>
    have hagree := Rules.agree_ofDepth (Nat.le_refl n)
    exact {
      expr := fun structs => .bind (ih.unary structs)
        (.of_agree (Q := never) fun _ => hagree.unary _ _ _ _)
        fun e he => .of_yields (ih.climb e structs .jump he)
      unary := fun _ => gives_unaryRule hW ih hagree
      climb := fun _ _ _ he => yields_named_climbRule ih he
      trailers := fun _ he => gives_trailersRule ih hagree he
      early := gives_earlyRule hW ih hagree }

/-! ## Statements -/

/-- A statement uses no module but those in `W`. -/
def Grammar.Stmt.Named (W : String → Prop) (s : Stmt) : Prop :=
  ∀ m, invokedModule? s = some m → W m

theorem gives_stmt (hW : ∀ k ∈ pathWords, W k.text) (n : ℕ) :
    Gives W (Stmt.Named W) (stmt (Rules.ofDepth n)) := by
  have hagree := Rules.agree_ofDepth (Nat.le_refl n)
  rw [stmt_eq]
  refine .after (.of_agree (Q := never) fun _ => outerAttributes_agree hagree) fun attributes => ?_
  rintro ⟨ts, note⟩ s st' hst h
  cases stmtForm_of_stmtTail h with
  | call p mid called brace dot question read =>
    have hyields : Yields (Stmt.Named W) (macroStmt attributes) :=
      .bind <| .bind <| .bind <| .pure nofun
    exact hyields _ _ _ read
  | binding start read =>
    have hyields : Yields (Stmt.Named W) (bindingStmt (Rules.ofDepth n) attributes) :=
      yields_bindingStmt fun _ _ _ _ => nofun
    exact hyields _ _ _ read
  | item start read =>
    have hyields : Yields (Stmt.Named W) (Stmt.item <$> itemFrom (Rules.ofDepth n)) :=
      .bind <| .pure nofun
    exact hyields _ _ _ read
  | expr noLet noItem read =>
    rw [exprStmt_eq] at read
    obtain ⟨e, st₁, hearly, read⟩ := bind_ok read
    obtain ⟨terminated, st₂, -, read⟩ := bind_ok read
    cases read
    have he := (Rules.naming_ofDepth hW n).early _ _ _ hst hearly
    unfold exprAs
    split
    · split
      · nofun
      · exact he.invoked _ _
    · exact he.invoked _ _

theorem yields_emptyStmts (k : ℕ) : Yields (∀ s ∈ ·, s.Named W)
    (repeatIn (isSymbol .semi) (symbol .semi >>= fun _ => pure Stmt.empty) k) := by
  induction k with
  | zero => exact fun _ _ _ h => nomatch h
  | succ k ih =>
    intro st ss st' h
    obtain ⟨ts, st₁, -, h⟩ := bind_ok h
    split at h
    · obtain ⟨s, st₂, hs, h⟩ := bind_ok h
      obtain ⟨more, st₃, hmore, h⟩ := bind_ok h
      cases h
      obtain ⟨-, st₄, -, hs⟩ := bind_ok hs
      cases hs
      simpa using ⟨nofun, ih _ _ _ hmore⟩
    · cases h
      exact nofun

theorem gives_stmtsIn (hW : ∀ k ∈ pathWords, W k.text) (n k : ℕ) :
    Gives W (∀ s ∈ ·, Stmt.Named W s) (stmtsIn (Rules.ofDepth n) k) := by
  have hagree := Rules.agree_ofDepth (Nat.le_refl n)
  induction k with
  | zero => exact .tooDeep
  | succ k ih =>
    refine .bind (.of_yields (.bind <| yields_emptyStmts _))
      (.of_agree (Q := never) fun _ => emptyStmts_agree) fun empties hempties => .tokens fun ts =>
        .ite (.pure hempties) (.bind (gives_stmt hW n)
          (.of_agree (Q := Stmt.Finished) fun _ => stmt_agree hagree id) fun s hs => .tokens fun ts =>
            .ite (.pure ?_) (.ite (fun _ _ _ _ h => nomatch h) (.bindPure ih fun more hmore => ?_)))
    · simpa [or_imp, forall_and] using ⟨hempties, hs⟩
    · simpa [or_imp, forall_and] using ⟨hempties, hs, hmore⟩

/-! ## Texts -/

/-- The identifiers of a text, and the reserved words. -/
theorem forall_mem_of_parseBlock {text : String} {block : List Stmt}
    (hW : ∀ k ∈ pathWords, W k.text)
    (hname : ∀ n : String, tokenize n.toList = some [.leaf (.ident n)] → W n)
    (h : parseBlock text = .ok block) : ∀ s ∈ block, Stmt.Named W s := by
  unfold parseBlock parseAll at h
  split at h
  · cases h
  · rename_i ts hts
    split at h
    · cases h
    · rename_i stmts st hread
      have hknown : Known W ts := fun n hn => hname n (tokenize_of_mem_identsOf hts hn)
      have hgives : ∀ n, Gives W (∀ s ∈ ·, Stmt.Named W s) (plainBody (Rules.ofDepth (n + 1))) :=
        fun n => .within (.tokens fun _ => gives_stmtsIn hW n _)
      split at h <;> cases h
      exact hgives _ _ _ _ hknown hread

theorem parseBlock_of_parse {h : Harness} {text : String} {block : List Stmt}
    (hparse : h.parse text = .ok block) : parseBlock (h.wrap text) = .ok block := by
  unfold Harness.parse at hparse
  split at hparse
  · cases hexpr : parseExpr text with
    | error e =>
      rw [hexpr] at hparse
      cases hparse
    | ok e =>
      rw [hexpr] at hparse
      exact hparse
  · exact hparse

/-- **What is found as a module is a word**: an identifier, or one of the reserved
words of paths. It is the name of a module unless it is one of these. -/
theorem importable_iff_not_pathWord {h : Harness} {text : String} {modules : List String}
    (hread : referencedModules h text = .ok modules) {m : String} (hm : m ∈ modules) :
    ∃ l, tokenize m.toList = some [.leaf l] ∧
      (l = .ident m ∨ ∃ k ∈ pathWords, l = .keyword k ∧ m = k.text) ∧
      (l = .ident m ↔ m ∉ pathWords.map Keyword.text) := by
  obtain ⟨block, hparse, rfl⟩ : ∃ block, h.parse text = .ok block ∧
      block.filterMap invokedModule? = modules := by
    unfold referencedModules at hread
    cases hparse : h.parse text with
    | error e =>
      rw [hparse] at hread
      cases hread
    | ok block =>
      rw [hparse] at hread
      cases hread
      exact ⟨block, rfl, rfl⟩
  obtain ⟨s, hs, hsm⟩ := List.mem_filterMap.1 hm
  let W : String → Prop := fun m => tokenize m.toList = some [.leaf (.ident m)] ∨
    ∃ k ∈ pathWords, m = k.text
  have hW : W m := forall_mem_of_parseBlock (fun k hk => .inr ⟨k, hk, rfl⟩) (fun n hn => .inl hn)
    (parseBlock_of_parse hparse) s hs m hsm
  rcases hW with hident | ⟨k, hk, rfl⟩
  · refine ⟨.ident m, hident, .inl rfl, fun _ hmem => ?_, fun _ => rfl⟩
    obtain ⟨k, hk, rfl⟩ := List.mem_map.1 hmem
    rw [tokenize_keyword] at hident
    cases hident
  · refine ⟨.keyword k, tokenize_keyword k, .inr ⟨k, hk, rfl, rfl⟩, nofun, fun hmem => ?_⟩
    exact absurd (List.mem_map_of_mem hk) hmem

/-- A module behind attributes and a rooted path, with a raw name. -/
theorem importable_iff_not_pathWord_raw :
    ∃ l, tokenize "r#type".toList = some [.leaf l] ∧
      (l = .ident "r#type" ∨ ∃ k ∈ pathWords, l = .keyword k ∧ "r#type" = k.text) ∧
      (l = .ident "r#type" ↔ "r#type" ∉ pathWords.map Keyword.text) := by
  have hread : referencedModules .statements "#[a] call(#[b] ::r#type::list(x)); call(x.y)" =
      .ok ["r#type", "x"] := by decide +kernel
  exact importable_iff_not_pathWord hread (by decide)

/-- Each of the reserved words is found. -/
theorem referencedModules_pathWord :
    referencedModules .statements "call(self.list())" = .ok ["self"] ∧
    ∀ k ∈ pathWords,
      referencedModules .statements ("call(" ++ k.text ++ "::list())") = .ok [k.text] := by
  decide +kernel

end ProcessCompiler
