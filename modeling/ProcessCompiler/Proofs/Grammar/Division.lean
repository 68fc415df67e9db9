import Mathlib.Data.List.Basic
import ProcessCompiler.Proofs.Grammar.EnoughDepth
import ProcessCompiler.Proofs.Grammar.Reading
/-!
# Statements taken apart

A block is divided at each of its semicolons: what comes before it is a block
with it, whatever directly follows it there, and what comes behind it is one as
well. Main statement: `IsBlock.divide`. The last statement of a block is read
from its own tokens, and those before it end in a semicolon exactly if the
statement before it does.

Whether tokens are an expression or a block does not depend on the depth at
which they are read, so `IsExpr` and `IsBlock` say it of some depth.
-/

namespace ProcessCompiler

namespace Grammar

open Parse

variable {α β : Type} {R : Rules} {ts u v rest X : List Token} {note note' : Option Delimiter}
  {n k c : ℕ} {b w joint joint' : Bool} {stmts : List Stmt} {s : Stmt} {e : Expr}

/-- What one reader after the other reads. -/
theorem Parse.bind_ok {p : Parse α} {f : α → Parse β} {st st' : Stream} {y : β}
    (h : (p >>= f) st = .ok (y, st')) : ∃ x st₁, p st = .ok (x, st₁) ∧ f x st₁ = .ok (y, st') := by
  rw [Parse.bind_apply] at h
  cases hp : p st with
  | error e => simp [hp] at h
  | ok r =>
    rw [hp] at h
    exact ⟨r.1, r.2, rfl, h⟩

theorem Parse.map_ok {p : Parse α} {f : α → β} {st st' : Stream} {y : β}
    (h : (f <$> p) st = .ok (y, st')) : ∃ x, p st = .ok (x, st') ∧ f x = y := by
  obtain ⟨x, st₁, hp, hf⟩ := bind_ok (show (p >>= fun x => pure (f x)) st = _ from h)
  cases hf
  exact ⟨x, hp, rfl⟩

/-- The tokens that have been read. -/
theorem Parse.spanned_ok {p : Parse α} {a : α} {us : List Token}
    (h : spanned p ⟨u ++ rest, note⟩ = .ok ((a, us), ⟨rest, note'⟩)) : us = u := by
  obtain ⟨ts, st, htokens, h⟩ := bind_ok h
  cases htokens
  obtain ⟨a, st, hp, h⟩ := bind_ok h
  obtain ⟨ts, st', htokens, h⟩ := bind_ok h
  cases htokens
  cases h
  simp

/-! ## Depth -/

/-- Reading at a depth that is enough does not fail where deeper or longer
reading succeeds. -/
theorem Settles.ok_of_agree {p q : Parse α} {S : Seam} {Q : α → Prop} [S.Unspent] (hS : ¬S.IsLenient)
    (hp : Settles n c b w (u ++ S.left) p) (hn : 2 * Token.sizes (u ++ S.left) + c ≤ n)
    (h : AgreeAt S Q u p q) {r : α × Stream} (hq : q ⟨u ++ S.right, note⟩ = .ok r) :
    ∃ r', p ⟨u ++ S.left, note⟩ = .ok r' := by
  have hres := hp hn note
  cases hr : p ⟨u ++ S.left, note⟩ with
  | ok r => exact ⟨r, rfl⟩
  | error e =>
    have hagree := h (S.admits u) note
    rw [hr] at hres hagree
    rw [hq] at hagree
    cases hres with
    | error cause =>
      rcases hagree with hlenient | hdeep | ⟨e', he', -⟩
      · exact absurd hlenient hS
      · exact absurd hdeep cause
      · cases he'

/-- What deeper rules read is read where the depth is enough. -/
theorem Settles.of_deeper {p q : Parse α} {a : α} {st : Stream} (hp : Settles n c b w ts p)
    (hn : 2 * Token.sizes ts + c ≤ n) (h : AgreeAt .closed never ts p q)
    (hq : q ⟨ts, note⟩ = .ok (a, st)) : p ⟨ts, note⟩ = .ok (a, st) := by
  have hnil : ts ++ Seam.closed.left = ts := List.append_nil ts
  obtain ⟨r, hr⟩ := ok_of_agree id (hnil.symm ▸ hp) (hnil.symm ▸ hn) h (hnil.symm ▸ hq)
  rw [hnil] at hr
  rw [← hq, h.ok hr, hr]

/-- The tokens are one expression. -/
def IsExpr (ts : List Token) (e : Expr) : Prop := ∃ n, Reads ((Rules.ofDepth n).expr true) ts e []

/-- The tokens are the statements of a block. -/
def IsBlock (ts : List Token) (stmts : List Stmt) : Prop :=
  ∃ n, Reads (Rules.ofDepth n).stmts ts stmts []

theorem IsExpr.reads (h : IsExpr ts e) (hn : 2 * Token.sizes ts + 3 ≤ n) :
    Reads ((Rules.ofDepth n).expr true) ts e [] := by
  obtain ⟨m, hm⟩ := h
  have hlong := ((Rules.agree_ofDepth (Nat.le_max_left m n)).expr .closed never ts true).ok hm
  exact ((Rules.settle_ofDepth n).expr (b := false) (w := false) (Nat.le_refl 3)).of_deeper hn
    ((Rules.agree_ofDepth (Nat.le_max_right m n)).expr .closed never ts true) hlong

theorem IsBlock.reads (h : IsBlock ts stmts) (hn : 2 * Token.sizes ts + 4 ≤ n) :
    Reads (Rules.ofDepth n).stmts ts stmts [] := by
  obtain ⟨m, hm⟩ := h
  have hlong := ((Rules.agree_ofDepth (Nat.le_max_left m n)).stmts never ts).ok hm
  exact ((Rules.settle_ofDepth n).stmts (w := false) (Nat.le_refl 4)).of_deeper hn
    ((Rules.agree_ofDepth (Nat.le_max_right m n)).stmts never ts) hlong

/-- A block as its rounds, at a depth that is enough. -/
theorem IsBlock.stmtsIn (h : IsBlock ts stmts) (hn : 2 * Token.sizes ts + 3 ≤ n) :
    Grammar.stmtsIn (Rules.ofDepth n) (ts.length + 1) ⟨ts, none⟩ = .ok (stmts, ⟨[], none⟩) :=
  h.reads (n := n + 1) (by omega)

theorem isBlock_of_stmtsIn (h : stmtsIn (Rules.ofDepth n) k ⟨ts, none⟩ = .ok (stmts, ⟨[], none⟩)) :
    IsBlock ts stmts := by
  -- More depth and more rounds do no harm, and at depth enough there are rounds enough.
  let m := max n (2 * Token.sizes ts + 3)
  have hdeep : Grammar.stmtsIn (Rules.ofDepth m) (max k (ts.length + 1)) ⟨ts, none⟩ =
      .ok (stmts, ⟨[], none⟩) :=
    (stmtsIn_agree (Q := never) (Rules.agree_ofDepth (Nat.le_max_left n _))
      (Nat.le_max_left k _)).ok h
  refine ⟨m + 1, ?_⟩
  have hsettles : Settles m 3 false false ts (Grammar.stmtsIn (Rules.ofDepth m) (ts.length + 1)) :=
    stmtsIn_settles (Rules.settle_ofDepth m) (Nat.le_refl 3) (Nat.lt_succ_self _)
  exact hsettles.of_deeper (Nat.le_max_right n _)
    (stmtsIn_agree (Rules.agree_ofDepth (Nat.le_refl m)) (Nat.le_max_right k _)) hdeep

/-! ## Semicolons -/

/-- A semicolon. -/
def Token.isSemi : Token → Bool
  | .leaf (.punct ';' _) => true
  | _ => false

theorem Token.isSemi_iff {t : Token} : t.isSemi = true ↔ ∃ joint, t = .leaf (.punct ';' joint) := by
  unfold isSemi
  split
  · simp
  · rename_i h
    simpa using h

theorem exists_of_isSymbol_semi (h : isSymbol .semi ts = true) :
    ∃ joint rest, ts = .leaf (.punct ';' joint) :: rest := by
  rcases ts with _ | ⟨t, ts⟩
  · cases h
  · by_contra hne
    rw [isSymbol_semi_cons (fun joint ht => hne ⟨joint, ts, by rw [ht]⟩) ts] at h
    cases h

/-- No semicolon is read by a reader that passes none. -/
theorem AgreeAt.notMem_semi {p : Parse α} {a : α}
    (h : ∀ (S : Seam) [S.Unspent] (u : List Token), AgreeAt S never u p p)
    (hp : p ⟨u ++ rest, note⟩ = .ok (a, ⟨rest, note'⟩)) : ∀ t ∈ u, t.isSemi = false := by
  intro t ht
  refine Bool.eq_false_iff.2 fun hsemi => ?_
  obtain ⟨joint, rfl⟩ := Token.isSemi_iff.1 hsemi
  obtain ⟨x, y, rfl⟩ := List.append_of_mem ht
  let S : Seam := .semi joint joint (y ++ rest) (y ++ rest) (Nat.le_refl _)
  have hleft : x ++ .leaf (.punct ';' joint) :: y ++ rest = x ++ S.left := by
    simp [S, Seam.left]
  rw [hleft] at hp
  rcases (h S x).cases_ok hp with ⟨v, -, hrest, -⟩ | hpassed
  · have hlen := congrArg List.length hrest
    simp [S, Seam.left] at hlen
    omega
  · exact hpassed.1.elim

/-- So an expression has none outside its brackets. -/
theorem IsExpr.notMem_semi (h : IsExpr ts e) : ∀ t ∈ ts, t.isSemi = false := by
  obtain ⟨n, hn⟩ := h
  have hread : (Rules.ofDepth n).expr true ⟨ts ++ [], none⟩ = .ok (e, ⟨[], none⟩) := by
    rw [List.append_nil]
    exact hn
  exact AgreeAt.notMem_semi
    (fun S _ u => (Rules.agree_ofDepth (Nat.le_refl n)).expr S never u true) hread

theorem IsExpr.part (h : IsExpr ts e) : Part true true ts := by
  have hread := h.reads (Nat.le_refl _)
  have hsettles : Settles _ 3 true true ts ((Rules.ofDepth (2 * Token.sizes ts + 3)).expr true) :=
    (Rules.settle_ofDepth _).expr (Nat.le_refl 3)
  have hres := hsettles (Nat.le_refl _) none
  rw [hread] at hres
  cases hres with
  | ok eq taken notes => rwa [eq, List.append_nil]

/-- There is no expression without tokens. -/
theorem IsExpr.ne_nil (h : IsExpr ts e) : ts ≠ [] := h.part.1 rfl

/-- No expression ends in an attribute. -/
theorem IsExpr.proper (h : IsExpr ts e) : Proper ts := h.part.2 rfl

/-- The statement ends in a semicolon. -/
def Stmt.endsInSemi : Stmt → Bool
  | .empty | .binding .. => true
  | .item i => i.tokens.getLast?.any Token.isSemi
  | .expr _ _ terminated | .macroCall _ _ terminated => terminated

/-- The tokens end in a semicolon. -/
def endsInSemi (ts : List Token) : Bool := ts.getLast?.any Token.isSemi

/-- A list that ends in a semicolon. -/
theorem endsInSemi_iff : endsInSemi ts = true ↔ ∃ u joint, ts = u ++ [.leaf (.punct ';' joint)] := by
  unfold endsInSemi
  rw [Option.any_eq_true]
  constructor
  · rintro ⟨t, hlast, ht⟩
    obtain ⟨joint, rfl⟩ := Token.isSemi_iff.1 ht
    obtain ⟨u, rfl⟩ := List.getLast?_eq_some_iff.1 hlast
    exact ⟨u, joint, rfl⟩
  · rintro ⟨u, joint, rfl⟩
    exact ⟨_, List.getLast?_concat, rfl⟩

theorem endsInSemi_of_notMem (h : ∀ t ∈ ts, t.isSemi = false) : endsInSemi ts = false := by
  refine Bool.eq_false_iff.2 fun hend => ?_
  obtain ⟨u, joint, rfl⟩ := endsInSemi_iff.1 hend
  exact absurd (h _ (List.mem_append_right u List.mem_cons_self)) nofun

theorem endsInSemi_append (hv : v ≠ []) : endsInSemi (u ++ v) = endsInSemi v := by
  rw [endsInSemi, List.getLast?_append_of_ne_nil _ hv, endsInSemi]

/-! ## The kinds of statement -/

/-- The tokens begin with a plain path and a `!`. -/
structure CallsMacro (ts : List Token) (note : Option Delimiter) (p : Path) (mid : Stream) : Prop where
  path : plainPath ⟨ts, note⟩ = .ok (p, mid)
  bang : isSymbol .bang mid.tokens = true

/-- The kinds of statement behind their attributes, as they are told apart. -/
inductive StmtForm (R : Rules) (attributes ts : List Token) (note : Option Delimiter)
    (r : Except SyntaxError (Stmt × Stream)) : Prop
  | call (p : Path) (mid : Stream) (called : CallsMacro ts note p mid)
      (brace : isGroup .brace (mid.tokens.drop 1) = true)
      (dot : isLoneDot (mid.tokens.drop 2) = false)
      (question : isSymbol .question (mid.tokens.drop 2) = false)
      (read : macroStmt attributes ⟨ts, note⟩ = r)
  | binding (start : isKeyword .let_ ts = true) (read : bindingStmt R attributes ⟨ts, note⟩ = r)
  | item (start : startsItem ts = true ∨ ∃ p mid, CallsMacro ts note p mid ∧
        (isIdent (mid.tokens.drop 1) = true ∨ isKeyword .try_ (mid.tokens.drop 1) = true))
      (read : (Stmt.item <$> itemFrom R) ⟨ts, note⟩ = r)
  | expr (noLet : isKeyword .let_ ts = false) (noItem : startsItem ts = false)
      (read : exprStmt R attributes ⟨ts, note⟩ = r)

theorem stmtForm_of_stmtTail {attributes : List Token} {st : Stream}
    (h : stmtTail R attributes ⟨ts, note⟩ = .ok (s, st)) :
    StmtForm R attributes ts note (.ok (s, st)) := by
  -- No call with braces: the kind depends on the first word, and on a name behind the `!`.
  have hplain : ∀ item : Bool, (item = true → ∃ p mid, CallsMacro ts note p mid ∧
        (isIdent (mid.tokens.drop 1) = true ∨ isKeyword .try_ (mid.tokens.drop 1) = true)) →
      (if isKeyword .let_ ts then bindingStmt R attributes
        else if startsItem ts || item then itemFrom R >>= fun i => pure (.item i)
        else exprStmt R attributes) ⟨ts, note⟩ = .ok (s, st) →
      StmtForm R attributes ts note (.ok (s, st)) := by
    intro item hitem h
    split at h
    · exact .binding ‹_› h
    · rename_i hlet
      split at h
      · rename_i hstart
        exact .item ((Bool.or_eq_true_iff.1 hstart).imp_right hitem) h
      · rename_i hstart
        rw [Bool.not_eq_true, Bool.or_eq_false_iff] at hstart
        exact .expr (Bool.eq_false_iff.2 hlet) hstart.1 h
  simp only [stmtTail, Parse.bind_apply, tokens, lookAhead] at h
  cases hpath : plainPath ⟨ts, note⟩ with
  | error e =>
    simp only [hpath] at h
    split at h
    · rename_i hdeep
      split_ifs at hdeep
      cases hdeep
      exact hplain false (by simp) h
    · cases h
  | ok r =>
    obtain ⟨p, mid⟩ := r
    simp only [hpath] at h
    by_cases hbang : isSymbol .bang mid.tokens = true
    · simp only [Option.map_some, Option.filter_some, hbang, if_true, Option.getD_some,
        Option.isSome_some, Bool.true_and, List.drop_drop] at h
      split at h
      · rename_i hbrace
        simp only [Bool.and_eq_true, Bool.not_eq_true'] at hbrace
        exact .call p mid ⟨hpath, hbang⟩ hbrace.1.1 hbrace.1.2 hbrace.2 h
      · exact hplain _ (fun hitem => ⟨p, mid, ⟨hpath, hbang⟩, Bool.or_eq_true_iff.1 hitem⟩) h
    · simp only [Option.map_some, Option.filter_some, hbang, Bool.false_eq_true, if_false] at h
      exact hplain false (by simp) h

/-! ## The end of a statement -/

/-- The last token that is taken is as `T` says, if what is read is as `P` says. -/
def Ends (T : Token → Bool) (P : α → Prop) (p : Parse α) : Prop :=
  ∀ st a st', p st = .ok (a, st') → P a → ∃ t, T t = true ∧ t :: st'.tokens <:+ st.tokens

namespace Ends

variable {T : Token → Bool} {P : α → Prop} {p q : Parse α}

/-- What is read last decides. -/
theorem seq {Q : β → Prop} {f : α → Parse β} (hp : ∀ {u}, AgreeAt .closed never u p p)
    (hf : ∀ {a}, Ends T Q (f a)) : Ends T Q (p >>= f) := by
  intro st b st' h hb
  obtain ⟨a, mid, hread, hrest⟩ := bind_ok h
  obtain ⟨t, ht, hsuffix⟩ := hf _ _ _ hrest hb
  exact ⟨t, ht, hsuffix.trans (hp.ok_suffix hread).1⟩

theorem bindPure {f : β → α} {p : Parse β} (h : Ends T (fun b => P (f b)) p) :
    Ends T P (p >>= fun b => pure (f b)) := by
  intro st a st' hread ha
  obtain ⟨b, mid, hp, hpure⟩ := bind_ok hread
  cases hpure
  exact h _ _ _ hp ha

theorem tokens {f : List Token → Parse α} (hf : ∀ {ts}, Ends T P (f ts)) :
    Ends T P (Parse.tokens >>= f) := fun _ _ _ h => hf _ _ _ h

theorem ite {c : Prop} [Decidable c] (hp : Ends T P p) (hq : Ends T P q) :
    Ends T P (if c then p else q) := by
  split
  · exact hp
  · exact hq

theorem either {Q : β → Prop} {f : α → Parse β} {c : Prop} [Decidable c]
    (hp : ∀ {u}, AgreeAt .closed never u p p) (hq : ∀ {u}, AgreeAt .closed never u q q)
    (hf : ∀ {a}, Ends T Q (f a)) : Ends T Q (if c then p >>= f else q >>= f) :=
  .ite (.seq hp hf) (.seq hq hf)

theorem semi {P : Unit → Prop} (hT : ∀ joint, T (.leaf (.punct ';' joint)) = true) :
    Ends T P (symbol .semi) := by
  rintro ⟨ts, note⟩ a st' h -
  by_cases hsemi : isSymbol .semi ts = true
  · obtain ⟨joint, ts, rfl⟩ := exists_of_isSymbol_semi hsemi
    cases h
    exact ⟨_, hT joint, List.suffix_refl _⟩
  · simp only [symbol, Parse.bind_apply, Parse.tokens, hsemi] at h
    cases h

end Ends

theorem ends_bindingStmt {attributes : List Token} {P : Stmt → Prop} (h : R.Agree R) :
    Ends Token.isSemi P (bindingStmt R attributes) := by
  have hsemi : ∀ {s}, Ends Token.isSemi P (symbol .semi >>= fun _ => pure s) :=
    .bindPure (.semi fun _ => rfl)
  unfold bindingStmt
  refine .seq (.keyword _) <| .seq (.span (h.pattern _ _ _)) <| .seq (.symbol? (by decide)) <|
    .either (.map _ (.span (h.type _ _ _ _))) (.pure _) <| .seq (.symbol? (by decide)) ?_
  refine .ite (.seq (h.expr _ _ _ _) <| .tokens ?_) hsemi
  exact .ite (.seq (.keyword _) <| .seq (.map _ (plainBody_agree h)) hsemi) (.seq (.pure _) hsemi)

theorem endsInSemi_of_finish {p : Parse α} {f : α → Bool → Stmt}
    (h : ∀ (S : Seam) [S.Unspent] (u : List Token), AgreeAt S never u p p)
    (hf : ∀ a t, (f a t).endsInSemi = t)
    (hread : finish p f ⟨u ++ rest, note⟩ = .ok (s, ⟨rest, note'⟩)) :
    endsInSemi u = s.endsInSemi := by
  obtain ⟨a, ⟨mid, note₁⟩, hp, hsemi⟩ := Parse.bind_ok hread
  obtain ⟨x, hx⟩ := ((h .closed (u ++ rest)).ok_suffix hp).1
  simp only [Parse.bind_apply, symbol?_apply] at hsemi
  by_cases hmid : isSymbol .semi mid = true
  · obtain ⟨joint, mid, rfl⟩ := exists_of_isSymbol_semi hmid
    cases hsemi
    rw [hf]
    have hu : u ++ mid = x ++ [.leaf (.punct ';' joint)] ++ mid := by
      rw [List.append_assoc]
      exact hx.symm
    exact endsInSemi_iff.2 ⟨x, joint, List.append_cancel_right hu⟩
  · simp only [if_neg hmid] at hsemi
    cases hsemi
    rw [hf]
    exact endsInSemi_of_notMem (AgreeAt.notMem_semi h hp)

theorem endsInSemi_exprAs (attributes : List Token) (e : Expr) (terminated : Bool) :
    (exprAs attributes e terminated).endsInSemi = terminated := by
  unfold exprAs
  split
  · split <;> rfl
  · rfl

/-- What stands behind a statement's attributes ends in a semicolon exactly if
the statement does. -/
theorem StmtForm.endsInSemi (h : R.Agree R) {attributes : List Token}
    (hform : StmtForm R attributes ts note (.ok (s, ⟨rest, note'⟩))) :
    ∃ u, ts = u ++ rest ∧ Grammar.endsInSemi u = s.endsInSemi := by
  have hsuffix : ∀ {Q : Stmt → Prop} {p : Parse Stmt}, AgreeAt .closed Q ts p p →
      p ⟨ts, note⟩ = .ok (s, ⟨rest, note'⟩) → ∃ u, u ++ rest = ts :=
    fun hagree hp => (hagree.ok_suffix hp).1
  cases hform with
  | call p mid called brace dot question read =>
    rw [macroStmt_eq] at read
    obtain ⟨u, rfl⟩ := hsuffix (finish_agree macroPath_agree (finished_macroCall attributes) id) read
    exact ⟨u, rfl, endsInSemi_of_finish (fun S _ u => macroPath_agree) (fun _ _ => rfl) read⟩
  | binding start read =>
    obtain ⟨u, rfl⟩ := hsuffix (bindingStmt_agree h fun _ _ => id) read
    obtain ⟨t, ht, v, hv⟩ := ends_bindingStmt (P := fun _ => True) h _ _ _ read trivial
    obtain ⟨joint, rfl⟩ := Token.isSemi_iff.1 ht
    have hu : u ++ rest = v ++ [.leaf (.punct ';' joint)] ++ rest := by
      rw [List.append_assoc]
      exact hv.symm
    have hs : s.endsInSemi = true :=
      yields_bindingStmt (P := fun s => s.endsInSemi = true) (fun _ _ _ _ => rfl) _ _ _ read
    exact ⟨u, rfl, by rw [hs, endsInSemi_iff.2 ⟨v, joint, List.append_cancel_right hu⟩]⟩
  | item start read =>
    obtain ⟨u, rfl⟩ := hsuffix (item_agree h fun _ _ => id) read
    obtain ⟨i, hitem, rfl⟩ := Parse.map_ok read
    obtain ⟨⟨kind, us⟩, st, hspanned, hi⟩ := Parse.bind_ok hitem
    cases hi
    rw [Parse.spanned_ok hspanned] at hitem ⊢
    exact ⟨u, rfl, rfl⟩
  | expr noLet noItem read =>
    rw [exprStmt_eq] at read
    obtain ⟨u, rfl⟩ := hsuffix (finish_agree (h.early _ _ _) (finished_exprAs attributes) id) read
    exact ⟨u, rfl, endsInSemi_of_finish (fun S _ u => h.early S never u)
      (endsInSemi_exprAs attributes) read⟩

/-- **A statement ends in a semicolon** exactly if its tokens do. -/
theorem endsInSemi_of_stmt (h : R.Agree R)
    (hread : stmt R ⟨u ++ rest, note⟩ = .ok (s, ⟨rest, note'⟩)) :
    endsInSemi u = s.endsInSemi := by
  rw [stmt_eq] at hread
  obtain ⟨attributes, ⟨mid, note₁⟩, hattributes, htail⟩ := Parse.bind_ok hread
  obtain ⟨x, hx⟩ := ((outerAttributes_agree (S := .closed) (Q := never) h).ok_suffix hattributes).1
  obtain ⟨v, rfl, hv⟩ := (stmtForm_of_stmtTail htail).endsInSemi h
  obtain rfl : x ++ v = u := List.append_cancel_right (by rw [List.append_assoc]; exact hx)
  rcases eq_or_ne v [] with rfl | hne
  · rw [List.append_nil, ← hv]
    rw [List.append_nil] at hattributes
    exact endsInSemi_of_notMem
      (AgreeAt.notMem_semi (fun S _ u => outerAttributes_agree h) hattributes)
  · rw [endsInSemi_append hne, hv]

/-! ## Division -/

/-- A statement that begins before a semicolon ends before it or takes it,
whatever directly follows the semicolon. -/
theorem stmt_divide (hn : 2 * Token.sizes u + 5 ≤ n)
    (h : stmt (Rules.ofDepth n) ⟨u ++ .leaf (.punct ';' joint) :: X, note⟩ =
      .ok (s, ⟨rest, note'⟩)) (joint' : Bool) :
    (∃ v, v <:+ u ∧ rest = v ++ .leaf (.punct ';' joint) :: X ∧
      stmt (Rules.ofDepth n) ⟨u ++ [.leaf (.punct ';' joint')], note⟩ =
        .ok (s, ⟨v ++ [.leaf (.punct ';' joint')], note'⟩)) ∨
    rest = X ∧ s.endsInSemi = true ∧ ∃ s', stmt (Rules.ofDepth n)
      ⟨u ++ [.leaf (.punct ';' joint')], note⟩ = .ok (s', ⟨[], note'⟩) := by
  have hagree := Rules.agree_ofDepth (Nat.le_refl n)
  have hcompare := stmt_agree (S := .semi joint' joint [] X (Nat.zero_le _)) (u := u) hagree id
  have hsettles : Settles n 3 true false (u ++ [.leaf (.punct ';' joint')])
      (stmt (Rules.ofDepth n)) := stmt_settles (Rules.settle_ofDepth n) (Nat.le_refl 3)
  have hsize : 2 * Token.sizes (u ++ [.leaf (.punct ';' joint')]) + 3 ≤ n := by
    simp [Token.sizes, Token.size]
    omega
  obtain ⟨⟨s', rest', note₁⟩, hshort⟩ := hsettles.ok_of_agree id hsize hcompare h
  rcases hcompare.cases_ok hshort with ⟨v, hv, rfl, hlong⟩ | ⟨-, hrest, s'', -, -, hlong⟩
  · cases h.symm.trans hlong
    exact .inl ⟨v, hv, rfl, hshort⟩
  · cases h.symm.trans hlong
    obtain rfl : rest' = [] := hrest
    refine .inr ⟨rfl, ?_, s', hshort⟩
    have hread : stmt (Rules.ofDepth n) ⟨u ++ [.leaf (.punct ';' joint)] ++ rest, note⟩ =
        .ok (s, ⟨rest, note₁⟩) := by
      rw [List.append_assoc]
      exact h
    rw [← endsInSemi_of_stmt hagree hread]
    exact endsInSemi_iff.2 ⟨u, joint, rfl⟩

theorem any_getLast?_cons {α : Type} {p : α → Bool} {a : α} {as : List α}
    (h : as.getLast?.any p = true) : (a :: as).getLast?.any p = true := by
  obtain ⟨b, as, rfl⟩ : ∃ b bs, as = b :: bs :=
    List.exists_cons_of_ne_nil (by rintro rfl; cases h)
  rwa [List.getLast?_cons_cons]

/-- **Statements are divided at a semicolon.** -/
theorem stmtsIn_divide (hn : 2 * Token.sizes u + 5 ≤ n)
    (h : stmtsIn (Rules.ofDepth n) k ⟨u ++ .leaf (.punct ';' joint) :: X, note⟩ =
      .ok (stmts, ⟨[], note'⟩)) (joint' : Bool) :
    ∃ front before after note₁,
      stmtsIn (Rules.ofDepth n) k ⟨u ++ [.leaf (.punct ';' joint')], note⟩ =
        .ok (front, ⟨[], note₁⟩) ∧
      stmtsIn (Rules.ofDepth n) k ⟨X, note₁⟩ = .ok (after, ⟨[], note'⟩) ∧
      stmts = before ++ after ∧ before.getLast?.any Stmt.endsInSemi = true := by
  have hrounds : ∀ {k ts note stmts st}, stmtsIn (Rules.ofDepth n) k ⟨ts, note⟩ = .ok (stmts, st) →
      stmtsIn (Rules.ofDepth n) (k + 1) ⟨ts, note⟩ = .ok (stmts, st) := fun h =>
    (stmtsIn_agree (Q := never) (Rules.agree_ofDepth (Nat.le_refl n)) (Nat.le_succ _)).ok h
  have hlong : ∀ {u}, isSymbol .semi (u ++ .leaf (.punct ';' joint) :: X) = false →
      isSymbol .semi (u ++ [.leaf (.punct ';' joint')]) = false := by
    intro u hsemi
    rcases eq_or_ne u [] with rfl | hu
    · cases hsemi
    · rw [isSymbol_semi_behind hu] at hsemi ⊢
      exact hsemi
  rw [stmtsIn_eq_ok_iff] at h
  obtain ⟨-, h⟩ := h
  generalize hts : u ++ .leaf (.punct ';' joint) :: X = ts at h
  induction h generalizing u with
  | done => simp at hts
  | @empty k joint₀ ts note more hmore ih =>
    cases u with
    | nil =>
      -- The semicolon stands alone.
      obtain ⟨-, rfl⟩ := List.cons.inj hts
      obtain ⟨k, rfl⟩ := Nat.exists_eq_succ_of_ne_zero (Nat.ne_of_gt hmore.pos)
      exact ⟨[.empty], [.empty], more, note, rfl, stmtsIn_eq_ok_iff.2 ⟨rfl, hmore⟩, rfl, rfl⟩
    | cons t u =>
      obtain ⟨rfl, rfl⟩ := List.cons.inj hts
      obtain ⟨front, before, after, note₁, hfront, hafter, rfl, hbefore⟩ :=
        ih (by simp [Token.sizes] at hn; omega) rfl
      refine ⟨.empty :: front, .empty :: before, after, note₁, ?_, hafter, rfl,
        any_getLast?_cons hbefore⟩
      rw [List.cons_append, stmtsIn_semi, hfront]
      rfl
  | @last k ts note first hsemi hne hfirst =>
    subst hts
    rcases stmt_divide hn hfirst joint' with ⟨v, -, hnil, -⟩ | ⟨rfl, hends, s', hshort⟩
    · simp at hnil
    · exact ⟨[s'], [first], [], _, stmtsIn_last (hlong hsemi) (by simp) hshort _, rfl, rfl, hends⟩
  | @cons k ts rest note note₁ first more hsemi hne hfirst hrest hclosed hmore ih =>
    subst hts
    -- The first statement ends before the semicolon or with it.
    rcases stmt_divide hn hfirst joint' with ⟨v, ⟨x, hx⟩, rfl, hshort⟩ | ⟨rfl, hends, s', hshort⟩
    · have hv : 2 * Token.sizes v + 5 ≤ n := by
        rw [← hx] at hn
        simp at hn
        omega
      obtain ⟨front, before, after, note₂, hfront, hafter, rfl, hbefore⟩ := ih hv rfl
      exact ⟨first :: front, first :: before, after, note₂,
        stmtsIn_cons (hlong hsemi) (by simp) hshort (by simp) hclosed hfront, hrounds hafter, rfl,
        any_getLast?_cons hbefore⟩
    · exact ⟨[s'], [first], more, note₁, stmtsIn_last (hlong hsemi) (by simp) hshort _,
        hrounds (stmtsIn_eq_ok_iff.2 ⟨rfl, hmore⟩), rfl, hends⟩

/-- No note is taken back, so there was none before what is read without one. -/
theorem note_of_stmtsIn (hn : 2 * Token.sizes ts + 3 ≤ n) (hk : ts.length < k)
    (h : stmtsIn (Rules.ofDepth n) k ⟨ts, note⟩ = .ok (stmts, ⟨rest, none⟩)) : note = none := by
  have hsettles : Settles n 3 false false ts (stmtsIn (Rules.ofDepth n) k) :=
    stmtsIn_settles (Rules.settle_ofDepth n) (Nat.le_refl 3) hk
  have hres := hsettles hn note
  rw [h] at hres
  cases hres with
  | ok eq taken notes => exact notes rfl

/-- **A block is divided at each of its semicolons**: those before it are a block
with it, whatever directly follows it there, and so are those behind it. -/
theorem IsBlock.divide (h : IsBlock (u ++ .leaf (.punct ';' joint) :: X) stmts) (joint' : Bool) :
    ∃ front before after, IsBlock (u ++ [.leaf (.punct ';' joint')]) front ∧ IsBlock X after ∧
      stmts = before ++ after ∧ before.getLast?.any Stmt.endsInSemi = true := by
  have hread := h.stmtsIn (Nat.le_refl _)
  obtain ⟨front, before, after, note, hfront, hafter, hstmts, hbefore⟩ :=
    stmtsIn_divide (by simp [Token.sizes, Token.size]; omega) hread joint'
  obtain rfl : note = none :=
    note_of_stmtsIn (by simp [Token.sizes, Token.size]; omega) (by simp; omega) hafter
  exact ⟨front, before, after, isBlock_of_stmtsIn hfront, isBlock_of_stmtsIn hafter, hstmts, hbefore⟩

/-- No block ends in an attribute. -/
theorem IsBlock.proper (h : IsBlock ts stmts) : Proper ts := by
  have hread := h.stmtsIn (Nat.le_refl _)
  have hsettles : Settles _ 3 false true ts
      (Grammar.stmtsIn (Rules.ofDepth (2 * Token.sizes ts + 3)) (ts.length + 1)) :=
    stmtsIn_settles (Rules.settle_ofDepth _) (Nat.le_refl 3) (Nat.lt_succ_self _)
  have hres := hsettles (Nat.le_refl _) none
  rw [hread] at hres
  cases hres with
  | ok eq taken notes =>
    rw [eq, List.append_nil]
    exact taken.2 rfl

/-! ## The semicolons of a block -/

theorem countP_isSemi_of_last (h : ∀ x joint y, u = x ++ .leaf (.punct ';' joint) :: y → y = []) :
    u.countP Token.isSemi = if endsInSemi u then 1 else 0 := by
  cases hend : endsInSemi u with
  | false =>
    refine List.countP_eq_zero.2 fun t ht hsemi => ?_
    obtain ⟨joint, rfl⟩ := Token.isSemi_iff.1 hsemi
    obtain ⟨x, y, hu⟩ := List.append_of_mem ht
    obtain rfl := h x joint y hu
    rw [endsInSemi_iff.2 ⟨x, joint, hu⟩] at hend
    cases hend
  | true =>
    obtain ⟨x, joint, rfl⟩ := endsInSemi_iff.1 hend
    have hx : x.countP Token.isSemi = 0 := by
      refine List.countP_eq_zero.2 fun t ht hsemi => ?_
      obtain ⟨joint', rfl⟩ := Token.isSemi_iff.1 hsemi
      obtain ⟨y, z, rfl⟩ := List.append_of_mem ht
      have hnil := h y joint' (z ++ [.leaf (.punct ';' joint)]) (by simp)
      simp at hnil
    simp [hx, Token.isSemi]

/-- A statement holds a semicolon only at its end. -/
theorem countP_isSemi_of_stmt (hn : 2 * Token.sizes u + 5 ≤ n)
    (h : stmt (Rules.ofDepth n) ⟨u ++ rest, note⟩ = .ok (s, ⟨rest, note'⟩)) :
    u.countP Token.isSemi = if s.endsInSemi then 1 else 0 := by
  rw [← endsInSemi_of_stmt (Rules.agree_ofDepth (Nat.le_refl n)) h]
  refine countP_isSemi_of_last ?_
  rintro x joint y rfl
  rw [List.append_assoc, List.cons_append] at h
  have hx : 2 * Token.sizes x + 5 ≤ n := by
    simp at hn
    omega
  rcases stmt_divide hx h joint with ⟨v, -, hrest, -⟩ | ⟨hrest, -⟩
  · have hlen := congrArg List.length hrest
    simp at hlen
    omega
  · simpa using hrest

theorem InSequence.countP_isSemi (h : InSequence (Rules.ofDepth n) note' k ts note stmts)
    (hn : 2 * Token.sizes ts + 5 ≤ n) : ts.countP Token.isSemi = stmts.countP Stmt.endsInSemi := by
  induction h with
  | done => rfl
  | empty hmore ih =>
    rw [List.countP_cons, List.countP_cons, ih (by simp [Token.sizes] at hn; omega)]
    rfl
  | @last k ts note first hsemi hts hfirst =>
    rw [← List.append_nil ts] at hfirst
    rw [countP_isSemi_of_stmt hn hfirst, List.countP_singleton]
  | @cons k ts rest note note₁ first more hsemi hts hfirst hrest hclosed hmore ih =>
    obtain ⟨u, rfl⟩ := ((stmt_agree (S := .closed) (Rules.agree_ofDepth (Nat.le_refl n)) id).ok_suffix
      hfirst).1
    rw [Token.sizes_append] at hn
    rw [List.countP_append, List.countP_cons, ih (by omega), countP_isSemi_of_stmt (by omega) hfirst,
      Nat.add_comm]

/-- **A block has as many semicolons as statements that end in one.** -/
theorem IsBlock.countP_isSemi (h : IsBlock ts stmts) :
    ts.countP Token.isSemi = stmts.countP Stmt.endsInSemi :=
  (stmtsIn_eq_ok_iff.1 (h.stmtsIn (n := 2 * Token.sizes ts + 5) (by omega))).2.countP_isSemi
    (Nat.le_refl _)

/-- A statement more in front of others ends them as before. -/
theorem endsInSemi_front {first : Stmt} {front : List Token} {before : List Stmt}
    (hu : endsInSemi u = first.endsInSemi) (hnil : front = [] ↔ before = [])
    (hfront : endsInSemi front = before.getLast?.any Stmt.endsInSemi) :
    endsInSemi (u ++ front) = (first :: before).getLast?.any Stmt.endsInSemi := by
  rcases eq_or_ne front [] with rfl | hne
  · rw [hnil.1 rfl, List.append_nil, hu]
    rfl
  · obtain ⟨second, more, rfl⟩ := List.exists_cons_of_ne_nil fun hbefore => hne (hnil.2 hbefore)
    rw [List.getLast?_cons_cons, ← hfront, endsInSemi_append hne]

/-- The last statement of a block is read from its own tokens. -/
theorem stmtsIn_getLast {before : List Stmt} (hs : s ≠ .empty) (hn : 2 * Token.sizes ts + 3 ≤ n)
    (h : stmtsIn (Rules.ofDepth n) k ⟨ts, note⟩ = .ok (before ++ [s], ⟨[], note'⟩)) :
    ∃ front run note₁, ts = front ++ run ∧ run ≠ [] ∧ isSymbol .semi run = false ∧
      stmt (Rules.ofDepth n) ⟨run, note₁⟩ = .ok (s, ⟨[], note'⟩) ∧
      (front = [] ↔ before = []) ∧ endsInSemi front = before.getLast?.any Stmt.endsInSemi := by
  rw [stmtsIn_eq_ok_iff] at h
  obtain ⟨-, h⟩ := h
  generalize hstmts : before ++ [s] = stmts at h
  induction h generalizing before with
  | done => simp at hstmts
  | @empty k joint ts note more hmore ih =>
    cases before with
    | nil => exact absurd (List.cons.inj hstmts).1 hs
    | cons first before =>
      obtain ⟨rfl, rfl⟩ := List.cons.inj hstmts
      obtain ⟨front, run, note₁, rfl, hrun, hsemi, hstmt, hnil, hends⟩ :=
        ih (by simp [Token.sizes] at hn ⊢; omega) rfl
      exact ⟨[.leaf (.punct ';' joint)] ++ front, run, note₁, rfl, hrun, hsemi, hstmt, by simp,
        endsInSemi_front rfl hnil hends⟩
  | @last k ts note first hsemi hts hfirst =>
    obtain ⟨rfl, rfl⟩ : before = [] ∧ s = first := by
      rcases before with _ | ⟨first', before⟩ <;> simp_all
    exact ⟨[], ts, note, rfl, hts, hsemi, hfirst, by simp, rfl⟩
  | @cons k ts rest note note₁ first more hsemi hts hfirst hrest hclosed hmore ih =>
    cases before with
    | nil => exact absurd (List.cons.inj hstmts).2.symm (hmore.ne_nil hrest)
    | cons first' before =>
      obtain ⟨rfl, rfl⟩ := List.cons.inj hstmts
      have hsettles : Settles n 3 true false ts (stmt (Rules.ofDepth n)) :=
        stmt_settles (Rules.settle_ofDepth n) (Nat.le_refl 3)
      have hres := hsettles hn note
      rw [hfirst] at hres
      cases hres with
      | @ok _ u _ _ eq taken notes =>
        subst eq
        have hu : u ≠ [] := taken.1 rfl
        obtain ⟨front, run, note₂, rfl, hrun, hsemi', hstmt, hnil, hends⟩ :=
          ih (by simp at hn; omega) rfl
        refine ⟨u ++ front, run, note₂, by rw [List.append_assoc], hrun, hsemi', hstmt,
          by simp [hu], ?_⟩
        exact endsInSemi_front (endsInSemi_of_stmt (Rules.agree_ofDepth (Nat.le_refl n)) hfirst)
          hnil hends

end Grammar

end ProcessCompiler
