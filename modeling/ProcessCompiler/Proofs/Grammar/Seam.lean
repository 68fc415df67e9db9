import Mathlib.Tactic.Common
import ProcessCompiler.Grammar.Parse
/-!
# Seams

Two token lists with a common front part at a *seam*: at their end, behind a
semicolon, before a semicolon that only the second list has, or behind a block
where the second list goes on with a name. The lemmas here say that the
grammar's tests on the tokens ahead see nothing behind a seam: a test gives the
same answer on both lists, and where it holds the tokens that it saw lie before
the seam. The exceptions are the end of the list and the semicolon itself, and
once the block has been taken also the name behind it.
-/

namespace ProcessCompiler

namespace Grammar

/-- Where two token lists part. -/
inductive Seam where
  /-- At their end. -/
  | closed
  /-- Behind a semicolon, which something else may follow directly in one list
  and not in the other. -/
  | semi (joint joint' : Bool) (short long : List Token) (le : short.length ≤ long.length)
  /-- At the end of the first list, where the second has a semicolon. If it is
  strict, a phrase is read from the second list only if it is from the first. -/
  | ended (strict joint : Bool) (long : List Token)
  /-- Behind a block that ends the first list, where the second has a name. -/
  | block (inner : List Token) (name : String) (more : List Token)
  /-- There, once the block has been taken. -/
  | spent (name : String) (more : List Token)

namespace Seam

/-- The end of the first list. -/
def left : Seam → List Token
  | closed => []
  | semi joint _ short _ _ => .leaf (.punct ';' joint) :: short
  | ended _ _ _ => []
  | block inner _ _ => [.group .brace inner]
  | spent _ _ => []

/-- The end of the second list. -/
def right : Seam → List Token
  | closed => []
  | semi _ joint' _ long _ => .leaf (.punct ';' joint') :: long
  | ended _ joint long => .leaf (.punct ';' joint) :: long
  | block inner name more => .group .brace inner :: .leaf (.ident name) :: more
  | spent name more => .leaf (.ident name) :: more

/-- What is left of a seam, given whether its block has been taken. -/
def cut : Seam → Bool → Seam
  | closed, _ => closed
  | semi joint joint' short long le, _ => semi joint joint' short long le
  | ended strict joint long, _ => ended strict joint long
  | block _ name more, true => spent name more
  | block inner name more, false => block inner name more
  | spent name more, _ => spent name more

/-- The tokens that may stand before a seam: none if its block has been taken. -/
def Admits : Seam → List Token → Prop
  | spent _ _, u => u = []
  | _, _ => True

/-- The lists part behind a semicolon. -/
def IsSemi : Seam → Prop
  | semi _ _ _ _ _ => True
  | _ => False

/-- The second list goes on where the first one ends. -/
def IsEnded : Seam → Prop
  | ended _ _ _ => True
  | _ => False

/-- Only what the first reader reads is of interest, not why it refuses. -/
def IsLenient : Seam → Prop
  | ended strict _ _ => strict = false
  | block _ _ _ | spent _ _ => True
  | _ => False

/-- Where the first list ends before a semicolon, why its reader refuses is not
of interest. -/
class Lax (S : Seam) : Prop where
  lenient : S.IsEnded → S.IsLenient

/-- The block of the seam, if there is one, has not been taken. -/
class Unspent (S : Seam) : Prop where
  ne : ∀ name more, S ≠ spent name more

instance : Unspent closed := ⟨nofun⟩

instance (joint joint' : Bool) (short long : List Token) (le : short.length ≤ long.length) :
    Unspent (semi joint joint' short long le) := ⟨nofun⟩

instance (strict joint : Bool) (long : List Token) : Unspent (ended strict joint long) := ⟨nofun⟩

instance (inner : List Token) (name : String) (more : List Token) :
    Unspent (block inner name more) := ⟨nofun⟩

variable {S : Seam} {u v : List Token}

/-- A seam at which no block can be taken. -/
class Fixed (S : Seam) : Prop where
  cut_eq : ∀ b, S.cut b = S
  unspent : S.Unspent

attribute [instance] Fixed.unspent

instance : Fixed closed := ⟨fun _ => rfl, inferInstance⟩

instance [h : Fixed S] (b : Bool) : Fixed (S.cut b) := by rwa [h.cut_eq]

theorem unspent_or (S : Seam) : S.Unspent ∨ ∃ name more, S = spent name more := by
  cases S with
  | spent name more => exact .inr ⟨name, more, rfl⟩
  | _ => exact .inl inferInstance

@[simp]
theorem closed_cut (b : Bool) : closed.cut b = closed := rfl

@[simp]
theorem cut_false : S.cut false = S := by cases S <;> rfl

@[simp]
theorem cut_cut (b b' : Bool) : (S.cut b).cut b' = S.cut (b || b') := by
  cases S <;> cases b <;> cases b' <;> rfl

theorem left_cut (h : S.IsEnded) (b : Bool) : (S.cut b).left = [] := by
  cases S with
  | ended => rfl
  | _ => exact h.elim

@[simp]
theorem isSemi_cut (b : Bool) : (S.cut b).IsSemi ↔ S.IsSemi := by
  cases S <;> cases b <;> rfl

@[simp]
theorem isEnded_cut (b : Bool) : (S.cut b).IsEnded ↔ S.IsEnded := by
  cases S <;> cases b <;> rfl

instance : Lax closed := ⟨False.elim⟩

instance (joint joint' : Bool) (short long : List Token) (le : short.length ≤ long.length) :
    Lax (semi joint joint' short long le) := ⟨False.elim⟩

instance (joint : Bool) (long : List Token) : Lax (ended false joint long) := ⟨fun _ => rfl⟩

instance (inner : List Token) (name : String) (more : List Token) : Lax (block inner name more) :=
  ⟨False.elim⟩

instance [h : Lax S] (b : Bool) : Lax (S.cut b) := ⟨fun hS => by
  cases S with
  | ended => exact h.lenient trivial
  | _ => exact ((isEnded_cut b).1 hS).elim⟩

/-- The seam is that of `T`, whose block may have been taken. -/
class From (S T : Seam) : Prop where
  isSemi : S.IsSemi → T.IsSemi

instance : From S S := ⟨id⟩

instance {T : Seam} [h : From S T] (b : Bool) : From (S.cut b) T :=
  ⟨fun hS => h.isSemi ((isSemi_cut b).1 hS)⟩

/-- Fewer tokens may stand there as well. -/
theorem Admits.of_suffix (h : S.Admits u) (hv : v <:+ u) : S.Admits v := by
  cases S with
  | spent =>
    cases h
    exact List.suffix_nil.1 hv
  | _ => trivial

theorem admits [h : S.Unspent] (u : List Token) : S.Admits u := by
  cases S with
  | spent name more => exact absurd rfl (h.ne name more)
  | _ => trivial

end Seam

variable {S : Seam} {u v : List Token}

/-! ## Tests on the tokens ahead -/

/-- Where both lists end, they end alike. -/
@[simp]
theorem isEmpty_closed :
    (u ++ Seam.closed.right).isEmpty = (u ++ Seam.closed.left).isEmpty := rfl

/-- So they do at any seam but where the first list ends before a semicolon, or
before the name behind a block. -/
theorem isEmpty_right [hS : S.Unspent] (h : S.IsEnded → u ≠ []) :
    (u ++ S.right).isEmpty = (u ++ S.left).isEmpty := by
  cases u with
  | cons t u => rfl
  | nil =>
    cases S with
    | ended => exact absurd rfl (h trivial)
    | spent name more => exact absurd rfl (hS.ne name more)
    | _ => rfl

/-- The second list is no shorter. -/
theorem Seam.length_le : S.left.length ≤ S.right.length := by
  cases S with
  | closed => exact Nat.le_refl _
  | semi joint joint' short long le => simpa [left, right] using le
  | ended => exact Nat.zero_le _
  | block inner name more => exact Nat.succ_le_succ (Nat.zero_le _)
  | spent name more => exact Nat.zero_le _

/-- So what the second list allows for the rounds of a repetition is no less. -/
theorem Seam.rounds_le (u : List Token) : (u ++ S.left).length + 1 ≤ (u ++ S.right).length + 1 := by
  simpa using S.length_le

/-- A test on the first token that fails where there is none and on a
semicolon. -/
structure HeadTest (f : List Token → Bool) : Prop where
  head : ∀ t x y, f (t :: x) = f (t :: y)
  nil : f [] = false
  semi : ∀ joint x, f (.leaf (.punct ';' joint) :: x) = false

/-- Such a test sees nothing behind a seam, if it fails on names or the block of
the seam has not been taken. -/
theorem HeadTest.right {f : List Token → Bool} (h : HeadTest f)
    (hS : S.Unspent ∨ ∀ name x, f (.leaf (.ident name) :: x) = false) :
    f (u ++ S.right) = f (u ++ S.left) := by
  cases u with
  | cons t u => exact h.head t _ _
  | nil =>
    cases S with
    | closed => rfl
    | semi joint joint' short long le => exact (h.semi joint' long).trans (h.semi joint short).symm
    | ended strict joint long => exact (h.semi joint long).trans h.nil.symm
    | block inner name more => exact h.head _ _ _
    | spent name more =>
      rcases hS with hS | hname
      · exact absurd rfl (hS.ne name more)
      · exact (hname name more).trans h.nil.symm

/-- Where such a test holds there is a token before the seam, if it fails on
blocks. -/
theorem HeadTest.pos {f : List Token → Bool} (h : HeadTest f)
    (hblock : ∀ inner x, f (.group .brace inner :: x) = false) (hf : f (u ++ S.left) = true) :
    0 < u.length := by
  cases u with
  | cons t u => exact Nat.succ_pos _
  | nil =>
    cases S with
    | semi joint joint' short long le => exact absurd hf (by simp [Seam.left, h.semi])
    | block inner name more => exact absurd hf (by simp [Seam.left, hblock])
    | _ => exact absurd hf (by simp [Seam.left, h.nil])

/-- A reserved word is one token. -/
theorem headTest_isKeyword (k : Keyword) : HeadTest (isKeyword k) where
  head t x y := by
    rcases t with (_ | _ | _ | _ | _) | _ <;> rfl
  nil := rfl
  semi _ _ := rfl

@[simp, grind =]
theorem isKeyword_right (k : Keyword) : isKeyword k (u ++ S.right) = isKeyword k (u ++ S.left) :=
  (headTest_isKeyword k).right (.inr fun _ _ => rfl)

@[grind →]
theorem isKeyword_pos {k : Keyword} (h : isKeyword k (u ++ S.left) = true) : 0 < u.length :=
  (headTest_isKeyword k).pos (fun _ _ => rfl) h

/-- So is a given identifier. -/
theorem headTest_isWord (w : String) : HeadTest (isWord w) where
  head t x y := by
    rcases t with (_ | _ | _ | _ | _) | _ <;> rfl
  nil := rfl
  semi _ _ := rfl

@[simp, grind =]
theorem isWord_right [h : S.Unspent] (w : String) :
    isWord w (u ++ S.right) = isWord w (u ++ S.left) :=
  (headTest_isWord w).right (.inl h)

@[grind →]
theorem isWord_pos {w : String} (h : isWord w (u ++ S.left) = true) : 0 < u.length :=
  (headTest_isWord w).pos (fun _ _ => rfl) h

/-- So is an identifier. -/
theorem headTest_isIdent : HeadTest isIdent where
  head t x y := by
    rcases t with (_ | _ | _ | _ | _) | _ <;> rfl
  nil := rfl
  semi _ _ := rfl

@[simp, grind =]
theorem isIdent_right [h : S.Unspent] : isIdent (u ++ S.right) = isIdent (u ++ S.left) :=
  (headTest_isIdent).right (.inl h)

@[grind →]
theorem isIdent_pos (h : isIdent (u ++ S.left) = true) : 0 < u.length :=
  (headTest_isIdent).pos (fun _ _ => rfl) h

/-- So is a word of either kind. -/
theorem headTest_isAnyWord : HeadTest isAnyWord where
  head t x y := by
    rcases t with (_ | _ | _ | _ | _) | _ <;> rfl
  nil := rfl
  semi _ _ := rfl

@[simp, grind =]
theorem isAnyWord_right [h : S.Unspent] : isAnyWord (u ++ S.right) = isAnyWord (u ++ S.left) :=
  (headTest_isAnyWord).right (.inl h)

/-- So are brackets with what is between them. -/
theorem headTest_isGroup (d : Delimiter) : HeadTest (isGroup d) where
  head t x y := by
    rcases t with (_ | _ | _ | _ | _) | _ <;> rfl
  nil := rfl
  semi _ _ := rfl

@[simp, grind =]
theorem isGroup_right (d : Delimiter) : isGroup d (u ++ S.right) = isGroup d (u ++ S.left) :=
  (headTest_isGroup d).right (.inr fun _ _ => rfl)

@[grind →]
theorem isGroup_pos {d : Delimiter} (h : isGroup d (u ++ S.left) = true) (hd : d ≠ .brace) :
    0 < u.length := by
  refine (headTest_isGroup d).pos (fun inner x => ?_) h
  exact beq_eq_false_iff_ne.2 hd

/-- So are brackets of any kind. -/
theorem headTest_isAnyGroup : HeadTest isAnyGroup where
  head t x y := by
    rcases t with (_ | _ | _ | _ | _) | _ <;> rfl
  nil := rfl
  semi _ _ := rfl

@[simp, grind =]
theorem isAnyGroup_right : isAnyGroup (u ++ S.right) = isAnyGroup (u ++ S.left) :=
  (headTest_isAnyGroup).right (.inr fun _ _ => rfl)

/-- So is a lifetime. -/
theorem headTest_isLifetime : HeadTest isLifetime where
  head t x y := by
    rcases t with (_ | _ | _ | _ | _) | _ <;> rfl
  nil := rfl
  semi _ _ := rfl

@[simp, grind =]
theorem isLifetime_right : isLifetime (u ++ S.right) = isLifetime (u ++ S.left) :=
  (headTest_isLifetime).right (.inr fun _ _ => rfl)

@[grind →]
theorem isLifetime_pos (h : isLifetime (u ++ S.left) = true) : 0 < u.length :=
  (headTest_isLifetime).pos (fun _ _ => rfl) h

/-- So is a number. -/
theorem headTest_isNumber : HeadTest isNumber where
  head t x y := by
    rcases t with (_ | _ | _ | _ | ⟨_ | _ | _ | _ | _ | _ | _, _⟩) | _ <;> rfl
  nil := rfl
  semi _ _ := rfl

@[simp, grind =]
theorem isNumber_right : isNumber (u ++ S.right) = isNumber (u ++ S.left) :=
  (headTest_isNumber).right (.inr fun _ _ => rfl)

@[grind →]
theorem isNumber_pos (h : isNumber (u ++ S.left) = true) : 0 < u.length :=
  (headTest_isNumber).pos (fun _ _ => rfl) h

/-- So is a string. -/
theorem headTest_isString : HeadTest isString where
  head t x y := by
    rcases t with (_ | _ | _ | _ | ⟨_ | _ | _ | _ | _ | _ | _, _⟩) | _ <;> rfl
  nil := rfl
  semi _ _ := rfl

@[simp, grind =]
theorem isString_right : isString (u ++ S.right) = isString (u ++ S.left) :=
  (headTest_isString).right (.inr fun _ _ => rfl)

@[grind →]
theorem isString_pos (h : isString (u ++ S.left) = true) : 0 < u.length :=
  (headTest_isString).pos (fun _ _ => rfl) h

@[simp, grind =]
theorem isKeywordOf_right (ks : List Keyword) :
    isKeywordOf ks (u ++ S.right) = isKeywordOf ks (u ++ S.left) := by
  simp only [isKeywordOf, isKeyword_right]

@[grind →]
theorem isKeywordOf_pos {ks : List Keyword} (h : isKeywordOf ks (u ++ S.left) = true) :
    0 < u.length := by
  obtain ⟨k, -, hk⟩ := List.any_eq_true.1 h
  exact isKeyword_pos hk

/-- A run of punctuation of two or more characters, one of them at hand. -/
theorem startsPunct_cons (c c' d : Char) (cs : List Char) (joint : Bool) (ts : List Token) :
    startsPunct (c :: c' :: cs) (.leaf (.punct d joint) :: ts) =
      (c == d && joint && startsPunct (c' :: cs) ts) := rfl

/-- Without a token there is no run of punctuation. -/
theorem startsPunct_nil (c : Char) (cs : List Char) : startsPunct (c :: cs) [] = false := by
  cases cs <;> rfl

/-- A run of punctuation does not begin with a semicolon unless it is
written with one. -/
theorem startsPunct_semi {c : Char} (hc : c ≠ ';') (cs : List Char) (joint : Bool)
    (ts : List Token) : startsPunct (c :: cs) (.leaf (.punct ';' joint) :: ts) = false := by
  cases cs <;> simp only [startsPunct, beq_eq_false_iff_ne.2 hc, Bool.false_and]

/-- A run of punctuation without a semicolon lies before the seam, if it is
there. -/
theorem startsPunct_right {cs : List Char} (h : ';' ∉ cs) :
    startsPunct cs (u ++ S.right) = startsPunct cs (u ++ S.left) := by
  induction cs generalizing u with
  | nil => cases u <;> cases S <;> rfl
  | cons c cs ih =>
    have hc : c ≠ ';' := fun hc => h (hc ▸ List.mem_cons_self)
    have ih := fun v => @ih v fun hmem => h (List.mem_cons_of_mem _ hmem)
    cases u with
    | nil =>
      cases S with
      | closed => rfl
      | semi joint joint' short long le =>
        exact (startsPunct_semi hc cs joint' long).trans (startsPunct_semi hc cs joint short).symm
      | ended strict joint long =>
        exact (startsPunct_semi hc cs joint long).trans (startsPunct_nil c cs).symm
      | block inner name more => cases cs <;> rfl
      | spent name more => cases cs <;> rfl
    | cons t u =>
      cases cs with
      | nil => rcases t with (_ | _ | _ | _ | _) | _ <;> rfl
      | cons c' cs =>
        rcases t with (_ | _ | _ | ⟨d, joint⟩ | _) | _
        case leaf.punct =>
          rw [List.cons_append, List.cons_append, startsPunct_cons, startsPunct_cons, ih]
        all_goals rfl

/-- And its tokens lie there. -/
theorem length_le_of_startsPunct {cs : List Char} (h : ';' ∉ cs)
    (hs : startsPunct cs (u ++ S.left) = true) : cs.length ≤ u.length := by
  induction cs generalizing u with
  | nil => exact Nat.zero_le _
  | cons c cs ih =>
    have hc : c ≠ ';' := fun hc => h (hc ▸ List.mem_cons_self)
    have ih := fun v => @ih v fun hmem => h (List.mem_cons_of_mem _ hmem)
    cases u with
    | nil =>
      cases S with
      | semi joint joint' short long le => cases (startsPunct_semi hc cs joint short).symm.trans hs
      | block inner name more => cases cs <;> cases hs
      | _ => cases (startsPunct_nil c cs).symm.trans hs
    | cons t u =>
      cases cs with
      | nil => exact Nat.succ_le_succ (Nat.zero_le _)
      | cons c' cs =>
        rcases t with (_ | _ | _ | ⟨d, joint⟩ | _) | _
        case leaf.punct =>
          rw [List.cons_append, startsPunct_cons, Bool.and_eq_true] at hs
          exact Nat.succ_le_succ (ih u hs.2)
        all_goals cases hs

/-- No symbol but the semicolon is written with one. -/
theorem Symbol.semi_notMem_chars {y : Symbol} (h : y ≠ .semi) : ';' ∉ y.chars := by
  cases y <;> first | exact absurd rfl h | decide

attribute [grind =] Symbol.chars

/-- A symbol ahead is seen alike on both sides of a seam, unless it is a
semicolon. -/
@[simp, grind =]
theorem isSymbol_right {y : Symbol} (hy : y ≠ .semi) :
    isSymbol y (u ++ S.right) = isSymbol y (u ++ S.left) :=
  startsPunct_right (Symbol.semi_notMem_chars hy)

/-- A semicolon behind a token is seen alike. -/
theorem isSymbol_semi_append (t : Token) (x y : List Token) :
    isSymbol .semi (t :: x) = isSymbol .semi (t :: y) := by
  rcases t with (_ | _ | _ | _ | _) | _ <;> rfl

/-- A semicolon ahead is seen alike, unless it is where the first list ends. -/
theorem isSymbol_semi_right (h : S.IsEnded → u ≠ []) :
    isSymbol .semi (u ++ S.right) = isSymbol .semi (u ++ S.left) := by
  cases u with
  | cons t u => exact isSymbol_semi_append t _ _
  | nil =>
    cases S with
    | ended => exact absurd rfl (h trivial)
    | _ => rfl

/-- Whether a phrase that ends with the tokens or at a semicolon is over is seen
alike. -/
theorem isEmpty_or_isSymbol_semi_right [S.Unspent] (b : Bool) :
    ((u ++ S.right).isEmpty || b || isSymbol .semi (u ++ S.right)) =
      ((u ++ S.left).isEmpty || b || isSymbol .semi (u ++ S.left)) := by
  by_cases h : S.IsEnded → u ≠ []
  · rw [isEmpty_right h, isSymbol_semi_right h]
  · obtain ⟨hS, rfl⟩ : S.IsEnded ∧ u = [] := by simpa using h
    cases S with
    | ended => exact Bool.or_true _
    | _ => exact hS.elim

/-- A symbol ahead other than the semicolon lies before the seam. -/
@[grind →]
theorem isSymbol_length {y : Symbol} (hs : isSymbol y (u ++ S.left) = true) (hy : y ≠ .semi) :
    y.chars.length ≤ u.length :=
  length_le_of_startsPunct (Symbol.semi_notMem_chars hy) hs

/-- Punctuation begins a literal if it is the sign of a number. -/
theorem isLiteral_punct (c : Char) (joint : Bool) (ts : List Token) :
    isLiteral (.leaf (.punct c joint) :: ts) = (c == '-' && isNumber ts) := by
  by_cases hc : c = '-'
  · subst hc
    rfl
  · rw [beq_eq_false_iff_ne.2 hc, Bool.false_and]
    unfold isLiteral
    split <;> simp_all

/-- A literal of one token, or of a sign and a number, lies before the seam. -/
@[simp, grind =]
theorem isLiteral_right : isLiteral (u ++ S.right) = isLiteral (u ++ S.left) := by
  cases u with
  | nil => cases S <;> rfl
  | cons t u =>
    rcases t with (_ | _ | _ | _ | _) | _
    case leaf.keyword k => cases k <;> rfl
    case leaf.punct => simp only [List.cons_append, isLiteral_punct, isNumber_right]
    all_goals rfl

@[grind →]
theorem isLiteral_pos (h : isLiteral (u ++ S.left) = true) : 0 < u.length := by
  cases u with
  | nil => cases S <;> cases h
  | cons t u => exact Nat.succ_pos _

/-- A semicolon ahead is the next token before the seam, or the seam's. -/
theorem eq_or_of_isSymbol_semi (h : isSymbol .semi (u ++ S.left) = true) :
    (∃ joint v, u = .leaf (.punct ';' joint) :: v) ∨
      u = [] ∧ ∃ joint joint' short long le, S = .semi joint joint' short long le := by
  cases u with
  | nil =>
    cases S with
    | semi joint joint' short long le => exact .inr ⟨rfl, joint, joint', short, long, le, rfl⟩
    | _ => cases h
  | cons t u =>
    rcases t with (_ | _ | _ | ⟨c, joint⟩ | _) | _
    case leaf.punct =>
      have hc : ';' = c := of_decide_eq_true h
      exact .inl ⟨joint, u, hc ▸ rfl⟩
    all_goals cases h

@[simp, grind =]
theorem isLoneDot_right : isLoneDot (u ++ S.right) = isLoneDot (u ++ S.left) := by
  simp [isLoneDot]

@[grind →]
theorem isLoneDot_pos (h : isLoneDot (u ++ S.left) = true) : 0 < u.length :=
  isSymbol_length (y := .dot) (Bool.and_eq_true_iff.1 h).1 (by decide)

@[simp, grind =]
theorem isLoneColon_right : isLoneColon (u ++ S.right) = isLoneColon (u ++ S.left) := by
  simp [isLoneColon]

@[simp, grind =]
theorem isPathWord_right [S.Unspent] : isPathWord (u ++ S.right) = isPathWord (u ++ S.left) := by
  simp only [isPathWord, isIdent_right, isKeywordOf_right]

/-- Passing over tokens before a seam leaves the seam. -/
@[grind =]
theorem drop_left {n : ℕ} (h : n ≤ u.length) : (u ++ S.left).drop n = u.drop n ++ S.left :=
  List.drop_append_of_le_length h

@[grind =]
theorem drop_right {n : ℕ} (h : n ≤ u.length) : (u ++ S.right).drop n = u.drop n ++ S.right :=
  List.drop_append_of_le_length h

end Grammar

end ProcessCompiler
