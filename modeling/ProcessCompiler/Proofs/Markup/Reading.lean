import ProcessCompiler.Markup.Record
import ProcessCompiler.Proofs.Markup.Tree
import ProcessCompiler.Proofs.Reordered
/-!
# Reading records from trees

What comes of reading a plain tree by the rules of a record. `Yields` says
that a step of reading comes to a value whatever the bindings in force are, so
the proofs never follow them. The children of an element are put into the
record one after another (`Legible.yields_readContent`), though items of a
list are gathered from all over it: items of different lists may be taken in
any order.
-/

namespace ProcessCompiler

namespace Markup

/-! ## Steps of reading -/

/-- **The reading comes to a value**, whatever the outlook is. -/
def Yields {α : Type} (m : Reading α) (a : α) : Prop := ∀ o, ∃ o', m.run o = .ok (a, o')

section Steps

variable {α β : Type}

theorem yields_pure (a : α) : Yields (pure a) a := fun o => ⟨o, rfl⟩

theorem Yields.bind {m : Reading α} {f : α → Reading β} {a : α} {b : β} (hm : Yields m a)
    (hf : Yields (f a) b) : Yields (m >>= f) b := by
  intro o
  obtain ⟨o', hm⟩ := hm o
  obtain ⟨o'', hf⟩ := hf o'
  refine ⟨o'', ?_⟩
  rw [StateT.run_bind, hm]
  exact hf

/-- A step that looks at the outlook may take any. -/
theorem yields_get_bind {f : Outlook → Reading β} {b : β} (h : ∀ o, Yields (f o) b) :
    Yields (get >>= f) b := fun o => h o o

theorem yields_lift {x : Except MarkupError α} {a : α} (h : x = .ok a) :
    Yields (liftM x) a := by
  subst h
  exact fun o => ⟨o, rfl⟩

theorem yields_modify (f : Outlook → Outlook) : Yields (modify f) PUnit.unit :=
  fun o => ⟨f o, rfl⟩

theorem yields_meet {tag : List Char} (h : bindingFault? tag = none) : Yields (meet tag) () := by
  rw [meet, h]
  exact yields_pure ()

theorem Yields.inside {m : Reading α} {a : α} (h : Yields m a) (tag : List Char) :
    Yields (inside tag m) a := by
  refine yields_get_bind fun o => ?_
  split
  · exact h
  · exact (yields_modify _).bind (h.bind ((yields_modify _).bind (yields_pure a)))

/-- Neither tag says that the element of the second has no value. -/
def Filled (owner tag : List Char) : Prop :=
  ∀ s : Scope, s.marksVoid owner = false ∧ s.marksVoid tag = false

theorem Filled.yields_isVoid {owner tag : List Char} (h : Filled owner tag)
    (children : List Content) : Yields (isVoid owner tag children) false := by
  refine yields_get_bind fun o => ?_
  obtain ⟨howner, htag⟩ := h (o.scopeOf tag children)
  dsimp only
  rw [howner, htag]
  exact yields_pure false

/-- It may not matter whether an element has a value. -/
theorem yields_isVoid_bind {owner tag : List Char} {children : List Content}
    {f : Bool → Reading β} {b : β} (h : ∀ void, Yields (f void) b) :
    Yields (isVoid owner tag children >>= f) b := fun o => h _ o

end Steps

/-! ## Attributes -/

section Attributes

variable {σ : Type} {rules : RecordRules σ}

/-- An attribute as it is read from a tag. -/
def entryOf (a : String × String) : Entry := .ok ⟨a.1.toList, encode a.2.toList⟩

/-- Attributes that fill no field are passed over. -/
theorem readAttributes_of_none (h : ∀ key, rules.attributeSlot key = none) (r : σ)
    (attributes : List (String × String)) :
    readAttributes rules r (attributes.map entryOf) = .ok r := by
  induction attributes with
  | nil => rfl
  | cons a rest ih =>
    rw [List.map_cons, entryOf, readAttributes, h]
    exact ih

/-- **Attributes fill their fields** in their order, if no field is taken
before. -/
theorem readAttributes_map {ι : Type} {attributes : List ι} {write : ι → String × String}
    (slot : ι → Slot σ) {r : σ}
    (hslot : ∀ a ∈ attributes, rules.attributeSlot
      (Attribute.field ⟨(write a).1.toList, encode (write a).2.toList⟩) = some (slot a))
    (hapart : attributes.Pairwise fun a b =>
      ∀ r v, (slot b).taken ((slot a).put r v) = (slot b).taken r)
    (hfree : ∀ a ∈ attributes, (slot a).taken r = false) :
    readAttributes rules r ((attributes.map write).map entryOf) =
      .ok (attributes.foldl (fun r a => (slot a).put r (write a).2) r) := by
  induction attributes generalizing r with
  | nil => rfl
  | cons a rest ih =>
    obtain ⟨ha, hslot⟩ := List.forall_mem_cons.1 hslot
    obtain ⟨hafree, hfree⟩ := List.forall_mem_cons.1 hfree
    obtain ⟨haapart, hapart⟩ := List.pairwise_cons.1 hapart
    have hread : readAttributes rules r (((a :: rest).map write).map entryOf) =
        readAttributes rules ((slot a).put r (write a).2) ((rest.map write).map entryOf) := by
      rw [List.map_cons, List.map_cons, entryOf, readAttributes, ha]
      simp [hafree, decode_encode]
    rw [hread, List.foldl_cons]
    exact ih hslot hapart fun b hb => (haapart b hb r (write a).2).trans (hfree b hb)

end Attributes

/-! ## Children -/

namespace Tree

/-- The name of a tree's element. -/
def name : Tree → String
  | leaf name _ _ | branch name _ _ => name

/-- The tag of a tree's element. -/
def tag : Tree → List Char
  | leaf name attributes _ | branch name attributes _ => tagText name attributes

/-- What a tree's element holds. -/
def body : Tree → List Content
  | leaf _ _ text => textContent text
  | branch _ _ children => contentAll children

/-- A tree as an element, in front of a tag. -/
def element (t : Tree) (following : Option (List Char)) : Element :=
  ⟨t.name.toList, t.tag, t.body, following⟩

theorem content_eq (t : Tree) : t.content = .element t.name.toList t.tag t.body := by
  cases t <;> rfl

theorem Plain.binds {t : Tree} (h : t.Plain) : bindingFault? t.tag = none := by
  cases t <;> exact h.1.binds

theorem Plain.surveyAll_body {t : Tree} (h : t.Plain) : Content.surveyAll t.body = .ok () := by
  cases t with
  | leaf name attributes text => exact surveyAll_textContent h.2
  | branch name attributes children => exact surveyAll_contentAll children h.2

end Tree

variable {σ : Type}

/-- A child of a record's element, and what it does to the record. -/
structure Child (σ : Type) where
  tree : Tree
  /-- It is an item of a list. -/
  many : Bool
  /-- Its field is taken. -/
  taken : σ → Bool
  put : σ → σ

namespace Child

/-- **Rules read a child** as it says, inside an element with the given
tag. -/
inductive Reads (rules : RecordRules σ) (owner : List Char) (c : Child σ) : Prop where
  | text {field : String} {put : σ → String → σ} {clear : σ → σ} {s : String}
      (rule : rules.childRule (String.ofList (localName c.tree.name.toList)) =
        some (.text ⟨field, c.taken, put⟩ clear))
      (single : c.many = false)
      (filled : Filled owner c.tree.tag)
      (value : textOf c.tree.name.toList c.tree.body = .ok s)
      (puts : ∀ r, put r s = c.put r)
  | element {field : String} {put : σ → Element → Reading σ} {clear : Option (σ → σ)}
      (rule : rules.childRule (String.ofList (localName c.tree.name.toList)) =
        some (.element field c.taken put clear))
      (single : c.many = false)
      (filled : clear = none ∨ Filled owner c.tree.tag)
      (value : ∀ r following, Yields (put r (c.tree.element following)) (c.put r))
  | list {field : String} {push : σ → Item → Reading σ}
      (rule : rules.childRule (String.ofList (localName c.tree.name.toList)) =
        some (.list field c.taken push))
      (value : ∀ r following, Yields (push r (.element (c.tree.element following))) (c.put r))

/-- Children one after another. -/
def putAll (cs : List (Child σ)) (r : σ) : σ := cs.foldl (fun r c => c.put r) r

/-- **A list is gathered** from all children of its name, and the others are
left. -/
theorem yields_gather (owner : List Char) {name : String} {push : σ → Item → Reading σ}
    {cs : List (Child σ)} (hplain : ∀ c ∈ cs, c.tree.Plain)
    (hpush : ∀ c ∈ cs, c.tree.name = name → ∀ r following,
      Yields (push r (.element (c.tree.element following))) (c.put r)) (r : σ) :
    Yields (gather owner name.toList push r (cs.map (·.tree.content)))
      (putAll (cs.filter (·.tree.name == name)) r,
        (cs.filter (!·.tree.name == name)).map (·.tree.content)) := by
  induction cs generalizing r with
  | nil => exact yields_pure _
  | cons c cs ih =>
    obtain ⟨hc, hplain⟩ := List.forall_mem_cons.1 hplain
    obtain ⟨hcpush, hpush⟩ := List.forall_mem_cons.1 hpush
    rw [List.map_cons, Tree.content_eq, gather]
    refine (yields_meet hc.binds).bind ?_
    by_cases hname : c.tree.name = name
    · rw [if_pos (congrArg String.toList hname), List.filter_cons_of_pos (by simpa using hname),
        List.filter_cons_of_neg (by simpa using hname)]
      exact (hcpush hname r _).bind (ih hplain hpush (c.put r))
    · rw [if_neg (mt String.toList_inj.1 hname), List.filter_cons_of_neg (by simpa using hname),
        List.filter_cons_of_pos (by simpa using hname), List.map_cons, Tree.content_eq]
      have hsurvey : (Content.surveyAll c.tree.body).mapError (breakError owner) = .ok () := by
        rw [hc.surveyAll_body]
        rfl
      exact (yields_lift hsurvey).bind ((ih hplain hpush r).bind (yields_pure _))

/-- **Children that can be read** into a record: rules read each of them, no
two are for one field unless they are items of a list, the order of those for
different fields does not matter, and no field is taken. -/
structure Legible (rules : RecordRules σ) (owner : List Char) (cs : List (Child σ)) (r : σ) :
    Prop where
  plain : ∀ c ∈ cs, c.tree.Plain
  reads : ∀ c ∈ cs, c.Reads rules owner
  single : cs.Pairwise fun c d => c.tree.name = d.tree.name → c.many = true
  keeps : ∀ c ∈ cs, ∀ d ∈ cs, c.tree.name ≠ d.tree.name → ∀ r, d.taken (c.put r) = d.taken r
  comm : ∀ c ∈ cs, ∀ d ∈ cs, c.tree.name ≠ d.tree.name → ∀ r, d.put (c.put r) = c.put (d.put r)
  free : ∀ c ∈ cs, c.taken r = false

section Children

variable {rules : RecordRules σ} {owner : List Char} {c : Child σ} {cs : List (Child σ)} {r : σ}

/-- What makes the children that some things stand for legible. -/
theorem legible_map {ι : Type} {xs : List ι} {child : ι → Child σ}
    (plain : ∀ x ∈ xs, (child x).tree.Plain)
    (reads : ∀ x ∈ xs, (child x).Reads rules owner)
    (single : xs.Pairwise fun x y =>
      (child x).tree.name = (child y).tree.name → (child x).many = true)
    (apart : ∀ x ∈ xs, ∀ y ∈ xs, (child x).tree.name ≠ (child y).tree.name → ∀ r,
      (child y).taken ((child x).put r) = (child y).taken r ∧
        (child y).put ((child x).put r) = (child x).put ((child y).put r))
    (free : ∀ x ∈ xs, (child x).taken r = false) :
    Legible rules owner (xs.map child) r where
  plain := List.forall_mem_map.2 plain
  reads := List.forall_mem_map.2 reads
  single := List.pairwise_map.2 single
  keeps := List.forall_mem_map.2 fun x hx => List.forall_mem_map.2 fun y hy hne r =>
    (apart x hx y hy hne r).1
  comm := List.forall_mem_map.2 fun x hx => List.forall_mem_map.2 fun y hy hne r =>
    (apart x hx y hy hne r).2
  free := List.forall_mem_map.2 free

theorem legible_nil (rules : RecordRules σ) (owner : List Char) (r : σ) :
    Legible rules owner [] r where
  plain := List.forall_mem_nil _
  reads := List.forall_mem_nil _
  single := .nil
  keeps := List.forall_mem_nil _
  comm := List.forall_mem_nil _
  free := List.forall_mem_nil _

theorem legible_singleton (plain : c.tree.Plain) (reads : c.Reads rules owner)
    (free : c.taken r = false) : Legible rules owner [c] r where
  plain := List.forall_mem_singleton.2 plain
  reads := List.forall_mem_singleton.2 reads
  single := List.pairwise_singleton _ _
  keeps := by simp
  comm := by simp
  free := List.forall_mem_singleton.2 free

/-- Some of the children can be read after others for different fields. -/
theorem Legible.after {before after : List (Child σ)} (h : Legible rules owner cs r)
    (hafter : after.Sublist cs)
    (hbefore : ∀ c ∈ before, c ∈ cs ∧ ∀ d ∈ after, c.tree.name ≠ d.tree.name) :
    Legible rules owner after (putAll before r) where
  plain c hc := h.plain c (hafter.subset hc)
  reads c hc := h.reads c (hafter.subset hc)
  single := h.single.sublist hafter
  keeps c hc d hd := h.keeps c (hafter.subset hc) d (hafter.subset hd)
  comm c hc d hd := h.comm c (hafter.subset hc) d (hafter.subset hd)
  free d hd := by
    have hkeep : ∀ r, d.taken (putAll before r) = d.taken r := by
      induction before with
      | nil => exact fun _ => rfl
      | cons c before ih =>
        obtain ⟨hc, hbefore⟩ := List.forall_mem_cons.1 hbefore
        intro r
        rw [putAll, List.foldl_cons, ← putAll, ih hbefore]
        exact h.keeps c hc.1 d (hafter.subset hd) (hc.2 d hd) r
    rw [hkeep, h.free d (hafter.subset hd)]

/-- The other children can be read after the first, if that is no item of a
list. -/
theorem Legible.after_single (h : Legible rules owner (c :: cs) r) (hsingle : c.many = false) :
    Legible rules owner cs (c.put r) := by
  suffices hafter : Legible rules owner cs (putAll [c] r) from hafter
  refine h.after (List.sublist_cons_self c cs) fun d hd => ?_
  rw [List.mem_singleton.1 hd]
  refine ⟨List.mem_cons_self, fun e he heq => ?_⟩
  have hmany := (List.pairwise_cons.1 h.single).1 e he heq
  exact absurd (hmany.symm.trans hsingle) (by decide)

/-- A rule for lists reads all children of its name. -/
theorem Legible.yields_push (h : Legible rules owner cs r) {name field : String}
    {taken : σ → Bool} {push : σ → Item → Reading σ}
    (hrule : rules.childRule (String.ofList (localName name.toList)) =
      some (.list field taken push)) (c : Child σ) (hc : c ∈ cs) (hname : c.tree.name = name)
    (r : σ) (following : Option (List Char)) :
    Yields (push r (.element (c.tree.element following))) (c.put r) := by
  subst hname
  cases h.reads c hc with
  | text rule | element rule => cases hrule.symm.trans rule
  | list rule value =>
    cases hrule.symm.trans rule
    exact value r following

/-- Children of one name may be put into the record before the others. -/
theorem Legible.putAll_eq_filter (h : Legible rules owner cs r) (name : String) :
    putAll cs r = putAll (cs.filter (!·.tree.name == name))
      (putAll (cs.filter (·.tree.name == name)) r) := by
  rw [putAll, (Reordered.filter_append (·.tree.name) cs name).foldl_eq h.comm, List.foldl_append]
  rfl

/-- **Reading children** puts them into the record one after another, in
whatever order the fields come. -/
theorem Legible.yields_readContent {owner : Element} {n : Nat} :
    ∀ {cs : List (Child σ)} {r : σ} {trimStart : Bool}, Legible rules owner.tag cs r →
      cs.length ≤ n →
      Yields (readContent rules owner n trimStart r (cs.map (·.tree.content))) (putAll cs r) := by
  induction n with
  | zero =>
    intro cs r trimStart _ hlength
    rw [List.length_eq_zero_iff.1 (Nat.le_zero.1 hlength)]
    exact yields_pure r
  | succ n ih =>
    intro cs r trimStart h hlength
    cases cs with
    | nil => exact yields_pure r
    | cons c cs =>
      rw [List.map_cons, Tree.content_eq, readContent]
      refine (yields_meet (h.plain c List.mem_cons_self).binds).bind ?_
      have hfree : ¬c.taken r = true := by simp [h.free c List.mem_cons_self]
      have hlength : cs.length ≤ n := Nat.le_of_succ_le_succ hlength
      cases h.reads c List.mem_cons_self with
      | text rule single filled value puts =>
        rw [rule]
        dsimp only
        rw [if_neg hfree]
        refine (filled.yields_isVoid _).bind ?_
        rw [if_neg Bool.false_ne_true]
        refine (yields_lift value).bind ?_
        rw [puts]
        exact ih (h.after_single single) hlength
      | @element field put clear rule single filled value =>
        rw [rule]
        dsimp only
        rw [if_neg hfree]
        have hput := value r (Content.firstTag? (cs.map (·.tree.content)))
        rcases filled with rfl | filled
        · exact yields_isVoid_bind fun void => hput.bind (ih (h.after_single single) hlength)
        · refine (filled.yields_isVoid _).bind ?_
          cases clear <;> exact hput.bind (ih (h.after_single single) hlength)
      | list rule value =>
        rw [rule]
        dsimp only
        -- The rule takes all items of its list at once, so that fewer children
        -- are left and these are for other fields.
        have hall : c.tree.content :: cs.map (·.tree.content) =
          (c :: cs).map (·.tree.content) := rfl
        rw [if_neg hfree, ← Tree.content_eq, hall, h.putAll_eq_filter c.tree.name]
        refine (yields_gather owner.name h.plain (h.yields_push rule) r).bind
          ((yields_modify _).bind ?_)
        refine ih (h.after List.filter_sublist fun d hd => ?_) ?_
        · obtain ⟨hmem, hname⟩ := List.mem_filter.1 hd
          refine ⟨hmem, fun e he heq => ?_⟩
          have hother := (List.mem_filter.1 he).2
          simp_all
        · rw [List.filter_cons_of_neg (by simp)]
          exact Nat.le_trans (List.length_filter_le _ _) hlength

/-- **Reading a record** from an element: its attributes are put into the
record, then its children. -/
theorem Legible.yields_readRecord {start : σ} {name : String}
    {attributes : List (String × String)} {trees : List Tree}
    (h : Legible rules (tagText name attributes) cs r) (htrees : cs.map (·.tree) = trees)
    (htag : PlainTag name attributes)
    (hattributes : readAttributes rules start (attributes.map entryOf) = .ok r)
    (following : Option (List Char)) :
    Yields (readRecord rules start ((Tree.branch name attributes trees).element following))
      (putAll cs r) := by
  have hbody : (Tree.branch name attributes trees).body = cs.map (·.tree.content) := by
    rw [Tree.body, Tree.contentAll_eq_map, ← htrees, List.map_map]
    rfl
  refine Yields.inside ?_ _
  rw [Tree.element, Tree.tag, htag.ofTag_tagText, hbody]
  exact (yields_lift hattributes).bind
    (h.yields_readContent (Nat.le_of_eq (List.length_map _).symm))

end Children

end Child

end Markup

end ProcessCompiler
