import ProcessCompiler.Proofs.Snippet.Statements
import ProcessCompiler.Snippet.Invocation
/-!
# The two parts of an invocation

What is known of a text that was cut in two: where the parts stand in it, that
the front is a list of statements that ends in a semicolon, and that the tail
is one expression. Both parts are checked apart from each other, so nothing in
the cut itself keeps a part from ending inside a comment; `isOpen` says that
one does.
-/

namespace ProcessCompiler

open Grammar Scan Lexeme Text

namespace Text

/-- What is taken off the end of a text. -/
theorem exists_append_dropEndWhile (p : Char → Bool) (s : List Char) :
    ∃ trail, (∀ c ∈ trail, p c = true) ∧ s = dropEndWhile p s ++ trail := by
  refine ⟨(s.reverse.takeWhile p).reverse, fun c hc => ?_, ?_⟩
  · exact List.mem_takeWhile_imp (List.mem_reverse.1 hc)
  · rw [dropEndWhile, ← List.reverse_append, List.takeWhile_append_dropWhile, List.reverse_reverse]

theorem exists_append_trimStart (s : List Char) : ∃ lead, Blank lead ∧ s = lead ++ trimStart s :=
  ⟨s.takeWhile isBlank, fun _ hc => List.mem_takeWhile_imp hc,
    (List.takeWhile_append_dropWhile).symm⟩

/-- What trimming takes off the ends of a text. -/
theorem exists_append_trim (s : List Char) :
    ∃ lead trail, Blank lead ∧ s = lead ++ (trim s ++ trail) := by
  obtain ⟨lead, hlead, hs⟩ := exists_append_trimStart s
  obtain ⟨trail, -, htrail⟩ := exists_append_dropEndWhile isBlank (trimStart s)
  refine ⟨lead, trail, hlead, ?_⟩
  rw [trim, trimEnd, ← htrail, ← hs]

theorem trimEnd_of_getLast? {s : List Char} {c : Char} (h : s.getLast? = some c)
    (hc : isBlank c = false) : trimEnd s = s := by
  obtain ⟨s, rfl⟩ := List.getLast?_eq_some_iff.1 h
  simp [trimEnd, dropEndWhile, hc]

/-- A text that ends in no blank loses none at its end. -/
theorem trim_of_getLast? {s : List Char} {c : Char} (h : s.getLast? = some c)
    (hc : isBlank c = false) :
    ∃ lead, Blank lead ∧ s = lead ++ trim s ∧ (trim s).getLast? = some c := by
  obtain ⟨lead, hlead, hs⟩ := exists_append_trimStart s
  have hne : trimStart s ≠ [] := by
    intro hnil
    rw [hnil, List.append_nil] at hs
    have hblank := hlead c (hs ▸ List.mem_of_getLast? h)
    rw [hc] at hblank
    cases hblank
  have hlast : (trimStart s).getLast? = some c := by
    rw [hs, List.getLast?_append_of_ne_nil _ hne] at h
    exact h
  refine ⟨lead, hlead, ?_, ?_⟩ <;> rw [trim, trimEnd_of_getLast? hlast hc]
  · exact hs
  · exact hlast

end Text

namespace Invocation

variable {text : String} {i : Invocation}

theorem mem_cuts {b : List Char} {cut : List Char × List Char} (h : cut ∈ cuts b) :
    b = cut.1 ++ cut.2 ∧ cut.1.getLast? = some ';' := by
  induction b generalizing cut with
  | nil => cases h
  | cons c b ih =>
    have hlater : cut ∈ (cuts b).map (fun cut => (c :: cut.1, cut.2)) →
        c :: b = cut.1 ++ cut.2 ∧ cut.1.getLast? = some ';' := by
      intro hmem
      obtain ⟨⟨before, after⟩, hcut, rfl⟩ := List.mem_map.1 hmem
      obtain ⟨hb, hlast⟩ := ih hcut
      refine ⟨by rw [hb, List.cons_append], ?_⟩
      rw [List.getLast?_cons, hlast]
      rfl
    simp only [cuts] at h
    split_ifs at h with hc
    · rcases List.mem_cons.1 h with rfl | h
      · exact ⟨rfl, by rw [eq_of_beq hc]; rfl⟩
      · exact hlater h
    · exact hlater h

/-- What a text is cut into: a tail that is one expression, and before it
statements up to a semicolon, with only blanks around them. -/
structure Parts (text : String) (i : Invocation) : Prop where
  tail : ∃ e, parseExpr i.tail = .ok e
  front : ∀ p ∈ i.prelude?, p.toList.getLast? = some ';' ∧ Harness.statements.accepts p = true
  text : ∃ lead mid trail, Blank lead ∧ Blank mid ∧
    text.toList = lead ++ ((i.prelude?.getD "").toList ++ (mid ++ (i.tail.toList ++ trail)))

theorem exists_parseExpr_of_isTail {t : List Char} (h : isTail t = true) :
    ∃ e, parseExpr (String.ofList t) = .ok e := by
  unfold isTail at h
  split at h
  · exact ⟨_, ‹_›⟩
  · cases h

/-- The text that is cut, and what is dropped before and behind it. -/
theorem exists_append_body (text : List Char) :
    ∃ lead trail, Blank lead ∧ text = lead ++ (body text ++ trail) := by
  obtain ⟨lead, trail, hlead, htext⟩ := exists_append_trim text
  obtain ⟨semis, -, hsemis⟩ := exists_append_dropEndWhile (· == ';') (trim text)
  obtain ⟨blanks, -, hblanks⟩ :=
    exists_append_dropEndWhile isBlank (dropEndWhile (· == ';') (trim text))
  refine ⟨lead, blanks ++ (semis ++ trail), hlead, ?_⟩
  rw [body, trimEnd, ← List.append_assoc (dropEndWhile _ _), ← hblanks, ← List.append_assoc,
    ← List.append_assoc]
  rw [List.append_assoc lead, ← hsemis, List.append_assoc, ← htext]

/-- **A text is cut into its parts.** -/
theorem parts_of_split (h : split text = some i) : Parts text i := by
  obtain ⟨lead, trail, hlead, htext⟩ := exists_append_body text.toList
  unfold split at h
  simp only at h
  split_ifs at h with hempty htail
  · obtain rfl := Option.some.inj h
    refine ⟨exists_parseExpr_of_isTail htail, nofun, lead, [], trail, hlead, nofun, ?_⟩
    simpa using htext
  · obtain ⟨cut, hcut, hofCut⟩ := List.exists_of_findSome?_eq_some h
    obtain ⟨hbody, hsemi⟩ := mem_cuts (List.mem_reverse.1 hcut)
    obtain ⟨lead', hlead', hfront, hlast⟩ := trim_of_getLast? hsemi rfl
    obtain ⟨mid, trail', hmid, htail'⟩ := exists_append_trim cut.2
    unfold ofCut at hofCut
    simp only [Option.ite_none_right_eq_some, Bool.and_eq_true] at hofCut
    obtain ⟨⟨⟨-, hexpr⟩, haccepts⟩, heq⟩ := hofCut
    obtain rfl := Option.some.inj heq
    refine ⟨exists_parseExpr_of_isTail hexpr, ?_, lead ++ lead', mid, trail' ++ trail, ?_, hmid, ?_⟩
    · rintro p hp
      obtain rfl := Option.some.inj hp
      exact ⟨by rw [String.toList_ofList]; exact hlast, haccepts⟩
    · exact fun c hc => (List.mem_append.1 hc).elim (hlead c) (hlead' c)
    · rw [htext, hbody]
      nth_rewrite 1 [hfront, htail']
      simp

/-- One of the parts ends inside a comment, which takes what is put behind it
up to the end of the line. -/
def isOpen (i : Invocation) : Bool :=
  endsInLine i.tail.toList || i.prelude?.any fun p => endsInLine p.toList

theorem isOpen_eq_false_iff : i.isOpen = false ↔
    endsInLine i.tail.toList = false ∧ ∀ p ∈ i.prelude?, endsInLine p.toList = false := by
  cases hp : i.prelude? <;> simp [isOpen, hp]

/-! ## What stands before the tail -/

theorem border_orderMark (x : List Char) : Border ('\uFEFF' :: x) := by
  have hword : isWordRest '\uFEFF' = false := by decide +kernel
  refine ⟨?_, rfl, rfl⟩
  rw [startsWith]
  exact hword

theorem scans_blanks {s : List Char} (hs : Blank s) (x : List Char) : Scans (s ++ x) [] x :=
  .blanks (fun c hc => by simp [isGap, hs c hc]) .done

/-- Behind blanks the mark of the byte order is not scanned, nor does it go on
with what stands before them. -/
theorem orderMark_behind_blanks {s : List Char} (hs : Blank s) (x : List Char) :
    Border (s ++ '\uFEFF' :: x) ∧ lexemes (s ++ '\uFEFF' :: x) = none := by
  constructor
  · cases s with
    | nil => exact border_orderMark x
    | cons c s => exact border_of_isBlank (hs c List.mem_cons_self) _
  · rw [show _ = _ from scans_blanks hs _, lexemes_orderMark]
    rfl

/-- **The tail is read in the place where it stands**, so it does not begin with
the mark of the byte order, unless a comment hides it. -/
theorem Parts.tail_ne_orderMark (h : Parts text i) (haccepts : Harness.statements.accepts text = true)
    (hfront : ∀ p ∈ i.prelude?, endsInLine p.toList = false) (x : List Char) :
    i.tail.toList ≠ '\uFEFF' :: x := by
  intro htail
  obtain ⟨lead, mid, trail, hlead, hmid, htext⟩ := h.text
  obtain ⟨block, hblock⟩ := Harness.accepts_iff.1 haccepts
  obtain ⟨L, hL⟩ := Harness.exists_lexemes_of_parse_statements hblock
  obtain ⟨hborder, hnone⟩ := orderMark_behind_blanks hmid (x ++ trail)
  rw [htext, htail, List.cons_append, show _ = _ from scans_blanks hlead _] at hL
  rcases hp : i.prelude? with _ | p
  · rw [hp] at hL
    simp [hnone] at hL
  · obtain ⟨-, hpaccepts⟩ := h.front p hp
    obtain ⟨before, hbefore⟩ := Harness.accepts_iff.1 hpaccepts
    obtain ⟨K, us, hcloses, hK, -⟩ := Harness.closes_of_parse_statements hbefore (hfront p hp)
    have happend := hcloses.append _ hborder fun hlast => absurd hlast (hK.getLast?_ne .paren)
    rw [hp] at hL
    simp [happend, hnone] at hL

end Invocation

end ProcessCompiler
