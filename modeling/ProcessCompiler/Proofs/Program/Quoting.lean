import ProcessCompiler.Proofs.Program.Listing
import ProcessCompiler.Proofs.Program.Phrases
import ProcessCompiler.Proofs.Scan.Meaning
import ProcessCompiler.Proofs.Validation.Rules
/-!
# Keys and tags in quotes

A procedure names its key and its tag in quotes. A quoted text is one string
literal that reads back as the text (`decoded?_keyLiteral`), and no character in
it ends a line or has no glyph (`not_isHidden_of_mem_quoted`). So indentation
leaves it in the line where it was written: each of the phrases of a procedure
that hold a literal (`literalPhrases`) begins a line of the procedure's text.
Main statement: `quoted_survives`.
-/

namespace ProcessCompiler

open Grammar Scan Text

namespace Grammar

/-- The text that a string literal stands for, if it has no suffix. -/
def Literal.decoded? (l : Literal) : Option String :=
  match stringOf l with
  | some (value, []) => String.fromUTF8? value.toByteArray
  | _ => none

end Grammar

namespace Text

variable {c : Char}

/-! ## Quoted texts -/

theorem toList_quoted (s : String) :
    (quoted s).toList = '"' :: (s.toList.flatMap escaped ++ ['"']) := by
  simp [quoted]

/-- A code point of ASCII with a glyph is not hidden. -/
theorem not_isHidden_of_lt (hlow : 32 ≤ c.toNat) (hhigh : c.toNat < 127) : isHidden c = false := by
  simp only [isHidden, Bool.or_eq_false_iff, decide_eq_false_iff_not, beq_eq_false_iff_ne,
    Bool.and_eq_false_iff]
  exact ⟨⟨by omega, by omega⟩, .inl (by omega)⟩

/-- The digits of a number have glyphs. -/
theorem not_isHidden_of_mem_hexadecimal {n : ℕ} (hc : c ∈ hexadecimal n) : isHidden c = false := by
  have hdigits : ∀ d < 16, isHidden (Nat.digitChar d) = false := by decide
  induction n using Nat.strongRecOn with
  | _ n ih =>
    unfold hexadecimal at hc ih
    by_cases hlt : n < 16
    · rw [Nat.toDigits_of_lt_base hlt, List.mem_singleton] at hc
      rw [hc]
      exact hdigits n hlt
    · rw [Nat.toDigits_of_base_le (by decide) (Nat.le_of_not_lt hlt), List.mem_append,
        List.mem_singleton] at hc
      rcases hc with hc | rfl
      · exact ih (n / 16) (by omega) hc
      · exact hdigits _ (Nat.mod_lt n (by decide))

theorem not_isHidden_of_mem_escaped {d : Char} (h : c ∈ escaped d) : isHidden c = false := by
  have hletters : ∀ e : Char, isHidden e = false → c ∈ ['\\', e] → isHidden c = false := by
    intro e he hc
    rcases List.mem_pair.1 hc with rfl | rfl
    · rfl
    · exact he
  unfold escaped at h
  split_ifs at h with hzero htab hreturn hline hquote hslash hhidden
  · exact hletters _ rfl h
  · exact hletters _ rfl h
  · exact hletters _ rfl h
  · exact hletters _ rfl h
  · exact hletters _ rfl h
  · exact hletters _ rfl h
  · rcases List.mem_append.1 h with h | h
    · rcases List.mem_append.1 h with h | h
      · simp only [List.mem_cons, List.not_mem_nil, or_false] at h
        rcases h with rfl | rfl | rfl <;> rfl
      · exact not_isHidden_of_mem_hexadecimal h
    · rw [List.mem_singleton.1 h]
      rfl
  · rw [List.mem_singleton.1 h]
    exact Bool.eq_false_iff.2 hhidden

/-- **Every character of a quoted text has a glyph**, so none of them is a line
feed or a return. -/
theorem not_isHidden_of_mem_quoted {s : String} (h : c ∈ (quoted s).toList) :
    isHidden c = false := by
  rw [toList_quoted, List.mem_cons, List.mem_append, List.mem_singleton] at h
  rcases h with rfl | h | rfl
  · rfl
  · obtain ⟨d, -, hd⟩ := List.mem_flatMap.1 h
    exact not_isHidden_of_mem_escaped hd
  · rfl

theorem not_mem_quoted (s : String) (h : isHidden c = true) : c ∉ (quoted s).toList := by
  intro hmem
  rw [not_isHidden_of_mem_quoted hmem] at h
  cases h

/-- **A quoted text reads back** as what it was. -/
theorem decoded?_keyLiteral (k : String) : (Layout.keyLiteral k).decoded? = some k := by
  have hvalue : stringOf (Layout.keyLiteral k) = some (k.toList.flatMap bytes, []) := by
    rw [Layout.keyLiteral, toList_quoted]
    exact stringValue_flatMap_escaped k.toList []
  have hbytes : (k.toList.flatMap bytes).toByteArray = k.toByteArray := String.utf8Encode_toList
  rw [Literal.decoded?, hvalue]
  simp only [hbytes, String.fromUTF8?, k.isValidUTF8, dif_pos]
  rfl

theorem quoted_injective : Function.Injective quoted := by
  intro k k' h
  have hliteral : Layout.keyLiteral k = Layout.keyLiteral k' := by
    rw [Layout.keyLiteral, h, ← Layout.keyLiteral]
  exact Option.some.inj ((decoded?_keyLiteral k).symm.trans
    ((congrArg Literal.decoded? hliteral).trans (decoded?_keyLiteral k')))

/-- A quoted text is one literal, whatever is not a word behind it. -/
theorem tokenize_quoted (k : String) :
    tokenize (quoted k).toList = some [.leaf (.literal (Layout.keyLiteral k))] := by
  have hnil : startsWith isWordStart [] = false := rfl
  have hscans := scans_quoted k hnil
  rw [List.append_nil] at hscans
  exact tokenize_of_lexemes hscans.lexemes (.leaf .nil)

/-- A word of ASCII needs no escape. -/
theorem escaped_of_isPlainWord (h : isPlainWord c = true) : escaped c = [c] := by
  have hcode := isPlainWord_iff.1 h
  have hhidden : isHidden c = false := not_isHidden_of_lt (by omega) (by omega)
  have hne : ∀ d : Char, isPlainWord d = false → c ≠ d := fun d hd => ne_of_isPlainWord h hd
  simp [escaped, hhidden, hne (Char.ofNat 0) rfl, hne '\t' rfl, hne '\r' rfl, hne '\n' rfl,
    hne '"' rfl, hne '\\' rfl]

/-- **A tag stands in its quotes as it is.** -/
theorem quoted_of_isTag {tag : String} (h : Tag.isTag tag = true) :
    quoted tag = "\"" ++ tag ++ "\"" := by
  obtain ⟨scope, name, htag, ⟨-, hscope⟩, -, hname⟩ := (Tag.isTag_iff_shaped tag).1 h
  have hword : ∀ c, c.isAlphanum = true ∨ c = '_' → escaped c = [c] := fun c hc =>
    escaped_of_isPlainWord ((Tag.isPlainWord_iff_isAlphanum c).2 hc)
  have hself : ∀ c ∈ tag.toList, escaped c = [c] := by
    intro c hc
    rw [htag, List.mem_cons, List.mem_append, List.mem_cons] at hc
    rcases hc with rfl | hc | rfl | hc
    · rfl
    · rcases hscope c hc with halpha | rfl | rfl
      · exact hword c (.inl halpha)
      · rfl
      · rfl
    · rfl
    · exact hword c (hname c hc)
  have hflat : tag.toList.flatMap escaped = tag.toList := by
    rw [List.flatMap_congr hself]
    exact List.flatMap_singleton' _
  rw [← String.toList_inj, toList_quoted, hflat]
  simp

end Text

namespace Layout

variable {sharing : ContextSharing} {q : Procedure} {name params body : String}
  {a l z line : List Char}

/-! ## Literals in the text of a procedure -/

/-- Code with a literal in it: what stands before the literal in its line, the
text that it stands for, and what stands right behind it. -/
structure LiteralPhrase where
  before : String
  text : String
  behind : String

/-- The code of a phrase. -/
def LiteralPhrase.code (p : LiteralPhrase) : String := p.before ++ quoted p.text ++ p.behind

/-- The phrases of a procedure that hold its key or its tag. A script that ends its
procedure by itself keeps nothing. -/
def literalPhrases (q : Procedure) : List LiteralPhrase :=
  match q.action with
  | .subscribe tag key =>
    [⟨"take_every(", tag, ", context, "⟩, ⟨"context.set(", key, ", "⟩]
  | .invoke _ _ key none => [⟨"context.set(", key, ", "⟩]
  | .invoke _ _ key (some _) =>
    [⟨step ++ "Ok(value) => " ++ "context.set(", key, ", "⟩,
     ⟨step ++ step ++ "context.set(", key, ", "⟩]
  | .run _ key (some _) => [⟨step ++ "context.set(", key, ", "⟩]
  | _ => []

/-- A phrase is in one line, ends in no return and is not blank. -/
structure InLine (l : List Char) : Prop where
  feed : '\n' ∉ l
  last : l.getLast? ≠ some '\r'
  glyph : ∃ c ∈ l, isBlank c = false

/-- What begins a line of a text begins one of its lines. -/
theorem exists_line (ha : EndsLine a) (hl : InLine l) (z : List Char) :
    ∃ line ∈ lines (a ++ (l ++ z)), l <+: line := by
  rw [ha.lines_append]
  have hne : l ≠ [] := by
    rintro rfl
    obtain ⟨c, hc, -⟩ := hl.glyph
    cases hc
  by_cases hz : '\n' ∈ z
  · obtain ⟨x, rest, rfl, hx⟩ := List.eq_append_cons_of_mem hz
    have hline : '\n' ∉ l ++ x := by simp [hl.feed, hx]
    refine ⟨dropReturn (l ++ x), ?_, ?_⟩
    · rw [← List.append_assoc, Layout.lines_append hline]
      simp
    · rw [dropReturn_append_of_ne hl.last]
      exact List.prefix_append _ _
  · have hline : '\n' ∉ l ++ z := by simp [hl.feed, hz]
    refine ⟨l ++ z, ?_, List.prefix_append _ _⟩
    rw [lines_of_not_mem hline (by simp [hne])]
    simp

/-- It still does, further to the right, when the text is the body of a function. -/
theorem prefix_bodyLine (hl : InLine l) (h : l <+: line) :
    (step ++ step).toList ++ l <+: bodyLine line := by
  obtain ⟨x, rfl⟩ := h
  obtain ⟨c, hc, hglyph⟩ := hl.glyph
  have hblank : ¬(trim (l ++ x)).isEmpty = true := by
    rw [trim_isEmpty_iff]
    intro hall
    rw [hall c (List.mem_append_left x hc)] at hglyph
    cases hglyph
  have hlast : (List.replicate twoSteps ' ' ++ l).getLast? ≠ some '\r' := by
    rw [List.getLast?_append_of_ne_nil _ (List.ne_nil_of_mem hc)]
    exact hl.last
  rw [bodyLine, if_neg hblank, dropReturn_append_of_ne hl.last, ← List.append_assoc,
    dropReturn_append_of_ne hlast]
  exact List.prefix_append _ _

theorem mem_lines_function (h : line ∈ lines body.toList) :
    bodyLine line ∈ lines (function name params body).toList := by
  rw [lines_function]
  simp only [List.mem_append]
  exact .inr (.inl (List.mem_map_of_mem h))

/-- **A phrase begins a line of a text.** -/
def StartsLine (code text : String) : Prop :=
  ∃ front back : String, EndsLine front.toList ∧ text = front ++ (code ++ back)

/-- A phrase that begins a text. -/
theorem startsLine_append (code back : String) : StartsLine code (code ++ back) :=
  ⟨"", back, .inl rfl, String.empty_append.symm⟩

/-- More text behind it does not matter. -/
theorem StartsLine.append {code text : String} (h : StartsLine code text) (more : String) :
    StartsLine code (text ++ more) := by
  obtain ⟨front, back, hfront, rfl⟩ := h
  exact ⟨front, back ++ more, hfront, by simp only [String.append_assoc]⟩

/-- Nor do lines before it. -/
theorem StartsLine.of_endsLine {code front text : String} (hfront : EndsLine front.toList)
    (h : StartsLine code text) : StartsLine code (front ++ text) := by
  obtain ⟨before, back, hbefore, rfl⟩ := h
  refine ⟨front ++ before, back, ?_, String.append_assoc.symm⟩
  rw [String.toList_append]
  exact hfront.append hbefore

/-- **A phrase that begins a line of a body** begins a line of its function. -/
theorem StartsLine.exists_line_function {code : String} (hcode : InLine code.toList)
    (hbody : StartsLine code body) :
    ∃ line ∈ lines (function name params body).toList,
      (step ++ step ++ code).toList <+: line := by
  obtain ⟨front, back, hfront, rfl⟩ := hbody
  obtain ⟨line, hline, hprefix⟩ := exists_line hfront hcode back.toList
  refine ⟨bodyLine line, mem_lines_function ?_, ?_⟩
  · rw [String.toList_append, String.toList_append]
    exact hline
  · rw [String.toList_append]
    exact prefix_bodyLine hcode hprefix

theorem inLine_code {p : LiteralPhrase} (hbefore : '\n' ∉ p.before.toList)
    (hbehind : InLine p.behind.toList) : InLine p.code.toList := by
  have hlist : p.code.toList = p.before.toList ++ (quoted p.text).toList ++ p.behind.toList := by
    simp [LiteralPhrase.code]
  obtain ⟨c, hc, hglyph⟩ := hbehind.glyph
  constructor
  · rw [hlist]
    simp [hbefore, not_mem_quoted p.text (c := '\n') rfl, hbehind.feed]
  · rw [hlist, List.getLast?_append_of_ne_nil _ (List.ne_nil_of_mem hc)]
    exact hbehind.last
  · exact ⟨c, by rw [hlist]; exact List.mem_append_right _ hc, hglyph⟩

theorem endsLine_preludeCode (prelude? : Option String) : EndsLine (preludeCode prelude?).toList := by
  cases prelude? with
  | none => exact .inl rfl
  | some script =>
    simp only [preludeCode, asStatement]
    split
    · split_ifs
      · exact endsLine_feed _
      · rw [show ";\n" = ";" ++ "\n" from rfl, ← String.append_assoc]
        exact endsLine_feed _
    · exact .inr rfl

theorem inLine_of_mem_literalPhrases {p : LiteralPhrase} (hp : p ∈ literalPhrases q) :
    InLine p.code.toList := by
  have hconst : ∀ before text behind : String, '\n' ∉ before.toList → '\n' ∉ behind.toList →
      behind.toList.getLast? ≠ some '\r' → ',' ∈ behind.toList →
      InLine (LiteralPhrase.mk before text behind).code.toList := fun _ _ _ hbefore hfeed hlast hcomma =>
    inLine_code hbefore ⟨hfeed, hlast, ',', hcomma, rfl⟩
  unfold literalPhrases at hp
  split at hp
  · rcases List.mem_pair.1 hp with rfl | rfl <;>
      exact hconst _ _ _ (by decide) (by decide) (by decide) (by decide)
  · obtain rfl := List.mem_singleton.1 hp
    exact hconst _ _ _ (by decide) (by decide) (by decide) (by decide)
  · rcases List.mem_pair.1 hp with rfl | rfl <;>
      exact hconst _ _ _ (by decide) (by decide) (by decide) (by decide)
  · obtain rfl := List.mem_singleton.1 hp
    exact hconst _ _ _ (by decide) (by decide) (by decide) (by decide)
  · cases hp

/-- The code that keeps a value is a phrase and the value behind it. -/
theorem store_eq_append (key value : String) :
    store key value = LiteralPhrase.code ⟨"context.set(", key, ", "⟩ ++ (value ++ ")") := by
  have hstore : store key value = "context.set(" ++ quoted key ++ ", " ++ value ++ ")" := rfl
  rw [hstore]
  exact String.append_assoc

/-- A phrase further to the right. -/
theorem code_append (front before text behind : String) :
    LiteralPhrase.code ⟨front ++ before, text, behind⟩ =
      front ++ LiteralPhrase.code ⟨before, text, behind⟩ := by
  simp only [LiteralPhrase.code, String.append_assoc]

theorem startsLine_store (key value : String) :
    StartsLine (LiteralPhrase.code ⟨"context.set(", key, ", "⟩) (store key value) := by
  rw [store_eq_append]
  exact startsLine_append _ _

theorem startsLine_append_store (front key value : String) :
    StartsLine (LiteralPhrase.code ⟨front ++ "context.set(", key, ", "⟩)
      (front ++ store key value) := by
  rw [code_append, store_eq_append, ← String.append_assoc]
  exact startsLine_append _ _

/-! ### The lines of actions -/

section Actions

variable (kind : ElementKind) (nodeId : String) (prelude? : Option String)
  (expression key route : String)

theorem startsLine_invoke : StartsLine (LiteralPhrase.code ⟨"context.set(", key, ", "⟩)
    (action kind nodeId (.invoke prelude? expression key none)) :=
  ((startsLine_store key _).of_endsLine (endsLine_preludeCode prelude?)).append ";\n"

/-- The two phrases of a `match` begin its second line and its fourth one. -/
theorem startsLine_invoke_routed :
    StartsLine (LiteralPhrase.code ⟨step ++ "Ok(value) => " ++ "context.set(", key, ", "⟩)
        (action kind nodeId (.invoke prelude? expression key (some route))) ∧
      StartsLine (LiteralPhrase.code ⟨step ++ step ++ "context.set(", key, ", "⟩)
        (action kind nodeId (.invoke prelude? expression key (some route))) := by
  let front := preludeCode prelude? ++ "match (" ++ expression ++ ").await " ++ openBrace ++ "\n"
  let between := ",\n" ++ step ++ "Err(error) => " ++ openBrace
  let back := ";\n" ++ step ++ step ++ exit (some route) ++ "\n" ++ step ++ closeBrace ++ "\n" ++
    closeBrace ++ "\n"
  have haction : action kind nodeId (.invoke prelude? expression key (some route)) =
      front ++ (step ++ "Ok(value) => " ++ store key "value") ++ between ++ "\n" ++
        (step ++ step ++ store key "error") ++ back := by
    have hlayout : action kind nodeId (.invoke prelude? expression key (some route)) =
        front ++ step ++ "Ok(value) => " ++ store key "value" ++ ",\n" ++
        step ++ "Err(error) => " ++ openBrace ++ "\n" ++
        step ++ step ++ store key "error" ++ ";\n" ++
        step ++ step ++ exit (some route) ++ "\n" ++
        step ++ closeBrace ++ "\n" ++
        closeBrace ++ "\n" := rfl
    simp only [hlayout, between, back, String.append_assoc]
  rw [haction]
  constructor
  · have hvalue := (startsLine_append_store (step ++ "Ok(value) => ") key "value").of_endsLine
      (endsLine_feed (preludeCode prelude? ++ "match (" ++ expression ++ ").await " ++ openBrace))
    exact (((hvalue.append between).append "\n").append _).append back
  · have herror := (startsLine_append_store (step ++ step) key "error").of_endsLine
      (endsLine_feed (front ++ (step ++ "Ok(value) => " ++ store key "value") ++ between))
    exact herror.append back

theorem startsLine_run_routed (script : String) :
    StartsLine (LiteralPhrase.code ⟨step ++ "context.set(", key, ", "⟩)
      (action kind nodeId (.run script key (some route))) := by
  let front := "let outcome: Result<_, Error> = (|| Ok(" ++ openBrace ++ "\n" ++
    indent (asStatement script) ++ closeBrace ++ "))();\n" ++
    "if let Err(error) = outcome " ++ openBrace
  let back := ";\n" ++ step ++ exit (some route) ++ "\n" ++ closeBrace ++ "\n"
  have haction : action kind nodeId (.run script key (some route)) =
      front ++ "\n" ++ (step ++ store key "error") ++ back := by
    have hlayout : action kind nodeId (.run script key (some route)) =
        front ++ "\n" ++ step ++ store key "error" ++ ";\n" ++
        step ++ exit (some route) ++ "\n" ++
        closeBrace ++ "\n" := rfl
    simp only [hlayout, back, String.append_assoc]
  rw [haction]
  exact ((startsLine_append_store step key "error").of_endsLine (endsLine_feed front)).append back

end Actions

/-- **A literal stands in one line of its procedure**, with the same code around
it. -/
theorem exists_line_procedure (sharing : ContextSharing) {p : LiteralPhrase}
    (hp : p ∈ literalPhrases q) :
    ∃ line ∈ lines (procedure sharing q).toList, (step ++ step ++ p.code).toList <+: line := by
  have hcode := inLine_of_mem_literalPhrases hp
  obtain ⟨name, nodeId, kind, action, then_⟩ := q
  cases action with
  | subscribe tag key =>
    -- The tag stands in the procedure and the key in its handler.
    have hlines : lines (procedure sharing ⟨name, nodeId, kind, .subscribe tag key, then_⟩).toList = _ :=
      lines_append_feed (endsLine_function _ _ _) _
    rw [hlines]
    rcases List.mem_pair.1 hp with rfl | rfl
    · have hbody : StartsLine (LiteralPhrase.code ⟨"take_every(", tag, ", context, "⟩)
          ("take_every(" ++ quoted tag ++ ", context, " ++ Names.forkHandlerName name ++ ").await\n") :=
        (startsLine_append _ (Names.forkHandlerName name)).append ").await\n"
      obtain ⟨line, hline, hprefix⟩ := hbody.exists_line_function hcode
      exact ⟨line, List.mem_append_left _ hline, hprefix⟩
    · have hbody : StartsLine (LiteralPhrase.code ⟨"context.set(", key, ", "⟩)
          (store key "action" ++ ";\n" ++ continuation sharing then_) :=
        ((startsLine_store key "action").append ";\n").append _
      obtain ⟨line, hline, hprefix⟩ := hbody.exists_line_function hcode
      exact ⟨line, List.mem_append_right _ (List.mem_cons_of_mem _ hline), hprefix⟩
  | invoke prelude? expression key route =>
    cases route with
    | none =>
      obtain rfl := List.mem_singleton.1 hp
      have haction := startsLine_invoke kind nodeId prelude? expression key
      exact (haction.append _).exists_line_function hcode
    | some route =>
      obtain ⟨hvalue, herror⟩ := startsLine_invoke_routed kind nodeId prelude? expression key route
      rcases List.mem_pair.1 hp with rfl | rfl
      · exact (hvalue.append _).exists_line_function hcode
      · exact (herror.append _).exists_line_function hcode
  | run script key route =>
    cases route with
    | none => cases hp
    | some route =>
      obtain rfl := List.mem_singleton.1 hp
      have haction := startsLine_run_routed kind nodeId key route script
      exact (haction.append _).exists_line_function hcode
  | guard | emit | unimplemented => cases hp

/-- What the phrases of an action stand for is one of these texts. -/
def literalTexts : Action → List String
  | .subscribe tag key => [tag, key]
  | .invoke _ _ key _ | .run _ key _ => [key]
  | _ => []

theorem text_mem_literalTexts {p : LiteralPhrase} (hp : p ∈ literalPhrases q) :
    p.text ∈ literalTexts q.action := by
  unfold literalPhrases at hp
  split at hp <;> rename_i haction
  · rcases List.mem_pair.1 hp with rfl | rfl <;> simp [haction, literalTexts]
  · obtain rfl := List.mem_singleton.1 hp
    simp [haction, literalTexts]
  · rcases List.mem_pair.1 hp with rfl | rfl <;> simp [haction, literalTexts]
  · obtain rfl := List.mem_singleton.1 hp
    simp [haction, literalTexts]
  · cases hp

/-- What a node's procedure has in quotes is the node's key, or its tag. -/
theorem eq_of_mem_literalTexts {t : Names.Table} {n : Node} {text : String}
    (h : text ∈ literalTexts (Lowering.action t n)) :
    text = n.contextKey ∨ n.kind = .startEvent true ∧ n.expression = some text := by
  unfold Lowering.action at h
  split at h
  · cases h
  · exact .inl (List.mem_singleton.1 h)
  · exact .inl (List.mem_singleton.1 h)
  · rcases List.mem_pair.1 h with rfl | rfl
    · exact .inr ⟨‹_›, ‹_›⟩
    · exact .inl rfl
  · cases h
  · cases h

/-- A comma stands right behind each literal. -/
theorem head?_behind {p : LiteralPhrase} (hp : p ∈ literalPhrases q) :
    p.behind.toList.head? = some ',' := by
  unfold literalPhrases at hp
  split at hp
  · rcases List.mem_pair.1 hp with rfl | rfl <;> simp
  · simp [List.mem_singleton.1 hp]
  · rcases List.mem_pair.1 hp with rfl | rfl <;> simp
  · simp [List.mem_singleton.1 hp]
  · cases hp

/-- The lines of a program's procedures are lines of the program. -/
theorem mem_lines_render {p : Program} {config : EmitConfig} (hq : q ∈ p.procedures)
    (h : line ∈ lines (procedure config.context q).toList) :
    line ∈ lines (p.render config).toList := by
  rw [lines_render]
  exact List.mem_append_right _ (List.mem_flatMap.2 ⟨q, hq, List.mem_cons_of_mem _ h⟩)

/-- **Keys and tags survive their quotes.** A text in quotes is one string literal,
alone and before a comma, and stands for the text again. All its characters have
glyphs, so it is in one line. Different texts have different literals, and a tag
is its own. Wherever a procedure writes a literal, it stands in one line of the
program's text, at the place where it was written but for the indentation, and a
comma is behind it. What the procedure of a node writes so is the node's key and
its tag. -/
theorem quoted_survives (k : String) :
    tokenize (quoted k).toList = some [.leaf (.literal (keyLiteral k))] ∧
    (∀ x, Scans ((quoted k).toList ++ ',' :: x) [.leaf (.literal (keyLiteral k))] (',' :: x)) ∧
    (keyLiteral k).decoded? = some k ∧
    (∀ c ∈ (quoted k).toList, isHidden c = false) ∧
    (∀ k' : String, quoted k = quoted k' ↔ k = k') ∧
    (Tag.isTag k = true → quoted k = "\"" ++ k ++ "\"") ∧
    (∀ (program : Program) config, ∀ q ∈ program.procedures, ∀ p ∈ literalPhrases q, p.text = k →
      p.behind.toList.head? = some ',' ∧
      ∃ line ∈ lines (program.render config).toList,
        (step ++ step ++ p.before ++ quoted k ++ p.behind).toList <+: line) ∧
    ∀ t n, ∀ p ∈ literalPhrases (Lowering.procedure t n),
      p.text = n.contextKey ∨ n.kind = .startEvent true ∧ n.expression = some p.text := by
  refine ⟨tokenize_quoted k, fun x => scans_quoted k rfl, decoded?_keyLiteral k,
    fun c hc => not_isHidden_of_mem_quoted hc, fun k' => quoted_injective.eq_iff, quoted_of_isTag,
    fun program config q hq p hp htext => ⟨head?_behind hp, ?_⟩,
    fun t n p hp => eq_of_mem_literalTexts (text_mem_literalTexts hp)⟩
  subst htext
  obtain ⟨line, hline, hprefix⟩ := exists_line_procedure config.context hp
  refine ⟨line, mem_lines_render hq hline, ?_⟩
  rwa [LiteralPhrase.code, ← String.append_assoc, ← String.append_assoc] at hprefix

/-- A task whose name has quotes, a backslash, line ends, a lone accent and an
unassigned character in it, with statements over two lines. -/
def unrulyTask : Node :=
  ⟨"Work", some "a\"b\\\r\n\u0301\uffff", .task (some "Work"), some "f();\n\"\\\n x\"; g()", []⟩

def unrulyStart : Node := ⟨"Start", none, .startEvent true, some "@wf/begin", ["Work"]⟩

theorem quoted_survives_unruly :
    (keyLiteral unrulyTask.contextKey).decoded? = some unrulyTask.contextKey ∧
    quoted "@wf/begin" = "\"@wf/begin\"" ∧
    ∃ line ∈ lines (((Graph.ofNodes [unrulyStart, unrulyTask]).lower unrulyStart .default).render
        .default).toList,
      (step ++ step ++ (step ++ "Ok(value) => " ++ "context.set(") ++
        quoted unrulyTask.contextKey ++ ", ").toList <+: line := by
  obtain ⟨-, -, hdecoded, -, -, -, hlines, -⟩ := quoted_survives unrulyTask.contextKey
  obtain ⟨-, -, -, -, -, htag, -, -⟩ := quoted_survives "@wf/begin"
  refine ⟨hdecoded, htag (by decide), ?_⟩
  refine (hlines _ .default (Lowering.procedure (Names.tableOf "saga" [unrulyStart, unrulyTask])
    unrulyTask) ?_ ⟨step ++ "Ok(value) => " ++ "context.set(", unrulyTask.contextKey, ", "⟩
      ?_ rfl).2
  · decide +kernel
  · exact List.mem_cons_self

end Layout

end ProcessCompiler
