import ProcessCompiler.Proofs.Loop
import ProcessCompiler.Proofs.Program.Listing
import ProcessCompiler.Proofs.Scan.Words
import ProcessCompiler.Proofs.Snippet.Enclosure
/-!
# Names are identifiers

The name of a procedure has to be an identifier of the target language. An id may
be any text: characters that no name can hold become `_`, and what is still no
identifier has `_` put before it until it is one. The test of this loop is the
grammar itself (`parseIdent`), and for a word of plain characters it comes to
four conditions (`Legal`): the word is not empty, does not begin with a digit and
is not reserved. So one `_` is enough, but for the empty word, which takes two
(`loop_procedureName`). Numbers and the handlers' ending keep a name legal, since
no reserved word ends like that. Every procedure and every handler of a program
is therefore declared under a legal name. The entry procedure is declared under
the name that it was given, whatever that is (`legal_lower`).
-/

namespace ProcessCompiler

open Grammar Text

/-! ## Reading an identifier -/

namespace Grammar

open Scan Lexeme

variable {cs : List Char} {n : String}

/-- Read a text as one identifier. -/
def parseIdent (text : String) : Except SyntaxError String := parseAll (fun _ => Parse.ident) text

/-- An identifier is read from one token, and no other. -/
theorem parseIdent_eq_ok_iff {text : String} :
    parseIdent text = .ok n ↔ tokenize text.toList = some [.leaf (.ident n)] := by
  constructor
  · intro h
    obtain ⟨ts, hts, hreads⟩ := reads_of_parseAll h
    -- Of all tokens only an identifier is read, and nothing may be left behind it.
    rcases ts with _ | ⟨⟨_ | n' | _ | _ | _⟩ | _, rest⟩ <;> cases hreads
    exact hts
  · intro h
    exact parseAll_of_reads h rfl

/-- A reserved word is one of the list. -/
theorem Keyword.mem_all (k : Keyword) : k ∈ all := by
  cases k <;> decide

theorem Keyword.ofChars?_eq_none_iff : ofChars? cs = none ↔ ∀ k : Keyword, k.chars ≠ cs := by
  rw [ofChars?, List.find?_eq_none]
  exact ⟨fun h k => by simpa using h k k.mem_all, fun h k _ => by simpa using h k⟩

/-- A text that begins with a digit begins with no identifier. -/
theorem leaf_ne_ident_of_isDigit {c : Char} {x rest : List Char} (hc : isDigit c = true) :
    Scan.leaf (c :: x) ≠ some (.ident n, rest) := by
  have hstart : isWordStart c = false := by
    by_contra h
    rw [isDigit_of_isWordStart (by simpa using h)] at hc
    cases hc
  have hraw : ∀ r, c :: x ≠ 'r' :: '#' :: r := by
    rintro r h
    rw [(List.cons.inj h).1] at hc
    cases hc
  intro h
  unfold Scan.leaf at h
  split at h
  · cases h
  · split at h
    · cases h
      exact absurd ‹_› punctLeaf_ne_ident
    · split at h
      · cases h
      · rw [name_of_not_raw hraw, word, startsWith, hstart] at h
        cases h

/-- Nor do its tokens. -/
theorem tokenize_ne_of_isDigit {c : Char} {x : List Char} {ts : List Token}
    (hc : isDigit c = true) : tokenize (c :: x) ≠ some (.leaf (.ident n) :: ts) := by
  have hrest : isWordRest c = true := by simp [isWordRest, hc]
  intro h
  rcases lexemes_of_tokenize h with ⟨y, heq⟩ | ⟨L, hlex, hnest⟩
  · rw [(List.cons.inj heq).1] at hc
    exact absurd hc (by decide)
  · rcases lexemes_cases hlex with ⟨hgap, -⟩ | ⟨d, y, found, after, L', hgap, hstep, -, rfl⟩
    · rw [gap_of_isWordRest hrest] at hgap
      cases hgap
    · rw [gap_of_isWordRest hrest] at hgap
      cases hgap
      rw [step_of_isWordRest hrest] at hstep
      obtain ⟨⟨l, after'⟩, hleaf, heq⟩ := Option.map_eq_some_iff.1 hstep
      cases heq
      cases hnest
      exact leaf_ne_ident_of_isDigit hc hleaf

end Grammar

/-! ## Legal names -/

namespace Names

variable {name : String} {cs : List Char}

/-- **A legal name**: letters, digits and `_`, at least one of them and no digit
first, and no reserved word. The lone `_` is reserved. -/
structure Legal (name : String) : Prop where
  plain : IsPlain name
  nonempty : name.toList ≠ []
  head : ∀ c ∈ name.toList.head?, isDigit c = false
  unreserved : ∀ k : Keyword, name ≠ k.text

theorem ne_text_iff {k : Keyword} : name ≠ k.text ↔ k.chars ≠ name.toList := by
  rw [Keyword.text, ne_eq, ne_eq, not_iff_not, ← String.toList_inj, String.toList_ofList, eq_comm]

/-- The test for identifiers is the four conditions. -/
theorem legal_iff : Legal name ↔ isIdentifier name.toList = true := by
  have hunreserved : (∀ k : Keyword, name ≠ k.text) ↔ Keyword.ofChars? name.toList = none := by
    simp only [ne_text_iff, Keyword.ofChars?_eq_none_iff]
  constructor
  · rintro ⟨hplain, hne, hhead, hword⟩
    cases htext : name.toList with
    | nil => exact absurd htext hne
    | cons c w =>
      have hdigit : isDigit c = false := hhead c (by rw [htext]; rfl)
      have hnone : Keyword.ofChars? (c :: w) = none := by rw [← htext]; exact hunreserved.1 hword
      have hall : (c :: w).all isPlainWord = true := by
        rw [← htext, List.all_eq_true]
        exact hplain
      simp only [isIdentifier, hdigit, hall, hnone, Option.isNone_none, Bool.not_false,
        Bool.and_self]
  · intro h
    cases htext : name.toList with
    | nil =>
      rw [htext] at h
      cases h
    | cons c w =>
      rw [htext] at h
      simp only [isIdentifier, Bool.and_eq_true, Bool.not_eq_true', Option.isNone_iff_eq_none] at h
      obtain ⟨⟨hdigit, hall⟩, hnone⟩ := h
      refine ⟨?_, by rw [htext]; exact List.cons_ne_nil c w, ?_, ?_⟩
      · rw [IsPlain, htext]
        exact List.all_eq_true.1 hall
      · rw [htext]
        rintro d ⟨⟩
        exact hdigit
      · rw [hunreserved, htext]
        exact hnone

/-- **A legal name reads as one identifier**, which is the name. -/
theorem Legal.parseIdent_eq (h : Legal name) : parseIdent name = .ok name := by
  have hscans : Scan.Scans (name.toList ++ []) [.leaf (.ident (String.ofList name.toList))] [] :=
    Scan.scans_name (legal_iff.1 h) ⟨rfl, rfl, rfl⟩
  rw [List.append_nil, String.ofList_toList] at hscans
  exact parseIdent_eq_ok_iff.2 (tokenize_of_lexemes hscans.lexemes (.leaf .nil))

/-- **A word that reads as an identifier is a legal name.** -/
theorem legal_of_parseIdent {n : String} (hplain : IsPlain name) (h : parseIdent name = .ok n) :
    Legal name := by
  have htokens := parseIdent_eq_ok_iff.1 h
  refine ⟨hplain, ?_, ?_, ?_⟩
  · intro hempty
    rw [hempty] at htokens
    cases htokens
  · intro c hc
    obtain ⟨w, htext⟩ := List.head?_eq_some_iff.1 hc
    rw [htext] at htokens
    by_contra hdigit
    exact tokenize_ne_of_isDigit (by simpa using hdigit) htokens
  · rintro k rfl
    rw [tokenize_keyword] at htokens
    cases htokens

/-- For a word, the grammar asks for the four conditions. -/
theorem isOk_parseIdent (hcs : ∀ c ∈ cs, isPlainWord c = true) :
    (parseIdent (String.ofList cs)).isOk = isIdentifier cs := by
  have hplain : IsPlain (String.ofList cs) := by rwa [IsPlain, String.toList_ofList]
  have hlegal : Legal (String.ofList cs) ↔ isIdentifier cs = true := by
    rw [legal_iff, String.toList_ofList]
  rw [Bool.eq_iff_iff, ← hlegal]
  constructor
  · intro hok
    cases hread : parseIdent (String.ofList cs) with
    | error e =>
      rw [hread] at hok
      cases hok
    | ok n => exact legal_of_parseIdent hplain hread
  · intro h
    rw [h.parseIdent_eq]
    rfl

/-! ## The name of an id -/

/-- The characters of an id, with `_` in the place of those that no name can
hold. -/
def spelled (id : String) : List Char := id.toList.map fun c => if isPlainWord c then c else '_'

theorem isPlainWord_of_mem_spelled {id : String} {c : Char} (hc : c ∈ spelled id) :
    isPlainWord c = true := by
  obtain ⟨d, -, rfl⟩ := List.mem_map.1 hc
  split_ifs with hd
  · exact hd
  · rfl

theorem isPlainWord_underscore_cons (hcs : ∀ c ∈ cs, isPlainWord c = true) :
    ∀ c ∈ '_' :: cs, isPlainWord c = true := by
  intro c hc
  rcases List.mem_cons.1 hc with rfl | hc
  · rfl
  · exact hcs c hc

/-- One `_` makes an identifier of every word that is not empty. -/
theorem isIdentifier_underscore_cons (hcs : ∀ c ∈ cs, isPlainWord c = true) (hne : cs ≠ []) :
    isIdentifier ('_' :: cs) = true := by
  have hnone : Keyword.ofChars? ('_' :: cs) = none := by
    rw [Keyword.ofChars?_eq_none_iff]
    intro k hk
    -- Of the reserved words only the lone `_` begins like that.
    cases k <;> cases hk
    exact hne rfl
  have hall : ('_' :: cs).all isPlainWord = true :=
    List.all_eq_true.2 (isPlainWord_underscore_cons hcs)
  simp only [isIdentifier, hall, hnone]
  decide

/-- **Two `_` are enough** for every word. -/
theorem isIdentifier_underscored (hcs : ∀ c ∈ cs, isPlainWord c = true) :
    isIdentifier (underscored 2 cs) = true := by
  by_cases hid : isIdentifier cs = true
  · rwa [underscored, if_pos hid]
  · rw [underscored, if_neg hid]
    by_cases hne : cs = []
    · subst hne
      decide
    · have hone := isIdentifier_underscore_cons hcs hne
      rwa [underscored, if_pos hone]

/-- Putting `_` before a word until it is an identifier is a loop that tests the
word by the grammar. -/
theorem loop_underscored {n : ℕ} (hcs : ∀ c ∈ cs, isPlainWord c = true)
    (h : isIdentifier (underscored n cs) = true) :
    ∃ rounds ≤ n, Loop (fun cs => (parseIdent (String.ofList cs)).isOk) ('_' :: ·) rounds cs
      (underscored n cs) := by
  induction n generalizing cs with
  | zero =>
    refine ⟨0, le_rfl, .leave ?_⟩
    rw [isOk_parseIdent hcs]
    exact h
  | succ n ih =>
    by_cases hid : isIdentifier cs = true
    · rw [underscored, if_pos hid]
      refine ⟨0, Nat.zero_le _, .leave ?_⟩
      rw [isOk_parseIdent hcs, hid]
    · rw [underscored, if_neg hid] at h ⊢
      obtain ⟨rounds, hrounds, hloop⟩ := ih (isPlainWord_underscore_cons hcs) h
      refine ⟨rounds + 1, by omega, .again ?_ hloop⟩
      rw [isOk_parseIdent hcs]
      simpa using hid

theorem toList_procedureName (id : String) :
    (procedureName id).toList = underscored 2 (spelled id) := by
  rw [procedureName, String.toList_ofList]
  rfl

/-- **Naming an id ends**, after at most two rounds. -/
theorem loop_procedureName (id : String) :
    ∃ rounds ≤ 2, Loop (fun cs => (parseIdent (String.ofList cs)).isOk) ('_' :: ·) rounds
      (spelled id) (procedureName id).toList := by
  have hcs : ∀ c ∈ spelled id, isPlainWord c = true := fun c hc => isPlainWord_of_mem_spelled hc
  rw [toList_procedureName]
  exact loop_underscored hcs (isIdentifier_underscored hcs)

/-- **The name of an id is legal**, whatever the id is. -/
theorem legal_procedureName (id : String) : Legal (procedureName id) := by
  rw [legal_iff, toList_procedureName]
  exact isIdentifier_underscored fun c hc => isPlainWord_of_mem_spelled hc

namespace Legal

/-- An id that is a legal name already is its own name. -/
theorem procedureName_eq (h : Legal name) : procedureName name = name := by
  have hspelled : spelled name = name.toList := by
    rw [spelled, ← List.map_id name.toList, List.map_map]
    refine List.map_congr_left fun c hc => ?_
    exact if_pos (h.plain c hc)
  rw [← String.toList_inj, toList_procedureName, hspelled, underscored, if_pos (legal_iff.1 h)]

/-- What stands behind a legal name leaves it legal, unless it is no word or a
reserved one then. -/
theorem append {ending : String} (h : Legal name) (hplain : IsPlain (name ++ ending))
    (hunreserved : ∀ w : Keyword, name ++ ending ≠ w.text) : Legal (name ++ ending) where
  plain := hplain
  nonempty hempty := h.nonempty (List.append_eq_nil_iff.1 (String.toList_append ▸ hempty)).1
  head c hc := by
    rw [String.toList_append, List.head?_append_of_ne_nil _ h.nonempty] at hc
    exact h.head c hc
  unreserved := hunreserved

/-- A number may stand behind it, since no reserved word ends in a digit. -/
theorem numbered (h : Legal name) (k : ℕ) : Legal (numbered name k) := by
  have hwords : ∀ w : Keyword, w.chars.getLast?.any (·.isDigit) = false := by
    intro w
    cases w <;> decide
  have htext : Names.numbered name k = name ++ ("_" ++ toString k) := String.append_assoc
  rw [htext]
  refine h.append (htext ▸ isPlain_numbered h.plain k) fun w heq => ?_
  obtain ⟨c, hlast, hdigit⟩ := getLast?_numbered name k
  have hnone := hwords w
  rw [htext, heq, Keyword.text, String.toList_ofList] at hlast
  rw [hlast, Option.any_some, hdigit] at hnone
  cases hnone

/-- So may the ending of a handler, since no reserved word ends like that. -/
theorem forkHandlerName (h : Legal name) : Legal (forkHandlerName name) := by
  have hwords : ∀ w : Keyword, ¬"_fork".toList <:+ w.chars := by
    intro w
    cases w <;> decide
  refine h.append (isPlain_forkHandlerName h.plain) fun w heq => hwords w ?_
  rw [← String.toList_ofList (l := w.chars), ← Keyword.text, ← heq, String.toList_append]
  exact List.suffix_append _ _

end Legal

/-- **Every name that lowering gives is legal**, for nodes of the graph and for
others. -/
theorem legal_nameOf (entryName : String) (nodes : List Node) (id : String) :
    Legal ((tableOf entryName nodes).nameOf id) := by
  rcases nameOf_cases entryName nodes id with hname | ⟨k, hname⟩
  · rw [hname]
    exact legal_procedureName id
  · rw [hname]
    exact (legal_procedureName id).numbered k

end Names

/-! ## The functions of a program -/

open Layout Names

/-- The functions of a procedure have legal names if it has one. -/
theorem Procedure.legal_of_mem_functionNames {q : Procedure} {name : String} (hq : Legal q.name)
    (h : name ∈ q.functionNames) : Legal name := by
  rcases List.mem_cons.1 h with rfl | h
  · exact hq
  · split_ifs at h
    · rw [List.mem_singleton.1 h]
      exact hq.forkHandlerName
    · cases h

/-- What a program declares are its entry procedure and its functions. -/
theorem Program.mem_declaredNames {p : Program} {entryName name : String} :
    name ∈ p.declaredNames entryName ↔
      name = entryName ∨ ∃ q ∈ p.procedures, name ∈ q.functionNames := by
  simp only [declaredNames, Procedure.functionNames, List.mem_cons, List.mem_append, List.mem_map,
    List.mem_filter]
  constructor
  · rintro (rfl | ⟨q, hq, rfl⟩ | ⟨q, ⟨hq, hsubscribes⟩, rfl⟩)
    · exact .inl rfl
    · exact .inr ⟨q, hq, .inl rfl⟩
    · exact .inr ⟨q, hq, .inr (by rw [if_pos hsubscribes]; exact List.mem_singleton_self _)⟩
  · rintro (rfl | ⟨q, hq, rfl | hhandler⟩)
    · exact .inl rfl
    · exact .inr (.inl ⟨q, hq, rfl⟩)
    · split_ifs at hhandler with hsubscribes
      · exact .inr (.inr ⟨q, ⟨hq, hsubscribes⟩, (List.mem_singleton.1 hhandler).symm⟩)
      · cases hhandler

/-- The line with the name of the entry procedure. -/
def Layout.entryLine (name : String) : List Char :=
  ("pub fn " ++ name ++ "() -> BoxStep " ++ openBrace).toList

/-- **The entry procedure has the name it was given**, in a line of its own. -/
theorem Program.entryLine_mem_lines (p : Program) {config : EmitConfig}
    (hname : '\n' ∉ config.entryName.toList) :
    entryLine config.entryName ∈ lines (p.render config).toList := by
  have hentry : Layout.entry config p.entry =
      "\n" ++ "pub fn " ++ config.entryName ++ "() -> BoxStep " ++ openBrace ++ "\n" ++
        step ++ p.entry ++ "(Context::default())\n" ++ closeBrace ++ "\n" := rfl
  have hrender : p.render config = header config p.imports ++ Layout.entry config p.entry ++
      String.join (p.procedures.map fun q => "\n" ++ procedure config.context q) := rfl
  obtain ⟨rest, hsplit⟩ : ∃ rest : String, p.render config = (header config p.imports ++ "\n") ++
      (("pub fn " ++ config.entryName ++ "() -> BoxStep " ++ openBrace) ++ ("\n" ++ rest)) := by
    simp only [hrender, hentry, String.append_assoc]
    exact ⟨_, rfl⟩
  have hline : '\n' ∉ entryLine config.entryName := by
    simp [entryLine, openBrace, hname]
  have hlines : lines (entryLine config.entryName ++ ("\n" ++ rest).toList) =
      dropReturn (entryLine config.entryName) :: lines rest.toList := by
    rw [String.toList_append]
    exact Layout.lines_append hline rest.toList
  have hkeep : dropReturn (entryLine config.entryName) = entryLine config.entryName :=
    dropReturn_openBrace _
  rw [hkeep] at hlines
  rw [hsplit, String.toList_append, (endsLine_feed _).lines_append]
  refine List.mem_append_right _ ?_
  rw [String.toList_append]
  change entryLine config.entryName ∈ lines (entryLine config.entryName ++ ("\n" ++ rest).toList)
  rw [hlines]
  exact List.mem_cons_self

/-- **How the functions of a program are headed.** In the text of the program,
the lines behind the entry procedure that begin with `fn` hold the names of the
functions, and these are legal. The line of the entry procedure holds the name it
was given, so everything is declared under an identifier exactly if that is one. -/
structure Program.Headed (p : Program) (config : EmitConfig) : Prop where
  functions : ∀ q ∈ p.procedures, ∀ name ∈ q.functionNames, Legal name
  heads : ∃ body, lines (p.render config).toList =
      lines (header config p.imports ++ Layout.entry config p.entry).toList ++ body ∧
    readNames body = p.procedures.flatMap Procedure.functionNames
  entryLine : '\n' ∉ config.entryName.toList →
    entryLine config.entryName ∈ lines (p.render config).toList
  identifiers : (∀ name ∈ p.declaredNames config.entryName, parseIdent name = .ok name) ↔
    parseIdent config.entryName = .ok config.entryName

namespace Graph

/-- **The functions of a lowered program have legal names**, whatever graph it is
of. -/
theorem headed_lower (g : Graph) (start : Node) (config : EmitConfig) :
    (g.lower start config).Headed config := by
  have hlegal : ∀ q ∈ (g.lower start config).procedures, Legal q.name := by
    intro q hq
    obtain ⟨n, -, rfl⟩ := List.mem_map.1 hq
    exact legal_nameOf config.entryName g.toList n.id
  constructor
  · intro q hq name hname
    exact q.legal_of_mem_functionNames (hlegal q hq) hname
  · refine ⟨(g.lower start config).procedures.flatMap fun q =>
      [] :: procedureLines config.context q, ?_, ?_⟩
    · rw [lines_render]
      congr 1
      exact List.flatMap_congr fun q hq => by rw [lines_procedure (hlegal q hq).plain]
    · rw [← readNames_flatMap fun q hq => (hlegal q hq).plain]
      -- The empty line before a procedure begins with nothing.
      simp only [readNames, List.filter_flatMap]
      congr 1
  · exact (g.lower start config).entryLine_mem_lines
  · constructor
    · intro h
      exact h _ (Program.mem_declaredNames.2 (.inl rfl))
    · intro hentry name hname
      rcases Program.mem_declaredNames.1 hname with rfl | ⟨q, hq, hname⟩
      · exact hentry
      · exact (q.legal_of_mem_functionNames (hlegal q hq) hname).parseIdent_eq

/-- **Names are legal.** Naming an id ends after at most two `_`, with a legal
name, and naming that again changes nothing. A legal name is one identifier of the
grammar, it is its own name, and numbers and the handlers' ending leave it legal.
So every name that lowering gives is legal, and so is every name that heads a
function of a program, but for the entry procedure's: it is an identifier exactly
if the name that was asked for is one. -/
theorem legal_lower :
    (∀ id, (∃ rounds ≤ 2, Loop (fun cs => (parseIdent (String.ofList cs)).isOk) ('_' :: ·) rounds
          (spelled id) (procedureName id).toList) ∧
        Legal (procedureName id) ∧ procedureName (procedureName id) = procedureName id) ∧
      (∀ name, Legal name → parseIdent name = .ok name ∧ procedureName name = name ∧
        (∀ k, Legal (numbered name k)) ∧ Legal (forkHandlerName name)) ∧
      ∀ (g : Graph) (start : Node) (config : EmitConfig),
        (∀ id, Legal ((g.nameTable config).nameOf id)) ∧ (g.lower start config).Headed config := by
  refine ⟨fun id => ?_, fun name hname => ?_, fun g start config => ⟨fun id => ?_, ?_⟩⟩
  · have hlegal := legal_procedureName id
    exact ⟨loop_procedureName id, hlegal, hlegal.procedureName_eq⟩
  · exact ⟨hname.parseIdent_eq, hname.procedureName_eq, hname.numbered, hname.forkHandlerName⟩
  · exact legal_nameOf config.entryName g.toList id
  · exact headed_lower g start config

/-- A name that is a reserved word but for one letter, beside an id that is that
word and one that is empty. -/
theorem legal_lower_match :
    Legal "Match" ∧ procedureName "Match" = "Match" ∧ Legal (numbered "Match" 2) ∧
      Legal (forkHandlerName "Match") ∧ Legal (procedureName "match") ∧ Legal (procedureName "") :=
  have hlegal : Legal "Match" := legal_iff.2 (by decide)
  have hkept := legal_lower.2.1 "Match" hlegal
  ⟨hlegal, hkept.2.1, hkept.2.2.1 2, hkept.2.2.2, (legal_lower.1 "match").2.1,
    (legal_lower.1 "").2.1⟩

/-- A start event that is all of a graph. -/
def loneStart : Node := ⟨"Start", none, .startEvent false, none, []⟩

/-- Options that call the entry procedure by no identifier. -/
def hyphenated : EmitConfig := { EmitConfig.default with entryName := "order-saga" }

/-- **The entry procedure may have no legal name.** Its line in the text holds the
name as it was given. -/
theorem not_legal_hyphenated :
    entryLine "order-saga" ∈
        lines (((ofNodes [loneStart]).lower loneStart hyphenated).render hyphenated).toList ∧
      ¬Legal "order-saga" ∧ (parseIdent "order-saga").isOk = false := by
  refine ⟨Program.entryLine_mem_lines _ (by decide), ?_, by decide +kernel⟩
  rw [legal_iff]
  decide

end Graph

end ProcessCompiler
