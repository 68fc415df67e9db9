import ProcessCompiler.Proofs.Program.NameTable
import ProcessCompiler.Proofs.Program.Placeholder
import ProcessCompiler.Proofs.Scan.Spelling
/-!
# The listing of a program

The text of a program is read again line by line. Every function is a block of
lines (`Block`): the line with its name, a second one, the lines of its body, and
two lines that close it. Whatever texts the nodes have, the lines of a body are
empty or stand far to the right (`isDeep_bodyLine`), and names have no line ends
and no brackets (`isPlain_nameOf`). So the lines that begin with `fn` are the
first lines of the functions and no others, and the table of procedures is read
off them: `listing_lower`.
-/

namespace ProcessCompiler

open Text

namespace Names

/-! ## Names are words -/

/-- A name made of letters, digits and `_`. -/
def IsPlain (name : String) : Prop := ∀ c ∈ name.toList, isPlainWord c = true

variable {name : String}

theorem IsPlain.append {name' : String} (h : IsPlain name) (h' : IsPlain name') :
    IsPlain (name ++ name') := by
  intro c hc
  rw [String.toList_append, List.mem_append] at hc
  exact hc.elim (h c) (h' c)

/-- Other characters do not occur in a name. -/
theorem IsPlain.not_mem (h : IsPlain name) {c : Char} (hc : isPlainWord c = false) :
    c ∉ name.toList := by
  intro hmem
  rw [h c hmem] at hc
  cases hc

theorem isPlain_procedureName (id : String) : IsPlain (procedureName id) := by
  have hunderscored : ∀ n cs, (∀ c ∈ cs, isPlainWord c = true) →
      ∀ c ∈ underscored n cs, isPlainWord c = true := by
    intro n
    induction n with
    | zero => exact fun cs hcs => hcs
    | succ n ih =>
      intro cs hcs
      rw [underscored]
      split_ifs
      · exact hcs
      · refine ih _ fun c hc => ?_
        rcases List.mem_cons.1 hc with rfl | hc
        · rfl
        · exact hcs c hc
  intro c hc
  rw [procedureName, String.toList_ofList] at hc
  refine hunderscored 2 _ ?_ c hc
  intro d hd
  obtain ⟨d, -, rfl⟩ := List.mem_map.1 hd
  split_ifs with hword
  · exact hword
  · rfl

theorem isPlain_numbered (h : IsPlain name) (k : ℕ) : IsPlain (numbered name k) := by
  refine (h.append fun c hc => ?_).append fun c hc => ?_
  · obtain rfl : c = '_' := by simpa using hc
    rfl
  · have hdigit : c.isDigit = true := by
      rw [Nat.toString_eq_repr, Nat.toList_repr] at hc
      exact Nat.isDigit_of_mem_toDigits (by decide) (by decide) hc
    have hrange : isDigit c = true := by simpa [isDigit, Char.isDigit, Char.le_def] using hdigit
    simp [isPlainWord, hrange]

theorem isPlain_forkHandlerName (h : IsPlain name) : IsPlain (forkHandlerName name) :=
  h.append (List.all_eq_true.1 (by decide))

/-- **Every name that lowering gives is a word**, for nodes of the graph and for
others. -/
theorem isPlain_nameOf (entryName : String) (nodes : List Node) (id : String) :
    IsPlain ((tableOf entryName nodes).nameOf id) := by
  rcases nameOf_cases entryName nodes id with hname | ⟨k, hname⟩
  · rw [hname]
    exact isPlain_procedureName id
  · rw [hname]
    exact isPlain_numbered (isPlain_procedureName id) k

end Names

/-- The names of the functions that a procedure is laid out as. -/
def Procedure.functionNames (q : Procedure) : List String :=
  q.name :: if q.subscribes then [Names.forkHandlerName q.name] else []

namespace Layout

variable {sharing : ContextSharing} {name params body : String} {line : List Char}

/-! ## Blocks of lines -/

/-- A function as lines: what it is called, what it takes, and the lines of its
body as they stand in it. -/
structure Block where
  name : String
  params : String
  inner : List (List Char)

/-- The line with the name of a function. -/
def headLine (name params : String) : List Char :=
  ("fn " ++ name ++ "(" ++ params ++ ") -> BoxStep " ++ openBrace).toList

/-- The line before the body of a function. -/
def pinLine : List Char := (step ++ "Box::pin(async move " ++ openBrace).toList

/-- The lines behind the body of a function. -/
def closingLines : List (List Char) := [(step ++ closeBrace ++ ")").toList, closeBrace.toList]

/-- The lines of a function. -/
def Block.lines (b : Block) : List (List Char) :=
  headLine b.name b.params :: pinLine :: (b.inner ++ closingLines)

/-- The block of a function with the given body. -/
def blockOf (name params body : String) : Block :=
  ⟨name, params, (Text.lines body.toList).map bodyLine⟩

/-- The blocks of a procedure. The handler of a message start has a block of its
own. -/
def blocks (sharing : ContextSharing) (q : Procedure) : List Block :=
  match q.action with
  | .subscribe tag key =>
    [blockOf q.name procedureParams
      ("take_every(" ++ quoted tag ++ ", context, " ++ Names.forkHandlerName q.name ++ ").await\n"),
     blockOf (Names.forkHandlerName q.name) handlerParams
      (store key "action" ++ ";\n" ++ continuation sharing q.then_)]
  | a => [blockOf q.name procedureParams (action q.kind q.nodeId a ++ continuation sharing q.then_)]

/-- The lines of a procedure: its blocks, with an empty line in between. -/
def procedureLines (sharing : ContextSharing) (q : Procedure) : List (List Char) :=
  [[]].intercalate ((blocks sharing q).map Block.lines)

/-- A line that is empty or begins at the eighth column. -/
def IsDeep (line : List Char) : Prop := line = [] ∨ List.replicate 8 ' ' <+: line

/-- **A line of a body stands far to the right**, whatever is in it. -/
theorem isDeep_bodyLine (line : List Char) : IsDeep (bodyLine line) := by
  rw [bodyLine]
  split_ifs
  · exact .inl rfl
  · rw [dropReturn_append_of_ne (by decide)]
    exact .inr (List.prefix_append _ _)

theorem isDeep_of_mem_inner {b : Block} {q : Procedure} (hb : b ∈ blocks sharing q)
    (h : line ∈ b.inner) : IsDeep line := by
  have hblock : ∀ name params body, line ∈ (blockOf name params body).inner → IsDeep line := by
    intro name params body hline
    obtain ⟨x, -, rfl⟩ := List.mem_map.1 hline
    exact isDeep_bodyLine x
  unfold blocks at hb
  split at hb
  · rcases List.mem_pair.1 hb with rfl | rfl <;> exact hblock _ _ _ h
  · obtain rfl := List.mem_singleton.1 hb
    exact hblock _ _ _ h

/-- The blocks of a procedure carry the names of its functions. -/
theorem map_name_blocks (sharing : ContextSharing) (q : Procedure) :
    (blocks sharing q).map Block.name = q.functionNames := by
  obtain ⟨name, nodeId, kind, action, then_⟩ := q
  cases action <;> rfl

/-! ## The lines of the text -/

/-- A line that ends in a brace has no return to lose. -/
theorem dropReturn_openBrace (code : String) :
    dropReturn (code ++ openBrace).toList = (code ++ openBrace).toList := by
  have hlast : (code ++ openBrace).toList.getLast? ≠ some '\r' := by
    rw [String.toList_append, List.getLast?_append]
    exact fun h => absurd (Option.some.inj h) (by decide)
  have hkeep := dropReturn_append hlast 0
  rwa [List.replicate_zero, List.append_nil] at hkeep

theorem lines_opening (hname : '\n' ∉ name.toList) (hparams : '\n' ∉ params.toList) :
    lines (opening name params).toList = [headLine name params, pinLine] := by
  have hopening : opening name params =
      "fn " ++ name ++ "(" ++ params ++ ") -> BoxStep " ++ openBrace ++ "\n" ++
        step ++ "Box::pin(async move " ++ openBrace ++ "\n" := rfl
  have hsplit : (opening name params).toList =
      headLine name params ++ '\n' :: (pinLine ++ '\n' :: []) := by
    simp [hopening, headLine, pinLine]
  have hhead : '\n' ∉ headLine name params := by
    simp [headLine, openBrace, hname, hparams]
  have hpin : '\n' ∉ pinLine := by decide
  have hkeep : dropReturn (headLine name params) = headLine name params := dropReturn_openBrace _
  rw [hsplit, Layout.lines_append hhead, Layout.lines_append hpin, hkeep]
  rfl

/-- **A function is one block of lines.** -/
theorem lines_function_eq_block (hname : '\n' ∉ name.toList) (hparams : '\n' ∉ params.toList) :
    lines (function name params body).toList = (blockOf name params body).lines := by
  have hopening := lines_opening hname hparams
  have hclosing : lines closing.toList = closingLines := by decide
  rw [lines_function, hopening, hclosing]
  rfl

theorem endsLine_feed (code : String) : EndsLine (code ++ "\n").toList := by
  rw [String.toList_append]
  exact endsLine_append _

theorem endsLine_function (name params body : String) :
    EndsLine (function name params body).toList := endsLine_feed _

theorem EndsLine.append {a b : List Char} (ha : EndsLine a) (hb : EndsLine b) : EndsLine (a ++ b) := by
  rcases hb with rfl | hb
  · rwa [List.append_nil]
  · exact .inr (by rw [List.getLast?_append, hb]; rfl)

theorem endsLine_procedure (sharing : ContextSharing) (q : Procedure) :
    EndsLine (procedure sharing q).toList := by
  unfold procedure
  split
  · simp only [String.toList_append]
    exact ((endsLine_function _ _ _).append (.inr rfl)).append (endsLine_function _ _ _)
  · exact endsLine_function _ _ _

/-- Two pieces of code with an empty line in between. -/
theorem lines_append_feed {front : String} (hfront : EndsLine front.toList) (back : String) :
    lines (front ++ "\n" ++ back).toList = lines front.toList ++ [] :: lines back.toList := by
  rw [String.toList_append, String.toList_append, List.append_assoc, hfront.lines_append]
  exact congrArg _ (Layout.lines_append List.not_mem_nil back.toList)

/-- **The lines of a procedure are those of its blocks.** -/
theorem lines_procedure {q : Procedure} (hq : Names.IsPlain q.name) :
    lines (procedure sharing q).toList = procedureLines sharing q := by
  have hname : '\n' ∉ q.name.toList := hq.not_mem rfl
  have hhandler : '\n' ∉ (Names.forkHandlerName q.name).toList :=
    (Names.isPlain_forkHandlerName hq).not_mem rfl
  unfold procedureLines blocks procedure
  cases q.action with
  | subscribe tag key =>
    dsimp only
    rw [lines_append_feed (endsLine_function _ _ _), lines_function_eq_block hname (by decide),
      lines_function_eq_block hhandler (by decide)]
    simp [List.intercalate]
  | _ =>
    dsimp only
    rw [lines_function_eq_block hname (by decide)]
    simp [List.intercalate]

/-! ## The table of procedures -/

/-- A line that begins with `fn`. -/
def isHead (line : List Char) : Bool := "fn ".toList.isPrefixOf line

/-- The name in the first line of a function. -/
def headName (line : List Char) : String := String.ofList ((line.drop 3).takeWhile (· != '('))

theorem not_isHead_of_isDeep (h : IsDeep line) : isHead line = false := by
  rcases h with rfl | ⟨rest, rfl⟩ <;> rfl

theorem isHead_headLine (name params : String) : isHead (headLine name params) = true := by
  simp [isHead, headLine]

theorem headName_headLine (h : Names.IsPlain name) (params : String) :
    headName (headLine name params) = name := by
  have hopen : '(' ∉ name.toList := h.not_mem rfl
  have hword : ∀ c ∈ name.toList, (c != '(') = true := fun c hc =>
    bne_iff_ne.2 fun heq => hopen (heq ▸ hc)
  have hdrop : (headLine name params).drop 3 =
      name.toList ++ '(' :: (params ++ ") -> BoxStep " ++ openBrace).toList := by
    simp [headLine]
  rw [headName, hdrop, List.takeWhile_append_of_pos hword]
  simp

/-- Of the lines of a function only the first begins with `fn`. -/
theorem filter_isHead_lines {b : Block} (h : ∀ line ∈ b.inner, IsDeep line) :
    b.lines.filter isHead = [headLine b.name b.params] := by
  have hinner : b.inner.filter isHead = [] := by
    rw [List.filter_eq_nil_iff]
    intro line hline
    simp [not_isHead_of_isDeep (h line hline)]
  rw [Block.lines, List.filter_cons_of_pos (isHead_headLine _ _), List.filter_cons_of_neg (by decide),
    List.filter_append, hinner]
  rfl

theorem filter_isHead_procedureLines (sharing : ContextSharing) (q : Procedure) :
    (procedureLines sharing q).filter isHead = (blocks sharing q).map fun b => headLine b.name b.params := by
  have hdeep : ∀ bs ⊆ blocks sharing q,
      ([[]].intercalate (bs.map Block.lines)).filter isHead =
        bs.map fun b => headLine b.name b.params := by
    intro bs hbs
    induction bs with
    | nil => rfl
    | cons b bs ih =>
      obtain ⟨hb, hmore⟩ := List.cons_subset.1 hbs
      have hfirst := filter_isHead_lines fun line hline => isDeep_of_mem_inner hb hline
      cases bs with
      | nil => simpa [List.intercalate] using hfirst
      | cons b' bs =>
        have hrest := ih hmore
        simp only [List.map_cons, List.intercalate_cons_cons, List.filter_append, hfirst] at hrest ⊢
        rw [hrest]
        rfl
  exact hdeep _ (List.Subset.refl _)

/-- The names in the lines that begin with `fn`. -/
def readNames (ls : List (List Char)) : List String := (ls.filter isHead).map headName

theorem filter_isHead_flatMap (sharing : ContextSharing) (qs : List Procedure) :
    (qs.flatMap (procedureLines sharing)).filter isHead =
      (qs.flatMap (blocks sharing)).map fun b => headLine b.name b.params := by
  rw [List.filter_flatMap, List.map_flatMap]
  exact List.flatMap_congr fun q _ => filter_isHead_procedureLines sharing q

/-- The names of a program are read off its lines. -/
theorem readNames_flatMap {qs : List Procedure} (hqs : ∀ q ∈ qs, Names.IsPlain q.name) :
    readNames (qs.flatMap (procedureLines sharing)) = qs.flatMap Procedure.functionNames := by
  rw [readNames, filter_isHead_flatMap, List.map_map, List.map_flatMap]
  refine List.flatMap_congr fun q hq => ?_
  rw [← map_name_blocks sharing q]
  refine List.map_congr_left fun b hb => headName_headLine ?_ b.params
  have hname : b.name ∈ q.functionNames := by
    rw [← map_name_blocks sharing q]
    exact List.mem_map_of_mem hb
  rcases List.mem_cons.1 hname with heq | hname
  · rw [heq]
    exact hqs q hq
  · split_ifs at hname
    · rw [List.mem_singleton.1 hname]
      exact Names.isPlain_forkHandlerName (hqs q hq)
    · cases hname

/-- The lines of texts that end theirs, one after the other. -/
theorem lines_join_map {α : Type} {f : α → String} (hf : ∀ x, EndsLine (f x).toList) (xs : List α) :
    lines (String.join (xs.map f)).toList = xs.flatMap fun x => lines (f x).toList := by
  rw [String.toList_join, List.flatMap_map]
  induction xs with
  | nil => rfl
  | cons x xs ih => rw [List.flatMap_cons, (hf x).lines_append, ih, List.flatMap_cons]

theorem lines_render (p : Program) (config : EmitConfig) :
    lines (p.render config).toList =
      lines (header config p.imports ++ entry config p.entry).toList ++
        p.procedures.flatMap fun q => [] :: lines (procedure config.context q).toList := by
  have hfront : EndsLine (header config p.imports ++ entry config p.entry).toList :=
    String.append_assoc ▸ endsLine_feed _
  have hgap : EndsLine "\n".toList := .inr rfl
  have hends : ∀ q, EndsLine ("\n" ++ procedure config.context q).toList := fun q => by
    rw [String.toList_append]
    exact hgap.append (endsLine_procedure _ q)
  rw [Program.render, String.toList_append, hfront.lines_append, lines_join_map hends]
  simp only [String.toList_append, hgap.lines_append]
  rfl

end Layout

namespace Graph

open Layout

variable {g : Graph} {start : Node} {config : EmitConfig}

theorem isPlain_of_mem_lower {q : Procedure} (hq : q ∈ (g.lower start config).procedures) :
    Names.IsPlain q.name := by
  obtain ⟨n, -, rfl⟩ := List.mem_map.1 hq
  exact Names.isPlain_nameOf config.entryName g.toList n.id

/-- **The table of procedures is read off the text of a program**, whatever texts,
keys and names its nodes have. The procedures stand in the order of the nodes, and
each is a block of lines or, if it waits for messages, two: its own and that of
its handler. The lines of a body are empty or begin at the eighth column. So the
lines that begin with `fn` are the first ones of the blocks and no others, and
they hold the names. In the text that is emitted, the same lines stand behind
those of the entry procedure, with an empty line before each procedure. -/
theorem listing_lower (g : Graph) (start : Node) (config : EmitConfig) (sharing : ContextSharing) :
    let p := g.lower start config
    let ls := lines (String.join (p.procedures.map (procedure sharing))).toList
    p.procedures.map (·.nodeId) = g.toList.map (·.id) ∧
    ls = p.procedures.flatMap (procedureLines sharing) ∧
    (∀ q ∈ p.procedures, ∀ b ∈ blocks sharing q, ∀ line ∈ b.inner, IsDeep line) ∧
    ls.filter isHead = (p.procedures.flatMap (blocks sharing)).map (fun b => headLine b.name b.params) ∧
    readNames ls = p.procedures.flatMap Procedure.functionNames ∧
    lines (p.render config).toList =
      lines (header config p.imports ++ entry config p.entry).toList ++
        p.procedures.flatMap fun q => [] :: procedureLines config.context q := by
  intro p ls
  have hplain : ∀ q ∈ p.procedures, Names.IsPlain q.name := fun q hq => isPlain_of_mem_lower hq
  have hlines : ∀ q ∈ p.procedures, lines (procedure sharing q).toList = procedureLines sharing q :=
    fun q hq => lines_procedure (hplain q hq)
  have hls : ls = p.procedures.flatMap (procedureLines sharing) :=
    (lines_join_map (endsLine_procedure sharing) _).trans (List.flatMap_congr hlines)
  refine ⟨?_, hls, fun q _ b hb line hline => isDeep_of_mem_inner hb hline, ?_, ?_, ?_⟩
  · simp only [p, lower_procedures, List.map_map]
    rfl
  · rw [hls, filter_isHead_flatMap]
  · rw [hls, readNames_flatMap hplain]
  · rw [lines_render]
    congr 1
    exact List.flatMap_congr fun q hq => by rw [lines_procedure (hplain q hq)]

/-- A message start with a line end in its id. -/
def disguisedStart : Node := ⟨"Start\nfn a()", none, .startEvent true, some "@wf/begin", ["Work"]⟩

/-- It leads to a script with a function in it, which begins a line. -/
def disguisedHistory : List Node :=
  [disguisedStart,
   ⟨"Work", some "fn b()\r\n", .serviceTask (some "fn"), some "f();\nfn c() \x7b\r\n \n\x7d", []⟩]

theorem listing_lower_disguised :
    readNames (lines (String.join
      (((ofNodes disguisedHistory).lower disguisedStart .default).procedures.map
        (procedure .isolated))).toList) = ["Start_fn_a__", "Start_fn_a___fork", "Work"] := by
  obtain ⟨-, -, -, -, hnames, -⟩ :=
    listing_lower (ofNodes disguisedHistory) disguisedStart .default .isolated
  rw [hnames]
  decide +kernel

end Graph

end ProcessCompiler
