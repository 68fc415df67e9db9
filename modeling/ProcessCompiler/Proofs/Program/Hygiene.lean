import ProcessCompiler.Program.Layout
import ProcessCompiler.Proofs.Program.NameTable
/-!
# Procedure names and the words of the layout

The text of a program uses names that are not its own: the effects it imports,
the two constructors of a result, and the variables of its functions
(`Layout.vocabulary`). A procedure of such a name hides it. Numbers and the
handlers' ending keep a name clear of the vocabulary (`numbered_not_mem_vocabulary`,
`forkHandlerName_not_mem_vocabulary`), so a name is a word of the vocabulary
only if a node is called that. Such a node keeps the word for its name unless
the entry procedure has it, or the handler's name next to it is taken
(`hygienic_lower_iff`).
-/

namespace ProcessCompiler

/-- The value names that the text of a program imports or uses: the effects, the
constructors of a result, and the variables that its functions bind. -/
def Layout.vocabulary : List String :=
  effects ++ ["Ok", "Err"] ++ ["context", "action", "value", "error", "outcome"]

namespace Names

open Layout (vocabulary)

variable {entryName word : String} {before after : List Node} {n : Node}

/-! ## Names that are no words of the vocabulary -/

/-- No word of the vocabulary has a number behind it. -/
theorem numbered_not_mem_vocabulary (base : String) (k : ℕ) : numbered base k ∉ vocabulary := by
  intro hmem
  have hwords : ∀ w ∈ vocabulary, w.toList.getLast?.any (·.isDigit) = false := by decide
  obtain ⟨c, hlast, hdigit⟩ := getLast?_numbered base k
  have hnone := hwords _ hmem
  rw [hlast, Option.any_some, hdigit] at hnone
  cases hnone

/-- No word of the vocabulary is the name of a handler. -/
theorem forkHandlerName_not_mem_vocabulary (name : String) :
    forkHandlerName name ∉ vocabulary := by
  intro hmem
  have hwords : ∀ w ∈ vocabulary, ¬"_fork".toList <:+ w.toList := by decide
  refine hwords _ hmem ?_
  rw [forkHandlerName, String.toList_append]
  exact List.suffix_append _ _

/-- **A word of the vocabulary is given exactly to a node that is called that**
while the word is free. -/
theorem firstFree_eq_word_iff (hword : word ∈ vocabulary) {forks : Bool} {taken : List String}
    {base : String} :
    firstFree forks taken base = word ↔ base = word ∧ isFree forks taken base = true := by
  rcases firstFree_cases forks taken base with ⟨hfree, hname⟩ | ⟨hfree, k, hname⟩
  · simp only [hname, hfree, and_true]
  · have hne : numbered base k ≠ word := by
      rintro rfl
      exact numbered_not_mem_vocabulary base k hword
    simp only [hname, hne, hfree, Bool.false_eq_true, and_false]

/-! ## The words of the vocabulary in a table -/

/-- Of the words in use at a node's turn, those of the vocabulary are the entry
procedure's or an earlier node's. -/
theorem mem_taken_word_iff (hids : ((before ++ n :: after).map (·.id)).Nodup)
    (hword : word ∈ vocabulary) :
    word ∈ (tableOf entryName before).taken ↔
      word = entryName ∨ word ∈ (tableOf entryName (before ++ n :: after)).names before := by
  have hhandlers : word ∉ (tableOf entryName (before ++ n :: after)).handlers before := by
    intro hmem
    obtain ⟨m, -, rfl⟩ := List.mem_map.1 hmem
    exact forkHandlerName_not_mem_vocabulary _ hword
  rw [(taken_tableOf_perm hids).mem_iff, List.mem_cons, List.mem_append]
  simp only [hhandlers, or_false]

end Names

namespace Program

/-- The names that a program gives: those of its procedures, and those of the
handlers of the procedures that subscribe. -/
def givenNames (p : Program) : List String :=
  p.procedures.map (·.name) ++
    (p.procedures.filter (·.subscribes)).map fun q => Names.forkHandlerName q.name

/-- **The program is hygienic**: no name that it gives is one that its text
imports or uses. -/
def Hygienic (p : Program) : Prop := ∀ name ∈ p.givenNames, name ∉ Layout.vocabulary

instance (p : Program) : Decidable p.Hygienic := List.decidableBAll _ _

end Program

namespace Graph

open Names

variable {g : Graph} {start : Node} {config : EmitConfig}

/-- Only procedures can be at fault, since no handler is. -/
theorem hygienic_lower_iff_names : (g.lower start config).Hygienic ↔
    ∀ n ∈ g.toList, (g.nameTable config).nameOf n.id ∉ Layout.vocabulary := by
  have hnames : (g.lower start config).procedures.map (·.name) =
      g.toList.map fun n => (g.nameTable config).nameOf n.id := by
    rw [lower_procedures, List.map_map]
    rfl
  constructor
  · intro h n hn
    refine h _ (List.mem_append_left _ ?_)
    rw [hnames]
    exact List.mem_map_of_mem hn
  · intro h name hname
    rcases List.mem_append.1 hname with hproc | hhandler
    · rw [hnames] at hproc
      obtain ⟨n, hn, rfl⟩ := List.mem_map.1 hproc
      exact h n hn
    · obtain ⟨q, -, rfl⟩ := List.mem_map.1 hhandler
      exact forkHandlerName_not_mem_vocabulary q.name

/-- **When a program is hygienic**, whatever nodes were registered: exactly if
every node that is called by a word of the vocabulary has to give the word up,
because the entry procedure has it, or because the node is a message start and
the name of the handler that would go with the word is taken at its turn. -/
theorem hygienic_lower_iff (history : List Node) (start : Node) (config : EmitConfig) :
    ((ofNodes history).lower start config).Hygienic ↔
      ∀ before n after, (ofNodes history).toList = before ++ n :: after →
        procedureName n.id ∈ Layout.vocabulary →
          procedureName n.id = config.entryName ∨
          (forks n = true ∧ forkHandlerName (procedureName n.id) ∈
            (tableOf config.entryName before).taken) := by
  have hids := (filed_ofNodes history).ids_nodup
  rw [hygienic_lower_iff_names]
  constructor
  · intro hclear before n after hsplit hword
    rw [hsplit] at hids
    -- The node has another name, so the word is not free at its turn.
    have hbusy : isFree (forks n) (tableOf config.entryName before).taken
        (procedureName n.id) ≠ true := by
      intro hfree
      refine hclear n (hsplit ▸ List.mem_append_right _ List.mem_cons_self) ?_
      rw [nameTable, hsplit, nameOf_tableOf_append hids,
        (firstFree_eq_word_iff hword).2 ⟨rfl, hfree⟩]
      exact hword
    by_cases htaken : procedureName n.id ∈ (tableOf config.entryName before).taken
    · rcases (mem_taken_word_iff hids hword).1 htaken with hentry | hearlier
      · exact .inl hentry
      · obtain ⟨m, hm, hname⟩ := List.mem_map.1 hearlier
        refine absurd hword ?_
        rw [← hname, ← hsplit]
        exact hclear m (hsplit ▸ List.mem_append_left _ hm)
    · simp only [isFree, List.contains_eq_mem, htaken, decide_false, Bool.not_false, Bool.true_and,
        Bool.not_eq_true, Bool.not_eq_false', Bool.and_eq_true, decide_eq_true_eq] at hbusy
      exact .inr hbusy
  · intro hyield n hn hword
    obtain ⟨before, after, hsplit⟩ := List.append_of_mem hn
    rw [hsplit] at hids
    rw [nameTable, hsplit, nameOf_tableOf_append hids] at hword
    obtain ⟨hbase, hfree⟩ := (firstFree_eq_word_iff hword).1 rfl
    rw [← hbase] at hword
    rcases hyield before n after hsplit hword with hentry | ⟨hforks, hhandler⟩
    · refine not_mem_of_isFree hfree ((mem_taken_word_iff hids hword).2 (.inl hentry))
    · rw [hforks] at hfree
      exact forkHandlerName_not_mem_of_isFree hfree hhandler

/-- A message start has to give up the word it is called by, since its handler
would be named like the node before it, and an end event gives up the name of
the entry procedure. -/
def yielding : List Node :=
  [⟨"call_fork", none, .endEvent false, none, []⟩,
   ⟨"call", none, .startEvent true, some "@wf/begin", []⟩,
   ⟨"put", none, .endEvent false, none, []⟩]

example : ((ofNodes yielding).lower ⟨"call", none, .startEvent true, some "@wf/begin", []⟩
    { EmitConfig.default with entryName := "put" }).Hygienic := by decide +kernel

/-- A start event and an end event for each word of the vocabulary. -/
def wordy : List Node :=
  ⟨"Start", none, .startEvent false, none, ["call"]⟩ ::
    Layout.vocabulary.map fun word => ⟨word, none, .endEvent false, none, []⟩

/-- **Names are not hygienic.** A node that is called by a word of the vocabulary
has that word for its procedure's name, whichever word it is. -/
theorem not_hygienic_wordy :
    ¬((ofNodes wordy).lower ⟨"Start", none, .startEvent false, none, ["call"]⟩ .default).Hygienic ∧
      ∀ word ∈ Layout.vocabulary, word ∈
        ((ofNodes wordy).lower ⟨"Start", none, .startEvent false, none, ["call"]⟩
          .default).givenNames := by
  decide +kernel

end Graph

end ProcessCompiler
