import ProcessCompiler.Proofs.Program.CheckedLowering
import ProcessCompiler.Proofs.Program.LegalNames
import ProcessCompiler.Proofs.Program.References
import ProcessCompiler.Proofs.Program.ScriptBody
/-!
# Bodies of accepted programs

A body is read under two conditions: its text was accepted, and where it goes is
named by identifiers. Lowering gives legal names only (`isIdentifier_lower`), and
validation lets accepted texts through only. So for the program of an accepted
diagram there is nothing left to ask (`bodyReads_of_validate`): every condition
and every sent value is read in its procedure, a task is unless a part of its
text ends inside a comment, and a script is unless its last statement needs a
semicolon that it does not get.
-/

namespace ProcessCompiler

open Grammar Layout Text

/-! ## Names -/

namespace Graph

variable {g : Graph} {start : Node} {config : EmitConfig} {q : Procedure}

/-- **A lowered program goes to identifiers only**, and leaves for identifiers
only. -/
theorem isIdentifier_lower (hq : q ∈ (g.lower start config).procedures) :
    (∀ t ∈ q.then_.targets, Names.isIdentifier t.toList = true) ∧
      ∀ r ∈ q.action.route?, Names.isIdentifier r.toList = true := by
  have hname : ∀ id, Names.isIdentifier
      ((Names.tableOf config.entryName g.toList).nameOf id).toList = true := fun id =>
    Names.legal_iff.1 (Names.legal_nameOf config.entryName g.toList id)
  obtain ⟨n, -, rfl⟩ := List.mem_map.1 hq
  have hrefers := Lowering.refers_procedure (Names.tableOf config.entryName g.toList) n
  constructor
  · intro t ht
    rw [hrefers.ordinary] at ht
    obtain ⟨id, -, rfl⟩ := List.mem_map.1 ht
    exact hname id
  · intro r hr
    rw [hrefers.route] at hr
    split at hr
    · obtain ⟨id, -, rfl⟩ := Option.map_eq_some_iff.1 hr
      exact hname id
    · cases hr

end Graph

/-! ## Texts -/

/-- The text of a sound node fits it. -/
theorem Node.Sound.fits {n : Node} {raw : String} (h : n.Sound) (hraw : n.text = some raw)
    (hkind : n.kind.isPlainEvent = false) : n.kind.Fits (trimmed raw) := by
  unfold Sound at h
  split at h
  · rw [hkind] at h
    cases h
  · rename_i text htext
    obtain ⟨raw', hraw', rfl, -⟩ := expression_eq_some_iff.1 htext
    rwa [Option.some.inj (hraw.symm.trans hraw')]

/-! ## Bodies -/

/-- The code of a procedure that its function holds. -/
def Procedure.body (sharing : ContextSharing) (q : Procedure) : String :=
  Layout.action q.kind q.nodeId q.action ++ continuation sharing q.then_

/-- **What the body of a procedure is read as**, by what the procedure does. -/
structure Procedure.BodyReads (sharing : ContextSharing) (q : Procedure) : Prop where
  guard : ∀ {condition otherwise}, q.action = .guard condition otherwise →
    ∃ e, parseExpr condition = .ok e ∧ Harness.statements.parse (q.body sharing) =
      .ok (guardStmt otherwise e :: continuationStmts sharing q.then_)
  emit : ∀ {value}, q.action = .emit value →
    ∃ e, parseExpr value = .ok e ∧ Harness.statements.parse (q.body sharing) =
      .ok (emitStmt e :: continuationStmts sharing q.then_)
  invoke : ∀ {first? tail key route}, q.action = .invoke first? tail key route →
    ∃ front e, Invocation.Front ⟨first?, tail⟩ front ∧ parseExpr tail = .ok e ∧
      Harness.statements.parse (q.body sharing) =
        if Invocation.isOpen ⟨first?, tail⟩ then .error ⟨false, .unreadable⟩
        else .ok (front ++ awaitStmt key e route :: continuationStmts sharing q.then_)
  run : ∀ {script key block}, q.action = .run script key none →
    parseBlock ("\x7b" ++ script ++ "\n\x7d") = .ok block →
    endsOpen block = false ∨
      Scan.endsInLine (trimEnd script.toList) = false ∧ addsSemicolon (trimEnd script.toList) = true →
    ∃ stmts, (stmts = block ∨ stmts = terminate block) ∧
      Harness.statements.parse (q.body sharing) = .ok (stmts ++ continuationStmts sharing q.then_)

/-- A script is read before its continuation, if its last statement needs no
semicolon or gets one. -/
theorem Layout.exists_parse_asStatement {script : String} {block : List Stmt} {c : Continuation}
    (h : parseBlock ("\x7b" ++ script ++ "\n\x7d") = .ok block) (sharing : ContextSharing)
    (hc : ∀ t ∈ c.targets, Names.isIdentifier t.toList = true)
    (hends : endsOpen block = false ∨
      Scan.endsInLine (trimEnd script.toList) = false ∧ addsSemicolon (trimEnd script.toList) = true) :
    ∃ stmts, (stmts = block ∨ stmts = terminate block) ∧
      Harness.statements.parse (asStatement script ++ continuation sharing c) =
        .ok (stmts ++ continuationStmts sharing c) := by
  obtain ⟨L, ts, hL, hreads, hcloses | htrails⟩ := Harness.ends_of_parseBlock_lines h
  · have hparse := parse_asStatement_of_closes hcloses hL hreads sharing hc
    cases hadds : addsSemicolon (trimEnd script.toList) with
    | true =>
      rw [hadds] at hparse
      exact ⟨_, .inr rfl, hparse⟩
    | false =>
      rw [hadds] at hparse hends
      have hclosed : endsOpen block = false := hends.resolve_right fun hline => nomatch hline.2
      rw [hclosed] at hparse
      exact ⟨_, .inl rfl, hparse⟩
  · have hclosed : endsOpen block = false := by
      refine hends.resolve_right fun hline => ?_
      rw [htrails.runsOn.endsInLine] at hline
      cases hline.1
    exact ⟨_, .inl rfl, parse_asStatement_of_trails htrails hL hreads sharing hc hclosed⟩

namespace Diagram

/-- **Every body of an accepted program is read.** -/
theorem bodyReads_of_validate {s : Strictness} {d : Diagram} {v : Validated}
    (h : d.validate s = .ok v) (config : EmitConfig) :
    ∀ q ∈ (v.graph.lower v.start config).procedures, q.BodyReads config.context := by
  intro q hq
  obtain ⟨hc, hroute⟩ := Graph.isIdentifier_lower hq
  have haccepts := validate_eq_ok_iff.1 h
  obtain ⟨n, hn, rfl⟩ := List.mem_map.1 hq
  have hsound := haccepts.sound n hn
  have hperforms := Lowering.performs_action (Names.tableOf config.entryName v.graph.toList) hsound
    (haccepts.tagged_of_mem hn)
  generalize hprocedure : Lowering.procedure (Names.tableOf config.entryName v.graph.toList) n = q
    at hc hroute
  have haction : Lowering.action (Names.tableOf config.entryName v.graph.toList) n = q.action :=
    congrArg Procedure.action hprocedure
  rw [haction] at hperforms
  -- What the node calls for says which text was accepted, and in which harness.
  constructor
  · intro condition otherwise hguard
    rw [hguard] at hperforms hroute
    cases hperforms with
    | gateway hkind hraw =>
      have hfits := hsound.fits hraw (by rw [hkind]; rfl)
      rw [hkind] at hfits
      rw [Procedure.body, hguard]
      exact exists_parse_guard q.kind q.nodeId config.context hfits hroute hc
  · intro value hemit
    rw [hemit] at hperforms
    cases hperforms with
    | messageEnd hkind hraw =>
      have hfits := hsound.fits hraw (by rw [hkind]; rfl)
      rw [hkind] at hfits
      rw [Procedure.body, hemit]
      exact exists_parse_emit q.kind q.nodeId config.context hfits hc
  · intro first? tail key route hinvoke
    rw [hinvoke] at hperforms hroute
    cases hperforms with
    | @task _ _ i hkind hraw hsplit =>
      have hfits := hsound.fits hraw (by rw [hkind]; rfl)
      rw [hkind] at hfits
      have hparts := Invocation.parts_of_split hsplit
      rw [Procedure.body, hinvoke]
      cases hopen : Invocation.isOpen i with
      | false => exact parse_taskBody_of_closed hparts hfits.1 hopen hroute hc
      | true => exact parse_taskBody_of_open hparts hopen hroute hc
  · intro script key block hrun hblock hends
    rw [Procedure.body, hrun]
    exact exists_parse_asStatement hblock config.context hc hends

end Diagram

end ProcessCompiler
