import ProcessCompiler.Proofs.Grammar.ExpressionStatement
/-!
# The last statement of a block

The last statement need not be all that stands behind the last semicolon of a
block: those before it may end in blocks. Main statement: `IsBlock.exists_last`,
which says which statements stand there.
-/

namespace ProcessCompiler

namespace Grammar

open Lexeme Parse

variable {T u v w rest : List Token} {before : List Stmt} {s : Stmt}

/-! ## Tokens behind a semicolon -/

/-- The tokens behind the last semicolon. -/
theorem exists_behind_semi (ts : List Token) :
    ∃ u v, ts = u ++ v ∧ (u = [] ∨ endsInSemi u = true) ∧ ∀ t ∈ v, t.isSemi = false := by
  induction ts with
  | nil => exact ⟨[], [], rfl, .inl rfl, nofun⟩
  | cons t ts ih =>
    obtain ⟨u, v, rfl, hu, hv⟩ := ih
    rcases hu with rfl | hu
    · cases ht : t.isSemi with
      | false => exact ⟨[], t :: v, rfl, .inl rfl, by simpa [ht] using hv⟩
      | true => exact ⟨[t], v, rfl, .inr (by simpa [endsInSemi] using ht), hv⟩
    · have hne : u ≠ [] := by
        rintro rfl
        cases hu
      refine ⟨t :: u, v, rfl, .inr ?_, hv⟩
      rw [← List.singleton_append, endsInSemi_append hne]
      exact hu

/-- The tokens behind the last semicolon but for one at the end. -/
theorem exists_between_semis (hT : T ≠ []) :
    ∃ u v w, T = u ++ (v ++ w) ∧ (u = [] ∨ endsInSemi u = true) ∧ (∀ t ∈ v, t.isSemi = false) ∧
      (w = [] ∨ ∃ joint, w = [.leaf (.punct ';' joint)]) ∧ v ++ w ≠ [] := by
  cases hend : endsInSemi T with
  | true =>
    obtain ⟨T, joint, rfl⟩ := endsInSemi_iff.1 hend
    obtain ⟨u, v, rfl, hu, hv⟩ := exists_behind_semi T
    exact ⟨u, v, _, by rw [List.append_assoc], hu, hv, .inr ⟨joint, rfl⟩, by simp⟩
  | false =>
    obtain ⟨u, v, rfl, hu, hv⟩ := exists_behind_semi T
    refine ⟨u, v, [], by rw [List.append_nil], hu, hv, .inl rfl, ?_⟩
    rintro hnil
    obtain ⟨rfl, -⟩ := List.append_eq_nil_iff.1 hnil
    rw [List.append_nil] at hend hT
    rcases hu with rfl | hu
    · exact hT rfl
    · rw [hu] at hend
      cases hend

/-- Where one list of tokens is divided twice, and at most one token stands behind
the first place, the second is no later. -/
theorem exists_of_append_eq (h : v ++ w = u ++ rest) (hw : w.length ≤ 1)
    (hrest : rest ≠ []) : ∃ x, v = u ++ x ∧ rest = x ++ w := by
  rcases List.append_eq_append_iff.1 h with ⟨x, rfl, rfl⟩ | ⟨x, rfl, rfl⟩
  · have hlength : 0 < rest.length := List.length_pos_iff.2 hrest
    obtain rfl : x = [] := List.length_eq_zero_iff.1 (by simp at hw; omega)
    exact ⟨[], by simp, by simp⟩
  · exact ⟨x, rfl, rfl⟩

theorem isSymbol_semi_of_notMem (hne : v ≠ []) (hv : ∀ t ∈ v, t.isSemi = false) :
    isSymbol .semi (v ++ w) = false := by
  refine Bool.eq_false_iff.2 fun hsemi => ?_
  obtain ⟨t, v, rfl⟩ := List.exists_cons_of_ne_nil hne
  obtain ⟨joint, y, hy⟩ := exists_of_isSymbol_semi hsemi
  obtain ⟨rfl, -⟩ := List.cons.inj hy
  exact absurd (hv _ List.mem_cons_self) nofun

theorem Stmt.StopsAt.length_le_one (h : s.StopsAt w []) : w.length ≤ 1 := by
  rcases h with ⟨rfl, -⟩ | ⟨joint, rfl, -⟩ <;> simp

/-! ## The statements behind the last semicolon -/

/-- A block of one statement is read as that statement. -/
theorem IsBlock.exists_stmt (h : IsBlock T [s]) (hT : T ≠ []) (hsemi : isSymbol .semi T = false) :
    ∃ n, stmt (Rules.ofDepth n) ⟨T, none⟩ = .ok (s, ⟨[], none⟩) := by
  obtain ⟨first, rest, note, hfirst, hcases⟩ :=
    stmtsIn_cases hsemi hT (h.stmtsIn (Nat.le_refl _))
  rcases hcases with ⟨rfl, hstmts, hnote⟩ | ⟨more, hrest, -, hmore, hstmts⟩
  · obtain ⟨rfl, -⟩ := List.cons.inj hstmts
    exact ⟨_, hfirst.trans (by rw [hnote])⟩
  · exact absurd (List.cons.inj hstmts).2.symm (stmtsIn_ne_nil hrest hmore)

/-- The block behind a semicolon holds the last statements. -/
theorem IsBlock.exists_behind (h : IsBlock (u ++ v) (before ++ [s])) (hv : v ≠ [])
    (hu : u = [] ∨ endsInSemi u = true) :
    ∃ front mid, IsBlock v (mid ++ [s]) ∧ before = front ++ mid ∧
      (front = [] ∨ front.getLast?.any Stmt.endsInSemi = true) := by
  rcases hu with rfl | hu
  · exact ⟨[], before, h, rfl, .inl rfl⟩
  · obtain ⟨u, joint, rfl⟩ := endsInSemi_iff.1 hu
    rw [List.append_assoc] at h
    obtain ⟨-, front, after, -, hafter, hstmts, hfront⟩ := h.divide joint
    have hne : after ≠ [] := stmtsIn_ne_nil hv (hafter.stmtsIn (Nat.le_refl _))
    obtain ⟨mid, last, rfl⟩ := (List.eq_nil_or_concat' after).resolve_left hne
    rw [← List.append_assoc] at hstmts
    obtain ⟨rfl, hlast⟩ := List.append_inj' hstmts rfl
    obtain ⟨rfl, -⟩ := List.cons.inj hlast
    exact ⟨front, mid, hafter, rfl, .inr hfront⟩

/-- **The last statement of a block** and the tokens behind its last semicolon, one
at the end apart. The statement is all that stands there if it is the only one, or
the one before it ends in a semicolon. -/
theorem IsBlock.exists_last (h : IsBlock T (before ++ [s])) (hs : s ≠ .empty) :
    ∃ u v w mid, T = u ++ (v ++ w) ∧ (u = [] ∨ endsInSemi u = true) ∧ v ≠ [] ∧
      (∀ t ∈ v, t.isSemi = false) ∧ s.StopsAt w [] ∧ IsBlock (v ++ w) (mid ++ [s]) ∧
      (mid = [] ↔ before = [] ∨ before.getLast?.any Stmt.endsInSemi = true) := by
  have hT : T ≠ [] := by
    obtain ⟨u, run, -, rfl, hrun, -⟩ := stmtsIn_getLast hs (by omega) (h.stmtsIn (Nat.le_refl _))
    simp [hrun]
  obtain ⟨u, v, w, rfl, hu, hv, hw, hne⟩ := exists_between_semis hT
  obtain ⟨front, mid, hblock, rfl, hfront⟩ := h.exists_behind hne hu
  obtain ⟨y, run, note, heq, hrun, hsemi, hstmt, -, hends⟩ :=
    stmtsIn_getLast hs (by omega) (hblock.stmtsIn (Nat.le_refl _))
  have hlength : w.length ≤ 1 := by
    rcases hw with rfl | ⟨joint, rfl⟩ <;> simp
  obtain ⟨x, rfl, rfl⟩ := exists_of_append_eq heq hlength hrun
  have hx : x ≠ [] := by
    rintro rfl
    rcases hw with rfl | ⟨joint, rfl⟩
    · exact hrun rfl
    · cases hsemi
  have hstops : s.StopsAt w [] := by
    have hsame : endsInSemi (x ++ w) = s.endsInSemi :=
      endsInSemi_of_stmt (Rules.agree_ofDepth (Nat.le_refl _)) (by rwa [List.append_nil])
    rcases hw with rfl | ⟨joint, rfl⟩
    · rw [List.append_nil, endsInSemi_of_notMem fun t ht => hv t (List.mem_append_right y ht)] at hsame
      exact .inl ⟨rfl, hsame.symm⟩
    · rw [endsInSemi_append (List.cons_ne_nil _ _)] at hsame
      exact .inr ⟨joint, rfl, hsame.symm⟩
  refine ⟨u, y ++ x, w, mid, rfl, hu, by simp [hx], hv, hstops, hblock, ?_, fun hbefore => ?_⟩
  · rintro rfl
    rwa [List.append_nil]
  · -- A statement before the last one would end in a semicolon.
    by_contra hmid
    rcases hbefore with hnil | hbefore
    · exact hmid (List.append_eq_nil_iff.1 hnil).2
    · rw [List.getLast?_append_of_ne_nil front hmid, ← hends,
        endsInSemi_of_notMem fun t ht => hv t (List.mem_append_left x ht)] at hbefore
      cases hbefore

end Grammar

end ProcessCompiler
