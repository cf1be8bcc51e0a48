import SqlFlow.Proofs.Run.Unwinding
import SqlFlow.Proofs.Transaction.Bracketing

/-!
# Runs in which no rollback fails

* `Transcript.Clean`: no rollback has failed so far. A transcript loses nothing, so what is asked later on
  can only make it worse: `Answers.clean`, `Effect.clean`, `clean_of_unwind`.
* `Program.Arrives.clean_dispatch`: if no rollback fails in a run, none has failed behind any statement of it.
-/

namespace SqlFlow

variable {σ : Type} [Connection σ]

/-- No rollback has failed so far. -/
def Transcript.Clean (c : Option (Transcript σ)) : Prop :=
  failedRollback ∉ c.elim [] Transcript.calls

open Transcript (Clean)

section

variable {p : Program} {pc : Nat} {scopes : List Scope} {c c' : Option (Transcript σ)} {call : Call}
  {ok : Bool}

/-- A transcript loses nothing. -/
theorem Answers.clean (h : Answers call ok c c') (hclean : Clean c') : Clean c := by
  cases h with
  | missing => exact hclean
  | made h =>
    intro hmem
    apply hclean
    show failedRollback ∈ Transcript.calls _
    rw [(Trace.perform_transcript h).1]
    exact List.mem_append_left _ hmem

theorem Answers.ok_of_clean {t : Transcript σ} (h : Answers (.transact .rollback) ok (some t) c')
    (hclean : Clean c') : ok = true := by
  cases h with
  | made h =>
    cases ok with
    | true => rfl
    | false =>
      refine absurd ?_ hclean
      show failedRollback ∈ Transcript.calls _
      rw [(Trace.perform_transcript h).1]
      exact List.mem_append_right _ (List.mem_singleton.2 rfl)

theorem Idle.clean (h : Idle c c') (hclean : Clean c') : Clean c := by
  cases h with
  | nothing => exact hclean
  | execute h => exact h.clean hclean
  | refused h => exact h.clean hclean

theorem RollsBack.answers {τ : Type} [Connection τ] {error : Option SqlError} {c c' : τ}
    (h : RollsBack error c c') : Answers (.transact .rollback) error.isNone (some c) (some c') := by
  cases h with
  | done h => exact .made (by simp [Call.perform, h, Except.isOk, Except.toBool])
  | failed h => exact .made (by simp [Call.perform, h, Except.isOk, Except.toBool])

theorem Program.Leaves.clean {blocks blocks' : List OpenBlock} {errors : List (Option SqlError)}
    (h : p.Leaves pc blocks c errors blocks' c') (hclean : Clean c') : Clean c := by
  induction h with
  | here => exact hclean
  | pass _ _ ih => exact ih hclean
  | transaction _ hrollback _ ih | attempt _ hrollback _ ih => exact hrollback.answers.clean (ih hclean)

theorem Program.Catches.clean {b : OpenBlock} {handler : Nat} (h : p.Catches pc b handler c c')
    (hclean : Clean c') : Clean c := by
  cases h with
  | attempt => exact hclean
  | attemptTransaction _ hrollback => exact hrollback.answers.clean hclean

namespace Machine

variable {m : Machine (Transcript σ)}

theorem Effect.clean {r : Except Failure Nat × Machine (Transcript σ)} (h : Effect p pc scopes c r)
    (hclean : Clean r.2.connection) : Clean c := by
  cases h with
  | keep _ _ hidle | enter _ _ hidle | fail _ _ hidle => exact hidle.clean hclean
  | begin _ _ hcall | commit _ _ hcall => exact hcall.clean hclean
  | leave _ _ hconnection => exact hconnection ▸ hclean
  | abandon _ _ _ hcommit hrollback => exact hcommit.clean (hrollback.clean hclean)

theorem clean_of_unwind {failure : Failure} (hclean : Clean (unwind p failure m scopes).2.connection) :
    Clean m.connection := by
  induction scopes generalizing failure m with
  | nil => exact hclean
  | cons scope outer ih =>
    have hrollback := m.answers_transact .rollback
    rcases scope with _ | ⟨_ | _, handler, _ | _⟩ | _
    · exact ih hclean
    · exact hclean
    · exact ih hclean
    · rw [unwind] at hclean
      rcases hq : m.transact .rollback with ⟨error | _, n⟩ <;> rw [hq] at hclean hrollback
      · exact hrollback.clean (ih (m := n.emit _) hclean)
      · exact hrollback.clean hclean
    · exact ih hclean
    · rw [unwind] at hclean
      rcases hq : m.transact .rollback with ⟨error | _, n⟩ <;> rw [hq] at hclean hrollback
      · exact hrollback.clean (ih (m := n.emit _) hclean)
      · exact hrollback.clean (ih hclean)

theorem clean_unwind_of_dispatch {s : Statement} {failure : Failure} {n : Machine (Transcript σ)}
    (hstep : m.countStatement.step p pc s = (.error failure, n))
    (hclean : Clean (m.dispatch p pc s).2.connection) :
    Clean (unwind p failure n n.scopes).2.connection := by
  rw [dispatch, hstep] at hclean
  dsimp only at hclean
  rcases hq : unwind p failure n n.scopes with ⟨failure' | handler, n'⟩ <;> rw [hq] at hclean
  all_goals exact hclean

theorem clean_step_of_dispatch {s : Statement} (hclean : Clean (m.dispatch p pc s).2.connection) :
    Clean (m.countStatement.step p pc s).2.connection := by
  rcases hstep : m.countStatement.step p pc s with ⟨failure | next, n⟩
  · exact clean_of_unwind (clean_unwind_of_dispatch hstep hclean)
  · rw [dispatch, hstep] at hclean
    exact hclean

end Machine

namespace Program

variable {outer : Bool} {connection : Option (Transcript σ)} {m : Machine (Transcript σ)}

theorem Arrives.clean_of_dispatch (harrives : p.Arrives outer connection m pc) (h : p.Nested)
    {s : Statement} (hget : p.get? pc = some s) (hclean : Clean (m.dispatch p pc s).2.connection) :
    Clean m.connection :=
  (Machine.effect_step (m := m.countStatement) h (harrives.fits h).2 hget).clean
    (Machine.clean_step_of_dispatch hclean)

theorem Arrives.clean_of_runFrom (harrives : p.Arrives outer connection m pc) (h : p.Nested) {fuel : Nat}
    (hclean : Clean (Machine.runFrom p fuel m pc).2.connection) : Clean m.connection := by
  induction fuel generalizing m pc with
  | zero => exact hclean
  | succ fuel ih =>
    rw [Machine.runFrom] at hclean
    cases hget : p.get? pc with
    | none =>
      rw [hget] at hclean
      exact hclean
    | some s =>
      simp only [hget] at hclean
      apply harrives.clean_of_dispatch h hget
      rcases hq : m.dispatch p pc s with ⟨failure | next, n⟩ <;> rw [hq] at hclean
      · exact hclean
      · exact ih (harrives.next hget hq) hclean

theorem Starts.clean (hstart : p.Starts connection outer m) (hexecutable : p.executable = true)
    {marker : String} (hclean : Clean (p.run marker outer connection).connection) :
    Clean (m.runAll p).2.connection := by
  simp only [run, hexecutable, if_pos] at hclean
  cases hstart with
  | bare =>
    rw [if_neg Bool.false_ne_true, Machine.runBare] at hclean
    rcases hq : Machine.runAll p (Machine.emit { connection } (.started p.size false))
      with ⟨⟨failure, s⟩ | _, n⟩ <;> rw [hq] at hclean
    all_goals exact hclean
  | enclosed hbegin =>
    rw [if_pos rfl, Machine.runEnclosed, hbegin] at hclean
    dsimp only at hclean
    rcases hq : m.runAll p with ⟨⟨failure, s⟩ | _, n⟩ <;> rw [hq] at hclean
    · obtain ⟨ok, hrollback⟩ := n.answers_rollbackAfter failure
      exact hrollback.clean hclean
    · have hcommit := n.answers_transact .commit
      dsimp only at hclean
      rw [Machine.commit] at hclean
      rcases hq' : n.transact .commit with ⟨failure | _, n'⟩ <;> rw [hq'] at hclean hcommit
      · obtain ⟨ok, hrollback⟩ := n'.answers_rollbackAfter failure
        exact hcommit.clean (hrollback.clean hclean)
      · exact hcommit.clean hclean

/-- If no rollback fails in a run, none has failed behind any statement of it. -/
theorem Arrives.clean_dispatch (harrives : p.Arrives outer connection m pc) (h : p.Nested)
    (hexecutable : p.executable = true) {marker : String}
    (hclean : Clean (p.run marker outer connection).connection) {s : Statement}
    (hget : p.get? pc = some s) : Clean (m.dispatch p pc s).2.connection := by
  obtain ⟨m₀, k, hstart, hrun⟩ := harrives.exists_runFrom_succ h hget
  have hend := hstart.clean hexecutable hclean
  rw [hrun, Machine.runFrom, hget] at hend
  dsimp only at hend
  rcases hq : m.dispatch p pc s with ⟨failure | next, n⟩ <;> rw [hq] at hend
  · exact hend
  · exact (harrives.next hget hq).clean_of_runFrom h hend

end Program

end

end SqlFlow
