import SqlFlow.Proofs.Transaction.Bracketing

/-!
# Enclosed runs are atomic

* `Savepoints`: a database as a current state and a stack of states to go back to, with what the
  calls of transactions do to them. Statements may do anything to the current state.
* `stack_of_bracketed`: bracketed calls leave the stack as it is, if no rollback fails.
* `unchanged_of_enclosed`: a run inside a transaction of its own that is no success leaves the current
  state as it is, too.
* `Journal`: such a database, which keeps the statements that it has accepted.
-/

namespace SqlFlow

variable {σ δ : Type} [Connection σ]

/-- The connection is one to a database with savepoints. `current` is the state of the database,
`stack` has the states that the open transactions go back to, the innermost first. Nothing is said
about a rollback that fails, and about the end of a transaction when none is open. -/
structure Savepoints (σ δ : Type) [Connection σ] where
  current : σ → δ
  stack : σ → List δ
  stack_execute {c c' : σ} {sql : String} {ok : Bool}
    (h : (Call.execute sql).perform c = (ok, c')) : stack c' = stack c
  begin_ok {c c' : σ} (h : (Call.transact .begin).perform c = (true, c')) :
    current c' = current c ∧ stack c' = current c :: stack c
  commit_ok {c c' : σ} {saved : δ} {outer : List δ}
    (h : (Call.transact .commit).perform c = (true, c')) (hstack : stack c = saved :: outer) :
    current c' = current c ∧ stack c' = outer
  rollback_ok {c c' : σ} {saved : δ} {outer : List δ}
    (h : (Call.transact .rollback).perform c = (true, c')) (hstack : stack c = saved :: outer) :
    current c' = saved ∧ stack c' = outer
  begin_failed {c c' : σ} (h : (Call.transact .begin).perform c = (false, c')) :
    current c' = current c ∧ stack c' = stack c
  commit_failed {c c' : σ} (h : (Call.transact .commit).perform c = (false, c')) :
    current c' = current c ∧ stack c' = stack c

namespace Savepoints

variable (db : Savepoints σ δ) {c c' : σ} {saved : δ} {outer : List δ} {v w : List Answered}

/-! ## Calls and the stack -/

theorem stack_of_closing {committed : Bool} (hv : Closing committed v) (htrace : Trace c v c')
    (hok : failedRollback ∉ v) (hstack : db.stack c = saved :: outer) :
    db.stack c' = outer ∧ (committed = false → db.current c' = saved) := by
  cases hv with
  | commit =>
    obtain _ | ⟨hcommit, _ | _⟩ := htrace
    exact ⟨(db.commit_ok hcommit hstack).2, nofun⟩
  | rollback ok =>
    obtain _ | ⟨hrollback, _ | _⟩ := htrace
    cases ok with
    | false => exact absurd (List.mem_singleton.mpr rfl) hok
    | true =>
      obtain ⟨hcurrent, hstack'⟩ := db.rollback_ok hrollback hstack
      exact ⟨hstack', fun _ => hcurrent⟩
  | failedCommit ok =>
    obtain _ | ⟨hcommit, _ | ⟨hrollback, _ | _⟩⟩ := htrace
    cases ok with
    | false => exact absurd (List.mem_cons_of_mem _ (List.mem_singleton.mpr rfl)) hok
    | true =>
      -- the commit that failed has left the savepoint where it is
      have hstack₁ := (db.commit_failed hcommit).2.trans hstack
      obtain ⟨hcurrent, hstack'⟩ := db.rollback_ok hrollback hstack₁
      exact ⟨hstack', fun _ => hcurrent⟩

theorem stack_of_bracketed (hw : Bracketed w) (htrace : Trace c w c') (hok : failedRollback ∉ w) :
    db.stack c' = db.stack c := by
  induction hw generalizing c c' with
  | nil =>
    cases htrace
    rfl
  | execute sql ok _ ih =>
    obtain _ | ⟨hexecute, hrest⟩ := htrace
    rw [ih hrest (fun h => hok (.tail _ h)), db.stack_execute hexecute]
  | refused _ ih =>
    obtain _ | ⟨hbegin, hrest⟩ := htrace
    rw [ih hrest (fun h => hok (.tail _ h)), (db.begin_failed hbegin).2]
  | @block u v w _ _ hv _ ihu ihw =>
    simp only [List.mem_cons, List.mem_append, not_or] at hok
    obtain ⟨-, hu, hclosing, hw⟩ := hok
    obtain _ | ⟨hbegin, hrest⟩ := htrace
    obtain ⟨c₂, hbody, hrest⟩ := hrest.exists_of_append
    obtain ⟨c₃, hend, hrest⟩ := hrest.exists_of_append
    -- the stack is higher by one state while the transaction is open
    have hopen : db.stack c₂ = db.current c :: db.stack c :=
      (ihu hbody hu).trans (db.begin_ok hbegin).2
    have hclosed : db.stack c₃ = db.stack c := (db.stack_of_closing hv hend hclosing hopen).1
    rw [ihw hrest hw, hclosed]

theorem unchanged_of_enclosed {outcome : Outcome} (hw : Enclosed outcome w) (htrace : Trace c w c')
    (hok : failedRollback ∉ w) (houtcome : outcome ≠ .success) :
    db.current c' = db.current c ∧ db.stack c' = db.stack c := by
  cases hw with
  | notRun =>
    cases htrace
    exact ⟨rfl, rfl⟩
  | refused =>
    obtain _ | ⟨hbegin, _ | _⟩ := htrace
    exact db.begin_failed hbegin
  | committed _ _ => exact absurd rfl houtcome
  | @abandoned u v hu hv =>
    simp only [List.mem_cons, List.mem_append, not_or] at hok
    obtain ⟨-, hoku, hokv⟩ := hok
    obtain _ | ⟨hbegin, hrest⟩ := htrace
    obtain ⟨c₂, hbody, hend⟩ := hrest.exists_of_append
    have hopen : db.stack c₂ = db.current c :: db.stack c :=
      (db.stack_of_bracketed hu hbody hoku).trans (db.begin_ok hbegin).2
    obtain ⟨hstack, hcurrent⟩ := db.stack_of_closing hv hend hokv hopen
    exact ⟨hcurrent rfl, hstack⟩

end Savepoints

/-! ## A database with savepoints -/

/-- A database that keeps the statements it has accepted, and refuses one that it has already. -/
structure Journal where
  entries : List String := []
  saved : List (List String) := []
deriving DecidableEq, Repr

namespace Journal

instance : Connection Journal where
  execute sql j :=
    if sql ∈ j.entries then (.error (.statement (-803) "duplicate entry"), j)
    else (.ok (.affected 1), { j with entries := sql :: j.entries })
  transact
    | .begin, j => (.ok (), { j with saved := j.entries :: j.saved })
    | .commit, { entries, saved := _ :: outer } => (.ok (), { entries, saved := outer })
    | .rollback, { entries := _, saved := entries :: outer } => (.ok (), { entries, saved := outer })
    | _, j => (.error (.transaction "no open transaction"), j)

def savepoints : Savepoints Journal (List String) where
  current := entries
  stack := saved
  stack_execute {c c' sql ok} h := by
    obtain rfl : (Connection.execute sql c).2 = c' := congrArg Prod.snd h
    show (if sql ∈ c.entries then _ else _ : Except SqlError QueryResult × Journal).2.saved = c.saved
    split <;> rfl
  begin_ok h := by
    cases h
    exact ⟨rfl, rfl⟩
  commit_ok {c c' saved outer} h hstack := by
    obtain ⟨entries, stack⟩ := c
    obtain rfl : stack = saved :: outer := hstack
    cases h
    exact ⟨rfl, rfl⟩
  rollback_ok {c c' saved outer} h hstack := by
    obtain ⟨entries, stack⟩ := c
    obtain rfl : stack = saved :: outer := hstack
    cases h
    exact ⟨rfl, rfl⟩
  begin_failed h := nomatch h
  commit_failed {c c'} h := by
    obtain ⟨entries, _ | ⟨saved, outer⟩⟩ := c
    · cases h
      exact ⟨rfl, rfl⟩
    · cases h

end Journal

/-! ## Runs -/

/-- A run inside a transaction of its own is all or nothing: if it is no success, and no rollback has
failed in it, the database is left as it was, and so are the transactions that were open before. -/
theorem unchanged_of_outcome_ne_success (db : Savepoints σ δ) (d : Dialect)
    (fragments : List Fragment) (marker : String) (c : σ)
    (hrollback : failedRollback ∉ (Program.assemble d fragments).calls marker true (some c))
    (houtcome : ((Program.assemble d fragments).run marker true (some c)).report.outcome ≠ .success) :
    ∃ c', ((Program.assemble d fragments).run marker true (some c)).connection = some c' ∧
      db.current c' = db.current c ∧ db.stack c' = db.stack c := by
  obtain ⟨c', hend, htrace, -, henclosed⟩ := exists_trace_run d fragments marker true c
  exact ⟨c', hend, db.unchanged_of_enclosed (henclosed rfl) htrace hrollback houtcome⟩

/-- The inner transaction is committed; the last statement is refused, and undoes it. -/
theorem unchanged_after_duplicate_entry :
    let fragments : List Fragment := [⟨.directive .beginTransaction, "", "--begin", 1⟩,
      ⟨.sql, "B", "B", 2⟩, ⟨.directive .endTransaction, "", "--endtransaction", 3⟩,
      ⟨.sql, "A", "A", 4⟩]
    let p := Program.assemble {} fragments
    let j : Journal := { entries := ["A"] }
    failedRollback ∉ p.calls "--" true (some j) ∧
      (p.run "--" true (some j)).report.outcome ≠ .success ∧
      ∃ j', (p.run "--" true (some j)).connection = some j' ∧ j'.entries = ["A"] ∧ j'.saved = [] := by
  intro fragments p j
  have hrollback : failedRollback ∉ p.calls "--" true (some j) := by decide
  have houtcome : (p.run "--" true (some j)).report.outcome ≠ .success := by decide
  exact ⟨hrollback, houtcome,
    unchanged_of_outcome_ne_success Journal.savepoints {} fragments "--" j hrollback houtcome⟩

end SqlFlow
