import SqlFlow.Proofs.Tree.Meaning

/-!
# The store of a machine

`Machine.store` is what the interpreter of block trees knows of a machine: everything but the scopes
and the events. `Tracks` says that an operation of machines does to the store what the operation of
stores does, gives the same answer, and leaves the scopes alone; there is one lemma for each
operation that a statement uses.
-/

namespace SqlFlow

variable {σ : Type}

/-- What a run leaves behind, apart from what it has told. -/
def Run.result (r : Run σ) : Report × Option σ := (r.report, r.connection)

namespace Machine

/-- What a run has changed so far, apart from the scopes that it is in and what it has told. -/
def store (m : Machine σ) : Store σ :=
  { connection := m.connection, stats := m.stats, messages := m.messages }

section

variable (m : Machine σ) (e : Event) (s : Scope) (taken : Bool)

@[simp] theorem store_emit : (m.emit e).store = m.store := rfl

@[simp] theorem scopes_emit : (m.emit e).scopes = m.scopes := rfl

@[simp] theorem store_enter : (m.enter s).store = m.store := rfl

@[simp] theorem scopes_enter : (m.enter s).scopes = s :: m.scopes := rfl

@[simp] theorem scopes_leave : m.leave.scopes = m.scopes.tail := rfl

@[simp] theorem store_countStatement : m.countStatement.store = m.store.tick := rfl

@[simp] theorem scopes_countStatement : m.countStatement.scopes = m.scopes := rfl

@[simp] theorem store_countRecovered : m.countRecovered.store = m.store.recover := rfl

@[simp] theorem scopes_countRecovered : m.countRecovered.scopes = m.scopes := rfl

@[simp] theorem store_note : (m.note taken).store = m.store := by
  unfold note
  split <;> rfl

theorem result_succeed : m.succeed.result = m.store.succeed := rfl

theorem result_halt (failure : Failure) (statement : String) :
    (m.halt failure statement).result = m.store.halt ⟨failure, statement⟩ := rfl

theorem scopes_note_of_conditional {b : Bool} {outer : List Scope}
    (h : m.scopes = .conditional b :: outer) :
    (m.note taken).scopes = .conditional taken :: outer := by
  rw [note, h]

end

theorem exists_handle (p : Program) (m : Machine σ) (failure : Failure) (transactional : Bool)
    (handler : Nat) (outer : List Scope) :
    ∃ m', m.handle p failure transactional handler outer = (.ok handler, m') ∧
      m'.store = m.store ∧ m'.scopes = .attempt transactional handler true :: outer :=
  ⟨_, rfl, rfl, rfl⟩

/-! ## Operations on the store -/

/-- The operation with result `r` on the machine `m` does to the store what gave `q`. -/
def Tracks {α ε : Type} (m : Machine σ) (r : Except ε α × Machine σ)
    (q : Except ε α × Store σ) : Prop :=
  ∃ m', r = (q.1, m') ∧ m'.store = q.2 ∧ m'.scopes = m.scopes

theorem Tracks.of_eq {α ε : Type} {m : Machine σ} {r : Except ε α × Machine σ} {answer : Except ε α}
    {store : Store σ} {q : Except ε α × Store σ} (h : Tracks m r q) (hq : q = (answer, store)) :
    ∃ m', r = (answer, m') ∧ m'.store = store ∧ m'.scopes = m.scopes := by
  rw [hq] at h
  exact h

theorem tracks_call {α : Type} (m : Machine σ) (toFailure : SqlError → Failure)
    (f : σ → Except SqlError α × σ) : Tracks m (m.call toFailure f) (m.store.ask toFailure f) := by
  cases hc : m.connection with
  | none => exact ⟨m, by simp [call, Store.ask, store, hc], by simp [Store.ask, store, hc], rfl⟩
  | some c =>
    exact ⟨{ m with connection := some (f c).2 }, by simp [call, Store.ask, store, hc],
      by simp [Store.ask, store, hc], rfl⟩

variable [Connection σ]

theorem tracks_transact (m : Machine σ) (c : TransactionCall) :
    Tracks m (m.transact c) (m.store.transact c) :=
  tracks_call m _ _

theorem tracks_execute (m : Machine σ) (sql : String) :
    Tracks m (m.execute sql) (m.store.execute sql) :=
  tracks_call m _ _

theorem tracks_query (m : Machine σ) (sql : String) :
    Tracks m (m.query sql) (m.store.query sql) := by
  rcases hq : m.store.execute sql with ⟨failure | result, s⟩
  all_goals
    obtain ⟨m', hexecute, rfl, hscopes⟩ := (tracks_execute m sql).of_eq hq
    rw [query, Store.query, hexecute, hq]
    exact ⟨_, rfl, rfl, hscopes⟩

theorem tracks_evaluate (m : Machine σ) (line : Nat) (condition : String) :
    Tracks m (m.evaluate line condition) (m.store.evaluate condition) := by
  rw [evaluate, Store.evaluate]
  cases Literal.truth? condition with
  | some b => exact ⟨m, rfl, rfl, rfl⟩
  | none =>
    -- a database error is told of here, and is the answer no
    rcases hq : m.store.execute condition with ⟨(error | ⟨call, error⟩ | _) | result, s⟩
    all_goals
      obtain ⟨m', hexecute, rfl, hscopes⟩ := (tracks_execute m condition).of_eq hq
      rw [hexecute]
      exact ⟨_, rfl, rfl, hscopes⟩

/-- Rolling back because of a failure comes to the rollback; that it may fail, too, is only told. -/
theorem rollbackAfter_spec (m : Machine σ) (cause : Failure) :
    (m.rollbackAfter cause).store = (m.store.transact .rollback).2 ∧
      (m.rollbackAfter cause).scopes = m.scopes := by
  rcases hq : m.store.transact .rollback with ⟨failure | _, s⟩
  all_goals
    obtain ⟨m', htransact, hstore, hscopes⟩ := (tracks_transact m .rollback).of_eq hq
    rw [rollbackAfter, htransact]
    exact ⟨hstore, hscopes⟩

theorem tracks_commit (m : Machine σ) : Tracks m m.commit m.store.commit := by
  rcases hq : m.store.transact .commit with ⟨failure | _, s⟩
  all_goals
    obtain ⟨m', htransact, rfl, hscopes⟩ := (tracks_transact m .commit).of_eq hq
    rw [commit, Store.commit, htransact, hq]
  · obtain ⟨hstore', hscopes'⟩ := rollbackAfter_spec m' failure
    exact ⟨_, rfl, hstore', hscopes'.trans hscopes⟩
  · exact ⟨m', rfl, rfl, hscopes⟩

end Machine

end SqlFlow
