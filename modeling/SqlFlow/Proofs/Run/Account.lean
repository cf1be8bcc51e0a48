import Mathlib.Algebra.GroupWithZero.Nat
import SqlFlow.Proofs.Run.Ledger

/-!
# The account of a run

The log of a run, the report on it and the turns that it took say the same.

* `Event.Entry.tells`, `isDebug`, `isRollbackWarning`, `isEnd`: the entries of a log by what they are about.
* `Turn.fields`, `debugText?`, `result?`: what is told of a turn, and what it collects and counts itself.
* `Accounts`: a log, counts, messages, turns and failed rollbacks agree. `Accounts.tell` and
  `Accounts.turn`: they still do with one more entry, and with one more turn.
* `Machine.Balanced`: this of a machine over a ledger. One lemma for each operation: a rollback that fails
  is entered in the ledger and told of at once, by whichever operation has asked for it.
* `Run.Accounted`: this of a run that has ended. `Balanced.succeed`, `Balanced.halt`: every way to end.
* `run_accounts_for_itself`: every run that is executed is accounted for.
-/

namespace SqlFlow

variable {σ : Type}

/-! ## Entries of a log -/

namespace Event.Entry

/-- The executor's entries with a message. -/
def tells (message : String) (entry : Entry) : Bool :=
  entry.target == "executor" && entry.message == message

/-- The entries of `debug` directives. -/
def isDebug (entry : Entry) : Bool := entry.target == "sqlscript::debug"

/-- The entries about rollbacks that failed. -/
def isRollbackWarning (entry : Entry) : Bool :=
  entry.tells "rollback failed" || entry.tells "rollback failed while unwinding"

/-- The entries that a run ends with. -/
def isEnd (entry : Entry) : Bool :=
  entry.tells "script run finished" || entry.tells "script run failed"

end Event.Entry

/-- The events of a run as they are logged. -/
def Run.log (r : Run σ) : List Event.Entry := r.events.toList.map Event.entry

/-- The events so far as they are logged. -/
def Machine.log (m : Machine σ) : List Event.Entry := m.events.toList.map Event.entry

theorem Machine.log_emit (m : Machine σ) (e : Event) : (m.emit e).log = m.log ++ [e.entry] := by
  simp [log, emit]

/-! ## Turns -/

namespace Turn

/-- The fields of the entry that tells of the turn. -/
def fields (t : Turn σ) : List (String × Event.Datum) :=
  [("index", .number t.index), ("line", .number t.statement.line),
    ("kind", .text t.statement.kind.keyword)]

/-- The text of a `debug` directive. -/
def debugText? (t : Turn σ) : Option String :=
  if t.statement.kind = .directive .debug then some t.statement.text else none

/-- The result of an SQL statement that the database accepts. -/
def result? [Connection σ] (t : Turn σ) : Option QueryResult :=
  if t.statement.kind = .sql then
    t.before.connection.bind fun c => (Connection.execute t.statement.text c).1.toOption
  else none

end Turn

/-! ## Accounts -/

variable [Connection σ]

/-- A log agrees with what has been counted and collected, with the turns taken so far, and with the errors
of the rollbacks that have failed. `pending` handlers have been entered and not yet been counted. -/
structure Accounts (p : Program) (outer : Bool) (turns : List (Turn σ)) (failed : List SqlError)
    (pending : Nat) (log : List Event.Entry) (stats : Stats) (messages : List String) : Prop where
  started : log.head? = some ⟨.info, "executor", "script run started",
    [("statements", .number p.size), ("outer_transaction", .flag outer)]⟩
  /-- The statements that the log tells of are those of the turns, in order. -/
  dispatches : (log.filter (·.tells "dispatch")).map Event.Entry.fields = turns.map Turn.fields
  statements : stats.statements = log.countP (·.tells "dispatch")
  recovered :
    stats.recovered + pending = log.countP (·.tells "statement failed; continuing at catch")
  reported : messages = (log.filter Event.Entry.isDebug).map Event.Entry.message
  texts : messages = turns.filterMap Turn.debugText?
  sqlStatements : stats.sqlStatements = (turns.filterMap Turn.result?).length
  rowsAffected : stats.rowsAffected = ((turns.filterMap Turn.result?).map QueryResult.rowsAffected).sum
  /-- There is one warning for each rollback that failed, in order, with its error. -/
  rollbacks : (log.filter Event.Entry.isRollbackWarning).map (·.fields.lookup "error") =
    failed.map fun error => some (.text (Failure.transaction .rollback error).message)

/-- What a run has left behind agrees with its log, which ends with the one entry that says how the run
ended. -/
structure Run.Accounted (p : Program) (outer : Bool) (turns : List (Turn σ)) (failed : List SqlError)
    (run : Run σ) : Prop
    extends Accounts p outer turns failed 0 run.log run.report.stats run.report.messages.toList where
  ended : ∃ earlier last, run.log = earlier ++ [last] ∧ (∀ entry ∈ earlier, entry.isEnd = false) ∧
    (run.report.outcome = .success ∧ last = ⟨.info, "executor", "script run finished",
        [("statements", .number run.report.stats.statements),
          ("rows_affected", .number run.report.stats.rowsAffected),
          ("recovered", .number run.report.stats.recovered)]⟩ ∨
      ∃ failure, run.report.outcome = .runtimeError ∧ run.report.error? = some (.failed failure) ∧
        last = ⟨.error, "executor", "script run failed",
          [("error", .text failure.message), ("statement", .text run.report.statement)]⟩)

section

variable {p : Program} {outer : Bool} {turns : List (Turn σ)} {failed : List SqlError} {pending : Nat}
  {log : List Event.Entry} {stats : Stats} {messages : List String}

/-- One more entry that tells of no turn: `handled` handlers have been entered, and the rollbacks that
failed are those that the entry is about. -/
theorem Accounts.tell (h : Accounts p outer turns failed pending log stats messages)
    {entry : Event.Entry} (handled : Nat) (failed' : List SqlError)
    (hdispatch : entry.tells "dispatch" = false) (hdebug : entry.isDebug = false)
    (hhandled : [entry].countP (·.tells "statement failed; continuing at catch") = handled)
    (hrollback : ([entry].filter Event.Entry.isRollbackWarning).map (·.fields.lookup "error") =
      failed'.map fun error => some (.text (Failure.transaction .rollback error).message)) :
    Accounts p outer turns (failed ++ failed') (pending + handled) (log ++ [entry]) stats messages where
  started := by
    rw [List.head?_append, h.started]
    rfl
  dispatches := by simp [hdispatch, h.dispatches]
  statements := by simp [hdispatch, h.statements]
  recovered := by rw [List.countP_append, hhandled, ← h.recovered, Nat.add_assoc]
  reported := by simp [hdebug, ← h.reported]
  texts := h.texts
  sqlStatements := h.sqlStatements
  rowsAffected := h.rowsAffected
  rollbacks := by rw [List.filter_append, List.map_append, h.rollbacks, hrollback, List.map_append]

/-- One more turn, with what its statement counts and collects itself. -/
theorem Accounts.turn (h : Accounts p outer turns failed 0 log stats messages) (t : Turn σ) :
    Accounts p outer (turns ++ [t]) failed 0
      (log ++ (Event.dispatched t.index t.statement.line t.statement.kind).entry ::
        t.debugText?.toList.map fun text => (Event.reported t.statement.line text).entry)
      { stats with
        statements := stats.statements + 1
        sqlStatements := stats.sqlStatements + t.result?.toList.length
        rowsAffected := stats.rowsAffected + (t.result?.toList.map QueryResult.rowsAffected).sum }
      (messages ++ t.debugText?.toList) where
  started := by
    rw [List.head?_append, h.started]
    rfl
  dispatches := by
    rw [List.filter_append, List.map_append, h.dispatches, List.map_append]
    cases t.debugText? <;> rfl
  statements := by
    rw [List.countP_append, ← h.statements]
    cases t.debugText? <;> rfl
  recovered := by
    rw [List.countP_append, ← h.recovered]
    cases t.debugText? <;> rfl
  reported := by
    rw [List.filter_append, List.map_append, ← h.reported]
    cases t.debugText? <;> simp [Event.entry, Event.Entry.isDebug]
  texts := by
    rw [List.filterMap_append, ← h.texts]
    cases hd : t.debugText? <;> simp [hd]
  sqlStatements := by
    rw [List.filterMap_append, List.length_append, ← h.sqlStatements]
    cases hr : t.result? <;> simp [hr]
  rowsAffected := by
    rw [List.filterMap_append, List.map_append, List.sum_append, ← h.rowsAffected]
    cases hr : t.result? <;> simp [hr]
  rollbacks := by
    rw [List.filter_append, List.map_append, h.rollbacks]
    cases t.debugText? <;> simp [Event.entry, Event.Entry.isRollbackWarning, Event.Entry.tells]

end

/-! ## States of a run -/

/-- The errors in the ledger of a machine. -/
def Machine.failedRollbacks (m : Machine (Ledger σ)) : List SqlError :=
  m.connection.elim [] Ledger.failedRollbacks

/-- What a machine has told, counted and collected, and what is in its ledger. -/
def Machine.books (m : Machine (Ledger σ)) :
    Array Event × Stats × Array String × List SqlError × Bool :=
  (m.events, m.stats, m.messages, m.failedRollbacks, m.connection.isSome)

/-- The books of a machine agree, and no entry says that the run has ended. -/
structure Machine.Balanced (p : Program) (outer connected : Bool) (turns : List (Turn (Ledger σ)))
    (pending : Nat) (m : Machine (Ledger σ)) : Prop
    extends Accounts p outer turns m.failedRollbacks pending m.log m.stats m.messages.toList where
  unfinished : ∀ entry ∈ m.log, entry.isEnd = false
  connected : m.connection.isSome = connected

namespace Machine

variable {p : Program} {outer connected : Bool} {turns : List (Turn (Ledger σ))} {pending : Nat}
  {m n : Machine (Ledger σ)}

omit [Connection σ] in
theorem books_emit (m : Machine (Ledger σ)) (e : Event) :
    (m.emit e).books = (m.books.1.push e, m.books.2) := rfl

omit [Connection σ] in
theorem books_note (m : Machine (Ledger σ)) (taken : Bool) : (m.note taken).books = m.books := by
  unfold note
  split <;> rfl

/-- Only a rollback is entered in a ledger. -/
theorem books_transact (m : Machine (Ledger σ)) {call : TransactionCall} (hcall : call ≠ .rollback) :
    (m.transact call).2.books = m.books := by
  unfold transact Machine.call
  split
  · rfl
  · next l hl =>
    have hentries : ∀ answer, Ledger.entries call answer = [] := by
      intro answer
      cases call with
      | rollback => exact absurd rfl hcall
      | begin | commit => rfl
    simp [books, failedRollbacks, hl, Connection.transact, hentries]

theorem books_execute (m : Machine (Ledger σ)) (sql : String) : (m.execute sql).2.books = m.books := by
  unfold execute Machine.call
  split
  · rfl
  · next l hl => simp [books, failedRollbacks, hl, Connection.execute]

theorem balanced_of_books {events : Array Event} {stats : Stats} {messages : Array String}
    {failed : List SqlError} (hbooks : n.books = (events, stats, messages, failed, connected))
    (haccounts : Accounts p outer turns failed pending (events.toList.map Event.entry) stats
      messages.toList)
    (hunfinished : ∀ entry ∈ events.toList.map Event.entry, entry.isEnd = false) :
    n.Balanced p outer connected turns pending := by
  simp only [books, Prod.mk.injEq] at hbooks
  obtain ⟨rfl, rfl, rfl, rfl, rfl⟩ := hbooks
  exact ⟨haccounts, hunfinished, rfl⟩

/-- Scopes are not accounted for, nor is the state of the connection. -/
theorem Balanced.congr (h : m.Balanced p outer connected turns pending) (hbooks : n.books = m.books) :
    n.Balanced p outer connected turns pending := by
  rw [books, books, h.connected] at hbooks
  exact balanced_of_books hbooks h.toAccounts h.unfinished

/-- Something is told that is no turn and no end. -/
theorem Balanced.tell (h : m.Balanced p outer connected turns pending) (e : Event) (handled : Nat)
    (failed : List SqlError)
    (hbooks : n.books = (m.events.push e, m.stats, m.messages, m.failedRollbacks ++ failed,
      m.connection.isSome))
    (hend : e.entry.isEnd = false) (hdispatch : e.entry.tells "dispatch" = false)
    (hdebug : e.entry.isDebug = false)
    (hhandled : [e.entry].countP (·.tells "statement failed; continuing at catch") = handled)
    (hrollback : ([e.entry].filter Event.Entry.isRollbackWarning).map (·.fields.lookup "error") =
      failed.map fun error => some (.text (Failure.transaction .rollback error).message)) :
    n.Balanced p outer connected turns (pending + handled) := by
  have hlog : (m.events.push e).toList.map Event.entry = m.log ++ [e.entry] := m.log_emit e
  rw [h.connected] at hbooks
  refine balanced_of_books hbooks ?_ ?_ <;> rw [hlog]
  · exact h.toAccounts.tell handled failed hdispatch hdebug hhandled hrollback
  · exact List.forall_mem_append.2 ⟨h.unfinished, by simpa using hend⟩

theorem Balanced.conditionFailed (h : m.Balanced p outer connected turns pending) (line : Nat)
    (error : SqlError) : (m.emit (.conditionFailed line error)).Balanced p outer connected turns pending :=
  h.tell (.conditionFailed line error) 0 []
    (by simp [books, emit, failedRollbacks]) rfl rfl rfl rfl rfl

theorem Balanced.decided (h : m.Balanced p outer connected turns pending) (line : Nat)
    (member : Directive) (taken : Bool) :
    (m.emit (.decided line member taken)).Balanced p outer connected turns pending := by
  refine h.tell (.decided line member taken) 0 []
    (by simp [books, emit, failedRollbacks]) ?_ ?_ ?_ ?_ ?_ <;> cases member <;> rfl

theorem Balanced.handled (h : m.Balanced p outer connected turns pending) (failure : Failure) (line : Nat) :
    (m.emit (.handled failure line)).Balanced p outer connected turns (pending + 1) :=
  h.tell (.handled failure line) 1 []
    (by simp [books, emit, failedRollbacks]) rfl rfl rfl rfl rfl

/-! ## Calls -/

theorem Balanced.transact (h : m.Balanced p outer connected turns pending) (call : TransactionCall)
    (hcall : call ≠ .rollback) : (m.transact call).2.Balanced p outer connected turns pending :=
  h.congr (m.books_transact hcall)

theorem Balanced.execute (h : m.Balanced p outer connected turns pending) (sql : String) :
    (m.execute sql).2.Balanced p outer connected turns pending :=
  h.congr (m.books_execute sql)

/-- A rollback enters its error, if it has one. -/
theorem rollback_cases {l : Ledger σ} (hl : m.connection = some l) :
    (m.transact .rollback).1 = .ok () ∧ (m.transact .rollback).2.books = m.books ∨
    ∃ error, (m.transact .rollback).1 = .error (.transaction .rollback error) ∧
      (m.transact .rollback).2.books =
        (m.events, m.stats, m.messages, m.failedRollbacks ++ [error], m.connection.isSome) := by
  rcases hq : Connection.transact .rollback l.connection with ⟨error | _, c⟩
  · refine .inr ⟨error, ?_, ?_⟩
    · simp [Machine.transact, call, hl, Connection.transact, hq, Except.mapError]
    · simp [Machine.transact, call, hl, Connection.transact, hq, books, failedRollbacks, Ledger.entries]
  · refine .inl ⟨?_, ?_⟩
    · simp [Machine.transact, call, hl, Connection.transact, hq, Except.mapError]
    · simp [Machine.transact, call, hl, Connection.transact, hq, books, failedRollbacks, Ledger.entries]

/-- A rollback that succeeds is not told of; for one that fails it is told once, in either way. -/
theorem Balanced.rollback (h : m.Balanced p outer connected turns pending)
    (hm : m.connection.isSome = true) :
    (∃ n, m.transact .rollback = (.ok (), n) ∧ n.Balanced p outer connected turns pending) ∨
    ∃ failure n, m.transact .rollback = (.error failure, n) ∧ ∀ cause,
      (n.emit (.rollbackFailed failure cause)).Balanced p outer connected turns pending ∧
      (n.emit (.unwindingFailed failure cause)).Balanced p outer connected turns pending := by
  obtain ⟨l, hl⟩ := Option.isSome_iff_exists.1 hm
  rcases rollback_cases hl with ⟨hanswer, hbooks⟩ | ⟨error, hanswer, hbooks⟩
  · exact .inl ⟨_, Prod.ext hanswer rfl, h.congr hbooks⟩
  · refine .inr ⟨_, _, Prod.ext hanswer rfl, fun cause => ?_⟩
    have hemit : ∀ e, ((m.transact .rollback).2.emit e).books =
        (m.events.push e, m.stats, m.messages, m.failedRollbacks ++ [error], m.connection.isSome) :=
      fun e => by rw [books_emit, hbooks]
    exact ⟨h.tell _ 0 [error] (hemit _) rfl rfl rfl rfl rfl,
      h.tell _ 0 [error] (hemit _) rfl rfl rfl rfl rfl⟩

theorem Balanced.rollbackAfter (h : m.Balanced p outer connected turns pending)
    (hm : m.connection.isSome = true) (cause : Failure) :
    (m.rollbackAfter cause).Balanced p outer connected turns pending := by
  rw [Machine.rollbackAfter]
  rcases h.rollback hm with ⟨n, hq, hn⟩ | ⟨failure, n, hq, hn⟩ <;> rw [hq]
  · exact hn
  · exact (hn cause).1

theorem Balanced.commit (h : m.Balanced p outer connected turns pending)
    (hm : m.connection.isSome = true) : m.commit.2.Balanced p outer connected turns pending := by
  have hcommit := h.transact .commit (by decide)
  rw [Machine.commit]
  rcases hq : m.transact .commit with ⟨failure | _, n⟩ <;> rw [hq] at hcommit
  -- a transaction that cannot be committed is rolled back
  · exact hcommit.rollbackAfter (hcommit.connected.trans (h.connected.symm.trans hm)) failure
  · exact hcommit

theorem Balanced.evaluate (h : m.Balanced p outer connected turns pending) (line : Nat)
    (condition : String) : (m.evaluate line condition).2.Balanced p outer connected turns pending := by
  have hexecute := h.execute condition
  rw [Machine.evaluate]
  cases Literal.truth? condition with
  | some b => exact h
  | none =>
    rcases hq : m.execute condition with ⟨(error | ⟨call, error⟩ | _) | result, n⟩ <;>
      rw [hq] at hexecute
    · exact hexecute.conditionFailed line error
    all_goals exact hexecute

theorem Balanced.branch (h : m.Balanced p outer connected turns pending) {member : Directive}
    {s : Statement} {pc target : Nat} {enter : Bool → Machine (Ledger σ) → Machine (Ledger σ)}
    (henter : ∀ taken n, (enter taken n).books = n.books) :
    (m.branch member s pc target enter).2.Balanced p outer connected turns pending := by
  have hevaluate := h.evaluate s.line s.text
  rw [Machine.branch]
  rcases hq : m.evaluate s.line s.text with ⟨failure | taken, n⟩ <;> rw [hq] at hevaluate
  · exact hevaluate
  · exact (hevaluate.decided s.line member taken).congr (henter taken _)

theorem balanced_goOn {next : Nat} {after : Machine (Ledger σ) → Machine (Ledger σ)}
    {r : Except Failure Unit × Machine (Ledger σ)} (hafter : ∀ n, (after n).books = n.books)
    (h : r.2.Balanced p outer connected turns pending) :
    (goOn next after r).2.Balanced p outer connected turns pending := by
  obtain ⟨failure | _, n⟩ := r
  · exact h
  · exact h.congr (hafter n)

/-! ## Statements -/

/-- A directive other than `debug`, in the scopes that it is prepared for. -/
theorem Balanced.direct (h : m.Balanced p outer connected turns pending) {s : Statement}
    (hprepared : Program.Prepared s m.scopes)
    (hlinked : true ∈ holding m.scopes → m.connection.isSome = true) {x : Directive}
    (hs : s.kind = .directive x) (hx : x ≠ .debug) (pc target : Nat) :
    (m.direct x s pc target).2.Balanced p outer connected turns pending := by
  have hcommit : m.connection.isSome = true →
      m.leave.commit.2.Balanced p outer connected turns pending :=
    fun hm => (h.congr (n := m.leave) rfl).commit hm
  cases x with
  | debug => exact absurd rfl hx
  | ifThen =>
    simp only [Machine.direct]
    exact h.branch fun _ _ => rfl
  | attempt => exact h.congr rfl
  | attemptTransaction | beginTransaction =>
    simp only [Machine.direct]
    exact balanced_goOn (fun _ => rfl) (h.transact .begin (by decide))
  | elseIf =>
    simp only [Machine.direct]
    split
    · exact h
    · exact h.branch fun taken n => books_note n taken
  | otherwise =>
    simp only [Machine.direct]
    split
    · exact h
    · exact h.congr (books_note m true)
  | endIf | handler =>
    simp only [Machine.direct]
    split <;> exact h.congr rfl
  | endAttempt =>
    simp only [Machine.direct]
    split
    · next hscopes =>
      exact balanced_goOn (fun _ => rfl) (hcommit (hlinked (by simp [hscopes, Scope.holds])))
    · exact h.congr rfl
  | endTransaction =>
    obtain ⟨scopes, hscopes⟩ := hprepared.transaction hs
    simp only [Machine.direct, hscopes]
    exact balanced_goOn (fun _ => rfl) (hcommit (hlinked (by simp [hscopes, Scope.holds])))

/-- Leaving scopes enters a handler, or none. -/
theorem Balanced.unwind (h : m.Balanced p outer connected turns 0) (failure : Failure)
    {scopes : List Scope} (hlinked : true ∈ holding scopes → m.connection.isSome = true) :
    (Machine.unwind p failure m scopes).2.Balanced p outer connected turns
      (if (Machine.unwind p failure m scopes).1.isOk then 1 else 0) := by
  induction scopes generalizing failure m with
  | nil => exact h.congr rfl
  | cons scope rest ih =>
    have hrest : ∀ {n : Machine (Ledger σ)}, n.Balanced p outer connected turns 0 →
        true ∈ holding rest → n.connection.isSome = true := fun hn hmem => by
      rw [hn.connected, ← h.connected]
      exact hlinked (List.mem_cons_of_mem _ hmem)
    have hhandle : ∀ {n : Machine (Ledger σ)} (transactional : Bool) (handler : Nat),
        n.Balanced p outer connected turns 0 →
        (n.handle p failure transactional handler rest).2.Balanced p outer connected turns 1 :=
      fun {n} transactional handler hn =>
        (hn.congr (n := { n with scopes := .attempt transactional handler true :: rest }) rfl).handled
          failure _
    have hrollback : scope.holds = true → _ := fun hholds =>
      h.rollback (hlinked (by simp [hholds]))
    -- a chain; an attempt, without a transaction or with one, in its body or in its handler; a transaction
    rcases scope with _ | ⟨_ | _, handler, _ | _⟩ | _
    · exact ih h failure (hrest h)
    · exact hhandle false handler h
    · exact ih h failure (hrest h)
    · rw [Machine.unwind]
      rcases hrollback rfl with ⟨n, hq, hn⟩ | ⟨error, n, hq, hn⟩ <;> rw [hq]
      · exact hhandle true handler hn
      · exact ih (hn failure).2 error (hrest (hn failure).2)
    · exact ih h failure (hrest h)
    · rw [Machine.unwind]
      rcases hrollback rfl with ⟨n, hq, hn⟩ | ⟨error, n, hq, hn⟩ <;> rw [hq]
      · exact ih hn failure (hrest hn)
      · exact ih (hn failure).2 error (hrest (hn failure).2)

/-- A statement is dispatched, with what it counts and collects itself. -/
theorem Balanced.turn (h : m.Balanced p outer connected turns 0) {t : Turn (Ledger σ)}
    (hbooks : n.books = (
      m.events.push (.dispatched t.index t.statement.line t.statement.kind) ++
        (t.debugText?.toList.map (Event.reported t.statement.line)).toArray,
      { m.stats with
        statements := m.stats.statements + 1
        sqlStatements := m.stats.sqlStatements + t.result?.toList.length
        rowsAffected := m.stats.rowsAffected + (t.result?.toList.map QueryResult.rowsAffected).sum },
      m.messages ++ t.debugText?.toList.toArray, m.failedRollbacks, m.connection.isSome)) :
    n.Balanced p outer connected (turns ++ [t]) 0 := by
  have hlog : (m.events.push (.dispatched t.index t.statement.line t.statement.kind) ++
      (t.debugText?.toList.map (Event.reported t.statement.line)).toArray).toList.map Event.entry =
        m.log ++ (Event.dispatched t.index t.statement.line t.statement.kind).entry ::
          t.debugText?.toList.map fun text => (Event.reported t.statement.line text).entry := by
    simp [log, Function.comp_def]
  rw [h.connected] at hbooks
  refine balanced_of_books hbooks ?_ ?_ <;> rw [hlog]
  · rw [Array.toList_append]
    exact h.toAccounts.turn t
  · refine List.forall_mem_append.2 ⟨h.unfinished, List.forall_mem_cons.2 ⟨rfl, ?_⟩⟩
    exact List.forall_mem_map.2 fun text _ => rfl

/-- What a query counts is its result, if it has one. -/
theorem books_query (m : Machine (Ledger σ)) (sql : String) :
    let result? := m.connection.bind fun c => (Connection.execute sql c).1.toOption
    (m.query sql).2.books = (m.events,
      { m.stats with
        sqlStatements := m.stats.sqlStatements + result?.toList.length
        rowsAffected := m.stats.rowsAffected + (result?.toList.map QueryResult.rowsAffected).sum },
      m.messages, m.failedRollbacks, m.connection.isSome) := by
  intro result?
  cases hm : m.connection with
  | none => simp [query, Machine.execute, call, hm, books, failedRollbacks, result?]
  | some l =>
    have hexecute : Connection.execute sql l = ((Connection.execute sql l.connection).1,
        { l with connection := (Connection.execute sql l.connection).2 }) := rfl
    cases hq : (Connection.execute sql l.connection).1 <;>
      simp [query, Machine.execute, call, hm, hexecute, hq, books, failedRollbacks, result?,
        Except.mapError, Except.toOption]

/-- One statement, before it is known whether its failure is handled. -/
theorem Balanced.step (h : m.Balanced p outer connected turns 0) {s : Statement}
    (hprepared : Program.Prepared s m.scopes)
    (hlinked : true ∈ holding m.scopes → m.connection.isSome = true) (pc : Nat) :
    (m.countStatement.step p pc s).2.Balanced p outer connected (turns ++ [⟨pc, s, m⟩]) 0 := by
  let t : Turn (Ledger σ) := ⟨pc, s, m⟩
  rw [Machine.step]
  cases hs : s.kind with
  | sql =>
    have hdebug : t.debugText? = none := by simp [t, Turn.debugText?, hs]
    refine balanced_goOn (fun _ => rfl) (h.turn (t := t) ?_)
    rw [books_query, hdebug]
    simp [t, Turn.result?, hs, countStatement, emit, failedRollbacks]
  | invalid =>
    refine h.turn (t := t) ?_
    simp [t, Turn.debugText?, Turn.result?, hs, books, countStatement, emit, failedRollbacks]
  | directive x =>
    by_cases hx : x = .debug
    · subst hx
      refine h.turn (t := t) ?_
      simp [t, Turn.debugText?, Turn.result?, hs, books, countStatement, emit, failedRollbacks,
        Machine.direct]
    · have hturn : (m.countStatement.emit (.dispatched pc s.line (.directive x))).Balanced p outer
          connected (turns ++ [t]) 0 := by
        refine h.turn ?_
        simp [t, Turn.debugText?, Turn.result?, hs, hx, books, countStatement, emit, failedRollbacks]
      exact hturn.direct hprepared hlinked hs hx pc _

theorem Balanced.countRecovered (h : m.Balanced p outer connected turns 1) :
    m.countRecovered.Balanced p outer connected turns 0 :=
  { h with recovered := h.recovered }

/-- One turn of the loop. -/
theorem Balanced.dispatch (h : m.Balanced p outer connected turns 0) (hnested : p.Nested) {pc : Nat}
    (hfits : p.Fits pc m.scopes) (hlinked : true ∈ holding m.scopes → m.connection.isSome = true)
    {s : Statement} (hget : p.get? pc = some s) :
    (m.dispatch p pc s).2.Balanced p outer connected (turns ++ [⟨pc, s, m⟩]) 0 := by
  have hstep := h.step (hnested.prepared hfits hget) hlinked pc
  have heffect := effect_step (m := m.countStatement) hnested hfits hget
  rw [Machine.dispatch]
  rcases hq : m.countStatement.step p pc s with ⟨failure | next, n⟩ <;> rw [hq] at hstep heffect
  -- the statement may have begun or ended a transaction before it failed
  · have hlinked' : true ∈ holding n.scopes → n.connection.isSome = true :=
      fun hmem => heffect.isSome_eq.trans (heffect.linked hlinked hmem)
    have hunwind := hstep.unwind failure hlinked'
    dsimp only
    rcases hu : Machine.unwind p failure n n.scopes with ⟨failure' | handler, n'⟩ <;> rw [hu] at hunwind
    · exact hunwind
    · exact hunwind.countRecovered
  · exact hstep

/-- The loop of a run. -/
theorem Balanced.runFrom (h : m.Balanced p outer connected turns 0) (hnested : p.Nested)
    {connection : Option (Ledger σ)} {pc : Nat} (harrives : p.Arrives outer connection m pc)
    (fuel : Nat) :
    (runFrom p fuel m pc).2.Balanced p outer connected (turns ++ turnsFrom p fuel m pc) 0 := by
  induction fuel generalizing m pc turns with
  | zero => simpa [Machine.runFrom, turnsFrom] using h
  | succ fuel ih =>
    unfold Machine.runFrom turnsFrom
    cases hget : p.get? pc with
    | none => simpa using h
    | some s =>
      have hdispatch := h.dispatch hnested (harrives.fits hnested).2 (harrives.linked hnested) hget
      simp only [Turn.after]
      rcases hq : m.dispatch p pc s with ⟨failure | next, n⟩ <;> rw [hq] at hdispatch
      · exact hdispatch
      · have hrest := ih hdispatch (harrives.next hget hq)
        rwa [List.append_assoc, List.singleton_append] at hrest

/-- A run begins with nothing but its first event. -/
theorem balanced_start (p : Program) (outer : Bool) (connection : Option σ) :
    (Machine.emit { connection := connection.map Ledger.start } (.started p.size outer)).Balanced p outer
      connection.isSome [] 0 := by
  refine ⟨?_, by simp [log, emit, Event.entry, Event.Entry.isEnd, Event.Entry.tells], ?_⟩
  · cases connection <;> exact ⟨rfl, rfl, rfl, rfl, rfl, rfl, rfl, rfl, rfl⟩
  · cases connection <;> rfl

/-! ## Whole runs -/

theorem Balanced.succeed (h : m.Balanced p outer connected turns 0) :
    m.succeed.Accounted p outer turns m.failedRollbacks := by
  have hlog : m.succeed.log = m.log ++ [_] := m.log_emit _
  refine ⟨?_, _, _, hlog, h.unfinished, .inl ⟨rfl, rfl⟩⟩
  rw [hlog, ← List.append_nil m.failedRollbacks]
  exact h.toAccounts.tell 0 [] rfl rfl rfl rfl

theorem Balanced.halt (h : m.Balanced p outer connected turns 0) (failure : Failure)
    (statement : String) :
    (m.halt failure statement).Accounted p outer turns m.failedRollbacks := by
  have hlog : (m.halt failure statement).log = m.log ++ [_] := m.log_emit _
  refine ⟨?_, _, _, hlog, h.unfinished, .inr ⟨failure, rfl, rfl, rfl⟩⟩
  rw [hlog, ← List.append_nil m.failedRollbacks]
  exact h.toAccounts.tell 0 [] rfl rfl rfl rfl

/-- The loop, and the end of the run behind it. -/
theorem Balanced.runBare (h : m.Balanced p outer connected [] 0) (hnested : p.Nested)
    {connection : Option (Ledger σ)} (harrives : p.Arrives outer connection m 0) (marker : String) :
    (m.runBare p marker).Accounted p outer (m.turns p 0)
      ((m.runBare p marker).connection.elim [] Ledger.failedRollbacks) := by
  have hloop := h.runFrom hnested harrives p.size
  unfold Machine.runBare runAll
  rcases hq : Machine.runFrom p p.size m 0 with ⟨⟨failure, s⟩ | _, n⟩ <;> rw [hq] at hloop
  · exact hloop.halt failure _
  · exact hloop.succeed

/-- The same inside a transaction that has been begun. -/
theorem Balanced.runEnclosed (h : m.Balanced p outer connected [] 0) (hnested : p.Nested)
    {connection : Option (Ledger σ)} (hbegin : m.transact .begin = (.ok (), n))
    (harrives : p.Arrives outer connection n 0) (marker : String) :
    (m.runEnclosed p marker).Accounted p outer (n.turns p 0)
      ((m.runEnclosed p marker).connection.elim [] Ledger.failedRollbacks) := by
  have hn : n.Balanced p outer connected [] 0 := by
    have htransact := h.transact .begin (by decide)
    rwa [hbegin] at htransact
  -- without a connection the transaction could not have been begun
  have hconnected : connected = true := by
    have hanswers := m.answers_transact .begin
    rw [hbegin] at hanswers
    exact h.connected.symm.trans hanswers.isSome
  have hloop := hn.runFrom hnested harrives p.size
  unfold Machine.runEnclosed runAll
  rw [hbegin]
  dsimp only
  rcases hq : Machine.runFrom p p.size n 0 with ⟨⟨failure, s⟩ | _, n'⟩ <;> rw [hq] at hloop
  · exact (hloop.rollbackAfter (hloop.connected.trans hconnected) failure).halt failure _
  · have hcommit := hloop.commit (hloop.connected.trans hconnected)
    dsimp only
    rcases hc : n'.commit with ⟨failure | _, n''⟩ <;> rw [hc] at hcommit
    · exact hcommit.halt failure ""
    · exact hcommit.succeed

end Machine

namespace Program

theorem accounted_run_ledger {p : Program} (hnested : p.Nested) (hexecutable : p.executable = true)
    (marker : String) (outer : Bool) (connection : Option σ) :
    (p.run marker outer (connection.map Ledger.start)).Accounted p outer
      (p.turns outer (connection.map Ledger.start)) (p.failedRollbacks marker outer connection) := by
  have hstart := Machine.balanced_start p outer connection
  unfold failedRollbacks run turns
  simp only [hexecutable, if_true]
  cases outer with
  | false => exact hstart.runBare hnested (.bare rfl) marker
  | true =>
    simp only [if_true]
    generalize hm : Machine.emit { connection := connection.map Ledger.start } (.started p.size true) = m
      at hstart
    rcases hbegin : m.transact .begin with ⟨failure | _, n⟩
    · have hbalanced := hstart.transact .begin (by decide)
      rw [hbegin] at hbalanced
      unfold Machine.runEnclosed
      rw [hbegin]
      exact hbalanced.halt failure ""
    · exact hstart.runEnclosed hnested hbegin (.enclosed rfl (hm ▸ hbegin)) marker

end Program

/-! ## Over the connection itself -/

variable {p : Program} {outer : Bool}

theorem Turn.result?_map (t : Turn (Ledger σ)) : (t.map Ledger.connection).result? = t.result? := by
  unfold Turn.result?
  cases hc : t.before.connection <;> simp [Turn.map, Machine.map, hc, Connection.execute]

theorem Turn.filterMap_result?_map (turns : List (Turn (Ledger σ))) :
    (turns.map (Turn.map Ledger.connection)).filterMap Turn.result? = turns.filterMap Turn.result? := by
  rw [List.filterMap_map]
  exact List.filterMap_congr fun t _ => t.result?_map

/-- What is accounted for over a ledger is accounted for over its connection. -/
theorem Run.Accounted.map {turns : List (Turn (Ledger σ))} {failedRollbacks : List SqlError}
    {run : Run (Ledger σ)} (h : run.Accounted p outer turns failedRollbacks) :
    (run.map Ledger.connection).Accounted p outer (turns.map (Turn.map Ledger.connection))
      failedRollbacks where
  started := h.started
  dispatches := by
    rw [List.map_map]
    exact h.dispatches
  statements := h.statements
  recovered := h.recovered
  reported := h.reported
  texts := by
    rw [List.filterMap_map]
    exact h.texts
  sqlStatements := by
    rw [Turn.filterMap_result?_map]
    exact h.sqlStatements
  rowsAffected := by
    rw [Turn.filterMap_result?_map]
    exact h.rowsAffected
  rollbacks := h.rollbacks
  ended := h.ended

/-- The log of a run that is executed accounts for it exactly. -/
theorem run_accounts_for_itself {d : Dialect} {fragments : List Fragment}
    (hexecutable : (Program.assemble d fragments).executable = true) (marker : String) (outer : Bool)
    (connection : Option σ) :
    let p := Program.assemble d fragments
    (p.run marker outer connection).Accounted p outer (p.turns outer connection)
      (p.failedRollbacks marker outer connection) := by
  intro p
  have hnested : p.Nested := Program.nested_assemble (Program.executable_assemble_iff.1 hexecutable)
  have hledger := (Program.accounted_run_ledger hnested hexecutable marker outer connection).map
  rwa [← Program.run_map Ledger.preserves_connection, ← Program.turns_map Ledger.preserves_connection,
    Ledger.map_start] at hledger

/-- A statement fails, and then the rollback of the attempt around it; the outer attempt handles that. -/
theorem failed_rollback_is_accounted_for :
    let ts : List Tree := [.attempt false ⟨"", "--try", 1⟩
      [.attempt true ⟨"", "--trytransaction", 2⟩ [.sql ⟨"A", "A", 3⟩] ⟨"", "--catch", 4⟩ []
        ⟨"", "--endtry", 5⟩]
      ⟨"", "--catch", 6⟩ [.debug ⟨"lost", "--debug lost", 7⟩, .sql ⟨"B", "B", 8⟩] ⟨"", "--endtry", 9⟩]
    let p := Program.assemble {} (Tree.flattenAll ts)
    let refused := SqlError.statement (-204) "A failed"
    let lost := SqlError.transaction "lost"
    let r : Rehearsal := { statements := [(1, .error refused)]
                           transactions := fun call => if call = .rollback then [(1, .error lost)] else [] }
    p.executable = true ∧ p.failedRollbacks "--" false (some r) = [lost] ∧
      (p.run "--" false (some r)).report.stats = ⟨7, 1, 1, 1⟩ ∧
      (p.run "--" false (some r)).Accounted p false (p.turns false (some r))
        (p.failedRollbacks "--" false (some r)) := by
  intro ts p refused lost r
  have hexecutable : p.executable = true := by decide
  exact ⟨hexecutable, by decide +kernel, by decide +kernel,
    run_accounts_for_itself hexecutable "--" false (some r)⟩

end SqlFlow
