import SqlFlow.Proofs.Run.Scopes

/-!
# Progress of a run

A run never goes back, so it dispatches no statement twice and comes to an end.

* `Machine.tally`: the statements that a machine has dispatched, by their indices, and how many it has
  counted. `tally_step` and `tally_dispatch`: one statement adds one to both; nothing else adds to
  either.
* `Machine.Loop`: the loop of a run with no bound on the number of its turns, as far as it ends.
  `Loop.unique`: it ends in one way at most.
* `exists_loop_runFrom`: it does end, and a bound of as many turns as there are statements left does
  not change what it ends in.
* `Loop.ascends`, `Loop.tally`: the statements that it dispatches are further and further down, and are
  those that the events tell of.
-/

namespace SqlFlow

/-- The statement that an event tells of, if one is dispatched. -/
def Event.index? : Event → Option Nat
  | .dispatched index _ _ => some index
  | _ => none

/-- The statements that the events tell of, in order. -/
def indicesOf (events : Array Event) : List Nat := events.toList.filterMap Event.index?

/-- The statements that a run has dispatched, and the number of statements in its report. -/
def Run.tally {σ : Type} (r : Run σ) : List Nat × Nat := (indicesOf r.events, r.report.stats.statements)

namespace Machine

variable {σ : Type}

/-- The statements that have been dispatched, and the number of statements counted. -/
def tally (m : Machine σ) : List Nat × Nat := (indicesOf m.events, m.stats.statements)

section

variable (m : Machine σ)

theorem tally_emit {e : Event} (he : e.index? = none) : (m.emit e).tally = m.tally := by
  simp [tally, emit, indicesOf, he]

theorem tally_emit_dispatched (pc line : Nat) (kind : StatementKind) :
    (m.emit (.dispatched pc line kind)).tally = (m.tally.1 ++ [pc], m.tally.2) := by
  simp [tally, emit, indicesOf, Event.index?]

@[simp] theorem tally_enter (s : Scope) : (m.enter s).tally = m.tally := rfl

@[simp] theorem tally_leave : m.leave.tally = m.tally := rfl

@[simp] theorem tally_note (taken : Bool) : (m.note taken).tally = m.tally := by
  unfold note
  split <;> rfl

theorem tally_countStatement : m.countStatement.tally = (m.tally.1, m.tally.2 + 1) := rfl

@[simp] theorem tally_countRecovered : m.countRecovered.tally = m.tally := rfl

theorem tally_halt (failure : Failure) (statement : String) :
    (m.halt failure statement).tally = m.tally :=
  m.tally_emit rfl

theorem tally_succeed : m.succeed.tally = m.tally := m.tally_emit rfl

theorem tally_call {α : Type} (toFailure : SqlError → Failure) (f : σ → Except SqlError α × σ) :
    (m.call toFailure f).2.tally = m.tally := by
  rw [call]
  split <;> rfl

variable [Connection σ]

theorem tally_transact (c : TransactionCall) : (m.transact c).2.tally = m.tally := m.tally_call _ _

theorem tally_execute (sql : String) : (m.execute sql).2.tally = m.tally := m.tally_call _ _

theorem tally_rollbackAfter (cause : Failure) : (m.rollbackAfter cause).tally = m.tally := by
  have htransact := m.tally_transact .rollback
  rw [rollbackAfter]
  rcases hq : m.transact .rollback with ⟨failure | _, n⟩ <;> rw [hq] at htransact
  · exact (n.tally_emit rfl).trans htransact
  · exact htransact

theorem tally_commit : m.commit.2.tally = m.tally := by
  have htransact := m.tally_transact .commit
  rw [commit]
  rcases hq : m.transact .commit with ⟨failure | _, n⟩ <;> rw [hq] at htransact
  · exact (n.tally_rollbackAfter failure).trans htransact
  · exact htransact

theorem tally_evaluate (line : Nat) (condition : String) :
    (m.evaluate line condition).2.tally = m.tally := by
  have hexecute := m.tally_execute condition
  rw [evaluate]
  cases Literal.truth? condition with
  | some b => rfl
  | none =>
    rcases hq : m.execute condition with ⟨(error | ⟨call, error⟩ | _) | result, n⟩ <;>
      rw [hq] at hexecute
    · exact (n.tally_emit rfl).trans hexecute
    all_goals exact hexecute

theorem tally_query (sql : String) : (m.query sql).2.tally = m.tally := by
  have hexecute := m.tally_execute sql
  rw [query]
  rcases hq : m.execute sql with ⟨failure | result, n⟩ <;> rw [hq] at hexecute
  all_goals exact hexecute

theorem tally_branch {member : Directive} {s : Statement} {pc target : Nat}
    {enter : Bool → Machine σ → Machine σ} (henter : ∀ taken n, (enter taken n).tally = n.tally) :
    (m.branch member s pc target enter).2.tally = m.tally := by
  have hevaluate := m.tally_evaluate s.line s.text
  rw [branch]
  rcases hq : m.evaluate s.line s.text with ⟨failure | taken, n⟩ <;> rw [hq] at hevaluate
  · exact hevaluate
  · exact (henter taken _).trans ((n.tally_emit rfl).trans hevaluate)

end

theorem tally_goOn {m : Machine σ} {next : Nat} {after : Machine σ → Machine σ}
    {r : Except Failure Unit × Machine σ} (hafter : ∀ n, (after n).tally = n.tally)
    (hr : r.2.tally = m.tally) : (goOn next after r).2.tally = m.tally := by
  obtain ⟨failure | _, n⟩ := r
  · exact hr
  · exact (hafter n).trans hr

variable [Connection σ]

/-- A directive dispatches nothing itself. -/
theorem tally_direct (m : Machine σ) (x : Directive) (s : Statement) (pc target : Nat) :
    (m.direct x s pc target).2.tally = m.tally := by
  have htransact := fun c => m.tally_transact c
  have hcommit : ∀ n : Machine σ, n.tally = m.tally → n.commit.2.tally = m.tally :=
    fun n hn => n.tally_commit.trans hn
  cases x with
  | debug => exact m.tally_emit rfl
  | ifThen =>
    simp only [direct]
    exact m.tally_branch fun _ _ => rfl
  | attempt => rfl
  | attemptTransaction | beginTransaction =>
    simp only [direct]
    exact tally_goOn (fun _ => rfl) (htransact .begin)
  | elseIf =>
    simp only [direct]
    split
    · rfl
    · exact m.tally_branch fun taken n => n.tally_note taken
  | otherwise =>
    simp only [direct]
    split
    · rfl
    · exact m.tally_note true
  | endIf | handler =>
    simp only [direct]
    split <;> rfl
  | endAttempt =>
    simp only [direct]
    split
    · exact tally_goOn (fun _ => rfl) (hcommit _ rfl)
    · rfl
  | endTransaction =>
    simp only [direct]
    split <;> exact tally_goOn (fun _ => rfl) (hcommit _ rfl)

theorem tally_step (p : Program) (m : Machine σ) (pc : Nat) (s : Statement) :
    (m.step p pc s).2.tally = (m.tally.1 ++ [pc], m.tally.2) := by
  rw [← m.tally_emit_dispatched pc s.line s.kind, step]
  cases s.kind with
  | sql => exact tally_goOn (fun _ => rfl) (tally_query _ _)
  | directive x => exact tally_direct _ x s pc _
  | invalid => rfl

/-- Leaving scopes dispatches nothing. -/
theorem tally_unwind (p : Program) (failure : Failure) (m : Machine σ) (scopes : List Scope) :
    (unwind p failure m scopes).2.tally = m.tally := by
  have hhandle : ∀ (n : Machine σ) (failure : Failure) transactional handler outer,
      (n.handle p failure transactional handler outer).2.tally = n.tally :=
    fun n _ _ _ _ => tally_emit { n with scopes := _ } rfl
  induction scopes generalizing failure m with
  | nil => rfl
  | cons scope outer ih =>
    have hrollback := m.tally_transact .rollback
    -- a chain; an attempt, without a transaction or with one, in its body or in its handler; a transaction
    rcases scope with _ | ⟨_ | _, handler, _ | _⟩ | _
    · exact ih failure m
    · exact hhandle m failure false handler outer
    · exact ih failure m
    · rw [unwind]
      rcases hq : m.transact .rollback with ⟨error | _, n⟩ <;> rw [hq] at hrollback
      · exact (ih error _).trans ((n.tally_emit rfl).trans hrollback)
      · exact (hhandle n failure true handler outer).trans hrollback
    · exact ih failure m
    · rw [unwind]
      rcases hq : m.transact .rollback with ⟨error | _, n⟩ <;> rw [hq] at hrollback
      · exact (ih error _).trans ((n.tally_emit rfl).trans hrollback)
      · exact (ih failure n).trans hrollback

theorem tally_dispatch (p : Program) (m : Machine σ) (pc : Nat) (s : Statement) :
    (m.dispatch p pc s).2.tally = (m.tally.1 ++ [pc], m.tally.2 + 1) := by
  have hstep := tally_step p m.countStatement pc s
  rw [m.tally_countStatement] at hstep
  rw [dispatch]
  rcases hq : m.countStatement.step p pc s with ⟨failure | next, n⟩ <;> rw [hq] at hstep
  · have hunwind := tally_unwind p failure n n.scopes
    dsimp only
    rcases hu : unwind p failure n n.scopes with ⟨failure' | handler, n'⟩ <;> rw [hu] at hunwind
    all_goals exact hunwind.trans hstep
  · exact hstep

/-! ## The loop without a bound -/

/-- From index `pc` statements are dispatched as long as there is one to go on with; it is those with
the indices `visited`, and `r` is what it comes to. -/
inductive Loop (p : Program) : Machine σ → (pc : Nat) → (visited : List Nat) →
    (r : Except (Failure × Statement) Unit × Machine σ) → Prop where
  | done {m : Machine σ} {pc : Nat} (hget : p.get? pc = none) : Loop p m pc [] (.ok (), m)
  | onward {m m' : Machine σ} {pc next : Nat} {s : Statement} {visited : List Nat}
      {r : Except (Failure × Statement) Unit × Machine σ} (hget : p.get? pc = some s)
      (hdispatch : m.dispatch p pc s = (.ok next, m')) (rest : Loop p m' next visited r) :
      Loop p m pc (pc :: visited) r
  | failed {m m' : Machine σ} {pc : Nat} {s : Statement} {failure : Failure}
      (hget : p.get? pc = some s) (hdispatch : m.dispatch p pc s = (.error failure, m')) :
      Loop p m pc [pc] (.error (failure, s), m')

namespace Loop

variable {p : Program} {m : Machine σ} {pc : Nat} {visited visited' : List Nat}
  {r r' : Except (Failure × Statement) Unit × Machine σ}

theorem unique (h : Loop p m pc visited r) (h' : Loop p m pc visited' r') :
    visited = visited' ∧ r = r' := by
  -- `dispatch` is a function, so both loops take the same turn
  induction h generalizing visited' r' with
  | done hget => cases h' <;> simp_all
  | onward hget hdispatch _ ih =>
    cases h' with
    | done hget' => simp [hget] at hget'
    | onward hget' hdispatch' rest' =>
      obtain rfl := Option.some.inj (hget.symm.trans hget')
      obtain ⟨rfl, rfl⟩ : _ ∧ _ := by simpa using hdispatch.symm.trans hdispatch'
      obtain ⟨rfl, rfl⟩ := ih rest'
      exact ⟨rfl, rfl⟩
    | failed hget' hdispatch' =>
      obtain rfl := Option.some.inj (hget.symm.trans hget')
      simp [hdispatch] at hdispatch'
  | failed hget hdispatch =>
    cases h' with
    | done hget' => simp [hget] at hget'
    | onward hget' hdispatch' rest' =>
      obtain rfl := Option.some.inj (hget.symm.trans hget')
      simp [hdispatch] at hdispatch'
    | failed hget' hdispatch' =>
      obtain rfl := Option.some.inj (hget.symm.trans hget')
      obtain ⟨rfl, rfl⟩ : _ ∧ _ := by simpa using hdispatch.symm.trans hdispatch'
      exact ⟨rfl, rfl⟩

/-- The events and the count of the report agree with the statements that the loop dispatches. -/
theorem tally (h : Loop p m pc visited r) :
    r.2.tally = (m.tally.1 ++ visited, m.tally.2 + visited.length) := by
  induction h with
  | done => simp
  | @onward m m' pc next s visited r hget hdispatch _ ih =>
    have hone := tally_dispatch p m pc s
    rw [hdispatch] at hone
    rw [ih, hone]
    simp [Nat.add_assoc, Nat.add_comm]
  | @failed m m' pc s failure hget hdispatch =>
    have hone := tally_dispatch p m pc s
    rw [hdispatch] at hone
    exact hone

theorem arrives {outer : Bool} {connection : Option σ} (h : Loop p m pc visited r)
    (harrives : p.Arrives outer connection m pc) {i : Nat} (hi : i ∈ visited) :
    ∃ m', p.Arrives outer connection m' i := by
  induction h with
  | done => simp at hi
  | onward hget hdispatch _ ih =>
    rcases List.mem_cons.1 hi with rfl | hi
    · exact ⟨_, harrives⟩
    · exact ih (harrives.next hget hdispatch) hi
  | failed =>
    obtain rfl := List.mem_singleton.1 hi
    exact ⟨_, harrives⟩

end Loop

/-- Indices further and further down, from `pc` on, of statements of the program. -/
structure Ascends (p : Program) (pc : Nat) (visited : List Nat) : Prop where
  sorted : visited.Pairwise (· < ·)
  range : ∀ i ∈ visited, pc ≤ i ∧ i < p.size
  length : visited.length + pc ≤ p.size

variable {p : Program} {m : Machine σ} {pc : Nat}

theorem Ascends.cons {next : Nat} {visited : List Nat} (h : Ascends p next visited) (hlt : pc < next) :
    Ascends p pc (pc :: visited) where
  sorted := List.pairwise_cons.2 ⟨fun i hi => Nat.lt_of_lt_of_le hlt (h.range i hi).1, h.sorted⟩
  range i hi := by
    have hlength := h.length
    rcases List.mem_cons.1 hi with rfl | hi
    · omega
    · have hrange := h.range i hi
      omega
  length := by
    have hlength := h.length
    rw [List.length_cons]
    omega

theorem Loop.ascends {visited : List Nat} {r : Except (Failure × Statement) Unit × Machine σ}
    (h : Loop p m pc visited r) (hnested : p.Nested) (hfits : p.Fits pc m.scopes) (hle : pc ≤ p.size) :
    Ascends p pc visited := by
  induction h with
  | done => exact ⟨.nil, by simp, by simpa using hle⟩
  | onward hget hdispatch _ ih =>
    obtain ⟨hlt, hle', hfits'⟩ := advances_dispatch hnested hfits hget _ _ hdispatch
    exact (ih hfits' hle').cons hlt
  | @failed _ _ pc _ _ hget =>
    have hlt : pc < p.size := Program.lt_size_of_get? hget
    exact ⟨List.pairwise_singleton .., by simpa using hlt, by rw [List.length_singleton]; omega⟩

/-- The loop ends, and a bound that leaves a turn for every statement from `pc` on is no bound to it:
each turn ends further down. -/
theorem exists_loop_runFrom (h : p.Nested) {fuel : Nat} (hfits : p.Fits pc m.scopes)
    (hfuel : p.size ≤ pc + fuel) : ∃ visited, Loop p m pc visited (runFrom p fuel m pc) := by
  induction fuel generalizing m pc with
  | zero =>
    -- no turn is left, and by `hfuel` no statement either
    exact ⟨[], .done (Program.get?_eq_none_iff.2 hfuel)⟩
  | succ fuel ih =>
    rw [runFrom]
    cases hget : p.get? pc with
    | none => exact ⟨[], .done hget⟩
    | some s =>
      have hadvances := advances_dispatch h hfits hget
      dsimp only
      rcases hq : m.dispatch p pc s with ⟨failure | next, m'⟩
      · exact ⟨[pc], .failed hget hq⟩
      · obtain ⟨hlt, -, hfits'⟩ := hadvances next m' hq
        obtain ⟨visited, hloop⟩ := ih hfits' (by omega)
        exact ⟨pc :: visited, .onward hget hq hloop⟩

theorem exists_loop_runAll (h : p.Nested) (hm : m.scopes = []) :
    ∃ visited, Loop p m 0 visited (m.runAll p) :=
  exists_loop_runFrom h (hm ▸ p.fits_zero) (by omega)

/-! ## Whole runs -/

theorem tally_runBare (p : Program) (marker : String) (m : Machine σ) :
    (m.runBare p marker).tally = (m.runAll p).2.tally := by
  rw [runBare]
  rcases m.runAll p with ⟨⟨failure, s⟩ | _, n⟩
  · exact n.tally_halt failure _
  · exact n.tally_succeed

theorem tally_runEnclosed_of_begin (p : Program) (marker : String) {m n : Machine σ}
    (hbegin : m.transact .begin = (.ok (), n)) :
    (m.runEnclosed p marker).tally = (n.runAll p).2.tally := by
  rw [runEnclosed, hbegin]
  dsimp only
  rcases n.runAll p with ⟨⟨failure, s⟩ | _, n'⟩
  · exact (tally_halt _ failure _).trans (n'.tally_rollbackAfter failure)
  · have hcommit := n'.tally_commit
    dsimp only
    rcases hq : n'.commit with ⟨failure | _, n''⟩ <;> rw [hq] at hcommit
    · exact (n''.tally_halt failure _).trans hcommit
    · exact n''.tally_succeed.trans hcommit

end Machine

namespace Program

variable {σ : Type} [Connection σ] {p : Program} (marker : String) (outer : Bool)
  (connection : Option σ)

/-- A run dispatches what its loop does, or nothing if it has none. -/
theorem tally_run_cases (h : p.Nested) :
    (p.run marker outer connection).tally = ([], 0) ∨
    ∃ m visited, p.Arrives outer connection m 0 ∧ m.Loop p 0 visited (m.runAll p) ∧
      (p.run marker outer connection).tally = (visited, visited.length) := by
  have hstart : (Machine.emit { connection } (.started p.size outer)).tally = ([], 0) := rfl
  rw [run]
  split
  · cases outer with
    | false =>
      obtain ⟨visited, hloop⟩ := Machine.exists_loop_runAll (σ := σ) h
        (m := Machine.emit { connection } (.started p.size false)) rfl
      have htally := hloop.tally
      rw [hstart, ← Machine.tally_runBare p marker] at htally
      exact .inr ⟨_, visited, .bare rfl, hloop, by simpa using htally⟩
    | true =>
      have hbegin := Machine.tally_transact (Machine.emit { connection } (.started p.size true)) .begin
      have hscopes := (Machine.tracks_transact
        (Machine.emit { connection } (.started p.size true)) .begin).scopes
      rcases hq : (Machine.emit { connection } (.started p.size true)).transact .begin with
        ⟨failure | _, m⟩ <;> rw [hq] at hbegin hscopes
      · left
        simp only [if_pos, Machine.runEnclosed, hq]
        exact (m.tally_halt failure "").trans (hbegin.trans hstart)
      · obtain ⟨visited, hloop⟩ := Machine.exists_loop_runAll h hscopes
        have htally := hloop.tally
        rw [hbegin.trans hstart, ← Machine.tally_runEnclosed_of_begin p marker hq] at htally
        exact .inr ⟨m, visited, .enclosed rfl hq, hloop, by simpa using htally⟩
  · exact .inl rfl

/-- Every statement that a run tells of is one that it gets to. -/
theorem exists_arrives_of_mem_indicesOf (h : p.Nested) {i : Nat}
    (hi : i ∈ indicesOf (p.run marker outer connection).events) :
    ∃ m, p.Arrives outer connection m i := by
  have hmem : i ∈ (p.run marker outer connection).tally.1 := hi
  rcases tally_run_cases marker outer connection h with hnone | ⟨m, visited, harrives, hloop, htally⟩
  · simp [hnone] at hmem
  · rw [htally] at hmem
    exact hloop.arrives harrives hmem

theorem ascends_run (h : p.Nested) :
    ∃ visited, (p.run marker outer connection).tally = (visited, visited.length) ∧
      Machine.Ascends p 0 visited := by
  rcases tally_run_cases marker outer connection h with hnone | ⟨m, visited, harrives, hloop, htally⟩
  · exact ⟨[], hnone, .nil, by simp, by simp⟩
  · obtain ⟨hle, hfits⟩ := harrives.fits h
    exact ⟨visited, htally, hloop.ascends h hfits hle⟩

end Program

/-- A run only moves forward: each statement that it dispatches lies further down than the one before,
so it dispatches none twice and counts no more than there are. It always ends: from wherever `run` starts
its loop, which is without scopes, the loop without a bound comes to what `run` goes on with. -/
theorem run_moves_forward (d : Dialect) (fragments : List Fragment) (marker : String) (outer : Bool)
    {σ : Type} [Connection σ] (connection : Option σ) :
    let p := Program.assemble d fragments
    let run := p.run marker outer connection
    (indicesOf run.events).Pairwise (· < ·) ∧ (∀ i ∈ indicesOf run.events, i < p.size) ∧
      run.report.stats.statements = (indicesOf run.events).length ∧
      run.report.stats.statements ≤ p.size ∧
      (p.executable = true → ∀ m : Machine σ, m.scopes = [] →
        ∃ visited, m.Loop p 0 visited (m.runAll p)) := by
  intro p run
  cases hexecutable : p.executable with
  | false =>
    have hrefuse : run = p.refuseRun connection := by
      simp only [run, Program.run, hexecutable, if_neg Bool.false_ne_true]
    have hnone : indicesOf (p.refuseRun connection).events = [] := rfl
    rw [hrefuse, hnone]
    exact ⟨.nil, by simp, rfl, Nat.zero_le _, nofun⟩
  | true =>
    have h : p.Nested := Program.nested_assemble (Program.executable_assemble_iff.1 hexecutable)
    obtain ⟨visited, htally, hascends⟩ := Program.ascends_run marker outer connection h
    have hindices : indicesOf run.events = visited := congrArg Prod.fst htally
    have hstatements : run.report.stats.statements = visited.length := congrArg Prod.snd htally
    rw [hindices, hstatements]
    exact ⟨hascends.sorted, fun i hi => (hascends.range i hi).2, rfl, hascends.length,
      fun _ m hm => Machine.exists_loop_runAll h hm⟩

end SqlFlow
