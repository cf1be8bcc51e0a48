import SqlFlow.Proofs.Run.Scopes
import SqlFlow.Proofs.Run.Transcript

/-!
# What a statement does to the open transactions

A transaction is begun where its scope is entered, and ended where it is left. Whatever else a statement
asks of the connection leaves the open transactions alone.

* `Scope.holds`: the scopes that a transaction is open for.
* `Answers`, `Idle`: a call and its answer; what a statement asks that begins and ends no transaction.
* `Effect`: what a statement may do to scopes and connection. `effect_step`: it does one of these things.
* `Effect.linked`: no transaction is begun without a connection.
-/

namespace SqlFlow

/-- Whether a transaction is open as long as the run is in the scope. -/
def Scope.holds : Scope → Bool
  | .transaction => true
  | .attempt transactional _ handling => transactional && !handling
  | .conditional _ => false

/-- For each scope, whether a transaction is open for it. -/
def holding (scopes : List Scope) : List Bool := scopes.map Scope.holds

@[simp] theorem holding_cons (scope : Scope) (scopes : List Scope) :
    holding (scope :: scopes) = scope.holds :: holding scopes := rfl

namespace Program

variable {p : Program} {pc t : Nat}

/-- The openers of the open blocks before the statement `pc`, innermost first. -/
def openers (p : Program) (pc : Nat) : List Nat := (p.openBlocks pc).map OpenBlock.opener

theorem openers_of_opens {x : Directive} (hkind : p.kind? pc = some (.directive x))
    (hx : x ∈ [Directive.ifThen, .attempt, .attemptTransaction, .beginTransaction]) :
    p.openers (pc + 1) = pc :: p.openers pc := by
  unfold openers
  rw [openBlocks_succ hkind]
  revert hx
  cases x <;> first | exact fun _ => rfl | (intro hx; simp at hx)

theorem openers_of_divides {x : Directive} (hkind : p.kind? pc = some (.directive x))
    (hx : x ∈ [Directive.elseIf, .otherwise, .handler]) : p.openers (pc + 1) = p.openers pc := by
  have hmodify : ∀ blocks : List OpenBlock,
      (blocks.modifyHead fun b => { b with member := pc }).map OpenBlock.opener
        = blocks.map OpenBlock.opener := fun blocks => by cases blocks <;> rfl
  unfold openers
  rw [openBlocks_succ hkind]
  revert hx
  cases x <;> first | exact fun _ => hmodify _ | (intro hx; simp at hx)

theorem openers_of_closes {x : Directive} (hkind : p.kind? pc = some (.directive x))
    (hx : x ∈ [Directive.endIf, .endAttempt, .endTransaction]) :
    p.openers (pc + 1) = (p.openers pc).tail := by
  unfold openers
  rw [openBlocks_succ hkind, ← List.map_tail]
  revert hx
  cases x <;> first | exact fun _ => rfl | (intro hx; simp at hx)

/-- At a target the same blocks are open as behind the statement. -/
theorem Nested.openers_target (h : p.Nested) (ht : p.target? pc = some t) :
    p.openers t = p.openers (pc + 1) := by
  unfold openers
  rw [openBlocks_of_adjacent (h.adjacent_of_target ht).1]

end Program

variable {σ : Type} [Connection σ]

/-! ## Calls and their answers -/

/-- The call is answered without an error, or with one if `ok` is false. Without a connection there is an
error and no call. -/
inductive Answers (call : Call) : (ok : Bool) → Option σ → Option σ → Prop where
  | made {c c' : σ} {ok : Bool} (h : call.perform c = (ok, c')) : Answers call ok (some c) (some c')
  | missing : Answers call false none none

/-- What is asked begins and ends no transaction. -/
inductive Idle : Option σ → Option σ → Prop where
  | nothing (connection : Option σ) : Idle connection connection
  | execute {sql : String} {ok : Bool} {c c' : Option σ} (h : Answers (.execute sql) ok c c') : Idle c c'
  | refused {c c' : Option σ} (h : Answers (.transact .begin) false c c') : Idle c c'

theorem Answers.isSome_eq {call : Call} {ok : Bool} {c c' : Option σ} (h : Answers call ok c c') :
    c'.isSome = c.isSome := by
  cases h <;> rfl

theorem Answers.isSome {call : Call} {c c' : Option σ} (h : Answers call true c c') :
    c.isSome = true := by
  cases h
  rfl

theorem Idle.isSome_eq {c c' : Option σ} (h : Idle c c') : c'.isSome = c.isSome := by
  cases h with
  | nothing => rfl
  | execute h => exact h.isSome_eq
  | refused h => exact h.isSome_eq

namespace Machine

section

variable (m : Machine σ)

omit [Connection σ] in
theorem isOk_mapError {α : Type} (toFailure : SqlError → Failure) (answer : Except SqlError α) :
    (answer.mapError toFailure).isOk = answer.isOk := by
  cases answer <;> rfl

theorem answers_transact (call : TransactionCall) :
    Answers (.transact call) (m.transact call).1.isOk m.connection (m.transact call).2.connection := by
  unfold transact Machine.call
  split
  · next hc =>
    show Answers _ false m.connection m.connection
    rw [hc]
    exact .missing
  · next c hc =>
    rw [hc]
    exact .made (Prod.ext (isOk_mapError _ _).symm rfl)

theorem answers_execute (sql : String) :
    Answers (.execute sql) (m.execute sql).1.isOk m.connection (m.execute sql).2.connection := by
  unfold execute Machine.call
  split
  · next hc =>
    show Answers _ false m.connection m.connection
    rw [hc]
    exact .missing
  · next c hc =>
    rw [hc]
    exact .made (Prod.ext (isOk_mapError _ _).symm rfl)

theorem idle_query (sql : String) : Idle m.connection (m.query sql).2.connection := by
  have hexecute := m.answers_execute sql
  unfold query
  rcases hq : m.execute sql with ⟨failure | result, n⟩ <;> rw [hq] at hexecute
  all_goals exact .execute hexecute

theorem idle_evaluate (line : Nat) (condition : String) :
    Idle m.connection (m.evaluate line condition).2.connection := by
  have hexecute := m.answers_execute condition
  unfold evaluate
  cases Literal.truth? condition with
  | some b => exact .nothing _
  | none =>
    rcases hq : m.execute condition with ⟨(error | ⟨call, error⟩ | _) | result, n⟩ <;>
      rw [hq] at hexecute
    all_goals exact .execute hexecute

omit [Connection σ] in
theorem connection_note (taken : Bool) : (m.note taken).connection = m.connection := by
  unfold note
  split <;> rfl

omit [Connection σ] in
theorem holding_note (taken : Bool) : holding (m.note taken).scopes = holding m.scopes := by
  unfold note
  split
  · next outer hscopes =>
    rw [hscopes]
    rfl
  · rfl

/-- A rollback that is only told of when it fails. -/
theorem answers_rollbackAfter (cause : Failure) :
    ∃ ok, Answers (.transact .rollback) ok m.connection (m.rollbackAfter cause).connection := by
  have hrollback := m.answers_transact .rollback
  unfold rollbackAfter
  rcases hq : m.transact .rollback with ⟨failure | _, n⟩ <;> rw [hq] at hrollback
  all_goals exact ⟨_, hrollback⟩

end

/-! ## Statements -/

/-- What a statement does to the scopes and the connection, and how the open blocks are others where the
run goes on. A statement that fails in the end of a transaction has left its scope. -/
inductive Effect (p : Program) (pc : Nat) (scopes : List Scope) (connection : Option σ) :
    Except Failure Nat × Machine σ → Prop where
  | keep {next : Nat} {n : Machine σ} (hopeners : p.openers next = p.openers pc)
      (hholds : holding n.scopes = holding scopes) (hidle : Idle connection n.connection) :
      Effect p pc scopes connection (.ok next, n)
  | enter {next : Nat} {n : Machine σ} (hopeners : p.openers next = pc :: p.openers pc)
      (hholds : holding n.scopes = false :: holding scopes) (hidle : Idle connection n.connection) :
      Effect p pc scopes connection (.ok next, n)
  | begin {next : Nat} {n : Machine σ} (hopeners : p.openers next = pc :: p.openers pc)
      (hholds : holding n.scopes = true :: holding scopes)
      (hbegin : Answers (.transact .begin) true connection n.connection) :
      Effect p pc scopes connection (.ok next, n)
  | leave {next : Nat} {n : Machine σ} (hopeners : p.openers next = (p.openers pc).tail)
      (hholds : holding scopes = false :: holding n.scopes) (hconnection : n.connection = connection) :
      Effect p pc scopes connection (.ok next, n)
  | commit {next : Nat} {n : Machine σ} (hopeners : p.openers next = (p.openers pc).tail)
      (hholds : holding scopes = true :: holding n.scopes)
      (hcommit : Answers (.transact .commit) true connection n.connection) :
      Effect p pc scopes connection (.ok next, n)
  | fail {failure : Failure} {n : Machine σ}
      (hkind : ∀ x ∈ [Directive.handler, .endAttempt, .endTransaction], p.kind? pc ≠ some (.directive x))
      (hscopes : n.scopes = scopes) (hidle : Idle connection n.connection) :
      Effect p pc scopes connection (.error failure, n)
  | abandon {failure : Failure} {n : Machine σ} {scope : Scope} {between : Option σ} {ok : Bool}
      (hkind : ∃ x ∈ [Directive.endAttempt, .endTransaction], p.kind? pc = some (.directive x))
      (hscopes : scopes = scope :: n.scopes) (hholds : scope.holds = true)
      (hcommit : Answers (.transact .commit) false connection between)
      (hrollback : Answers (.transact .rollback) ok between n.connection) :
      Effect p pc scopes connection (.error failure, n)

section

variable {p : Program} {pc : Nat} {m : Machine σ}

variable {scopes : List Scope}

theorem effect_branch (hm : m.scopes = scopes) {member : Directive} {s : Statement} {target : Nat}
    {enter : Bool → Machine σ → Machine σ}
    (hkind : ∀ x ∈ [Directive.handler, .endAttempt, .endTransaction], p.kind? pc ≠ some (.directive x))
    (hok : ∀ taken (n : Machine σ), n.scopes = scopes → Idle m.connection n.connection →
      Effect p pc scopes m.connection (.ok (if taken then pc + 1 else target), enter taken n)) :
    Effect p pc scopes m.connection (m.branch member s pc target enter) := by
  have hscopes := (tracks_evaluate m s.line s.text).scopes.trans hm
  have hidle := m.idle_evaluate s.line s.text
  unfold branch
  rcases hq : m.evaluate s.line s.text with ⟨failure | taken, n⟩ <;> rw [hq] at hscopes hidle
  · exact .fail hkind hscopes hidle
  · exact hok taken _ hscopes hidle

theorem effect_begin (hm : m.scopes = scopes) (scope : Scope) (hholds : scope.holds = true)
    (hkind : ∀ x ∈ [Directive.handler, .endAttempt, .endTransaction], p.kind? pc ≠ some (.directive x))
    (hopeners : p.openers (pc + 1) = pc :: p.openers pc) :
    Effect p pc scopes m.connection (goOn (pc + 1) (·.enter scope) (m.transact .begin)) := by
  have hscopes := (tracks_transact m .begin).scopes.trans hm
  have hbegin := m.answers_transact .begin
  rcases hq : m.transact .begin with ⟨failure | _, n⟩ <;> rw [hq] at hscopes hbegin
  · exact .fail hkind hscopes (.refused hbegin)
  · refine .begin hopeners ?_ hbegin
    show scope.holds :: holding n.scopes = true :: holding scopes
    rw [hholds, hscopes]

theorem effect_commit {scope : Scope} (hm : m.scopes = scope :: scopes) (hholds : scope.holds = true)
    (hkind : ∃ x ∈ [Directive.endAttempt, .endTransaction], p.kind? pc = some (.directive x))
    (hopeners : p.openers (pc + 1) = (p.openers pc).tail) :
    Effect p pc (scope :: scopes) m.connection (goOn (pc + 1) id m.leave.commit) := by
  have hleave : m.leave.scopes = scopes := by rw [scopes_leave, hm, List.tail_cons]
  have hrest := (tracks_transact m.leave .commit).scopes.trans hleave
  have hcommit := m.leave.answers_transact .commit
  unfold commit
  rcases hq : m.leave.transact .commit with ⟨failure | _, n⟩ <;> rw [hq] at hrest hcommit
  · obtain ⟨ok, hrollback⟩ := n.answers_rollbackAfter failure
    refine .abandon hkind ?_ hholds hcommit hrollback
    rw [(rollbackAfter_spec n failure).2, hrest]
  · refine .commit hopeners ?_ hcommit
    show scope.holds :: holding scopes = true :: holding n.scopes
    rw [hholds, hrest]

/-- Where control goes on from a directive with a target, the same blocks are open as behind it. -/
theorem openers_of_target (h : p.Nested) {x : Directive} (hkind : p.kind? pc = some (.directive x))
    (hx : x.branches = true) {s : Statement} (hget : p.get? pc = some s) :
    p.openers (s.target.getD p.size) = p.openers (pc + 1) := by
  obtain ⟨t, ht⟩ := h.exists_target hkind hx
  rw [← Program.target?_of_get? hget, ht]
  exact h.openers_target ht

/-! ### Directives -/

omit [Connection σ] in
theorem kind?_ne_of_not_mem {x : Directive} (hkind : p.kind? pc = some (.directive x))
    {xs : List Directive} (hx : x ∉ xs) : ∀ y ∈ xs, p.kind? pc ≠ some (.directive y) := by
  rintro y hy hkind'
  obtain rfl := StatementKind.directive.inj (Option.some.inj (hkind.symm.trans hkind'))
  exact hx hy

section

variable (h : p.Nested) {s : Statement} (hget : p.get? pc = some s) {x : Directive}
  (hs : s.kind = .directive x)

include h hget hs

/-- A directive that opens a block. -/
theorem effect_direct_of_opens (hm : m.scopes = scopes)
    (hx : x ∈ [Directive.ifThen, .attempt, .attemptTransaction, .beginTransaction]) :
    Effect p pc scopes m.connection (m.direct x s pc (s.target.getD p.size)) := by
  have hkind : p.kind? pc = some (.directive x) := by rw [Program.kind?_of_get? hget, hs]
  have hopeners := Program.openers_of_opens hkind hx
  have hother : x ∉ [Directive.handler, .endAttempt, .endTransaction] := by
    revert hx
    cases x <;> decide
  have hfail := kind?_ne_of_not_mem hkind hother
  cases x with
  | ifThen =>
    simp only [direct]
    refine effect_branch hm hfail fun taken n hn hidle => .enter ?_ ?_ hidle
    · cases taken with
      | true => exact hopeners
      | false => exact (openers_of_target h hkind rfl hget).trans hopeners
    · rw [scopes_enter, hn]
      rfl
  | attempt =>
    simp only [direct]
    refine .enter hopeners ?_ (.nothing _)
    rw [scopes_enter, hm]
    rfl
  | attemptTransaction | beginTransaction =>
    simp only [direct]
    exact effect_begin hm _ rfl hfail hopeners
  | elseIf | otherwise | endIf | handler | endAttempt | endTransaction | debug => simp at hx

/-- A directive of a chain that is open. -/
theorem effect_direct_of_chain {taken : Bool} {outer : List Scope}
    (hm : m.scopes = .conditional taken :: outer) (hx : x ∈ [Directive.elseIf, .otherwise, .endIf]) :
    Effect p pc (.conditional taken :: outer) m.connection
      (m.direct x s pc (s.target.getD p.size)) := by
  have hkind : p.kind? pc = some (.directive x) := by rw [Program.kind?_of_get? hget, hs]
  cases x with
  | elseIf =>
    have hopeners := Program.openers_of_divides hkind (by decide)
    have htarget := (openers_of_target h hkind rfl hget).trans hopeners
    cases taken with
    | true =>
      simp only [direct, hm]
      exact .keep htarget (congrArg holding hm) (.nothing _)
    | false =>
      simp only [direct, hm]
      refine effect_branch hm (kind?_ne_of_not_mem hkind (by decide)) fun taken n hn hidle => .keep ?_ ?_ ?_
      · cases taken with
        | true => exact hopeners
        | false => exact htarget
      · rw [holding_note, hn]
      · rwa [connection_note]
  | otherwise =>
    have hopeners := Program.openers_of_divides hkind (by decide)
    cases taken with
    | true =>
      simp only [direct, hm]
      exact .keep ((openers_of_target h hkind rfl hget).trans hopeners) (congrArg holding hm) (.nothing _)
    | false =>
      simp only [direct, hm]
      refine .keep hopeners ?_ ?_
      · rw [holding_note, hm]
      · rw [connection_note]
        exact .nothing _
  | endIf =>
    simp only [direct, hm]
    refine .leave (Program.openers_of_closes hkind (by decide)) ?_ rfl
    rw [scopes_leave, hm]
    rfl
  | ifThen | attempt | attemptTransaction | handler | endAttempt | beginTransaction | endTransaction
  | debug => simp at hx

/-- A directive of an attempt that is open. -/
theorem effect_direct_of_attempt {transactional handling : Bool} {handler : Nat} {outer : List Scope}
    (hm : m.scopes = .attempt transactional handler handling :: outer)
    (hx : x ∈ [Directive.handler, .endAttempt]) :
    Effect p pc (.attempt transactional handler handling :: outer) m.connection
      (m.direct x s pc (s.target.getD p.size)) := by
  have hkind : p.kind? pc = some (.directive x) := by rw [Program.kind?_of_get? hget, hs]
  cases x with
  | handler =>
    have hopeners := Program.openers_of_divides hkind (by decide)
    cases handling with
    | true =>
      simp only [direct, hm]
      exact .keep hopeners (congrArg holding hm) (.nothing _)
    | false =>
      simp only [direct, hm]
      exact .keep ((openers_of_target h hkind rfl hget).trans hopeners) (congrArg holding hm) (.nothing _)
  | endAttempt =>
    have hopeners := Program.openers_of_closes hkind (by decide)
    have hleave : (Scope.attempt transactional handler handling).holds = false →
        Effect p pc (.attempt transactional handler handling :: outer) m.connection
          (.ok (pc + 1), m.leave) := fun hholds => by
      refine .leave hopeners ?_ rfl
      rw [scopes_leave, hm, holding, List.map_cons, hholds]
      rfl
    cases transactional <;> cases handling <;> simp only [direct, hm]
    -- only the body of a transactional attempt ends with a commit
    case true.false => exact effect_commit hm rfl ⟨.endAttempt, by decide, hkind⟩ hopeners
    all_goals exact hleave rfl
  | ifThen | elseIf | otherwise | endIf | attempt | attemptTransaction | beginTransaction | endTransaction
  | debug => simp at hx

/-- A directive in the scopes that it is prepared for. -/
theorem effect_direct (hm : m.scopes = scopes) (hprepared : Program.Prepared s scopes) :
    Effect p pc scopes m.connection (m.direct x s pc (s.target.getD p.size)) := by
  have hkind : p.kind? pc = some (.directive x) := by rw [Program.kind?_of_get? hget, hs]
  cases x with
  | debug =>
    have hopeners : p.openers (pc + 1) = p.openers pc := by
      rw [Program.openers, Program.openBlocks_succ hkind]
      rfl
    simp only [direct]
    exact .keep hopeners (congrArg holding hm) (.nothing _)
  | ifThen | attempt | attemptTransaction | beginTransaction =>
    exact effect_direct_of_opens h hget hs hm (by decide)
  | elseIf | otherwise | endIf =>
    obtain ⟨taken, outer, rfl⟩ := hprepared.chain _ (by decide) hs
    exact effect_direct_of_chain h hget hs hm (by decide)
  | handler | endAttempt =>
    obtain ⟨transactional, handler, handling, outer, rfl⟩ := hprepared.attempt _ (by decide) hs
    exact effect_direct_of_attempt h hget hs hm (by decide)
  | endTransaction =>
    obtain ⟨outer, rfl⟩ := hprepared.transaction hs
    simp only [direct, hm]
    exact effect_commit hm rfl ⟨.endTransaction, by decide, hkind⟩
      (Program.openers_of_closes hkind (by decide))

end

/-- A statement in scopes that fit. -/
theorem effect_step (h : p.Nested) (hfits : p.Fits pc m.scopes) {s : Statement}
    (hget : p.get? pc = some s) : Effect p pc m.scopes m.connection (m.step p pc s) := by
  have hkind : p.kind? pc = some s.kind := Program.kind?_of_get? hget
  have hprepared := h.prepared hfits hget
  rw [step]
  cases hs : s.kind with
  | sql =>
    rw [hs] at hkind
    have hopeners : p.openers (pc + 1) = p.openers pc := by
      rw [Program.openers, Program.openBlocks_succ hkind]
      rfl
    generalize hn : m.emit (.dispatched pc s.line .sql) = n
    have hscopes : (n.query s.text).2.scopes = m.scopes := by
      rw [(tracks_query n s.text).scopes, ← hn, scopes_emit]
    have hidle : Idle m.connection (n.query s.text).2.connection := by
      have hidle := n.idle_query s.text
      rwa [← hn] at hidle ⊢
    dsimp only
    rcases hq : n.query s.text with ⟨failure | _, n'⟩ <;> rw [hq] at hscopes hidle
    · exact .fail (by simp [hkind]) hscopes hidle
    · exact .keep hopeners (congrArg holding hscopes) hidle
  | invalid =>
    rw [hs] at hkind
    refine .keep ?_ rfl (.nothing _)
    rw [Program.openers, Program.openBlocks_succ hkind]
    rfl
  | directive x => exact effect_direct (m := m.emit _) h hget hs rfl hprepared

section

variable {connection : Option σ} {r : Except Failure Nat × Machine σ}

theorem Effect.isSome_eq (h : Effect p pc scopes connection r) :
    r.2.connection.isSome = connection.isSome := by
  cases h with
  | keep _ _ hidle | enter _ _ hidle | fail _ _ hidle => exact hidle.isSome_eq
  | begin _ _ hcall | commit _ _ hcall => exact hcall.isSome_eq
  | leave _ _ hconnection => rw [hconnection]
  | abandon _ _ _ hcommit hrollback => exact hrollback.isSome_eq.trans hcommit.isSome_eq

/-- No transaction is begun without a connection. -/
theorem Effect.linked (h : Effect p pc scopes connection r)
    (hlinked : true ∈ holding scopes → connection.isSome = true) :
    true ∈ holding r.2.scopes → connection.isSome = true := by
  cases h with
  | keep _ hholds => rwa [hholds]
  | enter _ hholds =>
    rw [hholds]
    simpa using hlinked
  | begin _ _ hbegin => exact fun _ => hbegin.isSome
  | leave _ hholds => exact fun hmem => hlinked (hholds ▸ List.mem_cons_of_mem _ hmem)
  | commit _ _ hcommit => exact fun _ => hcommit.isSome
  | fail _ hscopes => rwa [hscopes]
  | abandon _ hscopes =>
    rw [hscopes] at hlinked
    exact fun hmem => hlinked (List.mem_cons_of_mem _ hmem)

end

end

end Machine

end SqlFlow
