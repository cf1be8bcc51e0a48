import SqlFlow.Proofs.Run.Reaches
import SqlFlow.Proofs.Run.Unwinding
import SqlFlow.Proofs.Tree.Morphism

/-!
# Runs over connections that answer alike

What a run does depends on its connection through the answers alone.

* `Machine.map`: the machine over the corresponding connection. `step_map`, `unwind_map`,
  `dispatch_map`: every operation of machines does the same there, one lemma for each.
* `Arrives.exists_of_map`: a run that gets somewhere over the corresponding connection gets there over the
  connection itself. So what is told of transcripts is told of the connections that they are made from.
* `Arrives.unique`: a run gets to a statement in one state at most.
-/

namespace SqlFlow

variable {σ τ : Type}

namespace Machine

/-- The machine over the corresponding connection. -/
def map (f : σ → τ) (m : Machine σ) : Machine τ :=
  { connection := m.connection.map f, scopes := m.scopes, stats := m.stats, messages := m.messages,
    events := m.events }

section

variable (f : σ → τ) (m : Machine σ)

theorem map_emit (e : Event) : (m.map f).emit e = (m.emit e).map f := rfl

theorem map_leave : (m.map f).leave = m.leave.map f := rfl

theorem map_note (taken : Bool) : (m.map f).note taken = (m.note taken).map f := by
  obtain ⟨connection, scopes, stats, messages, events⟩ := m
  rcases scopes with _ | ⟨_ | _ | _, outer⟩ <;> rfl

theorem call_map {α : Type} (toFailure : SqlError → Failure) {g : σ → Except SqlError α × σ}
    {h : τ → Except SqlError α × τ} (hgh : ∀ c, h (f c) = Prod.map id f (g c)) :
    (m.map f).call toFailure h = Prod.map id (map f) (m.call toFailure g) := by
  cases hc : m.connection with
  | none => simp [call, map, hc]
  | some c => simp [call, map, hc, hgh]

theorem goOn_map {next : Nat} {after : Machine σ → Machine σ} {after' : Machine τ → Machine τ}
    (hafter : ∀ n, after' (n.map f) = (after n).map f) (r : Except Failure Unit × Machine σ) :
    goOn next after' (Prod.map id (map f) r) = Prod.map id (map f) (goOn next after r) := by
  obtain ⟨failure | _, n⟩ := r
  · rfl
  · exact Prod.ext rfl (hafter n)

end

variable [Connection σ] [Connection τ] {f : σ → τ} (hf : Connection.Preserves f) (m : Machine σ)

include hf

theorem transact_map (call : TransactionCall) :
    (m.map f).transact call = Prod.map id (map f) (m.transact call) :=
  m.call_map f _ (hf.transact call)

theorem execute_map (sql : String) : (m.map f).execute sql = Prod.map id (map f) (m.execute sql) :=
  m.call_map f _ (hf.execute sql)

theorem rollbackAfter_map (cause : Failure) :
    (m.map f).rollbackAfter cause = (m.rollbackAfter cause).map f := by
  unfold rollbackAfter
  rw [transact_map hf]
  rcases m.transact .rollback with ⟨failure | _, n⟩ <;> rfl

theorem commit_map : (m.map f).commit = Prod.map id (map f) m.commit := by
  unfold commit
  rw [transact_map hf]
  rcases m.transact .commit with ⟨failure | _, n⟩
  · exact Prod.ext rfl (rollbackAfter_map hf n failure)
  · rfl

theorem query_map (sql : String) : (m.map f).query sql = Prod.map id (map f) (m.query sql) := by
  unfold query
  rw [execute_map hf]
  rcases m.execute sql with ⟨failure | result, n⟩ <;> rfl

theorem evaluate_map (line : Nat) (condition : String) :
    (m.map f).evaluate line condition = Prod.map id (map f) (m.evaluate line condition) := by
  unfold evaluate
  rw [execute_map hf]
  cases Literal.truth? condition with
  | some b => rfl
  | none => rcases m.execute condition with ⟨(error | ⟨call, error⟩ | _) | result, n⟩ <;> rfl

theorem branch_map {member : Directive} {s : Statement} {pc target : Nat}
    {enter : Bool → Machine σ → Machine σ} {enter' : Bool → Machine τ → Machine τ}
    (henter : ∀ taken n, enter' taken (n.map f) = (enter taken n).map f) :
    (m.map f).branch member s pc target enter'
      = Prod.map id (map f) (m.branch member s pc target enter) := by
  unfold branch
  rw [evaluate_map hf]
  rcases m.evaluate s.line s.text with ⟨failure | taken, n⟩
  · rfl
  · exact Prod.ext rfl (henter taken (n.emit (.decided s.line member taken)))

theorem direct_map (x : Directive) (s : Statement) (pc target : Nat) :
    (m.map f).direct x s pc target = Prod.map id (map f) (m.direct x s pc target) := by
  have hscopes : (m.map f).scopes = m.scopes := rfl
  cases x with
  | debug | attempt => rfl
  | ifThen =>
    simp only [direct]
    exact branch_map hf m fun _ _ => rfl
  | attemptTransaction | beginTransaction =>
    simp only [direct, transact_map hf]
    exact goOn_map f (fun _ => rfl) _
  | elseIf =>
    simp only [direct, hscopes]
    split
    · rfl
    · exact branch_map hf m fun taken n => n.map_note f taken
  | otherwise =>
    simp only [direct, hscopes]
    split
    · rfl
    · exact Prod.ext rfl (m.map_note f true)
  | endIf | handler =>
    simp only [direct, hscopes]
    split <;> rfl
  | endAttempt =>
    simp only [direct, hscopes, map_leave, commit_map hf]
    split
    · exact goOn_map f (fun _ => rfl) _
    · rfl
  | endTransaction =>
    simp only [direct, hscopes, map_leave, commit_map hf]
    split <;> exact goOn_map f (fun _ => rfl) _

theorem step_map (p : Program) (pc : Nat) (s : Statement) :
    (m.map f).step p pc s = Prod.map id (map f) (m.step p pc s) := by
  unfold step
  rw [map_emit]
  cases s.kind with
  | sql =>
    dsimp only
    rw [query_map hf]
    exact goOn_map f (fun _ => rfl) _
  | directive x => exact direct_map hf _ x s pc _
  | invalid => rfl

/-- Scopes are left alike. -/
theorem unwind_map (p : Program) (failure : Failure) (scopes : List Scope) :
    unwind p failure (m.map f) scopes = Prod.map id (map f) (unwind p failure m scopes) := by
  induction scopes generalizing failure m with
  | nil => rfl
  | cons scope outer ih =>
    rcases scope with _ | ⟨_ | _, handler, _ | _⟩ | _
    · exact ih m failure
    · rfl
    · exact ih m failure
    · rw [unwind, unwind, transact_map hf]
      rcases m.transact .rollback with ⟨error | _, n⟩
      · exact ih (n.emit _) error
      · rfl
    · exact ih m failure
    · rw [unwind, unwind, transact_map hf]
      rcases m.transact .rollback with ⟨error | _, n⟩
      · exact ih (n.emit _) error
      · exact ih n failure

theorem dispatch_map (p : Program) (pc : Nat) (s : Statement) :
    (m.map f).dispatch p pc s = Prod.map id (map f) (m.dispatch p pc s) := by
  have hstep := step_map hf m.countStatement p pc s
  unfold dispatch
  rw [show (m.map f).countStatement = m.countStatement.map f from rfl, hstep]
  rcases m.countStatement.step p pc s with ⟨failure | next, n⟩
  · have hunwind := unwind_map hf n p failure n.scopes
    dsimp only [Prod.map, id_eq]
    rw [show (n.map f).scopes = n.scopes from rfl, hunwind]
    rcases unwind p failure n n.scopes with ⟨failure' | handler, n'⟩ <;> rfl
  · rfl

end Machine

/-! ## Runs -/

theorem RollsBack.exists_of_map [Connection σ] [Connection τ] {f : σ → τ} (hf : Connection.Preserves f)
    {error : Option SqlError} {c : σ} {c' : τ} (h : RollsBack error (f c) c') :
    ∃ c₁, RollsBack error c c₁ ∧ f c₁ = c' := by
  have htransact := hf.transact .rollback c
  rcases hq : (Connection.transact .rollback c : Except SqlError Unit × σ) with ⟨answer, c₁⟩
  rw [hq] at htransact
  cases h with
  | done h =>
    cases htransact.symm.trans h
    exact ⟨c₁, .done hq, rfl⟩
  | failed h =>
    cases htransact.symm.trans h
    exact ⟨c₁, .failed hq, rfl⟩

namespace Program

variable [Connection σ] [Connection τ] {f : σ → τ} {p : Program} {outer : Bool}
  {connection : Option σ} {pc : Nat}

/-- A run that gets somewhere over the corresponding connection gets there over the connection itself, in a
corresponding state. -/
theorem Arrives.exists_of_map (hf : Connection.Preserves f) {m : Machine τ}
    (harrives : p.Arrives outer (connection.map f) m pc) :
    ∃ n : Machine σ, p.Arrives outer connection n pc ∧ n.map f = m := by
  induction harrives with
  | bare houter => exact ⟨_, .bare houter, rfl⟩
  | @enclosed m houter hbegin =>
    have htransact := Machine.transact_map hf
      (Machine.emit { connection } (.started p.size outer)) .begin
    rcases hq : (Machine.emit { connection } (.started p.size outer)).transact .begin with ⟨answer, n⟩
    rw [hq] at htransact
    cases htransact.symm.trans hbegin
    exact ⟨n, .enclosed houter hq, rfl⟩
  | @next m m' pc next s _ hget hdispatch ih =>
    obtain ⟨n, harrives, rfl⟩ := ih
    have hover := Machine.dispatch_map hf n p pc s
    rcases hq : n.dispatch p pc s with ⟨answer, n'⟩
    rw [hq] at hover
    cases hover.symm.trans hdispatch
    exact ⟨n', harrives.next hget hq, rfl⟩

theorem Arrives.map (hf : Connection.Preserves f) {m : Machine σ}
    (harrives : p.Arrives outer connection m pc) :
    p.Arrives outer (connection.map f) (m.map f) pc := by
  induction harrives with
  | bare houter => exact .bare houter
  | @enclosed m houter hbegin =>
    refine .enclosed houter ?_
    have htransact := Machine.transact_map hf
      (Machine.emit { connection } (.started p.size outer)) .begin
    rw [hbegin] at htransact
    exact htransact
  | next _ hget hdispatch ih =>
    refine .next ih hget ?_
    rw [Machine.dispatch_map hf, hdispatch]
    rfl

/-- The same blocks are left over the connection itself. -/
theorem Leaves.exists_of_map (hf : Connection.Preserves f) {blocks blocks' : List OpenBlock}
    {errors : List (Option SqlError)} {c' : Option τ}
    (h : p.Leaves pc blocks (connection.map f) errors blocks' c') :
    ∃ c : Option σ, p.Leaves pc blocks connection errors blocks' c ∧ c.map f = c' := by
  generalize hconnection : connection.map f = connection' at h
  induction h generalizing connection with
  | here blocks => exact ⟨connection, .here blocks _, hconnection⟩
  | pass hpasses _ ih =>
    obtain ⟨c, hleaves, hc⟩ := ih hconnection
    exact ⟨c, hleaves.pass hpasses, hc⟩
  | transaction hopener hrollback _ ih =>
    obtain ⟨c, rfl, rfl⟩ := Option.map_eq_some_iff.1 hconnection
    obtain ⟨c₁, hrollback', rfl⟩ := hrollback.exists_of_map hf
    have hconnection₁ : (some c₁).map f = some (f c₁) := rfl
    obtain ⟨c', hleaves, hc'⟩ := ih hconnection₁
    exact ⟨c', .transaction hopener hrollback' hleaves, hc'⟩
  | attempt hbody hrollback _ ih =>
    obtain ⟨c, rfl, rfl⟩ := Option.map_eq_some_iff.1 hconnection
    obtain ⟨c₁, hrollback', rfl⟩ := hrollback.exists_of_map hf
    have hconnection₁ : (some c₁).map f = some (f c₁) := rfl
    obtain ⟨c', hleaves, hc'⟩ := ih hconnection₁
    exact ⟨c', .attempt hbody hrollback' hleaves, hc'⟩

omit [Connection τ] in
theorem Arrives.exists_reaches {m : Machine σ} (harrives : p.Arrives outer connection m pc)
    (h : p.Nested) : ∃ m₀, p.Starts connection outer m₀ ∧ Machine.Reaches p m₀ 0 m pc := by
  induction harrives with
  | bare houter => exact ⟨_, houter ▸ .bare, .refl _ _⟩
  | @enclosed m houter hbegin =>
    subst houter
    exact ⟨m, .enclosed hbegin, .refl _ _⟩
  | next harrives hget hdispatch ih =>
    obtain ⟨m₀, hstart, hreaches⟩ := ih
    obtain ⟨hnext, -, -⟩ := Machine.advances_dispatch h (harrives.fits h).2 hget _ _ hdispatch
    exact ⟨m₀, hstart, hreaches.trans (.step hget hdispatch hnext (.refl _ _))⟩

omit [Connection τ] in
/-- A run gets to a statement in one state at most. -/
theorem Arrives.unique {m m' : Machine σ} (harrives : p.Arrives outer connection m pc)
    (harrives' : p.Arrives outer connection m' pc) (h : p.Nested) : m = m' := by
  obtain ⟨m₀, hstart, hreaches⟩ := harrives.exists_reaches h
  obtain ⟨m₀', hstart', hreaches'⟩ := harrives'.exists_reaches h
  obtain rfl : m₀ = m₀' := by
    cases hstart with
    | bare =>
      cases hstart'
      rfl
    | enclosed hbegin =>
      cases hstart' with
      | enclosed hbegin' =>
        cases hbegin.symm.trans hbegin'
        rfl
  exact hreaches.unique hreaches'

end Program

end SqlFlow
