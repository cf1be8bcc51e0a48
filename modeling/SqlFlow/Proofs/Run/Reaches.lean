import SqlFlow.Proofs.Placement
import SqlFlow.Proofs.Run.Store

/-!
# Runs of statements

* `Reaches`: a run gets from one statement to another, always forward, without an unhandled failure.
* `Fails`: a run gets to a statement whose failure leaves given scopes still to be unwound. What
  becomes of it then depends on those scopes: `Fails.conditional`, `Fails.handling`,
  `Fails.transaction`, `Fails.attempt` and `Fails.attemptTransaction` take the innermost one away.
* `runFrom_of_reaches`: fuel for the statements between two places is enough to get from one to the
  other.

Both relations look at a machine through its `store`, which is all of it but the scopes and the
events.
-/

namespace SqlFlow

variable {σ : Type} [Connection σ]

namespace Machine

/-! ## Getting from one statement to another -/

/-- From index `pc` the run gets to index `stop`, and there it is in the state `m'`. -/
inductive Reaches (p : Program) : Machine σ → Nat → Machine σ → Nat → Prop where
  | refl (m : Machine σ) (pc : Nat) : Reaches p m pc m pc
  | step {m m₁ m' : Machine σ} {pc next stop : Nat} {s : Statement} (hget : p.get? pc = some s)
      (hdispatch : m.dispatch p pc s = (.ok next, m₁)) (hnext : pc < next)
      (rest : Reaches p m₁ next m' stop) : Reaches p m pc m' stop

theorem Reaches.trans {p : Program} {m₁ m₂ m₃ : Machine σ} {i j k : Nat}
    (h₁ : Reaches p m₁ i m₂ j) (h₂ : Reaches p m₂ j m₃ k) : Reaches p m₁ i m₃ k := by
  induction h₁ with
  | refl => exact h₂
  | step hget hdispatch hnext _ ih => exact .step hget hdispatch hnext (ih h₂)

theorem Reaches.le {p : Program} {m₁ m₂ : Machine σ} {i j : Nat} (h : Reaches p m₁ i m₂ j) :
    i ≤ j := by
  induction h with
  | refl => exact Nat.le_refl _
  | step _ _ hnext _ ih => omega

/-- There is one state to be in at a statement. -/
theorem Reaches.unique {p : Program} {m m₁ m₂ : Machine σ} {i j : Nat} (h₁ : Reaches p m i m₁ j)
    (h₂ : Reaches p m i m₂ j) : m₁ = m₂ := by
  induction h₁ with
  | refl m pc =>
    cases h₂ with
    | refl => rfl
    | step _ _ hnext rest =>
      have hle := rest.le
      omega
  | step hget hdispatch hnext rest ih =>
    cases h₂ with
    | refl =>
      have hle := rest.le
      omega
    | step hget' hdispatch' _ rest' =>
      obtain rfl := Option.some.inj (hget.symm.trans hget')
      cases hdispatch.symm.trans hdispatch'
      exact ih rest'

/-- A statement that does not fail. -/
theorem Reaches.of_step {p : Program} {m m' : Machine σ} {pc next : Nat} {s : Statement}
    (hget : p.get? pc = some s) (hstep : m.countStatement.step p pc s = (.ok next, m'))
    (hnext : pc < next) : Reaches p m pc m' next := by
  refine .step hget ?_ hnext (.refl m' next)
  rw [dispatch, hstep]

theorem runFrom_of_reaches {p : Program} {m m' : Machine σ} {pc stop : Nat}
    (h : Reaches p m pc m' stop) :
    ∃ n, pc + n ≤ stop ∧ ∀ fuel, runFrom p (fuel + n) m pc = runFrom p fuel m' stop := by
  induction h with
  | refl m pc => exact ⟨0, by omega, fun _ => rfl⟩
  | @step m m₁ m' pc next stop s hget hdispatch hnext rest ih =>
    obtain ⟨n, hn, hrun⟩ := ih
    refine ⟨n + 1, by omega, fun fuel => ?_⟩
    rw [← Nat.add_assoc, runFrom, hget]
    simp only [hdispatch]
    exact hrun fuel

/-- A failure that comes to the handler of an attempt is counted as recovered. -/
theorem reaches_of_handle {p : Program} {m m₁ m₂ m₃ : Machine σ} {pc i handler : Nat} {s : Statement}
    {failure cause : Failure} {transactional : Bool} {scopes : List Scope}
    (reaches : Reaches p m pc m₁ i) (hget : p.get? i = some s)
    (hstep : m₁.countStatement.step p i s = (.error failure, m₂))
    (hunwind : unwind p failure m₂ m₂.scopes = m₃.handle p cause transactional handler scopes)
    (hlt : i < handler) :
    ∃ m', Reaches p m pc m' handler ∧ m'.store = m₃.store.recover ∧
      m'.scopes = .attempt transactional handler true :: scopes := by
  obtain ⟨m', hhandle, hstore, hscopes⟩ := exists_handle p m₃ cause transactional handler scopes
  have hdispatch : m₁.dispatch p i s = (.ok handler, m'.countRecovered) := by
    rw [dispatch, hstep]
    simp only [hunwind, hhandle]
  refine ⟨m'.countRecovered, reaches.trans (.step hget hdispatch hlt (.refl _ _)), ?_, ?_⟩
  · rw [store_countRecovered, hstore]
  · rw [scopes_countRecovered, hscopes]

/-! ## Failing on the way -/

/-- From index `pc` the run gets to a statement before index `stop` and fails in it. Once the scopes
of the blocks in between have been left, it comes to unwinding `scopes` with the failure of `fault`;
what has been changed until then is `store`. -/
inductive Fails (p : Program) (marker : String) (m : Machine σ) (pc stop : Nat)
    (scopes : List Scope) (fault : Fault) (store : Store σ) : Prop where
  | intro {m₁ m₂ m₃ : Machine σ} {i : Nat} {s : Statement} {failure : Failure}
      (reaches : Reaches p m pc m₁ i) (lt : i < stop) (hget : p.get? i = some s)
      (hstep : m₁.countStatement.step p i s = (.error failure, m₂))
      (hdescribe : s.describe marker = fault.statement)
      (hunwind : unwind p failure m₂ m₂.scopes = unwind p fault.failure m₃ scopes)
      (hstore : m₃.store = store)

namespace Fails

variable {p : Program} {marker : String} {m : Machine σ} {pc stop : Nat} {scopes : List Scope}
  {fault : Fault} {store : Store σ}

/-- A statement that fails. -/
theorem of_step {m' : Machine σ} {s : Statement} {failure : Failure} (hget : p.get? pc = some s)
    (hstep : m.countStatement.step p pc s = (.error failure, m')) (hlt : pc < stop) :
    Fails p marker m pc stop m'.scopes ⟨failure, s.describe marker⟩ m'.store :=
  .intro (.refl m pc) hlt hget hstep rfl rfl rfl

theorem of_reaches {m₁ : Machine σ} {pc₁ : Nat} (h : Reaches p m pc m₁ pc₁)
    (hf : Fails p marker m₁ pc₁ stop scopes fault store) :
    Fails p marker m pc stop scopes fault store := by
  cases hf with
  | intro reaches lt hget hstep hdescribe hunwind hstore =>
    exact .intro (h.trans reaches) lt hget hstep hdescribe hunwind hstore

theorem mono {stop' : Nat} (hle : stop ≤ stop')
    (hf : Fails p marker m pc stop scopes fault store) :
    Fails p marker m pc stop' scopes fault store := by
  cases hf with
  | intro reaches lt hget hstep hdescribe hunwind hstore =>
    exact .intro reaches (by omega) hget hstep hdescribe hunwind hstore

/-! The innermost scope is left. -/

theorem conditional {taken : Bool}
    (hf : Fails p marker m pc stop (.conditional taken :: scopes) fault store) :
    Fails p marker m pc stop scopes fault store := by
  cases hf with
  | intro reaches lt hget hstep hdescribe hunwind hstore =>
    exact .intro reaches lt hget hstep hdescribe (hunwind.trans rfl) hstore

theorem handling {transactional : Bool} {handler : Nat}
    (hf : Fails p marker m pc stop (.attempt transactional handler true :: scopes) fault store) :
    Fails p marker m pc stop scopes fault store := by
  cases hf with
  | intro reaches lt hget hstep hdescribe hunwind hstore =>
    exact .intro reaches lt hget hstep hdescribe (hunwind.trans rfl) hstore

/-- A transaction is rolled back, and a rollback that fails takes the place of what failed. -/
theorem transaction (hf : Fails p marker m pc stop (.transaction :: scopes) fault store) :
    Fails p marker m pc stop scopes (store.abandon fault).1 (store.abandon fault).2 := by
  cases hf with
  | @intro m₁ m₂ m₃ i s failure reaches lt hget hstep hdescribe hunwind hstore =>
    subst hstore
    rw [Store.abandon]
    rcases hq : m₃.store.transact .rollback with ⟨failure' | _, store'⟩
    all_goals
      obtain ⟨m', htransact, hstore', -⟩ := (tracks_transact m₃ .rollback).of_eq hq
      rw [unwind, htransact] at hunwind
      exact .intro reaches lt hget hstep hdescribe hunwind hstore'

/-- A failed rollback of a transactional attempt: nothing is handled. -/
theorem attemptTransaction {handler : Nat} {failure : Failure} {store' : Store σ}
    (hf : Fails p marker m pc stop (.attempt true handler false :: scopes) fault store)
    (hrollback : store.transact .rollback = (.error failure, store')) :
    Fails p marker m pc stop scopes ⟨failure, fault.statement⟩ store' := by
  cases hf with
  | @intro m₁ m₂ m₃ i s failure reaches lt hget hstep hdescribe hunwind hstore =>
    subst hstore
    obtain ⟨m', htransact, hstore', -⟩ := (tracks_transact m₃ .rollback).of_eq hrollback
    rw [unwind, htransact] at hunwind
    exact .intro reaches lt hget hstep hdescribe hunwind hstore'

/-! The innermost scope is that of an attempt, and its handler is entered. -/

theorem reaches_handler {handler : Nat} (hle : stop ≤ handler)
    (hf : Fails p marker m pc stop (.attempt false handler false :: scopes) fault store) :
    ∃ m', Reaches p m pc m' handler ∧ m'.store = store.recover ∧
      m'.scopes = .attempt false handler true :: scopes := by
  cases hf with
  | @intro m₁ m₂ m₃ i s failure reaches lt hget hstep hdescribe hunwind hstore =>
    subst hstore
    rw [unwind] at hunwind
    exact reaches_of_handle reaches hget hstep hunwind (by omega)

theorem reaches_handler_of_rollback {handler : Nat} {store' : Store σ} (hle : stop ≤ handler)
    (hf : Fails p marker m pc stop (.attempt true handler false :: scopes) fault store)
    (hrollback : store.transact .rollback = (.ok (), store')) :
    ∃ m', Reaches p m pc m' handler ∧ m'.store = store'.recover ∧
      m'.scopes = .attempt true handler true :: scopes := by
  cases hf with
  | @intro m₁ m₂ m₃ i s failure reaches lt hget hstep hdescribe hunwind hstore =>
    subst hstore
    obtain ⟨m₄, htransact, rfl, -⟩ := (tracks_transact m₃ .rollback).of_eq hrollback
    rw [unwind, htransact] at hunwind
    exact reaches_of_handle reaches hget hstep hunwind (by omega)

/-- With no scope left the run is over. -/
theorem runFrom_eq (hf : Fails p marker m pc stop [] fault store) {fuel : Nat}
    (hfuel : stop ≤ pc + fuel) :
    ∃ s m', runFrom p fuel m pc = (.error (fault.failure, s), m') ∧
      s.describe marker = fault.statement ∧ m'.store = store := by
  cases hf with
  | @intro m₁ m₂ m₃ i s failure reaches lt hget hstep hdescribe hunwind hstore =>
    obtain ⟨n, hn, hrun⟩ := runFrom_of_reaches reaches
    obtain ⟨k, rfl⟩ : ∃ k, fuel = k + 1 + n := ⟨fuel - n - 1, by omega⟩
    have hdispatch : m₁.dispatch p i s = (.error fault.failure, { m₃ with scopes := [] }) := by
      rw [dispatch, hstep]
      simp only [hunwind, unwind]
    refine ⟨s, { m₃ with scopes := [] }, ?_, hdescribe, hstore⟩
    rw [hrun, runFrom, hget]
    simp only [hdispatch]

end Fails

end Machine

end SqlFlow
