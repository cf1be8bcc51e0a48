import SqlFlow.Proofs.Run.Erasure
import SqlFlow.Proofs.Run.Turns

/-!
# Ledgers

A connection that keeps the errors of the rollbacks that have failed on it, and otherwise is the connection
that it is made from.

* `runFrom_map`, `run_map`, `turns_map`: whole runs, and their turns, over connections that answer alike.
* `Ledger`: such a connection. `Program.failedRollbacks`: what a run enters in it.
-/

namespace SqlFlow

variable {σ τ : Type}

/-! ## Whole runs over connections that answer alike -/

/-- The run over the corresponding connection. -/
def Run.map (f : σ → τ) (r : Run σ) : Run τ :=
  { report := r.report, connection := r.connection.map f, events := r.events }

/-- The turn over the corresponding connection. -/
def Turn.map (f : σ → τ) (t : Turn σ) : Turn τ := { t with before := t.before.map f }

namespace Machine

variable [Connection σ] [Connection τ] {f : σ → τ} (hf : Connection.Preserves f)

include hf

theorem runFrom_map (p : Program) (fuel : Nat) (m : Machine σ) (pc : Nat) :
    runFrom p fuel (m.map f) pc = Prod.map id (map f) (runFrom p fuel m pc) := by
  induction fuel generalizing m pc with
  | zero => rfl
  | succ fuel ih =>
    unfold runFrom
    cases p.get? pc with
    | none => rfl
    | some s =>
      dsimp only
      rw [dispatch_map hf]
      rcases m.dispatch p pc s with ⟨failure | next, n⟩
      · rfl
      · exact ih n next

theorem turnsFrom_map (p : Program) (fuel : Nat) (m : Machine σ) (pc : Nat) :
    turnsFrom p fuel (m.map f) pc = (turnsFrom p fuel m pc).map (Turn.map f) := by
  induction fuel generalizing m pc with
  | zero => rfl
  | succ fuel ih =>
    unfold turnsFrom
    cases p.get? pc with
    | none => rfl
    | some s =>
      simp only [Turn.after]
      rw [dispatch_map hf]
      rcases m.dispatch p pc s with ⟨failure | next, n⟩
      · rfl
      · exact congrArg (_ :: ·) (ih n next)

theorem runBare_map (p : Program) (marker : String) (m : Machine σ) :
    (m.map f).runBare p marker = (m.runBare p marker).map f := by
  unfold runBare runAll
  rw [runFrom_map hf]
  rcases runFrom p p.size m 0 with ⟨⟨failure, s⟩ | _, n⟩ <;> rfl

theorem runEnclosed_map (p : Program) (marker : String) (m : Machine σ) :
    (m.map f).runEnclosed p marker = (m.runEnclosed p marker).map f := by
  unfold runEnclosed runAll
  rw [transact_map hf]
  rcases m.transact .begin with ⟨failure | _, n⟩
  · rfl
  · dsimp only [Prod.map, id_eq]
    rw [runFrom_map hf]
    rcases runFrom p p.size n 0 with ⟨⟨failure, s⟩ | _, n'⟩
    · dsimp only [Prod.map, id_eq]
      rw [rollbackAfter_map hf]
      rfl
    · dsimp only [Prod.map, id_eq]
      rw [commit_map hf]
      rcases n'.commit with ⟨failure | _, n''⟩ <;> rfl

end Machine

namespace Program

variable [Connection σ] [Connection τ] {f : σ → τ} (hf : Connection.Preserves f)

include hf

theorem run_map (p : Program) (marker : String) (outer : Bool) (connection : Option σ) :
    p.run marker outer (connection.map f) = (p.run marker outer connection).map f := by
  unfold run
  have hstart : Machine.emit ({ connection := connection.map f } : Machine τ) (.started p.size outer) =
      (Machine.emit { connection } (.started p.size outer)).map f := rfl
  cases p.executable with
  | false => rfl
  | true =>
    simp only [if_true, hstart]
    cases outer with
    | false => exact Machine.runBare_map hf p marker _
    | true => exact Machine.runEnclosed_map hf p marker _

theorem turns_map (p : Program) (outer : Bool) (connection : Option σ) :
    p.turns outer (connection.map f) = (p.turns outer connection).map (Turn.map f) := by
  have hstart : Machine.emit ({ connection := connection.map f } : Machine τ) (.started p.size outer) =
      (Machine.emit { connection } (.started p.size outer)).map f := rfl
  unfold turns
  cases p.executable with
  | false => rfl
  | true =>
    simp only [if_true, hstart]
    cases outer with
    | false => exact Machine.turnsFrom_map hf p _ _ 0
    | true =>
      simp only [if_true]
      rw [Machine.transact_map hf]
      rcases (Machine.emit { connection } (.started p.size true)).transact .begin with ⟨failure | _, n⟩
      · rfl
      · exact Machine.turnsFrom_map hf p _ n 0

end Program

/-! ## Ledgers -/

/-- A connection with the errors of the rollbacks that have failed on it, in order. -/
structure Ledger (σ : Type) where
  connection : σ
  failedRollbacks : List SqlError := []

namespace Ledger

/-- What a call with its answer enters in a ledger. -/
def entries : TransactionCall → Except SqlError Unit → List SqlError
  | .rollback, .error error => [error]
  | _, _ => []

variable [Connection σ]

instance : Connection (Ledger σ) where
  execute sql l :=
    let (answer, next) := Connection.execute sql l.connection
    (answer, { l with connection := next })
  transact call l :=
    let (answer, next) := Connection.transact call l.connection
    (answer, { connection := next, failedRollbacks := l.failedRollbacks ++ entries call answer })

/-- A ledger answers like the connection it is made from. -/
theorem preserves_connection : Connection.Preserves (Ledger.connection (σ := σ)) :=
  ⟨fun _ _ => rfl, fun _ _ => rfl⟩

/-- Nothing has been entered yet. -/
def start (c : σ) : Ledger σ := { connection := c }

omit [Connection σ] in
theorem map_start (connection : Option σ) : (connection.map start).map Ledger.connection = connection := by
  cases connection <;> rfl

end Ledger

/-- The errors of the rollbacks that fail in the run of a program, in order. -/
def Program.failedRollbacks [Connection σ] (p : Program) (marker : String) (outer : Bool)
    (connection : Option σ) : List SqlError :=
  (p.run marker outer (connection.map Ledger.start)).connection.elim [] Ledger.failedRollbacks

end SqlFlow
