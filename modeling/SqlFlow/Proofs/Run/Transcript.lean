import SqlFlow.Database.Rehearsal
import SqlFlow.Proofs.Run.Simulation
import SqlFlow.Proofs.Tree.Morphism

/-!
# Transcripts

A connection that writes down what it is asked, and whether it answers with an error, and otherwise
is the connection that it is made from.

* `Transcript`: such a connection. `Program.calls`, `Tree.calls`: the calls of a run, and those of the
  interpreter of block trees.
* `Trace`: given calls lead from one state of a connection to another. `Trace.calls_eq` and
  `Trace.connection`: between transcripts they are the calls written down, and they have been made on
  the connection that the transcript is made from.
* `Store.Makes`: the same between stores. `makes_transact`, `makes_query`, `makes_evaluate`: what the
  operations of a store ask of its connection.
-/

namespace SqlFlow

/-- A call, and whether the answer was no error. -/
structure Answered where
  call : Call
  succeeded : Bool
deriving DecidableEq, Repr

/-- A connection with the calls that have been made on it, in order. -/
structure Transcript (σ : Type) where
  connection : σ
  calls : List Answered := []

variable {σ : Type} [Connection σ]

namespace Transcript

instance : Connection (Transcript σ) where
  execute sql t :=
    let (answer, next) := Connection.execute sql t.connection
    (answer, { connection := next, calls := t.calls ++ [⟨.execute sql, answer.isOk⟩] })
  transact call t :=
    let (answer, next) := Connection.transact call t.connection
    (answer, { connection := next, calls := t.calls ++ [⟨.transact call, answer.isOk⟩] })

/-- A transcript answers like the connection it is made from. -/
theorem preserves_connection : Connection.Preserves (Transcript.connection (σ := σ)) :=
  ⟨fun _ _ => rfl, fun _ _ => rfl⟩

/-- Nothing has been written down yet. -/
def start (c : σ) : Transcript σ := { connection := c }

/-- The calls that a run makes, if it is this one that leads from a connection to another. -/
def callsOf (run : Option (Transcript σ) → Option (Transcript σ)) (connection : Option σ) :
    List Answered :=
  (run (connection.map start)).elim [] Transcript.calls

end Transcript

/-- The calls that the run of a program makes, in order. -/
def Program.calls (p : Program) (marker : String) (outer : Bool) (connection : Option σ) :
    List Answered :=
  Transcript.callsOf (fun c => (p.run marker outer c).connection) connection

theorem Program.calls_eq {p : Program} {marker : String} {outer : Bool} {c : σ} {t : Transcript σ}
    (h : (p.run marker outer (some (Transcript.start c))).connection = some t) :
    p.calls marker outer (some c) = t.calls := by
  show ((p.run marker outer (some (Transcript.start c))).connection).elim [] Transcript.calls = t.calls
  rw [h, Option.elim_some]

/-- The calls that the interpreter of block trees makes, in order. -/
def Tree.calls (marker : String) (outer : Bool) (ts : List Tree) (connection : Option σ) :
    List Answered :=
  Transcript.callsOf (fun c => (Tree.interpret marker outer ts c).2) connection

/-! ## Making calls -/

/-- What a call comes to: whether the answer is no error, and the next state. -/
def Call.perform : Call → σ → Bool × σ
  | .execute sql, c => ((Connection.execute sql c).1.isOk, (Connection.execute sql c).2)
  | .transact call, c => ((Connection.transact call c).1.isOk, (Connection.transact call c).2)

/-- The calls lead from one state of the connection to another. -/
inductive Trace : σ → List Answered → σ → Prop where
  | nil (c : σ) : Trace c [] c
  | cons {c₁ c₂ c₃ : σ} {call : Call} {ok : Bool} {w : List Answered}
      (hperform : call.perform c₁ = (ok, c₂)) (rest : Trace c₂ w c₃) : Trace c₁ (⟨call, ok⟩ :: w) c₃

namespace Trace

theorem append {c₁ c₂ c₃ : σ} {v w : List Answered} (h₁ : Trace c₁ v c₂) (h₂ : Trace c₂ w c₃) :
    Trace c₁ (v ++ w) c₃ := by
  induction h₁ with
  | nil => exact h₂
  | cons hperform _ ih => exact .cons hperform (ih h₂)

theorem exists_of_append {c₁ c₃ : σ} {v w : List Answered} (h : Trace c₁ (v ++ w) c₃) :
    ∃ c₂, Trace c₁ v c₂ ∧ Trace c₂ w c₃ := by
  induction v generalizing c₁ with
  | nil => exact ⟨c₁, .nil c₁, h⟩
  | cons a v ih =>
    cases h with
    | cons hperform rest =>
      obtain ⟨c₂, hv, hw⟩ := ih rest
      exact ⟨c₂, .cons hperform hv, hw⟩

theorem perform_transcript {t t' : Transcript σ} {call : Call} {ok : Bool}
    (h : call.perform t = (ok, t')) :
    t'.calls = t.calls ++ [⟨call, ok⟩] ∧ call.perform t.connection = (ok, t'.connection) := by
  cases call <;> cases h <;> exact ⟨rfl, rfl⟩

/-- A transcript grows by the calls that are made. -/
theorem calls_eq {t t' : Transcript σ} {w : List Answered} (h : Trace t w t') :
    t'.calls = t.calls ++ w := by
  induction h with
  | nil => rw [List.append_nil]
  | cons hperform _ ih => rw [ih, (perform_transcript hperform).1, List.append_assoc]; rfl

/-- The same calls have been made on the connection that is written about. -/
theorem connection {t t' : Transcript σ} {w : List Answered} (h : Trace t w t') :
    Trace t.connection w t'.connection := by
  induction h with
  | nil => exact .nil _
  | cons hperform _ ih => exact .cons (perform_transcript hperform).2 ih

end Trace

/-- The calls lead from one store to another. -/
def Store.Makes (s : Store σ) (w : List Answered) (s' : Store σ) : Prop :=
  ∃ c c', s.connection = some c ∧ s'.connection = some c' ∧ Trace c w c'

namespace Store

variable {s s₁ s₂ s₃ : Store σ} {v w : List Answered}

theorem Makes.isSome (h : Makes s₁ w s₂) : s₂.connection.isSome := by
  obtain ⟨c, c', -, hc', -⟩ := h
  rw [hc']
  rfl

theorem Makes.refl (hs : s.connection.isSome) : Makes s [] s := by
  obtain ⟨c, hc⟩ := Option.isSome_iff_exists.mp hs
  exact ⟨c, c, hc, hc, .nil c⟩

theorem Makes.trans (h₁ : Makes s₁ v s₂) (h₂ : Makes s₂ w s₃) : Makes s₁ (v ++ w) s₃ := by
  obtain ⟨c₁, c₂, hc₁, hc₂, htrace⟩ := h₁
  obtain ⟨c₂', c₃, hc₂', hc₃, htrace'⟩ := h₂
  obtain rfl : c₂ = c₂' := Option.some.inj (hc₂.symm.trans hc₂')
  exact ⟨c₁, c₃, hc₁, hc₃, htrace.append htrace'⟩

theorem Makes.exists_trace {c : σ} (h : Makes s w s₁) (hs : s.connection = some c) :
    ∃ c', s₁.connection = some c' ∧ Trace c w c' := by
  obtain ⟨c₀, c', hc₀, hc', htrace⟩ := h
  obtain rfl : c₀ = c := Option.some.inj (hc₀.symm.trans hs)
  exact ⟨c', hc', htrace⟩

theorem makes_transact (hs : s.connection.isSome) (call : TransactionCall) :
    Makes s [⟨.transact call, (s.transact call).1.isOk⟩] (s.transact call).2 := by
  obtain ⟨c, hc⟩ := Option.isSome_iff_exists.mp hs
  have hok : (s.transact call).1.isOk = (Connection.transact call c).1.isOk := by
    simp only [transact, ask, hc]
    cases (Connection.transact call c).1 <;> rfl
  rw [hok]
  refine ⟨c, (Connection.transact call c).2, hc, ?_, .cons rfl (.nil _)⟩
  simp [transact, ask, hc]

theorem makes_execute (hs : s.connection.isSome) (sql : String) :
    ∃ ok, Makes s [⟨.execute sql, ok⟩] (s.execute sql).2 := by
  obtain ⟨c, hc⟩ := Option.isSome_iff_exists.mp hs
  refine ⟨_, c, (Connection.execute sql c).2, hc, ?_, .cons rfl (.nil _)⟩
  simp [execute, ask, hc]

theorem makes_query (hs : s.connection.isSome) (sql : String) :
    ∃ ok, Makes s [⟨.execute sql, ok⟩] (s.query sql).2 := by
  have h := makes_execute hs sql
  rw [query]
  rcases hq : s.execute sql with ⟨_ | _, s'⟩ <;> rw [hq] at h <;> exact h

/-- A condition is asked for with one call, or none. -/
theorem makes_evaluate (hs : s.connection.isSome) (condition : String) :
    Makes s [] (s.evaluate condition).2 ∨
      ∃ ok, Makes s [⟨.execute condition, ok⟩] (s.evaluate condition).2 := by
  have h := makes_execute hs condition
  rw [evaluate]
  cases Literal.truth? condition with
  | some b => exact .inl (.refl hs)
  | none =>
    rcases hq : s.execute condition with ⟨(_ | _ | _) | _, s'⟩ <;> rw [hq] at h <;> exact .inr h

end Store

end SqlFlow
