import SqlFlow.Proofs.Run.Turns
import SqlFlow.Proofs.Run.Effects

/-!
# Turns at the members of a chain

What a run does at an `if`, an `elseif`, an `else` or an `endif`, by what the scope of the chain says.

* `Judged`: what a condition comes to, and what is asked of the connection for it. `evaluate_cases`: it is
  judged, or there is no connection.
* `Turn.Decides`, `Turn.Skips`, `Turn.Enters`, `Turn.Unconnected`: the turns there are.
* `decides_member`, `skips_member`, `enters_otherwise`, `exists_dispatch_endIf`: where each is taken and where
  it leads.
-/

namespace SqlFlow

variable {σ : Type} [Connection σ]

/-! ## Conditions -/

/-- The condition of a statement is found true or not: what else is `told` meanwhile, and what becomes of the
connection. -/
inductive Judged (s : Statement) : Option σ → (taken : Bool) → (told : List Event) → Option σ → Prop where
  /-- A literal asks nothing of the connection. -/
  | literal {taken : Bool} (c : Option σ) (hliteral : Literal.truth? s.text = some taken) :
      Judged s c taken [] c
  | answered {c c' : σ} {result : QueryResult} (hliteral : Literal.truth? s.text = none)
      (hexecute : Connection.execute s.text c = (.ok result, c')) :
      Judged s (some c) result.truthy [] (some c')
  /-- What the database refuses is false. -/
  | refused {c c' : σ} {error : SqlError} (hliteral : Literal.truth? s.text = none)
      (hexecute : Connection.execute s.text c = (.error error, c')) :
      Judged s (some c) false [.conditionFailed s.line error] (some c')

/-- A condition is judged, or it has to be asked for and there is no connection. -/
theorem Machine.evaluate_cases (m : Machine σ) (s : Statement) :
    (∃ taken told n, m.evaluate s.line s.text = (.ok taken, n) ∧
      Judged s m.connection taken told n.connection ∧ n.scopes = m.scopes ∧
      n.events.toList = m.events.toList ++ told) ∨
    Literal.truth? s.text = none ∧ m.connection = none ∧
      m.evaluate s.line s.text = (.error .noConnection, m) := by
  unfold evaluate
  cases hliteral : Literal.truth? s.text with
  | some taken => exact .inl ⟨taken, [], m, rfl, .literal _ hliteral, rfl, by simp⟩
  | none =>
    cases hc : m.connection with
    | none =>
      have hexecute : m.execute s.text = (.error .noConnection, m) := by
        unfold execute call
        rw [hc]
      exact .inr ⟨rfl, rfl, by rw [hexecute]⟩
    | some c =>
      rcases hcall : (Connection.execute s.text c : Except SqlError QueryResult × σ) with ⟨answer, c'⟩
      have hexecute : m.execute s.text = (answer.mapError .sql, { m with connection := some c' }) := by
        unfold execute call
        rw [hc]
        dsimp only
        rw [hcall]
      rw [hexecute]
      cases answer with
      | error error => exact .inl ⟨false, _, _, rfl, .refused hliteral hcall, rfl, Array.toList_push⟩
      | ok result =>
        exact .inl ⟨result.truthy, [], _, rfl, .answered hliteral hcall, rfl, (List.append_nil _).symm⟩

/-! ## Turns at the members of a chain -/

namespace Turn

/-- The condition of the statement is asked for, once, and found true or not. -/
inductive Decides (p : Program) (t : Turn σ) (taken : Bool) : Prop where
  | intro {x : Directive} (told : List Event) (hkind : t.statement.kind = .directive x)
      (hx : x ∈ [Directive.ifThen, .elseIf])
      (hjudged : Judged t.statement t.before.connection taken told (t.after p).2.connection)
      (hevents : (t.after p).2.events.toList = t.before.events.toList ++
        (.dispatched t.index t.statement.line (.directive x) :: told ++
          [.decided t.statement.line x taken]))

/-- The statement is passed over: nothing is asked and nothing is decided. -/
structure Skips (p : Program) (t : Turn σ) : Prop where
  connection : (t.after p).2.connection = t.before.connection
  events : (t.after p).2.events.toList = t.before.events.toList ++
    [.dispatched t.index t.statement.line t.statement.kind]

/-- The body behind the statement is entered, because its condition is true or because it is the `else`. -/
structure Enters (p : Program) (t : Turn σ) : Prop where
  member : t.Decides p true ∨ t.statement.kind = .directive .otherwise ∧ t.Skips p
  next : (t.after p).1 = .ok (t.index + 1)

/-- The condition of the statement has to be asked for, and there is no connection. -/
structure Unconnected (p : Program) (t : Turn σ) : Prop where
  kind : ∃ x ∈ [Directive.ifThen, .elseIf], t.statement.kind = .directive x
  condition : Literal.truth? t.statement.text = none
  connection : t.before.connection = none
  failure : (t.before.countStatement.step p t.index t.statement).1 = .error .noConnection

end Turn

namespace Machine

variable {p : Program} {m : Machine σ} {pc : Nat} {s : Statement} {x : Directive}

theorem dispatch_of_step {next : Nat} {n : Machine σ}
    (hstep : m.countStatement.step p pc s = (.ok next, n)) : m.dispatch p pc s = (.ok next, n) := by
  rw [dispatch, hstep]

/-- The machine once it has counted a statement and told of it. -/
def begun (m : Machine σ) (pc : Nat) (s : Statement) : Machine σ :=
  m.countStatement.emit (.dispatched pc s.line s.kind)

omit [Connection σ] in
@[simp] theorem scopes_begun (m : Machine σ) (pc : Nat) (s : Statement) : (m.begun pc s).scopes = m.scopes :=
  rfl

omit [Connection σ] in
theorem toList_events_begun (m : Machine σ) (pc : Nat) (s : Statement) :
    (m.begun pc s).events.toList = m.events.toList ++ [.dispatched pc s.line s.kind] :=
  Array.toList_push

theorem step_of_directive (p : Program) (m : Machine σ) (pc : Nat) (hs : s.kind = .directive x) :
    m.countStatement.step p pc s = (m.begun pc s).direct x s pc (s.target.getD p.size) := by
  unfold step begun
  rw [hs]

/-- A member of a chain that looks at its condition. -/
theorem decides_or_unconnected {target : Nat} {enter : Bool → Machine σ → Machine σ}
    (hs : s.kind = .directive x) (hx : x ∈ [Directive.ifThen, .elseIf])
    (hstep : m.countStatement.step p pc s = (m.begun pc s).branch x s pc target enter)
    (henter : ∀ taken (n : Machine σ),
      (enter taken n).connection = n.connection ∧ (enter taken n).events = n.events) :
    (∃ taken n, n.scopes = m.scopes ∧
      m.dispatch p pc s = (.ok (if taken then pc + 1 else target), enter taken n) ∧
      (⟨pc, s, m⟩ : Turn σ).Decides p taken) ∨
    (⟨pc, s, m⟩ : Turn σ).Unconnected p ∧ ∃ n, m.countStatement.step p pc s = (.error .noConnection, n) := by
  rcases (m.begun pc s).evaluate_cases s with
    ⟨taken, told, n, hevaluate, hjudged, hscopes, hevents⟩ | ⟨hliteral, hnone, hevaluate⟩
  · generalize hn : n.emit (.decided s.line x taken) = n'
    have hdispatch : m.dispatch p pc s = (.ok (if taken then pc + 1 else target), enter taken n') := by
      apply dispatch_of_step
      rw [hstep, branch, hevaluate, ← hn]
    obtain ⟨hconnection, htold⟩ := henter taken n'
    have hdecided : n'.events.toList = n.events.toList ++ [.decided s.line x taken] := by
      rw [← hn]
      exact Array.toList_push
    have hbegun := m.toList_events_begun pc s
    rw [hs] at hbegun
    refine .inl ⟨taken, n', ?_, hdispatch, .intro told hs hx ?_ ?_⟩
    · rw [← hn, scopes_emit, hscopes, scopes_begun]
    · simp only [Turn.after, hdispatch, hconnection]
      rw [← hn]
      exact hjudged
    · simp only [Turn.after, hdispatch, htold, hdecided, hevents, hbegun]
      simp
  · have herror : m.countStatement.step p pc s = (.error .noConnection, m.begun pc s) := by
      rw [hstep, branch, hevaluate]
    exact .inr ⟨⟨⟨x, hx, hs⟩, hliteral, hnone, congrArg Prod.fst herror⟩, _, herror⟩

/-- A statement of which no more than the dispatch is told. -/
theorem skips_of_step {next : Nat} {n : Machine σ}
    (hstep : m.countStatement.step p pc s = (.ok next, n)) (hconnection : n.connection = m.connection)
    (hevents : n.events = (m.begun pc s).events) : (⟨pc, s, m⟩ : Turn σ).Skips p := by
  have hafter : (⟨pc, s, m⟩ : Turn σ).after p = (.ok next, n) := dispatch_of_step hstep
  constructor
  · rw [hafter]
    exact hconnection
  · rw [hafter, hevents]
    exact m.toList_events_begun pc s

/-- An `if`, or an `elseif` of a chain no body of which has been entered. -/
theorem decides_member (p : Program) (pc : Nat) {rest : List Scope} (hs : s.kind = .directive x)
    (hmember : x = .ifThen ∧ m.scopes = rest ∨ x = .elseIf ∧ m.scopes = .conditional false :: rest) :
    (∃ taken m', m'.scopes = .conditional taken :: rest ∧
      m.dispatch p pc s = (.ok (if taken then pc + 1 else s.target.getD p.size), m') ∧
      (⟨pc, s, m⟩ : Turn σ).Decides p taken) ∨
    (⟨pc, s, m⟩ : Turn σ).Unconnected p ∧ ∃ n, m.countStatement.step p pc s = (.error .noConnection, n) := by
  have hstep := step_of_directive p m pc hs
  rcases hmember with ⟨rfl, hscopes⟩ | ⟨rfl, hscopes⟩
  · simp only [direct] at hstep
    rcases decides_or_unconnected hs (by decide) hstep fun _ _ => ⟨rfl, rfl⟩ with
      ⟨taken, n, hn, hdispatch, hdecides⟩ | hunconnected
    · exact .inl ⟨taken, _, by rw [scopes_enter, hn, hscopes], hdispatch, hdecides⟩
    · exact .inr hunconnected
  · simp only [direct, scopes_begun, hscopes] at hstep
    have hnote : ∀ taken (n : Machine σ), (n.note taken).events = n.events := fun taken n => by
      unfold note
      split <;> rfl
    rcases decides_or_unconnected hs (by decide) hstep
        fun taken n => ⟨n.connection_note taken, hnote taken n⟩ with
      ⟨taken, n, hn, hdispatch, hdecides⟩ | hunconnected
    · exact .inl ⟨taken, _, scopes_note_of_conditional n taken (hn.trans hscopes), hdispatch, hdecides⟩
    · exact .inr hunconnected

/-- A further member of a chain one of whose bodies has been entered. -/
theorem skips_member (p : Program) (pc : Nat) {rest : List Scope} (hs : s.kind = .directive x)
    (hx : x = .elseIf ∨ x = .otherwise) (hscopes : m.scopes = .conditional true :: rest) :
    ∃ m', m'.scopes = .conditional true :: rest ∧
      m.dispatch p pc s = (.ok (s.target.getD p.size), m') ∧ (⟨pc, s, m⟩ : Turn σ).Skips p := by
  have hstep : m.countStatement.step p pc s = (.ok (s.target.getD p.size), m.begun pc s) := by
    rw [step_of_directive p m pc hs]
    rcases hx with rfl | rfl <;> simp only [direct, scopes_begun, hscopes]
  exact ⟨m.begun pc s, hscopes, dispatch_of_step hstep, skips_of_step hstep rfl rfl⟩

/-- The `else` of a chain no body of which has been entered. -/
theorem enters_otherwise (p : Program) (pc : Nat) {rest : List Scope} (hs : s.kind = .directive .otherwise)
    (hscopes : m.scopes = .conditional false :: rest) :
    ∃ m', m'.scopes = .conditional true :: rest ∧ m.dispatch p pc s = (.ok (pc + 1), m') ∧
      (⟨pc, s, m⟩ : Turn σ).Enters p := by
  have hstep : m.countStatement.step p pc s =
      (.ok (pc + 1), { m.begun pc s with scopes := .conditional true :: rest }) := by
    rw [step_of_directive p m pc hs]
    simp only [direct, note, scopes_begun, hscopes]
  have hdispatch := dispatch_of_step hstep
  exact ⟨_, rfl, hdispatch, .inr ⟨hs, skips_of_step hstep rfl rfl⟩, congrArg Prod.fst hdispatch⟩

theorem exists_dispatch_endIf {rest : List Scope} {taken : Bool} (hs : s.kind = .directive .endIf)
    (hscopes : m.scopes = .conditional taken :: rest) : ∃ m', m.dispatch p pc s = (.ok (pc + 1), m') := by
  have hstep : m.countStatement.step p pc s = (.ok (pc + 1), (m.begun pc s).leave) := by
    rw [step_of_directive p m pc hs]
    simp only [direct, scopes_begun, hscopes]
  exact ⟨_, dispatch_of_step hstep⟩

end Machine

end SqlFlow
