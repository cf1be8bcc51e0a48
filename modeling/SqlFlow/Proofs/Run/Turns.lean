import SqlFlow.Proofs.Run.Progress

/-!
# The turns of a run

The loop of a run takes one turn for each statement that it dispatches. Here it is told as the row of its
turns, each with the state that it begins in.

* `Turn`: a statement and the state that it is dispatched in. `Turn.after`: what that comes to.
* `Machine.turnsFrom`: the turns of the loop, by the same recursion as the loop. `Program.turns`: those of
  a whole run. `indicesOf_run`: the events of the run tell of just these.
* `Machine.turns`: the turns from a statement on. `turns_of_ok`, `turns_of_error`: they are taken one by
  one, with no bound on their number.
* `Arrives.of_mem_turns`, `Arrives.exists_next_of_turns`: each is one of the run, and none goes back.
* `Arrives.exists_turns`: where a run has got to, the turns that are left are the rest of its own.
-/

namespace SqlFlow

variable {σ : Type}

/-- One turn of the loop of a run. -/
structure Turn (σ : Type) where
  /-- The index of the statement that is dispatched. -/
  index : Nat
  statement : Statement
  /-- The state that the statement is dispatched in. -/
  before : Machine σ

variable [Connection σ]

/-- What comes of a turn: the index to go on with, or a failure that nothing handles, and the state then. -/
def Turn.after (p : Program) (t : Turn σ) : Except Failure Nat × Machine σ :=
  t.before.dispatch p t.index t.statement

namespace Machine

/-- The turns of the loop from index `pc` on, at most `fuel` of them. -/
def turnsFrom (p : Program) : (fuel : Nat) → Machine σ → (pc : Nat) → List (Turn σ)
  | 0, _, _ => []
  | fuel + 1, m, pc =>
    match p.get? pc with
    | none => []
    | some s =>
      let t : Turn σ := ⟨pc, s, m⟩
      match t.after p with
      | (.ok next, m') => t :: turnsFrom p fuel m' next
      | (.error _, _) => [t]

/-- The loop tells of its turns and counts them. -/
theorem tally_runFrom (p : Program) (fuel : Nat) (m : Machine σ) (pc : Nat) :
    (runFrom p fuel m pc).2.tally =
      (m.tally.1 ++ (turnsFrom p fuel m pc).map Turn.index,
        m.tally.2 + (turnsFrom p fuel m pc).length) := by
  induction fuel generalizing m pc with
  | zero => simp [runFrom, turnsFrom]
  | succ fuel ih =>
    unfold runFrom turnsFrom
    cases hget : p.get? pc with
    | none => simp
    | some s =>
      have hone := tally_dispatch p m pc s
      simp only [Turn.after]
      rcases hdispatch : m.dispatch p pc s with ⟨failure | next, m'⟩ <;> rw [hdispatch] at hone
      · simpa using hone
      · dsimp only at hone ⊢
        rw [ih m' next, hone]
        simp [Nat.add_assoc, Nat.add_comm 1]

/-- The turns that are left from index `pc` on. -/
def turns (p : Program) (m : Machine σ) (pc : Nat) : List (Turn σ) :=
  turnsFrom p (p.size - pc) m pc

variable {p : Program} {m m' : Machine σ} {pc next : Nat} {s : Statement}

/-- A bound that leaves a turn for every statement from `pc` on is no bound. -/
theorem turnsFrom_eq (h : p.Nested) {fuel fuel' : Nat} (hfits : p.Fits pc m.scopes)
    (hfuel : p.size ≤ pc + fuel) (hfuel' : p.size ≤ pc + fuel') :
    turnsFrom p fuel m pc = turnsFrom p fuel' m pc := by
  induction fuel generalizing m pc fuel' with
  | zero =>
    have hnone : p.get? pc = none := Program.get?_eq_none_iff.2 hfuel
    cases fuel' with
    | zero => rfl
    | succ fuel' => simp [turnsFrom, hnone]
  | succ fuel ih =>
    cases fuel' with
    | zero =>
      have hnone : p.get? pc = none := Program.get?_eq_none_iff.2 hfuel'
      simp [turnsFrom, hnone]
    | succ fuel' =>
      unfold turnsFrom
      cases hget : p.get? pc with
      | none => rfl
      | some s =>
        have hadvances := advances_dispatch h hfits hget
        simp only [Turn.after]
        rcases hdispatch : m.dispatch p pc s with ⟨failure | next, m'⟩
        · rfl
        · obtain ⟨hlt, -, hfits'⟩ := hadvances next m' hdispatch
          dsimp only
          rw [ih hfits' (by omega) (by omega : p.size ≤ next + fuel')]

theorem turns_of_ok (h : p.Nested) (hfits : p.Fits pc m.scopes) (hget : p.get? pc = some s)
    (hdispatch : m.dispatch p pc s = (.ok next, m')) :
    turns p m pc = ⟨pc, s, m⟩ :: turns p m' next := by
  have hlt : pc < p.size := Program.lt_size_of_get? hget
  obtain ⟨hnext, -, hfits'⟩ := advances_dispatch h hfits hget _ _ hdispatch
  obtain ⟨fuel, hfuel⟩ : ∃ fuel, p.size - pc = fuel + 1 := ⟨p.size - pc - 1, by omega⟩
  unfold turns
  rw [hfuel, turnsFrom, hget]
  simp only [Turn.after, hdispatch]
  rw [turnsFrom_eq h hfits' (by omega) (by omega : p.size ≤ next + (p.size - next))]

theorem turns_of_error {failure : Failure} (hget : p.get? pc = some s)
    (hdispatch : m.dispatch p pc s = (.error failure, m')) : turns p m pc = [⟨pc, s, m⟩] := by
  have hlt : pc < p.size := Program.lt_size_of_get? hget
  obtain ⟨fuel, hfuel⟩ : ∃ fuel, p.size - pc = fuel + 1 := ⟨p.size - pc - 1, by omega⟩
  unfold turns
  rw [hfuel, turnsFrom, hget]
  simp only [Turn.after, hdispatch]

theorem turns_of_none (hget : p.get? pc = none) : turns p m pc = [] := by
  unfold turns
  cases p.size - pc with
  | zero => rfl
  | succ fuel => simp [turnsFrom, hget]

end Machine

/-! ## Turns that are left -/

namespace Program

section

variable {p : Program} {outer : Bool} {connection : Option σ} {m : Machine σ} {pc : Nat}
  (harrives : p.Arrives outer connection m pc) (h : p.Nested) {t u : Turn σ} {later : List (Turn σ)}

include harrives h

/-- The first turn that is left, and the others. -/
theorem Arrives.turns_eq_cons_cases (hturns : m.turns p pc = t :: later) :
    p.get? pc = some t.statement ∧ t = ⟨pc, t.statement, m⟩ ∧
      (later = [] ∨ ∃ next m', t.after p = (.ok next, m') ∧ pc < next ∧
        p.Arrives outer connection m' next ∧ later = m'.turns p next) := by
  have hfits := (harrives.fits h).2
  cases hget : p.get? pc with
  | none => simp [Machine.turns_of_none hget] at hturns
  | some s =>
    rcases hdispatch : m.dispatch p pc s with ⟨failure | next, m'⟩
    · rw [Machine.turns_of_error hget hdispatch] at hturns
      obtain ⟨rfl, rfl⟩ := List.cons.inj hturns
      exact ⟨rfl, rfl, .inl rfl⟩
    · obtain ⟨hlt, -, -⟩ := Machine.advances_dispatch h hfits hget _ _ hdispatch
      rw [Machine.turns_of_ok h hfits hget hdispatch] at hturns
      obtain ⟨rfl, rfl⟩ := List.cons.inj hturns
      exact ⟨rfl, rfl, .inr ⟨next, m', hdispatch, hlt, harrives.next hget hdispatch, rfl⟩⟩

/-- No turn goes back, and each is one of its own statement, in a state that the run arrives in. -/
theorem Arrives.of_mem_turns (ht : t ∈ m.turns p pc) :
    pc ≤ t.index ∧ p.Arrives outer connection t.before t.index ∧ p.get? t.index = some t.statement := by
  induction hturns : m.turns p pc generalizing m pc with
  | nil => simp [hturns] at ht
  | cons u later ih =>
    obtain ⟨hget, hu, hlater⟩ := harrives.turns_eq_cons_cases h hturns
    rw [hturns, List.mem_cons] at ht
    rcases ht with rfl | ht
    · rw [hu]
      exact ⟨Nat.le_refl _, harrives, hget⟩
    · obtain rfl | ⟨next, m', -, hlt, harrives', rfl⟩ := hlater
      · simp at ht
      · obtain ⟨hle, harrives'', hget'⟩ := ih harrives' ht rfl
        exact ⟨by omega, harrives'', hget'⟩

/-- The turns behind a turn begin where that leads, which is further down. -/
theorem Arrives.exists_next_of_turns {earlier : List (Turn σ)}
    (hturns : m.turns p pc = earlier ++ t :: later) (hu : u ∈ later) :
    ∃ next, (t.after p).1 = .ok next ∧ t.index < next ∧ next ≤ u.index := by
  induction earlier generalizing m pc with
  | nil =>
    obtain ⟨-, ht, rfl | ⟨next, m', hafter, hlt, harrives', rfl⟩⟩ := harrives.turns_eq_cons_cases h hturns
    · simp at hu
    · have hindex : t.index = pc := congrArg Turn.index ht
      exact ⟨next, congrArg Prod.fst hafter, by omega, (harrives'.of_mem_turns h hu).1⟩
  | cons e earlier ih =>
    obtain ⟨-, -, hnil | ⟨next, m', -, -, harrives', hrest⟩⟩ := harrives.turns_eq_cons_cases h hturns
    · simp at hnil
    · exact ih harrives' hrest.symm

end

end Program

/-! ## Whole runs -/

namespace Program

/-- The turns of a run. -/
def turns (p : Program) (outer : Bool) (connection : Option σ) : List (Turn σ) :=
  if p.executable then
    let m := Machine.emit { connection } (.started p.size outer)
    if outer then
      match m.transact .begin with
      | (.ok (), m) => m.turns p 0
      | (.error _, _) => []
    else m.turns p 0
  else []

/-- The statements that a run tells of are those of its turns. -/
theorem indicesOf_run (p : Program) (marker : String) (outer : Bool) (connection : Option σ) :
    indicesOf (p.run marker outer connection).events = (p.turns outer connection).map Turn.index := by
  have hloop : ∀ m : Machine σ, m.tally.1 = [] → (m.runAll p).2.tally.1 = (m.turns p 0).map Turn.index :=
    fun m hm => by
      rw [Machine.runAll, Machine.tally_runFrom, hm]
      rfl
  suffices htally : (p.run marker outer connection).tally.1 = (p.turns outer connection).map Turn.index from
    htally
  unfold run turns
  cases p.executable with
  | false => rfl
  | true =>
    simp only [if_true]
    generalize hm : Machine.emit ({ connection } : Machine σ) (.started p.size outer) = m
    have hstart : m.tally.1 = [] := by
      rw [← hm]
      rfl
    cases outer with
    | false =>
      simp only [if_neg Bool.false_ne_true]
      rw [Machine.tally_runBare, hloop m hstart]
    | true =>
      simp only [if_true]
      have hbegin := m.tally_transact .begin
      rcases hq : m.transact .begin with ⟨failure | _, n⟩ <;> rw [hq] at hbegin <;> dsimp only at hbegin ⊢
      · unfold Machine.runEnclosed
        rw [hq]
        dsimp only
        have hhalt : (n.halt failure "").tally = n.tally := n.tally_halt failure ""
        rw [hhalt, hbegin, hstart]
        rfl
      · rw [Machine.tally_runEnclosed_of_begin p marker hq, hloop n (hbegin ▸ hstart)]

/-- Each turn is one of its own statement, in the state that the run gets to it in. -/
theorem of_mem_turns {p : Program} {outer : Bool} {connection : Option σ} (h : p.Nested) {t : Turn σ}
    (ht : t ∈ p.turns outer connection) :
    p.Arrives outer connection t.before t.index ∧ p.get? t.index = some t.statement := by
  have hloop : ∀ m : Machine σ, p.Arrives outer connection m 0 → t ∈ m.turns p 0 →
      p.Arrives outer connection t.before t.index ∧ p.get? t.index = some t.statement :=
    fun m harrives ht => (harrives.of_mem_turns h ht).2
  unfold turns at ht
  cases hexecutable : p.executable with
  | false => simp [hexecutable] at ht
  | true =>
    simp only [hexecutable, if_true] at ht
    cases outer with
    | false => exact hloop _ (.bare rfl) ht
    | true =>
      simp only [if_true] at ht
      split at ht
      · next n hbegin => exact hloop n (.enclosed rfl hbegin) ht
      · simp at ht

/-- Where a run has got to, the turns that are left are the rest of those of the run. -/
theorem Arrives.exists_turns {p : Program} {outer : Bool} {connection : Option σ} {m : Machine σ}
    {pc : Nat} (harrives : p.Arrives outer connection m pc) (h : p.Nested)
    (hexecutable : p.executable = true) :
    ∃ earlier, p.turns outer connection = earlier ++ m.turns p pc ∧ ∀ t ∈ earlier, t.index < pc := by
  induction harrives with
  | bare houter =>
    subst houter
    exact ⟨[], by simp [turns, hexecutable], by simp⟩
  | enclosed houter hbegin =>
    subst houter
    exact ⟨[], by simp [turns, hexecutable, hbegin], by simp⟩
  | @next m m' pc next s harrives hget hdispatch ih =>
    obtain ⟨earlier, hturns, hearlier⟩ := ih
    have hfits := (harrives.fits h).2
    obtain ⟨hlt, -, -⟩ := Machine.advances_dispatch h hfits hget _ _ hdispatch
    refine ⟨earlier ++ [⟨pc, s, m⟩], ?_, fun t ht => ?_⟩
    · rw [hturns, Machine.turns_of_ok h hfits hget hdispatch, List.append_assoc, List.singleton_append]
    · rcases List.mem_append.1 ht with ht | ht
      · have := hearlier t ht
        omega
      · obtain rfl := List.mem_singleton.1 ht
        exact hlt

end Program

end SqlFlow
