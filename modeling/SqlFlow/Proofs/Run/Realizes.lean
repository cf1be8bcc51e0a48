import SqlFlow.Proofs.Run.Reaches

/-!
# What a part of a program comes to

* `Realizes`: the run over a part of a program ends as the interpreter of block trees says, and the
  scopes that were open before are still open, or what failed comes to unwinding them.
* `Realizes.andThen`: one part after the other.
* `realizes_blame`, `realizes_leave`, `realizes_choose`, `realizes_begin`, `realizes_commit`: the
  kinds of statements, whatever directive it is that does the one or the other.
-/

namespace SqlFlow.Machine

variable {σ : Type} [Connection σ] {p : Program} {marker : String}

/-! ## One statement -/

/-- A directive that makes no call, and does `after` to the machine. -/
theorem reaches_directive {m : Machine σ} {i : Nat} {l : Line} {d : Directive} {target : Option Nat}
    {scopes : List Scope} (hget : p.get? i = some (l.statement (.directive d) target))
    (hm : m.scopes = scopes) (after : Machine σ → Machine σ) (next : Nat)
    (hdirect : ∀ n : Machine σ, n.scopes = scopes →
      n.direct d (l.statement (.directive d) target) i (target.getD p.size) = (.ok next, after n))
    (hnext : i < next) :
    ∃ n, Reaches p m i (after n) next ∧ n.store = m.store.tick ∧ n.scopes = scopes :=
  ⟨_, .of_step hget (hdirect (m.countStatement.emit _) hm) hnext, rfl, hm⟩

section

variable {m n : Machine σ} {i : Nat} {s : Statement} {store : Store σ}
  {r : Except Failure Unit × Machine σ} {q : Except Failure Unit × Store σ}
  {after : Machine σ → Machine σ}

/-- A statement that makes a call, when the call succeeds. -/
theorem reaches_of_goOn (hget : p.get? i = some s)
    (hstep : m.countStatement.step p i s = goOn (i + 1) after r) (hr : Tracks n r q)
    (hq : q = (.ok (), store)) :
    ∃ m', Reaches p m i (after m') (i + 1) ∧ m'.store = store ∧ m'.scopes = n.scopes := by
  obtain ⟨m', rfl, hstore, hscopes⟩ := hr.of_eq hq
  exact ⟨m', .of_step hget hstep (by omega), hstore, hscopes⟩

/-- A statement that makes a call, when the call fails. -/
theorem fails_of_goOn {failure : Failure} (hget : p.get? i = some s)
    (hstep : m.countStatement.step p i s = goOn (i + 1) after r) (hr : Tracks n r q)
    (hq : q = (.error failure, store)) :
    Fails p marker m i (i + 1) n.scopes ⟨failure, s.describe marker⟩ store := by
  obtain ⟨m', rfl, rfl, hscopes⟩ := hr.of_eq hq
  rw [← hscopes]
  exact .of_step hget hstep (by omega)

end

/-! ## A part of a program -/

/-- From index `pc` the run ends as the index of this says: at index `stop` inside `scopes`, or with a
failure that it comes to unwinding `scopes` with. -/
inductive Realizes (p : Program) (marker : String) (m : Machine σ) (pc stop : Nat)
    (scopes : List Scope) : Except Fault Unit × Store σ → Prop where
  | reaches {m' : Machine σ} {store : Store σ} (hreaches : Reaches p m pc m' stop)
      (hstore : m'.store = store) (hscopes : m'.scopes = scopes) :
      Realizes p marker m pc stop scopes (.ok (), store)
  | fails {fault : Fault} {store : Store σ} (hfails : Fails p marker m pc stop scopes fault store) :
      Realizes p marker m pc stop scopes (.error fault, store)

namespace Realizes

variable {m m₁ : Machine σ} {pc pc₁ mid stop : Nat} {scopes inner : List Scope}
  {r : Except Fault Unit × Store σ}

theorem of_reaches (h : Reaches p m pc m₁ pc₁) (hr : Realizes p marker m₁ pc₁ stop scopes r) :
    Realizes p marker m pc stop scopes r := by
  cases hr with
  | reaches hreaches hstore hscopes => exact .reaches (h.trans hreaches) hstore hscopes
  | fails hfails => exact .fails (hfails.of_reaches h)

/-- One part after the other. The first one may be inside further scopes, if these are left without
more ado when it fails. -/
theorem andThen {next : Store σ → Except Fault Unit × Store σ} (hle : mid ≤ stop)
    (hr : Realizes p marker m pc mid inner r)
    (hleave : ∀ {fault : Fault} {store : Store σ},
      Fails p marker m pc mid inner fault store → Fails p marker m pc mid scopes fault store)
    (hnext : ∀ m', m'.scopes = inner → Realizes p marker m' mid stop scopes (next m'.store)) :
    Realizes p marker m pc stop scopes (SqlFlow.andThen r next) := by
  cases hr with
  | reaches hreaches hstore hscopes =>
    subst hstore
    exact of_reaches hreaches (hnext _ hscopes)
  | fails hfails => exact .fails ((hleave hfails).mono hle)

end Realizes

/-! ## The kinds of statements -/

/-- A statement that is nothing but a call. -/
theorem realizes_blame {m n : Machine σ} {i : Nat} {s : Statement}
    {r : Except Failure Unit × Machine σ} {q : Except Failure Unit × Store σ}
    (hget : p.get? i = some s) (hstep : m.countStatement.step p i s = goOn (i + 1) id r)
    (hr : Tracks n r q) :
    Realizes p marker m i (i + 1) n.scopes (blame (s.describe marker) q) := by
  rcases hq : q with ⟨failure | _, store⟩
  · exact .fails (fails_of_goOn hget hstep hr hq)
  · obtain ⟨m', hreaches, hstore, hscopes⟩ := reaches_of_goOn hget hstep hr hq
    exact .reaches hreaches hstore hscopes

/-- A directive that ends a block, and makes no call. -/
theorem realizes_leave {m : Machine σ} {i : Nat} {l : Line} {d : Directive} {scope : Scope}
    {outer : List Scope} (hget : p.get? i = some (l.statement (.directive d)))
    (hm : m.scopes = scope :: outer)
    (hdirect : ∀ n : Machine σ, n.scopes = scope :: outer →
      n.direct d (l.statement (.directive d)) i p.size = (.ok (i + 1), n.leave)) :
    Realizes p marker m i (i + 1) outer (.ok (), m.store.tick) := by
  obtain ⟨n, hreaches, hstore, hscopes⟩ :=
    reaches_directive hget hm leave (i + 1) hdirect (by omega)
  exact .reaches hreaches hstore (by rw [scopes_leave, hscopes, List.tail_cons])

theorem describe_statement (l : Line) (d : Directive) (target : Option Nat) :
    (l.statement (.directive d) target).describe marker = l.shown marker d := rfl

/-- A member of a chain whose condition is asked for. -/
theorem realizes_choose {m : Machine σ} {i next stop : Nat} {l : Line} {member : Directive}
    {scopes outer : List Scope} {yes no : Store σ → Except Fault Unit × Store σ}
    (hget : p.get? i = some (l.statement (.directive member) (some next)))
    (hm : m.scopes = scopes) (enter : Bool → Machine σ → Machine σ)
    (hdirect : ∀ n : Machine σ, n.scopes = scopes →
      n.direct member (l.statement (.directive member) (some next)) i next
        = branch n member (l.statement (.directive member) (some next)) i next enter)
    (hnext : i < next) (hle : i + 1 ≤ stop)
    (henter : ∀ taken n, n.scopes = scopes →
      (enter taken n).store = n.store ∧ (enter taken n).scopes = .conditional taken :: outer)
    (hleave : ∀ {fault : Fault} {store : Store σ}, Fails p marker m i (i + 1) scopes fault store →
      Fails p marker m i (i + 1) outer fault store)
    (hyes : ∀ m', m'.scopes = .conditional true :: outer →
      Realizes p marker m' (i + 1) stop outer (yes m'.store))
    (hno : ∀ m', m'.scopes = .conditional false :: outer →
      Realizes p marker m' next stop outer (no m'.store)) :
    Realizes p marker m i stop outer (choose l.text (l.shown marker member) yes no m.store) := by
  -- the statement has been counted and told of before its condition is asked for
  let n := m.countStatement.emit (.dispatched i l.number (.directive member))
  have htracks : Tracks n (n.evaluate l.number l.text) (m.store.tick.evaluate l.text) :=
    tracks_evaluate n l.number l.text
  have hstep : m.countStatement.step p i (l.statement (.directive member) (some next)) = _ :=
    hdirect n hm
  simp only [branch, Line.statement] at hstep
  rw [choose, ← describe_statement l member (some next)]
  rcases hq : m.store.tick.evaluate l.text with ⟨failure | taken, store⟩
  · obtain ⟨m₁, hevaluate, rfl, hscopes⟩ := htracks.of_eq hq
    refine .fails ((hleave ?_).mono hle)
    rw [← show m₁.scopes = scopes from hscopes.trans hm]
    exact .of_step hget (hstep.trans (by rw [hevaluate])) (by omega)
  · obtain ⟨m₁, hevaluate, rfl, hscopes⟩ := htracks.of_eq hq
    have hok : m.countStatement.step p i (l.statement (.directive member) (some next))
        = (.ok (if taken then i + 1 else next),
          enter taken (m₁.emit (.decided l.number member taken))) :=
      hstep.trans (by rw [hevaluate])
    obtain ⟨hstore', hscopes'⟩ :=
      henter taken (m₁.emit (.decided l.number member taken)) (hscopes.trans hm)
    cases taken with
    | false =>
      have hrest := hno _ hscopes'
      rw [hstore'] at hrest
      exact .of_reaches (.of_step hget hok hnext) hrest
    | true =>
      have hrest := hyes _ hscopes'
      rw [hstore'] at hrest
      exact .of_reaches (.of_step hget hok (by simp)) hrest

/-- The opening of a block that is a transaction. -/
theorem realizes_begin {m : Machine σ} {i stop : Nat} {l : Line} {d : Directive}
    {target : Option Nat} {scope : Scope} {f : Store σ → Except Fault Unit × Store σ}
    (hget : p.get? i = some (l.statement (.directive d) target))
    (hdirect : ∀ n : Machine σ,
      n.direct d (l.statement (.directive d) target) i (target.getD p.size)
        = goOn (i + 1) (enter · scope) (n.transact .begin))
    (hle : i + 1 ≤ stop)
    (hbody : ∀ n, n.scopes = scope :: m.scopes →
      Realizes p marker n (i + 1) stop m.scopes (f n.store)) :
    Realizes p marker m i stop m.scopes
      (SqlFlow.andThen (blame (l.shown marker d) (m.store.tick.transact .begin)) f) := by
  have hstep : m.countStatement.step p i (l.statement (.directive d) target) = goOn _ _ _ :=
    hdirect (m.countStatement.emit (.dispatched i l.number (.directive d)))
  have htracks := tracks_transact (m.countStatement.emit (.dispatched i l.number (.directive d)))
    .begin
  rw [store_emit, store_countStatement] at htracks
  rcases hq : m.store.tick.transact .begin with ⟨failure | _, store⟩
  · exact .fails ((fails_of_goOn hget hstep htracks hq).mono hle)
  · obtain ⟨m', hreaches, hstore, hscopes⟩ := reaches_of_goOn hget hstep htracks hq
    have hrun := hbody (m'.enter scope) (by rw [scopes_enter, hscopes]; rfl)
    rw [store_enter, hstore] at hrun
    exact .of_reaches hreaches hrun

/-- The end of a transaction: the scope is left, and what it stood for is committed. -/
theorem realizes_commit {m : Machine σ} {i : Nat} {l : Line} {d : Directive} {scope : Scope}
    {outer : List Scope} (hget : p.get? i = some (l.statement (.directive d)))
    (hm : m.scopes = scope :: outer)
    (hdirect : ∀ n : Machine σ, n.scopes = scope :: outer →
      n.direct d (l.statement (.directive d)) i p.size = goOn (i + 1) id n.leave.commit) :
    Realizes p marker m i (i + 1) outer (blame (l.shown marker d) m.store.tick.commit) := by
  have hstep : m.countStatement.step p i (l.statement (.directive d)) = goOn (i + 1) id _ :=
    hdirect (m.countStatement.emit (.dispatched i l.number (.directive d))) hm
  have hrun : Realizes p marker m i (i + 1) _ _ := realizes_blame hget hstep (tracks_commit _)
  rw [scopes_leave, scopes_emit, scopes_countStatement, hm, List.tail_cons] at hrun
  exact hrun

end SqlFlow.Machine
