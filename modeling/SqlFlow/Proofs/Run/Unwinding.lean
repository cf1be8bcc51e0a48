import SqlFlow.Proofs.Run.Effects

/-!
# Unwinding

A failure leaves the blocks around the statement that it arose in, from the inside out, until one of them
handles it. Which blocks those are, and what becomes of each, is a matter of the text and of what the
connection answers to the rollbacks.

* `Program.enclosing`: the blocks around a statement. `Program.InBody`, `Program.Passes`: where in a block
  the statement stands.
* `Program.Leaves`: blocks are left, with the rollbacks that this takes. `Program.Catches`: an attempt
  handles the failure. `carried`: what has become of the failure meanwhile.
* `Program.Stands`: the scope of a block around a statement that fails. `stands_of_effect`: the scopes that
  are left to unwind are those.
* `Machine.Unwound`: what comes of a failure. `unwound_unwind`: the induction on the blocks.
-/

namespace SqlFlow

/-! ## Blocks around a statement -/

namespace Program

/-- The blocks around the statement `pc`: those that are open before it, but for the one that it commits
the transaction of. -/
def enclosing (p : Program) (pc : Nat) : List OpenBlock :=
  if p.kind? pc = some (.directive .endAttempt) ∨ p.kind? pc = some (.directive .endTransaction) then
    (p.openBlocks pc).tail
  else p.openBlocks pc

theorem enclosing_of_close {p : Program} {pc : Nat}
    (h : ∃ x ∈ [Directive.endAttempt, .endTransaction], p.kind? pc = some (.directive x)) :
    p.enclosing pc = (p.openBlocks pc).tail := by
  obtain ⟨x, hx, hkind⟩ := h
  simp only [List.mem_cons, List.not_mem_nil, or_false] at hx
  refine if_pos ?_
  rcases hx with rfl | rfl
  · exact .inl hkind
  · exact .inr hkind

theorem enclosing_of_other {p : Program} {pc : Nat}
    (h : ∀ x ∈ [Directive.handler, .endAttempt, .endTransaction], p.kind? pc ≠ some (.directive x)) :
    p.enclosing pc = p.openBlocks pc := by
  refine if_neg ?_
  rintro (hkind | hkind)
  · exact h .endAttempt (by decide) hkind
  · exact h .endTransaction (by decide) hkind

/-- The block is an attempt, and the statement `pc` stands in its body. -/
structure InBody (p : Program) (pc : Nat) (b : OpenBlock) (transactional : Bool) (handler : Nat) :
    Prop where
  opener : p.kind? b.opener = some (.directive (.attemptOf transactional))
  next : p.Adjacent b.opener handler
  kind : p.kind? handler = some (.directive .handler)
  behind : b.opener < pc
  before : pc < handler

/-- A failure of the statement `pc` leaves the block without further ado: it is a chain, or an attempt in
whose handler the statement stands. -/
inductive Passes (p : Program) (pc : Nat) (b : OpenBlock) : Prop where
  | chain (hopener : p.kind? b.opener = some (.directive .ifThen))
  | handler {transactional : Bool} {handler last : Nat}
      (hopener : p.kind? b.opener = some (.directive (.attemptOf transactional)))
      (hnext : p.Adjacent b.opener handler) (hlast : p.Adjacent handler last)
      (hbehind : handler < pc) (hbefore : pc < last)

end Program

/-! ## Leaving blocks -/

/-- The failure that is unwound once rollbacks have been answered with these errors, or with none. -/
def carried (failure : Failure) (errors : List (Option SqlError)) : Failure :=
  ((errors.filterMap id).getLast?).elim failure (Failure.transaction .rollback)

@[simp] theorem carried_nil (failure : Failure) : carried failure [] = failure := rfl

@[simp] theorem carried_none (failure : Failure) (errors : List (Option SqlError)) :
    carried failure (none :: errors) = carried failure errors := rfl

@[simp] theorem carried_some (failure : Failure) (error : SqlError) (errors : List (Option SqlError)) :
    carried failure (some error :: errors) = carried (.transaction .rollback error) errors := by
  unfold carried
  show ((error :: errors.filterMap id).getLast?).elim _ _ = _
  rw [List.getLast?_cons]
  cases (errors.filterMap id).getLast? <;> rfl

variable {σ : Type} [Connection σ]

/-- A rollback, and the error that it is answered with if it fails. -/
inductive RollsBack : Option SqlError → σ → σ → Prop where
  | done {c c' : σ} (h : Connection.transact .rollback c = (.ok (), c')) : RollsBack none c c'
  | failed {c c' : σ} {error : SqlError} (h : Connection.transact .rollback c = (.error error, c')) :
      RollsBack (some error) c c'

namespace Program

/-- A failure of the statement `pc` leaves blocks, the innermost first: those that are left are
`blocks'`. The rollbacks that this takes are answered with `errors`. -/
inductive Leaves (p : Program) (pc : Nat) : (blocks : List OpenBlock) → Option σ →
    (errors : List (Option SqlError)) → (blocks' : List OpenBlock) → Option σ → Prop where
  | here (blocks : List OpenBlock) (c : Option σ) : Leaves p pc blocks c [] blocks c
  | pass {b : OpenBlock} {blocks blocks' : List OpenBlock} {c c' : Option σ}
      {errors : List (Option SqlError)} (hpasses : p.Passes pc b)
      (rest : Leaves p pc blocks c errors blocks' c') : Leaves p pc (b :: blocks) c errors blocks' c'
  /-- A transaction block is rolled back, whatever becomes of that. -/
  | transaction {b : OpenBlock} {blocks blocks' : List OpenBlock} {c c₁ : σ} {c' : Option σ}
      {error : Option SqlError} {errors : List (Option SqlError)}
      (hopener : p.kind? b.opener = some (.directive .beginTransaction))
      (hrollback : RollsBack error c c₁) (rest : Leaves p pc blocks (some c₁) errors blocks' c') :
      Leaves p pc (b :: blocks) (some c) (error :: errors) blocks' c'
  /-- A transactional attempt that cannot be rolled back handles nothing. -/
  | attempt {b : OpenBlock} {blocks blocks' : List OpenBlock} {handler : Nat} {c c₁ : σ}
      {c' : Option σ} {error : SqlError} {errors : List (Option SqlError)}
      (hbody : p.InBody pc b true handler) (hrollback : RollsBack (some error) c c₁)
      (rest : Leaves p pc blocks (some c₁) errors blocks' c') :
      Leaves p pc (b :: blocks) (some c) (some error :: errors) blocks' c'

/-- An attempt handles a failure in its body, after a rollback if it is transactional. -/
inductive Catches (p : Program) (pc : Nat) (b : OpenBlock) (handler : Nat) :
    Option σ → Option σ → Prop where
  | attempt {c : Option σ} (hbody : p.InBody pc b false handler) : Catches p pc b handler c c
  | attemptTransaction {c c' : σ} (hbody : p.InBody pc b true handler) (hrollback : RollsBack none c c') :
      Catches p pc b handler (some c) (some c')

section

variable {p : Program} {pc handler : Nat} {b : OpenBlock} {blocks blocks' : List OpenBlock}
  {c c' : Option σ} {errors : List (Option SqlError)}

theorem Leaves.isSome_eq (h : p.Leaves pc blocks c errors blocks' c') : c'.isSome = c.isSome := by
  induction h with
  | here => rfl
  | pass _ _ ih => exact ih
  | transaction _ _ _ ih | attempt _ _ _ ih => exact ih

theorem Catches.isSome_eq (h : p.Catches pc b handler c c') : c'.isSome = c.isSome := by
  cases h <;> rfl

end

/-! ## The scopes of the blocks around a statement -/

/-- The scope of a block around the statement `pc`, which tells where in the block that stands. -/
inductive Stands (p : Program) (pc : Nat) : OpenBlock → Scope → Prop where
  | chain {b : OpenBlock} {taken : Bool} (hopener : p.kind? b.opener = some (.directive .ifThen)) :
      Stands p pc b (.conditional taken)
  | handler {b : OpenBlock} {transactional : Bool} {handler : Nat} (hpasses : p.Passes pc b) :
      Stands p pc b (.attempt transactional handler true)
  | body {b : OpenBlock} {transactional : Bool} {handler : Nat}
      (hbody : p.InBody pc b transactional handler) :
      Stands p pc b (.attempt transactional handler false)
  | transaction {b : OpenBlock} (hopener : p.kind? b.opener = some (.directive .beginTransaction)) :
      Stands p pc b .transaction

section

variable {p : Program} {pc : Nat} {b : OpenBlock} {scope : Scope} {blocks : List OpenBlock}
  {scopes : List Scope}

theorem Nested.stands (h : p.Nested) (hb : b ∈ p.openBlocks pc) (hne : p.target? b.member ≠ some pc)
    (hscoped : p.Scoped True b scope) : p.Stands pc b scope := by
  have hlt : b.member < pc := member_lt hb
  cases hscoped with
  | conditional hopener => exact .chain hopener
  | transaction hopener => exact .transaction hopener
  | @attempt transactional handling handler hopener htarget hhandling =>
    have hnext : p.Adjacent b.opener handler := (h.adjacent_of_target htarget).1
    have hkind := hnext.kind_of_attempt hopener
    rcases (h.shape hb).attempt_cases hopener with hmember | hmember
    · obtain rfl : handling = false := by simpa [hmember] using hhandling trivial
      rw [hmember] at hne hlt
      have hle : pc ≤ handler := h.le_target hb (hmember ▸ htarget)
      have hne' : pc ≠ handler := fun heq => hne (heq ▸ htarget)
      exact .body ⟨hopener, hnext, hkind, hlt, by omega⟩
    · obtain rfl : handler = b.member := Option.some.inj (htarget.symm.trans hmember)
      have hopener_ne : b.member ≠ b.opener := Nat.ne_of_gt hnext.lt
      obtain rfl : handling = true := by simpa [hopener_ne] using hhandling trivial
      obtain ⟨last, hlast⟩ := h.exists_target hkind rfl
      have hle : pc ≤ last := h.le_target hb hlast
      have hne' : pc ≠ last := fun heq => hne (heq ▸ hlast)
      exact .handler (.handler hopener hnext (h.adjacent_of_target hlast).1 hlt (by omega))

theorem Nested.forall₂_stands (h : p.Nested) (hblocks : blocks <:+ p.openBlocks pc)
    (hwithin : p.Within pc blocks) (hsettled : p.Settled blocks scopes) :
    List.Forall₂ (p.Stands pc) blocks scopes := by
  have hboth := (List.forall₂_and_left _ _).2
    ⟨fun b hb => And.intro (hblocks.subset hb) (hwithin b hb), hsettled⟩
  exact hboth.imp fun b scope ⟨⟨hb, hne⟩, hscoped⟩ => h.stands hb hne hscoped

/-- The scopes that are left to unwind when a statement fails are those of the blocks around it. -/
theorem stands_of_effect (h : p.Nested) (hfits : p.Fits pc scopes) {s : Statement}
    (hget : p.get? pc = some s) {connection : Option σ} {failure : Failure} {n : Machine σ}
    (heffect : Machine.Effect p pc scopes connection (.error failure, n)) :
    List.Forall₂ (p.Stands pc) (p.enclosing pc) n.scopes ∧ n.scopes <:+ scopes := by
  have hkind : p.kind? pc = some s.kind := kind?_of_get? hget
  cases heffect with
  | fail hother hscopes =>
    rw [hscopes, enclosing_of_other hother]
    refine ⟨?_, List.suffix_rfl⟩
    by_cases hcontinues : ∃ y, p.kind? pc = some (.directive y) ∧ y.continues = true
    · -- a member of a chain, whose condition cannot be asked for: the chain is left like any other
      obtain ⟨y, hy, hcontinues⟩ := hcontinues
      obtain ⟨b, outer, scope, rest, hblocks, rfl, hcontinued, hsettled, hwithin⟩ :=
        hfits.exists_continued h hy hcontinues
      rw [hblocks]
      refine .cons ?_ (h.forall₂_stands (hblocks ▸ List.suffix_cons ..) hwithin hsettled)
      cases hcontinued with
      | chain _ hopener => exact .chain hopener
      | handler => exact absurd hy (hother .handler (by decide))
      | endAttempt => exact absurd hy (hother .endAttempt (by decide))
      | endTransaction => exact absurd hy (hother .endTransaction (by decide))
    · have hwithin : p.Within pc (p.openBlocks pc) := h.within_of_kind hkind fun y hy => by
        rw [hy] at hkind
        exact Bool.eq_false_iff.2 fun hcontinues' => hcontinues ⟨y, hkind, hcontinues'⟩
      exact h.forall₂_stands List.suffix_rfl hwithin (hfits.settled hwithin)
  | abandon hclose hscopes =>
    rw [enclosing_of_close hclose]
    obtain ⟨y, hy, hkind'⟩ := hclose
    have hcontinues : y.continues = true := by
      revert hy
      cases y <;> decide
    obtain ⟨b, outer, scope, rest, hblocks, hscopes', -, hsettled, hwithin⟩ :=
      hfits.exists_continued h hkind' hcontinues
    obtain ⟨-, rfl⟩ := List.cons.inj (hscopes.symm.trans hscopes')
    have hsuffix : outer <:+ p.openBlocks pc := hblocks ▸ List.suffix_cons ..
    rw [hblocks, hscopes]
    exact ⟨h.forall₂_stands hsuffix hwithin hsettled, List.suffix_cons ..⟩

end

end Program

/-! ## What comes of a failure -/

namespace Machine

/-- What comes of a failure of the statement `pc` inside `blocks`. Either one of them handles it, and the
scopes of those around that one are still there; or none does. -/
inductive Unwound (p : Program) (pc : Nat) (blocks : List OpenBlock) (scopes : List Scope)
    (connection : Option σ) (failure : Failure) : Except Failure Nat × Machine σ → Prop where
  | caught {errors : List (Option SqlError)} {b : OpenBlock} {outside : List OpenBlock} {handler line : Nat}
      {c : Option σ} {m' : Machine σ} {transactional : Bool} {rest : List Scope}
      (hleaves : p.Leaves pc blocks connection errors (b :: outside) c)
      (hcatches : p.Catches pc b handler c m'.connection)
      (hopener : p.kind? b.opener = some (.directive (.attemptOf transactional)))
      (hscopes : m'.scopes = .attempt transactional handler true :: rest) (hrest : rest <:+ scopes)
      (hlength : rest.length = outside.length)
      (hevent : m'.events.back? = some (.handled (carried failure errors) line)) :
      Unwound p pc blocks scopes connection failure (.ok handler, m')
  | uncaught {errors : List (Option SqlError)} {m' : Machine σ}
      (hleaves : p.Leaves pc blocks connection errors [] m'.connection) :
      Unwound p pc blocks scopes connection failure (.error (carried failure errors), m')

section

variable {p : Program} {pc : Nat} {b : OpenBlock} {blocks : List OpenBlock} {scope : Scope}
  {scopes scopes' : List Scope} {connection : Option σ} {failure : Failure}
  {r : Except Failure Nat × Machine σ}

theorem Unwound.mono (h : Unwound p pc blocks scopes connection failure r) (hsuffix : scopes <:+ scopes') :
    Unwound p pc blocks scopes' connection failure r := by
  cases h with
  | caught hleaves hcatches hopener hscopes hrest hlength hevent =>
    exact .caught hleaves hcatches hopener hscopes (hrest.trans hsuffix) hlength hevent
  | uncaught hleaves => exact .uncaught hleaves

/-! The innermost block is left. -/

theorem Unwound.pass (hpasses : p.Passes pc b) (h : Unwound p pc blocks scopes connection failure r) :
    Unwound p pc (b :: blocks) (scope :: scopes) connection failure r := by
  replace h := h.mono (List.suffix_cons scope scopes)
  cases h with
  | caught hleaves hcatches hopener hscopes hrest hlength hevent =>
    exact .caught (hleaves.pass hpasses) hcatches hopener hscopes hrest hlength hevent
  | uncaught hleaves => exact .uncaught (hleaves.pass hpasses)

theorem Unwound.transaction {c c₁ : σ} {error : Option SqlError}
    (hopener : p.kind? b.opener = some (.directive .beginTransaction)) (hrollback : RollsBack error c c₁)
    (h : Unwound p pc blocks scopes (some c₁) (carried failure [error]) r) :
    Unwound p pc (b :: blocks) (scope :: scopes) (some c) failure r := by
  replace h := h.mono (List.suffix_cons scope scopes)
  have hcarried : ∀ errors, carried (carried failure [error]) errors = carried failure (error :: errors) :=
    fun errors => by
      cases error with
      | none => rfl
      | some error => rw [carried_some, carried_some, carried_nil]
  cases h with
  | caught hleaves hcatches hattempt hscopes hrest hlength hevent =>
    rw [hcarried] at hevent
    exact .caught (.transaction hopener hrollback hleaves) hcatches hattempt hscopes hrest hlength hevent
  | uncaught hleaves =>
    rw [hcarried]
    exact .uncaught (.transaction hopener hrollback hleaves)

theorem Unwound.attempt {c c₁ : σ} {error : SqlError} {handler : Nat} (hbody : p.InBody pc b true handler)
    (hrollback : RollsBack (some error) c c₁)
    (h : Unwound p pc blocks scopes (some c₁) (.transaction .rollback error) r) :
    Unwound p pc (b :: blocks) (scope :: scopes) (some c) failure r := by
  replace h := h.mono (List.suffix_cons scope scopes)
  cases h with
  | caught hleaves hcatches hopener hscopes hrest hlength hevent =>
    rw [← carried_some] at hevent
    exact .caught (.attempt hbody hrollback hleaves) hcatches hopener hscopes hrest hlength hevent
  | uncaught hleaves =>
    rw [← carried_some]
    exact .uncaught (.attempt hbody hrollback hleaves)

/-- The innermost block handles the failure. -/
theorem Unwound.handle (m : Machine σ) {transactional : Bool} {handler : Nat}
    (hcatches : p.Catches pc b handler connection m.connection)
    (hopener : p.kind? b.opener = some (.directive (.attemptOf transactional)))
    (hlength : scopes.length = blocks.length) :
    Unwound p pc (b :: blocks) (scope :: scopes) connection failure
      (m.handle p failure transactional handler scopes) :=
  .caught (.here _ _) hcatches hopener rfl (List.suffix_cons ..) hlength (Array.back?_push ..)

theorem exists_rollsBack (c : σ) : ∃ error c', RollsBack error c c' := by
  rcases hq : (Connection.transact .rollback c : Except SqlError Unit × σ) with ⟨error | _, c'⟩
  · exact ⟨some error, c', .failed hq⟩
  · exact ⟨none, c', .done hq⟩

theorem transact_of_rollsBack {m : Machine σ} {c c' : σ} {error : Option SqlError}
    (hm : m.connection = some c) (h : RollsBack error c c') :
    m.transact .rollback = (error.elim (.ok ()) fun error => .error (.transaction .rollback error),
      { m with connection := some c' }) := by
  unfold transact call
  rw [hm]
  cases h with
  | done h | failed h =>
    dsimp only
    rw [h]
    rfl

/-- Scopes are left one after the other, as the blocks are that they are the scopes of. -/
theorem unwound_unwind (h : List.Forall₂ (p.Stands pc) blocks scopes) (failure : Failure) (m : Machine σ)
    (hlinked : true ∈ holding scopes → m.connection.isSome = true) :
    Unwound p pc blocks scopes m.connection failure (unwind p failure m scopes) := by
  induction h generalizing failure m with
  | nil =>
    have hleaves : p.Leaves pc [] m.connection [] [] ({ m with scopes := [] } : Machine σ).connection :=
      .here [] m.connection
    exact .uncaught hleaves
  | @cons b scope blocks scopes hstands hrest ih =>
    have hlinked' : true ∈ holding scopes → m.connection.isSome = true :=
      fun hmem => hlinked (List.mem_cons_of_mem _ hmem)
    -- behind a rollback there still is a connection
    have hleave : ∀ (failure : Failure) (n : Machine σ) {c₁ : σ}, n.connection = some c₁ →
        Unwound p pc blocks scopes (some c₁) failure (unwind p failure n scopes) :=
      fun failure n c₁ hn => hn ▸ ih failure n fun _ => by rw [hn, Option.isSome_some]
    have hlength := hrest.length_eq.symm
    cases hstands with
    | chain hopener => exact (ih failure m hlinked').pass (.chain hopener)
    | handler hpasses => exact (ih failure m hlinked').pass hpasses
    | transaction hopener =>
      obtain ⟨c, hc⟩ := Option.isSome_iff_exists.1 (hlinked List.mem_cons_self)
      obtain ⟨error, c₁, hrollback⟩ := exists_rollsBack c
      rw [unwind, transact_of_rollsBack hc hrollback, hc]
      cases error with
      | none => exact .transaction hopener hrollback (hleave failure _ rfl)
      | some error => exact .transaction hopener hrollback (hleave _ _ rfl)
    | @body transactional handler hbody =>
      cases transactional with
      | false => exact .handle m (.attempt hbody) hbody.opener hlength
      | true =>
        obtain ⟨c, hc⟩ := Option.isSome_iff_exists.1 (hlinked List.mem_cons_self)
        obtain ⟨error, c₁, hrollback⟩ := exists_rollsBack c
        rw [unwind, transact_of_rollsBack hc hrollback, hc]
        cases error with
        | none => exact .handle _ (.attemptTransaction hbody hrollback) hbody.opener hlength
        | some error => exact .attempt hbody hrollback (hleave _ _ rfl)

/-- A statement that fails where there is a connection for the open transactions. -/
theorem unwound_dispatch (h : p.Nested) {m n : Machine σ} (hfits : p.Fits pc m.scopes)
    (hlinked : true ∈ holding m.scopes → m.connection.isSome = true) {s : Statement}
    (hget : p.get? pc = some s) (hstep : m.countStatement.step p pc s = (.error failure, n)) :
    Unwound p pc (p.enclosing pc) m.scopes n.connection failure (m.dispatch p pc s) := by
  have heffect : Effect p pc m.scopes m.connection (.error failure, n) :=
    hstep ▸ effect_step (m := m.countStatement) h hfits hget
  obtain ⟨hstands, hsuffix⟩ := Program.stands_of_effect h hfits hget heffect
  have hlinked' : true ∈ holding n.scopes → n.connection.isSome = true :=
    fun hmem => heffect.isSome_eq.trans (heffect.linked hlinked hmem)
  have hunwound := (unwound_unwind hstands failure n hlinked').mono hsuffix
  rw [dispatch, hstep]
  dsimp only
  rcases hq : unwind p failure n n.scopes with ⟨failure' | handler, n'⟩ <;> rw [hq] at hunwound
  · exact hunwound
  · cases hunwound with
    | caught hleaves hcatches hopener hscopes hrest hlength hevent =>
      show Unwound _ _ _ _ _ _ (.ok handler, n'.countRecovered)
      exact .caught hleaves hcatches hopener hscopes hrest hlength hevent

end

end Machine

/-! ## Runs -/

namespace Program

variable {p : Program} {pc : Nat} {outer : Bool} {connection : Option σ} {m n : Machine σ}

/-- As long as a transaction is open there is a connection. -/
theorem Arrives.linked (harrives : p.Arrives outer connection m pc) (h : p.Nested) :
    true ∈ holding m.scopes → m.connection.isSome = true := by
  induction harrives with
  | bare => simp [Machine.emit, holding]
  | @enclosed m _ hbegin =>
    have hscopes : m.scopes = [] := Machine.scopes_of_transact hbegin
    simp [hscopes, holding]
  | @next m m' pc next s harrives hget hdispatch ih =>
    obtain ⟨-, hfits⟩ := harrives.fits h
    have heffect := Machine.effect_step (m := m.countStatement) h hfits hget
    rcases hstep : m.countStatement.step p pc s with ⟨failure | next', n⟩ <;> rw [hstep] at heffect
    · have hunwound := Machine.unwound_dispatch h hfits ih hget hstep
      rw [hdispatch] at hunwound
      cases hunwound with
      | caught hleaves hcatches hopener hscopes hrest =>
        -- the handler is entered without a transaction, and the other scopes were there before
        rw [hscopes, hcatches.isSome_eq, hleaves.isSome_eq, heffect.isSome_eq]
        intro hmem
        apply ih
        apply (hrest.map Scope.holds).subset
        simpa [holding, Scope.holds] using hmem
    · rw [Machine.dispatch, hstep] at hdispatch
      cases hdispatch
      exact fun hmem => heffect.isSome_eq.trans (heffect.linked ih hmem)

/-- The state that the loop of a run starts in. -/
inductive Starts (p : Program) (connection : Option σ) : (outer : Bool) → Machine σ → Prop where
  | bare : Starts p connection false (Machine.emit { connection } (.started p.size false))
  | enclosed {m : Machine σ}
      (hbegin : (Machine.emit { connection } (.started p.size true)).transact .begin = (.ok (), m)) :
      Starts p connection true m

/-- The loop of a run comes by every state that the run arrives in. -/
theorem Arrives.exists_runFrom (harrives : p.Arrives outer connection m pc) (h : p.Nested) :
    ∃ (m₀ : Machine σ) (fuel : Nat), p.Starts connection outer m₀ ∧ p.size ≤ pc + fuel ∧
      m₀.runAll p = Machine.runFrom p fuel m pc := by
  induction harrives with
  | bare houter => exact ⟨_, p.size, houter ▸ .bare, by omega, rfl⟩
  | @enclosed m houter hbegin =>
    subst houter
    exact ⟨m, p.size, .enclosed hbegin, by omega, rfl⟩
  | @next m m' pc next s harrives hget hdispatch ih =>
    obtain ⟨m₀, fuel, hstart, hfuel, hrun⟩ := ih
    have hlt : pc < p.size := lt_size_of_get? hget
    obtain ⟨hnext, -, -⟩ := Machine.advances_dispatch h (harrives.fits h).2 hget _ _ hdispatch
    obtain ⟨k, rfl⟩ : ∃ k, fuel = k + 1 := ⟨fuel - 1, by omega⟩
    refine ⟨m₀, k, hstart, by omega, ?_⟩
    rw [hrun, Machine.runFrom, hget]
    simp only [hdispatch]

theorem Arrives.exists_runFrom_succ (harrives : p.Arrives outer connection m pc) (h : p.Nested)
    {s : Statement} (hget : p.get? pc = some s) :
    ∃ (m₀ : Machine σ) (fuel : Nat), p.Starts connection outer m₀ ∧
      m₀.runAll p = Machine.runFrom p (fuel + 1) m pc := by
  obtain ⟨m₀, fuel, hstart, hfuel, hrun⟩ := harrives.exists_runFrom h
  have hlt : pc < p.size := lt_size_of_get? hget
  obtain ⟨k, rfl⟩ : ∃ k, fuel = k + 1 := ⟨fuel - 1, by omega⟩
  exact ⟨m₀, k, hstart, hrun⟩

/-- A failure that nothing handles is what the run ends with. -/
theorem Arrives.report_of_error (harrives : p.Arrives outer connection m pc) (h : p.Nested)
    (hexecutable : p.executable = true) {s : Statement} (hget : p.get? pc = some s) {failure : Failure}
    (hdispatch : (m.dispatch p pc s).1 = .error failure) (marker : String) :
    let report := (p.run marker outer connection).report
    report.outcome = .runtimeError ∧ report.error? = some (.failed failure) ∧
      report.statement = s.describe marker := by
  obtain ⟨m₀, k, hstart, hrun⟩ := harrives.exists_runFrom_succ h hget
  have herror : m₀.runAll p = (.error (failure, s), (m.dispatch p pc s).2) := by
    rw [hrun, Machine.runFrom, hget]
    rcases hq : m.dispatch p pc s with ⟨failure' | next, n⟩ <;> rw [hq] at hdispatch
    · cases hdispatch
      simp only [hq]
    · cases hdispatch
  simp only [run, hexecutable, if_pos]
  cases hstart with
  | bare =>
    simp only [if_neg Bool.false_ne_true, Machine.runBare, herror]
    exact ⟨rfl, rfl, rfl⟩
  | enclosed hbegin =>
    simp only [if_pos, Machine.runEnclosed, hbegin, herror]
    exact ⟨rfl, rfl, rfl⟩

/-- A failure leaves the blocks around its statement from the inside out. Chains, and attempts in whose
handler the statement stands, are left without a call, transaction blocks with one rollback; a transactional
attempt in whose body it stands handles the failure if its one rollback succeeds, and any other attempt does
in any case. The run goes on at the handler of the first attempt that handles it, in the scopes around
that; if none does, the run ends with the failure. It is that of the last rollback that has failed, or
else the one of the statement. -/
theorem failure_unwinds_enclosing_blocks {d : Dialect} {fragments : List Fragment} {s : Statement}
    {failure : Failure} (hexecutable : (assemble d fragments).executable = true)
    (harrives : (assemble d fragments).Arrives outer connection m pc)
    (hget : (assemble d fragments).get? pc = some s)
    (hstep : m.countStatement.step (assemble d fragments) pc s = (.error failure, n)) :
    let p := assemble d fragments
    Machine.Unwound p pc (p.enclosing pc) m.scopes n.connection failure (m.dispatch p pc s) ∧
      ∀ failure', (m.dispatch p pc s).1 = .error failure' → ∀ marker,
        let report := (p.run marker outer connection).report
        report.outcome = .runtimeError ∧ report.error? = some (.failed failure') ∧
          report.statement = s.describe marker := by
  intro p
  have h : p.Nested := nested_assemble (executable_assemble_iff.1 hexecutable)
  obtain ⟨-, hfits⟩ := harrives.fits h
  exact ⟨Machine.unwound_dispatch h hfits (harrives.linked h) hget hstep,
    fun failure' hdispatch => harrives.report_of_error h hexecutable hget hdispatch⟩

/-- The first rollback fails, and its error is what the outer attempt handles after the second one. -/
theorem failure_unwinds_transaction_in_attempt :
    let ts : List Tree := [.attempt true ⟨"", "--trytransaction", 1⟩
      [.transaction ⟨"", "--begin", 2⟩ [.sql ⟨"A", "A", 3⟩] ⟨"", "--endtransaction", 4⟩]
      ⟨"", "--catch", 5⟩ [] ⟨"", "--endtry", 6⟩]
    let p := assemble {} (Tree.flattenAll ts)
    let refused := SqlError.statement (-204) "A failed"
    let lost := SqlError.transaction "lost"
    let r : Rehearsal := { statements := [(1, .error refused)]
                           transactions := fun call => if call = .rollback then [(1, .error lost)] else [] }
    p.executable = true ∧ ∃ m s n, p.Arrives false (some r) m 2 ∧ p.get? 2 = some s ∧
      m.countStatement.step p 2 s = (.error (.sql refused), n) ∧
      (m.dispatch p 2 s).2.events.back? = some (.handled (.transaction .rollback lost) 5) ∧
      Machine.Unwound p 2 (p.enclosing 2) m.scopes n.connection (.sql refused) (m.dispatch p 2 s) := by
  intro ts p refused lost r
  have hexecutable : p.executable = true := by decide
  have h₁ : p.Arrives false (some r) _ 1 := .next (.bare rfl) rfl rfl
  have h₂ := h₁.next rfl rfl
  exact ⟨hexecutable, _, _, _, h₂, rfl, rfl, by decide +kernel,
    (failure_unwinds_enclosing_blocks hexecutable h₂ rfl rfl).1⟩

end Program

end SqlFlow
