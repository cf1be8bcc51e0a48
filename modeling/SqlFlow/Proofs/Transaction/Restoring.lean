import SqlFlow.Proofs.Run.Erasure
import SqlFlow.Proofs.Run.Leaving
import SqlFlow.Proofs.Transaction.Atomicity
import SqlFlow.Proofs.Transaction.Clean

/-!
# Blocks are all or nothing

A failure that leaves a transaction takes the database back to what it was before the statement that has
begun it.

* `Program.Before`: what the database is when a run gets to a statement.
* `Saved`: the savepoints of a database are those of the open blocks. `Saved.advance`, `Saved.fail`,
  `Saved.leave` and `Saved.handle`: what becomes of them in a statement that does not fail, in one that
  does, where blocks are left, and where a failure is handled. `Program.Arrives.saved` is the induction
  on the run.
* `Program.Undoes`: what becomes of the transactions that a failure leaves. It is proved for transcripts,
  which know whether a rollback has failed, and `Undoes.of_transcript` takes it from there.
-/

namespace SqlFlow

open Transcript (Clean)

variable {σ δ : Type} [Connection σ]

/-! ## Savepoints of open blocks -/

namespace Savepoints

/-- The savepoints, if there is a connection. -/
def stackOf (db : Savepoints σ δ) (c : Option σ) : List δ := c.elim [] db.stack

/-- The database as a transcript is written of it. -/
def transcript (db : Savepoints σ δ) : Savepoints (Transcript σ) δ where
  current t := db.current t.connection
  stack t := db.stack t.connection
  stack_execute h := db.stack_execute (Trace.perform_transcript h).2
  begin_ok h := db.begin_ok (Trace.perform_transcript h).2
  commit_ok h := db.commit_ok (Trace.perform_transcript h).2
  rollback_ok h := db.rollback_ok (Trace.perform_transcript h).2
  begin_failed h := db.begin_failed (Trace.perform_transcript h).2
  commit_failed h := db.commit_failed (Trace.perform_transcript h).2

variable (db : Savepoints σ δ) {c c' : Option σ} {saved : δ} {stack : List δ}

theorem stackOf_of_idle (h : Idle c c') : db.stackOf c' = db.stackOf c := by
  cases h with
  | nothing => rfl
  | execute h =>
    cases h with
    | made h => exact db.stack_execute h
    | missing => rfl
  | refused h =>
    cases h with
    | made h => exact (db.begin_failed h).2
    | missing => rfl

theorem exists_of_begin (h : Answers (.transact .begin) true c c') :
    ∃ c₀, c = some c₀ ∧ db.stackOf c' = db.current c₀ :: db.stack c₀ := by
  cases h with
  | made h => exact ⟨_, rfl, (db.begin_ok h).2⟩

theorem stackOf_of_commit (h : Answers (.transact .commit) true c c')
    (hstack : db.stackOf c = saved :: stack) : db.stackOf c' = stack := by
  cases h with
  | made h => exact (db.commit_ok h hstack).2

theorem stackOf_of_failed_commit (h : Answers (.transact .commit) false c c') :
    db.stackOf c' = db.stackOf c := by
  cases h with
  | made h => exact (db.commit_failed h).2
  | missing => rfl

theorem exists_of_rollback (h : Answers (.transact .rollback) true c c')
    (hstack : db.stackOf c = saved :: stack) :
    ∃ c₁, c' = some c₁ ∧ db.current c₁ = saved ∧ db.stack c₁ = stack := by
  cases h with
  | made h => exact ⟨_, rfl, db.rollback_ok h hstack⟩

end Savepoints

/-- The run gets to the statement `i`, and the database is in the state `saved` then, with the savepoints
`stack`. -/
structure Program.Before (p : Program) (db : Savepoints σ δ) (outer : Bool) (connection : Option σ)
    (i : Nat) (saved : δ) (stack : List δ) : Prop where
  arrives : ∃ m c, p.Arrives outer connection m i ∧ m.connection = some c
  state : ∀ m c, p.Arrives outer connection m i → m.connection = some c →
    db.current c = saved ∧ db.stack c = stack

theorem Program.Arrives.before {p : Program} {outer : Bool} {connection : Option σ} {m : Machine σ}
    {pc : Nat} (harrives : p.Arrives outer connection m pc) (h : p.Nested) (db : Savepoints σ δ) {c : σ}
    (hc : m.connection = some c) : p.Before db outer connection pc (db.current c) (db.stack c) := by
  refine ⟨⟨m, c, harrives, hc⟩, fun m' c' harrives' hc' => ?_⟩
  obtain rfl := harrives.unique harrives' h
  obtain rfl := Option.some.inj (hc.symm.trans hc')
  exact ⟨rfl, rfl⟩

/-- Each open block that holds a transaction has its savepoint on the stack: the state before its opener,
above the savepoints that there were then. -/
inductive Saved (before : Nat → δ → List δ → Prop) : List Nat → List Bool → List δ → Prop where
  | nil (stack : List δ) : Saved before [] [] stack
  | pass {i : Nat} {openers : List Nat} {holds : List Bool} {stack : List δ}
      (rest : Saved before openers holds stack) : Saved before (i :: openers) (false :: holds) stack
  | hold {i : Nat} {openers : List Nat} {holds : List Bool} {saved : δ} {stack : List δ}
      (hbefore : before i saved stack) (rest : Saved before openers holds stack) :
      Saved before (i :: openers) (true :: holds) (saved :: stack)

namespace Saved

variable {before : Nat → δ → List δ → Prop} {p : Program} {pc : Nat} {scopes : List Scope}

section

variable {openers : List Nat} {holds : List Bool} {stack : List δ}

theorem of_pass (h : Saved before openers (false :: holds) stack) :
    Saved before openers.tail holds stack := by
  cases h with
  | pass rest => exact rest

theorem of_hold (h : Saved before openers (true :: holds) stack) :
    ∃ i saved outer, openers = i :: openers.tail ∧ stack = saved :: outer ∧ before i saved outer ∧
      Saved before openers.tail holds outer := by
  cases h with
  | hold hbefore rest => exact ⟨_, _, _, rfl, rfl, hbefore, rest⟩

end

/-- A statement that does not fail. -/
theorem advance {db : Savepoints σ δ} {c : Option σ} {next : Nat} {n : Machine σ}
    (hsaved : Saved before (p.openers pc) (holding scopes) (db.stackOf c))
    (heffect : Machine.Effect p pc scopes c (.ok next, n))
    (hbefore : ∀ c₀, c = some c₀ → before pc (db.current c₀) (db.stack c₀)) :
    Saved before (p.openers next) (holding n.scopes) (db.stackOf n.connection) := by
  cases heffect with
  | keep hopeners hholds hidle =>
    rw [hopeners, hholds, db.stackOf_of_idle hidle]
    exact hsaved
  | enter hopeners hholds hidle =>
    rw [hopeners, hholds, db.stackOf_of_idle hidle]
    exact .pass hsaved
  | begin hopeners hholds hbegin =>
    obtain ⟨c₀, rfl, hstack⟩ := db.exists_of_begin hbegin
    rw [hopeners, hholds, hstack]
    exact .hold (hbefore c₀ rfl) hsaved
  | leave hopeners hholds hconnection =>
    rw [hholds] at hsaved
    rw [hopeners, hconnection]
    exact hsaved.of_pass
  | commit hopeners hholds hcommit =>
    rw [hholds] at hsaved
    obtain ⟨i, saved, outer, -, hstack, -, hrest⟩ := hsaved.of_hold
    rw [hopeners, db.stackOf_of_commit hcommit hstack]
    exact hrest

end Saved

/-! ## Failures -/

section

variable {p : Program} {pc : Nat} {blocks blocks' : List OpenBlock} {scopes : List Scope}
  {errors : List (Option SqlError)}

namespace Saved

variable {before : Nat → δ → List δ → Prop} {db : Savepoints (Transcript σ) δ}
  {c c' : Option (Transcript σ)} {openers : List Nat} {holds : List Bool} {ok : Bool}

/-- A transaction is rolled back. -/
theorem restore (hsaved : Saved before openers (true :: holds) (db.stackOf c))
    (hrollback : Answers (.transact .rollback) ok c c') (hclean : Clean c') :
    ∃ i t, openers = i :: openers.tail ∧ c' = some t ∧ before i (db.current t) (db.stack t) ∧
      Saved before openers.tail holds (db.stack t) := by
  obtain ⟨i, saved, outer, hopeners, hstack, hbefore, hrest⟩ := hsaved.of_hold
  obtain ⟨t₀, rfl⟩ : ∃ t₀, c = some t₀ := by
    cases c with
    | none => cases hstack
    | some t₀ => exact ⟨t₀, rfl⟩
  obtain rfl := hrollback.ok_of_clean hclean
  obtain ⟨t, rfl, rfl, rfl⟩ := db.exists_of_rollback hrollback hstack
  exact ⟨i, t, hopeners, rfl, hbefore, hrest⟩

/-- Blocks that are left take their savepoints with them. -/
theorem leave (h : p.Leaves pc blocks c errors blocks' c') (hclean : Clean c')
    (hstands : List.Forall₂ (p.Stands pc) blocks scopes)
    (hsaved : Saved before (blocks.map OpenBlock.opener) (holding scopes) (db.stackOf c)) :
    ∃ scopes', scopes' <:+ scopes ∧ List.Forall₂ (p.Stands pc) blocks' scopes' ∧
      Saved before (blocks'.map OpenBlock.opener) (holding scopes') (db.stackOf c') := by
  induction h generalizing scopes with
  | here => exact ⟨scopes, List.suffix_rfl, hstands, hsaved⟩
  | pass hpasses _ ih =>
    obtain _ | @⟨_, scope, _, _, hscope, hrest⟩ := hstands
    rw [holding_cons, hscope.holds_of_passes hpasses] at hsaved
    obtain ⟨scopes', hsuffix, hstands', hsaved'⟩ := ih hclean hrest hsaved.of_pass
    exact ⟨scopes', hsuffix.trans (List.suffix_cons ..), hstands', hsaved'⟩
  | transaction hopener hrollback hleaves ih =>
    obtain _ | ⟨hscope, hrest⟩ := hstands
    obtain rfl := hscope.eq_transaction hopener
    obtain ⟨i, t, -, ⟨⟩, -, hsaved'⟩ := hsaved.restore hrollback.answers (hleaves.clean hclean)
    obtain ⟨scopes', hsuffix, hstands', hsaved'⟩ := ih hclean hrest hsaved'
    exact ⟨scopes', hsuffix.trans (List.suffix_cons ..), hstands', hsaved'⟩
  | attempt _ hrollback hleaves =>
    -- no rollback has failed
    exact absurd (hrollback.answers.ok_of_clean (hleaves.clean hclean)) nofun

/-- A transaction block that is left is rolled back to what was before it. -/
theorem leave_transaction {b : OpenBlock} {t t' : Transcript σ} {error : Option SqlError}
    (h : p.Leaves pc blocks c errors (b :: blocks') (some t))
    (hopener : p.kind? b.opener = some (.directive .beginTransaction)) (hrollback : RollsBack error t t')
    (hclean : Clean (some t')) (hstands : List.Forall₂ (p.Stands pc) blocks scopes)
    (hsaved : Saved before (blocks.map OpenBlock.opener) (holding scopes) (db.stackOf c)) :
    before b.opener (db.current t') (db.stack t') := by
  obtain ⟨scopes', -, hstands', hsaved'⟩ := leave h (hrollback.answers.clean hclean) hstands hsaved
  obtain _ | ⟨hscope, -⟩ := hstands'
  obtain rfl := hscope.eq_transaction hopener
  obtain ⟨i, t₁, hi, ⟨⟩, hbefore, -⟩ := hsaved'.restore hrollback.answers hclean
  obtain ⟨rfl, -⟩ := List.cons.inj hi
  exact hbefore

/-- A statement that fails. If that is the end of a transaction, this has been rolled back. -/
theorem fail {failure : Failure} {n : Machine (Transcript σ)}
    (hsaved : Saved before (p.openers pc) (holding scopes) (db.stackOf c))
    (heffect : Machine.Effect p pc scopes c (.error failure, n)) (hclean : Clean n.connection) :
    Saved before ((p.enclosing pc).map OpenBlock.opener) (holding n.scopes) (db.stackOf n.connection) ∧
      ∀ x ∈ [Directive.endAttempt, .endTransaction], p.kind? pc = some (.directive x) →
        ∃ b blocks t, p.openBlocks pc = b :: blocks ∧ n.connection = some t ∧
          before b.opener (db.current t) (db.stack t) := by
  cases heffect with
  | fail hother hscopes hidle =>
    rw [Program.enclosing_of_other hother, hscopes, db.stackOf_of_idle hidle]
    exact ⟨hsaved, fun x hx hkind => absurd hkind (hother x (List.mem_cons_of_mem _ hx))⟩
  | abandon hkind hscopes hholds hcommit hrollback =>
    rw [hscopes, holding_cons, hholds, ← db.stackOf_of_failed_commit hcommit] at hsaved
    obtain ⟨i, t, hopeners, ht, hbefore, hrest⟩ := hsaved.restore hrollback hclean
    rw [Program.enclosing_of_close hkind, List.map_tail, ht]
    refine ⟨hrest, fun _ _ _ => ?_⟩
    obtain ⟨b, blocks, hblocks, rfl, -⟩ := List.map_eq_cons_iff.1 hopeners
    exact ⟨b, blocks, t, hblocks, rfl, hbefore⟩

/-- An attempt handles a failure. If it is transactional it has been rolled back. -/
theorem caught {b : OpenBlock} {scope : Scope} {handler : Nat} (hcatches : p.Catches pc b handler c c')
    (hclean : Clean c') (hscope : p.Stands pc b scope)
    (hsaved : Saved before (b.opener :: openers) (scope.holds :: holds) (db.stackOf c)) :
    Saved before (b.opener :: openers) (false :: holds) (db.stackOf c') ∧
      (p.kind? b.opener = some (.directive .attemptTransaction) →
        ∃ t, c' = some t ∧ before b.opener (db.current t) (db.stack t)) := by
  cases hcatches with
  | attempt hbody =>
    obtain ⟨handler', rfl⟩ := hscope.of_body hbody
    refine ⟨hsaved, fun hkind => ?_⟩
    have hopener := hbody.opener
    simp [hkind, Directive.attemptOf] at hopener
  | attemptTransaction hbody hrollback =>
    obtain ⟨handler', rfl⟩ := hscope.of_body hbody
    obtain ⟨i, t, hi, ⟨⟩, hbefore, hrest⟩ := hsaved.restore hrollback.answers hclean
    obtain ⟨rfl, -⟩ := List.cons.inj hi
    exact ⟨.pass hrest, fun _ => ⟨_, rfl, hbefore⟩⟩

/-- A failure that is handled. -/
theorem handle (h : p.Nested) {failure : Failure} {handler : Nat} {m' : Machine (Transcript σ)}
    {rest : List Scope}
    (hsaved : Saved before ((p.enclosing pc).map OpenBlock.opener) (holding rest) (db.stackOf c))
    (hstands : List.Forall₂ (p.Stands pc) (p.enclosing pc) rest) (hsuffix : rest <:+ scopes)
    (hunwound : Machine.Unwound p pc (p.enclosing pc) scopes c failure (.ok handler, m'))
    (hclean : Clean m'.connection) :
    Saved before (p.openers handler) (holding m'.scopes) (db.stackOf m'.connection) ∧
      ∀ i, p.kind? i = some (.directive .attemptTransaction) → p.target? i = some handler →
        ∃ t, m'.connection = some t ∧ before i (db.current t) (db.stack t) := by
  cases hunwound with
  | @caught errors b outside _ _ c₁ _ _ outer hleaves hcatches _ hscopes houter hlength =>
    obtain ⟨transactional', hbody⟩ := hcatches.exists_inBody
    obtain ⟨left, hleft, hstands', hsaved'⟩ := hsaved.leave hleaves (hcatches.clean hclean) hstands
    obtain _ | @⟨_, scope, _, outer', hscope, houter'⟩ := hstands'
    -- what is left of the scopes are those that were around the attempt all along
    obtain rfl : outer = outer' := by
      have hlength' : outer.length = outer'.length := hlength.trans houter'.length_eq
      have hsuffix' : outer' <:+ scopes := (List.suffix_cons ..).trans (hleft.trans hsuffix)
      exact (List.suffix_of_suffix_length_le houter hsuffix' (Nat.le_of_eq hlength')).eq_of_length hlength'
    have hopeners : p.openers handler = b.opener :: outside.map OpenBlock.opener := by
      rw [Program.openers, hbody.openBlocks_handler h (hleaves.suffix.trans (p.enclosing_suffix pc))]
      rfl
    obtain ⟨hsaved'', hbefore⟩ := caught hcatches hclean hscope hsaved'
    rw [hopeners, hscopes, holding_cons, Scope.holds, Bool.not_true, Bool.and_false]
    refine ⟨hsaved'', fun i hkind htarget => ?_⟩
    have hopeners' := (h.openers_target htarget).trans (Program.openers_of_opens hkind (by decide))
    obtain ⟨rfl, -⟩ := List.cons.inj (hopeners.symm.trans hopeners')
    exact hbefore hkind

end Saved

end

/-! ## Runs -/

namespace Program

/-- What becomes of the transactions that a failure of the statement `pc` leaves: `n` is the state that it
leaves the machine in, and `r` what comes of it. The database is again what it was just before the statement
that has begun the transaction, savepoints included. -/
structure Undoes (p : Program) (db : Savepoints σ δ) (outer : Bool) (connection : Option σ) (pc : Nat)
    (n : Machine σ) (r : Except Failure Nat × Machine σ) : Prop where
  /-- The handler of a transactional attempt is entered. -/
  handler {i handler : Nat} {m' : Machine σ} (hkind : p.kind? i = some (.directive .attemptTransaction))
    (htarget : p.target? i = some handler) (hr : r = (.ok handler, m')) :
    ∃ c, m'.connection = some c ∧ p.Before db outer connection i (db.current c) (db.stack c)
  /-- A transaction block is left and rolled back, after the blocks inside it. -/
  transaction {b : OpenBlock} {blocks : List OpenBlock} {c c' : σ} {error : Option SqlError}
    {errors : List (Option SqlError)}
    (hleaves : p.Leaves pc (p.enclosing pc) n.connection errors (b :: blocks) (some c))
    (hopener : p.kind? b.opener = some (.directive .beginTransaction)) (hrollback : RollsBack error c c') :
    error = none ∧ p.Before db outer connection b.opener (db.current c') (db.stack c')
  /-- The statement itself is the end of a transaction that could not be committed. -/
  commit {x : Directive} (hx : x ∈ [Directive.endAttempt, .endTransaction])
    (hkind : p.kind? pc = some (.directive x)) :
    ∃ b blocks c, p.openBlocks pc = b :: blocks ∧ n.connection = some c ∧
      p.Before db outer connection b.opener (db.current c) (db.stack c)

variable {p : Program} {pc : Nat} {outer : Bool} {s : Statement} {failure : Failure}

section

variable {connection : Option (Transcript σ)} {m n : Machine (Transcript σ)}

theorem Arrives.saved (harrives : p.Arrives outer connection m pc) (h : p.Nested)
    (db : Savepoints (Transcript σ) δ) (hclean : Clean m.connection) :
    Saved (p.Before db outer connection) (p.openers pc) (holding m.scopes) (db.stackOf m.connection) := by
  induction harrives with
  | bare =>
    rw [openers, openBlocks_zero]
    exact .nil _
  | @enclosed m _ hbegin =>
    have hscopes : m.scopes = [] := Machine.scopes_of_transact hbegin
    rw [openers, openBlocks_zero, hscopes]
    exact .nil _
  | @next m m' pc next s harrives hget hdispatch ih =>
    obtain ⟨-, hfits⟩ := harrives.fits h
    have hclean' : Clean (m.dispatch p pc s).2.connection := by rwa [hdispatch]
    have hsaved := ih (harrives.clean_of_dispatch h hget hclean')
    have heffect := Machine.effect_step (m := m.countStatement) h hfits hget
    have hstep' := Machine.clean_step_of_dispatch hclean'
    rcases hstep : m.countStatement.step p pc s with ⟨failure | next', n⟩ <;> rw [hstep] at heffect hstep'
    · obtain ⟨hstands, hsuffix⟩ := stands_of_effect h hfits hget heffect
      have hunwound := Machine.unwound_dispatch h hfits (harrives.linked h) hget hstep
      rw [hdispatch] at hunwound
      exact (Saved.handle h (hsaved.fail heffect hstep').1 hstands hsuffix hunwound hclean).1
    · rw [Machine.dispatch, hstep] at hdispatch
      cases hdispatch
      exact hsaved.advance heffect fun c hc => harrives.before h db hc

theorem Arrives.undoes (harrives : p.Arrives outer connection m pc) (h : p.Nested)
    (db : Savepoints (Transcript σ) δ) (hget : p.get? pc = some s)
    (hstep : m.countStatement.step p pc s = (.error failure, n))
    (hclean : Clean (m.dispatch p pc s).2.connection) :
    p.Undoes db outer connection pc n (m.dispatch p pc s) := by
  obtain ⟨-, hfits⟩ := harrives.fits h
  have heffect : Machine.Effect p pc m.scopes m.connection (.error failure, n) :=
    hstep ▸ Machine.effect_step (m := m.countStatement) h hfits hget
  have hunwind := Machine.clean_unwind_of_dispatch hstep hclean
  obtain ⟨hstands, hsuffix⟩ := stands_of_effect h hfits hget heffect
  have hsaved := harrives.saved h db (harrives.clean_of_dispatch h hget hclean)
  obtain ⟨hsaved, hclosed⟩ := hsaved.fail heffect (Machine.clean_of_unwind hunwind)
  refine ⟨fun {i handler m'} hkind htarget hdispatch => ?_,
    fun {b blocks c c' error errors} hleaves hopener hrollback => ?_,
    fun {x} hx hkind => hclosed x hx hkind⟩
  · have hunwound := Machine.unwound_dispatch h hfits (harrives.linked h) hget hstep
    rw [hdispatch] at hunwound hclean
    exact (hsaved.handle h hstands hsuffix hunwound hclean).2 i hkind htarget
  · -- the walk with this rollback is one of the run
    have hleaves' := hleaves.trans (.transaction hopener hrollback (.here blocks _))
    obtain ⟨failure', m', scopes', -, hm', hsame⟩ :=
      Machine.exists_unwind_of_leaves hleaves' hstands failure rfl
    have hclean' : Clean (some c') := hm' ▸ Machine.clean_of_unwind (hsame ▸ hunwind)
    exact ⟨Option.isNone_iff_eq_none.1 (hrollback.answers.ok_of_clean hclean'),
      Saved.leave_transaction hleaves hopener hrollback hclean' hstands hsaved⟩

end

variable {connection : Option σ} {m n : Machine σ} {db : Savepoints σ δ}

omit [Connection σ] in
theorem map_connection_start (connection : Option σ) :
    (connection.map Transcript.start).map Transcript.connection = connection := by
  cases connection <;> rfl

/-- A run gets to a statement as its transcript does. -/
theorem Arrives.exists_transcript (harrives : p.Arrives outer connection m pc) :
    ∃ n : Machine (Transcript σ), p.Arrives outer (connection.map Transcript.start) n pc ∧
      n.map Transcript.connection = m := by
  rw [← map_connection_start connection] at harrives
  exact harrives.exists_of_map Transcript.preserves_connection

theorem Before.of_transcript {i : Nat} {saved : δ} {stack : List δ}
    (hbefore : p.Before db.transcript outer (connection.map Transcript.start) i saved stack) :
    p.Before db outer connection i saved stack := by
  refine ⟨?_, fun m c harrives hc => ?_⟩
  · obtain ⟨m, t, harrives, ht⟩ := hbefore.arrives
    have hover := harrives.map Transcript.preserves_connection
    rw [map_connection_start] at hover
    exact ⟨_, t.connection, hover, by rw [Machine.map, ht, Option.map_some]⟩
  · obtain ⟨n, harrives', rfl⟩ := harrives.exists_transcript
    obtain ⟨t, ht, rfl⟩ := Option.map_eq_some_iff.1 hc
    exact hbefore.state n t harrives' ht

/-- What is so of the transcripts of a run is so of the run. -/
theorem Undoes.of_transcript {n : Machine (Transcript σ)} {r : Except Failure Nat × Machine (Transcript σ)}
    (hundoes : p.Undoes db.transcript outer (connection.map Transcript.start) pc n r) :
    p.Undoes db outer connection pc (n.map Transcript.connection)
      (Prod.map id (Machine.map Transcript.connection) r) := by
  obtain ⟨answer, m'⟩ := r
  refine ⟨fun {i handler m''} hkind htarget hr => ?_,
    fun {b blocks c c' error errors} hleaves hopener hrollback => ?_, fun {x} hx hkind => ?_⟩
  · obtain ⟨rfl, rfl⟩ := Prod.mk.inj hr
    obtain ⟨t, ht, hbefore⟩ := hundoes.handler hkind htarget rfl
    exact ⟨t.connection, by rw [Machine.map, ht, Option.map_some], hbefore.of_transcript⟩
  · obtain ⟨t, hleaves', ht⟩ := hleaves.exists_of_map Transcript.preserves_connection
    obtain ⟨t, rfl, rfl⟩ := Option.map_eq_some_iff.1 ht
    obtain ⟨t', hrollback', rfl⟩ := hrollback.exists_of_map Transcript.preserves_connection
    obtain ⟨rfl, hbefore⟩ := hundoes.transaction hleaves' hopener hrollback'
    exact ⟨rfl, hbefore.of_transcript⟩
  · obtain ⟨b, blocks, t, hblocks, ht, hbefore⟩ := hundoes.commit hx hkind
    exact ⟨b, blocks, t.connection, hblocks, by rw [Machine.map, ht, Option.map_some],
      hbefore.of_transcript⟩

/-- A failure undoes what has been done in the transactions that it leaves, and nothing else. If no rollback
fails in the run, the database is again what it was just before the statement that has begun the
transaction: when the handler of a transactional attempt is entered, behind the rollback of a transaction
block that is left, and behind the rollback that follows a commit that has failed. -/
theorem failure_undoes_transactions (db : Savepoints σ δ) {d : Dialect} {fragments : List Fragment}
    (hexecutable : (assemble d fragments).executable = true)
    (harrives : (assemble d fragments).Arrives outer connection m pc)
    (hget : (assemble d fragments).get? pc = some s)
    (hstep : m.countStatement.step (assemble d fragments) pc s = (.error failure, n)) {marker : String}
    (hrollbacks : failedRollback ∉ (assemble d fragments).calls marker outer connection) :
    let p := assemble d fragments
    p.Undoes db outer connection pc n (m.dispatch p pc s) := by
  intro p
  have h : p.Nested := nested_assemble (executable_assemble_iff.1 hexecutable)
  have hpreserves : Connection.Preserves (Transcript.connection : Transcript σ → σ) :=
    Transcript.preserves_connection
  -- the run over a transcript gets to the same statement, and no rollback fails in it either
  obtain ⟨m, harrives', rfl⟩ := harrives.exists_transcript
  have hclean := harrives'.clean_dispatch h hexecutable hrollbacks hget
  have hstep' := Machine.step_map hpreserves m.countStatement p pc s
  rcases hq : m.countStatement.step p pc s with ⟨answer, n'⟩
  rw [hq] at hstep'
  obtain ⟨rfl, rfl⟩ := Prod.mk.inj (hstep'.symm.trans hstep)
  rw [Machine.dispatch_map hpreserves]
  exact (harrives'.undoes h db.transcript hget hq hclean).of_transcript

/-- The inner transaction has been committed when the last statement is refused. The handler finds nothing of
either. -/
theorem failure_undoes_committed_block :
    let ts : List Tree := [.attempt true ⟨"", "--trytransaction", 1⟩
      [.transaction ⟨"", "--begin", 2⟩ [.sql ⟨"B", "B", 3⟩] ⟨"", "--endtransaction", 4⟩,
        .sql ⟨"A", "A", 5⟩]
      ⟨"", "--catch", 6⟩ [] ⟨"", "--endtry", 7⟩]
    let p := assemble {} (Tree.flattenAll ts)
    let j : Journal := { entries := ["A"] }
    p.executable = true ∧ failedRollback ∉ p.calls "--" false (some j) ∧
      ∃ m s failure n, p.Arrives false (some j) m 4 ∧ p.get? 4 = some s ∧
        m.countStatement.step p 4 s = (.error failure, n) ∧
        m.connection = some { entries := ["B", "A"], saved := [["A"]] } ∧
        (m.dispatch p 4 s).2.connection = some j ∧
        p.Undoes Journal.savepoints false (some j) 4 n (m.dispatch p 4 s) := by
  intro ts p j
  have hexecutable : p.executable = true := by decide
  have hrollbacks : failedRollback ∉ p.calls "--" false (some j) := by decide +kernel
  have h₁ : p.Arrives false (some j) _ 1 := .next (.bare rfl) rfl rfl
  have h₂ := h₁.next rfl rfl
  have h₃ := h₂.next rfl rfl
  have h₄ := h₃.next rfl rfl
  exact ⟨hexecutable, hrollbacks, _, _, _, _, h₄, rfl, rfl, by decide +kernel, by decide +kernel,
    failure_undoes_transactions Journal.savepoints hexecutable h₄ rfl rfl hrollbacks⟩

end Program

end SqlFlow
