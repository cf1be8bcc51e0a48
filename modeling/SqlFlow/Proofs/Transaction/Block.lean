import SqlFlow.Proofs.Run.Sequence

/-!
# Enclosed runs and transaction blocks

A script can be run inside a transaction of its own, or it can be written inside a transaction block.
Either way it does the same to the connection, and the reports differ in what the lines of the block
add: they are counted, and they can be blamed.

* `Store.morphism_tick`: that a statement more has been counted makes no difference to a script.
* `Tree.interpret_transaction`: the two forms of a script, as block trees.
* `Program.FailsToRollBack`: the one case in which the two report different errors. An enclosed run
  reports what has failed in the script; unwinding the block puts the failed rollback in its place.
-/

namespace SqlFlow

variable {σ : Type} [Connection σ]

namespace Store

omit [Connection σ] in
/-- To count a statement is to have counted one before. -/
theorem tick_eq_behind (s : Store σ) : s.tick = s.behind { statements := 1 } #[] := by
  have hstats : { s.stats with statements := s.stats.statements + 1 }
      = ({ statements := 1 } : Stats) + s.stats := by
    show _ = Stats.mk (1 + s.stats.statements) (0 + _) (0 + _) (0 + _)
    rw [Nat.add_comm, Nat.zero_add, Nat.zero_add, Nat.zero_add]
  unfold tick behind
  rw [hstats, Array.empty_append]

theorem morphism_tick : Morphism (tick : Store σ → Store σ) := by
  rw [show (tick : Store σ → Store σ) = behind { statements := 1 } #[] from funext tick_eq_behind]
  exact morphism_behind _ _

theorem exists_of_transact_eq_ok {s s' : Store σ} {call : TransactionCall}
    (h : s.transact call = (.ok (), s')) :
    ∃ c c', s.connection = some c ∧ Connection.transact call c = (.ok (), c') ∧
      s' = { s with connection := some c' } := by
  unfold transact ask at h
  split at h
  · cases h
  · next c hc =>
    rcases hcall : Connection.transact call c with ⟨error | _, c'⟩ <;> rw [hcall] at h
    · cases h
    · exact ⟨c, c', hc, hcall, (congrArg Prod.snd h).symm⟩

theorem exists_of_transact_eq_error {s s' : Store σ} {c : σ} {call : TransactionCall}
    {failure : Failure} (hs : s.connection = some c) (h : s.transact call = (.error failure, s')) :
    ∃ error c', Connection.transact call c = (.error error, c') ∧
      failure = .transaction call error := by
  unfold transact ask at h
  rw [hs] at h
  dsimp only at h
  rcases hcall : Connection.transact call c with ⟨error | _, c'⟩ <;> rw [hcall] at h
  · exact ⟨error, c', rfl, (Except.error.inj (congrArg Prod.fst h)).symm⟩
  · cases h

theorem transact_of_some {s : Store σ} {c c' : σ} {call : TransactionCall}
    {answer : Except SqlError Unit} (hs : s.connection = some c)
    (h : Connection.transact call c = (answer, c')) :
    s.transact call
      = (answer.mapError (.transaction call), { s with connection := some c' }) := by
  unfold transact ask
  rw [hs]
  dsimp only
  rw [h]

end Store

/-! ## A failure that cannot be rolled back -/

/-- Inside a transaction the program fails with `failure`, which nothing in it handles, and then the
rollback fails with `error`. -/
def Program.FailsToRollBack (p : Program) (marker : String) (connection : Option σ)
    (failure : ScriptError) (error : SqlError) : Prop :=
  ∃ c c₁ c₂ c₃, connection = some c ∧ Connection.transact .begin c = (.ok (), c₁) ∧
    (p.run marker false (some c₁)).report.outcome = .runtimeError ∧
    (p.run marker false (some c₁)).report.error? = some failure ∧
    (p.run marker false (some c₁)).connection = some c₂ ∧
    Connection.transact .rollback c₂ = (.error error, c₃)

section

variable {d : Dialect} {ts : List Tree} {marker : String} {connection : Option σ}
  (hts : Conditioned d (Tree.flattenAll ts))

include hts

/-- The trees of such a program. -/
theorem Program.FailsToRollBack.exists_fault {failure : ScriptError} {error : SqlError}
    (h : (Program.assemble d (Tree.flattenAll ts)).FailsToRollBack marker connection failure error) :
    ∃ s₁ fault s₂, ({ connection } : Store σ).transact .begin = (.ok (), s₁) ∧
      Tree.execAll marker ts s₁ = (.error fault, s₂) ∧ failure = .failed fault.failure ∧
      (s₂.transact .rollback).1 = .error (.transaction .rollback error) := by
  obtain ⟨c, c₁, c₂, c₃, rfl, hbegin, houtcome, herror, hconnection, hrollback⟩ := h
  have hrun := result_run_assemble hts marker false (some c₁)
  have houtcome' := congrArg (·.1.outcome) hrun
  have herror' := congrArg (·.1.error?) hrun
  have hconnection' := congrArg (·.2) hrun
  replace houtcome := houtcome'.symm.trans houtcome
  replace herror := herror'.symm.trans herror
  replace hconnection := hconnection'.symm.trans hconnection
  unfold Tree.interpret Tree.interpretBare at houtcome herror hconnection
  rcases hexec : Tree.execAll marker ts { connection := some c₁ } with ⟨fault | _, s₂⟩ <;>
    simp only [hexec] at houtcome herror hconnection
  · refine ⟨_, fault, s₂, Store.transact_of_some rfl hbegin, hexec, ?_, ?_⟩
    · exact (Option.some.inj herror).symm
    · rw [Store.transact_of_some hconnection hrollback]
      rfl
  · cases houtcome

theorem failsToRollBack_of_fault {s₁ s₂ : Store σ} {fault : Fault} {failure : Failure} {s₃ : Store σ}
    (hbegin : ({ connection } : Store σ).transact .begin = (.ok (), s₁))
    (hexec : Tree.execAll marker ts s₁ = (.error fault, s₂))
    (hrollback : s₂.transact .rollback = (.error failure, s₃)) :
    ∃ error, failure = .transaction .rollback error ∧
      (Program.assemble d (Tree.flattenAll ts)).FailsToRollBack marker connection
        (.failed fault.failure) error := by
  obtain ⟨c, c₁, rfl, hbegun, rfl⟩ := Store.exists_of_transact_eq_ok hbegin
  -- a connection that there is stays
  have hsome : s₂.connection.isSome := by
    have hbrackets := (Tree.brackets_execAll marker ts (s := { connection := some c₁ }) rfl).isSome
    rwa [hexec] at hbrackets
  obtain ⟨c₂, hc₂⟩ := Option.isSome_iff_exists.1 hsome
  obtain ⟨error, c₃, hrefused, rfl⟩ := Store.exists_of_transact_eq_error hc₂ hrollback
  have hrun : ((Program.assemble d (Tree.flattenAll ts)).run marker false (some c₁)).result
      = s₂.halt fault := by
    rw [result_run_assemble hts]
    unfold Tree.interpret Tree.interpretBare
    rw [if_neg Bool.false_ne_true, hexec]
  exact ⟨error, rfl, c, c₁, c₂, c₃, rfl, hbegun, congrArg (·.1.outcome) hrun,
    congrArg (·.1.error?) hrun, (congrArg Prod.snd hrun).trans hc₂, hrefused⟩

end

/-! ## The two forms -/

section

variable {marker : String} {opener closer : Line} {ts : List Tree} {s s₁ s₂ : Store σ}

omit [Connection σ] in
theorem andThen_blame_ok (statement : String) (s : Store σ)
    (next : Store σ → Except Fault Unit × Store σ) :
    andThen (blame statement (.ok (), s)) next = next s := rfl

/-! A transaction block does what its body does inside a transaction, and counts its own lines. -/

theorem exec_transaction_of_refused {failure : Failure}
    (hbegin : s.transact .begin = (.error failure, s₁)) :
    (Tree.transaction opener ts closer).exec marker s
      = (.error ⟨failure, opener.shown marker .beginTransaction⟩, s₁.tick) := by
  rw [Tree.exec, Store.morphism_tick.transact, hbegin]
  rfl

theorem exec_transaction_of_error {fault : Fault} (hbegin : s.transact .begin = (.ok (), s₁))
    (hexec : Tree.execAll marker ts s₁ = (.error fault, s₂)) :
    (Tree.transaction opener ts closer).exec marker s
      = (.error (s₂.abandon fault).1, (s₂.abandon fault).2.tick) := by
  have hbody := Tree.execAll_morphism Store.morphism_tick marker ts s₁
  rw [hexec] at hbody
  rw [Tree.exec, Store.morphism_tick.transact, hbegin]
  dsimp only [Prod.map_apply, id]
  rw [andThen_blame_ok, hbody]
  show (Except.error (s₂.tick.abandon fault).1, (s₂.tick.abandon fault).2) = _
  rw [Store.morphism_tick.abandon]
  rfl

theorem exec_transaction_of_ok (hbegin : s.transact .begin = (.ok (), s₁))
    (hexec : Tree.execAll marker ts s₁ = (.ok (), s₂)) :
    (Tree.transaction opener ts closer).exec marker s
      = blame (closer.shown marker .endTransaction)
        (Prod.map id Store.tick (Prod.map id Store.tick s₂.commit)) := by
  have hbody := Tree.execAll_morphism Store.morphism_tick marker ts s₁
  rw [hexec] at hbody
  rw [Tree.exec, Store.morphism_tick.transact, hbegin]
  dsimp only [Prod.map_apply, id]
  rw [andThen_blame_ok, hbody]
  show blame _ s₂.tick.tick.commit = _
  rw [Store.morphism_tick.commit, Store.morphism_tick.commit]

end

/-- What two runs have in common if they have done the same, but not with the same lines. -/
structure Report.Agrees (r r' : Report) : Prop where
  outcome : r.outcome = r'.outcome
  messages : r.messages = r'.messages
  recovered : r.stats.recovered = r'.stats.recovered
  sqlStatements : r.stats.sqlStatements = r'.stats.sqlStatements
  rowsAffected : r.stats.rowsAffected = r'.stats.rowsAffected

/-- The two forms agree, and differ in the error only if a rollback fails that is made for a failure of
the trees. -/
theorem Tree.interpret_transaction (marker : String) (opener closer : Line) (ts : List Tree)
    (connection : Option σ) :
    let block := Tree.interpret marker false [.transaction opener ts closer] connection
    let enclosed := Tree.interpret marker true ts connection
    (block.1.Agrees enclosed.1 ∧ block.2 = enclosed.2) ∧
    ((∃ s₁ fault s₂ failure s₃, ({ connection } : Store σ).transact .begin = (.ok (), s₁) ∧
        Tree.execAll marker ts s₁ = (.error fault, s₂) ∧
        s₂.transact .rollback = (.error failure, s₃) ∧
        enclosed.1.error? = some (.failed fault.failure) ∧
        block.1.error? = some (.failed failure)) ∨
      block.1.error? = enclosed.1.error? ∧
        ∀ s₁ fault s₂, ({ connection } : Store σ).transact .begin = (.ok (), s₁) →
          Tree.execAll marker ts s₁ = (.error fault, s₂) → (s₂.transact .rollback).1 = .ok ()) := by
  intro block enclosed
  have hblock : block = Tree.interpretBare marker [.transaction opener ts closer] { connection } := rfl
  have henclosed : enclosed = Tree.interpretEnclosed marker ts { connection } := rfl
  rw [Tree.interpretBare, Tree.execAll] at hblock
  rw [Tree.interpretEnclosed] at henclosed
  rcases hbegin : ({ connection } : Store σ).transact .begin with ⟨failure | _, s₁⟩
  · rw [exec_transaction_of_refused hbegin] at hblock
    rw [hbegin] at henclosed
    rw [hblock, henclosed]
    exact ⟨⟨⟨rfl, rfl, rfl, rfl, rfl⟩, rfl⟩, .inr ⟨rfl, fun s₁ fault s₂ hbegun => by cases hbegun⟩⟩
  rw [hbegin] at henclosed
  dsimp only at henclosed
  rcases hexec : Tree.execAll marker ts s₁ with ⟨fault | _, s₂⟩ <;> rw [hexec] at henclosed
  · rw [exec_transaction_of_error hbegin hexec, Store.abandon] at hblock
    dsimp only at henclosed
    rcases hrollback : s₂.transact .rollback with ⟨failure | _, s₃⟩ <;>
      rw [hrollback] at hblock henclosed <;> rw [hblock, henclosed]
    · exact ⟨⟨⟨rfl, rfl, rfl, rfl, rfl⟩, rfl⟩,
        .inl ⟨s₁, fault, s₂, failure, s₃, rfl, hexec, hrollback, rfl, rfl⟩⟩
    · refine ⟨⟨⟨rfl, rfl, rfl, rfl, rfl⟩, rfl⟩, .inr ⟨rfl, fun s₁' fault' s₂' hbegun hfailed => ?_⟩⟩
      cases hbegun
      rw [hexec] at hfailed
      cases hfailed
      rw [hrollback]
  · rw [exec_transaction_of_ok hbegin hexec] at hblock
    dsimp only at henclosed
    have hnever : ∀ s₁' fault s₂', ((.ok (), s₁) : Except Failure Unit × Store σ) = (.ok (), s₁') →
        Tree.execAll marker ts s₁' = (.error fault, s₂') → (s₂'.transact .rollback).1 = .ok () := by
      intro s₁' fault s₂' hbegun hfailed
      cases hbegun
      rw [hexec] at hfailed
      cases hfailed
    rcases hcommit : s₂.commit with ⟨failure | _, s₃⟩ <;>
      rw [hcommit] at hblock henclosed <;> rw [hblock, henclosed]
    · exact ⟨⟨⟨rfl, rfl, rfl, rfl, rfl⟩, rfl⟩, .inr ⟨rfl, hnever⟩⟩
    · exact ⟨⟨⟨rfl, rfl, rfl, rfl, rfl⟩, rfl⟩, .inr ⟨rfl, hnever⟩⟩

/-! ## Scripts -/

/-- The fragments of a transaction block are those of its body between its lines. -/
theorem Tree.flattenAll_transaction (opener closer : Line) (ts : List Tree) :
    Tree.flattenAll [.transaction opener ts closer]
      = opener.directive .beginTransaction ::
        (Tree.flattenAll ts ++ [closer.directive .endTransaction]) := by
  rw [Tree.flattenAll, Tree.flattenAll, Tree.flatten, List.append_nil]

/-- The lines of a transaction block need no condition. -/
theorem conditioned_transaction {d : Dialect} {ts : List Tree}
    (hts : Conditioned d (Tree.flattenAll ts)) (opener closer : Line) :
    Conditioned d (Tree.flattenAll [.transaction opener ts closer]) := by
  have hopener : Conditioned d [opener.directive .beginTransaction] := by
    simp [Conditioned, Line.directive, Line.fragment]
  have hcloser : Conditioned d [closer.directive .endTransaction] := by
    simp [Conditioned, Line.directive, Line.fragment]
  rw [Tree.flattenAll_transaction]
  exact conditioned_cons.2 ⟨hopener, conditioned_append.2 ⟨hts, hcloser⟩⟩

/-- A script that is run inside a transaction of its own does what it does inside a transaction block:
it makes the same calls, leaves the same connection, and comes to the same end with the same counts and
messages, the lines of the block apart. It reports the same error unless a failure that nothing in it
handles cannot be rolled back: then it keeps that failure, and the block reports the rollback. -/
theorem run_enclosed_agrees_with_block {d : Dialect} {fragments : List Fragment}
    (h : (Program.assemble d fragments).executable = true) (opener closer : Line) (marker : String)
    (connection : Option σ) :
    let p := Program.assemble d fragments
    let q := Program.assemble d
      (opener.directive .beginTransaction :: (fragments ++ [closer.directive .endTransaction]))
    let enclosed := p.run marker true connection
    let block := q.run marker false connection
    q.executable = true ∧
      q.calls marker false connection = p.calls marker true connection ∧
      block.connection = enclosed.connection ∧
      block.report.outcome = enclosed.report.outcome ∧
      block.report.messages = enclosed.report.messages ∧
      block.report.stats.recovered = enclosed.report.stats.recovered ∧
      block.report.stats.sqlStatements = enclosed.report.stats.sqlStatements ∧
      block.report.stats.rowsAffected = enclosed.report.stats.rowsAffected ∧
      (∀ failure error, p.FailsToRollBack marker connection failure error →
        enclosed.report.error? = some failure ∧
          block.report.error? = some (.failed (.transaction .rollback error))) ∧
      ((∀ failure error, ¬p.FailsToRollBack marker connection failure error) →
        block.report.error? = enclosed.report.error?) := by
  obtain ⟨ts, rfl, hts⟩ :=
    Program.exists_trees_of_error?_eq_none (Program.executable_assemble_iff.1 h)
  have hconditioned := conditioned_transaction hts opener closer
  rw [← Tree.flattenAll_transaction]
  intro p q enclosed block
  have henclosed : enclosed.result = Tree.interpret marker true ts connection :=
    result_run_assemble hts marker true connection
  have hblock : block.result
      = Tree.interpret marker false [.transaction opener ts closer] connection :=
    result_run_assemble hconditioned marker false connection
  obtain ⟨⟨hagrees, hconnection⟩, herror⟩ :=
    Tree.interpret_transaction marker opener closer ts connection
  rw [← henclosed, ← hblock] at hagrees hconnection herror
  refine ⟨?_, ?_, hconnection, hagrees.outcome, hagrees.messages, hagrees.recovered,
    hagrees.sqlStatements, hagrees.rowsAffected, ?_, ?_⟩
  · rw [Program.executable_assemble_iff, Program.assemble_flattenAll hconditioned]
  · -- the same over a transcript, which ends up the same
    have htranscript := (Tree.interpret_transaction marker opener closer ts
      (connection.map Transcript.start)).1.2
    rw [← result_run_assemble hts, ← result_run_assemble hconditioned] at htranscript
    exact congrArg (fun t => Option.elim t [] Transcript.calls) htranscript
  · intro failure error hfails
    obtain ⟨s₁, fault, s₂, hbegin, hexec, rfl, hrollback⟩ := hfails.exists_fault hts
    rcases herror with ⟨s₁', fault', s₂', failure', s₃, hbegin', hexec', hrollback', hleft, hright⟩ |
      ⟨-, hnever⟩
    · cases hbegin.symm.trans hbegin'
      cases hexec.symm.trans hexec'
      rw [hrollback'] at hrollback
      cases hrollback
      exact ⟨hleft, hright⟩
    · cases (hnever s₁ fault s₂ hbegin hexec).symm.trans hrollback
  · intro hnone
    rcases herror with ⟨s₁, fault, s₂, failure, s₃, hbegin, hexec, hrollback, -, -⟩ | ⟨hsame, -⟩
    · obtain ⟨error, -, hfails⟩ := failsToRollBack_of_fault hts hbegin hexec hrollback
      exact absurd hfails (hnone _ _)
    · exact hsame

/-- A statement fails, and then its transaction cannot be rolled back. -/
theorem run_refused_without_rollback :
    let fragments : List Fragment := [⟨.sql, "A", "A", 2⟩]
    let opener : Line := ⟨"", "--begin", 1⟩
    let closer : Line := ⟨"", "--endtransaction", 3⟩
    let p := Program.assemble {} fragments
    let q := Program.assemble {}
      (opener.directive .beginTransaction :: (fragments ++ [closer.directive .endTransaction]))
    let refused := SqlError.statement (-204) "A failed"
    let lost := SqlError.connection "lost"
    let r : Rehearsal := { statements := [(1, .error refused)]
                           refusal := fun call => if call = .rollback then some lost else none }
    p.executable = true ∧
      p.FailsToRollBack "--" (some r) (.failed (.sql refused)) lost ∧
      q.calls "--" false (some r) = p.calls "--" true (some r) ∧
      (p.run "--" true (some r)).report.error? = some (.failed (.sql refused)) ∧
      (q.run "--" false (some r)).report.error? = some (.failed (.transaction .rollback lost)) := by
  intro fragments opener closer p q refused lost r
  have hexecutable : p.executable = true := by decide
  have hfails : p.FailsToRollBack "--" (some r) (.failed (.sql refused)) lost :=
    ⟨r, _, _, _, rfl, rfl, by decide, by decide, rfl, rfl⟩
  obtain ⟨-, hcalls, -, -, -, -, -, -, herror, -⟩ :=
    run_enclosed_agrees_with_block hexecutable opener closer "--" (some r)
  exact ⟨hexecutable, hfails, hcalls, herror _ _ hfails⟩

end SqlFlow
