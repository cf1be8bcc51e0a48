import SqlFlow.Proofs.Run.Sequence
import SqlFlow.Proofs.Tree.Insertion
import SqlFlow.Proofs.Tree.Shifting

/-!
# Debug directives change nothing else

What a script does with a `debug` directive put into it, compared with what it does without.

* `Store.Noted`: the stores after the directive, with and without it. `Noted.apply`: no operation that a
  script is made of depends on what it left in the store (`Store.Oblivious`), so the stores stay like this.
* `Store.Adds`: the same answer, and the stores the same or like this. `Tree.Inserts.adds`: so it is with
  trees into which the directive is put. The induction is on the place; a body that it is put into is
  followed by the same as before, and in a chain or an attempt that is passed over it is not run.
* `Report.Debugs`: what is reported then. `Tree.debugs_interpret`: of trees. `EndsAlike.run_eq`: programs
  with the same error are not run, and that is reported in the same way.
* `debug_directive_is_transparent`: of any script.
-/

namespace SqlFlow

variable {σ : Type}

/-! ## Stores -/

namespace Store

/-- The second store is what the first one would be if a `debug` directive with the text had been run, now
or earlier. -/
structure Noted (text : String) (s s' : Store σ) : Prop where
  connection : s'.connection = s.connection
  stats : s'.stats = { s.stats with statements := s.stats.statements + 1 }
  messages : ∃ before after, s.messages = before ++ after ∧ s'.messages = before.push text ++ after

/-- The operation does not depend on what has been counted and collected. -/
def Oblivious {α : Type} (f : Store σ → α × Store σ) : Prop :=
  ∀ stats messages s, f (behind stats messages s) = Prod.map id (behind stats messages) (f s)

/-- The answers are the same, and so are the stores unless the directive has been run. -/
structure Adds {α : Type} (text : String) (r r' : α × Store σ) : Prop where
  answer : r'.1 = r.1
  store : r'.2 = r.2 ∨ Noted text r.2 r'.2

variable {text : String} {s s' : Store σ} {α β : Type}

theorem noted_note (text : String) (s : Store σ) : Noted text s (s.tick.note text) :=
  ⟨rfl, rfl, s.messages, #[], (Array.append_empty).symm, (Array.append_empty).symm⟩

theorem Noted.behind (h : Noted text s s') (u : Store σ) :
    Noted text (behind s.stats s.messages u) (Store.behind s'.stats s'.messages u) := by
  obtain ⟨before, after, hmessages, hmessages'⟩ := h.messages
  refine ⟨rfl, ?_, before, after ++ u.messages, ?_, ?_⟩
  · show s'.stats + u.stats = _
    rw [h.stats]
    exact congrArg (Stats.mk · _ _ _) (Nat.add_right_comm s.stats.statements 1 u.stats.statements)
  · show s.messages ++ u.messages = _
    rw [hmessages, Array.append_assoc]
  · show s'.messages ++ u.messages = _
    rw [hmessages', Array.append_assoc]

/-- Whatever is done behind the directive, it has been run before. -/
theorem Noted.apply {f : Store σ → α × Store σ} (hf : Oblivious f) (h : Noted text s s') :
    (f s').1 = (f s).1 ∧ Noted text (f s).2 (f s').2 := by
  -- both stores are the same empty one behind what they have counted and collected
  have hs := hf s.stats s.messages { connection := s.connection }
  have hs' := hf s'.stats s'.messages { connection := s.connection }
  rw [behind_start] at hs
  rw [← h.connection, behind_start, h.connection] at hs'
  rw [hs, hs']
  exact ⟨rfl, h.behind _⟩

namespace Adds

theorem refl (r : α × Store σ) : Adds text r r := ⟨rfl, .inl rfl⟩

theorem exists_eq {r r' : α × Store σ} (h : Adds text r r') :
    ∃ answer u u', r = (answer, u) ∧ r' = (answer, u') ∧ (u' = u ∨ Noted text u u') :=
  ⟨r.1, r.2, r'.2, rfl, Prod.ext h.answer rfl, h.store⟩

theorem of_store {f : Store σ → α × Store σ} (hf : Oblivious f) (h : s' = s ∨ Noted text s s') :
    Adds text (f s) (f s') := by
  rcases h with rfl | hnoted
  · exact refl _
  · obtain ⟨hanswer, hstore⟩ := hnoted.apply hf
    exact ⟨hanswer, .inr hstore⟩

end Adds

end Store

open Store

section

variable {text : String} {r r' : Except Fault Unit × Store σ}
  {next next' : Store σ → Except Fault Unit × Store σ}

theorem Store.Adds.andThen (h : Adds text r r') (hnext : Oblivious next) :
    Adds text (andThen r next) (SqlFlow.andThen r' next) := by
  obtain ⟨answer, u, u', rfl, rfl, hstore⟩ := h.exists_eq
  cases answer with
  | error fault => exact ⟨rfl, hstore⟩
  | ok => exact .of_store hnext hstore

theorem adds_andThen (r : Except Fault Unit × Store σ) (hnext : ∀ s, Adds text (next s) (next' s)) :
    Adds text (andThen r next) (andThen r next') := by
  rcases r with ⟨_ | _, s⟩
  · exact .refl _
  · exact hnext s

theorem adds_choose [Connection σ] (condition statement : String)
    {yes no yes' no' : Store σ → Except Fault Unit × Store σ}
    (hyes : ∀ s, Adds text (yes s) (yes' s)) (hno : ∀ s, Adds text (no s) (no' s)) (s : Store σ) :
    Adds text (choose condition statement yes no s) (choose condition statement yes' no' s) := by
  rw [choose, choose]
  rcases s.tick.evaluate condition with ⟨_ | _ | _, s'⟩
  · exact .refl _
  · exact hno s'
  · exact hyes s'

/-- What a chain does once it passes over its members does not depend on their bodies. -/
theorem Branch.Inserts.skip_eq {l : Line} : {b b' : Branch} → Branch.Inserts l b b' → (s : Store σ) →
    b'.skip s = b.skip s
  | _, _, .otherwise _, _ | _, _, .elseIfBody _, _ => rfl
  | _, _, .elseIfRest h, s => h.skip_eq s.tick

end

/-! ## What comes behind a body -/

theorem Store.Oblivious.tick {α : Type} {f : Store σ → α × Store σ} (hf : Oblivious f) :
    Oblivious fun s => f s.tick :=
  fun stats messages s => hf stats messages s.tick

theorem oblivious_ok : Oblivious fun s : Store σ => ((.ok () : Except Fault Unit), s) :=
  fun _ _ _ => rfl

section

variable [Connection σ] (marker : String)

theorem oblivious_of_morphism {α : Type} {f : Store σ → α × Store σ}
    (h : ∀ F, Morphism F → ∀ s, f (F s) = Prod.map id F (f s)) : Oblivious f :=
  fun stats messages => h _ (morphism_behind stats messages)

theorem oblivious_execAll (ts : List Tree) : Oblivious fun s : Store σ => Tree.execAll marker ts s :=
  oblivious_of_morphism fun _ hF => Tree.execAll_morphism hF marker ts

theorem oblivious_skip (rest : Branch) :
    Oblivious fun s : Store σ => ((.ok () : Except Fault Unit), rest.skip s) :=
  oblivious_of_morphism fun _ hF s => congrArg (Prod.mk _) (hF.skip rest s)

theorem oblivious_handler (handler : List Tree) :
    Oblivious fun s : Store σ =>
      andThen (Tree.execAll marker handler s.recover.tick) fun s => (.ok (), s.tick) :=
  oblivious_of_morphism fun _ hF => Tree.handler_morphism hF marker handler

theorem oblivious_rollback (statement : String) (handler : List Tree) :
    Oblivious fun s : Store σ =>
      match s.transact .rollback with
      | (.error failure, s) => (.error (Fault.mk failure statement), s)
      | (.ok (), s) => andThen (Tree.execAll marker handler s.recover.tick) fun s => (.ok (), s.tick) :=
  oblivious_of_morphism fun F hF s => by
    simp only [hF.transact]
    rcases s.transact .rollback with ⟨failure | _, u⟩
    · rfl
    · exact Tree.handler_morphism hF marker handler u

theorem oblivious_transact (call : TransactionCall) : Oblivious fun s : Store σ => s.transact call :=
  oblivious_of_morphism fun _ hF s => hF.transact s call

theorem oblivious_commit : Oblivious fun s : Store σ => s.commit :=
  oblivious_of_morphism fun _ hF => hF.commit

theorem oblivious_blame_commit (statement : String) :
    Oblivious fun s : Store σ => blame statement s.commit :=
  oblivious_of_morphism fun F hF s => by
    show blame statement (F s).commit = _
    rw [hF.commit, blame_map]

theorem oblivious_abandon (fault : Fault) :
    Oblivious fun s : Store σ => ((.error (s.abandon fault).1 : Except Fault Unit), (s.abandon fault).2) :=
  oblivious_of_morphism fun F hF s => by
    show (Except.error ((F s).abandon fault).1, ((F s).abandon fault).2) = _
    rw [hF.abandon]
    rfl

end

/-! ## Trees -/

section

variable [Connection σ] {l : Line} (marker : String)

/-- An attempt goes on with its handler or behind it, whatever has been run in its body. -/
theorem adds_attempt {opener middle closer : Line} {body body' : List Tree} (handler : List Tree)
    (hbody : ∀ s : Store σ, Adds l.text (Tree.execAll marker body s) (Tree.execAll marker body' s))
    (transactional : Bool) (s : Store σ) :
    Adds l.text ((Tree.attempt transactional opener body middle handler closer).exec marker s)
      ((Tree.attempt transactional opener body' middle handler closer).exec marker s) := by
  cases transactional with
  | false =>
    rw [Tree.exec, Tree.exec]
    obtain ⟨answer, u, u', hr, hr', hstore⟩ := (hbody s.tick).exists_eq
    rw [hr, hr']
    cases answer with
    | ok => exact .of_store (f := fun s => (Except.ok (), s.tick.tick)) oblivious_ok.tick.tick hstore
    | error fault => exact .of_store (oblivious_handler marker handler) hstore
  | true =>
    rw [Tree.exec, Tree.exec]
    refine adds_andThen _ fun s => ?_
    obtain ⟨answer, u, u', hr, hr', hstore⟩ := (hbody s).exists_eq
    rw [hr, hr']
    cases answer with
    | ok => exact .of_store (oblivious_blame_commit _).tick.tick hstore
    | error fault => exact .of_store (oblivious_rollback marker fault.statement handler) hstore

/-- What is run in a handler is run behind the failure. -/
theorem adds_handler {opener middle closer : Line} {handler handler' : List Tree} (body : List Tree)
    (hhandler : ∀ s : Store σ,
      Adds l.text (Tree.execAll marker handler s) (Tree.execAll marker handler' s))
    (transactional : Bool) (s : Store σ) :
    Adds l.text ((Tree.attempt transactional opener body middle handler closer).exec marker s)
      ((Tree.attempt transactional opener body middle handler' closer).exec marker s) := by
  have hbehind : ∀ s : Store σ,
      Adds l.text (andThen (Tree.execAll marker handler s.recover.tick) fun s => (.ok (), s.tick))
        (andThen (Tree.execAll marker handler' s.recover.tick) fun s => (.ok (), s.tick)) :=
    fun s => (hhandler s.recover.tick).andThen oblivious_ok.tick
  cases transactional with
  | false =>
    rw [Tree.exec, Tree.exec]
    rcases Tree.execAll marker body s.tick with ⟨fault | _, u⟩
    · exact hbehind u
    · exact .refl _
  | true =>
    rw [Tree.exec, Tree.exec]
    refine adds_andThen _ fun s => ?_
    rcases Tree.execAll marker body s with ⟨fault | _, u⟩
    · show Adds _ (match u.transact .rollback with | _ => _) (match u.transact .rollback with | _ => _)
      rcases u.transact .rollback with ⟨failure | _, v⟩
      · exact .refl _
      · exact hbehind v
    · exact .refl _

theorem adds_transaction {opener closer : Line} {body body' : List Tree}
    (hbody : ∀ s : Store σ, Adds l.text (Tree.execAll marker body s) (Tree.execAll marker body' s))
    (s : Store σ) :
    Adds l.text ((Tree.transaction opener body closer).exec marker s)
      ((Tree.transaction opener body' closer).exec marker s) := by
  rw [Tree.exec, Tree.exec]
  refine adds_andThen _ fun s => ?_
  obtain ⟨answer, u, u', hr, hr', hstore⟩ := (hbody s).exists_eq
  rw [hr, hr']
  cases answer with
  | ok => exact .of_store (oblivious_blame_commit _).tick hstore
  | error fault => exact .of_store (oblivious_abandon fault) hstore

mutual

theorem Tree.Inserts.adds : {t t' : Tree} → Tree.Inserts l t t' → (s : Store σ) →
    Adds l.text (t.exec marker s) (t'.exec marker s)
  | _, _, .chainBody h, s => by
    rw [Tree.exec, Tree.exec]
    exact adds_choose _ _ (fun s => (h.adds s).andThen (oblivious_skip _)) (fun s => .refl _) s
  | _, _, .chainRest h, s => by
    rw [Tree.exec, Tree.exec]
    refine adds_choose _ _ (fun s => ?_) h.adds s
    simp only [h.skip_eq]
    exact .refl _
  | _, _, .attemptBody h, s => adds_attempt marker _ h.adds _ s
  | _, _, .handler h, s => adds_handler marker _ h.adds _ s
  | _, _, .transaction h, s => adds_transaction marker h.adds s

theorem Tree.InsertsAll.adds : {ts ts' : List Tree} → Tree.InsertsAll l ts ts' → (s : Store σ) →
    Adds l.text (Tree.execAll marker ts s) (Tree.execAll marker ts' s)
  | _, _, .here ts, s => .of_store (oblivious_execAll marker ts) (.inr (noted_note l.text s))
  | _, _, .head h, s => by
    rw [Tree.execAll, Tree.execAll]
    exact (h.adds s).andThen (oblivious_execAll marker _)
  | _, _, .tail h, s => by
    rw [Tree.execAll, Tree.execAll]
    exact adds_andThen _ h.adds

theorem Branch.Inserts.adds : {b b' : Branch} → Branch.Inserts l b b' → (s : Store σ) →
    Adds l.text (b.exec marker s) (b'.exec marker s)
  | _, _, .otherwise h, s => by
    rw [Branch.exec, Branch.exec]
    exact (h.adds s.tick).andThen oblivious_ok.tick
  | _, _, .elseIfBody h, s => by
    rw [Branch.exec, Branch.exec]
    exact adds_choose _ _ (fun s => (h.adds s).andThen (oblivious_skip _)) (fun s => .refl _) s
  | _, _, .elseIfRest h, s => by
    rw [Branch.exec, Branch.exec]
    refine adds_choose _ _ (fun s => ?_) h.adds s
    simp only [h.skip_eq]
    exact .refl _

end

end

/-! ## Reports -/

/-- The second report is the first one, but the `debug` directive with the text may have been run, once. -/
structure Report.Debugs (text : String) (first second : Report) : Prop where
  outcome : second.outcome = first.outcome
  error : second.error? = first.error?
  statement : second.statement = first.statement
  sqlStatements : second.stats.sqlStatements = first.stats.sqlStatements
  recovered : second.stats.recovered = first.stats.recovered
  rowsAffected : second.stats.rowsAffected = first.stats.rowsAffected
  messages : ∃ (count : Nat) (before after : Array String), count ≤ 1 ∧
    second.stats.statements = first.stats.statements + count ∧
    first.messages = before ++ after ∧
    second.messages = before ++ Array.replicate count text ++ after

theorem Report.Debugs.refl (text : String) (r : Report) : r.Debugs text r :=
  ⟨rfl, rfl, rfl, rfl, rfl, rfl, 0, r.messages, #[], Nat.zero_le 1, rfl, by simp, by simp⟩

/-- Runs that end in the same way, with and without the directive. -/
theorem debugs_finish {text : String} {s s' : Store σ} (h : s' = s ∨ Noted text s s') (outcome : Outcome)
    (error? : Option ScriptError) (statement : String) :
    (s'.finish outcome error? statement).2 = (s.finish outcome error? statement).2 ∧
      (s.finish outcome error? statement).1.Debugs text (s'.finish outcome error? statement).1 := by
  rcases h with rfl | ⟨hconnection, hstats, before, after, hmessages, hmessages'⟩
  · exact ⟨rfl, .refl text _⟩
  · refine ⟨hconnection, rfl, rfl, rfl, ?_, ?_, ?_, 1, before, after, Nat.le_refl 1, ?_, hmessages, ?_⟩
    all_goals unfold finish
    · rw [hstats]
    · rw [hstats]
    · rw [hstats]
    · rw [hstats]
    · show s'.messages = _
      rw [hmessages', Array.replicate_one, Array.push_eq_append]

section

variable [Connection σ] {l : Line} {ts ts' : List Tree} (h : Tree.InsertsAll l ts ts') (marker : String)

include h

theorem Tree.debugs_interpretBare (s : Store σ) :
    (Tree.interpretBare marker ts' s).2 = (Tree.interpretBare marker ts s).2 ∧
      (Tree.interpretBare marker ts s).1.Debugs l.text (Tree.interpretBare marker ts' s).1 := by
  rw [Tree.interpretBare, Tree.interpretBare]
  obtain ⟨answer, u, u', hr, hr', hstore⟩ := (h.adds marker s).exists_eq
  rw [hr, hr']
  cases answer with
  | ok => exact debugs_finish hstore _ _ _
  | error fault => exact debugs_finish hstore _ _ _

theorem Tree.debugs_interpretEnclosed (s : Store σ) :
    (Tree.interpretEnclosed marker ts' s).2 = (Tree.interpretEnclosed marker ts s).2 ∧
      (Tree.interpretEnclosed marker ts s).1.Debugs l.text (Tree.interpretEnclosed marker ts' s).1 := by
  rw [Tree.interpretEnclosed, Tree.interpretEnclosed]
  rcases s.transact .begin with ⟨failure | _, s⟩
  · exact ⟨rfl, .refl _ _⟩
  obtain ⟨answer, u, u', hr, hr', hstore⟩ := (h.adds marker s).exists_eq
  simp only [hr, hr']
  cases answer with
  | error fault => exact debugs_finish (Adds.of_store (oblivious_transact .rollback) hstore).store _ _ _
  | ok =>
    obtain ⟨answer, v, v', hv, hv', hstore⟩ := (Adds.of_store oblivious_commit hstore).exists_eq
    simp only [hv, hv']
    cases answer with
    | ok => exact debugs_finish hstore _ _ _
    | error failure => exact debugs_finish hstore _ _ _

theorem Tree.debugs_interpret (outer : Bool) (connection : Option σ) :
    (Tree.interpret marker outer ts' connection).2 = (Tree.interpret marker outer ts connection).2 ∧
      (Tree.interpret marker outer ts connection).1.Debugs l.text
        (Tree.interpret marker outer ts' connection).1 := by
  cases outer with
  | false => exact Tree.debugs_interpretBare h marker { connection }
  | true => exact Tree.debugs_interpretEnclosed h marker { connection }

end

/-! ## Scripts -/

section

variable [Connection σ]

/-- Programs with the same error are refused in the same way. -/
theorem EndsAlike.run_eq {p q : Program} (h : EndsAlike p q) (herror : p.error? ≠ none) (marker : String)
    (outer : Bool) (connection : Option σ) : q.run marker outer connection = p.run marker outer connection := by
  cases h with
  | complete hp => exact absurd hp herror
  | refused a b error raw =>
    have hexecutable : ∀ a : Assembly, ¬(a.refuse error raw).executable = true := fun a => by
      simp [Program.executable, Assembly.refuse]
    rw [Program.run, Program.run, if_neg (hexecutable a), if_neg (hexecutable b)]
    simp [Program.refuseRun, Assembly.refuse]

variable (d : Dialect) (as bs : List Fragment) (l : Line) (marker : String) (outer : Bool)

theorem debugs_run (connection : Option σ) :
    let first := (Program.assemble d (as ++ bs)).run marker outer connection
    let second := (Program.assemble d (as ++ l.directive .debug :: bs)).run marker outer connection
    second.connection = first.connection ∧ first.report.Debugs l.text second.report := by
  intro first second
  by_cases herror : (Program.assemble d (as ++ bs)).error? = none
  · obtain ⟨ts, hts, hc⟩ := Program.exists_trees_of_error?_eq_none herror
    obtain ⟨ts', hinserts, hts'⟩ := Tree.exists_insertsAll l ts hts.symm
    have hc' : Conditioned d (Tree.flattenAll ts') := by
      rw [← hts, conditioned_append] at hc
      rw [hts', conditioned_append, conditioned_cons]
      exact ⟨hc.1, by simp [Conditioned, Line.directive, Line.fragment], hc.2⟩
    have hfirst : first.result = Tree.interpret marker outer ts connection := by
      unfold first
      rw [hts]
      exact result_run_assemble hc marker outer connection
    have hsecond : second.result = Tree.interpret marker outer ts' connection := by
      unfold second
      rw [← hts']
      exact result_run_assemble hc' marker outer connection
    have hinterpret := Tree.debugs_interpret hinserts marker outer connection
    rw [← hfirst, ← hsecond] at hinterpret
    exact hinterpret
  · have hrun : second = first :=
      (Assembly.endsAlike_insert d l as bs {}).run_eq herror marker outer connection
    rw [hrun]
    exact ⟨rfl, .refl _ _⟩

/-- A `debug` directive changes neither what a script does to the database nor what is reported of it,
wherever it is put: there is the same error in the script or none, the same calls are made, and apart from
the text and the count of one more statement, should the directive be run, the report is the same. -/
theorem debug_directive_is_transparent (connection : Option σ) :
    let p := Program.assemble d (as ++ bs)
    let q := Program.assemble d (as ++ l.directive .debug :: bs)
    let first := p.run marker outer connection
    let second := q.run marker outer connection
    q.error? = p.error? ∧
      q.calls marker outer connection = p.calls marker outer connection ∧
      second.connection = first.connection ∧
      first.report.Debugs l.text second.report := by
  intro p q first second
  obtain ⟨hconnection, hreport⟩ := debugs_run d as bs l marker outer connection
  refine ⟨(Assembly.endsAlike_insert d l as bs {}).error?_eq.symm, ?_, hconnection, hreport⟩
  -- transcripts are connections as well, and they are left the same
  obtain ⟨htranscript, -⟩ := debugs_run d as bs l marker outer (connection.map Transcript.start)
  exact congrArg (·.elim [] Transcript.calls) htranscript

end

/-- A text that is told between two statements. -/
example :
    let a : Fragment := ⟨.sql, "A", "A", 1⟩
    let b : Fragment := ⟨.sql, "B", "B", 3⟩
    let p := Program.assemble {} [a, b]
    let q := Program.assemble {} [a, Line.directive ⟨"so far", "--debug so far", 2⟩ .debug, b]
    let run (p : Program) := (p.run "--" true (some ({} : Rehearsal))).report
    q.calls "--" true (some ({} : Rehearsal)) = p.calls "--" true (some ({} : Rehearsal)) ∧
      (run p).messages = #[] ∧ (run q).messages = #["so far"] ∧
      (run p).stats.statements = 2 ∧ (run q).stats.statements = 3 := by decide +kernel

end SqlFlow
