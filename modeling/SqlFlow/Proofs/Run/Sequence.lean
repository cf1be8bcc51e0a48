import SqlFlow.Proofs.Transaction.Atomicity

/-!
# Scripts one after the other

Running a script that consists of two parts comes to running the first part and, if that is a success,
the second one on the connection that the first one leaves.

* `Store.behind`: a store that already has the counts and messages of an earlier run.
  `Store.morphism_behind`: they make no difference to what a script does.
* `Tree.execAll_append`: trees one after the other, on one store.
* `Tree.interpret_append`: the same with a store for each part, whose counts are added up.
* `Transcript.behind`: the same for transcripts and the calls in them.
-/

namespace SqlFlow

/-- What two runs count together. -/
instance : Add Stats where
  add a b :=
    { statements := a.statements + b.statements
      sqlStatements := a.sqlStatements + b.sqlStatements
      recovered := a.recovered + b.recovered
      rowsAffected := a.rowsAffected + b.rowsAffected }

theorem Stats.rowsAffected_add (a b : Stats) :
    (a + b).rowsAffected = a.rowsAffected + b.rowsAffected := rfl

/-- The report on a script whose first part was a success: that on its second part, with what both parts
have counted and collected. -/
def Report.andThen (first second : Report) : Report :=
  { second with
    stats := first.stats + second.stats
    messages := first.messages ++ second.messages }

variable {σ : Type} [Connection σ]

/-! ## Counts and messages of an earlier run -/

namespace Store

/-- The store when an earlier run has counted and collected something. -/
def behind (stats : Stats) (messages : Array String) (s : Store σ) : Store σ :=
  { s with stats := stats + s.stats, messages := messages ++ s.messages }

variable (stats : Stats) (messages : Array String)

omit [Connection σ] in
theorem ask_behind {α : Type} (s : Store σ) (toFailure : SqlError → Failure)
    (f : σ → Except SqlError α × σ) :
    (s.behind stats messages).ask toFailure f
      = Prod.map id (behind stats messages) (s.ask toFailure f) := by
  cases hc : s.connection with
  | none => simp [ask, behind, hc]
  | some c => simp [ask, behind, hc]

theorem morphism_behind : Morphism (behind stats messages : Store σ → Store σ) where
  tick _ := rfl
  recover _ := rfl
  note s text := by
    unfold note behind
    rw [Array.push_append]
  transact s call := s.ask_behind stats messages _ _
  query s sql := by
    rw [query, query, execute, ask_behind, execute]
    rcases s.ask .sql (Connection.execute sql) with ⟨_ | result, s'⟩
    · rfl
    · -- the rows are added to a sum; whatever else is counted is one more
      have hrows : stats.rowsAffected + s'.stats.rowsAffected + result.rowsAffected
          = stats.rowsAffected + (s'.stats.rowsAffected + result.rowsAffected) := Nat.add_assoc ..
      simp only [Prod.map, id_eq, behind, Stats.rowsAffected_add, hrows]
      rfl
  evaluate s condition := by
    rw [evaluate, evaluate, execute, ask_behind, execute]
    cases Literal.truth? condition with
    | some b => rfl
    | none => rcases s.ask .sql (Connection.execute condition) with ⟨(_ | _ | _) | _, _⟩ <;> rfl

omit [Connection σ] in
/-- A store is one with nothing in it but its connection, behind what it has counted and collected. -/
theorem behind_start (s : Store σ) :
    behind s.stats s.messages { connection := s.connection } = s := by
  unfold behind
  rw [Array.append_empty]
  rfl

end Store

/-! ## Trees -/

omit [Connection σ] in
theorem andThen_assoc (r : Except Fault Unit × Store σ)
    (f g : Store σ → Except Fault Unit × Store σ) :
    andThen (andThen r f) g = andThen r fun s => andThen (f s) g := by
  rcases r with ⟨_ | _, _⟩ <;> rfl

theorem Tree.execAll_append (marker : String) (ts us : List Tree) (s : Store σ) :
    Tree.execAll marker (ts ++ us) s = andThen (Tree.execAll marker ts s) (Tree.execAll marker us) := by
  induction ts generalizing s with
  | nil => rfl
  | cons t ts ih =>
    rw [List.cons_append, Tree.execAll, Tree.execAll, andThen_assoc]
    exact congrArg (andThen (t.exec marker s)) (funext ih)

theorem Tree.flattenAll_append (ts us : List Tree) :
    Tree.flattenAll (ts ++ us) = Tree.flattenAll ts ++ Tree.flattenAll us := by
  induction ts with
  | nil => rfl
  | cons t ts ih => rw [List.cons_append, Tree.flattenAll, Tree.flattenAll, ih, List.append_assoc]

/-- Behind an earlier run that was a success, a script is reported on with what that run counted. -/
theorem Tree.interpretBare_behind (marker : String) (ts : List Tree) (first : Report) (s : Store σ) :
    Tree.interpretBare marker ts (s.behind first.stats first.messages)
      = Prod.map first.andThen id (Tree.interpretBare marker ts s) := by
  rw [Tree.interpretBare, Tree.interpretBare,
    Tree.execAll_morphism (Store.morphism_behind first.stats first.messages)]
  rcases Tree.execAll marker ts s with ⟨fault | _, s'⟩ <;> rfl

/-- Trees one after the other: if the first ones are a success, the others are run on the connection that
those leave; if they are not, nothing else is. -/
theorem Tree.interpret_append (marker : String) (ts us : List Tree) (connection : Option σ) :
    let first := Tree.interpret marker false ts connection
    (first.1.outcome = .success → Tree.interpret marker false (ts ++ us) connection
      = Prod.map first.1.andThen id (Tree.interpret marker false us first.2)) ∧
    (first.1.outcome ≠ .success → Tree.interpret marker false (ts ++ us) connection = first) := by
  intro first
  have hfirst : first = Tree.interpretBare marker ts { connection } := rfl
  have hboth : Tree.interpret marker false (ts ++ us) connection
      = Tree.interpretBare marker (ts ++ us) { connection } := rfl
  rw [Tree.interpretBare] at hfirst
  rw [hboth, Tree.interpretBare, Tree.execAll_append]
  rcases hexec : Tree.execAll marker ts { connection } with ⟨fault | _, s⟩ <;> rw [hexec] at hfirst
  · refine ⟨fun hsuccess => ?_, fun _ => hfirst.symm⟩
    rw [hfirst] at hsuccess
    cases hsuccess
  · refine ⟨fun _ => ?_, fun hne => absurd (congrArg (·.1.outcome) hfirst) hne⟩
    have hsecond := Tree.interpretBare_behind marker us first.1 { connection := s.connection }
    have hstats : first.1.stats = s.stats := congrArg (·.1.stats) hfirst
    have hmessages : first.1.messages = s.messages := congrArg (·.1.messages) hfirst
    have hconnection : first.2 = s.connection := congrArg Prod.snd hfirst
    rw [hstats, hmessages, Store.behind_start] at hsecond
    rw [hconnection]
    exact hsecond

/-! ## Transcripts -/

namespace Transcript

/-- The transcript when calls have been written down before. -/
def behind (calls : List Answered) (t : Transcript σ) : Transcript σ :=
  { t with calls := calls ++ t.calls }

theorem preserves_behind (calls : List Answered) :
    Connection.Preserves (behind calls : Transcript σ → Transcript σ) where
  execute sql t := by
    show (_, Transcript.mk _ (calls ++ t.calls ++ [_]))
      = (_, Transcript.mk _ (calls ++ (t.calls ++ [_])))
    rw [List.append_assoc]
    rfl
  transact call t := by
    show (_, Transcript.mk _ (calls ++ t.calls ++ [_]))
      = (_, Transcript.mk _ (calls ++ (t.calls ++ [_])))
    rw [List.append_assoc]
    rfl

end Transcript

/-- A run over a transcript does what it does over the connection that is written about, and writes its
calls down behind those that are there already. -/
theorem Program.exists_transcript (d : Dialect) (fragments : List Fragment) (marker : String)
    (outer : Bool) (t : Transcript σ) :
    let p := Program.assemble d fragments
    ∃ t' : Transcript σ,
      (p.run marker outer (some t)).result
        = ((p.run marker outer (some t.connection)).report, some t') ∧
      (p.run marker outer (some t.connection)).connection = some t'.connection ∧
      t'.calls = t.calls ++ p.calls marker outer (some t.connection) := by
  intro p
  let start : Transcript σ := Transcript.start t.connection
  obtain ⟨u, hend, -⟩ := exists_trace_run d fragments marker outer start
  have hcalls : p.calls marker outer (some t.connection) = u.calls := Program.calls_eq hend
  have hresult : (p.run marker outer (some start)).result
      = ((p.run marker outer (some start)).report, some u) := congrArg (Prod.mk _) hend
  have herase := result_run_map Transcript.preserves_connection d fragments marker outer (some start)
  have hbehind := result_run_map (Transcript.preserves_behind t.calls) d fragments marker outer
    (some start)
  rw [hresult] at herase hbehind
  have hreport : (p.run marker outer (some t.connection)).report
      = (p.run marker outer (some start)).report := congrArg Prod.fst herase
  have ht : Transcript.behind t.calls start = t := by
    unfold Transcript.behind
    rw [show start.calls = [] from rfl, List.append_nil]
    rfl
  rw [Option.map_some, ht] at hbehind
  refine ⟨u.behind t.calls, ?_, congrArg Prod.snd herase, ?_⟩
  · rw [hreport]
    exact hbehind
  · rw [hcalls]
    rfl

/-! ## Scripts -/

section

variable {d : Dialect} {as bs : List Fragment} (has : (Program.assemble d as).executable = true)
  (hbs : (Program.assemble d bs).executable = true)

include has hbs

/-- The trees of both scripts, and of the two put together. -/
theorem exists_trees_append :
    ∃ ts us, as = Tree.flattenAll ts ∧ Conditioned d (Tree.flattenAll ts) ∧
      bs = Tree.flattenAll us ∧ Conditioned d (Tree.flattenAll us) ∧
      as ++ bs = Tree.flattenAll (ts ++ us) ∧ Conditioned d (Tree.flattenAll (ts ++ us)) := by
  obtain ⟨ts, rfl, hts⟩ :=
    Program.exists_trees_of_error?_eq_none (Program.executable_assemble_iff.1 has)
  obtain ⟨us, rfl, hus⟩ :=
    Program.exists_trees_of_error?_eq_none (Program.executable_assemble_iff.1 hbs)
  have hboth := Tree.flattenAll_append ts us
  refine ⟨ts, us, rfl, hts, rfl, hus, hboth.symm, ?_⟩
  rw [hboth]
  exact conditioned_append.2 ⟨hts, hus⟩

theorem result_run_append (marker : String) (connection : Option σ) :
    let first := (Program.assemble d as).run marker false connection
    let both := (Program.assemble d (as ++ bs)).run marker false connection
    (first.report.outcome = .success → both.result = Prod.map first.report.andThen id
      ((Program.assemble d bs).run marker false first.connection).result) ∧
    (first.report.outcome ≠ .success → both.result = first.result) := by
  obtain ⟨ts, us, rfl, hts, rfl, hus, hboth, hconditioned⟩ := exists_trees_append has hbs
  intro first both
  have hfirst : first.result = Tree.interpret marker false ts connection :=
    result_run_assemble hts marker false connection
  have happend := Tree.interpret_append marker ts us connection
  unfold both
  rw [hboth, result_run_assemble hconditioned, result_run_assemble hus, hfirst]
  rw [← hfirst] at happend ⊢
  exact happend

theorem calls_append (marker : String) (connection : Option σ) :
    let p := Program.assemble d as
    let q := Program.assemble d bs
    let both := Program.assemble d (as ++ bs)
    let first := p.run marker false connection
    (first.report.outcome = .success → both.calls marker false connection
      = p.calls marker false connection ++ q.calls marker false first.connection) ∧
    (first.report.outcome ≠ .success →
      both.calls marker false connection = p.calls marker false connection) := by
  intro p q both first
  cases connection with
  | none =>
    have hnone : first.connection = none := by
      obtain ⟨ts, us, rfl, hts, -⟩ := exists_trees_append has hbs
      exact (congrArg Prod.snd (result_run_assemble hts marker false none)).trans
        (Tree.interpret_none marker false ts)
    rw [hnone, calls_none, calls_none, calls_none]
    exact ⟨fun _ => rfl, fun _ => rfl⟩
  | some c =>
    -- both parts are run over one transcript, to which the second one adds its calls
    let start : Transcript σ := Transcript.start c
    obtain ⟨t, hfirst, hconnection, hcalls⟩ := Program.exists_transcript d as marker false start
    obtain ⟨t', hsecond, -, hcalls'⟩ := Program.exists_transcript d bs marker false t
    obtain ⟨hsuccess, hfailure⟩ := result_run_append has hbs marker (some start)
    have hreport : (p.run marker false (some start)).report = first.report := congrArg Prod.fst hfirst
    have hend : (p.run marker false (some start)).connection = some t := congrArg Prod.snd hfirst
    rw [hreport, hend, hsecond] at hsuccess
    rw [hreport, hfirst] at hfailure
    rw [show p.calls marker false (some c) = t.calls from hcalls.symm,
      show first.connection = some t.connection from hconnection]
    refine ⟨fun houtcome => ?_, fun houtcome => ?_⟩
    · rw [← hcalls']
      exact Program.calls_eq (congrArg Prod.snd (hsuccess houtcome))
    · exact Program.calls_eq (congrArg Prod.snd (hfailure houtcome))

end

/-- The run of two scripts put together is the run of the first and, if that is a success, the run of the
second on the connection that the first has left. The calls come one after the other, the counts are added
up, and of what else is reported the last run decides. -/
theorem run_append_eq_run_then_run {d : Dialect} {as bs : List Fragment}
    (has : (Program.assemble d as).executable = true)
    (hbs : (Program.assemble d bs).executable = true) (marker : String) (connection : Option σ) :
    let p := Program.assemble d as
    let q := Program.assemble d bs
    let both := Program.assemble d (as ++ bs)
    let first := p.run marker false connection
    let second := q.run marker false first.connection
    both.executable = true ∧
    (first.report.outcome = .success →
      (both.run marker false connection).report = { second.report with
        stats := first.report.stats + second.report.stats
        messages := first.report.messages ++ second.report.messages } ∧
      (both.run marker false connection).connection = second.connection ∧
      both.calls marker false connection
        = p.calls marker false connection ++ q.calls marker false first.connection) ∧
    (first.report.outcome ≠ .success →
      (both.run marker false connection).report = first.report ∧
      (both.run marker false connection).connection = first.connection ∧
      both.calls marker false connection = p.calls marker false connection) := by
  intro p q both first second
  have hexecutable : both.executable = true := by
    obtain ⟨ts, us, -, -, -, -, hboth, hconditioned⟩ := exists_trees_append has hbs
    unfold both
    rw [Program.executable_assemble_iff, hboth, Program.assemble_flattenAll hconditioned]
  obtain ⟨hsuccess, hfailure⟩ := result_run_append has hbs marker connection
  obtain ⟨hsuccess', hfailure'⟩ := calls_append has hbs marker connection
  refine ⟨hexecutable, fun houtcome => ?_, fun houtcome => ?_⟩
  · have hresult := hsuccess houtcome
    exact ⟨congrArg Prod.fst hresult, congrArg Prod.snd hresult, hsuccess' houtcome⟩
  · have hresult := hfailure houtcome
    exact ⟨congrArg Prod.fst hresult, congrArg Prod.snd hresult, hfailure' houtcome⟩

/-- The first script handles a failure and is a success, the second one fails. -/
theorem run_handled_then_refused :
    let as : List Fragment := [⟨.directive .attempt, "", "--try", 1⟩, ⟨.sql, "A", "A", 2⟩,
      ⟨.directive .handler, "", "--catch", 3⟩, ⟨.directive .debug, "C", "--debug C", 4⟩,
      ⟨.directive .endAttempt, "", "--endtry", 5⟩]
    let bs : List Fragment := [⟨.directive .debug, "D", "--debug D", 1⟩, ⟨.sql, "A", "A", 2⟩]
    let p := Program.assemble {} as
    let q := Program.assemble {} bs
    let both := Program.assemble {} (as ++ bs)
    let j : Journal := { entries := ["A"] }
    let first := p.run "--" false (some j)
    let second := q.run "--" false first.connection
    p.executable = true ∧ q.executable = true ∧ first.report.outcome = .success ∧
      second.report.outcome = .runtimeError ∧
      (both.run "--" false (some j)).report.stats = ⟨7, 0, 1, 0⟩ ∧
      (both.run "--" false (some j)).report = { second.report with
        stats := first.report.stats + second.report.stats
        messages := first.report.messages ++ second.report.messages } ∧
      both.calls "--" false (some j)
        = p.calls "--" false (some j) ++ q.calls "--" false first.connection := by
  intro as bs p q both j first second
  have has : p.executable = true := by decide
  have hbs : q.executable = true := by decide
  have houtcome : first.report.outcome = .success := by decide
  obtain ⟨-, hsuccess, -⟩ := run_append_eq_run_then_run has hbs "--" (some j)
  obtain ⟨hreport, -, hcalls⟩ := hsuccess houtcome
  exact ⟨has, hbs, houtcome, by decide, by decide, hreport, hcalls⟩

end SqlFlow
