import SqlFlow.Proofs.Lexer.Layout
import SqlFlow.Proofs.Run.Transcript
import SqlFlow.Script

/-!
# Reports on runs

What a script tells of its last run fits together, whatever the script is and however often it has been
run before.

* `visible_of_mem_split`: no fragment of a script is written as nothing, so neither is the statement that
  stands for an error, nor one that fails.
* `Program.FailsAround`: the failure of the transaction around a run.
* `Program.Tells`: what a report says, by the outcome. `tells_run`: the report of every run does.
* `Script.Reached`: the scripts that there are, by how they are come by and what may be done with them.
-/

namespace SqlFlow

/-! ## Nothing is reported as an empty text -/

/-- No fragment is written as nothing, and a SQL statement is what is written. -/
theorem visible_of_mem_split {d : Dialect} (hd : d.Valid) {source : String} :
    ∀ f ∈ Fragment.split d source, f.raw ≠ "" ∧ (f.kind = .sql → f.text = f.raw) := by
  obtain ⟨tokens, hseg⟩ := exists_isSegmentation d source.toList
  rw [split_eq_fragmentsAt hd hseg]
  obtain ⟨ss, hlayout⟩ : ∃ ss, Layout tokens 0 (textOf tokens).length (fragmentsAt d 1 tokens) ss :=
    exists_layout hd (hseg.1.symm ▸ hseg) tokens [] 1 rfl rfl
  suffices h : List.Forall₂ (fun f s => (f.raw ≠ "" ∧ (f.kind = .sql → f.text = f.raw)) ∧
      Fragment.StandsAt tokens f s) (fragmentsAt d 1 tokens) ss from ((List.forall₂_and_left _ _).1 h).1
  refine hlayout.stand.imp fun f s hstands => ⟨⟨fun hraw => ?_, hstands.text_eq⟩, hstands⟩
  -- the stretch of a fragment is not empty, and it is within the source
  have hlength := congrArg List.length hstands.raw_eq
  have hstart := hstands.start_lt_stop
  have hstop := hstands.stop_le
  rw [hraw, Stretch.read, List.length_take, List.length_drop] at hlength
  simp at hlength
  omega

theorem Directive.keyword_ne_empty (x : Directive) : x.keyword ≠ "" := by
  cases x <;> decide

theorem Statement.describe_ne_empty {s : Statement} (h : s.kind.isDirective = false → s.text ≠ "")
    (marker : String) : s.describe marker ≠ "" := by
  unfold describe
  cases hs : s.kind with
  | sql | invalid =>
    rw [hs] at h
    exact h rfl
  | directive x =>
    show (if s.text.isEmpty then _ else _ : String) ≠ ""
    have hkeyword := x.keyword_ne_empty
    split <;> simp [String.append_eq_empty_iff, hkeyword]

namespace Program

variable {d : Dialect} {source : String} {p : Program}

/-- A statement that may fail is described by some text. -/
theorem describe_ne_empty (hd : d.Valid) (h : (Script.compile d source).error? = none) {i : Nat}
    {s : Statement} (hget : (Script.compile d source).get? i = some s) (marker : String) :
    s.describe marker ≠ "" := by
  have hmem : s ∈ (Script.compile d source).statements.toList := by
    rw [Array.mem_toList_iff]
    exact Array.mem_of_getElem? hget
  have hcontent : s.content ∈ (Fragment.split d source).map Fragment.content := by
    rw [← content_of_error?_eq_none h]
    exact List.mem_map_of_mem hmem
  obtain ⟨f, hf, hfs⟩ := List.mem_map.1 hcontent
  obtain ⟨hraw, hsql⟩ := visible_of_mem_split hd f hf
  obtain ⟨-, -, hkinds⟩ := Assembly.closes_of_run h
  have hkind : f.kind.statementKind = s.kind := congrArg Prod.fst hfs
  have htext : f.text = s.text := congrArg (fun content => content.2.1) hfs
  apply Statement.describe_ne_empty
  intro hs
  rw [← hkind] at hs
  rw [← htext]
  cases hf' : f.kind with
  | sql =>
    rw [hsql hf']
    exact hraw
  | directive x =>
    rw [hf'] at hs
    cases hs
  | fault error => exact absurd hf' (hkinds f hf error)

/-! ## The report of a run -/

variable {σ : Type} [Connection σ]

/-- The failure is that of the transaction around a run: it cannot be begun, or it cannot be committed
when all statements have been run. -/
inductive FailsAround (p : Program) (connection : Option σ) (failure : Failure) : Prop where
  | begin {m : Machine σ}
      (hbegin : (Machine.emit { connection } (.started p.size true)).transact .begin
        = (.error failure, m))
  | commit {m m' m'' : Machine σ}
      (hbegin : (Machine.emit { connection } (.started p.size true)).transact .begin = (.ok (), m))
      (hrun : m.runAll p = (.ok (), m'))
      (hcommit : m'.transact .commit = (.error failure, m''))

/-- What the report on a run of the program says, by the outcome of the run. -/
inductive Tells (p : Program) (marker : String) (outer : Bool) (connection : Option σ) (r : Report) :
    Outcome → Prop where
  | success (houtcome : r.outcome = .success) (hprogram : p.error? = none) (herror : r.error? = none)
      (hstatement : r.statement = "") : Tells p marker outer connection r .success
  /-- It is the error of the program. Nothing has been counted, collected or asked of the connection. -/
  | syntaxError {error : SyntaxError} {last : Statement} (houtcome : r.outcome = .syntaxError)
      (hprogram : p.error? = some error) (herror : r.error? = some (.syntaxError error))
      (hlast : p.statements.back? = some last) (hstatement : r.statement = last.text)
      (hvisible : r.statement ≠ "") (hstats : r.stats = {}) (hmessages : r.messages = #[])
      (hcalls : p.calls marker outer connection = []) :
      Tells p marker outer connection r .syntaxError
  /-- It is a failure. No statement is told of if what failed is the transaction around the run. -/
  | runtimeError {failure : Failure} (houtcome : r.outcome = .runtimeError)
      (hprogram : p.error? = none) (herror : r.error? = some (.failed failure))
      (hstatement : r.statement = "" ↔ outer = true ∧ p.FailsAround connection failure) :
      Tells p marker outer connection r .runtimeError

theorem Tells.outcome_eq {marker : String} {outer : Bool} {connection : Option σ} {r : Report}
    {outcome : Outcome} (h : p.Tells marker outer connection r outcome) : r.outcome = outcome := by
  cases h <;> assumption

/-- The statement that comes with a failure is one of the program. -/
theorem exists_get?_of_runFrom {m m' : Machine σ} {fuel pc : Nat} {failure : Failure} {s : Statement}
    (h : Machine.runFrom p fuel m pc = (.error (failure, s), m')) : ∃ i, p.get? i = some s := by
  induction fuel generalizing m pc with
  | zero => cases h
  | succ fuel ih =>
    rw [Machine.runFrom] at h
    cases hget : p.get? pc with
    | none => simp [hget] at h
    | some s' =>
      simp only [hget] at h
      rcases hq : m.dispatch p pc s' with ⟨failure' | next, n⟩ <;> rw [hq] at h
      · cases h
        exact ⟨pc, hget⟩
      · exact ih h

theorem calls_of_not_executable (h : p.executable = false) (marker : String)
    (outer : Bool) (connection : Option σ) : p.calls marker outer connection = [] := by
  have hrun : ∀ c : Option (Transcript σ), p.run marker outer c = p.refuseRun c := fun c => by
    rw [run, h, if_neg Bool.false_ne_true]
  simp only [calls, Transcript.callsOf, hrun]
  cases connection <;> rfl

theorem tells_refuseRun (hd : d.Valid) (hexecutable : (Script.compile d source).executable = false)
    (marker : String) (outer : Bool) (connection : Option σ) :
    (Script.compile d source).Tells marker outer connection
      ((Script.compile d source).refuseRun connection).report .syntaxError := by
  have hne : (Script.compile d source).error? ≠ none := by
    intro hnone
    cases hexecutable.symm.trans (executable_assemble_iff.2 hnone)
  obtain ⟨error, herror⟩ := Option.ne_none_iff_exists'.1 hne
  obtain ⟨a, error', f, hf, hrefuse⟩ := exists_raw_of_error?_ne_none hne
  have hlast : (Script.compile d source).statements.back?
      = some { kind := .invalid, text := f.raw, line := error'.line } := by
    rw [Script.compile, hrefuse, Assembly.refuse, Array.back?_push]
  have hstatement : ((Script.compile d source).refuseRun connection).report.statement = f.raw := by
    simp only [refuseRun, hlast]
    rfl
  refine .syntaxError rfl herror ?_ hlast hstatement ?_ rfl rfl ?_
  · simp only [refuseRun, herror]
    rfl
  · rw [hstatement]
    exact (visible_of_mem_split hd f hf).1
  · exact calls_of_not_executable hexecutable marker outer connection

section

variable {marker : String} (hprogram : p.error? = none)
  (hdescribe : ∀ i s, p.get? i = some s → s.describe marker ≠ "")

include hprogram hdescribe

theorem tells_runBare (connection : Option σ) (m : Machine σ) :
    p.Tells marker false connection (m.runBare p marker).report (m.runBare p marker).report.outcome := by
  rw [Machine.runBare]
  rcases hq : m.runAll p with ⟨⟨failure, s⟩ | _, n⟩
  · obtain ⟨i, hget⟩ := exists_get?_of_runFrom hq
    have hvisible : s.describe marker ≠ "" := hdescribe i s hget
    exact .runtimeError rfl hprogram rfl (iff_of_false hvisible fun h => Bool.false_ne_true h.1)
  · exact .success rfl hprogram rfl rfl

theorem tells_runEnclosed (connection : Option σ) :
    let m := Machine.emit { connection } (.started p.size true)
    p.Tells marker true connection (m.runEnclosed p marker).report
      (m.runEnclosed p marker).report.outcome := by
  intro m
  rw [Machine.runEnclosed]
  rcases hbegin : m.transact .begin with ⟨failure | _, m₁⟩
  · exact .runtimeError rfl hprogram rfl (iff_of_true rfl ⟨rfl, .begin hbegin⟩)
  dsimp only
  rcases hrun : m₁.runAll p with ⟨⟨failure, s⟩ | _, m₂⟩
  · obtain ⟨i, hget⟩ := exists_get?_of_runFrom hrun
    have hvisible : s.describe marker ≠ "" := hdescribe i s hget
    refine .runtimeError rfl hprogram rfl (iff_of_false hvisible ?_)
    -- the transaction has been begun, and a run that fails in a statement does not come to its end
    rintro ⟨-, hbegin' | ⟨hbegin', hrun', -⟩⟩
    · cases hbegin.symm.trans hbegin'
    · cases hbegin.symm.trans hbegin'
      cases hrun.symm.trans hrun'
  dsimp only
  rw [Machine.commit]
  rcases hcommit : m₂.transact .commit with ⟨failure | _, m₃⟩
  · exact .runtimeError rfl hprogram rfl (iff_of_true rfl ⟨rfl, .commit hbegin hrun hcommit⟩)
  · exact .success rfl hprogram rfl rfl

end

/-- The report of every run of the program of a script. -/
theorem tells_run (hd : d.Valid) (marker : String) (outer : Bool) (connection : Option σ) :
    let run := (Script.compile d source).run marker outer connection
    (Script.compile d source).Tells marker outer connection run.report run.report.outcome := by
  intro run
  cases hexecutable : (Script.compile d source).executable with
  | false =>
    have hrefuse : run = (Script.compile d source).refuseRun connection := by
      simp only [run, Program.run, hexecutable, if_neg Bool.false_ne_true]
    rw [hrefuse]
    exact tells_refuseRun hd hexecutable marker outer connection
  | true =>
    have hprogram : (Script.compile d source).error? = none := executable_assemble_iff.1 hexecutable
    have hdescribe : ∀ i s, (Script.compile d source).get? i = some s → s.describe marker ≠ "" :=
      fun i s hget => describe_ne_empty hd hprogram hget marker
    simp only [run, Program.run, hexecutable, if_pos]
    cases outer with
    | false => exact tells_runBare hprogram hdescribe connection _
    | true => exact tells_runEnclosed hprogram hdescribe connection

end Program

/-! ## Scripts that are run again and again -/

namespace Script

variable {σ : Type} [Connection σ]

/-- The scripts that there are. Between two runs the connection may change its state for reasons of its
own. -/
inductive Reached : Script σ → Prop where
  | ofSource (source : String) (connection : σ) : Reached (ofSource source connection)
  | ofSourceIn {d : Dialect} {source : String} {connection : σ} {s : Script σ}
      (h : ofSourceIn d source connection = .ok s) : Reached s
  | detached (source : String) : Reached (detached source)
  | ofInput {input : Source.Input} {connection : σ} {s : Script σ}
      (h : ofInput input connection = .ok s) : Reached s
  | ofInputIn {d : Dialect} {input : Source.Input} {connection : σ} {s : Script σ}
      (h : ofInputIn d input connection = .ok s) : Reached s
  | exec {s : Script σ} (h : Reached s) (outer : Bool) : Reached (s.exec outer).script
  | elsewhere {s : Script σ} (h : Reached s) (connection : Option σ) : Reached { s with connection }

theorem valid_default : Dialect.Valid {} := Dialect.fault?_eq_none_iff.1 (by decide)

omit [Connection σ] in
theorem exists_source_of_ofInputIn {d : Dialect} {input : Source.Input} {connection : σ} {s : Script σ}
    (h : ofInputIn d input connection = .ok s) :
    ∃ source, s.program = compile s.dialect source ∧ s.dialect.Valid := by
  unfold ofInputIn at h
  split at h
  · cases h
  · next e hvalidate =>
    obtain ⟨hvalid, rfl⟩ := Dialect.validate_eq_ok_iff.1 hvalidate
    split at h
    · cases h
    · cases h
      exact ⟨_, rfl, hvalid⟩

/-- Whatever has been done with a script, its program is that of a source in a valid dialect. -/
theorem Reached.exists_source {s : Script σ} (h : s.Reached) :
    ∃ source, s.program = compile s.dialect source ∧ s.dialect.Valid := by
  induction h with
  | ofSource source | detached source => exact ⟨source, rfl, valid_default⟩
  | @ofSourceIn d source _ _ h =>
    unfold Script.ofSourceIn at h
    split at h
    · cases h
    · next e hvalidate =>
      obtain ⟨hvalid, rfl⟩ := Dialect.validate_eq_ok_iff.1 hvalidate
      cases h
      exact ⟨source, rfl, hvalid⟩
  | ofInput h | ofInputIn h => exact exists_source_of_ofInputIn h
  | exec _ outer ih => exact ih
  | elsewhere _ connection ih => exact ih

/-- After every run of a script its report is that of a success, of a syntax error or of a failure, and of
one of these only; it is that of a syntax error when the script has one. -/
theorem exec_tells {s : Script σ} (h : s.Reached) (outer : Bool) :
    let s' := (s.exec outer).script
    (s.exec outer).succeeded = decide (s'.report.outcome = .success) ∧
      (s'.report.outcome = .syntaxError ↔ s.program.error?.isSome = true) ∧
      ∃! outcome, s.program.Tells s.dialect.marker outer s.connection s'.report outcome := by
  intro s'
  obtain ⟨source, hprogram, hvalid⟩ := h.exists_source
  have htells : s.program.Tells s.dialect.marker outer s.connection s'.report s'.report.outcome := by
    have hrun : let run := (compile s.dialect source).run s.dialect.marker outer s.connection
        (compile s.dialect source).Tells s.dialect.marker outer s.connection run.report
          run.report.outcome :=
      Program.tells_run hvalid s.dialect.marker outer s.connection
    rwa [← hprogram] at hrun
  refine ⟨?_, ?_, s'.report.outcome, htells, fun outcome hother => hother.outcome_eq.symm⟩
  · show (s'.report.outcome == .success) = decide (s'.report.outcome = .success)
    cases s'.report.outcome <;> rfl
  · generalize s'.report.outcome = outcome at htells
    cases htells <;> simp_all

/-- The second run fails where its transaction is to be committed, which is told with no statement. -/
theorem exec_tells_of_refused_commit :
    let lost := SqlError.transaction "lost"
    let r : Rehearsal := { transactions := fun call => if call = .commit then [(2, .error lost)] else [] }
    let first := (ofSource "A" r).exec true
    let s := first.script
    let s' := (s.exec true).script
    s.Reached ∧ first.succeeded = true ∧ (s.exec true).succeeded = false ∧
      s'.report.error? = some (.failed (.transaction .commit lost)) ∧ s'.report.statement = "" ∧
      ∃! outcome, s.program.Tells s.dialect.marker true s.connection s'.report outcome := by
  intro lost r first s s'
  have hreached : s.Reached := .exec (.ofSource "A" r) true
  have hfirst : first.succeeded = true := by decide +kernel
  have herror : s'.report.error? = some (.failed (.transaction .commit lost)) := by decide +kernel
  have hstatement : s'.report.statement = "" := by decide +kernel
  have houtcome : s'.report.outcome = .runtimeError := by decide +kernel
  obtain ⟨hsecond, -, htells⟩ := exec_tells hreached true
  refine ⟨hreached, hfirst, hsecond.trans ?_, herror, hstatement, htells⟩
  rw [houtcome]
  rfl

end Script

end SqlFlow
