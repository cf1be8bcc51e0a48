import SqlFlow.Proofs.Run.Refinement

/-!
# Transactions are bracketed

* `Closing` and `Bracketed`: the calls that close a transaction, and the sequences of calls in which
  every transaction that has been begun is closed once, the last one first.
* `Store.Brackets`: bracketed calls lead from one store to another. `brackets_exec` is the
  interpreter's share of the proof; the induction is on the tree.
* `Enclosed`: the calls of a run inside a transaction of its own, as its outcome is.
* `exists_trace_run`: the calls of a run of an assembled program, with the states that they lead
  through.
* `depth_of_bracketed`: a rehearsal is left with as many more open transactions as rollbacks have
  failed.
-/

namespace SqlFlow

/-! ## Sequences of calls -/

/-- The calls that close a transaction, and whether it is committed by them. -/
inductive Closing : (committed : Bool) → List Answered → Prop where
  | commit : Closing true [⟨.transact .commit, true⟩]
  /-- A rollback, or an attempt at one. -/
  | rollback (ok : Bool) : Closing false [⟨.transact .rollback, ok⟩]
  | failedCommit (ok : Bool) : Closing false [⟨.transact .commit, false⟩, ⟨.transact .rollback, ok⟩]

/-- Every transaction that is begun is closed once, and only after those that have been begun in it.
One that could not be begun is not closed. -/
inductive Bracketed : List Answered → Prop where
  | nil : Bracketed []
  | execute {w : List Answered} (sql : String) (ok : Bool) (hw : Bracketed w) :
      Bracketed (⟨.execute sql, ok⟩ :: w)
  | refused {w : List Answered} (hw : Bracketed w) : Bracketed (⟨.transact .begin, false⟩ :: w)
  | block {u v w : List Answered} {committed : Bool} (hu : Bracketed u) (hv : Closing committed v)
      (hw : Bracketed w) : Bracketed (⟨.transact .begin, true⟩ :: (u ++ (v ++ w)))

theorem Bracketed.append {v w : List Answered} (hv : Bracketed v) (hw : Bracketed w) :
    Bracketed (v ++ w) := by
  induction hv with
  | nil => exact hw
  | execute sql ok _ ih => exact .execute sql ok ih
  | refused _ ih => exact .refused ih
  | block hu hclosing _ _ ih =>
    rw [List.cons_append, List.append_assoc, List.append_assoc]
    exact .block hu hclosing ih

/-- The calls of a run inside a transaction of its own. It is a success only if that transaction is
committed. A program that may not be run makes no calls. -/
inductive Enclosed : Outcome → List Answered → Prop where
  | notRun : Enclosed .syntaxError []
  | refused : Enclosed .runtimeError [⟨.transact .begin, false⟩]
  | committed {u v : List Answered} (hu : Bracketed u) (hv : Closing true v) :
      Enclosed .success (⟨.transact .begin, true⟩ :: (u ++ v))
  | abandoned {u v : List Answered} (hu : Bracketed u) (hv : Closing false v) :
      Enclosed .runtimeError (⟨.transact .begin, true⟩ :: (u ++ v))

theorem Enclosed.bracketed {outcome : Outcome} {w : List Answered} (h : Enclosed outcome w) :
    Bracketed w := by
  cases h with
  | notRun => exact .nil
  | refused => exact .refused .nil
  | committed hu hv =>
    have h := Bracketed.block hu hv .nil
    rwa [List.append_nil] at h
  | abandoned hu hv =>
    have h := Bracketed.block hu hv .nil
    rwa [List.append_nil] at h

/-! ## The calls of a tree -/

variable {σ : Type} [Connection σ]

namespace Store

variable {s s₁ s₂ s₃ : Store σ}

theorem makes_commit (hs : s.connection.isSome) :
    ∃ v, Makes s v s.commit.2 ∧ Closing s.commit.1.isOk v := by
  have hcommit := makes_transact hs .commit
  rw [commit]
  rcases hq : s.transact .commit with ⟨failure | _, s'⟩
  -- a commit that fails is followed by a rollback at once, whatever becomes of that
  · rw [hq] at hcommit
    have hrollback := makes_transact hcommit.isSome .rollback
    exact ⟨_, hcommit.trans hrollback, .failedCommit _⟩
  · rw [hq] at hcommit
    exact ⟨_, hcommit, .commit⟩

theorem makes_abandon (hs : s.connection.isSome) (fault : Fault) :
    ∃ v, Makes s v (s.abandon fault).2 ∧ Closing false v := by
  have hrollback := makes_transact hs .rollback
  rw [abandon]
  rcases hq : s.transact .rollback with ⟨failure | _, s'⟩ <;> rw [hq] at hrollback
  all_goals exact ⟨_, hrollback, .rollback _⟩

/-- Bracketed calls lead from one store to another. -/
def Brackets (s s' : Store σ) : Prop := ∃ w, Makes s w s' ∧ Bracketed w

/-- Calls that close the transaction they are made in lead from one store to another. -/
def Closes (s s' : Store σ) : Prop :=
  ∃ u v w committed, Makes s (u ++ (v ++ w)) s' ∧ Bracketed u ∧ Closing committed v ∧ Bracketed w

namespace Brackets

theorem refl (hs : s.connection.isSome) : Brackets s s := ⟨[], .refl hs, .nil⟩

theorem isSome (h : Brackets s₁ s₂) : s₂.connection.isSome := by
  obtain ⟨w, hmakes, -⟩ := h
  exact hmakes.isSome

theorem trans (h₁ : Brackets s₁ s₂) (h₂ : Brackets s₂ s₃) : Brackets s₁ s₃ := by
  obtain ⟨v, hmakes, hv⟩ := h₁
  obtain ⟨w, hmakes', hw⟩ := h₂
  exact ⟨v ++ w, hmakes.trans hmakes', hv.append hw⟩

theorem andThen {r : Except Fault Unit × Store σ} {next : Store σ → Except Fault Unit × Store σ}
    (hr : Brackets s r.2) (hnext : ∀ s', s'.connection.isSome → Brackets s' (next s').2) :
    Brackets s (SqlFlow.andThen r next).2 := by
  rcases r with ⟨fault | _, s'⟩
  · exact hr
  · exact hr.trans (hnext s' hr.isSome)

theorem execute {sql : String} {ok : Bool} (h : Makes s₁ [⟨.execute sql, ok⟩] s₂) :
    Brackets s₁ s₂ :=
  ⟨_, h, .execute sql ok .nil⟩

theorem choose {condition statement : String} {yes no : Store σ → Except Fault Unit × Store σ}
    (hs : s.connection.isSome) (hyes : ∀ s', s'.connection.isSome → Brackets s' (yes s').2)
    (hno : ∀ s', s'.connection.isSome → Brackets s' (no s').2) :
    Brackets s (SqlFlow.choose condition statement yes no s).2 := by
  have hevaluate : Brackets s (s.tick.evaluate condition).2 := by
    rcases makes_evaluate (s := s.tick) hs condition with hnone | ⟨ok, hasked⟩
    · exact ⟨[], hnone, .nil⟩
    · exact execute hasked
  rw [SqlFlow.choose]
  rcases hq : s.tick.evaluate condition with ⟨failure | _ | _, s'⟩ <;> rw [hq] at hevaluate
  · exact hevaluate
  · exact hevaluate.trans (hno s' hevaluate.isSome)
  · exact hevaluate.trans (hyes s' hevaluate.isSome)

/-- A handler, and the end of the attempt behind it. -/
theorem handler {handler : Store σ → Except Fault Unit × Store σ} (hs : s.connection.isSome)
    (hhandler : ∀ s', s'.connection.isSome → Brackets s' (handler s').2) :
    Brackets s (SqlFlow.andThen (handler s.recover.tick) fun s => (.ok (), s.tick)).2 :=
  andThen (hhandler s.recover.tick hs) fun _ hs => refl hs

/-- A block that begins a transaction. -/
theorem block {statement : String} {body : Store σ → Except Fault Unit × Store σ}
    (hs : s.connection.isSome) (hbody : ∀ s', s'.connection.isSome → Closes s' (body s').2) :
    Brackets s (SqlFlow.andThen (blame statement (s.tick.transact .begin)) body).2 := by
  have hbegin := makes_transact (s := s.tick) hs .begin
  rcases hq : s.tick.transact .begin with ⟨failure | _, s'⟩ <;> rw [hq] at hbegin
  · exact ⟨_, hbegin, .refused .nil⟩
  · obtain ⟨u, v, w, committed, hmakes, hu, hv, hw⟩ := hbody s' hbegin.isSome
    exact ⟨⟨.transact .begin, true⟩ :: (u ++ (v ++ w)), hbegin.trans hmakes, .block hu hv hw⟩

end Brackets

/-- The end of a block whose body has not failed. -/
theorem closes_of_commit {statement : String} (h : Brackets s s₁) :
    Closes s (blame statement s₁.commit).2 := by
  obtain ⟨u, hmakes, hu⟩ := h
  obtain ⟨v, hcommit, hv⟩ := makes_commit hmakes.isSome
  refine ⟨u, v, [], _, ?_, hu, hv, .nil⟩
  rw [List.append_nil]
  rcases hq : s₁.commit with ⟨failure | _, s'⟩ <;> rw [hq] at hcommit
  all_goals exact hmakes.trans hcommit

end Store

theorem Branch.brackets_skip (b : Branch) {s : Store σ} (hs : s.connection.isSome) :
    s.Brackets (b.skip s) := by
  have h := Store.Brackets.refl hs
  unfold Store.Brackets Store.Makes
  rw [b.connection_skip]
  exact h

mutual

/-- What a tree asks of the connection is bracketed. -/
theorem Tree.brackets_exec (marker : String) :
    (t : Tree) → {s : Store σ} → s.connection.isSome → s.Brackets (t.exec marker s).2
  | .sql l, s, hs => by
    obtain ⟨ok, hquery⟩ := Store.makes_query (s := s.tick) hs l.text
    rw [Tree.exec]
    rcases hq : s.tick.query l.text with ⟨failure | _, s'⟩ <;> rw [hq] at hquery
    all_goals exact .execute hquery
  | .debug l, s, hs => Store.Brackets.refl hs
  | .chain opener body rest, s, hs => by
    rw [Tree.exec]
    refine .choose hs (fun s hs => ?_) (fun s hs => rest.brackets_exec marker hs)
    exact (Tree.brackets_execAll marker body hs).andThen fun s hs => rest.brackets_skip hs
  | .attempt false opener body middle handler closer, s, hs => by
    have hbody := Tree.brackets_execAll marker body (s := s.tick) hs
    rw [Tree.exec]
    rcases hq : Tree.execAll marker body s.tick with ⟨fault | _, s'⟩ <;> rw [hq] at hbody
    · exact hbody.trans (.handler hbody.isSome fun s hs => Tree.brackets_execAll marker handler hs)
    · exact hbody
  | .attempt true opener body middle handler closer, s, hs => by
    rw [Tree.exec]
    refine .block hs fun s hs => ?_
    have hbody := Tree.brackets_execAll marker body hs
    rcases hq : Tree.execAll marker body s with ⟨fault | _, s'⟩ <;> rw [hq] at hbody
    -- the rollback closes the transaction before the handler is entered, so the handler is outside
    · obtain ⟨u, hmakes, hu⟩ := hbody
      have hrollback := Store.makes_transact hmakes.isSome .rollback
      dsimp only
      rcases hq : s'.transact .rollback with ⟨failure | _, s''⟩ <;> rw [hq] at hrollback
      · exact ⟨u, _, [], _, hmakes.trans hrollback, hu, .rollback _, .nil⟩
      · obtain ⟨w, hmakes', hw⟩ := Store.Brackets.handler hrollback.isSome
          fun s hs => Tree.brackets_execAll marker handler hs
        exact ⟨u, _, w, _, hmakes.trans (hrollback.trans hmakes'), hu, .rollback _, hw⟩
    · exact Store.closes_of_commit hbody
  | .transaction opener body closer, s, hs => by
    rw [Tree.exec]
    refine .block hs fun s hs => ?_
    have hbody := Tree.brackets_execAll marker body hs
    rcases hq : Tree.execAll marker body s with ⟨fault | _, s'⟩ <;> rw [hq] at hbody
    · obtain ⟨u, hmakes, hu⟩ := hbody
      obtain ⟨v, habandon, hv⟩ := Store.makes_abandon hmakes.isSome fault
      refine ⟨u, v, [], _, ?_, hu, hv, .nil⟩
      rw [List.append_nil]
      exact hmakes.trans habandon
    · exact Store.closes_of_commit hbody

theorem Tree.brackets_execAll (marker : String) :
    (ts : List Tree) → {s : Store σ} → s.connection.isSome → s.Brackets (Tree.execAll marker ts s).2
  | [], s, hs => Store.Brackets.refl hs
  | t :: ts, s, hs => by
    rw [Tree.execAll]
    exact (t.brackets_exec marker hs).andThen fun s hs => Tree.brackets_execAll marker ts hs

theorem Branch.brackets_exec (marker : String) :
    (b : Branch) → {s : Store σ} → s.connection.isSome → s.Brackets (b.exec marker s).2
  | .done _, s, hs => Store.Brackets.refl hs
  | .otherwise opener body closer, s, hs => by
    rw [Branch.exec]
    exact (Tree.brackets_execAll marker body (s := s.tick) hs).andThen fun s hs => .refl hs
  | .elseIf opener body rest, s, hs => by
    rw [Branch.exec]
    refine .choose hs (fun s hs => ?_) (fun s hs => rest.brackets_exec marker hs)
    exact (Tree.brackets_execAll marker body hs).andThen fun s hs => rest.brackets_skip hs

end

/-! ## The calls of a run -/

theorem Tree.makes_interpretBare (marker : String) (ts : List Tree) {s : Store σ}
    (hs : s.connection.isSome) :
    ∃ w s', (Tree.interpretBare marker ts s).2 = s'.connection ∧ s.Makes w s' ∧ Bracketed w := by
  obtain ⟨w, hmakes, hw⟩ := Tree.brackets_execAll marker ts hs
  rw [Tree.interpretBare]
  rcases hq : Tree.execAll marker ts s with ⟨fault | _, s'⟩ <;> rw [hq] at hmakes
  all_goals exact ⟨w, s', rfl, hmakes, hw⟩

theorem Tree.makes_interpretEnclosed (marker : String) (ts : List Tree) {s : Store σ}
    (hs : s.connection.isSome) :
    ∃ w s', (Tree.interpretEnclosed marker ts s).2 = s'.connection ∧ s.Makes w s' ∧
      Enclosed (Tree.interpretEnclosed marker ts s).1.outcome w := by
  have hbegin := Store.makes_transact hs .begin
  rw [Tree.interpretEnclosed]
  rcases hq : s.transact .begin with ⟨failure | _, s₁⟩ <;> rw [hq] at hbegin
  · exact ⟨_, s₁, rfl, hbegin, .refused⟩
  obtain ⟨u, hmakes, hu⟩ := Tree.brackets_execAll marker ts hbegin.isSome
  dsimp only at hmakes ⊢
  rcases hq : Tree.execAll marker ts s₁ with ⟨fault | _, s₂⟩ <;> rw [hq] at hmakes
  · have hrollback := Store.makes_transact hmakes.isSome .rollback
    exact ⟨⟨.transact .begin, true⟩ :: (u ++ _), _, rfl, hbegin.trans (hmakes.trans hrollback),
      .abandoned hu (.rollback _)⟩
  obtain ⟨v, hcommit, hv⟩ := Store.makes_commit hmakes.isSome
  dsimp only at hcommit hv ⊢
  rcases hq : s₂.commit with ⟨failure | _, s₃⟩ <;> rw [hq] at hcommit hv
  · exact ⟨⟨.transact .begin, true⟩ :: (u ++ v), s₃, rfl, hbegin.trans (hmakes.trans hcommit),
      .abandoned hu hv⟩
  · exact ⟨⟨.transact .begin, true⟩ :: (u ++ v), s₃, rfl, hbegin.trans (hmakes.trans hcommit),
      .committed hu hv⟩

theorem Tree.exists_trace_interpret (marker : String) (outer : Bool) (ts : List Tree) (c : σ) :
    ∃ w c', (Tree.interpret marker outer ts (some c)).2 = some c' ∧ Trace c w c' ∧ Bracketed w ∧
      (outer = true → Enclosed (Tree.interpret marker outer ts (some c)).1.outcome w) := by
  cases outer with
  | false =>
    obtain ⟨w, s', hend, hmakes, hw⟩ :=
      Tree.makes_interpretBare marker ts (s := { connection := some c }) rfl
    obtain ⟨c', hc', htrace⟩ := hmakes.exists_trace rfl
    exact ⟨w, c', hend.trans hc', htrace, hw, nofun⟩
  | true =>
    obtain ⟨w, s', hend, hmakes, hw⟩ :=
      Tree.makes_interpretEnclosed marker ts (s := { connection := some c }) rfl
    obtain ⟨c', hc', htrace⟩ := hmakes.exists_trace rfl
    exact ⟨w, c', hend.trans hc', htrace, hw.bracketed, fun _ => hw⟩

/-- The calls of the run of an assembled program, the states that they lead from and to, and what
kind of sequence they are. -/
theorem exists_trace_run (d : Dialect) (fragments : List Fragment) (marker : String) (outer : Bool)
    (c : σ) :
    let p := Program.assemble d fragments
    let calls := p.calls marker outer (some c)
    ∃ c', (p.run marker outer (some c)).connection = some c' ∧ Trace c calls c' ∧ Bracketed calls ∧
      (outer = true → Enclosed (p.run marker outer (some c)).report.outcome calls) := by
  intro p calls
  rcases run_assemble_cases d fragments with hrefuse | ⟨ts, hinterpret⟩
  · have hcalls : calls = [] := by
      simp only [calls, Program.calls, Transcript.callsOf, p, hrefuse]
      rfl
    rw [hcalls]
    simp only [p, hrefuse]
    exact ⟨c, rfl, .nil c, .nil, fun _ => .notRun⟩
  · -- the calls are those of the run over a transcript, which does the same as the run over `c`
    obtain ⟨w, t, hend, htrace, hw, henclosed⟩ :=
      Tree.exists_trace_interpret marker outer ts (Transcript.start c)
    have hrun := hinterpret marker outer (some (Transcript.start c))
    have hcalls : calls = w := by
      rw [show calls = t.calls from Program.calls_eq ((congrArg Prod.snd hrun).trans hend),
        htrace.calls_eq]
      rfl
    have herase := result_run_map Transcript.preserves_connection d fragments marker outer
      (some (Transcript.start c))
    rw [hrun] at herase
    have hreport : (p.run marker outer (some c)).report = _ := congrArg Prod.fst herase
    have hconnection : (p.run marker outer (some c)).connection = _ := congrArg Prod.snd herase
    rw [hcalls, hreport, hconnection]
    exact ⟨t.connection, congrArg (Option.map Transcript.connection) hend, htrace.connection, hw,
      henclosed⟩

/-- Without a connection a run makes no calls. -/
theorem calls_none (d : Dialect) (fragments : List Fragment) (marker : String) (outer : Bool) :
    (Program.assemble d fragments).calls marker outer (none : Option σ) = [] := by
  have hconnection : ((Program.assemble d fragments).run marker outer
      (none : Option (Transcript σ))).connection = none := by
    rcases run_assemble_cases d fragments with hrefuse | ⟨ts, hinterpret⟩
    · rw [hrefuse]
      rfl
    · exact (congrArg Prod.snd (hinterpret marker outer none)).trans
        (Tree.interpret_none marker outer ts)
  show Option.elim (Run.connection _) [] Transcript.calls = []
  rw [Option.map_none, hconnection, Option.elim_none]

/-! ## Rehearsals -/

/-- A call that fails leaves the open transactions as many as they are; one that succeeds leaves as
many as it should. -/
theorem Rehearsal.depth_perform {r r' : Rehearsal} {call : TransactionCall} {ok : Bool}
    (h : (Call.transact call).perform r = (ok, r')) :
    r'.depth = if ok then Rehearsal.depthAfter r.depth call else r.depth := by
  have hok : (Rehearsal.transact call r).1.isOk = ok := congrArg Prod.fst h
  have hr' : (Rehearsal.transact call r).2 = r' := congrArg Prod.snd h
  subst hr'
  unfold Rehearsal.transact at hok ⊢
  dsimp only at hok ⊢
  split at hok
  all_goals
    rw [← hok]
    rfl

theorem Rehearsal.depth_execute {r r' : Rehearsal} {sql : String} {ok : Bool}
    (h : (Call.execute sql).perform r = (ok, r')) : r'.depth = r.depth := by
  rw [← show (Rehearsal.execute sql r).2 = r' from congrArg Prod.snd h]
  rfl

/-- A rollback that has failed. -/
def failedRollback : Answered := ⟨.transact .rollback, false⟩

/-- While a transaction is open, a rollback ends it or has failed. -/
theorem Rehearsal.depth_of_rollback {r r' : Rehearsal} {ok : Bool}
    (h : (Call.transact .rollback).perform r = (ok, r')) (hopen : 0 < r.depth) :
    r'.depth + 1 = r.depth + [⟨.transact .rollback, ok⟩].count failedRollback := by
  have hcount : [⟨.transact .rollback, ok⟩].count failedRollback = if ok then 0 else 1 := by
    cases ok <;> decide
  rw [hcount, Rehearsal.depth_perform h]
  cases ok with
  | false => rfl
  | true => exact Nat.sub_add_cancel hopen

theorem Rehearsal.depth_of_closing {r r' : Rehearsal} {v : List Answered} {committed : Bool}
    (hv : Closing committed v) (htrace : Trace r v r') (hopen : 0 < r.depth) :
    r'.depth + 1 = r.depth + v.count failedRollback := by
  cases hv with
  | commit =>
    obtain _ | ⟨hcommit, _ | _⟩ := htrace
    have hdepth := Rehearsal.depth_perform hcommit
    have hcount : [⟨.transact .commit, true⟩].count failedRollback = 0 := by decide
    rw [if_pos rfl, Rehearsal.depthAfter] at hdepth
    omega
  | rollback ok =>
    obtain _ | ⟨hrollback, _ | _⟩ := htrace
    exact Rehearsal.depth_of_rollback hrollback hopen
  | failedCommit ok =>
    obtain _ | ⟨hcommit, _ | ⟨hrollback, _ | _⟩⟩ := htrace
    -- the commit has failed, so the rollback finds the transaction still open
    have hunchanged := Rehearsal.depth_perform hcommit
    rw [if_neg Bool.false_ne_true] at hunchanged
    have hdepth := Rehearsal.depth_of_rollback hrollback (by omega)
    have hne : (⟨.transact .commit, false⟩ : Answered) ≠ failedRollback := by decide
    rw [hdepth, hunchanged, List.count_cons_of_ne hne]

/-- Bracketed calls leave as many more transactions open as rollbacks among them have failed. -/
theorem Rehearsal.depth_of_bracketed {r r' : Rehearsal} {w : List Answered} (hw : Bracketed w)
    (htrace : Trace r w r') : r'.depth = r.depth + w.count failedRollback := by
  induction hw generalizing r r' with
  | nil =>
    cases htrace
    rfl
  | execute sql ok _ ih =>
    obtain _ | ⟨hexecute, hrest⟩ := htrace
    rw [ih hrest, Rehearsal.depth_execute hexecute]
    simp [failedRollback]
  | refused _ ih =>
    obtain _ | ⟨hbegin, hrest⟩ := htrace
    have hdepth := Rehearsal.depth_perform hbegin
    rw [ih hrest, hdepth]
    simp [failedRollback]
  | @block u v w _ hu hv hw ihu ihw =>
    obtain _ | ⟨hbegin, hrest⟩ := htrace
    obtain ⟨r₂, hbody, hrest⟩ := hrest.exists_of_append
    obtain ⟨r₃, hclosing, hrest⟩ := hrest.exists_of_append
    have hdepth := Rehearsal.depth_perform hbegin
    rw [if_pos rfl, Rehearsal.depthAfter] at hdepth
    -- the transaction counts as open throughout its body, so the last call finds one to close
    have hdepth₂ := ihu hbody
    have hdepth₃ := Rehearsal.depth_of_closing hv hclosing (by omega)
    have hdepth₄ := ihw hrest
    have hcount : (⟨.transact .begin, true⟩ :: (u ++ (v ++ w))).count failedRollback
        = u.count failedRollback + v.count failedRollback + w.count failedRollback := by
      simp [failedRollback]
      omega
    omega

/-- Whatever the connection answers, the calls of a run are bracketed. After a run over a rehearsal as
many more transactions are open as rollbacks have failed in it. -/
theorem bracketed_calls_and_depth (d : Dialect) (fragments : List Fragment) (marker : String)
    (outer : Bool) :
    let p := Program.assemble d fragments
    (∀ connection : Option σ, Bracketed (p.calls marker outer connection)) ∧
      ∀ r : Rehearsal, ∃ r', (p.run marker outer (some r)).connection = some r' ∧
        r'.depth = r.depth + (p.calls marker outer (some r)).count failedRollback := by
  intro p
  constructor
  · intro connection
    cases connection with
    | none =>
      rw [calls_none]
      exact .nil
    | some c =>
      obtain ⟨-, -, -, hw, -⟩ := exists_trace_run d fragments marker outer c
      exact hw
  · intro r
    obtain ⟨r', hend, htrace, hw, -⟩ := exists_trace_run d fragments marker outer r
    exact ⟨r', hend, Rehearsal.depth_of_bracketed hw htrace⟩

end SqlFlow
