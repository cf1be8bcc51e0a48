import SqlFlow.Proofs.Run.Transcript

/-!
# Runs of scripts and their trees

* `run_assemble_cases`: whatever the fragments, either their program is refused, or its runs are what
  the interpreter says of some trees.
* `result_run_map`: an assembled program does the same over connections that answer alike; so it does
  over a transcript and over the connection that the transcript is made from.

The run of well-nested blocks leaves the report and the connection that the interpreter says, and
makes the calls that the interpreter makes.
-/

namespace SqlFlow

/-- A program is refused, or its runs are those of trees. -/
theorem run_assemble_cases (d : Dialect) (fragments : List Fragment) :
    (∀ {σ : Type} [Connection σ] (marker : String) (outer : Bool) (connection : Option σ),
      (Program.assemble d fragments).run marker outer connection
        = (Program.assemble d fragments).refuseRun connection) ∨
    ∃ ts, ∀ {σ : Type} [Connection σ] (marker : String) (outer : Bool) (connection : Option σ),
      ((Program.assemble d fragments).run marker outer connection).result
        = Tree.interpret marker outer ts connection := by
  cases hexecutable : (Program.assemble d fragments).executable with
  | false =>
    left
    intro σ _ marker outer connection
    rw [Program.run, hexecutable, if_neg Bool.false_ne_true]
  | true =>
    right
    obtain ⟨ts, rfl, hconditioned⟩ := Program.exists_trees_of_error?_eq_none
      (Program.executable_assemble_iff.mp hexecutable)
    exact ⟨ts, fun marker outer connection => result_run_assemble hconditioned marker outer connection⟩

variable {σ τ : Type} [Connection σ] [Connection τ]

theorem result_run_map {f : σ → τ} (hf : Connection.Preserves f) (d : Dialect)
    (fragments : List Fragment) (marker : String) (outer : Bool) (connection : Option σ) :
    ((Program.assemble d fragments).run marker outer (connection.map f)).result
      = Prod.map id (Option.map f)
        ((Program.assemble d fragments).run marker outer connection).result := by
  rcases run_assemble_cases d fragments with hrefuse | ⟨ts, hinterpret⟩
  · rw [hrefuse, hrefuse]
    rfl
  · rw [hinterpret, hinterpret]
    exact Tree.interpret_map hf marker outer ts connection

/-- The run of well-nested blocks is what the structure of the blocks says, whatever the connection
answers: it leaves the same report and the same connection behind, and makes the same calls. -/
theorem run_flattenAll_eq_interpret {d : Dialect} {ts : List Tree}
    (hconditioned : Conditioned d (Tree.flattenAll ts)) (marker : String) (outer : Bool)
    (connection : Option σ) :
    let p := Program.assemble d (Tree.flattenAll ts)
    (p.run marker outer connection).report = (Tree.interpret marker outer ts connection).1 ∧
      (p.run marker outer connection).connection = (Tree.interpret marker outer ts connection).2 ∧
      p.calls marker outer connection = Tree.calls marker outer ts connection := by
  intro p
  have hresult := result_run_assemble hconditioned marker outer connection
  have hcalls := result_run_assemble hconditioned marker outer (connection.map Transcript.start)
  refine ⟨congrArg Prod.fst hresult, congrArg Prod.snd hresult, ?_⟩
  exact congrArg (Option.elim · [] Transcript.calls) (congrArg Prod.snd hcalls)

/-- A branch in a transactional attempt, whose body is refused, rolled back and handled. The condition is a
literal, for which nothing is called. -/
theorem run_refused_attempt_eq_interpret :
    let ts : List Tree := [.attempt true ⟨"", "--trytransaction", 1⟩
      [.chain ⟨"0", "--if 0", 2⟩ [.sql ⟨"A", "A", 3⟩]
        (.otherwise ⟨"", "--else", 4⟩ [.sql ⟨"B", "B", 5⟩] ⟨"", "--endif", 6⟩)]
      ⟨"", "--catch", 7⟩ [.debug ⟨"C", "--debug C", 8⟩] ⟨"", "--endtry", 9⟩]
    let p := Program.assemble {} (Tree.flattenAll ts)
    let r : Rehearsal := { failures := [("B", .statement (-204) "B failed")] }
    let calls : List Answered := [⟨.transact .begin, true⟩, ⟨.transact .begin, true⟩, ⟨.execute "B", false⟩,
      ⟨.transact .rollback, true⟩, ⟨.transact .commit, true⟩]
    Conditioned {} (Tree.flattenAll ts) ∧
      (p.run "--" true (some r)).report = (Tree.interpret "--" true ts (some r)).1 ∧
      (p.run "--" true (some r)).connection = (Tree.interpret "--" true ts (some r)).2 ∧
      p.calls "--" true (some r) = Tree.calls "--" true ts (some r) ∧
      Tree.calls "--" true ts (some r) = calls ∧
      (Tree.interpret "--" true ts (some r)).1.messages = #["C"] := by
  intro ts p r calls
  have hconditioned : Conditioned {} (Tree.flattenAll ts) := by decide
  have hcalls : Tree.calls "--" true ts (some r) = calls := by decide +kernel
  have hmessages : (Tree.interpret "--" true ts (some r)).1.messages = #["C"] := by decide +kernel
  obtain ⟨hreport, hconnection, hsame⟩ := run_flattenAll_eq_interpret hconditioned "--" true (some r)
  exact ⟨hconditioned, hreport, hconnection, hsame, hcalls, hmessages⟩

end SqlFlow
