import SqlFlow.Proofs.Tree.Meaning

/-!
# Maps between stores

What an interpreter of block trees does to a store it does to any store that corresponds to it.

* `Store.Morphism`: a map between stores that commutes with everything a script does to a store.
* `Tree.exec_morphism`: trees then commute with the map. The induction is on the tree, and rests on one
  lemma for each combinator of the interpreter.
* `Connection.Preserves`: a map between the states of two connections that answer alike, and go on to
  corresponding states. `Store.morphism_map` makes a map between stores of it, and `Tree.interpret_map`
  says that scripts do the same over both.
* `Tree.interpret_none`: without a connection a script ends without one.
-/

namespace SqlFlow

variable {σ τ : Type}

/-- Whatever a script does to a store, it does the corresponding thing to the store that corresponds. -/
structure Store.Morphism [Connection σ] [Connection τ] (F : Store σ → Store τ) : Prop where
  tick (s : Store σ) : (F s).tick = F s.tick
  recover (s : Store σ) : (F s).recover = F s.recover
  note (s : Store σ) (text : String) : (F s).note text = F (s.note text)
  transact (s : Store σ) (call : TransactionCall) :
    (F s).transact call = Prod.map id F (s.transact call)
  query (s : Store σ) (sql : String) : (F s).query sql = Prod.map id F (s.query sql)
  evaluate (s : Store σ) (condition : String) :
    (F s).evaluate condition = Prod.map id F (s.evaluate condition)

/-! ## Combinators of the interpreter -/

theorem blame_map (F : Store σ → Store τ) (statement : String)
    (r : Except Failure Unit × Store σ) :
    blame statement (Prod.map id F r) = Prod.map id F (blame statement r) := by
  rcases r with ⟨_ | _, _⟩ <;> rfl

theorem andThen_map {F : Store σ → Store τ} (r : Except Fault Unit × Store σ)
    {next : Store σ → Except Fault Unit × Store σ} {next' : Store τ → Except Fault Unit × Store τ}
    (hnext : ∀ s, next' (F s) = Prod.map id F (next s)) :
    andThen (Prod.map id F r) next' = Prod.map id F (andThen r next) := by
  rcases r with ⟨_ | _, s⟩
  · rfl
  · exact hnext s

variable [Connection σ] [Connection τ] {F : Store σ → Store τ}

namespace Store.Morphism

variable (hF : Morphism F)

include hF

theorem commit (s : Store σ) : (F s).commit = Prod.map id F s.commit := by
  rw [Store.commit, Store.commit, hF.transact]
  rcases s.transact .commit with ⟨_ | _, s'⟩
  · simp [hF.transact s']
  · rfl

theorem abandon (s : Store σ) (fault : Fault) :
    (F s).abandon fault = Prod.map id F (s.abandon fault) := by
  rw [Store.abandon, Store.abandon, hF.transact]
  rcases s.transact .rollback with ⟨_ | _, _⟩ <;> rfl

theorem choose (condition statement : String) (s : Store σ)
    {yes no : Store σ → Except Fault Unit × Store σ}
    {yes' no' : Store τ → Except Fault Unit × Store τ}
    (hyes : ∀ s, yes' (F s) = Prod.map id F (yes s))
    (hno : ∀ s, no' (F s) = Prod.map id F (no s)) :
    SqlFlow.choose condition statement yes' no' (F s)
      = Prod.map id F (SqlFlow.choose condition statement yes no s) := by
  rw [SqlFlow.choose, SqlFlow.choose, hF.tick, hF.evaluate]
  rcases s.tick.evaluate condition with ⟨_ | _ | _, s'⟩
  · rfl
  · exact hno s'
  · exact hyes s'

/-- Members of a chain are passed over in the same way. -/
theorem skip (b : Branch) (s : Store σ) : b.skip (F s) = F (b.skip s) := by
  induction b, s using Branch.skip.induct with
  | case1 closer s => exact hF.tick s
  | case2 opener body closer s =>
    show (F s).tick.tick = F s.tick.tick
    rw [hF.tick, hF.tick]
  | case3 opener body rest s ih =>
    show rest.skip (F s).tick = F (rest.skip s.tick)
    rw [hF.tick, ih]

end Store.Morphism

/-! ## Trees -/

mutual

theorem Tree.exec_morphism (hF : Store.Morphism F) (marker : String) :
    (t : Tree) → (s : Store σ) → t.exec marker (F s) = Prod.map id F (t.exec marker s)
  | .sql l, s => by
    rw [Tree.exec, Tree.exec, hF.tick, hF.query, blame_map]
  | .debug l, s => by
    rw [Tree.exec, Tree.exec, hF.tick, hF.note]
    rfl
  | .chain opener body rest, s => by
    rw [Tree.exec, Tree.exec]
    refine hF.choose _ _ s (fun s => ?_) (Branch.exec_morphism hF marker rest)
    rw [Tree.execAll_morphism hF marker body s]
    refine andThen_map _ fun s => ?_
    rw [hF.skip]
    rfl
  | .attempt false opener body middle handler closer, s => by
    rw [Tree.exec, Tree.exec, hF.tick, Tree.execAll_morphism hF marker body]
    rcases Tree.execAll marker body s.tick with ⟨fault | _, s⟩
    · exact Tree.handler_morphism hF marker handler s
    · show (Except.ok (), (F s).tick.tick) = (Except.ok (), F s.tick.tick)
      rw [hF.tick, hF.tick]
  | .attempt true opener body middle handler closer, s => by
    rw [Tree.exec, Tree.exec, hF.tick, hF.transact, blame_map]
    refine andThen_map _ fun s => ?_
    rw [Tree.execAll_morphism hF marker body]
    rcases Tree.execAll marker body s with ⟨fault | _, s⟩
    · simp only [Prod.map, id_eq, hF.transact]
      rcases s.transact .rollback with ⟨failure | _, s⟩
      · rfl
      · exact Tree.handler_morphism hF marker handler s
    · show blame _ (F s).tick.tick.commit = _
      rw [hF.tick, hF.tick, hF.commit, blame_map]
  | .transaction opener body closer, s => by
    rw [Tree.exec, Tree.exec, hF.tick, hF.transact, blame_map]
    refine andThen_map _ fun s => ?_
    rw [Tree.execAll_morphism hF marker body]
    rcases Tree.execAll marker body s with ⟨fault | _, s⟩
    · simp only [Prod.map, id_eq, hF.abandon]
    · show blame _ (F s).tick.commit = _
      rw [hF.tick, hF.commit, blame_map]

/-- A handler, and the end of the attempt behind it. -/
theorem Tree.handler_morphism (hF : Store.Morphism F) (marker : String) (handler : List Tree)
    (s : Store σ) :
    andThen (Tree.execAll marker handler (F s).recover.tick) (fun s => (.ok (), s.tick))
      = Prod.map id F
        (andThen (Tree.execAll marker handler s.recover.tick) fun s => (.ok (), s.tick)) := by
  rw [hF.recover, hF.tick, Tree.execAll_morphism hF marker handler]
  refine andThen_map _ fun s => ?_
  rw [hF.tick]
  rfl

theorem Tree.execAll_morphism (hF : Store.Morphism F) (marker : String) :
    (ts : List Tree) → (s : Store σ) →
      Tree.execAll marker ts (F s) = Prod.map id F (Tree.execAll marker ts s)
  | [], s => rfl
  | t :: ts, s => by
    rw [Tree.execAll, Tree.execAll, Tree.exec_morphism hF marker t s]
    exact andThen_map _ (Tree.execAll_morphism hF marker ts)

theorem Branch.exec_morphism (hF : Store.Morphism F) (marker : String) :
    (b : Branch) → (s : Store σ) → b.exec marker (F s) = Prod.map id F (b.exec marker s)
  | .done _, s => by
    rw [Branch.exec, Branch.exec, hF.tick]
    rfl
  | .otherwise opener body closer, s => by
    rw [Branch.exec, Branch.exec, hF.tick, Tree.execAll_morphism hF marker body]
    refine andThen_map _ fun s => ?_
    rw [hF.tick]
    rfl
  | .elseIf opener body rest, s => by
    rw [Branch.exec, Branch.exec]
    refine hF.choose _ _ s (fun s => ?_) (Branch.exec_morphism hF marker rest)
    rw [Tree.execAll_morphism hF marker body s]
    refine andThen_map _ fun s => ?_
    rw [hF.skip]
    rfl

end

/-! ## Connections that answer alike -/

/-- States that correspond under `f` get the same answer to every call, and correspond after it. -/
structure Connection.Preserves [Connection σ] [Connection τ] (f : σ → τ) : Prop where
  execute (sql : String) (c : σ) :
    Connection.execute sql (f c) = Prod.map id f (Connection.execute sql c)
  transact (call : TransactionCall) (c : σ) :
    Connection.transact call (f c) = Prod.map id f (Connection.transact call c)

namespace Store

/-- The store over the corresponding connection. -/
def map (f : σ → τ) (s : Store σ) : Store τ :=
  { connection := s.connection.map f, stats := s.stats, messages := s.messages }

omit [Connection σ] [Connection τ] in
theorem ask_map {α : Type} (f : σ → τ) (s : Store σ) (toFailure : SqlError → Failure)
    {g : σ → Except SqlError α × σ} {h : τ → Except SqlError α × τ}
    (hgh : ∀ c, h (f c) = Prod.map id f (g c)) :
    (s.map f).ask toFailure h = Prod.map id (map f) (s.ask toFailure g) := by
  cases hc : s.connection with
  | none => simp [ask, map, hc]
  | some c => simp [ask, map, hc, hgh]

theorem morphism_map {f : σ → τ} (hf : Connection.Preserves f) : Morphism (map f) where
  tick _ := rfl
  recover _ := rfl
  note _ _ := rfl
  transact s call := s.ask_map f _ (hf.transact call)
  query s sql := by
    rw [query, query, execute, ask_map f s _ (hf.execute sql), execute]
    rcases s.ask .sql (Connection.execute sql) with ⟨_ | _, _⟩ <;> rfl
  evaluate s condition := by
    rw [evaluate, evaluate, execute, ask_map f s _ (hf.execute condition), execute]
    cases Literal.truth? condition with
    | some b => rfl
    | none => rcases s.ask .sql (Connection.execute condition) with ⟨(_ | _ | _) | _, _⟩ <;> rfl

end Store

variable {f : σ → τ}

/-! ## Scripts -/

theorem Tree.interpretBare_map (hf : Connection.Preserves f) (marker : String) (ts : List Tree)
    (s : Store σ) :
    Tree.interpretBare marker ts (s.map f)
      = Prod.map id (Option.map f) (Tree.interpretBare marker ts s) := by
  rw [Tree.interpretBare, Tree.interpretBare, Tree.execAll_morphism (Store.morphism_map hf)]
  rcases Tree.execAll marker ts s with ⟨fault | _, s⟩ <;> rfl

theorem Tree.interpretEnclosed_map (hf : Connection.Preserves f) (marker : String) (ts : List Tree)
    (s : Store σ) :
    Tree.interpretEnclosed marker ts (s.map f)
      = Prod.map id (Option.map f) (Tree.interpretEnclosed marker ts s) := by
  have hF := Store.morphism_map hf
  rw [Tree.interpretEnclosed, Tree.interpretEnclosed, hF.transact]
  rcases s.transact .begin with ⟨failure | _, s⟩
  · rfl
  simp only [Prod.map, id_eq, Tree.execAll_morphism hF marker ts]
  rcases Tree.execAll marker ts s with ⟨fault | _, s⟩
  · simp only [Prod.map, id_eq, hF.transact]
    rfl
  · simp only [Prod.map, id_eq, hF.commit]
    rcases s.commit with ⟨failure | _, s⟩ <;> rfl

/-- A script has the same report over both connections, and ends in corresponding states. -/
theorem Tree.interpret_map (hf : Connection.Preserves f) (marker : String) (outer : Bool)
    (ts : List Tree) (connection : Option σ) :
    Tree.interpret marker outer ts (connection.map f)
      = Prod.map id (Option.map f) (Tree.interpret marker outer ts connection) := by
  cases outer with
  | false => exact Tree.interpretBare_map hf marker ts { connection }
  | true => exact Tree.interpretEnclosed_map hf marker ts { connection }

/-- A script that is given no connection leaves none. -/
theorem Tree.interpret_none (marker : String) (outer : Bool) (ts : List Tree) :
    (Tree.interpret marker outer ts (none : Option σ)).2 = none := by
  -- having no connection is having one that is in none of its states
  let _ : Connection Empty := ⟨fun _ c => c.elim, fun _ c => c.elim⟩
  have hf : Connection.Preserves (Empty.elim : Empty → σ) := ⟨fun _ c => c.elim, fun _ c => c.elim⟩
  have h := Tree.interpret_map hf marker outer ts none
  rw [Option.map_none] at h
  rw [h]
  cases hc : (Tree.interpret marker outer ts (none : Option Empty)).2 with
  | none => simp [hc]
  | some c => exact c.elim

end SqlFlow
