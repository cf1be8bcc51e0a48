import SqlFlow.Proofs.Run.Realizes
import SqlFlow.Proofs.Tree.Reading

/-!
# The code of a tree does what the tree does

* `Implements`: the statements of trees, from an index on and in whatever scopes, do what the
  interpreter does with the trees. `ImplementsRest` says the same of the rest of a chain.
* `implements_chain`, `implements_attempt`, `implements_attemptTransaction`, `implements_transaction`:
  one lemma for each construct, which is told that the bodies in it are implemented.
* `implements_tree`, `implements_trees`, `implements_rest`: the induction on the tree, which takes the
  code apart and puts these together.
* `result_run_assemble`: the run of an assembled script is what the interpreter says of its trees.
-/

namespace SqlFlow.Machine

variable {σ : Type} [Connection σ] {p : Program} {marker : String}

/-- The part of the program does what `f` does, whatever scopes it is in. -/
def Implements (σ : Type) [Connection σ] (p : Program) (marker : String) (pc stop : Nat)
    (f : Store σ → Except Fault Unit × Store σ) : Prop :=
  ∀ m : Machine σ, Realizes p marker m pc stop m.scopes (f m.store)

/-- The statements of the trees do what the trees do. -/
def ImplementsAll (σ : Type) [Connection σ] (p : Program) (marker : String) (pc : Nat)
    (ts : List Tree) : Prop :=
  Implements σ p marker pc (pc + Tree.sizeAll ts) (Tree.execAll marker ts)

/-- The rest of a chain in which no condition has been true so far does what it should. -/
def ImplementsRest (σ : Type) [Connection σ] (p : Program) (marker : String) (pc : Nat)
    (b : Branch) : Prop :=
  ∀ (m : Machine σ) (outer : List Scope), m.scopes = .conditional false :: outer →
    Realizes p marker m pc (pc + b.size) outer (b.exec marker m.store)

/-! ## Statements -/

theorem implements_sql {i : Nat} {l : Line} (hget : p.get? i = some (l.statement .sql)) :
    Implements σ p marker i (i + 1) ((Tree.sql l).exec marker) := by
  intro m
  rw [Tree.exec]
  exact realizes_blame hget rfl (tracks_query (m.countStatement.emit _) l.text)

theorem implements_debug {i : Nat} {l : Line}
    (hget : p.get? i = some (l.statement (.directive .debug))) :
    Implements σ p marker i (i + 1) ((Tree.debug l).exec marker) := by
  intro m
  rw [Tree.exec]
  exact .reaches (.of_step hget rfl (by omega)) rfl rfl

/-! ## Chains -/

theorem realizes_endIf {m : Machine σ} {i : Nat} {l : Line} {taken : Bool} {outer : List Scope}
    (hget : p.get? i = some (l.statement (.directive .endIf)))
    (hm : m.scopes = .conditional taken :: outer) :
    Realizes p marker m i (i + 1) outer (.ok (), m.store.tick) :=
  realizes_leave hget hm fun n hn => by simp [direct, hn]

/-- The members of a chain behind one whose body has been entered. -/
theorem realizes_skip : (b : Branch) → {i : Nat} → CodeAt p i (b.code i) → {m : Machine σ} →
    {outer : List Scope} → m.scopes = .conditional true :: outer →
    Realizes p marker m i (i + b.size) outer (.ok (), b.skip m.store)
  | .done closer, i, hcode, m, outer, hm => realizes_endIf hcode.1 hm
  | .otherwise opener body closer, i, hcode, m, outer, hm => by
    rw [Branch.code, CodeAt, codeAt_append, Tree.length_codeAll] at hcode
    obtain ⟨hopener, -, hcloser, -⟩ := hcode
    obtain ⟨n, hjump, hstore, hscopes⟩ := reaches_directive hopener hm id (i + 1 + Tree.sizeAll body)
      (fun n hn => by simp [direct, hn]) (by omega)
    rw [Branch.skip, ← hstore, Branch.size_otherwise, ← Nat.add_assoc, ← Nat.add_assoc]
    exact .of_reaches hjump (realizes_endIf hcloser hscopes)
  | .elseIf opener body rest, i, hcode, m, outer, hm => by
    rw [Branch.code, CodeAt, codeAt_append, Tree.length_codeAll] at hcode
    obtain ⟨hopener, -, hrest⟩ := hcode
    obtain ⟨n, hjump, hstore, hscopes⟩ := reaches_directive hopener hm id (i + 1 + Tree.sizeAll body)
      (fun n hn => by simp [direct, hn]) (by omega)
    rw [Branch.skip, ← hstore, Branch.size_elseIf, ← Nat.add_assoc, ← Nat.add_assoc]
    exact .of_reaches hjump (realizes_skip rest hrest hscopes)

/-- The body of a member whose condition was true, and what is passed over behind it. -/
theorem realizes_taken {m : Machine σ} {i : Nat} {body : List Tree} {rest : Branch}
    {outer : List Scope} (hm : m.scopes = .conditional true :: outer)
    (hbody : ImplementsAll σ p marker i body)
    (hrest : CodeAt p (i + Tree.sizeAll body) (rest.code (i + Tree.sizeAll body))) :
    Realizes p marker m i (i + Tree.sizeAll body + rest.size) outer
      (SqlFlow.andThen (Tree.execAll marker body m.store) fun s => (.ok (), rest.skip s)) := by
  have hrun := hbody m
  rw [hm] at hrun
  exact hrun.andThen (by omega) (fun hfails => hfails.conditional)
    fun m' hm' => realizes_skip rest hrest hm'

section

variable {i : Nat} {opener closer middle : Line} {body handler : List Tree} {rest : Branch}

theorem implements_chain
    (hopener : p.get? i = some (opener.statement (.directive .ifThen)
      (some (i + 1 + Tree.sizeAll body))))
    (hbody : ImplementsAll σ p marker (i + 1) body)
    (hcode : CodeAt p (i + 1 + Tree.sizeAll body) (rest.code (i + 1 + Tree.sizeAll body)))
    (hrest : ImplementsRest σ p marker (i + 1 + Tree.sizeAll body) rest) :
    Implements σ p marker i (i + (Tree.chain opener body rest).size)
      ((Tree.chain opener body rest).exec marker) := by
  intro m
  rw [Tree.exec, Tree.size_chain, ← Nat.add_assoc, ← Nat.add_assoc]
  -- the condition is asked for outside the scope of the chain, so no scope is left if that fails
  exact realizes_choose hopener rfl (fun taken n => n.enter (.conditional taken)) (fun _ _ => rfl)
    (by omega) (by omega)
    (fun taken n hn => ⟨rfl, by rw [scopes_enter, hn]⟩) (fun hfails => hfails)
    (fun m' hm' => realizes_taken hm' hbody hcode) fun m' hm' => hrest m' m.scopes hm'

theorem implementsRest_done (hcloser : p.get? i = some (closer.statement (.directive .endIf))) :
    ImplementsRest σ p marker i (.done closer) :=
  fun _ _ hm => realizes_endIf hcloser hm

theorem implementsRest_otherwise
    (hopener : p.get? i = some (opener.statement (.directive .otherwise)
      (some (i + 1 + Tree.sizeAll body))))
    (hbody : ImplementsAll σ p marker (i + 1) body)
    (hcloser : p.get? (i + 1 + Tree.sizeAll body) = some (closer.statement (.directive .endIf))) :
    ImplementsRest σ p marker i (.otherwise opener body closer) := by
  intro m outer hm
  obtain ⟨n, hreaches, hstore, hscopes⟩ := reaches_directive hopener hm (note · true) (i + 1)
    (fun n hn => by simp [direct, hn]) (by omega)
  have hrun := hbody (n.note true)
  rw [scopes_note_of_conditional n true hscopes, store_note, hstore] at hrun
  rw [Branch.exec, Branch.size_otherwise, ← Nat.add_assoc, ← Nat.add_assoc]
  exact .of_reaches hreaches (hrun.andThen (by omega) (fun hfails => hfails.conditional)
    fun m' hm' => realizes_endIf hcloser hm')

theorem implementsRest_elseIf
    (hopener : p.get? i = some (opener.statement (.directive .elseIf)
      (some (i + 1 + Tree.sizeAll body))))
    (hbody : ImplementsAll σ p marker (i + 1) body)
    (hcode : CodeAt p (i + 1 + Tree.sizeAll body) (rest.code (i + 1 + Tree.sizeAll body)))
    (hrest : ImplementsRest σ p marker (i + 1 + Tree.sizeAll body) rest) :
    ImplementsRest σ p marker i (.elseIf opener body rest) := by
  intro m outer hm
  rw [Branch.exec, Branch.size_elseIf, ← Nat.add_assoc, ← Nat.add_assoc]
  -- here the scope of the chain is there already, and is left if the condition cannot be asked for
  exact realizes_choose hopener hm (fun taken n => n.note taken)
    (fun n hn => by simp [direct, hn]) (by omega) (by omega)
    (fun taken n hn => ⟨store_note n taken, scopes_note_of_conditional n taken hn⟩)
    (fun hfails => hfails.conditional) (fun m' hm' => realizes_taken hm' hbody hcode)
    fun m' hm' => hrest m' outer hm'

end

/-! ## Attempts and transactions -/

section

variable {i mid last : Nat} {opener closer middle : Line} {body handler : List Tree}

theorem realizes_handler {m : Machine σ} {transactional : Bool} {target : Nat} {outer : List Scope}
    (hm : m.scopes = .attempt transactional target true :: outer)
    (hmiddle : p.get? mid = some (middle.statement (.directive .handler)
      (some (mid + 1 + Tree.sizeAll handler))))
    (hhandler : ImplementsAll σ p marker (mid + 1) handler)
    (hcloser : p.get? (mid + 1 + Tree.sizeAll handler)
      = some (closer.statement (.directive .endAttempt))) :
    Realizes p marker m mid (mid + 1 + Tree.sizeAll handler + 1) outer
      (SqlFlow.andThen (Tree.execAll marker handler m.store.tick) fun s => (.ok (), s.tick)) := by
  obtain ⟨n, hreaches, hstore, hscopes⟩ := reaches_directive hmiddle hm id (mid + 1)
    (fun n hn => by simp [direct, hn]) (by omega)
  have hrun := hhandler n
  rw [hscopes, hstore] at hrun
  refine .of_reaches hreaches (hrun.andThen (by omega) (fun hfails => hfails.handling) ?_)
  intro m' hm'
  -- a handler that has been entered is outside the transaction, so its end commits nothing
  exact realizes_leave hcloser hm' fun n hn => by cases transactional <;> simp [direct, hn]

/-- The handler is passed over when the body has not failed. -/
theorem reaches_past_handler {m : Machine σ} {transactional : Bool} {target : Nat}
    {outer : List Scope} (hm : m.scopes = .attempt transactional target false :: outer)
    (hmiddle : p.get? mid = some (middle.statement (.directive .handler) (some last)))
    (hlt : mid < last) :
    ∃ n, Reaches p m mid n last ∧ n.store = m.store.tick ∧
      n.scopes = .attempt transactional target false :: outer :=
  reaches_directive hmiddle hm id last (fun n hn => by simp [direct, hn]) hlt

theorem implements_attempt
    (hopener : p.get? i = some (opener.statement (.directive .attempt)
      (some (i + 1 + Tree.sizeAll body))))
    (hbody : ImplementsAll σ p marker (i + 1) body)
    (hmid : mid = i + 1 + Tree.sizeAll body)
    (hmiddle : p.get? mid = some (middle.statement (.directive .handler)
      (some (mid + 1 + Tree.sizeAll handler))))
    (hhandler : ImplementsAll σ p marker (mid + 1) handler)
    (hcloser : p.get? (mid + 1 + Tree.sizeAll handler)
      = some (closer.statement (.directive .endAttempt))) :
    Implements σ p marker i (mid + 1 + Tree.sizeAll handler + 1)
      ((Tree.attempt false opener body middle handler closer).exec marker) := by
  subst hmid
  intro m
  obtain ⟨n, hreaches, hstore, hscopes⟩ := reaches_directive (m := m) hopener rfl
    (enter · (.attempt false (i + 1 + Tree.sizeAll body) false)) (i + 1) (fun _ _ => rfl) (by omega)
  have hrun := hbody (n.enter (.attempt false (i + 1 + Tree.sizeAll body) false))
  rw [scopes_enter, store_enter, hscopes, hstore] at hrun
  rw [Tree.exec]
  refine .of_reaches hreaches ?_
  cases hq : Tree.execAll marker body m.store.tick with | mk answer store
  rw [hq] at hrun
  -- from the end of the body control goes past the handler, from a failure in it to the handler
  cases hrun with
  | reaches hreaches₁ hstore₁ hscopes₁ =>
    obtain ⟨m₂, hreaches₂, hstore₂, hscopes₂⟩ := reaches_past_handler hscopes₁ hmiddle (by omega)
    refine .of_reaches (hreaches₁.trans hreaches₂) ?_
    have hrest : Realizes p marker m₂ _ _ _ _ :=
      realizes_leave hcloser hscopes₂ fun n hn => by simp [direct, hn]
    rw [hstore₂, hstore₁] at hrest
    exact hrest
  | fails hfails =>
    obtain ⟨m₁, hreaches₁, hstore₁, hscopes₁⟩ := hfails.reaches_handler (by omega)
    have hrest : Realizes p marker m₁ _ _ _ _ :=
      realizes_handler hscopes₁ hmiddle hhandler hcloser
    rw [hstore₁] at hrest
    exact .of_reaches hreaches₁ hrest

theorem implements_transaction
    (hopener : p.get? i = some (opener.statement (.directive .beginTransaction)))
    (hbody : ImplementsAll σ p marker (i + 1) body)
    (hcloser : p.get? (i + 1 + Tree.sizeAll body)
      = some (closer.statement (.directive .endTransaction))) :
    Implements σ p marker i (i + 1 + Tree.sizeAll body + 1)
      ((Tree.transaction opener body closer).exec marker) := by
  intro m
  rw [Tree.exec]
  refine realizes_begin hopener (fun _ => rfl) (by omega) fun n hn => ?_
  have hrun := hbody n
  rw [hn] at hrun
  cases hq : Tree.execAll marker body n.store with | mk answer store
  rw [hq] at hrun
  cases hrun with
  | reaches hreaches hstore hscopes =>
    subst hstore
    exact .of_reaches hreaches (realizes_commit hcloser hscopes fun n hn => by simp [direct, hn])
  | fails hfails => exact .fails (hfails.transaction.mono (by omega))

theorem implements_attemptTransaction
    (hopener : p.get? i = some (opener.statement (.directive .attemptTransaction)
      (some (i + 1 + Tree.sizeAll body))))
    (hbody : ImplementsAll σ p marker (i + 1) body)
    (hmid : mid = i + 1 + Tree.sizeAll body)
    (hmiddle : p.get? mid = some (middle.statement (.directive .handler)
      (some (mid + 1 + Tree.sizeAll handler))))
    (hhandler : ImplementsAll σ p marker (mid + 1) handler)
    (hcloser : p.get? (mid + 1 + Tree.sizeAll handler)
      = some (closer.statement (.directive .endAttempt))) :
    Implements σ p marker i (mid + 1 + Tree.sizeAll handler + 1)
      ((Tree.attempt true opener body middle handler closer).exec marker) := by
  subst hmid
  intro m
  rw [Tree.exec]
  refine realizes_begin hopener (fun _ => rfl) (by omega) fun n hn => ?_
  -- the target in the scope is that of the opening statement
  replace hn : n.scopes = .attempt true (i + 1 + Tree.sizeAll body) false :: m.scopes := hn
  have hrun := hbody n
  rw [hn] at hrun
  cases hq : Tree.execAll marker body n.store with | mk answer store
  rw [hq] at hrun
  cases hrun with
  | reaches hreaches₁ hstore₁ hscopes₁ =>
    subst hstore₁
    obtain ⟨m₂, hreaches₂, hstore₂, hscopes₂⟩ := reaches_past_handler hscopes₁ hmiddle (by omega)
    have hrest : Realizes p marker m₂ _ _ _ _ :=
      realizes_commit hcloser hscopes₂ fun n hn => by simp [direct, hn]
    rw [hstore₂] at hrest
    exact .of_reaches (hreaches₁.trans hreaches₂) hrest
  | fails hfails =>
    dsimp only
    -- the handler is entered only after a rollback; one that fails goes on to the scopes outside
    rcases hrollback : store.transact .rollback with ⟨failure | _, store'⟩
    · exact .fails ((hfails.attemptTransaction hrollback).mono (by omega))
    · obtain ⟨m₁, hreaches, hstore, hscopes⟩ :=
        hfails.reaches_handler_of_rollback (by omega) hrollback
      have hrest : Realizes p marker m₁ _ _ _ _ :=
        realizes_handler hscopes hmiddle hhandler hcloser
      rw [hstore] at hrest
      exact .of_reaches hreaches hrest

end

/-! ## Trees -/

mutual

/-- The code of a tree does what the tree does. -/
theorem implements_tree : (t : Tree) → {i : Nat} → CodeAt p i (t.code i) →
    Implements σ p marker i (i + t.size) (t.exec marker)
  | .sql _, _, hcode => implements_sql hcode.1
  | .debug _, _, hcode => implements_debug hcode.1
  | .chain opener body rest, i, hcode => by
    rw [Tree.code, CodeAt, codeAt_append, Tree.length_codeAll] at hcode
    obtain ⟨hopener, hbody, hrest⟩ := hcode
    exact implements_chain hopener (implements_trees body hbody) hrest (implements_rest rest hrest)
  | .attempt transactional opener body middle handler closer, i, hcode => by
    rw [Tree.code, CodeAt, codeAt_append, Tree.length_codeAll, CodeAt, codeAt_append,
      Tree.length_codeAll] at hcode
    obtain ⟨hopener, hbody, hmiddle, hhandler, hcloser, -⟩ := hcode
    have hbody := implements_trees body hbody
    have hhandler := implements_trees handler hhandler
    rw [Tree.size_attempt, ← Nat.add_assoc, ← Nat.add_assoc, ← Nat.add_assoc, ← Nat.add_assoc]
    cases transactional with
    | false => exact implements_attempt hopener hbody rfl hmiddle hhandler hcloser
    | true => exact implements_attemptTransaction hopener hbody rfl hmiddle hhandler hcloser
  | .transaction opener body closer, i, hcode => by
    rw [Tree.code, CodeAt, codeAt_append, Tree.length_codeAll] at hcode
    obtain ⟨hopener, hbody, hcloser, -⟩ := hcode
    rw [Tree.size_transaction, ← Nat.add_assoc, ← Nat.add_assoc]
    exact implements_transaction hopener (implements_trees body hbody) hcloser

theorem implements_trees : (ts : List Tree) → {i : Nat} → CodeAt p i (Tree.codeAll ts i) →
    ImplementsAll σ p marker i ts
  | [], i, _ => fun m => by
    rw [Tree.execAll]
    exact .reaches (.refl m i) rfl rfl
  | t :: ts, i, hcode => by
    rw [Tree.codeAll, codeAt_append, Tree.length_code] at hcode
    obtain ⟨hfirst, hrest⟩ := hcode
    intro m
    rw [Tree.execAll, Tree.sizeAll_cons, ← Nat.add_assoc]
    refine (implements_tree t hfirst m).andThen (by omega) (fun hfails => hfails) fun m' hm' => ?_
    -- a tree leaves the scopes it found, so the next one is in the same
    rw [← hm']
    exact implements_trees ts hrest m'

theorem implements_rest : (b : Branch) → {i : Nat} → CodeAt p i (b.code i) →
    ImplementsRest σ p marker i b
  | .done _, _, hcode => implementsRest_done hcode.1
  | .otherwise opener body closer, i, hcode => by
    rw [Branch.code, CodeAt, codeAt_append, Tree.length_codeAll] at hcode
    obtain ⟨hopener, hbody, hcloser, -⟩ := hcode
    exact implementsRest_otherwise hopener (implements_trees body hbody) hcloser
  | .elseIf opener body rest, i, hcode => by
    rw [Branch.code, CodeAt, codeAt_append, Tree.length_codeAll] at hcode
    obtain ⟨hopener, hbody, hrest⟩ := hcode
    exact implementsRest_elseIf hopener (implements_trees body hbody) hrest
      (implements_rest rest hrest)

end

/-! ## Whole runs -/

section

variable {m : Machine σ} {ts : List Tree} {store : Store σ}

theorem runAll_of_ok (hcode : CodeAt p 0 (Tree.codeAll ts 0)) (hsize : p.size = Tree.sizeAll ts)
    (hm : m.scopes = []) (hexec : Tree.execAll marker ts m.store = (.ok (), store)) :
    ∃ m', m.runAll p = (.ok (), m') ∧ m'.store = store := by
  have hrun : Realizes p marker m 0 _ _ _ := implements_trees ts hcode m
  rw [hexec, hm, Nat.zero_add, ← hsize] at hrun
  cases hrun with | @reaches m' _ hreaches hstore _
  obtain ⟨n, hn, hrunFrom⟩ := runFrom_of_reaches hreaches
  have hend : p.get? p.size = none := by simp [Program.get?, Program.size]
  obtain ⟨fuel, hfuel⟩ : ∃ fuel, p.size = fuel + n := ⟨p.size - n, by omega⟩
  refine ⟨m', ?_, hstore⟩
  -- whatever fuel is left behind the last statement, it is not used
  have hrunAll : m.runAll p = runFrom p fuel m' p.size := by
    rw [runAll, ← hrunFrom fuel, ← hfuel]
  rw [hrunAll]
  cases fuel with
  | zero => rfl
  | succ fuel => rw [runFrom, hend]

theorem runAll_of_error {fault : Fault} (hcode : CodeAt p 0 (Tree.codeAll ts 0))
    (hsize : p.size = Tree.sizeAll ts) (hm : m.scopes = [])
    (hexec : Tree.execAll marker ts m.store = (.error fault, store)) :
    ∃ s m', m.runAll p = (.error (fault.failure, s), m') ∧ s.describe marker = fault.statement ∧
      m'.store = store := by
  have hrun : Realizes p marker m 0 _ _ _ := implements_trees ts hcode m
  rw [hexec, hm, Nat.zero_add, ← hsize] at hrun
  cases hrun with | fails hfails
  exact hfails.runFrom_eq (by omega)

theorem result_runBare (hcode : CodeAt p 0 (Tree.codeAll ts 0)) (hsize : p.size = Tree.sizeAll ts)
    (hm : m.scopes = []) : (m.runBare p marker).result = Tree.interpretBare marker ts m.store := by
  rw [Tree.interpretBare]
  rcases hexec : Tree.execAll marker ts m.store with ⟨fault | _, store⟩
  · obtain ⟨s, m', hrun, hdescribe, rfl⟩ := runAll_of_error hcode hsize hm hexec
    simp only [runBare, hrun, hdescribe, result_halt]
  · obtain ⟨m', hrun, rfl⟩ := runAll_of_ok hcode hsize hm hexec
    simp only [runBare, hrun, result_succeed]

theorem result_runEnclosed (hcode : CodeAt p 0 (Tree.codeAll ts 0))
    (hsize : p.size = Tree.sizeAll ts) (hm : m.scopes = []) :
    (m.runEnclosed p marker).result = Tree.interpretEnclosed marker ts m.store := by
  rw [Tree.interpretEnclosed]
  rcases hq : m.store.transact .begin with ⟨failure | _, store⟩
  · obtain ⟨m₁, hbegin, rfl, -⟩ := (tracks_transact m .begin).of_eq hq
    simp only [runEnclosed, hbegin, result_halt]
  obtain ⟨m₁, hbegin, rfl, hscopes⟩ := (tracks_transact m .begin).of_eq hq
  rw [hm] at hscopes
  rcases hexec : Tree.execAll marker ts m₁.store with ⟨fault | _, store⟩
  · obtain ⟨s, m₂, hrun, hdescribe, rfl⟩ := runAll_of_error hcode hsize hscopes hexec
    simp only [runEnclosed, hbegin, hrun, hdescribe, result_halt, rollbackAfter_spec, hexec]
  · obtain ⟨m₂, hrun, rfl⟩ := runAll_of_ok hcode hsize hscopes hexec
    rcases hq' : m₂.store.commit with ⟨failure | _, store⟩
    · obtain ⟨m₃, hcommit, rfl, -⟩ := (tracks_commit m₂).of_eq hq'
      simp only [runEnclosed, hbegin, hrun, hcommit, hexec, hq', result_halt]
    · obtain ⟨m₃, hcommit, rfl, -⟩ := (tracks_commit m₂).of_eq hq'
      simp only [runEnclosed, hbegin, hrun, hcommit, hexec, hq', result_succeed]

end

end SqlFlow.Machine

namespace SqlFlow

variable {σ : Type} [Connection σ]

/-- The run of a script of block trees is what the interpreter says of the trees. -/
theorem result_run_assemble {d : Dialect} {ts : List Tree}
    (hconditioned : Conditioned d (Tree.flattenAll ts)) (marker : String) (outer : Bool)
    (connection : Option σ) :
    ((Program.assemble d (Tree.flattenAll ts)).run marker outer connection).result
      = Tree.interpret marker outer ts connection := by
  have hexecutable : (Program.assemble d (Tree.flattenAll ts)).executable = true :=
    Program.executable_assemble_iff.mpr (by rw [Program.assemble_flattenAll hconditioned])
  rw [Program.run, if_pos hexecutable, Program.assemble_flattenAll hconditioned]
  have hcode := codeAt_toArray (Tree.codeAll ts 0) none
  have hsize : Program.size ⟨(Tree.codeAll ts 0).toArray, none⟩ = Tree.sizeAll ts := by
    simp [Program.size]
  cases outer with
  | false => exact Machine.result_runBare hcode hsize rfl
  | true => exact Machine.result_runEnclosed hcode hsize rfl

end SqlFlow
