import SqlFlow.Proofs.Members

/-!
# Where branches lead

* `wired_assemble`: a program without an error is wired as a whole.
* `Assembly.Forward`: in a pass over fragments targets lead forward, to statements that are there.
  `forward_link`, `forward_add` and `forward_of_add_error` say what becomes of this at one fragment,
  `forward_run` at the end of the pass. A target may be set before its place is found to be at fault;
  the place is then taken by the statement that stands for the error.

In a program without an error the targets are exactly the next members; in one with an error they
still lead forward and stay in the program.
-/

namespace SqlFlow

theorem wired_assemble {d : Dialect} {fragments : List Fragment}
    (h : (Program.assemble d fragments).error? = none) :
    Wired (Program.assemble d fragments) 0 0 (Program.assemble d fragments).size := by
  obtain ⟨ts, rfl, hconditioned⟩ := Program.exists_trees_of_error?_eq_none h
  rw [Program.assemble_flattenAll hconditioned]
  have hwired := wired_codeAll ts (codeAt_toArray (Tree.codeAll ts 0) none)
  rw [Nat.zero_add] at hwired
  have hsize : Program.size ⟨(Tree.codeAll ts 0).toArray, none⟩ = Tree.sizeAll ts := by
    simp [Program.size]
  rwa [hsize]

/-! ## A pass that may stop -/

/-- The member of an open block that the next one is going to be linked to. -/
def Block.member? : Block → Option Nat
  | .chain _ last _ => some last
  | .attempt _ start | .handler _ start => some start
  | .transaction _ => none

namespace Nesting

/-- A link starts at a member of an open block, whether or not the directive is refused. -/
theorem exists_block_of_links {d : Dialect} {opener : Opener} {text : String} {here i : Nat}
    {blocks : Nesting} (h : (accept d opener text here blocks).links = some i) :
    ∃ b ∈ blocks, b.member? = some i := by
  obtain ⟨x, line, raw⟩ := opener
  cases x with
  | ifThen =>
    simp only [accept] at h
    split at h <;> simp [refuse, become] at h
  | debug | attempt | attemptTransaction | beginTransaction => simp [accept, become] at h
  | elseIf | otherwise | endIf | handler | endAttempt | endTransaction =>
    -- only the innermost block is asked
    rcases blocks with _ | ⟨⟨first, last, _ | _⟩ | ⟨first, start⟩ | ⟨first, start⟩ | first, outer⟩ <;>
      simp [accept, acceptMember, refuse, become] at h
    all_goals exact ⟨_, List.mem_cons_self .., congrArg some h⟩

/-- A block that is open behind a directive was open before it, or its present member is the
directive. -/
theorem Admits.mem_or_member {opener : Opener} {here : Nat} {blocks blocks' : Nesting}
    {links : Option Nat} (h : Admits opener here blocks links blocks') {b : Block}
    (hb : b ∈ blocks') : b ∈ blocks ∨ ∀ i, b.member? = some i → i = here := by
  cases h with
  | debug => exact .inl hb
  | endIf | endAttempt | endTransaction => exact .inl (List.mem_cons_of_mem _ hb)
  | ifThen | attempt | beginTransaction =>
    rcases List.mem_cons.1 hb with rfl | hb
    · exact .inr fun i hi => by simp_all [Block.member?]
    · exact .inl hb
  | elseIf | otherwise | handler =>
    rcases List.mem_cons.1 hb with rfl | hb
    · exact .inr fun i hi => by simp_all [Block.member?]
    · exact .inl (List.mem_cons_of_mem _ hb)

end Nesting

/-- Every target leads forward, to a statement that is there. -/
def TargetsForward (statements : Array Statement) : Prop :=
  ∀ i s t, statements[i]? = some s → s.target = some t → i < t ∧ t < statements.size

theorem TargetsForward.push {statements : Array Statement} {s : Statement}
    (h : ∀ i s t, statements[i]? = some s → s.target = some t → i < t ∧ t ≤ statements.size)
    (hs : s.target = none) : TargetsForward (statements.push s) := by
  intro i s' t hi ht
  rw [Array.size_push]
  rw [Array.getElem?_push] at hi
  split at hi
  · obtain rfl : s = s' := Option.some.inj hi
    simp [hs] at ht
  · obtain ⟨hlt, hle⟩ := h i s' t hi ht
    exact ⟨hlt, by omega⟩

namespace Assembly

/-- Targets lead forward, and open blocks have their present members in the program. -/
structure Forward (a : Assembly) : Prop where
  targets : TargetsForward a.statements
  blocks : ∀ b ∈ a.blocks, ∀ i, b.member? = some i → i < a.statements.size

/-- A link leads to the next place, where there is no statement yet. -/
theorem forward_link {a : Assembly} (h : TargetsForward a.statements) {links : Option Nat}
    (hlinks : ∀ i, links = some i → i < a.statements.size) {i t : Nat} {s : Statement}
    (hi : (a.link links).statements[i]? = some s) (ht : s.target = some t) :
    i < t ∧ t ≤ (a.link links).statements.size := by
  rw [size_link]
  cases links with
  | none =>
    obtain ⟨hlt, hlt'⟩ := h i s t hi ht
    exact ⟨hlt, by omega⟩
  | some j =>
    have hj := hlinks j rfl
    simp only [link, Array.getElem?_modify] at hi
    split at hi
    · next hij =>
      subst hij
      obtain ⟨s', -, rfl⟩ := Option.map_eq_some_iff.1 hi
      obtain rfl : a.statements.size = t := Option.some.inj ht
      exact ⟨hj, by omega⟩
    · obtain ⟨hlt, hlt'⟩ := h i s t hi ht
      exact ⟨hlt, by omega⟩

theorem lt_size_of_links {d : Dialect} {a : Assembly} (h : a.Forward) {opener : Opener}
    {text : String} {here i : Nat} (hi : (a.blocks.accept d opener text here).links = some i) :
    i < a.statements.size := by
  obtain ⟨b, hb, hmember⟩ := Nesting.exists_block_of_links hi
  exact h.blocks b hb i hmember

theorem targetsForward_refuse {a : Assembly} {error : SyntaxError} {raw : String}
    (h : ∀ i s t, a.statements[i]? = some s → s.target = some t → i < t ∧ t ≤ a.statements.size) :
    TargetsForward (a.refuse error raw).statements :=
  .push h rfl

theorem Forward.le {a : Assembly} (h : a.Forward) (i : Nat) (s : Statement) (t : Nat)
    (hi : a.statements[i]? = some s) (ht : s.target = some t) :
    i < t ∧ t ≤ a.statements.size := by
  obtain ⟨hlt, hlt'⟩ := h.targets i s t hi ht
  exact ⟨hlt, by omega⟩

/-- One more fragment, if it is not refused. -/
theorem forward_add {d : Dialect} {a b : Assembly} {f : Fragment} (h : a.Forward)
    (hadd : a.add d f = .ok b) : b.Forward := by
  rcases add_cases hadd with ⟨l, rfl, rfl⟩ | ⟨l, x, links, blocks, rfl, hc, hadmits, rfl⟩
  · refine ⟨?_, fun b hb i hi => ?_⟩
    · simpa [extend] using TargetsForward.push h.le rfl
    · rw [size_extend]
      exact Nat.lt_succ_of_lt (h.blocks b hb i hi)
  · have hlinks : ∀ i, links = some i → i < a.statements.size := by
      rintro i rfl
      have haccept := Nesting.accept_eq_ok_iff.2 ⟨hadmits, Nesting.hasCondition_iff.2 hc⟩
      exact lt_size_of_links h (congrArg Admission.links haccept)
    refine ⟨?_, fun b hb i hi => ?_⟩
    · simpa [extend, within] using TargetsForward.push (fun i s t => forward_link h.targets hlinks) rfl
    · rw [size_extend, statements_within, size_link]
      rcases hadmits.mem_or_member hb with hb | hmember
      · exact Nat.lt_succ_of_lt (h.blocks b hb i hi)
      · rw [hmember i hi]
        exact Nat.lt_succ_self _

/-- One more fragment, if it is refused. -/
theorem forward_of_add_error {d : Dialect} {a : Assembly} {f : Fragment} {p : Program}
    (h : a.Forward) (hadd : a.add d f = .error p) : TargetsForward p.statements := by
  cases hkind : f.kind with
  | sql => simp [add, hkind] at hadd
  | fault error =>
    simp only [add, hkind, Except.error.injEq] at hadd
    subst hadd
    exact targetsForward_refuse h.le
  | directive x =>
    simp only [add, hkind] at hadd
    split at hadd
    · obtain rfl := Except.error.inj hadd
      exact targetsForward_refuse fun i s t => forward_link h.targets fun j => lt_size_of_links h
    · cases hadd

/-- The rest of the fragments. -/
theorem forward_run {d : Dialect} {w : List Fragment} {a : Assembly} (h : a.Forward) :
    TargetsForward (a.run d w).statements := by
  induction w generalizing a with
  | nil =>
    rw [run, finish]
    split
    · exact h.targets
    · exact targetsForward_refuse h.le
  | cons f w ih =>
    cases hadd : a.add d f with
    | error p =>
      rw [run, hadd]
      exact forward_of_add_error h hadd
    | ok b =>
      rw [run, hadd]
      exact ih (forward_add h hadd)

end Assembly

theorem targetsForward_assemble (d : Dialect) (fragments : List Fragment) :
    TargetsForward (Program.assemble d fragments).statements :=
  Assembly.forward_run ⟨by simp [TargetsForward], by simp⟩

/-! ## Targets are the next members -/

theorem Directive.followers_ne_nil_of_branches {x : Directive} (h : x.branches = true) :
    x.followers ≠ [] := by
  cases x <;> simp [branches] at h <;> simp [followers]

/-- The directives with a target, by name. -/
theorem Directive.branches_iff {x : Directive} :
    x.branches = true ↔
      x ∈ [ifThen, elseIf, otherwise, attempt, attemptTransaction, handler] := by
  cases x <;> simp [branches]

/-- In a wired program a statement has a target if it branches, and that is the next member. -/
theorem Wired.target_cases {p : Program} {start first stop i : Nat} {s : Statement}
    (h : Wired p start first stop) (hi : start ≤ i) (hlt : i < stop) (hget : p.get? i = some s) :
    (∃ x j, s.kind = .directive x ∧ x.branches = true ∧ s.target = some j ∧ j < stop ∧
      p.Adjacent i j) ∨
    (∀ x, s.kind = .directive x → x.branches = false) ∧ s.target = none := by
  cases h.onward hi hlt with
  | @next j hadjacent hlt' =>
    obtain ⟨x, y, hkind, -, -, htarget⟩ := hadjacent.members
    rw [Program.kind?_of_get? hget, Option.some.injEq] at hkind
    rw [Program.target?_of_get? hget] at htarget
    cases hx : x.branches with
    | true => exact .inl ⟨x, j, hkind, hx, by rw [htarget, hx, if_pos rfl], hlt', hadjacent⟩
    | false =>
      refine .inr ⟨fun y hy => ?_, by rw [htarget, hx, if_neg Bool.false_ne_true]⟩
      obtain rfl : x = y := StatementKind.directive.inj (hkind.symm.trans hy)
      exact hx
  | last hkind htarget =>
    rw [Program.target?_of_get? hget] at htarget
    refine .inr ⟨fun x hx => ?_, htarget⟩
    cases hbranches : x.branches with
    | false => rfl
    | true =>
      refine absurd (hkind x ?_) (Directive.followers_ne_nil_of_branches hbranches)
      rw [Program.kind?_of_get? hget, hx]

/-- A statement has a target if it is of one of the kinds that branch, and only then. The target is
the next member of the block that the statement is a member of, and targets do not cross. In a program
with an error they lead forward to statements of the program, the one that stands for the error
included. -/
theorem targets_are_next_members (d : Dialect) (fragments : List Fragment) :
    let p := Program.assemble d fragments
    (p.error? = none →
      (∀ i s, p.get? i = some s →
        (s.target.isSome = true ↔ ∃ x ∈ [Directive.ifThen, .elseIf, .otherwise, .attempt,
          .attemptTransaction, .handler], s.kind = .directive x) ∧
        ∀ t, s.target = some t → t < p.size ∧ p.Adjacent i t) ∧
      ∀ i k j l, i < k → p.target? i = some j → p.target? k = some l → j ≤ k ∨ l < j) ∧
    (p.error? ≠ none →
      ∀ i s t, p.get? i = some s → s.target = some t → i < t ∧ t < p.size) := by
  intro p
  refine ⟨fun herror => ⟨fun i s hget => ?_, fun i k j l hik hij hkl => ?_⟩,
    fun _ i s t hget ht => targetsForward_assemble d fragments i s t hget ht⟩
  · have hwired := wired_assemble herror
    rcases hwired.target_cases (Nat.zero_le i) (Program.lt_size_of_get? hget) hget with
      ⟨x, j, hkind, hbranches, htarget, hlt, hadjacent⟩ | ⟨hkind, htarget⟩
    · refine ⟨⟨fun _ => ⟨x, Directive.branches_iff.1 hbranches, hkind⟩, fun _ => by simp [htarget]⟩, ?_⟩
      intro t ht
      obtain rfl : j = t := Option.some.inj (htarget.symm.trans ht)
      exact ⟨hlt, hadjacent⟩
    · refine ⟨⟨fun hsome => by simp [htarget] at hsome, ?_⟩, fun t ht => by simp [htarget] at ht⟩
      rintro ⟨x, hx, hs⟩
      exact absurd (Directive.branches_iff.2 hx) (by rw [hkind x hs]; exact Bool.false_ne_true)
  · obtain ⟨s, hget, -⟩ := Option.bind_eq_some_iff.1 hkl
    exact (wired_assemble herror).uncrossed (Nat.zero_le i) hik (Program.lt_size_of_get? hget) hij hkl

/-- An attempt in the first body of a chain. -/
example :
    let line (x : Directive) : Fragment := ⟨.directive x, "a", "", 1⟩
    let fragments := [line .ifThen, line .attempt, ⟨.sql, "A", "A", 1⟩, line .handler, line .endAttempt,
      line .otherwise, line .endIf]
    (Program.assemble {} fragments).statements.toList.map Statement.target =
      [some 5, some 3, none, some 4, none, some 6, none] := by decide

end SqlFlow
