import SqlFlow.Proofs.Run.Unwinding

/-!
# Leaving blocks

The blocks around a statement that fails, and where in them it stands, leave no choice of how they are left.

* `Leaves.suffix`, `Leaves.trans`: the blocks that are left come first, and one walk goes on from another.
* `InBody.openBlocks_handler`: what is open at the handler of an attempt.
* `Stands.of_passes`, `Stands.of_body`, `Stands.eq_transaction`: the scope of a block around the statement.
* `exists_unwind_of_leaves`: blocks can only be left as the run leaves them.
-/

namespace SqlFlow

variable {σ : Type} [Connection σ]

namespace Program

variable {p : Program} {pc : Nat} {b : OpenBlock} {scope : Scope} {blocks blocks' : List OpenBlock}
  {errors : List (Option SqlError)}

theorem Leaves.suffix {c c' : Option σ} (h : p.Leaves pc blocks c errors blocks' c') :
    blocks' <:+ blocks := by
  induction h with
  | here => exact List.suffix_rfl
  | pass _ _ ih | transaction _ _ _ ih | attempt _ _ _ ih => exact ih.trans (List.suffix_cons ..)

theorem Leaves.trans {errors' : List (Option SqlError)} {blocks'' : List OpenBlock}
    {c c' c'' : Option σ} (h : p.Leaves pc blocks c errors blocks' c')
    (h' : p.Leaves pc blocks' c' errors' blocks'' c'') :
    p.Leaves pc blocks c (errors ++ errors') blocks'' c'' := by
  induction h with
  | here => exact h'
  | pass hpasses _ ih => exact (ih h').pass hpasses
  | transaction hopener hrollback _ ih => exact .transaction hopener hrollback (ih h')
  | attempt hbody hrollback _ ih => exact .attempt hbody hrollback (ih h')

theorem enclosing_suffix (p : Program) (pc : Nat) : p.enclosing pc <:+ p.openBlocks pc := by
  unfold enclosing
  split
  · exact List.tail_suffix _
  · exact List.suffix_rfl

theorem Catches.exists_inBody {handler : Nat} {c c' : Option σ}
    (h : p.Catches pc b handler c c') : ∃ transactional, p.InBody pc b transactional handler := by
  cases h with
  | attempt hbody | attemptTransaction hbody => exact ⟨_, hbody⟩

/-- In the body of an attempt the present member is the opener. -/
theorem InBody.member_eq_opener {transactional : Bool} {handler : Nat}
    (hbody : p.InBody pc b transactional handler) (h : p.Nested) (hb : b ∈ p.openBlocks pc) :
    b.member = b.opener := by
  rcases (h.shape hb).attempt_cases hbody.opener with hmember | htarget
  · exact hmember
  · have heq := hbody.next.eq_of_target htarget
    have hlt := member_lt hb
    have hbefore := hbody.before
    omega

/-- What is open at the handler of an attempt in whose body a statement stands. -/
theorem InBody.openBlocks_handler {outer : List OpenBlock} {transactional : Bool}
    {handler : Nat} (hbody : p.InBody pc b transactional handler) (h : p.Nested)
    (hsuffix : b :: outer <:+ p.openBlocks pc) : p.openBlocks handler = b :: outer := by
  obtain ⟨-, hopen⟩ := openBlocks_of_suffix hsuffix
  have hmember := hbody.member_eq_opener h (hsuffix.subset List.mem_cons_self)
  rw [openBlocks_of_adjacent hbody.next, ← hmember, hopen]

/-! ## The scopes of blocks around a statement -/

/-- Before its handler an attempt is not left without further ado. -/
theorem InBody.not_passes {transactional : Bool} {handler : Nat}
    (h : p.InBody pc b transactional handler) : ¬p.Passes pc b := by
  have hopener := h.opener
  rintro (hchain | ⟨-, hnext, -, hbehind, -⟩)
  · simp [hchain] at hopener
  · obtain ⟨x, y, hx, -, -, htarget⟩ := hnext.members
    obtain rfl := StatementKind.directive.inj (Option.some.inj (hx.symm.trans hopener))
    rw [Directive.branches_attemptOf, if_pos rfl] at htarget
    have heq := h.next.eq_of_target htarget
    have hbefore := h.before
    omega

theorem Stands.of_passes (h : p.Stands pc b scope) (hpasses : p.Passes pc b) :
    (∃ taken, scope = .conditional taken) ∨
      ∃ transactional handler, scope = .attempt transactional handler true := by
  cases h with
  | @chain taken => exact .inl ⟨taken, rfl⟩
  | @handler transactional handler => exact .inr ⟨transactional, handler, rfl⟩
  | body hbody => exact absurd hpasses hbody.not_passes
  | transaction hopener =>
    obtain hopener' | ⟨hopener', -⟩ := hpasses
    all_goals simp [hopener] at hopener'

theorem Stands.holds_of_passes (h : p.Stands pc b scope) (hpasses : p.Passes pc b) :
    scope.holds = false := by
  obtain ⟨taken, rfl⟩ | ⟨transactional, handler, rfl⟩ := h.of_passes hpasses
  · rfl
  · exact Bool.and_false _

theorem Stands.eq_transaction (h : p.Stands pc b scope)
    (hopener : p.kind? b.opener = some (.directive .beginTransaction)) : scope = .transaction := by
  cases h with
  | chain hopener' => simp [hopener] at hopener'
  | handler hpasses =>
    obtain hopener' | ⟨hopener', -⟩ := hpasses
    all_goals simp [hopener] at hopener'
  | body hbody =>
    have hopener' := hbody.opener
    simp [hopener] at hopener'
  | transaction => rfl

theorem Stands.of_body {transactional : Bool} {handler : Nat} (h : p.Stands pc b scope)
    (hbody : p.InBody pc b transactional handler) :
    ∃ handler', scope = .attempt transactional handler' false := by
  have hopener := hbody.opener
  cases h with
  | chain hchain => exact absurd (.chain hchain) hbody.not_passes
  | handler hpasses => exact absurd hpasses hbody.not_passes
  | @body transactional' handler' hbody' =>
    obtain rfl : transactional = transactional' := by simpa [hopener] using hbody'.opener
    exact ⟨handler', rfl⟩
  | transaction hopener' => simp [hopener'] at hopener

end Program

/-- Blocks can only be left as the run leaves them. -/
theorem Machine.exists_unwind_of_leaves {p : Program} {pc : Nat} {blocks blocks' : List OpenBlock}
    {errors : List (Option SqlError)} {scopes : List Scope} {c c' : Option σ}
    (h : p.Leaves pc blocks c errors blocks' c') (hstands : List.Forall₂ (p.Stands pc) blocks scopes)
    (failure : Failure) {m : Machine σ} (hm : m.connection = c) :
    ∃ failure' m' scopes', List.Forall₂ (p.Stands pc) blocks' scopes' ∧ m'.connection = c' ∧
      unwind p failure m scopes = unwind p failure' m' scopes' := by
  induction h generalizing scopes failure m with
  | here => exact ⟨failure, m, scopes, hstands, hm, rfl⟩
  | pass hpasses _ ih =>
    obtain _ | ⟨hscope, hrest⟩ := hstands
    obtain ⟨taken, rfl⟩ | ⟨transactional, handler, rfl⟩ := hscope.of_passes hpasses
    all_goals
      rw [unwind]
      exact ih hrest failure hm
  | @transaction b blocks blocks' c c₁ c' error errors hopener hrollback _ ih =>
    obtain _ | ⟨hscope, hrest⟩ := hstands
    obtain rfl := hscope.eq_transaction hopener
    rw [unwind, transact_of_rollsBack hm hrollback]
    cases error with
    | none => exact ih hrest failure rfl
    | some error => exact ih hrest _ rfl
  | attempt hbody hrollback _ ih =>
    obtain _ | ⟨hscope, hrest⟩ := hstands
    obtain ⟨handler', rfl⟩ := hscope.of_body hbody
    rw [unwind, transact_of_rollsBack hm hrollback]
    exact ih hrest _ rfl

end SqlFlow
