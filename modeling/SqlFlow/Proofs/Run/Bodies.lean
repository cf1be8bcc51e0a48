import SqlFlow.Proofs.Chain
import SqlFlow.Proofs.Run.Frames
import SqlFlow.Proofs.Run.Turns

/-!
# Runs in the body of a chain

Once a body of a chain is entered the run stays in it up to the next member of the chain, whatever blocks it
enters there and whatever failures are handled there. The only other way out is a failure that leaves the
chain as a whole.

* `Turn.Escapes`: the statement fails, and the run does not go on between `first` and `closer`.
* `Caught.stays_or_behind`: a failure in the body is handled there, or behind the chain.
* `Arrives.stays_or_escapes`: one turn in a body. `Arrives.exists_body`: all of them.
-/

namespace SqlFlow

variable {σ : Type} [Connection σ]

/-- The statement fails, and the run does not go on from `first` to `closer`. -/
structure Turn.Escapes (p : Program) (first closer : Nat) (t : Turn σ) : Prop where
  fails : ∃ failure, (t.before.countStatement.step p t.index t.statement).1 = .error failure
  next : ∀ next, (t.after p).1 = .ok next → next < first ∨ closer < next

namespace Program

variable {p : Program} {pc next closer : Nat} {b : OpenBlock} {around : List OpenBlock}
  {scope : Scope} {outer : Bool} {connection : Option σ} {m : Machine σ}

/-- A failure of the statement that is handled only around a chain escapes from the chain. -/
theorem escapes_of_failure (first : Nat) {s : Statement} {failure : Failure} {n : Machine σ}
    (hstep : m.countStatement.step p pc s = (.error failure, n))
    (hnext : ∀ handler m', m.dispatch p pc s = (.ok handler, m') → closer < handler) :
    (⟨pc, s, m⟩ : Turn σ).Escapes p first closer where
  fails := ⟨failure, congrArg Prod.fst hstep⟩
  next handler hhandler := .inr (hnext handler _ (Prod.ext hhandler rfl))

/-- A failure in a body is handled in the body, or behind the chain. -/
theorem Caught.stays_or_behind {handler : Nat} {scopes scopes' : List Scope}
    (hcaught : p.Caught pc handler scopes scopes')
    (hopener : p.kind? b.opener = some (.directive .ifThen)) (hadjacent : p.Adjacent b.member next)
    (hopen : b :: around <:+ p.openBlocks pc) (hscope : ScopeAt scope around.length scopes)
    (hbehind : p.HandledBehind closer around) :
    handler ≤ next ∧ ScopeAt scope around.length scopes' ∨ closer < handler := by
  obtain @⟨c, outside, transactional, rest, hsuffix, hattempt, hnext, hkind, rfl, hrest, hlength⟩ := hcaught
  have hne : b ≠ c := by
    rintro rfl
    simp [hopener] at hattempt
  rcases List.suffix_or_suffix_of_suffix hopen hsuffix with hinside | haround
  · -- the attempt stands in the body
    rcases List.suffix_cons_iff.1 hinside with heq | hinside
    · exact absurd (List.cons.inj heq).1 hne
    have hblocks : p.openBlocks handler = c :: outside := by
      rw [openBlocks_of_adjacent hnext, (openBlocks_of_suffix hsuffix).2]
    have hmem : b ∈ p.openBlocks handler :=
      hblocks ▸ List.mem_cons_of_mem c (hinside.subset List.mem_cons_self)
    have hlt : around.length < rest.length := by
      have hle := hinside.length_le
      rw [List.length_cons] at hle
      omega
    exact .inl ⟨le_of_adjacent hmem hadjacent, (hscope.of_suffix hrest hlt).mono (List.suffix_cons ..)⟩
  · -- the chain stands in the attempt
    rcases List.suffix_cons_iff.1 haround with heq | haround
    · exact absurd (List.cons.inj heq).1.symm hne
    exact .inr (hbehind c (haround.subset List.mem_cons_self) handler hnext hkind)

/-- A statement that does not fail in a body stays there, and leaves the scope of the chain as it is. -/
theorem Arrives.stays_of_step (harrives : p.Arrives outer connection m pc) (h : p.Nested)
    {s : Statement} {i : Nat} {n : Machine σ} (hget : p.get? pc = some s)
    (hstep : m.countStatement.step p pc s = (.ok i, n)) (hadjacent : p.Adjacent b.member next)
    (hopen : b :: around <:+ p.openBlocks pc) (hbefore : pc < next)
    (hscope : ScopeAt scope around.length m.scopes) :
    i ≤ next ∧ ScopeAt scope around.length n.scopes := by
  have hkind : p.kind? pc = some s.kind := kind?_of_get? hget
  have hlength : (p.openBlocks pc).length = m.scopes.length := (harrives.fits h).2.length_eq
  have hframed := Machine.framed_step p m.countStatement pc s
  rw [hstep] at hframed
  constructor
  · rcases hframed.next i rfl with rfl | ⟨hbranches, rfl⟩
    · exact hbefore
    · cases hs : s.kind with
      | sql | invalid => simp [hs, StatementKind.branches] at hbranches
      | directive x =>
        rw [hs] at hkind hbranches
        obtain ⟨t, ht⟩ := h.exists_target hkind hbranches
        rw [← target?_of_get? hget, ht]
        exact h.target_le hopen hadjacent hbefore ht
  · rcases innermost_or_inside hopen with hinnermost | ⟨c, inner, hblocks, hinside⟩
    · refine hscope.mono (hframed.innermost fun y hy => ?_)
      exact h.not_continues hopen hadjacent hinnermost hbefore (hy ▸ hkind)
    · -- the statement has to do with a scope further inside
      have hlt : around.length < m.scopes.tail.length := by
        have hle := hinside.length_le
        rw [List.length_cons] at hle
        rw [hblocks, List.length_cons] at hlength
        rw [List.length_tail]
        omega
      exact (hscope.of_suffix (List.tail_suffix _) hlt).mono hframed.around

/-- A statement in a body goes on in the body, or to the next member, and leaves the scope of the chain as it
is; or it fails and the failure leaves the chain. -/
theorem Arrives.stays_or_escapes (harrives : p.Arrives outer connection m pc) (h : p.Nested) (first : Nat)
    {s : Statement} (hget : p.get? pc = some s)
    (hopener : p.kind? b.opener = some (.directive .ifThen)) (hadjacent : p.Adjacent b.member next)
    (hopen : b :: around <:+ p.openBlocks pc) (hbefore : pc < next)
    (hscope : ScopeAt scope around.length m.scopes) (hbehind : p.HandledBehind closer around) :
    (∃ i m', m.dispatch p pc s = (.ok i, m') ∧ i ≤ next ∧ ScopeAt scope around.length m'.scopes) ∨
      (⟨pc, s, m⟩ : Turn σ).Escapes p first closer := by
  rcases hstep : m.countStatement.step p pc s with ⟨failure | i, n⟩
  · rcases hdispatch : m.dispatch p pc s with ⟨failure' | handler, m'⟩
    · exact .inr (escapes_of_failure first hstep fun _ _ hok => by simp [hdispatch] at hok)
    have hcaught := harrives.caught h hget hstep hdispatch
    rcases hcaught.stays_or_behind hopener hadjacent hopen hscope hbehind with ⟨hle, hscope'⟩ | hlt
    · exact .inl ⟨handler, m', rfl, hle, hscope'⟩
    · refine .inr (escapes_of_failure first hstep fun handler' n' hok => ?_)
      obtain ⟨rfl, -⟩ : handler = handler' ∧ _ := by simpa using hdispatch.symm.trans hok
      exact hlt
  · left
    obtain ⟨hle, hscope'⟩ := harrives.stays_of_step h hget hstep hadjacent hopen hbefore hscope
    exact ⟨i, n, by rw [Machine.dispatch, hstep], hle, hscope'⟩

/-- The turns of a run in a body: they come to the next member, with the scope of the chain as it was, or end
with a failure that leaves the chain. -/
theorem Arrives.exists_body (harrives : p.Arrives outer connection m pc) (h : p.Nested) (first : Nat)
    (hopener : p.kind? b.opener = some (.directive .ifThen)) (hadjacent : p.Adjacent b.member next)
    (hopen : p.openBlocks (b.member + 1) = b :: around) (hlt : b.member < pc) (hle : pc ≤ next)
    (hscope : ScopeAt scope around.length m.scopes) (hbehind : p.HandledBehind closer around) :
    ∃ body, (∀ t ∈ body, p.InBranch b.member t.index) ∧
      ((∃ m', p.Arrives outer connection m' next ∧ ScopeAt scope around.length m'.scopes ∧
          m.turns p pc = body ++ m'.turns p next) ∨
        ∃ t later, p.InBranch b.member t.index ∧ t.Escapes p first closer ∧
          m.turns p pc = body ++ t :: later) := by
  -- by induction on the statements up to the next member
  induction hleft : next - pc using Nat.strongRecOn generalizing m pc with
  | ind left ih =>
    rcases Nat.eq_or_lt_of_le hle with rfl | hbefore
    · exact ⟨[], by simp, .inl ⟨m, harrives, hscope, rfl⟩⟩
    have hnext : next < p.size := by
      obtain ⟨x, y, -, hy, -⟩ := hadjacent.members
      exact lt_size_of_kind? hy
    obtain ⟨s, hget⟩ : ∃ s, p.get? pc = some s := by
      rw [← Option.ne_none_iff_exists']
      exact fun hnone => absurd (get?_eq_none_iff.1 hnone) (by omega)
    have hinside := h.suffix_of_adjacent hopen hadjacent hlt hle
    have hbranch : p.InBranch b.member pc := ⟨next, hadjacent, hlt, hbefore⟩
    have hfits := (harrives.fits h).2
    rcases harrives.stays_or_escapes h first hget hopener hadjacent hinside hbefore hscope hbehind with
      ⟨i, m', hdispatch, hle', hscope'⟩ | hescapes
    · obtain ⟨hi, -, -⟩ := Machine.advances_dispatch h hfits hget _ _ hdispatch
      obtain ⟨body, hbody, hcases⟩ :=
        ih (next - i) (by omega) (harrives.next hget hdispatch) (by omega) hle' hscope' rfl
      have hturns := Machine.turns_of_ok h hfits hget hdispatch
      refine ⟨⟨pc, s, m⟩ :: body, List.forall_mem_cons.2 ⟨hbranch, hbody⟩, ?_⟩
      rw [hturns]
      rcases hcases with ⟨m'', harrives', hscope'', hrest⟩ | ⟨t, later, ht, hescapes, hrest⟩
      · exact .inl ⟨m'', harrives', hscope'', by rw [hrest, List.cons_append]⟩
      · exact .inr ⟨t, later, ht, hescapes, by rw [hrest, List.cons_append]⟩
    · refine ⟨[], by simp, .inr ?_⟩
      rcases hdispatch : m.dispatch p pc s with ⟨failure | i, m'⟩
      · exact ⟨_, [], hbranch, hescapes, Machine.turns_of_error hget hdispatch⟩
      · exact ⟨_, _, hbranch, hescapes, Machine.turns_of_ok h hfits hget hdispatch⟩

end Program

end SqlFlow
