import SqlFlow.Proofs.Enclosure

/-!
# Chains

A chain of conditional bodies by its members, from the `if` to the `endif`, and the places in its bodies.

* `Program.Chain`: the members of a chain, in order. `exists_chain`: every member has those behind it.
* `Program.InBranch`: a statement stands in the body behind a member. `Chain.unique_branch`: in one body of a
  chain at most, and it is no member then.
* `Chain.handledBehind`: what is around a chain handles failures behind the chain only.
* `Nested.not_continues`, `Nested.target_le`: what stands in a body neither continues the block around it nor
  leads out of it.
-/

namespace SqlFlow

namespace Program

variable {p : Program} {i k pc next closer : Nat} {b : OpenBlock} {around : List OpenBlock}
  {members : List Nat}

/-! ## Chains -/

/-- From its member `k` on, which is the first of them, a chain has these members; `closer` closes it. -/
inductive Chain (p : Program) : (k : Nat) → (members : List Nat) → (closer : Nat) → Prop where
  | closes {closer : Nat} (hkind : p.kind? closer = some (.directive .endIf)) : Chain p closer [] closer
  | member {x : Directive} {k next closer : Nat} {members : List Nat}
      (hkind : p.kind? k = some (.directive x)) (hx : x ∈ [Directive.ifThen, .elseIf, .otherwise])
      (hadjacent : p.Adjacent k next) (rest : Chain p next members closer) :
      Chain p k (k :: members) closer

/-- The statement `j` stands in the body that begins with the member `k`. -/
def InBranch (p : Program) (k j : Nat) : Prop := ∃ next, p.Adjacent k next ∧ k < j ∧ j < next

/-- A chain goes on from each of its members to the end. -/
theorem Nested.exists_chain (h : p.Nested) {x : Directive} (hkind : p.kind? k = some (.directive x))
    (hx : x ∈ [Directive.ifThen, .elseIf, .otherwise, .endIf]) :
    ∃ members closer, p.Chain k members closer := by
  -- by induction on the statements that are left
  induction hleft : p.size - k using Nat.strongRecOn generalizing k x with
  | ind left ih =>
    have hmember : x ∈ [Directive.ifThen, .elseIf, .otherwise] →
        ∃ members closer, p.Chain k members closer := fun hx => by
      have hbranches : x.branches = true := by
        revert hx
        cases x <;> decide
      obtain ⟨t, ht⟩ := h.exists_target hkind hbranches
      obtain ⟨hadjacent, hlt⟩ := h.adjacent_of_target ht
      obtain ⟨x', y, hx', hy, hfollows, -⟩ := hadjacent.members
      obtain rfl := StatementKind.directive.inj (Option.some.inj (hkind.symm.trans hx'))
      have hnext : y ∈ [Directive.ifThen, .elseIf, .otherwise, .endIf] := by
        revert hx hfollows
        cases x <;> cases y <;> decide
      have hbehind := hadjacent.lt
      obtain ⟨members, closer, hrest⟩ := ih (p.size - t) (by omega) hy hnext rfl
      exact ⟨k :: members, closer, .member hkind hx hadjacent hrest⟩
    by_cases hend : x = .endIf
    · subst hend
      exact ⟨[], k, .closes hkind⟩
    · exact hmember (by simpa [hend] using hx)

/-- There is one next member at most. -/
theorem Nested.adjacent_unique (h : p.Nested) {next' : Nat} (hadjacent : p.Adjacent k next)
    (hadjacent' : p.Adjacent k next') : next = next' := by
  obtain ⟨b, around, hopen, rfl⟩ := h.exists_innermost_succ hadjacent
  have hmem : ∀ {j}, p.Adjacent b.member j → b ∈ p.openBlocks j := fun hj => by
    rw [openBlocks_of_adjacent hj, hopen]
    exact List.mem_cons_self
  exact Nat.le_antisymm (le_of_adjacent (hmem hadjacent) hadjacent')
    (le_of_adjacent (hmem hadjacent') hadjacent)

theorem Adjacent.continues {y : Directive} (h : p.Adjacent i k)
    (hkind : p.kind? k = some (.directive y)) : y.continues = true := by
  obtain ⟨x, -, hfollows, -⟩ := h.of_kind hkind
  exact Directive.continues_of_mem_followers hfollows

/-- The target of a member that branches, as a statement has it, is the next member. -/
theorem Adjacent.getD_target (h : p.Adjacent k next) {s : Statement} (hget : p.get? k = some s)
    {x : Directive} (hs : s.kind = .directive x) (hx : x.branches = true) :
    s.target.getD p.size = next := by
  obtain ⟨x', y, hx', -, -, htarget⟩ := h.members
  rw [kind?_of_get? hget, hs] at hx'
  obtain rfl := StatementKind.directive.inj (Option.some.inj hx')
  rw [target?_of_get? hget, if_pos hx] at htarget
  rw [htarget, Option.getD_some]

/-- A further member of a chain divides it. -/
theorem Adjacent.divides (h : p.Adjacent i k) {x : Directive} (hkind : p.kind? k = some (.directive x))
    (hx : x ∈ [Directive.ifThen, .elseIf, .otherwise]) : x = .elseIf ∨ x = .otherwise := by
  have hcontinues := h.continues hkind
  revert hx hcontinues
  cases x <;> decide

theorem openBlocks_succ_of_divides (h : p.Adjacent i k) {x : Directive}
    (hkind : p.kind? k = some (.directive x)) (hx : x = .elseIf ∨ x = .otherwise) {opener : Nat}
    (hopen : p.openBlocks (i + 1) = ⟨opener, i⟩ :: around) :
    p.openBlocks (k + 1) = ⟨opener, k⟩ :: around := by
  rw [openBlocks_succ hkind, openBlocks_of_adjacent h, hopen]
  rcases hx with rfl | rfl <;> rfl

/-- Up to the end of the chain nothing changes around it. -/
theorem Chain.openBlocks_closer (hchain : p.Chain k members closer) (hadjacent : p.Adjacent i k)
    {opener : Nat} (hopen : p.openBlocks (i + 1) = ⟨opener, i⟩ :: around) :
    ∃ last, p.openBlocks closer = ⟨opener, last⟩ :: around := by
  induction hchain generalizing i with
  | closes => exact ⟨i, (openBlocks_of_adjacent hadjacent).trans hopen⟩
  | member hkind hx hnext _ ih =>
    exact ih hnext (openBlocks_succ_of_divides hadjacent hkind (hadjacent.divides hkind hx) hopen)

theorem Chain.kind_closer (hchain : p.Chain k members closer) :
    p.kind? closer = some (.directive .endIf) := by
  induction hchain with
  | closes hkind => exact hkind
  | member _ _ _ _ ih => exact ih

theorem Chain.le_closer (hchain : p.Chain k members closer) : k ≤ closer := by
  induction hchain with
  | closes => exact Nat.le_refl _
  | member _ _ hadjacent _ ih =>
    have := hadjacent.lt
    omega

theorem Chain.le_of_mem (hchain : p.Chain k members closer) : ∀ l ∈ members, k ≤ l := by
  induction hchain with
  | closes => simp
  | member _ _ hadjacent _ ih =>
    have hlt := hadjacent.lt
    refine List.forall_mem_cons.2 ⟨Nat.le_refl _, fun l hl => ?_⟩
    have hle := ih l hl
    omega

/-- A statement in a body of the chain stands in no other, and is no member. -/
theorem Chain.unique_branch (hchain : p.Chain k members closer) (h : p.Nested) {l j : Nat}
    (hl : l ∈ members) (hbranch : p.InBranch l j) :
    (∀ l' ∈ members, p.InBranch l' j → l' = l) ∧ j ∉ members ∧ j ≠ closer := by
  induction hchain with
  | closes => simp at hl
  | @member x k next closer members hkind hx hadjacent hrest ih =>
    have hle := hrest.le_of_mem
    have hcloser := hrest.le_closer
    have hlt := hadjacent.lt
    have hfirst : ∀ {j}, p.InBranch k j → k < j ∧ j < next := by
      rintro j ⟨next', hadjacent', hbehind, hbefore⟩
      obtain rfl := h.adjacent_unique hadjacent hadjacent'
      exact ⟨hbehind, hbefore⟩
    have hbehind : ∀ {l j}, l ∈ members → p.InBranch l j → next < j := by
      rintro l j hl ⟨next', -, hlj, -⟩
      have := hle l hl
      omega
    rcases List.mem_cons.1 hl with rfl | hl
    · obtain ⟨hkj, hjnext⟩ := hfirst hbranch
      refine ⟨List.forall_mem_cons.2 ⟨fun _ => rfl, fun l' hl' hbranch' => ?_⟩, fun hj => ?_, by omega⟩
      · have := hbehind hl' hbranch'
        omega
      · rcases List.mem_cons.1 hj with rfl | hj
        · omega
        · have := hle j hj
          omega
    · obtain ⟨hunique, hmember, hne⟩ := ih hl
      have hnext := hbehind hl hbranch
      refine ⟨List.forall_mem_cons.2 ⟨fun hbranch' => ?_, hunique⟩, fun hj => ?_, hne⟩
      · have := hfirst hbranch'
        omega
      · rcases List.mem_cons.1 hj with rfl | hj
        · omega
        · exact hmember hj

/-- The handlers of the attempts among the blocks lie behind `closer`. -/
def HandledBehind (p : Program) (closer : Nat) (blocks : List OpenBlock) : Prop :=
  ∀ b ∈ blocks, ∀ handler, p.Adjacent b.member handler →
    p.kind? handler = some (.directive .handler) → closer < handler

/-- What is around a chain has its handlers behind the chain. -/
theorem Chain.handledBehind (hchain : p.Chain k members closer) (hadjacent : p.Adjacent i k)
    {opener : Nat} (hopen : p.openBlocks (i + 1) = ⟨opener, i⟩ :: around) :
    p.HandledBehind closer around := by
  intro b hb handler hhandler hkind
  obtain ⟨last, hcloser⟩ := hchain.openBlocks_closer hadjacent hopen
  have hopen' : b ∈ p.openBlocks closer := hcloser ▸ List.mem_cons_of_mem _ hb
  have hle := le_of_adjacent hopen' hhandler
  have hne : closer ≠ handler := by
    rintro rfl
    simp [hchain.kind_closer] at hkind
  omega

/-! ## Places in a body -/

theorem innermost_or_inside (hopen : b :: around <:+ p.openBlocks pc) :
    p.openBlocks pc = b :: around ∨ ∃ c outer, p.openBlocks pc = c :: outer ∧ b :: around <:+ outer := by
  cases hblocks : p.openBlocks pc with
  | nil => simp [hblocks] at hopen
  | cons c outer =>
    rw [hblocks, List.suffix_cons_iff] at hopen
    rcases hopen with heq | hinside
    · exact .inl heq.symm
    · exact .inr ⟨c, outer, rfl, hinside⟩

section

variable (hopen : b :: around <:+ p.openBlocks pc) (hadjacent : p.Adjacent b.member next)

include hopen hadjacent

theorem mem_openBlocks_next : b ∈ p.openBlocks next := by
  rw [openBlocks_of_adjacent hadjacent, (openBlocks_of_suffix hopen).2]
  exact List.mem_cons_self

/-- In its body a block is continued by nothing. -/
theorem Nested.not_continues (h : p.Nested) (hinnermost : p.openBlocks pc = b :: around)
    (hbefore : pc < next) {y : Directive} (hkind : p.kind? pc = some (.directive y)) :
    y.continues = false := by
  rw [← Bool.not_eq_true]
  intro hcontinues
  obtain ⟨c, outer, hblocks, hnext⟩ := h.exists_innermost hkind hcontinues
  obtain ⟨rfl, rfl⟩ := List.cons.inj (hinnermost.symm.trans hblocks)
  have hle := le_of_adjacent (mem_openBlocks_next hopen hadjacent) hnext
  omega

/-- A target does not lead out of a body. -/
theorem Nested.target_le (h : p.Nested) (hbefore : pc < next) {t : Nat} (ht : p.target? pc = some t) :
    t ≤ next := by
  obtain ⟨hlt, hopen'⟩ := openBlocks_of_suffix hopen
  have hsuffix := h.suffix_of_adjacent hopen' hadjacent (Nat.lt_succ_of_lt hlt) hbefore
  have hmem : b ∈ p.openBlocks t := by
    rw [openBlocks_of_adjacent (h.adjacent_of_target ht).1]
    exact hsuffix.subset List.mem_cons_self
  exact le_of_adjacent hmem hadjacent

end

end Program

end SqlFlow
