import SqlFlow.Proofs.Targets

/-!
# The blocks that are open at a place of a program

Which blocks a statement stands in is a matter of the text alone: an opener begins a block, what
divides a block begins its next body, and what closes it ends it.

* `Program.openBlocks`: the open blocks before a statement, each with its opener and with the member
  that its present body began with.
* `openBlocks_of_suffix`: an open block has been the innermost one right behind its present member,
  inside the same outer ones.
* `Program.Nested`: the programs without an error, by what is used of them here.
* `openBlocks_of_adjacent`, `exists_innermost`, `shape`, `le_target`: in such a program the blocks that
  are open at the next member are those behind the member; what continues a block finds it innermost;
  a block has a present member of its own kind; and the place that this member leads to is not behind.
* `exists_mem_openBlocks_iff`: in terms of members alone, which bodies a statement stands in.
-/

namespace SqlFlow

/-- A block that is open, by the indices of two of its members. -/
structure OpenBlock where
  /-- The directive that opened the block. -/
  opener : Nat
  /-- The directive that the present body of the block began with. -/
  member : Nat
deriving DecidableEq, Repr

/-- The open blocks behind a directive with index `here`, by those before it. -/
def Directive.nest (x : Directive) (here : Nat) (blocks : List OpenBlock) : List OpenBlock :=
  match x with
  | .ifThen | .attempt | .attemptTransaction | .beginTransaction => ⟨here, here⟩ :: blocks
  | .elseIf | .otherwise | .handler => blocks.modifyHead fun b => { b with member := here }
  | .endIf | .endAttempt | .endTransaction => blocks.tail
  | .debug => blocks

/-- The same for any statement. -/
def StatementKind.nest (kind : StatementKind) (here : Nat) (blocks : List OpenBlock) :
    List OpenBlock :=
  match kind with
  | .directive x => x.nest here blocks
  | .sql | .invalid => blocks

/-- The open blocks behind a row of statements, the first of which has the index `here`. -/
def nestAll : List StatementKind → (here : Nat) → List OpenBlock → List OpenBlock
  | [], _, blocks => blocks
  | kind :: kinds, here, blocks => nestAll kinds (here + 1) (kind.nest here blocks)

/-- The open blocks before the statement with index `pc`, innermost first. -/
def Program.openBlocks (p : Program) (pc : Nat) : List OpenBlock := nestAll (p.kinds.take pc) 0 []

/-- A directive that divides and closes nothing leaves all blocks open. -/
theorem Directive.suffix_nest_of_quiet {x : Directive} (hx : x.continues = false) (here : Nat)
    (blocks : List OpenBlock) : blocks <:+ x.nest here blocks := by
  cases x with
  | debug => exact List.suffix_rfl
  | ifThen | attempt | attemptTransaction | beginTransaction => exact List.suffix_cons ..
  | elseIf | otherwise | endIf | handler | endAttempt | endTransaction => simp [continues] at hx

/-- One that does leaves those around the innermost one as they are. -/
theorem Directive.suffix_nest_of_continues {x : Directive} (hx : x.continues = true) (here : Nat)
    (b : OpenBlock) (outer : List OpenBlock) : outer <:+ x.nest here (b :: outer) := by
  cases x with
  | elseIf | otherwise | handler => exact List.suffix_cons ..
  | endIf | endAttempt | endTransaction => exact List.suffix_rfl
  | debug | ifThen | attempt | attemptTransaction | beginTransaction => simp [continues] at hx

theorem nestAll_append (ks ks' : List StatementKind) (here : Nat) (blocks : List OpenBlock) :
    nestAll (ks ++ ks') here blocks = nestAll ks' (here + ks.length) (nestAll ks here blocks) := by
  induction ks generalizing here blocks with
  | nil => rfl
  | cons kind ks ih => rw [List.cons_append, nestAll, ih, List.length_cons, nestAll,
      show here + 1 + ks.length = here + (ks.length + 1) from by omega]

namespace Program

variable {p : Program} {i j k pc : Nat}

theorem kind?_eq_getElem? (p : Program) (i : Nat) : p.kind? i = p.kinds[i]? := by
  rw [kinds, List.getElem?_map, Array.getElem?_toList]
  rfl

theorem length_kinds (p : Program) : p.kinds.length = p.size := by simp [kinds, size]

@[simp] theorem openBlocks_zero (p : Program) : p.openBlocks 0 = [] := by
  simp [openBlocks, nestAll]

theorem openBlocks_succ {kind : StatementKind} (h : p.kind? k = some kind) :
    p.openBlocks (k + 1) = kind.nest k (p.openBlocks k) := by
  have hlt : k < p.kinds.length := by
    rw [length_kinds]
    exact lt_size_of_kind? h
  rw [kind?_eq_getElem?] at h
  rw [openBlocks, List.take_add_one, h, nestAll_append, List.length_take, Nat.min_eq_left (by omega),
    Nat.zero_add]
  rfl

theorem openBlocks_succ_of_none (h : p.kind? k = none) : p.openBlocks (k + 1) = p.openBlocks k := by
  rw [kind?_eq_getElem?] at h
  rw [openBlocks, List.take_add_one, h, Option.toList_none, List.append_nil]
  rfl

/-- What one statement does to the open blocks. -/
theorem openBlocks_succ_cases (p : Program) (k : Nat) :
    p.openBlocks (k + 1) = p.openBlocks k ∨
    p.openBlocks (k + 1) = ⟨k, k⟩ :: p.openBlocks k ∨
    (∃ b outer, p.openBlocks k = b :: outer ∧ p.openBlocks (k + 1) = ⟨b.opener, k⟩ :: outer) ∨
    p.openBlocks (k + 1) = (p.openBlocks k).tail := by
  cases hk : p.kind? k with
  | none => exact .inl (openBlocks_succ_of_none hk)
  | some kind =>
    rw [openBlocks_succ hk]
    cases kind with
    | sql | invalid => exact .inl rfl
    | directive x =>
      cases x with
      | debug => exact .inl rfl
      | ifThen | attempt | attemptTransaction | beginTransaction => exact .inr (.inl rfl)
      | elseIf | otherwise | handler =>
        cases hblocks : p.openBlocks k with
        | nil => exact .inl rfl
        | cons b outer => exact .inr (.inr (.inl ⟨b, outer, rfl, rfl⟩))
      | endIf | endAttempt | endTransaction => exact .inr (.inr (.inr rfl))

/-! ## Blocks and the places they come from -/

/-- An open block with the ones around it was there before the last statement, or has that as its
present member. -/
theorem suffix_succ_cases {b : OpenBlock} {outer : List OpenBlock}
    (h : b :: outer <:+ p.openBlocks (k + 1)) :
    b :: outer <:+ p.openBlocks k ∨ b.member = k ∧ p.openBlocks (k + 1) = b :: outer ∧
      (b.opener = k ∧ outer = p.openBlocks k ∨ ∃ m, p.openBlocks k = ⟨b.opener, m⟩ :: outer) := by
  rcases openBlocks_succ_cases p k with hsame | hopen | ⟨b', outer', hbefore, hdivide⟩ | hclose
  · exact .inl (hsame ▸ h)
  · rw [hopen, List.suffix_cons_iff] at h
    rcases h with h | h
    · obtain ⟨rfl, rfl⟩ := List.cons.inj h
      exact .inr ⟨rfl, hopen, .inl ⟨rfl, rfl⟩⟩
    · exact .inl h
  · rw [hdivide, List.suffix_cons_iff] at h
    rcases h with h | h
    · obtain ⟨rfl, rfl⟩ := List.cons.inj h
      exact .inr ⟨rfl, hdivide, .inr ⟨b'.member, hbefore⟩⟩
    · exact .inl (hbefore ▸ h.trans (List.suffix_cons ..))
  · exact .inl ((hclose ▸ h).trans (List.tail_suffix _))

/-- An open block was the innermost one behind its present member, inside the same ones as now. -/
theorem openBlocks_of_suffix {b : OpenBlock} {outer : List OpenBlock}
    (h : b :: outer <:+ p.openBlocks k) : b.member < k ∧ p.openBlocks (b.member + 1) = b :: outer := by
  induction k with
  | zero => simp at h
  | succ k ih =>
    rcases suffix_succ_cases h with hold | ⟨rfl, hnew, -⟩
    · obtain ⟨hlt, hopen⟩ := ih hold
      exact ⟨by omega, hopen⟩
    · exact ⟨Nat.lt_succ_self _, hnew⟩

/-- An open block has been open, inside the same ones, ever since its present member. -/
theorem suffix_of_le {b : OpenBlock} {outer : List OpenBlock} (h : b :: outer <:+ p.openBlocks k)
    (hlt : b.member < j) (hle : j ≤ k) : b :: outer <:+ p.openBlocks j := by
  induction k with
  | zero => simp at h
  | succ k ih =>
    rcases Nat.eq_or_lt_of_le hle with rfl | hle
    · exact h
    rcases suffix_succ_cases h with hold | ⟨hmember, -, -⟩
    · exact ih hold (by omega)
    · omega

theorem exists_suffix {b : OpenBlock} (h : b ∈ p.openBlocks k) :
    ∃ outer, b :: outer <:+ p.openBlocks k := by
  obtain ⟨inner, outer, hsplit⟩ := List.append_of_mem h
  exact ⟨outer, inner, hsplit.symm⟩

theorem member_lt {b : OpenBlock} (h : b ∈ p.openBlocks k) : b.member < k := by
  obtain ⟨outer, hsuffix⟩ := exists_suffix h
  exact (openBlocks_of_suffix hsuffix).1

theorem opener_le_member {b : OpenBlock} (h : b ∈ p.openBlocks k) : b.opener ≤ b.member := by
  obtain ⟨outer, hsuffix⟩ := exists_suffix h
  clear h
  induction k generalizing b with
  | zero => simp at hsuffix
  | succ k ih =>
    rcases suffix_succ_cases hsuffix with hold | ⟨hmember, -, ⟨hopener, -⟩ | ⟨m, hbefore⟩⟩
    · exact ih hold
    · omega
    · -- the block had another member before, which is no earlier than its opener
      have hle : b.opener ≤ m := ih (b := ⟨b.opener, m⟩) (hbefore ▸ List.suffix_rfl)
      have hlt : m < k := member_lt (p := p) (b := ⟨b.opener, m⟩) (hbefore ▸ List.mem_cons_self)
      omega

/-- The blocks around an open block had their present members before it was opened. -/
theorem member_lt_opener {b c : OpenBlock} {outer : List OpenBlock}
    (h : b :: outer <:+ p.openBlocks k) (hc : c ∈ outer) : c.member < b.opener := by
  induction k generalizing b with
  | zero => simp at h
  | succ k ih =>
    rcases suffix_succ_cases h with hold | ⟨-, -, ⟨hopener, rfl⟩ | ⟨m, hbefore⟩⟩
    · exact ih hold
    · rw [hopener]
      exact member_lt hc
    · exact ih (b := ⟨b.opener, m⟩) (hbefore ▸ List.suffix_rfl)

end Program

/-! ## What phrases leave open -/

/-- How the open blocks behind a phrase differ from those before it: a block is closed again, and the
members of a chain leave it open. -/
def Phrase.Keeps : Phrase → List OpenBlock → List OpenBlock → Prop
  | .block, before, behind | .item, before, behind => behind = before
  | .elseIfs, before, behind | .otherwise, before, behind =>
    ∀ b outer, before = b :: outer → ∃ m, behind = ⟨b.opener, m⟩ :: outer

/-- A phrase leaves open what was open before it, wherever it stands. -/
theorem keeps_of_derives {phrase : Phrase} {w : List FragmentKind} (h : Derives phrase w) :
    ∀ (here : Nat) (blocks : List OpenBlock),
      phrase.Keeps blocks (nestAll (w.map FragmentKind.statementKind) here blocks) := by
  induction h with
  | nil | sql | debug => exact fun here blocks => rfl
  | cons hu hw ihu ihw =>
    intro here blocks
    rw [List.map_append, nestAll_append, ihu here blocks]
    exact ihw _ blocks
  | chain hu hv hw ihu ihv ihw =>
    intro here blocks
    simp only [List.map_cons, List.map_append, nestAll, nestAll_append]
    rw [ihu (here + 1) _]
    show (nestAll _ _ (nestAll _ _ (⟨here, here⟩ :: blocks))).tail = blocks
    obtain ⟨m, hm⟩ := ihv _ _ ⟨here, here⟩ blocks rfl
    rw [hm]
    obtain ⟨m', hm'⟩ := ihw _ _ ⟨here, m⟩ blocks rfl
    rw [hm']
    rfl
  | attempt transactional hu hv ihu ihv =>
    intro here blocks
    simp only [List.map_cons, List.map_append, nestAll, nestAll_append]
    rw [ihu (here + 1) _, ihv _ _]
    cases transactional <;> rfl
  | transaction hu ihu =>
    intro here blocks
    simp only [List.map_cons, List.map_append, nestAll, nestAll_append]
    rw [ihu (here + 1) _]
    rfl
  | noElseIf | noOtherwise =>
    rintro here blocks b outer rfl
    exact ⟨b.member, rfl⟩
  | elseIf hu hv ihu ihv =>
    rintro here blocks b outer rfl
    simp only [List.map_cons, List.map_append, nestAll, nestAll_append]
    rw [ihu (here + 1) _]
    exact ihv _ _ ⟨b.opener, here⟩ outer rfl
  | otherwise hu ihu =>
    rintro here blocks b outer rfl
    simp only [List.map_cons, nestAll]
    rw [ihu (here + 1) _]
    exact ⟨here, rfl⟩

theorem nestAll_of_spelt {kinds : List StatementKind} (h : Phrase.block.Spelt kinds) (here : Nat)
    (blocks : List OpenBlock) : nestAll kinds here blocks = blocks := by
  obtain ⟨w, hderives, rfl⟩ := h
  exact keeps_of_derives hderives here blocks

namespace Program

variable {p : Program} {i j k pc t : Nat}

/-- What is open at the next member is what is open behind the member. -/
theorem openBlocks_of_adjacent (h : p.Adjacent i j) : p.openBlocks j = p.openBlocks (i + 1) := by
  have hlt := h.lt
  have hsplit : p.kinds.take j = p.kinds.take (i + 1) ++ p.kindsBetween i j := by
    have hdrop := List.take_append_drop (i + 1) (p.kinds.take j)
    rw [List.take_take, Nat.min_eq_left (by omega)] at hdrop
    exact hdrop.symm
  rw [openBlocks, hsplit, nestAll_append, nestAll_of_spelt h.between]
  rfl

/-- A block is not open behind the member that comes after its present one. -/
theorem le_of_adjacent {b : OpenBlock} (hb : b ∈ p.openBlocks k)
    (hadjacent : p.Adjacent b.member j) : k ≤ j := by
  refine Nat.le_of_not_lt fun hlt => ?_
  obtain ⟨outer, hsuffix⟩ := exists_suffix hb
  have hsucc := suffix_of_le hsuffix (j := j + 1) (Nat.lt_succ_of_lt hadjacent.lt) hlt
  have hopen := openBlocks_of_adjacent hadjacent
  rw [(openBlocks_of_suffix hsuffix).2] at hopen
  -- behind `j` the block has `j` as its member or is closed, and it cannot be among the outer ones
  obtain ⟨x, y, -, hy, hfollows, -⟩ := hadjacent.members
  rw [openBlocks_succ hy, hopen] at hsucc
  have hne : ⟨b.opener, j⟩ ≠ b := fun heq => by
    have hmember : j = b.member := congrArg OpenBlock.member heq
    exact absurd hadjacent.lt (by omega)
  have hlength := hsucc.length_le
  cases y with
  | elseIf | otherwise | handler =>
    obtain ⟨heq, -⟩ := List.cons.inj (hsucc.eq_of_length rfl)
    exact hne heq.symm
  | endIf | endAttempt | endTransaction => exact absurd hlength (Nat.not_succ_le_self _)
  | debug | ifThen | attempt | attemptTransaction | beginTransaction =>
    exact absurd (Directive.continues_of_mem_followers hfollows) (by decide)

/-- A block is innermost at the next member. -/
theorem innermost_of_adjacent {b : OpenBlock} (hb : b ∈ p.openBlocks k)
    (hadjacent : p.Adjacent b.member k) : ∃ outer, p.openBlocks k = b :: outer := by
  obtain ⟨outer, hsuffix⟩ := exists_suffix hb
  exact ⟨outer, (openBlocks_of_adjacent hadjacent).trans (openBlocks_of_suffix hsuffix).2⟩

/-! ## Programs without an error -/

/-- The properties of a program without an error that are used of it here. -/
structure Nested (p : Program) : Prop where
  wired : Wired p 0 0 p.size
  spelt : Phrase.block.Spelt p.kinds

theorem nested_assemble {d : Dialect} {fragments : List Fragment}
    (h : (assemble d fragments).error? = none) : Nested (assemble d fragments) where
  wired := wired_assemble h
  spelt := by
    obtain ⟨ts, rfl, hconditioned⟩ := exists_trees_of_error?_eq_none h
    rw [assemble_flattenAll hconditioned]
    exact spelt_codeAll ts 0

namespace Nested

/-- Nothing is open at the end. -/
theorem openBlocks_size (h : p.Nested) : p.openBlocks p.size = [] := by
  rw [openBlocks, List.take_of_length_le (Nat.le_of_eq p.length_kinds), nestAll_of_spelt h.spelt]

/-- A target is the next member. -/
theorem adjacent_of_target (h : p.Nested) (ht : p.target? i = some t) :
    p.Adjacent i t ∧ t < p.size := by
  obtain ⟨s, hget, -⟩ := Option.bind_eq_some_iff.1 ht
  exact (h.wired.onward (Nat.zero_le i) (lt_size_of_get? hget)).of_target ht

/-- A directive that branches has a target. -/
theorem exists_target (h : p.Nested) {x : Directive} (hkind : p.kind? i = some (.directive x))
    (hx : x.branches = true) : ∃ t, p.target? i = some t := by
  cases h.wired.onward (Nat.zero_le i) (lt_size_of_kind? hkind) with
  | @next j hadjacent hlt =>
    obtain ⟨x', y, hkind', -, -, htarget⟩ := hadjacent.members
    obtain rfl : x = x' := StatementKind.directive.inj (Option.some.inj (hkind.symm.trans hkind'))
    exact ⟨j, by rw [htarget, if_pos hx]⟩
  | last hlast htarget =>
    exact absurd (hlast x hkind) (Directive.followers_ne_nil_of_branches hx)

/-- What divides or closes a block finds it innermost, and is the next member behind the present one. -/
theorem exists_innermost (h : p.Nested) {y : Directive} (hkind : p.kind? k = some (.directive y))
    (hy : y.continues = true) :
    ∃ b outer, p.openBlocks k = b :: outer ∧ p.Adjacent b.member k := by
  induction k using Nat.strongRecOn generalizing y with
  | ind k ih =>
    obtain ⟨i, hadjacent⟩ := h.wired.back (Nat.zero_le k) (lt_size_of_kind? hkind) hkind hy
    obtain ⟨x, y', hx, -, hfollows, -⟩ := hadjacent.members
    have hopen := openBlocks_of_adjacent hadjacent
    rw [openBlocks_succ hx] at hopen
    cases x with
    | ifThen | attempt | attemptTransaction | beginTransaction => exact ⟨_, _, hopen, hadjacent⟩
    | elseIf | otherwise | handler =>
      -- the previous member divides the block, so it was open before that already
      obtain ⟨b, outer, hbefore, -⟩ := ih i hadjacent.lt hx rfl
      rw [hbefore] at hopen
      exact ⟨_, _, hopen, hadjacent⟩
    | debug | endIf | endAttempt | endTransaction => simp [Directive.followers] at hfollows

/-- The present body of an open block goes on up to its next member. -/
theorem le_target (h : p.Nested) {b : OpenBlock} (hb : b ∈ p.openBlocks k)
    (ht : p.target? b.member = some t) : k ≤ t :=
  le_of_adjacent hb (h.adjacent_of_target ht).1

end Nested

/-- What an open block is, by its members. -/
inductive Shape (p : Program) : OpenBlock → Prop where
  | chain {b : OpenBlock} {x : Directive} (hopener : p.kind? b.opener = some (.directive .ifThen))
      (hmember : p.kind? b.member = some (.directive x))
      (hx : x ∈ [Directive.ifThen, .elseIf, .otherwise]) : Shape p b
  | body {b : OpenBlock} (transactional : Bool)
      (hopener : p.kind? b.opener = some (.directive (.attemptOf transactional)))
      (hmember : b.member = b.opener) : Shape p b
  | handler {b : OpenBlock} (transactional : Bool)
      (hopener : p.kind? b.opener = some (.directive (.attemptOf transactional)))
      (htarget : p.target? b.opener = some b.member)
      (hmember : p.kind? b.member = some (.directive .handler)) : Shape p b
  | transaction {b : OpenBlock} (hopener : p.kind? b.opener = some (.directive .beginTransaction))
      (hmember : b.member = b.opener) : Shape p b

theorem Adjacent.of_kind {y : Directive} (h : p.Adjacent i j)
    (hkind : p.kind? j = some (.directive y)) :
    ∃ x, p.kind? i = some (.directive x) ∧ y ∈ x.followers ∧
      p.target? i = if x.branches then some j else none := by
  obtain ⟨x, y', hx, hy, hfollows, htarget⟩ := h.members
  obtain rfl : y = y' := StatementKind.directive.inj (Option.some.inj (hkind.symm.trans hy))
  exact ⟨x, hx, hfollows, htarget⟩

/-- A block that is opened has its opener for a member. -/
theorem Shape.opens {x : Directive} (hkind : p.kind? k = some (.directive x))
    (hx : x ∈ [Directive.ifThen, .attempt, .attemptTransaction, .beginTransaction]) :
    p.Shape ⟨k, k⟩ := by
  cases x with
  | ifThen => exact .chain hkind hkind (by decide)
  | attempt => exact .body false hkind rfl
  | attemptTransaction => exact .body true hkind rfl
  | beginTransaction => exact .transaction hkind rfl
  | debug | elseIf | otherwise | endIf | handler | endAttempt | endTransaction => simp at hx

/-- A block that is divided keeps its opener and has a new member. -/
theorem Shape.divide {b : OpenBlock} {y : Directive} (h : p.Shape b) (hadjacent : p.Adjacent b.member k)
    (hkind : p.kind? k = some (.directive y)) (hy : y ∈ [Directive.elseIf, .otherwise, .handler]) :
    p.Shape ⟨b.opener, k⟩ := by
  obtain ⟨x, hx, hfollows, htarget⟩ := hadjacent.of_kind hkind
  cases h with
  | chain hopener hmember hmem =>
    obtain rfl := StatementKind.directive.inj (Option.some.inj (hx.symm.trans hmember))
    refine .chain hopener hkind ?_
    revert hmem hfollows hy
    cases x <;> cases y <;> decide
  | body transactional hopener hmember =>
    rw [hmember] at hx htarget
    obtain rfl := StatementKind.directive.inj (Option.some.inj (hx.symm.trans hopener))
    rw [Directive.branches_attemptOf, if_pos rfl] at htarget
    obtain rfl : y = .handler := by cases transactional <;> exact List.mem_singleton.1 hfollows
    exact .handler transactional hopener htarget hkind
  | handler transactional hopener htarget' hmember =>
    obtain rfl := StatementKind.directive.inj (Option.some.inj (hx.symm.trans hmember))
    obtain rfl : y = .endAttempt := List.mem_singleton.1 hfollows
    simp at hy
  | transaction hopener hmember =>
    rw [hmember] at hx
    obtain rfl := StatementKind.directive.inj (Option.some.inj (hx.symm.trans hopener))
    obtain rfl : y = .endTransaction := List.mem_singleton.1 hfollows
    simp at hy

namespace Nested

theorem shape (h : p.Nested) {b : OpenBlock} (hb : b ∈ p.openBlocks k) : p.Shape b := by
  induction k generalizing b with
  | zero => simp at hb
  | succ k ih =>
    cases hk : p.kind? k with
    | none => exact ih (openBlocks_succ_of_none hk ▸ hb)
    | some kind =>
      rw [openBlocks_succ hk] at hb
      cases kind with
      | sql | invalid => exact ih hb
      | directive x =>
        cases x with
        | debug => exact ih hb
        | endIf | endAttempt | endTransaction => exact ih (List.mem_of_mem_tail hb)
        | ifThen | attempt | attemptTransaction | beginTransaction =>
          rcases List.mem_cons.1 hb with rfl | hb
          · exact .opens hk (by decide)
          · exact ih hb
        | elseIf | otherwise | handler =>
          obtain ⟨b', outer, hbefore, hadjacent⟩ := h.exists_innermost hk rfl
          rw [hbefore] at hb ih
          rcases List.mem_cons.1 hb with rfl | hb
          · exact (ih List.mem_cons_self).divide hadjacent hk (by decide)
          · exact ih (List.mem_cons_of_mem _ hb)

/-! ## Open blocks by their members -/

/-- The present member of an open block has a next one. -/
theorem exists_adjacent (h : p.Nested) {b : OpenBlock} (hb : b ∈ p.openBlocks k) :
    ∃ j, p.Adjacent b.member j := by
  have hkind : ∃ x, p.kind? b.member = some (.directive x) ∧ x.followers ≠ [] := by
    cases h.shape hb with
    | chain hopener hmember hx => exact ⟨_, hmember, by revert hx; cases ‹Directive› <;> decide⟩
    | body transactional hopener hmember =>
      exact ⟨_, hmember ▸ hopener, by cases transactional <;> decide⟩
    | handler transactional hopener htarget hmember => exact ⟨_, hmember, by decide⟩
    | transaction hopener hmember => exact ⟨_, hmember ▸ hopener, by decide⟩
  obtain ⟨x, hx, hfollowers⟩ := hkind
  cases h.wired.onward (Nat.zero_le _) (lt_size_of_kind? hx) with
  | next hadjacent hlt => exact ⟨_, hadjacent⟩
  | last hlast htarget => exact absurd (hlast x hx) hfollowers

/-- Behind a member with a next one its block is innermost. -/
theorem exists_innermost_succ (h : p.Nested) (hadjacent : p.Adjacent i j) :
    ∃ b outer, p.openBlocks (i + 1) = b :: outer ∧ b.member = i := by
  obtain ⟨x, y, hx, -, hfollows, -⟩ := hadjacent.members
  rw [openBlocks_succ hx]
  cases x with
  | ifThen | attempt | attemptTransaction | beginTransaction => exact ⟨_, _, rfl, rfl⟩
  | elseIf | otherwise | handler =>
    obtain ⟨b, outer, hbefore, -⟩ := h.exists_innermost hx rfl
    rw [hbefore]
    exact ⟨_, _, rfl, rfl⟩
  | debug | endIf | endAttempt | endTransaction => simp [Directive.followers] at hfollows

/-- A block stays open up to the next member. -/
theorem suffix_of_adjacent (h : p.Nested) {b : OpenBlock} {outer : List OpenBlock}
    (hopen : p.openBlocks (b.member + 1) = b :: outer) (hadjacent : p.Adjacent b.member j)
    (hlt : b.member < k) (hle : k ≤ j) : b :: outer <:+ p.openBlocks k := by
  induction k with
  | zero => omega
  | succ k ih =>
    rcases Nat.eq_or_lt_of_le (Nat.le_of_lt_succ hlt) with rfl | hlt
    · exact ⟨[], hopen.symm⟩
    replace ih := ih hlt (by omega)
    cases hk : p.kind? k with
    | none => rwa [openBlocks_succ_of_none hk]
    | some kind =>
      rw [openBlocks_succ hk]
      cases kind with
      | sql | invalid => exact ih
      | directive y =>
        cases hy : y.continues with
        | false => exact ih.trans (Directive.suffix_nest_of_quiet hy k _)
        | true =>
          -- what stands here continues another block, which is inside this one
          obtain ⟨b', outer', hbefore, hadjacent'⟩ := h.exists_innermost hk hy
          rw [hbefore] at ih ⊢
          rcases List.suffix_cons_iff.1 ih with heq | hinside
          · obtain ⟨rfl, rfl⟩ := List.cons.inj heq
            have hb : b ∈ p.openBlocks j := by
              rw [openBlocks_of_adjacent hadjacent, hopen]
              exact List.mem_cons_self
            have := le_of_adjacent hb hadjacent'
            omega
          · exact hinside.trans (Directive.suffix_nest_of_continues hy k b' outer')

/-- The open blocks are those between a member of which and the next one the statement stands, the next
one included. -/
theorem exists_mem_openBlocks_iff (h : p.Nested) :
    (∃ b ∈ p.openBlocks k, b.member = i) ↔ ∃ j, p.Adjacent i j ∧ i < k ∧ k ≤ j := by
  constructor
  · rintro ⟨b, hb, rfl⟩
    obtain ⟨j, hadjacent⟩ := h.exists_adjacent hb
    exact ⟨j, hadjacent, member_lt hb, le_of_adjacent hb hadjacent⟩
  · rintro ⟨j, hadjacent, hlt, hle⟩
    obtain ⟨b, outer, hopen, rfl⟩ := h.exists_innermost_succ hadjacent
    have hsuffix := h.suffix_of_adjacent hopen hadjacent hlt hle
    exact ⟨b, hsuffix.subset List.mem_cons_self, rfl⟩

end Nested

end Program

end SqlFlow
