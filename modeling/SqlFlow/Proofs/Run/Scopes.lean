import Mathlib.Data.List.Forall2
import SqlFlow.Database.Rehearsal
import SqlFlow.Proofs.Enclosure
import SqlFlow.Proofs.Run.Store
import SqlFlow.Run

/-!
# Scopes and open blocks

While a program without an error is run, the scopes of the machine are those of the blocks that are
open before the statement that comes next.

* `Program.Scoped`: a scope is that of an open block.
* `Program.Fits`: so are all scopes, before a statement. What a scope says of how far its block has come
  may be out of date only where the block is continued.
* `Continued`: the innermost block and its scope where a directive continues the block.
* `lands_step`, `advances_unwind`, `advances_dispatch`: what a statement makes of scopes that fit, what
  becomes of those that are left if it fails, and the two together.
* `Program.Arrives`: a run gets to a statement.

The scopes never need to be looked for: a directive finds that of its own block innermost.
-/

namespace SqlFlow

/-! ## The scope of a block -/

/-- The scope of an open block. It says that a body of the chain has been entered, or whether the
handler of the attempt has been, as the present body of the block wants it if `inside`. -/
inductive Program.Scoped (p : Program) (inside : Prop) : OpenBlock → Scope → Prop where
  | conditional {b : OpenBlock} {taken : Bool} (hopener : p.kind? b.opener = some (.directive .ifThen))
      (htaken : inside → taken = true) : Scoped p inside b (.conditional taken)
  | attempt {b : OpenBlock} {transactional handling : Bool} {handler : Nat}
      (hopener : p.kind? b.opener = some (.directive (.attemptOf transactional)))
      (htarget : p.target? b.opener = some handler)
      (hhandling : inside → handling = decide (b.member ≠ b.opener)) :
      Scoped p inside b (.attempt transactional handler handling)
  | transaction {b : OpenBlock} (hopener : p.kind? b.opener = some (.directive .beginTransaction)) :
      Scoped p inside b .transaction

namespace Program

variable {p : Program} {pc next : Nat} {b : OpenBlock} {s : Scope} {blocks : List OpenBlock}
  {scopes : List Scope}

theorem Scoped.mono {inside inside' : Prop} (h : p.Scoped inside b s) (himp : inside' → inside) :
    p.Scoped inside' b s := by
  cases h with
  | conditional hopener htaken => exact .conditional hopener fun hinside => htaken (himp hinside)
  | attempt hopener htarget hhandling =>
    exact .attempt hopener htarget fun hinside => hhandling (himp hinside)
  | transaction hopener => exact .transaction hopener

/-- The scopes are those of the blocks. -/
def Settled (p : Program) (blocks : List OpenBlock) (scopes : List Scope) : Prop :=
  List.Forall₂ (p.Scoped True) blocks scopes

/-- The scopes are those of the blocks that are open before the statement `pc`. Where a body ends, so
that the statement is the next member, it does not matter whether the body has been entered. -/
def Fits (p : Program) (pc : Nat) (scopes : List Scope) : Prop :=
  List.Forall₂ (fun b s => p.Scoped (p.target? b.member ≠ some pc) b s) (p.openBlocks pc) scopes

/-- No body of the blocks ends at the statement `pc`. -/
def Within (p : Program) (pc : Nat) (blocks : List OpenBlock) : Prop :=
  ∀ b ∈ blocks, p.target? b.member ≠ some pc

theorem Settled.fits (h : p.Settled (p.openBlocks pc) scopes) : p.Fits pc scopes :=
  h.imp fun _ _ hscoped => hscoped.mono fun _ => trivial

theorem Fits.settled (h : p.Fits pc scopes) (hwithin : p.Within pc (p.openBlocks pc)) :
    p.Settled (p.openBlocks pc) scopes := by
  have hboth := (List.forall₂_and_left _ _).2 ⟨hwithin, h⟩
  exact hboth.imp fun _ _ ⟨hne, hscoped⟩ => hscoped.mono fun _ => hne

section

variable {inside : Prop} (h : p.Scoped inside b s)

include h

theorem Scoped.exists_conditional (hkind : p.kind? b.opener = some (.directive .ifThen)) :
    ∃ taken, s = .conditional taken := by
  cases h with
  | conditional => exact ⟨_, rfl⟩
  | attempt hopener | transaction hopener => simp [hkind] at hopener

theorem Scoped.exists_attempt {transactional : Bool}
    (hkind : p.kind? b.opener = some (.directive (.attemptOf transactional))) :
    ∃ handler handling, s = .attempt transactional handler handling ∧
      p.target? b.opener = some handler := by
  cases h with
  | conditional hopener | transaction hopener => simp [hopener] at hkind
  | @attempt transactional' handling handler hopener htarget =>
    obtain rfl : transactional' = transactional := by simpa [hopener] using hkind
    exact ⟨handler, handling, rfl, htarget⟩

theorem Scoped.eq_transaction (hkind : p.kind? b.opener = some (.directive .beginTransaction)) :
    s = .transaction := by
  cases h with
  | conditional hopener | attempt hopener => simp [hkind] at hopener
  | transaction => rfl

end

/-- At a target the body of the innermost block ends, so nothing is asked of what its scope says. -/
theorem Nested.fits_at_target (h : p.Nested) {i t : Nat} (ht : p.target? i = some t)
    {outer : List OpenBlock} (hblocks : p.openBlocks (i + 1) = b :: outer) (hmember : b.member = i)
    (hscoped : p.Scoped False b s) (hsettled : p.Settled outer scopes) : p.Fits t (s :: scopes) := by
  have hends : p.target? b.member = some t := hmember ▸ ht
  rw [Fits, openBlocks_of_adjacent (h.adjacent_of_target ht).1, hblocks]
  refine .cons (hscoped.mono fun hne => hne hends) ?_
  exact hsettled.imp fun _ _ hc => hc.mono fun _ => trivial

/-! ## Where a block is continued -/

/-- The innermost block, and its scope, where a directive divides or closes it. -/
inductive Continued (p : Program) (pc : Nat) : Directive → OpenBlock → Scope → Prop where
  | chain {y : Directive} {b : OpenBlock} {taken : Bool}
      (hy : y ∈ [Directive.elseIf, .otherwise, .endIf])
      (hopener : p.kind? b.opener = some (.directive .ifThen)) : Continued p pc y b (.conditional taken)
  | handler {b : OpenBlock} {transactional handling : Bool}
      (hopener : p.kind? b.opener = some (.directive (.attemptOf transactional)))
      (htarget : p.target? b.opener = some pc) (hmember : b.member = b.opener) :
      Continued p pc .handler b (.attempt transactional pc handling)
  | endAttempt {b : OpenBlock} {transactional handling : Bool} {handler : Nat} :
      Continued p pc .endAttempt b (.attempt transactional handler handling)
  | endTransaction {b : OpenBlock} : Continued p pc .endTransaction b .transaction

theorem Scoped.continued {inside : Prop} {y : Directive} (h : p.Scoped inside b s) (hshape : p.Shape b)
    (hadjacent : p.Adjacent b.member pc) (hkind : p.kind? pc = some (.directive y)) :
    Continued p pc y b s := by
  obtain ⟨x, hx, hfollows, htarget⟩ := hadjacent.of_kind hkind
  cases hshape with
  | chain hopener hmember hmem =>
    obtain rfl := StatementKind.directive.inj (Option.some.inj (hx.symm.trans hmember))
    obtain ⟨taken, rfl⟩ := h.exists_conditional hopener
    refine .chain ?_ hopener
    revert hmem hfollows
    cases x <;> cases y <;> decide
  | body transactional hopener hmember =>
    rw [hmember] at hx htarget
    obtain rfl := StatementKind.directive.inj (Option.some.inj (hx.symm.trans hopener))
    obtain rfl : y = .handler := by cases transactional <;> exact List.mem_singleton.1 hfollows
    rw [Directive.branches_attemptOf, if_pos rfl] at htarget
    obtain ⟨handler, handling, rfl, hhandler⟩ := h.exists_attempt hopener
    obtain rfl : handler = pc := Option.some.inj (hhandler.symm.trans htarget)
    exact .handler hopener htarget hmember
  | handler transactional hopener htarget' hmember =>
    obtain rfl := StatementKind.directive.inj (Option.some.inj (hx.symm.trans hmember))
    obtain rfl : y = .endAttempt := List.mem_singleton.1 hfollows
    obtain ⟨handler, handling, rfl, -⟩ := h.exists_attempt hopener
    exact .endAttempt
  | transaction hopener hmember =>
    rw [hmember] at hx
    obtain rfl := StatementKind.directive.inj (Option.some.inj (hx.symm.trans hopener))
    obtain rfl : y = .endTransaction := List.mem_singleton.1 hfollows
    obtain rfl := h.eq_transaction hopener
    exact .endTransaction

/-- Only the body of the innermost block can end at a statement. -/
theorem Nested.within_outer (h : p.Nested) {outer : List OpenBlock}
    (hblocks : p.openBlocks pc = b :: outer) : p.Within pc outer := by
  intro c hc htarget
  have hadjacent := (h.adjacent_of_target htarget).1
  obtain ⟨outer', hc'⟩ := innermost_of_adjacent (hblocks ▸ List.mem_cons_of_mem b hc) hadjacent
  obtain ⟨rfl, rfl⟩ := List.cons.inj (hblocks.symm.trans hc')
  have hlt : b.member < b.opener := member_lt_opener ⟨[], hblocks.symm⟩ hc
  have hle : b.opener ≤ b.member := opener_le_member (k := pc) (hblocks ▸ List.mem_cons_self)
  omega

/-- No body ends at a statement that divides and closes nothing. -/
theorem Nested.within_of_kind (h : p.Nested) {kind : StatementKind} (hkind : p.kind? pc = some kind)
    (hquiet : ∀ y, kind = .directive y → y.continues = false) : p.Within pc (p.openBlocks pc) := by
  intro b _ htarget
  obtain ⟨x, y, -, hy, hfollows, -⟩ := (h.adjacent_of_target htarget).1.members
  have hfalse := hquiet y (Option.some.inj (hkind.symm.trans hy))
  simp [Directive.continues_of_mem_followers hfollows] at hfalse

theorem Fits.exists_continued (hfits : p.Fits pc scopes) (h : p.Nested) {y : Directive}
    (hkind : p.kind? pc = some (.directive y)) (hy : y.continues = true) :
    ∃ b outer s rest, p.openBlocks pc = b :: outer ∧ scopes = s :: rest ∧ Continued p pc y b s ∧
      p.Settled outer rest ∧ p.Within pc outer := by
  obtain ⟨b, outer, hblocks, hadjacent⟩ := h.exists_innermost hkind hy
  have hshape : p.Shape b := h.shape (k := pc) (hblocks ▸ List.mem_cons_self)
  have hwithin := h.within_outer hblocks
  rw [Fits, hblocks, List.forall₂_cons_left_iff] at hfits
  obtain ⟨s, rest, hscoped, hrest, rfl⟩ := hfits
  have hsettled : p.Settled outer rest :=
    ((List.forall₂_and_left _ _).2 ⟨hwithin, hrest⟩).imp fun _ _ ⟨hne, hc⟩ => hc.mono fun _ => hne
  exact ⟨b, outer, s, rest, hblocks, rfl, hscoped.continued hshape hadjacent hkind, hsettled, hwithin⟩

end Program

/-! ## Statements -/

namespace Machine

variable {σ : Type}

theorem Tracks.scopes {α ε : Type} {m : Machine σ} {r : Except ε α × Machine σ}
    {q : Except ε α × Store σ} (h : Tracks m r q) : r.2.scopes = m.scopes := by
  obtain ⟨m', rfl, -, hscopes⟩ := h
  exact hscopes

variable [Connection σ] {p : Program} {pc : Nat} {m : Machine σ}

theorem scopes_of_transact {n : Machine σ} {call : TransactionCall} {answer : Except Failure Unit}
    (h : m.transact call = (answer, n)) : n.scopes = m.scopes := by
  have hscopes := (tracks_transact m call).scopes
  rwa [h] at hscopes

/-- What may come of a statement in scopes that fit. The run goes on further down, in scopes that fit
there; or it fails, and it comes to leaving the scopes of blocks none of whose bodies ends here. -/
inductive Lands (p : Program) (pc : Nat) : Except Failure Nat × Machine σ → Prop where
  | ok {next : Nat} {m : Machine σ} (hlt : pc < next) (hle : next ≤ p.size)
      (hfits : p.Fits next m.scopes) : Lands p pc (.ok next, m)
  | error {failure : Failure} {m : Machine σ} {blocks : List OpenBlock} {scopes : List Scope}
      (hsuffix : blocks <:+ p.openBlocks pc) (hwithin : p.Within pc blocks)
      (hsettled : p.Settled blocks scopes)
      (hunwind : unwind p failure m m.scopes = unwind p failure m scopes) :
      Lands p pc (.error failure, m)

theorem Lands.fail (hfits : p.Fits pc m.scopes) (hwithin : p.Within pc (p.openBlocks pc))
    (failure : Failure) : Lands p pc (.error failure, m) :=
  .error List.suffix_rfl hwithin (hfits.settled hwithin) rfl

theorem Lands.next {kind : StatementKind} (hkind : p.kind? pc = some kind)
    (hsettled : p.Settled (kind.nest pc (p.openBlocks pc)) m.scopes) :
    Lands p pc (.ok (pc + 1), m) := by
  rw [← Program.openBlocks_succ hkind] at hsettled
  exact .ok (Nat.lt_succ_self pc) (Program.lt_size_of_kind? hkind) hsettled.fits

theorem Lands.jump (h : p.Nested) {t : Nat} (ht : p.target? pc = some t) {b : OpenBlock}
    {outer : List OpenBlock} (hblocks : p.openBlocks (pc + 1) = b :: outer) (hmember : b.member = pc)
    {s : Scope} {rest : List Scope} (hscoped : p.Scoped False b s) (hsettled : p.Settled outer rest)
    (hscopes : m.scopes = s :: rest) : Lands p pc (.ok t, m) := by
  obtain ⟨hadjacent, hlt⟩ := h.adjacent_of_target ht
  refine .ok hadjacent.lt (Nat.le_of_lt hlt) ?_
  rw [hscopes]
  exact h.fits_at_target ht hblocks hmember hscoped hsettled

theorem lands_goOn {next : Nat} {scopes : List Scope} {r : Except Failure Unit × Machine σ}
    {after : Machine σ → Machine σ} (hr : r.2.scopes = scopes)
    (hok : ∀ n : Machine σ, n.scopes = scopes → Lands p pc (.ok next, after n))
    (herror : ∀ failure (n : Machine σ), n.scopes = scopes → Lands p pc (.error failure, n)) :
    Lands p pc (goOn next after r) := by
  obtain ⟨failure | _, n⟩ := r
  · exact herror failure n hr
  · exact hok n hr

theorem lands_branch {member : Directive} {s : Statement} {target : Nat}
    {enter : Bool → Machine σ → Machine σ}
    (hok : ∀ taken (n : Machine σ), n.scopes = m.scopes →
      Lands p pc (.ok (if taken then pc + 1 else target), enter taken n))
    (herror : ∀ failure (n : Machine σ), n.scopes = m.scopes → Lands p pc (.error failure, n)) :
    Lands p pc (m.branch member s pc target enter) := by
  have hscopes := (tracks_evaluate m s.line s.text).scopes
  rw [branch]
  rcases hq : m.evaluate s.line s.text with ⟨failure | taken, n⟩ <;> rw [hq] at hscopes
  · exact herror failure n hscopes
  · exact hok taken _ hscopes

/-- A directive that neither divides nor closes a block. -/
theorem lands_direct_of_quiet (h : p.Nested) (hfits : p.Fits pc m.scopes) {s : Statement}
    {x : Directive} (hget : p.get? pc = some s) (hs : s.kind = .directive x)
    (hx : x.continues = false) : Lands p pc (m.direct x s pc (s.target.getD p.size)) := by
  have hkind : p.kind? pc = some (.directive x) := by rw [Program.kind?_of_get? hget, hs]
  have hwithin := h.within_of_kind hkind fun y hy => StatementKind.directive.inj hy ▸ hx
  have hsettled := hfits.settled hwithin
  have hfail : ∀ failure (n : Machine σ), n.scopes = m.scopes → Lands p pc (.error failure, n) :=
    fun failure n hn => .fail (hn ▸ hfits) hwithin failure
  cases x with
  | debug => exact .next hkind hsettled
  | ifThen =>
    obtain ⟨t, ht⟩ := h.exists_target hkind rfl
    rw [← Program.target?_of_get? hget, ht]
    simp only [direct, Option.getD_some]
    refine lands_branch (fun taken n hn => ?_) hfail
    cases taken with
    | true =>
      refine .next hkind (.cons (.conditional hkind fun _ => rfl) ?_)
      rwa [hn]
    | false =>
      -- the chain is entered all the same, and its next member is looked at
      have hscoped : p.Scoped False ⟨pc, pc⟩ (.conditional false) := .conditional hkind nofun
      exact .jump h ht (Program.openBlocks_succ hkind) rfl hscoped hsettled (by rw [scopes_enter, hn])
  | attempt =>
    obtain ⟨t, ht⟩ := h.exists_target hkind rfl
    rw [← Program.target?_of_get? hget, ht]
    have hscoped : p.Scoped True ⟨pc, pc⟩ (.attempt false t false) := .attempt hkind ht (by simp)
    exact .next hkind (.cons hscoped hsettled)
  | attemptTransaction =>
    obtain ⟨t, ht⟩ := h.exists_target hkind rfl
    rw [← Program.target?_of_get? hget, ht]
    have hscoped : p.Scoped True ⟨pc, pc⟩ (.attempt true t false) := .attempt hkind ht (by simp)
    simp only [direct]
    refine lands_goOn (tracks_transact m .begin).scopes (fun n hn => .next hkind ?_) hfail
    rw [scopes_enter, hn]
    exact .cons hscoped hsettled
  | beginTransaction =>
    simp only [direct]
    refine lands_goOn (tracks_transact m .begin).scopes (fun n hn => .next hkind ?_) hfail
    rw [scopes_enter, hn]
    exact .cons (.transaction hkind) hsettled
  | elseIf | otherwise | endIf | handler | endAttempt | endTransaction =>
    simp [Directive.continues] at hx

section

variable {x : Directive} {b : OpenBlock} {outer : List OpenBlock} {rest : List Scope}
  (hkind : p.kind? pc = some (.directive x)) (hblocks : p.openBlocks pc = b :: outer)
  (hsettled : p.Settled outer rest)

include hkind hblocks hsettled

/-- Behind its last member a block is left. -/
theorem Lands.leave (hx : x ∈ [Directive.endIf, .endAttempt, .endTransaction]) (hscopes : m.scopes = rest) :
    Lands p pc (.ok (pc + 1), m) := by
  have hnest : (StatementKind.directive x).nest pc (b :: outer) = outer := by
    revert hx
    cases x <;> first | exact fun _ => rfl | (intro hx; simp at hx)
  refine .next hkind ?_
  rwa [hblocks, hnest, hscopes]

/-- A commit is made outside the scope, so a failure leaves no more than what is around it. -/
theorem lands_commit (hx : x ∈ [Directive.endIf, .endAttempt, .endTransaction])
    (hwithin : p.Within pc outer) (hscopes : m.leave.scopes = rest) :
    Lands p pc (goOn (pc + 1) id m.leave.commit) := by
  have hsuffix : outer <:+ p.openBlocks pc := hblocks ▸ List.suffix_cons ..
  refine lands_goOn ((tracks_commit m.leave).scopes.trans hscopes)
    (fun n hn => .leave hkind hblocks hsettled hx hn) fun failure n hn => ?_
  exact .error hsuffix hwithin hsettled (by rw [hn])

/-- A directive of the chain that is open. -/
theorem lands_direct_of_chain (h : p.Nested) {s : Statement} (hget : p.get? pc = some s)
    (hwithin : p.Within pc outer) (hx : x ∈ [Directive.elseIf, .otherwise, .endIf])
    (hopener : p.kind? b.opener = some (.directive .ifThen)) {taken : Bool}
    (hscopes : m.scopes = .conditional taken :: rest) :
    Lands p pc (m.direct x s pc (s.target.getD p.size)) := by
  have hsucc := Program.openBlocks_succ hkind
  rw [hblocks] at hsucc
  have hsuffix : outer <:+ p.openBlocks pc := hblocks ▸ List.suffix_cons ..
  cases x with
  | elseIf =>
    obtain ⟨t, ht⟩ := h.exists_target hkind rfl
    rw [← Program.target?_of_get? hget, ht]
    cases taken with
    | true =>
      simp only [direct, hscopes, Option.getD_some]
      exact .jump h ht hsucc rfl (.conditional hopener nofun) hsettled hscopes
    | false =>
      simp only [direct, hscopes, Option.getD_some]
      refine lands_branch (fun taken n hn => ?_) fun failure n hn => ?_
      · have hnote := scopes_note_of_conditional n taken (hn.trans hscopes)
        cases taken with
        | true =>
          refine .next hkind ?_
          rw [hblocks, hnote]
          exact .cons (.conditional hopener fun _ => rfl) hsettled
        | false => exact .jump h ht hsucc rfl (.conditional hopener nofun) hsettled hnote
      · -- the chain is left as well, whatever its scope says
        exact .error hsuffix hwithin hsettled (by rw [hn, hscopes, unwind])
  | otherwise =>
    obtain ⟨t, ht⟩ := h.exists_target hkind rfl
    rw [← Program.target?_of_get? hget, ht]
    cases taken with
    | true =>
      simp only [direct, hscopes, Option.getD_some]
      exact .jump h ht hsucc rfl (.conditional hopener nofun) hsettled hscopes
    | false =>
      simp only [direct, hscopes]
      refine .next hkind ?_
      rw [hblocks, scopes_note_of_conditional m true hscopes]
      exact .cons (.conditional hopener fun _ => rfl) hsettled
  | endIf =>
    simp only [direct, hscopes]
    refine .leave hkind hblocks hsettled (by decide) ?_
    rw [scopes_leave, hscopes, List.tail_cons]
  | debug | ifThen | attempt | attemptTransaction | handler | endAttempt | beginTransaction
    | endTransaction => simp at hx

end

/-- The handler of the attempt that is open. -/
theorem lands_direct_of_handler (h : p.Nested) {s : Statement} (hget : p.get? pc = some s)
    (hkind : p.kind? pc = some (.directive .handler)) {b : OpenBlock} {outer : List OpenBlock}
    {rest : List Scope} (hblocks : p.openBlocks pc = b :: outer) (hsettled : p.Settled outer rest)
    {transactional handling : Bool}
    (hopener : p.kind? b.opener = some (.directive (.attemptOf transactional)))
    (htarget : p.target? b.opener = some pc)
    (hscopes : m.scopes = .attempt transactional pc handling :: rest) :
    Lands p pc (m.direct .handler s pc (s.target.getD p.size)) := by
  have hsucc := Program.openBlocks_succ hkind
  rw [hblocks] at hsucc
  obtain ⟨t, ht⟩ := h.exists_target hkind rfl
  rw [← Program.target?_of_get? hget, ht]
  cases handling with
  | false =>
    -- nothing has failed in the body, so the handler is passed over
    simp only [direct, hscopes, Option.getD_some]
    exact .jump h ht hsucc rfl (.attempt hopener htarget nofun) hsettled hscopes
  | true =>
    simp only [direct, hscopes]
    refine .next hkind ?_
    rw [hblocks, hscopes]
    have hlt : b.member < pc := Program.member_lt (hblocks ▸ List.mem_cons_self)
    have hle : b.opener ≤ b.member := Program.opener_le_member (k := pc) (hblocks ▸ List.mem_cons_self)
    have hne : pc ≠ b.opener := by omega
    exact .cons (.attempt hopener htarget fun _ => by simp [hne]) hsettled

/-- A directive that divides or closes the innermost block. -/
theorem lands_direct_of_continues (h : p.Nested) (hfits : p.Fits pc m.scopes) {s : Statement}
    {x : Directive} (hget : p.get? pc = some s) (hs : s.kind = .directive x)
    (hx : x.continues = true) : Lands p pc (m.direct x s pc (s.target.getD p.size)) := by
  have hkind : p.kind? pc = some (.directive x) := by rw [Program.kind?_of_get? hget, hs]
  obtain ⟨b, outer, scope, rest, hblocks, hscopes, hcontinued, hsettled, hwithin⟩ :=
    hfits.exists_continued h hkind hx
  have hleave : m.leave.scopes = rest := by rw [scopes_leave, hscopes, List.tail_cons]
  cases hcontinued with
  | chain hy hopener =>
    exact lands_direct_of_chain hkind hblocks hsettled h hget hwithin hy hopener hscopes
  | handler hopener htarget _ =>
    exact lands_direct_of_handler h hget hkind hblocks hsettled hopener htarget hscopes
  | @endAttempt _ transactional handling handler =>
    have hmem : Directive.endAttempt ∈ [Directive.endIf, .endAttempt, .endTransaction] := by decide
    cases transactional <;> cases handling <;> simp only [direct, hscopes]
    -- only the body of a transactional attempt ends with a commit
    case true.false => exact lands_commit hkind hblocks hsettled hmem hwithin hleave
    all_goals exact .leave hkind hblocks hsettled hmem hleave
  | endTransaction =>
    simp only [direct, hscopes]
    exact lands_commit hkind hblocks hsettled (by decide) hwithin hleave

theorem lands_step (h : p.Nested) (hfits : p.Fits pc m.scopes) {s : Statement}
    (hget : p.get? pc = some s) : Lands p pc (m.step p pc s) := by
  rw [step]
  cases hs : s.kind with
  | directive x =>
    cases hx : x.continues with
    | true => exact lands_direct_of_continues (m := m.emit _) h hfits hget hs hx
    | false => exact lands_direct_of_quiet (m := m.emit _) h hfits hget hs hx
  | sql =>
    have hkind : p.kind? pc = some .sql := by rw [Program.kind?_of_get? hget, hs]
    have hwithin := h.within_of_kind hkind nofun
    refine lands_goOn (tracks_query _ s.text).scopes (fun n hn => .next hkind ?_)
      fun failure n hn => ?_
    · rw [id, hn]
      exact hfits.settled hwithin
    · refine .fail ?_ hwithin failure
      rwa [hn]
  | invalid =>
    have hkind : p.kind? pc = some .invalid := by rw [Program.kind?_of_get? hget, hs]
    exact .next hkind (hfits.settled (h.within_of_kind hkind nofun))

/-! ## Failures -/

/-- If the run goes on, it does so further down and in scopes that fit there. -/
def Advances (p : Program) (pc : Nat) (r : Except Failure Nat × Machine σ) : Prop :=
  ∀ next m, r = (.ok next, m) → pc < next ∧ next ≤ p.size ∧ p.Fits next m.scopes

omit [Connection σ] in
theorem advances_error {failure : Failure} : Advances p pc (.error failure, m) := nofun

omit [Connection σ] in
/-- An attempt whose handler has not been entered has its handler further down. -/
theorem advances_handle (h : p.Nested) {b : OpenBlock} {outer : List OpenBlock} {scopes : List Scope}
    {failure : Failure} {transactional : Bool} {handler : Nat}
    (hsuffix : b :: outer <:+ p.openBlocks pc) (hwithin : p.Within pc (b :: outer))
    (hopener : p.kind? b.opener = some (.directive (.attemptOf transactional)))
    (htarget : p.target? b.opener = some handler) (hmember : b.member = b.opener)
    (hsettled : p.Settled outer scopes) :
    Advances p pc (m.handle p failure transactional handler scopes) := by
  rintro _ _ ⟨⟩
  have hends : p.target? b.member = some handler := by rw [hmember, htarget]
  have hle : pc ≤ handler := h.le_target (hsuffix.subset List.mem_cons_self) hends
  have hne : pc ≠ handler := fun heq => hwithin b List.mem_cons_self (heq ▸ hends)
  have hlt : handler < p.size := (h.adjacent_of_target htarget).2
  refine ⟨by omega, by omega, ?_⟩
  exact h.fits_at_target hends (Program.openBlocks_of_suffix hsuffix).2 rfl
    (.attempt hopener htarget nofun) hsettled

/-- Scopes are left until an attempt is found in whose body the run is. -/
theorem advances_unwind (h : p.Nested) {blocks : List OpenBlock} {scopes : List Scope}
    (hsettled : p.Settled blocks scopes) (hsuffix : blocks <:+ p.openBlocks pc)
    (hwithin : p.Within pc blocks) (failure : Failure) (m : Machine σ) :
    Advances p pc (unwind p failure m scopes) := by
  induction hsettled generalizing failure m with
  | nil => exact advances_error
  | @cons b scope outer rest hscoped hrest ih =>
    have hleave := ih ((List.suffix_cons b outer).trans hsuffix)
      fun c hc => hwithin c (List.mem_cons_of_mem b hc)
    cases hscoped with
    | conditional => exact hleave failure m
    | transaction =>
      rw [unwind]
      rcases m.transact .rollback with ⟨error | _, n⟩
      · exact hleave error _
      · exact hleave failure n
    | @attempt transactional handling handler hopener htarget hhandling =>
      cases handling with
      | true => exact hleave failure m
      | false =>
        -- the run is in the body, whose first member is the opener
        have hmember : b.member = b.opener := by simpa using hhandling trivial
        have hhandle : ∀ n : Machine σ,
            Advances p pc (n.handle p failure transactional handler rest) :=
          fun n => advances_handle h hsuffix hwithin hopener htarget hmember hrest
        cases transactional with
        | false => exact hhandle m
        | true =>
          rw [unwind]
          rcases m.transact .rollback with ⟨error | _, n⟩
          · -- a rollback that fails is a failure of what is around the attempt
            exact hleave error _
          · exact hhandle n

/-- A statement that is run in scopes that fit, with what becomes of its failure. -/
theorem advances_dispatch (h : p.Nested) (hfits : p.Fits pc m.scopes) {s : Statement}
    (hget : p.get? pc = some s) : Advances p pc (m.dispatch p pc s) := by
  have hstep := lands_step (m := m.countStatement) h hfits hget
  rw [dispatch]
  rcases hq : m.countStatement.step p pc s with ⟨failure | next, n⟩ <;> rw [hq] at hstep
  · cases hstep with
    | error hsuffix hwithin hsettled hunwind =>
      have hadvances := advances_unwind h hsettled hsuffix hwithin failure n
      rw [← hunwind] at hadvances
      dsimp only
      rcases hu : unwind p failure n n.scopes with ⟨failure' | handler, n'⟩
      · exact advances_error
      · rintro _ _ ⟨⟩
        exact hadvances handler n' hu
  · cases hstep with
    | ok hlt hle hfits' =>
      rintro _ _ ⟨⟩
      exact ⟨hlt, hle, hfits'⟩

end Machine

/-! ## Runs -/

variable {σ : Type} [Connection σ]

/-- The run of a program gets to the statement with index `pc`, or to the end of the program, and is in
the state `m` there. -/
inductive Program.Arrives (p : Program) (outer : Bool) (connection : Option σ) :
    Machine σ → Nat → Prop where
  | bare (houter : outer = false) :
      Arrives p outer connection (Machine.emit { connection } (.started p.size outer)) 0
  | enclosed {m : Machine σ} (houter : outer = true)
      (hbegin : (Machine.emit { connection } (.started p.size outer)).transact .begin = (.ok (), m)) :
      Arrives p outer connection m 0
  | next {m m' : Machine σ} {pc next : Nat} {s : Statement} (h : Arrives p outer connection m pc)
      (hget : p.get? pc = some s) (hdispatch : m.dispatch p pc s = (.ok next, m')) :
      Arrives p outer connection m' next

namespace Program

variable {p : Program} {outer : Bool} {connection : Option σ} {m : Machine σ} {pc : Nat}

theorem fits_zero (p : Program) : p.Fits 0 [] := by
  rw [Fits, openBlocks_zero]
  exact .nil

theorem Arrives.fits (harrives : p.Arrives outer connection m pc) (h : p.Nested) :
    pc ≤ p.size ∧ p.Fits pc m.scopes := by
  induction harrives with
  | bare => exact ⟨Nat.zero_le _, p.fits_zero⟩
  | @enclosed m _ hbegin =>
    have hscopes : m.scopes = [] := Machine.scopes_of_transact hbegin
    rw [hscopes]
    exact ⟨Nat.zero_le _, p.fits_zero⟩
  | next _ hget hdispatch ih =>
    obtain ⟨-, hle, hfits⟩ := Machine.advances_dispatch h ih.2 hget _ _ hdispatch
    exact ⟨hle, hfits⟩

/-- The scope that a run is in before the statement `pc` because of an open block. -/
inductive Mirrors (p : Program) (pc : Nat) : OpenBlock → Scope → Prop where
  /-- A chain, which knows inside one of its bodies that this has been entered. -/
  | chain {b : OpenBlock} {taken : Bool} (hopener : p.kind? b.opener = some (.directive .ifThen))
      (htaken : ∀ next, p.Adjacent b.member next → pc < next → taken = true) :
      Mirrors p pc b (.conditional taken)
  /-- An attempt with its own handler, which knows on either side of the handler where the run is. -/
  | attempt {b : OpenBlock} {transactional handling : Bool} {handler : Nat}
      (hopener : p.kind? b.opener = some (.directive (.attemptOf transactional)))
      (hnext : p.Adjacent b.opener handler) (hkind : p.kind? handler = some (.directive .handler))
      (hbody : pc < handler → handling = false)
      (hhandler : ∀ last, p.Adjacent handler last → handler < pc → pc < last → handling = true) :
      Mirrors p pc b (.attempt transactional handler handling)
  | transaction {b : OpenBlock} (hopener : p.kind? b.opener = some (.directive .beginTransaction)) :
      Mirrors p pc b .transaction

theorem Shape.attempt_cases {b : OpenBlock} {transactional : Bool} (h : p.Shape b)
    (hopener : p.kind? b.opener = some (.directive (.attemptOf transactional))) :
    b.member = b.opener ∨ p.target? b.opener = some b.member := by
  cases h with
  | chain hopener' => simp [hopener'] at hopener
  | body _ _ hmember => exact .inl hmember
  | handler _ _ htarget => exact .inr htarget
  | transaction hopener' hmember => exact .inl hmember

/-- What comes after the opener of an attempt is its handler. -/
theorem Adjacent.kind_of_attempt {i j : Nat} (h : p.Adjacent i j) {transactional : Bool}
    (hopener : p.kind? i = some (.directive (.attemptOf transactional))) :
    p.kind? j = some (.directive .handler) := by
  obtain ⟨x, y, hx, hy, hfollows, -⟩ := h.members
  obtain rfl := StatementKind.directive.inj (Option.some.inj (hx.symm.trans hopener))
  obtain rfl : y = .handler := by cases transactional <;> exact List.mem_singleton.1 hfollows
  exact hy

theorem Nested.mirrors (h : p.Nested) {b : OpenBlock} {s : Scope} (hb : b ∈ p.openBlocks pc)
    (hscoped : p.Scoped (p.target? b.member ≠ some pc) b s) : p.Mirrors pc b s := by
  -- where the present body still goes on, the statement is not the next member
  have hne : ∀ next, p.Adjacent b.member next → pc < next → p.target? b.member ≠ some pc :=
    fun next hadjacent hlt ht => by
      have heq : next = pc := hadjacent.eq_of_target ht
      omega
  have hlt : b.member < pc := member_lt hb
  cases hscoped with
  | conditional hopener htaken =>
    exact .chain hopener fun next hadjacent hlt => htaken (hne next hadjacent hlt)
  | transaction hopener => exact .transaction hopener
  | @attempt transactional handling handler hopener htarget hhandling =>
    have hadjacent : p.Adjacent b.opener handler := (h.adjacent_of_target htarget).1
    refine .attempt hopener hadjacent (hadjacent.kind_of_attempt hopener) (fun hbefore => ?_) fun last hlast hbehind hbefore => ?_
    all_goals rcases (h.shape hb).attempt_cases hopener with hmember | hmember
    · have hhandling' := hhandling (hne handler (hmember ▸ hadjacent) hbefore)
      simpa [hmember] using hhandling'
    · have heq : b.member = handler := Option.some.inj (hmember.symm.trans htarget)
      omega
    · have hle : pc ≤ handler := h.le_target hb (hmember ▸ htarget)
      omega
    · have heq : b.member = handler := Option.some.inj (hmember.symm.trans htarget)
      have hhandling' := hhandling (hne last (heq ▸ hlast) hbefore)
      have hopener_lt := hadjacent.lt
      rw [hhandling', decide_eq_true_iff]
      omega

/-- Nothing that a statement looks for is missing: a directive that branches has a target, and one that
divides or closes a block finds a scope of that block innermost. -/
structure Prepared (s : Statement) (scopes : List Scope) : Prop where
  target : s.kind.branches = true → s.target.isSome = true
  chain : ∀ y ∈ [Directive.elseIf, .otherwise, .endIf], s.kind = .directive y →
    ∃ taken outer, scopes = .conditional taken :: outer
  attempt : ∀ y ∈ [Directive.handler, .endAttempt], s.kind = .directive y →
    ∃ transactional handler handling outer, scopes = .attempt transactional handler handling :: outer
  transaction : s.kind = .directive .endTransaction → ∃ outer, scopes = .transaction :: outer

theorem Nested.prepared (h : p.Nested) {scopes : List Scope} (hfits : p.Fits pc scopes) {s : Statement}
    (hget : p.get? pc = some s) : Prepared s scopes := by
  have hkind : p.kind? pc = some s.kind := kind?_of_get? hget
  have hcontinued : ∀ y, s.kind = .directive y → y.continues = true →
      ∃ b scope rest, scopes = scope :: rest ∧ Continued p pc y b scope := fun y hs hy => by
    obtain ⟨b, -, scope, rest, -, hscopes, hcontinued, -⟩ := hfits.exists_continued h (hs ▸ hkind) hy
    exact ⟨b, scope, rest, hscopes, hcontinued⟩
  refine ⟨fun hbranches => ?_, fun y hy hs => ?_, fun y hy hs => ?_, fun hs => ?_⟩
  · cases hs : s.kind with
    | sql | invalid => simp [hs, StatementKind.branches] at hbranches
    | directive x =>
      rw [hs] at hbranches hkind
      obtain ⟨t, ht⟩ := h.exists_target hkind hbranches
      rw [← target?_of_get? hget, ht]
      rfl
  · have hcontinues : y.continues = true := by
      revert hy
      cases y <;> decide
    obtain ⟨b, scope, rest, rfl, hblock⟩ := hcontinued y hs hcontinues
    cases hblock with
    | chain => exact ⟨_, rest, rfl⟩
    | handler | endAttempt | endTransaction => simp at hy
  · simp only [List.mem_cons, List.not_mem_nil, or_false] at hy
    rcases hy with rfl | rfl
    · obtain ⟨b, scope, rest, rfl, hblock⟩ := hcontinued .handler hs rfl
      cases hblock with
      | handler => exact ⟨_, _, _, rest, rfl⟩
      | chain hy => simp at hy
    · obtain ⟨b, scope, rest, rfl, hblock⟩ := hcontinued .endAttempt hs rfl
      cases hblock with
      | endAttempt => exact ⟨_, _, _, rest, rfl⟩
      | chain hy => simp at hy
  · obtain ⟨b, scope, rest, rfl, hblock⟩ := hcontinued .endTransaction hs rfl
    cases hblock with
    | endTransaction => exact ⟨rest, rfl⟩
    | chain hy => simp at hy

/-- In a run of an assembled program the scopes are those of the blocks that are open before the
statement that the run has got to, and none is left at the end. So no directive ever finds a scope of
another kind than its own, or no target. What the run gets to is all that it dispatches: see
`exists_arrives_of_mem_indicesOf` for the statements that `Program.run` tells of. -/
theorem scopes_mirror_open_blocks {d : Dialect} {fragments : List Fragment}
    (hexecutable : (assemble d fragments).executable = true)
    (harrives : (assemble d fragments).Arrives outer connection m pc) :
    let p := assemble d fragments
    List.Forall₂ (p.Mirrors pc) (p.openBlocks pc) m.scopes ∧
      (p.get? pc = none → pc = p.size ∧ m.scopes = []) ∧
      ∀ s, p.get? pc = some s → Prepared s m.scopes := by
  intro p
  have h : p.Nested := nested_assemble (executable_assemble_iff.1 hexecutable)
  obtain ⟨hle, hfits⟩ := harrives.fits h
  refine ⟨?_, fun hend => ?_, fun s hget => h.prepared hfits hget⟩
  · have hmem := (List.forall₂_and_left _ _).2 ⟨fun b hb => hb, hfits⟩
    exact hmem.imp fun b s ⟨hb, hscoped⟩ => h.mirrors hb hscoped
  · have hsize : pc = p.size := Nat.le_antisymm hle (get?_eq_none_iff.1 hend)
    rw [hsize, Fits, h.openBlocks_size, List.forall₂_nil_left_iff] at hfits
    exact ⟨hsize, hfits⟩

/-- A run whose first statement is refused. It has got to the handler and past it. -/
theorem scopes_mirror_open_blocks_in_handler :
    let ts : List Tree := [.transaction ⟨"", "--begin", 1⟩
      [.attempt true ⟨"", "--trytransaction", 2⟩ [.sql ⟨"A", "A", 3⟩]
        ⟨"", "--catch", 4⟩ [.debug ⟨"B", "--debug B", 5⟩] ⟨"", "--endtry", 6⟩]
      ⟨"", "--endtransaction", 7⟩]
    let p := assemble {} (Tree.flattenAll ts)
    let r : Rehearsal := { statements := [(1, .error (.statement (-204) "A failed"))] }
    p.executable = true ∧ ∃ m, p.Arrives false (some r) m 4 ∧
      List.Forall₂ (p.Mirrors 4) [⟨1, 3⟩, ⟨0, 0⟩] [.attempt true 3 true, .transaction] := by
  intro ts p r
  have hexecutable : p.executable = true := by decide
  have h₁ : p.Arrives false (some r) _ 1 := .next (.bare rfl) rfl rfl
  have h₂ := h₁.next rfl rfl
  have h₃ := h₂.next rfl rfl
  have h₄ := h₃.next rfl rfl
  exact ⟨hexecutable, _, h₄, (scopes_mirror_open_blocks hexecutable h₄).1⟩

end Program

end SqlFlow
