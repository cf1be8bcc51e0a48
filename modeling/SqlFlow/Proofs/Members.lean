import SqlFlow.Proofs.Grammar
import SqlFlow.Proofs.Placement

/-!
# The members of blocks

The directives of one block, from its opener over what divides it to what closes it, are its members.

* `Directive.followers`: which directive may be the next member of the block after a given one.
* `Program.Adjacent`: two statements are members of one block, the one next after the other, with a
  complete block of statements between them.
* `Wired`: in a stretch of a program every member has a next one, every member but an opener has a
  previous one, and targets lead from a member to the next and do not cross. `Wired.append` and
  `Wired.member` put such stretches together.
* `wired_code`: the code of a tree is wired. The induction on the tree does no more than take the code
  apart for these two lemmas.
-/

namespace SqlFlow

/-- What may be the next member of a block after a directive. -/
def Directive.followers : Directive → List Directive
  | .ifThen | .elseIf => [.elseIf, .otherwise, .endIf]
  | .otherwise => [.endIf]
  | .attempt | .attemptTransaction => [.handler]
  | .handler => [.endAttempt]
  | .beginTransaction => [.endTransaction]
  | .debug | .endIf | .endAttempt | .endTransaction => []

/-- Whether a directive divides or closes a block that is open before it. -/
def Directive.continues : Directive → Bool
  | .elseIf | .otherwise | .endIf | .handler | .endAttempt | .endTransaction => true
  | .debug | .ifThen | .attempt | .attemptTransaction | .beginTransaction => false

theorem Directive.continues_of_mem_followers {x y : Directive} (h : y ∈ x.followers) :
    y.continues = true := by
  cases x <;> simp [followers] at h <;> rcases h with rfl | rfl | rfl <;> rfl

section

variable (transactional : Bool)

theorem Directive.branches_attemptOf : (attemptOf transactional).branches = true := by
  cases transactional <;> rfl

theorem Directive.continues_attemptOf : (attemptOf transactional).continues = false := by
  cases transactional <;> rfl

theorem Directive.handler_mem_followers : .handler ∈ (attemptOf transactional).followers := by
  cases transactional <;> decide

@[simp] theorem Directive.ifThen_ne_attemptOf : ifThen ≠ attemptOf transactional := by
  cases transactional <;> decide

@[simp] theorem Directive.beginTransaction_ne_attemptOf :
    beginTransaction ≠ attemptOf transactional := by
  cases transactional <;> decide

@[simp] theorem Directive.attemptOf_inj {transactional' : Bool} :
    attemptOf transactional = attemptOf transactional' ↔ transactional = transactional' := by
  cases transactional <;> cases transactional' <;> decide

end

/-- Statements of these kinds make up the phrase. -/
def Phrase.Spelt (phrase : Phrase) (kinds : List StatementKind) : Prop :=
  ∃ w, Derives phrase w ∧ w.map FragmentKind.statementKind = kinds

theorem spelt_codeAll (ts : List Tree) (here : Nat) :
    Phrase.block.Spelt ((Tree.codeAll ts here).map Statement.kind) := by
  refine ⟨_, derives_flattenAll ts, ?_⟩
  have hcontent := congrArg (List.map Prod.fst) (Tree.content_codeAll ts here)
  simp only [List.map_map] at hcontent ⊢
  exact hcontent.symm

/-- The statement `j` is the next member after the statement `i` of the block that both are members
of, and the target of `i` if that branches. -/
structure Program.Adjacent (p : Program) (i j : Nat) : Prop where
  lt : i < j
  members : ∃ x y, p.kind? i = some (.directive x) ∧ p.kind? j = some (.directive y) ∧
    y ∈ x.followers ∧ p.target? i = if x.branches then some j else none
  between : Phrase.block.Spelt (p.kindsBetween i j)

/-- A statement before `stop` with the next member of its block, which is before `stop` as well, or a
statement that no member comes after. -/
inductive Program.Onward (p : Program) (i stop : Nat) : Prop where
  | next {j : Nat} (hadjacent : p.Adjacent i j) (hlt : j < stop)
  | last (hkind : ∀ x, p.kind? i = some (.directive x) → x.followers = [])
      (htarget : p.target? i = none)

namespace Program

variable {p : Program} {i j stop t : Nat}

theorem Adjacent.eq_of_target (h : p.Adjacent i j) (ht : p.target? i = some t) : j = t := by
  obtain ⟨x, y, -, -, -, htarget⟩ := h.members
  exact Option.some.inj (Option.ite_none_right_eq_some.1 (htarget.symm.trans ht)).2

theorem Onward.mono {stop' : Nat} (h : p.Onward i stop) (hle : stop ≤ stop') : p.Onward i stop' := by
  cases h with
  | next hadjacent hlt => exact .next hadjacent (by omega)
  | last hkind htarget => exact .last hkind htarget

/-- A target is the next member. -/
theorem Onward.of_target (h : p.Onward i stop) (ht : p.target? i = some t) :
    p.Adjacent i t ∧ t < stop := by
  cases h with
  | next hadjacent hlt =>
    obtain rfl := hadjacent.eq_of_target ht
    exact ⟨hadjacent, hlt⟩
  | last hkind htarget => simp [htarget] at ht

end Program

/-- The statements from `start` up to `stop` have their next members there, and those from `first` on
that divide or close a block have the previous ones. -/
structure Wired (p : Program) (start first stop : Nat) : Prop where
  onward {i : Nat} (hi : start ≤ i) (hlt : i < stop) : p.Onward i stop
  back {j : Nat} {y : Directive} (hj : first ≤ j) (hlt : j < stop)
    (hkind : p.kind? j = some (.directive y)) (hy : y.continues = true) : ∃ i, p.Adjacent i j
  uncrossed {i k j l : Nat} (hi : start ≤ i) (hik : i < k) (hk : k < stop)
    (hij : p.target? i = some j) (hkl : p.target? k = some l) : j ≤ k ∨ l < j

namespace Wired

variable {p : Program} {start first mid stop : Nat}

theorem nil (p : Program) (i : Nat) : Wired p i i i where
  onward hi hlt := by omega
  back hj hlt := by omega
  uncrossed hi hik hk := by omega

/-- A statement that is no member, or the last one of its block. -/
theorem single {i : Nat} {s : Statement} (hget : p.get? i = some s) (htarget : s.target = none)
    (hkind : ∀ x, s.kind = .directive x → x.followers = []) : Wired p i (i + 1) (i + 1) where
  onward {k} hi hlt := by
    obtain rfl : k = i := by omega
    refine .last (fun x hx => hkind x ?_) (by rw [Program.target?_of_get? hget, htarget])
    rw [Program.kind?_of_get? hget] at hx
    exact Option.some.inj hx
  back hj hlt := by omega
  uncrossed hi hik hk := by omega

/-- The first statement needs no previous member if it divides and closes nothing. -/
theorem opens {s : Statement} (h : Wired p start (start + 1) stop) (hget : p.get? start = some s)
    (hkind : ∀ x, s.kind = .directive x → x.continues = false) : Wired p start start stop where
  onward := h.onward
  back {j y} hj hlt hy hcontinues := by
    rcases Nat.lt_or_ge start j with hlt' | hge
    · exact h.back hlt' hlt hy hcontinues
    · obtain rfl : j = start := by omega
      rw [Program.kind?_of_get? hget] at hy
      simp [hkind y (Option.some.inj hy)] at hcontinues
  uncrossed := h.uncrossed

theorem opens_directive {l : Line} {x : Directive} {target : Option Nat}
    (h : Wired p start (start + 1) stop)
    (hget : p.get? start = some (l.statement (.directive x) target)) (hx : x.continues = false) :
    Wired p start start stop :=
  h.opens hget fun y hy => by
    obtain rfl : x = y := StatementKind.directive.inj hy
    exact hx

theorem append (h₁ : Wired p start first mid) (h₂ : Wired p mid mid stop)
    (hle : mid ≤ stop) : Wired p start first stop where
  onward {i} hi hlt := by
    rcases Nat.lt_or_ge i mid with hmid | hmid
    · exact (h₁.onward hi hmid).mono hle
    · exact h₂.onward hmid hlt
  back {j y} hj hlt hkind hy := by
    rcases Nat.lt_or_ge j mid with hmid | hmid
    · exact h₁.back hj hmid hkind hy
    · exact h₂.back hmid hlt hkind hy
  uncrossed {i k j l} hi hik hk hij hkl := by
    rcases Nat.lt_or_ge k mid with hkmid | hkmid
    · exact h₁.uncrossed hi hik hkmid hij hkl
    rcases Nat.lt_or_ge i mid with himid | himid
    · -- a target does not lead out of the first stretch, and `k` is behind it
      have := ((h₁.onward hi himid).of_target hij).2
      exact .inl (by omega)
    · exact h₂.uncrossed himid hik hk hij hkl

/-- A member of a block, its body, and the rest of the block from the next member on. -/
theorem member (hnext : p.Adjacent start mid) (hbody : Wired p (start + 1) (start + 1) mid)
    (hrest : Wired p mid (mid + 1) stop) (hlt : mid < stop) : Wired p start (start + 1) stop where
  onward {i} hi hlt' := by
    rcases Nat.eq_or_lt_of_le hi with rfl | hi
    · exact .next hnext hlt
    rcases Nat.lt_or_ge i mid with hmid | hmid
    · exact (hbody.onward hi hmid).mono (by omega)
    · exact hrest.onward hmid hlt'
  back {j y} hj hlt' hy hcontinues := by
    rcases Nat.lt_trichotomy j mid with hmid | rfl | hmid
    · exact hbody.back hj hmid hy hcontinues
    · exact ⟨start, hnext⟩
    · exact hrest.back hmid hlt' hy hcontinues
  uncrossed {i k j l} hi hik hk hij hkl := by
    rcases Nat.eq_or_lt_of_le hi with rfl | hi
    · -- the first member, whose target is the next one
      obtain rfl := hnext.eq_of_target hij
      rcases Nat.lt_or_ge k mid with hkj | hkj
      · exact .inr ((hbody.onward hik hkj).of_target hkl).2
      · exact .inl hkj
    rcases Nat.lt_or_ge i mid with himid | himid
    · rcases Nat.lt_or_ge k mid with hkmid | hkmid
      · exact hbody.uncrossed hi hik hkmid hij hkl
      · have := ((hbody.onward hi himid).of_target hij).2
        exact .inl (by omega)
    · exact hrest.uncrossed himid hik hk hij hkl

end Wired

/-! ## The code of trees -/

section

variable {p : Program} {here : Nat} {opener closer next : Line} {x y : Directive} {ts : List Tree}
  {target target' : Option Nat}

/-- A member, the trees of its body, and the next member. -/
theorem adjacent_of_codeAt (hget : p.get? here = some (opener.statement (.directive x) target))
    (htarget : target = if x.branches then some (here + 1 + Tree.sizeAll ts) else none)
    (hcode : CodeAt p (here + 1) (Tree.codeAll ts (here + 1)))
    (hnext : p.get? (here + 1 + Tree.sizeAll ts) = some (next.statement (.directive y) target'))
    (hfollows : y ∈ x.followers) : p.Adjacent here (here + 1 + Tree.sizeAll ts) where
  lt := by omega
  members := ⟨x, y, Program.kind?_of_get? hget, Program.kind?_of_get? hnext, hfollows,
    (Program.target?_of_get? hget).trans htarget⟩
  between := by
    have hbetween := kindsBetween_of_codeAt hcode
    rw [Tree.length_codeAll] at hbetween
    rw [hbetween]
    exact spelt_codeAll ts (here + 1)

theorem wired_closer (hget : p.get? here = some (closer.statement (.directive x)))
    (hx : x.followers = []) : Wired p here (here + 1) (here + 1) :=
  .single hget rfl fun y hy => by
    obtain rfl : x = y := StatementKind.directive.inj hy
    exact hx

end

/-- A branch goes on with a member of the chain that may follow a member with a condition. -/
theorem exists_head_of_branch {p : Program} {here : Nat} (b : Branch)
    (h : CodeAt p here (b.code here)) :
    ∃ (l : Line) (y : Directive) (target : Option Nat),
      p.get? here = some (l.statement (.directive y) target) ∧ y ∈ Directive.followers .ifThen := by
  cases b with
  | done closer => exact ⟨closer, .endIf, none, h.1, by decide⟩
  | otherwise opener body closer => exact ⟨opener, .otherwise, _, h.1, by decide⟩
  | elseIf opener body rest => exact ⟨opener, .elseIf, _, h.1, by decide⟩

theorem Branch.size_pos (b : Branch) : 0 < b.size := by
  cases b <;> simp [Branch.size, Branch.flatten]

mutual

theorem wired_code {p : Program} : (t : Tree) → {here : Nat} → CodeAt p here (t.code here) →
    Wired p here here (here + t.size)
  | .sql l, here, h => (Wired.single h.1 rfl nofun).opens h.1 nofun
  | .debug l, here, h => (wired_closer (x := .debug) h.1 rfl).opens_directive h.1 rfl
  | .chain opener body rest, here, h => by
    rw [Tree.code, CodeAt, codeAt_append, Tree.length_codeAll] at h
    obtain ⟨hopener, hbody, hrest⟩ := h
    obtain ⟨l, y, target, hnext, hy⟩ := exists_head_of_branch rest hrest
    have hsize := rest.size_pos
    rw [Tree.size_chain, ← Nat.add_assoc, ← Nat.add_assoc]
    exact (Wired.member (adjacent_of_codeAt hopener rfl hbody hnext hy)
      (wired_codeAll body hbody)
      (wired_branch rest hrest) (by omega)).opens_directive hopener rfl
  | .attempt transactional opener body middle handler closer, here, h => by
    rw [Tree.code, CodeAt, codeAt_append, Tree.length_codeAll, CodeAt, codeAt_append,
      Tree.length_codeAll] at h
    obtain ⟨hopener, hbody, hmiddle, hhandler, hcloser, -⟩ := h
    -- the part from the handler on is what the opener is put in front of
    rw [Tree.size_attempt, ← Nat.add_assoc, ← Nat.add_assoc, ← Nat.add_assoc, ← Nat.add_assoc]
    have hrest := Wired.member (adjacent_of_codeAt hmiddle rfl hhandler hcloser (by decide))
      (wired_codeAll handler hhandler)
      (wired_closer hcloser rfl) (Nat.lt_succ_self _)
    have hnext := adjacent_of_codeAt hopener (by rw [Directive.branches_attemptOf, if_pos rfl]) hbody
      hmiddle (Directive.handler_mem_followers transactional)
    exact (Wired.member hnext (wired_codeAll body hbody) hrest (by omega)).opens_directive hopener
      (Directive.continues_attemptOf transactional)
  | .transaction opener body closer, here, h => by
    rw [Tree.code, CodeAt, codeAt_append, Tree.length_codeAll] at h
    obtain ⟨hopener, hbody, hcloser, -⟩ := h
    rw [Tree.size_transaction, ← Nat.add_assoc, ← Nat.add_assoc]
    exact (Wired.member (adjacent_of_codeAt hopener rfl hbody hcloser (by decide))
      (wired_codeAll body hbody) (wired_closer hcloser rfl)
      (Nat.lt_succ_self _)).opens_directive hopener rfl

theorem wired_codeAll {p : Program} : (ts : List Tree) → {here : Nat} →
    CodeAt p here (Tree.codeAll ts here) → Wired p here here (here + Tree.sizeAll ts)
  | [], here, _ => .nil p here
  | t :: ts, here, h => by
    rw [Tree.codeAll, codeAt_append, Tree.length_code] at h
    obtain ⟨ht, hts⟩ := h
    rw [Tree.sizeAll_cons, ← Nat.add_assoc]
    exact (wired_code t ht).append (wired_codeAll ts hts) (by omega)

/-- A branch begins in the middle of its chain, so its first statement has no previous member there. -/
theorem wired_branch {p : Program} : (b : Branch) → {here : Nat} → CodeAt p here (b.code here) →
    Wired p here (here + 1) (here + b.size)
  | .done closer, here, h => wired_closer h.1 rfl
  | .otherwise opener body closer, here, h => by
    rw [Branch.code, CodeAt, codeAt_append, Tree.length_codeAll] at h
    obtain ⟨hopener, hbody, hcloser, -⟩ := h
    rw [Branch.size_otherwise, ← Nat.add_assoc, ← Nat.add_assoc]
    exact .member (adjacent_of_codeAt hopener rfl hbody hcloser (by decide))
      (wired_codeAll body hbody)
      (wired_closer hcloser rfl) (Nat.lt_succ_self _)
  | .elseIf opener body rest, here, h => by
    rw [Branch.code, CodeAt, codeAt_append, Tree.length_codeAll] at h
    obtain ⟨hopener, hbody, hrest⟩ := h
    obtain ⟨l, y, target, hnext, hy⟩ := exists_head_of_branch rest hrest
    have hsize := rest.size_pos
    rw [Branch.size_elseIf, ← Nat.add_assoc, ← Nat.add_assoc]
    exact .member (adjacent_of_codeAt hopener rfl hbody hnext hy)
      (wired_codeAll body hbody)
      (wired_branch rest hrest) (by omega)

end

end SqlFlow
