import SqlFlow.Proofs.Run.Leaving

/-!
# What a statement leaves as it is

A statement deals with the innermost scope alone, and a failure that is handled leaves the scopes around
the handler alone. So what a block has noted stays noted while the run is in one of its bodies.

* `Machine.Framed`: what a statement keeps of the scopes, and where it may lead. `framed_step`.
* `ScopeAt`: a scope, by how many there are around it.
* `Program.Caught`: where a failure is handled. `Arrives.caught`: there if it is, which leaves alone what is
  around.
-/

namespace SqlFlow

variable {σ : Type}

namespace Machine

/-- A statement changes no scope around the innermost one, nor that one if it is `quiet`, and leads on to
the next statement or, if it branches, to its target. -/
structure Framed (quiet branches : Prop) (pc target : Nat) (scopes : List Scope)
    (r : Except Failure Nat × Machine σ) : Prop where
  around : scopes.tail <:+ r.2.scopes
  innermost : quiet → scopes <:+ r.2.scopes
  next : ∀ next, r.1 = .ok next → next = pc + 1 ∨ branches ∧ next = target

section

variable {quiet branches : Prop} {pc target : Nat} {scopes : List Scope}

theorem Framed.of_suffix {r : Except Failure Nat × Machine σ} (hscopes : scopes <:+ r.2.scopes)
    (hnext : ∀ next, r.1 = .ok next → next = pc + 1 ∨ branches ∧ next = target) :
    Framed quiet branches pc target scopes r where
  around := (List.tail_suffix scopes).trans hscopes
  innermost _ := hscopes
  next := hnext

/-- The run goes on with the next statement. -/
theorem Framed.onward {m : Machine σ} (hscopes : scopes <:+ m.scopes) :
    Framed quiet branches pc target scopes (.ok (pc + 1), m) :=
  .of_suffix hscopes fun _ h => .inl (Except.ok.inj h).symm

/-- The run goes on with the target. -/
theorem Framed.jump {m : Machine σ} (hbranches : branches) (hscopes : scopes <:+ m.scopes) :
    Framed quiet branches pc target scopes (.ok target, m) :=
  .of_suffix hscopes fun _ h => .inr ⟨hbranches, (Except.ok.inj h).symm⟩

theorem framed_goOn {r : Except Failure Unit × Machine σ} {after : Machine σ → Machine σ}
    (hr : scopes <:+ r.2.scopes) (hafter : ∀ n : Machine σ, n.scopes <:+ (after n).scopes) :
    Framed quiet branches pc target scopes (goOn (pc + 1) after r) := by
  obtain ⟨failure | _, n⟩ := r
  · exact .of_suffix hr nofun
  · exact .onward (hr.trans (hafter n))

/-- What keeps the scopes around the innermost one is all that is asked of a statement that is not quiet. -/
theorem Framed.of_tail {r : Except Failure Nat × Machine σ} (hquiet : ¬quiet)
    (h : Framed True branches pc target scopes.tail r) : Framed quiet branches pc target scopes r where
  around := h.innermost trivial
  innermost hq := absurd hq hquiet
  next := h.next

variable [Connection σ] {m : Machine σ}

theorem framed_branch {member : Directive} {s : Statement} {enter : Bool → Machine σ → Machine σ}
    (hbranches : branches) (hm : scopes <:+ m.scopes)
    (henter : ∀ taken (n : Machine σ), n.scopes = m.scopes → scopes <:+ (enter taken n).scopes) :
    Framed quiet branches pc target scopes (m.branch member s pc target enter) := by
  have hscopes := (tracks_evaluate m s.line s.text).scopes
  unfold branch
  rcases hq : m.evaluate s.line s.text with ⟨failure | taken, n⟩ <;> rw [hq] at hscopes
  · exact .of_suffix (hscopes ▸ hm) nofun
  · have hentered := henter taken (n.emit (.decided s.line member taken)) hscopes
    cases taken with
    | true => exact .onward hentered
    | false => exact .jump hbranches hentered

omit [Connection σ] in
theorem tail_scopes_note (m : Machine σ) (taken : Bool) : (m.note taken).scopes.tail = m.scopes.tail := by
  unfold note
  split
  · next outer hscopes => rw [hscopes, List.tail_cons, List.tail_cons]
  · rfl

theorem framed_direct (m : Machine σ) (x : Directive) (s : Statement) (pc target : Nat) :
    Framed (x.continues = false) (x.branches = true) pc target m.scopes (m.direct x s pc target) := by
  have hrefl : m.scopes <:+ m.scopes := List.suffix_rfl
  have hnote : ∀ taken (n : Machine σ), n.scopes = m.scopes → m.scopes.tail <:+ (n.note taken).scopes :=
    fun taken n hn => by
      rw [← hn, ← tail_scopes_note n taken]
      exact List.tail_suffix _
  have hcommit : ∀ n : Machine σ, n.scopes = m.scopes.tail →
      Framed True (x.branches = true) pc target m.scopes.tail (goOn (pc + 1) id n.commit) :=
    fun n hn => framed_goOn (by simp [(tracks_commit n).scopes, hn]) fun _ => List.suffix_rfl
  cases x with
  | debug =>
    simp only [direct]
    exact .onward hrefl
  | ifThen =>
    simp only [direct]
    refine framed_branch rfl hrefl fun taken n hn => ?_
    rw [scopes_enter, hn]
    exact List.suffix_cons ..
  | attempt =>
    simp only [direct]
    exact .onward (List.suffix_cons ..)
  | attemptTransaction | beginTransaction =>
    simp only [direct]
    exact framed_goOn (by simp [(tracks_transact m .begin).scopes]) fun _ => List.suffix_cons ..
  | elseIf =>
    simp only [direct]
    split
    · exact .jump rfl hrefl
    · exact .of_tail (by decide) (framed_branch rfl (List.tail_suffix _) hnote)
  | otherwise =>
    simp only [direct]
    split
    · exact .jump rfl hrefl
    · exact .of_tail (by decide) (.onward (hnote true m rfl))
  | endIf =>
    simp only [direct]
    split
    · exact .of_tail (by decide) (.onward List.suffix_rfl)
    · exact .onward hrefl
  | handler =>
    simp only [direct]
    split
    · exact .jump rfl hrefl
    · exact .onward hrefl
  | endAttempt =>
    simp only [direct]
    split
    · exact .of_tail (by decide) (hcommit _ rfl)
    · exact .of_tail (by decide) (.onward List.suffix_rfl)
  | endTransaction =>
    simp only [direct]
    split
    · exact .of_tail (by decide) (hcommit _ rfl)
    · exact framed_goOn (by simp [(tracks_commit m).scopes]) fun _ => List.suffix_rfl

theorem framed_step (p : Program) (m : Machine σ) (pc : Nat) (s : Statement) :
    Framed (∀ y, s.kind = .directive y → y.continues = false) (s.kind.branches = true) pc
      (s.target.getD p.size) m.scopes (m.step p pc s) := by
  unfold step
  cases hs : s.kind with
  | sql => exact framed_goOn (by simp [(tracks_query _ s.text).scopes]) fun _ => List.suffix_rfl
  | invalid => exact .onward List.suffix_rfl
  | directive x =>
    have hdirect := framed_direct (m.emit (.dispatched pc s.line (.directive x))) x s pc
      (s.target.getD p.size)
    exact ⟨hdirect.around, fun hquiet => hdirect.innermost (hquiet x rfl), hdirect.next⟩

end

end Machine

/-! ## Scopes by their depth -/

/-- The scope stands in `scopes` with `depth` others around it. -/
def ScopeAt (scope : Scope) (depth : Nat) (scopes : List Scope) : Prop :=
  ∃ outer, scope :: outer <:+ scopes ∧ outer.length = depth

namespace ScopeAt

variable {scope : Scope} {depth : Nat} {scopes scopes' : List Scope}

theorem mono (h : ScopeAt scope depth scopes) (hsuffix : scopes <:+ scopes') :
    ScopeAt scope depth scopes' := by
  obtain ⟨outer, houter, hlength⟩ := h
  exact ⟨outer, houter.trans hsuffix, hlength⟩

/-- It stands there as long as that many others do. -/
theorem of_suffix (h : ScopeAt scope depth scopes') (hsuffix : scopes <:+ scopes')
    (hlt : depth < scopes.length) : ScopeAt scope depth scopes := by
  obtain ⟨outer, houter, hlength⟩ := h
  refine ⟨outer, List.suffix_of_suffix_length_le houter hsuffix ?_, hlength⟩
  rw [List.length_cons, hlength]
  exact hlt

theorem exists_eq_cons (h : ScopeAt scope depth scopes) (hlength : scopes.length = depth + 1) :
    ∃ outer, scopes = scope :: outer := by
  obtain ⟨outer, houter, hdepth⟩ := h
  refine ⟨outer, (houter.eq_of_length ?_).symm⟩
  rw [List.length_cons, hdepth, hlength]

end ScopeAt

/-! ## Where failures are handled -/

namespace Program

variable [Connection σ] {p : Program} {pc handler : Nat}

/-- A failure of the statement `pc` is handled at `handler`, which is that of an attempt around the
statement. The scopes around the attempt are still there. -/
inductive Caught (p : Program) (pc handler : Nat) (scopes scopes' : List Scope) : Prop where
  | intro {b : OpenBlock} {outside : List OpenBlock} {transactional : Bool} {rest : List Scope}
      (hsuffix : b :: outside <:+ p.openBlocks pc)
      (hopener : p.kind? b.opener = some (.directive (.attemptOf transactional)))
      (hnext : p.Adjacent b.member handler) (hkind : p.kind? handler = some (.directive .handler))
      (hscopes : scopes' = .attempt transactional handler true :: rest) (hrest : rest <:+ scopes)
      (hlength : rest.length = outside.length)

theorem Arrives.caught {outer : Bool} {connection : Option σ} {m m' n : Machine σ} {s : Statement}
    {failure : Failure} (harrives : p.Arrives outer connection m pc) (h : p.Nested)
    (hget : p.get? pc = some s) (hstep : m.countStatement.step p pc s = (.error failure, n))
    (hdispatch : m.dispatch p pc s = (.ok handler, m')) : p.Caught pc handler m.scopes m'.scopes := by
  have hfits := (harrives.fits h).2
  have hunwound := Machine.unwound_dispatch h hfits (harrives.linked h) hget hstep
  rw [hdispatch] at hunwound
  cases hunwound with
  | caught hleaves hcatches hopener hscopes hrest hlength hevent =>
    have hsuffix := hleaves.suffix.trans (p.enclosing_suffix pc)
    obtain ⟨transactional, hbody⟩ := hcatches.exists_inBody
    have hmember := hbody.member_eq_opener h (hsuffix.subset List.mem_cons_self)
    exact .intro hsuffix hopener (hmember ▸ hbody.next) hbody.kind hscopes hrest hlength

end Program

end SqlFlow
