import SqlFlow.Proofs.Run.Bodies
import SqlFlow.Proofs.Run.Conditions

/-!
# How a run passes a chain

A chain asks for its conditions one after the other, up to the first true one, and the run goes through the
body behind that one alone.

* `Passage`: the turns of a run at a chain, from its first member to its end or to the failure that leaves it.
  `Passage.entered_of_inBranch`, `Passage.complete`: what follows about the bodies and about the end.
* `Arrives.exists_later`, `Arrives.passage_of_enters`: behind a member that is entered.
* `Arrives.exists_passage`: from the first member on. The induction is on the members that are left, in
  `exists_passage_of_refused`.
-/

namespace SqlFlow

variable {σ : Type} [Connection σ]

/-! ## The ways through a chain -/

/-- The turns of a run from a member of a chain on, none of whose bodies has been entered, up to the end of
the chain. The chain begins with `first`, and has these members left. -/
inductive Passage (p : Program) (first closer : Nat) :
    (members : List Nat) → (entered? : Option Nat) → List (Turn σ) → Prop where
  /-- There is no condition left, and no `else`. -/
  | closed {last : Turn σ} (hlast : last.index = closer) : Passage p first closer [] none [last]
  /-- The condition is false, and the next member is looked at. -/
  | refused {t : Turn σ} {members : List Nat} {entered? : Option Nat} {turns : List (Turn σ)}
      (hdecides : t.Decides p false) (rest : Passage p first closer members entered? turns) :
      Passage p first closer (t.index :: members) entered? (t :: turns)
  /-- The run goes through the body, and then passes over the other members. -/
  | through {t last : Turn σ} {body later : List (Turn σ)} (henters : t.Enters p)
      (hbody : ∀ u ∈ body, p.InBranch t.index u.index) (hlater : ∀ u ∈ later, u.Skips p)
      (hlast : last.index = closer) :
      Passage p first closer (t.index :: later.map Turn.index) (some t.index)
        (t :: (body ++ (later ++ [last])))
  /-- A failure in the body leaves the chain. -/
  | left {t last : Turn σ} {body : List (Turn σ)} {members : List Nat} (henters : t.Enters p)
      (hbody : ∀ u ∈ body, p.InBranch t.index u.index) (hlast : p.InBranch t.index last.index)
      (hescapes : last.Escapes p first closer) :
      Passage p first closer (t.index :: members) (some t.index) (t :: (body ++ [last]))
  /-- The condition has to be asked for without a connection, and the failure leaves the chain. -/
  | stuck {t : Turn σ} {members : List Nat} (hunconnected : t.Unconnected p)
      (hescapes : t.Escapes p first closer) : Passage p first closer (t.index :: members) none [t]

namespace Passage

variable {p : Program} {first closer : Nat} {members : List Nat} {entered? : Option Nat}
  {turns : List (Turn σ)} (h : Passage p first closer members entered? turns)

include h

/-- Each turn is one at a member or at the end, or one in the body that is entered. -/
theorem mem_cases {t : Turn σ} (ht : t ∈ turns) :
    t.index ∈ members ∨ t.index = closer ∨ ∃ k ∈ members, entered? = some k ∧ p.InBranch k t.index := by
  induction h with
  | closed hlast =>
    obtain rfl := List.mem_singleton.1 ht
    exact .inr (.inl hlast)
  | refused hdecides _ ih =>
    rcases List.mem_cons.1 ht with rfl | ht
    · exact .inl List.mem_cons_self
    · rcases ih ht with hmember | hcloser | ⟨k, hk, hentered, hbranch⟩
      · exact .inl (List.mem_cons_of_mem _ hmember)
      · exact .inr (.inl hcloser)
      · exact .inr (.inr ⟨k, List.mem_cons_of_mem _ hk, hentered, hbranch⟩)
  | through henters hbody hlater hlast =>
    simp only [List.mem_cons, List.mem_append, List.not_mem_nil, or_false] at ht
    rcases ht with rfl | ht | ht | rfl
    · exact .inl List.mem_cons_self
    · exact .inr (.inr ⟨_, List.mem_cons_self, rfl, hbody t ht⟩)
    · exact .inl (List.mem_cons_of_mem _ (List.mem_map_of_mem ht))
    · exact .inr (.inl hlast)
  | left henters hbody hlast hescapes =>
    simp only [List.mem_cons, List.mem_append, List.not_mem_nil, or_false] at ht
    rcases ht with rfl | ht | rfl
    · exact .inl List.mem_cons_self
    · exact .inr (.inr ⟨_, List.mem_cons_self, rfl, hbody t ht⟩)
    · exact .inr (.inr ⟨_, List.mem_cons_self, rfl, hlast⟩)
  | stuck hunconnected hescapes =>
    obtain rfl := List.mem_singleton.1 ht
    exact .inl List.mem_cons_self

/-- No statement is dispatched in a body other than the one that is entered. -/
theorem entered_of_inBranch {k : Nat} (hnested : p.Nested) (hchain : p.Chain first members closer)
    (hk : k ∈ members) {t : Turn σ} (ht : t ∈ turns) (hbranch : p.InBranch k t.index) :
    entered? = some k := by
  obtain ⟨hunique, hmember, hcloser⟩ := hchain.unique_branch hnested hk hbranch
  rcases h.mem_cases ht with hmember' | hcloser' | ⟨k', hk', hentered, hbranch'⟩
  · exact absurd hmember' hmember
  · exact absurd hcloser' hcloser
  · rw [hentered, hunique k' hk' hbranch']

/-- Without a failure that leaves the chain the run gets to its end, and it has entered a body if there is an
`else`. -/
theorem complete (hstatements : ∀ t ∈ turns, p.get? t.index = some t.statement)
    (hstays : ∀ t ∈ turns, ¬t.Escapes p first closer) :
    closer ∈ turns.map Turn.index ∧
      ∀ k ∈ members, p.kind? k = some (.directive .otherwise) → entered?.isSome = true := by
  induction h with
  | closed hlast => simp [hlast]
  | @refused t members entered? turns hdecides _ ih =>
    obtain ⟨hstatement, hstatements⟩ := List.forall_mem_cons.1 hstatements
    obtain ⟨hcloser, hentered⟩ := ih hstatements (List.forall_mem_cons.1 hstays).2
    refine ⟨List.mem_cons_of_mem _ hcloser, List.forall_mem_cons.2 ⟨fun hkind => ?_, hentered⟩⟩
    -- a member that has a condition is no `else`
    obtain ⟨told, hx, hmem, -, -⟩ := hdecides
    rw [Program.kind?_of_get? hstatement, hx] at hkind
    obtain rfl := StatementKind.directive.inj (Option.some.inj hkind)
    simp at hmem
  | through henters hbody hlater hlast => simp [hlast]
  | left henters hbody hlast hescapes => exact absurd hescapes (hstays _ (by simp))
  | stuck hunconnected hescapes => exact absurd hescapes (hstays _ (by simp))

end Passage

/-! ## The turns of a run that belong to a chain -/

/-- The turns at the statements from `first` to `closer`. -/
def turnsWithin (first closer : Nat) (turns : List (Turn σ)) : List (Turn σ) :=
  turns.filter fun t => first ≤ t.index ∧ t.index ≤ closer

/-- The turns up to the end of a chain. -/
def upTo (closer : Nat) (turns : List (Turn σ)) : List (Turn σ) := turns.filter fun t => t.index ≤ closer

section

omit [Connection σ]

variable {closer : Nat} {turns body : List (Turn σ)}

theorem upTo_cons {pc : Nat} (s : Statement) (m : Machine σ) (hle : pc ≤ closer) :
    upTo closer (⟨pc, s, m⟩ :: turns) = ⟨pc, s, m⟩ :: upTo closer turns :=
  List.filter_cons_of_pos (decide_eq_true hle)

theorem upTo_append (hbody : ∀ t ∈ body, t.index ≤ closer) :
    upTo closer (body ++ turns) = body ++ upTo closer turns := by
  have hself : upTo closer body = body := List.filter_eq_self.2 fun t ht => decide_eq_true (hbody t ht)
  unfold upTo at hself ⊢
  rw [List.filter_append, hself]

theorem upTo_eq_nil (hturns : ∀ t ∈ turns, closer < t.index) : upTo closer turns = [] :=
  List.filter_eq_nil_iff.2 fun t ht hle => absurd (of_decide_eq_true hle) (Nat.not_le.2 (hturns t ht))

end

/-! ## The run at a chain -/

namespace Program

variable {p : Program} {i k pc next first closer opener : Nat} {members : List Nat} {around : List OpenBlock}
  {outer : Bool} {connection : Option σ} {m : Machine σ} {rest : List Scope}

theorem InBranch.le_closer {j : Nat} (hbranch : p.InBranch k j) (h : p.Nested)
    (hadjacent : p.Adjacent k next) (hchain : p.Chain next members closer) : k ≤ j ∧ j ≤ closer := by
  obtain ⟨next', hadjacent', hbehind, hbefore⟩ := hbranch
  obtain rfl := h.adjacent_unique hadjacent hadjacent'
  have hle := hchain.le_closer
  omega

/-- Nothing of the chain is dispatched behind a failure that leaves it. -/
theorem Arrives.upTo_of_escapes (harrives : p.Arrives outer connection m pc) (h : p.Nested)
    {earlier later : List (Turn σ)} {t : Turn σ} (hturns : m.turns p pc = earlier ++ t :: later)
    (hfirst : first ≤ t.index) (hescapes : t.Escapes p first closer) : upTo closer later = [] := by
  refine upTo_eq_nil fun u hu => ?_
  obtain ⟨next, hafter, hlt, hle⟩ := harrives.exists_next_of_turns h hturns hu
  have hnext := hescapes.next next hafter
  omega

theorem upTo_turns_of_ok (h : p.Nested) (hfits : p.Fits pc m.scopes) {s : Statement} {m' : Machine σ}
    (hget : p.get? pc = some s) (hdispatch : m.dispatch p pc s = (.ok next, m')) (hle : pc ≤ closer) :
    upTo closer (m.turns p pc) = ⟨pc, s, m⟩ :: upTo closer (m'.turns p next) := by
  rw [Machine.turns_of_ok h hfits hget hdispatch, upTo_cons s m hle]

theorem Arrives.exists_last (harrives : p.Arrives outer connection m closer) (h : p.Nested)
    (hkind : p.kind? closer = some (.directive .endIf)) {taken : Bool}
    (hscopes : m.scopes = .conditional taken :: rest) :
    ∃ last, last.index = closer ∧ upTo closer (m.turns p closer) = [last] := by
  obtain ⟨s, hget, hs⟩ := exists_get?_of_kind? hkind
  obtain ⟨m', hdispatch⟩ := Machine.exists_dispatch_endIf hs hscopes
  have hbehind : upTo closer (m'.turns p (closer + 1)) = [] :=
    upTo_eq_nil fun t ht => ((harrives.next hget hdispatch).of_mem_turns h ht).1
  refine ⟨⟨closer, s, m⟩, rfl, ?_⟩
  rw [upTo_turns_of_ok h (harrives.fits h).2 hget hdispatch (Nat.le_refl _), hbehind]

/-- Behind the body that has been entered the other members are passed over. -/
theorem Arrives.exists_later (harrives : p.Arrives outer connection m k) (h : p.Nested)
    (hchain : p.Chain k members closer) (hadjacent : p.Adjacent i k)
    (hscopes : m.scopes = .conditional true :: rest) :
    ∃ later last, upTo closer (m.turns p k) = later ++ [last] ∧ later.map Turn.index = members ∧
      (∀ t ∈ later, t.Skips p) ∧ last.index = closer := by
  induction hchain generalizing i m with
  | closes hkind =>
    obtain ⟨last, hlast, hturns⟩ := harrives.exists_last h hkind hscopes
    exact ⟨[], last, hturns, rfl, by simp, hlast⟩
  | @member x k next closer members hkind hx hnext hrest ih =>
    obtain ⟨s, hget, hs⟩ := exists_get?_of_kind? hkind
    have hdivides := hadjacent.divides hkind hx
    have hbranches : x.branches = true := by rcases hdivides with rfl | rfl <;> rfl
    obtain ⟨m', hscopes', hdispatch, hskips⟩ := Machine.skips_member p k hs hdivides hscopes
    rw [hnext.getD_target hget hs hbranches] at hdispatch
    obtain ⟨later, last, hlater, rfl, hall, hlast⟩ := ih (harrives.next hget hdispatch) hnext hscopes'
    have hle : k ≤ closer := Nat.le_of_lt (Nat.lt_of_lt_of_le hnext.lt hrest.le_closer)
    have hturns := upTo_turns_of_ok h (harrives.fits h).2 hget hdispatch hle
    refine ⟨⟨k, s, m⟩ :: later, last, ?_, rfl, List.forall_mem_cons.2 ⟨hskips, hall⟩, hlast⟩
    rw [hturns, hlater, List.cons_append]

/-- The run enters a body of the chain. -/
theorem Arrives.passage_of_enters (harrives : p.Arrives outer connection m (k + 1)) (h : p.Nested)
    {s : Statement} {before : Machine σ} (henters : (⟨k, s, before⟩ : Turn σ).Enters p)
    (hfirst : first ≤ k) (hopener : p.kind? opener = some (.directive .ifThen))
    (hopen : p.openBlocks (k + 1) = ⟨opener, k⟩ :: around) (hadjacent : p.Adjacent k next)
    (hchain : p.Chain next members closer) (hscopes : m.scopes = .conditional true :: rest) :
    Passage p first closer (k :: members) (some k) (⟨k, s, before⟩ :: upTo closer (m.turns p (k + 1))) := by
  have hfits := (harrives.fits h).2
  have hlength := hfits.length_eq
  rw [hopen, hscopes] at hlength
  have hscope : ScopeAt (.conditional true) around.length m.scopes :=
    ⟨rest, hscopes ▸ List.suffix_rfl, by simpa using hlength.symm⟩
  have hbehind := hchain.handledBehind hadjacent hopen
  obtain ⟨body, hbody, hcases⟩ := harrives.exists_body (b := ⟨opener, k⟩) h first hopener hadjacent hopen
    (Nat.lt_succ_self k) hadjacent.lt hscope hbehind
  have hbody_le : ∀ t ∈ body, t.index ≤ closer := fun t ht => ((hbody t ht).le_closer h hadjacent hchain).2
  rcases hcases with ⟨m', harrives', hscope', hturns⟩ | ⟨t, later, hbranch, hescapes, hturns⟩
  · -- the body is left at its end, and the chain still knows that it has been entered
    have hlength' := (harrives'.fits h).2.length_eq
    rw [openBlocks_of_adjacent hadjacent, hopen] at hlength'
    obtain ⟨rest', hscopes'⟩ := hscope'.exists_eq_cons hlength'.symm
    obtain ⟨later, last, hlater, rfl, hskips, hlast⟩ := harrives'.exists_later h hchain hadjacent hscopes'
    rw [hturns, upTo_append hbody_le, hlater]
    exact .through henters hbody hskips hlast
  · obtain ⟨hle, hle'⟩ := hbranch.le_closer h hadjacent hchain
    have hnone := harrives.upTo_of_escapes h hturns (Nat.le_trans hfirst hle) hescapes
    rw [hturns, upTo_append hbody_le, upTo_cons t.statement t.before hle', hnone]
    exact .left henters hbody hbranch hescapes

/-- A condition that cannot be asked for is a failure that leaves the chain. -/
theorem Arrives.passage_of_unconnected (harrives : p.Arrives outer connection m k) (h : p.Nested)
    {s : Statement} {n : Machine σ} (hget : p.get? k = some s)
    (hunconnected : (⟨k, s, m⟩ : Turn σ).Unconnected p)
    (hstep : m.countStatement.step p k s = (.error .noConnection, n)) (hfirst : first ≤ k)
    (haround : ∀ b ∈ p.openBlocks k, b ∈ around ∨ p.kind? b.opener = some (.directive .ifThen))
    (hbehind : p.HandledBehind closer around) (hle : k ≤ closer) :
    Passage p first closer (k :: members) none (upTo closer (m.turns p k)) := by
  have hfits := (harrives.fits h).2
  have hescapes : (⟨k, s, m⟩ : Turn σ).Escapes p first closer := by
    refine escapes_of_failure first hstep fun handler m' hdispatch => ?_
    obtain ⟨hsuffix, hattempt, hnext, hkind, -, -, -⟩ := harrives.caught h hget hstep hdispatch
    rcases haround _ (hsuffix.subset List.mem_cons_self) with hmem | hopener
    · exact hbehind _ hmem handler hnext hkind
    · simp [hopener] at hattempt
  have hturns : ∃ later, m.turns p k = ⟨k, s, m⟩ :: later := by
    rcases hdispatch : m.dispatch p k s with ⟨failure | i, m'⟩
    · exact ⟨[], Machine.turns_of_error hget hdispatch⟩
    · exact ⟨_, Machine.turns_of_ok h hfits hget hdispatch⟩
  obtain ⟨later, hturns⟩ := hturns
  have hnone := harrives.upTo_of_escapes h (hturns.trans (List.nil_append _).symm) hfirst hescapes
  rw [hturns, upTo_cons s m hle, hnone]
  exact .stuck hunconnected hescapes

/-- A member with a condition, by what comes of those behind it. -/
theorem Arrives.exists_passage_of_condition (harrives : p.Arrives outer connection m k) (h : p.Nested)
    {s : Statement} {x : Directive} (hget : p.get? k = some s) (hs : s.kind = .directive x)
    (hmember : x = .ifThen ∧ m.scopes = rest ∨ x = .elseIf ∧ m.scopes = .conditional false :: rest)
    (hopener : p.kind? opener = some (.directive .ifThen)) (hfirst : first ≤ k)
    (hopen : p.openBlocks (k + 1) = ⟨opener, k⟩ :: around)
    (haround : ∀ b ∈ p.openBlocks k, b ∈ around ∨ p.kind? b.opener = some (.directive .ifThen))
    (hadjacent : p.Adjacent k next) (hchain : p.Chain next members closer)
    (hrest : ∀ m', p.Arrives outer connection m' next → m'.scopes = .conditional false :: rest →
      ∃ entered?, Passage p first closer members entered? (upTo closer (m'.turns p next))) :
    ∃ entered?, Passage p first closer (k :: members) entered? (upTo closer (m.turns p k)) := by
  have hbranches : x.branches = true := by
    obtain ⟨rfl, -⟩ | ⟨rfl, -⟩ := hmember <;> rfl
  have hfits := (harrives.fits h).2
  have hle : k ≤ closer := Nat.le_of_lt (Nat.lt_of_lt_of_le hadjacent.lt hchain.le_closer)
  have hcases := Machine.decides_member p k hs hmember
  rw [hadjacent.getD_target hget hs hbranches] at hcases
  rcases hcases with ⟨taken, m', hscopes', hdispatch, hdecides⟩ | ⟨hunconnected, n, hstep⟩
  · have harrives' := harrives.next hget hdispatch
    rw [upTo_turns_of_ok h hfits hget hdispatch hle]
    cases taken with
    | true =>
      have henters : (⟨k, s, m⟩ : Turn σ).Enters p := ⟨.inl hdecides, congrArg Prod.fst hdispatch⟩
      exact ⟨_, harrives'.passage_of_enters h henters hfirst hopener hopen hadjacent hchain hscopes'⟩
    | false =>
      obtain ⟨entered?, hpassage⟩ := hrest m' harrives' hscopes'
      exact ⟨entered?, .refused hdecides hpassage⟩
  · have hbehind := hchain.handledBehind hadjacent hopen
    exact ⟨none, harrives.passage_of_unconnected h hget hunconnected hstep hfirst haround hbehind hle⟩

/-- From a further member on, as long as no body has been entered. -/
theorem Arrives.exists_passage_of_refused (harrives : p.Arrives outer connection m k) (h : p.Nested)
    (hchain : p.Chain k members closer) (hadjacent : p.Adjacent i k) (hfirst : first ≤ i)
    (hopener : p.kind? opener = some (.directive .ifThen))
    (hopen : p.openBlocks (i + 1) = ⟨opener, i⟩ :: around)
    (hscopes : m.scopes = .conditional false :: rest) :
    ∃ entered?, Passage p first closer members entered? (upTo closer (m.turns p k)) := by
  induction hchain generalizing i m with
  | closes hkind =>
    obtain ⟨last, hlast, hturns⟩ := harrives.exists_last h hkind hscopes
    exact ⟨none, hturns ▸ .closed hlast⟩
  | @member x k next closer members hkind hx hnext hrest ih =>
    obtain ⟨s, hget, hs⟩ := exists_get?_of_kind? hkind
    have hdivides := hadjacent.divides hkind hx
    have hopen' := openBlocks_succ_of_divides hadjacent hkind hdivides hopen
    have hfirst' : first ≤ k := Nat.le_trans hfirst (Nat.le_of_lt hadjacent.lt)
    rcases hdivides with rfl | rfl
    · have haround : ∀ b ∈ p.openBlocks k, b ∈ around ∨ p.kind? b.opener = some (.directive .ifThen) := by
        rw [openBlocks_of_adjacent hadjacent, hopen]
        exact List.forall_mem_cons.2 ⟨.inr hopener, fun b hb => .inl hb⟩
      exact harrives.exists_passage_of_condition h hget hs (.inr ⟨rfl, hscopes⟩) hopener hfirst' hopen'
        haround hnext hrest fun m' harrives' hscopes' => ih harrives' hnext hfirst' hopen' hscopes'
    · obtain ⟨m', hscopes', hdispatch, henters⟩ := Machine.enters_otherwise p k hs hscopes
      have hle : k ≤ closer := Nat.le_of_lt (Nat.lt_of_lt_of_le hnext.lt hrest.le_closer)
      rw [upTo_turns_of_ok h (harrives.fits h).2 hget hdispatch hle]
      exact ⟨_, (harrives.next hget hdispatch).passage_of_enters h henters hfirst' hopener hopen' hnext hrest
        hscopes'⟩

/-- From its first member on a chain is passed in one of the ways there are. -/
theorem Arrives.exists_passage (harrives : p.Arrives outer connection m k) (h : p.Nested)
    (hkind : p.kind? k = some (.directive .ifThen)) (hchain : p.Chain k members closer) :
    ∃ entered?, Passage p k closer members entered? (upTo closer (m.turns p k)) := by
  obtain ⟨s, hget, hs⟩ := exists_get?_of_kind? hkind
  cases hchain with
  | closes hcloser => simp [hkind] at hcloser
  | member _ _ hnext hrest =>
    have hopen := openBlocks_succ hkind
    exact harrives.exists_passage_of_condition h hget hs (.inl ⟨rfl, rfl⟩) hkind (Nat.le_refl k) hopen
      (fun b hb => .inl hb) hnext hrest fun m' harrives' hscopes' =>
        harrives'.exists_passage_of_refused h hrest hnext (Nat.le_refl k) hkind hopen hscopes'

theorem Arrives.turnsWithin_turns (harrives : p.Arrives outer connection m first) (h : p.Nested)
    (hexecutable : p.executable = true) (closer : Nat) :
    turnsWithin first closer (p.turns outer connection) = upTo closer (m.turns p first) := by
  obtain ⟨earlier, hturns, hearlier⟩ := harrives.exists_turns h hexecutable
  have hnone : turnsWithin first closer earlier = [] :=
    List.filter_eq_nil_iff.2 fun t ht hwithin =>
      absurd (of_decide_eq_true hwithin).1 (Nat.not_le.2 (hearlier t ht))
  have hall : turnsWithin first closer (m.turns p first) = upTo closer (m.turns p first) :=
    List.filter_congr fun t ht => by simp [(harrives.of_mem_turns h ht).1]
  unfold turnsWithin at hnone hall ⊢
  rw [hturns, List.filter_append, hnone, hall, List.nil_append]

/-- Behind a failure that leaves a chain nothing of the chain is dispatched any more. -/
theorem Arrives.eq_nil_of_escapes (harrives : p.Arrives outer connection m first) (h : p.Nested)
    {earlier later : List (Turn σ)} {t : Turn σ}
    (hturns : upTo closer (m.turns p first) = earlier ++ t :: later)
    (hescapes : t.Escapes p first closer) : later = [] := by
  obtain ⟨before, behind, hsplit, -, hbehind⟩ := List.filter_eq_append_iff.1 hturns
  obtain ⟨between, rest, rfl, -, -, rfl⟩ := List.filter_eq_cons_iff.1 hbehind
  rw [← List.append_assoc] at hsplit
  have hmem : t ∈ m.turns p first := by simp [hsplit]
  exact harrives.upTo_of_escapes h hsplit (harrives.of_mem_turns h hmem).1 hescapes

theorem not_dispatched_of_refuse (p : Program) (marker : String) (outer : Bool) (connection : Option σ)
    (hexecutable : p.executable = false) : indicesOf (p.run marker outer connection).events = [] := by
  unfold run
  rw [hexecutable]
  rfl

/-- A run that gets to a chain looks at its members one after the other, and at a condition once, up to the
first that is true or to the `else`; it goes through the body behind that member and passes over the rest. A
literal asks nothing of the connection, any other condition is executed once and is false if that fails, and
without a connection it is a failure. The only other ways are those of a failure that leaves the chain, behind
which nothing of the chain is dispatched; if there is none the run gets to the `endif`, by way of a body if
there is an `else`. -/
theorem chain_enters_one_body_at_most {d : Dialect} {fragments : List Fragment} (marker : String)
    (outer : Bool) (connection : Option σ) {i : Nat}
    (hopener : (assemble d fragments).kind? i = some (.directive .ifThen))
    (hreached : i ∈ indicesOf ((assemble d fragments).run marker outer connection).events) :
    let p := assemble d fragments
    let turns := p.turns outer connection
    (turns.map Turn.index = indicesOf (p.run marker outer connection).events ∧
      ∀ t ∈ turns, p.Arrives outer connection t.before t.index ∧ p.get? t.index = some t.statement) ∧
    ∃ members closer entered?, p.Chain i members closer ∧
      let here := turnsWithin i closer turns
      Passage p i closer members entered? here ∧
      (∀ t ∈ here, ∀ k ∈ members, p.InBranch k t.index → entered? = some k) ∧
      (∀ earlier t later, here = earlier ++ t :: later → t.Escapes p i closer → later = []) ∧
      ((∀ t ∈ here, ¬t.Escapes p i closer) → closer ∈ here.map Turn.index ∧
        ∀ k ∈ members, p.kind? k = some (.directive .otherwise) → entered?.isSome = true) := by
  intro p turns
  have hexecutable : p.executable = true := by
    rw [← Bool.not_eq_false]
    intro hrefused
    simp [p.not_dispatched_of_refuse marker outer connection hrefused, p] at hreached
  have h : p.Nested := nested_assemble (executable_assemble_iff.1 hexecutable)
  obtain ⟨m, harrives⟩ := exists_arrives_of_mem_indicesOf marker outer connection h hreached
  obtain ⟨members, closer, hchain⟩ := h.exists_chain hopener (by decide)
  obtain ⟨entered?, hpassage⟩ := harrives.exists_passage h hopener hchain
  have hhere := harrives.turnsWithin_turns h hexecutable closer
  refine ⟨⟨(p.indicesOf_run marker outer connection).symm, fun t ht => of_mem_turns h ht⟩,
    members, closer, entered?, hchain, ?_⟩
  dsimp only
  rw [hhere]
  have hstatements : ∀ t ∈ upTo closer (m.turns p i), p.get? t.index = some t.statement :=
    fun t ht => (harrives.of_mem_turns h (List.mem_of_mem_filter ht)).2.2
  exact ⟨hpassage, fun t ht k hk hbranch => hpassage.entered_of_inBranch h hchain hk ht hbranch,
    fun earlier t later hturns hescapes => harrives.eq_nil_of_escapes h hturns hescapes,
    fun hstays => hpassage.complete hstatements hstays⟩

/-- The database refuses the first condition, and the second is a literal, for which nothing is called. The
body behind that is entered, and the `else` is passed over. -/
theorem chain_enters_body_behind_literal :
    let ts : List Tree := [.chain ⟨"A", "--if A", 1⟩ [.sql ⟨"B", "B", 2⟩]
      (.elseIf ⟨"true", "--elseif true", 3⟩ [.sql ⟨"C", "C", 4⟩]
        (.otherwise ⟨"", "--else", 5⟩ [.sql ⟨"D", "D", 6⟩] ⟨"", "--endif", 7⟩))]
    let p := assemble {} (Tree.flattenAll ts)
    let r : Rehearsal := { statements := [(1, .error (.statement (-204) "A failed"))] }
    p.kind? 0 = some (.directive .ifThen) ∧
      indicesOf (p.run "--" false (some r)).events = [0, 2, 3, 4, 6] ∧
      p.calls "--" false (some r) = [⟨.execute "A", false⟩, ⟨.execute "C", true⟩] ∧
      ∃ members closer entered?, p.Chain 0 members closer ∧
        Passage p 0 closer members entered? (turnsWithin 0 closer (p.turns false (some r))) := by
  intro ts p r
  have hkind : p.kind? 0 = some (.directive .ifThen) := by decide
  have hindices : indicesOf (p.run "--" false (some r)).events = [0, 2, 3, 4, 6] := by decide +kernel
  have hcalls : p.calls "--" false (some r) = [⟨.execute "A", false⟩, ⟨.execute "C", true⟩] := by
    decide +kernel
  have hreached : 0 ∈ indicesOf (p.run "--" false (some r)).events := by
    rw [hindices]
    exact List.mem_cons_self
  obtain ⟨-, members, closer, entered?, hchain, hpassage, -⟩ :=
    chain_enters_one_body_at_most "--" false (some r) hkind hreached
  exact ⟨hkind, hindices, hcalls, members, closer, entered?, hchain, hpassage⟩

end Program

end SqlFlow
