import SqlFlow.Proofs.Refusal

/-!
# Blocks that are left open

The pass keeps of a chain its present member, and goes back from there to the `if` by the targets: to the
statement that leads to the member, to the one that leads to that, and so on.

* `previous?` and `ChainHead`: one step of this way, and the way as a whole.
* `Assembly.Unlinked`: nothing leads on from the present members of the open blocks. So a link that is
  made changes no step of the way from a member that is there (`previous?_next`).
* `Block.Traced`: an open block has the opener and the present member of the fragments, and the way back
  through a chain ends at its opener. `traced_of_admits` is the step of the pass, `traced_of_behind` the
  invariant.
* `Assembly.Behind.finish_eq_refuse_opener`: the opener that the pass keeps is the one that this way leads to.
* `unclosed_names_innermost_opener`: the error of fragments that leave a block open.
-/

namespace SqlFlow

def kindAt (statements : Array Statement) (i : Nat) : Option StatementKind :=
  statements[i]?.map Statement.kind

def targetAt (statements : Array Statement) (i : Nat) : Option Nat :=
  statements[i]?.bind Statement.target

/-- The way back through a chain goes from its member `i` to the first statement that leads to `i`. It
ends at an `if`, and where no statement leads. -/
def previous? (statements : Array Statement) (i : Nat) : Option Nat :=
  if kindAt statements i = some (.directive .ifThen) then none
  else statements.findIdx? fun s => s.target = some i

/-- The way back from `i` ends at `k`. -/
inductive ChainHead (statements : Array Statement) : Nat → Nat → Prop where
  | here {i : Nat} (h : previous? statements i = none) : ChainHead statements i i
  | back {i j k : Nat} (h : previous? statements i = some j) (rest : ChainHead statements j k) :
      ChainHead statements i k

section

variable {statements statements' : Array Statement} {i j k : Nat}

theorem previous?_of_ifThen (h : kindAt statements i = some (.directive .ifThen)) :
    previous? statements i = none := by
  rw [previous?, if_pos h]

theorem previous?_eq_some_iff : previous? statements i = some j ↔
    kindAt statements i ≠ some (.directive .ifThen) ∧ targetAt statements j = some i ∧
      ∀ k < j, targetAt statements k ≠ some i := by
  have htarget : ∀ k (hk : k < statements.size),
      targetAt statements k = some i ↔ statements[k].target = some i := by
    intro k hk
    simp [targetAt, hk]
  have hlt : ∀ k, targetAt statements k = some i → k < statements.size := by
    intro k hk
    obtain ⟨s, hs, -⟩ := Option.bind_eq_some_iff.1 hk
    exact (Array.getElem?_eq_some_iff.1 hs).1
  unfold previous?
  split
  · next hif => simp [hif]
  · next hif =>
    simp only [hif, ne_eq, not_false_eq_true, true_and, Array.findIdx?_eq_some_iff_getElem,
      decide_eq_true_eq]
    constructor
    · rintro ⟨hj, ht, hfirst⟩
      exact ⟨(htarget j hj).2 ht, fun k hk h => hfirst k hk ((htarget k (hlt k h)).1 h)⟩
    · rintro ⟨ht, hfirst⟩
      have hj := hlt j ht
      exact ⟨hj, (htarget j hj).1 ht, fun k hk h => hfirst k hk ((htarget k (Nat.lt_trans hk hj)).2 h)⟩

/-- There is one end of the way. -/
theorem ChainHead.unique {k' : Nat} (h : ChainHead statements i k) (h' : ChainHead statements i k') :
    k = k' := by
  induction h with
  | here h =>
    cases h' with
    | here => rfl
    | back hback => cases h.symm.trans hback
  | back hback _ ih =>
    cases h' with
    | here h => cases h.symm.trans hback
    | back hback' rest =>
      obtain rfl := Option.some.inj (hback.symm.trans hback')
      exact ih rest

/-- Where targets lead forward, the way leads back. -/
theorem lt_of_previous? (hforward : TargetsForward statements) (h : previous? statements i = some j) :
    j < i ∧ i < statements.size := by
  obtain ⟨-, ht, -⟩ := previous?_eq_some_iff.1 h
  obtain ⟨s, hs, ht⟩ := Option.bind_eq_some_iff.1 ht
  exact hforward j s i hs ht

/-- The way from a statement stays as it is when the steps from there and from earlier statements do. -/
theorem ChainHead.congr (hforward : TargetsForward statements) (hi : i < statements.size)
    (hsame : ∀ j < statements.size, previous? statements' j = previous? statements j)
    (h : ChainHead statements i k) : ChainHead statements' i k := by
  induction h with
  | @here i h => exact .here ((hsame i hi).trans h)
  | @back i j k hback _ ih =>
    obtain ⟨hlt, -⟩ := lt_of_previous? hforward hback
    exact .back ((hsame i hi).trans hback) (ih (Nat.lt_trans hlt hi))

end

/-! ## One more statement -/

/-- The inner block has its present member behind that of the outer one. -/
def Block.MemberBehind (inner outer : Block) : Prop :=
  ∀ i j, inner.member? = some i → outer.member? = some j → j < i

/-- What a directive does to the open blocks: it may end the innermost one, or its present body, and
then takes that one's link; and it may begin a body. -/
theorem Nesting.Admits.exists_kept {opener : Opener} {here : Nat} {blocks blocks' : Nesting}
    {links : Option Nat} (h : Admits opener here blocks links blocks') :
    ∃ kept, (blocks = kept ∧ links = none ∨ ∃ b, blocks = b :: kept ∧ links = b.member?) ∧
      (blocks' = kept ∨ ∃ b, blocks' = b :: kept ∧ ∀ i, b.member? = some i → i = here) := by
  cases h with
  | debug => exact ⟨_, .inl ⟨rfl, rfl⟩, .inl rfl⟩
  | ifThen | attempt =>
    exact ⟨_, .inl ⟨rfl, rfl⟩, .inr ⟨_, rfl, fun i hi => (Option.some.inj hi).symm⟩⟩
  | beginTransaction => exact ⟨_, .inl ⟨rfl, rfl⟩, .inr ⟨_, rfl, nofun⟩⟩
  | elseIf | otherwise | handler =>
    exact ⟨_, .inr ⟨_, rfl, rfl⟩, .inr ⟨_, rfl, fun i hi => (Option.some.inj hi).symm⟩⟩
  | endIf | endAttempt | endTransaction => exact ⟨_, .inr ⟨_, rfl, rfl⟩, .inl rfl⟩

namespace Assembly

variable {d : Dialect} {a b : Assembly} {f : Fragment} {links : Option Nat} {s : Statement}

/-- The pass with one more statement, to which an earlier one is linked. -/
def next (a : Assembly) (links : Option Nat) (s : Statement) : Array Statement :=
  (a.link links).statements.push s

theorem kindAt_next {i : Nat} (hi : i < a.statements.size) :
    kindAt (a.next links s) i = kindAt a.statements i := by
  have hsize : i ≠ (a.link links).statements.size := by rw [size_link]; omega
  rw [kindAt, next, Array.getElem?_push, if_neg hsize]
  cases links with
  | none => rfl
  | some m =>
    simp only [link, Array.getElem?_modify, kindAt]
    split <;> simp [Function.comp_def]

theorem kindAt_next_size (a : Assembly) (links : Option Nat) (s : Statement) :
    kindAt (a.next links s) a.statements.size = some s.kind := by
  rw [kindAt, next, Array.getElem?_push, size_link, if_pos rfl, Option.map_some]

/-- The statement that is linked has the new one as its target, and nothing else changes. -/
theorem targetAt_next (a : Assembly) (links : Option Nat) (s : Statement) (hs : s.target = none)
    (hlinks : ∀ m, links = some m → m < a.statements.size) (i : Nat) :
    targetAt (a.next links s) i =
      if links = some i then some a.statements.size else targetAt a.statements i := by
  rw [targetAt, next, Array.getElem?_push, size_link]
  split
  · next hi =>
    subst hi
    rw [if_neg fun h => Nat.lt_irrefl _ (hlinks _ h)]
    simp [targetAt, hs]
  · cases links with
    | none => rfl
    | some m =>
      simp only [link, Array.getElem?_modify, Option.some.injEq]
      split
      · next hm =>
        subst hm
        simp [hlinks m rfl]
      · rfl

/-- Nothing leads on from the present members of the open blocks, which lie each behind that of the next
outer block. -/
structure Unlinked (a : Assembly) : Prop where
  target : ∀ b ∈ a.blocks, ∀ i, b.member? = some i → targetAt a.statements i = none
  order : a.blocks.Pairwise Block.MemberBehind

/-- The next statement changes no step of the way back from one that is there. -/
theorem previous?_next (hs : s.target = none)
    (hlinks : ∀ m, links = some m → m < a.statements.size ∧ targetAt a.statements m = none) {i : Nat}
    (hi : i < a.statements.size) : previous? (a.next links s) i = previous? a.statements i := by
  have htarget : ∀ k, targetAt (a.next links s) k = some i ↔ targetAt a.statements k = some i := by
    intro k
    rw [targetAt_next _ _ _ hs (fun m hm => (hlinks m hm).1)]
    split
    · next hk =>
      have hnone := (hlinks k hk).2
      simp only [hnone, reduceCtorEq, iff_false, Option.some.injEq]
      omega
    · rfl
  ext j
  simp only [previous?_eq_some_iff, kindAt_next hi, htarget, ne_eq]

/-- The way back from the next statement begins at the one that is linked to it. -/
theorem previous?_next_size (hforward : TargetsForward a.statements) (hs : s.target = none)
    (hkind : s.kind ≠ .directive .ifThen) {m : Nat} (hm : m < a.statements.size) :
    previous? (a.next (some m) s) a.statements.size = some m := by
  have htarget := targetAt_next a (some m) s hs
    fun i hi => Option.some.inj hi ▸ hm
  refine previous?_eq_some_iff.2 ⟨?_, ?_, fun k hk => ?_⟩
  · rw [kindAt_next_size]
    exact fun h => hkind (Option.some.inj h)
  · rw [htarget, if_pos rfl]
  · rw [htarget, if_neg fun h => by simp only [Option.some.injEq] at h; omega]
    intro h
    obtain ⟨s', hs', ht⟩ := Option.bind_eq_some_iff.1 h
    exact Nat.lt_irrefl _ (hforward k s' _ hs' ht).2

/-- What a fragment adds that is not refused: a statement without a target, and a link if the fragment is
a directive that continues a block. -/
theorem next_cases (hadd : a.add d f = .ok b) :
    (∃ s : Statement, s.target = none ∧ f.kind = .sql ∧ b.statements = a.next none s ∧
      b.blocks = a.blocks) ∨
    ∃ (l : Line) (x : Directive) (links : Option Nat), f = l.directive x ∧
      Nesting.Admits (l.opener x) a.statements.size a.blocks links b.blocks ∧
      b.statements = a.next links (l.statement (.directive x)) := by
  rcases add_cases hadd with ⟨l, rfl, rfl⟩ | ⟨l, x, links, blocks, rfl, -, hadmits, rfl⟩
  · exact .inl ⟨l.statement .sql, rfl, rfl, by simp [extend, next, link], rfl⟩
  · exact .inr ⟨l, x, links, rfl, hadmits, by simp [extend, next]⟩

/-- The statement that a directive is linked to is there, and nothing leads on from it. -/
theorem Unlinked.of_links (h : a.Unlinked) (hforward : a.Forward) {opener : Opener} {here m : Nat}
    {blocks : Nesting} (hadmits : Nesting.Admits opener here a.blocks links blocks)
    (hm : links = some m) : m < a.statements.size ∧ targetAt a.statements m = none := by
  obtain ⟨kept, ⟨-, rfl⟩ | ⟨b, hblocks, rfl⟩, -⟩ := hadmits.exists_kept
  · cases hm
  · have hb : b ∈ a.blocks := hblocks ▸ List.mem_cons_self
    exact ⟨hforward.blocks b hb m hm, h.target b hb m hm⟩

theorem Unlinked.add (h : a.Unlinked) (hforward : a.Forward) (hadd : a.add d f = .ok b) :
    b.Unlinked := by
  rcases next_cases hadd with
    ⟨s, hs, -, hstatements, hblocks⟩ | ⟨l, x, links, rfl, hadmits, hstatements⟩
  · refine ⟨fun c hc i hi => ?_, hblocks ▸ h.order⟩
    rw [hstatements, targetAt_next _ _ _ hs (fun m hm => by cases hm), if_neg (by simp)]
    exact h.target c (hblocks ▸ hc) i hi
  · have htarget := targetAt_next a links (l.statement (.directive x)) rfl
      fun m hm => (h.of_links hforward hadmits hm).1
    obtain ⟨kept, hbefore, hbehind⟩ := hadmits.exists_kept
    have hkept : kept <:+ a.blocks := by
      rcases hbefore with ⟨hblocks, -⟩ | ⟨c, hblocks, -⟩
      · exact hblocks ▸ List.suffix_rfl
      · exact hblocks ▸ List.suffix_cons ..
    have horder : kept.Pairwise Block.MemberBehind := h.order.sublist hkept.sublist
    -- the link is made at the innermost block, which the kept ones lie around
    have hloose : ∀ c ∈ kept, ∀ i, c.member? = some i → targetAt b.statements i = none := by
      intro c hc i hi
      rw [hstatements, htarget, if_neg]
      · exact h.target c (hkept.subset hc) i hi
      · rintro hlinks
        rcases hbefore with ⟨-, rfl⟩ | ⟨inner, hblocks, rfl⟩
        · cases hlinks
        · have horder := h.order
          rw [hblocks] at horder
          exact Nat.lt_irrefl _ ((List.pairwise_cons.1 horder).1 c hc i i hlinks hi)
    rcases hbehind with hblocks | ⟨c, hblocks, hmember⟩
    · exact ⟨hblocks ▸ hloose, hblocks ▸ horder⟩
    · refine ⟨fun c' hc' i hi => ?_,
        hblocks ▸ List.pairwise_cons.2 ⟨fun c' hc' i j hi hj => ?_, horder⟩⟩
      · rcases List.mem_cons.1 (hblocks ▸ hc') with rfl | hc'
        · rw [hmember i hi, hstatements, htarget, if_neg, targetAt, Array.getElem?_eq_none (Nat.le_refl _)]
          · rfl
          · exact fun hlinks => Nat.lt_irrefl _ (h.of_links hforward hadmits hlinks).1
        · exact hloose c' hc' i hi
      · rw [hmember i hi]
        exact hforward.blocks c' (hkept.subset hc') j hj

end Assembly

/-! ## The way back to the opener -/

/-- An open block of the pass is begun by a directive of its kind, and the way back from the present
member of a chain ends at its opener. -/
inductive Block.Traced (statements : Array Statement) : Block → OpenBlock → Prop where
  | chain {first : Opener} {o : OpenBlock} (hasElse : Bool) (h : first.directive = .ifThen)
      (hlt : o.member < statements.size) (hhead : ChainHead statements o.member o.opener) :
      Traced statements (.chain first o.member hasElse) o
  | attempt {first : Opener} {start : Nat} {o : OpenBlock} (transactional : Bool)
      (h : first.directive = .attemptOf transactional) : Traced statements (.attempt first start) o
  | handler {first : Opener} {start : Nat} {o : OpenBlock} (transactional : Bool)
      (h : first.directive = .attemptOf transactional) : Traced statements (.handler first start) o
  | transaction {first : Opener} {o : OpenBlock} (h : first.directive = .beginTransaction) :
      Traced statements (.transaction first) o

section

variable {d : Dialect} {a : Assembly} {done : List Fragment} {os : List OpenBlock}

theorem size_next (links : Option Nat) (s : Statement) :
    (a.next links s).size = a.statements.size + 1 := by
  simp [Assembly.next]

/-- A new statement leaves the open blocks traced. -/
theorem forall₂_traced_next {links : Option Nat} {s : Statement} (hforward : a.Forward)
    (hs : s.target = none)
    (hlinks : ∀ m, links = some m → m < a.statements.size ∧ targetAt a.statements m = none)
    (h : List.Forall₂ (Block.Traced a.statements) a.blocks os) :
    List.Forall₂ (Block.Traced (a.next links s)) a.blocks os := by
  refine h.imp fun block o htraced => ?_
  cases htraced with
  | chain hasElse hfirst hlt hhead =>
    refine .chain hasElse hfirst (by rw [size_next]; omega) ?_
    exact hhead.congr hforward.targets hlt fun j hj => Assembly.previous?_next hs hlinks hj
  | attempt transactional hfirst => exact .attempt transactional hfirst
  | handler transactional hfirst => exact .handler transactional hfirst
  | transaction hfirst => exact .transaction hfirst

/-- A further member of a chain comes behind the one that the way back has been known from. -/
theorem traced_of_divides {l : Line} {x : Directive} {first : Opener} {last : Nat} {hasElse : Bool}
    {o : OpenBlock} (hforward : a.Forward) (hx : x ≠ .ifThen) (hlast : last < a.statements.size)
    (h : (Block.chain first last hasElse).Traced
      (a.next (some last) (l.statement (.directive x))) o) (hasElse' : Bool) :
    (Block.chain first a.statements.size hasElse').Traced
      (a.next (some last) (l.statement (.directive x))) { o with member := a.statements.size } := by
  cases h with
  | chain _ hfirst _ hhead =>
    have hprevious : previous? (a.next (some o.member) (l.statement (.directive x))) a.statements.size =
        some o.member :=
      Assembly.previous?_next_size hforward.targets rfl
        (fun h => hx (StatementKind.directive.inj h)) hlast
    refine .chain (o := { o with member := a.statements.size }) hasElse' hfirst ?_
      (.back hprevious hhead)
    rw [size_next]
    exact Nat.lt_succ_self _

/-- One directive: the open blocks behind it are traced. -/
theorem traced_of_admits {l : Line} {x : Directive} {links : Option Nat} {blocks' : Nesting}
    (hforward : a.Forward) (hunlinked : a.Unlinked)
    (h : List.Forall₂ (Block.Traced a.statements) a.blocks os)
    (hadmits : Nesting.Admits (l.opener x) a.statements.size a.blocks links blocks') :
    List.Forall₂ (Block.Traced (a.next links (l.statement (.directive x)))) blocks'
      (x.nest a.statements.size os) := by
  have hnext := forall₂_traced_next (s := l.statement (.directive x)) hforward rfl
    (fun m hm => hunlinked.of_links hforward hadmits hm) h
  have hlink : ∀ m, links = some m → m < a.statements.size :=
    fun m hm => (hunlinked.of_links hforward hadmits hm).1
  have hsize := size_next (a := a) links (l.statement (.directive x))
  generalize a.blocks = blocks at hnext hadmits
  cases hadmits with
  | debug hx =>
    obtain rfl : x = .debug := hx
    exact hnext
  | ifThen hx =>
    obtain rfl : x = .ifThen := hx
    refine .cons (.chain (o := ⟨a.statements.size, a.statements.size⟩) false rfl ?_ (.here ?_)) hnext
    · rw [hsize]
      exact Nat.lt_succ_self _
    · exact previous?_of_ifThen (Assembly.kindAt_next_size ..)
  | attempt transactional hx =>
    obtain rfl : x = .attemptOf transactional := hx
    cases transactional with
    | false => exact .cons (.attempt false rfl) hnext
    | true => exact .cons (.attempt true rfl) hnext
  | beginTransaction hx =>
    obtain rfl : x = .beginTransaction := hx
    exact .cons (.transaction rfl) hnext
  | elseIf hx =>
    obtain rfl : x = .elseIf := hx
    cases hnext with
    | cons hat houter => exact .cons (traced_of_divides hforward (by decide) (hlink _ rfl) hat false) houter
  | otherwise hx =>
    obtain rfl : x = .otherwise := hx
    cases hnext with
    | cons hat houter => exact .cons (traced_of_divides hforward (by decide) (hlink _ rfl) hat true) houter
  | handler hx =>
    obtain rfl : x = .handler := hx
    cases hnext with
    | cons hat houter =>
      cases hat with
      | attempt transactional hfirst => exact .cons (.handler transactional hfirst) houter
  | endIf hx | endAttempt hx | endTransaction hx =>
    cases hx
    cases hnext with
    | cons _ houter => exact houter

theorem unlinked_of_behind (h : Assembly.Behind d done a) : a.Forward ∧ a.Unlinked := by
  induction h with
  | start => exact ⟨⟨by simp [TargetsForward], by simp⟩, ⟨by simp, .nil⟩⟩
  | add _ hadd ih => exact ⟨Assembly.forward_add ih.1 hadd, ih.2.add ih.1 hadd⟩

/-- At every fragment the blocks that are open in the pass are traced. -/
theorem traced_of_behind (h : Assembly.Behind d done a) :
    List.Forall₂ (Block.Traced a.statements) a.blocks (openBlocksOf done) := by
  induction h with
  | start => exact .nil
  | @add done a b f h hadd ih =>
    obtain ⟨hforward, hunlinked⟩ := unlinked_of_behind h
    have hlength : a.statements.size = done.length := by
      simpa using congrArg List.length h.content
    rw [openBlocksOf_append, ← hlength]
    rcases Assembly.next_cases hadd with
      ⟨s, hs, hkind, hstatements, hblocks⟩ | ⟨l, x, links, rfl, hadmits, hstatements⟩
    · rw [hstatements, hblocks, hkind]
      exact forall₂_traced_next hforward hs nofun ih
    · rw [hstatements]
      exact traced_of_admits hforward hunlinked ih hadmits

end

/-- The directives that open a block. -/
def Directive.openers : List Directive := [ifThen, attempt, attemptTransaction, beginTransaction]

theorem Block.Traced.mem_openers {statements : Array Statement} {block : Block} {o : OpenBlock}
    (h : block.Traced statements o) : block.opener.directive ∈ Directive.openers := by
  cases h with
  | chain hasElse hfirst => simp [Block.opener, hfirst, Directive.openers]
  | attempt transactional hfirst | handler transactional hfirst =>
    cases transactional <;> simp [Block.opener, hfirst, Directive.attemptOf, Directive.openers]
  | transaction hfirst => simp [Block.opener, hfirst, Directive.openers]

/-- Only a chain is opened by an `if`. -/
theorem Block.Traced.chainHead {statements : Array Statement} {block : Block} {o : OpenBlock}
    (h : block.Traced statements o) (hopener : block.opener.directive = .ifThen) :
    ChainHead statements o.member o.opener := by
  cases h with
  | chain hasElse hfirst hlt hhead => exact hhead
  | attempt transactional hfirst | handler transactional hfirst =>
    cases transactional <;> simp [Block.opener, hfirst, Directive.attemptOf] at hopener
  | transaction hfirst => simp [Block.opener, hfirst] at hopener

/-- The pass keeps the opener of a block with the block. It is what stands at the index of the opener, among
the statements and among the fragments, and for a chain that index is where the way back from the present
member ends. -/
theorem Assembly.Behind.finish_eq_refuse_opener {d : Dialect} {a : Assembly} {done : List Fragment}
    {o : OpenBlock} {outer : List OpenBlock} (h : Assembly.Behind d done a)
    (hopen : openBlocksOf done = o :: outer) :
    ∃ (s : Statement) (g : Fragment) (x : Directive),
      a.statements[o.opener]? = some s ∧ s.kind = .directive x ∧
      done[o.opener]? = some g ∧ g.kind = .directive x ∧ g.line = s.line ∧
      a.finish = a.refuse (.unclosed s.line x.keyword) g.raw ∧
      x ∈ Directive.openers ∧ (x = .ifThen → ChainHead a.statements o.member o.opener) := by
  have hstands := standsAt_of_behind h
  have htraced := traced_of_behind h
  rw [Assembly.finish]
  rw [hopen] at hstands htraced
  generalize a.blocks = blocks at hstands htraced
  cases hstands with
  | @cons block _ _ _ hat _ =>
    cases htraced with
    | cons hblock _ =>
      obtain ⟨g, hg, hkind, hline, hraw⟩ := hat.opener
      have hcontent : (a.statements.toList.map Statement.content)[o.opener]? = some g.content := by
        rw [h.content, List.getElem?_map, hg]
        rfl
      rw [List.getElem?_map, Array.getElem?_toList] at hcontent
      obtain ⟨s, hs, hsame⟩ := Option.map_eq_some_iff.1 hcontent
      have hskind : s.kind = g.kind.statementKind := congrArg Prod.fst hsame
      have hsline : s.line = g.line := congrArg (fun content => content.2.2) hsame
      rw [hkind] at hskind
      refine ⟨s, g, _, hs, hskind, hg, hkind, hsline.symm, ?_, hblock.mem_openers, hblock.chainHead⟩
      rw [hsline, hline, hraw]

/-- Fragments that a script can go on from, and that leave blocks open, have an error at the directive
that opened the innermost of these blocks, whatever has divided the block since. The statement that
stands for the error has that directive's text as it is written. If it is an `if`, the way back from the
present member of the chain comes to it, by ever smaller indices, and ends there. -/
theorem unclosed_names_innermost_opener {d : Dialect} {fragments : List Fragment} {o : OpenBlock}
    {outer : List OpenBlock} (hviable : ∀ fs, fs <+: fragments → Viable d fs)
    (hopen : openBlocksOf fragments = o :: outer) :
    ∃ (read : Array Statement) (g : Fragment) (x : Directive),
      read.toList.map Statement.content = fragments.map Fragment.content ∧
      fragments[o.opener]? = some g ∧ g.kind = .directive x ∧ x ∈ Directive.openers ∧
      (Program.assemble d fragments).error? = some (.unclosed g.line x.keyword) ∧
      (Program.assemble d fragments).statements =
        read.push { kind := .invalid, text := g.raw, line := g.line } ∧
      (x = .ifThen → ChainHead read o.member o.opener) ∧
      ∀ i j, previous? read i = some j → j < i := by
  obtain ⟨a, ha⟩ := Assembly.viable_iff.1 (hviable fragments List.prefix_rfl)
  obtain ⟨s, g, x, -, -, hg, hkind, hline, hfinish, hx, hhead⟩ := ha.finish_eq_refuse_opener hopen
  have hassemble := ha.assemble_eq []
  rw [List.append_nil, Assembly.run, hfinish, ← hline] at hassemble
  refine ⟨a.statements, g, x, ha.content, hg, hkind, hx, ?_, ?_, hhead,
    fun i j h => (lt_of_previous? (unlinked_of_behind ha).1.targets h).1⟩
  · rw [hassemble]
    rfl
  · rw [hassemble]
    rfl

/-- An `if` with an `elseif` and an `else`, which are written around a chain that is closed and behind an
attempt that is not. -/
theorem unclosed_names_divided_chain :
    let fragments : List Fragment :=
      [⟨.directive .attempt, "", "--try", 1⟩, ⟨.directive .ifThen, "a", "--IF  a", 2⟩,
        ⟨.directive .ifThen, "b", "--if b", 3⟩, ⟨.directive .endIf, "", "--endif", 4⟩,
        ⟨.directive .elseIf, "c", "--elseif c", 5⟩, ⟨.sql, "SELECT 1", "SELECT 1;", 6⟩,
        ⟨.directive .otherwise, "", "--else", 7⟩]
    (∀ fs, fs <+: fragments → Viable {} fs) ∧ openBlocksOf fragments = [⟨1, 6⟩, ⟨0, 0⟩] ∧
    ∃ (read : Array Statement) (g : Fragment) (x : Directive),
      read.toList.map Statement.content = fragments.map Fragment.content ∧
      fragments[1]? = some g ∧ g.kind = .directive x ∧ x ∈ Directive.openers ∧
      (Program.assemble {} fragments).error? = some (.unclosed g.line x.keyword) ∧
      (Program.assemble {} fragments).statements =
        read.push { kind := .invalid, text := g.raw, line := g.line } ∧
      (x = .ifThen → ChainHead read 6 1) ∧
      ∀ i j, previous? read i = some j → j < i := by
  intro fragments
  have hviable : ∀ fs, fs <+: fragments → Viable {} fs := by
    rintro fs ⟨more, hmore⟩
    refine ⟨more ++ [⟨.directive .endIf, "", "--endif", 8⟩, ⟨.directive .handler, "", "--catch", 9⟩,
      ⟨.directive .endAttempt, "", "--endtry", 10⟩], ?_⟩
    rw [← List.append_assoc, hmore]
    decide
  have hopen : openBlocksOf fragments = [⟨1, 6⟩, ⟨0, 0⟩] := by decide
  exact ⟨hviable, hopen, unclosed_names_innermost_opener hviable hopen⟩

end SqlFlow
