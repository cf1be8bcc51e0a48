import Mathlib.Data.List.Forall2
import SqlFlow.Proofs.Enclosure
import SqlFlow.Proofs.Viable

/-!
# Where and why assembling stops

Assembling stops at the first fragment that no script without an error goes on with, and says why.

* `openBlocksOf` and `Innermost`: the blocks that are open behind fragments, by the fragments alone.
* `Refusal`: what is wrong with a fragment behind others, one constructor for each error.
* `Block.StandsAt`: the open blocks of the pass are those of the fragments; `standsAt_of_behind` is the
  invariant of the pass, `standsAt_of_admits` its step.
* `refusal_of_refuses`: what the pass refuses is wrong.
* `assemble_stops_at_first_refusal`: the program of fragments that assemble with an error.
-/

namespace SqlFlow

/-- The open blocks behind fragments. -/
def openBlocksOf (done : List Fragment) : List OpenBlock :=
  nestAll (done.map fun f => f.kind.statementKind) 0 []

/-- The fragment is the directive `y`, the present member of the innermost block that is open behind
`done`. -/
def Innermost (done : List Fragment) (g : Fragment) (y : Directive) : Prop :=
  ∃ o outer, openBlocksOf done = o :: outer ∧ done[o.member]? = some g ∧ g.kind = .directive y

/-- What is wrong with the fragment `f` behind `done`. -/
inductive Refusal (d : Dialect) (done : List Fragment) (f : Fragment) : SyntaxError → Prop where
  /-- A construct in it does not end. -/
  | fault {error : SyntaxError} (h : f.kind = .fault error) : Refusal d done f error
  /-- It would cross the end of a transaction block. -/
  | openTransaction {x : Directive} {g : Fragment} (hkind : f.kind = .directive x)
      (hx : x ∈ Directive.crossing) (hopen : Innermost done g .beginTransaction) :
      Refusal d done f (.openTransaction f.line x.keyword g.line)
  /-- The chain has its `else`. -/
  | afterElse {x : Directive} {g : Fragment} (hkind : f.kind = .directive x)
      (hx : x = .elseIf ∨ x = .otherwise) (hopen : Innermost done g .otherwise) :
      Refusal d done f (.afterElse f.line x.keyword)
  /-- With a condition it would be admitted. -/
  | missingCondition {x : Directive} (hkind : f.kind = .directive x)
      (hx : x = .ifThen ∨ x = .elseIf ∧ ∃ g y, Innermost done g y ∧ .elseIf ∈ y.followers)
      (hblank : Nesting.lacksCondition d f.text = true) :
      Refusal d done f (.missingCondition f.line x.keyword)
  /-- The innermost block, if there is one, has no place for it. -/
  | unmatched {x expected : Directive} (hkind : f.kind = .directive x)
      (hx : x.expected? = some expected)
      (hnone : ∀ g y, Innermost done g y → x ∉ y.followers ∧ y ≠ .beginTransaction ∧
        (y = .otherwise → x ≠ .elseIf ∧ x ≠ .otherwise)) :
      Refusal d done f (.unmatched f.line x.keyword expected.keyword)

/-! ## The open blocks of the pass -/

/-- The present member of a block that is open in the pass. -/
def Block.Holds : Block → Fragment → Directive → Prop
  | .chain _ _ false, _, y => y = .ifThen ∨ y = .elseIf
  | .chain _ _ true, _, y => y = .otherwise
  | .attempt _ _, _, y => y = .attempt ∨ y = .attemptTransaction
  | .handler _ _, _, y => y = .handler
  | .transaction opener, g, y => y = .beginTransaction ∧ g.line = opener.line

/-- A block that is open in the pass has the opener and the present member that the fragments have at
these places. -/
structure Block.StandsAt (done : List Fragment) (block : Block) (o : OpenBlock) : Prop where
  opener : ∃ g, done[o.opener]? = some g ∧ g.kind = .directive block.opener.directive ∧
    g.line = block.opener.line ∧ g.raw = block.opener.raw
  member : ∃ g y, done[o.member]? = some g ∧ g.kind = .directive y ∧ block.Holds g y

section

variable {d : Dialect} {done : List Fragment} {f : Fragment} {blocks blocks' : Nesting}
  {block : Block} {o : OpenBlock} {os : List OpenBlock}

theorem getElem?_append_of_some {i : Nat} {g : Fragment} (h : done[i]? = some g) (f : Fragment) :
    (done ++ [f])[i]? = some g := by
  rw [List.getElem?_append_left (List.getElem?_eq_some_iff.1 h).1, h]

theorem Block.StandsAt.append (h : block.StandsAt done o) (f : Fragment) :
    block.StandsAt (done ++ [f]) o := by
  obtain ⟨⟨g, hg, hopener⟩, g', y, hg', hmember⟩ := h
  exact ⟨⟨g, getElem?_append_of_some hg f, hopener⟩, g', y, getElem?_append_of_some hg' f, hmember⟩

theorem forall₂_standsAt_append (h : List.Forall₂ (Block.StandsAt done) blocks os) (f : Fragment) :
    List.Forall₂ (Block.StandsAt (done ++ [f])) blocks os :=
  h.imp fun _ _ hat => hat.append f

/-- A block that the last fragment opens. -/
theorem standsAt_of_opens {l : Line} {x : Directive} (hopener : block.opener = l.opener x)
    (hholds : block.Holds (l.directive x) x) :
    block.StandsAt (done ++ [l.directive x]) ⟨done.length, done.length⟩ := by
  have hlast : (done ++ [l.directive x])[done.length]? = some (l.directive x) := by simp
  refine ⟨⟨_, hlast, ?_⟩, _, x, hlast, rfl, hholds⟩
  rw [hopener]
  exact ⟨rfl, rfl, rfl⟩

/-- A block of which the last fragment is a further member. -/
theorem standsAt_of_divides {l : Line} {x : Directive} (h : block.StandsAt done o) {block' : Block}
    (hopener : block'.opener = block.opener) (hholds : block'.Holds (l.directive x) x) :
    block'.StandsAt (done ++ [l.directive x]) { o with member := done.length } := by
  have hlast : (done ++ [l.directive x])[done.length]? = some (l.directive x) := by simp
  refine ⟨?_, _, x, hlast, rfl, hholds⟩
  rw [hopener]
  exact (h.append _).opener

/-- One directive: the blocks of the pass behind it are those of the fragments. -/
theorem standsAt_of_admits {l : Line} {x : Directive} {links : Option Nat}
    (h : List.Forall₂ (Block.StandsAt done) blocks os)
    (hadmits : Nesting.Admits (l.opener x) done.length blocks links blocks') :
    List.Forall₂ (Block.StandsAt (done ++ [l.directive x])) blocks' (x.nest done.length os) := by
  have happend := forall₂_standsAt_append h (l.directive x)
  cases hadmits with
  | debug hx =>
    obtain rfl : x = .debug := hx
    exact happend
  | ifThen hx =>
    obtain rfl : x = .ifThen := hx
    exact .cons (standsAt_of_opens rfl (.inl rfl)) happend
  | attempt transactional hx =>
    obtain rfl : x = .attemptOf transactional := hx
    cases transactional with
    | false => exact .cons (standsAt_of_opens rfl (.inl rfl)) happend
    | true => exact .cons (standsAt_of_opens rfl (.inr rfl)) happend
  | beginTransaction hx =>
    obtain rfl : x = .beginTransaction := hx
    exact .cons (standsAt_of_opens rfl ⟨rfl, rfl⟩) happend
  | elseIf hx =>
    obtain rfl : x = .elseIf := hx
    cases h with
    | cons hat _ =>
      cases happend with
      | cons _ houter => exact .cons (standsAt_of_divides hat rfl (.inr rfl)) houter
  | otherwise hx =>
    obtain rfl : x = .otherwise := hx
    cases h with
    | cons hat _ =>
      cases happend with
      | cons _ houter => exact .cons (standsAt_of_divides hat rfl rfl) houter
  | handler hx =>
    obtain rfl : x = .handler := hx
    cases h with
    | cons hat _ =>
      cases happend with
      | cons _ houter => exact .cons (standsAt_of_divides hat rfl rfl) houter
  | endIf hx | endAttempt hx | endTransaction hx =>
    cases hx
    cases happend with
    | cons _ houter => exact houter

theorem openBlocksOf_append (done : List Fragment) (f : Fragment) :
    openBlocksOf (done ++ [f]) = f.kind.statementKind.nest done.length (openBlocksOf done) := by
  unfold openBlocksOf
  rw [List.map_append, nestAll_append, List.length_map, Nat.zero_add]
  rfl

/-- At every fragment the blocks that are open in the pass are those of the fragments before it. -/
theorem standsAt_of_behind {a : Assembly} (h : Assembly.Behind d done a) :
    List.Forall₂ (Block.StandsAt done) a.blocks (openBlocksOf done) := by
  induction h with
  | start => exact .nil
  | @add done a b f h hadd ih =>
    have hlength : a.statements.size = done.length := by
      simpa using congrArg List.length h.content
    rw [openBlocksOf_append]
    rcases Assembly.add_cases hadd with ⟨l, rfl, rfl⟩ | ⟨l, x, links, blocks, rfl, -, hadmits, rfl⟩
    · exact forall₂_standsAt_append ih _
    · rw [hlength] at hadmits
      exact standsAt_of_admits ih hadmits

/-! ## Why a fragment is refused -/

theorem exists_innermost_of_standsAt {outer : Nesting}
    (h : List.Forall₂ (Block.StandsAt done) (block :: outer) (openBlocksOf done)) :
    ∃ g y, Innermost done g y ∧ block.Holds g y := by
  generalize hos : openBlocksOf done = os at h
  cases h with
  | @cons _ o _ os hat _ =>
    obtain ⟨g, y, hg, hkind, hholds⟩ := hat.member
    exact ⟨g, y, ⟨o, os, hos, hg, hkind⟩, hholds⟩

theorem exists_block_of_innermost {g : Fragment} {y : Directive}
    (h : List.Forall₂ (Block.StandsAt done) blocks (openBlocksOf done)) (hopen : Innermost done g y) :
    ∃ block outer, blocks = block :: outer ∧ block.Holds g y := by
  obtain ⟨o, os, hos, hg, hkind⟩ := hopen
  rw [hos] at h
  cases h with
  | @cons block _ outer _ hat _ =>
    obtain ⟨g', y', hg', hkind', hholds⟩ := hat.member
    obtain rfl := Option.some.inj (hg'.symm.trans hg)
    obtain rfl := FragmentKind.directive.inj (hkind'.symm.trans hkind)
    exact ⟨block, outer, rfl, hholds⟩

/-- A block that a directive has nothing to do with has no place for it. -/
theorem not_mem_followers_of_not_concerns {x y : Directive} {g : Fragment} (hholds : block.Holds g y)
    (hx : ¬Nesting.Concerns block x) :
    x ∉ y.followers ∧ y ≠ .beginTransaction ∧ (y = .otherwise → x ≠ .elseIf ∧ x ≠ .otherwise) := by
  cases block with
  | chain first last hasElse =>
    cases hasElse with
    | false => rcases hholds with rfl | rfl <;> simpa [Nesting.Concerns, Directive.followers] using hx
    | true =>
      obtain rfl : y = .otherwise := hholds
      simp only [Nesting.Concerns, not_or] at hx
      exact ⟨by simpa [Directive.followers] using hx.2.2, by decide, fun _ => ⟨hx.1, hx.2.1⟩⟩
  | attempt first start =>
    rcases hholds with rfl | rfl <;> simpa [Nesting.Concerns, Directive.followers] using hx
  | handler first start =>
    obtain rfl : y = .handler := hholds
    simpa [Nesting.Concerns, Directive.followers] using hx
  | transaction first => exact absurd trivial hx

/-- What the pass refuses is wrong. -/
theorem refusal_of_refuses {x : Directive} (hkind : f.kind = .directive x)
    (h : List.Forall₂ (Block.StandsAt done) blocks (openBlocksOf done)) {error : SyntaxError}
    (hrefuses : Nesting.Refuses d ⟨x, f.line, f.raw⟩ f.text blocks error) : Refusal d done f error := by
  cases hrefuses with
  | ifThen hx hblank => exact .missingCondition hkind (.inl hx) hblank
  | elseIf hx hblank =>
    obtain ⟨g, y, hopen, hy⟩ := exists_innermost_of_standsAt h
    refine .missingCondition hkind (.inr ⟨hx, g, y, hopen, ?_⟩) hblank
    rcases hy with rfl | rfl <;> decide
  | afterElse hx =>
    obtain ⟨g, y, hopen, rfl⟩ := exists_innermost_of_standsAt h
    exact .afterElse hkind hx hopen
  | @openTransaction first _ hx =>
    obtain ⟨g, y, hopen, rfl, hline⟩ := exists_innermost_of_standsAt h
    have hrefusal : Refusal d done f (.openTransaction f.line x.keyword g.line) :=
      .openTransaction hkind hx hopen
    rwa [hline] at hrefusal
  | unmatched expected hx hnone =>
    refine .unmatched hkind hx fun g y hopen => ?_
    obtain ⟨block, outer, hblocks, hholds⟩ := exists_block_of_innermost h hopen
    exact not_mem_followers_of_not_concerns hholds (hnone block outer hblocks)

theorem Innermost.unique {g g' : Fragment} {y y' : Directive} (h : Innermost done g y)
    (h' : Innermost done g' y') : g = g' ∧ y = y' := by
  obtain ⟨o, outer, hos, hg, hkind⟩ := h
  obtain ⟨o', outer', hos', hg', hkind'⟩ := h'
  obtain ⟨rfl, -⟩ := List.cons.inj (hos.symm.trans hos')
  obtain rfl := Option.some.inj (hg.symm.trans hg')
  exact ⟨rfl, FragmentKind.directive.inj (hkind.symm.trans hkind')⟩

/-- Only one thing is wrong with a fragment. -/
theorem Refusal.unique {error error' : SyntaxError} (h : Refusal d done f error)
    (h' : Refusal d done f error') : error = error' := by
  cases h <;> cases h' <;> grind [Innermost.unique, Directive.followers, Directive.crossing, Directive.expected?]

/-! ## The program -/

/-- The pass stops at a fragment that is at fault, or that it refuses. -/
theorem Assembly.refusal_of_add {a : Assembly} {p : Program} (h : Assembly.Behind d done a)
    (hadd : a.add d f = .error p) :
    ∃ links error, p = (a.link links).refuse error f.raw ∧ Refusal d done f error := by
  cases hkind : f.kind with
  | sql => simp [Assembly.add, hkind] at hadd
  | fault error =>
    simp only [Assembly.add, hkind, Except.error.injEq] at hadd
    exact ⟨none, error, hadd.symm, .fault hkind⟩
  | directive x =>
    simp only [Assembly.add, hkind] at hadd
    split at hadd
    · next error hresult =>
      refine ⟨_, error, (Except.error.inj hadd).symm, ?_⟩
      exact refusal_of_refuses hkind (standsAt_of_behind h) (Nesting.refuses_of_accept hresult)
    · cases hadd

theorem Assembly.content_refuse (a : Assembly) (error : SyntaxError) (raw : String) :
    (a.refuse error raw).statements.toList.map Statement.content =
      a.statements.toList.map Statement.content ++ [(.invalid, raw, error.line)] := by
  simp [Assembly.refuse, Statement.content]

/-- The one statement that stands for an error is the last one. -/
theorem kind_eq_invalid_iff {p : Program} {raw : String} {line : Nat}
    (hcontent : p.statements.toList.map Statement.content =
      done.map Fragment.content ++ [(.invalid, raw, line)])
    (hdone : ∀ f ∈ done, ∀ error, f.kind ≠ .fault error) {i : Nat} {s : Statement}
    (hget : p.get? i = some s) : s.kind = .invalid ↔ i = done.length := by
  have hs : (done.map Fragment.content ++ [(.invalid, raw, line)])[i]? = some s.content := by
    rw [← hcontent, List.getElem?_map, Array.getElem?_toList, show p.statements[i]? = some s from hget]
    rfl
  rcases Nat.lt_or_ge i done.length with hlt | hge
  · rw [List.getElem?_append_left (by simpa using hlt), List.getElem?_map] at hs
    obtain ⟨f, hf, hcontent⟩ := Option.map_eq_some_iff.1 hs
    have hkind : f.kind.statementKind = s.kind := congrArg Prod.fst hcontent
    have hfault := hdone f (List.mem_of_getElem? hf)
    rw [← hkind]
    cases hk : f.kind with
    | fault error => exact absurd hk (hfault error)
    | sql | directive => simp [FragmentKind.statementKind]; omega
  · rw [List.getElem?_append_right (by simpa using hge), List.length_map] at hs
    obtain ⟨hi, hs⟩ := List.getElem?_eq_some_iff.1 hs
    have hkind : StatementKind.invalid = s.kind := by
      simpa [Statement.content] using congrArg Prod.fst hs
    simp only [List.length_singleton] at hi
    exact ⟨fun _ => by omega, fun _ => hkind.symm⟩

/-- The program of a pass that is stopped: what was read, and one statement for the error. -/
theorem Assembly.Behind.refuse {a : Assembly} (h : Assembly.Behind d done a) (links : Option Nat)
    (error : SyntaxError) (raw : String) {p : Program} (hp : p = (a.link links).refuse error raw) :
    p.error? = some error ∧
      p.statements.toList.map Statement.content =
        done.map Fragment.content ++ [(.invalid, raw, error.line)] ∧
      ∀ i s, p.get? i = some s → (s.kind = .invalid ↔ i = done.length) := by
  have hcontent : p.statements.toList.map Statement.content =
      done.map Fragment.content ++ [(.invalid, raw, error.line)] := by
    rw [hp, content_refuse, content_link, h.content]
  refine ⟨by rw [hp]; rfl, hcontent, fun i s hget => ?_⟩
  exact kind_eq_invalid_iff hcontent h.kind_ne_fault hget

/-- Assembling the fragments stops behind `done`, at an error the place of which is written as `raw`. -/
inductive StopsBehind (d : Dialect) (fragments : List Fragment) :
    (done : List Fragment) → (error : SyntaxError) → (raw : String) → Prop where
  /-- At the first fragment that no script without an error goes on with. -/
  | refused {done rest : List Fragment} {f : Fragment} {error : SyntaxError}
      (hfragments : fragments = done ++ f :: rest) (hviable : Viable d done)
      (hlast : ¬Viable d (done ++ [f])) (hrefusal : Refusal d done f error) :
      StopsBehind d fragments done error f.raw
  /-- At the end, with a block left open; some script without an error goes on behind it. -/
  | unclosed {o : OpenBlock} {outer : List OpenBlock} {g : Fragment} {x : Directive}
      (hviable : ∀ fs, fs <+: fragments → Viable d fs)
      (hopen : openBlocksOf fragments = o :: outer) (hg : fragments[o.opener]? = some g)
      (hkind : g.kind = .directive x) :
      StopsBehind d fragments fragments (.unclosed g.line x.keyword) g.raw

/-- Where fragments assemble with an error, the pass stops at the first one that no script without an error
goes on with, and the error says what is wrong with it; or it gets behind all of them, and a block is left
open. The program is what was read before, and one statement that stands for the error. -/
theorem assemble_stops_at_first_refusal {d : Dialect} {fragments : List Fragment}
    (h : (Program.assemble d fragments).error? ≠ none) :
    ∃ done error raw, StopsBehind d fragments done error raw ∧
      (Program.assemble d fragments).error? = some error ∧
      (Program.assemble d fragments).statements.toList.map Statement.content =
        done.map Fragment.content ++ [(.invalid, raw, error.line)] ∧
      ∀ i s, (Program.assemble d fragments).get? i = some s →
        (s.kind = .invalid ↔ i = done.length) := by
  rcases Assembly.exists_behind_or_refused (d := d) .start fragments with ⟨a, ha⟩ |
    ⟨done, f, rest, a, p, rfl, ha, hadd⟩
  · rw [List.nil_append] at ha
    have hrun := ha.assemble_eq []
    rw [List.append_nil, Assembly.run, Assembly.finish] at hrun
    have hstands := standsAt_of_behind ha
    cases hblocks : a.blocks with
    | nil => simp [hrun, hblocks] at h
    | cons block outer =>
      rw [hblocks] at hrun hstands
      have hassemble : Program.assemble d fragments = (a.link none).refuse
        (.unclosed block.opener.line block.opener.directive.keyword) block.opener.raw := hrun
      have hviable : ∀ fs, fs <+: fragments → Viable d fs := by
        rintro fs ⟨more, rfl⟩
        exact (Assembly.viable_iff.2 ⟨a, ha⟩).of_append
      generalize hos : openBlocksOf fragments = os at hstands
      cases hstands with
      | cons hat _ =>
        obtain ⟨g, hg, hkind, hline, hraw⟩ := hat.opener
        rw [← hline, ← hraw] at hassemble
        exact ⟨fragments, _, g.raw, .unclosed hviable hos hg hkind, ha.refuse none _ _ hassemble⟩
  · rw [List.nil_append] at ha
    have hassemble : Program.assemble d (done ++ f :: rest) = p := by
      have hrun := ha.assemble_eq (f :: rest)
      rwa [Assembly.run, hadd] at hrun
    obtain ⟨links, error, hp, hrefusal⟩ := Assembly.refusal_of_add ha hadd
    have hviable : Viable d done := Assembly.viable_iff.2 ⟨a, ha⟩
    exact ⟨done, error, f.raw, .refused rfl hviable (ha.not_viable hadd) hrefusal,
      ha.refuse links error f.raw (hassemble.trans hp)⟩

/-- A `catch` in an `if`. -/
theorem assemble_stops_at_catch_in_chain :
    let fragments : List Fragment :=
      [⟨.directive .ifThen, "1", "--if 1", 1⟩, ⟨.directive .handler, "", "--catch", 2⟩]
    (Program.assemble {} fragments).error? ≠ none ∧
    ∃ done error raw, StopsBehind {} fragments done error raw ∧
      (Program.assemble {} fragments).error? = some error ∧
      (Program.assemble {} fragments).statements.toList.map Statement.content =
        done.map Fragment.content ++ [(.invalid, raw, error.line)] ∧
      ∀ i s, (Program.assemble {} fragments).get? i = some s →
        (s.kind = .invalid ↔ i = done.length) := by
  intro fragments
  have herror : (Program.assemble {} fragments).error? ≠ none := by decide
  exact ⟨herror, assemble_stops_at_first_refusal herror⟩

end

end SqlFlow
