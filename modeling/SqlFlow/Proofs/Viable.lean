import SqlFlow.Proofs.Tree.Reading

/-!
# Beginnings of scripts

* `Viable`: fragments are the beginning of some script without an error.
* `Assembly.Behind`: the states that the pass comes to, each with the fragments behind which it does.
  `exists_behind_or_refused` says how far the pass gets.
* `exists_closing`: whatever blocks are open, a script can close them. So the pass comes to a state behind
  the fragments that are viable and behind no others (`viable_iff`).
* `Assembly.Behind.content`: the statements so far are those of the fragments.
-/

namespace SqlFlow

/-- There are fragments that make a script without an error of these. -/
def Viable (d : Dialect) (fs : List Fragment) : Prop :=
  ∃ more, (Program.assemble d (fs ++ more)).error? = none

theorem Viable.of_append {d : Dialect} {fs more : List Fragment} (h : Viable d (fs ++ more)) :
    Viable d fs := by
  obtain ⟨rest, hrest⟩ := h
  exact ⟨more ++ rest, by rwa [List.append_assoc] at hrest⟩

namespace Assembly

/-- The pass comes to a state behind fragments that it does not stop at. -/
inductive Behind (d : Dialect) : List Fragment → Assembly → Prop where
  | start : Behind d [] {}
  | add {done : List Fragment} {a b : Assembly} {f : Fragment} (h : Behind d done a)
      (hadd : a.add d f = .ok b) : Behind d (done ++ [f]) b

variable {d : Dialect} {done : List Fragment} {a b : Assembly} {f : Fragment} {p : Program}

theorem Behind.assemble_eq (h : Behind d done a) (rest : List Fragment) :
    Program.assemble d (done ++ rest) = a.run d rest := by
  induction h generalizing rest with
  | start => rfl
  | @add done a b f _ hadd ih =>
    rw [List.append_assoc, ih, List.singleton_append, run, hadd]

/-- The pass gets behind all fragments, or it stops at one of them. -/
theorem exists_behind_or_refused (h : Behind d done a) (rest : List Fragment) :
    (∃ b, Behind d (done ++ rest) b) ∨ ∃ passed f rest' b p, rest = passed ++ f :: rest' ∧
      Behind d (done ++ passed) b ∧ b.add d f = .error p := by
  induction rest generalizing done a with
  | nil => exact .inl ⟨a, by rwa [List.append_nil]⟩
  | cons f rest ih =>
    cases hadd : a.add d f with
    | error p => exact .inr ⟨[], f, rest, a, p, rfl, by rwa [List.append_nil], hadd⟩
    | ok b =>
      rcases ih (h.add hadd) with ⟨c, hc⟩ | ⟨passed, g, rest', c, p, rfl, hc, hadd'⟩
      · exact .inl ⟨c, by rwa [List.append_assoc] at hc⟩
      · exact .inr ⟨f :: passed, g, rest', c, p, rfl, by rwa [List.append_assoc] at hc, hadd'⟩

/-- A fragment that the pass stops at is not the next one of any script without an error. -/
theorem Behind.not_viable (h : Behind d done a) (hadd : a.add d f = .error p) :
    ¬Viable d (done ++ [f]) := by
  rintro ⟨more, hmore⟩
  obtain ⟨b, error, rfl⟩ := exists_refuse_of_add hadd
  rw [List.append_assoc, h.assemble_eq, List.singleton_append, run, hadd] at hmore
  cases hmore

/-- The statements are those of the fragments, but for their targets. -/
theorem content_link (a : Assembly) (i : Option Nat) :
    (a.link i).statements.toList.map Statement.content = a.statements.toList.map Statement.content := by
  cases i with
  | none => rfl
  | some i =>
    have hcontent : ∀ s : Statement, Statement.content { s with target := some a.statements.size } =
        s.content := fun s => rfl
    apply List.ext_getElem?
    intro j
    simp only [link, Array.toList_modify, List.getElem?_map, List.getElem?_modify]
    by_cases h : i = j
    · cases a.statements.toList[j]? <;> simp [h, hcontent]
    · cases a.statements.toList[j]? <;> simp [h]

theorem Behind.content (h : Behind d done a) :
    a.statements.toList.map Statement.content = done.map Fragment.content := by
  induction h with
  | start => rfl
  | add _ hadd ih =>
    rcases add_cases hadd with ⟨l, rfl, rfl⟩ | ⟨l, x, links, blocks, rfl, -, -, rfl⟩
    · simp [extend, ih, Line.fragment, Fragment.content, Line.statement, Statement.content,
        FragmentKind.statementKind]
    · simp [extend, within, content_link, ih]

/-- No fault is passed. -/
theorem Behind.kind_ne_fault (h : Behind d done a) :
    ∀ f ∈ done, ∀ error, f.kind ≠ .fault error := by
  induction h with
  | start => exact List.forall_mem_nil _
  | @add done a b f _ hadd ih =>
    intro g hg error
    rcases List.mem_append.1 hg with hg | hg
    · exact ih g hg error
    · obtain rfl := List.mem_singleton.1 hg
      rcases add_cases hadd with ⟨l, rfl, -⟩ | ⟨l, x, -, -, rfl, -⟩ <;> exact nofun

end Assembly

/-! ## Closing what is open -/

/-- A line to close a block with. -/
def Line.empty : Line := ⟨"", "", 0⟩

/-- The lines that close a block, if nothing stands in what is left of it. -/
def Block.closers : Block → List Fragment
  | .chain _ _ _ => [Line.empty.directive .endIf]
  | .attempt _ _ => [Line.empty.directive .handler, Line.empty.directive .endAttempt]
  | .handler _ _ => [Line.empty.directive .endAttempt]
  | .transaction _ => [Line.empty.directive .endTransaction]

namespace Assembly

theorem conditioned_closer (d : Dialect) {x : Directive} (hx : x ≠ .ifThen ∧ x ≠ .elseIf) :
    Conditioned d [Line.empty.directive x] :=
  Nesting.hasCondition_iff.1 fun h => absurd h (not_or.2 hx)

/-- The innermost block is closed by its closers. -/
theorem exists_run_closers (d : Dialect) {a : Assembly} {block : Block} {outer : Nesting}
    (h : a.blocks = block :: outer) :
    ∃ b : Assembly, b.blocks = outer ∧ ∀ w, a.run d (block.closers ++ w) = b.run d w := by
  cases block with
  | chain first last hasElse =>
    have hadmits : Nesting.Admits (Line.empty.opener .endIf) a.statements.size a.blocks (some last)
        outer := h ▸ .endIf rfl
    exact ⟨_, rfl, fun w => run_directive w hadmits (conditioned_closer d (by decide))⟩
  | attempt first start =>
    have hadmits : Nesting.Admits (Line.empty.opener .handler) a.statements.size a.blocks (some start)
        (.handler first a.statements.size :: outer) := h ▸ .handler rfl
    refine ⟨_, ?_, fun w => (run_directive _ hadmits (conditioned_closer d (by decide))).trans
      (run_directive w (.endAttempt rfl) (conditioned_closer d (by decide)))⟩
    rfl
  | handler first start =>
    have hadmits : Nesting.Admits (Line.empty.opener .endAttempt) a.statements.size a.blocks
        (some start) outer := h ▸ .endAttempt rfl
    exact ⟨_, rfl, fun w => run_directive w hadmits (conditioned_closer d (by decide))⟩
  | transaction first =>
    have hadmits : Nesting.Admits (Line.empty.opener .endTransaction) a.statements.size a.blocks none
        outer := h ▸ .endTransaction rfl
    exact ⟨_, rfl, fun w => run_directive w hadmits (conditioned_closer d (by decide))⟩

/-- Whatever is open can be closed. -/
theorem exists_closing (d : Dialect) (a : Assembly) : ∃ w, (a.run d w).error? = none := by
  generalize hblocks : a.blocks = blocks
  induction blocks generalizing a with
  | nil => exact ⟨[], by rw [run, finish, hblocks]⟩
  | cons block outer ih =>
    obtain ⟨b, hb, hclosers⟩ := exists_run_closers d hblocks
    obtain ⟨w, hw⟩ := ih b hb
    exact ⟨block.closers ++ w, by rw [hclosers, hw]⟩

/-- The fragments behind which the pass comes to a state are the beginnings of scripts. -/
theorem viable_iff {d : Dialect} {fs : List Fragment} : Viable d fs ↔ ∃ a, Behind d fs a := by
  constructor
  · intro h
    rcases exists_behind_or_refused (d := d) .start fs with hbehind |
      ⟨passed, f, rest, b, p, rfl, hb, hadd⟩
    · exact hbehind
    · rw [List.append_cons] at h
      exact absurd h.of_append (hb.not_viable hadd)
  · rintro ⟨a, ha⟩
    obtain ⟨more, hmore⟩ := exists_closing d a
    exact ⟨more, by rw [ha.assemble_eq, hmore]⟩

end Assembly

end SqlFlow
