import SqlFlow.Proofs.Tree.Assembly

/-!
# Indices do not decide what is refused

The open blocks of a pass hold indices of statements, which are there to be linked. Whether a fragment is
refused, and why, does not depend on them.

* `Nesting.unplaced`: open blocks without the indices. `unplaced_accept`: they decide what a directive does.
* `EndsAlike`: two programs without an error, or with the same error in the same place.
* `Assembly.endsAlike_run`: so end two passes over the same fragments, if their open blocks differ in nothing
  but indices. The induction is on the fragments. `Assembly.endsAlike_insert`: a `debug` directive makes
  no other difference.
-/

namespace SqlFlow

/-- The block without the index that it holds. -/
def Block.unplaced : Block → Block
  | chain opener _ hasElse => chain opener 0 hasElse
  | attempt opener _ => attempt opener 0
  | handler opener _ => handler opener 0
  | transaction opener => transaction opener

theorem Block.opener_unplaced (b : Block) : b.unplaced.opener = b.opener := by
  cases b <;> rfl

theorem Block.unplaced_unplaced (b : Block) : b.unplaced.unplaced = b.unplaced := by
  cases b <;> rfl

namespace Nesting

/-- The open blocks without indices. -/
def unplaced (blocks : Nesting) : Nesting := blocks.map Block.unplaced

theorem unplaced_unplaced (blocks : Nesting) : blocks.unplaced.unplaced = blocks.unplaced := by
  simp only [unplaced, List.map_map]
  exact List.map_congr_left fun b _ => b.unplaced_unplaced

theorem unplaced_nil : unplaced [] = [] := rfl

theorem unplaced_cons (b : Block) (blocks : Nesting) :
    unplaced (b :: blocks) = b.unplaced :: blocks.unplaced := rfl

variable (d : Dialect) (opener : Opener) (text : String) (here here' : Nat)

/-- The directives and under each of them the kinds of the innermost block. -/
theorem unplaced_accept (blocks : Nesting) :
    (accept d opener text here blocks).result.map unplaced
      = (accept d opener text here' blocks.unplaced).result.map unplaced := by
  obtain ⟨x, line, raw⟩ := opener
  cases x with
  | debug | attempt | attemptTransaction | beginTransaction =>
    simp [accept, become, Except.map, unplaced_cons, Block.unplaced, unplaced_unplaced]
  | ifThen =>
    cases hl : lacksCondition d text <;>
      simp [accept, become, refuse, hl, Except.map, unplaced_cons, Block.unplaced, unplaced_unplaced]
  | elseIf =>
    rcases blocks with _ | ⟨⟨first, last, _ | _⟩ | ⟨first, start⟩ | ⟨first, start⟩ | first, outer⟩ <;>
      cases hl : lacksCondition d text <;>
      simp [accept, acceptMember, refuse, hl, Except.map, unplaced_nil, unplaced_cons, Block.unplaced,
        unplaced_unplaced]
  | otherwise | endIf | handler | endAttempt | endTransaction =>
    rcases blocks with _ | ⟨⟨first, last, _ | _⟩ | ⟨first, start⟩ | ⟨first, start⟩ | first, outer⟩ <;>
      simp [accept, acceptMember, refuse, become, Except.map, unplaced_nil, unplaced_cons, Block.unplaced,
        unplaced_unplaced]

/-- Open blocks that differ in nothing but indices refuse a directive for the same reason, or both admit it
and differ in nothing but indices behind it. -/
theorem accept_cases_of_unplaced {blocks blocks' : Nesting} (h : blocks.unplaced = blocks'.unplaced) :
    (∃ error, (accept d opener text here blocks).result = .error error ∧
      (accept d opener text here' blocks').result = .error error) ∨
    ∃ behind behind', (accept d opener text here blocks).result = .ok behind ∧
      (accept d opener text here' blocks').result = .ok behind' ∧ behind.unplaced = behind'.unplaced := by
  have hsame : (accept d opener text here blocks).result.map unplaced
      = (accept d opener text here' blocks').result.map unplaced := by
    rw [unplaced_accept d opener text here here' blocks, h, ← unplaced_accept]
  cases hresult : (accept d opener text here blocks).result <;>
    cases hresult' : (accept d opener text here' blocks').result <;>
    rw [hresult, hresult'] at hsame
  · exact .inl ⟨_, rfl, (Except.error.inj hsame) ▸ rfl⟩
  · cases hsame
  · cases hsame
  · exact .inr ⟨_, _, rfl, rfl, Except.ok.inj hsame⟩

end Nesting

/-- Both programs are without an error, or both end with the same one, written in the same way. -/
inductive EndsAlike : Program → Program → Prop where
  | complete {p q : Program} (hp : p.error? = none) (hq : q.error? = none) : EndsAlike p q
  | refused (a b : Assembly) (error : SyntaxError) (raw : String) :
      EndsAlike (a.refuse error raw) (b.refuse error raw)

theorem EndsAlike.error?_eq {p q : Program} (h : EndsAlike p q) : p.error? = q.error? := by
  cases h with
  | complete hp hq => rw [hp, hq]
  | refused => rfl

namespace Assembly

variable (d : Dialect) {a b : Assembly} (h : a.blocks.unplaced = b.blocks.unplaced)

include h

/-- One fragment, in two passes whose open blocks differ in nothing but indices. -/
theorem add_cases_of_unplaced (f : Fragment) :
    (∃ (a' b' : Assembly) (error : SyntaxError), a.add d f = .error (a'.refuse error f.raw) ∧
      b.add d f = .error (b'.refuse error f.raw)) ∨
    ∃ a' b', a.add d f = .ok a' ∧ b.add d f = .ok b' ∧ a'.blocks.unplaced = b'.blocks.unplaced := by
  cases hkind : f.kind with
  | fault error => exact .inl ⟨a, b, error, by simp [add, hkind], by simp [add, hkind]⟩
  | sql => exact .inr ⟨a.append .sql f, b.append .sql f, by simp [add, hkind], by simp [add, hkind], h⟩
  | directive x =>
    rcases Nesting.accept_cases_of_unplaced d ⟨x, f.line, f.raw⟩ f.text a.statements.size
        b.statements.size h with
      ⟨error, ha, hb⟩ | ⟨behind, behind', ha, hb, hbehind⟩
    all_goals simp only [add, hkind, ha, hb]
    · exact .inl ⟨_, _, error, rfl, rfl⟩
    · exact .inr ⟨_, _, rfl, rfl, hbehind⟩

theorem endsAlike_finish : EndsAlike a.finish b.finish := by
  unfold finish
  generalize a.blocks = blocks at h
  generalize b.blocks = blocks' at h
  rcases blocks with _ | ⟨block, outer⟩ <;> rcases blocks' with _ | ⟨block', outer'⟩
  · exact .complete rfl rfl
  · cases h
  · cases h
  · have hopener : block.opener = block'.opener := by
      rw [← block.opener_unplaced, ← block'.opener_unplaced, (List.cons.inj h).1]
    show EndsAlike (a.refuse (.unclosed block.opener.line block.opener.directive.keyword) block.opener.raw)
      (b.refuse (.unclosed block'.opener.line block'.opener.directive.keyword) block'.opener.raw)
    rw [hopener]
    exact .refused _ _ _ _

theorem endsAlike_run (w : List Fragment) : EndsAlike (a.run d w) (b.run d w) := by
  induction w generalizing a b with
  | nil => exact endsAlike_finish h
  | cons f w ih =>
    rw [run, run]
    rcases add_cases_of_unplaced d h f with ⟨a', b', error, ha, hb⟩ | ⟨a', b', ha, hb, hbehind⟩
    · rw [ha, hb]
      exact .refused _ _ _ _
    · rw [ha, hb]
      exact ih hbehind

omit h in
/-- A `debug` directive leaves the open blocks as they are, so the fragments behind it are refused or not as
they are without it. -/
theorem endsAlike_insert (l : Line) (as bs : List Fragment) (a : Assembly) :
    EndsAlike (a.run d (as ++ bs)) (a.run d (as ++ l.directive .debug :: bs)) := by
  induction as generalizing a with
  | nil =>
    have hc : Conditioned d [l.directive .debug] := by simp [Conditioned, Line.directive, Line.fragment]
    rw [List.nil_append, List.nil_append, run_directive bs (.debug rfl) hc]
    refine endsAlike_run d ?_ bs
    rfl
  | cons f as ih =>
    rw [List.cons_append, List.cons_append, run, run]
    cases hadd : a.add d f with
    | error p =>
      obtain ⟨b, error, rfl⟩ := exists_refuse_of_add hadd
      exact .refused _ _ _ _
    | ok b => exact ih b

end Assembly

end SqlFlow
