import SqlFlow.Proofs.Nesting

/-!
# Assembling block trees

The pass over the fragments of a script, compared with the structured form of the script.

* `add_directive`, `add_cases`: what one fragment does to the pass.
* `run_flattenAll`: the pass goes over the fragments of a list of trees, behind whatever blocks are
  open, and leaves exactly the code of the trees. Within a chain the pass sets the target of each
  member when it comes to the next one; `run_branch` says that the code so patched is the code.
-/

namespace SqlFlow

namespace Assembly

/-! ## The state of the pass -/

/-- The pass with further statements behind the ones it has. -/
def extend (a : Assembly) (code : List Statement) : Assembly :=
  { a with statements := a.statements ++ code.toArray }

/-- The pass with other blocks open. -/
def within (a : Assembly) (blocks : Nesting) : Assembly := { a with blocks }

section

variable (a : Assembly) (xs ys : List Statement) (blocks blocks' : Nesting) (i : Option Nat)

@[simp] theorem size_extend :
    (a.extend xs).statements.size = a.statements.size + xs.length := by
  simp [extend]

@[simp] theorem extend_nil : a.extend [] = a := by simp [extend]

@[simp] theorem extend_extend : (a.extend xs).extend ys = a.extend (xs ++ ys) := by
  simp [extend]

@[simp] theorem statements_within : (a.within blocks).statements = a.statements := rfl

@[simp] theorem within_within : (a.within blocks).within blocks' = a.within blocks' := rfl

@[simp] theorem within_blocks : a.within a.blocks = a := rfl

@[simp] theorem within_extend :
    (a.extend xs).within blocks = (a.within blocks).extend xs := rfl

@[simp] theorem link_none : a.link none = a := rfl

@[simp] theorem size_link : (a.link i).statements.size = a.statements.size := by
  cases i <;> simp [link]

end

theorem modify_append_cons {α : Type} (f : α → α) (xs : List α) (x : α) (ys : List α) :
    (xs ++ x :: ys).modify xs.length f = xs ++ f x :: ys := by
  induction xs with
  | nil => rfl
  | cons y xs ih => simpa using ih

/-- Setting the target of the statement right behind those of `a`. -/
theorem link_extend_statement {a : Assembly} {i : Nat} (h : a.statements.size = i) (l : Line)
    (kind : StatementKind) (xs : List Statement) :
    (a.extend (l.statement kind :: xs)).link (some i)
      = a.extend (l.statement kind (some (i + 1 + xs.length)) :: xs) := by
  subst h
  have hsize : (a.extend (l.statement kind :: xs)).statements.size
      = a.statements.size + 1 + xs.length := by
    simp; omega
  have hmodify := modify_append_cons
    (fun s => { s with target := some (a.statements.size + 1 + xs.length) })
    a.statements.toList (l.statement kind) xs
  simp only [link, hsize]
  simp only [extend, mk.injEq, and_true]
  apply Array.ext'
  simpa [Line.statement] using hmodify

/-! ## One fragment -/

theorem add_sql (d : Dialect) (a : Assembly) (l : Line) :
    a.add d (l.fragment .sql) = .ok (a.extend [l.statement .sql]) := by
  simp [add, append, extend, Line.fragment, Line.statement]

theorem add_directive {d : Dialect} {a : Assembly} {l : Line} {x : Directive}
    {links : Option Nat} {blocks : Nesting}
    (h : Nesting.Admits (l.opener x) a.statements.size a.blocks links blocks)
    (hc : Conditioned d [l.directive x]) :
    a.add d (l.directive x)
      = .ok (((a.link links).within blocks).extend [l.statement (.directive x)]) := by
  have haccept := Nesting.accept_eq_ok_iff.2 ⟨h, Nesting.hasCondition_iff.2 hc⟩
  simp only [Line.opener] at haccept
  simp [add, Line.directive, Line.fragment, haccept, append, extend, within, Line.statement]

/-- A fragment that is no fault and is not refused has been admitted. -/
theorem add_cases {d : Dialect} {a b : Assembly} {f : Fragment} (h : a.add d f = .ok b) :
    (∃ l : Line, f = l.fragment .sql ∧ b = a.extend [l.statement .sql]) ∨
    (∃ (l : Line) (x : Directive) (links : Option Nat) (blocks : Nesting),
      f = l.directive x ∧ Conditioned d [l.directive x] ∧
      Nesting.Admits (l.opener x) a.statements.size a.blocks links blocks ∧
      b = ((a.link links).within blocks).extend [l.statement (.directive x)]) := by
  obtain ⟨kind, text, raw, line⟩ := f
  cases kind with
  | fault error => simp [add] at h
  | sql =>
    left
    refine ⟨⟨text, raw, line⟩, rfl, ?_⟩
    rw [show Fragment.mk .sql text raw line = Line.fragment ⟨text, raw, line⟩ .sql from rfl,
      add_sql] at h
    exact (Except.ok.inj h).symm
  | directive x =>
    right
    cases haccept : a.blocks.accept d ⟨x, line, raw⟩ text a.statements.size with
    | mk links result =>
      cases result with
      | error error => simp [add, haccept] at h
      | ok blocks =>
        obtain ⟨hadmits, hcondition⟩ := Nesting.accept_eq_ok_iff.1 haccept
        refine ⟨⟨text, raw, line⟩, x, links, blocks, rfl,
          Nesting.hasCondition_iff.1 hcondition, hadmits, ?_⟩
        simp only [add, haccept, Except.ok.injEq] at h
        simp [← h, append, extend, within, Line.statement]

/-- A pass that stops leaves a program that ends with an error, and the fragment it stops at. -/
theorem exists_refuse_of_add {d : Dialect} {a : Assembly} {f : Fragment} {p : Program}
    (h : a.add d f = .error p) : ∃ b error, p = Assembly.refuse b error f.raw := by
  cases hkind : f.kind with
  | sql => simp [add, hkind] at h
  | fault error =>
    simp only [add, hkind, Except.error.injEq] at h
    exact ⟨a, error, h.symm⟩
  | directive x =>
    simp only [add, hkind] at h
    split at h
    · exact ⟨_, _, (Except.error.inj h).symm⟩
    · cases h

/-! ## Trees assemble to their code -/

theorem run_sql (d : Dialect) (a : Assembly) (l : Line) (w : List Fragment) :
    a.run d (l.fragment .sql :: w) = (a.extend [l.statement .sql]).run d w := by
  rw [run, add_sql]

theorem run_directive {d : Dialect} {a : Assembly} {l : Line} {x : Directive}
    {links : Option Nat} {blocks : Nesting} (w : List Fragment)
    (h : Nesting.Admits (l.opener x) a.statements.size a.blocks links blocks)
    (hc : Conditioned d [l.directive x]) :
    a.run d (l.directive x :: w)
      = (((a.link links).within blocks).extend [l.statement (.directive x)]).run d w := by
  rw [run, add_directive h hc]

/-- A directive and the trees behind it, when the directive leaves the pass inside `blocks`. -/
theorem run_directive_flattenAll {d : Dialect} {a : Assembly} {l : Line} {x : Directive}
    {links : Option Nat} {blocks : Nesting} {ts : List Tree} {w : List Fragment}
    (h : Nesting.Admits (l.opener x) a.statements.size a.blocks links blocks)
    (hc : Conditioned d [l.directive x])
    (hts : ∀ a : Assembly, a.run d (Tree.flattenAll ts ++ w)
      = (a.extend (Tree.codeAll ts a.statements.size)).run d w) :
    a.run d (l.directive x :: (Tree.flattenAll ts ++ w))
      = (((a.link links).within blocks).extend
          (l.statement (.directive x) :: Tree.codeAll ts (a.statements.size + 1))).run d w := by
  rw [run_directive _ h hc, hts]
  simp

mutual

theorem run_flatten {d : Dialect} : (t : Tree) → (a : Assembly) → (w : List Fragment) →
    Conditioned d t.flatten →
    a.run d (t.flatten ++ w) = (a.extend (t.code a.statements.size)).run d w
  | .sql l, a, w, _ => run_sql d a l w
  | .debug l, a, w, hc => run_directive w (.debug rfl) hc
  | .chain opener body rest, a, w, hc => by
    simp only [Tree.flatten] at hc ⊢
    obtain ⟨ho, hc⟩ := conditioned_cons.1 hc
    obtain ⟨hb, hr⟩ := conditioned_append.1 hc
    rw [List.cons_append, List.append_assoc,
      run_directive_flattenAll (.ifThen rfl) ho fun a => run_flattenAll body a _ hb,
      run_branch rest _ rfl w hr, link_none, link_extend_statement (by simp)]
    simp [Tree.code, Nat.add_assoc, Nat.add_comm 1]
  | .attempt transactional opener body middle handler closer, a, w, hc => by
    simp only [Tree.flatten] at hc ⊢
    obtain ⟨ho, hc⟩ := conditioned_cons.1 hc
    obtain ⟨hb, hc⟩ := conditioned_append.1 hc
    obtain ⟨hm, hc⟩ := conditioned_cons.1 hc
    obtain ⟨hh, hl⟩ := conditioned_append.1 hc
    rw [List.cons_append, List.append_assoc,
      run_directive_flattenAll (x := .attemptOf transactional) (.attempt transactional rfl) ho
        fun a => run_flattenAll body a _ hb,
      List.cons_append, List.append_assoc,
      run_directive_flattenAll (.handler rfl) hm fun a => run_flattenAll handler a _ hh,
      List.singleton_append, run_directive w (.endAttempt rfl) hl]
    rw [link_none, link_extend_statement (i := a.statements.size) (by simp),
      link_extend_statement (by simp)]
    simp [Tree.code, Nat.add_assoc, Nat.add_comm 1]
  | .transaction opener body closer, a, w, hc => by
    simp only [Tree.flatten] at hc ⊢
    obtain ⟨ho, hc⟩ := conditioned_cons.1 hc
    obtain ⟨hb, hl⟩ := conditioned_append.1 hc
    rw [List.cons_append, List.append_assoc,
      run_directive_flattenAll (.beginTransaction rfl) ho fun a => run_flattenAll body a _ hb,
      List.singleton_append, run_directive w (.endTransaction rfl) hl]
    simp [Tree.code]

theorem run_flattenAll {d : Dialect} : (ts : List Tree) → (a : Assembly) → (w : List Fragment) →
    Conditioned d (Tree.flattenAll ts) →
    a.run d (Tree.flattenAll ts ++ w) = (a.extend (Tree.codeAll ts a.statements.size)).run d w
  | [], a, w, _ => by simp [Tree.flattenAll, Tree.codeAll]
  | t :: ts, a, w, hc => by
    simp only [Tree.flattenAll] at hc ⊢
    obtain ⟨ht, hts⟩ := conditioned_append.1 hc
    rw [List.append_assoc, run_flatten t a _ ht, run_flattenAll ts _ w hts]
    simp [Tree.codeAll]

theorem run_branch {d : Dialect} : (b : Branch) → (a : Assembly) → {first : Opener} →
    {last : Nat} → {outer : Nesting} → a.blocks = .chain first last false :: outer →
    (w : List Fragment) → Conditioned d b.flatten →
    a.run d (b.flatten ++ w)
      = (((a.link (some last)).within outer).extend (b.code a.statements.size)).run d w
  | .done closer, a, first, last, outer, ha, w, hc => by
    have hadmits : Nesting.Admits (closer.opener .endIf) a.statements.size a.blocks (some last)
        outer := by rw [ha]; exact .endIf rfl
    rw [Branch.flatten, List.singleton_append, run_directive w hadmits hc]
    rfl
  | .otherwise opener body closer, a, first, last, outer, ha, w, hc => by
    simp only [Branch.flatten] at hc ⊢
    obtain ⟨ho, hc⟩ := conditioned_cons.1 hc
    obtain ⟨hb, hl⟩ := conditioned_append.1 hc
    rw [List.cons_append, List.append_assoc,
      run_directive_flattenAll (by rw [ha]; exact .otherwise rfl) ho
        fun a => run_flattenAll body a _ hb,
      List.singleton_append, run_directive w (.endIf rfl) hl, link_extend_statement (by simp)]
    simp [Branch.code]
  | .elseIf opener body rest, a, first, last, outer, ha, w, hc => by
    simp only [Branch.flatten] at hc ⊢
    obtain ⟨ho, hc⟩ := conditioned_cons.1 hc
    obtain ⟨hb, hr⟩ := conditioned_append.1 hc
    rw [List.cons_append, List.append_assoc,
      run_directive_flattenAll (by rw [ha]; exact .elseIf rfl) ho
        fun a => run_flattenAll body a _ hb,
      run_branch rest _ rfl w hr, link_extend_statement (by simp)]
    simp [Branch.code, Nat.add_assoc, Nat.add_comm 1]

end

end Assembly

end SqlFlow
