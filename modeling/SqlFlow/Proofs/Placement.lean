import SqlFlow.Program

/-!
# Statements in a program

What stands where in a program, by index.

* `Program.kind?` and `Program.target?`: the kind and the target of the statement at an index.
* `Program.kindsBetween`: the kinds of the statements strictly between two indices.
* `CodeAt`: statements sit in a program from an index on. `kindsBetween_of_codeAt`: code that sits
  right behind an index is what stands between that index and the end of the code.
-/

namespace SqlFlow

namespace Program

/-- The kind of the statement at an index. -/
def kind? (p : Program) (i : Nat) : Option StatementKind := (p.get? i).map Statement.kind

/-- The target of the statement at an index. -/
def target? (p : Program) (i : Nat) : Option Nat := (p.get? i).bind Statement.target

/-- The kinds of all statements. -/
def kinds (p : Program) : List StatementKind := p.statements.toList.map Statement.kind

/-- The kinds of the statements behind index `i` and before index `j`. -/
def kindsBetween (p : Program) (i j : Nat) : List StatementKind := (p.kinds.take j).drop (i + 1)

section

variable {p : Program} {i : Nat} {s : Statement}

theorem kind?_of_get? (h : p.get? i = some s) : p.kind? i = some s.kind := by simp [kind?, h]

theorem target?_of_get? (h : p.get? i = some s) : p.target? i = s.target := by simp [target?, h]

theorem lt_size_of_get? (h : p.get? i = some s) : i < p.size :=
  (Array.getElem?_eq_some_iff.1 h).1

theorem get?_eq_none_iff : p.get? i = none ↔ p.size ≤ i := Array.getElem?_eq_none_iff

theorem exists_get?_of_kind? {kind : StatementKind} (h : p.kind? i = some kind) :
    ∃ s, p.get? i = some s ∧ s.kind = kind :=
  Option.map_eq_some_iff.1 h

theorem lt_size_of_kind? {kind : StatementKind} (h : p.kind? i = some kind) : i < p.size := by
  obtain ⟨s, hs, -⟩ := exists_get?_of_kind? h
  exact lt_size_of_get? hs

end

end Program

/-! ## Statements in a row -/

/-- The statements sit in the program from index `i` on. -/
def CodeAt (p : Program) : (i : Nat) → List Statement → Prop
  | _, [] => True
  | i, s :: code => p.get? i = some s ∧ CodeAt p (i + 1) code

theorem codeAt_append {p : Program} {i : Nat} {xs ys : List Statement} :
    CodeAt p i (xs ++ ys) ↔ CodeAt p i xs ∧ CodeAt p (i + xs.length) ys := by
  induction xs generalizing i with
  | nil => simp [CodeAt]
  | cons s xs ih =>
    rw [List.cons_append, CodeAt, CodeAt, ih, and_assoc, List.length_cons,
      show i + 1 + xs.length = i + (xs.length + 1) from by omega]

/-- A program has its own statements. -/
theorem codeAt_toArray (code : List Statement) (error? : Option SyntaxError) :
    CodeAt ⟨code.toArray, error?⟩ 0 code := by
  suffices h : ∀ done todo : List Statement,
      CodeAt ⟨(done ++ todo).toArray, error?⟩ done.length todo from h [] code
  intro done todo
  induction todo generalizing done with
  | nil => trivial
  | cons s todo ih =>
    refine ⟨by simp [Program.get?], ?_⟩
    have hrest := ih (done ++ [s])
    simpa using hrest

theorem drop_take_of_codeAt {p : Program} {i : Nat} {code : List Statement} (h : CodeAt p i code) :
    (p.kinds.take (i + code.length)).drop i = code.map Statement.kind := by
  induction code generalizing i with
  | nil => simp
  | cons s code ih =>
    obtain ⟨hget, hcode⟩ := h
    have hkind : p.kinds[i]? = some s.kind := by
      have hs : p.statements.toList[i]? = some s := by rw [Array.getElem?_toList]; exact hget
      rw [Program.kinds, List.getElem?_map, hs, Option.map_some]
    have hlt : i < (p.kinds.take (i + (s :: code).length)).length := by
      have := (List.getElem?_eq_some_iff.1 hkind).1
      simp only [List.length_take, List.length_cons]
      omega
    have hhead : (p.kinds.take (i + (s :: code).length))[i] = s.kind := by
      rw [List.getElem_take]
      exact (List.getElem?_eq_some_iff.1 hkind).2
    rw [List.drop_eq_getElem_cons hlt, hhead, List.map_cons, ← ih hcode, List.length_cons,
      show i + (code.length + 1) = i + 1 + code.length from by omega]

/-- Code that sits right behind an index stands between that index and the end of the code. -/
theorem kindsBetween_of_codeAt {p : Program} {i : Nat} {code : List Statement}
    (h : CodeAt p (i + 1) code) :
    p.kindsBetween i (i + 1 + code.length) = code.map Statement.kind :=
  drop_take_of_codeAt h

end SqlFlow
