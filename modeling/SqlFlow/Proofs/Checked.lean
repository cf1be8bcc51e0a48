/-!
# Checked computations

Programs that run over an array by position. They stop with a panic where they take what is not there, and
their loops have no bound: that such a program returns is something to be proved.

* `Checked`: computations that may panic, or not end.
* `getAt`, `slice`, `pred`: an element, a stretch of elements, one less than a counter, each with its check.
* `Turn.loop`: turns, one after the other, until one is the last. `ComesBy` says which states it comes by.
* `LeftAt`: the elements that are left of an array at a position. `LeftAt.getAt_eq`, `LeftAt.slice_eq`,
  `LeftAt.startsWith_eq` and `LeftAt.endOfRun_eq` are what is found there, and say that no check fails.
-/

namespace SqlFlow

/-- Why a computation stops without a result. -/
inductive Panic where
  /-- There is no element at the index. -/
  | index (i size : Nat)
  /-- The stretch does not lie in the array, or ends before it starts. -/
  | slice (first last size : Nat)
  /-- A counter at zero was to be made less. -/
  | underflow
deriving DecidableEq, Repr

/-- A computation. It has no outcome at all if it does not end; otherwise it has panicked or returns. -/
abbrev Checked := ExceptT Panic Option

namespace Checked

/-! ## Accesses -/

section

variable {α : Type}

/-- The element at an index. -/
def getAt (as : Array α) (i : Nat) : Checked α :=
  match as[i]? with
  | some a => pure a
  | none => throw (.index i as.size)

/-- The elements from one index up to another. -/
def slice (as : Array α) (first last : Nat) : Checked (List α) :=
  if first ≤ last ∧ last ≤ as.size then pure (as.extract first last).toList
  else throw (.slice first last as.size)

/-- One less. -/
def pred : Nat → Checked Nat
  | 0 => throw .underflow
  | n + 1 => pure n

/-- Whether a pattern stands at a position. The empty one stands nowhere. -/
def startsWith [BEq α] (as : Array α) (pos : Nat) (pattern : List α) : Checked Bool :=
  if pattern.isEmpty then pure false
  else if pos + pattern.length ≤ as.size then do
    return (← slice as pos (pos + pattern.length)) == pattern
  else pure false

end

/-! ## Loops -/

/-- What a turn of a loop comes to. -/
inductive Step (σ ρ : Type) where
  /-- The loop goes on from the state. -/
  | again (s : σ)
  /-- The loop ends with the result. -/
  | done (r : ρ)

/-- The body of a loop. -/
abbrev Turn (σ ρ : Type) : Type := σ → Checked (Step σ ρ)

section

variable {σ ρ : Type} {turn : Turn σ ρ} {start s next : σ} {r : ρ}

/-- Turn after turn. Nothing bounds their number. -/
def Turn.loop (turn : Turn σ ρ) (s : σ) : Checked ρ := do
  match ← turn s with
  | .again next => turn |>.loop next
  | .done r => return r
partial_fixpoint

theorem loop_of_again (h : turn s = pure (.again next)) : turn.loop s = turn.loop next := by
  rw [Turn.loop, h, pure_bind]

theorem loop_of_done (h : turn s = pure (.done r)) : turn.loop s = pure r := by
  rw [Turn.loop, h, pure_bind]

/-- The loop that starts in the one state comes by the other. -/
inductive ComesBy (turn : Turn σ ρ) (start : σ) : σ → Prop where
  | start : ComesBy turn start start
  | again {s next : σ} (h : ComesBy turn start s) (hturn : turn s = pure (.again next)) :
      ComesBy turn start next

end

/-! ## What is left at a position -/

section

variable {α : Type} {as : Array α} {pos : Nat} {a : α} {read rest : List α}

/-- The elements from the position on. -/
structure LeftAt (as : Array α) (pos : Nat) (rest : List α) : Prop where
  le_size : pos ≤ as.size
  drop_eq : as.toList.drop pos = rest

theorem leftAt_zero (as : Array α) : LeftAt as 0 as.toList := ⟨Nat.zero_le _, rfl⟩

namespace LeftAt

theorem size_eq (h : LeftAt as pos rest) : pos + rest.length = as.size := by
  have hle := h.le_size
  have hlength := congrArg List.length h.drop_eq
  rw [List.length_drop, Array.length_toList] at hlength
  omega

theorem lt_size (h : LeftAt as pos (a :: rest)) : pos < as.size := by
  have hsize := h.size_eq
  rw [List.length_cons] at hsize
  omega

theorem eq_size (h : LeftAt as pos []) : pos = as.size := h.size_eq

theorem append (h : LeftAt as pos (read ++ rest)) : LeftAt as (pos + read.length) rest where
  le_size := by
    have hsize := h.size_eq
    rw [List.length_append] at hsize
    omega
  drop_eq := by rw [← List.drop_drop, h.drop_eq, List.drop_left]

theorem tail (h : LeftAt as pos (a :: rest)) : LeftAt as (pos + 1) rest := by
  rw [← List.singleton_append] at h
  exact h.append

theorem of_suffix {here : List α} (h : LeftAt as pos here) (hsuffix : rest <:+ here) :
    LeftAt as (as.size - rest.length) rest := by
  obtain ⟨read, rfl⟩ := hsuffix
  have hsize := h.append.size_eq
  rw [← hsize, Nat.add_sub_cancel]
  exact h.append

theorem getElem?_eq (h : LeftAt as pos rest) : as[pos]? = rest.head? := by
  rw [← h.drop_eq, List.head?_drop, Array.getElem?_toList]

theorem getAt_eq (h : LeftAt as pos (a :: rest)) : getAt as pos = pure a := by
  unfold getAt
  rw [h.getElem?_eq, List.head?_cons]

theorem slice_eq (h : LeftAt as pos (read ++ rest)) :
    slice as pos (pos + read.length) = pure read := by
  unfold slice
  rw [if_pos ⟨Nat.le_add_right _ _, h.append.le_size⟩, Array.toList_extract, List.extract_eq_take_drop,
    h.drop_eq, Nat.add_sub_cancel_left, List.take_left]

theorem slice_size (h : LeftAt as pos rest) : slice as pos as.size = pure rest := by
  rw [← List.append_nil rest] at h
  have hslice := h.slice_eq
  rwa [h.append.eq_size] at hslice

theorem startsWith_eq [BEq α] [LawfulBEq α] (h : LeftAt as pos rest) (pattern : List α)
    (hpattern : pattern ≠ []) : startsWith as pos pattern = pure (pattern.isPrefixOf rest) := by
  have hsize := h.size_eq
  unfold startsWith
  rw [if_neg (by simpa using hpattern)]
  by_cases hstarts : pattern <+: rest
  · obtain ⟨behind, rfl⟩ := hstarts
    rw [if_pos h.append.le_size, h.slice_eq, pure_bind, beq_self_eq_true,
      List.isPrefixOf_iff_prefix.2 (List.prefix_append ..)]
  · rw [Bool.eq_false_iff.2 fun heq => hstarts (List.isPrefixOf_iff_prefix.1 heq)]
    split
    · next hle =>
      -- the stretch is as long as the pattern, and no other start of what is left is
      have hlength : (rest.take pattern.length).length = pattern.length := by
        rw [List.length_take]
        omega
      rw [← List.take_append_drop pattern.length rest] at h
      have hslice := h.slice_eq
      have hne : (rest.take pattern.length == pattern) = false := by
        rw [beq_eq_false_iff_ne]
        exact fun heq => hstarts (heq ▸ List.take_prefix _ _)
      rw [hlength] at hslice
      rw [hslice, pure_bind, hne]
    · rfl

end LeftAt

theorem exists_leftAt_of_startsWith [BEq α] [LawfulBEq α] {pattern : List α}
    (h : startsWith as pos pattern = pure true) : ∃ rest, LeftAt as pos (pattern ++ rest) := by
  by_cases hpattern : pattern = []
  · subst hpattern
    cases h
  by_cases hle : pos ≤ as.size
  · have hleft : LeftAt as pos (as.toList.drop pos) := ⟨hle, rfl⟩
    rw [hleft.startsWith_eq _ hpattern] at h
    have hstarts : pattern.isPrefixOf (as.toList.drop pos) = true := Except.ok.inj (Option.some.inj h)
    obtain ⟨rest, hrest⟩ := List.isPrefixOf_iff_prefix.1 hstarts
    exact ⟨rest, hrest ▸ hleft⟩
  · unfold startsWith at h
    rw [if_neg (by simpa using hpattern), if_neg (by omega)] at h
    cases h

/-! ## Runs of elements -/

variable {p : α → Bool}

/-- A turn of `endOfRun`. -/
def runTurn (p : α → Bool) (as : Array α) (i : Nat) : Checked (Step Nat Nat) :=
  if i < as.size then do
    if p (← getAt as i) then return .again (i + 1) else return .done i
  else return .done i

/-- The position behind the longest run of elements with the property. -/
def endOfRun (p : α → Bool) (as : Array α) (pos : Nat) : Checked Nat := Turn.loop (runTurn p as) pos

theorem LeftAt.endOfRun_eq (h : LeftAt as pos rest) :
    endOfRun p as pos = pure (pos + (rest.takeWhile p).length) := by
  induction rest generalizing pos with
  | nil =>
    refine loop_of_done ?_
    unfold runTurn
    rw [if_neg (by rw [h.eq_size]; exact Nat.lt_irrefl _)]
    rfl
  | cons a rest ih =>
    have hturn : runTurn p as pos = if p a then pure (.again (pos + 1)) else pure (.done pos) := by
      unfold runTurn
      rw [if_pos h.lt_size, h.getAt_eq, pure_bind]
    cases hp : p a with
    | true =>
      rw [hp, if_pos rfl] at hturn
      have hrest : LeftAt as (pos + 1) rest := h.tail
      refine (loop_of_again hturn).trans ((ih hrest).trans ?_)
      rw [List.takeWhile_cons_of_pos hp, List.length_cons, Nat.add_assoc, Nat.add_comm 1]
    | false =>
      rw [hp, if_neg Bool.false_ne_true] at hturn
      refine (loop_of_done hturn).trans ?_
      rw [List.takeWhile_cons_of_neg (by simp [hp])]
      rfl

end

end Checked

end SqlFlow
