import SqlFlow.Proofs.Lexer.Splitting
import SqlFlow.Proofs.Text.Trim

/-!
# The places the splitter comes by

* `Visits`: the splitter comes to a place of the source, with the fragments that have ended before it.
  `Visits.split_eq` says that these are the first fragments of the source, and `scan` makes the others.
* `Pending.EndsAt`: the pending statement is what was read last. `Visits.endsAt` is the invariant of the
  pass: it is so at every place, and `Visits.suffix` that nothing but the rest of the source is left there.
* `Pending.HeldBy`: a fragment begins with all that has been read of a statement.
  `exists_heldBy_scan`: the next fragment does, whatever follows.

All of it is so in every dialect, whether it is valid or not.
-/

namespace SqlFlow

open Source

/-- The splitter comes to the place of the source where `here` is left. The fragments `done` have ended
before it, and the cursor is `s`. -/
inductive Visits (d : Dialect) (source : List Char) :
    (done : List Fragment) → (s : Cursor) → (here : List Char) → Prop where
  | start : Visits d source [] {} source
  | onward {done ended : List Fragment} {s s' : Cursor} {c : Char} {cs rest : List Char}
      (h : Visits d source done s (c :: cs)) (hturn : s.turn d c cs = .onward ended s' rest) :
      Visits d source (done ++ ended) s' rest

variable {d : Dialect} {source here rest : List Char} {done ended : List Fragment} {s s' : Cursor}
  {p : Pending} {c : Char} {cs : List Char} {l : Lexeme}

/-- The fragments of a source are those that have ended before a place and those from there on. -/
theorem Visits.split_eq {text : String} (h : Visits d text.toList done s here) :
    Fragment.split d text = done ++ Fragment.scan d s here := by
  induction h with
  | start => rfl
  | onward _ hturn ih => rw [ih, scan_of_onward hturn, List.append_assoc]

/-! ## Turns -/

theorem turn_of_directive?_eq_none (h : s.directive? d (c :: cs) = none) :
    s.turn d c cs = s.turnAt (c :: cs) (Lexeme.next d c cs) := by
  unfold Cursor.turn
  rw [h]

/-- The kind of a lexeme decides what the turn at it comes to: the statement ends, or goes on, or the
source does not end the construct. -/
theorem turnAt_cases (l : Lexeme) :
    (∀ s here, Cursor.turnAt s here l = .onward s.statement s.atBoundary.inLine l.rest) ∨
    (∀ s here, Cursor.turnAt s here l = .onward [] (s.after here l) l.rest) ∨
    ∃ error : Nat → SyntaxError, ∀ s here, Cursor.turnAt s here l = .broken (s.fault (error s.line) here) := by
  unfold Cursor.turnAt
  cases l.kind with
  | newline | blank | comment | literal | content => exact .inr (.inl fun _ _ => rfl)
  | terminator => exact .inl fun _ _ => rfl
  | openComment => exact .inr (.inr ⟨.unterminatedComment, fun _ _ => rfl⟩)
  | openLiteral quote => exact .inr (.inr ⟨(.unterminatedLiteral · quote), fun _ _ => rfl⟩)

/-- A turn is one at a directive line, at a terminator, at a lexeme behind which the statement goes on,
or at a construct that does not end. -/
theorem turn_cases (d : Dialect) (s : Cursor) (c : Char) (cs : List Char) :
    (∃ l, s.directive? d (c :: cs) = some l ∧
      s.turn d c cs = .onward (s.statement ++ [l.fragment s.line]) s.atBoundary l.rest) ∨
    s.turn d c cs = .onward s.statement s.atBoundary.inLine (Lexeme.next d c cs).rest ∨
    s.turn d c cs = .onward [] (s.after (c :: cs) (Lexeme.next d c cs)) (Lexeme.next d c cs).rest ∨
    ∃ error, s.turn d c cs = .broken (s.fault error (c :: cs)) := by
  cases hdirective : s.directive? d (c :: cs) with
  | some l =>
    refine .inl ⟨l, rfl, ?_⟩
    unfold Cursor.turn
    rw [hdirective]
  | none =>
    rw [turn_of_directive?_eq_none hdirective]
    rcases turnAt_cases (Lexeme.next d c cs) with hturn | hturn | ⟨error, hturn⟩
    · exact .inr (.inl (hturn s (c :: cs)))
    · exact .inr (.inr (.inl (hturn s (c :: cs))))
    · exact .inr (.inr (.inr ⟨error s.line, hturn s (c :: cs)⟩))

/-- Every turn leaves an end of the source. -/
theorem suffix_of_turn (h : s.turn d c cs = .onward ended s' rest) : rest <:+ c :: cs := by
  have hlexeme : (Lexeme.next d c cs).rest <:+ c :: cs := ⟨_, Lexeme.text_append_rest d c cs⟩
  rcases turn_cases d s c cs with ⟨l, hl, hturn⟩ | hturn | hturn | ⟨error, hturn⟩
  · obtain ⟨-, -, rfl⟩ := Cursor.Turn.onward.inj (hturn.symm.trans h)
    unfold Cursor.directive? at hl
    split at hl
    · obtain ⟨_, _, text, htext, -⟩ := exists_form_of_read? hl
      exact ⟨text, htext⟩
    · cases hl
  · obtain ⟨-, -, rfl⟩ := Cursor.Turn.onward.inj (hturn.symm.trans h)
    exact hlexeme
  · obtain ⟨-, -, rfl⟩ := Cursor.Turn.onward.inj (hturn.symm.trans h)
    exact hlexeme
  · rw [hturn] at h
    cases h

theorem Visits.suffix (h : Visits d source done s here) : here <:+ source := by
  induction h with
  | start => exact List.suffix_refl source
  | onward _ hturn ih => exact (suffix_of_turn hturn).trans ih

/-! ## What is pending at a place -/

/-- What has been read of the statement ends where `here` begins, and began with a visible character. -/
structure Pending.EndsAt (p : Pending) (source here : List Char) : Prop where
  suffix : p.start <:+ source
  length_le : p.length ≤ p.start.length
  drop_eq : p.start.drop p.length = here
  head : ∀ c, p.start.head? = some c → Text.isBlank c = false

/-- So it is with the pending statement, if there is one. -/
def Cursor.EndsAt (s : Cursor) (source here : List Char) : Prop :=
  ∀ p, s.pending = some p → p.EndsAt source here

namespace Pending.EndsAt

theorem take_append (h : p.EndsAt source here) : p.start.take p.length ++ here = p.start := by
  rw [← h.drop_eq, List.take_append_drop]

/-- The statement after more of the source. -/
theorem extend {text : List Char} (h : p.EndsAt source (text ++ rest)) :
    (p.extend text.length).EndsAt source rest where
  suffix := h.suffix
  length_le := by
    have hlength := congrArg List.length h.take_append
    have hle := h.length_le
    simp only [List.length_append, List.length_take] at hlength
    show p.length + text.length ≤ p.start.length
    omega
  drop_eq := by
    show p.start.drop (p.length + text.length) = rest
    rw [← List.drop_drop, h.drop_eq, List.drop_left]
  head := h.head

/-- A statement that begins here. -/
theorem fresh (line : Nat) (hsuffix : c :: cs <:+ source) (hc : Text.isBlank c = false) :
    (Pending.mk (c :: cs) 0 line).EndsAt source (c :: cs) where
  suffix := hsuffix
  length_le := Nat.zero_le _
  drop_eq := rfl
  head := fun c' hc' => by
    cases hc'
    exact hc

end Pending.EndsAt

/-- A lexeme is part of the statement that is pending, whatever it is. -/
theorem pending_after_of_some (h : s.pending = some p) (here : List Char) (l : Lexeme) :
    (s.after here l).pending = some (p.extend l.text.length) := by
  cases hkind : l.kind <;>
    simp [Cursor.after, hkind, Cursor.skip, Cursor.take, Cursor.inLine, h]

/-- Where no statement is pending, one begins with a lexeme that is neither blank nor a comment. -/
theorem pending_after_of_none (h : s.pending = none) (here : List Char) (l : Lexeme) :
    (s.after here l).pending = none ∨ l.kind ≠ .newline ∧ l.kind ≠ .blank ∧
      (s.after here l).pending = some ((Pending.mk here 0 s.line).extend l.text.length) := by
  cases hkind : l.kind <;>
    simp [Cursor.after, hkind, Cursor.skip, Cursor.take, Cursor.inLine, h]

theorem isBlank_of_next (hn : (Lexeme.next d c cs).kind ≠ .newline)
    (hb : (Lexeme.next d c cs).kind ≠ .blank) : Text.isBlank c = false := by
  by_contra hc
  by_cases hc' : c = '\n'
  · subst hc'
    exact hn rfl
  · rw [next_blank d cs hc' (by simpa using hc)] at hb
    exact hb rfl

theorem endsAt_after (hsuffix : c :: cs <:+ source) (h : s.EndsAt source (c :: cs)) :
    (s.after (c :: cs) (Lexeme.next d c cs)).EndsAt source (Lexeme.next d c cs).rest := by
  intro p hp
  have hsource := Lexeme.text_append_rest d c cs
  cases hs : s.pending with
  | some p₀ =>
    rw [pending_after_of_some hs] at hp
    obtain rfl := Option.some.inj hp
    have hp₀ := h p₀ hs
    rw [← hsource] at hp₀
    exact hp₀.extend
  | none =>
    rcases pending_after_of_none hs (c :: cs) (Lexeme.next d c cs) with hnone | ⟨hn, hb, hsome⟩
    · rw [hnone] at hp
      cases hp
    · rw [hsome] at hp
      obtain rfl := Option.some.inj hp
      have hfresh := Pending.EndsAt.fresh s.line hsuffix (isBlank_of_next hn hb)
      rw [← hsource] at hfresh ⊢
      exact hfresh.extend

theorem endsAt_of_turn (hsuffix : c :: cs <:+ source) (h : s.EndsAt source (c :: cs))
    (hturn : s.turn d c cs = .onward ended s' rest) : s'.EndsAt source rest := by
  rcases turn_cases d s c cs with ⟨l, -, hcase⟩ | hcase | hcase | ⟨error, hcase⟩
  · obtain ⟨-, rfl, -⟩ := Cursor.Turn.onward.inj (hcase.symm.trans hturn)
    exact nofun
  · obtain ⟨-, rfl, -⟩ := Cursor.Turn.onward.inj (hcase.symm.trans hturn)
    exact nofun
  · obtain ⟨-, rfl, rfl⟩ := Cursor.Turn.onward.inj (hcase.symm.trans hturn)
    exact endsAt_after hsuffix h
  · rw [hcase] at hturn
    cases hturn

/-- At every place the pending statement is what was read last. -/
theorem Visits.endsAt (h : Visits d source done s here) : s.EndsAt source here := by
  induction h with
  | start => exact nofun
  | onward h hturn ih => exact endsAt_of_turn h.suffix ih hturn

/-! ## The fragment of what is pending -/

/-- The fragment is a statement or a fault, and what is written there begins as the statement does, with
at least all that has been read of it. -/
def Pending.HeldBy (p : Pending) (f : Fragment) : Prop :=
  (f.kind = .sql ∨ ∃ error, f.kind = .fault error) ∧
    ∃ n, p.length ≤ n ∧ f.raw = String.ofList (Text.trim (p.start.take n))

/-- What is pending is held by the next fragment. -/
theorem exists_heldBy_scan (d : Dialect) {s : Cursor} {p : Pending} {here : List Char}
    (hs : s.pending = some p) (h : p.EndsAt source here) :
    ∃ f more, Fragment.scan d s here = f :: more ∧ p.HeldBy f := by
  have hstatement : s.statement = [p.fragment] := by simp [Cursor.statement, hs]
  have hheld : p.HeldBy p.fragment := ⟨.inl rfl, p.length, Nat.le_refl _, rfl⟩
  cases here with
  | nil => exact ⟨p.fragment, [], by rw [Fragment.scan, hstatement], hheld⟩
  | cons c cs =>
    rcases turn_cases d s c cs with ⟨l, -, hturn⟩ | hturn | hturn | ⟨error, hturn⟩
    · exact ⟨p.fragment, _, by rw [scan_of_onward hturn, hstatement]; rfl, hheld⟩
    · exact ⟨p.fragment, _, by rw [scan_of_onward hturn, hstatement]; rfl, hheld⟩
    · -- the statement goes on, and the fragment of it holds what was pending before as well
      have hafter := pending_after_of_some hs (c :: cs) (Lexeme.next d c cs)
      have hsource := Lexeme.text_append_rest d c cs
      have hlt := Lexeme.length_rest_lt d c cs
      rw [← hsource] at h
      obtain ⟨f, more, hscan, hkind, n, hn, hraw⟩ := exists_heldBy_scan d hafter h.extend
      have hle : p.length ≤ n := Nat.le_trans (Nat.le_add_right _ _) hn
      exact ⟨f, more, by rw [scan_of_onward hturn, hscan]; rfl, hkind, n, hle, hraw⟩
    · refine ⟨s.fault error (c :: cs), [], scan_of_broken hturn, .inr ⟨error, rfl⟩, p.start.length,
        h.length_le, ?_⟩
      rw [List.take_length]
      simp [Cursor.fault, hs]
termination_by here.length

end SqlFlow
