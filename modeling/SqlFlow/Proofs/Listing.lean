import Mathlib.Data.List.Basic
import SqlFlow.Proofs.Placement
import SqlFlow.Program.Assembly
import SqlFlow.Program.Listing

/-!
# Reading a listing back

A listing shows of a program all that it means to show: where two programs have the same listing, they
agree on it statement by statement.

* `Statement.cells`: the line of a statement, by its columns. Whatever the text of the statement, there is
  no newline in it (`newline_not_mem_cells`), so the lines of a listing are those of the statements
  (`splitOn_listing`).
* `Listing.Row`: what a line shows. `Row.read` takes a line apart again: `read_cells`.
* `listing_determines_statements`: so no two listings can be confused.

Columns may be wider than they are meant to be. A line can be read all the same, for no number and no
keyword has a blank in it, and the target column begins with a hyphen or with a blank.
-/

namespace SqlFlow

namespace Listing

/-! ## Columns -/

theorem toList_pushn (s : String) (c : Char) (n : Nat) :
    (s.pushn c n).toList = s.toList ++ List.replicate n c := by
  rw [String.pushn_eq_repeat_push]
  induction n with
  | zero => simp [Nat.repeat]
  | succ n ih => simp [Nat.repeat, ih, List.replicate_succ']

theorem toList_alignRight (width : Nat) (s : String) :
    (alignRight width s).toList = List.replicate (width - s.length) ' ' ++ s.toList := by
  simp [alignRight, toList_pushn]

theorem toList_alignLeft (width : Nat) (s : String) :
    (alignLeft width s).toList = s.toList ++ List.replicate (width - s.length) ' ' := by
  simp [alignLeft, toList_pushn]

theorem newline_not_mem_flatten (text : String) : '\n' ∉ (flatten text).toList := by
  rw [flatten, String.toList_ofList, List.mem_map]
  rintro ⟨c, -, hc⟩
  split at hc
  · cases hc
  · next hne => simp [hc] at hne

/-! ## Numbers -/

/-- The digits of a number. -/
abbrev digits (n : Nat) : List Char := Nat.toDigits 10 n

theorem isDigit_of_mem_digits {n : Nat} {c : Char} (h : c ∈ digits n) : c.isDigit = true :=
  Nat.isDigit_of_mem_toDigits (by decide) (by decide) h

theorem length_repr (n : Nat) : n.repr.length = (digits n).length := by
  rw [← String.length_toList, Nat.toList_repr]

theorem not_mem_digits {n : Nat} {c : Char} (hc : c.isDigit = false) : c ∉ digits n := fun h => by
  simp [isDigit_of_mem_digits h] at hc

theorem takeWhile_digits (n : Nat) (rest : List Char) :
    (digits n ++ ' ' :: rest).takeWhile Char.isDigit = digits n := by
  rw [List.takeWhile_append_of_pos fun _ => isDigit_of_mem_digits,
    List.takeWhile_cons_of_neg (by decide), List.append_nil]

theorem dropWhile_digits (n : Nat) (rest : List Char) :
    (digits n ++ ' ' :: rest).dropWhile Char.isDigit = ' ' :: rest := by
  rw [List.dropWhile_append_of_pos fun _ => isDigit_of_mem_digits,
    List.dropWhile_cons_of_neg (by decide)]

theorem toList_target (t : Nat) : (target (some t)).toList = '-' :: '>' :: ' ' :: digits t := by
  have harrow : (toString "-> ").toList = ['-', '>', ' '] := rfl
  simp [target, harrow]

theorem length_target (t : Nat) : (target (some t)).length = 3 + (digits t).length := by
  rw [← String.length_toList, toList_target]
  simp only [List.length_cons]
  omega

/-- The number that digits stand for. -/
def value (cs : List Char) : Nat := Nat.ofDigitChars 10 cs 0

theorem value_digits (n : Nat) : value (digits n) = n :=
  Nat.ofDigitChars_toDigits (by decide) (by decide)

/-- A number behind blanks, and what follows it. -/
def number (cs : List Char) : Nat × List Char :=
  let word := cs.dropWhile (· == ' ')
  (value (word.takeWhile Char.isDigit), word.dropWhile Char.isDigit)

theorem number_blank (cs : List Char) : number (' ' :: cs) = number cs := rfl

theorem number_digits (blanks n : Nat) (rest : List Char) :
    number (List.replicate blanks ' ' ++ (digits n ++ ' ' :: rest)) = (n, ' ' :: rest) := by
  have hword : (digits n ++ ' ' :: rest).dropWhile (· == ' ') = digits n ++ ' ' :: rest := by
    cases hdigits : digits n with
    | nil => simp [digits] at hdigits
    | cons c cs =>
      have hc : c ≠ ' ' := fun h => not_mem_digits (n := n) (c := ' ') (by decide) (by simp [hdigits, h])
      simp [hc]
  have hblanks : ∀ c ∈ List.replicate blanks ' ', (c == ' ') = true := by
    simp [List.mem_replicate]
  simp only [number, List.dropWhile_append_of_pos hblanks, hword, takeWhile_digits, dropWhile_digits,
    value_digits]

end Listing

/-! ## Lines -/

namespace Statement

open Listing

/-- The target column, which is never empty. -/
def targetCell (target : Option Nat) : List Char :=
  (Listing.target target).toList ++ List.replicate (8 - (Listing.target target).length) ' '

/-- The line of a statement without its newline. -/
def cells (index : Nat) (s : Statement) : List Char :=
  List.replicate (4 - (digits index).length) ' ' ++ (digits index ++ ' ' :: ' ' ::
    (List.replicate (4 - (digits s.line).length) ' ' ++ (digits s.line ++ ' ' :: ' ' ::
      (s.kind.keyword.toList ++ (List.replicate (14 - s.kind.keyword.length) ' ' ++ ' ' ::
        (targetCell s.target ++ ' ' :: (flatten s.text).toList))))))

theorem toList_listingLine (index : Nat) (s : Statement) :
    (s.listingLine index).toList = s.cells index ++ ['\n'] := by
  have hgap : "  ".toList = [' ', ' '] := rfl
  have hblank : " ".toList = [' '] := rfl
  have hend : "\n".toList = ['\n'] := rfl
  simp [listingLine, cells, targetCell, toList_alignRight, toList_alignLeft, length_repr, hgap, hblank,
    hend]

/-- No part of a line but its text is free, and there is no newline in that. -/
theorem newline_not_mem_cells (index : Nat) (s : Statement) : '\n' ∉ s.cells index := by
  have hdigits : ∀ n, '\n' ∉ digits n := fun n => not_mem_digits (by decide)
  have hkeyword : '\n' ∉ s.kind.keyword.toList := by
    cases s.kind with
    | sql | invalid => decide
    | directive x => cases x <;> decide
  have htarget : '\n' ∉ (Listing.target s.target).toList := by
    cases s.target with
    | none => decide
    | some t => simp [toList_target, hdigits]
  simp [cells, targetCell, hdigits, hkeyword, htarget, newline_not_mem_flatten, List.mem_replicate]

end Statement

/-- Lines in a row are split at the newlines behind them. -/
theorem Listing.splitOn_lines {rows : List (List Char)} (h : ∀ row ∈ rows, '\n' ∉ row) :
    (rows.flatMap fun row => row ++ ['\n']).splitOn '\n' = rows ++ [[]] := by
  induction rows with
  | nil => rfl
  | cons row rows ih =>
    obtain ⟨hrow, hrows⟩ := List.forall_mem_cons.1 h
    rw [List.flatMap_cons, List.append_assoc, List.singleton_append,
      List.splitOn_append_cons_self_of_not_mem hrow, ih hrows, List.cons_append]

/-- The lines of a listing are those of the statements, one for each. -/
theorem Program.splitOn_listing (p : Program) :
    p.listing.toList.splitOn '\n' = p.statements.toList.mapIdx (fun i s => s.cells i) ++ [[]] := by
  have hlines : p.listing.toList =
      (p.statements.toList.mapIdx fun i s => s.cells i).flatMap fun row => row ++ ['\n'] := by
    simp [listing, String.toList_join, List.mapIdx_eq_zipIdx_map, List.flatMap_map,
      Statement.toList_listingLine]
  rw [hlines, Listing.splitOn_lines]
  intro row hrow
  obtain ⟨i, hi, rfl⟩ := List.mem_mapIdx.1 hrow
  exact Statement.newline_not_mem_cells i _

/-! ## Reading a line -/

namespace Listing

/-- What a line of a listing shows. -/
structure Row where
  index : Nat
  line : Nat
  kind : StatementKind
  target : Option Nat
  text : List Char

/-- The kind of a name. -/
def kindOf (word : List Char) : StatementKind :=
  match Directive.ofKeyword? word with
  | some x => .directive x
  | none => if word = StatementKind.sql.keyword.toList then .sql else .invalid

theorem kindOf_keyword (kind : StatementKind) : kindOf kind.keyword.toList = kind := by
  cases kind with
  | sql | invalid => decide
  | directive x =>
    show kindOf x.keyword.toList = _
    rw [kindOf, Directive.ofKeyword?_keyword]

/-- The target column and the text behind it. -/
def targetText : List Char → Option Nat × List Char
  | '-' :: '>' :: ' ' :: cs =>
    let word := cs.takeWhile Char.isDigit
    (some (value word), cs.drop (word.length + (8 - (3 + word.length)) + 1))
  | cs => (none, cs.drop 9)

/-- Takes a line apart. -/
def Row.read (cs : List Char) : Row :=
  let (index, cs) := number cs
  let (line, cs) := number cs
  let (target, text) := targetText (cs.drop 17)
  { index, line, kind := kindOf ((cs.drop 2).takeWhile (· != ' ')), target, text }

theorem targetText_targetCell (t : Option Nat) (text : List Char) :
    targetText (Statement.targetCell t ++ ' ' :: text) = (t, text) := by
  cases t with
  | none => rfl
  | some t =>
    -- behind the digits there is a blank, be it of the column or the one between the columns
    have hblank : ∃ cs, List.replicate (8 - (target (some t)).length) ' ' ++ ' ' :: text = ' ' :: cs := by
      cases 8 - (target (some t)).length with
      | zero => exact ⟨text, rfl⟩
      | succ n => exact ⟨_, rfl⟩
    obtain ⟨cs, hcs⟩ := hblank
    have hcell : Statement.targetCell (some t) ++ ' ' :: text =
        '-' :: '>' :: ' ' :: (digits t ++ ' ' :: cs) := by
      rw [← hcs]
      simp [Statement.targetCell, toList_target]
    rw [hcell]
    simp only [targetText, takeWhile_digits, value_digits]
    rw [← hcs, length_target]
    rw [← List.append_assoc, Nat.add_assoc, ← List.drop_drop, List.append_assoc, List.drop_left]
    rw [← List.drop_drop, List.drop_left' (List.length_replicate ..), List.drop_one, List.tail_cons]

end Listing

/-- What the listing shows of a statement. -/
def Statement.row (index : Nat) (s : Statement) : Listing.Row where
  index := index
  line := s.line
  kind := s.kind
  target := s.target
  text := (Listing.flatten s.text).toList

/-- The keyword column ends where it is meant to, for no keyword is longer than it is wide. -/
theorem StatementKind.length_keyword_le (kind : StatementKind) : kind.keyword.length ≤ 14 := by
  cases kind with
  | sql | invalid => decide
  | directive x => cases x <;> decide

theorem StatementKind.blank_not_mem_keyword (kind : StatementKind) : ' ' ∉ kind.keyword.toList := by
  cases kind with
  | sql | invalid => decide
  | directive x => cases x <;> decide

theorem Listing.takeWhile_keyword (kind : StatementKind) (blanks : Nat) (rest : List Char) :
    (kind.keyword.toList ++ (List.replicate blanks ' ' ++ ' ' :: rest)).takeWhile (· != ' ') =
      kind.keyword.toList := by
  have hkeyword : ∀ c ∈ kind.keyword.toList, (c != ' ') = true := fun c hc =>
    bne_iff_ne.2 fun h => kind.blank_not_mem_keyword (h ▸ hc)
  rw [List.takeWhile_append_of_pos hkeyword]
  cases blanks <;> simp [List.replicate_succ]

theorem Listing.drop_keyword (kind : StatementKind) (rest : List Char) :
    (kind.keyword.toList ++ (List.replicate (14 - kind.keyword.length) ' ' ++ ' ' :: rest)).drop 15 =
      rest := by
  have hle := kind.length_keyword_le
  rw [← List.append_assoc, show 15 = 14 + 1 from rfl, ← List.drop_drop, List.drop_left',
    List.drop_one, List.tail_cons]
  simp only [List.length_append, String.length_toList, List.length_replicate]
  omega

/-- A line is taken apart as it was put together. -/
theorem Listing.Row.read_cells (index : Nat) (s : Statement) : Row.read (s.cells index) = s.row index := by
  simp only [Row.read, Statement.cells, number_digits, number_blank, List.drop_succ_cons, List.drop_zero,
    takeWhile_keyword, kindOf_keyword, drop_keyword, targetText_targetCell]
  rfl

/-- Programs with the same listing have as many statements, and these have the same lines, kinds and
targets, and texts that are the same when newlines are shown as spaces. Each statement is one line of the
listing, whatever its text. -/
theorem listing_determines_statements {p q : Program} (h : p.listing = q.listing) :
    p.size = q.size ∧
    (∀ i s t, p.get? i = some s → q.get? i = some t →
      s.line = t.line ∧ s.kind = t.kind ∧ s.target = t.target ∧
        Listing.flatten s.text = Listing.flatten t.text) ∧
    ∀ i s, p.get? i = some s → ∃ row, '\n' ∉ row ∧ (s.listingLine i).toList = row ++ ['\n'] ∧
      (p.listing.toList.splitOn '\n')[i]? = some row := by
  have hcells : p.statements.toList.mapIdx (fun i s => s.cells i) =
      q.statements.toList.mapIdx fun i s => s.cells i := by
    have hsplit := p.splitOn_listing
    rw [h, q.splitOn_listing] at hsplit
    exact List.append_cancel_right hsplit.symm
  have hget : ∀ {p : Program} {i s}, p.get? i = some s →
      (p.statements.toList.mapIdx fun i s => s.cells i)[i]? = some (s.cells i) := fun {p i s} hs => by
    have hs' : p.statements.toList[i]? = some s := by rw [Array.getElem?_toList]; exact hs
    rw [List.getElem?_mapIdx, hs', Option.map_some]
  refine ⟨?_, fun i s t hs ht => ?_, fun i s hs => ?_⟩
  · simpa [Program.size] using congrArg List.length hcells
  · have hrow : s.row i = t.row i := by
      rw [← Listing.Row.read_cells, ← Listing.Row.read_cells]
      congr 1
      exact Option.some.inj ((hget hs).symm.trans (hcells ▸ hget ht))
    simp only [Statement.row, Listing.Row.mk.injEq, true_and] at hrow
    obtain ⟨hline, hkind, htarget, htext⟩ := hrow
    exact ⟨hline, hkind, htarget, String.toList_injective htext⟩
  · refine ⟨s.cells i, s.newline_not_mem_cells i, s.toList_listingLine i, ?_⟩
    have hlt := (List.getElem?_eq_some_iff.1 (hget hs)).1
    rw [p.splitOn_listing, List.getElem?_append_left hlt, hget hs]

/-- A statement on two lines of its script, and the same on one. -/
theorem listing_determines_statements_of_split_select :
    let script (text : String) : List Fragment :=
      [⟨.directive .ifThen, "1", "--if 1", 1⟩, ⟨.sql, text, text, 2⟩,
        ⟨.directive .endIf, "", "--endif", 4⟩]
    let p := Program.assemble {} (script "SELECT\n1")
    let q := Program.assemble {} (script "SELECT 1")
    p ≠ q ∧ p.listing = q.listing ∧ p.size = q.size := by
  intro script p q
  have hlisting : p.listing = q.listing := by decide +kernel
  exact ⟨by decide, hlisting, (listing_determines_statements hlisting).1⟩

end SqlFlow
