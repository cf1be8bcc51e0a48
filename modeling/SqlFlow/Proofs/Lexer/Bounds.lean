import SqlFlow.Proofs.Lexer.Scanner
import SqlFlow.Proofs.Lexer.Visiting

/-!
# The splitter stays in bounds

Turn by turn the scanner, which goes by position and with checks, does what the splitter does. So it ends with
the same fragments, whatever the dialect and the script, and none of its checks fails.

* `Scanner.Holds`: the pending statement, as the scanner has it. `Scanner.Matches`: the scanner is where a
  cursor is.
* `Scanner.lineComment_eq`, `Scanner.blockComment_eq`, `Scanner.literal_eq`: what the scanner reads at once.
* `Scanner.takes_turn`: one turn. It returns, and the scanner is then where the cursor is behind its turn.
* `Scanner.IsAt`: the places that the loop comes by. `Scanner.IsAt.turn` says all that a turn does there, and
  `Scanner.IsAt.exists_loop` and `Scanner.exists_isAt` follow by induction on the turns.
* `Visits.line_add_length_le`: every line that was counted took a character.
* `Scanner.split_stays_in_bounds`: the result, the positions, and the depth of comments.
-/

namespace SqlFlow

open Source Checked

/-- Every line that was counted took a character. -/
theorem Visits.line_add_length_le {d : Dialect} {source here : List Char} {done : List Fragment}
    {s : Cursor} (h : Visits d source done s here) :
    s.line + here.length ≤ 1 + source.length := by
  induction h with
  | start => exact Nat.le_refl _
  | @onward done ended s s' c cs rest _ hturn ih =>
    have hrest := Cursor.length_turn_rest_lt hturn
    suffices hline : s'.line + rest.length ≤ s.line + (c :: cs).length from Nat.le_trans hline ih
    have hcount := List.count_le_length (a := '\n') (l := (Lexeme.next d c cs).text)
    have hlength := congrArg List.length (Lexeme.text_append_rest d c cs)
    rw [List.length_append] at hlength
    -- only a lexeme that ends no statement counts lines: the newlines of its text
    rcases turn_cases d s c cs with ⟨l, -, hcase⟩ | hcase | hcase | ⟨error, hcase⟩
    · obtain ⟨-, rfl, rfl⟩ := Cursor.Turn.onward.inj (hcase.symm.trans hturn)
      exact Nat.add_le_add_left (Nat.le_of_lt hrest) _
    · obtain ⟨-, rfl, rfl⟩ := Cursor.Turn.onward.inj (hcase.symm.trans hturn)
      exact Nat.add_le_add_left (Nat.le_of_lt hrest) _
    · obtain ⟨-, rfl, rfl⟩ := Cursor.Turn.onward.inj (hcase.symm.trans hturn)
      have hafter : (s.after (c :: cs) (Lexeme.next d c cs)).line =
          s.line + (Lexeme.next d c cs).text.count '\n' := by
        unfold Cursor.after
        split <;> rfl
      omega
    · rw [hcase] at hturn
      cases hturn

namespace Scanner

variable {d : Dialect} {chars : Array Char} {m : Scanner} {done : List Fragment} {s : Cursor}
  {pending : Option Pending} {source here read rest : List Char} {c : Char} {cs : List Char}

/-! ## What is pending -/

/-- The scanner has the statement that is pending. -/
inductive Holds (m : Scanner) : Option Pending → Prop where
  | nothing (hcontent : m.hasContent = false) (hcurrent : m.current = []) : Holds m none
  | statement {p : Pending} (hcontent : m.hasContent = true)
      (hcurrent : m.current = p.start.take p.length) (hline : m.currentLine = p.line) : Holds m (some p)

theorem Holds.congr {m' : Scanner} (h : m.Holds pending) (hcontent : m'.hasContent = m.hasContent)
    (hcurrent : m'.current = m.current) (hline : m'.currentLine = m.currentLine) : m'.Holds pending := by
  cases h with
  | nothing hnone hempty => exact .nothing (hcontent.trans hnone) (hcurrent.trans hempty)
  | statement hsome hread hfirst =>
    exact .statement (hcontent.trans hsome) (hcurrent.trans hread) (hline.trans hfirst)

theorem Holds.isNone_eq (h : m.Holds pending) : pending.isNone = !m.hasContent := by
  cases h with
  | nothing hcontent | statement hcontent => rw [hcontent]; rfl

theorem take_extend {p : Pending} (h : p.EndsAt source (read ++ rest)) :
    (p.extend read.length).start.take (p.extend read.length).length = p.start.take p.length ++ read := by
  show p.start.take (p.length + read.length) = _
  rw [List.take_add, h.drop_eq, List.take_left]

theorem Holds.skip (h : m.Holds pending) (hends : ∀ p, pending = some p → p.EndsAt source (read ++ rest))
    (next : Place) : (m.skip read next).Holds (pending.map (·.extend read.length)) := by
  cases h with
  | nothing hcontent hcurrent =>
    exact .nothing hcontent (by simp [Scanner.skip, hcontent, hcurrent])
  | @statement p hcontent hcurrent hline =>
    refine .statement hcontent ?_ hline
    rw [take_extend (hends p rfl), ← hcurrent]
    simp [Scanner.skip, hcontent]

theorem Holds.take (h : m.Holds pending) (hends : ∀ p, pending = some p → p.EndsAt source (read ++ rest))
    (next : Place) :
    (m.take read next).Holds (some ((pending.getD ⟨read ++ rest, 0, m.line⟩).extend read.length)) := by
  cases h with
  | nothing hcontent hcurrent =>
    have hline : (m.take read next).currentLine = m.line := by simp [Scanner.take, hcontent]
    refine .statement rfl ?_ hline
    show m.current ++ read = (read ++ rest).take (0 + read.length)
    rw [hcurrent, Nat.zero_add, List.take_left, List.nil_append]
  | @statement p hcontent hcurrent hline =>
    have hline' : (m.take read next).currentLine = p.line := by simp [Scanner.take, hcontent, hline]
    refine .statement rfl ?_ hline'
    rw [Option.getD_some, take_extend (hends p rfl), ← hcurrent]
    rfl

theorem Holds.flush_fragments (h : m.Holds pending) :
    m.flush.fragments.toList = m.fragments.toList ++ pending.toList.map Pending.fragment := by
  cases h with
  | nothing hcontent => simp [flush, hcontent]
  | statement hcontent hcurrent hline =>
    simp [flush, hcontent, hcurrent, hline, Pending.fragment, Pending.text]

theorem Holds.fail_toList (h : m.Holds s.pending) (hends : s.EndsAt source here) (error : SyntaxError) :
    (m.fail error here).toList = m.fragments.toList ++ [s.fault error here] := by
  have hall : m.current ++ here = (s.pending.map Pending.start).getD here := by
    generalize hpending : s.pending = pending at h
    cases h with
    | nothing _ hcurrent => rw [hcurrent]; rfl
    | @statement p _ hcurrent => rw [hcurrent]; exact (hends p hpending).take_append
  unfold Scanner.fail Cursor.fault
  rw [hall, Array.toList_push]

/-! ## Where the splitter is -/

/-- The scanner is where the cursor is: `here` is left of the text, and the fragments `done` have ended. -/
structure Matches (chars : Array Char) (m : Scanner) (done : List Fragment) (s : Cursor)
    (here : List Char) : Prop where
  left : LeftAt chars m.pos here
  line : m.line = s.line
  lineBlank : m.lineBlank = s.lineBlank
  fragments : m.fragments.toList = done
  holds : m.Holds s.pending

namespace Matches

theorem start (chars : Array Char) : Matches chars {} [] {} chars.toList where
  left := leftAt_zero chars
  line := rfl
  lineBlank := rfl
  fragments := rfl
  holds := .nothing rfl rfl

theorem skip (h : Matches chars m done s (read ++ rest)) (hends : s.EndsAt source (read ++ rest)) :
    Matches chars (m.skip read (m.advance read)) done (s.skip read) rest where
  left := h.left.append
  line := congrArg (· + read.count '\n') h.line
  lineBlank := h.lineBlank
  fragments := h.fragments
  holds := h.holds.skip hends _

theorem take (h : Matches chars m done s (read ++ rest)) (hends : s.EndsAt source (read ++ rest)) :
    Matches chars (m.take read (m.advance read)) done (s.take (read ++ rest) read) rest where
  left := h.left.append
  line := congrArg (· + read.count '\n') h.line
  lineBlank := h.lineBlank
  fragments := h.fragments
  holds := by
    have hholds := h.holds.take hends (m.advance read)
    rwa [h.line] at hholds

theorem inLine (h : Matches chars m done s here) : Matches chars m.inLine done s.inLine here :=
  ⟨h.left, h.line, rfl, h.fragments, h.holds.congr rfl rfl rfl⟩

theorem newline (h : Matches chars m done s here) :
    Matches chars { m with lineBlank := true } done { s with lineBlank := true } here :=
  ⟨h.left, h.line, rfl, h.fragments, h.holds.congr rfl rfl rfl⟩

/-- The statement ends, and the text goes on where `rest` is left. -/
theorem flush (h : Matches chars m done s here) {pos : Nat} (hrest : LeftAt chars pos rest) :
    Matches chars { m.flush with pos := pos } (done ++ s.statement) s.atBoundary rest where
  left := hrest
  line := h.line
  lineBlank := h.lineBlank
  fragments := by rw [h.holds.flush_fragments, h.fragments]; rfl
  holds := .nothing rfl rfl

theorem push (h : Matches chars m done s here) (f : Fragment) :
    Matches chars { m with fragments := m.fragments.push f } (done ++ [f]) s here where
  left := h.left
  line := h.line
  lineBlank := h.lineBlank
  fragments := by rw [Array.toList_push, h.fragments]
  holds := h.holds.congr rfl rfl rfl

end Matches

/-! ## Constructs -/

theorem lineComment_eq (h : LeftAt chars m.pos here) :
    m.lineComment chars = pure (m.skip (line here) (m.advance (line here))) := by
  have hstop := h.endOfRun_eq (p := (· != '\n'))
  change _ = pure (_ + (line here).length) at hstop
  have hadvance : m.advance (line here) = ⟨m.pos + (line here).length, m.line⟩ := by
    unfold Place.advance
    rw [List.count_eq_zero.2 (not_mem_line here), Nat.add_zero]
  rw [← line_append_afterLine here] at h
  unfold lineComment
  rw [hstop, pure_bind, h.slice_eq, pure_bind, hadvance]

/-- What a reader took behind an opener is one stretch with it. -/
theorem slice_behind {p : Place} {body : List Char} (opener : List Char)
    (h : LeftAt chars p.pos (opener ++ cs)) (happend : body ++ rest = cs) :
    (p.advance opener).behind (some (body, rest)) = some (p.advance (opener ++ body)) ∧
      slice chars p.pos (p.advance (opener ++ body)).pos = pure (opener ++ body) := by
  rw [← happend, ← List.append_assoc] at h
  exact ⟨congrArg some (p.advance_advance opener body), h.slice_eq⟩

theorem blockComment_eq (h : LeftAt chars m.pos ('/' :: '*' :: cs)) :
    m.blockComment d chars = pure (match commentBody? d.nestedComments 0 cs with
      | some (body, _) => .ok (m.skip (['/', '*'] ++ body) (m.advance (['/', '*'] ++ body)))
      | none => .error (.unterminatedComment m.line)) := by
  have hopener : commentTurn d chars ⟨m.toPlace, 0⟩ = pure (.again ⟨m.advance ['/', '*'], 0 + 1⟩) :=
    commentTurn_opener h
  have hloop := loop_commentTurn (d := d) 0 (m.advance ['/', '*']) h.tail.tail
  unfold blockComment
  rw [loop_of_again hopener, hloop, pure_bind]
  cases htaken : commentBody? d.nestedComments 0 cs with
  | none => rfl
  | some taken =>
    obtain ⟨hbehind, hslice⟩ := slice_behind ['/', '*'] h (commentBody?_append htaken)
    rw [hbehind]
    simp only [hslice, pure_bind]

theorem literal_eq {quote : Char} (hquote : quote ≠ '\n') (h : LeftAt chars m.pos (quote :: cs)) :
    m.literal chars quote = pure (match literalBody? quote cs with
      | some (body, _) => .ok (m.take ([quote] ++ body) (m.advance ([quote] ++ body)))
      | none => .error (.unterminatedLiteral m.line quote)) := by
  have hfirst : m.advance [quote] = ⟨m.pos + 1, m.line⟩ := by
    rw [Place.advance_singleton, if_neg hquote]
  have hloop := loop_literalTurn hquote (m.advance [quote]) h.tail
  unfold literal
  rw [← hfirst, hloop, pure_bind]
  cases htaken : literalBody? quote cs with
  | none => rfl
  | some taken =>
    obtain ⟨hbehind, hslice⟩ := slice_behind [quote] h (literalBody?_append htaken)
    rw [hbehind]
    simp only [hslice, pure_bind]

/-! ## Turns -/

/-- A turn of the scanner comes to what a turn of the splitter does. -/
inductive Follows (chars : Array Char) (done : List Fragment) :
    Cursor.Turn → Step Scanner (Array Fragment) → Prop where
  | again {ended : List Fragment} {next : Cursor} {rest : List Char} {m : Scanner}
      (h : Matches chars m (done ++ ended) next rest) :
      Follows chars done (.onward ended next rest) (.again m)
  | done {last : Fragment} {fragments : Array Fragment} (h : fragments.toList = done ++ [last]) :
      Follows chars done (.broken last) (.done fragments)

/-- It returns so. -/
def Takes (chars : Array Char) (done : List Fragment) (t : Cursor.Turn)
    (turn : Checked (Step Scanner (Array Fragment))) : Prop :=
  ∃ step, turn = pure step ∧ Follows chars done t step

/-- At a lexeme that does not end a statement. -/
theorem takes_of_matches {next : Scanner} {l : Lexeme}
    (hl : ∀ s here, Cursor.turnAt s here l = .onward [] (s.after here l) l.rest)
    (h : Matches chars next done (s.after here l) l.rest) :
    Takes chars done (s.turnAt here l) (pure (.again next)) := by
  refine ⟨_, rfl, ?_⟩
  rw [hl]
  refine .again ?_
  rwa [List.append_nil]

theorem takes_fault {error : SyntaxError} (h : Matches chars m done s here)
    (hends : s.EndsAt source here) :
    Takes chars done (.broken (s.fault error here)) (m.behind chars (.error error)) := by
  refine ⟨.done (m.fail error here), ?_, .done ?_⟩
  · show (do return Step.done (m.fail error (← slice chars m.pos chars.size))) = _
    rw [h.left.slice_size, pure_bind]
  · rw [h.holds.fail_toList hends, h.fragments]

theorem pair_prefix_iff {a b : Char} : [a, b] <+: c :: cs ↔ c = a ∧ cs.head? = some b := by
  cases cs <;> simp [List.cons_prefix_cons, eq_comm]

section

variable (h : Matches chars m done s.inLine (c :: cs)) (hends : s.inLine.EndsAt source (c :: cs))

include h hends

theorem takes_lineComment (hcomment : c = '-' ∧ cs.head? = some '-') :
    Takes chars done (s.turnAt (c :: cs) (Lexeme.next d c cs))
      (do return .again (← m.lineComment chars)) := by
  obtain ⟨rfl, hcs⟩ := hcomment
  obtain ⟨cs, rfl⟩ := List.head?_eq_some_iff.1 hcs
  rw [lineComment_eq h.left, pure_bind, next_lineComment]
  rw [← line_append_afterLine ('-' :: '-' :: cs)] at h hends
  refine takes_of_matches (fun _ _ => rfl) ?_
  exact h.skip hends

theorem takes_blockComment (hcomment : c = '/' ∧ cs.head? = some '*') :
    Takes chars done (s.turnAt (c :: cs) (Lexeme.next d c cs))
      (do m.behind chars (← m.blockComment d chars)) := by
  obtain ⟨rfl, hcs⟩ := hcomment
  obtain ⟨cs, rfl⟩ := List.head?_eq_some_iff.1 hcs
  rw [blockComment_eq h.left, pure_bind, next_blockComment]
  cases htaken : commentBody? d.nestedComments 0 cs with
  | none =>
    rw [h.line]
    exact takes_fault (s := s.inLine) h hends
  | some taken =>
    obtain ⟨body, rest⟩ := taken
    have hsource : '/' :: '*' :: cs = (['/', '*'] ++ body) ++ rest := by
      rw [List.append_assoc, commentBody?_append htaken]
      rfl
    rw [hsource] at h hends
    exact takes_of_matches (fun _ _ => rfl) (h.skip hends)

theorem takes_literal (hn : c ≠ '\n') (hb : Text.isBlank c = false)
    (hl : ¬(c = '-' ∧ cs.head? = some '-')) (hc : ¬(c = '/' ∧ cs.head? = some '*')) (hq : IsQuote d c) :
    Takes chars done (s.turnAt (c :: cs) (Lexeme.next d c cs))
      (do m.behind chars (← m.literal chars c)) := by
  rw [literal_eq hn h.left, pure_bind, next_literal d cs hn hb hl hc hq]
  cases htaken : literalBody? c cs with
  | none =>
    rw [h.line]
    exact takes_fault (s := s.inLine) h hends
  | some taken =>
    obtain ⟨body, rest⟩ := taken
    have hsource : c :: cs = ([c] ++ body) ++ rest := by
      rw [List.append_assoc, literalBody?_append htaken]
      rfl
    rw [hsource] at h hends ⊢
    exact takes_of_matches (fun _ _ => rfl) (h.take hends)

theorem takes_turnInLine (hn : c ≠ '\n') (hb : Text.isBlank c = false) :
    Takes chars done (s.turnAt (c :: cs) (Lexeme.next d c cs)) (m.turnInLine d chars c) := by
  have hstarts : ∀ a b, startsWith chars m.pos [a, b] = pure ([a, b].isPrefixOf (c :: cs)) :=
    fun a b => h.left.startsWith_eq _ (List.cons_ne_nil _ _)
  have hadvance : m.advance [c] = ⟨m.pos + 1, m.line⟩ := by rw [Place.advance_singleton, if_neg hn]
  unfold turnInLine
  -- both try the constructs in the same order, and each lexeme is known once those before it are excluded
  rw [hstarts, pure_bind]
  by_cases hl : c = '-' ∧ cs.head? = some '-'
  · rw [if_pos (List.isPrefixOf_iff_prefix.2 (pair_prefix_iff.2 hl))]
    exact takes_lineComment h hends hl
  rw [if_neg (by rwa [List.isPrefixOf_iff_prefix, pair_prefix_iff]), hstarts, pure_bind]
  by_cases hc : c = '/' ∧ cs.head? = some '*'
  · rw [if_pos (List.isPrefixOf_iff_prefix.2 (pair_prefix_iff.2 hc))]
    exact takes_blockComment h hends hc
  rw [if_neg (by rwa [List.isPrefixOf_iff_prefix, pair_prefix_iff])]
  by_cases hq : IsQuote d c
  · rw [if_pos ((opensLiteral_iff d).2 hq)]
    exact takes_literal h hends hn hb hl hc hq
  rw [if_neg (by rwa [opensLiteral_iff])]
  by_cases ht : c = d.terminator
  · rw [if_pos ht, next_terminator d cs hn hb hl hc hq ht]
    exact ⟨_, rfl, .again (h.flush h.left.tail)⟩
  · rw [if_neg ht, next_content d cs hn hb hl hc hq ht, ← hadvance]
    have htake : Matches chars (m.take [c] (m.advance [c])) done (s.inLine.take (c :: cs) [c]) cs :=
      h.take hends
    exact takes_of_matches (fun _ _ => rfl) htake

end

theorem takes_turnAt (h : Matches chars m done s (c :: cs)) (hends : s.EndsAt source (c :: cs)) :
    Takes chars done (s.turnAt (c :: cs) (Lexeme.next d c cs)) (m.turnAt d chars c) := by
  have hskip : Matches chars (m.skip [c] (m.advance [c])) done (s.skip [c]) cs := h.skip hends
  rw [Place.advance_singleton] at hskip
  unfold turnAt
  by_cases hn : c = '\n'
  · rw [if_pos hn] at hskip ⊢
    subst hn
    exact takes_of_matches (l := ⟨.newline, ['\n'], cs⟩) (fun _ _ => rfl) hskip.newline
  rw [if_neg hn] at hskip ⊢
  cases hb : Text.isBlank c with
  | true =>
    rw [if_pos rfl, next_blank d cs hn hb]
    exact takes_of_matches (fun _ _ => rfl) hskip
  | false =>
    rw [if_neg Bool.false_ne_true]
    exact takes_turnInLine h.inLine hends hn hb

theorem directive?_eq (h : Matches chars m done s here) :
    m.directive? d chars =
      pure ((s.directive? d here).map fun l => (l.fragment s.line, chars.size - l.rest.length)) := by
  have hadmits : (m.lineBlank || !m.hasContent) = s.admitsDirective := by
    rw [h.lineBlank, ← h.holds.isNone_eq]
    rfl
  unfold directive? Cursor.directive?
  rw [hadmits]
  cases s.admitsDirective with
  | false => rfl
  | true =>
    rw [if_pos rfl, if_pos rfl]
    by_cases hmarker : d.marker.toList = []
    · -- an empty marker stands nowhere
      simp [startsWith, DirectiveLine.read?, hmarker]
    rw [h.left.startsWith_eq _ hmarker, pure_bind, h.line]
    by_cases hhere : d.marker.toList <+: here
    · rw [if_pos (List.isPrefixOf_iff_prefix.2 hhere)]
      exact directiveAt_eq hmarker hhere h.left s.line
    · have hnone : DirectiveLine.read? d here = none := by
        unfold DirectiveLine.read?
        simp [hhere]
      rw [if_neg (by rwa [List.isPrefixOf_iff_prefix]), hnone]
      rfl

theorem takes_turn (h : Matches chars m done s (c :: cs)) (hends : s.EndsAt chars.toList (c :: cs)) :
    Takes chars done (s.turn d c cs) (m.turn d chars) := by
  unfold turn Cursor.turn
  rw [if_pos h.left.lt_size, h.left.getAt_eq, pure_bind, directive?_eq h, pure_bind]
  cases hdirective : s.directive? d (c :: cs) with
  | none => exact takes_turnAt h hends
  | some l =>
    have hturn : s.turn d c cs = .onward (s.statement ++ [l.fragment s.line]) s.atBoundary l.rest := by
      unfold Cursor.turn
      rw [hdirective]
    have hrest : LeftAt chars (chars.size - l.rest.length) l.rest :=
      h.left.of_suffix (suffix_of_turn hturn)
    refine ⟨_, rfl, .again ?_⟩
    rw [← List.append_assoc]
    exact (h.flush hrest).push _

/-- At the end of the text. -/
theorem turn_nil (h : Matches chars m done s []) :
    m.turn d chars = pure (.done m.flush.fragments) ∧ m.flush.fragments.toList = done ++ s.statement := by
  have hend : ¬m.pos < chars.size := by
    rw [h.left.eq_size]
    exact Nat.lt_irrefl _
  constructor
  · unfold turn
    rw [if_neg hend]
  · rw [h.holds.flush_fragments, h.fragments]
    rfl

/-! ## The loop -/

/-- The scanner is at a place of the script that the splitter comes by. -/
inductive IsAt (d : Dialect) (source : String) (m : Scanner) (here : List Char) : Prop where
  | intro {done : List Fragment} {s : Cursor} (hvisits : Visits d source.toList done s here)
      (hmatches : Matches source.toList.toArray m done s here)

theorem IsAt.start (d : Dialect) (source : String) : IsAt d source {} source.toList :=
  ⟨.start, .start source.toList.toArray⟩

/-- A turn goes on to a place further on, or it is the last and gives the fragments of the script. -/
theorem IsAt.turn {source : String} (h : IsAt d source m here) :
    (∃ next rest, m.turn d source.toList.toArray = pure (.again next) ∧ IsAt d source next rest ∧
      rest.length < here.length) ∨
    ∃ fragments, m.turn d source.toList.toArray = pure (.done fragments) ∧
      fragments.toList = Fragment.split d source := by
  obtain ⟨hvisits, hmatches⟩ := h
  rcases here with _ | ⟨c, cs⟩
  · obtain ⟨hturn, hfragments⟩ := turn_nil (d := d) hmatches
    rw [hvisits.split_eq, Fragment.scan]
    exact .inr ⟨_, hturn, hfragments⟩
  · obtain ⟨step, hstep, hfollows⟩ := takes_turn hmatches hvisits.endsAt
    generalize hturn : Cursor.turn d _ c cs = turn at hfollows
    cases hfollows with
    | again hnext =>
      have hlength := Cursor.length_turn_rest_lt hturn
      exact .inl ⟨_, _, hstep, ⟨hvisits.onward hturn, hnext⟩, hlength⟩
    | done hfragments =>
      rw [hvisits.split_eq, scan_of_broken hturn]
      exact .inr ⟨_, hstep, hfragments⟩

theorem IsAt.exists_loop {source : String} {m : Scanner} {here : List Char} (h : IsAt d source m here) :
    ∃ fragments, Turn.loop (Scanner.turn d source.toList.toArray) m = pure fragments ∧
      fragments.toList = Fragment.split d source := by
  -- less of the script is left behind every turn that goes on
  rcases h.turn with ⟨next, rest, hturn, hnext, hlength⟩ | ⟨fragments, hturn, hfragments⟩
  · rw [loop_of_again hturn]
    exact hnext.exists_loop
  · exact ⟨fragments, loop_of_done hturn, hfragments⟩
termination_by here.length

/-- Wherever the loop comes by, the splitter does. -/
theorem exists_isAt {source : String} (h : ComesBy (turn d source.toList.toArray) {} m) :
    ∃ here, IsAt d source m here := by
  induction h with
  | start => exact ⟨_, .start d source⟩
  | again _ hturn ih =>
    obtain ⟨here, h⟩ := ih
    rcases h.turn with ⟨next, rest, hturn', hnext, -⟩ | ⟨fragments, hturn', -⟩
    · rw [hturn'] at hturn
      cases hturn
      exact ⟨rest, hnext⟩
    · rw [hturn'] at hturn
      cases hturn

theorem IsAt.left {source : String} (h : IsAt d source m here) : LeftAt source.toList.toArray m.pos here := by
  obtain ⟨-, hmatches⟩ := h
  exact hmatches.left

theorem IsAt.line_le {source : String} (h : IsAt d source m here) : m.line ≤ m.pos + 1 := by
  obtain ⟨hvisits, hmatches⟩ := h
  have hline := hvisits.line_add_length_le
  have hsize := hmatches.left.size_eq
  rw [List.size_toArray] at hsize
  rw [hmatches.line]
  omega

/-- Split by position, a script of any dialect comes to the fragments that it has: the loop ends, and no
character, no stretch and no level of a comment is taken that is not there. Each turn is at a position in the
text and goes on to a later one. In a comment there is always one that is open where a closer stands. The
counters of lines and of comments are bounded by the position. -/
theorem split_stays_in_bounds (d : Dialect) (source : String) :
    let chars := source.toList.toArray
    split d source = pure (Fragment.split d source) ∧
    (∀ m, ComesBy (turn d chars) {} m → m.pos ≤ chars.size ∧ m.line ≤ m.pos + 1 ∧
      ∃ step, m.turn d chars = pure step ∧ ∀ next, step = .again next → m.pos < next.pos) ∧
    ∀ start line, startsWith chars start ['/', '*'] = pure true →
      ∀ c, ComesBy (commentTurn d chars) ⟨⟨start, line⟩, 0⟩ c → c.pos ≤ chars.size ∧ c.depth ≤ c.pos ∧
        (startsWith chars c.pos ['*', '/'] = pure true → 1 ≤ c.depth) := by
  intro chars
  refine ⟨?_, fun m hm => ?_, fun start line hopener c hc => ?_⟩
  · obtain ⟨fragments, hloop, hfragments⟩ := (IsAt.start d source).exists_loop
    unfold split
    rw [hloop, pure_bind, hfragments]
  · obtain ⟨here, h⟩ := exists_isAt hm
    refine ⟨h.left.le_size, h.line_le, ?_⟩
    rcases h.turn with ⟨next, rest, hturn, hnext, hlength⟩ | ⟨fragments, hturn, -⟩
    · refine ⟨_, hturn, ?_⟩
      rintro _ ⟨⟩
      have hpos := h.left.size_eq
      have hpos' := hnext.left.size_eq
      omega
    · exact ⟨_, hturn, nofun⟩
  · obtain ⟨behind, hstart⟩ := exists_leftAt_of_startsWith hopener
    have hinside := inside_of_comesBy hstart hc
    refine ⟨hinside.le_size, hinside.depth_le, fun hcloser => ?_⟩
    obtain ⟨rest, hrest⟩ := exists_leftAt_of_startsWith hcloser
    exact hinside.one_le_depth hstart hrest

end Scanner

end SqlFlow
