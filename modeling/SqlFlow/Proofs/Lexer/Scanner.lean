import SqlFlow.Fragment.Split
import SqlFlow.Proofs.Checked

/-!
# Splitting by position

The splitter as a program over an array of characters, which it goes through by position: every character
and every stretch that it takes is taken with a check, and so is one level less of a nested comment.

* `Place`: a position with its line.
* `Scanner.directiveAt`, `Scanner.commentTurn`, `Scanner.literalTurn`: directive lines, comments, literals.
* `Scanner`: what is remembered. `Scanner.turn` is what is done at one position, `Scanner.split` the loop.
* `Scanner.directiveAt_eq`, `Scanner.loop_commentTurn`, `Scanner.loop_literalTurn`: they end, without a
  panic, with what the readers of `SqlFlow.Source` find.
* `Scanner.Comment.Inside`: the depth of a comment is at least one behind the opener.
  `Scanner.Comment.Inside.again` keeps this in a turn, `Scanner.inside_of_comesBy` in all of them.
-/

namespace SqlFlow

open Source Checked

/-! ## Places -/

/-- A position in a text, and the line that it is on. -/
structure Place where
  pos : Nat
  line : Nat

namespace Place

/-- The place behind what was read. -/
def advance (p : Place) (read : List Char) : Place := ⟨p.pos + read.length, p.line + read.count '\n'⟩

/-- The place behind what a reader took, if the construct ends. -/
def behind (p : Place) (t : Taken) : Option Place := t.map fun (body, _) => p.advance body

theorem advance_advance (p : Place) (a b : List Char) : (p.advance a).advance b = p.advance (a ++ b) := by
  simp only [advance, List.length_append, List.count_append, Nat.add_assoc]

theorem behind_after (p : Place) (read : List Char) (t : Taken) :
    p.behind (t.after read) = (p.advance read).behind t := by
  cases t with
  | none => rfl
  | some taken => exact congrArg some (p.advance_advance read taken.1).symm

theorem advance_singleton (p : Place) (c : Char) :
    p.advance [c] = ⟨p.pos + 1, if c = '\n' then p.line + 1 else p.line⟩ := by
  by_cases hc : c = '\n' <;> simp [advance, hc]

end Place

/-- What is remembered of the text before a position. -/
structure Scanner extends Place where
  pos := 0
  line := 1
  /-- The fragments that have ended. -/
  fragments : Array Fragment := #[]
  /-- What has been read of the statement. -/
  current : List Char := []
  /-- The line of its first character. -/
  currentLine : Nat := 1
  /-- Whether a statement has begun. -/
  hasContent : Bool := false
  /-- Whether the line holds only blanks so far. -/
  lineBlank : Bool := true

namespace Scanner

section Readers

variable (d : Dialect) (chars : Array Char)

/-! ## Readers -/

/-- The directive line that the marker at `start` begins, and the position behind it. -/
def directiveAt (line start : Nat) : Checked (Option (Fragment × Nat)) := do
  let wordStart := start + d.marker.toList.length
  let wordEnd ← endOfRun Char.isAlpha chars wordStart
  if wordEnd = wordStart then return none
  else if DirectiveLine.endsKeyword d chars[wordEnd]?.toList then
    match Directive.ofKeyword? (← slice chars wordStart wordEnd) with
    | none => return none
    | some directive =>
      let stop ← endOfRun (· != '\n') chars wordEnd
      let raw ← slice chars start stop
      let behind ← slice chars wordEnd stop
      return some (⟨.directive directive, String.ofList (DirectiveLine.argument d behind),
        String.ofList (Text.trim raw), line⟩, stop)
  else return none

/-- A place in a comment, and how many comments are open there. -/
structure Comment extends Place where
  depth : Nat

/-- A turn of the loop over a comment, which ends behind the comment or without a place. -/
def commentTurn (c : Comment) : Checked (Step Comment (Option Place)) :=
  if c.pos < chars.size then do
    if ← startsWith chars c.pos ['/', '*'] then
      let depth := if c.depth = 0 ∨ d.nestedComments then c.depth + 1 else c.depth
      return .again ⟨⟨c.pos + 2, c.line⟩, depth⟩
    else if ← startsWith chars c.pos ['*', '/'] then
      let depth ← pred c.depth
      let next : Place := ⟨c.pos + 2, c.line⟩
      if depth = 0 then return .done (some next) else return .again ⟨next, depth⟩
    else
      let line := if (← getAt chars c.pos) = '\n' then c.line + 1 else c.line
      return .again ⟨⟨c.pos + 1, line⟩, c.depth⟩
  else return .done none

/-- A turn of the loop over a literal, which ends behind its closing quote or without a place. -/
def literalTurn (quote : Char) (p : Place) : Checked (Step Place (Option Place)) :=
  if p.pos < chars.size then do
    let c ← getAt chars p.pos
    if c = quote then
      if chars[p.pos + 1]? = some quote then return .again ⟨p.pos + 2, p.line⟩
      else return .done (some ⟨p.pos + 1, p.line⟩)
    else return .again ⟨p.pos + 1, if c = '\n' then p.line + 1 else p.line⟩
  else return .done none

end Readers

/-! ## The scanner -/

section

variable (d : Dialect) (chars : Array Char) (m : Scanner)

/-- Goes on to a place. What was read up to there belongs to the statement, if one has begun. -/
def skip (read : List Char) (next : Place) : Scanner :=
  { m with toPlace := next, current := if m.hasContent then m.current ++ read else m.current }

/-- Goes on to a place. What was read up to there belongs to the statement, which begins with it if none has
begun. -/
def take (read : List Char) (next : Place) : Scanner :=
  { m with
    toPlace := next
    current := m.current ++ read
    currentLine := if m.hasContent then m.currentLine else m.line
    hasContent := true }

/-- Ends the statement, if one has begun. -/
def flush : Scanner :=
  let text := String.ofList (Text.trim m.current)
  { m with
    fragments := if m.hasContent then m.fragments.push ⟨.sql, text, text, m.currentLine⟩ else m.fragments
    current := []
    hasContent := false }

/-- The fragments of a text with a construct that does not end and begins with `tail`. -/
def fail (error : SyntaxError) (tail : List Char) : Array Fragment :=
  let raw := String.ofList (Text.trim (m.current ++ tail))
  m.fragments.push ⟨.fault error, raw, raw, error.line⟩

def inLine : Scanner := { m with lineBlank := false }

/-- The directive line here, if one may start here. -/
def directive? : Checked (Option (Fragment × Nat)) :=
  if m.lineBlank || !m.hasContent then do
    if ← startsWith chars m.pos d.marker.toList then directiveAt d chars m.line m.pos else return none
  else return none

def lineComment : Checked Scanner := do
  let stop ← endOfRun (· != '\n') chars m.pos
  return m.skip (← slice chars m.pos stop) ⟨stop, m.line⟩

def blockComment : Checked (Except SyntaxError Scanner) := do
  match ← Turn.loop (commentTurn d chars) ⟨m.toPlace, 0⟩ with
  | some next => return .ok (m.skip (← slice chars m.pos next.pos) next)
  | none => return .error (.unterminatedComment m.line)

def literal (quote : Char) : Checked (Except SyntaxError Scanner) := do
  match ← Turn.loop (literalTurn chars quote) ⟨m.pos + 1, m.line⟩ with
  | some next => return .ok (m.take (← slice chars m.pos next.pos) next)
  | none => return .error (.unterminatedLiteral m.line quote)

/-- Goes on behind a construct, or ends with all that is left if it does not end. -/
def behind : Except SyntaxError Scanner → Checked (Step Scanner (Array Fragment))
  | .ok next => return .again next
  | .error error => return .done (m.fail error (← slice chars m.pos chars.size))

/-- The turn at a character that is not blank. -/
def turnInLine (c : Char) : Checked (Step Scanner (Array Fragment)) := do
  if ← startsWith chars m.pos ['-', '-'] then return .again (← m.lineComment chars)
  else if ← startsWith chars m.pos ['/', '*'] then m.behind chars (← m.blockComment d chars)
  else if Lexeme.opensLiteral d c then m.behind chars (← m.literal chars c)
  else if c = d.terminator then return .again { m.flush with pos := m.pos + 1 }
  else return .again (m.take [c] ⟨m.pos + 1, m.line⟩)

/-- The turn at a character where no directive line starts. -/
def turnAt (c : Char) : Checked (Step Scanner (Array Fragment)) :=
  if c = '\n' then return .again { m.skip [c] ⟨m.pos + 1, m.line + 1⟩ with lineBlank := true }
  else if Text.isBlank c then return .again (m.skip [c] ⟨m.pos + 1, m.line⟩)
  else m.inLine.turnInLine d chars c

/-- The turn at a position. -/
def turn : Checked (Step Scanner (Array Fragment)) :=
  if m.pos < chars.size then do
    let c ← getAt chars m.pos
    match ← m.directive? d chars with
    | some (f, stop) => return .again { m.flush with fragments := m.flush.fragments.push f, pos := stop }
    | none => m.turnAt d chars c
  else return .done m.flush.fragments

end

/-- The fragments of a script. -/
def split (d : Dialect) (source : String) : Checked (List Fragment) := do
  let fragments ← Turn.loop (turn d source.toList.toArray) {}
  return fragments.toList

section

variable {d : Dialect} {chars : Array Char} {here : List Char} {start : Nat}

/-! ## What the readers find -/

theorem endsKeyword_head? (d : Dialect) (behind : List Char) :
    DirectiveLine.endsKeyword d behind.head?.toList = DirectiveLine.endsKeyword d behind := by
  cases behind <;> rfl

theorem read?_marker_append {marked : List Char} (hmarker : d.marker.toList ≠ []) :
    DirectiveLine.read? d (d.marker.toList ++ marked) =
      DirectiveLine.ofWord? d (marked.takeWhile Char.isAlpha) (marked.dropWhile Char.isAlpha) := by
  have hempty : d.marker.toList.isEmpty = false := by simpa using hmarker
  have hstarts : d.marker.toList.isPrefixOf (d.marker.toList ++ marked) = true :=
    List.isPrefixOf_iff_prefix.2 (List.prefix_append ..)
  unfold DirectiveLine.read?
  simp only [hempty, hstarts, Bool.not_false, Bool.and_self, if_pos, List.drop_left]

/-- Behind the marker a directive line is read as `DirectiveLine.read?` does. -/
theorem directiveAt_eq (hmarker : d.marker.toList ≠ []) (hstarts : d.marker.toList <+: here)
    (h : LeftAt chars start here) (n : Nat) :
    directiveAt d chars n start =
      pure ((DirectiveLine.read? d here).map fun l => (l.fragment n, chars.size - l.rest.length)) := by
  obtain ⟨marked, rfl⟩ := hstarts
  have hmarked := h.append
  have hrun := hmarked.endOfRun_eq (p := Char.isAlpha)
  have hsplit : marked.takeWhile Char.isAlpha ++ marked.dropWhile Char.isAlpha = marked :=
    List.takeWhile_append_dropWhile
  rw [read?_marker_append hmarker]
  -- the word and what is behind it, wherever they are cut
  generalize marked.takeWhile Char.isAlpha = word at *
  generalize marked.dropWhile Char.isAlpha = behind at *
  subst hsplit
  have hbehind := hmarked.append
  have hends : DirectiveLine.endsKeyword d chars[start + d.marker.toList.length + word.length]?.toList =
      DirectiveLine.endsKeyword d behind := by
    rw [hbehind.getElem?_eq, endsKeyword_head?]
  unfold directiveAt DirectiveLine.ofWord?
  simp only [hrun, pure_bind, hends, hmarked.slice_eq]
  by_cases hword : word = []
  · -- the empty word is no keyword
    subst hword
    have hnone : Directive.ofKeyword? [] = none := by decide
    simp [hnone]
  rw [if_neg (by simpa using hword)]
  cases hend : DirectiveLine.endsKeyword d behind with
  | false => rfl
  | true =>
    cases hkeyword : Directive.ofKeyword? word with
    | none => rfl
    | some directive =>
      have hline : line behind ++ afterLine behind = behind := line_append_afterLine behind
      have hstop := hbehind.endOfRun_eq (p := (· != '\n'))
      change _ = pure (_ + (line behind).length) at hstop
      rw [← hline] at h hbehind
      have hraw : slice chars start
          (start + d.marker.toList.length + word.length + (line behind).length) =
          pure (d.marker.toList ++ word ++ line behind) := by
        have hall : LeftAt chars start (d.marker.toList ++ word ++ line behind ++ afterLine behind) := by
          simpa only [List.append_assoc] using h
        simpa only [List.length_append, Nat.add_assoc] using hall.slice_eq
      have hsize := hbehind.append.size_eq
      simp only [if_pos, hstop, pure_bind, hraw, hbehind.slice_eq, Option.map_some]
      rw [← hsize, Nat.add_sub_cancel]
      rfl

end

section

variable {d : Dialect} {chars : Array Char} {c : Comment} {p : Place} {rest : List Char}

/-! ## Comments -/

theorem commentTurn_opener (h : LeftAt chars c.pos ('/' :: '*' :: rest)) :
    commentTurn d chars c = pure (.again ⟨c.advance ['/', '*'],
      if c.depth = 0 ∨ d.nestedComments then c.depth + 1 else c.depth⟩) := by
  have hopener := h.startsWith_eq ['/', '*'] (List.cons_ne_nil _ _)
  unfold commentTurn
  rw [if_pos h.lt_size, hopener]
  rfl

theorem commentTurn_closer (h : LeftAt chars c.pos ('*' :: '/' :: rest)) :
    commentTurn d chars c = (do
      let depth ← pred c.depth
      let next := c.advance ['*', '/']
      if depth = 0 then return .done (some next) else return .again ⟨next, depth⟩) := by
  have hopener := h.startsWith_eq ['/', '*'] (List.cons_ne_nil _ _)
  have hcloser := h.startsWith_eq ['*', '/'] (List.cons_ne_nil _ _)
  unfold commentTurn
  rw [if_pos h.lt_size, hopener, hcloser]
  rfl

/-- The closer of the last comment that is open. -/
theorem commentTurn_last (h : LeftAt chars c.pos ('*' :: '/' :: rest)) (hdepth : c.depth = 1) :
    commentTurn d chars c = pure (.done (some (c.advance ['*', '/']))) := by
  rw [commentTurn_closer h, hdepth]
  rfl

/-- The closer of a comment in a comment. -/
theorem commentTurn_inner {k : Nat} (h : LeftAt chars c.pos ('*' :: '/' :: rest))
    (hdepth : c.depth = k + 2) :
    commentTurn d chars c = pure (.again ⟨c.advance ['*', '/'], k + 1⟩) := by
  rw [commentTurn_closer h, hdepth]
  rfl

theorem commentTurn_other {a : Char} (h : LeftAt chars c.pos (a :: rest))
    (hopener : ¬['/', '*'] <+: a :: rest) (hcloser : ¬['*', '/'] <+: a :: rest) :
    commentTurn d chars c = pure (.again ⟨c.advance [a], c.depth⟩) := by
  have hopener' := h.startsWith_eq ['/', '*'] (List.cons_ne_nil _ _)
  have hcloser' := h.startsWith_eq ['*', '/'] (List.cons_ne_nil _ _)
  rw [← List.isPrefixOf_iff_prefix, Bool.not_eq_true] at hopener hcloser
  rw [hopener] at hopener'
  rw [hcloser] at hcloser'
  unfold commentTurn
  rw [if_pos h.lt_size, hopener', hcloser', h.getAt_eq, Place.advance_singleton]
  rfl

theorem commentTurn_nil (h : LeftAt chars c.pos []) : commentTurn d chars c = pure (.done none) := by
  unfold commentTurn
  rw [if_neg (by rw [h.eq_size]; exact Nat.lt_irrefl _)]

/-- Behind its opener a comment is read as `commentBody?` does, with one level more than are open in it. -/
theorem loop_commentTurn (inner : Nat) (p : Place) (h : LeftAt chars p.pos rest) :
    Turn.loop (commentTurn d chars) ⟨p, inner + 1⟩ =
      pure (p.behind (commentBody? d.nestedComments inner rest)) := by
  -- the cases of the reader are the turns: its `inner` is the depth less the comment itself, so the closer
  -- where nothing is open inside is the last turn
  fun_induction commentBody? d.nestedComments inner rest generalizing p with
  | case1 => exact loop_of_done (commentTurn_nil h)
  | case2 inner cs ih =>
    rw [loop_of_again (commentTurn_opener h), Place.behind_after, ← ih _ h.tail.tail]
    simp only [Nat.add_one_ne_zero, false_or]
    split <;> rfl
  | case3 cs => exact loop_of_done (commentTurn_last h rfl)
  | case4 inner cs ih =>
    rw [loop_of_again (commentTurn_inner h rfl), Place.behind_after,
      ← ih _ h.tail.tail]
  | case5 inner c cs hopener hcloser hcloser' ih =>
    have hturn : commentTurn d chars ⟨p, inner + 1⟩ = pure (.again ⟨p.advance [c], inner + 1⟩) := by
      refine commentTurn_other h ?_ ?_
      · rintro ⟨cs', hcs⟩
        obtain ⟨hc, hcs⟩ := List.cons.inj hcs
        exact hopener cs' hc.symm hcs.symm
      · rintro ⟨cs', hcs⟩
        obtain ⟨hc, hcs⟩ := List.cons.inj hcs
        cases inner with
        | zero => exact hcloser cs' rfl hc.symm hcs.symm
        | succ inner => exact hcloser' inner cs' rfl hc.symm hcs.symm
    rw [loop_of_again hturn, Place.behind_after, ← ih _ h.tail]

/-! ## The depth of a comment -/

section

variable {next : Comment} {start : Nat} {behind : List Char}

/-- What holds in the comment that the opener at `start` begins. -/
structure Comment.Inside (chars : Array Char) (start : Nat) (c : Comment) : Prop where
  le_size : c.pos ≤ chars.size
  depth_le : c.depth ≤ c.pos
  /-- Behind the opener at least one comment is open. -/
  opened : c.pos = start ∨ 1 ≤ c.depth

/-- A closer stands behind the opener. -/
theorem Comment.Inside.one_le_depth (hstart : LeftAt chars start ('/' :: '*' :: behind))
    (h : c.Inside chars start) {rest : List Char} (hcloser : LeftAt chars c.pos ('*' :: '/' :: rest)) :
    1 ≤ c.depth := by
  refine h.opened.resolve_left fun hpos => ?_
  have hsame := hcloser.drop_eq
  rw [hpos, hstart.drop_eq] at hsame
  simp at hsame

/-- A turn that goes on stays inside. -/
theorem Comment.Inside.again (hstart : LeftAt chars start ('/' :: '*' :: behind))
    (h : c.Inside chars start) (hturn : commentTurn d chars c = pure (.again next)) :
    next.Inside chars start := by
  have hdepth := h.depth_le
  have hleft : LeftAt chars c.pos (chars.toList.drop c.pos) := ⟨h.le_size, rfl⟩
  generalize chars.toList.drop c.pos = rest at hleft
  rcases rest with _ | ⟨a, rest⟩
  · rw [commentTurn_nil hleft] at hturn
    cases hturn
  by_cases hopener : ['/', '*'] <+: a :: rest
  · obtain ⟨rest, hcs⟩ := hopener
    rw [← hcs] at hleft
    rw [commentTurn_opener hleft] at hturn
    cases hturn
    have hnext : 1 ≤ (if c.depth = 0 ∨ d.nestedComments then c.depth + 1 else c.depth) ∧
        (if c.depth = 0 ∨ d.nestedComments then c.depth + 1 else c.depth) ≤ c.depth + 1 := by
      split
      · exact ⟨Nat.le_add_left _ _, Nat.le_refl _⟩
      · next hnone => exact ⟨Nat.one_le_iff_ne_zero.2 fun hzero => hnone (.inl hzero), Nat.le_succ _⟩
    have hpos : c.depth + 1 ≤ (c.advance ['/', '*']).pos := Nat.succ_le_succ (Nat.le_succ_of_le hdepth)
    exact ⟨hleft.append.le_size, Nat.le_trans hnext.2 hpos, .inr hnext.1⟩
  by_cases hcloser : ['*', '/'] <+: a :: rest
  · obtain ⟨rest, hcs⟩ := hcloser
    rw [← hcs] at hleft
    have hone := h.one_le_depth hstart hleft
    -- behind the closer of the last comment the loop would not go on
    obtain hlast | ⟨k, hinner⟩ : c.depth = 1 ∨ ∃ k, c.depth = k + 2 := by
      rcases Nat.eq_or_lt_of_le hone with hlast | hlt
      · exact .inl hlast.symm
      · exact .inr ⟨c.depth - 2, by omega⟩
    · rw [commentTurn_last hleft hlast] at hturn
      cases hturn
    · rw [commentTurn_inner hleft hinner] at hturn
      cases hturn
      refine ⟨hleft.append.le_size, ?_, .inr (Nat.le_add_left _ _)⟩
      show k + 1 ≤ c.pos + 2
      omega
  · rw [commentTurn_other hleft hopener hcloser] at hturn
    cases hturn
    refine ⟨hleft.tail.le_size, Nat.le_succ_of_le hdepth, .inr ?_⟩
    -- this is not the position of the opener, as no opener stands here
    refine h.opened.resolve_left fun hpos => hopener ?_
    rw [← hleft.drop_eq, hpos, hstart.drop_eq]
    exact ⟨behind, rfl⟩

/-- From the opener on the loop stays inside. -/
theorem inside_of_comesBy {line : Nat} (hstart : LeftAt chars start ('/' :: '*' :: behind))
    (h : ComesBy (commentTurn d chars) ⟨⟨start, line⟩, 0⟩ c) : c.Inside chars start := by
  induction h with
  | start => exact ⟨hstart.le_size, Nat.zero_le _, .inl rfl⟩
  | again _ hturn ih => exact ih.again hstart hturn

end

/-! ## Literals -/

theorem literalTurn_closing {quote : Char} (hquote : quote ≠ '\n')
    (h : LeftAt chars p.pos (quote :: rest)) (hrest : rest.head? ≠ some quote) :
    literalTurn chars quote p = pure (.done (some (p.advance [quote]))) := by
  have hnext : chars[p.pos + 1]? = rest.head? := h.tail.getElem?_eq
  unfold literalTurn
  rw [if_pos h.lt_size, h.getAt_eq, pure_bind, if_pos rfl, hnext, if_neg hrest, Place.advance_singleton,
    if_neg hquote]

theorem literalTurn_doubled {quote : Char} (hquote : quote ≠ '\n')
    (h : LeftAt chars p.pos (quote :: quote :: rest)) :
    literalTurn chars quote p = pure (.again (p.advance [quote, quote])) := by
  have hnext : chars[p.pos + 1]? = some quote := h.tail.getElem?_eq
  have hadvance : p.advance [quote, quote] = ⟨p.pos + 2, p.line⟩ := by simp [Place.advance, hquote]
  unfold literalTurn
  rw [if_pos h.lt_size, h.getAt_eq, pure_bind, if_pos rfl, if_pos hnext, hadvance]

theorem literalTurn_other {quote a : Char} (ha : a ≠ quote) (h : LeftAt chars p.pos (a :: rest)) :
    literalTurn chars quote p = pure (.again (p.advance [a])) := by
  unfold literalTurn
  rw [if_pos h.lt_size, h.getAt_eq, pure_bind, if_neg ha, Place.advance_singleton]

theorem literalTurn_nil {quote : Char} (h : LeftAt chars p.pos []) :
    literalTurn chars quote p = pure (.done none) := by
  unfold literalTurn
  rw [if_neg (by rw [h.eq_size]; exact Nat.lt_irrefl _)]

/-- Behind its quote a literal is read as `literalBody?` does. -/
theorem loop_literalTurn {quote : Char} (hquote : quote ≠ '\n') (p : Place)
    (h : LeftAt chars p.pos rest) :
    Turn.loop (literalTurn chars quote) p = pure (p.behind (literalBody? quote rest)) := by
  fun_induction literalBody? quote rest generalizing p with
  | case1 => exact loop_of_done (literalTurn_nil h)
  | case2 => exact loop_of_done (literalTurn_closing hquote h (Option.some_ne_none quote).symm)
  | case3 c hc =>
    rw [loop_of_again (literalTurn_other hc h)]
    exact loop_of_done (literalTurn_nil h.tail)
  | case4 cs ih =>
    rw [loop_of_again (literalTurn_doubled hquote h), Place.behind_after,
      ← ih _ h.tail.tail]
  | case5 next cs hnext =>
    exact loop_of_done (literalTurn_closing hquote h (by simpa using hnext))
  | case6 c next cs hc ih =>
    rw [loop_of_again (literalTurn_other hc h), Place.behind_after, ← ih _ h.tail]

end

end Scanner

end SqlFlow
