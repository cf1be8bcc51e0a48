import SqlFlow.Proofs.Lexer.Locality
import SqlFlow.Proofs.Lexer.Quoting

/-!
# What is written in a literal

What stands in a literal is part of one fragment and makes no other difference, as long as the marker of the
dialect does not hold the quote.

* `Cursor.Agrees`: cursors in two sources that have read the same. `Visits.replace`: up to a quote the
  splitter reads the same, whatever is written behind it.
* `Cursor.Alike`: cursors that differ only in what has been read of the pending statement.
  `Cursor.Alike.scan`: they make the same fragments but for that.
* `literal_contents_stay_inside`: two literals with as many newlines may be put in each other's place.
  `literal_contents_mark_directive` is what happens in a dialect with a quote in its marker.
-/

namespace SqlFlow

open Source

/-! ## Up to the quote -/

/-- What has been read of a statement, and the line it began on. -/
def Pending.seen (p : Pending) : List Char × Nat := (p.start.take p.length, p.line)

namespace Cursor

/-- The cursors have read the same, each in its source. -/
structure Agrees (s s' : Cursor) : Prop where
  line : s.line = s'.line
  lineBlank : s.lineBlank = s'.lineBlank
  seen : s.pending.map Pending.seen = s'.pending.map Pending.seen

theorem line_after (s : Cursor) (here : List Char) (l : Lexeme) :
    (s.after here l).line = s.line + l.text.count '\n' := by
  cases hkind : l.kind <;> simp [after, hkind, skip, take, advance, inLine]

theorem lineBlank_after (s : Cursor) (here : List Char) (l : Lexeme) :
    (s.after here l).lineBlank =
      match l.kind with
      | .newline => true
      | .blank => s.lineBlank
      | _ => false := by
  cases hkind : l.kind <;> simp [after, hkind, skip, take, advance, inLine]

theorem atBoundary_congr {s s' : Cursor} (hline : s.line = s'.line)
    (hlineBlank : s.lineBlank = s'.lineBlank) : s.atBoundary = s'.atBoundary := by
  rw [atBoundary, hline, hlineBlank]
  rfl

theorem directive?_eq_some_iff {d : Dialect} {s : Cursor} {here : List Char} {l : DirectiveLine} :
    s.directive? d here = some l ↔
      s.admitsDirective = true ∧ DirectiveLine.read? d here = some l := by
  simp [directive?]

theorem directive?_eq_none_iff {d : Dialect} {s : Cursor} {here : List Char} :
    s.directive? d here = none ↔
      (s.admitsDirective = true → DirectiveLine.read? d here = none) := by
  simp [directive?]

end Cursor

variable {d : Dialect} {source source' here rest rest' text : List Char} {s s' t : Cursor}
  {p p' : Pending} {ended : List Fragment} {c q : Char}

theorem Pending.EndsAt.seen_extend (h : p.EndsAt source (text ++ rest)) :
    (p.extend text.length).seen = (p.seen.1 ++ text, p.line) := by
  show (p.start.take (p.length + text.length), p.line) = (p.start.take p.length ++ text, p.line)
  rw [List.take_add, h.drop_eq, List.take_left]

namespace Cursor.Agrees

/-- The statement is pending in both, or in neither. -/
theorem pending_cases (h : s.Agrees s') : s.pending = none ∧ s'.pending = none ∨
    ∃ p p', s.pending = some p ∧ s'.pending = some p' ∧ p.seen = p'.seen := by
  have hseen := h.seen
  cases hs : s.pending with
  | none =>
    cases hs' : s'.pending with
    | none => exact .inl ⟨rfl, rfl⟩
    | some p' =>
      rw [hs, hs'] at hseen
      cases hseen
  | some p =>
    cases hs' : s'.pending with
    | none =>
      rw [hs, hs'] at hseen
      cases hseen
    | some p' =>
      rw [hs, hs'] at hseen
      exact .inr ⟨p, p', rfl, rfl, Option.some.inj hseen⟩

theorem admitsDirective_eq (h : s.Agrees s') : s.admitsDirective = s'.admitsDirective := by
  unfold Cursor.admitsDirective
  rw [h.lineBlank]
  rcases h.pending_cases with ⟨hs, hs'⟩ | ⟨p, p', hs, hs', -⟩
  · rw [hs, hs']
  · rw [hs, hs']
    rfl

theorem statement_eq (h : s.Agrees s') : s.statement = s'.statement := by
  unfold Cursor.statement
  rcases h.pending_cases with ⟨hs, hs'⟩ | ⟨p, p', hs, hs', hseen⟩
  · rw [hs, hs']
  · obtain ⟨hread, hline⟩ := Prod.mk.inj hseen
    rw [hs, hs']
    simp [Pending.fragment, Pending.text, hread, hline]

theorem atBoundary_eq (h : s.Agrees s') : s.atBoundary = s'.atBoundary :=
  Cursor.atBoundary_congr h.line h.lineBlank

theorem refl (s : Cursor) : s.Agrees s := ⟨rfl, rfl, rfl⟩

/-- Behind the same lexeme they have read the same again. -/
theorem after (h : s.Agrees s') (hends : s.EndsAt source (text ++ rest))
    (hends' : s'.EndsAt source' (text ++ rest')) (k : LexemeKind) :
    (s.after (text ++ rest) ⟨k, text, rest⟩).Agrees (s'.after (text ++ rest') ⟨k, text, rest'⟩) where
  line := by rw [Cursor.line_after, Cursor.line_after, h.line]
  lineBlank := by rw [Cursor.lineBlank_after, Cursor.lineBlank_after, h.lineBlank]
  seen := by
    rcases h.pending_cases with ⟨hs, hs'⟩ | ⟨p, p', hs, hs', hseen⟩
    · -- a statement that begins with the lexeme has the lexeme as what was read of it
      cases k <;> simp [Cursor.after, Cursor.skip, Cursor.take, Cursor.inLine, hs, hs', Pending.extend,
        Pending.seen, h.line]
    · rw [pending_after_of_some hs, pending_after_of_some hs']
      obtain ⟨hread, hline⟩ := Prod.mk.inj hseen
      simp only [Option.map_some, (hends p hs).seen_extend, (hends' p' hs').seen_extend]
      rw [hseen, hline]

/-- So they do behind a lexeme at which both go on. -/
theorem turnAt (h : s.Agrees s') (hends : s.EndsAt source (text ++ rest))
    (hends' : s'.EndsAt source' (text ++ rest')) {k : LexemeKind}
    (hturn : s.turnAt (text ++ rest) ⟨k, text, rest⟩ = .onward ended t rest) :
    ∃ t', s'.turnAt (text ++ rest') ⟨k, text, rest'⟩ = .onward ended t' rest' ∧ t.Agrees t' := by
  cases k with
  | openComment | openLiteral => cases hturn
  | terminator =>
    obtain ⟨rfl, rfl, -⟩ := Turn.onward.inj hturn
    refine ⟨s'.atBoundary.inLine, ?_, ?_⟩
    · rw [h.statement_eq]
      rfl
    · rw [h.atBoundary_eq]
      exact refl _
  | newline | blank | comment | literal | content =>
    obtain ⟨rfl, rfl, -⟩ := Turn.onward.inj hturn
    exact ⟨_, rfl, h.after hends hends' _⟩

/-- One turn before the quote is the same in both sources. -/
theorem turn (hquote : IsQuote d q) (hmarker : q ∉ d.marker.toList) (h : s.Agrees s')
    {cs ws : List Char} (hends : s.EndsAt source (c :: (cs ++ q :: rest)))
    (hends' : s'.EndsAt source' (c :: (cs ++ q :: rest')))
    (hturn : s.turn d c (cs ++ q :: rest) = .onward ended t (ws ++ q :: rest)) :
    ∃ t', s'.turn d c (cs ++ q :: rest') = .onward ended t' (ws ++ q :: rest') ∧ t.Agrees t' := by
  have hlike : BeginsLike (q :: rest) (q :: rest') := .cons q rest rest'
  have hadmits := h.admitsDirective_eq
  cases hdirective : s.directive? d (c :: (cs ++ q :: rest)) with
  | some l =>
    -- the line ends before the quote, since the quote is left behind the turn
    unfold Cursor.turn at hturn
    rw [hdirective] at hturn
    obtain ⟨rfl, rfl, hrest⟩ := Turn.onward.inj hturn
    obtain ⟨hadmitted, hread⟩ := directive?_eq_some_iff.1 hdirective
    rw [← List.cons_append] at hread
    have hread' := read?_replace hread hrest hlike
    have hdirective' := directive?_eq_some_iff.2 ⟨hadmits ▸ hadmitted, hread'⟩
    refine ⟨s'.atBoundary, ?_, h.atBoundary_eq ▸ refl _⟩
    unfold Cursor.turn
    rw [List.cons_append] at hdirective'
    rw [hdirective', h.statement_eq, h.line]
    rfl
  | none =>
    have hdirective' : s'.directive? d (c :: (cs ++ q :: rest')) = none := by
      rw [directive?_eq_none_iff, ← List.cons_append] at hdirective ⊢
      intro hadmitted
      have hends : EndsKeyword d (q :: rest') → EndsKeyword d (q :: rest) := fun h x hx => h x hx
      -- a marker or a keyword that reached the quote would hold it
      refine read?_eq_none_of_stop (fun x hx => ?_) hends (hdirective (hadmits ▸ hadmitted))
      obtain rfl := Option.some.inj hx
      refine ⟨hmarker, ?_⟩
      rcases hquote with rfl | ⟨rfl, -⟩ <;> decide
    rw [turn_of_directive?_eq_none hdirective] at hturn
    have hsource := Lexeme.text_append_rest d c (cs ++ q :: rest)
    generalize hnext : Lexeme.next d c (cs ++ q :: rest) = l at hturn hsource
    obtain ⟨k, text, behind⟩ := l
    obtain rfl : ws ++ q :: rest = behind := rest_of_turnAt hturn
    have hopen : Token.isOpen ⟨.lexeme k, text⟩ = false := by
      cases k with
      | openComment | openLiteral => cases hturn
      | newline | blank | comment | literal | terminator | content => rfl
    have hnext' := next_replace hnext hopen hlike
    have hsource' := Lexeme.text_append_rest d c (cs ++ q :: rest')
    rw [hnext'] at hsource'
    rw [turn_of_directive?_eq_none hdirective', hnext']
    rw [← hsource] at hends hturn
    rw [← hsource'] at hends' ⊢
    exact h.turnAt hends hends' hturn

end Cursor.Agrees

/-- Up to a quote the splitter reads the same in two sources that are the same up to there. -/
theorem Visits.replace (hquote : IsQuote d q) (hmarker : q ∉ d.marker.toList) {front ws : List Char}
    {done : List Fragment} (h : Visits d (front ++ q :: rest) done s here) (hhere : here = ws ++ q :: rest)
    (rest' : List Char) :
    ∃ s', Visits d (front ++ q :: rest') done s' (ws ++ q :: rest') ∧ s.Agrees s' := by
  induction h generalizing ws with
  | start =>
    obtain rfl := List.append_cancel_right hhere
    exact ⟨{}, .start, .refl _⟩
  | @onward done ended s t c cs behind h hturn ih =>
    subst hhere
    -- the quote is still in front of the turn
    obtain ⟨as, has⟩ := suffix_of_turn hturn
    have hlt := Cursor.length_turn_rest_lt hturn
    rw [← has, List.length_append] at hlt
    obtain ⟨a, as, rfl⟩ := List.exists_cons_of_ne_nil (l := as) fun hnil => by simp [hnil] at hlt
    obtain ⟨rfl, hcs⟩ := List.cons.inj has
    have hcs' : cs = (as ++ ws) ++ q :: rest := by
      rw [List.append_assoc]
      exact hcs.symm
    subst hcs'
    obtain ⟨s', hvisits, hagrees⟩ := ih (List.cons_append ..).symm
    obtain ⟨t', hturn', hagrees'⟩ := hagrees.turn hquote hmarker h.endsAt hvisits.endsAt hturn
    exact ⟨t', .onward hvisits hturn', hagrees'⟩

/-! ## Behind the literal -/

/-- A statement, or a fault, from what is written there. -/
def Fragment.ofText (kind : FragmentKind) (line : Nat) (cs : List Char) : Fragment :=
  ⟨kind, String.ofList (Text.trim cs), String.ofList (Text.trim cs), line⟩

/-- Rows of fragments that are the same, but that of the first one the text begins with `read` in one row
and with `read'` in the other. What follows there is a start of `here`. -/
def Fragment.SameBehind (read read' here : List Char) (fs fs' : List Fragment) : Prop :=
  ∃ kind line w more, w <+: here ∧ fs = .ofText kind line (read ++ w) :: more ∧
    fs' = .ofText kind line (read' ++ w) :: more

theorem Fragment.SameBehind.of_append {read read' : List Char} {fs fs' : List Fragment}
    (h : SameBehind (read ++ text) (read' ++ text) rest fs fs') :
    SameBehind read read' (text ++ rest) fs fs' := by
  obtain ⟨kind, line, w, more, hw, hfs, hfs'⟩ := h
  rw [List.append_assoc] at hfs hfs'
  exact ⟨kind, line, text ++ w, more, (List.prefix_append_right_inj text).2 hw, hfs, hfs'⟩

/-- Cursors at the same place of sources that end alike. Of the pending statements they have read different
texts, from the same line on. -/
structure Cursor.Alike (s s' : Cursor) (p p' : Pending) : Prop where
  line : s.line = s'.line
  lineBlank : s.lineBlank = s'.lineBlank
  pending : s.pending = some p
  pending' : s'.pending = some p'
  began : p.line = p'.line

namespace Cursor.Alike

open Fragment (SameBehind)

theorem atBoundary_eq (h : s.Alike s' p p') : s.atBoundary = s'.atBoundary :=
  Cursor.atBoundary_congr h.line h.lineBlank

theorem directive?_eq (h : s.Alike s' p p') (d : Dialect) (here : List Char) :
    s.directive? d here = s'.directive? d here := by
  unfold Cursor.directive? Cursor.admitsDirective
  rw [h.lineBlank, h.pending, h.pending']
  rfl

/-- Where the statements end. -/
theorem statement (h : s.Alike s' p p') (here : List Char) (more : List Fragment) :
    SameBehind p.seen.1 p'.seen.1 here (s.statement ++ more) (s'.statement ++ more) := by
  refine ⟨.sql, p.line, [], more, List.nil_prefix, ?_, ?_⟩
  · simp [Cursor.statement, h.pending, Pending.fragment, Pending.text, Fragment.ofText, Pending.seen]
  · simp [Cursor.statement, h.pending', Pending.fragment, Pending.text, Fragment.ofText, Pending.seen,
      h.began]

/-- Where a construct does not end. -/
theorem fault (h : s.Alike s' p p') (hends : p.EndsAt source here) (hends' : p'.EndsAt source' here)
    (error : SyntaxError) :
    SameBehind p.seen.1 p'.seen.1 here [s.fault error here] [s'.fault error here] := by
  refine ⟨.fault error, error.line, here, [], List.prefix_refl here, ?_, ?_⟩
  · simp [Cursor.fault, Fragment.ofText, h.pending, Pending.seen, hends.take_append]
  · simp [Cursor.fault, Fragment.ofText, h.pending', Pending.seen, hends'.take_append]

/-- Where the statements go on. -/
theorem after (h : s.Alike s' p p') (here : List Char) (l : Lexeme) :
    (s.after here l).Alike (s'.after here l) (p.extend l.text.length) (p'.extend l.text.length) where
  line := by rw [Cursor.line_after, Cursor.line_after, h.line]
  lineBlank := by rw [Cursor.lineBlank_after, Cursor.lineBlank_after, h.lineBlank]
  pending := pending_after_of_some h.pending here l
  pending' := pending_after_of_some h.pending' here l
  began := h.began

/-- The fragments from such cursors on are the same, but for what has been read. The recursion is on what is
left of the sources, which is the same in both. -/
theorem scan (d : Dialect) {s s' : Cursor} {p p' : Pending} {here : List Char} (h : s.Alike s' p p')
    (hends : p.EndsAt source here) (hends' : p'.EndsAt source' here) :
    SameBehind p.seen.1 p'.seen.1 here (Fragment.scan d s here) (Fragment.scan d s' here) := by
  match here with
  | [] =>
    rw [Fragment.scan, Fragment.scan, ← List.append_nil s.statement, ← List.append_nil s'.statement]
    exact h.statement [] []
  | c :: cs =>
    have hdirectives := h.directive?_eq d (c :: cs)
    cases hdirective : s.directive? d (c :: cs) with
    | some l =>
      rw [hdirective] at hdirectives
      have hturn : s.turn d c cs = .onward (s.statement ++ [l.fragment s.line]) s.atBoundary l.rest := by
        unfold Cursor.turn
        rw [hdirective]
      have hturn' : s'.turn d c cs =
          .onward (s'.statement ++ [l.fragment s.line]) s.atBoundary l.rest := by
        unfold Cursor.turn
        rw [← hdirectives, h.line, h.atBoundary_eq]
      rw [scan_of_onward hturn, scan_of_onward hturn', List.append_assoc, List.append_assoc]
      exact h.statement _ _
    | none =>
      rw [hdirective] at hdirectives
      have hturn := turn_of_directive?_eq_none hdirective
      have hturn' := turn_of_directive?_eq_none hdirectives.symm
      have hsource := Lexeme.text_append_rest d c cs
      have hlt := Lexeme.length_rest_lt d c cs
      generalize Lexeme.next d c cs = l at hturn hturn' hsource hlt
      rcases turnAt_cases l with hcase | hcase | ⟨error, hcase⟩
      · rw [hcase] at hturn hturn'
        rw [scan_of_onward hturn, scan_of_onward hturn', h.atBoundary_eq]
        exact h.statement _ _
      · -- the lexeme goes to what has been read in both
        rw [hcase] at hturn hturn'
        rw [← hsource] at hends hends'
        have hrest := scan d (h.after (c :: cs) l) hends.extend hends'.extend
        rw [hends.seen_extend, hends'.seen_extend] at hrest
        rw [scan_of_onward hturn, scan_of_onward hturn']
        exact hsource ▸ hrest.of_append
      · rw [hcase] at hturn hturn'
        rw [scan_of_broken hturn, scan_of_broken hturn', ← h.line]
        exact h.fault hends hends' _
termination_by here.length
decreasing_by exact hlt

end Cursor.Alike

/-! ## The literal -/

/-- A literal with its quotes. -/
def literal (q : Char) (body : List Char) : List Char := q :: (body ++ [q])

theorem literal_append (q : Char) (body rest : List Char) :
    literal q body ++ rest = q :: (body ++ q :: rest) := by
  simp [literal]

theorem quoted_of_not_mem {body : List Char} (h : q ∉ body) : Quoted q body := by
  induction body with
  | nil => exact .nil
  | cons c body ih =>
    rw [List.mem_cons, not_or] at h
    exact .char (Ne.symm h.1) (ih h.2)

/-- At a literal the splitter reads it, if it reads no directive line. -/
theorem turn_of_literal (hquote : IsQuote d q) (hmarker : q ∉ d.marker.toList) {body : List Char}
    (hbody : Quoted q body) (hrest : rest.head? ≠ some q) (s : Cursor) :
    s.turn d q (body ++ q :: rest) = .onward []
      (s.after (literal q body ++ rest) ⟨.literal, literal q body, rest⟩) rest := by
  have hhead : d.marker.toList.head? ≠ some q := fun hhead => hmarker (List.mem_of_head? hhead)
  have hnext := next_of_isQuote hquote (body ++ q :: rest)
  rw [literalBody?_of_quoted hbody hrest] at hnext
  rw [turn_of_directive?_eq_none (directive?_eq_none_of_head s hhead _), hnext, literal_append]
  rfl

/-- Behind literals with as many newlines, cursors that agreed are alike. -/
theorem Cursor.Agrees.exists_alike (h : s.Agrees s') (hends : s.EndsAt source (text ++ rest))
    {text' : List Char} (hends' : s'.EndsAt source' (text' ++ rest))
    (hsuffix : text ++ rest <:+ source) (hlines : text.count '\n' = text'.count '\n') :
    ∃ lead p p', lead ++ (text ++ rest) <:+ source ∧
      (s.after (text ++ rest) ⟨.literal, text, rest⟩).Alike
        (s'.after (text' ++ rest) ⟨.literal, text', rest⟩) p p' ∧
      p.seen.1 = lead ++ text ∧ p'.seen.1 = lead ++ text' := by
  have hline : s.line + text.count '\n' = s'.line + text'.count '\n' := by rw [h.line, hlines]
  rcases h.pending_cases with ⟨hs, hs'⟩ | ⟨p, p', hs, hs', hseen⟩
  · -- the literal begins the statement
    refine ⟨[], ⟨text ++ rest, 0 + text.length, s.line⟩, ⟨text' ++ rest, 0 + text'.length, s'.line⟩,
      hsuffix, ⟨hline, rfl, ?_, ?_, h.line⟩, by simp [Pending.seen], by simp [Pending.seen]⟩
    · simp [Cursor.after, Cursor.take, Cursor.inLine, hs, Pending.extend]
    · simp [Cursor.after, Cursor.take, Cursor.inLine, hs', Pending.extend]
  · obtain ⟨hread, hbegan⟩ := Prod.mk.inj hseen
    refine ⟨p.seen.1, p.extend text.length, p'.extend text'.length,
      (hends p hs).take_append ▸ (hends p hs).suffix,
      ⟨hline, rfl, pending_after_of_some hs _ _, pending_after_of_some hs' _ _, hbegan⟩, ?_, ?_⟩
    · rw [(hends p hs).seen_extend]
    · rw [(hends' p' hs').seen_extend]
      exact congrArg (· ++ text') hread.symm

/-- What is left by trimming of a statement that has been read up to a literal. -/
theorem Pending.EndsAt.trim_seen (h : p.EndsAt source here) (hquote : IsQuote d q) {lead body : List Char}
    (hseen : p.seen.1 = lead ++ literal q body) (w : List Char) :
    Text.trim (p.seen.1 ++ w) = lead ++ literal q body ++ Text.trimRight w := by
  have hne : p.seen.1 ≠ [] := by simp [hseen, literal]
  have htrimmed : Text.Trimmed p.seen.1 := by
    refine ⟨fun c hc => h.head c ?_, fun c hc => ?_⟩
    · rw [← h.take_append]
      exact (List.head?_append_of_ne_nil _ hne).trans hc
    · rw [hseen, literal, ← List.cons_append, ← List.append_assoc, List.getLast?_concat] at hc
      rw [← Option.some.inj hc]
      exact isBlank_eq_false_of_isQuote hquote
  rw [htrimmed.trim_append hne, hseen]

/-- Two literals of one quote and with as many newlines may be put in each other's place where the splitter
comes by the quote, if the marker does not hold it: the fragments are the same, in number, kind, line and
text, but for the literal itself in the one fragment that it is in, with what stands before and behind it
there. -/
theorem literal_contents_stay_inside {d : Dialect} {q : Char} {front u v rest : List Char}
    {done : List Fragment} {s : Cursor} (hquote : IsQuote d q) (hmarker : q ∉ d.marker.toList)
    (hu : Quoted q u) (hv : Quoted q v) (hlines : u.count '\n' = v.count '\n')
    (hrest : rest.head? ≠ some q)
    (hvisits : Visits d (front ++ (literal q u ++ rest)) done s (literal q u ++ rest)) :
    ∃ f f' more lead tail, lead <:+ front ∧ tail <+: rest ∧
      Fragment.split d (String.ofList (front ++ (literal q u ++ rest))) = done ++ f :: more ∧
      Fragment.split d (String.ofList (front ++ (literal q v ++ rest))) = done ++ f' :: more ∧
      f.kind = f'.kind ∧ f.line = f'.line ∧
      f.text = String.ofList (lead ++ literal q u ++ tail) ∧
      f'.text = String.ofList (lead ++ literal q v ++ tail) ∧
      f.raw = f.text ∧ f'.raw = f'.text := by
  have hcount : (literal q u).count '\n' = (literal q v).count '\n' := by
    simp [literal, List.count_cons, hlines]
  -- the same has been read before the other literal
  have hvisited := hvisits
  rw [literal_append] at hvisited
  obtain ⟨s', hvisits', hagrees⟩ := hvisited.replace hquote hmarker (List.nil_append _).symm (v ++ q :: rest)
  rw [List.nil_append] at hvisits'
  have hturn := turn_of_literal hquote hmarker hu hrest s
  have hturn' := turn_of_literal hquote hmarker hv hrest s'
  have hbehind := hvisited.onward hturn
  have hbehind' := hvisits'.onward hturn'
  rw [List.append_nil] at hbehind hbehind'
  rw [← literal_append] at hvisits' hbehind hbehind'
  obtain ⟨lead, p, p', hlead, halike, hseen, hseen'⟩ :=
    hagrees.exists_alike hvisits.endsAt hvisits'.endsAt hvisits.suffix hcount
  have hfront : lead <:+ front := by
    obtain ⟨before, hbefore⟩ := hlead
    rw [← List.append_assoc] at hbefore
    exact ⟨before, List.append_cancel_right hbefore⟩
  -- from behind the literals on the cursors are alike
  have hends := hbehind.endsAt p halike.pending
  have hends' := hbehind'.endsAt p' halike.pending'
  obtain ⟨kind, line, w, more, hw, hscan, hscan'⟩ := halike.scan d hends hends'
  have htail : Text.trimRight w <+: rest := by
    obtain ⟨bs, -, hbs⟩ := Text.exists_trimRight_append w
    exact List.IsPrefix.trans ⟨bs, hbs⟩ hw
  rw [← String.toList_ofList (l := front ++ (literal q u ++ rest))] at hbehind
  rw [← String.toList_ofList (l := front ++ (literal q v ++ rest))] at hbehind'
  refine ⟨.ofText kind line (p.seen.1 ++ w), .ofText kind line (p'.seen.1 ++ w), more, lead,
    Text.trimRight w, hfront, htail, by rw [hbehind.split_eq, hscan], by rw [hbehind'.split_eq, hscan'],
    rfl, rfl, ?_, ?_, rfl, rfl⟩
  · exact congrArg String.ofList (hends.trim_seen hquote hseen w)
  · exact congrArg String.ofList (hends'.trim_seen hquote hseen' w)

/-- A literal at the start of a line, and in its place one with a directive line, a terminator and a comment
that does not end in it. -/
theorem literal_contents_with_directive_line :
    IsQuote {} '\'' ∧ '\'' ∉ "--".toList ∧ Quoted '\'' "a\nb".toList ∧ Quoted '\'' ";\n--if /*".toList ∧
    "a\nb".toList.count '\n' = ";\n--if /*".toList.count '\n' ∧ " X;".toList.head? ≠ some '\'' ∧
    Visits {} ([] ++ (literal '\'' "a\nb".toList ++ " X;".toList)) [] {}
      (literal '\'' "a\nb".toList ++ " X;".toList) ∧
    ∃ f f' more lead tail, lead <:+ [] ∧ tail <+: " X;".toList ∧
      Fragment.split {} (String.ofList ([] ++ (literal '\'' "a\nb".toList ++ " X;".toList))) =
        [] ++ f :: more ∧
      Fragment.split {} (String.ofList ([] ++ (literal '\'' ";\n--if /*".toList ++ " X;".toList))) =
        [] ++ f' :: more ∧
      f.kind = f'.kind ∧ f.line = f'.line ∧
      f.text = String.ofList (lead ++ literal '\'' "a\nb".toList ++ tail) ∧
      f'.text = String.ofList (lead ++ literal '\'' ";\n--if /*".toList ++ tail) ∧
      f.raw = f.text ∧ f'.raw = f'.text := by
  have hquote : IsQuote {} '\'' := .inl rfl
  have hmarker : '\'' ∉ "--".toList := by decide
  have hu : Quoted '\'' "a\nb".toList := quoted_of_not_mem (by decide)
  have hv : Quoted '\'' ";\n--if /*".toList := quoted_of_not_mem (by decide)
  have hlines : "a\nb".toList.count '\n' = ";\n--if /*".toList.count '\n' := by decide
  have hrest : " X;".toList.head? ≠ some '\'' := by decide
  have hvisits : Visits {} ([] ++ (literal '\'' "a\nb".toList ++ " X;".toList)) [] {}
      (literal '\'' "a\nb".toList ++ " X;".toList) := .start
  exact ⟨hquote, hmarker, hu, hv, hlines, hrest, hvisits,
    literal_contents_stay_inside hquote hmarker hu hv hlines hrest hvisits⟩

/-- A valid dialect may have a quote in its marker. Then of two literals without quotes and newlines in them
one may be a statement, and the other in its place a directive line. -/
theorem literal_contents_mark_directive :
    let d : Dialect := { marker := "#'" }
    let s : Cursor := { lineBlank := false, pending := some ⟨"#'zz'".toList, 1, 1⟩ }
    d.validate = .ok d ∧ IsQuote d '\'' ∧ Quoted '\'' "zz".toList ∧ Quoted '\'' "if ".toList ∧
      "zz".toList.count '\n' = "if ".toList.count '\n' ∧
      Visits d ("#".toList ++ literal '\'' "zz".toList) [] s (literal '\'' "zz".toList) ∧
      s.directive? d (literal '\'' "zz".toList) = none ∧
      Fragment.split d (String.ofList ("#".toList ++ literal '\'' "zz".toList)) =
        [⟨.sql, "#'zz'", "#'zz'", 1⟩] ∧
      Fragment.split d (String.ofList ("#".toList ++ literal '\'' "if ".toList)) =
        [⟨.directive .ifThen, "'", "#'if '", 1⟩] := by
  have hmark : Cursor.turn { marker := "#'" } {} '#' (literal '\'' "zz".toList) =
      .onward [] { lineBlank := false, pending := some ⟨"#'zz'".toList, 1, 1⟩ }
        (literal '\'' "zz".toList) := rfl
  have hliteral : Cursor.turn { marker := "#'" }
      { lineBlank := false, pending := some ⟨"#'zz'".toList, 1, 1⟩ } '\'' "zz'".toList =
      .onward [] { lineBlank := false, pending := some ⟨"#'zz'".toList, 5, 1⟩ } [] := rfl
  have hdirective : Cursor.turn { marker := "#'" } {} '#' (literal '\'' "if ".toList) =
      .onward [⟨.directive .ifThen, "'", "#'if '", 1⟩] {} [] := rfl
  intro d s
  refine ⟨by decide, .inl rfl, quoted_of_not_mem (by decide), quoted_of_not_mem (by decide), by decide,
    .onward .start hmark, by decide, ?_, ?_⟩
  · exact (scan_of_onward hmark).trans ((scan_of_onward hliteral).trans (by rw [Fragment.scan]; rfl))
  · exact (scan_of_onward hdirective).trans (by rw [Fragment.scan]; rfl)

end SqlFlow
