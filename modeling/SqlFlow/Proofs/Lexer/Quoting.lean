import SqlFlow.Proofs.Lexer.Visiting

/-!
# Quotes open literals

Where the splitter comes by a quote it reads a literal, unless the marker of the dialect begins with that
quote: a valid dialect may be marked so, and then the quote may begin a directive line.

* `directive?_eq_none_of_head`: a directive line begins as its marker does.
* `Pending.EndsAt.prefix_raw`: what is written in a fragment that holds a statement.
* `quote_opens_literal`: the literal, or the rest of the source if it does not end, is in one fragment, as
  `HoldsLiteral` tells it. `quote_marks_directive` is what happens in a dialect marked by a quote.
-/

namespace SqlFlow

open Source

theorem read?_eq_none_of_head {d : Dialect} {c : Char} (hmarker : d.marker.toList.head? ≠ some c)
    (cs : List Char) : DirectiveLine.read? d (c :: cs) = none := by
  cases hread : DirectiveLine.read? d (c :: cs) with
  | none => rfl
  | some l =>
    obtain ⟨x, argument, text, htext, hform⟩ := exists_form_of_read? hread
    cases hform with
    | directive hne =>
      obtain ⟨m, ms, hm⟩ := List.exists_cons_of_ne_nil hne
      rw [hm] at htext hmarker
      obtain ⟨rfl, -⟩ := List.cons.inj htext
      exact absurd rfl hmarker

/-- A directive line begins as the marker does. -/
theorem directive?_eq_none_of_head {d : Dialect} {c : Char} (s : Cursor)
    (hmarker : d.marker.toList.head? ≠ some c) (cs : List Char) :
    s.directive? d (c :: cs) = none := by
  unfold Cursor.directive?
  split
  · exact read?_eq_none_of_head hmarker cs
  · rfl

theorem isBlank_eq_false_of_isQuote {d : Dialect} {c : Char} (h : IsQuote d c) :
    Text.isBlank c = false := by
  rcases h with rfl | ⟨rfl, -⟩ <;> decide

/-- At a quote with no directive line the splitter finds the literal. -/
theorem next_of_isQuote {d : Dialect} {c : Char} (h : IsQuote d c) (cs : List Char) :
    Lexeme.next d c cs = Lexeme.delimited .literal (.openLiteral c) [c] cs (literalBody? c cs) := by
  have hblank := isBlank_eq_false_of_isQuote h
  refine next_literal d cs ?_ hblank ?_ ?_ h
  · rintro rfl
    exact absurd hblank (by decide)
  · rintro ⟨rfl, -⟩
    rcases h with h | ⟨h, -⟩ <;> exact absurd h (by decide)
  · rintro ⟨rfl, -⟩
    rcases h with h | ⟨h, -⟩ <;> exact absurd h (by decide)

/-- A fragment that holds a statement up to a text which ends visibly is written from the beginning of the
statement to behind that text, or further. -/
theorem Pending.EndsAt.prefix_raw {p : Pending} {source text rest : List Char} {f : Fragment}
    (h : p.EndsAt source (text ++ rest)) (hheld : (p.extend text.length).HeldBy f) (hne : text ≠ [])
    (hlast : ∀ c, text.getLast? = some c → Text.isBlank c = false) :
    p.start.take p.length ++ text <+: f.raw.toList ∧ f.raw.toList <+: p.start := by
  obtain ⟨-, n, hn, hraw⟩ := hheld
  have hread : p.start.take (p.length + text.length) = p.start.take p.length ++ text := by
    rw [List.take_add, h.drop_eq, List.take_left]
  have hstart : p.start.take p.length ++ text <+: p.start.take n := by
    rw [← hread]
    exact List.take_prefix_take_left hn
  have htext : p.start.take n ≠ [] := fun hnil => hne <| by
    rw [hnil] at hstart
    exact (List.append_eq_nil_iff.1 (List.prefix_nil.1 hstart)).2
  have hhead : ∀ c, (p.start.take n).head? = some c → Text.isBlank c = false := fun c hc =>
    h.head c <| by
      rw [← List.take_append_drop n p.start, List.head?_append, hc]
      rfl
  have hvisible : ∀ c, (p.start.take p.length ++ text).getLast? = some c → Text.isBlank c = false :=
    fun c hc => hlast c (by rwa [List.getLast?_append_of_ne_nil _ hne] at hc)
  rw [hraw, String.toList_ofList]
  exact ⟨Text.prefix_trim hstart (by simp [hne]) hhead hvisible,
    (Text.trim_prefix_self htext hhead).trans (List.take_prefix n p.start)⟩

/-- The literal that the quote `c` opens is in a fragment, behind the start `lead` of the statement. If it
does not end, the fragment is the last one, and the rest of the source is in it, blanks at the end aside. -/
inductive HoldsLiteral (d : Dialect) (line : Nat) (lead : List Char) (c : Char) (cs : List Char)
    (f : Fragment) (more : List Fragment) : Prop where
  | closed {body rest : List Char} (hcs : cs = body ++ c :: rest) (hbody : Quoted c body)
      (hrest : rest.head? ≠ some c) (hnext : Lexeme.next d c cs = ⟨.literal, c :: (body ++ [c]), rest⟩)
      (hkind : f.kind = .sql ∨ ∃ error, f.kind = .fault error)
      (hraw : lead ++ c :: (body ++ [c]) <+: f.raw.toList)
  | unclosed {blanks : List Char} (hcs : Quoted c cs)
      (hnext : Lexeme.next d c cs = ⟨.openLiteral c, c :: cs, []⟩)
      (hkind : f.kind = .fault (.unterminatedLiteral line c)) (hmore : more = [])
      (hblanks : Text.Blanks blanks) (hraw : f.raw.toList ++ blanks = lead ++ c :: cs)

section

variable {d : Dialect} {source : String} {done : List Fragment} {s : Cursor} {c : Char} {cs : List Char}
  {p : Pending} (h : Visits d source.toList done s (c :: cs)) (hquote : IsQuote d c)
  (hdirective : s.directive? d (c :: cs) = none) (hp : s.pending.getD ⟨c :: cs, 0, s.line⟩ = p)
  (hends : p.EndsAt source.toList (c :: cs))

include h hquote hdirective hp hends

/-- A literal that ends goes to the statement that is pending, or begins one. -/
theorem exists_fragment_of_closed {text rest : List Char} (htaken : literalBody? c cs = some (text, rest)) :
    ∃ f more, Fragment.split d source = done ++ f :: more ∧ f.raw.toList <+: p.start ∧
      HoldsLiteral d s.line (p.start.take p.length) c cs f more := by
  have hturn := turn_of_directive?_eq_none hdirective
  have hnext := next_of_isQuote hquote cs
  have htakes := takesLiteral_literalBody? c cs
  have happend := literalBody?_append htaken
  rw [htaken] at hnext htakes
  obtain ⟨body, rfl, hbody, hrest⟩ := htakes
  have hlexeme : Lexeme.next d c cs = ⟨.literal, c :: (body ++ [c]), rest⟩ := hnext
  rw [hlexeme] at hturn
  have hpending : (s.after (c :: cs) ⟨.literal, c :: (body ++ [c]), rest⟩).pending =
      some (p.extend (c :: (body ++ [c])).length) := by
    rw [← hp]
    rfl
  have hcs : c :: (body ++ [c]) ++ rest = c :: cs := congrArg (c :: ·) happend
  rw [← hcs] at hends
  obtain ⟨f, more, hscan, hheld⟩ := exists_heldBy_scan d hpending hends.extend
  have hlast : ∀ c', (c :: (body ++ [c])).getLast? = some c' → Text.isBlank c' = false := by
    intro c' hc'
    rw [← List.cons_append, List.getLast?_concat] at hc'
    rw [← Option.some.inj hc']
    exact isBlank_eq_false_of_isQuote hquote
  obtain ⟨hliteral, hraw⟩ := hends.prefix_raw hheld (List.cons_ne_nil _ _) hlast
  refine ⟨f, more, ?_, hraw, .closed (by simp [← happend]) hbody hrest hlexeme hheld.1 hliteral⟩
  rw [h.split_eq, scan_of_onward hturn, ← hscan]
  rfl

/-- A literal that does not end is a fault, which takes in what is pending. -/
theorem exists_fragment_of_unclosed (htaken : literalBody? c cs = none) :
    ∃ f more, Fragment.split d source = done ++ f :: more ∧ f.raw.toList <+: p.start ∧
      HoldsLiteral d s.line (p.start.take p.length) c cs f more := by
  have hturn := turn_of_directive?_eq_none hdirective
  have hnext := next_of_isQuote hquote cs
  have htakes := takesLiteral_literalBody? c cs
  rw [htaken] at hnext htakes
  have hlexeme : Lexeme.next d c cs = ⟨.openLiteral c, c :: cs, []⟩ := hnext
  rw [hlexeme] at hturn
  have hstart := hends.take_append
  have hstart_ne : p.start ≠ [] := by
    rw [← hstart]
    simp
  obtain ⟨bs, hbs, htrim, -, -⟩ := Text.exists_trim_append hstart_ne hends.head
  have hraw : (s.fault (.unterminatedLiteral s.line c) (c :: cs)).raw.toList = Text.trim p.start := by
    rw [← hp]
    cases hs : s.pending <;> simp [Cursor.fault, hs]
  refine ⟨s.fault (.unterminatedLiteral s.line c) (c :: cs), [],
    by rw [h.split_eq, scan_of_broken hturn], ?_,
    .unclosed htakes hlexeme rfl rfl hbs (by rw [hraw, hstart, htrim])⟩
  rw [hraw]
  exact ⟨bs, htrim⟩

end

/-- Where the splitter comes by a quote, with which the marker does not begin, it reads a literal and no
directive line, and the literal is in one fragment: in a statement, or in a fault. -/
theorem quote_opens_literal {d : Dialect} {source : String} {done : List Fragment} {s : Cursor}
    {c : Char} {cs : List Char} (h : Visits d source.toList done s (c :: cs)) (hquote : IsQuote d c)
    (hmarker : d.marker.toList.head? ≠ some c) :
    s.directive? d (c :: cs) = none ∧
    ∃ front lead f more, source.toList = front ++ (lead ++ c :: cs) ∧
      Fragment.split d source = done ++ f :: more ∧ f.raw.toList <+: lead ++ c :: cs ∧
      HoldsLiteral d s.line lead c cs f more := by
  have hdirective := directive?_eq_none_of_head s hmarker cs
  refine ⟨hdirective, ?_⟩
  -- the statement that is pending, or the one that the literal begins
  generalize hp : s.pending.getD ⟨c :: cs, 0, s.line⟩ = p
  have hends : p.EndsAt source.toList (c :: cs) := by
    cases hs : s.pending with
    | none =>
      rw [hs, Option.getD_none] at hp
      exact hp ▸ .fresh s.line h.suffix (isBlank_eq_false_of_isQuote hquote)
    | some p₀ =>
      rw [hs, Option.getD_some] at hp
      exact hp ▸ h.endsAt p₀ hs
  have hfragment : ∃ f more, Fragment.split d source = done ++ f :: more ∧ f.raw.toList <+: p.start ∧
      HoldsLiteral d s.line (p.start.take p.length) c cs f more := by
    cases htaken : literalBody? c cs with
    | some taken => exact exists_fragment_of_closed h hquote hdirective hp hends htaken
    | none => exact exists_fragment_of_unclosed h hquote hdirective hp hends htaken
  obtain ⟨f, more, hsplit, hraw, hholds⟩ := hfragment
  obtain ⟨front, hfront⟩ := hends.suffix
  have hstart := hends.take_append
  exact ⟨front, p.start.take p.length, f, more, by rw [hstart, hfront], hsplit, by rwa [hstart], hholds⟩

/-- A terminator in a literal. -/
theorem quote_opens_literal_with_terminator :
    Visits {} "'a;b' X".toList [] {} ('\'' :: "a;b' X".toList) ∧ IsQuote {} '\'' ∧
    "--".toList.head? ≠ some '\'' ∧ Cursor.directive? {} {} ('\'' :: "a;b' X".toList) = none ∧
    ∃ front lead f more, "'a;b' X".toList = front ++ (lead ++ '\'' :: "a;b' X".toList) ∧
      Fragment.split {} "'a;b' X" = [] ++ f :: more ∧
      f.raw.toList <+: lead ++ '\'' :: "a;b' X".toList ∧
      HoldsLiteral {} 1 lead '\'' "a;b' X".toList f more := by
  have hvisits : Visits {} "'a;b' X".toList [] {} ('\'' :: "a;b' X".toList) := .start
  have hquote : IsQuote {} '\'' := .inl rfl
  have hmarker : "--".toList.head? ≠ some '\'' := by decide
  exact ⟨hvisits, hquote, hmarker, quote_opens_literal hvisits hquote hmarker⟩

/-- A valid dialect may be marked by a quote, and then a quote that opens a literal anywhere else begins a
directive line. -/
theorem quote_marks_directive :
    Dialect.validate { marker := "'" } = .ok { marker := "'" } ∧
      Visits { marker := "'" } "'if x';".toList [] {} ('\'' :: "if x';".toList) ∧
      IsQuote { marker := "'" } '\'' ∧
      (Cursor.directive? { marker := "'" } {} ('\'' :: "if x';".toList)).isSome = true ∧
      Fragment.split { marker := "'" } "'if x';" = [⟨.directive .ifThen, "x'", "'if x';", 1⟩] := by
  refine ⟨by decide, .start, .inl rfl, by decide, ?_⟩
  have hturn : Cursor.turn { marker := "'" } {} '\'' "if x';".toList =
      .onward [⟨.directive .ifThen, "x'", "'if x';", 1⟩] {} [] := rfl
  exact (scan_of_onward hturn).trans (by rw [Fragment.scan]; rfl)

end SqlFlow
