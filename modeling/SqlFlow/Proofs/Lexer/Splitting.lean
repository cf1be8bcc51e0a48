import Mathlib.Data.List.TakeWhile
import SqlFlow.Proofs.Lexer.Readers

/-!
# Splitting is segmenting and grouping

* `exists_tokenAt`, `TokenAt.unique`: at the head of a source there is one token that belongs there.
* `Segmented`: a row of tokens is what is left of a source, read from the left.
  `isSegmentation_iff_segmented` says that this is what segmentations are, `exists_segmented` and
  `Segmented.unique` that there is exactly one.
* `Reads`: what the cursor of the splitter knows of the tokens it has read.
  `Reads.of_boundary` and `Reads.of_token` carry this over one token, `scan_eq` over the rest of them.
-/

namespace SqlFlow

open Source

/-! ## Tokens at the head of a source -/

theorem exists_tokenAt_of_candidate {d : Dialect} {before : List Token} {source : List Char} (n : Nat) :
    ∀ {t : Token} {rest : List Char}, t.kind.rank ≤ n → t.text ++ rest = source →
      Candidate d before t rest → ∃ t rest, t.text ++ rest = source ∧ TokenAt d before t rest := by
  -- going on to candidates of a lower rank comes to one of the lowest
  induction n with
  | zero =>
    intro t rest hrank hsource h
    exact ⟨t, rest, hsource, h, fun _ _ => by omega⟩
  | succ n ih =>
    intro t rest hrank hsource h
    by_cases hless : ∃ t' rest', t'.text ++ rest' = source ∧ Candidate d before t' rest' ∧
        t'.kind.rank < t.kind.rank
    · obtain ⟨t', rest', hsource', h', hlt⟩ := hless
      exact ih (by omega) hsource' h'
    · refine ⟨t, rest, hsource, h, fun {t' rest'} hsource' h' => ?_⟩
      exact Nat.le_of_not_lt fun hlt => hless ⟨t', rest', hsource'.trans hsource, h', hlt⟩

/-- Some token belongs at the head of a source: any character could be content. -/
theorem exists_tokenAt (d : Dialect) (before : List Token) (c : Char) (cs : List Char) :
    ∃ t rest, t.text ++ rest = c :: cs ∧ TokenAt d before t rest := by
  have hcontent : Candidate d before ⟨.lexeme .content, [c]⟩ cs := ⟨.content, nofun⟩
  have hrank : (TokenKind.lexeme .content).rank ≤ 6 := Nat.le_refl 6
  exact exists_tokenAt_of_candidate 6 hrank rfl hcontent

theorem Token.Form.argument_eq {d : Dialect} {x : Directive} {argument text rest : List Char}
    (h : Token.Form d ⟨.directive x argument, text⟩ rest) :
    argument = line (((text ++ rest).drop d.marker.toList.length).dropWhile Char.isAlpha) := by
  cases h with
  | directive hmarker hword hkeyword hends hline hrest =>
    rw [List.append_assoc, List.append_assoc, List.drop_left,
      dropWhile_append_stop hword fun c hc => (hends c hc).1, line_append_of_stop hline hrest]

/-- Only one token belongs there. -/
theorem TokenAt.unique {d : Dialect} {before : List Token} {t t' : Token} {rest rest' : List Char}
    (h : TokenAt d before t rest) (h' : TokenAt d before t' rest')
    (hsource : t.text ++ rest = t'.text ++ rest') : t = t' ∧ rest = rest' := by
  have hle := h.least hsource.symm h'.candidate
  have hge := h'.least hsource h.candidate
  -- both are what the readers find there, which is one thing; only a directive line has rank 0
  obtain ⟨⟨x, argument⟩ | k, text⟩ := t <;> obtain ⟨⟨x', argument'⟩ | k', text'⟩ := t'
  · have hread := h.read?_eq.2
    rw [show text ++ rest = text' ++ rest' from hsource, h'.read?_eq.2] at hread
    obtain ⟨rfl, -, -, rfl⟩ := DirectiveLine.mk.inj (Option.some.inj hread)
    obtain rfl : text = text' := List.append_cancel_right hsource
    rw [h.candidate.form.argument_eq, h'.candidate.form.argument_eq]
    exact ⟨rfl, rfl⟩
  · cases k' <;> simp [TokenKind.rank] at hge
  · cases k <;> simp [TokenKind.rank] at hle
  · obtain ⟨c, cs, hcs⟩ := List.exists_cons_of_ne_nil (l := text ++ rest)
      (by simpa using fun hnil => absurd hnil h.candidate.form.text_ne_nil)
    have hnext := h.next_eq hcs
    rw [h'.next_eq (hsource.symm.trans hcs)] at hnext
    obtain ⟨rfl, rfl, rfl⟩ := Lexeme.mk.inj hnext
    exact ⟨rfl, rfl⟩

/-! ## Segmentations -/

/-- The tokens are the source behind the tokens `before`, each where it belongs. -/
inductive Segmented (d : Dialect) : (before : List Token) → (source : List Char) →
    (tokens : List Token) → Prop where
  | nil (before : List Token) : Segmented d before [] []
  | cons {before : List Token} {t : Token} {rest : List Char} {tokens : List Token}
      (h : TokenAt d before t rest) (hrest : Segmented d (before ++ [t]) rest tokens) :
      Segmented d before (t.text ++ rest) (t :: tokens)

theorem segmented_iff {d : Dialect} {before : List Token} {source : List Char} {tokens : List Token} :
    Segmented d before source tokens ↔ textOf tokens = source ∧
      ∀ us t behind, tokens = us ++ t :: behind → TokenAt d (before ++ us) t (textOf behind) := by
  constructor
  · intro h
    induction h with
    | nil => exact ⟨rfl, by simp⟩
    | @cons before t rest tokens h _ ih =>
      obtain ⟨rfl, htokens⟩ := ih
      refine ⟨rfl, fun us u behind hsplit => ?_⟩
      rcases List.cons_eq_append_iff.1 hsplit with ⟨rfl, heq⟩ | ⟨us', rfl, heq⟩
      · obtain ⟨rfl, rfl⟩ := List.cons.inj heq
        rwa [List.append_nil]
      · have hu := htokens us' u behind heq
        rwa [List.append_assoc] at hu
  · rintro ⟨rfl, htokens⟩
    induction tokens generalizing before with
    | nil => exact .nil before
    | cons t tokens ih =>
      have ht := htokens [] t tokens rfl
      rw [List.append_nil] at ht
      refine .cons ht (ih fun us u behind hsplit => ?_)
      have hu := htokens (t :: us) u behind (by rw [hsplit]; rfl)
      rwa [List.append_cons] at hu

theorem isSegmentation_iff_segmented {d : Dialect} {source : List Char} {tokens : List Token} :
    IsSegmentation d source tokens ↔ Segmented d [] source tokens := by
  rw [segmented_iff]
  rfl

theorem exists_segmented (d : Dialect) (before : List Token) (source : List Char) :
    ∃ tokens, Segmented d before source tokens := by
  cases source with
  | nil => exact ⟨[], .nil before⟩
  | cons c cs =>
    obtain ⟨t, rest, hsource, ht⟩ := exists_tokenAt d before c cs
    have hlength : rest.length < (c :: cs).length := by
      rw [← hsource, List.length_append]
      have := List.length_pos_iff.2 ht.candidate.form.text_ne_nil
      omega
    obtain ⟨tokens, htokens⟩ := exists_segmented d (before ++ [t]) rest
    exact ⟨t :: tokens, hsource ▸ .cons ht htokens⟩
termination_by source.length
decreasing_by exact hlength

theorem Segmented.unique {d : Dialect} {before : List Token} {source source' : List Char}
    {tokens tokens' : List Token} (h : Segmented d before source tokens)
    (h' : Segmented d before source' tokens') (hsource : source = source') : tokens = tokens' := by
  induction h generalizing source' tokens' with
  | nil =>
    cases h' with
    | nil => rfl
    | cons h' => exact absurd (List.append_eq_nil_iff.1 hsource.symm).1 h'.candidate.form.text_ne_nil
  | cons h _ ih =>
    cases h' with
    | nil => exact absurd (List.append_eq_nil_iff.1 hsource).1 h.candidate.form.text_ne_nil
    | cons h' hrest' =>
      obtain ⟨rfl, rfl⟩ := h.unique h' hsource
      rw [ih hrest' rfl]

/-! ## What the cursor knows -/

theorem sinceLast_append {p : Token → Bool} {before : List Token} {t : Token} :
    sinceLast p (before ++ [t]) = if p t then [] else t :: sinceLast p before := by
  simp only [sinceLast, List.reverse_append, List.reverse_singleton, List.singleton_append,
    List.takeWhile_cons]
  cases p t <;> rfl

/-- The statement that is pending behind a run of tokens. -/
def pendingOf (line : Nat) (run : List Token) (source : List Char) : Option Pending :=
  if statementOf run = [] then none
  else some ⟨textOf (statementOf run) ++ source, (textOf (statementOf run)).length,
    line + newlines (leadOf run)⟩

/-- What the cursor knows of the tokens it has read. The last of them, behind the last boundary, are
`run`, which begins on the line `line`. -/
structure Reads (s : Cursor) (before : List Token) (line : Nat) (run : List Token)
    (source : List Char) : Prop where
  run_eq : (sinceLast Token.isBoundary before).reverse = run
  closed : ∀ t ∈ run, t.isOpen = false
  line_eq : s.line = line + newlines run
  /-- A directive line leaves nothing of its line, so it may as well not have been there. -/
  lineBlank : s.lineBlank = true ↔ ∀ t ∈ sinceLast (·.kind == .lexeme .newline) before,
    t.kind = .lexeme .blank ∨ t.isDirective = true
  pending : s.pending = pendingOf line run source

theorem statementOf_eq_nil_iff {run : List Token} :
    statementOf run = [] ↔ ∀ t ∈ run, t.isContent = false ∧ t.isOpen = false := by
  simp [statementOf, List.dropWhile_eq_nil_iff]

/-- If there is a directive line among tokens that are blanks otherwise, there is no content behind it. -/
theorem isContent_eq_false_of_blank {ts : List Token}
    (hblank : ∀ t ∈ ts.takeWhile fun t => !(t.kind == .lexeme .newline),
      t.kind = .lexeme .blank ∨ t.isDirective = true)
    (hdirective : ∃ t ∈ ts.takeWhile fun t => !(t.kind == .lexeme .newline), t.isDirective = true) :
    ∀ t ∈ ts.takeWhile fun t => !t.isBoundary, t.isContent = false := by
  induction ts with
  | nil => simp
  | cons t ts ih =>
    cases hnewline : t.kind == .lexeme .newline with
    | true => simp [hnewline] at hdirective
    | false =>
      rw [List.takeWhile_cons_of_pos (by simpa using hnewline)] at hblank hdirective
      rcases hblank t List.mem_cons_self with ht | ht
      · have hnot : t.isDirective = false := by simp [Token.isDirective, ht]
        have hboundary : t.isBoundary = false := by simp [Token.isBoundary, hnot, ht]
        have hcontent : t.isContent = false := by simp [Token.isContent, ht]
        have hrest := ih (fun u hu => hblank u (List.mem_cons_of_mem t hu))
          (by simpa [hnot] using hdirective)
        simpa [hboundary, hcontent] using hrest
      · simp [Token.isBoundary, ht]

namespace Reads

variable {s : Cursor} {before run : List Token} {line : Nat} {source : List Char}

theorem isNone_pending_iff (h : Reads s before line run source) :
    s.pending.isNone = true ↔ ∀ t ∈ sinceLast Token.isBoundary before, t.isContent = false := by
  have hnil : s.pending.isNone = true ↔ statementOf run = [] := by
    rw [h.pending, pendingOf]
    split <;> simp_all
  rw [hnil, statementOf_eq_nil_iff]
  constructor
  · intro hrun t ht
    exact (hrun t (h.run_eq ▸ List.mem_reverse.2 ht)).1
  · intro hsince t ht
    exact ⟨hsince t (List.mem_reverse.1 (h.run_eq ▸ ht)), h.closed t ht⟩

/-- The cursor admits a directive line where one may start. -/
theorem admitsDirective_iff (h : Reads s before line run source) :
    s.admitsDirective = true ↔ MayStartDirective before := by
  rw [Cursor.admitsDirective, Bool.or_eq_true, h.isNone_pending_iff, h.lineBlank]
  constructor
  · rintro (hblank | hcontent)
    · -- a directive line that stands on the same line is a boundary, with nothing but blanks behind it
      by_cases hdirective : ∃ t ∈ sinceLast (·.kind == .lexeme .newline) before, t.isDirective = true
      · exact .inr (isContent_eq_false_of_blank hblank hdirective)
      · refine .inl fun t ht => (hblank t ht).resolve_right fun hd => hdirective ⟨t, ht, hd⟩
    · exact .inr hcontent
  · rintro (hblank | hcontent)
    · exact .inl fun t ht => .inl (hblank t ht)
    · exact .inr hcontent

end Reads

/-- At a directive line the splitter ends the statement and writes the line down. -/
theorem turn_of_directive {d : Dialect} {s : Cursor} {before run : List Token} {line : Nat}
    {x : Directive} {argument text rest cs : List Char} {c : Char}
    (h : TokenAt d before ⟨.directive x argument, text⟩ rest) (hsource : text ++ rest = c :: cs)
    (hreads : Reads s before line run (c :: cs)) :
    s.turn d c cs = .onward (s.statement ++ ofBoundary d s.line ⟨.directive x argument, text⟩)
      s.atBoundary rest := by
  obtain ⟨hmay, hread⟩ := h.read?_eq
  rw [hsource] at hread
  have hdirective : s.directive? d (c :: cs)
      = some ⟨x, DirectiveLine.argument d argument, Text.trim text, rest⟩ := by
    rw [Cursor.directive?, if_pos (hreads.admitsDirective_iff.2 hmay), hread]
  rw [Cursor.turn, hdirective]
  rfl

/-- At any other token the splitter does what is to be done at the lexeme that the token is. -/
theorem turn_of_lexeme {d : Dialect} {s : Cursor} {before run : List Token} {line : Nat}
    {k : LexemeKind} {text rest cs : List Char} {c : Char}
    (h : TokenAt d before ⟨.lexeme k, text⟩ rest) (hsource : text ++ rest = c :: cs)
    (hreads : Reads s before line run (c :: cs)) :
    s.turn d c cs = s.turnAt (c :: cs) ⟨k, text, rest⟩ := by
  have hdirective : s.directive? d (c :: cs) = none := by
    rw [Cursor.directive?]
    split
    · next hadmits =>
      have hread := h.read?_eq_none (hreads.admitsDirective_iff.1 hadmits)
      rwa [hsource] at hread
    · rfl
  rw [Cursor.turn, hdirective]
  exact congrArg (s.turnAt (c :: cs)) (h.next_eq hsource)

/-! ## Over one token -/

section

variable {line : Nat} {run : List Token} {source : List Char} {t : Token}

theorem textOf_append (ts us : List Token) : textOf (ts ++ us) = textOf ts ++ textOf us :=
  List.flatMap_append

theorem newlines_append (ts us : List Token) : newlines (ts ++ us) = newlines ts + newlines us := by
  rw [newlines, textOf_append, List.count_append]
  rfl

theorem newlines_singleton (t : Token) : newlines [t] = t.text.count '\n' := by
  simp [newlines, textOf]

theorem leadOf_append_statementOf (run : List Token) : leadOf run ++ statementOf run = run :=
  List.takeWhile_append_dropWhile

theorem statementOf_append_of_nil (h : statementOf run = []) (ts : List Token) :
    statementOf (run ++ ts) = statementOf ts ∧ leadOf (run ++ ts) = run ++ leadOf ts := by
  have hall := List.dropWhile_eq_nil_iff.1 h
  exact ⟨List.dropWhile_append_of_pos hall, List.takeWhile_append_of_pos hall⟩

theorem statementOf_append_of_ne_nil (h : statementOf run ≠ []) (ts : List Token) :
    statementOf (run ++ ts) = statementOf run ++ ts ∧ leadOf (run ++ ts) = leadOf run := by
  have hdrop : statementOf (run ++ ts) = statementOf run ++ ts := by
    have hne : (run.dropWhile fun t => !(t.isContent || t.isOpen)).isEmpty = false :=
      List.isEmpty_eq_false_iff.2 h
    rw [statementOf, List.dropWhile_append, hne, if_neg Bool.false_ne_true]
    rfl
  refine ⟨hdrop, ?_⟩
  have hsplit := leadOf_append_statementOf (run ++ ts)
  rw [hdrop, ← List.append_assoc] at hsplit
  have hrun := List.append_cancel_right hsplit
  exact List.append_cancel_right (hrun.trans (leadOf_append_statementOf run).symm)

/-- A token that is no content of a statement belongs to the one that is pending, if there is one. -/
theorem pendingOf_skip (hcontent : t.isContent = false) (hopen : t.isOpen = false) :
    pendingOf line (run ++ [t]) source
      = (pendingOf line run (t.text ++ source)).map (·.extend t.text.length) := by
  by_cases hrun : statementOf run = []
  · obtain ⟨hstatement, -⟩ := statementOf_append_of_nil hrun [t]
    have hnone : statementOf [t] = [] := statementOf_eq_nil_iff.2 (by simp [hcontent, hopen])
    rw [pendingOf, pendingOf, hstatement, hnone, hrun]
    rfl
  · obtain ⟨hstatement, hlead⟩ := statementOf_append_of_ne_nil hrun [t]
    have htext : textOf [t] = t.text := by simp [textOf]
    rw [pendingOf, pendingOf, hstatement, hlead, if_neg hrun, if_neg (by simp), textOf_append, htext,
      List.append_assoc, List.length_append]
    rfl

/-- Content belongs to the statement that is pending, or starts one. -/
theorem pendingOf_take (hcontent : t.isContent = true) :
    pendingOf line (run ++ [t]) source = some
      (((pendingOf line run (t.text ++ source)).getD ⟨t.text ++ source, 0, line + newlines run⟩).extend
        t.text.length) := by
  have htext : textOf [t] = t.text := by simp [textOf]
  by_cases hrun : statementOf run = []
  · obtain ⟨hstatement, hlead⟩ := statementOf_append_of_nil hrun [t]
    have hone : statementOf [t] = [t] ∧ leadOf [t] = [] := by simp [statementOf, leadOf, hcontent]
    rw [pendingOf, pendingOf, hstatement, hlead, hone.1, hone.2, if_pos hrun, if_neg (by simp), htext,
      List.append_nil]
    simp [Pending.extend]
  · obtain ⟨hstatement, hlead⟩ := statementOf_append_of_ne_nil hrun [t]
    rw [pendingOf, pendingOf, hstatement, hlead, if_neg hrun, if_neg (by simp), textOf_append, htext,
      List.append_assoc, List.length_append]
    rfl

end

theorem fault?_append_of_closed (line : Nat) {run : List Token} (h : ∀ t ∈ run, t.isOpen = false)
    (ts : List Token) : fault? line (run ++ ts) = fault? (line + newlines run) ts := by
  induction run generalizing line with
  | nil => rfl
  | cons t run ih =>
    have hstep : fault? line (t :: (run ++ ts)) = fault? (line + newlines [t]) (run ++ ts) := by
      have ht := h t List.mem_cons_self
      rw [fault?]
      split <;> simp_all [Token.isOpen]
    rw [List.cons_append, hstep, ih _ fun u hu => h u (List.mem_cons_of_mem t hu), Nat.add_assoc,
      ← newlines_append, List.singleton_append]

namespace Reads

variable {s s' : Cursor} {before run : List Token} {line : Nat} {source rest text : List Char}
  {t : Token} {k : LexemeKind}

theorem lineBlank_append_iff (h : Reads s before line run source) :
    (∀ u ∈ sinceLast (·.kind == .lexeme .newline) (before ++ [t]),
      u.kind = .lexeme .blank ∨ u.isDirective = true) ↔
    t.kind = .lexeme .newline ∨
      (t.kind = .lexeme .blank ∨ t.isDirective = true) ∧ s.lineBlank = true := by
  rw [sinceLast_append, h.lineBlank]
  by_cases ht : t.kind = .lexeme .newline
  · simp [ht]
  · simp [ht]

/-- The cursor behind a boundary. -/
theorem of_boundary (h : Reads s before line run source) (ht : t.isBoundary = true)
    (hnewlines : newlines [t] = 0) (hline : s'.line = s.line) (hpending : s'.pending = none)
    (hblank : s'.lineBlank = (s.lineBlank && t.isDirective)) :
    Reads s' (before ++ [t]) (line + newlines (run ++ [t])) [] rest where
  run_eq := by rw [sinceLast_append, if_pos ht, List.reverse_nil]
  closed := nofun
  line_eq := by
    rw [hline, h.line_eq, newlines_append, hnewlines]
    rfl
  lineBlank := by
    rw [h.lineBlank_append_iff, hblank, Bool.and_eq_true]
    have hkind : t.kind ≠ .lexeme .newline ∧ t.kind ≠ .lexeme .blank := by
      constructor <;> intro hkind <;> simp [Token.isBoundary, Token.isDirective, hkind] at ht
    simp [hkind, and_comm]
  pending := by
    rw [hpending]
    rfl

/-- The cursor behind a token that belongs to a run. -/
theorem of_token (h : Reads s before line run (text ++ rest))
    (hk : Token.isBoundary ⟨.lexeme k, text⟩ = false) (hopen : Token.isOpen ⟨.lexeme k, text⟩ = false) :
    Reads (s.after (text ++ rest) ⟨k, text, rest⟩) (before ++ [⟨.lexeme k, text⟩]) line
      (run ++ [⟨.lexeme k, text⟩]) rest where
  run_eq := by
    rw [sinceLast_append, hk, if_neg Bool.false_ne_true, List.reverse_cons, h.run_eq]
  closed t ht := by
    rcases List.mem_append.1 ht with ht | ht
    · exact h.closed t ht
    · rwa [List.mem_singleton.1 ht]
  line_eq := by
    have hadvance : (s.after (text ++ rest) ⟨k, text, rest⟩).line = s.line + text.count '\n' := by
      cases k <;> rfl
    rw [hadvance, h.line_eq, newlines_append, newlines_singleton, Nat.add_assoc]
  lineBlank := by
    rw [h.lineBlank_append_iff]
    cases k with
    | newline | blank | comment | literal | content =>
      simp [Cursor.after, Cursor.skip, Cursor.take, Cursor.advance, Cursor.inLine, Token.isDirective]
    | terminator => simp [Token.isBoundary] at hk
    | openComment | openLiteral => simp [Token.isOpen] at hopen
  pending := by
    cases k with
    | newline | blank | comment =>
      rw [pendingOf_skip rfl rfl, ← h.pending]
      rfl
    | literal | content =>
      rw [pendingOf_take rfl, ← h.pending, ← h.line_eq]
      rfl
    | terminator => simp [Token.isBoundary] at hk
    | openComment | openLiteral => simp [Token.isOpen] at hopen

/-- What the splitter makes of the pending statement is the fragment of the run. -/
theorem statement_eq (h : Reads s before line run source) : s.statement = ofRun line run := by
  have hfault := fault?_append_of_closed line h.closed []
  rw [List.append_nil] at hfault
  rw [Cursor.statement, h.pending, pendingOf, ofRun]
  by_cases hrun : statementOf run = []
  · rw [if_pos hrun, if_pos hrun]
    rfl
  · rw [if_neg hrun, if_neg hrun, hfault]
    simp [Pending.fragment, Pending.text, fault?]

/-- What it makes of a construct that does not end is the fragment of the run with that construct. -/
theorem fault_eq (h : Reads s before line run source) {error : SyntaxError} {t : Token}
    (ht : fault? s.line [t] = some error) (htext : t.text = source) :
    ofRun line (run ++ [t]) = [s.fault error source] := by
  have hopen : t.isOpen = true := by
    cases hk : t.kind with
    | directive => simp [fault?, hk] at ht
    | lexeme k => cases k <;> simp [fault?, hk] at ht <;> simp [Token.isOpen, hk]
  have hone : textOf [t] = source := by simp [textOf, htext]
  have hfault : fault? line (run ++ [t]) = some error := by
    rw [fault?_append_of_closed line h.closed, ← h.line_eq, ht]
  rw [Cursor.fault, h.pending, pendingOf, ofRun, hfault]
  by_cases hrun : statementOf run = []
  · have hstatement : statementOf (run ++ [t]) = [t] := by
      rw [(statementOf_append_of_nil hrun [t]).1]
      simp [statementOf, hopen]
    rw [if_pos hrun, hstatement, hone, if_neg (by simp)]
    rfl
  · have hstatement := (statementOf_append_of_ne_nil hrun [t]).1
    rw [if_neg hrun, hstatement, textOf_append, hone, if_neg (by simp)]
    rfl

end Reads

theorem runs_cons_of_boundary {t : Token} (ht : t.isBoundary = true) (ts : List Token) :
    runs (t :: ts) = ([], (t, (runs ts).1) :: (runs ts).2) := by
  rw [runs, if_pos ht]

theorem runs_cons_of_not_boundary {t : Token} (ht : t.isBoundary = false) (ts : List Token) :
    runs (t :: ts) = (t :: (runs ts).1, (runs ts).2) := by
  rw [runs, ht, if_neg Bool.false_ne_true]

/-! ## Over the rest of the source -/

section

variable {d : Dialect} {s next : Cursor} {c : Char} {cs rest : List Char}

theorem scan_of_onward {ended : List Fragment} (h : s.turn d c cs = .onward ended next rest) :
    Fragment.scan d s (c :: cs) = ended ++ Fragment.scan d next rest := by
  rw [Fragment.scan]
  split
  · next hturn =>
    obtain ⟨rfl, rfl, rfl⟩ := Cursor.Turn.onward.inj (hturn.symm.trans h)
    rfl
  · next hturn => simp [h] at hturn

theorem scan_of_broken {last : Fragment} (h : s.turn d c cs = .broken last) :
    Fragment.scan d s (c :: cs) = [last] := by
  rw [Fragment.scan]
  split
  · next hturn => simp [h] at hturn
  · next hturn => rw [Cursor.Turn.broken.inj (hturn.symm.trans h)]

end

/-- In a valid dialect neither a directive line nor the terminator holds a newline. -/
theorem newlines_boundary {d : Dialect} (hd : d.Valid) {t : Token} {rest : List Char}
    (h : t.Form d rest) (ht : t.isBoundary = true) : newlines [t] = 0 := by
  rw [newlines_singleton, List.count_eq_zero]
  cases h with
  | directive hmarker hword hkeyword hends hline =>
    have hnewline : Text.isBlank '\n' = true := by decide
    simp only [List.mem_append, not_or]
    refine ⟨⟨fun hmem => ?_, fun hmem => ?_⟩, hline⟩
    · simp [hd.marker_visible _ hmem] at hnewline
    · exact absurd (hword _ hmem) (by decide)
  | terminator =>
    have hnewline : Text.isBlank '\n' = true := by decide
    intro hmem
    rw [List.mem_singleton.1 hmem, hd.terminator_visible] at hnewline
    simp at hnewline
  | newline | blank | lineComment | blockComment | openComment | literal | openLiteral | content =>
    simp [Token.isBoundary, Token.isDirective] at ht

theorem Segmented.eq_nil {d : Dialect} {before tokens : List Token}
    (h : Segmented d before [] tokens) : tokens = [] :=
  h.unique (.nil before) rfl

/-- From a cursor on that knows of the tokens it has read, the splitter makes the fragments that the rest
of the tokens make up together with the run it is in. -/
theorem scan_eq {d : Dialect} (hd : d.Valid) {before tokens : List Token} {source : List Char}
    (h : Segmented d before source tokens) {s : Cursor} {line : Nat} {run : List Token}
    (hreads : Reads s before line run source) :
    Fragment.scan d s source = fragmentsFrom d line (run ++ (runs tokens).1) (runs tokens).2 := by
  induction h generalizing s line run with
  | nil before =>
    rw [Fragment.scan, hreads.statement_eq, runs, List.append_nil, fragmentsFrom]
  | @cons before t rest tokens h hrest ih =>
    obtain ⟨c, cs, hsource⟩ := List.exists_cons_of_ne_nil (l := t.text ++ rest)
      (by simpa using fun hnil => absurd hnil h.candidate.form.text_ne_nil)
    obtain ⟨kind, text⟩ := t
    cases kind with
    | directive x argument =>
      have hturn := turn_of_directive h hsource (hsource ▸ hreads)
      have hnewlines := newlines_boundary hd h.candidate.form rfl
      have hnext := ih (s := s.atBoundary) (hreads.of_boundary rfl hnewlines rfl rfl
        (Bool.and_true _).symm)
      rw [hsource, scan_of_onward hturn, hnext, hreads.statement_eq, hreads.line_eq,
        runs_cons_of_boundary rfl, List.append_nil, fragmentsFrom, List.nil_append]
    | lexeme k =>
      have hturn := turn_of_lexeme h hsource (hsource ▸ hreads)
      cases k with
      | terminator =>
        have hnewlines := newlines_boundary hd h.candidate.form rfl
        have hnext := ih (s := s.atBoundary.inLine) (hreads.of_boundary rfl hnewlines rfl rfl
          (Bool.and_false _).symm)
        rw [hsource, scan_of_onward hturn, hnext, hreads.statement_eq, runs_cons_of_boundary rfl,
          List.append_nil, fragmentsFrom, ofBoundary, List.append_nil, List.nil_append]
      | newline | blank | comment | literal | content =>
        have hnext := ih (hreads.of_token rfl rfl)
        rw [hsource] at hnext
        rw [hsource, scan_of_onward hturn, hnext, runs_cons_of_not_boundary rfl, List.nil_append,
          List.append_assoc, List.singleton_append]
      | openComment | openLiteral =>
        -- nothing is left behind a construct that does not end
        obtain rfl : rest = [] := by
          cases h.candidate.form
          rfl
        obtain rfl := hrest.eq_nil
        rw [List.append_nil] at hsource hreads ⊢
        rw [hsource, scan_of_broken hturn, runs_cons_of_not_boundary rfl, runs, fragmentsFrom,
          hreads.fault_eq rfl rfl, hsource]

/-- The splitter makes of a source the fragments of the tokens that it is made of, and these are told by
what they look like: there is one way to cut the source into tokens so that nothing that could stand in
the place of a token goes before it. -/
theorem split_eq_fragmentsOf {d : Dialect} (hd : d.validate = .ok d) (source : String) :
    ∃ tokens, IsSegmentation d source.toList tokens ∧
      (∀ tokens', IsSegmentation d source.toList tokens' → tokens' = tokens) ∧
      Fragment.split d source = fragmentsOf d tokens := by
  have hvalid : d.Valid := (Dialect.validate_eq_ok_iff.1 hd).1
  obtain ⟨tokens, htokens⟩ := exists_segmented d [] source.toList
  have hstart : Reads {} [] 1 [] source.toList := ⟨rfl, nofun, rfl, by simp [sinceLast], rfl⟩
  refine ⟨tokens, isSegmentation_iff_segmented.2 htokens, fun tokens' h' => ?_, ?_⟩
  · exact (isSegmentation_iff_segmented.1 h').unique htokens rfl
  · exact scan_eq hvalid htokens hstart

/-- The default dialect. -/
theorem split_default_eq_fragmentsOf :
    Dialect.validate {} = .ok {} ∧
      ∃ tokens, IsSegmentation {} "SELECT 1; /* a */ --if x".toList tokens ∧
      (∀ tokens', IsSegmentation {} "SELECT 1; /* a */ --if x".toList tokens' → tokens' = tokens) ∧
      Fragment.split {} "SELECT 1; /* a */ --if x" = fragmentsOf {} tokens := by
  have hvalid : Dialect.validate {} = .ok {} := by decide
  exact ⟨hvalid, split_eq_fragmentsOf hvalid _⟩

end SqlFlow
