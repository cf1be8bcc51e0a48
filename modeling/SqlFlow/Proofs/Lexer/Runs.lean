import SqlFlow.Proofs.Lexer.Splitting

/-!
# Runs of tokens

Tokens by the boundaries among them: they are a run without any, or a run, a boundary and the tokens
behind it.

* `runs_induction`: the induction that goes with this.
* `fragmentsAt`: the fragments of tokens from a line on. `fragmentsAt_run` and `fragmentsAt_append_cons`
  are what they are in the two cases.
* `ofRun_of_closed`: a run in which every construct ends is a statement or nothing.
* `Token.Unended`: what an error tells of a construct that does not end; `ofRun_of_unended` says that the
  fault of a run does.
* `IsSegmentation.visible`: what begins with a character that is not blank.
* `IsSegmentation.closed_or_open`: only the last token may be a construct that does not end.
* `mem_fragmentsAt`: where a fragment comes from.
-/

namespace SqlFlow

open Source

theorem textOf_singleton (t : Token) : textOf [t] = t.text := by simp [textOf]

/-! ## Runs -/

/-- No boundary is among the tokens. -/
def IsRun (ts : List Token) : Prop := ∀ t ∈ ts, t.isBoundary = false

section

variable {run ts : List Token} {b t : Token}

theorem isRun_nil : IsRun [] := List.forall_mem_nil _

theorem runs_of_isRun (h : IsRun run) : runs run = (run, []) := by
  induction run with
  | nil => rfl
  | cons t run ih =>
    obtain ⟨ht, hts⟩ := List.forall_mem_cons.1 h
    rw [runs_cons_of_not_boundary ht, ih hts]

theorem runs_append_cons (h : IsRun run) (hb : b.isBoundary = true) (ts : List Token) :
    runs (run ++ b :: ts) = (run, (b, (runs ts).1) :: (runs ts).2) := by
  induction run with
  | nil => exact runs_cons_of_boundary hb ts
  | cons t run ih =>
    obtain ⟨ht, hts⟩ := List.forall_mem_cons.1 h
    rw [List.cons_append, runs_cons_of_not_boundary ht, ih hts]

/-- What holds of runs, and of a run, a boundary and tokens of which it holds, holds of all tokens. -/
theorem runs_induction {P : List Token → Prop} (last : ∀ run, IsRun run → P run)
    (cons : ∀ run b ts, IsRun run → b.isBoundary = true → P ts → P (run ++ b :: ts))
    (tokens : List Token) : P tokens := by
  have hsplit : tokens.takeWhile (!·.isBoundary) ++ tokens.dropWhile (!·.isBoundary) = tokens :=
    List.takeWhile_append_dropWhile
  have hrun : IsRun (tokens.takeWhile (!·.isBoundary)) := fun t ht => by
    simpa using List.all_eq_true.1 List.all_takeWhile t ht
  cases hrest : tokens.dropWhile (!·.isBoundary) with
  | nil =>
    rw [hrest, List.append_nil] at hsplit
    exact hsplit ▸ last _ hrun
  | cons b ts =>
    have hb : b.isBoundary = true := by
      have hstop := List.head?_dropWhile_not (fun t : Token => !t.isBoundary) tokens
      rw [hrest] at hstop
      simpa using hstop
    rw [hrest] at hsplit
    have hlength : ts.length < tokens.length := by
      rw [← hsplit, List.length_append, List.length_cons]
      omega
    exact hsplit ▸ cons _ b ts hrun hb (runs_induction last cons ts)
termination_by tokens.length
decreasing_by exact hlength

theorem sinceLast_append_of_mem {p : Token → Bool} (before : List Token) {us : List Token} {u : Token}
    (hu : u ∈ us) (hp : p u = true) : sinceLast p (before ++ us) = sinceLast p us := by
  have hany : ¬∀ t ∈ us.reverse, (!p t) = true := fun hall => by
    have hnot := hall u (List.mem_reverse.2 hu)
    rw [hp] at hnot
    cases hnot
  have hlength : (us.reverse.takeWhile (!p ·)).length ≠ us.reverse.length := fun heq =>
    hany (List.takeWhile_eq_self_iff.1 ((List.takeWhile_prefix _).eq_of_length heq))
  unfold sinceLast
  rw [List.reverse_append, List.takeWhile_append, if_neg hlength]

theorem sinceLast_append_of_not {p : Token → Bool} (before : List Token) {us : List Token}
    (hus : ∀ u ∈ us, p u = false) : sinceLast p (before ++ us) = us.reverse ++ sinceLast p before := by
  unfold sinceLast
  rw [List.reverse_append, List.takeWhile_append_of_pos fun u hu => by
    rw [hus u (List.mem_reverse.1 hu)]; rfl]

/-- Behind a boundary, the tokens since the last one are those of the run that follows. -/
theorem sinceLast_append_run {before : List Token} (hbefore : sinceLast Token.isBoundary before = [])
    (h : IsRun run) : sinceLast Token.isBoundary (before ++ run) = run.reverse := by
  rw [sinceLast_append_of_not before h, hbefore, List.append_nil]

theorem sinceLast_append_boundary (before : List Token) (hb : b.isBoundary = true) :
    sinceLast Token.isBoundary (before ++ [b]) = [] := by
  rw [sinceLast_append, if_pos hb]

end

/-! ## Their fragments -/

/-- The fragments of tokens, the first of which is on the line. -/
def fragmentsAt (d : Dialect) (line : Nat) (tokens : List Token) : List Fragment :=
  fragmentsFrom d line (runs tokens).1 (runs tokens).2

section

variable {d : Dialect} {run : List Token} {b : Token}

theorem fragmentsAt_run (line : Nat) (h : IsRun run) : fragmentsAt d line run = ofRun line run := by
  unfold fragmentsAt
  rw [runs_of_isRun h, fragmentsFrom]

theorem fragmentsAt_append_cons (line : Nat) (h : IsRun run) (hb : b.isBoundary = true)
    (ts : List Token) :
    fragmentsAt d line (run ++ b :: ts) = ofRun line run ++ ofBoundary d (line + newlines run) b ++
      fragmentsAt d (line + newlines (run ++ [b])) ts := by
  unfold fragmentsAt
  rw [runs_append_cons h hb, fragmentsFrom]

/-- The splitter makes the fragments of the tokens of a source. -/
theorem split_eq_fragmentsAt (hd : d.Valid) {source : String} {tokens : List Token}
    (h : IsSegmentation d source.toList tokens) : Fragment.split d source = fragmentsAt d 1 tokens := by
  have hstart : Reads {} [] 1 [] source.toList := ⟨rfl, nofun, rfl, by simp [sinceLast], rfl⟩
  exact scan_eq hd (isSegmentation_iff_segmented.1 h) hstart

theorem exists_isSegmentation (d : Dialect) (source : List Char) :
    ∃ tokens, IsSegmentation d source tokens := by
  obtain ⟨tokens, htokens⟩ := exists_segmented d [] source
  exact ⟨tokens, isSegmentation_iff_segmented.2 htokens⟩

/-- A statement begins with its first content, or else with the construct in it that does not end. -/
theorem first_statementOf {t : Token} (ht : (statementOf run).head? = some t) :
    t.isContent = true ∨ t.isOpen = true := by
  have hstop := List.head?_dropWhile_not (fun u : Token => !(u.isContent || u.isOpen)) run
  rw [show (run.dropWhile fun u => !(u.isContent || u.isOpen)).head? = some t from ht] at hstop
  change (!(t.isContent || t.isOpen)) = false at hstop
  rwa [Bool.not_eq_false', Bool.or_eq_true] at hstop

theorem not_first_of_mem_leadOf {t : Token} (ht : t ∈ leadOf run) :
    t.isContent = false ∧ t.isOpen = false := by
  have hall := List.all_eq_true.1 (List.all_takeWhile (l := run)) t ht
  simpa using hall

theorem IsRun.parts (h : IsRun run) : IsRun (leadOf run) ∧ IsRun (statementOf run) :=
  ⟨fun t ht => h t ((List.takeWhile_sublist _).subset ht),
    fun t ht => h t ((List.dropWhile_sublist _).subset ht)⟩

/-- Nothing is pending where the statement of a run begins. -/
theorem nothing_pending_leadOf {before : List Token} (hrun : IsRun run)
    (hbefore : sinceLast Token.isBoundary before = []) :
    ∀ t ∈ sinceLast Token.isBoundary (before ++ leadOf run), t.isContent = false := by
  intro t ht
  rw [sinceLast_append_run hbefore hrun.parts.1] at ht
  exact (not_first_of_mem_leadOf (List.mem_reverse.1 ht)).1

/-- Where every construct ends, a statement begins with content. -/
theorem exists_first_content (hclosed : ∀ t ∈ run, t.isOpen = false) (hne : statementOf run ≠ []) :
    ∃ t ∈ run, (statementOf run).head? = some t ∧ t.isContent = true := by
  obtain ⟨t, more, hstatement⟩ := List.exists_cons_of_ne_nil hne
  have hhead : (statementOf run).head? = some t := by rw [hstatement, List.head?_cons]
  have hmem : t ∈ run := (List.dropWhile_sublist _).subset (List.mem_of_head? hhead)
  refine ⟨t, hmem, hhead, ?_⟩
  rcases first_statementOf hhead with hcontent | hopen
  · exact hcontent
  · rw [hclosed t hmem] at hopen
    cases hopen

theorem fault?_of_closed (line : Nat) (h : ∀ t ∈ run, t.isOpen = false) : fault? line run = none := by
  have happend := fault?_append_of_closed line h []
  rw [List.append_nil] at happend
  rw [happend, fault?]

theorem ofRun_of_nil (line : Nat) (h : statementOf run = []) : ofRun line run = [] := by
  unfold ofRun
  rw [if_pos h]

theorem ofRun_of_closed (line : Nat) (h : ∀ t ∈ run, t.isOpen = false) (hne : statementOf run ≠ []) :
    ofRun line run = [⟨.sql, String.ofList (Text.trim (textOf (statementOf run))),
      String.ofList (Text.trim (textOf (statementOf run))), line + newlines (leadOf run)⟩] := by
  unfold ofRun
  rw [if_neg hne, fault?_of_closed line h]

/-- A construct that does not end, and begins on the line, is what the error is about. -/
inductive Token.Unended (t : Token) (line : Nat) : SyntaxError → Prop where
  | comment (hkind : t.kind = .lexeme .openComment) : Unended t line (.unterminatedComment line)
  | literal {quote : Char} (hkind : t.kind = .lexeme (.openLiteral quote)) :
      Unended t line (.unterminatedLiteral line quote)

theorem Token.Unended.isOpen {t : Token} {line : Nat} {error : SyntaxError} (h : t.Unended line error) :
    t.isOpen = true := by
  cases h with
  | comment hkind => simp [Token.isOpen, hkind]
  | literal hkind => simp [Token.isOpen, hkind]

theorem exists_unended {t : Token} (ht : t.isOpen = true) (line : Nat) :
    ∃ error, t.Unended line error := by
  obtain ⟨⟨x, argument⟩ | k, text⟩ := t
  · cases ht
  · cases k with
    | openComment => exact ⟨_, .comment rfl⟩
    | openLiteral quote => exact ⟨_, .literal rfl⟩
    | newline | blank | comment | literal | terminator | content => cases ht

theorem statementOf_ne_nil_of_open {t : Token} (ht : t.isOpen = true) :
    statementOf (run ++ [t]) ≠ [] := by
  intro hnil
  have hclosed := (statementOf_eq_nil_iff.1 hnil t List.mem_concat_self).2
  rw [ht] at hclosed
  cases hclosed

/-- The error of a run that ends in a construct that does not end tells the line which that begins on. -/
theorem fault?_of_unended (line : Nat) (h : ∀ u ∈ run, u.isOpen = false) {t : Token} {error : SyntaxError}
    (ht : t.Unended (line + newlines run) error) : fault? line (run ++ [t]) = some error := by
  rw [fault?_append_of_closed line h]
  cases ht with
  | comment hkind => simp only [fault?, hkind]
  | literal hkind => simp only [fault?, hkind]

/-- If the run ends in a construct that does not end, its fragment is a fault. -/
theorem ofRun_of_unended (line : Nat) (h : ∀ u ∈ run, u.isOpen = false) {t : Token}
    {error : SyntaxError} (ht : t.Unended (line + newlines run) error) :
    ofRun line (run ++ [t]) = [⟨.fault error,
      String.ofList (Text.trim (textOf (statementOf (run ++ [t])))),
      String.ofList (Text.trim (textOf (statementOf (run ++ [t])))), error.line⟩] := by
  unfold ofRun
  rw [if_neg (statementOf_ne_nil_of_open ht.isOpen), fault?_of_unended line h ht]

theorem ofRun_of_open (line : Nat) (h : ∀ u ∈ run, u.isOpen = false) {t : Token}
    (ht : t.isOpen = true) : ∃ error, ofRun line (run ++ [t]) = [⟨.fault error,
      String.ofList (Text.trim (textOf (statementOf (run ++ [t])))),
      String.ofList (Text.trim (textOf (statementOf (run ++ [t])))), error.line⟩] := by
  obtain ⟨error, herror⟩ := exists_unended ht (line + newlines run)
  exact ⟨error, ofRun_of_unended line h herror⟩

end

/-! ## Tokens of a source -/

namespace IsSegmentation

variable {d : Dialect} {source : List Char} {tokens before behind : List Token} {t : Token}
  (h : IsSegmentation d source tokens) (htokens : tokens = before ++ t :: behind)

include h htokens

/-- Nothing stands behind a construct that does not end. -/
theorem behind_eq_nil (ht : t.isOpen = true) : behind = [] := by
  have hform := (h.2 before t behind htokens).candidate.form
  have htext : textOf behind = [] := by
    generalize textOf behind = rest at hform
    cases hform <;> first | rfl | cases ht
  cases behind with
  | nil => rfl
  | cons u behind =>
    have hu := h.2 (before ++ [t]) u behind (by rw [htokens, List.append_assoc]; rfl)
    exact absurd (List.append_eq_nil_iff.1 htext).1 hu.candidate.form.text_ne_nil

theorem text_ne_nil : t.text ≠ [] := (h.2 before t behind htokens).candidate.form.text_ne_nil

/-- A token that is the first one of a fragment does not begin with a blank. -/
theorem visible (hd : d.Valid)
    (ht : t.isDirective = true ∨ t.isContent = true ∨ t.isOpen = true) :
    ∀ c, t.text.head? = some c → Text.isBlank c = false := by
  intro c hc
  obtain ⟨cs, htext⟩ := List.head?_eq_some_iff.1 hc
  have hat := h.2 before t behind htokens
  have hsource : t.text ++ textOf behind = c :: (cs ++ textOf behind) := by
    rw [htext]
    rfl
  obtain ⟨⟨x, argument⟩ | k, text⟩ := t
  · -- the marker is a word
    have hform := hat.candidate.form
    generalize textOf behind = rest at hform
    cases hform with
    | directive hmarker =>
      obtain ⟨m, ms, hms⟩ := List.exists_cons_of_ne_nil hmarker
      rw [hms] at htext
      obtain ⟨rfl, -⟩ := List.cons.inj htext
      exact hd.marker_visible m (hms ▸ List.mem_cons_self)
  · refine hat.isBlank_eq_false hsource ?_
    cases k with
    | comment | terminator | literal | content | openComment | openLiteral =>
      simp [TokenKind.rank]
    | newline | blank => simp [Token.isDirective, Token.isContent, Token.isOpen] at ht

end IsSegmentation

/-- Of a row of tokens only the last may be a construct that does not end, and if it is nothing stands
behind it. -/
theorem IsSegmentation.closed_or_open {d : Dialect} {source : List Char}
    {tokens before run behind : List Token} (h : IsSegmentation d source tokens)
    (htokens : tokens = before ++ (run ++ behind)) :
    (∀ t ∈ run, t.isOpen = false) ∨
      ∃ us t, run = us ++ [t] ∧ behind = [] ∧ (∀ u ∈ us, u.isOpen = false) ∧ t.isOpen = true := by
  by_cases hclosed : ∀ t ∈ run, t.isOpen = false
  · exact .inl hclosed
  · right
    obtain ⟨t, ht, hopen⟩ : ∃ t ∈ run, t.isOpen = true := by simpa using hclosed
    obtain ⟨us, vs, rfl⟩ := List.append_of_mem ht
    have hat : tokens = (before ++ us) ++ t :: (vs ++ behind) := by simp [htokens]
    have hnil : vs ++ behind = [] := h.behind_eq_nil hat hopen
    obtain ⟨rfl, rfl⟩ := List.append_eq_nil_iff.1 hnil
    refine ⟨us, t, rfl, rfl, fun u hu => ?_, hopen⟩
    -- the token that is open in front of `t` would be the last one
    cases huopen : u.isOpen with
    | false => rfl
    | true =>
      obtain ⟨us', vs', rfl⟩ := List.append_of_mem hu
      have hat' : tokens = (before ++ us') ++ u :: (vs' ++ [t]) := by simp [htokens]
      have hnil' : vs' ++ [t] = [] := h.behind_eq_nil hat' huopen
      simp at hnil'

/-- A newline or another blank is one blank character. -/
theorem Token.Form.exists_blank {d : Dialect} {t : Token} {rest : List Char} (h : t.Form d rest)
    (hkind : t.kind = .lexeme .newline ∨ t.kind = .lexeme .blank) :
    ∃ c, t.text = [c] ∧ Text.isBlank c = true := by
  cases h with
  | newline => exact ⟨'\n', rfl, by decide⟩
  | @blank c _ hc => exact ⟨c, rfl, hc⟩
  | directive | lineComment | blockComment | openComment | literal | openLiteral | terminator
    | content => simp at hkind

theorem Token.Form.text_of_terminator {d : Dialect} {t : Token} {rest : List Char} (h : t.Form d rest)
    (hkind : t.kind = .lexeme .terminator) : t.text = [d.terminator] := by
  cases h with
  | terminator => rfl
  | directive | newline | blank | lineComment | blockComment | openComment | literal | openLiteral
    | content => simp at hkind

/-- A statement begins with a visible character. -/
theorem IsSegmentation.visible_statement {d : Dialect} (hd : d.Valid) {source : List Char}
    {tokens before run behind : List Token} (h : IsSegmentation d source tokens)
    (htokens : tokens = before ++ (run ++ behind)) (hne : statementOf run ≠ []) :
    textOf (statementOf run) ≠ [] ∧
      ∀ c, (textOf (statementOf run)).head? = some c → Text.isBlank c = false := by
  obtain ⟨t, more, hstatement⟩ := List.exists_cons_of_ne_nil hne
  have hhead : (statementOf run).head? = some t := by rw [hstatement, List.head?_cons]
  have hfirst := first_statementOf hhead
  have hrun : leadOf run ++ t :: more = run := by rw [← hstatement, leadOf_append_statementOf]
  have hat : tokens = (before ++ leadOf run) ++ t :: (more ++ behind) := by
    rw [htokens, ← List.cons_append, List.append_assoc before, ← List.append_assoc (leadOf run), hrun]
  have htext : t.text ≠ [] := h.text_ne_nil hat
  have hcons : textOf (statementOf run) = t.text ++ textOf more := by
    rw [hstatement]
    rfl
  refine ⟨by simp [hcons, htext], fun c hc => ?_⟩
  obtain ⟨c', cs, hcs⟩ := List.exists_cons_of_ne_nil htext
  rw [hcons, hcs] at hc
  exact h.visible hat hd (.inr hfirst) c (by rw [hcs]; exact hc)

/-! ## Where fragments come from -/

/-- A run of the tokens, between boundaries or the ends of the source. -/
structure RunOf (tokens before run behind : List Token) : Prop where
  tokens_eq : tokens = before ++ (run ++ behind)
  isRun : IsRun run
  starts : sinceLast Token.isBoundary before = []
  ends : ∀ b, behind.head? = some b → b.isBoundary = true

/-- A fragment is that of a run that stands between boundaries, or that of a boundary. -/
theorem mem_fragmentsAt {d : Dialect} {tokens : List Token} {f : Fragment} :
    ∀ ts before line, tokens = before ++ ts → sinceLast Token.isBoundary before = [] →
      f ∈ fragmentsAt d line ts →
      (∃ before run behind line, RunOf tokens before run behind ∧ f ∈ ofRun line run) ∨
      ∃ before b behind line, tokens = before ++ b :: behind ∧ f ∈ ofBoundary d line b := by
  intro ts
  induction ts using runs_induction with
  | last run hrun =>
    intro before line htokens hbefore hf
    rw [fragmentsAt_run line hrun] at hf
    have hrunof : RunOf tokens before run [] := ⟨by rw [htokens, List.append_nil], hrun, hbefore, nofun⟩
    exact .inl ⟨before, run, [], line, hrunof, hf⟩
  | cons run b ts hrun hb ih =>
    intro before line htokens hbefore hf
    rw [fragmentsAt_append_cons line hrun hb] at hf
    rcases List.mem_append.1 hf with hf | hf
    · rcases List.mem_append.1 hf with hf | hf
      · have hrunof : RunOf tokens before run (b :: ts) :=
          ⟨htokens, hrun, hbefore, fun b' hb' => Option.some.inj hb' ▸ hb⟩
        exact .inl ⟨before, run, b :: ts, line, hrunof, hf⟩
      · exact .inr ⟨before ++ run, b, ts, _, by rw [htokens, List.append_assoc], hf⟩
    · exact ih (before ++ run ++ [b]) _ (by simp [htokens]) (sinceLast_append_boundary _ hb) hf

end SqlFlow
