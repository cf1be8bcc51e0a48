import SqlFlow.Proofs.Lexer.Locality

/-!
# Rendering fragments

Fragments that are written down one behind the other, each statement with a terminator on a line of its
own, are what a splitter makes of that script.

* `Fragment.render` and `Fragment.written`: what is written of a fragment, and what is to be read again.
* `Freestanding`: tokens that make up the same statement wherever a line ends behind them.
  `exists_freestanding` finds them in any script.
* `Renders`: tokens that make up the same fragment wherever they stand. `renders_of_freestanding` and
  `exists_renders_of_form` are the two kinds, `exists_tokens_of_renders` puts them together.
-/

namespace SqlFlow

open Source

/-- What a fragment holds, apart from the line it starts on. -/
def Fragment.written (f : Fragment) : FragmentKind × String × String := (f.kind, f.text, f.raw)

/-- A fragment as a piece of a script. A statement is followed by a terminator on the next line. -/
def Fragment.render (d : Dialect) (f : Fragment) : String :=
  match f.kind with
  | .sql => f.text ++ "\n" ++ String.singleton d.terminator ++ "\n"
  | .directive _ | .fault _ => f.raw ++ "\n"

/-! ## Lines do not matter -/

section

variable {d : Dialect} {lead run ts : List Token}

theorem written_ofRun_append (line line' : Nat) (hlead : statementOf lead = [])
    (hclosed : ∀ t ∈ run, t.isOpen = false) :
    (ofRun line (lead ++ run)).map Fragment.written = (ofRun line' run).map Fragment.written := by
  have hclosed' : ∀ t ∈ lead ++ run, t.isOpen = false :=
    List.forall_mem_append.2 ⟨fun t ht => (statementOf_eq_nil_iff.1 hlead t ht).2, hclosed⟩
  obtain ⟨hstatement, -⟩ := statementOf_append_of_nil hlead run
  by_cases hnil : statementOf run = []
  · rw [ofRun_of_nil line' hnil, ofRun_of_nil line (hstatement.trans hnil)]
  · rw [ofRun_of_closed line' hclosed hnil, ofRun_of_closed line hclosed' (by rwa [hstatement]),
      hstatement]
    rfl

theorem written_ofBoundary (line line' : Nat) (b : Token) :
    (ofBoundary d line b).map Fragment.written = (ofBoundary d line' b).map Fragment.written := by
  unfold ofBoundary
  split <;> rfl

/-- Blanks and comments in front make no difference, and neither does the line. -/
theorem written_fragmentsAt_append (hclosed : ∀ t ∈ ts, t.isOpen = false) :
    ∀ lead line line', IsRun lead → statementOf lead = [] →
      (fragmentsAt d line (lead ++ ts)).map Fragment.written
        = (fragmentsAt d line' ts).map Fragment.written := by
  induction ts using runs_induction with
  | last run hrun =>
    intro lead line line' hlead hnil
    have hboth : IsRun (lead ++ run) := List.forall_mem_append.2 ⟨hlead, hrun⟩
    rw [fragmentsAt_run line hboth, fragmentsAt_run line' hrun]
    exact written_ofRun_append line line' hnil hclosed
  | cons run b ts hrun hb ih =>
    intro lead line line' hlead hnil
    have hboth : IsRun (lead ++ run) := List.forall_mem_append.2 ⟨hlead, hrun⟩
    have hrest := ih (fun t ht => hclosed t (List.mem_append_right _ (List.mem_cons_of_mem b ht))) []
      (line + newlines (lead ++ run ++ [b])) (line' + newlines (run ++ [b])) isRun_nil rfl
    rw [← List.append_assoc, fragmentsAt_append_cons line hboth hb,
      fragmentsAt_append_cons line' hrun hb]
    simp only [List.map_append]
    rw [written_ofRun_append line line' hnil fun t ht => hclosed t (List.mem_append_left _ ht),
      written_ofBoundary _ (line' + newlines run), ← hrest]
    rfl

end

/-! ## Tokens that stand by themselves -/

/-- What could not begin a directive line does not. -/
theorem read?_eq_none_of_not_mem {d : Dialect} {c : Char} (hc : c ∉ d.marker.toList)
    (cs : List Char) : DirectiveLine.read? d (c :: cs) = none := by
  cases hread : DirectiveLine.read? d (c :: cs) with
  | none => rfl
  | some l =>
    obtain ⟨x, argument, text, hsource, hform⟩ := exists_form_of_read? hread
    generalize l.rest = rest at hsource hform
    cases hform with
    | directive hmarker =>
      obtain ⟨m, ms, hms⟩ := List.exists_cons_of_ne_nil hmarker
      rw [hms] at hsource hc
      obtain ⟨rfl, -⟩ := List.cons.inj hsource
      exact absurd List.mem_cons_self hc

theorem tokenAt_newline {d : Dialect} (hd : d.Valid) (before : List Token) (rest : List Char) :
    TokenAt d before ⟨.lexeme .newline, ['\n']⟩ rest := by
  have hmarker : '\n' ∉ d.marker.toList := fun hmem => by
    have hvisible := hd.marker_visible _ hmem
    cases hvisible
  refine tokenAt_of_form .newline rfl ?_ fun _ => read?_eq_none_of_not_mem hmarker rest
  exact
    { newline := fun hrank => absurd hrank (by decide)
      blank := fun hrank => absurd hrank (by decide)
      lineComment := fun hrank => absurd hrank (by decide)
      blockComment := fun hrank => absurd hrank (by decide)
      literal := fun hrank => absurd hrank (by decide)
      terminator := fun hrank => absurd hrank (by decide) }

/-- A terminator before the end of a line opens no comment. -/
theorem tokenAt_terminator {d : Dialect} (hd : d.Valid) (before : List Token) (rest : List Char) :
    TokenAt d before ⟨.lexeme .terminator, [d.terminator]⟩ ('\n' :: rest) := by
  have hquote : ¬IsQuote d d.terminator := by
    have hnot := hd.terminator_not_quote
    simp only [Dialect.isQuote, Bool.or_eq_false_iff, beq_eq_false_iff_ne] at hnot
    rintro (hq | ⟨hq, -⟩)
    · exact hnot.1 hq
    · exact hnot.2 hq
  have hnewline : d.terminator ≠ '\n' := fun heq => by
    have hvisible := hd.terminator_visible
    rw [heq] at hvisible
    cases hvisible
  refine tokenAt_of_form .terminator rfl ?_ fun _ => read?_eq_none_of_not_mem hd.terminator_not_mem _
  exact
    { newline := fun _ => hnewline
      blank := fun _ => hd.terminator_visible
      lineComment := fun _ => by simp
      blockComment := fun _ => by simp
      literal := fun _ => hquote
      terminator := fun hrank => absurd hrank (by decide) }

/-! ## Statements -/

/-- Tokens that make up the same statement wherever a line ends behind them. -/
structure Freestanding (d : Dialect) (ts : List Token) : Prop where
  stands : ∀ rest, EndsLine rest → Stands d [] ts rest
  run : IsRun ts
  closed : ∀ t ∈ ts, t.isOpen = false
  first : ∃ t, ts.head? = some t ∧ t.isContent = true
  trimmed : Text.Trimmed (textOf ts)

namespace Freestanding

variable {d : Dialect} {ts : List Token}

theorem statementOf_eq (h : Freestanding d ts) : statementOf ts = ts ∧ ts ≠ [] := by
  obtain ⟨t, ht, hcontent⟩ := h.first
  obtain ⟨us, rfl⟩ := List.head?_eq_some_iff.1 ht
  refine ⟨?_, List.cons_ne_nil t us⟩
  rw [statementOf, List.dropWhile_cons_of_neg (by simp [hcontent])]

/-- Blanks behind the tokens are no part of the statement. -/
theorem written_ofRun (h : Freestanding d ts) (line : Nat) {us : List Token}
    (hus : ∀ u ∈ us, u.isOpen = false) (hblanks : Text.Blanks (textOf us)) :
    (ofRun line (ts ++ us)).map Fragment.written
      = [(.sql, String.ofList (textOf ts), String.ofList (textOf ts))] := by
  obtain ⟨hstatement, hne⟩ := h.statementOf_eq
  have hboth : statementOf (ts ++ us) = ts ++ us := by
    rw [(statementOf_append_of_ne_nil (by rwa [hstatement]) us).1, hstatement]
  have hclosed : ∀ t ∈ ts ++ us, t.isOpen = false := List.forall_mem_append.2 ⟨h.closed, hus⟩
  rw [ofRun_of_closed line hclosed (by rw [hboth]; simp [hne]), hboth, textOf_append,
    Text.trim_append_of_blanks _ hblanks, h.trimmed.trim_eq]
  rfl

/-- Alone they are a script of one statement. -/
theorem written_split (hd : d.Valid) (h : Freestanding d ts) :
    (Fragment.split d (String.ofList (textOf ts))).map Fragment.written
      = [(.sql, String.ofList (textOf ts), String.ofList (textOf ts))] := by
  have hseg : IsSegmentation d (String.ofList (textOf ts)).toList ts := by
    rw [String.toList_ofList]
    exact isSegmentation_iff_stands.2 ⟨rfl, h.stands [] nofun⟩
  have hwritten := h.written_ofRun 1 (List.forall_mem_nil _) (List.forall_mem_nil _)
  rw [List.append_nil] at hwritten
  rw [split_eq_fragmentsAt hd hseg, fragmentsAt_run 1 h.run, hwritten]

end Freestanding

section

variable {d : Dialect} {source : List Char} {tokens before run behind : List Token}

/-- A directive line that ends a statement stands behind blanks: it is at the start of its line. -/
theorem exists_blank_before_directive (hseg : IsSegmentation d source tokens) {b : Token}
    (hrun : RunOf tokens before run (b :: behind)) (hb : b.isDirective = true)
    (hcontent : ∃ t ∈ run, t.isContent = true) :
    ∃ cs c, textOf run = cs ++ [c] ∧ Text.isBlank c = true := by
  obtain ⟨htokens, hrun, hbefore, -⟩ := hrun
  obtain ⟨t, ht, hcontent⟩ := hcontent
  obtain ⟨us, u, rfl⟩ : ∃ us u, run = us ++ [u] :=
    ⟨run.dropLast, run.getLast (List.ne_nil_of_mem ht), (List.dropLast_append_getLast _).symm⟩
  have hat := hseg.2 (before ++ (us ++ [u])) b behind (by rw [htokens, List.append_assoc before])
  have hu := hseg.2 (before ++ us) u (b :: behind) (by simp [htokens])
  have hkind : u.kind = .lexeme .newline ∨ u.kind = .lexeme .blank := by
    rcases hat.candidate.admitted hb with hblank | hnone
    · by_cases hnewline : u.kind = .lexeme .newline
      · exact .inl hnewline
      · refine .inr (hblank u ?_)
        rw [← List.append_assoc, sinceLast_append, if_neg (by simpa using hnewline)]
        exact List.mem_cons_self
    · -- there is content since the last boundary
      rw [sinceLast_append_run hbefore hrun] at hnone
      rw [hnone t (List.mem_reverse.2 ht)] at hcontent
      cases hcontent
  obtain ⟨c, hc, hblank⟩ := hu.candidate.form.exists_blank hkind
  exact ⟨textOf us, c, by rw [textOf_append, textOf_singleton, hc], hblank⟩

/-- A statement ends where a word may end. -/
theorem endsWord_behind (hseg : IsSegmentation d source tokens) (hrun : RunOf tokens before run behind)
    (hcontent : ∃ t ∈ run, t.isContent = true) {w bs : List Char} (htext : textOf run = w ++ bs)
    (hlast : ∀ c, w.getLast? = some c → Text.isBlank c = false) (hbs : Text.Blanks bs) :
    EndsWord d (bs ++ textOf behind) := by
  intro c hc
  match bs, behind with
  | b :: bs, _ =>
    obtain rfl : b = c := Option.some.inj hc
    exact .inl (hbs b List.mem_cons_self)
  | [], [] => cases hc
  | [], b :: more =>
    cases hdirective : b.isDirective with
    | true =>
      obtain ⟨cs, c', htext', hblank⟩ :=
        exists_blank_before_directive hseg hrun hdirective hcontent
      rw [List.append_nil] at htext
      have hvisible := hlast c' (by rw [← htext, htext', List.getLast?_concat])
      rw [hblank] at hvisible
      cases hvisible
    | false =>
      have hterminator : b.kind = .lexeme .terminator := by
        have hboundary := hrun.ends b rfl
        unfold Token.isBoundary at hboundary
        rw [hdirective, Bool.false_or] at hboundary
        exact beq_iff_eq.1 hboundary
      have hat := hseg.2 (before ++ run) b more (by rw [hrun.tokens_eq, List.append_assoc])
      change (b.text ++ textOf more).head? = some c at hc
      rw [hat.candidate.form.text_of_terminator hterminator] at hc
      exact .inr (Option.some.inj hc).symm

theorem stands_statementOf (hseg : IsSegmentation d source tokens)
    (hrun : RunOf tokens before run behind) :
    Stands d (before ++ leadOf run) (statementOf run) (textOf behind) := by
  have hall := (isSegmentation_iff_stands.1 hseg).2
  have hsplit : tokens = (before ++ leadOf run) ++ (statementOf run ++ behind) := by
    rw [hrun.tokens_eq, List.append_assoc, ← List.append_assoc (leadOf run), leadOf_append_statementOf]
  rw [hsplit, Stands.append_iff] at hall
  have hrest := (Stands.append_iff.1 hall.2).1
  rwa [List.append_nil] at hrest

/-- A statement of a script stands by itself. -/
theorem exists_freestanding (hd : d.Valid) (hterminator : d.terminator.isAlpha = false)
    (hseg : IsSegmentation d source tokens) (hrun : RunOf tokens before run behind)
    (hclosed : ∀ t ∈ run, t.isOpen = false) (hne : statementOf run ≠ []) :
    ∃ ts, Freestanding d ts ∧ textOf ts = Text.trim (textOf (statementOf run)) := by
  obtain ⟨htext, hvisible⟩ := hseg.visible_statement hd hrun.tokens_eq hne
  obtain ⟨bs, hbs, hsplit, hleft, htrimmed⟩ := Text.exists_trim_append htext hvisible
  obtain ⟨t, hmem, hhead, hcontent⟩ := exists_first_content hclosed hne
  -- as part of the whole run, what is left ends the same way
  have hends : EndsWord d (bs ++ textOf behind) := by
    have hwhole : textOf run
        = (textOf (leadOf run) ++ Text.trim (textOf (statementOf run))) ++ bs := by
      rw [List.append_assoc, hsplit, ← textOf_append, leadOf_append_statementOf]
    refine endsWord_behind hseg hrun ⟨t, hmem, hcontent⟩ hwhole (fun c hc => ?_) hbs
    rw [List.getLast?_append_of_ne_nil _ hleft] at hc
    exact htrimmed.last c hc
  have hclosed' : ∀ u ∈ statementOf run, u.isOpen = false := fun u hu =>
    hclosed u ((List.dropWhile_sublist _).subset hu)
  obtain ⟨ts, hts, hrunts, hclosedts, hfirst, hstands⟩ := (stands_statementOf hseg hrun).exists_trim hd
    hterminator hrun.isRun.parts.2 hclosed' hsplit.symm htrimmed.last hbs hends
  have hnone := nothing_pending_leadOf hrun.isRun hrun.starts
  refine ⟨ts, ?_, hts⟩
  exact
    { stands := fun rest hrest => (Stands.restart_iff hnone).1 (hstands rest hrest)
      run := hrunts
      closed := hclosedts
      first := ⟨t, hfirst hleft t hhead hcontent, hcontent⟩
      trimmed := hts ▸ htrimmed }

end

/-! ## Rendered fragments -/

/-- Tokens that make up the rendering of a fragment, and nothing else, wherever they stand. -/
structure Renders (d : Dialect) (f : Fragment) (ts : List Token) : Prop where
  text_eq : textOf ts = (f.render d).toList
  stands : ∀ rest, Stands d [] ts rest
  closed : ∀ t ∈ ts, t.isOpen = false
  nothing_pending : ∀ t ∈ sinceLast Token.isBoundary ts, t.isContent = false
  written : ∀ line us, (∀ u ∈ us, u.isOpen = false) →
    (fragmentsAt d line (ts ++ us)).map Fragment.written
      = f.written :: (fragmentsAt d line us).map Fragment.written

section

variable {d : Dialect} {f : Fragment} {ts : List Token}

/-- The newline that ends a rendering. -/
def newlineToken : Token := ⟨.lexeme .newline, ['\n']⟩

theorem isRun_newline : IsRun [newlineToken] := by
  simp [IsRun, newlineToken, Token.isBoundary, Token.isDirective]

theorem renders_of_freestanding (hd : d.Valid) (h : Freestanding d ts) (hkind : f.kind = .sql)
    (htext : f.text = String.ofList (textOf ts)) (hraw : f.raw = f.text) :
    Renders d f (ts ++ [newlineToken, ⟨.lexeme .terminator, [d.terminator]⟩, newlineToken]) where
  text_eq := by
    have hrender : f.render d = f.text ++ "\n" ++ String.singleton d.terminator ++ "\n" := by
      unfold Fragment.render
      rw [hkind]
    rw [hrender, htext, textOf_append]
    simp [textOf, newlineToken]
  stands rest := by
    refine Stands.append_iff.2 ⟨h.stands _ ?_, .cons ?_ (.cons ?_ (.cons ?_ (.nil _ _)))⟩
    · intro c hc
      exact (Option.some.inj hc).symm
    · exact tokenAt_newline hd _ _
    · exact tokenAt_terminator hd _ rest
    · exact tokenAt_newline hd _ _
  closed t ht := by
    rcases List.mem_append.1 ht with ht | ht
    · exact h.closed t ht
    · simp only [List.mem_cons, List.not_mem_nil, or_false] at ht
      rcases ht with rfl | rfl | rfl <;> rfl
  nothing_pending t ht := by
    rw [List.append_cons ts, List.append_cons _ _ [newlineToken],
      sinceLast_append_run (sinceLast_append_boundary _ rfl) isRun_newline] at ht
    rw [List.mem_singleton.1 ht]
    rfl
  written line us hus := by
    have hrun : IsRun (ts ++ [newlineToken]) := List.forall_mem_append.2 ⟨h.run, isRun_newline⟩
    have hline : Text.Blanks (textOf [newlineToken]) := by
      intro c hc
      obtain rfl : c = '\n' := List.mem_singleton.1 hc
      decide
    -- the newline before the terminator belongs to the statement, the one behind it to the next run
    rw [List.append_assoc]
    show (fragmentsAt d line (ts ++ ([newlineToken] ++ (_ :: ([newlineToken] ++ us))))).map _ = _
    rw [← List.append_assoc ts, fragmentsAt_append_cons line hrun rfl, List.map_append, List.map_append,
      h.written_ofRun line (by simp [newlineToken, Token.isOpen]) hline,
      written_fragmentsAt_append hus [newlineToken] _ line isRun_newline rfl]
    unfold Fragment.written
    rw [hkind, hraw, htext]
    rfl

/-- Without the blanks at its end, a directive line is still one, before the end of a line. -/
theorem exists_form_of_form (hd : d.Valid) {x : Directive} {argument text rest : List Char}
    (hform : Token.Form d ⟨.directive x argument, text⟩ rest) :
    ∃ argument' text', Text.Trimmed text' ∧ Text.trim text = text' ∧
      DirectiveLine.argument d argument' = DirectiveLine.argument d argument ∧
      ∀ rest', Token.Form d ⟨.directive x argument', text'⟩ ('\n' :: rest') := by
  cases hform with
  | @directive _ word _ _ hmarker hword hkeyword hends hline =>
    obtain ⟨bs, hbs, hsplit⟩ := Text.exists_trimRight_append argument
    have hlast := Text.last_trimRight argument
    generalize Text.trimRight argument = argument' at hsplit hlast
    subst hsplit
    have hwordne : word ≠ [] := by
      rintro rfl
      cases x <;> simp [Directive.keyword] at hkeyword
    have htrimmed : Text.Trimmed (d.marker.toList ++ word ++ argument') := by
      constructor
      · intro c hc
        obtain ⟨m, ms, hms⟩ := List.exists_cons_of_ne_nil hmarker
        rw [hms] at hc
        obtain rfl : m = c := Option.some.inj hc
        exact hd.marker_visible m (hms ▸ List.mem_cons_self)
      · intro c hc
        by_cases hnil : argument' = []
        · -- the keyword is the last thing on the line
          rw [hnil, List.append_nil, List.getLast?_append_of_ne_nil _ hwordne] at hc
          have hletter := hword c (List.mem_of_getLast? hc)
          rw [Bool.eq_false_iff]
          intro hblank
          rw [isAlpha_eq_false_of_isBlank hblank] at hletter
          cases hletter
        · rw [List.getLast?_append_of_ne_nil _ hnil] at hc
          exact hlast c hc
    have hargument :
        DirectiveLine.argument d argument' = DirectiveLine.argument d (argument' ++ bs) := by
      unfold DirectiveLine.argument
      rw [Text.trim_append_of_blanks _ hbs]
    refine ⟨argument', d.marker.toList ++ word ++ argument', htrimmed, ?_, hargument, fun rest' => ?_⟩
    · rw [← List.append_assoc, Text.trim_append_of_blanks _ hbs, htrimmed.trim_eq]
    · refine .directive hmarker hword hkeyword (fun c hc => ?_)
        (fun hmem => hline (List.mem_append_left bs hmem)) fun c hc => (Option.some.inj hc).symm
      cases argument' with
      | nil =>
        obtain rfl : '\n' = c := Option.some.inj hc
        exact ⟨rfl, .inl (by decide)⟩
      | cons c' cs => exact hends c hc

theorem exists_renders_of_form (hd : d.Valid) {x : Directive} {argument text rest : List Char}
    (hform : Token.Form d ⟨.directive x argument, text⟩ rest) (hkind : f.kind = .directive x)
    (htext : f.text = String.ofList (DirectiveLine.argument d argument))
    (hraw : f.raw = String.ofList (Text.trim text)) : ∃ ts, Renders d f ts := by
  obtain ⟨argument', text', htrimmed, htrim, hargument, hform'⟩ := exists_form_of_form hd hform
  have hrender : f.render d = f.raw ++ "\n" := by
    unfold Fragment.render
    rw [hkind]
  refine ⟨[⟨.directive x argument', text'⟩, newlineToken], ?_⟩
  exact
    { text_eq := by
        rw [hrender, hraw, htrim]
        simp [textOf, newlineToken]
      stands := fun rest' => by
        refine .cons ⟨⟨hform' rest', fun _ => mayStartDirective_nil⟩, fun _ _ => Nat.zero_le _⟩
          (.cons (tokenAt_newline hd _ _) (.nil _ _))
      closed := by simp [newlineToken, Token.isOpen]
      nothing_pending := by
        show ∀ t ∈ sinceLast Token.isBoundary (([] ++ [_]) ++ [newlineToken]), _
        rw [sinceLast_append_run (sinceLast_append_boundary [] rfl) isRun_newline]
        simp [newlineToken, Token.isContent]
      written := fun line us hus => by
        have hboundary : (ofBoundary d line ⟨.directive x argument', text'⟩).map Fragment.written
            = [f.written] := by
          unfold Fragment.written
          rw [hkind, htext, hraw, ← hargument, htrim, ← htrimmed.trim_eq]
          simp only [ofBoundary, List.map_singleton, htrimmed.trim_eq]
          rfl
        show (fragmentsAt d line ([] ++ _ :: ([newlineToken] ++ us))).map _ = _
        rw [fragmentsAt_append_cons line isRun_nil rfl, List.map_append, List.map_append,
          written_ofBoundary _ line, hboundary,
          written_fragmentsAt_append hus [newlineToken] _ line isRun_newline rfl]
        rfl }

theorem exists_tokens_of_renders {fs : List Fragment} (h : ∀ f ∈ fs, ∃ ts, Renders d f ts) :
    ∃ ts, textOf ts = fs.flatMap (fun f => (f.render d).toList) ∧ Stands d [] ts [] ∧
      (∀ t ∈ ts, t.isOpen = false) ∧
      ∀ line, (fragmentsAt d line ts).map Fragment.written = fs.map Fragment.written := by
  induction fs with
  | nil =>
    refine ⟨[], rfl, .nil _ _, List.forall_mem_nil _, fun line => ?_⟩
    rw [fragmentsAt_run line isRun_nil]
    rfl
  | cons f fs ih =>
    obtain ⟨ts, hts⟩ := h f List.mem_cons_self
    obtain ⟨us, htext, hstands, hclosed, hwritten⟩ := ih fun g hg => h g (List.mem_cons_of_mem f hg)
    refine ⟨ts ++ us, ?_, ?_, ?_, fun line => ?_⟩
    · rw [textOf_append, hts.text_eq, htext, List.flatMap_cons]
    · exact Stands.append_iff.2 ⟨hts.stands _, (Stands.restart_iff hts.nothing_pending).2 hstands⟩
    · exact List.forall_mem_append.2 ⟨hts.closed, hclosed⟩
    · rw [hts.written line us hclosed, hwritten, List.map_cons]

end

/-! ## Scripts -/

section

variable {d : Dialect} {source : List Char} {tokens : List Token} {f : Fragment} {line : Nat}
  (hd : d.Valid) (hterminator : d.terminator.isAlpha = false) (hseg : IsSegmentation d source tokens)
  (hf : f ∈ fragmentsAt d line tokens)

include hd hterminator hseg hf

/-- Every statement of a script stands by itself. -/
theorem exists_freestanding_of_mem (hkind : f.kind = .sql) :
    ∃ ts, Freestanding d ts ∧ f.text = String.ofList (textOf ts) ∧ f.raw = f.text := by
  rcases mem_fragmentsAt tokens [] line rfl rfl hf with
    ⟨before, run, behind, line', hrun, hf⟩ | ⟨before, b, behind, line', -, hf⟩
  · by_cases hne : statementOf run = []
    · rw [ofRun_of_nil line' hne] at hf
      cases hf
    · rcases hseg.closed_or_open hrun.tokens_eq with hclosed | ⟨us, t, rfl, -, hclosed, hopen⟩
      · obtain ⟨ts, hts, htext⟩ := exists_freestanding hd hterminator hseg hrun hclosed hne
        rw [ofRun_of_closed line' hclosed hne] at hf
        rw [List.mem_singleton.1 hf]
        exact ⟨ts, hts, by rw [htext], rfl⟩
      · obtain ⟨error, hfault⟩ := ofRun_of_open line' hclosed hopen
        rw [hfault] at hf
        rw [List.mem_singleton.1 hf] at hkind
        cases hkind
  · unfold ofBoundary at hf
    split at hf
    · rw [List.mem_singleton.1 hf] at hkind
      cases hkind
    · cases hf

theorem exists_renders_of_mem (hfault : ∀ error, f.kind ≠ .fault error) : ∃ ts, Renders d f ts := by
  cases hkind : f.kind with
  | sql =>
    obtain ⟨ts, hts, htext, hraw⟩ := exists_freestanding_of_mem hd hterminator hseg hf hkind
    exact ⟨_, renders_of_freestanding hd hts hkind htext hraw⟩
  | fault error => exact absurd hkind (hfault error)
  | directive x =>
    rcases mem_fragmentsAt tokens [] line rfl rfl hf with
      ⟨before, run, behind, line', -, hf⟩ | ⟨before, b, behind, line', htokens, hf⟩
    · -- a run has no directive
      have hnot : f.kind ≠ .directive x := by
        unfold ofRun at hf
        dsimp only at hf
        split at hf
        · cases hf
        · split at hf <;> rw [List.mem_singleton.1 hf] <;> exact nofun
      exact absurd hkind hnot
    · have hform := (hseg.2 before b behind htokens).candidate.form
      obtain ⟨⟨y, argument⟩ | k, text⟩ := b
      · obtain rfl := List.mem_singleton.1 hf
        obtain rfl : y = x := FragmentKind.directive.inj hkind
        exact exists_renders_of_form hd hform rfl rfl rfl
      · cases hf

end

/-- Where no construct is left open and the terminator is no letter, the fragments of a script, written
down one behind the other, are split into themselves, their lines apart; and the text of a statement is a
script with that statement. -/
theorem split_render_split {d : Dialect} (hd : d.validate = .ok d)
    (hterminator : d.terminator.isAlpha = false) (source : String)
    (hclosed : ∀ f ∈ Fragment.split d source, ∀ error, f.kind ≠ .fault error) :
    let fragments := Fragment.split d source
    let rendered := String.join (fragments.map (Fragment.render d))
    (Fragment.split d rendered).map Fragment.written = fragments.map Fragment.written ∧
      ∀ f ∈ fragments, f.kind = .sql → (Fragment.split d f.text).map Fragment.written = [f.written] := by
  intro fragments rendered
  have hvalid : d.Valid := (Dialect.validate_eq_ok_iff.1 hd).1
  obtain ⟨tokens, hseg⟩ := exists_isSegmentation d source.toList
  have hfragments : fragments = fragmentsAt d 1 tokens := split_eq_fragmentsAt hvalid hseg
  rw [show Fragment.split d source = fragments from rfl, hfragments] at hclosed
  rw [hfragments]
  constructor
  · obtain ⟨ts, htext, hstands, -, hwritten⟩ := exists_tokens_of_renders fun f hf =>
      exists_renders_of_mem hvalid hterminator hseg hf (hclosed f hf)
    have hrendered : textOf ts = rendered.toList := by
      unfold rendered
      rw [hfragments, htext, String.toList_join, List.flatMap_map]
    rw [split_eq_fragmentsAt hvalid (isSegmentation_iff_stands.2 ⟨hrendered, hstands⟩), hwritten]
  · intro f hf hkind
    obtain ⟨ts, hts, htext, hraw⟩ := exists_freestanding_of_mem hvalid hterminator hseg hf hkind
    rw [htext, hts.written_split hvalid]
    unfold Fragment.written
    rw [hkind, hraw, htext]

/-- A statement that ends in a line comment, before a directive line with blanks and terminators. -/
theorem split_render_split_of_comment :
    let d : Dialect := {}
    let source := "SELECT 1 -- one  \n  --if x ;; \n SELECT 2;"
    let fragments := Fragment.split d source
    let rendered := String.join (fragments.map (Fragment.render d))
    d.validate = .ok d ∧ d.terminator.isAlpha = false ∧
      fragments.map Fragment.kind = [.sql, .directive .ifThen, .sql] ∧
      (∀ f ∈ fragments, ∀ error, f.kind ≠ .fault error) ∧
      (Fragment.split d rendered).map Fragment.written = fragments.map Fragment.written ∧
      ∀ f ∈ fragments, f.kind = .sql →
        (Fragment.split d f.text).map Fragment.written = [f.written] := by
  intro d source fragments rendered
  have hd : d.validate = .ok d := by decide
  have hterminator : d.terminator.isAlpha = false := by decide
  have hkinds : fragments.map Fragment.kind = [.sql, .directive .ifThen, .sql] := by decide +kernel
  have hclosed : ∀ f ∈ fragments, ∀ error, f.kind ≠ .fault error := by
    intro f hf error
    have hmem := List.mem_map_of_mem (f := Fragment.kind) hf
    rw [hkinds] at hmem
    intro hkind
    simp [hkind] at hmem
  exact ⟨hd, hterminator, hkinds, hclosed, split_render_split hd hterminator source hclosed⟩

end SqlFlow
