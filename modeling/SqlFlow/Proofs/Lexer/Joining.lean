import SqlFlow.Proofs.Lexer.Rendering

/-!
# Scripts one behind the other

A script whose last line is ended, and a terminator on a line of its own behind it, leave nothing open: what
follows is split as if it stood alone, further down.

* `SyntaxError.below`, `Fragment.below`: an error and a fragment further down.
* `fragmentsAt_below`, `fragmentsAt_lead`, `fragmentsAt_terminator`: the fragments of tokens further down, of
  tokens behind blanks and comments, and of tokens on both sides of a terminator.
* `isOpen_eq_false_of_mem`: where no fragment is a fault, every construct ends.
* `TokenAt.replace_line`, `Stands.extend`: tokens do not look behind the end of their line.
-/

namespace SqlFlow

open Source

/-! ## Further down -/

/-- The same error `n` lines further down. -/
def SyntaxError.below (n : Nat) : SyntaxError → SyntaxError
  | unterminatedLiteral line quote => unterminatedLiteral (line + n) quote
  | unterminatedComment line => unterminatedComment (line + n)
  | unmatched line directive expected => unmatched (line + n) directive expected
  | unclosed line directive => unclosed (line + n) directive
  | afterElse line directive => afterElse (line + n) directive
  | missingCondition line directive => missingCondition (line + n) directive
  | openTransaction line directive beginLine => openTransaction (line + n) directive (beginLine + n)

def FragmentKind.below (n : Nat) : FragmentKind → FragmentKind
  | fault error => fault (error.below n)
  | sql => sql
  | directive x => directive x

/-- The same fragment `n` lines further down. -/
def Fragment.below (n : Nat) (f : Fragment) : Fragment :=
  { f with kind := f.kind.below n, line := f.line + n }

theorem SyntaxError.line_below (n : Nat) (error : SyntaxError) :
    (error.below n).line = error.line + n := by
  cases error <;> rfl

theorem fault?_below (n : Nat) (line : Nat) (run : List Token) :
    fault? (line + n) run = (fault? line run).map (SyntaxError.below n) := by
  induction run generalizing line with
  | nil => rfl
  | cons t run ih =>
    have hrest : fault? (line + n + newlines [t]) run
        = (fault? (line + newlines [t]) run).map (SyntaxError.below n) := by
      rw [show line + n + newlines [t] = line + newlines [t] + n by omega]
      exact ih _
    unfold fault?
    split
    · rfl
    · rfl
    · exact hrest

section

variable {d : Dialect} {lead run ts us : List Token} {b : Token}

theorem ofRun_below (n line : Nat) (run : List Token) :
    ofRun (line + n) run = (ofRun line run).map (Fragment.below n) := by
  unfold ofRun
  dsimp only
  split
  · rfl
  · rw [fault?_below]
    cases fault? line run with
    | none =>
      show [_] = [_]
      rw [show line + n + newlines (leadOf run) = line + newlines (leadOf run) + n by omega]
      rfl
    | some error =>
      show [_] = [_]
      rw [SyntaxError.line_below]
      rfl

theorem ofBoundary_below (n line : Nat) (b : Token) :
    ofBoundary d (line + n) b = (ofBoundary d line b).map (Fragment.below n) := by
  unfold ofBoundary
  split <;> rfl

theorem fragmentsFrom_below (n line : Nat) (run : List Token) (more : List (Token × List Token)) :
    fragmentsFrom d (line + n) run more = (fragmentsFrom d line run more).map (Fragment.below n) := by
  induction more generalizing line run with
  | nil => exact ofRun_below n line run
  | cons next more ih =>
    obtain ⟨b, next⟩ := next
    have hrest := ih (line + newlines (run ++ [b])) next
    rw [Nat.add_right_comm] at hrest
    rw [fragmentsFrom, fragmentsFrom, List.map_append, List.map_append, ← ofRun_below,
      ← ofBoundary_below, ← hrest, Nat.add_right_comm]

/-- Tokens further down make up the same fragments further down. -/
theorem fragmentsAt_below (n line : Nat) (ts : List Token) :
    fragmentsAt d (line + n) ts = (fragmentsAt d line ts).map (Fragment.below n) :=
  fragmentsFrom_below n line _ _

/-! ## Blanks and comments in front, and terminators in between -/

theorem ofRun_lead (line : Nat) (hnil : statementOf lead = []) :
    ofRun line (lead ++ run) = ofRun (line + newlines lead) run := by
  obtain ⟨hstatement, hlead⟩ := statementOf_append_of_nil hnil run
  have hclosed : ∀ t ∈ lead, t.isOpen = false := fun t ht => (statementOf_eq_nil_iff.1 hnil t ht).2
  unfold ofRun
  rw [hstatement, hlead, fault?_append_of_closed line hclosed, newlines_append, Nat.add_assoc]

theorem runs_append_of_isRun (h : IsRun lead) (ts : List Token) :
    runs (lead ++ ts) = (lead ++ (runs ts).1, (runs ts).2) := by
  induction lead with
  | nil => rfl
  | cons t lead ih =>
    obtain ⟨ht, hlead⟩ := List.forall_mem_cons.1 h
    rw [List.cons_append, runs_cons_of_not_boundary ht, ih hlead]
    rfl

/-- Blanks and comments in front of tokens only move them down. -/
theorem fragmentsAt_lead (line : Nat) (h : IsRun lead) (hnil : statementOf lead = [])
    (ts : List Token) : fragmentsAt d line (lead ++ ts) = fragmentsAt d (line + newlines lead) ts := by
  unfold fragmentsAt
  rw [runs_append_of_isRun h]
  generalize (runs ts).1 = run
  cases (runs ts).2 with
  | nil => exact ofRun_lead line hnil
  | cons next more =>
    show ofRun line (lead ++ run) ++ _ ++ _ = ofRun (line + newlines lead) run ++ _ ++ _
    rw [ofRun_lead line hnil, List.append_assoc lead, newlines_append, newlines_append lead,
      ← Nat.add_assoc, ← Nat.add_assoc]

/-- A terminator between tokens keeps them apart, and is no fragment itself. -/
theorem fragmentsAt_terminator (line : Nat) (hkind : b.kind = .lexeme .terminator)
    (hnewlines : newlines [b] = 0) (ts us : List Token) :
    fragmentsAt d line (ts ++ b :: us)
      = fragmentsAt d line ts ++ fragmentsAt d (line + newlines ts) us := by
  have hb : b.isBoundary = true := by
    unfold Token.isBoundary
    rw [hkind]
    exact Bool.or_true _
  have hnone : ∀ line, ofBoundary d line b = [] := by
    intro line
    unfold ofBoundary
    rw [hkind]
  induction ts using runs_induction generalizing line with
  | last run hrun =>
    rw [fragmentsAt_append_cons line hrun hb, fragmentsAt_run line hrun, hnone, List.append_nil,
      newlines_append, hnewlines, Nat.add_zero]
  | cons run b' ts hrun hb' ih =>
    rw [List.append_assoc, List.cons_append, fragmentsAt_append_cons line hrun hb',
      fragmentsAt_append_cons line hrun hb', ih, ← List.append_assoc]
    have hlines : newlines (run ++ b' :: ts) = newlines (run ++ [b']) + newlines ts := by
      rw [← newlines_append, List.append_assoc]
      rfl
    rw [hlines, ← Nat.add_assoc]

end

/-! ## Constructs that end -/

section

variable {d : Dialect} {source : List Char} {tokens : List Token}

theorem isOpen_eq_false_of_isBoundary {b : Token} (hb : b.isBoundary = true) : b.isOpen = false := by
  obtain ⟨⟨x, argument⟩ | k, text⟩ := b
  · rfl
  · cases k with
    | openComment | openLiteral => cases hb
    | newline | blank | comment | literal | terminator | content => rfl

/-- Where no fragment is a fault, every construct ends. -/
theorem isOpen_eq_false_of_mem (hseg : IsSegmentation d source tokens) :
    ∀ ts before line, tokens = before ++ ts →
      (∀ f ∈ fragmentsAt d line ts, ∀ error, f.kind ≠ .fault error) →
      ∀ t ∈ ts, t.isOpen = false := by
  intro ts
  induction ts using runs_induction with
  | last run hrun =>
    intro before line htokens hfault
    rw [fragmentsAt_run line hrun] at hfault
    rw [← List.append_nil run] at htokens
    rcases hseg.closed_or_open htokens with hclosed | ⟨us, t, rfl, -, hclosed, hopen⟩
    · exact hclosed
    · obtain ⟨error, hfragment⟩ := ofRun_of_open line hclosed hopen
      rw [hfragment] at hfault
      exact absurd rfl (hfault _ List.mem_cons_self error)
  | cons run b ts hrun hb ih =>
    intro before line htokens hfault
    rw [fragmentsAt_append_cons line hrun hb] at hfault
    have hrest := ih (before ++ run ++ [b]) (line + newlines (run ++ [b])) (by simp [htokens])
      fun f hf => hfault f (List.mem_append_right _ hf)
    refine List.forall_mem_append.2 ⟨?_, ?_⟩
    · -- the boundary stands behind the run, so the run has no construct that does not end
      rcases hseg.closed_or_open htokens with hclosed | ⟨us, t, -, hnil, -⟩
      · exact hclosed
      · cases hnil
    · exact List.forall_mem_cons.2 ⟨isOpen_eq_false_of_isBoundary hb, hrest⟩

end

/-! ## Behind the end of a line -/

section

variable {d : Dialect} {before ts : List Token} {t : Token} {ws rest rest' : List Char}

/-- What stands behind the end of a line may be replaced. -/
theorem TokenAt.replace_line (hd : d.Valid) (h : TokenAt d before t (ws ++ '\n' :: rest))
    (hopen : t.isOpen = false) (rest' : List Char) : TokenAt d before t (ws ++ '\n' :: rest') := by
  have hnewline : Text.isBlank '\n' = true := by decide
  have hhead : ∀ {rest : List Char} {c : Char}, ('\n' :: rest).head? = some c → c = '\n' :=
    fun hc => (Option.some.inj hc).symm
  cases hdirective : t.isDirective with
  | false =>
    apply h.replace hd hdirective hopen
    · intro c hc
      rw [hhead hc]
      decide
    · intro c hc
      rw [hhead hc]
      exact .inl hnewline
    · intro c hc
      exact hhead hc
  | true =>
    have hmay := h.candidate.admitted hdirective
    have hlike : BeginsLike (ws ++ '\n' :: rest) (ws ++ '\n' :: rest') :=
      .append (.cons '\n' rest rest') ws
    refine ⟨⟨h.candidate.form.replace hopen hlike, fun _ => hmay⟩, fun _ _ => ?_⟩
    obtain ⟨⟨x, argument⟩ | k, text⟩ := t
    · exact Nat.zero_le _
    · cases hdirective

/-- The only token that ends in a newline is a newline. -/
theorem TokenAt.eq_newline (hd : d.Valid) (h : TokenAt d before t rest) (hopen : t.isOpen = false)
    (hlast : t.text.getLast? = some '\n') : t = newlineToken := by
  have hmem : '\n' ∈ t.text := List.mem_of_getLast? hlast
  have hboundary : t.isBoundary = true → False := fun hb => by
    have hnone := newlines_boundary hd h.candidate.form hb
    rw [newlines_singleton, List.count_eq_zero] at hnone
    exact hnone hmem
  -- a blank or content of one character would have been read as a newline
  have hone : 1 < t.kind.rank → t.text = ['\n'] → False := fun hrank htext => by
    have hsource : t.text ++ rest = '\n' :: rest := by rw [htext, List.singleton_append]
    exact h.ne_newline hsource hrank rfl
  have hform := h.candidate.form
  clear h
  cases hform with
  | directive | terminator => exact (hboundary rfl).elim
  | newline => rfl
  | blank | content =>
    obtain rfl := Option.some.inj hlast
    exact (hone (by decide) rfl).elim
  | lineComment hline =>
    simp at hmem
    exact absurd hmem hline
  | blockComment hread hfirst =>
    obtain ⟨b, hb⟩ := exists_append_of_commentBody? (commentBody?_of_first hread hfirst)
    rw [hb, ← List.append_assoc, List.getLast?_append_of_ne_nil _ (List.cons_ne_nil _ _)] at hlast
    cases hlast
  | @literal quote body _ hquote =>
    rw [← List.cons_append, List.getLast?_concat] at hlast
    obtain rfl := Option.some.inj hlast
    simp [IsQuote] at hquote
  | openComment | openLiteral => cases hopen

/-- Tokens up to the end of a line stand before anything. -/
theorem Stands.extend (hd : d.Valid) (h : Stands d before ts []) (hclosed : ∀ t ∈ ts, t.isOpen = false)
    (hends : ∀ c, (textOf ts).getLast? = some c → c = '\n') (rest : List Char) :
    Stands d before ts rest := by
  generalize hnil : ([] : List Char) = behind at h
  induction h with
  | nil => exact .nil _ _
  | @cons before ts t _ h _ ih =>
    subst hnil
    obtain ⟨ht, hts⟩ := List.forall_mem_cons.1 hclosed
    have htext : textOf (t :: ts) = t.text ++ textOf ts := rfl
    rw [htext] at hends
    rw [List.append_nil] at h
    cases hlast : (textOf ts).getLast? with
    | none =>
      -- nothing is written behind the token, so it is the newline at the end
      rw [List.getLast?_eq_none_iff] at hlast
      have hrest := ih hts (by simp [hlast]) rfl
      rw [hlast] at h hends
      rw [List.append_nil] at hends
      have hne := h.candidate.form.text_ne_nil
      obtain ⟨c, hc⟩ : ∃ c, t.text.getLast? = some c := Option.isSome_iff_exists.1 (by simpa using hne)
      obtain rfl := hends c hc
      obtain rfl := h.eq_newline hd ht hc
      exact .cons (tokenAt_newline hd _ _) hrest
    | some c =>
      have hc : c = '\n' := hends c (by rw [List.getLast?_append, hlast]; rfl)
      subst hc
      obtain ⟨ws, hws⟩ := List.getLast?_eq_some_iff.1 hlast
      have hrest := ih hts (fun c' hc' => Option.some.inj (hc'.symm.trans hlast)) rfl
      apply Stands.cons _ hrest
      rw [hws] at h ⊢
      rw [List.append_assoc]
      exact h.replace_line hd ht rest

end

/-! ## Scripts -/

/-- A script that ends its last line, a terminator on a line of its own, and another script: the fragments
are those of the one, and those of the other as many lines further down as there are in front of it. -/
theorem split_append_terminator_line {d : Dialect} (hd : d.validate = .ok d) {a : String}
    (hends : a = "" ∨ ∃ a', a = a' ++ "\n")
    (hclosed : ∀ f ∈ Fragment.split d a, ∀ error, f.kind ≠ .fault error) (b : String) :
    Fragment.split d (a ++ String.singleton d.terminator ++ "\n" ++ b)
      = Fragment.split d a
        ++ (Fragment.split d b).map (Fragment.below (a.toList.count '\n' + 1)) := by
  have hvalid : d.Valid := (Dialect.validate_eq_ok_iff.1 hd).1
  obtain ⟨ts, hts⟩ := exists_isSegmentation d a.toList
  obtain ⟨us, hus⟩ := exists_isSegmentation d b.toList
  rw [split_eq_fragmentsAt hvalid hts] at hclosed ⊢
  rw [split_eq_fragmentsAt hvalid hus]
  have hopen := isOpen_eq_false_of_mem hts ts [] 1 rfl hclosed
  let terminator : Token := ⟨.lexeme .terminator, [d.terminator]⟩
  have hlast : ∀ c, (textOf ts).getLast? = some c → c = '\n' := by
    intro c hc
    rw [hts.1] at hc
    rcases hends with rfl | ⟨a', rfl⟩
    · cases hc
    · rw [String.toList_append, show "\n".toList = ['\n'] from rfl, List.getLast?_concat] at hc
      exact (Option.some.inj hc).symm
  have htext : textOf (ts ++ terminator :: newlineToken :: us)
      = (a ++ String.singleton d.terminator ++ "\n" ++ b).toList := by
    rw [textOf_append, hts.1, show textOf (terminator :: newlineToken :: us)
      = d.terminator :: '\n' :: textOf us from rfl, hus.1]
    simp
  -- nothing is pending behind the terminator, so the second script begins as if it stood alone
  have hnone : ∀ t ∈ sinceLast Token.isBoundary (ts ++ [terminator] ++ [newlineToken]),
      t.isContent = false := by
    rw [sinceLast_append_run (sinceLast_append_boundary ts rfl) isRun_newline]
    simp [newlineToken, Token.isContent]
  have hstands : Stands d [] (ts ++ terminator :: newlineToken :: us) [] := by
    rw [Stands.append_iff]
    constructor
    · exact Stands.extend hvalid (isSegmentation_iff_stands.1 hts).2 hopen hlast _
    · apply Stands.cons
      · exact tokenAt_terminator hvalid _ _
      · apply Stands.cons
        · exact tokenAt_newline hvalid _ _
        · exact (Stands.restart_iff hnone).2 (isSegmentation_iff_stands.1 hus).2
  have hform : terminator.Form d [] := .terminator
  have hnewlines : newlines [terminator] = 0 := newlines_boundary hvalid hform rfl
  rw [split_eq_fragmentsAt hvalid (isSegmentation_iff_stands.2 ⟨htext, hstands⟩),
    fragmentsAt_terminator 1 rfl hnewlines, show newlineToken :: us = [newlineToken] ++ us from rfl,
    fragmentsAt_lead _ isRun_newline rfl, Nat.add_assoc, fragmentsAt_below]
  show _ ++ (fragmentsAt d 1 us).map (Fragment.below ((textOf ts).count '\n' + 1)) = _
  rw [hts.1]

/-- A terminator that could begin a comment, behind a directive line, and a literal that does not end. -/
theorem split_append_dash_line :
    let d : Dialect := { marker := "#", terminator := '-' }
    d.validate = .ok d ∧ (∃ a', "A -- a\n#if B-\n" = a' ++ "\n") ∧
      (Fragment.split d "A -- a\n#if B-\n").map Fragment.kind = [.sql, .directive .ifThen] ∧
      (∀ f ∈ Fragment.split d "A -- a\n#if B-\n", ∀ error, f.kind ≠ .fault error) ∧
      Fragment.split d "A -- a\n#if B-\n-\nC\n'D"
        = Fragment.split d "A -- a\n#if B-\n" ++ (Fragment.split d "C\n'D").map (Fragment.below 3) := by
  intro d
  have hd : d.validate = .ok d := by decide
  have hends : ∃ a', "A -- a\n#if B-\n" = a' ++ "\n" := ⟨"A -- a\n#if B-", rfl⟩
  have hkinds : (Fragment.split d "A -- a\n#if B-\n").map Fragment.kind = [.sql, .directive .ifThen] := by
    decide +kernel
  have hclosed : ∀ f ∈ Fragment.split d "A -- a\n#if B-\n", ∀ error, f.kind ≠ .fault error := by
    intro f hf error hkind
    have hmem := List.mem_map_of_mem (f := Fragment.kind) hf
    rw [hkinds, hkind] at hmem
    simp at hmem
  exact ⟨hd, hends, hkinds, hclosed, split_append_terminator_line hd (.inr hends) hclosed "C\n'D"⟩

end SqlFlow
