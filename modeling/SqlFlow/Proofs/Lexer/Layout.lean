import Mathlib.Data.List.Forall2
import SqlFlow.Proofs.Lexer.Runs
import SqlFlow.Proofs.Text.Trim

/-!
# The layout of fragments

Every fragment is a stretch of the source, the stretches are in order and do not overlap, and what is
written between them belongs to no statement.

* `Stretch` and `Fragment.StandsAt`: a fragment is what is written at a stretch.
* `Passed`: a position that needs to be in no stretch. `EndsOpen`: what the stretch of a fault is.
* `lineAt` and `Fragment.LinedAt`: a fragment tells the line that it stands on.
* `Layout`: how fragments stand between two positions. `Layout.append` puts layouts one behind the other,
  `Layout.of_passed` and `Layout.of_fragment` are the parts.
* `exists_layout_run`, `exists_layout_boundary`, `exists_lined_layout`: the layout of a run, of a boundary
  and, run by run, of all tokens, with the lines.
-/

namespace SqlFlow

open Source

/-! ## Stretches -/

/-- The positions of a source from one on, up to another. -/
structure Stretch where
  start : Nat
  stop : Nat
deriving DecidableEq, Repr

namespace Stretch

def Covers (s : Stretch) (i : Nat) : Prop := s.start ≤ i ∧ i < s.stop

/-- What is written there. -/
def read (s : Stretch) (source : List Char) : List Char :=
  (source.drop s.start).take (s.stop - s.start)

/-- Where tokens stand behind others. -/
def behind (before ts : List Token) : Stretch :=
  ⟨(textOf before).length, (textOf (before ++ ts)).length⟩

end Stretch

/-- Behind `before`, a statement is all that is left, and it does not end: it begins with its first
content, or if it has none with the construct that does not end. -/
structure EndsOpen (before statement : List Token) : Prop where
  first : ∀ t, statement.head? = some t → t.isContent = true ∨ t.isOpen = true
  nothing_pending : ∀ t ∈ sinceLast Token.isBoundary before, t.isContent = false
  run : IsRun statement
  last : ∃ t, statement.getLast? = some t ∧ t.isOpen = true

/-- A fragment of the tokens is what is written at a stretch of their text. -/
structure Fragment.StandsAt (tokens : List Token) (f : Fragment) (s : Stretch) : Prop where
  start_lt_stop : s.start < s.stop
  stop_le : s.stop ≤ (textOf tokens).length
  raw_eq : f.raw.toList = s.read (textOf tokens)
  trimmed : Text.Trimmed f.raw.toList
  text_eq : f.kind = .sql → f.text = f.raw
  fault : ∀ error, f.kind = .fault error → ∃ before statement, tokens = before ++ statement ∧
    EndsOpen before statement ∧ s.start = (textOf before).length ∧
    ∀ i c, s.stop ≤ i → (textOf tokens)[i]? = some c → Text.isBlank c = true

/-- The line of a position, counted from one. -/
def lineAt (source : List Char) (i : Nat) : Nat := 1 + (source.take i).count '\n'

/-- A fragment that stands at a stretch tells the line of it: a statement and a directive line that of their
first character, a fault that of the construct which does not end. -/
structure Fragment.LinedAt (tokens : List Token) (f : Fragment) (s : Stretch) : Prop where
  line : (∀ error, f.kind ≠ .fault error) → f.line = lineAt (textOf tokens) s.start
  fault : ∀ error, f.kind = .fault error → f.line = error.line ∧
    ∃ before t, tokens = before ++ [t] ∧ t.Unended (lineAt (textOf tokens) (textOf before).length) error

/-- The position is in no fragment for a reason: there is a blank, a terminator, or a comment with no
content of a statement before it. -/
inductive Passed (tokens : List Token) (i : Nat) : Prop where
  | blank {c : Char} (hat : (textOf tokens)[i]? = some c) (hblank : Text.isBlank c = true)
  | terminator {before behind : List Token} {t : Token} (htokens : tokens = before ++ t :: behind)
      (hat : (Stretch.behind before [t]).Covers i) (hkind : t.kind = .lexeme .terminator)
  | comment {before behind : List Token} {t : Token} (htokens : tokens = before ++ t :: behind)
      (hat : (Stretch.behind before [t]).Covers i) (hkind : t.kind = .lexeme .comment)
      (hnone : ∀ u ∈ sinceLast Token.isBoundary before, u.isContent = false)

/-! ## Layouts -/

/-- Between two positions the fragments stand at the stretches, and nothing else has to be in one. -/
structure Layout (tokens : List Token) (first last : Nat) (fragments : List Fragment)
    (stretches : List Stretch) : Prop where
  first_le_last : first ≤ last
  stand : List.Forall₂ (Fragment.StandsAt tokens) fragments stretches
  ordered : stretches.Pairwise fun s s' => s.stop ≤ s'.start
  within : ∀ s ∈ stretches, first ≤ s.start ∧ s.stop ≤ last
  passed : ∀ i, first ≤ i → i < last → (∀ s ∈ stretches, ¬s.Covers i) → Passed tokens i

namespace Layout

variable {tokens : List Token} {first middle last : Nat} {fs gs : List Fragment}
  {ss ts : List Stretch} {xs cs ys : List Char}

theorem append (h : Layout tokens first middle fs ss) (h' : Layout tokens middle last gs ts) :
    Layout tokens first last (fs ++ gs) (ss ++ ts) where
  first_le_last := h.first_le_last.trans h'.first_le_last
  stand := List.rel_append h.stand h'.stand
  ordered := List.pairwise_append.2 ⟨h.ordered, h'.ordered, fun s hs s' hs' =>
    (h.within s hs).2.trans (h'.within s' hs').1⟩
  within s hs := by
    rcases List.mem_append.1 hs with hs | hs
    · exact ⟨(h.within s hs).1, (h.within s hs).2.trans h'.first_le_last⟩
    · exact ⟨h.first_le_last.trans (h'.within s hs).1, (h'.within s hs).2⟩
  passed i hfirst hlast hnone := by
    rcases Nat.lt_or_ge i middle with hi | hi
    · exact h.passed i hfirst hi fun s hs => hnone s (List.mem_append_left ts hs)
    · exact h'.passed i hi hlast fun s hs => hnone s (List.mem_append_right ss hs)

theorem of_passed (hle : first ≤ last) (h : ∀ i, first ≤ i → i < last → Passed tokens i) :
    Layout tokens first last [] [] where
  first_le_last := hle
  stand := .nil
  ordered := .nil
  within := List.forall_mem_nil _
  passed i hfirst hlast _ := h i hfirst hlast

/-- A fragment, and the blanks that trimming takes off behind it. -/
theorem of_fragment (htext : textOf tokens = xs ++ (cs ++ ys)) (hne : cs ≠ [])
    (hhead : ∀ c, cs.head? = some c → Text.isBlank c = false) {f : Fragment}
    (hraw : f.raw.toList = Text.trim cs) (hsql : f.kind = .sql → f.text = f.raw)
    (hfault : ∀ error, f.kind = .fault error → ys = [] ∧ ∃ before statement,
      tokens = before ++ statement ∧ EndsOpen before statement ∧ textOf before = xs) :
    Layout tokens xs.length (xs ++ cs).length [f]
      [⟨xs.length, xs.length + (Text.trim cs).length⟩] := by
  obtain ⟨bs, hbs, hcs, hleft, htrimmed⟩ := Text.exists_trim_append hne hhead
  generalize Text.trim cs = w at *
  subst hcs
  have htext' : textOf tokens = xs ++ (w ++ (bs ++ ys)) := by rw [htext, List.append_assoc]
  have hlength : 0 < w.length := List.length_pos_iff.2 hleft
  -- behind the fragment there are the blanks, and what follows them
  have hbehind : ∀ i, xs.length + w.length ≤ i →
      (textOf tokens)[i]? = (bs ++ ys)[i - (xs.length + w.length)]? := by
    intro i hi
    rw [htext', ← List.append_assoc, List.getElem?_append_right (by rw [List.length_append]; exact hi),
      List.length_append]
  refine ⟨by simp, .cons ⟨?_, ?_, ?_, hraw ▸ htrimmed, hsql, ?_⟩ .nil, List.pairwise_singleton _ _,
    ?_, ?_⟩
  · show xs.length < xs.length + w.length
    omega
  · show xs.length + w.length ≤ (textOf tokens).length
    rw [htext']
    simp only [List.length_append]
    omega
  · show f.raw.toList = ((textOf tokens).drop xs.length).take (xs.length + w.length - xs.length)
    rw [htext', List.drop_left, Nat.add_sub_cancel_left, List.take_left, hraw]
  · intro error herror
    obtain ⟨rfl, before, statement, htokens, hends, rfl⟩ := hfault error herror
    refine ⟨before, statement, htokens, hends, rfl, fun i c hi hc => ?_⟩
    rw [hbehind i hi, List.append_nil] at hc
    exact hbs c (List.mem_of_getElem? hc)
  · intro s hs
    rw [List.mem_singleton.1 hs]
    simp only [List.length_append]
    omega
  · intro i hfirst hlast hnone
    have hi : xs.length + w.length ≤ i := by
      have hnot := hnone _ List.mem_cons_self
      simp only [Stretch.Covers] at hnot
      omega
    have hlt : i - (xs.length + w.length) < bs.length := by
      simp only [List.length_append] at hlast
      omega
    have hat := hbehind i hi
    rw [List.getElem?_append_left hlt, List.getElem?_eq_getElem hlt] at hat
    exact .blank hat (hbs _ (List.getElem_mem hlt))

end Layout

/-! ## Runs and boundaries -/

/-- The token at a position of a text of tokens. -/
theorem exists_token_of_lt {ts : List Token} {i : Nat} (h : i < (textOf ts).length) :
    ∃ us t vs, ts = us ++ t :: vs ∧ (textOf us).length ≤ i ∧
      i < (textOf us).length + t.text.length := by
  induction ts generalizing i with
  | nil => simp [textOf] at h
  | cons t ts ih =>
    rcases Nat.lt_or_ge i t.text.length with hi | hi
    · exact ⟨[], t, ts, rfl, Nat.zero_le i, by simpa [textOf] using hi⟩
    · have htext : (textOf (t :: ts)).length = t.text.length + (textOf ts).length := by simp [textOf]
      obtain ⟨us, u, vs, rfl, hus, hlt⟩ := ih (i := i - t.text.length) (by omega)
      have htext' : (textOf (t :: us)).length = t.text.length + (textOf us).length := by simp [textOf]
      exact ⟨t :: us, u, vs, rfl, by omega, by omega⟩

theorem lineAt_behind (before ts : List Token) :
    lineAt (textOf (before ++ ts)) (textOf before).length = 1 + newlines before := by
  rw [lineAt, textOf_append, List.take_left]
  rfl

section

variable {d : Dialect} {tokens before run ts behind : List Token} {b : Token}

/-- What a run has before its statement is blanks and comments. -/
theorem layout_lead (hseg : IsSegmentation d (textOf tokens) tokens)
    (htokens : tokens = before ++ (run ++ behind)) (hrun : IsRun run)
    (hbefore : sinceLast Token.isBoundary before = [])
    (hlead : ∀ t ∈ run, t.isContent = false ∧ t.isOpen = false) :
    Layout tokens (textOf before).length (textOf (before ++ run)).length [] [] := by
  refine .of_passed (by simp [textOf_append]) fun i hfirst hlast => ?_
  have hi : i - (textOf before).length < (textOf run).length := by
    rw [textOf_append, List.length_append] at hlast
    omega
  obtain ⟨us, t, vs, rfl, hus, hlt⟩ := exists_token_of_lt hi
  have hsplit : tokens = (before ++ us) ++ t :: (vs ++ behind) := by simp [htokens]
  have hcovers : (Stretch.behind (before ++ us) [t]).Covers i := by
    simp only [Stretch.behind, Stretch.Covers, textOf_append, textOf_singleton, List.length_append]
    omega
  have hsince : sinceLast Token.isBoundary (before ++ us) = us.reverse :=
    sinceLast_append_run hbefore fun u hu => hrun u (List.mem_append_left _ hu)
  have ht := hlead t (by simp)
  have hboundary := hrun t (by simp)
  have hat := hseg.2 _ _ _ hsplit
  have hblank : t.kind = .lexeme .newline ∨ t.kind = .lexeme .blank → Passed tokens i := by
    intro hkind
    obtain ⟨c, hc, hblank⟩ := hat.candidate.form.exists_blank hkind
    have hlength : t.text.length = 1 := by rw [hc]; rfl
    have hindex : i = (textOf (before ++ us)).length := by
      rw [textOf_append, List.length_append]
      omega
    refine .blank (c := c) ?_ hblank
    rw [hsplit, textOf_append, hindex, List.getElem?_append_right (Nat.le_refl _), Nat.sub_self]
    simp [textOf, hc]
  obtain ⟨⟨x, argument⟩ | k, text⟩ := t
  · cases hboundary
  · cases k with
    | comment =>
      refine .comment hsplit hcovers rfl fun u hu => ?_
      rw [hsince] at hu
      exact (hlead u (List.mem_append_left _ (List.mem_reverse.1 hu))).1
    | newline => exact hblank (.inl rfl)
    | blank => exact hblank (.inr rfl)
    | terminator => cases hboundary
    | literal | content => cases ht.1
    | openComment | openLiteral => cases ht.2

/-- If a run ends in a construct that does not end, so does its statement. -/
theorem endsOpen_statementOf (hbefore : sinceLast Token.isBoundary before = [])
    (hrun : IsRun (run ++ [b])) (hopen : b.isOpen = true) :
    EndsOpen (before ++ leadOf (run ++ [b])) (statementOf (run ++ [b])) where
  first _ ht := first_statementOf ht
  nothing_pending := nothing_pending_leadOf hrun hbefore
  run := hrun.parts.2
  last := by
    have hlast : (leadOf (run ++ [b]) ++ statementOf (run ++ [b])).getLast? = some b := by
      rw [leadOf_append_statementOf, List.getLast?_concat]
    rw [List.getLast?_append_of_ne_nil _ (statementOf_ne_nil_of_open hopen)] at hlast
    exact ⟨b, hlast, hopen⟩

theorem exists_layout_run (hd : d.Valid) (line : Nat) (hseg : IsSegmentation d (textOf tokens) tokens)
    (htokens : tokens = before ++ (run ++ behind)) (hrun : IsRun run)
    (hbefore : sinceLast Token.isBoundary before = []) :
    ∃ ss, Layout tokens (textOf before).length (textOf (before ++ run)).length (ofRun line run) ss ∧
      (line = 1 + newlines before → List.Forall₂ (Fragment.LinedAt tokens) (ofRun line run) ss) := by
  by_cases hnil : statementOf run = []
  · rw [ofRun_of_nil line hnil]
    exact ⟨[], layout_lead hseg htokens hrun hbefore (statementOf_eq_nil_iff.1 hnil), fun _ => .nil⟩
  have hsplit := leadOf_append_statementOf run
  have htokens' : tokens = before ++ (leadOf run ++ (statementOf run ++ behind)) := by
    rw [htokens, ← List.append_assoc (leadOf run), hsplit]
  have hbeginning := layout_lead hseg htokens' hrun.parts.1 hbefore
    fun t ht => not_first_of_mem_leadOf ht
  have htext : textOf tokens
      = textOf (before ++ leadOf run) ++ (textOf (statementOf run) ++ textOf behind) := by
    rw [htokens', ← List.append_assoc, textOf_append, textOf_append (statementOf run)]
  have hend : textOf (before ++ run) = textOf (before ++ leadOf run) ++ textOf (statementOf run) := by
    rw [← textOf_append, List.append_assoc, hsplit]
  obtain ⟨hne, hvisible⟩ := hseg.visible_statement hd htokens hnil
  rw [hend]
  rcases hseg.closed_or_open htokens with hclosed | ⟨us, u, rfl, rfl, hclosed, hopen⟩
  · rw [ofRun_of_closed line hclosed hnil]
    refine ⟨_, hbeginning.append
      (.of_fragment htext hne hvisible String.toList_ofList (fun _ => rfl) nofun), fun hline => ?_⟩
    refine .cons ⟨fun _ => ?_, nofun⟩ .nil
    show line + newlines (leadOf run) = lineAt (textOf tokens) (textOf (before ++ leadOf run)).length
    rw [htokens', ← List.append_assoc, lineAt_behind, newlines_append, hline, Nat.add_assoc]
  · obtain ⟨error, herror⟩ := exists_unended hopen (line + newlines us)
    have hends := endsOpen_statementOf hbefore hrun hopen
    have hall : tokens = (before ++ leadOf (us ++ [u])) ++ statementOf (us ++ [u]) := by
      rw [htokens', List.append_nil, List.append_assoc]
    rw [ofRun_of_unended line hclosed herror]
    refine ⟨_, hbeginning.append (.of_fragment htext hne hvisible String.toList_ofList nofun
      fun _ _ => ⟨rfl, _, _, hall, hends, rfl⟩), fun hline => ?_⟩
    refine .cons ⟨fun hnone => absurd rfl (hnone error), fun error' hkind => ?_⟩ .nil
    obtain rfl := FragmentKind.fault.inj hkind
    have hlast : tokens = (before ++ us) ++ [u] := by rw [htokens, List.append_nil, List.append_assoc]
    refine ⟨rfl, before ++ us, u, hlast, ?_⟩
    rwa [hlast, lineAt_behind, newlines_append, ← Nat.add_assoc, ← hline]

theorem exists_layout_boundary (hd : d.Valid) (line : Nat)
    (hseg : IsSegmentation d (textOf tokens) tokens) (htokens : tokens = before ++ b :: behind)
    (hb : b.isBoundary = true) :
    ∃ ss, Layout tokens (textOf before).length (textOf (before ++ [b])).length (ofBoundary d line b) ss ∧
      (line = 1 + newlines before → List.Forall₂ (Fragment.LinedAt tokens) (ofBoundary d line b) ss) := by
  have htext : textOf tokens = textOf before ++ (b.text ++ textOf behind) := by
    rw [htokens, textOf_append]
    rfl
  have hend : textOf (before ++ [b]) = textOf before ++ b.text := by
    rw [textOf_append, textOf_singleton]
  have hne := hseg.text_ne_nil htokens
  have hvisible := hseg.visible htokens hd
  have hcovers : ∀ i, (textOf before).length ≤ i → i < (textOf (before ++ [b])).length →
      (Stretch.behind before [b]).Covers i := fun i hfirst hlast => ⟨hfirst, hlast⟩
  obtain ⟨⟨x, argument⟩ | k, text⟩ := b
  · rw [hend]
    refine ⟨_, .of_fragment htext hne (hvisible (.inl rfl)) String.toList_ofList nofun nofun,
      fun hline => .cons ⟨fun _ => ?_, nofun⟩ .nil⟩
    rwa [htokens, lineAt_behind]
  · obtain rfl : k = .terminator := by
      cases k with
      | terminator => rfl
      | newline | blank | comment | literal | content | openComment | openLiteral => cases hb
    exact ⟨[], .of_passed (by simp [textOf_append]) fun i hfirst hlast =>
      .terminator htokens (hcovers i hfirst hlast) rfl, fun _ => .nil⟩

/-- All the tokens behind a boundary. -/
theorem exists_lined_layout (hd : d.Valid) (hseg : IsSegmentation d (textOf tokens) tokens) :
    ∀ ts before line, tokens = before ++ ts → sinceLast Token.isBoundary before = [] →
      ∃ ss, Layout tokens (textOf before).length (textOf tokens).length (fragmentsAt d line ts) ss ∧
        (line = 1 + newlines before →
          List.Forall₂ (Fragment.LinedAt tokens) (fragmentsAt d line ts) ss) := by
  intro ts
  induction ts using runs_induction with
  | last run hrun =>
    intro before line htokens hbefore
    have htokens' : tokens = before ++ (run ++ []) := by rw [htokens, List.append_nil]
    have hrun' := exists_layout_run hd line hseg htokens' hrun hbefore
    rw [← htokens] at hrun'
    rwa [fragmentsAt_run line hrun]
  | cons run b ts hrun hb ih =>
    intro before line htokens hbefore
    have htokens' : tokens = (before ++ run) ++ b :: ts := by rw [htokens, List.append_assoc]
    obtain ⟨ss, hss, hlines⟩ := exists_layout_run hd line hseg htokens hrun hbefore
    obtain ⟨ss', hss', hlines'⟩ := exists_layout_boundary hd (line + newlines run) hseg htokens' hb
    obtain ⟨ss'', hss'', hlines''⟩ := ih (before ++ run ++ [b]) (line + newlines (run ++ [b]))
      (by rw [htokens', List.append_assoc (before ++ run)]; rfl) (sinceLast_append_boundary _ hb)
    rw [fragmentsAt_append_cons line hrun hb]
    refine ⟨ss ++ ss' ++ ss'', (hss.append hss').append hss'', fun hline => ?_⟩
    -- the lines are counted on from the tokens before
    refine List.rel_append (List.rel_append (hlines hline) (hlines' ?_)) (hlines'' ?_)
    · rw [newlines_append, hline, Nat.add_assoc]
    · rw [List.append_assoc, newlines_append before, hline, Nat.add_assoc]

theorem exists_layout (hd : d.Valid) (hseg : IsSegmentation d (textOf tokens) tokens) :
    ∀ ts before line, tokens = before ++ ts → sinceLast Token.isBoundary before = [] →
      ∃ ss, Layout tokens (textOf before).length (textOf tokens).length (fragmentsAt d line ts) ss := by
  intro ts before line htokens hbefore
  obtain ⟨ss, hss, -⟩ := exists_lined_layout hd hseg ts before line htokens hbefore
  exact ⟨ss, hss⟩

/-- A fault is the last fragment: nothing stands behind a construct that does not end. -/
theorem kind_ne_fault_of_mem_dropLast (hseg : IsSegmentation d (textOf tokens) tokens) :
    ∀ ts before line, tokens = before ++ ts →
      ∀ f ∈ (fragmentsAt d line ts).dropLast, ∀ error, f.kind ≠ .fault error := by
  intro ts
  induction ts using runs_induction with
  | last run hrun =>
    intro before line _ f hf
    -- a run has one fragment, if any
    have hnone : (ofRun line run).dropLast = [] := by
      unfold ofRun
      dsimp only
      split
      · rfl
      · split <;> rfl
    rw [fragmentsAt_run line hrun, hnone] at hf
    cases hf
  | cons run b ts hrun hb ih =>
    intro before line htokens f hf
    have hclosed : ∀ t ∈ run, t.isOpen = false := by
      rcases hseg.closed_or_open htokens with hclosed | ⟨us, t, -, hnil, -⟩
      · exact hclosed
      · cases hnil
    rw [fragmentsAt_append_cons line hrun hb] at hf
    have hmem : f ∈ ofRun line run ++ ofBoundary d (line + newlines run) b ∨
        f ∈ (fragmentsAt d (line + newlines (run ++ [b])) ts).dropLast := by
      by_cases hnil : fragmentsAt d (line + newlines (run ++ [b])) ts = []
      · rw [hnil, List.append_nil] at hf
        exact .inl (List.dropLast_subset _ hf)
      · rw [List.dropLast_append_of_ne_nil hnil] at hf
        exact List.mem_append.1 hf
    rcases hmem with hmem | hmem
    · rcases List.mem_append.1 hmem with hmem | hmem
      · by_cases hnil : statementOf run = []
        · rw [ofRun_of_nil line hnil] at hmem
          cases hmem
        · rw [ofRun_of_closed line hclosed hnil] at hmem
          rw [List.mem_singleton.1 hmem]
          exact nofun
      · unfold ofBoundary at hmem
        split at hmem
        · rw [List.mem_singleton.1 hmem]
          exact nofun
        · cases hmem
    · exact ih (before ++ run ++ [b]) _ (by simp [htokens]) f hmem

end

/-- The fragments of a script are stretches of it, in order and without overlap, and of what is written
between them every character is a blank, a terminator or in a comment that comes before the first content
of a statement. If a construct does not end, the last fragment and no other is a fault: it is all that is
left from the start of the pending statement on, or from the construct on if nothing is pending. -/
theorem split_stands_at_stretches {d : Dialect} (hd : d.validate = .ok d) (source : String) :
    ∃ tokens stretches, IsSegmentation d source.toList tokens ∧
      List.Forall₂ (Fragment.StandsAt tokens) (Fragment.split d source) stretches ∧
      stretches.Pairwise (fun s s' => s.stop ≤ s'.start) ∧
      (∀ i < source.toList.length, (∀ s ∈ stretches, ¬s.Covers i) → Passed tokens i) ∧
      ∀ f ∈ (Fragment.split d source).dropLast, ∀ error, f.kind ≠ .fault error := by
  have hvalid : d.Valid := (Dialect.validate_eq_ok_iff.1 hd).1
  obtain ⟨tokens, hseg⟩ := exists_isSegmentation d source.toList
  have htext : textOf tokens = source.toList := hseg.1
  have hseg' : IsSegmentation d (textOf tokens) tokens := htext ▸ hseg
  obtain ⟨stretches, hlayout⟩ := exists_layout hvalid hseg' tokens [] 1 rfl rfl
  rw [split_eq_fragmentsAt hvalid hseg]
  refine ⟨tokens, stretches, hseg, hlayout.stand, hlayout.ordered, fun i hi => ?_,
    kind_ne_fault_of_mem_dropLast hseg' tokens [] 1 rfl⟩
  exact hlayout.passed i (Nat.zero_le i) (htext ▸ hi)

/-- A comment before the statement, a terminator behind it, and a literal that does not end. -/
theorem split_default_stands_at_stretches :
    Dialect.validate {} = .ok {} ∧
      ∃ tokens stretches, IsSegmentation {} "/* a */ SELECT 1; X 'b ".toList tokens ∧
      List.Forall₂ (Fragment.StandsAt tokens) (Fragment.split {} "/* a */ SELECT 1; X 'b ") stretches ∧
      stretches.Pairwise (fun s s' => s.stop ≤ s'.start) ∧
      (∀ i < "/* a */ SELECT 1; X 'b ".toList.length,
        (∀ s ∈ stretches, ¬s.Covers i) → Passed tokens i) ∧
      ∀ f ∈ (Fragment.split {} "/* a */ SELECT 1; X 'b ").dropLast, ∀ error, f.kind ≠ .fault error := by
  have hvalid : Dialect.validate {} = .ok {} := by decide
  exact ⟨hvalid, split_stands_at_stretches hvalid _⟩

end SqlFlow
