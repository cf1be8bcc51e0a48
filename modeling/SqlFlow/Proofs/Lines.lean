import SqlFlow.Proofs.Lexer.Layout
import SqlFlow.Proofs.Refusal

/-!
# Reported lines

Every line that is reported is a line of the source: that of the first character of what is reported there.

* `Rising`: the lines of fragments do not fall. `rising_fragmentsAt`: those of the tokens of a source, run by
  run.
* `StandsFor`: which fragment an error is about. `assemble_cases`: the programs that there are, with their
  statements by the fragments.
* `Program.LinesOf`: the lines of a program are those of the fragments that its statements and its error
  stand for.
* `reported_lines_are_source_lines`: all of it for a script.
-/

namespace SqlFlow

open Source

/-! ## Lines do not fall -/

/-- The lines of the fragments do not fall, and all are from one line on up to another. -/
structure Rising (first last : Nat) (fs : List Fragment) : Prop where
  first_le_last : first ≤ last
  ordered : fs.Pairwise fun f g => f.line ≤ g.line
  within : ∀ f ∈ fs, first ≤ f.line ∧ f.line ≤ last

namespace Rising

variable {first middle last : Nat} {fs gs : List Fragment}

theorem nil (h : first ≤ last) : Rising first last [] := ⟨h, .nil, List.forall_mem_nil _⟩

theorem singleton {f : Fragment} (hfirst : first ≤ f.line) (hlast : f.line ≤ last) :
    Rising first last [f] where
  first_le_last := hfirst.trans hlast
  ordered := List.pairwise_singleton _ _
  within g hg := by
    obtain rfl := List.mem_singleton.1 hg
    exact ⟨hfirst, hlast⟩

theorem append (h : Rising first middle fs) (h' : Rising middle last gs) :
    Rising first last (fs ++ gs) where
  first_le_last := h.first_le_last.trans h'.first_le_last
  ordered := List.pairwise_append.2 ⟨h.ordered, h'.ordered, fun f hf g hg =>
    (h.within f hf).2.trans (h'.within g hg).1⟩
  within f hf := by
    rcases List.mem_append.1 hf with hf | hf
    · exact ⟨(h.within f hf).1, (h.within f hf).2.trans h'.first_le_last⟩
    · exact ⟨h.first_le_last.trans (h'.within f hf).1, (h'.within f hf).2⟩

end Rising

/-- A construct that does not end begins on a line of its run. -/
theorem line_le_of_fault? {line : Nat} {run : List Token} {error : SyntaxError}
    (h : fault? line run = some error) : line ≤ error.line ∧ error.line ≤ line + newlines run := by
  induction run generalizing line with
  | nil => cases h
  | cons t run ih =>
    have hnewlines : newlines (t :: run) = newlines [t] + newlines run := newlines_append [t] run
    unfold fault? at h
    split at h
    · cases h
      exact ⟨Nat.le_refl line, Nat.le_add_right _ _⟩
    · cases h
      exact ⟨Nat.le_refl line, Nat.le_add_right _ _⟩
    · obtain ⟨hfirst, hlast⟩ := ih h
      omega

section

variable {d : Dialect}

theorem rising_ofRun (line : Nat) (run : List Token) :
    Rising line (line + newlines run) (ofRun line run) := by
  have hsplit : newlines (leadOf run) ≤ newlines run := by
    conv => rhs; rw [← leadOf_append_statementOf run, newlines_append]
    exact Nat.le_add_right _ _
  unfold ofRun
  dsimp only
  split
  · exact .nil (Nat.le_add_right _ _)
  · split
    · next error herror =>
      obtain ⟨hfirst, hlast⟩ := line_le_of_fault? herror
      exact .singleton hfirst hlast
    · exact .singleton (Nat.le_add_right _ _) (Nat.add_le_add_left hsplit line)

theorem rising_ofBoundary (line : Nat) (b : Token) :
    Rising line (line + newlines [b]) (ofBoundary d line b) := by
  unfold ofBoundary
  split
  · exact .singleton (Nat.le_refl line) (Nat.le_add_right _ _)
  · exact .nil (Nat.le_add_right _ _)

theorem rising_fragmentsAt (line : Nat) (ts : List Token) :
    Rising line (line + newlines ts) (fragmentsAt d line ts) := by
  induction ts using runs_induction generalizing line with
  | last run hrun =>
    rw [fragmentsAt_run line hrun]
    exact rising_ofRun line run
  | cons run b ts hrun hb ih =>
    have hlines : line + newlines (run ++ b :: ts) = line + newlines (run ++ [b]) + newlines ts := by
      rw [Nat.add_assoc, ← newlines_append, List.append_assoc]
      rfl
    have hboundary : Rising (line + newlines run) (line + newlines (run ++ [b]))
        (ofBoundary d (line + newlines run) b) := by
      rw [newlines_append, ← Nat.add_assoc]
      exact rising_ofBoundary _ b
    rw [fragmentsAt_append_cons line hrun hb, hlines]
    exact ((rising_ofRun line run).append hboundary).append (ih _)

/-! ## What an error stands for -/

/-- An error stands for the fragment that is refused, behind fragments that some script without an error
begins with; or for the one that opens the innermost block which is left open. -/
inductive StandsFor (d : Dialect) (fragments : List Fragment) : SyntaxError → Fragment → Prop where
  | refused {done rest : List Fragment} {f : Fragment} {error : SyntaxError}
      (hfragments : fragments = done ++ f :: rest) (hviable : Viable d done)
      (hrefusal : Refusal d done f error) : StandsFor d fragments error f
  | unclosed {o : OpenBlock} {outer : List OpenBlock} {g : Fragment} {x : Directive}
      (hviable : Viable d fragments) (hopen : openBlocksOf fragments = o :: outer)
      (hg : fragments[o.opener]? = some g) (hkind : g.kind = .directive x) :
      StandsFor d fragments (.unclosed g.line x.keyword) g

/-- The statements of a program are those of its fragments, or of the first ones of them, and then one
stands for an error. -/
theorem assemble_cases (d : Dialect) (fragments : List Fragment) :
    ((∀ f ∈ fragments, ∀ error, f.kind ≠ .fault error) ∧
      (Program.assemble d fragments).error? = none ∧
      (Program.assemble d fragments).statements.toList.map Statement.content =
        fragments.map Fragment.content) ∨
    ∃ done error f, done <+: fragments ∧ StandsFor d fragments error f ∧
      (Program.assemble d fragments).error? = some error ∧
      (Program.assemble d fragments).statements.toList.map Statement.content =
        done.map Fragment.content ++ [(.invalid, f.raw, error.line)] ∧
      ∀ i s, (Program.assemble d fragments).get? i = some s → (s.kind = .invalid ↔ i = done.length) := by
  rcases Assembly.exists_behind_or_refused (d := d) .start fragments with ⟨a, ha⟩ |
    ⟨done, f, rest, a, p, rfl, ha, hadd⟩
  · -- every fragment is admitted, and a block may be left open
    rw [List.nil_append] at ha
    have hrun := ha.assemble_eq []
    rw [List.append_nil, Assembly.run, Assembly.finish] at hrun
    have hstands := standsAt_of_behind ha
    cases hblocks : a.blocks with
    | nil =>
      have herror : (Program.assemble d fragments).error? = none := by simp [hrun, hblocks]
      exact .inl ⟨ha.kind_ne_fault, herror, Program.content_of_error?_eq_none herror⟩
    | cons block outer =>
      rw [hblocks] at hrun hstands
      generalize hos : openBlocksOf fragments = os at hstands
      cases hstands with
      | cons hat _ =>
        obtain ⟨g, hg, hkind, hline, hraw⟩ := hat.opener
        simp only [← hline, ← hraw] at hrun
        have hviable : Viable d fragments := Assembly.viable_iff.2 ⟨a, ha⟩
        exact .inr ⟨fragments, _, g, List.prefix_refl _, .unclosed hviable hos hg hkind,
          ha.refuse none _ g.raw hrun⟩
  · -- `f` is refused
    rw [List.nil_append] at ha
    have hrun := ha.assemble_eq (f :: rest)
    rw [Assembly.run, hadd] at hrun
    obtain ⟨links, error, hp, hrefusal⟩ := Assembly.refusal_of_add ha hadd
    have hviable : Viable d done := Assembly.viable_iff.2 ⟨a, ha⟩
    exact .inr ⟨done, error, f, List.prefix_append _ _, .refused rfl hviable hrefusal,
      ha.refuse links error f.raw (hrun.trans hp)⟩

/-- The lines of a program are those of the fragments. -/
structure Program.LinesOf (d : Dialect) (fragments : List Fragment) (p : Program) : Prop where
  /-- Without an error there is a statement for every fragment. -/
  size : p.error? = none → p.size = fragments.length
  /-- A statement that does not stand for an error stands for the fragment at its place. -/
  statement : ∀ i s, p.get? i = some s → s.kind ≠ .invalid →
    ∃ f, fragments[i]? = some f ∧ s.kind = f.kind.statementKind ∧ s.text = f.text ∧ s.line = f.line
  /-- Only the last statement of a program with an error stands for one. -/
  invalid : ∀ i s, p.get? i = some s → s.kind = .invalid → p.error? ≠ none ∧ i + 1 = p.size
  /-- It stands for the fragment that the error stands for. -/
  error : ∀ error, p.error? = some error → ∃ f s, StandsFor d fragments error f ∧
    error.line = f.line ∧ p.statements.back? = some s ∧ s.content = (.invalid, f.raw, f.line)
  /-- An error that tells where the open `begin` block started tells the line of the `begin`. -/
  beginLine : ∀ line keyword beginLine,
    p.error? = some (.openTransaction line keyword beginLine) →
      ∃ done f rest g, fragments = done ++ f :: rest ∧ line = f.line ∧
        Innermost done g .beginTransaction ∧ beginLine = g.line

/-- A fragment that is at fault tells the line of its error, which is one of the text. -/
def Fragment.TellsFault (f : Fragment) : Prop :=
  ∀ error, f.kind = .fault error → f.line = error.line ∧ ∃ t line, Token.Unended t line error

theorem Refusal.line_eq {done : List Fragment} {f : Fragment} {error : SyntaxError}
    (h : Refusal d done f error) (hf : f.TellsFault) : error.line = f.line := by
  cases h with
  | fault hkind => exact (hf error hkind).1.symm
  | openTransaction | afterElse | missingCondition | unmatched => rfl

theorem Refusal.exists_begin {done : List Fragment} {f : Fragment} {line beginLine : Nat}
    {keyword : String} (h : Refusal d done f (.openTransaction line keyword beginLine))
    (hf : f.TellsFault) :
    line = f.line ∧ ∃ g, Innermost done g .beginTransaction ∧ beginLine = g.line := by
  generalize herror : SyntaxError.openTransaction line keyword beginLine = error at h
  cases h with
  | fault hkind =>
    obtain ⟨-, t, line', hended⟩ := hf _ hkind
    rw [← herror] at hended
    cases hended
  | openTransaction hkind hx hopen =>
    cases herror
    exact ⟨rfl, _, hopen, rfl⟩
  | afterElse | missingCondition | unmatched => cases herror

theorem StandsFor.line_eq {fragments : List Fragment} {f : Fragment} {error : SyntaxError}
    (h : StandsFor d fragments error f) (hfaults : ∀ f ∈ fragments, f.TellsFault) :
    error.line = f.line := by
  cases h with
  | refused hfragments _ hrefusal => exact hrefusal.line_eq (hfaults f (by simp [hfragments]))
  | unclosed => rfl

theorem Program.content_of_get? {p : Program} {i : Nat} {s : Statement} (h : p.get? i = some s) :
    (p.statements.toList.map Statement.content)[i]? = some s.content := by
  rw [List.getElem?_map, Array.getElem?_toList, show p.statements[i]? = some s from h]
  rfl

/-- What a statement has from the fragment at its place. -/
theorem exists_fragment_of_content {fragments : List Fragment} {i : Nat} {s : Statement}
    (h : (fragments.map Fragment.content)[i]? = some s.content) :
    ∃ f, fragments[i]? = some f ∧ s.kind = f.kind.statementKind ∧ s.text = f.text ∧ s.line = f.line := by
  rw [List.getElem?_map] at h
  obtain ⟨f, hf, hcontent⟩ := Option.map_eq_some_iff.1 h
  obtain ⟨hkind, hcontent⟩ := Prod.mk.inj hcontent
  obtain ⟨htext, hline⟩ := Prod.mk.inj hcontent
  exact ⟨f, hf, hkind.symm, htext.symm, hline.symm⟩

/-- The lines of the program that fragments assemble to are those of the fragments. -/
theorem linesOf_assemble (d : Dialect) {fragments : List Fragment}
    (hfaults : ∀ f ∈ fragments, f.TellsFault) :
    (Program.assemble d fragments).LinesOf d fragments := by
  rcases assemble_cases d fragments with ⟨hnofault, herror, hcontent⟩ |
    ⟨done, error, f, hprefix, hstands, herror, hcontent, hinvalid⟩
  · have hsize := congrArg List.length hcontent
    rw [List.length_map, List.length_map, Array.length_toList] at hsize
    constructor
    · exact fun _ => hsize
    · intro i s hget _
      exact exists_fragment_of_content (hcontent ▸ Program.content_of_get? hget)
    · intro i s hget hkind
      obtain ⟨f, hf, hkind', -⟩ := exists_fragment_of_content (hcontent ▸ Program.content_of_get? hget)
      rw [hkind] at hkind'
      cases hk : f.kind with
      | fault error => exact absurd hk (hnofault f (List.mem_of_getElem? hf) error)
      | sql | directive => simp [hk, FragmentKind.statementKind] at hkind'
    · simp [herror]
    · simp [herror]
  · have hline := hstands.line_eq hfaults
    have hsize := congrArg List.length hcontent
    simp only [List.length_append, List.length_map, List.length_singleton, Array.length_toList] at hsize
    constructor
    · simp [herror]
    · intro i s hget hkind
      -- only the last statement stands for the error, so this one is before it
      have hs := Program.content_of_get? hget
      have hne : i ≠ done.length := fun hi => hkind ((hinvalid i s hget).2 hi)
      have hlt : i < (done.map Fragment.content).length := by
        have hlength := (Array.getElem?_eq_some_iff.1 hget).1
        rw [List.length_map]
        omega
      rw [hcontent, List.getElem?_append_left hlt] at hs
      obtain ⟨g, hg, hgs⟩ := exists_fragment_of_content hs
      obtain ⟨rest, rfl⟩ := hprefix
      exact ⟨g, by rwa [List.getElem?_append_left (by simpa using hlt)], hgs⟩
    · intro i s hget hkind
      obtain rfl := (hinvalid i s hget).1 hkind
      exact ⟨by simp [herror], hsize.symm⟩
    · intro error' herror'
      obtain rfl := Option.some.inj (herror.symm.trans herror')
      obtain ⟨s, hs⟩ : ∃ s, (Program.assemble d fragments).get? done.length = some s :=
        ⟨_, Array.getElem?_eq_getElem (by omega)⟩
      have hlast := Program.content_of_get? hs
      rw [hcontent, List.getElem?_append_right (by simp)] at hlast
      simp only [List.length_map, Nat.sub_self, List.getElem?_cons_zero, Option.some.injEq] at hlast
      refine ⟨f, s, hstands, hline, ?_, by rw [← hlast, hline]⟩
      rwa [Array.back?_eq_getElem?, hsize, Nat.add_sub_cancel]
    · intro line keyword beginLine herror'
      obtain rfl := Option.some.inj (herror.symm.trans herror')
      cases hstands with
      | @refused done rest _ _ hfragments _ hrefusal =>
        obtain ⟨hline, g, hopen, hbegin⟩ := hrefusal.exists_begin (hfaults f (by simp [hfragments]))
        exact ⟨done, f, rest, g, hfragments, hline, hopen, hbegin⟩

end

/-! ## Scripts -/

/-- A script is split into stretches of its source, in order and without overlap. A statement and a directive
line tell the line of their first character, a fault that of the construct in it which does not end, and the
lines do not fall. The lines of the program are those of the fragments that its statements and its error stand
for. -/
theorem reported_lines_are_source_lines {d : Dialect} (hd : d.validate = .ok d) (source : String) :
    (∃ tokens stretches, IsSegmentation d source.toList tokens ∧
      Layout tokens 0 source.toList.length (Fragment.split d source) stretches ∧
      List.Forall₂ (Fragment.LinedAt tokens) (Fragment.split d source) stretches) ∧
    (Fragment.split d source).Pairwise (fun f g => f.line ≤ g.line) ∧
    (Program.assemble d (Fragment.split d source)).LinesOf d (Fragment.split d source) := by
  have hvalid : d.Valid := (Dialect.validate_eq_ok_iff.1 hd).1
  obtain ⟨tokens, hseg⟩ := exists_isSegmentation d source.toList
  have htext : textOf tokens = source.toList := hseg.1
  have hseg' : IsSegmentation d (textOf tokens) tokens := htext ▸ hseg
  obtain ⟨stretches, hlayout, hlined⟩ := exists_lined_layout hvalid hseg' tokens [] 1 rfl rfl
  have hlines := hlined rfl
  rw [htext] at hlayout
  rw [← split_eq_fragmentsAt hvalid hseg] at hlayout hlines
  refine ⟨⟨tokens, stretches, hseg, hlayout, hlines⟩, ?_, linesOf_assemble d ?_⟩
  · rw [split_eq_fragmentsAt hvalid hseg]
    exact (rising_fragmentsAt 1 tokens).ordered
  · suffices h : List.Forall₂ (fun f s => f.TellsFault ∧ Fragment.LinedAt tokens f s)
        (Fragment.split d source) stretches from ((List.forall₂_and_left _ _).1 h).1
    refine hlines.imp fun f s hs => ⟨fun error hkind => ?_, hs⟩
    obtain ⟨hline, before, t, -, hended⟩ := hs.fault error hkind
    exact ⟨hline, t, _, hended⟩

/-- A comment and a literal of several lines, and a `catch` in a `begin` block. -/
theorem reported_lines_of_catch_in_block :
    Dialect.validate {} = .ok {} ∧
    (∃ tokens stretches, IsSegmentation {} "/* a\n */ X '\n';\n--begin\n--catch".toList tokens ∧
      Layout tokens 0 "/* a\n */ X '\n';\n--begin\n--catch".toList.length
        (Fragment.split {} "/* a\n */ X '\n';\n--begin\n--catch") stretches ∧
      List.Forall₂ (Fragment.LinedAt tokens)
        (Fragment.split {} "/* a\n */ X '\n';\n--begin\n--catch") stretches) ∧
    (Fragment.split {} "/* a\n */ X '\n';\n--begin\n--catch").Pairwise (fun f g => f.line ≤ g.line) ∧
    (Program.assemble {} (Fragment.split {} "/* a\n */ X '\n';\n--begin\n--catch")).LinesOf {}
      (Fragment.split {} "/* a\n */ X '\n';\n--begin\n--catch") := by
  have hvalid : Dialect.validate {} = .ok {} := by decide
  exact ⟨hvalid, reported_lines_are_source_lines hvalid _⟩

end SqlFlow
