import SqlFlow.Proofs.Lexer.Runs
import SqlFlow.Proofs.Text.Trim

/-!
# What a token depends on

A token depends on the tokens before it only for whether a directive line may start, and on the source
behind it only up to the end of the line.

* `BeginsLike`: sources that begin alike. `commentBody?_replace`, `Token.Form.replace` and
  `read?_eq_none_of_stop`: readers do not look further than what they take, and a character or a word more.
* `read?_replace`, `next_replace`: a directive line and a lexeme are read alike before rests that begin alike.
* `TokenAt.replace`: what is behind a token may be replaced by the end of a line.
* `mayStartDirective_append_iff`, `TokenAt.restart`: where no statement is pending, tokens stand as at the
  beginning of a source.
* `Stands`: a row of tokens stands before the rest of a source. `Stands.exists_trim`: so does what is left
  of it without the blanks at its end, if a line ends there.
-/

namespace SqlFlow

open Source

/-- A line ends here, or the source does. -/
def EndsLine (rest : List Char) : Prop := ∀ c, rest.head? = some c → c = '\n'

/-- A source begins as another one does, or with the end of a line. -/
def BeginsLike (rest rest' : List Char) : Prop :=
  ∀ c, rest'.head? = some c → c = '\n' ∨ rest.head? = some c

theorem EndsLine.beginsLike {rest' : List Char} (h : EndsLine rest') (rest : List Char) :
    BeginsLike rest rest' := fun c hc => .inl (h c hc)

namespace BeginsLike

variable {rest rest' : List Char}

theorem cons (c : Char) (cs cs' : List Char) : BeginsLike (c :: cs) (c :: cs') := fun _ hc => .inr hc

theorem append (h : BeginsLike rest rest') (ws : List Char) : BeginsLike (ws ++ rest) (ws ++ rest') := by
  cases ws with
  | nil => exact h
  | cons c ws => exact .cons c _ _

theorem endsLine (h : BeginsLike rest rest') (hrest : EndsLine rest) : EndsLine rest' := fun c hc =>
  (h c hc).elim id (hrest c)

end BeginsLike

theorem append_eq_append_cases {α : Type} {as bs cs ds : List α} (h : as ++ bs = cs ++ ds) :
    (∃ v, cs = as ++ v ∧ bs = v ++ ds) ∨ ∃ v, v ≠ [] ∧ as = cs ++ v ∧ ds = v ++ bs := by
  rcases List.append_eq_append_iff.1 h with ⟨v, hcs, hbs⟩ | ⟨v, has, hds⟩
  · exact .inl ⟨v, hcs, hbs⟩
  · by_cases hv : v = []
    · subst hv
      rw [List.append_nil] at has
      exact .inl ⟨[], by rw [has, List.append_nil], hds.symm⟩
    · exact .inr ⟨v, hv, has, hds⟩

/-- A keyword may end here: before a blank, a terminator or the end of the source. -/
def EndsWord (d : Dialect) (rest : List Char) : Prop :=
  ∀ c, rest.head? = some c → Text.isBlank c = true ∨ c = d.terminator

theorem isAlpha_eq_false_of_isBlank {c : Char} (h : Text.isBlank c = true) : c.isAlpha = false := by
  rw [Bool.eq_false_iff]
  intro halpha
  simp only [Text.isBlank, Text.blankRanges, List.any_cons, List.any_nil, Bool.or_eq_true,
    Bool.and_eq_true, decide_eq_true_eq, Bool.or_false] at h
  change (decide ('A'.val ≤ c.val ∧ c.val ≤ 'Z'.val) ||
    (decide ('a'.val ≤ c.val) && decide (c.val ≤ 'z'.val))) = true at halpha
  simp only [Bool.or_eq_true, Bool.and_eq_true, decide_eq_true_eq, UInt32.le_iff_toNat_le] at halpha
  change (65 ≤ c.toNat ∧ c.toNat ≤ 90) ∨ (97 ≤ c.toNat ∧ c.toNat ≤ 122) at halpha
  omega

theorem EndsWord.isAlpha_eq_false {d : Dialect} {rest : List Char} (h : EndsWord d rest)
    (hterminator : d.terminator.isAlpha = false) :
    ∀ c, rest.head? = some c → c.isAlpha = false := by
  intro c hc
  rcases h c hc with hblank | rfl
  · exact isAlpha_eq_false_of_isBlank hblank
  · exact hterminator

/-! ## Readers -/

/-- A comment ends with its closer. -/
theorem exists_append_of_commentBody? {nested : Bool} {inner : Nat} {cs body rest : List Char}
    (h : commentBody? nested inner cs = some (body, rest)) : ∃ b, body = b ++ ['*', '/'] := by
  fun_induction commentBody? nested inner cs generalizing body rest with
  | case1 => cases h
  | case3 cs =>
    cases h
    exact ⟨[], rfl⟩
  | case2 _ _ ih | case4 _ _ ih | case5 _ _ _ _ _ _ ih =>
    obtain ⟨b, hb, rfl⟩ := Taken.after_eq_some_iff.1 h
    obtain ⟨b', rfl⟩ := ih hb
    exact ⟨_ ++ b', (List.append_assoc ..).symm⟩

/-- A comment that is read at the head of a source is read whatever is behind it. -/
theorem commentBody?_replace {nested : Bool} {inner : Nat} {cs body rest : List Char}
    (h : commentBody? nested inner cs = some (body, rest)) (rest' : List Char) :
    commentBody? nested inner (body ++ rest') = some (body, rest') := by
  fun_induction commentBody? nested inner cs generalizing body rest with
  | case1 => cases h
  | case3 cs =>
    cases h
    rfl
  | case2 _ _ ih | case4 _ _ ih =>
    obtain ⟨b, hb, rfl⟩ := Taken.after_eq_some_iff.1 h
    show commentBody? _ _ (_ :: _ :: (b ++ rest')) = _
    rw [commentBody?, ih hb]
    rfl
  | case5 inner c cs hopener hcloser hcloser' ih =>
    obtain ⟨b, hb, rfl⟩ := Taken.after_eq_some_iff.1 h
    -- the comment goes on behind `c`, so what comes next is still there
    have hsame : ∀ x cs', b ++ rest' = x :: cs' → ∃ cs'', cs = x :: cs'' := by
      intro x cs' hx
      obtain ⟨b', rfl⟩ := exists_append_of_commentBody? hb
      obtain ⟨y, ys, hys⟩ := List.exists_cons_of_ne_nil (l := b' ++ ['*', '/']) (by simp)
      rw [hys, List.cons_append] at hx
      obtain ⟨rfl, -⟩ := List.cons.inj hx
      exact ⟨ys ++ rest, by rw [← commentBody?_append hb, hys]; rfl⟩
    show commentBody? nested inner (c :: (b ++ rest')) = _
    rw [commentBody?, ih hb]
    · rfl
    · intro cs' hc hcs'
      obtain ⟨cs'', hcs''⟩ := hsame _ _ hcs'
      exact hopener cs'' hc hcs''
    · intro cs' hinner hc hcs'
      obtain ⟨cs'', hcs''⟩ := hsame _ _ hcs'
      exact hcloser cs'' hinner hc hcs''
    · intro n cs' hinner hc hcs'
      obtain ⟨cs'', hcs''⟩ := hsame _ _ hcs'
      exact hcloser' n cs'' hinner hc hcs''

namespace Token.Form

variable {d : Dialect} {t : Token} {rest rest' : List Char}

/-- What a token looks like depends on the rest of the source only by how that begins. -/
theorem replace (h : t.Form d rest) (hopen : t.isOpen = false) (hlike : BeginsLike rest rest') :
    t.Form d rest' := by
  cases h with
  | openComment | openLiteral => cases hopen
  | newline => exact .newline
  | blank hc => exact .blank hc
  | terminator => exact .terminator
  | content => exact .content
  | lineComment hline hends => exact .lineComment hline (hlike.endsLine hends)
  | directive hmarker hword hkeyword hends hline hrest =>
    refine .directive hmarker hword hkeyword (fun c hc => ?_) hline (hlike.endsLine hrest)
    rcases hlike.append _ c hc with rfl | hc
    · exact ⟨by decide, .inl (by decide)⟩
    · exact hends c hc
  | @blockComment ms _ hread hfirst =>
    -- the same marks may be read otherwise in the other source, but it is the same comment
    have htaken := commentBody?_replace (commentBody?_of_first hread hfirst) rest'
    have htakes := takesComment_commentBody? d.nestedComments 0 (ms.flatMap Mark.text ++ rest')
      fun _ => rfl
    rw [htaken] at htakes
    obtain ⟨ms', htext, hread', hfirst'⟩ := htakes
    rw [← htext] at hread' ⊢
    exact .blockComment hread' hfirst'
  | @literal quote _ _ hquote hbody hne =>
    refine .literal hquote hbody fun hhead => ?_
    have hnewline : ¬IsQuote d '\n' := by simp [IsQuote]
    rcases hlike quote hhead with rfl | hhead
    · exact hnewline hquote
    · exact hne hhead

/-- A token that belongs to a run and ends in blanks behind a visible character is a line comment. -/
theorem exists_of_blanks {w bs : List Char} (h : t.Form d rest) (hrun : t.isBoundary = false)
    (hopen : t.isOpen = false) (htext : t.text = w ++ bs) (hw : w ≠ [])
    (hlast : ∀ c, w.getLast? = some c → Text.isBlank c = false) (hbs : Text.Blanks bs) (hne : bs ≠ []) :
    ∃ body, t.kind = .lexeme .comment ∧ w = ['-', '-'] ++ body ∧ '\n' ∉ body := by
  -- the last character is blank
  obtain ⟨c, hc⟩ : ∃ c, bs.getLast? = some c := Option.isSome_iff_exists.1 (by simpa using hne)
  have hend : t.text.getLast? = some c := by
    rw [htext, List.getLast?_append_of_ne_nil _ hne, hc]
  have hblank : Text.isBlank c = true := hbs c (List.mem_of_getLast? hc)
  have hlength : 1 < t.text.length := by
    have hwlength := List.length_pos_iff.2 hw
    have hbslength := List.length_pos_iff.2 hne
    rw [htext, List.length_append]
    omega
  cases h with
  | directive | terminator => cases hrun
  | openComment | openLiteral => cases hopen
  | newline | blank | content => simp at hlength
  | @lineComment body _ hline =>
    have hmark : Text.isBlank '-' = false := by decide
    match w, hw, htext with
    | [_], _, htext =>
      -- the blanks would begin with the second character of the comment
      obtain ⟨-, rfl⟩ := List.cons.inj htext
      have hdash := hbs '-' List.mem_cons_self
      rw [hmark] at hdash
      cases hdash
    | _ :: _ :: w, _, htext =>
      obtain ⟨rfl, htail⟩ := List.cons.inj htext
      obtain ⟨rfl, rfl⟩ := List.cons.inj htail
      exact ⟨w, rfl, rfl, fun hmem => hline (List.mem_append_left bs hmem)⟩
  | @blockComment ms _ hread hfirst =>
    obtain ⟨b, hb⟩ := exists_append_of_commentBody? (commentBody?_of_first hread hfirst)
    have hslash : some '/' = some c := by
      rw [← hend, hb, ← List.append_assoc]
      show _ = (['/', '*'] ++ b ++ ['*', '/']).getLast?
      rw [List.getLast?_append_of_ne_nil _ (List.cons_ne_nil _ _)]
      rfl
    rw [← Option.some.inj hslash] at hblank
    cases hblank
  | @literal quote body _ hquote =>
    have hquote' : some quote = some c := by
      rw [← hend, ← List.cons_append]
      exact List.getLast?_concat.symm
    rw [← Option.some.inj hquote'] at hblank
    rcases hquote with rfl | ⟨rfl, -⟩ <;> cases hblank

end Token.Form

/-- A keyword ends here. -/
def EndsKeyword (d : Dialect) (rest : List Char) : Prop :=
  ∀ c, rest.head? = some c → c.isAlpha = false ∧ (Text.isBlank c = true ∨ c = d.terminator)

/-- If no directive line is read, none is where the source goes on otherwise: not if it goes on with what
neither a marker nor a keyword holds, and a keyword would have ended before as well. -/
theorem read?_eq_none_of_stop {d : Dialect} {cs rest rest' : List Char}
    (hstop : ∀ c, rest'.head? = some c → c ∉ d.marker.toList ∧ c.isAlpha = false)
    (hends : EndsKeyword d rest' → EndsKeyword d rest)
    (h : DirectiveLine.read? d (cs ++ rest) = none) : DirectiveLine.read? d (cs ++ rest') = none := by
  cases hread : DirectiveLine.read? d (cs ++ rest') with
  | none => rfl
  | some l =>
    obtain ⟨x, argument, text, hsource, hform⟩ := exists_form_of_read? hread
    generalize l.rest = behind at hsource hform
    cases hform with
    | @directive _ word _ _ hmarker hword hkeyword hkeyends =>
      -- the marker and the keyword are written before `rest'`
      have hsplit : (d.marker.toList ++ word) ++ (argument ++ behind) = cs ++ rest' := by
        rw [← List.append_assoc, hsource]
      obtain ⟨v, rfl, hv⟩ :
          ∃ v, cs = (d.marker.toList ++ word) ++ v ∧ argument ++ behind = v ++ rest' := by
        rcases append_eq_append_cases hsplit with hsplit | ⟨v, hv, hmarked, hrest⟩
        · exact hsplit
        · obtain ⟨c, v, rfl⟩ := List.exists_cons_of_ne_nil hv
          obtain ⟨hnot, hletter⟩ := hstop c (by rw [hrest]; rfl)
          have hmem : c ∈ d.marker.toList ++ word := by simp [hmarked]
          rcases List.mem_append.1 hmem with hmem | hmem
          · exact absurd hmem hnot
          · rw [hword c hmem] at hletter
            cases hletter
      rw [hv] at hkeyends
      have hends' : EndsKeyword d (v ++ rest) := by
        cases v with
        | nil => exact hends hkeyends
        | cons c v => exact hkeyends
      have hform' : Token.Form d ⟨.directive x (line (v ++ rest)),
          d.marker.toList ++ word ++ line (v ++ rest)⟩ (afterLine (v ++ rest)) :=
        .directive hmarker hword hkeyword (by rwa [line_append_afterLine]) (not_mem_line _)
          fun c hc => head?_afterLine hc
      have hread' := read?_of_form hform'
      rw [List.append_assoc, line_append_afterLine, ← List.append_assoc, h] at hread'
      cases hread'

/-- At the end of a word and at the end of a line the same directive lines end, or none. -/
theorem read?_eq_none_replace {d : Dialect} (hd : d.Valid) {cs rest rest' : List Char}
    (hletter : ∀ c, rest.head? = some c → c.isAlpha = false) (hrest : EndsWord d rest)
    (hrest' : EndsLine rest') (h : DirectiveLine.read? d (cs ++ rest) = none) :
    DirectiveLine.read? d (cs ++ rest') = none := by
  refine read?_eq_none_of_stop (fun c hc => ?_) (fun _ c hc => ⟨hletter c hc, hrest c hc⟩) h
  obtain rfl := hrest' c hc
  refine ⟨fun hmem => ?_, by decide⟩
  have hvisible := hd.marker_visible _ hmem
  cases hvisible

/-- A directive line is read before any rest of the source that begins alike. -/
theorem read?_replace {d : Dialect} {cs ws rest rest' : List Char} {l : DirectiveLine}
    (h : DirectiveLine.read? d (cs ++ rest) = some l) (hrest : l.rest = ws ++ rest)
    (hlike : BeginsLike rest rest') :
    DirectiveLine.read? d (cs ++ rest') = some { l with rest := ws ++ rest' } := by
  obtain ⟨x, argument, text, hsource, hform⟩ := exists_form_of_read? h
  rw [hrest] at hsource hform
  have hread := read?_of_form hform
  rw [hsource, h] at hread
  obtain rfl := Option.some.inj hread
  have hread' := read?_of_form (hform.replace rfl (hlike.append ws))
  have hcs : text ++ ws = cs := by
    have hall : text ++ ws ++ rest = cs ++ rest := by rw [List.append_assoc, hsource]
    exact List.append_cancel_right hall
  rwa [← List.append_assoc, hcs] at hread'

/-! ## Tokens -/

section

variable {d : Dialect} {before us : List Token} {t : Token} {k : LexemeKind} {c : Char}
  {cs ws text rest rest' : List Char}

theorem Clear.replace {rank : Nat} (h : Clear d rank c cs) {cs' : List Char}
    (hlike : BeginsLike cs cs') : Clear d rank c cs' where
  newline := h.newline
  blank := h.blank
  lineComment hrank := fun ⟨hc, hdash⟩ =>
    h.lineComment hrank ⟨hc, (hlike '-' hdash).resolve_left (by decide)⟩
  blockComment hrank := fun ⟨hc, hstar⟩ =>
    h.blockComment hrank ⟨hc, (hlike '*' hstar).resolve_left (by decide)⟩
  literal := h.literal
  terminator := h.terminator

/-- Where something looks like a lexeme, and nothing that goes before it begins, the lexeme stands. -/
theorem tokenAt_of_form (hform : Token.Form d ⟨.lexeme k, text⟩ rest) (hsource : text ++ rest = c :: cs)
    (hclear : Clear d (TokenKind.lexeme k).rank c cs)
    (hread : MayStartDirective before → DirectiveLine.read? d (c :: cs) = none) :
    TokenAt d before ⟨.lexeme k, text⟩ rest := by
  -- some token stands there, and it is what the splitter finds
  obtain ⟨⟨⟨x, argument⟩ | k', text'⟩, rest', hsource', h⟩ := exists_tokenAt d before c cs
  · obtain ⟨hmay, hdirective⟩ := h.read?_eq
    rw [show text' ++ rest' = c :: cs from hsource', hread hmay] at hdirective
    cases hdirective
  · have hnext := h.next_eq hsource'
    rw [hform.next_eq hsource hclear] at hnext
    obtain ⟨rfl, rfl, rfl⟩ := Lexeme.mk.inj hnext
    exact h

/-- The lexeme that the splitter finds is a token that stands there, behind content for one. -/
theorem exists_tokenAt_of_next (hnext : Lexeme.next d c cs = ⟨k, text, rest⟩) :
    ∃ before, TokenAt d before ⟨.lexeme k, text⟩ rest := by
  -- behind content on the same line no directive line may start
  have hmay : ¬MayStartDirective [⟨.lexeme .content, []⟩] := by
    simp [MayStartDirective, sinceLast, Token.isBoundary, Token.isDirective, Token.isContent]
  obtain ⟨⟨⟨x, argument⟩ | k', text'⟩, rest', hsource, h⟩ :=
    exists_tokenAt d [⟨.lexeme .content, []⟩] c cs
  · exact absurd (h.candidate.admitted rfl) hmay
  · obtain ⟨rfl, rfl, rfl⟩ := Lexeme.mk.inj ((h.next_eq hsource).symm.trans hnext)
    exact ⟨_, h⟩

/-- A lexeme that ends is found before any rest of the source that begins alike. -/
theorem next_replace (hnext : Lexeme.next d c (cs ++ rest) = ⟨k, text, ws ++ rest⟩)
    (hopen : Token.isOpen ⟨.lexeme k, text⟩ = false) (hlike : BeginsLike rest rest') :
    Lexeme.next d c (cs ++ rest') = ⟨k, text, ws ++ rest'⟩ := by
  obtain ⟨before, h⟩ := exists_tokenAt_of_next hnext
  have hsource := Lexeme.text_append_rest d c (cs ++ rest)
  rw [hnext] at hsource
  have hread : text ++ ws = c :: cs := by
    have hall : text ++ ws ++ rest = c :: cs ++ rest := by
      rw [List.append_assoc, hsource, List.cons_append]
    exact List.append_cancel_right hall
  have hsource' : text ++ (ws ++ rest') = c :: (cs ++ rest') := by
    rw [← List.append_assoc, hread, List.cons_append]
  exact (h.candidate.form.replace hopen (hlike.append ws)).next_eq hsource'
    ((h.clear hsource).replace (hlike.append cs))

theorem tokenAt_lineComment {body : List Char} (hbody : '\n' ∉ body) (hrest : EndsLine rest)
    (hread : MayStartDirective before → DirectiveLine.read? d (['-', '-'] ++ body ++ rest) = none) :
    TokenAt d before ⟨.lexeme .comment, ['-', '-'] ++ body⟩ rest := by
  refine tokenAt_of_form (.lineComment hbody hrest) rfl ?_ hread
  exact
    { newline := fun _ => by decide
      blank := fun _ => by decide
      lineComment := fun hrank => absurd hrank (by decide)
      blockComment := fun hrank => absurd hrank (by decide)
      literal := fun hrank => absurd hrank (by decide)
      terminator := fun hrank => absurd hrank (by decide) }

/-- A token stands before the end of a line if it does so before what may end a word. -/
theorem TokenAt.replace (hd : d.Valid) (h : TokenAt d before t (ws ++ rest))
    (hdirective : t.isDirective = false) (hopen : t.isOpen = false)
    (hletter : ∀ c, rest.head? = some c → c.isAlpha = false) (hrest : EndsWord d rest)
    (hrest' : EndsLine rest') : TokenAt d before t (ws ++ rest') := by
  obtain ⟨c, cs, hcs⟩ := List.exists_cons_of_ne_nil h.candidate.form.text_ne_nil
  have hsource : ∀ rest, t.text ++ (ws ++ rest) = c :: (cs ++ ws ++ rest) := fun rest => by
    rw [hcs, List.cons_append, List.append_assoc]
  have hlike := hrest'.beginsLike rest
  have hclear : Clear d t.kind.rank c (cs ++ ws ++ rest') :=
    (h.clear (hsource rest)).replace (hlike.append _)
  have hform := h.candidate.form.replace hopen (hlike.append ws)
  obtain ⟨⟨x, argument⟩ | k, text⟩ := t
  · cases hdirective
  · refine tokenAt_of_form hform (hsource rest') hclear fun hmay => ?_
    have hread := h.read?_eq_none hmay
    rw [hsource rest, ← List.cons_append] at hread
    rw [← List.cons_append]
    exact read?_eq_none_replace hd hletter hrest hrest' hread

/-- Of a token that belongs to a run and ends in blanks, what is left without them is a comment before
the end of a line. -/
theorem TokenAt.exists_trim (hd : d.Valid) (hterminator : d.terminator.isAlpha = false)
    (h : TokenAt d before t rest) (hrun : t.isBoundary = false) (hopen : t.isOpen = false)
    {w bs : List Char} (htext : t.text = w ++ bs) (hw : w ≠ [])
    (hlast : ∀ c, w.getLast? = some c → Text.isBlank c = false) (hbs : Text.Blanks bs) (hne : bs ≠ [])
    (hrest : EndsWord d (bs ++ rest)) :
    t.isContent = false ∧ ∃ t', t'.text = w ∧ t'.kind = .lexeme .comment ∧
      ∀ rest', EndsLine rest' → TokenAt d before t' rest' := by
  obtain ⟨body, hkind, rfl, hbody⟩ :=
    h.candidate.form.exists_of_blanks hrun hopen htext hw hlast hbs hne
  refine ⟨by simp [Token.isContent, hkind], ⟨.lexeme .comment, ['-', '-'] ++ body⟩, rfl, rfl,
    fun rest' hrest' => tokenAt_lineComment hbody hrest' fun hmay => ?_⟩
  obtain ⟨kind, text⟩ := t
  obtain rfl : kind = .lexeme .comment := hkind
  obtain rfl : text = ['-', '-'] ++ body ++ bs := htext
  have hread := h.read?_eq_none hmay
  rw [List.append_assoc _ bs] at hread
  exact read?_eq_none_replace hd (hrest.isAlpha_eq_false hterminator) hrest hrest' hread

/-- Where nothing is pending, tokens are in the way of a directive line only by themselves. -/
theorem mayStartDirective_append_iff
    (hnone : ∀ t ∈ sinceLast Token.isBoundary before, t.isContent = false) :
    MayStartDirective (before ++ us) ↔ MayStartDirective us := by
  have hcontent : (∀ t ∈ sinceLast Token.isBoundary (before ++ us), t.isContent = false) ↔
      ∀ t ∈ sinceLast Token.isBoundary us, t.isContent = false := by
    by_cases hmem : ∃ u ∈ us, u.isBoundary = true
    · obtain ⟨u, hu, hboundary⟩ := hmem
      rw [sinceLast_append_of_mem before hu hboundary]
    · have hrun : ∀ u ∈ us, u.isBoundary = false := by simpa using hmem
      have hnil : sinceLast Token.isBoundary [] = [] := rfl
      have hus : sinceLast Token.isBoundary us = us.reverse := sinceLast_append_run hnil hrun
      rw [sinceLast_append_of_not before hrun, hus]
      exact ⟨fun h t ht => h t (List.mem_append_left _ ht), fun h t ht =>
        (List.mem_append.1 ht).elim (h t) (hnone t)⟩
  unfold MayStartDirective
  rw [hcontent]
  by_cases hmem : ∃ u ∈ us, (u.kind == .lexeme .newline) = true
  · obtain ⟨u, hu, hnewline⟩ := hmem
    rw [sinceLast_append_of_mem before hu hnewline]
  · -- without a newline among them, they have to be blanks, and then there is no content
    have hline : ∀ u ∈ us, (u.kind == .lexeme .newline) = false := by simpa using hmem
    have hblank : (∀ u ∈ us, u.kind = .lexeme .blank) →
        ∀ t ∈ sinceLast Token.isBoundary us, t.isContent = false := by
      intro hus t ht
      have hmem : t ∈ us := List.mem_reverse.1 ((List.takeWhile_sublist _).subset ht)
      simp [Token.isContent, hus t hmem]
    have hus : sinceLast (·.kind == .lexeme .newline) us = us.reverse := by
      have hstart := sinceLast_append_of_not [] hline
      rwa [show sinceLast (·.kind == .lexeme .newline) [] = [] from rfl, List.append_nil] at hstart
    rw [sinceLast_append_of_not before hline, hus]
    constructor
    · rintro (h | h)
      · exact .inr (hblank fun u hu => h u (List.mem_append_left _ (List.mem_reverse.2 hu)))
      · exact .inr h
    · rintro (h | h)
      · exact .inr (hblank fun u hu => h u (List.mem_reverse.2 hu))
      · exact .inr h

theorem mayStartDirective_nil : MayStartDirective [] := .inl (List.forall_mem_nil _)

/-- Tokens before which nothing is pending stand as at the beginning of a source. -/
theorem TokenAt.restart (hmay : MayStartDirective before ↔ MayStartDirective us)
    (h : TokenAt d before t rest) : TokenAt d us t rest where
  candidate := ⟨h.candidate.form, fun ht => hmay.1 (h.candidate.admitted ht)⟩
  least hsource h' := h.least hsource ⟨h'.form, fun ht => hmay.2 (h'.admitted ht)⟩

end

/-! ## Rows of tokens -/

/-- Tokens stand one behind the other, behind the tokens `before` and before the rest of the source. -/
inductive Stands (d : Dialect) : (before ts : List Token) → (rest : List Char) → Prop where
  | nil (before : List Token) (rest : List Char) : Stands d before [] rest
  | cons {before ts : List Token} {t : Token} {rest : List Char}
      (h : TokenAt d before t (textOf ts ++ rest)) (hts : Stands d (before ++ [t]) ts rest) : Stands d before (t :: ts) rest

namespace Stands

variable {d : Dialect} {before ts us : List Token} {rest : List Char}

theorem append_iff : Stands d before (ts ++ us) rest ↔
    Stands d before ts (textOf us ++ rest) ∧ Stands d (before ++ ts) us rest := by
  induction ts generalizing before with
  | nil =>
    rw [List.append_nil]
    exact ⟨fun h => ⟨.nil _ _, h⟩, fun h => h.2⟩
  | cons t ts ih =>
    constructor
    · rintro (_ | ⟨h, hts⟩)
      obtain ⟨hts, hus⟩ := ih.1 hts
      change TokenAt d before t (textOf (ts ++ us) ++ rest) at h
      rw [textOf_append, List.append_assoc] at h
      rw [List.append_assoc] at hus
      exact ⟨.cons h hts, hus⟩
    · rintro ⟨_ | ⟨h, hts⟩, hus⟩
      refine .cons ?_ (ih.2 ⟨hts, by rwa [List.append_assoc]⟩)
      show TokenAt d before t (textOf (ts ++ us) ++ rest)
      rwa [textOf_append, List.append_assoc]

/-- Where nothing is pending, tokens stand as at the beginning of a source. -/
theorem restart_iff (hnone : ∀ t ∈ sinceLast Token.isBoundary before, t.isContent = false) :
    Stands d before ts rest ↔ Stands d [] ts rest := by
  suffices h : ∀ us, Stands d (before ++ us) ts rest ↔ Stands d us ts rest by
    have hnil := h []
    rwa [List.append_nil] at hnil
  induction ts with
  | nil => exact fun us => ⟨fun _ => .nil _ _, fun _ => .nil _ _⟩
  | cons t ts ih =>
    intro us
    have hmay : MayStartDirective (before ++ us) ↔ MayStartDirective us :=
      mayStartDirective_append_iff hnone
    have hts := ih (us ++ [t])
    rw [← List.append_assoc] at hts
    constructor
    · rintro (_ | ⟨h, htail⟩)
      exact .cons (h.restart hmay) (hts.1 htail)
    · rintro (_ | ⟨h, htail⟩)
      exact .cons (h.restart hmay.symm) (hts.2 htail)

/-- Without the blanks at their end, tokens that belong to a run stand before any end of a line. -/
theorem exists_trim (hd : d.Valid) (hterminator : d.terminator.isAlpha = false)
    (h : Stands d before ts rest) (hrun : IsRun ts) (hclosed : ∀ t ∈ ts, t.isOpen = false)
    {w bs : List Char} (htext : textOf ts = w ++ bs)
    (hlast : ∀ c, w.getLast? = some c → Text.isBlank c = false) (hbs : Text.Blanks bs)
    (hrest : EndsWord d (bs ++ rest)) :
    ∃ ts', textOf ts' = w ∧ IsRun ts' ∧ (∀ t ∈ ts', t.isOpen = false) ∧
      (w ≠ [] → ∀ t, ts.head? = some t → t.isContent = true → ts'.head? = some t) ∧
      ∀ rest', EndsLine rest' → Stands d before ts' rest' := by
  induction h generalizing w with
  | nil =>
    obtain ⟨rfl, -⟩ := List.append_eq_nil_iff.1 htext.symm
    exact ⟨[], rfl, isRun_nil, List.forall_mem_nil _, fun hne => absurd rfl hne,
      fun _ _ => .nil _ _⟩
  | @cons before ts t rest h hts ih =>
    by_cases hw : w = []
    · exact ⟨[], hw.symm, isRun_nil, List.forall_mem_nil _, fun hne => absurd hw hne,
        fun _ _ => .nil _ _⟩
    obtain ⟨hrunt, hruns⟩ := List.forall_mem_cons.1 hrun
    obtain ⟨hclosedt, hcloseds⟩ := List.forall_mem_cons.1 hclosed
    have hdirective : t.isDirective = false := (Bool.or_eq_false_iff.1 hrunt).1
    change t.text ++ textOf ts = w ++ bs at htext
    rcases append_eq_append_cases htext with ⟨ws, rfl, hts'⟩ | ⟨bs', hne, ht, rfl⟩
    · -- the token is in what is left
      have hlast' : ∀ c, ws.getLast? = some c → Text.isBlank c = false := fun c hc =>
        hlast c (by rw [List.getLast?_append, hc]; rfl)
      obtain ⟨ts', rfl, hrun', hclosed', -, hstands⟩ := ih hruns hcloseds hts' hlast' hrest
      rw [hts', List.append_assoc] at h
      refine ⟨t :: ts', rfl, List.forall_mem_cons.2 ⟨hrunt, hrun'⟩,
        List.forall_mem_cons.2 ⟨hclosedt, hclosed'⟩, fun _ u hu _ => hu, fun rest' hrest' => ?_⟩
      have hletter := hrest.isAlpha_eq_false hterminator
      exact .cons (h.replace hd hdirective hclosedt hletter hrest hrest') (hstands rest' hrest')
    · have hblanks : Text.Blanks bs' := fun c hc => hbs c (List.mem_append_left _ hc)
      rw [List.append_assoc] at hrest
      obtain ⟨hcontent, t', rfl, hkind, hstands⟩ :=
        h.exists_trim hd hterminator hrunt hclosedt ht hw hlast hblanks hne hrest
      refine ⟨[t'], textOf_singleton t', ?_, ?_, fun _ u hu hu' => ?_,
        fun rest' hrest' => .cons (hstands rest' hrest') (.nil _ _)⟩
      · simp [IsRun, Token.isBoundary, Token.isDirective, hkind]
      · simp [Token.isOpen, hkind]
      · obtain rfl : t = u := Option.some.inj hu
        rw [hcontent] at hu'
        cases hu'

end Stands

theorem isSegmentation_iff_stands {d : Dialect} {source : List Char} {tokens : List Token} :
    IsSegmentation d source tokens ↔ textOf tokens = source ∧ Stands d [] tokens [] := by
  rw [isSegmentation_iff_segmented]
  generalize ([] : List Token) = before
  constructor
  · intro h
    induction h with
    | nil before => exact ⟨rfl, .nil _ _⟩
    | @cons before t rest tokens h _ ih =>
      obtain ⟨rfl, hstands⟩ := ih
      exact ⟨rfl, .cons (by rwa [List.append_nil]) hstands⟩
  · rintro ⟨rfl, h⟩
    generalize hrest : ([] : List Char) = rest at h
    induction h with
    | nil => exact .nil _
    | cons h _ ih =>
      subst hrest
      rw [List.append_nil] at h
      exact .cons h (ih rfl)

end SqlFlow
