import SqlFlow.Proofs.Lexer.Token

/-!
# Readers and tokens

What the readers of the splitter take off a source is what a token of their kind looks like, and the
other way round.

* `takeWhile_append_stop`, `dropWhile_append_stop`: a longest run, told by what it holds and by what
  stops it.
* `takesComment_commentBody?`, `commentBody?_of_first`, `commentBody?_of_never`: comments.
* `takesLiteral_literalBody?`, `literalBody?_of_quoted`, `literalBody?_of_quoted_all`: literals.
* `read?_of_form`, `exists_form_of_read?`: directive lines.
* `Clear`: nothing that goes before a token begins there. `Token.Form.next_eq`: then it is found.
* `TokenAt.read?_eq`, `TokenAt.next_eq`: the token at a place is what the splitter finds there.
-/

namespace SqlFlow

open Source

/-! ## Longest runs -/

section

variable {α : Type} {p : α → Bool} {as bs : List α} (has : ∀ a ∈ as, p a = true)
  (hbs : ∀ b, bs.head? = some b → p b = false)

include has hbs

theorem takeWhile_append_stop : (as ++ bs).takeWhile p = as := by
  have hstop : bs.takeWhile p = [] := by
    cases bs with
    | nil => rfl
    | cons b bs => simp [hbs b rfl]
  rw [List.takeWhile_append_of_pos has, hstop, List.append_nil]

theorem dropWhile_append_stop : (as ++ bs).dropWhile p = bs := by
  rw [List.dropWhile_append_of_pos has]
  cases bs with
  | nil => rfl
  | cons b bs => simp [hbs b rfl]

end

section

variable {cs rest : List Char} (hline : '\n' ∉ cs) (hrest : ∀ c, rest.head? = some c → c = '\n')

include hline hrest

theorem line_append_of_stop : line (cs ++ rest) = cs := by
  refine takeWhile_append_stop (fun c hc => ?_) fun c hc => by simp [hrest c hc]
  have hne : c ≠ '\n' := fun h => hline (h ▸ hc)
  simpa using hne

theorem afterLine_append_of_stop : afterLine (cs ++ rest) = rest := by
  have h := line_append_afterLine (cs ++ rest)
  rw [line_append_of_stop hline hrest] at h
  exact List.append_cancel_left h

end

theorem not_mem_line (cs : List Char) : '\n' ∉ line cs := by
  intro hmem
  have hall := List.all_eq_true.1 (List.all_takeWhile (l := cs) (p := (· != '\n'))) '\n' hmem
  simp at hall

theorem head?_afterLine {cs : List Char} {c : Char} (h : (afterLine cs).head? = some c) : c = '\n' := by
  have hstop := List.head?_dropWhile_not (· != '\n') cs
  rw [show (cs.dropWhile (· != '\n')).head? = some c from h] at hstop
  simpa using hstop

/-! ## Comments -/

section First

variable {α : Type} {P Q : List α → Prop} {a : α} {as : List α}

/-- If the head of a row makes no difference but from one property to another, it does not to where they
come to hold first. -/
theorem First.cons (hcons : ∀ bs, P (a :: bs) ↔ Q bs) (hnil : ¬P []) (h : First Q as) :
    First P (a :: as) := by
  refine ⟨(hcons as).2 h.1, fun bs hbs hP => ?_⟩
  rcases List.prefix_cons_iff.1 hbs with rfl | ⟨cs, rfl, hcs⟩
  · exact absurd hP hnil
  · rw [h.2 cs hcs ((hcons cs).1 hP)]

theorem never_cons (hcons : ∀ bs, P (a :: bs) ↔ Q bs) (hnil : ¬P [])
    (h : ∀ bs, bs <+: as → ¬Q bs) : ∀ bs, bs <+: a :: as → ¬P bs := by
  intro bs hbs hP
  rcases List.prefix_cons_iff.1 hbs with rfl | ⟨cs, rfl, hcs⟩
  · exact hnil hP
  · exact h cs hcs ((hcons cs).1 hP)

/-- Of the starts of a row only one has a property first. -/
theorem First.unique {bs row : List α} (has : as <+: row) (hbs : bs <+: row) (h : First P as)
    (h' : First P bs) : as = bs := by
  rcases List.prefix_or_prefix_of_prefix has hbs with hprefix | hprefix
  · exact h'.2 as hprefix h.1
  · exact (h.2 bs hprefix h'.1).symm

end First

section

variable {nested : Bool} {depth : Nat} {ms : List Mark} {c : Char}

theorem not_closes_nil : ¬Closes nested (depth + 1) [] := by
  cases nested <;> simp [Closes]

theorem closes_opener_iff : Closes nested depth (.opener :: ms) ↔ Closes nested (depth + 1) ms := by
  cases nested <;> simp [Closes]
  omega

theorem closes_closer_iff : Closes true (depth + 1) (.closer :: ms) ↔ Closes true depth ms := by
  simp [Closes]
  omega

theorem closes_other_iff : Closes nested depth (.other c :: ms) ↔ Closes nested depth ms := by
  cases nested <;> simp [Closes]

end

/-- What a reader of comments should take of `cs`, where `depth` comments are open. -/
def TakesComment (nested : Bool) (depth : Nat) (cs : List Char) : Taken → Prop
  | some (body, _) => ∃ ms, ms.flatMap Mark.text = body ∧ ms <+: marks cs ∧
      First (Closes nested depth) ms
  | none => ∀ ms, ms <+: marks cs → ¬Closes nested depth ms

/-- One mark that does not close the last open comment. -/
theorem TakesComment.after {nested : Bool} {depth depth' : Nat} {cs cs' : List Char} {m : Mark}
    {t : Taken} (hmarks : marks cs' = m :: marks cs)
    (hcons : ∀ ms, Closes nested (depth + 1) (m :: ms) ↔ Closes nested depth' ms)
    (h : TakesComment nested depth' cs t) : TakesComment nested (depth + 1) cs' (t.after m.text) := by
  cases t with
  | none =>
    show ∀ ms, ms <+: marks cs' → ¬Closes nested (depth + 1) ms
    rw [hmarks]
    exact never_cons hcons not_closes_nil h
  | some taken =>
    obtain ⟨body, rest⟩ := taken
    obtain ⟨ms, rfl, hprefix, hfirst⟩ := h
    refine ⟨m :: ms, rfl, ?_, hfirst.cons hcons not_closes_nil⟩
    rw [hmarks]
    exact List.prefix_cons_iff.2 (.inr ⟨ms, rfl, hprefix⟩)

/-- Comments are read mark by mark, up to where the comment is closed first. -/
theorem takesComment_commentBody? (nested : Bool) (inner : Nat) (cs : List Char)
    (h : nested = false → inner = 0) :
    TakesComment nested (inner + 1) cs (commentBody? nested inner cs) := by
  -- where comments do not nest, `inner` stays 0: openers leave `Closes` as it is
  fun_induction commentBody? nested inner cs with
  | case1 inner =>
    intro ms hms
    obtain rfl := List.prefix_nil.1 hms
    exact not_closes_nil
  | case2 inner cs ih =>
    refine .after (m := .opener) rfl (fun ms => ?_) (ih ?_)
    · rw [closes_opener_iff]
      cases nested <;> simp [Closes]
    · cases nested with
      | false => exact fun _ => h rfl
      | true => simp
  | case3 cs =>
    -- the closer of the one comment that is open
    refine ⟨[.closer], rfl, ⟨marks cs, rfl⟩, by cases nested <;> simp [Closes],
      fun bs hbs hcloses => ?_⟩
    rcases List.prefix_cons_iff.1 hbs with rfl | ⟨bs', rfl, hbs'⟩
    · exact absurd hcloses not_closes_nil
    · rw [List.prefix_nil.1 hbs']
  | case4 inner cs ih =>
    cases nested with
    | false => exact absurd (h rfl) (Nat.succ_ne_zero inner)
    | true => exact .after (m := .closer) rfl (fun ms => closes_closer_iff) (ih (by simp))
  | case5 inner c cs hopener hcloser hcloser' ih =>
    -- neither an opener nor a closer begins here
    refine .after (m := .other c) ?_ (fun ms => closes_other_iff) (ih h)
    rw [marks]
    · exact hopener
    · intro cs' hc hcs
      cases inner with
      | zero => exact hcloser cs' rfl hc hcs
      | succ inner => exact hcloser' inner cs' rfl hc hcs

section

variable {nested : Bool} {cs rest : List Char} {ms : List Mark}

theorem commentBody?_of_first (hread : ms <+: marks (ms.flatMap Mark.text ++ rest))
    (hfirst : First (Closes nested 1) ms) :
    commentBody? nested 0 (ms.flatMap Mark.text ++ rest) = some (ms.flatMap Mark.text, rest) := by
  have htakes := takesComment_commentBody? nested 0 (ms.flatMap Mark.text ++ rest) fun _ => rfl
  cases htaken : commentBody? nested 0 (ms.flatMap Mark.text ++ rest) with
  | none =>
    rw [htaken] at htakes
    exact absurd hfirst.1 (htakes ms hread)
  | some taken =>
    obtain ⟨body, rest'⟩ := taken
    have happend := commentBody?_append htaken
    rw [htaken] at htakes
    obtain ⟨ms', rfl, hprefix, hfirst'⟩ := htakes
    obtain rfl := First.unique hprefix hread hfirst' hfirst
    rw [List.append_cancel_left happend]

theorem commentBody?_of_never (hopen : ∀ ms, ms <+: marks cs → ¬Closes nested 1 ms) :
    commentBody? nested 0 cs = none := by
  have htakes := takesComment_commentBody? nested 0 cs fun _ => rfl
  cases htaken : commentBody? nested 0 cs with
  | none => rfl
  | some taken =>
    rw [htaken] at htakes
    obtain ⟨ms, -, hprefix, hfirst⟩ := htakes
    exact absurd hfirst.1 (hopen ms hprefix)

end

/-! ## Literals -/

theorem literalBody?_of_quoted {quote : Char} {body rest : List Char} (h : Quoted quote body)
    (hrest : rest.head? ≠ some quote) :
    literalBody? quote (body ++ quote :: rest) = some (body ++ [quote], rest) := by
  induction h with
  | nil =>
    cases rest with
    | nil => simp [literalBody?]
    | cons c rest =>
      have hne : c ≠ quote := by simpa using hrest
      simp [literalBody?, hne]
  | @char c body hc _ ih =>
    have hread : literalBody? quote (c :: (body ++ quote :: rest)) =
        (literalBody? quote (body ++ quote :: rest)).after [c] := by
      cases hcs : body ++ quote :: rest with
      | nil => simp at hcs
      | cons next cs => simp [literalBody?, hc]
    rw [List.cons_append, hread, ih]
    rfl
  | @doubled body _ ih =>
    rw [List.cons_append, List.cons_append, literalBody?, if_pos rfl, if_pos rfl, ih]
    rfl

theorem literalBody?_of_quoted_all {quote : Char} {body : List Char} (h : Quoted quote body) :
    literalBody? quote body = none := by
  induction h with
  | nil => rfl
  | @char c body hc _ ih =>
    cases body with
    | nil => simp [literalBody?, hc]
    | cons next cs => simp [literalBody?, hc, ih, Taken.after]
  | doubled _ ih => simp [literalBody?, ih, Taken.after]

/-- What a reader of literals should take of `cs`, behind the quote. -/
def TakesLiteral (quote : Char) (cs : List Char) : Taken → Prop
  | some (body, rest) => ∃ b, body = b ++ [quote] ∧ Quoted quote b ∧ rest.head? ≠ some quote
  | none => Quoted quote cs

theorem TakesLiteral.after (read : List Char) {quote : Char} {cs : List Char} {t : Taken}
    (hread : ∀ {b}, Quoted quote b → Quoted quote (read ++ b)) (h : TakesLiteral quote cs t) :
    TakesLiteral quote (read ++ cs) (t.after read) := by
  cases t with
  | none => exact hread h
  | some taken =>
    obtain ⟨body, rest⟩ := taken
    obtain ⟨b, rfl, hb, hrest⟩ := h
    exact ⟨read ++ b, (List.append_assoc ..).symm, hread hb, hrest⟩

theorem takesLiteral_literalBody? (quote : Char) (cs : List Char) :
    TakesLiteral quote cs (literalBody? quote cs) := by
  fun_induction literalBody? quote cs with
  | case1 => exact Quoted.nil
  | case2 => exact ⟨[], rfl, .nil, by simp⟩
  | case3 c hc => exact Quoted.nil.char hc
  | case4 cs ih => exact ih.after [_, _] fun h => h.doubled
  | case5 next cs hnext => exact ⟨[], rfl, .nil, by simpa using hnext⟩
  | case6 c next cs hc ih => exact ih.after [c] fun h => h.char hc

/-! ## Directive lines -/

theorem ofKeyword?_eq_some_iff {word : List Char} {x : Directive} :
    Directive.ofKeyword? word = some x ↔ word.map Char.toLower = x.keyword.toList := by
  constructor
  · intro h
    have hfound := List.find?_some h
    exact (beq_iff_eq.1 hfound).symm
  · intro h
    -- a keyword is its own lower case, so the word is looked up as the keyword is
    have hlower : x.keyword.toList.map Char.toLower = x.keyword.toList := by cases x <;> decide
    rw [← Directive.ofKeyword?_keyword x, Directive.ofKeyword?, Directive.ofKeyword?, h, hlower]

/-- Where a token looks like a directive line, one is read. -/
theorem read?_of_form {d : Dialect} {x : Directive} {argument text rest : List Char}
    (h : Token.Form d ⟨.directive x argument, text⟩ rest) :
    DirectiveLine.read? d (text ++ rest)
      = some ⟨x, DirectiveLine.argument d argument, Text.trim text, rest⟩ := by
  cases h with
  | @directive _ word _ _ hmarker hword hkeyword hends hline hrest =>
    have hstop : ∀ c, (argument ++ rest).head? = some c → c.isAlpha = false :=
      fun c hc => (hends c hc).1
    have hprefix :
        d.marker.toList.isPrefixOf (d.marker.toList ++ (word ++ (argument ++ rest))) = true :=
      List.isPrefixOf_iff_prefix.2 (List.prefix_append ..)
    have hbehind : DirectiveLine.endsKeyword d (argument ++ rest) = true := by
      cases hcs : argument ++ rest with
      | nil => rfl
      | cons c cs => simpa [DirectiveLine.endsKeyword] using (hends c (by rw [hcs]; rfl)).2
    simp only [List.append_assoc, DirectiveLine.read?, hprefix, List.drop_left,
      takeWhile_append_stop hword hstop, dropWhile_append_stop hword hstop, DirectiveLine.ofWord?,
      hbehind, ofKeyword?_eq_some_iff.2 hkeyword, line_append_of_stop hline hrest,
      afterLine_append_of_stop hline hrest]
    simp [hmarker]

/-- What is read as a directive line looks like one. -/
theorem exists_form_of_read? {d : Dialect} {cs : List Char} {l : DirectiveLine}
    (h : DirectiveLine.read? d cs = some l) :
    ∃ x argument text, text ++ l.rest = cs ∧ Token.Form d ⟨.directive x argument, text⟩ l.rest := by
  simp only [DirectiveLine.read?, DirectiveLine.ofWord?] at h
  split at h
  · next hmarked =>
    obtain ⟨hmarker, hprefix⟩ := Bool.and_eq_true_iff.1 hmarked
    obtain ⟨marked, rfl⟩ := List.isPrefixOf_iff_prefix.1 hprefix
    rw [List.drop_left] at h
    split at h
    · next hbehind =>
      obtain ⟨x, hx, rfl⟩ := Option.map_eq_some_iff.1 h
      have hsplit : marked.takeWhile Char.isAlpha ++ marked.dropWhile Char.isAlpha = marked :=
        List.takeWhile_append_dropWhile
      -- the word and what is behind it, by what is known of either and no longer by how they are cut
      generalize hword : marked.takeWhile Char.isAlpha = word at *
      generalize hrest : marked.dropWhile Char.isAlpha = behind at *
      have hletters : ∀ c ∈ word, c.isAlpha = true := by
        rw [← hword]
        exact List.all_eq_true.1 List.all_takeWhile
      have hends : ∀ c, behind.head? = some c →
          c.isAlpha = false ∧ (Text.isBlank c = true ∨ c = d.terminator) := fun c hc => by
        have hstop := List.head?_dropWhile_not Char.isAlpha marked
        rw [hrest, hc] at hstop
        obtain ⟨cs, rfl⟩ : ∃ cs, behind = c :: cs := by
          cases behind with
          | nil => simp at hc
          | cons c' cs => exact ⟨cs, by rw [Option.some.inj hc]⟩
        exact ⟨hstop, by simpa [DirectiveLine.endsKeyword] using hbehind⟩
      refine ⟨x, line behind, d.marker.toList ++ word ++ line behind, ?_, ?_⟩
      · rw [List.append_assoc, line_append_afterLine, List.append_assoc, hsplit]
      · refine .directive ?_ hletters (ofKeyword?_eq_some_iff.1 hx) ?_ (not_mem_line _)
          fun c hc => head?_afterLine hc
        · simpa using hmarker
        · rwa [line_append_afterLine]
    · cases h
  · cases h

/-! ## The branches of the splitter -/

section

variable (d : Dialect) {c : Char} (cs : List Char)

theorem opensLiteral_iff : Lexeme.opensLiteral d c = true ↔ IsQuote d c := by
  simp [Lexeme.opensLiteral, IsQuote]

theorem next_blank (hn : c ≠ '\n') (hb : Text.isBlank c = true) :
    Lexeme.next d c cs = ⟨.blank, [c], cs⟩ := by
  simp [Lexeme.next, hn, hb]

theorem next_lineComment :
    Lexeme.next d '-' ('-' :: cs) =
      ⟨.comment, line ('-' :: '-' :: cs), afterLine ('-' :: '-' :: cs)⟩ := by
  have hb : Text.isBlank '-' = false := by decide
  simp [Lexeme.next, hb]

theorem next_blockComment :
    Lexeme.next d '/' ('*' :: cs) = Lexeme.delimited .comment .openComment ['/', '*'] cs
      (commentBody? d.nestedComments 0 cs) := by
  have hb : Text.isBlank '/' = false := by decide
  simp [Lexeme.next, hb]

variable (hn : c ≠ '\n') (hb : Text.isBlank c = false) (hl : ¬(c = '-' ∧ cs.head? = some '-'))
  (hc : ¬(c = '/' ∧ cs.head? = some '*'))

include hn hb hl hc

theorem next_literal (hq : IsQuote d c) :
    Lexeme.next d c cs = Lexeme.delimited .literal (.openLiteral c) [c] cs (literalBody? c cs) := by
  simp [Lexeme.next, hn, hb, hl, hc, (opensLiteral_iff d).2 hq]

theorem next_terminator (hq : ¬IsQuote d c) (ht : c = d.terminator) :
    Lexeme.next d c cs = ⟨.terminator, [c], cs⟩ := by
  rw [← opensLiteral_iff] at hq
  simp only [Lexeme.next, beq_iff_eq, Bool.and_eq_true, if_neg hn, hb, if_neg hl, if_neg hc, if_neg hq,
    Bool.false_eq_true, if_false, if_pos ht]

theorem next_content (hq : ¬IsQuote d c) (ht : c ≠ d.terminator) :
    Lexeme.next d c cs = ⟨.content, [c], cs⟩ := by
  rw [← opensLiteral_iff] at hq
  simp [Lexeme.next, hn, hb, hl, hc, hq, ht]

end

/-! ## The token at a place -/

theorem Token.Form.text_ne_nil {d : Dialect} {t : Token} {rest : List Char} (h : t.Form d rest) :
    t.text ≠ [] := by
  cases h with
  | directive hmarker => simp [hmarker]
  | newline | blank | lineComment | blockComment | openComment | literal | openLiteral | terminator
    | content => exact List.cons_ne_nil _ _

/-- At the head of the source `c :: cs` begins nothing of a kind that goes before those of the rank. -/
structure Clear (d : Dialect) (rank : Nat) (c : Char) (cs : List Char) : Prop where
  newline : 1 < rank → c ≠ '\n'
  blank : 2 < rank → Text.isBlank c = false
  lineComment : 3 < rank → ¬(c = '-' ∧ cs.head? = some '-')
  blockComment : 3 < rank → ¬(c = '/' ∧ cs.head? = some '*')
  literal : 4 < rank → ¬IsQuote d c
  terminator : 5 < rank → c ≠ d.terminator

/-- Where something looks like a lexeme, and nothing that goes before it begins, the splitter finds it. -/
theorem Token.Form.next_eq {d : Dialect} {k : LexemeKind} {text rest cs : List Char} {c : Char}
    (h : Token.Form d ⟨.lexeme k, text⟩ rest) (hsource : text ++ rest = c :: cs)
    (hclear : Clear d (TokenKind.lexeme k).rank c cs) : Lexeme.next d c cs = ⟨k, text, rest⟩ := by
  obtain ⟨hnewline, hblank, hline, hblock, hliteral, hterminator⟩ := hclear
  cases h with
  | newline =>
    obtain ⟨rfl, rfl⟩ := List.cons.inj hsource
    rfl
  | blank hc =>
    obtain ⟨rfl, rfl⟩ := List.cons.inj hsource
    exact next_blank d _ (hnewline (by decide)) hc
  | @lineComment body _ hbody hrest =>
    obtain ⟨rfl, rfl⟩ := List.cons.inj hsource
    have hbody' : '\n' ∉ ['-', '-'] ++ body := by simpa using hbody
    have hnext := next_lineComment d (body ++ rest)
    have htext : line ('-' :: '-' :: (body ++ rest)) = ['-', '-'] ++ body :=
      line_append_of_stop hbody' hrest
    have hafter : afterLine (['-', '-'] ++ body ++ rest) = rest := afterLine_append_of_stop hbody' hrest
    rw [htext] at hnext
    exact hnext.trans (congrArg (Lexeme.mk _ _) hafter)
  | @blockComment ms _ hread hfirst =>
    obtain ⟨rfl, rfl⟩ := List.cons.inj hsource
    have hnext := next_blockComment d (ms.flatMap Mark.text ++ rest)
    rwa [commentBody?_of_first hread hfirst] at hnext
  | @openComment body hopen =>
    rw [List.append_nil] at hsource
    obtain ⟨rfl, rfl⟩ := List.cons.inj hsource
    have hnext := next_blockComment d body
    rwa [commentBody?_of_never hopen] at hnext
  | @literal quote body _ hquote hbody hrest =>
    have hsource' : quote :: (body ++ quote :: rest) = c :: cs := by simpa using hsource
    obtain ⟨rfl, rfl⟩ := List.cons.inj hsource'
    have hnext := next_literal d _ (hnewline (by decide)) (hblank (by decide)) (hline (by decide))
      (hblock (by decide)) hquote
    rwa [literalBody?_of_quoted hbody hrest] at hnext
  | @openLiteral quote body hquote hbody =>
    rw [List.append_nil] at hsource
    obtain ⟨rfl, rfl⟩ := List.cons.inj hsource
    have hrank : (TokenKind.lexeme (.openLiteral quote)).rank = 4 := rfl
    have hnext := next_literal d _ (hnewline (by omega)) (hblank (by omega)) (hline (by omega))
      (hblock (by omega)) hquote
    rwa [literalBody?_of_quoted_all hbody] at hnext
  | terminator =>
    obtain ⟨rfl, rfl⟩ := List.cons.inj hsource
    exact next_terminator d _ (hnewline (by decide)) (hblank (by decide)) (hline (by decide))
      (hblock (by decide)) (hliteral (by decide)) rfl
  | content =>
    obtain ⟨rfl, rfl⟩ := List.cons.inj hsource
    exact next_content d _ (hnewline (by decide)) (hblank (by decide)) (hline (by decide))
      (hblock (by decide)) (hliteral (by decide)) (hterminator (by decide))

namespace TokenAt

variable {d : Dialect} {before : List Token} {t : Token} {rest : List Char}

/-- What goes before a token cannot be taken for it. -/
theorem false_of_form (h : TokenAt d before t rest) {k : LexemeKind} {text rest' : List Char}
    (hform : Token.Form d ⟨.lexeme k, text⟩ rest') (hsource : t.text ++ rest = text ++ rest')
    (hrank : (TokenKind.lexeme k).rank < t.kind.rank) : False := by
  have hle : t.kind.rank ≤ (TokenKind.lexeme k).rank := h.least hsource.symm ⟨hform, nofun⟩
  omega

/-- At a directive line one is read. -/
theorem read?_eq {x : Directive} {argument text : List Char}
    (h : TokenAt d before ⟨.directive x argument, text⟩ rest) :
    MayStartDirective before ∧ DirectiveLine.read? d (text ++ rest)
      = some ⟨x, DirectiveLine.argument d argument, Text.trim text, rest⟩ :=
  ⟨h.candidate.admitted rfl, read?_of_form h.candidate.form⟩

/-- At any other token none is read where one may start. -/
theorem read?_eq_none {k : LexemeKind} {text : List Char}
    (h : TokenAt d before ⟨.lexeme k, text⟩ rest) (hmay : MayStartDirective before) :
    DirectiveLine.read? d (text ++ rest) = none := by
  cases hread : DirectiveLine.read? d (text ++ rest) with
  | none => rfl
  | some l =>
    obtain ⟨x, argument, text', hsource, hform⟩ := exists_form_of_read? hread
    have hle : (TokenKind.lexeme k).rank ≤ (TokenKind.directive x argument).rank :=
      h.least hsource ⟨hform, fun _ => hmay⟩
    cases k <;> simp [TokenKind.rank] at hle

section

variable {c : Char} {cs : List Char} (h : TokenAt d before t rest) (hsource : t.text ++ rest = c :: cs)

include h hsource

theorem ne_newline (hrank : 1 < t.kind.rank) : c ≠ '\n' := by
  rintro rfl
  exact h.false_of_form .newline hsource hrank

theorem isBlank_eq_false (hrank : 2 < t.kind.rank) : Text.isBlank c = false :=
  Bool.eq_false_iff.2 fun hc => h.false_of_form (.blank hc) hsource hrank

theorem not_lineComment (hrank : 3 < t.kind.rank) : ¬(c = '-' ∧ cs.head? = some '-') := by
  rintro ⟨rfl, hcs⟩
  obtain ⟨cs', rfl⟩ := List.head?_eq_some_iff.1 hcs
  have hform : Token.Form d ⟨.lexeme .comment, ['-', '-'] ++ line cs'⟩ (afterLine cs') :=
    .lineComment (not_mem_line cs') fun c hc => head?_afterLine hc
  refine h.false_of_form hform ?_ hrank
  rw [hsource, List.append_assoc, line_append_afterLine]
  rfl

theorem not_blockComment (hrank : 3 < t.kind.rank) : ¬(c = '/' ∧ cs.head? = some '*') := by
  rintro ⟨rfl, hcs⟩
  obtain ⟨cs', rfl⟩ := List.head?_eq_some_iff.1 hcs
  have hread := takesComment_commentBody? d.nestedComments 0 cs' fun _ => rfl
  cases htaken : commentBody? d.nestedComments 0 cs' with
  | none =>
    rw [htaken] at hread
    have hform : Token.Form d ⟨.lexeme .openComment, ['/', '*'] ++ cs'⟩ [] := .openComment hread
    exact h.false_of_form hform (by rw [hsource, List.append_nil]; rfl) hrank
  | some taken =>
    obtain ⟨body, rest'⟩ := taken
    have happend := commentBody?_append htaken
    rw [htaken] at hread
    obtain ⟨ms, rfl, hprefix, hfirst⟩ := hread
    have hform : Token.Form d ⟨.lexeme .comment, ['/', '*'] ++ ms.flatMap Mark.text⟩ rest' :=
      .blockComment (by rwa [happend]) hfirst
    exact h.false_of_form hform (by rw [hsource, List.append_assoc, happend]; rfl) hrank

theorem not_isQuote (hrank : 4 < t.kind.rank) : ¬IsQuote d c := by
  intro hc
  have hread := takesLiteral_literalBody? c cs
  cases htaken : literalBody? c cs with
  | none =>
    rw [htaken] at hread
    have hform : Token.Form d ⟨.lexeme (.openLiteral c), c :: cs⟩ [] := .openLiteral hc hread
    exact h.false_of_form hform (by rw [hsource, List.append_nil]) hrank
  | some taken =>
    obtain ⟨body, rest'⟩ := taken
    have happend := literalBody?_append htaken
    rw [htaken] at hread
    obtain ⟨b, rfl, hb, hrest⟩ := hread
    have hform : Token.Form d ⟨.lexeme .literal, c :: (b ++ [c])⟩ rest' := .literal hc hb hrest
    exact h.false_of_form hform (by rw [hsource, List.cons_append, happend]) hrank

theorem ne_terminator (hrank : 5 < t.kind.rank) : c ≠ d.terminator := by
  rintro rfl
  exact h.false_of_form .terminator hsource hrank

end

/-- Nothing that goes before the token begins where it stands. -/
theorem clear {c : Char} {cs : List Char} (h : TokenAt d before t rest)
    (hsource : t.text ++ rest = c :: cs) : Clear d t.kind.rank c cs where
  newline := h.ne_newline hsource
  blank := h.isBlank_eq_false hsource
  lineComment := h.not_lineComment hsource
  blockComment := h.not_blockComment hsource
  literal := h.not_isQuote hsource
  terminator := h.ne_terminator hsource

/-- At any other token the splitter finds the lexeme that the token is. -/
theorem next_eq {k : LexemeKind} {text cs : List Char} {c : Char}
    (h : TokenAt d before ⟨.lexeme k, text⟩ rest) (hsource : text ++ rest = c :: cs) :
    Lexeme.next d c cs = ⟨k, text, rest⟩ :=
  h.candidate.form.next_eq hsource (h.clear hsource)

end TokenAt

end SqlFlow
