import SqlFlow.Proofs.Lexer.Visiting

/-!
# Where comments that do not nest end

A comment that does not nest ends at the first star and slash behind its opener, unless a slash stands
right before the star: the two are then read as an opener, and the star is no longer there for a closer.
So `/*/*/` does not end.

* `ClosesBehind`: a text goes on with a closer behind a start of it.
* `takesFlat_commentBody?`: what the reader of comments takes.
* `flat_comment_ends_at_first_closer`: where the splitter goes on from such a comment, or that it reports
  it. `flat_comment_passes_closer` is a comment in which it passes a star and a slash.
-/

namespace SqlFlow

open Source

/-- Behind `inside` the text goes on with a star and a slash, and no slash stands right before them. -/
def ClosesBehind (text inside : List Char) : Prop :=
  inside ++ ['*', '/'] <+: text ∧ inside.getLast? ≠ some '/'

section

variable {c : Char} {cs inside : List Char}

theorem closesBehind_nil_iff : ClosesBehind cs [] ↔ ['*', '/'] <+: cs := by
  simp [ClosesBehind]

/-- A character with which neither an opener nor a closer begins makes no difference. -/
theorem closesBehind_other_iff (hopener : ∀ cs', c = '/' → cs = '*' :: cs' → False)
    (hcloser : ∀ cs', c = '*' → cs = '/' :: cs' → False) :
    ClosesBehind (c :: cs) inside ↔ ∃ behind, inside = [c] ++ behind ∧ ClosesBehind cs behind := by
  constructor
  · rintro ⟨⟨rest, htext⟩, hslash⟩
    cases inside with
    | nil =>
      obtain ⟨rfl, rfl⟩ := List.cons.inj htext
      exact absurd rfl (hcloser rest rfl)
    | cons c' behind =>
      obtain ⟨rfl, rfl⟩ := List.cons.inj htext
      refine ⟨behind, rfl, ⟨rest, rfl⟩, fun hlast => hslash ?_⟩
      rw [List.getLast?_cons, hlast, Option.getD_some]
  · rintro ⟨behind, rfl, ⟨rest, rfl⟩, hslash⟩
    refine ⟨⟨rest, rfl⟩, ?_⟩
    cases behind with
    | nil =>
      -- behind a slash, the star would make an opener
      intro hlast
      exact hopener ('/' :: rest) (Option.some.inj hlast) rfl
    | cons c' behind => simpa [List.getLast?_cons] using hslash

/-- Behind an opener the comment goes on as it would without it. -/
theorem closesBehind_opener_iff :
    ClosesBehind ('/' :: '*' :: cs) inside ↔
      ∃ behind, inside = ['/', '*'] ++ behind ∧ ClosesBehind cs behind := by
  constructor
  · rintro ⟨⟨rest, htext⟩, hslash⟩
    match inside, htext with
    | ['/'], _ => exact absurd rfl hslash
    | c :: c' :: behind, htext =>
      obtain ⟨hc, htext⟩ := List.cons.inj htext
      obtain ⟨hc', rfl⟩ := List.cons.inj htext
      subst hc hc'
      refine ⟨behind, rfl, ⟨rest, rfl⟩, fun hlast => hslash ?_⟩
      simp [List.getLast?_cons, hlast]
  · rintro ⟨behind, rfl, ⟨rest, rfl⟩, hslash⟩
    refine ⟨⟨rest, rfl⟩, ?_⟩
    cases behind with
    | nil => simp
    | cons c behind => simpa [List.getLast?_cons] using hslash

end

/-- What a reader of comments that do not nest should take of a text. -/
def TakesFlat (cs : List Char) : Taken → Prop
  | some (body, _) => ∃ inside, body = inside ++ ['*', '/'] ∧ First (ClosesBehind cs) inside
  | none => ∀ inside, ¬ClosesBehind cs inside

/-- Some of the text that does not close the comment. -/
theorem TakesFlat.after {read cs cs' : List Char} {t : Taken} (hread : ∀ inside,
    ClosesBehind cs' inside ↔ ∃ behind, inside = read ++ behind ∧ ClosesBehind cs behind)
    (h : TakesFlat cs t) : TakesFlat cs' (t.after read) := by
  cases t with
  | none =>
    intro inside hinside
    obtain ⟨behind, -, hbehind⟩ := (hread inside).1 hinside
    exact h behind hbehind
  | some taken =>
    obtain ⟨body, rest⟩ := taken
    obtain ⟨behind, rfl, hcloses, hfirst⟩ := h
    refine ⟨read ++ behind, (List.append_assoc ..).symm, (hread _).2 ⟨behind, rfl, hcloses⟩,
      fun inside hprefix hinside => ?_⟩
    obtain ⟨behind', rfl, hcloses'⟩ := (hread inside).1 hinside
    rw [hfirst behind' ((List.prefix_append_right_inj read).1 hprefix) hcloses']

/-- Comments that do not nest are read up to the first closer that no slash stands before. -/
theorem takesFlat_commentBody? (cs : List Char) : TakesFlat cs (commentBody? false 0 cs) := by
  generalize hinner : (0 : Nat) = inner
  generalize hnested : false = nested
  fun_induction commentBody? nested inner cs with
  | case1 =>
    rintro inside ⟨hcloser, -⟩
    simp at hcloser
  | case2 inner cs ih =>
    subst hnested
    exact .after (fun inside => closesBehind_opener_iff) (ih hinner)
  | case3 cs =>
    refine ⟨[], rfl, closesBehind_nil_iff.2 ⟨cs, rfl⟩, fun inside hprefix _ => ?_⟩
    exact List.prefix_nil.1 hprefix
  | case4 => cases hinner
  | case5 inner c cs hopener hcloser _ ih =>
    subst hinner
    exact .after (fun inside => closesBehind_other_iff hopener fun cs' => hcloser cs' rfl) (ih rfl)

/-- Where the splitter comes by an opener, in a dialect whose comments do not nest, and there is no
directive line, the comment reaches up to the first closer behind it that no slash stands before, and
the splitter goes on behind that. If there is no such closer, the comment is what it reports last. -/
theorem flat_comment_ends_at_first_closer {d : Dialect} (hflat : d.nestedComments = false)
    {source : String} {done : List Fragment} {s : Cursor} {behind : List Char}
    (h : Visits d source.toList done s ('/' :: '*' :: behind))
    (hdirective : s.directive? d ('/' :: '*' :: behind) = none) :
    (∃ inside rest, behind = inside ++ ['*', '/'] ++ rest ∧ First (ClosesBehind behind) inside ∧
      Visits d source.toList done (s.skip (['/', '*'] ++ inside ++ ['*', '/'])).inLine rest) ∨
    (∀ inside, ¬ClosesBehind behind inside) ∧ ∃ f, f.kind = .fault (.unterminatedComment s.line) ∧
      Fragment.split d source = done ++ [f] := by
  have hturn := turn_of_directive?_eq_none hdirective
  have htakes := takesFlat_commentBody? behind
  rw [next_blockComment, hflat] at hturn
  cases htaken : commentBody? false 0 behind with
  | some taken =>
    obtain ⟨body, rest⟩ := taken
    have happend := commentBody?_append htaken
    rw [htaken] at hturn htakes
    obtain ⟨inside, rfl, hfirst⟩ := htakes
    refine .inl ⟨inside, rest, happend.symm, hfirst, ?_⟩
    have hnext := h.onward hturn
    rw [List.append_nil] at hnext
    rw [List.append_assoc]
    exact hnext
  | none =>
    rw [htaken] at hturn htakes
    exact .inr ⟨htakes, s.fault (.unterminatedComment s.line) ('/' :: '*' :: behind), rfl,
      by rw [h.split_eq, scan_of_broken hturn]⟩

/-- An opener in a comment does not keep it open. -/
theorem flat_comment_ends_behind_opener :
    Visits { nestedComments := false } "/* a /* b */ SELECT 1;".toList [] {}
      ('/' :: '*' :: " a /* b */ SELECT 1;".toList) ∧
    Cursor.directive? { nestedComments := false } {}
      ('/' :: '*' :: " a /* b */ SELECT 1;".toList) = none ∧
    ((∃ inside rest, " a /* b */ SELECT 1;".toList = inside ++ ['*', '/'] ++ rest ∧
      First (ClosesBehind " a /* b */ SELECT 1;".toList) inside ∧
      Visits { nestedComments := false } "/* a /* b */ SELECT 1;".toList []
        (Cursor.skip {} (['/', '*'] ++ inside ++ ['*', '/'])).inLine rest) ∨
    (∀ inside, ¬ClosesBehind " a /* b */ SELECT 1;".toList inside) ∧
      ∃ f, f.kind = .fault (.unterminatedComment 1) ∧
        Fragment.split { nestedComments := false } "/* a /* b */ SELECT 1;" = [] ++ [f]) := by
  have hvisits : Visits { nestedComments := false } "/* a /* b */ SELECT 1;".toList [] {}
      ('/' :: '*' :: " a /* b */ SELECT 1;".toList) := .start
  have hdirective : Cursor.directive? { nestedComments := false } {}
      ('/' :: '*' :: " a /* b */ SELECT 1;".toList) = none := by decide
  exact ⟨hvisits, hdirective, flat_comment_ends_at_first_closer rfl hvisits hdirective⟩

/-- In `/*/*/` a star and a slash stand behind the opener, and the comment does not end with them. -/
theorem flat_comment_passes_closer :
    Visits { nestedComments := false } "/*/*/ SELECT 1;".toList [] {}
      ('/' :: '*' :: "/*/ SELECT 1;".toList) ∧
    Cursor.directive? { nestedComments := false } {} ('/' :: '*' :: "/*/ SELECT 1;".toList) = none ∧
    ['*', '/'] <:+: "/*/ SELECT 1;".toList ∧
    Fragment.split { nestedComments := false } "/*/*/ SELECT 1;" =
      [⟨.fault (.unterminatedComment 1), "/*/*/ SELECT 1;", "/*/*/ SELECT 1;", 1⟩] := by
  refine ⟨.start, by decide, ⟨['/'], " SELECT 1;".toList, rfl⟩, ?_⟩
  have hturn : Cursor.turn { nestedComments := false } {} '/' "*/*/ SELECT 1;".toList =
      .broken ⟨.fault (.unterminatedComment 1), "/*/*/ SELECT 1;", "/*/*/ SELECT 1;", 1⟩ := rfl
  exact scan_of_broken hturn

end SqlFlow
