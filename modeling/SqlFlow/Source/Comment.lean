/-!
# Comments and literals in a source text

The constructs of a script inside which a terminator, a newline and a directive mean nothing. Each
reader here is given the source behind what opens the construct and splits it where the construct
ends, so that the two parts together are the source again.

* `commentBody?`: a block comment, nesting or flat, behind its opener.
* `literalBody?`: a literal behind its opening quote.
* `line` and `afterLine`: the rest of a line, and the source from its newline on.

`commentBody?_append` and `literalBody?_append` say that nothing is lost.
-/

namespace SqlFlow.Source

/-- The source up to its first newline. -/
def line (cs : List Char) : List Char := cs.takeWhile (· != '\n')

/-- The source from its first newline on. -/
def afterLine (cs : List Char) : List Char := cs.dropWhile (· != '\n')

theorem line_append_afterLine (cs : List Char) : line cs ++ afterLine cs = cs :=
  List.takeWhile_append_dropWhile

/-- What a reader took of a source, and what it left; nothing if the construct does not end. -/
abbrev Taken := Option (List Char × List Char)

/-- A reading with `read` taken before it. -/
def Taken.after (read : List Char) (t : Taken) : Taken :=
  t.map fun (body, rest) => (read ++ body, rest)

theorem Taken.after_eq_some_iff {read body rest : List Char} {t : Taken} :
    t.after read = some (body, rest) ↔ ∃ b, t = some (b, rest) ∧ read ++ b = body := by
  simp [Taken.after, Option.map_eq_some_iff]

/-- The comment up to the closer that ends it, and the rest. Openers and closers are read from the
left without overlap. `inner` counts the comments that were opened inside this one and are still
open; if comments do not nest an opener is passed over as any two characters are. -/
def commentBody? (nested : Bool) : (inner : Nat) → List Char → Taken
  | _, [] => none
  | inner, '/' :: '*' :: cs =>
    (commentBody? nested (if nested then inner + 1 else inner) cs).after ['/', '*']
  | 0, '*' :: '/' :: cs => some (['*', '/'], cs)
  | inner + 1, '*' :: '/' :: cs => (commentBody? nested inner cs).after ['*', '/']
  | inner, c :: cs => (commentBody? nested inner cs).after [c]

theorem commentBody?_append {nested : Bool} {inner : Nat} {cs body rest : List Char}
    (h : commentBody? nested inner cs = some (body, rest)) : body ++ rest = cs := by
  fun_induction commentBody? nested inner cs generalizing body rest with
  | case1 => contradiction
  | case3 cs => cases h; rfl
  | case2 _ _ ih | case4 _ _ ih | case5 _ _ _ _ _ _ ih =>
    obtain ⟨b, hb, rfl⟩ := Taken.after_eq_some_iff.1 h
    simp [ih hb]

/-- The literal up to the quote that ends it, and the rest. A doubled quote stands for a quote in
the literal and does not end it. -/
def literalBody? (quote : Char) : List Char → Taken
  | [] => none
  | [c] => if c = quote then some ([c], []) else none
  | c :: next :: cs =>
    if c = quote then
      if next = quote then (literalBody? quote cs).after [c, next]
      else some ([c], next :: cs)
    else (literalBody? quote (next :: cs)).after [c]

theorem literalBody?_append {quote : Char} {cs body rest : List Char}
    (h : literalBody? quote cs = some (body, rest)) : body ++ rest = cs := by
  fun_induction literalBody? quote cs generalizing body rest with
  | case1 | case3 => contradiction
  | case2 | case5 => cases h; rfl
  | case4 _ ih | case6 _ _ _ _ ih =>
    obtain ⟨b, hb, rfl⟩ := Taken.after_eq_some_iff.1 h
    simp [ih hb]

end SqlFlow.Source
