/-!
# Substrings

Whether one text occurs in another as a run of neighbouring characters: `occursIn`, which
`occursIn_iff` ties to the relation "is an infix of".
-/

namespace SqlFlow.Text

/-- Whether `part` occurs in a text. The empty text occurs in every text. -/
def occursIn (part : List Char) : List Char → Bool
  | [] => part.isEmpty
  | c :: cs => part.isPrefixOf (c :: cs) || occursIn part cs

theorem occursIn_iff {part cs : List Char} : occursIn part cs = true ↔ part <:+: cs := by
  induction cs with
  | nil => simp [occursIn]
  | cons c cs ih => simp [occursIn, ih, List.infix_cons_iff]

end SqlFlow.Text
