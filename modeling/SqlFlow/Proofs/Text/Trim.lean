import Mathlib.Data.List.DropRight
import SqlFlow.Text.Blank

/-!
# Trimmed texts

* `Blanks`: nothing but blanks. `Trimmed`: no blanks at the ends.
* `trim_append_of_blanks`: blanks behind a text make no difference to what trimming leaves of it.
* `Trimmed.trim_append`: what stands behind a trimmed text is trimmed at its end only.
* `exists_trim_append`: of a text that begins with no blank, trimming takes blanks off the end.
* `prefix_trim`: a start of such a text that ends visibly is left.
-/

namespace SqlFlow.Text

/-- Nothing but blanks. -/
def Blanks (cs : List Char) : Prop := ∀ c ∈ cs, isBlank c = true

/-- A text that begins with no blank, and ends with none. -/
structure Trimmed (cs : List Char) : Prop where
  head : ∀ c, cs.head? = some c → isBlank c = false
  last : ∀ c, cs.getLast? = some c → isBlank c = false

variable {cs bs : List Char}

theorem trimRight_append_of_blanks (cs : List Char) (hbs : Blanks bs) :
    trimRight (cs ++ bs) = trimRight cs := by
  unfold trimRight dropRight
  rw [List.reverse_append, List.dropWhile_append_of_pos fun c hc => hbs c (List.mem_reverse.1 hc)]

theorem trimRight_of_last (h : ∀ c, cs.getLast? = some c → isBlank c = false) :
    trimRight cs = cs := by
  show cs.rdropWhile isBlank = cs
  rw [List.rdropWhile_eq_self_iff]
  intro hne
  rw [h _ (List.getLast?_eq_some_getLast hne)]
  exact Bool.false_ne_true

theorem trimRight_append (h : ∀ c, cs.getLast? = some c → isBlank c = false)
    (bs : List Char) : trimRight (cs ++ bs) = cs ++ trimRight bs := by
  have hlast : cs.reverse.dropWhile isBlank = cs.reverse := by
    have hself := congrArg List.reverse (trimRight_of_last h)
    rwa [trimRight, dropRight, List.reverse_reverse] at hself
  unfold trimRight dropRight
  rw [List.reverse_append, List.dropWhile_append]
  split
  · rename_i hblank
    rw [List.isEmpty_iff.1 hblank, hlast, List.reverse_reverse, List.reverse_nil, List.append_nil]
  · rw [List.reverse_append, List.reverse_reverse]

theorem exists_trimRight_append (cs : List Char) : ∃ bs, Blanks bs ∧ trimRight cs ++ bs = cs :=
  ⟨cs.rtakeWhile isBlank, fun _ hc => List.mem_rtakeWhile_imp hc,
    List.rdropWhile_append_rtakeWhile⟩

theorem head_dropWhile (cs : List Char) :
    ∀ c, (cs.dropWhile isBlank).head? = some c → isBlank c = false := by
  intro c hc
  have hstop := List.head?_dropWhile_not isBlank cs
  rwa [hc] at hstop

theorem last_trimRight (cs : List Char) :
    ∀ c, (trimRight cs).getLast? = some c → isBlank c = false := by
  unfold trimRight dropRight
  rw [List.getLast?_reverse]
  exact head_dropWhile cs.reverse

theorem trimLeft_of_head (h : ∀ c, cs.head? = some c → isBlank c = false) : trimLeft cs = cs := by
  cases cs with
  | nil => rfl
  | cons c cs =>
    have hc := h c rfl
    simp [trimLeft, hc]

/-- Blanks at the end make no difference. -/
theorem trim_append_of_blanks (cs : List Char) (hbs : Blanks bs) : trim (cs ++ bs) = trim cs := by
  unfold trim
  by_cases hcs : Blanks cs
  · have hleft : trimLeft (cs ++ bs) = [] ∧ trimLeft cs = [] :=
      ⟨List.dropWhile_eq_nil_iff.2 fun c hc => (List.mem_append.1 hc).elim (hcs c) (hbs c),
        List.dropWhile_eq_nil_iff.2 hcs⟩
    rw [hleft.1, hleft.2]
  · have hne : (cs.dropWhile isBlank).isEmpty = false :=
      List.isEmpty_eq_false_iff.2 fun h => hcs (List.dropWhile_eq_nil_iff.1 h)
    have hleft : trimLeft (cs ++ bs) = trimLeft cs ++ bs := by
      unfold trimLeft
      rw [List.dropWhile_append, hne, if_neg Bool.false_ne_true]
    rw [hleft, trimRight_append_of_blanks _ hbs]

/-- Behind a text that begins and ends with visible characters only the end of what follows is trimmed. -/
theorem Trimmed.trim_append (h : Trimmed cs) (hne : cs ≠ []) (bs : List Char) :
    trim (cs ++ bs) = cs ++ trimRight bs := by
  have hhead : ∀ c, (cs ++ bs).head? = some c → isBlank c = false := fun c hc =>
    h.head c (by rwa [List.head?_append_of_ne_nil _ hne] at hc)
  rw [trim, trimLeft_of_head hhead, trimRight_append h.last]

theorem Trimmed.trim_eq (h : Trimmed cs) : trim cs = cs := by
  unfold trim
  rw [trimLeft_of_head h.head, trimRight_of_last h.last]

/-- What trimming leaves of a text that begins with a visible character. -/
theorem exists_trim_append (hne : cs ≠ []) (hhead : ∀ c, cs.head? = some c → isBlank c = false) :
    ∃ bs, Blanks bs ∧ trim cs ++ bs = cs ∧ trim cs ≠ [] ∧ Trimmed (trim cs) := by
  have htrim : trim cs = trimRight cs := congrArg trimRight (trimLeft_of_head hhead)
  obtain ⟨bs, hbs, hcs⟩ := exists_trimRight_append cs
  have hleft : trim cs ≠ [] := by
    intro hnil
    -- there is a visible character
    rw [← htrim, hnil, List.nil_append] at hcs
    obtain ⟨c, cs', rfl⟩ := List.exists_cons_of_ne_nil hne
    have hblank := hbs c (hcs ▸ List.mem_cons_self)
    rw [hhead c rfl] at hblank
    exact Bool.false_ne_true hblank
  refine ⟨bs, hbs, htrim ▸ hcs, hleft, ⟨fun c hc => hhead c ?_, htrim ▸ last_trimRight cs⟩⟩
  rw [← hcs, ← htrim, List.head?_append, hc]
  rfl

theorem trim_prefix_self (hne : cs ≠ []) (hhead : ∀ c, cs.head? = some c → isBlank c = false) :
    trim cs <+: cs := by
  obtain ⟨bs, -, hcs, -, -⟩ := exists_trim_append hne hhead
  exact ⟨bs, hcs⟩

/-- Of a text that begins with a visible character, a start that ends with one is left by trimming. -/
theorem prefix_trim {start : List Char} (hstart : start <+: cs) (hne : start ≠ [])
    (hhead : ∀ c, cs.head? = some c → isBlank c = false)
    (hlast : ∀ c, start.getLast? = some c → isBlank c = false) : start <+: trim cs := by
  have htext : cs ≠ [] := fun hnil => hne (List.prefix_nil.1 (hnil ▸ hstart))
  obtain ⟨bs, hbs, hcs, -, -⟩ := exists_trim_append htext hhead
  generalize trim cs = w at *
  subst hcs
  rcases List.prefix_or_prefix_of_prefix hstart (List.prefix_append w bs) with h | ⟨bs', rfl⟩
  · exact h
  · -- the start would end with a blank of those behind
    have hbs' : bs' <+: bs := (List.prefix_append_right_inj w).1 hstart
    cases hcase : bs'.getLast? with
    | none =>
      obtain rfl := List.getLast?_eq_none_iff.1 hcase
      simp
    | some c =>
      have hvisible := hlast c (by rw [List.getLast?_append, hcase]; rfl)
      rw [hbs c (hbs'.subset (List.mem_of_getLast? hcase))] at hvisible
      cases hvisible

end SqlFlow.Text
