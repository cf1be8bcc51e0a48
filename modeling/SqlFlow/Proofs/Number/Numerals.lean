import Mathlib.Algebra.Order.Field.Power
import Mathlib.Algebra.Order.Field.Rat
import Mathlib.Data.Nat.Digits.Defs
import Mathlib.Tactic.Linarith
import Mathlib.Tactic.Positivity
import Mathlib.Tactic.Ring
import SqlFlow.Literal
import SqlFlow.Proofs.Lexer.Readers

/-!
# What numerals stand for

A decimal numeral that is a condition is as true as the double nearest to the number it stands for.

* `Denotes`: a text is a decimal numeral, and stands for a rational number.
* `ofChars?_of_denotes`: a numeral is read as a coefficient and an exponent of that number.
* `IsDouble` and `Nearest`: the doubles, and which of them are nearest to a number.
  `nearest_zero_iff`: zero is one for the numbers up to half of the least positive double.
* `vanishes_iff_abs_value_le`: the test on the digits is the same bound.
* `numeral_is_as_true_as_nearest_double`: the truth of a numeral. `tiny_numeral_is_false`: a number that is
  not zero can be false.
-/

namespace SqlFlow.Number

/-! ## Numerals -/

/-- Decimal digits and nothing else. -/
def Digits (cs : List Char) : Prop := ∀ c ∈ cs, c.isDigit = true

instance (cs : List Char) : Decidable (Digits cs) :=
  decidable_of_iff (cs.all Char.isDigit = true) List.all_eq_true

/-- The number that digits stand for, of which the last counts once. -/
def digitsNumber (cs : List Char) : Nat := Nat.ofDigits 10 (cs.reverse.map fun c => c.toNat - '0'.toNat)

/-- A sign, which may be missing. -/
inductive Sign : List Char → ℤ → Prop where
  | none : Sign [] 1
  | plus : Sign ['+'] 1
  | minus : Sign ['-'] (-1)

/-- Digits with or without a point among or around them. -/
inductive Mantissa : List Char → ℚ → Prop where
  | whole {ws : List Char} (hws : Digits ws) (hne : ws ≠ []) : Mantissa ws (digitsNumber ws)
  | pointed {ws fs : List Char} (hws : Digits ws) (hfs : Digits fs) (hne : ws ≠ [] ∨ fs ≠ []) :
      Mantissa (ws ++ '.' :: fs) (digitsNumber ws + digitsNumber fs / 10 ^ fs.length)

/-- An exponent, which may be missing. -/
inductive Exponent : List Char → ℤ → Prop where
  | none : Exponent [] 0
  | some {mark : Char} {sign ds : List Char} {s : ℤ} (hmark : mark = 'e' ∨ mark = 'E')
      (hsign : Sign sign s) (hds : Digits ds) (hne : ds ≠ []) :
      Exponent (mark :: (sign ++ ds)) (s * digitsNumber ds)

/-- The text is a decimal numeral that stands for the number. -/
inductive Denotes : List Char → ℚ → Prop where
  | mk {sign mantissa exponent : List Char} {s e : ℤ} {m : ℚ} (hsign : Sign sign s)
      (hmantissa : Mantissa mantissa m) (hexponent : Exponent exponent e) :
      Denotes (sign ++ (mantissa ++ exponent)) (s * m * 10 ^ e)

/-! ## Reading them -/

/-- The number that a coefficient and an exponent make. -/
def Decimal.value (d : Decimal) : ℚ :=
  (if d.negative then -1 else 1) * d.coefficient * 10 ^ d.exponent

section

variable {cs ds fs ws rest : List Char} {s e : ℤ} {m : ℚ}

theorem digitsValue_eq_digitsNumber (cs : List Char) : digitsValue cs = digitsNumber cs := by
  induction cs using List.reverseRecOn with
  | nil => rfl
  | append_singleton cs c ih =>
    unfold digitsValue digitsNumber at *
    rw [List.foldl_append, ih, List.reverse_append]
    simp only [List.foldl_cons, List.foldl_nil, List.reverse_singleton, List.singleton_append,
      List.map_cons, Nat.ofDigits_cons]
    rw [Nat.add_comm]

theorem digitsNumber_append (ws fs : List Char) :
    digitsNumber (ws ++ fs) = digitsNumber fs + 10 ^ fs.length * digitsNumber ws := by
  unfold digitsNumber
  rw [List.reverse_append, List.map_append, Nat.ofDigits_append, List.length_map, List.length_reverse]

/-- What begins with no sign is left as it is behind one. -/
theorem splitSign_append (h : Sign ds s) (hrest : ∀ c, rest.head? = some c → c ≠ '+' ∧ c ≠ '-') :
    splitSign (ds ++ rest) = (decide (s = -1), rest) := by
  cases h with
  | plus | minus => rfl
  | none =>
    show splitSign rest = (false, rest)
    unfold splitSign
    split
    · exact absurd rfl (hrest '-' rfl).2
    · exact absurd rfl (hrest '+' rfl).1
    · rfl

theorem sign_eq (h : Sign cs s) : s = if decide (s = -1) = true then -1 else 1 := by
  cases h <;> rfl

theorem ne_sign_of_digits (h : Digits cs) :
    ∀ c, cs.head? = some c → c ≠ '+' ∧ c ≠ '-' := by
  intro c hc
  have hdigit := h c (List.mem_of_head? hc)
  constructor <;> rintro rfl <;> cases hdigit

theorem exponent?_of_exponent (h : Exponent cs e) : Decimal.exponent? cs = some e := by
  cases h with
  | none => rfl
  | @some mark sign ds s hmark hsign hds hne =>
    have hsplit := splitSign_append hsign (ne_sign_of_digits hds)
    have hall : ds.all Char.isDigit = true := List.all_eq_true.2 hds
    have hmark' : (mark == 'e' || mark == 'E') = true := by simpa using hmark
    have hempty : ds.isEmpty = false := List.isEmpty_eq_false_iff.2 hne
    rw [Decimal.exponent?, hsplit]
    simp only [hmark', hall, hempty, Bool.not_false, Bool.and_true, if_true,
      digitsValue_eq_digitsNumber]
    rcases hsign with _ | _ | _ <;> simp

theorem head_exponent (h : Exponent cs e) :
    ∀ c, cs.head? = some c → c.isDigit = false ∧ c ≠ '.' := by
  intro c hc
  cases h with
  | none => cases hc
  | some hmark =>
    obtain rfl := Option.some.inj hc
    rcases hmark with rfl | rfl <;> decide

/-- The digits before and behind the point, and the exponent. -/
theorem split_mantissa (hm : Mantissa cs m) (he : Exponent ds e) :
    ∃ ws fs behind, (cs ++ ds).takeWhile Char.isDigit = ws ∧
      (cs ++ ds).dropWhile Char.isDigit = behind ∧ Decimal.splitFraction behind = (fs, ds) ∧
      (ws ≠ [] ∨ fs ≠ []) ∧ m = digitsNumber (ws ++ fs) / 10 ^ fs.length := by
  have hhead := head_exponent he
  cases hm with
  | whole hws hne =>
    refine ⟨cs, [], ds, takeWhile_append_stop hws fun c hc => (hhead c hc).1,
      dropWhile_append_stop hws fun c hc => (hhead c hc).1, ?_, .inl hne, by simp⟩
    unfold Decimal.splitFraction
    split
    · exact absurd rfl (hhead '.' rfl).2
    · rfl
  | @pointed ws fs hws hfs hne =>
    have hpoint : ∀ c, ('.' :: (fs ++ ds)).head? = some c → c.isDigit = false := fun c hc => by
      obtain rfl := Option.some.inj hc
      decide
    have hfraction : Decimal.splitFraction ('.' :: (fs ++ ds)) = (fs, ds) :=
      Prod.ext (takeWhile_append_stop hfs fun c hc => (hhead c hc).1)
        (dropWhile_append_stop hfs fun c hc => (hhead c hc).1)
    rw [List.append_assoc, List.cons_append]
    refine ⟨ws, fs, '.' :: (fs ++ ds), takeWhile_append_stop hws hpoint,
      dropWhile_append_stop hws hpoint, hfraction, hne, ?_⟩
    have hpow : (10 : ℚ) ^ fs.length ≠ 0 := by positivity
    rw [digitsNumber_append]
    push_cast
    rw [add_div, mul_div_cancel_left₀ _ hpow, add_comm]

theorem ne_sign_of_mantissa (hm : Mantissa cs m) (rest : List Char) :
    ∀ c, (cs ++ rest).head? = some c → c ≠ '+' ∧ c ≠ '-' := by
  intro c hc
  cases hm with
  | whole hws hne =>
    rw [List.head?_append_of_ne_nil _ hne] at hc
    exact ne_sign_of_digits hws c hc
  | @pointed ws fs hws hfs =>
    cases ws with
    | nil =>
      obtain rfl := Option.some.inj hc
      decide
    | cons w ws => exact ne_sign_of_digits hws c hc

/-- A numeral is read as the number that it stands for. -/
theorem ofChars?_of_denotes {x : ℚ} (h : Denotes cs x) :
    ∃ d, Decimal.ofChars? cs = some d ∧ d.value = x := by
  obtain ⟨hsign, hm, he⟩ := h
  rename_i sign mantissa exponent s e m
  obtain ⟨ws, fs, behind, hws, hbehind, hfraction, hne, rfl⟩ := split_mantissa hm he
  have hsplit := splitSign_append hsign (ne_sign_of_mantissa hm exponent)
  refine ⟨⟨decide (s = -1), digitsValue (ws ++ fs), e - fs.length⟩, ?_, ?_⟩
  · have hsome : (ws.isEmpty && fs.isEmpty) = false := by
      rw [Bool.and_eq_false_iff, List.isEmpty_eq_false_iff, List.isEmpty_eq_false_iff]
      exact hne
    rw [Decimal.ofChars?]
    simp only [hsplit, hws, hbehind, hfraction, hsome, Bool.false_eq_true, if_false,
      exponent?_of_exponent he, Option.map_some]
  · have hcast : (s : ℚ) = if decide (s = -1) = true then -1 else 1 := by
      rw [sign_eq hsign]
      cases hsign <;> simp
    rw [Decimal.value, ← hcast, digitsValue_eq_digitsNumber, zpow_sub₀ (by norm_num), zpow_natCast]
    ring

end

/-! ## The doubles near zero -/

/-- A finite number of the format binary64. -/
def IsDouble (y : ℚ) : Prop :=
  ∃ m q : ℤ, |m| < 2 ^ 53 ∧ -1074 ≤ q ∧ q ≤ 971 ∧ y = m * 2 ^ q

/-- No double is nearer to `x` than `y`. -/
structure Nearest (x y : ℚ) : Prop where
  isDouble : IsDouble y
  le : ∀ z, IsDouble z → |x - y| ≤ |x - z|

/-- Half of the least positive double. -/
def halfLeast : ℚ := 2 ^ (-(Decimal.halfLeastPower : ℤ))

theorem halfLeast_pos : 0 < halfLeast := zpow_pos two_pos _

theorem two_mul_halfLeast : 2 * halfLeast = 2 ^ (-1074 : ℤ) := (zpow_one_add₀ (by norm_num) _).symm

theorem isDouble_zero : IsDouble 0 := ⟨0, 0, by decide, by decide, by decide, by simp⟩

theorem isDouble_two_mul_halfLeast : IsDouble (2 * halfLeast) :=
  ⟨1, -1074, by decide, by decide, by decide, by rw [two_mul_halfLeast, Int.cast_one, one_mul]⟩

theorem IsDouble.neg {y : ℚ} (h : IsDouble y) : IsDouble (-y) := by
  obtain ⟨m, q, hm, hq, hq', rfl⟩ := h
  exact ⟨-m, q, by rwa [abs_neg], hq, hq', by rw [Int.cast_neg, neg_mul]⟩

/-- No double but zero is nearer to zero. -/
theorem IsDouble.two_mul_halfLeast_le_abs {z : ℚ} (h : IsDouble z) (hne : z ≠ 0) :
    2 * halfLeast ≤ |z| := by
  obtain ⟨m, q, -, hq, -, rfl⟩ := h
  have hm : (1 : ℚ) ≤ |(m : ℚ)| := by
    have hm : m ≠ 0 := by
      rintro rfl
      simp at hne
    exact_mod_cast Int.one_le_abs hm
  have hpow : (2 : ℚ) ^ (-1074 : ℤ) ≤ 2 ^ q := zpow_le_zpow_right₀ (by norm_num) hq
  rw [abs_mul, abs_zpow, abs_two, two_mul_halfLeast]
  calc (2 : ℚ) ^ (-1074 : ℤ) ≤ 2 ^ q := hpow
    _ = 1 * 2 ^ q := (one_mul _).symm
    _ ≤ |(m : ℚ)| * 2 ^ q := mul_le_mul_of_nonneg_right hm (by positivity)

/-- The numbers that have zero for a nearest double, which at the bound is the even one of two. -/
theorem nearest_zero_iff {x : ℚ} : Nearest x 0 ↔ |x| ≤ halfLeast := by
  constructor
  · rintro ⟨-, hle⟩
    -- the least double of either sign would be nearer
    have hplus := hle _ isDouble_two_mul_halfLeast
    have hminus := hle _ isDouble_two_mul_halfLeast.neg
    have hpos := halfLeast_pos
    rw [sub_zero] at hplus hminus
    rcases le_total 0 x with hx | hx
    · rw [abs_of_nonneg hx] at hplus ⊢
      rcases abs_cases (x - 2 * halfLeast) with h | h <;> linarith
    · rw [abs_of_nonpos hx] at hminus ⊢
      rcases abs_cases (x - -(2 * halfLeast)) with h | h <;> linarith
  · intro hx
    refine ⟨isDouble_zero, fun z hz => ?_⟩
    rw [sub_zero]
    by_cases hzero : z = 0
    · rw [hzero, sub_zero]
    · have hfar := hz.two_mul_halfLeast_le_abs hzero
      have htriangle := abs_sub_abs_le_abs_sub z x
      rw [abs_sub_comm] at htriangle
      linarith

/-! ## The truth of a numeral -/

theorem abs_value_le_iff (d : Decimal) (n : ℕ) :
    |d.value| ≤ 2 ^ (-(n : ℤ)) ↔
      d.coefficient * 10 ^ d.exponent.toNat * 2 ^ n ≤ 10 ^ (-d.exponent).toNat := by
  have hsign : |(if d.negative then -1 else 1 : ℚ)| = 1 := by
    split <;> simp
  have hexponent : d.exponent = (d.exponent.toNat : ℤ) - ((-d.exponent).toNat : ℤ) := by omega
  have habs : |d.value| = d.coefficient * 10 ^ d.exponent.toNat / 10 ^ (-d.exponent).toNat := by
    rw [Decimal.value, abs_mul, abs_mul, hsign, one_mul, Nat.abs_cast, abs_zpow, Nat.abs_ofNat]
    conv_lhs => rw [hexponent, zpow_sub₀ (by norm_num), zpow_natCast, zpow_natCast]
    rw [mul_div_assoc]
  have hdown : (0 : ℚ) < 10 ^ (-d.exponent).toNat := by positivity
  have hup : (0 : ℚ) < 2 ^ n := by positivity
  rw [habs, zpow_neg, zpow_natCast, div_le_iff₀ hdown, ← div_eq_inv_mul, le_div_iff₀ hup]
  exact_mod_cast Iff.rfl

/-- The test on the digits is a bound on the number. -/
theorem vanishes_iff_abs_value_le (d : Decimal) : d.vanishes = true ↔ |d.value| ≤ halfLeast := by
  rw [Decimal.vanishes_iff, halfLeast, abs_value_le_iff, Nat.shiftLeft_eq]
  have hpos : 0 < Decimal.halfLeastPower := by decide
  generalize Decimal.halfLeastPower = n at hpos
  show d.coefficient * 2 ^ n ≤ 10 ^ (-d.exponent).toNat ∨ d.coefficient = 0 ↔ _
  rcases Nat.eq_zero_or_pos d.coefficient with hc | hc
  · simp [hc]
  rcases Int.le_total d.exponent 0 with he | he
  · have hzero : d.exponent.toNat = 0 := Int.toNat_of_nonpos he
    rw [hzero, pow_zero, mul_one]
    exact ⟨fun h => h.resolve_right hc.ne', .inl⟩
  · -- a number from one on is beyond the bound, and both sides say so
    have hzero : (-d.exponent).toNat = 0 := Int.toNat_of_nonpos (by omega)
    have hlarge : 1 < 2 ^ n := Nat.one_lt_two_pow hpos.ne'
    have hten : 0 < 10 ^ d.exponent.toNat := by positivity
    rw [hzero, pow_zero]
    have hleft : 1 < d.coefficient * 2 ^ n := by nlinarith
    have hright : 1 < d.coefficient * 10 ^ d.exponent.toNat * 2 ^ n := by nlinarith
    constructor
    · rintro (h | h) <;> omega
    · intro h
      omega

theorem toLower_of_isDigit {c : Char} (h : c.isDigit = true) : c.toLower = c := by
  have hbound : c.val ≤ '9'.val := by
    simp only [Char.isDigit, Bool.and_eq_true, decide_eq_true_eq] at h
    exact h.2
  unfold Char.toLower
  rw [dif_neg]
  rintro ⟨hupper, -⟩
  exact absurd (UInt32.le_trans hupper hbound) (by decide)

/-- A word with a digit in it names no truth value. -/
theorem ofWord?_eq_none {word : List Char} {c : Char} (hc : c ∈ word) (hdigit : c.isDigit = true) :
    Literal.ofWord? (String.ofList (word.map Char.toLower)) = none := by
  have hlower : c ∈ word.map Char.toLower := List.mem_map.2 ⟨c, hc, toLower_of_isDigit hdigit⟩
  have hnot : ∀ named : List String, (∀ w ∈ named, w.toList.any Char.isDigit = false) →
      String.ofList (word.map Char.toLower) ∉ named := by
    intro named hnone hmem
    have hall := hnone _ hmem
    rw [String.toList_ofList, List.any_eq_false] at hall
    exact hall c hlower hdigit
  unfold Literal.ofWord?
  rw [if_neg (hnot _ (by decide)), if_neg (hnot _ (by decide))]

theorem exists_digit_of_denotes {cs : List Char} {x : ℚ} (h : Denotes cs x) :
    ∃ c ∈ cs, c.isDigit = true := by
  obtain ⟨-, hm, -⟩ := h
  have hfirst : ∀ {ds : List Char}, Digits ds → ds ≠ [] → ∃ c ∈ ds, c.isDigit = true :=
    fun hds hne => (List.exists_mem_of_ne_nil _ hne).imp fun c hc => ⟨hc, hds c hc⟩
  cases hm with
  | whole hws hne =>
    obtain ⟨c, hc, hdigit⟩ := hfirst hws hne
    exact ⟨c, by simp [hc], hdigit⟩
  | pointed hws hfs hne =>
    rcases hne with hne | hne
    · obtain ⟨c, hc, hdigit⟩ := hfirst hws hne
      exact ⟨c, by simp [hc], hdigit⟩
    · obtain ⟨c, hc, hdigit⟩ := hfirst hfs hne
      exact ⟨c, by simp [hc], hdigit⟩

/-- A numeral is false when zero is a double nearest to the number it stands for, which is so up to half of
the least positive double, and true beyond that. -/
theorem numeral_is_as_true_as_nearest_double {text : String} {x : ℚ}
    (h : Denotes (Text.trim text.toList) x) :
    ∃ b, Literal.truth? text = some b ∧ (b = false ↔ Nearest x 0) ∧ (b = true ↔ halfLeast < |x|) := by
  obtain ⟨d, hd, rfl⟩ := ofChars?_of_denotes h
  obtain ⟨c, hc, hdigit⟩ := exists_digit_of_denotes h
  have htruth : Literal.truth? text = some !d.vanishes := by
    simp only [Literal.truth?, ofWord?_eq_none hc hdigit, Numeral.ofChars?, hd, Option.map_some,
      Numeral.vanishes]
  refine ⟨!d.vanishes, htruth, ?_, ?_⟩
  · rw [Bool.not_eq_false', nearest_zero_iff, vanishes_iff_abs_value_le]
  · rw [Bool.not_eq_true', Bool.eq_false_iff, Ne, vanishes_iff_abs_value_le, not_le]

theorem quarter_is_as_true_as_nearest_double :
    Denotes (Text.trim " -2.5E-1\t".toList) (-1 / 4) ∧
      ∃ b, Literal.truth? " -2.5E-1\t" = some b ∧ (b = false ↔ Nearest (-1 / 4) 0) ∧
        (b = true ↔ halfLeast < |(-1 / 4 : ℚ)|) := by
  have hmantissa : Mantissa ['2', '.', '5'] _ :=
    .pointed (show Digits ['2'] by decide) (show Digits ['5'] by decide) (.inl (by decide))
  have hexponent : Exponent ['E', '-', '1'] _ :=
    .some (.inr rfl) .minus (by decide) (by decide)
  have h : Denotes (Text.trim " -2.5E-1\t".toList) (-1 / 4) := by
    have hvalues : digitsNumber ['2'] = 2 ∧ digitsNumber ['5'] = 5 ∧ digitsNumber ['1'] = 1 := by
      decide
    have hdenotes : Denotes (Text.trim " -2.5E-1\t".toList) _ := .mk .minus hmantissa hexponent
    rw [hvalues.1, hvalues.2.1, hvalues.2.2] at hdenotes
    convert hdenotes using 1
    norm_num
  exact ⟨h, numeral_is_as_true_as_nearest_double h⟩

/-- A number that is not zero can be false. -/
theorem tiny_numeral_is_false :
    ∃ x : ℚ, Denotes (Text.trim "1e-400".toList) x ∧ x ≠ 0 ∧ Literal.truth? "1e-400" = some false := by
  have hmantissa : Mantissa ['1'] _ := .whole (by decide) (by decide)
  have hexponent : Exponent ['e', '-', '4', '0', '0'] _ :=
    .some (.inl rfl) .minus (by decide) (by decide)
  refine ⟨_, .mk .none hmantissa hexponent, ?_, by decide⟩
  have hone : digitsNumber ['1'] = 1 := by decide
  rw [hone]
  positivity

end SqlFlow.Number
