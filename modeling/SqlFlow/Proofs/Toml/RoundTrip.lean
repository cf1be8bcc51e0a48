import Mathlib.Data.List.Nodup
import SqlFlow.Toml.Document

/-!
# Documents that are read back

What is written for settings is read as those settings.

* `string?_quote`: a string between double quotes. Every character comes back from what is written for it
  (`collect_quoteChar`), whichever of the three ways that is.
* `value?_written`, `pathEquals?_bareKey`: a value that ends with its line, and a key in front of its
  equals sign.
* `Document.expression?_settingLine` and `Document.read?_lines`: a line, and lines with different keys.
* `codec_lawful`: settings in documents of this syntax.
-/

namespace SqlFlow.Toml

/-! ## Strings -/

section

variable {c : Char} {rest : List Char}

/-- The number that four hexadecimal digits are. -/
def codePoint? : List Char → Option Nat
  | [a, b, c, d] => do
    return 16 * (16 * (16 * (← hexDigit? a) + (← hexDigit? b)) + (← hexDigit? c)) + (← hexDigit? d)
  | _ => none

theorem codePoint?_fourDigits : ∀ n < 128, codePoint? (fourDigits n) = some n := by decide +kernel

/-- A code point that is written with four digits. -/
theorem collect_codePoint {digits : List Char} (h : codePoint? digits = some c.toNat)
    (rest : List Char) :
    collect basicNext (.code 3 0) (digits ++ rest) =
      (collect basicNext .none rest).map fun (text, rest) => (c :: text, rest) := by
  obtain ⟨w, x, y, z, rfl⟩ : ∃ w x y z, digits = [w, x, y, z] := by
    unfold codePoint? at h
    split at h
    · exact ⟨_, _, _, _, rfl⟩
    · cases h
  simp only [codePoint?, Option.bind_eq_bind, Option.bind_eq_some_iff, Option.pure_def,
    Option.some.injEq] at h
  obtain ⟨i, hw, j, hx, k, hy, l, hz, hvalue⟩ := h
  have hvalid : (16 * (16 * (16 * i + j) + k) + l).isValidChar := by
    rw [hvalue]
    exact c.valid
  have hc : Char.ofNat (16 * (16 * (16 * i + j) + k) + l) = c := by
    rw [hvalue, Char.ofNat_toNat]
  simp [collect, basicNext, codeDigit, hw, hx, hy, hz, hvalid, hc, Function.comp_def]

/-- A character comes back from what is written for it between double quotes. -/
theorem collect_quoteChar (c : Char) (rest : List Char) :
    collect basicNext .none (quoteChar c ++ rest) =
      (collect basicNext .none rest).map fun (text, rest) => (c :: text, rest) := by
  cases hletter : escapeLetter? c with
  | some letter =>
    simp only [quoteChar, hletter]
    -- no letter that is written begins a code point
    unfold escapeLetter? at hletter
    split at hletter <;> cases hletter <;>
      simp [collect, basicNext, afterBackslash, escaped?, Function.comp_def]
  | none =>
    simp only [quoteChar, hletter]
    split
    · next hvisible =>
      have hquote : c ≠ '"' := by rintro rfl; cases hletter
      have hbackslash : c ≠ '\\' := by rintro rfl; cases hletter
      simp [collect, basicNext, hquote, hbackslash, hvisible]
    · next hvisible =>
      have hlt : c.toNat < 128 := by
        simp only [isVisible, Bool.or_eq_true, Bool.and_eq_true, decide_eq_true_eq, bne_iff_ne,
          beq_iff_eq, not_or] at hvisible
        omega
      rw [← collect_codePoint (codePoint?_fourDigits _ hlt)]
      simp [collect, basicNext, afterBackslash]

theorem collect_quote (s rest : List Char) :
    collect basicNext .none (s.flatMap quoteChar ++ '"' :: rest) = some (s, rest) := by
  induction s with
  | nil => rfl
  | cons c s ih => rw [List.flatMap_cons, List.append_assoc, collect_quoteChar, ih, Option.map_some]

/-- What is written for a character does not begin with a double quote. -/
theorem exists_quoteChar (c : Char) : ∃ c' cs, quoteChar c = c' :: cs ∧ c' ≠ '"' := by
  unfold quoteChar
  split
  · exact ⟨_, _, rfl, by decide⟩
  · next hletter =>
    split
    · exact ⟨c, [], rfl, by rintro rfl; cases hletter⟩
    · exact ⟨_, _, rfl, by decide⟩

/-- A string that is written between double quotes comes back, if no third quote follows on an empty
one. -/
theorem string?_quote (s : String) (rest : List Char) (hrest : rest.head? ≠ some '"') :
    string? ((quote s).toList ++ rest) = some (s, rest) := by
  have hsimple : simpleString? ('"' :: s.toList.flatMap quoteChar ++ '"' :: rest) = some (s, rest) := by
    simp [simpleString?, collect_quote]
  have htext : (quote s).toList ++ rest = '"' :: s.toList.flatMap quoteChar ++ '"' :: rest := by
    simp [quote]
  rw [htext, ← hsimple]
  cases hs : s.toList with
  | nil =>
    cases rest with
    | nil => rfl
    | cons c rest =>
      have hc : c ≠ '"' := fun h => hrest (congrArg some h)
      simp [string?, hc]
  | cons c cs =>
    obtain ⟨c', cs', hquote, hc'⟩ := exists_quoteChar c
    simp [string?, hquote, hc']

end

/-! ## Lines -/

/-- A value that ends with its line. -/
theorem value?_written (field : Field) (rest : List Char) :
    value? (field.written.toList ++ '\n' :: rest) = some (field.item, '\n' :: rest) := by
  have hquote : ∀ s : String,
      value? ((quote s).toList ++ '\n' :: rest) = some (.string s, '\n' :: rest) := by
    intro s
    have hstring := string?_quote s ('\n' :: rest) (by simp)
    obtain ⟨cs, hcs⟩ : ∃ cs, (quote s).toList ++ '\n' :: rest = '"' :: cs := by simp [quote]
    rw [hcs] at hstring ⊢
    simp [value?, valueWithin?, hstring]
  cases field with
  | string s => exact hquote s
  | character c => exact hquote (String.singleton c)
  | boolean b => cases b <;> rfl

theorem blanks_written (field : Field) (rest : List Char) :
    blanks (' ' :: (field.written.toList ++ rest)) = field.written.toList ++ rest := by
  cases field with
  | string s | character c => simp [Field.written, quote, blanks, isBlank]
  | boolean b => cases b <;> rfl

section

variable {key : String}

theorem BareKey.exists_cons (h : BareKey key) :
    ∃ c cs, key.toList = c :: cs ∧ ∀ {c'}, isKeyChar c' = false → c ≠ c' := by
  obtain ⟨c, cs, hcs⟩ := List.exists_cons_of_ne_nil h.ne_nil
  refine ⟨c, cs, hcs, ?_⟩
  rintro c' hc' rfl
  exact Bool.false_ne_true (hc'.symm.trans (h.keyChar c (hcs ▸ List.mem_cons_self)))

theorem keyPart?_bareKey (h : BareKey key) {c : Char} (hc : isKeyChar c = false) (rest : List Char) :
    keyPart? (key.toList ++ c :: rest) = some (key, c :: rest) := by
  have htake : (key.toList ++ c :: rest).takeWhile isKeyChar = key.toList := by
    rw [List.takeWhile_append_of_pos h.keyChar, List.takeWhile_cons_of_neg (by simp [hc]),
      List.append_nil]
  have hdrop : (key.toList ++ c :: rest).dropWhile isKeyChar = c :: rest := by
    rw [List.dropWhile_append_of_pos h.keyChar, List.dropWhile_cons_of_neg (by simp [hc])]
  unfold keyPart?
  rw [htake, hdrop]
  split
  · next hnil => exact absurd hnil h.ne_nil
  · rw [String.ofList_toList]

theorem blanks_bareKey (h : BareKey key) (rest : List Char) :
    blanks (key.toList ++ rest) = key.toList ++ rest := by
  obtain ⟨c, cs, hcs, hne⟩ := h.exists_cons
  have hspace : c ≠ ' ' := hne (by decide)
  have htab : c ≠ '\t' := hne (by decide)
  rw [hcs, blanks, List.cons_append, List.dropWhile_cons_of_neg (by simp [isBlank, hspace, htab])]

theorem pathUpTo?_bareKey (h : BareKey key) (limit : Nat) (rest : List Char) :
    pathUpTo? (limit + 1) (key.toList ++ ' ' :: '=' :: rest) = some ([key], '=' :: rest) := by
  rw [pathUpTo?, blanks_bareKey h, keyPart?_bareKey h (by decide)]
  rfl

theorem pathEquals?_bareKey (h : BareKey key) (rest : List Char) :
    pathEquals? (key.toList ++ ' ' :: '=' :: rest) = some ([key], rest) := by
  rw [pathEquals?, path?, depthLimit, pathUpTo?_bareKey h]
  rfl

/-- A key is not the end of a line. -/
theorem lineEnd?_bareKey (h : BareKey key) (rest : List Char) :
    lineEnd? (key.toList ++ rest) = none := by
  obtain ⟨c, cs, hcs, hne⟩ := h.exists_cons
  have hhash : c ≠ '#' := hne (by decide)
  have hfeed : c ≠ '\n' := hne (by decide)
  have hreturn : c ≠ '\r' := hne (by decide)
  rw [lineEnd?, blanks_bareKey h, hcs]
  simp [comment, newline?, hhash, hfeed, hreturn]

end

/-! ## Entries -/

/-- A key that is not there yet comes last. -/
theorem Entries.add_of_not_mem {key : String} (item : Item) {entries : Entries}
    (h : key ∉ entries.map Prod.fst) : entries.add key item = some (entries ++ [(key, item)]) := by
  unfold Entries.add
  induction entries with
  | nil => rfl
  | cons e entries ih =>
    rw [List.map_cons, List.mem_cons, not_or] at h
    have ih := ih h.2
    simp [Entries.alter, Ne.symm h.1, ih]

/-! ## Documents -/

section

variable {setting : String × Field} {settings : List (String × Field)}

theorem toList_settingLine (setting : String × Field) (rest : List Char) :
    (settingLine setting).toList ++ rest =
      setting.1.toList ++ ' ' :: '=' :: ' ' :: (setting.2.written.toList ++ '\n' :: rest) := by
  simp [settingLine, String.toList_append]

/-- The text of settings, each on a line of its own. -/
def settingsText (settings : List (String × Field)) : String := String.join (settings.map settingLine)

theorem toList_settingsText_cons (setting : String × Field) (settings : List (String × Field)) :
    (settingsText (setting :: settings)).toList =
      (settingLine setting).toList ++ (settingsText settings).toList := by
  simp [settingsText, String.join_cons, String.toList_append]

theorem length_le_settingsText (settings : List (String × Field)) :
    settings.length ≤ (settingsText settings).toList.length := by
  induction settings with
  | nil => exact Nat.zero_le _
  | cons setting settings ih =>
    have hline : 0 < (settingLine setting).toList.length := by
      simp only [settingLine, String.toList_append, List.length_append]
      exact Nat.succ_pos _
    rw [toList_settingsText_cons, List.length_append, List.length_cons]
    omega

/-- A setting as it is read. -/
def entry (setting : String × Field) : String × Item := (setting.1, setting.2.item)

theorem find?_map_entry (settings : List (String × Field)) (key : String) :
    Entries.find? (settings.map entry) key = (settings.lookup key).map Field.item := by
  unfold Entries.find?
  induction settings with
  | nil => rfl
  | cons setting settings ih =>
    rw [List.map_cons, entry, List.lookup_cons, List.lookup_cons, ih]
    split <;> rfl

namespace Document

theorem keyValue?_settingLine (hkey : BareKey setting.1) {entries : Entries}
    (hnew : setting.1 ∉ entries.map Prod.fst) (rest : List Char) :
    keyValue? { root := entries } ((settingLine setting).toList ++ rest) =
      some ({ root := entries ++ [entry setting] }, rest) := by
  rw [toList_settingLine, keyValue?, pathEquals?_bareKey hkey]
  simp [blanks_written, value?_written, Entries.within, Entries.put, Entries.add_of_not_mem _ hnew]
  rfl

/-- A line is read as the key with its value. -/
theorem expression?_settingLine (hkey : BareKey setting.1) {entries : Entries}
    (hnew : setting.1 ∉ entries.map Prod.fst) (rest : List Char) :
    expression? { root := entries } ((settingLine setting).toList ++ rest) =
      some ({ root := entries ++ [entry setting] }, rest) := by
  have hline := keyValue?_settingLine hkey hnew rest
  rw [toList_settingLine] at hline ⊢
  have hend := lineEnd?_bareKey hkey (' ' :: '=' :: ' ' :: (setting.2.written.toList ++ '\n' :: rest))
  obtain ⟨c, cs, hcs, hne⟩ := hkey.exists_cons
  rw [hcs] at hline hend ⊢
  unfold expression?
  split
  · next h => exact absurd (List.cons.inj h).1 (hne (by decide))
  · next h => exact absurd (List.cons.inj h).1 (hne (by decide))
  · rw [hend]
    exact hline

theorem expressions?_lines (fuel : Nat) (entries : Entries)
    (hkeys : ∀ setting ∈ settings, BareKey setting.1)
    (hnodup : ((entries ++ settings.map entry).map Prod.fst).Nodup) (hfuel : settings.length < fuel) :
    expressions? fuel { root := entries } (settingsText settings).toList =
      some { root := entries ++ settings.map entry } := by
  induction settings generalizing entries fuel with
  | nil =>
    cases fuel with
    | zero => simp at hfuel
    | succ fuel => simp [settingsText, expressions?, blanks]
  | cons setting settings ih =>
    obtain ⟨hkey, hkeys⟩ := List.forall_mem_cons.1 hkeys
    have happend : entries ++ (setting :: settings).map entry =
        (entries ++ [entry setting]) ++ settings.map entry := by simp
    have hnew : setting.1 ∉ entries.map Prod.fst := by
      intro hmem
      rw [List.map_append, List.nodup_append] at hnodup
      exact hnodup.2.2 _ hmem _ (by simp [entry]) rfl
    cases fuel with
    | zero => simp at hfuel
    | succ fuel =>
      have hrest := ih fuel (entries ++ [entry setting]) hkeys (happend ▸ hnodup) (by simpa using hfuel)
      have hline := expression?_settingLine hkey hnew (settingsText settings).toList
      have hblanks : blanks ((settingLine setting).toList ++ (settingsText settings).toList) =
          (settingLine setting).toList ++ (settingsText settings).toList := by
        rw [toList_settingLine, blanks_bareKey hkey]
      rw [toList_settingsText_cons, happend, expressions?, hblanks]
      split
      · next h => simp [settingLine] at h
      · next h =>
        rw [← h, hline, Option.bind_some]
        exact hrest

/-- No line begins with a byte order mark. -/
theorem behindMark_lines (hkeys : ∀ setting ∈ settings, BareKey setting.1) :
    behindMark (settingsText settings).toList = (settingsText settings).toList := by
  cases settings with
  | nil => rfl
  | cons setting settings =>
    obtain ⟨c, cs, hcs, hne⟩ := (hkeys setting List.mem_cons_self).exists_cons
    have hmark : c ≠ '\uFEFF' := hne (by decide)
    rw [toList_settingsText_cons, toList_settingLine, hcs, List.cons_append]
    unfold behindMark
    split
    · next h => exact absurd (List.cons.inj h).1 hmark
    · rfl

/-- Lines with different keys are read as these keys with their values. -/
theorem read?_lines (hkeys : ∀ setting ∈ settings, BareKey setting.1)
    (hnodup : (settings.map Prod.fst).Nodup) :
    read? (settingsText settings) = some (settings.map entry) := by
  have hnodup' : (([] ++ settings.map entry).map Prod.fst).Nodup := by
    simpa [entry, Function.comp_def] using hnodup
  have hread := expressions?_lines _ [] hkeys hnodup' (Nat.lt_succ_of_le (length_le_settingsText settings))
  rw [read?, behindMark_lines hkeys, hread]
  rfl

end Document

theorem codec_line : codec.line = settingLine :=
  funext fun setting => by simp [Codec.line, codec]

/-- Settings come back, whatever characters are in them. -/
theorem codec_lawful : codec.Lawful where
  write_eq settings _ := by
    rw [codec_line]
    rfl
  read?_lines settings h := by
    have hread : Document.read? (settingsText settings) = some (settings.map entry) :=
      Document.read?_lines h.key h.nodup
    rw [codec_line]
    show (Document.read? (settingsText settings)).map Entries.find? = _
    rw [hread, Option.map_some]
    exact congrArg some (funext (find?_map_entry settings))
  string?_item _ _ := rfl
  character?_item c _ := by
    show Item.character? (.string (String.singleton c)) = some c
    simp [Item.character?]
  boolean?_item _ := rfl

end

end SqlFlow.Toml
