/-
  slirp4netns formalization — texts that parson reads and writes.

  * `jsonParseString_rfc4627`: a value of RFC 4627 is read as what it stands for,
    if it is not too deep, no two members of an object have the same name, no name
    has a NUL in it, no escape is half of a surrogate pair, and no numeral overflows
    or has an exponent directly after a zero.  Such numerals are refused
    (`parseValue_rfcNumeral`);
  * `jsonParseString_utf8`: a text in UTF-8 gives strings in UTF-8;
  * `jsonParseString_normal`: what is read is written, with or without
    indentation, as a value of RFC 4627 that is read as the same value.
-/
import Slirp4netns.Parson.Grammar
import Slirp4netns.Parson.HeapSerialize

namespace Slirp4netns

/-! ## Dialects -/

/-- Every text of the dialect `D` is one of `D'`. -/
structure Dialect.Le (D D' : Dialect) : Prop where
  space : ∀ c, D.space c = true → D'.space c = true
  numeral : ∀ n, D.numeral n → D'.numeral n
  names : ∀ names, D.names names → D'.names names
  trailingComma : D.trailingComma → D'.trailingComma

section
variable {D D' : Dialect} {C : Libc} {t : Bytes} {v : JsonValue}

theorem Space.mono (hD : D.Le D') {w : Bytes} (h : Space D w) : Space D' w :=
  fun c hc => hD.space c (h c hc)

theorem Separated.mono {α : Type} {E E' : Bytes → α → Prop} (hD : D.Le D')
    (hE : ∀ {t x}, E t x → E' t x) {xs : List α} (h : Separated D E t xs) :
    Separated D' E' t xs := by
  induction h with
  | last h hw => exact .last (hE h) (hw.mono hD)
  | comma hc h hw hw' => exact .comma (hD.trailingComma hc) (hE h) (hw.mono hD) (hw'.mono hD)
  | cons h hw hw' _ ih => exact .cons (hE h) (hw.mono hD) (hw'.mono hD) ih

section
variable {P P' : Bytes → JsonValue → Prop}

theorem Member.mono (hD : D.Le D') (hP : ∀ {t v}, P t v → P' t v) {m : Bytes × JsonValue}
    (h : Member D P t m) : Member D' P' t m := by
  obtain ⟨hk, hw, hw', h⟩ := h
  exact .mk hk (hw.mono hD) (hw'.mono hD) (hP h)

theorem Value.mono (hD : D.Le D') (hP : ∀ {t v}, P t v → P' t v) (h : Value D C P t v) :
    Value D' C P' t v := by
  cases h with
  | null => exact .null
  | true => exact .true
  | false => exact .false
  | number hn hq => exact .number (hD.numeral _ hn) hq
  | string hk => exact .string hk
  | emptyArray hw => exact .emptyArray (hw.mono hD)
  | array hw h => exact .array (hw.mono hD) (h.mono hD hP)
  | emptyObject hw => exact .emptyObject (hw.mono hD)
  | object hw h hnames =>
    exact .object (hw.mono hD) (h.mono hD (Member.mono hD hP)) (hD.names _ hnames)

end

/-- A text of one dialect is one of a larger dialect, and of more levels. -/
theorem JsonText.mono (hD : D.Le D') {levels levels' : ℕ} (hl : levels ≤ levels')
    (h : JsonText D C levels t v) : JsonText D' C levels' t v := by
  induction levels generalizing levels' t v with
  | zero => exact h.elim
  | succ levels ih =>
    obtain ⟨levels', rfl⟩ : ∃ k, levels' = k + 1 := ⟨levels' - 1, by omega⟩
    exact Value.mono hD (ih (by omega)) h

end

namespace Dialect

/-- The values of RFC 4627 whose names and numerals parson can do with. -/
def common : Dialect where
  space := rfc4627.space
  numeral n := n.Rfc4627 ∧ ¬ n.ZeroExponent
  names := parson.names
  trailingComma := False

theorem common_le_rfc4627 : common.Le rfc4627 :=
  ⟨fun _ h => h, fun _ h => h.1, fun _ _ => trivial, fun h => h⟩

theorem common_le_parson : common.Le parson where
  space c h := by
    have h : (c == 32 || c == 9 || c == 10 || c == 13) = true := h
    simp only [Bool.or_eq_true, beq_iff_eq] at h
    rcases h with ((rfl | rfl) | rfl) | rfl <;> rfl
  numeral n h := ⟨.inr h.1.int_ne, h.1.leading_zero, h.2⟩
  names _ h := h
  trailingComma h := h.elim

end Dialect

/-! ## No NUL -/

theorem Hex4.not_nul {h : Bytes} {n : ℕ} (hn : Hex4 h n) : (0 : UInt8) ∉ h := by
  have key {c : UInt8} {x : ℕ} (hc : hexCharToInt c = some x) : 0 ≠ c :=
    (hexCharToInt_byte hc).2.1.symm
  obtain ⟨h₁, h₂, h₃, h₄⟩ := hn
  simp [key h₁, key h₂, key h₃, key h₄]

/-- The letter of an escape is ASCII, and so is the byte that it stands for. -/
theorem simpleEscape_byte : ∀ e : UInt8, (simpleEscape e).isSome →
    0 ≠ e ∧ e.toNat < 0x80 ∧ ((simpleEscape e).getD 0).toNat < 0x80 :=
  forall_byte (by decide +kernel)

theorem Chars.not_nul {t str : Bytes} (h : Chars t str) : (0 : UInt8) ∉ t := by
  have hplain : ∀ c : UInt8, 0x20 ≤ c → 0 ≠ c := by
    rintro c hc rfl
    exact absurd hc (by decide)
  induction h with
  | nil => exact List.not_mem_nil
  | unescaped hc _ _ _ ih => simp [hplain _ hc, ih]
  | escape he _ ih => simp [(simpleEscape_byte _ (by rw [he]; rfl)).1, ih]
  | unicode hc _ ih => simp [hc.not_nul, ih]
  | pair _ hlead htrail _ ih => simp [hlead.not_nul, htrail.not_nul, ih]

theorem JsonNumeral.text_not_nul (n : JsonNumeral) : (0 : UInt8) ∉ n.text := by
  have hsign : (0 : UInt8) ∉ (if n.negative then [45] else [] : Bytes) := by
    cases n.negative <;> decide
  rw [text, List.mem_append, not_or]
  refine ⟨hsign, fun h => ?_⟩
  exact absurd (n.unsignedText_mem h) (by decide)

theorem Space.not_nul {w : Bytes} (hw : Space .parson w) : (0 : UInt8) ∉ w :=
  fun h => absurd (hw 0 h) (by decide)

theorem Separated.not_nul {α : Type} {E : Bytes → α → Prop}
    (hE : ∀ {t x}, E t x → (0 : UInt8) ∉ t) {t : Bytes} {xs : List α}
    (h : Separated .parson E t xs) : (0 : UInt8) ∉ t := by
  induction h with
  | last h hw => simp [hE h, hw.not_nul]
  | comma _ h hw hw' => simp [hE h, hw.not_nul, hw'.not_nul]
  | cons h hw hw' _ ih => simp [hE h, hw.not_nul, hw'.not_nul, ih]

theorem Member.not_nul {P : Bytes → JsonValue → Prop} (hP : ∀ {t v}, P t v → (0 : UInt8) ∉ t)
    {t : Bytes} {m : Bytes × JsonValue} (h : Member .parson P t m) : (0 : UInt8) ∉ t := by
  obtain ⟨hk, hw, hw', h⟩ := h
  simp [hk.not_nul, hw.not_nul, hw'.not_nul, hP h]

section
variable {C : Libc} {levels : ℕ} {t : Bytes} {v : JsonValue}

theorem JsonText.not_nul (h : JsonText .parson C levels t v) : (0 : UInt8) ∉ t := by
  induction levels generalizing t v with
  | zero => exact h.elim
  | succ levels ih =>
    cases h with
    | null | true | false => decide
    | number => exact JsonNumeral.text_not_nul _
    | string hk => simp [hk.not_nul]
    | emptyArray hw => simp [hw.not_nul]
    | array hw h => simp [hw.not_nul, h.not_nul ih]
    | emptyObject hw => simp [hw.not_nul]
    | object hw h => simp [hw.not_nul, h.not_nul (Member.not_nul ih)]

/-! ## RFC 4627 -/

theorem stops_space {w : Bytes} (hw : Space .parson w) : Stops w := by
  have : Stops (w ++ []) := .space hw fun c hc => by cases hc
  rwa [List.append_nil] at this

theorem skipBom_eq_self {s : Bytes} (h : s.head? ≠ some 0xEF) : skipBom s = s := by
  refine if_neg fun hs => h ?_
  cases s with
  | nil => cases hs
  | cons c s => exact congrArg some (List.cons.inj hs).1

/-- A text has no byte order mark. -/
theorem skipBom_text {w r : Bytes} (hw : Space .parson w)
    (h : JsonText .parson C levels t v) : skipBom (w ++ (t ++ r)) = w ++ (t ++ r) := by
  refine skipBom_eq_self fun hbom => ?_
  cases w with
  | nil =>
    -- a value starts with an ASCII character
    have hread := parseValue_complete C levels (w := []) (r := []) hw h fun _ _ c hc => by cases hc
    obtain ⟨c, t', ht, hlt⟩ := parseValue_skip hread
    rw [List.append_nil, List.nil_append, (jsonText_starts (.inl rfl) h).skipWhitespaces] at ht
    rw [ht] at hbom
    cases hbom
    exact absurd hlt (by decide)
  | cons c w =>
    cases hbom
    exact absurd (hw 0xEF List.mem_cons_self) (by decide)

/-- A text with white space around it, and a NUL behind it. -/
theorem jsonParseString_spaced {w w' : Bytes} (hw : Space .parson w)
    (h : JsonText .parson C (maxNesting + 1) t v) (hw' : Space .parson w') (junk : Bytes) :
    jsonParseString C (w ++ (t ++ w') ++ 0 :: junk) = some v := by
  have hnul : (0 : UInt8) ∉ w ++ (t ++ w') := by simp [hw.not_nul, h.not_nul, hw'.not_nul]
  refine jsonParseString_eq_some.2 ⟨w', ?_⟩
  rw [cstr_append_nul, cstr_eq_self hnul, skipBom_text hw h]
  exact parseValue_complete C _ hw h fun _ _ => stops_space hw'

/-- **Values of RFC 4627 are read as what they say**, unless they are too deep, a name is used twice
    in an object or has a NUL in it, or a numeral has an exponent directly after a zero.  As in all
    of `Value`, no numeral overflows and a surrogate is escaped with the other half of its pair. -/
theorem jsonParseString_rfc4627 (hlevels : levels ≤ maxNesting + 1) {w w' : Bytes}
    (hw : Space .rfc4627 w) (h : JsonText .common C levels t v) (hw' : Space .rfc4627 w')
    (junk : Bytes) : jsonParseString C (w ++ (t ++ w') ++ 0 :: junk) = some v := by
  have hw₁ := Space.mono Dialect.common_le_parson hw
  have hw₂ := Space.mono Dialect.common_le_parson hw'
  exact jsonParseString_spaced hw₁ (JsonText.mono Dialect.common_le_parson hlevels h) hw₂ junk

theorem parseValue_number {c : UInt8} (hc : c = 45 ∨ isDigit c = true) (s : Bytes) :
    parseValue C (levels + 1) (c :: s) = parseNumberValue C (c :: s) := by
  have key : ∀ c, c = 45 ∨ isDigit c = true → isSpace c = false ∧ c ≠ 123 ∧ c ≠ 91 ∧ c ≠ 34 ∧
      ¬ (c = 102 ∨ c = 116) := forall_byte (by decide +kernel)
  obtain ⟨hs, h₁, h₂, h₃, h₄⟩ := key c hc
  rw [parseValue, skipWhitespaces_of_not_space hs]
  simp only [h₁, h₂, h₃, h₄, hc, if_false, if_true]

/-- **Numerals of RFC 4627**: each is read as the double that `strtod` gives for its value, unless
    that overflows or the numeral is a `0` directly followed by an exponent, such as `0e1`. -/
theorem parseValue_rfcNumeral (C : Libc) (levels : ℕ) {n : JsonNumeral} (hn : n.Rfc4627) {r : Bytes}
    (hr : Stops r) {x : JsonValue × Bytes} : parseValue C (levels + 1) (n.text ++ r) = some x ↔
      ¬ n.ZeroExponent ∧
        ∃ d, C.strtodRound n.negative n.value = some d ∧ x = (.number d, r) := by
  obtain ⟨c, t, ht, hfirst⟩ := n.text_head
  have hread : parseValue C (levels + 1) (n.text ++ r) = parseNumberValue C (n.text ++ r) := by
    rw [ht]
    exact parseValue_number (hfirst.1 (.inr hn.int_ne)) _
  have hdecimal : isDecimal n.text = true ↔ ¬ n.ZeroExponent :=
    n.isDecimal_text.trans (and_iff_right hn.leading_zero)
  rw [hread, n.parseNumberValue_text C hr, ← hdecimal]
  split
  · next h => simp [h, eq_comm]
  · next h => simp [h]

end

/-- `0e1`. -/
def zeroExponent : JsonNumeral where
  negative := false
  int := [48]
  frac := none
  exp := some ⟨false, none, [49], by simp, List.forall_mem_singleton.2 rfl⟩
  int_isDigit := List.forall_mem_singleton.2 rfl
  frac_isDigit := by simp
  some_digit := by decide

theorem parseValue_zeroExponent : parseValue Libc.exact 1 (bytes "0e1" ++ []) = none := by
  have hrfc : zeroExponent.Rfc4627 := ⟨by decide, fun _ => rfl, by simp [zeroExponent]⟩
  have h (x) := parseValue_rfcNumeral Libc.exact 0 hrfc (r := []) (fun c hc => by cases hc) (x := x)
  refine Option.eq_none_iff_forall_not_mem.2 fun x hx => ?_
  exact ((h x).1 hx).1 ⟨rfl, rfl, rfl⟩

/-- `15e1`. -/
def fifteenTens : JsonNumeral where
  negative := false
  int := [49, 53]
  frac := none
  exp := some ⟨false, none, [49], by simp, List.forall_mem_singleton.2 rfl⟩
  int_isDigit := List.forall_mem_cons.2 ⟨rfl, List.forall_mem_singleton.2 rfl⟩
  frac_isDigit := by simp
  some_digit := by decide

/-- An object with a number, with white space around it. -/
theorem jsonParseString_rfc4627_sample :
    jsonParseString Libc.exact ([32] ++ (bytes "\x7b\"id\": 15e1\x7d" ++ [10]) ++ [0, 255]) =
      some (.object [(bytes "id", .number 150)]) := by
  have hnumber : JsonText .common Libc.exact 1 fifteenTens.text (.number 150) :=
    .number ⟨⟨by decide, by decide, by decide⟩, fun h => absurd h.1 (by decide)⟩ (by decide +kernel)
  have hid : Chars (bytes "id") (bytes "id") :=
    .unescaped (by decide) (by decide) (by decide)
      (.unescaped (by decide) (by decide) (by decide) .nil)
  have hblank : Space .common [32] := by decide
  have hmember := Member.mk (w := []) hid (by decide) hblank hnumber
  have htext : JsonText .common Libc.exact 2 (bytes "\x7b\"id\": 15e1\x7d")
      (.object [(bytes "id", .number 150)]) :=
    Value.object (w := []) (by decide) (.last (w := []) hmember (by decide))
      ⟨by decide, List.forall_mem_singleton.2 (by decide)⟩
  exact jsonParseString_rfc4627 (by decide) (by decide) htext (by decide) [255]

/-! ## UTF-8 -/

/-- The values in a value. -/
def JsonValue.children : JsonValue → List JsonValue
  | .array items => items
  | .object members => members.map Prod.snd
  | _ => []

/-- A property of a value and of all values in it. -/
inductive JsonValue.Forall (p : JsonValue → Prop) : JsonValue → Prop
  | mk {v : JsonValue} (h : p v) (hc : ∀ w ∈ v.children, Forall p w) : Forall p v

/-- A string, or the names of an object, are in UTF-8. -/
def JsonValue.StringsUtf8 : JsonValue → Prop
  | .string str => Utf8 str
  | .object members => ∀ m ∈ members, Utf8 m.1
  | _ => True

theorem ascii_of_all {s : Bytes} (h : s.all (fun c => decide (c.toNat < 0x80)) = true) :
    ∀ c ∈ s, c.toNat < 0x80 := by
  simpa using h

theorem Hex4.utf8_iff {h t : Bytes} {n : ℕ} (hn : Hex4 h n) : Utf8 (h ++ t) ↔ Utf8 t := by
  refine Utf8.append_iff fun c hc => ?_
  obtain ⟨h₁, h₂, h₃, h₄⟩ := hn
  simp only [List.mem_cons, List.not_mem_nil, or_false] at hc
  rcases hc with rfl | rfl | rfl | rfl
  exacts [(hexCharToInt_byte h₁).2.2, (hexCharToInt_byte h₂).2.2, (hexCharToInt_byte h₃).2.2,
    (hexCharToInt_byte h₄).2.2]

/-- Undoing the escapes of a text in UTF-8.  The bytes `a` of a character may already have been
    taken. -/
theorem Chars.utf8 {t str : Bytes} (h : Chars t str) {a : Bytes} (ht : Utf8 (a ++ t)) :
    Utf8 (a ++ str) := by
  have hbackslash : (92 : UInt8).toNat < 0x80 := by decide
  induction h generalizing a with
  | nil => exact ht
  | @unescaped c t str _ _ _ _ ih =>
    rw [List.append_cons] at ht ⊢
    exact ih ht
  | escape he _ ih =>
    obtain ⟨-, he', hb⟩ := simpleEscape_byte _ (by rw [he]; rfl)
    rw [he, Option.getD_some] at hb
    obtain ⟨ha, ht⟩ := (Utf8.cut hbackslash).1 ht
    exact ha.append ((Utf8.cons_iff hb).2 (ih (a := []) ((Utf8.cons_iff he').1 ht)))
  | unicode hc _ ih =>
    obtain ⟨ha, ht⟩ := (Utf8.cut hbackslash).1 ht
    have ht' := hc.utf8_iff.1 ((Utf8.cons_iff (by decide)).1 ht)
    exact ha.append ((Utf8.char _).append (ih (a := []) ht'))
  | pair _ hlead htrail _ ih =>
    obtain ⟨ha, ht⟩ := (Utf8.cut hbackslash).1 ht
    have ht₁ := hlead.utf8_iff.1 ((Utf8.cons_iff (by decide)).1 ht)
    have ht₂ := (Utf8.cons_iff (by decide)).1 ((Utf8.cons_iff hbackslash).1 ht₁)
    exact ha.append ((Utf8.char _).append (ih (a := []) (htrail.utf8_iff.1 ht₂)))

/-- Of a text in UTF-8, what `E` takes from its start has the property `G`, and the rest is in UTF-8
    again. -/
def TakesUtf8 {α : Type} (E : Bytes → α → Prop) (G : α → Prop) : Prop :=
  ∀ t x r, E t x → Utf8 (t ++ r) → G x ∧ Utf8 r

theorem Space.utf8_iff {w t : Bytes} (hw : Space .parson w) : Utf8 (w ++ t) ↔ Utf8 t := by
  refine Utf8.append_iff fun c hc => ?_
  have hspace : isSpace c = true := hw c hc
  simp only [isSpace, Bool.or_eq_true, beq_iff_eq, Bool.and_eq_true, decide_eq_true_eq,
    UInt8.le_iff_toNat_le] at hspace
  rcases hspace with rfl | ⟨-, hle⟩
  · decide
  · exact lt_of_le_of_lt hle (by decide)

theorem quoted_utf8 {k str r : Bytes} (hk : Chars k str) (h : Utf8 (34 :: (k ++ 34 :: r))) :
    Utf8 str ∧ Utf8 r := by
  obtain ⟨hk', hr⟩ := (Utf8.cut (by decide)).1 ((Utf8.cons_iff (by decide)).1 h)
  exact ⟨hk.utf8 (a := []) hk', hr⟩

theorem Separated.utf8 {α : Type} {E : Bytes → α → Prop} {G : α → Prop} (hE : TakesUtf8 E G) :
    TakesUtf8 (Separated .parson E) fun xs => ∀ x ∈ xs, G x := by
  intro t xs r h
  induction h with
  | last h hw =>
    intro ht
    rw [List.append_assoc] at ht
    obtain ⟨hx, ht⟩ := hE _ _ _ h ht
    exact ⟨List.forall_mem_singleton.2 hx, hw.utf8_iff.1 ht⟩
  | comma _ h hw hw' =>
    intro ht
    rw [List.append_assoc, List.append_assoc] at ht
    obtain ⟨hx, ht⟩ := hE _ _ _ h ht
    rw [hw.utf8_iff, List.cons_append, Utf8.cons_iff (by decide), hw'.utf8_iff] at ht
    exact ⟨List.forall_mem_singleton.2 hx, ht⟩
  | cons h hw hw' _ ih =>
    intro ht
    rw [List.append_assoc, List.append_assoc] at ht
    obtain ⟨hx, ht⟩ := hE _ _ _ h ht
    rw [hw.utf8_iff, List.cons_append, Utf8.cons_iff (by decide), List.append_assoc,
      hw'.utf8_iff] at ht
    obtain ⟨hxs, hr⟩ := ih ht
    exact ⟨List.forall_mem_cons.2 ⟨hx, hxs⟩, hr⟩

theorem Member.utf8 {P : Bytes → JsonValue → Prop} {G : JsonValue → Prop} (hP : TakesUtf8 P G) :
    TakesUtf8 (Member .parson P) fun m => Utf8 m.1 ∧ G m.2 := by
  intro t m r h ht
  obtain ⟨hk, hw, hw', h⟩ := h
  simp only [List.cons_append, List.append_assoc] at ht
  obtain ⟨hkey, ht⟩ := quoted_utf8 hk ht
  rw [hw.utf8_iff, Utf8.cons_iff (by decide), hw'.utf8_iff] at ht
  obtain ⟨hv, hr⟩ := hP _ _ _ h ht
  exact ⟨⟨hkey, hv⟩, hr⟩

theorem JsonNumeral.text_utf8 (n : JsonNumeral) {r : Bytes} (h : Utf8 (n.text ++ r)) : Utf8 r := by
  refine (Utf8.append_iff fun c hc => ?_).1 h
  rw [text, List.mem_append] at hc
  rcases hc with hc | hc
  · refine (numeral_byte c ?_).1
    cases hneg : n.negative <;> rw [hneg] at hc <;> simp_all
  · exact (numeral_byte c (n.unsignedText_mem hc)).1

theorem JsonText.utf8 (C : Libc) (levels : ℕ) :
    TakesUtf8 (JsonText .parson C levels) (JsonValue.Forall JsonValue.StringsUtf8) := by
  have hleaf {v : JsonValue} (h : v.StringsUtf8) (hc : v.children = []) :
      v.Forall JsonValue.StringsUtf8 := .mk h (by simp [hc])
  induction levels with
  | zero => exact fun _ _ _ h => h.elim
  | succ levels ih =>
    intro t v r h ht
    cases h with
    | null => exact ⟨hleaf trivial rfl, (Utf8.append_iff (ascii_of_all (by decide))).1 ht⟩
    | true => exact ⟨hleaf trivial rfl, (Utf8.append_iff (ascii_of_all (by decide))).1 ht⟩
    | false => exact ⟨hleaf trivial rfl, (Utf8.append_iff (ascii_of_all (by decide))).1 ht⟩
    | number => exact ⟨hleaf trivial rfl, JsonNumeral.text_utf8 _ ht⟩
    | string hk =>
      rw [List.cons_append, List.append_assoc] at ht
      obtain ⟨hstr, hr⟩ := quoted_utf8 hk ht
      exact ⟨hleaf hstr rfl, hr⟩
    | emptyArray hw =>
      rw [List.cons_append, Utf8.cons_iff (by decide), List.append_assoc, hw.utf8_iff] at ht
      exact ⟨hleaf trivial rfl, (Utf8.cons_iff (by decide)).1 ht⟩
    | array hw h =>
      rw [List.cons_append, Utf8.cons_iff (by decide), List.append_assoc, List.append_assoc,
        hw.utf8_iff] at ht
      obtain ⟨hitems, hr⟩ := Separated.utf8 ih _ _ _ h ht
      exact ⟨.mk trivial hitems, (Utf8.cons_iff (by decide)).1 hr⟩
    | emptyObject hw =>
      rw [List.cons_append, Utf8.cons_iff (by decide), List.append_assoc, hw.utf8_iff] at ht
      exact ⟨hleaf (by simp [JsonValue.StringsUtf8]) rfl, (Utf8.cons_iff (by decide)).1 ht⟩
    | object hw h =>
      rw [List.cons_append, Utf8.cons_iff (by decide), List.append_assoc, List.append_assoc,
        hw.utf8_iff] at ht
      obtain ⟨hmembers, hr⟩ := Separated.utf8 (Member.utf8 ih) _ _ _ h ht
      refine ⟨.mk (fun m hm => (hmembers m hm).1) ?_, (Utf8.cons_iff (by decide)).1 hr⟩
      simp only [JsonValue.children, List.forall_mem_map]
      exact fun m hm => (hmembers m hm).2

theorem skipBom_utf8 {s : Bytes} (h : Utf8 s) : Utf8 (skipBom s) := by
  rw [skipBom]
  split
  · next hs =>
    have hbom : String.utf8EncodeChar (Char.ofNat 0xFEFF) = [0xEF, 0xBB, 0xBF] := by decide
    rw [take_eq_append hs, ← hbom] at h
    exact utf8_encode_append.1 h
  · exact h

/-- **A text in UTF-8 gives strings in UTF-8.** -/
theorem jsonParseString_utf8 {C : Libc} {mem : Bytes} {v : JsonValue} (hmem : Utf8 (cstr mem))
    (h : jsonParseString C mem = some v) : v.Forall JsonValue.StringsUtf8 := by
  obtain ⟨r, h⟩ := jsonParseString_eq_some.1 h
  rcases parseValue_sound C _ h with ⟨w, t, hw, hs, ht⟩ | ⟨rfl, -⟩
  · have hutf8 := skipBom_utf8 hmem
    rw [hs, hw.utf8_iff] at hutf8
    exact (JsonText.utf8 C _ _ _ _ ht hutf8).1
  · exact .mk trivial (by simp [JsonValue.children])

/-- `"\u00e9"`. -/
theorem jsonParseString_utf8_sample :
    (JsonValue.string [0xC3, 0xA9]).Forall JsonValue.StringsUtf8 := by
  have hends : ∀ c ∈ ([0] : Bytes).head?, isCont c = false := by
    rintro _ ⟨⟩
    decide
  have hmem : Utf8 (cstr (bytes "\"\\u00e9\"")) := (isValidUtf8_of_ends hends).1 (by decide)
  exact jsonParseString_utf8 (C := Libc.exact) hmem (by decide)

/-! ## What is written -/

section
variable {C : Libc}

/-- A natural number, with or without a minus sign. -/
def signedNumeral (negative : Bool) (m : ℕ) : JsonNumeral where
  negative := negative
  int := decimal m
  frac := none
  exp := none
  int_isDigit := decimal_isDigit
  frac_isDigit := by simp
  some_digit := by simpa using decimal_ne_nil _

theorem signedNumeral_common (negative : Bool) (m : ℕ) :
    Dialect.common.numeral (signedNumeral negative m) := by
  refine ⟨⟨decimal_ne_nil _, fun h => ?_, by simp [signedNumeral]⟩, fun h => by cases h.2.2⟩
  by_cases h0 : m = 0
  · rw [h0]
    rfl
  · exact absurd h (decimal_head_ne_zero h0)

theorem signedNumeral_value (negative : Bool) (m : ℕ) :
    (signedNumeral negative m).value = (if negative then -1 else 1) * (m : ℚ) := by
  cases negative <;> simp [JsonNumeral.value, signedNumeral, exponentValue]

theorem signedNumeral_text (negative : Bool) (m : ℕ) :
    (signedNumeral negative m).text = (if negative then [45] else []) ++ decimal m := by
  cases negative <;>
    simp [JsonNumeral.text, JsonNumeral.unsignedText, signedNumeral, fractionText, exponentText]

/-- The text of an exact number is a numeral of the number. -/
theorem Double.Exact.exists_numeral (C : Libc) {d : Double} (h : d.Exact) :
    ∃ n : JsonNumeral, Dialect.common.numeral n ∧ n.text = C.sprintfG17 d ∧
      C.strtodRound n.negative n.value = some d := by
  rcases h with rfl | ⟨n, rfl, hn⟩
  · refine ⟨signedNumeral true 0, signedNumeral_common _ _, ?_, ?_⟩
    · rw [signedNumeral_text, C.sprintfG17_negZero]
      decide
    · rw [signedNumeral_value, Nat.cast_zero, mul_zero]
      exact C.strtodRound_negZero
  · refine ⟨signedNumeral (decide (n < 0)) n.natAbs, signedNumeral_common _ _, ?_, ?_⟩
    · rw [signedNumeral_text, C.sprintfG17_int n hn, intText]
      by_cases hneg : n < 0 <;> simp [hneg]
    · have hvalue : (signedNumeral (decide (n < 0)) n.natAbs).value = n := by
        have hcast : ((n.natAbs : ℤ) : ℚ) = (n.natAbs : ℚ) := Int.cast_natCast _
        rw [signedNumeral_value, ← hcast]
        by_cases hneg : n < 0
        · rw [show (n.natAbs : ℤ) = -n by omega]
          simp [hneg]
        · rw [show (n.natAbs : ℤ) = n by omega]
          simp [hneg]
      rw [hvalue]
      exact C.strtodRound_int n hn

/-- White space behind the last item. -/
theorem Separated.append_space {α : Type} {D : Dialect} {E : Bytes → α → Prop} {t w : Bytes}
    {xs : List α} (h : Separated D E t xs) (hw : Space D w) : Separated D E (t ++ w) xs := by
  have happend {w₁ w₂ : Bytes} (h₁ : Space D w₁) (h₂ : Space D w₂) : Space D (w₁ ++ w₂) :=
    List.forall_mem_append.2 ⟨h₁, h₂⟩
  induction h with
  | last h hw₁ =>
    rw [List.append_assoc]
    exact .last h (happend hw₁ hw)
  | comma hD h hw₁ hw₂ =>
    rw [List.append_assoc, List.cons_append]
    exact .comma hD h hw₁ (happend hw₂ hw)
  | cons h hw₁ hw₂ _ ih =>
    have hcons := Separated.cons h hw₁ hw₂ ih
    simpa only [List.append_assoc, List.cons_append] using hcons

/-- Items with commas between them, each on a line of its own if `pretty`. -/
def linesText (pretty : Bool) (level : ℕ) : List Bytes → Bytes
  | [] => []
  | t :: ts => (if pretty = true then Parson.indentText (level + 1) else []) ++
      (t ++ ((if ts ≠ [] then [44] else []) ++
        ((if pretty = true then [10] else []) ++ linesText pretty level ts)))

theorem itemsText_eq (pretty : Bool) (level : ℕ) (items : List JsonValue) :
    Parson.itemsText C pretty items level =
      linesText pretty level (items.map fun v => Parson.serializeText C pretty v (level + 1)) := by
  induction items with
  | nil => rfl
  | cons v items ih =>
    rw [Parson.itemsText, List.map_cons, linesText, ih]
    simp

/-- The text of a member. -/
def memberText (C : Libc) (pretty : Bool) (level : ℕ) (m : Bytes × JsonValue) : Bytes :=
  jsonSerializeString (cstr m.1) ++ ([58] ++ ((if pretty = true then [32] else []) ++
    Parson.serializeText C pretty m.2 (level + 1)))

theorem membersText_eq (pretty : Bool) (level : ℕ) (members : JsonObject) :
    Parson.membersText C pretty members level =
      linesText pretty level (members.map (memberText C pretty level)) := by
  induction members with
  | nil => rfl
  | cons m members ih =>
    rw [Parson.membersText, List.map_cons, linesText, ih, memberText]
    simp

theorem indentText_space (level : ℕ) : Space .common (Parson.indentText level) := by
  intro c hc
  rw [Parson.indentText, List.mem_flatten] at hc
  obtain ⟨l, hl, hc⟩ := hc
  rw [List.eq_of_mem_replicate hl] at hc
  have hspaces : ∀ l : Bytes, Space .common l → c ∈ l → Dialect.common.space c = true :=
    fun l hl hmem => hl c hmem
  exact hspaces _ (by decide) hc

theorem linesText_separated {α : Type} {E : Bytes → α → Prop} {entry : α → Bytes} (pretty : Bool)
    (level : ℕ) {xs : List α} (hne : xs ≠ []) (h : ∀ x ∈ xs, E (entry x) x) :
    ∃ w ts, Space .common w ∧ linesText pretty level (xs.map entry) = w ++ ts ∧
      Separated .common E ts xs := by
  have hindent : Space .common (if pretty = true then Parson.indentText (level + 1) else []) := by
    split
    · exact indentText_space _
    · decide
  have hnewline : Space .common (if pretty = true then [10] else []) := by
    split <;> decide
  induction xs with
  | nil => exact absurd rfl hne
  | cons x xs ih =>
    rw [List.forall_mem_cons] at h
    refine ⟨_, _, hindent, rfl, ?_⟩
    cases xs with
    | nil =>
      have hlast := Separated.last (D := .common) h.1 hnewline
      simpa [linesText] using hlast
    | cons y xs =>
      obtain ⟨w, ts, hw, hts, hsep⟩ := ih (List.cons_ne_nil _ _) h.2
      have hcons := Separated.cons (w := []) h.1 (by decide)
        (List.forall_mem_append.2 ⟨hnewline, hw⟩) hsep
      rw [List.map_cons] at hts
      rw [List.map_cons, hts]
      simpa using hcons

theorem memberText_member {P : Bytes → JsonValue → Prop} (pretty : Bool) (level : ℕ)
    {m : Bytes × JsonValue} (h0 : (0 : UInt8) ∉ m.1)
    (h : P (Parson.serializeText C pretty m.2 (level + 1)) m.2) :
    Member .common P (memberText C pretty level m) m := by
  obtain ⟨k, hk, he⟩ := getQuotedString_iff.1 (getQuotedString_serialize m.1 [])
  have hspace : Space .common (if pretty = true then [32] else []) := by
    split <;> decide
  rw [List.append_nil] at he
  have hmember := Member.mk (w := []) hk (by decide) hspace h
  rw [memberText, cstr_eq_self h0, he]
  simpa using hmember

/-- The lines between two brackets. -/
theorem bracketed_separated {α : Type} {E : Bytes → α → Prop} {entry : α → Bytes} (pretty : Bool)
    (level : ℕ) (close : UInt8) {xs : List α} (hne : xs ≠ []) (h : ∀ x ∈ xs, E (entry x) x) :
    ∃ w ts, Space .common w ∧ Separated .common E ts xs ∧
      (if xs ≠ [] ∧ pretty = true then [10] else []) ++ (linesText pretty level (xs.map entry) ++
        ((if xs ≠ [] ∧ pretty = true then Parson.indentText level else []) ++ [close])) =
        w ++ (ts ++ [close]) := by
  obtain ⟨w, ts, hw, hts, hsep⟩ := linesText_separated pretty level hne h
  have hnewline : Space .common (if pretty = true then [10] else []) := by
    split <;> decide
  have hindent : Space .common (if pretty = true then Parson.indentText level else []) := by
    split
    · exact indentText_space _
    · decide
  refine ⟨_, _, List.forall_mem_append.2 ⟨hnewline, hw⟩, hsep.append_space hindent, ?_⟩
  simp only [hts, hne, ne_eq, not_false_eq_true, true_and, List.append_assoc]

/-- **What is written is a value of RFC 4627**, with or without indentation. -/
theorem serializeText_jsonText {levels : ℕ} {v : JsonValue} (h : v.Plain levels) (pretty : Bool)
    (level : ℕ) : JsonText .common C levels (Parson.serializeText C pretty v level) v := by
  induction levels generalizing v level with
  | zero => exact h.elim
  | succ levels ih =>
    cases v with
    | null => exact .null
    | boolean b =>
      cases b
      · exact .false
      · exact .true
    | number d =>
      obtain ⟨n, hn, htext, hd⟩ := Double.Exact.exists_numeral C h
      rw [Parson.serializeText, ← htext]
      exact .number hn hd
    | string str =>
      obtain ⟨t, ht, he⟩ := getQuotedString_iff.1 (getQuotedString_serialize str [])
      rw [List.append_nil] at he
      rw [Parson.serializeText, he]
      exact .string ht
    | array items =>
      rw [Parson.serializeText, itemsText_eq]
      by_cases hne : items = []
      · subst hne
        exact .emptyArray (w := []) (by decide)
      · obtain ⟨w, ts, hw, hsep, he⟩ := bracketed_separated pretty level 93 hne
          fun v hv => ih (h v hv) (level + 1)
        rw [he]
        exact .array hw hsep
    | object members =>
      rw [Parson.serializeText, membersText_eq]
      by_cases hne : members = []
      · subst hne
        exact .emptyObject (w := []) (by decide)
      · obtain ⟨w, ts, hw, hsep, he⟩ := bracketed_separated pretty level 125 hne
          fun m hm => memberText_member pretty level (h.2 m hm).1 (ih (h.2 m hm).2 (level + 1))
        rw [he]
        exact .object hw hsep ⟨h.1, List.forall_mem_map.2 fun m hm => (h.2 m hm).1⟩

/-! ## What is read can be written -/

/-- A number that its numeral represents exactly. -/
def JsonValue.ExactNumber : JsonValue → Prop
  | .number d => d.Exact
  | _ => True

theorem Separated.forall_mem {α : Type} {D : Dialect} {E : Bytes → α → Prop} {G : α → Prop}
    (hE : ∀ {t x}, E t x → G x) {t : Bytes} {xs : List α} (h : Separated D E t xs) :
    ∀ x ∈ xs, G x := by
  induction h with
  | last h | comma _ h => exact List.forall_mem_singleton.2 (hE h)
  | cons h _ _ _ ih => exact List.forall_mem_cons.2 ⟨hE h, ih⟩

/-- What is read has the form that can be written and read again. -/
theorem JsonText.plain {levels : ℕ} {t : Bytes} {v : JsonValue}
    (h : JsonText .parson C levels t v) (hv : v.Forall JsonValue.ExactNumber) : v.Plain levels := by
  induction levels generalizing t v with
  | zero => exact h.elim
  | succ levels ih =>
    obtain ⟨hp, hc⟩ := hv
    cases h with
    | null | true | false | string => trivial
    | number => exact hp
    | emptyArray => exact fun v hv => by cases hv
    | array _ h =>
      have := h.forall_mem (G := fun v => v.Forall JsonValue.ExactNumber → v.Plain levels) ih
      exact fun v hv => this v hv (hc v hv)
    | emptyObject => exact ⟨List.nodup_nil, fun m hm => by cases hm⟩
    | @object w t members _ h hnames =>
      have hmembers := h.forall_mem
        (G := fun m => m.2.Forall JsonValue.ExactNumber → m.2.Plain levels) fun hm hv => by
          obtain ⟨_, _, _, hm⟩ := hm
          exact ih hm hv
      refine ⟨hnames.1, fun m hm => ⟨hnames.2 m.1 (List.mem_map_of_mem hm), hmembers m hm ?_⟩⟩
      exact hc m.2 (List.mem_map_of_mem hm)

theorem jsonParseString_plain {mem : Bytes} {v : JsonValue} (h : jsonParseString C mem = some v)
    (hv : v.Forall JsonValue.ExactNumber) : v.Plain (maxNesting + 1) := by
  obtain ⟨r, h⟩ := jsonParseString_eq_some.1 h
  rcases parseValue_sound C _ h with ⟨w, t, -, -, ht⟩ | ⟨rfl, -⟩
  · exact ht.plain hv
  · exact .inr ⟨0, Double.intCast_zero.symm, by decide⟩

/-- The text of a value that has been read is read as the same value. -/
theorem jsonParseString_serializeText {v : JsonValue} (h : v.Plain (maxNesting + 1)) (pretty : Bool)
    (behind : Bytes) :
    jsonParseString C (Parson.serializeText C pretty v 0 ++ 0 :: behind) = some v := by
  have htext := serializeText_jsonText (C := C) h pretty 0
  have hempty : Space .parson [] := by decide
  have hread :=
    jsonParseString_spaced hempty (htext.mono Dialect.common_le_parson le_rfl) hempty behind
  rwa [List.append_nil, List.nil_append] at hread

end

/-- The array `[7,-0]`, in five blocks. -/
def sampleNumbers : Parson.HeapValue :=
  .mk 0 none (.array 1
    ⟨0, some 2, [.mk 3 (some 0) (.number 7), .mk 4 (some 0) (.number .negZero)], 16⟩)

/-- Memory that holds `sampleNumbers` only. -/
def sampleNumbersHeap : Heap where
  next := 5
  fails _ := false
  failed := false
  live := sampleNumbers.blocks
  nodup := by decide
  live_lt := by decide

end Slirp4netns
