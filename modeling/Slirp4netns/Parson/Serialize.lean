/-
  slirp4netns formalization — parson's serializer, and the round trip through
  the parser.

  `jsonSerializeToString` writes a value without white space.  Values whose
  numbers are integers up to `2 ^ 53`, whose member names are distinct C
  strings and which are not nested too deeply (`JsonValue.Plain`) are read back
  as they were written (`jsonParseString_serialize`); every response of the API
  is the text of such a value.
-/
import Slirp4netns.Parson.Fuel

namespace Slirp4netns

/-- A hexadecimal digit, in lower case. -/
def hexDigit (n : ℕ) : UInt8 := if n < 10 then UInt8.ofNat (48 + n) else UInt8.ofNat (87 + n)

/-- How `json_serialize_string` writes one byte, with slashes escaped. -/
def escapeByte (c : UInt8) : Bytes :=
  if c = 34 then [92, 34]
  else if c = 92 then [92, 92]
  else if c = 8 then [92, 98]
  else if c = 12 then [92, 102]
  else if c = 10 then [92, 110]
  else if c = 13 then [92, 114]
  else if c = 9 then [92, 116]
  else if c < 0x20 then [92, 117, 48, 48, hexDigit (c.toNat / 16), hexDigit (c.toNat % 16)]
  else if c = 47 then [92, 47]
  else [c]

/-- `json_serialize_string` -/
def jsonSerializeString (s : Bytes) : Bytes := 34 :: s.flatMap escapeByte ++ [34]

mutual

/-- `json_serialize_to_buffer_r` without indentation. -/
def jsonSerializeToBufferR (C : Libc) : JsonValue → Bytes
  | .array items => 91 :: serializeItems C items ++ [93]
  | .object members => 123 :: serializeMembers C members ++ [125]
  | .string chars => jsonSerializeString chars
  | .boolean b => if b then bytes "true" else bytes "false"
  | .number q => C.sprintfG17 q
  | .null => bytes "null"

/-- The items of an array, with a comma after each but the last. -/
def serializeItems (C : Libc) : List JsonValue → Bytes
  | [] => []
  | [v] => jsonSerializeToBufferR C v
  | v :: w :: items => jsonSerializeToBufferR C v ++ 44 :: serializeItems C (w :: items)

/-- The members of an object. -/
def serializeMembers (C : Libc) : List (Bytes × JsonValue) → Bytes
  | [] => []
  | [(k, v)] => jsonSerializeString k ++ 58 :: jsonSerializeToBufferR C v
  | (k, v) :: m :: members =>
    jsonSerializeString k ++ 58 :: (jsonSerializeToBufferR C v ++
      44 :: serializeMembers C (m :: members))

end

/-- `json_serialize_to_string` -/
def jsonSerializeToString (C : Libc) (v : JsonValue) : Bytes := jsonSerializeToBufferR C v

/-! ## Values that survive the round trip -/

/-- The doubles that their numerals represent exactly: integers, and the zero with a minus sign. -/
def Double.Exact (d : Double) : Prop := d = .negZero ∨ ∃ n : ℤ, d = n ∧ n.natAbs ≤ 2 ^ 53

/-- Numbers that are written exactly, distinct member names without a NUL, and at most `levels`
    levels. -/
def JsonValue.Plain : ℕ → JsonValue → Prop
  | 0, _ => False
  | _ + 1, .number d => d.Exact
  | levels + 1, .array items => ∀ v ∈ items, v.Plain levels
  | levels + 1, .object members =>
    (members.map Prod.fst).Nodup ∧ ∀ m ∈ members, (0 : UInt8) ∉ m.1 ∧ m.2.Plain levels
  | _ + 1, .null => True
  | _ + 1, .boolean _ => True
  | _ + 1, .string _ => True

/-- The text ends here or goes on with a byte that continues no number. -/
def Stops (t : Bytes) : Prop := ∀ c ∈ t.head?, isDelim c = true

theorem Stops.cons {c : UInt8} (h : isDelim c = true) (t : Bytes) : Stops (c :: t) := by
  intro d hd
  simp only [List.head?_cons, Option.mem_def, Option.some.injEq] at hd
  exact hd ▸ h

/-! ## Strings -/

theorem processString_escape {e b : UInt8} (he : simpleEscape e = some b) (s : Bytes) :
    processString (92 :: e :: s) = (processString s).map (b :: ·) := by
  have hu : e ≠ 117 := by rintro rfl; simp [simpleEscape] at he
  rw [processString.eq_def]
  dsimp only
  rw [if_pos rfl, if_neg hu, he]

theorem processString_utf16 {c₁ c₂ c₃ c₄ : UInt8} {cp : ℕ}
    (h : parseUtf16Hex c₁ c₂ c₃ c₄ = some cp) (hcp : cp < 0xD800) (s : Bytes) :
    processString (92 :: 117 :: c₁ :: c₂ :: c₃ :: c₄ :: s) =
      (processString s).map (utf16Bytes cp ++ ·) := by
  rw [processString.eq_def]
  dsimp only
  rw [if_pos rfl, if_pos rfl, h]
  exact if_pos (Or.inl hcp)

theorem processString_cons {c : UInt8} (hb : c ≠ 92) (hc : ¬ c < 0x20) (s : Bytes) :
    processString (c :: s) = (processString s).map (c :: ·) := by
  rw [processString.eq_def]
  dsimp only
  rw [if_neg hb, if_neg hc]

/-- How an escaped byte looks: a letter escape, a code point or the byte itself. -/
theorem escapeByte_cases (c : UInt8) :
    (∃ e, escapeByte c = [92, e] ∧ simpleEscape e = some c) ∨
    (∃ h l, escapeByte c = [92, 117, 48, 48, h, l] ∧ parseUtf16Hex 48 48 h l = some c.toNat ∧
      utf16Bytes c.toNat = [c] ∧ h ≠ 34 ∧ h ≠ 92 ∧ l ≠ 34 ∧ l ≠ 92) ∨
    (escapeByte c = [c] ∧ c ≠ 34 ∧ c ≠ 92 ∧ ¬ c < 0x20) := by
  have hctl : ∀ c : UInt8, c < 0x20 →
      parseUtf16Hex 48 48 (hexDigit (c.toNat / 16)) (hexDigit (c.toNat % 16)) = some c.toNat ∧
      utf16Bytes c.toNat = [c] ∧ hexDigit (c.toNat / 16) ≠ 34 ∧ hexDigit (c.toNat / 16) ≠ 92 ∧
      hexDigit (c.toNat % 16) ≠ 34 ∧ hexDigit (c.toNat % 16) ≠ 92 :=
    forall_byte (by decide +kernel)
  have hletter : c = 34 ∨ c = 92 ∨ c = 8 ∨ c = 12 ∨ c = 10 ∨ c = 13 ∨ c = 9 ∨ c = 47 →
      ∃ e, escapeByte c = [92, e] ∧ simpleEscape e = some c := by
    rintro (rfl | rfl | rfl | rfl | rfl | rfl | rfl | rfl)
    exacts [⟨34, rfl, rfl⟩, ⟨92, rfl, rfl⟩, ⟨98, rfl, rfl⟩, ⟨102, rfl, rfl⟩, ⟨110, rfl, rfl⟩,
      ⟨114, rfl, rfl⟩, ⟨116, rfl, rfl⟩, ⟨47, rfl, rfl⟩]
  by_cases hl : c = 34 ∨ c = 92 ∨ c = 8 ∨ c = 12 ∨ c = 10 ∨ c = 13 ∨ c = 9 ∨ c = 47
  · exact Or.inl (hletter hl)
  simp only [not_or] at hl
  obtain ⟨h₁, h₂, h₃, h₄, h₅, h₆, h₇, h₈⟩ := hl
  by_cases hc : c < 0x20
  · refine Or.inr (Or.inl ⟨_, _, ?_, hctl c hc⟩)
    rw [escapeByte, if_neg h₁, if_neg h₂, if_neg h₃, if_neg h₄, if_neg h₅, if_neg h₆, if_neg h₇,
      if_pos hc]
  · refine Or.inr (Or.inr ⟨?_, h₁, h₂, hc⟩)
    rw [escapeByte, if_neg h₁, if_neg h₂, if_neg h₃, if_neg h₄, if_neg h₅, if_neg h₆, if_neg h₇,
      if_neg hc, if_neg h₈]

theorem processString_escapeByte (c : UInt8) (s : Bytes) :
    processString (escapeByte c ++ s) = (processString s).map (c :: ·) := by
  rcases escapeByte_cases c with ⟨e, he, hs⟩ | ⟨h, l, he, hp, hu, -⟩ | ⟨he, -, hb, hc⟩
  · rw [he]; exact processString_escape hs s
  · rw [he]
    have hlt : c.toNat < 256 := c.toNat_lt
    simpa [hu] using processString_utf16 hp (by omega) s
  · rw [he]; exact processString_cons hb hc s

theorem skipQuotes_escapeByte (c : UInt8) (s : Bytes) :
    skipQuotes (escapeByte c ++ s) =
      (skipQuotes s).map fun (t, r) => (escapeByte c ++ t, r) := by
  rcases escapeByte_cases c with ⟨e, he, -⟩ | ⟨h, l, he, -, -, h₁, h₂, h₃, h₄⟩ | ⟨he, hq, hb, -⟩
  · rw [he]; exact skipQuotes_escape e s
  · have h48 : (48 : UInt8) ≠ 34 ∧ (48 : UInt8) ≠ 92 := by decide
    rw [he]
    simp only [List.cons_append, List.nil_append, skipQuotes_escape, skipQuotes_cons h48.1 h48.2,
      skipQuotes_cons h₁ h₂, skipQuotes_cons h₃ h₄, Option.map_map]
    rfl
  · rw [he]; exact skipQuotes_cons hq hb s

/-- **A written string is read back.** -/
theorem getQuotedString_serialize (s t : Bytes) :
    getQuotedString (jsonSerializeString s ++ t) = some (s, t) := by
  have hskip : ∀ s : Bytes, skipQuotes (s.flatMap escapeByte ++ 34 :: t) =
      some (s.flatMap escapeByte, t) := by
    intro s
    induction s with
    | nil => exact skipQuotes_quote t
    | cons c s ih =>
      rw [List.flatMap_cons, List.append_assoc, skipQuotes_escapeByte, ih]; rfl
  have hproc : ∀ s : Bytes, processString (s.flatMap escapeByte) = some s := by
    intro s
    induction s with
    | nil => rfl
    | cons c s ih => rw [List.flatMap_cons, processString_escapeByte, ih]; rfl
  refine getQuotedString_eq_some.2 ⟨_, _, ?_, hskip s, hproc s⟩
  simp [jsonSerializeString]

/-! ## Numbers -/

theorem isDigit_of_stops {t : Bytes} (h : Stops t) : ∀ c ∈ t.head?, isDigit c = false := by
  intro c hc
  by_contra hd
  have := isDelim_digit (by simpa using hd : isDigit c = true)
  rw [h c hc] at this
  exact absurd this (by decide)

/-- Digits are taken up to the first byte that is none. -/
theorem takeDigits {ds t : Bytes} (hd : ∀ c ∈ ds, isDigit c = true)
    (ht : ∀ c ∈ t.head?, isDigit c = false) :
    (ds ++ t).takeWhile isDigit = ds ∧ (ds ++ t).dropWhile isDigit = t := by
  rw [List.takeWhile_append_of_pos hd, List.dropWhile_append_of_pos hd]
  cases t with
  | nil => simp
  | cons c t => simp [ht c rfl]

theorem strtodFraction_stops {t : Bytes} (ht : Stops t) : strtodFraction t = ([], t) := by
  cases t with
  | nil => rfl
  | cons c t =>
    have hc := ht c rfl
    rw [strtodFraction, if_neg]
    rintro rfl
    exact absurd hc (by decide)

theorem strtodExponent_stops {t : Bytes} (ht : Stops t) : strtodExponent t = (0, t) := by
  cases t with
  | nil => rfl
  | cons c t =>
    have hc := ht c rfl
    rw [strtodExponent_cons, if_neg]
    rintro (rfl | rfl) <;> exact absurd hc (by decide)

/-- Digits in front of a delimiter do not start a hexadecimal numeral. -/
theorem startsHexadecimal_digits {ds t : Bytes} (hd : ∀ c ∈ ds, isDigit c = true) (ht : Stops t) :
    startsHexadecimal (ds ++ t) = false := by
  have hno : ∀ x, isDigit x = true ∨ isDelim x = true → (x == 120 || x == 88) = false :=
    forall_byte (by decide +kernel)
  have hz : ∀ x, isDelim x = true → (x == 48) = false := forall_byte (by decide +kernel)
  rcases hs : ds ++ t with _ | ⟨z, _ | ⟨x, _ | ⟨y, u⟩⟩⟩
  · rfl
  · rfl
  · rfl
  · simp only [startsHexadecimal, Bool.and_eq_false_iff]
    left
    rcases ds with _ | ⟨d, _ | ⟨e, ds⟩⟩
    · left
      exact hz z (ht z (by simpa using congrArg List.head? hs))
    · right
      simp only [List.singleton_append, List.cons.injEq] at hs
      exact hno x (Or.inr (ht x (by rw [hs.2]; rfl)))
    · right
      simp only [List.cons_append, List.cons.injEq] at hs
      exact hno x (Or.inl (hs.2.1 ▸ hd e (by simp)))

theorem strtodUnsigned_decimalText (neg : Bool) (n : ℕ) {t : Bytes} (ht : Stops t) :
    strtodUnsigned neg (decimal n ++ t) = .decimal neg n 0 t := by
  have hd : ∀ c ∈ decimal n, isDigit c = true := decimal_isDigit
  obtain ⟨h₁, h₂⟩ := takeDigits hd (isDigit_of_stops ht)
  rw [strtodUnsigned_eq_decimal (startsHexadecimal_digits hd ht)
    (by rw [h₁]; exact fun h => decimal_ne_nil n h.1), h₁, h₂, strtodFraction_stops ht,
    strtodExponent_stops ht]
  simp

theorem isDecimal_digits (n : ℕ) (pre : Bytes) (hpre : pre = [] ∨ pre = [45]) :
    isDecimal (pre ++ decimal n) = true := by
  have hx : ∀ x, isDigit x = true → (x == 120 || x == 88) = false := forall_byte (by decide +kernel)
  have hz : (decimal n).head? = some 48 → (decimal n).length = 1 := by
    intro h
    by_cases h0 : n = 0
    · rw [h0, decimal_of_lt (by decide)]; rfl
    · exact absurd h (decimal_head_ne_zero h0)
  have hall : ∀ c ∈ decimal n, (c == 120 || c == 88) = false := fun c hc =>
    hx c (decimal_isDigit c hc)
  unfold isDecimal
  rcases hpre with rfl | rfl
  · rw [if_neg, if_neg]
    · simp only [List.nil_append, Bool.not_eq_true', List.any_eq_false, Bool.not_eq_true]
      exact hall
    · -- the first byte is a digit, not a sign
      rintro ⟨-, h, -⟩
      have : (45 : UInt8) ∈ (decimal n).take 2 := by
        rw [List.nil_append] at h
        simp [h]
      have := List.mem_of_mem_take this
      exact absurd (decimal_isDigit _ this) (by decide)
    · rintro ⟨h₁, h₂, -⟩
      have := hz h₂
      simp only [List.nil_append] at h₁
      omega
  · rw [if_neg, if_neg]
    · simp only [List.singleton_append, List.any_cons, Bool.not_eq_true', Bool.or_eq_false_iff]
      refine ⟨by decide, ?_⟩
      rw [List.any_eq_false]
      intro c hc
      simpa using hall c hc
    · rintro ⟨h₁, h₂, -⟩
      obtain ⟨d, ds, hd⟩ := List.exists_cons_of_ne_nil (decimal_ne_nil n)
      rw [hd] at h₁ h₂ hz
      simp only [List.singleton_append, List.take_succ_cons, List.take_zero, List.cons.injEq,
        and_true, true_and] at h₂
      have := hz (by rw [h₂]; rfl)
      simp only [List.singleton_append, List.length_cons] at h₁ this
      omega
    · rintro ⟨-, h, -⟩
      simp at h

theorem decimalValue_zero (neg : Bool) (n : ℕ) :
    decimalValue neg n 0 = if neg then -(n : ℚ) else n := by
  show (if neg then -(n : ℚ) else n) * 10 ^ 0 = _
  simp

/-- **A written integer is read back.** -/
theorem parseNumberValue_intText (C : Libc) {n : ℤ} (hn : n.natAbs ≤ 2 ^ 53) {t : Bytes}
    (ht : Stops t) : parseNumberValue C (intText n ++ t) = some (.number n, t) := by
  have htake : ∀ s : Bytes, (s ++ t).take ((s ++ t).length - t.length) = s := by
    intro s; simp
  unfold parseNumberValue
  by_cases h : n < 0
  · have hs : strtod (intText n ++ t) = .decimal true n.natAbs 0 t := by
      rw [intText, if_pos h]
      exact strtodUnsigned_decimalText true _ ht
    have hq : decimalValue true n.natAbs 0 = (n : ℚ) := by
      have : (n.natAbs : ℤ) = -n := by omega
      rw [decimalValue_zero, if_pos rfl, ← Int.cast_natCast, this]; simp
    have hround := C.strtodRound_int n hn
    rw [decide_eq_true h] at hround
    simp only [hs, hq, hround, htake]
    rw [intText, if_pos h]
    exact if_pos (isDecimal_digits _ [45] (Or.inr rfl))
  · have hd := decimal_isDigit (n := n.natAbs)
    have hs : strtod (intText n ++ t) = .decimal false n.natAbs 0 t := by
      rw [intText, if_neg h]
      have hu := strtodUnsigned_decimalText false n.natAbs ht
      obtain ⟨d, ds, he⟩ := List.exists_cons_of_ne_nil (decimal_ne_nil n.natAbs)
      rw [he] at hu hd ⊢
      have hne : d ≠ 45 := by
        rintro rfl
        exact absurd (hd 45 (by simp)) (by decide)
      rw [List.cons_append, strtod, if_neg hne]
      exact hu
    have hq : decimalValue false n.natAbs 0 = (n : ℚ) := by
      have : (n.natAbs : ℤ) = n := by omega
      rw [decimalValue_zero, if_neg (by decide), ← Int.cast_natCast, this]
    have hround := C.strtodRound_int n hn
    rw [decide_eq_false h] at hround
    simp only [hs, hq, hround, htake]
    rw [intText, if_neg h]
    exact if_pos (isDecimal_digits _ [] (Or.inl rfl))

/-- The zero with a minus sign is read back. -/
theorem parseNumberValue_negZero (C : Libc) {t : Bytes} (ht : Stops t) :
    parseNumberValue C (bytes "-0" ++ t) = some (.number .negZero, t) := by
  have hs : strtod (bytes "-0" ++ t) = .decimal true 0 0 t := strtodUnsigned_decimalText true 0 ht
  have hq : decimalValue true 0 0 = 0 := by rw [decimalValue_zero]; simp
  have htake : (bytes "-0" ++ t).take ((bytes "-0" ++ t).length - t.length) = bytes "-0" := by simp
  unfold parseNumberValue
  simp only [hs, hq, C.strtodRound_negZero, htake]
  rfl

/-! ## Values -/

theorem jsonSerializeString_not_nul (s : Bytes) : (0 : UInt8) ∉ jsonSerializeString s := by
  have hesc : ∀ c : UInt8, (0 : UInt8) ∉ escapeByte c := forall_byte (by decide +kernel)
  simp only [jsonSerializeString, List.cons_append, List.mem_cons, List.mem_append,
    List.mem_flatMap, List.not_mem_nil, or_false, not_or, not_exists, not_and]
  exact ⟨by decide, fun c _ => hesc c, by decide⟩

/-- The first byte of a number's text. -/
theorem intText_head (n : ℤ) : ∃ c s, intText n = c :: s ∧ (c = 45 ∨ isDigit c = true) := by
  rw [intText]
  split
  · exact ⟨_, _, rfl, Or.inl rfl⟩
  · obtain ⟨d, ds, he⟩ := List.exists_cons_of_ne_nil (decimal_ne_nil n.natAbs)
    exact ⟨d, ds, he, Or.inr (decimal_isDigit d (by rw [he]; simp))⟩

theorem intText_not_nul (n : ℤ) : (0 : UInt8) ∉ intText n := by
  have hd : (0 : UInt8) ∉ decimal n.natAbs := fun h => absurd (decimal_isDigit 0 h) (by decide)
  rw [intText]
  split
  · simpa using hd
  · exact hd

/-- **A number that is written exactly is read back.** -/
theorem Double.Exact.numeral (C : Libc) {d : Double} (h : d.Exact) :
    (∃ c s, C.sprintfG17 d = c :: s ∧ (c = 45 ∨ isDigit c = true)) ∧
    (0 : UInt8) ∉ C.sprintfG17 d ∧
    ∀ t, Stops t → parseNumberValue C (C.sprintfG17 d ++ t) = some (.number d, t) := by
  rcases h with rfl | ⟨n, rfl, hn⟩
  · rw [C.sprintfG17_negZero]
    exact ⟨⟨45, _, rfl, .inl rfl⟩, by decide, fun t ht => parseNumberValue_negZero C ht⟩
  · rw [C.sprintfG17_int n hn]
    exact ⟨intText_head n, intText_not_nul n, fun t ht => parseNumberValue_intText C hn ht⟩

/-- The text of a value starts with a visible character, which closes no array or object. -/
theorem serialize_head (C : Libc) {levels : ℕ} {v : JsonValue} (h : v.Plain levels) :
    ∃ c s, jsonSerializeToBufferR C v = c :: s ∧
      (isSpace c = false ∧ c ≠ 93 ∧ c ≠ 125 ∧ c ≠ 0xEF) := by
  have hnum : ∀ c, c = 45 ∨ isDigit c = true →
      isSpace c = false ∧ c ≠ 93 ∧ c ≠ 125 ∧ c ≠ 0xEF := forall_byte (by decide +kernel)
  match levels, v, h with
  | _ + 1, .number _, h =>
    obtain ⟨⟨c, s, hs, hc⟩, -⟩ := Double.Exact.numeral C h
    rw [jsonSerializeToBufferR]
    exact ⟨c, s, hs, hnum c hc⟩
  | _ + 1, .array _, _ => exact ⟨91, _, by rw [jsonSerializeToBufferR]; rfl, by decide⟩
  | _ + 1, .object _, _ => exact ⟨123, _, by rw [jsonSerializeToBufferR]; rfl, by decide⟩
  | _ + 1, .string _, _ => exact ⟨34, _, by rw [jsonSerializeToBufferR]; rfl, by decide⟩
  | _ + 1, .null, _ => exact ⟨110, bytes "ull", by rw [jsonSerializeToBufferR]; rfl, by decide⟩
  | _ + 1, .boolean true, _ =>
    exact ⟨116, bytes "rue", by rw [jsonSerializeToBufferR]; rfl, by decide⟩
  | _ + 1, .boolean false, _ =>
    exact ⟨102, bytes "alse", by rw [jsonSerializeToBufferR]; rfl, by decide⟩

theorem skipWhitespaces_of_not_space {c : UInt8} (h : isSpace c = false) (s : Bytes) :
    skipWhitespaces (c :: s) = c :: s := by
  simp [skipWhitespaces, h]

theorem afterItem_close {close : UInt8} (hs : isSpace close = false) (hc : close ≠ 44) (t : Bytes) :
    afterItem close (close :: t) = some (none, t) := by
  rw [afterItem, skipWhitespaces_of_not_space hs]
  simp [hc]

theorem afterItem_comma {close c : UInt8} (hs : isSpace c = false) (hc : c ≠ close) (t : Bytes) :
    afterItem close (44 :: c :: t) = some (some (c :: t), t) := by
  rw [afterItem, skipWhitespaces_of_not_space (by decide)]
  simp [skipWhitespaces_of_not_space hs, hc]

section
variable {C : Libc} {levels : ℕ}

/-- The text of items starts as the text of the first one does. -/
theorem serializeItems_head {v : JsonValue} {c : UInt8} {s : Bytes}
    (h : jsonSerializeToBufferR C v = c :: s) (items : List JsonValue) (t : Bytes) :
    ∃ r, serializeItems C (v :: items) ++ t = c :: r := by
  cases items with
  | nil => rw [serializeItems, h]; exact ⟨_, rfl⟩
  | cons w items => rw [serializeItems, h]; exact ⟨_, rfl⟩

/-- The text of members starts with a quote. -/
theorem serializeMembers_head (C : Libc) (m : Bytes × JsonValue) (members : JsonObject)
    (t : Bytes) : ∃ r, serializeMembers C (m :: members) ++ t = 34 :: r := by
  cases members with
  | nil => rw [serializeMembers]; exact ⟨_, rfl⟩
  | cons w members => rw [serializeMembers]; exact ⟨_, rfl⟩

/-- Reading a value of so many levels undoes writing it. -/
def ReadsBack (C : Libc) (levels : ℕ) : Prop :=
  ∀ {v : JsonValue} {t : Bytes}, v.Plain levels → Stops t →
    parseValue C levels (jsonSerializeToBufferR C v ++ t) = some (v, t)

theorem parseArrayLoop_serialize (ih : ReadsBack C levels) {v : JsonValue} {items : List JsonValue}
    (hp : ∀ w ∈ v :: items, w.Plain levels) {fuel : ℕ} {t : Bytes} (acc : List JsonValue)
    (hf : (serializeItems C (v :: items) ++ 93 :: t).length < fuel) :
    parseArrayLoop (parseValue C levels) fuel acc (serializeItems C (v :: items) ++ 93 :: t) =
      some (.array (acc ++ v :: items), t) := by
  obtain ⟨fuel, rfl⟩ : ∃ k, fuel = k + 1 := ⟨fuel - 1, by omega⟩
  have hv := hp v (by simp)
  rw [parseArrayLoop_eq_some]
  induction items generalizing v fuel acc with
  | nil =>
    rw [serializeItems]
    exact ⟨v, _, none, t, ih hv (Stops.cons (by decide) t),
      afterItem_close (by decide) (by decide) t, rfl⟩
  | cons w items ihi =>
    have hw := hp w (by simp)
    obtain ⟨c, s, hs, hsp, hc, -⟩ := serialize_head C hw
    obtain ⟨r, hr⟩ := serializeItems_head hs items (93 :: t)
    have htext : serializeItems C (v :: w :: items) ++ 93 :: t =
        jsonSerializeToBufferR C v ++ 44 :: c :: r := by
      rw [serializeItems, List.append_assoc, List.cons_append, hr]
    rw [htext] at hf ⊢
    refine ⟨v, _, some (c :: r), r, ih hv (Stops.cons (by decide) _),
      afterItem_comma hsp hc r, ?_⟩
    rw [List.length_append, List.length_cons] at hf
    obtain ⟨fuel, rfl⟩ : ∃ k, fuel = k + 1 := ⟨fuel - 1, by omega⟩
    have := ihi (fun u hu => hp u (List.mem_cons_of_mem v hu)) (acc ++ [v]) fuel
      (by rw [hr]; omega) hw
    rw [← parseArrayLoop_eq_some, hr] at this
    simpa using this

theorem parseObjectLoop_serialize (ih : ReadsBack C levels) {m : Bytes × JsonValue}
    {members acc : List (Bytes × JsonValue)}
    (hp : ∀ w ∈ m :: members, (0 : UInt8) ∉ w.1 ∧ w.2.Plain levels)
    (hn : ((acc ++ m :: members).map Prod.fst).Nodup) {fuel : ℕ} {t : Bytes}
    (hf : (serializeMembers C (m :: members) ++ 125 :: t).length < fuel) :
    parseObjectLoop (parseValue C levels) fuel acc (serializeMembers C (m :: members) ++ 125 :: t) =
      some (.object (acc ++ m :: members), t) := by
  obtain ⟨fuel, rfl⟩ : ∃ k, fuel = k + 1 := ⟨fuel - 1, by omega⟩
  rw [parseObjectLoop_eq_some]
  induction members generalizing m fuel acc with
  | nil =>
    obtain ⟨k, v⟩ := m
    obtain ⟨hk, hv⟩ := hp (k, v) (by simp)
    rw [serializeMembers, List.append_assoc, List.cons_append]
    exact ⟨k, _, _, v, _, acc ++ [(k, v)], none, t, getQuotedString_serialize k _, hk,
      skipWhitespaces_of_not_space (by decide) _, ih hv (Stops.cons (by decide) t),
      jsonObjectAdd_of_nodup hn, afterItem_close (by decide) (by decide) t, rfl⟩
  | cons w members ihm =>
    obtain ⟨k, v⟩ := m
    obtain ⟨hk, hv⟩ := hp (k, v) (by simp)
    obtain ⟨r, hr⟩ := serializeMembers_head C w members (125 :: t)
    have htext : serializeMembers C ((k, v) :: w :: members) ++ 125 :: t =
        jsonSerializeString k ++ 58 :: (jsonSerializeToBufferR C v ++ 44 :: 34 :: r) := by
      rw [serializeMembers, List.append_assoc, List.cons_append, List.append_assoc,
        List.cons_append, hr]
    rw [htext] at hf ⊢
    refine ⟨k, _, _, v, _, acc ++ [(k, v)], some (34 :: r), r, getQuotedString_serialize k _, hk,
      skipWhitespaces_of_not_space (by decide) _, ih hv (Stops.cons (by decide) _),
      jsonObjectAdd_of_nodup hn, afterItem_comma (by decide) (by decide) r, ?_⟩
    simp only [List.length_append, List.length_cons] at hf
    obtain ⟨fuel, rfl⟩ : ∃ k, fuel = k + 1 := ⟨fuel - 1, by omega⟩
    have hn' : ((acc ++ [(k, v)] ++ w :: members).map Prod.fst).Nodup := by simpa using hn
    have := ihm (fun u hu => hp u (List.mem_cons_of_mem _ hu)) hn' fuel
      (by rw [hr, List.length_cons]; omega)
    rw [← parseObjectLoop_eq_some, hr] at this
    simpa using this

theorem parseArrayValue_serialize (ih : ReadsBack C levels) {items : List JsonValue}
    (hp : ∀ w ∈ items, w.Plain levels) (t : Bytes) :
    parseArrayValue (parseValue C levels) (serializeItems C items ++ 93 :: t) =
      some (.array items, t) := by
  cases items with
  | nil => rw [serializeItems]; rfl
  | cons v items =>
    obtain ⟨c, s, hs, hsp, hc, -⟩ := serialize_head C (hp v (by simp))
    obtain ⟨r, hr⟩ := serializeItems_head hs items (93 :: t)
    rw [hr, parseArrayValue, skipWhitespaces_of_not_space hsp]
    dsimp only
    rw [if_neg hc, ← hr]
    exact parseArrayLoop_serialize ih hp [] (by rw [hr, List.length_cons]; omega)

theorem parseObjectValue_serialize (ih : ReadsBack C levels) {members : JsonObject}
    (hp : ∀ w ∈ members, (0 : UInt8) ∉ w.1 ∧ w.2.Plain levels)
    (hn : (members.map Prod.fst).Nodup) (t : Bytes) :
    parseObjectValue (parseValue C levels) (serializeMembers C members ++ 125 :: t) =
      some (.object members, t) := by
  cases members with
  | nil => rw [serializeMembers]; rfl
  | cons m members =>
    obtain ⟨r, hr⟩ := serializeMembers_head C m members (125 :: t)
    rw [hr, parseObjectValue, skipWhitespaces_of_not_space (by decide)]
    dsimp only
    rw [if_neg (by decide), ← hr]
    exact parseObjectLoop_serialize ih hp hn (by rw [hr, List.length_cons]; omega)

end

/-- **A written value is read back.** -/
theorem parseValue_serialize (C : Libc) (levels : ℕ) : ReadsBack C levels := by
  induction levels with
  | zero => intro v t h; exact h.elim
  | succ levels ih =>
    intro v t h ht
    rw [parseValue_eq_some]
    obtain ⟨c, s, hs, hsp, -⟩ := serialize_head C h
    refine ⟨c, s ++ t, by rw [hs]; exact skipWhitespaces_of_not_space hsp _, ?_⟩
    have hst : jsonSerializeToBufferR C v ++ t = c :: (s ++ t) := by rw [hs]; rfl
    match v, h with
    | .null, _ =>
      rw [jsonSerializeToBufferR] at hst
      obtain rfl : c = 110 := (List.cons.inj hst).1.symm
      refine Or.inr (Or.inr (Or.inr (Or.inr (Or.inr ⟨rfl, ?_⟩))))
      rw [← hst]; rfl
    | .boolean true, _ =>
      rw [jsonSerializeToBufferR] at hst
      obtain rfl : c = 116 := (List.cons.inj hst).1.symm
      refine Or.inr (Or.inr (Or.inr (Or.inl ⟨Or.inr rfl, ?_⟩)))
      rw [← hst]; rfl
    | .boolean false, _ =>
      rw [jsonSerializeToBufferR] at hst
      obtain rfl : c = 102 := (List.cons.inj hst).1.symm
      refine Or.inr (Or.inr (Or.inr (Or.inl ⟨Or.inl rfl, ?_⟩)))
      rw [← hst]; rfl
    | .string str, _ =>
      rw [jsonSerializeToBufferR] at hst
      obtain rfl : c = 34 := (List.cons.inj hst).1.symm
      refine Or.inr (Or.inr (Or.inl ⟨rfl, ?_⟩))
      rw [← hst]
      exact parseStringValue_eq_some.2 ⟨str, getQuotedString_serialize str t, rfl⟩
    | .number _, h =>
      obtain ⟨⟨d, u, hd, hdig⟩, -, hread⟩ := Double.Exact.numeral C h
      rw [jsonSerializeToBufferR] at hst
      obtain rfl : c = d := by
        rw [hd] at hst; exact (List.cons.inj hst).1.symm
      refine Or.inr (Or.inr (Or.inr (Or.inr (Or.inl ⟨hdig, ?_⟩))))
      rw [← hst]
      exact hread t ht
    | .array items, h =>
      rw [jsonSerializeToBufferR, List.append_assoc, List.cons_append, List.cons.injEq] at hst
      obtain ⟨rfl, hst⟩ := hst
      refine Or.inr (Or.inl ⟨rfl, ?_⟩)
      rw [← hst]
      exact parseArrayValue_serialize ih h t
    | .object members, h =>
      rw [jsonSerializeToBufferR, List.append_assoc, List.cons_append, List.cons.injEq] at hst
      obtain ⟨rfl, hst⟩ := hst
      refine Or.inl ⟨rfl, ?_⟩
      rw [← hst]
      exact parseObjectValue_serialize ih h.2 h.1 t

theorem serializeItems_not_nul {C : Libc} {items : List JsonValue}
    (h : ∀ v ∈ items, (0 : UInt8) ∉ jsonSerializeToBufferR C v) :
    (0 : UInt8) ∉ serializeItems C items := by
  induction items with
  | nil => simp [serializeItems]
  | cons v items ih =>
    have hv := h v (by simp)
    have := ih fun w hw => h w (List.mem_cons_of_mem v hw)
    cases items with
    | nil => rwa [serializeItems]
    | cons w items => simp [serializeItems, hv, this]

theorem serializeMembers_not_nul {C : Libc} {members : JsonObject}
    (h : ∀ m ∈ members, (0 : UInt8) ∉ jsonSerializeToBufferR C m.2) :
    (0 : UInt8) ∉ serializeMembers C members := by
  induction members with
  | nil => simp [serializeMembers]
  | cons m members ih =>
    have hm := h m (by simp)
    have := ih fun w hw => h w (List.mem_cons_of_mem m hw)
    cases members with
    | nil => simp [serializeMembers, jsonSerializeString_not_nul, hm]
    | cons w members => simp [serializeMembers, jsonSerializeString_not_nul, hm, this]

/-- The text of a value has no NUL. -/
theorem serialize_not_nul (C : Libc) {levels : ℕ} {v : JsonValue} (h : v.Plain levels) :
    (0 : UInt8) ∉ jsonSerializeToBufferR C v := by
  induction levels generalizing v with
  | zero => exact h.elim
  | succ levels ih =>
    match v, h with
    | .null, _ => rw [jsonSerializeToBufferR]; decide
    | .boolean true, _ => rw [jsonSerializeToBufferR]; decide
    | .boolean false, _ => rw [jsonSerializeToBufferR]; decide
    | .string str, _ => rw [jsonSerializeToBufferR]; exact jsonSerializeString_not_nul str
    | .number _, h =>
      rw [jsonSerializeToBufferR]
      exact (Double.Exact.numeral C h).2.1
    | .array items, h =>
      have := serializeItems_not_nul fun v hv => ih (h v hv)
      simp [jsonSerializeToBufferR, this]
    | .object members, h =>
      have := serializeMembers_not_nul fun m hm => ih (h.2 m hm).2
      simp [jsonSerializeToBufferR, this]

/-- **What `json_serialize_to_string` writes, `json_parse_string` reads back.** -/
theorem jsonParseString_serialize (C : Libc) {v : JsonValue} (h : v.Plain (maxNesting + 1)) :
    jsonParseString C (jsonSerializeToString C v) = some v := by
  have hbom : skipBom (jsonSerializeToBufferR C v) = jsonSerializeToBufferR C v := by
    obtain ⟨c, s, hs, -, -, -, hc⟩ := serialize_head C h
    rw [skipBom, if_neg]
    intro ht
    rw [hs] at ht
    exact hc (by simpa using congrArg List.head? ht)
  rw [jsonParseString_eq_some, jsonSerializeToString, cstr_eq_self (serialize_not_nul C h), hbom]
  exact ⟨[], by simpa using parseValue_serialize C _ h (t := []) (by simp [Stops])⟩

end Slirp4netns
