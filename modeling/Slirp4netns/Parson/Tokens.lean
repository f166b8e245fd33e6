/-
  slirp4netns formalization — the tokens of JSON: strings and numerals.

  `Chars` is what RFC 4627 says of the characters between the quotes of a string,
  and of what they stand for; the characters of an escape are given by their
  encoding in UTF-8.  `getQuotedString_iff`: `get_quoted_string` reads this and
  nothing else.

  `JsonNumeral` is a numeral taken apart.  `strtod` reads more of them than the RFC
  has, and `is_decimal` refuses some (`JsonNumeral.Accepted`).
-/
import Slirp4netns.Parson.Utf8
import Slirp4netns.Parson.Fuel
import Slirp4netns.Parson.Serialize

namespace Slirp4netns

/-! ## Strings -/

/-- Four hexadecimal digits and their value. -/
inductive Hex4 : Bytes → ℕ → Prop
  | mk {c₁ c₂ c₃ c₄ : UInt8} {x₁ x₂ x₃ x₄ : ℕ} (h₁ : hexCharToInt c₁ = some x₁)
      (h₂ : hexCharToInt c₂ = some x₂) (h₃ : hexCharToInt c₃ = some x₃)
      (h₄ : hexCharToInt c₄ = some x₄) :
      Hex4 [c₁, c₂, c₃, c₄] (x₁ * 4096 + x₂ * 256 + x₃ * 16 + x₄)

/-- The text between the quotes of a string, and the bytes of the string. -/
inductive Chars : Bytes → Bytes → Prop
  | nil : Chars [] []
  | unescaped {c : UInt8} {t str : Bytes} (hc : 0x20 ≤ c) (hq : c ≠ 34) (hb : c ≠ 92)
      (h : Chars t str) : Chars (c :: t) (c :: str)
  | escape {e b : UInt8} {t str : Bytes} (he : simpleEscape e = some b) (h : Chars t str) :
      Chars (92 :: e :: t) (b :: str)
  | unicode {c : Char} {hex t str : Bytes} (hc : Hex4 hex c.toNat) (h : Chars t str) :
      Chars (92 :: 117 :: (hex ++ t)) (String.utf8EncodeChar c ++ str)
  /-- a character beyond U+FFFF, as a pair of surrogates -/
  | pair {c : Char} {lead trail t str : Bytes} (hc : 0x10000 ≤ c.toNat)
      (hlead : Hex4 lead (0xD800 + (c.toNat - 0x10000) / 0x400))
      (htrail : Hex4 trail (0xDC00 + (c.toNat - 0x10000) % 0x400)) (h : Chars t str) :
      Chars (92 :: 117 :: (lead ++ 92 :: 117 :: (trail ++ t))) (String.utf8EncodeChar c ++ str)

/-- Four digits of four bits. -/
theorem shifted_or {x₁ x₂ x₃ x₄ : ℕ} (h₂ : x₂ < 16) (h₃ : x₃ < 16) (h₄ : x₄ < 16) :
    x₁ <<< 12 ||| x₂ <<< 8 ||| x₃ <<< 4 ||| x₄ = x₁ * 4096 + x₂ * 256 + x₃ * 16 + x₄ := by
  have e₁ : x₁ <<< 12 ||| x₂ <<< 8 = (x₁ * 16 + x₂) <<< 8 := by
    rw [← Nat.shiftLeft_add_eq_or_of_lt (i := 12) (by rw [Nat.shiftLeft_eq]; omega)]
    simp only [Nat.shiftLeft_eq]
    omega
  have e₂ : (x₁ * 16 + x₂) <<< 8 ||| x₃ <<< 4 = (x₁ * 256 + x₂ * 16 + x₃) <<< 4 := by
    rw [← Nat.shiftLeft_add_eq_or_of_lt (i := 8) (by rw [Nat.shiftLeft_eq]; omega)]
    simp only [Nat.shiftLeft_eq]
    omega
  rw [e₁, e₂, ← Nat.shiftLeft_add_eq_or_of_lt (i := 4) h₄, Nat.shiftLeft_eq]
  omega

theorem parseUtf16Hex_eq_some {c₁ c₂ c₃ c₄ : UInt8} {n : ℕ} :
    parseUtf16Hex c₁ c₂ c₃ c₄ = some n ↔ Hex4 [c₁, c₂, c₃, c₄] n := by
  simp only [parseUtf16Hex, bind, pure, Option.bind_eq_some_iff, Option.some.injEq]
  constructor
  · rintro ⟨x₁, h₁, x₂, h₂, x₃, h₃, x₄, h₄, rfl⟩
    rw [shifted_or (hexCharToInt_lt h₂).1 (hexCharToInt_lt h₃).1 (hexCharToInt_lt h₄).1]
    exact .mk h₁ h₂ h₃ h₄
  · rintro ⟨h₁, h₂, h₃, h₄⟩
    exact ⟨_, h₁, _, h₂, _, h₃, _, h₄,
      shifted_or (hexCharToInt_lt h₂).1 (hexCharToInt_lt h₃).1 (hexCharToInt_lt h₄).1⟩

theorem Hex4.exists_digits {h : Bytes} {n : ℕ} (hn : Hex4 h n) :
    ∃ c₁ c₂ c₃ c₄, h = [c₁, c₂, c₃, c₄] ∧ parseUtf16Hex c₁ c₂ c₃ c₄ = some n := by
  cases hn with
  | mk h₁ h₂ h₃ h₄ => exact ⟨_, _, _, _, rfl, parseUtf16Hex_eq_some.2 (.mk h₁ h₂ h₃ h₄)⟩

theorem Hex4.lt {h : Bytes} {n : ℕ} (hn : Hex4 h n) : n < 0x10000 := by
  obtain ⟨h₁, h₂, h₃, h₄⟩ := hn
  have := (hexCharToInt_lt h₁).1
  have := (hexCharToInt_lt h₂).1
  have := (hexCharToInt_lt h₃).1
  have := (hexCharToInt_lt h₄).1
  omega

theorem Hex4.quoted {h t : Bytes} {n : ℕ} (hn : Hex4 h n) : Quoted (h ++ t) ↔ Quoted t := by
  obtain ⟨h₁, h₂, h₃, h₄⟩ := hn
  have k₁ := hexCharToInt_lt h₁
  have k₂ := hexCharToInt_lt h₂
  have k₃ := hexCharToInt_lt h₃
  have k₄ := hexCharToInt_lt h₄
  simp only [List.cons_append, List.nil_append]
  rw [quoted_cons k₁.2.1 k₁.2.2, quoted_cons k₂.2.1 k₂.2.2, quoted_cons k₃.2.1 k₃.2.2,
    quoted_cons k₄.2.1 k₄.2.2]

/-- A code point outside of the surrogates that four digits give is a character. -/
theorem exists_char {n : ℕ} (hn : n.isValidChar) : ∃ c : Char, c.toNat = n :=
  ⟨Char.ofNatAux n hn, rfl⟩

theorem toNat_valid (c : Char) : c.toNat < 0xD800 ∨ 0xDFFF < c.toNat ∧ c.toNat < 0x110000 := c.valid

/-- The text of an escape outside of the surrogates. -/
theorem processString_unicode {c : Char} {hex : Bytes} (hc : Hex4 hex c.toNat) (s : Bytes) :
    processString (92 :: 117 :: (hex ++ s)) =
      (processString s).map (String.utf8EncodeChar c ++ ·) := by
  obtain ⟨c₁, c₂, c₃, c₄, rfl, hcp⟩ := hc.exists_digits
  have hvalid := toNat_valid c
  rw [← utf16Bytes_eq, processString.eq_def]
  simp only [List.cons_append, List.nil_append, if_true, hcp]
  exact if_pos (by omega)

theorem surrogatePair_eq {lead trail : ℕ} (h₁ : 0xD800 ≤ lead) (h₂ : lead ≤ 0xDBFF)
    (h₃ : 0xDC00 ≤ trail) (h₄ : trail ≤ 0xDFFF) :
    surrogatePair lead trail = 0x10000 + (lead - 0xD800) * 0x400 + (trail - 0xDC00) := by
  rw [surrogatePair, Nat.and_two_pow_sub_one_eq_mod _ 10, Nat.and_two_pow_sub_one_eq_mod _ 10,
    ← Nat.shiftLeft_add_eq_or_of_lt (i := 10) (Nat.mod_lt _ (by decide)), Nat.shiftLeft_eq]
  omega

/-- The text of an escape with two surrogates. -/
theorem processString_pair {c : Char} {lead trail : Bytes} (hc : 0x10000 ≤ c.toNat)
    (hlead : Hex4 lead (0xD800 + (c.toNat - 0x10000) / 0x400))
    (htrail : Hex4 trail (0xDC00 + (c.toNat - 0x10000) % 0x400)) (s : Bytes) :
    processString (92 :: 117 :: (lead ++ 92 :: 117 :: (trail ++ s))) =
      (processString s).map (String.utf8EncodeChar c ++ ·) := by
  obtain ⟨c₁, c₂, c₃, c₄, rfl, hcp⟩ := hlead.exists_digits
  obtain ⟨t₁, t₂, t₃, t₄, rfl, htp⟩ := htrail.exists_digits
  have hvalid := toNat_valid c
  have hpair : surrogatePair (0xD800 + (c.toNat - 0x10000) / 0x400)
      (0xDC00 + (c.toNat - 0x10000) % 0x400) = c.toNat := by
    rw [surrogatePair_eq] <;> omega
  rw [← utf16Bytes_eq, processString.eq_def]
  simp only [List.cons_append, List.nil_append, if_true, hcp, htp, true_and, hpair]
  rw [if_neg (by omega), if_pos (by omega), if_neg (by omega)]

/-- What `process_string` undoes. -/
theorem processString_chars {t str : Bytes} (h : processString t = some str) (ht : Quoted t) :
    Chars t str := by
  fun_induction processString t generalizing str with
  | case1 =>
    cases h
    exact .nil
  | case4 c₁ c₂ c₃ c₄ s cp hcp hrange ih =>
    obtain ⟨str, hs, rfl⟩ := Option.map_eq_some_iff.1 h
    have hex := parseUtf16Hex_eq_some.1 hcp
    obtain ⟨c, rfl⟩ := exists_char (n := cp) (by have := hex.lt; rw [Nat.isValidChar]; omega)
    rw [utf16Bytes_eq]
    exact .unicode hex (ih hs (hex.quoted.1 (quoted_escape.1 ht)))
  | case7 c₁ c₂ c₃ c₄ lead hlead hsurr hle b u t₁ t₂ t₃ t₄ s hbu trail htrail hrange ih =>
    obtain ⟨str, hs, rfl⟩ := Option.map_eq_some_iff.1 h
    obtain ⟨rfl, rfl⟩ := hbu
    have hex := parseUtf16Hex_eq_some.1 hlead
    have hex' := parseUtf16Hex_eq_some.1 htrail
    have hpair : surrogatePair lead trail =
        0x10000 + (lead - 0xD800) * 0x400 + (trail - 0xDC00) :=
      surrogatePair_eq (by omega) hle (by omega) (by omega)
    obtain ⟨c, hc⟩ := exists_char (n := surrogatePair lead trail)
      (by rw [Nat.isValidChar]; omega)
    rw [← hc, utf16Bytes_eq]
    change Chars (92 :: 117 :: ([c₁, c₂, c₃, c₄] ++ 92 :: 117 :: ([t₁, t₂, t₃, t₄] ++ s))) _
    refine .pair (by omega) ?_ ?_ (ih hs (hex'.quoted.1 (quoted_escape.1 (hex.quoted.1
      (quoted_escape.1 ht)))))
    · convert hex using 1
      omega
    · convert hex' using 1
      omega
  | case13 e s he b hb ih =>
    obtain ⟨str, hs, rfl⟩ := Option.map_eq_some_iff.1 h
    exact .escape hb (ih hs (quoted_escape.1 ht))
  | case15 c s hb hc ih =>
    obtain ⟨str, hs, rfl⟩ := Option.map_eq_some_iff.1 h
    have hq : c ≠ 34 := by
      rintro rfl
      exact not_quoted_quote ht
    exact .unescaped (UInt8.not_lt.1 hc) hq hb (ih hs ((quoted_cons hq hb).1 ht))
  | _ => cases h

theorem Chars.quoted {t str : Bytes} (h : Chars t str) : Quoted t := by
  induction h with
  | nil => exact .nil
  | unescaped hc hq hb _ ih => exact (quoted_cons hq hb).2 ih
  | escape he _ ih => exact quoted_escape.2 ih
  | unicode hc _ ih => exact quoted_escape.2 (hc.quoted.2 ih)
  | pair hc hlead htrail _ ih =>
    exact quoted_escape.2 (hlead.quoted.2 (quoted_escape.2 (htrail.quoted.2 ih)))

/-- The escapes in `t` are undone. -/
theorem Chars.processString {t str : Bytes} (h : Chars t str) : processString t = some str := by
  induction h with
  | nil => rfl
  | unescaped hc hq hb _ ih => rw [processString_cons hb (UInt8.not_lt.2 hc), ih]; rfl
  | escape he _ ih => rw [processString_escape he, ih]; rfl
  | unicode hc _ ih => rw [processString_unicode hc, ih]; rfl
  | pair hc hlead htrail _ ih => rw [processString_pair hc hlead htrail, ih]; rfl

/-- **A quoted string is read as RFC 4627 says**, and nothing else is. -/
theorem getQuotedString_iff {s str r : Bytes} : getQuotedString s = some (str, r) ↔
    ∃ t, Chars t str ∧ s = 34 :: (t ++ 34 :: r) := by
  rw [getQuotedString_eq_some]
  constructor
  · rintro ⟨s', t, rfl, hq, hp⟩
    obtain ⟨rfl, ht⟩ := skipQuotes_eq_some.1 hq
    exact ⟨t, processString_chars hp ht, rfl⟩
  · rintro ⟨t, h, rfl⟩
    exact ⟨_, t, rfl, skipQuotes_eq_some.2 ⟨rfl, h.quoted⟩, h.processString⟩

/-! ## Numerals -/

/-- The exponent of a numeral. -/
structure Exponent where
  /-- `E`, not `e` -/
  upper : Bool
  /-- whether the sign is a minus, if there is a sign -/
  sign : Option Bool
  digits : Bytes
  digits_ne : digits ≠ []
  isDigit : ∀ c ∈ digits, isDigit c = true

/-- A decimal numeral, in its parts. -/
structure JsonNumeral where
  negative : Bool
  int : Bytes
  /-- the digits after the point, if there is a point -/
  frac : Option Bytes
  exp : Option Exponent
  int_isDigit : ∀ c ∈ int, isDigit c = true
  frac_isDigit : ∀ ds ∈ frac, ∀ c ∈ ds, isDigit c = true
  some_digit : int ++ frac.getD [] ≠ []

/-- The sign of an exponent, if it has one. -/
def signText : Option Bool → Bytes
  | none => []
  | some false => [43]
  | some true => [45]

/-- The text of an exponent. -/
def exponentText : Option Exponent → Bytes
  | none => []
  | some e => (if e.upper then 69 else 101) :: (signText e.sign ++ e.digits)

/-- The value of an exponent. -/
def exponentValue : Option Exponent → ℤ
  | none => 0
  | some e => if e.sign = some true then -(readDecimal e.digits : ℤ) else readDecimal e.digits

/-- The text of a fraction. -/
def fractionText : Option Bytes → Bytes
  | none => []
  | some ds => 46 :: ds

namespace JsonNumeral

/-- The text without the sign. -/
def unsignedText (n : JsonNumeral) : Bytes :=
  n.int ++ (fractionText n.frac ++ exponentText n.exp)

/-- The text of a numeral. -/
def text (n : JsonNumeral) : Bytes := (if n.negative then [45] else []) ++ n.unsignedText

/-- The number that is written. -/
def value (n : JsonNumeral) : ℚ :=
  (if n.negative then -1 else 1) * (readDecimal (n.int ++ n.frac.getD []) : ℚ) *
    10 ^ (exponentValue n.exp - (n.frac.getD []).length)

/-- The numerals of RFC 4627. -/
structure Rfc4627 (n : JsonNumeral) : Prop where
  int_ne : n.int ≠ []
  leading_zero : n.int.head? = some 48 → n.int = [48]
  frac_ne : n.frac ≠ some []

/-- A zero directly before an exponent. -/
def ZeroExponent (n : JsonNumeral) : Prop := n.int = [48] ∧ n.frac = none ∧ n.exp.isSome

/-- The numerals that `strtod` and `is_decimal` let pass. -/
structure Accepted (n : JsonNumeral) : Prop where
  first : n.negative = true ∨ n.int ≠ []
  leading_zero : n.int.head? = some 48 → n.int = [48]
  exponent : ¬ n.ZeroExponent

end JsonNumeral

/-! ### What `strtod` converts -/

theorem exponentSign_eq (s : Bytes) : ∃ sign, s = signText sign ++ (exponentSign s).2 ∧
    (exponentSign s).1 = decide (sign = some true) := by
  cases s with
  | nil => exact ⟨none, rfl, rfl⟩
  | cons d t =>
    rw [exponentSign]
    split
    · next hd => exact ⟨some true, by rw [hd]; rfl, rfl⟩
    · split
      · next hd => exact ⟨some false, by rw [hd]; rfl, rfl⟩
      · exact ⟨none, rfl, rfl⟩

theorem strtodExponent_eq (s : Bytes) : ∃ exp, s = exponentText exp ++ (strtodExponent s).2 ∧
    (strtodExponent s).1 = exponentValue exp := by
  cases s with
  | nil => exact ⟨none, rfl, rfl⟩
  | cons c s =>
    rw [strtodExponent_cons]
    split
    · next hc =>
      split
      · exact ⟨none, rfl, rfl⟩
      · next hne =>
        obtain ⟨sign, hs, hsign⟩ := exponentSign_eq s
        refine ⟨some ⟨c == 69, sign, _, hne, fun c hc => List.mem_takeWhile_imp hc⟩, ?_, ?_⟩
        · have hletter : c = if c == 69 then 69 else 101 := by
            rcases hc with rfl | rfl <;> rfl
          rw [exponentText, ← hletter, List.cons_append, List.append_assoc,
            List.takeWhile_append_dropWhile, ← hs]
        · simp only [exponentValue, hsign, decide_eq_true_eq]
    · exact ⟨none, rfl, rfl⟩

theorem strtodFraction_eq (s : Bytes) : ∃ frac, s = fractionText frac ++ (strtodFraction s).2 ∧
    (strtodFraction s).1 = frac.getD [] ∧ ∀ ds ∈ frac, ∀ c ∈ ds, isDigit c = true := by
  cases s with
  | nil => exact ⟨none, rfl, rfl, fun ds h => by cases h⟩
  | cons c s =>
    rw [strtodFraction]
    split
    · next hc =>
      refine ⟨some (s.takeWhile isDigit), ?_, rfl, fun ds h => ?_⟩
      · rw [fractionText, List.cons_append, List.takeWhile_append_dropWhile, hc]
      · cases h
        exact fun c hc => List.mem_takeWhile_imp hc
    · exact ⟨none, rfl, rfl, fun ds h => by cases h⟩

/-- A power of ten with its exponent in an integer. -/
theorem decimalValue_eq (negative : Bool) (mantissa : ℕ) (scale : ℤ) :
    decimalValue negative mantissa scale =
      (if negative then -1 else 1) * (mantissa : ℚ) * 10 ^ scale := by
  cases scale with
  | ofNat k => cases negative <;> simp [decimalValue]
  | negSucc k => cases negative <;> simp [decimalValue, zpow_negSucc, div_eq_mul_inv]

theorem strtodUnsigned_numeral {neg b : Bool} {s : Bytes} {m : ℕ} {e : ℤ} {r : Bytes}
    (h : strtodUnsigned neg s = .decimal b m e r) :
    ∃ n : JsonNumeral, n.negative = neg ∧ b = neg ∧ s = n.unsignedText ++ r ∧
      decimalValue b m e = n.value := by
  obtain ⟨-, rfl, hne, rfl, rfl, rfl⟩ := strtodUnsigned_decimal h
  obtain ⟨frac, hfrac, hdigits, hds⟩ := strtodFraction_eq (s.dropWhile isDigit)
  obtain ⟨exp, hexp, hvalue⟩ := strtodExponent_eq (strtodFraction (s.dropWhile isDigit)).2
  have hsome : s.takeWhile isDigit ++ frac.getD [] ≠ [] := by
    rw [← hdigits]
    simpa using hne
  refine ⟨⟨b, s.takeWhile isDigit, frac, exp, fun c hc => List.mem_takeWhile_imp hc, hds, hsome⟩,
    rfl, rfl, ?_, ?_⟩
  · rw [JsonNumeral.unsignedText, List.append_assoc, List.append_assoc, ← hexp, ← hfrac,
      List.takeWhile_append_dropWhile]
  · rw [decimalValue_eq, hdigits, hvalue]
    rfl

theorem strtod_numeral {b : Bool} {s : Bytes} {m : ℕ} {e : ℤ} {r : Bytes}
    (h : strtod s = .decimal b m e r) :
    ∃ n : JsonNumeral, s = n.text ++ r ∧ b = n.negative ∧ decimalValue b m e = n.value := by
  cases s with
  | nil => cases h
  | cons c s =>
    rw [strtod] at h
    split at h
    · next hc =>
      obtain ⟨n, hneg, hb, rfl, hvalue⟩ := strtodUnsigned_numeral h
      exact ⟨n, by rw [JsonNumeral.text, hneg, hc]; rfl, hb.trans hneg.symm, hvalue⟩
    · obtain ⟨n, hneg, hb, hs, hvalue⟩ := strtodUnsigned_numeral h
      exact ⟨n, by rw [JsonNumeral.text, hneg, hs]; rfl, hb.trans hneg.symm, hvalue⟩

/-! ### Numerals are converted -/

/-- A byte of a numeral is ASCII, and not the `x` of a hexadecimal one. -/
theorem numeral_byte : ∀ c : UInt8, isDigit c = true ∨ c = 46 ∨ c = 69 ∨ c = 101 ∨ c = 43 ∨ c = 45 →
    c.toNat < 0x80 ∧ (c == 120 || c == 88) = false := forall_byte (by decide +kernel)

/-- What may follow a numeral does not continue it. -/
theorem delim_byte : ∀ c : UInt8, isDelim c = true →
    (isDigit c = false ∧ c ≠ 46) ∧ (c == 120 || c == 88) = false := forall_byte (by decide +kernel)

theorem exponentSign_text {sign : Option Bool} {ds r : Bytes} (hne : ds ≠ [])
    (hd : ∀ c ∈ ds, isDigit c = true) :
    exponentSign (signText sign ++ ds ++ r) = (decide (sign = some true), ds ++ r) := by
  rcases sign with _ | _ | _
  · obtain ⟨d, ds, rfl⟩ := List.exists_cons_of_ne_nil hne
    have hdig := hd d (List.mem_cons_self ..)
    have hminus : d ≠ 45 := by rintro rfl; exact absurd hdig (by decide)
    have hplus : d ≠ 43 := by rintro rfl; exact absurd hdig (by decide)
    simp [signText, exponentSign, hminus, hplus]
  · rfl
  · rfl

theorem strtodExponent_text (exp : Option Exponent) {r : Bytes} (hr : Stops r) :
    strtodExponent (exponentText exp ++ r) = (exponentValue exp, r) := by
  cases exp with
  | none => exact strtodExponent_stops hr
  | some e =>
    obtain ⟨htake, hdrop⟩ := takeDigits e.isDigit (isDigit_of_stops hr)
    rw [exponentText, List.cons_append, strtodExponent_cons, exponentSign_text e.digits_ne e.isDigit,
      if_pos (by cases e.upper <;> simp)]
    simp only [htake, hdrop, if_neg e.digits_ne, exponentValue, decide_eq_true_eq]

/-- An exponent, or what follows a numeral, continues no digits and has no point. -/
theorem exponentText_head (exp : Option Exponent) {r : Bytes} (hr : Stops r) :
    ∀ c ∈ (exponentText exp ++ r).head?, isDigit c = false ∧ c ≠ 46 := by
  intro c hc
  cases exp with
  | none =>
    exact (delim_byte c (hr c hc)).1
  | some e =>
    cases hc
    cases e.upper <;> decide

theorem strtodFraction_text {frac : Option Bytes} (hd : ∀ ds ∈ frac, ∀ c ∈ ds, isDigit c = true)
    {t : Bytes} (ht : ∀ c ∈ t.head?, isDigit c = false ∧ c ≠ 46) :
    strtodFraction (fractionText frac ++ t) = (frac.getD [], t) := by
  cases frac with
  | none =>
    cases t with
    | nil => rfl
    | cons c t => exact if_neg (ht c rfl).2
  | some ds =>
    obtain ⟨htake, hdrop⟩ := takeDigits (hd ds rfl) fun c hc => (ht c hc).1
    rw [fractionText, List.cons_append, strtodFraction, if_pos rfl, htake, hdrop]
    rfl

namespace JsonNumeral
variable (n : JsonNumeral)

theorem fraction_head {t : Bytes} (ht : ∀ c ∈ t.head?, isDigit c = false ∧ c ≠ 46) :
    ∀ c ∈ (fractionText n.frac ++ t).head?, isDigit c = false := by
  intro c hc
  cases hf : n.frac with
  | none =>
    rw [hf] at hc
    exact (ht c hc).1
  | some ds =>
    rw [hf] at hc
    cases hc
    rfl

/-- The bytes of a numeral. -/
theorem unsignedText_mem {c : UInt8} (hc : c ∈ n.unsignedText) :
    isDigit c = true ∨ c = 46 ∨ c = 69 ∨ c = 101 ∨ c = 43 ∨ c = 45 := by
  rw [unsignedText, List.mem_append, List.mem_append] at hc
  rcases hc with hc | hc | hc
  · exact .inl (n.int_isDigit c hc)
  · cases hf : n.frac with
    | none => rw [hf] at hc; cases hc
    | some ds =>
      rw [hf, fractionText, List.mem_cons] at hc
      rcases hc with rfl | hc
      · simp
      · exact .inl (n.frac_isDigit ds hf c hc)
  · cases he : n.exp with
    | none => rw [he] at hc; cases hc
    | some e =>
      rw [he, exponentText, List.mem_cons, List.mem_append] at hc
      rcases hc with rfl | hc | hc
      · cases e.upper <;> simp
      · rcases hs : e.sign with _ | _ | _ <;> rw [hs] at hc <;> simp_all [signText]
      · exact .inl (e.isDigit c hc)

theorem unsignedText_ne : n.unsignedText ≠ [] := by
  intro h
  have := n.some_digit
  cases hf : n.frac with
  | none => simp_all [unsignedText, fractionText]
  | some ds => simp_all [unsignedText, fractionText]

theorem startsHexadecimal_text {r : Bytes} (hr : Stops r) :
    startsHexadecimal (n.unsignedText ++ r) = false := by
  have hmem := fun c => n.unsignedText_mem (c := c)
  rcases ht : n.unsignedText with _ | ⟨z, _ | ⟨x, t⟩⟩
  · exact absurd ht n.unsignedText_ne
  · rcases r with _ | ⟨x, _ | ⟨y, r⟩⟩
    · rfl
    · rfl
    · have := (delim_byte x (hr x rfl)).2
      simp only [List.cons_append, List.nil_append, startsHexadecimal, this, Bool.and_false,
        Bool.false_and]
  · have := (numeral_byte x (hmem x (by rw [ht]; simp))).2
    cases hu : t ++ r with
    | nil => simp [hu, startsHexadecimal]
    | cons y u =>
      simp only [List.cons_append, hu, startsHexadecimal, this, Bool.and_false, Bool.false_and]

theorem strtodUnsigned_text (neg : Bool) {r : Bytes} (hr : Stops r) :
    strtodUnsigned neg (n.unsignedText ++ r) = .decimal neg (readDecimal (n.int ++ n.frac.getD []))
      (exponentValue n.exp - (n.frac.getD []).length) r := by
  have hexp := exponentText_head n.exp hr
  obtain ⟨htake, hdrop⟩ := takeDigits n.int_isDigit (n.fraction_head hexp)
  have hs : n.unsignedText ++ r =
      n.int ++ (fractionText n.frac ++ (exponentText n.exp ++ r)) := by
    simp only [unsignedText, List.append_assoc]
  have hfrac := strtodFraction_text n.frac_isDigit hexp
  have hsome := n.some_digit
  have hx := n.startsHexadecimal_text hr
  rw [hs] at hx ⊢
  rw [strtodUnsigned_eq_decimal hx, htake, hdrop, hfrac, strtodExponent_text n.exp hr]
  rw [htake, hdrop, hfrac]
  simpa using hsome

theorem unsignedText_head : ∃ c t, n.unsignedText = c :: t ∧ (isDigit c = true ∨ c = 46) := by
  rcases hi : n.int with _ | ⟨c, int⟩
  · have hsome := n.some_digit
    cases hf : n.frac with
    | none => simp [hi, hf] at hsome
    | some ds => exact ⟨46, _, by rw [unsignedText, hi, hf]; rfl, .inr rfl⟩
  · exact ⟨c, _, by rw [unsignedText, hi]; rfl, .inl (n.int_isDigit c (by simp [hi]))⟩

/-- A numeral that starts with a sign or a digit, not with a point. -/
theorem text_head : ∃ c t, n.text = c :: t ∧
    ((n.negative = true ∨ n.int ≠ []) ↔ (c = 45 ∨ isDigit c = true)) := by
  rw [text]
  cases hneg : n.negative with
  | true => exact ⟨45, _, rfl, by simp⟩
  | false =>
    rcases hi : n.int with _ | ⟨c, int⟩
    · cases hf : n.frac with
      | none => exact absurd n.some_digit (by simp [hi, hf])
      | some ds => exact ⟨46, _, by rw [unsignedText, hi, hf]; rfl, by decide⟩
    · exact ⟨c, _, by rw [unsignedText, hi]; rfl, by simp [n.int_isDigit c (by simp [hi])]⟩

theorem strtod_text {r : Bytes} (hr : Stops r) :
    strtod (n.text ++ r) = .decimal n.negative (readDecimal (n.int ++ n.frac.getD []))
      (exponentValue n.exp - (n.frac.getD []).length) r := by
  rw [text]
  cases n.negative with
  | true => exact n.strtodUnsigned_text true hr
  | false =>
    have htext := n.strtodUnsigned_text false hr
    obtain ⟨c, t, ht, hc⟩ := n.unsignedText_head
    have hne : c ≠ 45 := by
      rintro rfl
      exact absurd hc (by decide)
    rw [ht] at htext ⊢
    exact (if_neg hne).trans htext

/-- A zero that no point follows. -/
def SuperfluousZero (t : Bytes) : Prop := t.length > 1 ∧ t.head? = some 48 ∧ t[1]? ≠ some 46

theorem superfluousZero_iff : SuperfluousZero n.unsignedText ↔
    ¬ ((n.int.head? = some 48 → n.int = [48]) ∧ ¬ n.ZeroExponent) := by
  rw [SuperfluousZero, ZeroExponent, unsignedText]
  rcases hi : n.int with _ | ⟨c, _ | ⟨d, ds⟩⟩
  · -- then the numeral starts with its point
    cases hf : n.frac with
    | none => exact absurd n.some_digit (by simp [hi, hf])
    | some ds => simp [fractionText]
  · cases hf : n.frac with
    | none =>
      cases n.exp with
      | none => simp [fractionText, exponentText]
      | some e =>
        have hletter : (if e.upper then 69 else 101 : UInt8) ≠ 46 := by cases e.upper <;> decide
        simp [fractionText, exponentText, hletter]
    | some ds => simp [fractionText]
  · have hd : d ≠ 46 := by
      rintro rfl
      exact absurd (n.int_isDigit 46 (by simp [hi])) (by decide)
    simp [hd]

theorem isDecimal_unsigned {c : UInt8} {t : Bytes} (hc : c ≠ 45)
    (hx : ((c :: t).any fun c => c == 120 || c == 88) = false) :
    isDecimal (c :: t) = true ↔ ¬ SuperfluousZero (c :: t) := by
  have hminus : ¬ ((c :: t).length > 2 ∧ (c :: t).take 2 = [45, 48] ∧ (c :: t)[2]? ≠ some 46) := by
    simp [hc]
  rw [isDecimal, if_neg hminus, hx]
  split
  · next h => exact iff_of_false Bool.false_ne_true (not_not_intro h)
  · next h => exact iff_of_true rfl h

theorem isDecimal_negative {t : Bytes} (hx : (t.any fun c => c == 120 || c == 88) = false) :
    isDecimal (45 :: t) = true ↔ ¬ SuperfluousZero t := by
  have hsame : ((45 :: t).length > 2 ∧ (45 :: t).take 2 = [45, 48] ∧ (45 :: t)[2]? ≠ some 46) ↔
      SuperfluousZero t := by
    cases t <;> simp [SuperfluousZero]
  rw [isDecimal, if_neg (by simp), List.any_cons, hx]
  by_cases h : SuperfluousZero t
  · rw [if_pos (hsame.2 h)]
    exact iff_of_false Bool.false_ne_true (not_not_intro h)
  · rw [if_neg (mt hsame.1 h)]
    exact iff_of_true rfl h

theorem isDecimal_text : isDecimal n.text = true ↔
    (n.int.head? = some 48 → n.int = [48]) ∧ ¬ n.ZeroExponent := by
  have hx : (n.unsignedText.any fun c => c == 120 || c == 88) = false :=
    List.any_eq_false.2 fun c hc => by simp [(numeral_byte c (n.unsignedText_mem hc)).2]
  rw [iff_not_comm.1 n.superfluousZero_iff, text]
  cases n.negative with
  | true => exact isDecimal_negative hx
  | false =>
    obtain ⟨c, t, ht, hc⟩ := n.unsignedText_head
    have hne : c ≠ 45 := by
      rintro rfl
      exact absurd hc (by decide)
    rw [ht] at hx ⊢
    exact isDecimal_unsigned hne hx

/-- How `parse_number_value` reads a numeral. -/
theorem parseNumberValue_text (C : Libc) {r : Bytes} (hr : Stops r) :
    parseNumberValue C (n.text ++ r) =
      if isDecimal n.text then (C.strtodRound n.negative n.value).map fun d => (.number d, r)
      else none := by
  have htake : (n.text ++ r).take ((n.text ++ r).length - r.length) = n.text := by simp
  have hvalue := decimalValue_eq n.negative (readDecimal (n.int ++ n.frac.getD []))
    (exponentValue n.exp - (n.frac.getD []).length)
  rw [parseNumberValue, n.strtod_text hr]
  simp only [htake]
  rw [hvalue.trans (show _ = n.value from rfl)]
  cases C.strtodRound n.negative n.value with
  | none => exact (ite_self _).symm
  | some q => rfl

end JsonNumeral

/-- A digit is converted, or starts something that is refused. -/
theorem strtod_digit {s : Bytes} {c : UInt8} (hc : c ∈ s.head?) (hd : isDigit c = true) :
    strtod s ≠ .noConversion := by
  obtain ⟨t, rfl⟩ := List.head?_eq_some_iff.1 hc
  have hne : c ≠ 45 := by
    rintro rfl
    exact absurd hd (by decide)
  have htake : ¬ ((c :: t).takeWhile isDigit = [] ∧
      (strtodFraction ((c :: t).dropWhile isDigit)).1 = []) := by
    simp [hd]
  rw [strtod, if_neg hne, strtodUnsigned]
  intro h
  simp only [if_neg htake] at h
  split at h
  · cases h
  · split at h
    · cases h
    · split at h <;> cases h

/-- What `parse_number_value` reads is a numeral, or a `-` that starts none. -/
theorem parseNumberValue_eq_some {C : Libc} {s r : Bytes} {v : JsonValue}
    (h : parseNumberValue C s = some (v, r)) :
    (∃ (n : JsonNumeral) (d : Double), s = n.text ++ r ∧ isDecimal n.text = true ∧
      C.strtodRound n.negative n.value = some d ∧ v = .number d) ∨
    (v = .number 0 ∧ r = s ∧ ∀ c ∈ s.head?, isDigit c = false) := by
  rw [parseNumberValue] at h
  split at h
  · next neg m e rest hn =>
    obtain ⟨n, rfl, rfl, hvalue⟩ := strtod_numeral hn
    rw [hvalue] at h
    split at h
    · cases h
    · next q hq =>
      rw [List.length_append, Nat.add_sub_cancel, List.take_left] at h
      split at h
      · next hd =>
        cases h
        exact .inl ⟨n, q, rfl, hd, hq, rfl⟩
      · cases h
  · next hn =>
    cases h
    refine .inr ⟨rfl, rfl, fun c hc => ?_⟩
    by_contra hd
    exact strtod_digit hc (by simpa using hd) hn
  all_goals cases h

end Slirp4netns
