/-
  slirp4netns formalization — the C library functions that the API uses.

  * `InAddr` is `struct in_addr`, four bytes in network order, with
    `inet_ntop(AF_INET, ..)` and `inet_pton(AF_INET, ..)`; the second undoes
    the first (`inetPton_text`), and a buffer of `INET_ADDRSTRLEN` bytes is
    always large enough (`inetNtop_addrstrlen`).
  * `Libc` collects what depends on the floating-point unit.  A finite `Double`
    is the rational number it denotes, or the zero with a minus sign.  Reading a
    numeral rounds it to a double or overflows, printing uses `%1.17g`, and the
    conversion to `int` truncates toward zero, with an unspecified `int` as its
    result when the truncated value does not fit.  Of the first two, only what the
    code relies on is known: integers up to `2 ^ 53` and `-0` are read and printed
    exactly.
-/
import Slirp4netns.Lib.Bytes
import Mathlib.Data.Rat.Defs
import Mathlib.Tactic.Linarith

namespace Slirp4netns

/-- `INT_MAX` -/
def intMax : ℤ := 2147483647
/-- `INT_MIN` -/
def intMin : ℤ := -2147483648

/-- The values of type `int`. -/
def IsInt (n : ℤ) : Prop := intMin ≤ n ∧ n ≤ intMax

/-- The integers of type `int64_t`. -/
def IsInt64 (n : ℤ) : Prop := -2 ^ 63 ≤ n ∧ n < 2 ^ 63

instance (n : ℤ) : Decidable (IsInt64 n) := inferInstanceAs (Decidable (_ ∧ _))

/-- `strcmp`; only the sign of the result is specified. -/
def strcmp (s t : Bytes) : ℤ := if s = t then 0 else if s < t then -1 else 1

theorem strcmp_eq_zero {s t : Bytes} : strcmp s t = 0 ↔ s = t := by
  unfold strcmp
  split
  · simp [*]
  · split <;> simp [*]

/-- A double holds every `int`. -/
theorem IsInt.natAbs_le {n : ℤ} (h : IsInt n) : n.natAbs ≤ 2 ^ 53 := by
  obtain ⟨h₁, h₂⟩ := h
  unfold intMin at h₁
  unfold intMax at h₂
  omega

/-- `%d` prints at most eleven characters. -/
theorem intText_length_le {n : ℤ} (h : IsInt n) : (intText n).length ≤ 11 := by
  have hlt : n.natAbs < 10 ^ 10 := by
    obtain ⟨h₁, h₂⟩ := h
    unfold intMin at h₁
    unfold intMax at h₂
    omega
  exact intText_length (by decide) hlt

/-! ## Integers from text -/

/-- `isspace` in the C locale. -/
def isSpace (c : UInt8) : Bool := c == 32 || (9 ≤ c && c ≤ 13)

/-- What `strtol` and `strtoul` give: the value, the text from `endptr` on, and whether `errno` is
    set to `ERANGE`. -/
structure Strtol where
  value : ℤ
  rest : Bytes
  erange : Bool
  deriving DecidableEq

/-- An optional sign. -/
def readSign : Bytes → Bool × Bytes
  | [] => (false, [])
  | c :: s => if c = 45 then (true, s) else if c = 43 then (false, s) else (false, c :: s)

/-- The numeral at the start of a text, after white space and a sign. -/
def readNumeral (s : Bytes) : Option (Bool × ℕ × Bytes) :=
  let signed := readSign (s.dropWhile isSpace)
  let digits := signed.2.takeWhile isDigit
  if digits = [] then none
  else some (signed.1, readDecimal digits, signed.2.dropWhile isDigit)

/-- `LONG_MAX` -/
def longMax : ℤ := 2 ^ 63 - 1
/-- `LONG_MIN` -/
def longMin : ℤ := -2 ^ 63
/-- `ULONG_MAX` -/
def ulongMax : ℤ := 2 ^ 64 - 1

/-- `strtol(s, &endptr, 10)`; without a numeral `endptr` is `s`. -/
def strtol (s : Bytes) : Strtol :=
  match readNumeral s with
  | none => ⟨0, s, false⟩
  | some (neg, n, rest) =>
    let v : ℤ := if neg then -n else n
    if v < longMin then ⟨longMin, rest, true⟩
    else if longMax < v then ⟨longMax, rest, true⟩
    else ⟨v, rest, false⟩

/-- `strtoul(s, &endptr, 10)`; a minus sign negates the value as an `unsigned long`. -/
def strtoul (s : Bytes) : Strtol :=
  match readNumeral s with
  | none => ⟨0, s, false⟩
  | some (neg, n, rest) =>
    if ulongMax < n then ⟨ulongMax, rest, true⟩
    else ⟨if neg then -(n : ℤ) % 2 ^ 64 else n, rest, false⟩

/-- The conversion of an integer to `int`. -/
def wrapInt (n : ℤ) : ℤ := n.bmod (2 ^ 32)

theorem wrapInt_isInt (n : ℤ) : IsInt (wrapInt n) := by
  have h₁ := Int.le_bmod (x := n) (m := 2 ^ 32) (by decide)
  have h₂ := Int.bmod_lt (x := n) (m := 2 ^ 32) (by decide)
  unfold IsInt wrapInt intMin intMax
  omega

theorem wrapInt_of_isInt {n : ℤ} (h : IsInt n) : wrapInt n = n := by
  obtain ⟨h₁, h₂⟩ := h
  unfold intMin at h₁
  unfold intMax at h₂
  exact Int.bmod_eq_of_le (by omega) (by omega)

/-- Digits alone are a numeral. -/
theorem readNumeral_digits {ds : Bytes} (hne : ds ≠ []) (hds : ∀ c ∈ ds, isDigit c = true) :
    readNumeral ds = some (false, readDecimal ds, []) := by
  have hplain : ∀ c, isDigit c = true → isSpace c = false ∧ c ≠ 45 ∧ c ≠ 43 :=
    forall_byte (by decide +kernel)
  have htake : ds.takeWhile isDigit = ds := List.takeWhile_eq_self_iff.2 hds
  have hdrop : ds.dropWhile isDigit = [] := List.dropWhile_eq_nil_iff.2 hds
  obtain ⟨c, cs, rfl⟩ := List.exists_cons_of_ne_nil hne
  obtain ⟨hspace, hminus, hplus⟩ := hplain c (hds c (by simp))
  have hsign : readSign ((c :: cs).dropWhile isSpace) = (false, c :: cs) := by
    rw [List.dropWhile_cons_of_neg (by simp [hspace]), readSign, if_neg hminus, if_neg hplus]
  simp only [readNumeral, hsign, htake, hdrop, if_neg hne]

/-! ## Internet addresses -/

/-- `struct in_addr`, the four bytes in network order. -/
structure InAddr where
  a : UInt8
  b : UInt8
  c : UInt8
  d : UInt8
  deriving DecidableEq, Repr, Inhabited

/-- The dotted quad of an address. -/
def InAddr.text (x : InAddr) : Bytes :=
  List.intercalate [46]
    [decimal x.a.toNat, decimal x.b.toNat, decimal x.c.toNat, decimal x.d.toNat]

/-- `INET_ADDRSTRLEN` -/
def inetAddrstrlen : ℕ := 16

/-- `inet_ntop(AF_INET, x, dst, size)`: fails if the text and its terminator do
    not fit. -/
def inetNtop (x : InAddr) (size : ℕ) : Option Bytes :=
  if size < x.text.length + 1 then none else some x.text

/-- One number of a dotted quad: digits without a superfluous leading zero, of
    a value up to 255. -/
def octet (s : Bytes) : Option UInt8 :=
  if s ≠ [] ∧ s.all isDigit ∧ (s.head? = some 48 → s.length = 1) ∧ readDecimal s ≤ 255 then
    some (UInt8.ofNat (readDecimal s))
  else none

/-- `inet_pton(AF_INET, s, dst)`; `none` stands for a result other than 1. -/
def inetPton (s : Bytes) : Option InAddr :=
  match s.splitOn 46 with
  | [a, b, c, d] => do return ⟨← octet a, ← octet b, ← octet c, ← octet d⟩
  | _ => none

theorem octet_decimal (x : UInt8) : octet (decimal x.toNat) = some x := by
  have hlt : x.toNat < 256 := x.toNat_lt
  have hz : (decimal x.toNat).head? = some 48 → (decimal x.toNat).length = 1 := by
    intro h
    by_cases hx : x.toNat = 0
    · rw [hx, decimal_of_lt (by decide)]; rfl
    · exact absurd h (decimal_head_ne_zero hx)
  rw [octet, if_pos ⟨decimal_ne_nil _, List.all_eq_true.2 decimal_isDigit, hz, by
    rw [readDecimal_decimal]; omega⟩, readDecimal_decimal]
  simp

theorem dot_not_mem_decimal (n : ℕ) : (46 : UInt8) ∉ decimal n := by
  intro h
  have := decimal_isDigit _ h
  exact absurd this (by decide)

theorem InAddr.splitOn_text (x : InAddr) : x.text.splitOn 46 =
    [decimal x.a.toNat, decimal x.b.toNat, decimal x.c.toNat, decimal x.d.toNat] := by
  apply List.splitOn_intercalate
  · simp [dot_not_mem_decimal]
  · simp

theorem InAddr.text_eq (x : InAddr) : x.text =
    decimal x.a.toNat ++ 46 :: (decimal x.b.toNat ++ 46 :: (decimal x.c.toNat ++
      46 :: decimal x.d.toNat)) := by
  simp [InAddr.text, List.intercalate]

/-- **Reading the printed address gives the address back.** -/
theorem inetPton_text (x : InAddr) : inetPton x.text = some x := by
  simp [inetPton, x.splitOn_text, octet_decimal]

theorem octet_eq_some {s : Bytes} {x : UInt8} : octet s = some x ↔ s = decimal x.toNat := by
  constructor
  · intro h
    unfold octet at h
    split at h
    · next hs =>
      obtain ⟨hne, hds, hz, hle⟩ := hs
      obtain rfl := Option.some.inj h
      rw [UInt8.toNat_ofNat_of_lt' (by rw [UInt8.size]; omega),
        decimal_readDecimal hne (List.all_eq_true.1 hds) hz]
    · simp at h
  · rintro rfl
    exact octet_decimal x

/-- **`inet_pton` accepts exactly the printed addresses.** -/
theorem inetPton_eq_some {s : Bytes} {x : InAddr} : inetPton s = some x ↔ s = x.text := by
  constructor
  · intro h
    have hs : [46].intercalate (s.splitOn 46) = s := List.intercalate_splitOn 46
    unfold inetPton at h
    split at h
    · next a b c d hsplit =>
      simp only [Option.bind_eq_bind, Option.bind_eq_some_iff] at h
      obtain ⟨_, ha, _, hb, _, hc, _, hd, hx⟩ := h
      obtain rfl := Option.some.inj hx
      rw [octet_eq_some] at ha hb hc hd
      rw [← hs, hsplit, ha, hb, hc, hd]
      rfl
    · simp at h
  · rintro rfl
    exact inetPton_text x

theorem InAddr.length_text (x : InAddr) : x.text.length ≤ 15 := by
  have h : ∀ y : UInt8, (decimal y.toNat).length ≤ 3 := fun y =>
    decimal_length_le (by decide) (by have := y.toNat_lt; omega)
  have := h x.a; have := h x.b; have := h x.c; have := h x.d
  simp only [x.text_eq, List.length_append, List.length_cons]
  omega

/-- `INET_ADDRSTRLEN` bytes are enough for every address. -/
theorem inetNtop_addrstrlen (x : InAddr) : inetNtop x inetAddrstrlen = some x.text := by
  have := x.length_text
  rw [inetNtop, if_neg (by simp only [inetAddrstrlen]; omega)]

theorem InAddr.text_ne_nil (x : InAddr) : x.text ≠ [] := by
  intro h
  have := x.splitOn_text
  rw [h] at this
  simp at this

/-- The bytes of a printed address are digits and dots. -/
theorem InAddr.mem_text {x : InAddr} {c : UInt8} (h : c ∈ x.text) : isDigit c = true ∨ c = 46 := by
  simp only [x.text_eq, List.mem_append, List.mem_cons] at h
  rcases h with h | h | h | h | h | h | h
  all_goals first
    | exact Or.inr h
    | exact Or.inl (decimal_isDigit _ h)

/-! ## Doubles -/

/-- A finite double: the rational number it denotes, or the zero with a minus sign. -/
inductive Double where
  | ofRat (q : ℚ)
  | negZero
  deriving DecidableEq

namespace Double

/-- The number that a double denotes. -/
def value : Double → ℚ
  | ofRat q => q
  | negZero => 0

instance : IntCast Double := ⟨fun n => ofRat n⟩

instance (n : ℕ) : OfNat Double n := ⟨ofRat n⟩

@[simp] theorem value_intCast (n : ℤ) : (n : Double).value = n := rfl

theorem intCast_zero : ((0 : ℤ) : Double) = 0 := congrArg ofRat (by simp)

end Double

/-- Truncation toward zero. -/
def truncate (q : ℚ) : ℤ := q.num.tdiv q.den

@[simp] theorem truncate_intCast (n : ℤ) : truncate n = n := by simp [truncate]

/-- The floating-point part of the C library. -/
structure Libc where
  /-- `strtod` on a decimal numeral, with or without a minus sign, of this value: the
      double it gives, or `none` if it overflows (`ERANGE` with `±HUGE_VAL`) -/
  strtodRound : Bool → ℚ → Option Double
  /-- `sprintf` with `%1.17g` -/
  sprintfG17 : Double → Bytes
  /-- `(int)d` -/
  toInt : Double → ℤ
  strtodRound_int : ∀ n : ℤ, n.natAbs ≤ 2 ^ 53 →
    strtodRound (decide (n < 0)) n = some (n : Double)
  strtodRound_negZero : strtodRound true 0 = some .negZero
  sprintfG17_int : ∀ n : ℤ, n.natAbs ≤ 2 ^ 53 → sprintfG17 n = intText n
  sprintfG17_negZero : sprintfG17 .negZero = bytes "-0"
  toInt_truncate : ∀ d : Double, IsInt (truncate d.value) → toInt d = truncate d.value
  toInt_isInt : ∀ d, IsInt (toInt d)

instance (n : ℤ) : Decidable (IsInt n) := inferInstanceAs (Decidable (_ ∧ _))

/-- The size of `sun_path`. -/
def sunPathSize : ℕ := 108

/-- Numerals are read exactly, and a conversion out of range gives `INT_MIN`, as
    the x86-64 instruction does. -/
def Libc.exact : Libc where
  strtodRound negative q := some (if negative = true ∧ q = 0 then .negZero else .ofRat q)
  sprintfG17
    | .ofRat q => intText q.num
    | .negZero => bytes "-0"
  toInt d := if IsInt (truncate d.value) then truncate d.value else intMin
  strtodRound_int n _ := by
    have hsigned : ¬ (decide (n < 0) = true ∧ (n : ℚ) = 0) := by
      rintro ⟨hneg, hzero⟩
      rw [Int.cast_eq_zero.1 hzero] at hneg
      cases hneg
    rw [if_neg hsigned]
    rfl
  strtodRound_negZero := by simp
  sprintfG17_int n _ := congrArg intText (Rat.num_intCast n)
  sprintfG17_negZero := rfl
  toInt_truncate d h := if_pos h
  toInt_isInt d := by
    split
    · assumption
    · exact ⟨le_refl _, by decide⟩

theorem Libc.toInt_intCast (C : Libc) {n : ℤ} (h : IsInt n) : C.toInt n = n := by
  rw [C.toInt_truncate _ (by simpa using h), Double.value_intCast, truncate_intCast]

end Slirp4netns
