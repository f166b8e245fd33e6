/-
  Byte strings, C strings and decimal numerals.

  * `cstr`: the C string that starts a piece of memory, up to its first NUL;
  * `decimal n`: the digits that `%u` prints for `n`, and `readDecimal`, their
    value; `readDecimal_decimal` is the round trip, and `decimal_head_ne_zero`
    says that no superfluous zero is printed;
  * `intText`: the same with a sign, as `%d` prints it.
-/
import Mathlib.Algebra.Group.Nat.Defs
import Mathlib.Data.Int.Basic
import Mathlib.Data.List.TakeWhile
import Mathlib.Data.List.Induction

abbrev Bytes := List UInt8

/-- The bytes of a text. -/
def bytes (s : String) : Bytes := s.toByteArray.data.toList

theorem bytes_injective {s t : String} (h : bytes s = bytes t) : s = t :=
  String.toByteArray_inj.1 (ByteArray.ext (Array.toList_inj.1 h))

/-- A property of bytes can be checked on the numbers below 256. -/
theorem forall_byte {P : UInt8 → Prop} (h : ∀ n < 256, P (UInt8.ofNat n)) (c : UInt8) : P c := by
  have := h c.toNat c.toNat_lt
  rwa [UInt8.ofNat_toNat] at this

/-! ## C strings -/

/-- The C string at the start of `s`: the bytes before the first NUL. -/
def cstr (s : Bytes) : Bytes := s.takeWhile (· != 0)

theorem cstr_not_mem (s : Bytes) : (0 : UInt8) ∉ cstr s := by
  intro h
  have := List.mem_takeWhile_imp h
  simp at this

theorem cstr_eq_self {s : Bytes} (h : (0 : UInt8) ∉ s) : cstr s = s := by
  rw [cstr, List.takeWhile_eq_self_iff]
  intro c hc
  have : c ≠ 0 := fun e => h (e ▸ hc)
  simpa using this

@[simp] theorem cstr_cstr (s : Bytes) : cstr (cstr s) = cstr s := cstr_eq_self (cstr_not_mem s)

/-- What follows a terminator is not read. -/
theorem cstr_append_nul (s t : Bytes) : cstr (s ++ 0 :: t) = cstr s := by
  induction s with
  | nil => simp [cstr]
  | cons c s ih =>
    simp only [cstr, List.cons_append, List.takeWhile_cons] at ih ⊢
    rw [ih]

/-- Either the first part is cut by a NUL and the rest is not seen, or the C
    string goes on in the second part. -/
theorem cstr_append (s t : Bytes) :
    cstr (s ++ t) = cstr s ∨ (cstr s = s ∧ cstr (s ++ t) = s ++ cstr t) := by
  by_cases h : (0 : UInt8) ∈ s
  · obtain ⟨a, b, rfl⟩ := List.append_of_mem h
    left
    rw [List.append_assoc, List.cons_append, cstr_append_nul, cstr_append_nul]
  · right
    refine ⟨cstr_eq_self h, ?_⟩
    rw [cstr, List.takeWhile_append_of_pos]
    · rfl
    · intro c hc
      have : c ≠ 0 := fun e => h (e ▸ hc)
      simpa using this

/-! ## Decimal numerals -/

/-- `isdigit` in the C locale. -/
def isDigit (c : UInt8) : Bool := 48 ≤ c && c ≤ 57

/-- The digits that `%u` prints. -/
def decimal (n : ℕ) : Bytes := (Nat.toDigits 10 n).map Char.toUInt8

/-- The value of a sequence of digits. -/
def readDecimal (ds : Bytes) : ℕ := ds.foldl (fun n c => 10 * n + (c.toNat - 48)) 0

/-- The text that `%d` prints. -/
def intText (n : ℤ) : Bytes :=
  if n < 0 then 45 :: decimal n.natAbs else decimal n.natAbs

theorem isDigit_iff {c : UInt8} : isDigit c = true ↔ 48 ≤ c.toNat ∧ c.toNat ≤ 57 := by
  simp [isDigit, UInt8.le_iff_toNat_le]

theorem toUInt8_toNat {c : Char} (h : c.isDigit = true) : c.toUInt8.toNat = c.toNat := by
  simp only [Char.isDigit, Bool.and_eq_true, decide_eq_true_eq, ge_iff_le,
    UInt32.le_iff_toNat_le] at h
  have h' : c.toNat ≤ 57 := h.2
  show c.toNat % 256 = c.toNat
  omega

theorem isDigit_toUInt8 {c : Char} (h : c.isDigit = true) : isDigit c.toUInt8 = true := by
  rw [isDigit_iff, toUInt8_toNat h]
  simp only [Char.isDigit, Bool.and_eq_true, decide_eq_true_eq, ge_iff_le,
    UInt32.le_iff_toNat_le] at h
  exact h

theorem decimal_isDigit {n : ℕ} : ∀ c ∈ decimal n, isDigit c = true := by
  intro c hc
  obtain ⟨d, hd, rfl⟩ := List.mem_map.1 hc
  exact isDigit_toUInt8 (Nat.isDigit_of_mem_toDigits (by decide) (by decide) hd)

theorem decimal_ne_nil (n : ℕ) : decimal n ≠ [] := by
  simp [decimal, Nat.toDigits_ne_nil]

theorem decimal_length_le {n k : ℕ} (hk : 0 < k) (h : n < 10 ^ k) : (decimal n).length ≤ k := by
  rw [decimal, List.length_map]
  exact (Nat.length_toDigits_le_iff (by decide) hk).2 h

theorem intText_length {n : ℤ} {k : ℕ} (hk : 0 < k) (h : n.natAbs < 10 ^ k) :
    (intText n).length ≤ k + 1 := by
  have := decimal_length_le hk h
  rw [intText]
  split
  · rw [List.length_cons]; omega
  · omega

private theorem foldl_toUInt8 (ds : List Char) (h : ∀ c ∈ ds, c.isDigit = true) (n : ℕ) :
    (ds.map Char.toUInt8).foldl (fun n c => 10 * n + (c.toNat - 48)) n =
      Nat.ofDigitChars 10 ds n := by
  induction ds generalizing n with
  | nil => rfl
  | cons c ds ih =>
    rw [List.map_cons, List.foldl_cons, Nat.ofDigitChars_cons,
      toUInt8_toNat (h c (List.mem_cons_self ..)), ih fun d hd => h d (List.mem_cons_of_mem _ hd)]
    rfl

/-- **The value of the printed digits is the number printed.** -/
@[simp] theorem readDecimal_decimal (n : ℕ) : readDecimal (decimal n) = n := by
  rw [readDecimal, decimal, foldl_toUInt8 _ fun c hc =>
    Nat.isDigit_of_mem_toDigits (by decide) (by decide) hc]
  exact Nat.ofDigitChars_ten_toDigits

theorem decimal_of_lt {n : ℕ} (h : n < 10) : decimal n = [n.digitChar.toUInt8] := by
  rw [decimal, Nat.toDigits_of_lt_base h]; rfl

theorem decimal_of_le {n : ℕ} (h : 10 ≤ n) :
    decimal n = decimal (n / 10) ++ [(n % 10).digitChar.toUInt8] := by
  rw [decimal, Nat.toDigits_of_base_le (by decide) h, List.map_append]; rfl

/-- Only the numeral of zero starts with a zero. -/
theorem decimal_head_ne_zero {n : ℕ} (h : n ≠ 0) : (decimal n).head? ≠ some 48 := by
  induction n using Nat.strong_induction_on with
  | _ n ih =>
    by_cases hn : n < 10
    · have small : ∀ m < 10, m ≠ 0 → [m.digitChar.toUInt8].head? ≠ some 48 := by decide
      rw [decimal_of_lt hn]
      exact small n hn h
    · rw [decimal_of_le (by omega)]
      have := ih (n / 10) (by omega) (by omega)
      obtain ⟨d, ds, hd⟩ := List.exists_cons_of_ne_nil (decimal_ne_nil (n / 10))
      rw [hd] at this ⊢
      exact this

theorem readDecimal_append (ds : Bytes) (d : UInt8) :
    readDecimal (ds ++ [d]) = 10 * readDecimal ds + (d.toNat - 48) := by
  simp [readDecimal]

theorem readDecimal_lt {k : ℕ} {ds : Bytes} (h : ∀ c ∈ ds, isDigit c = true)
    (hlen : ds.length ≤ k) : readDecimal ds < 10 ^ k := by
  induction ds using List.reverseRecOn generalizing k with
  | nil => exact Nat.pow_pos (by decide)
  | append_singleton ds d ih =>
    rw [List.length_append, List.length_singleton] at hlen
    obtain ⟨k, rfl⟩ : ∃ m, k = m + 1 := ⟨k - 1, by omega⟩
    have hd := isDigit_iff.1 (h d (by simp))
    have hds : readDecimal ds < 10 ^ k := ih (fun c hc => h c (by simp [hc])) (by omega)
    rw [readDecimal_append, Nat.pow_succ]
    omega

/-- **Digits without a superfluous zero are what is printed for their value.** -/
theorem decimal_readDecimal {ds : Bytes} (hne : ds ≠ []) (hds : ∀ c ∈ ds, isDigit c = true)
    (hz : ds.head? = some 48 → ds.length = 1) : decimal (readDecimal ds) = ds := by
  have hdigit : ∀ c, isDigit c = true → c.toNat - 48 < 10 ∧
      (c.toNat - 48).digitChar.toUInt8 = c ∧ (c.toNat - 48 = 0 → c = 48) :=
    forall_byte (by decide +kernel)
  induction ds using List.reverseRecOn with
  | nil => exact absurd rfl hne
  | append_singleton ds d ih =>
    obtain ⟨hlt, hchar, hzero⟩ := hdigit d (hds d (by simp))
    rw [readDecimal_append]
    by_cases hnil : ds = []
    · subst hnil
      rw [show readDecimal [] = 0 from rfl, Nat.mul_zero, Nat.zero_add, decimal_of_lt hlt, hchar]
      rfl
    · obtain ⟨c, cs, rfl⟩ := List.exists_cons_of_ne_nil hnil
      -- the first of several digits is not a zero, so there is more than one to print
      have hc : c ≠ 48 := by
        rintro rfl
        simpa using hz rfl
      have hds' := ih hnil (fun e he => hds e (List.mem_append_left _ he)) (fun h => by simp_all)
      have hpos : readDecimal (c :: cs) ≠ 0 := by
        intro h0
        rw [h0, decimal_of_lt (by decide)] at hds'
        have : c = 48 := by
          have := (List.cons.inj hds').1
          exact this.symm.trans (by decide)
        exact hc this
      rw [decimal_of_le (by omega)]
      have hdiv : (10 * readDecimal (c :: cs) + (d.toNat - 48)) / 10 = readDecimal (c :: cs) := by
        omega
      have hmod : (10 * readDecimal (c :: cs) + (d.toNat - 48)) % 10 = d.toNat - 48 := by omega
      rw [hdiv, hmod, hds', hchar]
