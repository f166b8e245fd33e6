/-
  slirp4netns formalization — parson's view of UTF-8.

  `is_valid_utf8` decodes with shifts and masks; `isValidUtf8_iff` says that it
  accepts the concatenations of encoded characters: no overlong form, no surrogate,
  nothing beyond U+10FFFF.  The end of the string is looked at only between two
  characters, so that the last one may be completed by bytes behind the string.
  `parse_utf16` encodes with shifts and masks; `utf16Bytes_eq` says that it gives
  the encoding of the character.
-/
import Slirp4netns.Lib.Utf8
import Slirp4netns.Parson.Parse

namespace Slirp4netns

/-! ## Shifts and masks -/

/-- Six more bits. -/
theorem shiftLeft_six_or (x : ℕ) {y : ℕ} (hy : y < 64) : x <<< 6 ||| y = 64 * x + y := by
  rw [← Nat.shiftLeft_add_eq_or_of_lt (i := 6) hy, Nat.shiftLeft_eq, Nat.mul_comm]

theorem isCont_iff {b : UInt8} : isCont b = true ↔
    (b &&& 0x3F).toNat < 64 ∧ b = UInt8.ofNat ((b &&& 0x3F).toNat + 128) := by
  have key : ∀ b : UInt8, isCont b = true ↔
      (b &&& 0x3F).toNat < 64 ∧ b = UInt8.ofNat ((b &&& 0x3F).toNat + 128) :=
    forall_byte (by decide +kernel)
  exact key b

theorem cont_ofNat {y : ℕ} (hy : y < 64) : isCont (UInt8.ofNat (y + 128)) = true ∧
    (UInt8.ofNat (y + 128) &&& 0x3F).toNat = y := by
  have key : ∀ y < 64, isCont (UInt8.ofNat (y + 128)) = true ∧
      (UInt8.ofNat (y + 128) &&& 0x3F).toNat = y := by decide +kernel
  exact key y hy

/-- The first byte of a sequence of two, three or four bytes, and the bits of the
    code point in it. -/
theorem lead_cases (b : UInt8) :
    (numBytesInUtf8Sequence b = 0) ∨
    (numBytesInUtf8Sequence b = 1 ∧ b.toNat < 0x80) ∨
    (numBytesInUtf8Sequence b = 2 ∧ (b &&& 0x1F).toNat < 32 ∧
      b = UInt8.ofNat ((b &&& 0x1F).toNat + 192)) ∨
    (numBytesInUtf8Sequence b = 3 ∧ (b &&& 0xF).toNat < 16 ∧
      b = UInt8.ofNat ((b &&& 0xF).toNat + 224)) ∨
    (numBytesInUtf8Sequence b = 4 ∧ (b &&& 0x7).toNat < 8 ∧
      b = UInt8.ofNat ((b &&& 0x7).toNat + 240)) := by
  revert b
  exact forall_byte (by decide +kernel)

theorem lead2_ofNat {x : ℕ} (h : 2 ≤ x) (hx : x < 32) :
    numBytesInUtf8Sequence (UInt8.ofNat (x + 192)) = 2 ∧
    (UInt8.ofNat (x + 192) &&& 0x1F).toNat = x := by
  have key : ∀ x < 32, 2 ≤ x → numBytesInUtf8Sequence (UInt8.ofNat (x + 192)) = 2 ∧
      (UInt8.ofNat (x + 192) &&& 0x1F).toNat = x := by decide +kernel
  exact key x hx h

theorem lead3_ofNat {x : ℕ} (hx : x < 16) : numBytesInUtf8Sequence (UInt8.ofNat (x + 224)) = 3 ∧
    (UInt8.ofNat (x + 224) &&& 0xF).toNat = x := by
  have key : ∀ x < 16, numBytesInUtf8Sequence (UInt8.ofNat (x + 224)) = 3 ∧
      (UInt8.ofNat (x + 224) &&& 0xF).toNat = x := by decide
  exact key x hx

theorem lead4_ofNat {x : ℕ} (hx : x < 5) : numBytesInUtf8Sequence (UInt8.ofNat (x + 240)) = 4 ∧
    (UInt8.ofNat (x + 240) &&& 0x7).toNat = x := by
  have key : ∀ x < 5, numBytesInUtf8Sequence (UInt8.ofNat (x + 240)) = 4 ∧
      (UInt8.ofNat (x + 240) &&& 0x7).toNat = x := by decide
  exact key x hx

/-! ## Sequences -/

/-- The encoding of a character is a valid sequence. -/
theorem verifyUtf8Sequence_encode (c : Char) (s : Bytes) :
    verifyUtf8Sequence (String.utf8EncodeChar c ++ s) = some (String.utf8EncodeChar c).length := by
  have hvalid := c.valid
  rw [UInt32.isValidChar, Nat.isValidChar] at hvalid
  rw [String.utf8EncodeChar]
  generalize c.val.toNat = v at hvalid
  by_cases h1 : v ≤ 127
  · rw [if_pos h1]
    refine verifyUtf8Sequence_ascii ?_
    rw [UInt8.toNat_ofNat']
    omega
  rw [if_neg h1]
  -- the bits of the sequence are those of the character
  have hverify {len cp : ℕ} (hcp : cp = v) (hlen : (len ≤ 2) ∨ (len = 3 ∧ 2047 < v) ∨ 65535 < v) :
      (if (cp < 0x80 ∧ len > 1) ∨ (cp < 0x800 ∧ len > 2) ∨ (cp < 0x10000 ∧ len > 3) then none
        else if cp > 0x10FFFF then none
        else if 0xD800 ≤ cp ∧ cp ≤ 0xDFFF then none else some len) = some len := by
    rw [if_neg (by omega), if_neg (by omega), if_neg (by omega)]
  by_cases h2 : v ≤ 2047
  · obtain ⟨hlead, hx⟩ := lead2_ofNat (x := v / 64 % 32) (by omega) (by omega)
    obtain ⟨hcont, hy⟩ := cont_ofNat (y := v % 64) (by omega)
    rw [if_pos h2]
    simp only [verifyUtf8Sequence, utf8CodePoint, List.cons_append, List.getD_cons_zero,
      List.getD_cons_succ, hlead, hx, hcont, hy, true_and, if_true, if_neg (by decide : ¬ 2 = 1)]
    rw [shiftLeft_six_or _ (by omega)]
    exact hverify (by omega) (by omega)
  rw [if_neg h2]
  have hy' : v / 64 % 64 < 64 := by omega
  have hz' : v % 64 < 64 := by omega
  obtain ⟨hcont, hy⟩ := cont_ofNat hy'
  obtain ⟨hcont', hz⟩ := cont_ofNat hz'
  by_cases h3 : v ≤ 65535
  · obtain ⟨hlead, hx⟩ := lead3_ofNat (x := v / 4096 % 16) (by omega)
    rw [if_pos h3]
    simp only [verifyUtf8Sequence, utf8CodePoint, List.cons_append, List.getD_cons_zero,
      List.getD_cons_succ, hlead, hx, hcont, hy, hcont', hz, true_and, if_true,
      if_neg (by decide : ¬ 3 = 1)]
    simp only [shiftLeft_six_or _ hy', shiftLeft_six_or _ hz']
    exact hverify (by omega) (by omega)
  · obtain ⟨hlead, hx⟩ := lead4_ofNat (x := v / 262144 % 8) (by omega)
    have hw' : v / 4096 % 64 < 64 := by omega
    obtain ⟨hcont'', hw⟩ := cont_ofNat hw'
    rw [if_neg h3]
    simp only [verifyUtf8Sequence, utf8CodePoint, List.cons_append, List.getD_cons_zero,
      List.getD_cons_succ, hlead, hx, hcont, hy, hcont', hz, hcont'', hw, true_and, if_true,
      if_neg (by decide : ¬ 4 = 1)]
    simp only [shiftLeft_six_or _ hy', shiftLeft_six_or _ hz', shiftLeft_six_or _ hw']
    exact hverify (by omega) (by omega)

/-- A byte that continues a sequence is there: it is not the terminating NUL. -/
theorem exists_cont {s : Bytes} (h : isCont (s.getD 0 0) = true) :
    ∃ y < 64, ∃ r, s = UInt8.ofNat (y + 128) :: r := by
  cases s with
  | nil => exact absurd h (by decide)
  | cons b r =>
    obtain ⟨hlt, hb⟩ := isCont_iff.1 (show isCont b = true from h)
    exact ⟨_, hlt, r, by rw [← hb]⟩

/-- The code point of a sequence of two, three or four bytes, and the bytes. -/
theorem utf8CodePoint_eq_some {b : UInt8} {s : Bytes} {len cp : ℕ}
    (h : utf8CodePoint (b :: s) len = some cp) (hlen : 1 < len) :
    (len = 2 ∧ ∃ y < 64, ∃ r, s = UInt8.ofNat (y + 128) :: r ∧ cp = 64 * (b &&& 0x1F).toNat + y) ∨
    (len = 3 ∧ ∃ y < 64, ∃ z < 64, ∃ r,
      s = UInt8.ofNat (y + 128) :: UInt8.ofNat (z + 128) :: r ∧
      cp = 64 * (64 * (b &&& 0xF).toNat + y) + z) ∨
    (len = 4 ∧ ∃ y < 64, ∃ z < 64, ∃ w < 64, ∃ r,
      s = UInt8.ofNat (y + 128) :: UInt8.ofNat (z + 128) :: UInt8.ofNat (w + 128) :: r ∧
      cp = 64 * (64 * (64 * (b &&& 0x7).toNat + y) + z) + w) := by
  simp only [utf8CodePoint, List.getD_cons_zero, List.getD_cons_succ] at h
  split at h
  · omega
  split at h
  · next hc =>
    obtain ⟨y, hy, r, rfl⟩ := exists_cont hc.2
    rw [List.getD_cons_zero, (cont_ofNat hy).2, shiftLeft_six_or _ hy] at h
    exact .inl ⟨hc.1, y, hy, r, rfl, (Option.some.inj h).symm⟩
  split at h
  · next hc =>
    obtain ⟨y, hy, r, rfl⟩ := exists_cont hc.2.1
    obtain ⟨z, hz, r, rfl⟩ := exists_cont hc.2.2
    simp only [List.getD_cons_zero, List.getD_cons_succ, (cont_ofNat hy).2, (cont_ofNat hz).2,
      shiftLeft_six_or _ hy, shiftLeft_six_or _ hz] at h
    exact .inr (.inl ⟨hc.1, y, hy, z, hz, r, rfl, (Option.some.inj h).symm⟩)
  split at h
  · next hc =>
    obtain ⟨y, hy, r, rfl⟩ := exists_cont hc.2.1
    obtain ⟨z, hz, r, rfl⟩ := exists_cont hc.2.2.1
    obtain ⟨w, hw, r, rfl⟩ := exists_cont hc.2.2.2
    simp only [List.getD_cons_zero, List.getD_cons_succ, (cont_ofNat hy).2, (cont_ofNat hz).2,
      (cont_ofNat hw).2, shiftLeft_six_or _ hy, shiftLeft_six_or _ hz, shiftLeft_six_or _ hw] at h
    exact .inr (.inr ⟨hc.1, y, hy, z, hz, w, hw, r, rfl, (Option.some.inj h).symm⟩)
  · cases h

/-- A valid sequence is the encoding of a character. -/
theorem verifyUtf8Sequence_eq_some {b : UInt8} {s : Bytes} {len : ℕ}
    (h : verifyUtf8Sequence (b :: s) = some len) :
    ∃ (c : Char) (r : Bytes), b :: s = String.utf8EncodeChar c ++ r ∧
      (String.utf8EncodeChar c).length = len := by
  simp only [verifyUtf8Sequence, List.getD_cons_zero] at h
  split at h
  · cases h
  next cp hcp =>
  split at h
  · cases h
  next hover =>
  split at h
  · cases h
  next hmax =>
  split at h
  · cases h
  next hsurr =>
  cases h
  obtain ⟨c, hc⟩ : ∃ c : Char, c.val.toNat = cp :=
    ⟨Char.ofNatAux cp (by rw [Nat.isValidChar]; omega), rfl⟩
  refine ⟨c, ?_⟩
  rw [String.utf8EncodeChar, hc]
  rcases lead_cases b with hn | ⟨hn, hb⟩ | ⟨hn, hx, hb⟩ | ⟨hn, hx, hb⟩ | ⟨hn, hx, hb⟩ <;>
    rw [hn] at hcp hover ⊢
  · simp [utf8CodePoint] at hcp
  · simp only [utf8CodePoint, if_true, List.getD_cons_zero, Option.some.injEq] at hcp
    subst hcp
    rw [if_pos (by omega), UInt8.ofNat_toNat]
    exact ⟨s, rfl, rfl⟩
  · obtain ⟨-, y, hy, r, rfl, rfl⟩ | ⟨h2, -⟩ | ⟨h2, -⟩ := utf8CodePoint_eq_some hcp (by omega)
    · generalize (b &&& 0x1F).toNat = x at *
      rw [if_neg (by omega), if_pos (by omega)]
      refine ⟨r, ?_, rfl⟩
      rw [hb, show (64 * x + y) / 64 % 32 = x by omega, show (64 * x + y) % 64 = y by omega]
      rfl
    all_goals omega
  · obtain ⟨h2, -⟩ | ⟨-, y, hy, z, hz, r, rfl, rfl⟩ | ⟨h2, -⟩ :=
      utf8CodePoint_eq_some hcp (by omega)
    · omega
    · generalize (b &&& 0xF).toNat = x at *
      rw [if_neg (by omega), if_neg (by omega), if_pos (by omega)]
      refine ⟨r, ?_, rfl⟩
      rw [hb, show (64 * (64 * x + y) + z) / 4096 % 16 = x by omega,
        show (64 * (64 * x + y) + z) / 64 % 64 = y by omega,
        show (64 * (64 * x + y) + z) % 64 = z by omega]
      rfl
    · omega
  · obtain ⟨h2, -⟩ | ⟨h2, -⟩ | ⟨-, y, hy, z, hz, w, hw, r, rfl, rfl⟩ :=
      utf8CodePoint_eq_some hcp (by omega)
    · omega
    · omega
    · generalize (b &&& 0x7).toNat = x at *
      rw [if_neg (by omega), if_neg (by omega), if_neg (by omega)]
      refine ⟨r, ?_, rfl⟩
      rw [hb, show (64 * (64 * (64 * x + y) + z) + w) / 262144 % 8 = x by omega,
        show (64 * (64 * (64 * x + y) + z) + w) / 4096 % 64 = y by omega,
        show (64 * (64 * (64 * x + y) + z) + w) / 64 % 64 = z by omega,
        show (64 * (64 * (64 * x + y) + z) + w) % 64 = w by omega]
      rfl

/-! ## Texts -/

/-- A text that starts with a valid sequence is one if the rest is. -/
theorem verifyUtf8Sequence_utf8 {b : UInt8} {s : Bytes} :
    Utf8 (b :: s) ↔ ∃ len ∈ verifyUtf8Sequence (b :: s), Utf8 ((b :: s).drop len) := by
  constructor
  · rintro ⟨cs, h⟩
    cases cs with
    | nil => cases h
    | cons c cs =>
      rw [List.flatMap_cons] at h
      refine ⟨(String.utf8EncodeChar c).length, ?_, cs, ?_⟩
      · rw [h]
        exact verifyUtf8Sequence_encode c _
      · rw [h, List.drop_left]
  · rintro ⟨len, hlen, h⟩
    obtain ⟨c, r, hs, rfl⟩ := verifyUtf8Sequence_eq_some hlen
    rw [hs, List.drop_left] at h
    rw [hs]
    exact (Utf8.char c).append h

/-- A character in front of a text. -/
theorem utf8_encode_append {c : Char} {s : Bytes} :
    Utf8 (String.utf8EncodeChar c ++ s) ↔ Utf8 s := by
  obtain ⟨b, e, he⟩ := List.exists_cons_of_ne_nil (String.utf8EncodeChar_ne_nil (c := c))
  have hv := verifyUtf8Sequence_encode c s
  have hdrop : (String.utf8EncodeChar c ++ s).drop (String.utf8EncodeChar c).length = s :=
    List.drop_left
  rw [he, List.cons_append] at hv hdrop ⊢
  rw [verifyUtf8Sequence_utf8, hv]
  simp only [Option.mem_def, Option.some.injEq, exists_eq_left', hdrop]

/-- The bytes of a character after the first continue it. -/
theorem encode_tail (c : Char) : ∀ b ∈ (String.utf8EncodeChar c).tail, isCont b = true := by
  have hcont (y : ℕ) : isCont (UInt8.ofNat (y % 64 + 128)) = true :=
    (cont_ofNat (Nat.mod_lt y (by decide))).1
  rw [String.utf8EncodeChar]
  split
  · simp
  · split
    · simp only [List.tail_cons, List.forall_mem_singleton, hcont]
    · split <;> simp only [List.tail_cons, List.forall_mem_cons, List.not_mem_nil, hcont,
        false_implies, implies_true, and_self]

/-- What the loop of `is_valid_utf8` accepts: the last character may go on behind the string. -/
theorem isValidUtf8Loop_iff {fuel : ℕ} {s behind : Bytes} (h : s.length ≤ fuel) :
    isValidUtf8Loop fuel (s ++ behind) s.length = true ↔
      ∃ cut rest, behind = cut ++ rest ∧ (∀ c ∈ cut, isCont c = true) ∧ Utf8 (s ++ cut) := by
  induction fuel generalizing s with
  | zero =>
    obtain rfl := List.length_eq_zero_iff.1 (Nat.le_zero.1 h)
    exact iff_of_true rfl ⟨[], behind, rfl, by simp, .nil⟩
  | succ fuel ih =>
    cases s with
    | nil => exact iff_of_true rfl ⟨[], behind, rfl, by simp, .nil⟩
    | cons b s =>
      -- the characters that end in the string, and the one that may not
      have hstep {c : Char} {r : Bytes} (hs : b :: s ++ behind = String.utf8EncodeChar c ++ r) :
          isValidUtf8Loop (fuel + 1) (b :: s ++ behind) (b :: s).length =
            isValidUtf8Loop fuel r ((b :: s).length - (String.utf8EncodeChar c).length) := by
        rw [hs, List.length_cons, isValidUtf8Loop, verifyUtf8Sequence_encode]
        simp only [List.drop_left]
      have hshort {c : Char} {t : Bytes} (ht : b :: s = String.utf8EncodeChar c ++ t) :
          t.length ≤ fuel := by
        have hpos := List.length_pos_iff.2 (String.utf8EncodeChar_ne_nil (c := c))
        have hlen := congrArg List.length ht
        rw [List.length_append] at hlen
        omega
      constructor
      · intro hloop
        obtain ⟨c, r, hs⟩ : ∃ c r, b :: s ++ behind = String.utf8EncodeChar c ++ r := by
          rw [List.length_cons, isValidUtf8Loop] at hloop
          split at hloop
          · next len hv =>
            obtain ⟨c, r, hs, -⟩ := verifyUtf8Sequence_eq_some hv
            exact ⟨c, r, hs⟩
          · cases hloop
        rw [hstep hs] at hloop
        rcases List.append_eq_append_iff.1 hs with ⟨cut, hc, rfl⟩ | ⟨t, ht, rfl⟩
        · refine ⟨cut, r, rfl, fun x hx => encode_tail c x ?_, hc ▸ Utf8.char c⟩
          rw [hc]
          exact List.mem_append.2 (.inr hx)
        · rw [ht, List.length_append, Nat.add_sub_cancel_left] at hloop
          obtain ⟨cut, rest, rfl, hcut, hutf8⟩ := (ih (hshort ht)).1 hloop
          refine ⟨cut, rest, rfl, hcut, ?_⟩
          rw [ht, List.append_assoc]
          exact (Utf8.char c).append hutf8
      · rintro ⟨cut, rest, rfl, hcut, cs, hcs⟩
        cases cs with
        | nil => cases hcs
        | cons c cs =>
          rw [List.flatMap_cons] at hcs
          have hs : b :: s ++ (cut ++ rest) =
              String.utf8EncodeChar c ++ (cs.flatMap String.utf8EncodeChar ++ rest) := by
            rw [← List.append_assoc, hcs, List.append_assoc]
          rw [hstep hs]
          rcases List.append_eq_append_iff.1 hcs with ⟨t, hc, -⟩ | ⟨t, ht, hcs'⟩
          · rw [hc, List.length_append, Nat.sub_eq_zero_of_le (Nat.le_add_right _ _)]
            cases fuel <;> rfl
          · rw [ht, List.length_append, Nat.add_sub_cancel_left, hcs', List.append_assoc]
            exact (ih (hshort ht)).2 ⟨cut, rest, rfl, hcut, cs, hcs'.symm⟩

/-- If no continuation byte follows the string, the last character ends in it. -/
theorem isValidUtf8_of_ends {s behind : Bytes} (h : ∀ c ∈ behind.head?, isCont c = false) :
    isValidUtf8 (s ++ behind) s.length = true ↔ Utf8 s := by
  rw [isValidUtf8, isValidUtf8Loop_iff le_rfl]
  constructor
  · rintro ⟨cut, rest, rfl, hcut, hutf8⟩
    cases cut with
    | nil => rwa [List.append_nil] at hutf8
    | cons c cut =>
      have hno := h c rfl
      rw [hcut c List.mem_cons_self] at hno
      cases hno
  · intro hutf8
    exact ⟨[], behind, rfl, by simp, by rwa [List.append_nil]⟩

/-- **`is_valid_utf8` and UTF-8.**  A string is accepted exactly if, with some continuation bytes
    that follow it in memory, it is a concatenation of encoded characters, that is of Unicode code
    points other than surrogates.  So if no continuation byte follows it, as behind the NUL of a C
    string, it is accepted exactly if it is UTF-8. -/
theorem isValidUtf8_iff (s behind : Bytes) :
    (isValidUtf8 (s ++ behind) s.length = true ↔
      ∃ cut rest, behind = cut ++ rest ∧ (∀ c ∈ cut, isCont c = true) ∧ Utf8 (s ++ cut)) ∧
    ((∀ c ∈ behind.head?, isCont c = false) →
      (isValidUtf8 (s ++ behind) s.length = true ↔ Utf8 s)) :=
  ⟨isValidUtf8Loop_iff le_rfl, isValidUtf8_of_ends⟩

/-- The first byte of a character, with the second behind the end, and with a NUL there. -/
example : isValidUtf8 ([0xC3] ++ [0xA9]) 1 = true ∧ isValidUtf8 ([0xC3] ++ [0]) 1 = false := by
  decide

/-! ## Escapes -/

/-- `k` bits of `v` from bit `i` on, under a mark in the higher bits. -/
theorem marked_bits (v i k m : ℕ) :
    v >>> i &&& (2 ^ k - 1) ||| 2 ^ k * m = v / 2 ^ i % 2 ^ k + 2 ^ k * m := by
  have hlt : v / 2 ^ i % 2 ^ k < 2 ^ k := Nat.mod_lt _ (Nat.two_pow_pos k)
  rw [Nat.and_two_pow_sub_one_eq_mod, Nat.shiftRight_eq_div_pow, Nat.or_comm, Nat.add_comm,
    Nat.two_pow_add_eq_or_of_lt hlt]

/-- `parse_utf16` writes the encoding of the character. -/
theorem utf16Bytes_eq (c : Char) : utf16Bytes c.toNat = String.utf8EncodeChar c := by
  rw [utf16Bytes, String.utf8EncodeChar, Char.toNat]
  generalize c.val.toNat = v
  have hlead2 : v >>> 6 &&& 0x1F ||| 0xC0 = v / 64 % 32 + 192 := marked_bits v 6 5 6
  have hlead3 : v >>> 12 &&& 0x0F ||| 0xE0 = v / 4096 % 16 + 224 := marked_bits v 12 4 14
  have hlead4 : v >>> 18 &&& 0x07 ||| 0xF0 = v / 262144 % 8 + 240 := marked_bits v 18 3 30
  have hcont0 : v &&& 0x3F ||| 0x80 = v % 64 + 128 := by
    have := marked_bits v 0 6 2
    rwa [Nat.shiftRight_zero, Nat.pow_zero, Nat.div_one] at this
  have hcont6 : v >>> 6 &&& 0x3F ||| 0x80 = v / 64 % 64 + 128 := marked_bits v 6 6 2
  have hcont12 : v >>> 12 &&& 0x3F ||| 0x80 = v / 4096 % 64 + 128 := marked_bits v 12 6 2
  rw [hlead2, hlead3, hlead4, hcont0, hcont6, hcont12]
  have h1 : v < 0x80 ↔ v ≤ 127 := by omega
  have h2 : v < 0x800 ↔ v ≤ 2047 := by omega
  have h3 : v < 0x10000 ↔ v ≤ 65535 := by omega
  simp only [h1, h2, h3]

end Slirp4netns
