/-
  slirp4netns formalization — `--cidr` (`parse_cidr` in `main.c`).

  A network is written `a.b.c.d/p`.  The code takes a regular expression, copies
  two of its groups into buffers, reads them with `inet_pton` and `strtoul`, and
  computes the mask in `int`, with wrap-around.

  `CidrText` is the grammar: four numerals up to 255 without superfluous zeros
  and a prefix of one or two digits between 1 and 25, such that the bits behind
  the prefix are zero.  `parseCidr_grammar` says that the code accepts exactly
  these texts and what it stores for them.
-/
import Slirp4netns.Lib.Regex
import Slirp4netns.Libc

namespace Slirp4netns

/-! ## Byte order -/

/-- `ntohl(x.s_addr)` -/
def InAddr.ntohl (x : InAddr) : BitVec 32 :=
  x.a.toBitVec ++ x.b.toBitVec ++ x.c.toBitVec ++ x.d.toBitVec

/-- `htonl` -/
def htonl (n : BitVec 32) : InAddr where
  a := ⟨n.extractLsb' 24 8⟩
  b := ⟨n.extractLsb' 16 8⟩
  c := ⟨n.extractLsb' 8 8⟩
  d := ⟨n.extractLsb' 0 8⟩

/-- `x.s_addr & y.s_addr` -/
def InAddr.and (x y : InAddr) : InAddr := ⟨x.a &&& y.a, x.b &&& y.b, x.c &&& y.c, x.d &&& y.d⟩

theorem InAddr.ntohl_and (x y : InAddr) : (x.and y).ntohl = x.ntohl &&& y.ntohl := by
  -- the width of four bytes together is 32 by computation only
  have h : ((x.a &&& y.a).toBitVec ++ (x.b &&& y.b).toBitVec ++ (x.c &&& y.c).toBitVec ++
      (x.d &&& y.d).toBitVec : BitVec (8 + 8 + 8 + 8)) =
      (x.a.toBitVec ++ x.b.toBitVec ++ x.c.toBitVec ++ x.d.toBitVec) &&&
        (y.a.toBitVec ++ y.b.toBitVec ++ y.c.toBitVec ++ y.d.toBitVec) := by
    simp only [UInt8.toBitVec_and, BitVec.and_append]
  exact h

/-- The bits of an address, byte by byte. -/
theorem InAddr.getLsbD_ntohl (x : InAddr) (i : ℕ) : x.ntohl.getLsbD i =
    if i < 8 then x.d.toBitVec.getLsbD i
    else if i < 16 then x.c.toBitVec.getLsbD (i - 8)
    else if i < 24 then x.b.toBitVec.getLsbD (i - 16)
    else x.a.toBitVec.getLsbD (i - 24) := by
  have h : (x.a.toBitVec ++ x.b.toBitVec ++ x.c.toBitVec ++ x.d.toBitVec :
      BitVec (8 + 8 + 8 + 8)).getLsbD i =
      if i < 8 then x.d.toBitVec.getLsbD i
      else if i < 16 then x.c.toBitVec.getLsbD (i - 8)
      else if i < 24 then x.b.toBitVec.getLsbD (i - 16)
      else x.a.toBitVec.getLsbD (i - 24) := by
    simp only [BitVec.getLsbD_append, Nat.sub_sub]
    repeat' split
    all_goals first | rfl | omega
  exact h

theorem ntohl_htonl (n : BitVec 32) : (htonl n).ntohl = n := by
  apply BitVec.eq_of_getLsbD_eq
  intro i hi
  rw [InAddr.getLsbD_ntohl]
  simp only [htonl, BitVec.getLsbD_extractLsb']
  split_ifs with h₁ h₂ h₃
  · simp [h₁]
  · rw [decide_eq_true (show i - 8 < 8 by omega), Bool.true_and, Nat.add_sub_cancel' (by omega)]
  · rw [decide_eq_true (show i - 16 < 8 by omega), Bool.true_and, Nat.add_sub_cancel' (by omega)]
  · rw [decide_eq_true (show i - 24 < 8 by omega), Bool.true_and, Nat.add_sub_cancel' (by omega)]

theorem htonl_ntohl (x : InAddr) : htonl x.ntohl = x := by
  have hbyte : ∀ (y : UInt8) (k : ℕ), (∀ i < 8, x.ntohl.getLsbD (k + i) = y.toBitVec.getLsbD i) →
      (⟨x.ntohl.extractLsb' k 8⟩ : UInt8) = y := by
    intro y k hy
    apply UInt8.toBitVec_inj.1
    ext i hi
    rw [BitVec.getElem_extractLsb', hy i hi, BitVec.getLsbD_eq_getElem hi]
  simp only [htonl]
  rw [hbyte x.a 24, hbyte x.b 16, hbyte x.c 8, hbyte x.d 0]
  all_goals
    intro i hi
    rw [x.getLsbD_ntohl]
    repeat' split
  all_goals first | omega | (congr 1; omega)

theorem InAddr.ntohl_injective {x y : InAddr} (h : x.ntohl = y.ntohl) : x = y := by
  rw [← htonl_ntohl x, h, htonl_ntohl]

/-- The 32-bit number `a.b.c.d`. -/
def InAddr.number (x : InAddr) : ℕ :=
  x.a.toNat * 2 ^ 24 + x.b.toNat * 2 ^ 16 + x.c.toNat * 2 ^ 8 + x.d.toNat

theorem InAddr.toNat_ntohl (x : InAddr) : x.ntohl.toNat = x.number := by
  have happend : ∀ {k : ℕ} (u : BitVec k) (v : UInt8),
      (u ++ v.toBitVec).toNat = u.toNat * 2 ^ 8 + v.toNat := by
    intro k u v
    rw [BitVec.toNat_append, ← Nat.shiftLeft_add_eq_or_of_lt v.toBitVec.isLt, Nat.shiftLeft_eq]
    rfl
  have h : (x.a.toBitVec ++ x.b.toBitVec ++ x.c.toBitVec ++ x.d.toBitVec :
      BitVec (8 + 8 + 8 + 8)).toNat = x.number := by
    rw [happend, happend, happend, InAddr.number, UInt8.toNat_toBitVec]
    omega
  exact h

/-! ## The mask -/

/-- `~((1 << k) - 1)` -/
def maskFrom (k : ℕ) : BitVec 32 := ~~~(1#32 <<< k - 1#32)

/-- `(1 << k) - 1` -/
theorem toNat_not_maskFrom {k : ℕ} (hk : k < 32) : (~~~maskFrom k).toNat = 2 ^ k - 1 := by
  have hpow : 2 ^ k < 2 ^ 32 := Nat.pow_lt_pow_right (by decide) hk
  have hpos : 0 < 2 ^ k := Nat.two_pow_pos k
  have hone : (1#32 <<< k).toNat = 2 ^ k := by
    rw [BitVec.toNat_shiftLeft, Nat.shiftLeft_eq]
    simp only [BitVec.toNat_ofNat]
    omega
  rw [maskFrom, BitVec.not_not, BitVec.toNat_sub, hone]
  simp only [BitVec.toNat_ofNat]
  omega

theorem getLsbD_maskFrom {k i : ℕ} (hk : k < 32) (hi : i < 32) :
    (maskFrom k).getLsbD i = decide (k ≤ i) := by
  have hnot : (~~~maskFrom k).getLsbD i = decide (i < k) := by
    rw [← BitVec.testBit_toNat, toNat_not_maskFrom hk, Nat.testBit_two_pow_sub_one]
  rw [BitVec.getLsbD_not] at hnot
  by_cases hki : k ≤ i
  · simpa [hi, hki, Nat.not_lt.2 hki] using hnot
  · simpa [hi, hki, Nat.lt_of_not_le hki] using hnot

/-- The mask clears the low bits. -/
theorem toNat_and_maskFrom {k : ℕ} (hk : k < 32) (n : BitVec 32) :
    (n &&& maskFrom k).toNat = n.toNat / 2 ^ k * 2 ^ k := by
  have hshift : n &&& maskFrom k = n >>> k <<< k := by
    apply BitVec.eq_of_getLsbD_eq
    intro i hi
    rw [BitVec.getLsbD_and, getLsbD_maskFrom hk hi, BitVec.getLsbD_shiftLeft,
      BitVec.getLsbD_ushiftRight]
    by_cases hki : k ≤ i
    · simp [hi, hki, Nat.not_lt.2 hki, Nat.add_sub_cancel' hki]
    · simp [hki, Nat.lt_of_not_le hki]
  have hle : n.toNat / 2 ^ k * 2 ^ k ≤ n.toNat := Nat.div_mul_le_self _ _
  rw [hshift, BitVec.toNat_shiftLeft, BitVec.toNat_ushiftRight, Nat.shiftRight_eq_div_pow,
    Nat.shiftLeft_eq, Nat.mod_eq_of_lt (hle.trans_lt n.isLt)]

/-- The mask leaves a number as it is exactly if its low bits are zero. -/
theorem and_maskFrom_iff {k : ℕ} (hk : k < 32) (n : BitVec 32) :
    n &&& maskFrom k = n ↔ n.toNat % 2 ^ k = 0 := by
  have hdiv : n.toNat / 2 ^ k * 2 ^ k + n.toNat % 2 ^ k = n.toNat := Nat.div_add_mod' _ _
  rw [← BitVec.toNat_inj, toNat_and_maskFrom hk]
  omega

/-! ## parse_cidr -/

/-- A decimal digit. -/
def digit : Regex UInt8 := .one isDigit

/-- `([0-9]{1,3}\.)` -/
def octetRegex : Regex UInt8 := .group 2 (.seq (.rep digit 1 3) (.one (· == 46)))

/-- `(([0-9]{1,3}\.){3}[0-9]{1,3})` -/
def quadRegex : Regex UInt8 := .group 1 (.seq (.rep octetRegex 3 3) (.rep digit 1 3))

/-- `^(([0-9]{1,3}\.){3}[0-9]{1,3})/([0-9]{1,2})$` -/
def cidrRegex : Regex UInt8 :=
  .seq .bol (.seq quadRegex (.seq (.one (· == 47)) (.seq (.group 3 (.rep digit 1 2)) .eol)))

/-- The buffer of `from_regmatch`, or `none` if the match does not fit. -/
def fromRegmatch (bufLen : ℕ) (group : Option (ℕ × ℕ)) (orig : Bytes) : Option Bytes :=
  match group with
  | none => some []
  | some (so, eo) =>
    if eo - so > bufLen - 1 then none else some (cstr ((orig.drop so).take (eo - so)))

/-- Why a CIDR is refused. -/
inductive CidrError where
  | noMatch (cidr : Bytes)
  | networkTooLong (cidr : Bytes)
  | prefixTooLong (cidr : Bytes)
  | badNetwork (snetwork : Bytes)
  | prefixErrno (sprefixText : Bytes)
  | prefixRange
  | notNetwork
  deriving DecidableEq

/-- What is printed to `stderr`. -/
def CidrError.text : CidrError → Bytes
  | noMatch cidr => bytes "invalid CIDR: " ++ cidr ++ [10]
  | networkTooLong cidr => bytes "invalid CIDR: " ++ cidr ++ [10]
  | prefixTooLong cidr => bytes "invalid CIDR: " ++ cidr ++ [10]
  | badNetwork snetwork => bytes "invalid network address: " ++ snetwork ++ [10]
  | prefixErrno sprefixText => bytes "invalid prefix length: " ++ sprefixText ++ [10]
  | prefixRange => bytes "prefix length needs to be 1-25\n"
  | notNetwork =>
    bytes "CIDR needs to be a network address like 10.0.2.0/24, not like 10.0.2.100/24\n"

/-- The error, if `parse_cidr` returns -1, and what it stores, if it stores something. -/
structure ParsedCidr where
  error : Option CidrError
  network : Option InAddr
  netmask : Option InAddr

/-- The return value. -/
def ParsedCidr.rc (r : ParsedCidr) : ℤ := if r.error.isSome then -1 else 0

/-- `NETWORK_PREFIX_MIN` -/
def networkPrefixMin : ℤ := 1

/-- `NETWORK_PREFIX_MAX` -/
def networkPrefixMax : ℤ := 25

/-- `parse_cidr`, after the copies. -/
def parseNetwork (snetwork sprefixText : Bytes) : ParsedCidr :=
  match inetPton snetwork with
  | none => ⟨some (.badNetwork snetwork), none, none⟩
  | some network =>
    let parsed := strtoul sprefixText
    let prefixLen := wrapInt parsed.value
    let netmask := htonl (maskFrom (32 - prefixLen).toNat)
    if parsed.erange then ⟨some (.prefixErrno sprefixText), some network, none⟩
    else if prefixLen < networkPrefixMin ∨ prefixLen > networkPrefixMax then
      ⟨some .prefixRange, some network, none⟩
    else if network.and netmask ≠ network then ⟨some .notNetwork, some network, some netmask⟩
    else ⟨none, some network, some netmask⟩

/-- `parse_cidr` -/
def parseCidr (cidr : Bytes) : ParsedCidr :=
  match Regex.regexec cidrRegex cidr with
  | none => ⟨some (.noMatch cidr), none, none⟩
  | some groups =>
    match fromRegmatch 16 (groups.lookup 1) cidr with
    | none => ⟨some (.networkTooLong cidr), none, none⟩
    | some snetwork =>
      match fromRegmatch 16 (groups.lookup 3) cidr with
      | none => ⟨some (.prefixTooLong cidr), none, none⟩
      | some sprefixText => parseNetwork snetwork sprefixText

/-! ## The expression -/

/-- One to `k` digits. -/
structure Digits (k : ℕ) (ds : Bytes) : Prop where
  ne_nil : ds ≠ []
  length_le : ds.length ≤ k
  digits : ∀ c ∈ ds, isDigit c = true

section
variable {c : Cursor UInt8} {g : Groups} {y : Cursor UInt8 × Groups}

theorem mem_ends_digits {k : ℕ} : y ∈ (Regex.rep digit 1 k).ends (c, g) ↔
    ∃ ds, Digits k ds ∧ c.rest = ds ++ y.1.rest ∧ y.1.pos = c.pos + ds.length ∧ y.2 = g := by
  simp only [Regex.mem_ends_rep, digit, Regex.mem_times_one]
  constructor
  · rintro ⟨n, hlo, hhi, ds, rfl, hds, hrest, hpos, hg⟩
    exact ⟨ds, ⟨List.ne_nil_of_length_pos hlo, hhi, hds⟩, hrest, hpos, hg⟩
  · rintro ⟨ds, hds, hrest, hpos, hg⟩
    exact ⟨ds.length, List.length_pos_iff.2 hds.ne_nil, hds.length_le, ds, rfl, hds.digits, hrest,
      hpos, hg⟩

theorem mem_ends_octet : y ∈ octetRegex.ends (c, g) ↔
    ∃ ds, Digits 3 ds ∧ c.rest = ds ++ 46 :: y.1.rest ∧ y.1.pos = c.pos + ds.length + 1 ∧
      y.2 = (2, c.pos, y.1.pos) :: g := by
  obtain ⟨d, g'⟩ := y
  simp only [octetRegex, Regex.mem_ends_group, Regex.mem_ends_seq]
  constructor
  · rintro ⟨g₁, ⟨⟨e, g₂⟩, he, hdot⟩, rfl⟩
    obtain ⟨a, ha, hrest, hpos, rfl⟩ := Regex.mem_ends_one.1 hdot
    obtain ⟨ds, hds, hrest', hpos', rfl⟩ := mem_ends_digits.1 he
    obtain rfl : a = 46 := by simpa using ha
    exact ⟨ds, hds, by rw [hrest', hrest], by rw [hpos, hpos'], rfl⟩
  · rintro ⟨ds, hds, hrest, hpos, rfl⟩
    refine ⟨g, ⟨(⟨c.pos + ds.length, 46 :: d.rest⟩, g), ?_, ?_⟩, rfl⟩
    · exact mem_ends_digits.2 ⟨ds, hds, hrest, rfl, rfl⟩
    · exact Regex.mem_ends_one.2 ⟨46, rfl, rfl, hpos, rfl⟩

/-- Four numbers of one to three digits with dots between them. -/
inductive Quad : Bytes → Prop
  | mk {n₁ n₂ n₃ n₄ : Bytes} (h₁ : Digits 3 n₁) (h₂ : Digits 3 n₂) (h₃ : Digits 3 n₃)
      (h₄ : Digits 3 n₄) : Quad (n₁ ++ 46 :: (n₂ ++ 46 :: (n₃ ++ 46 :: n₄)))

theorem mem_ends_quad (h : y ∈ quadRegex.ends (c, g)) :
    ∃ q, Quad q ∧ c.rest = q ++ y.1.rest ∧ y.1.pos = c.pos + q.length ∧
      ∃ g', y.2 = (1, c.pos, y.1.pos) :: g' := by
  obtain ⟨g', hseq, hg⟩ := Regex.mem_ends_group.1 h
  obtain ⟨⟨c₃, g₃⟩, hthree, hlast⟩ := Regex.mem_ends_seq.1 hseq
  obtain ⟨n, hlo, hhi, htimes⟩ := Regex.mem_ends_rep.1 hthree
  obtain rfl : n = 3 := by omega
  obtain ⟨⟨c₁, g₁⟩, h₁, htimes⟩ := Regex.mem_times_succ.1 htimes
  obtain ⟨⟨c₂, g₂⟩, h₂, htimes⟩ := Regex.mem_times_succ.1 htimes
  obtain ⟨⟨c₃', g₃'⟩, h₃, htimes⟩ := Regex.mem_times_succ.1 htimes
  obtain ⟨rfl, rfl⟩ : c₃ = c₃' ∧ g₃ = g₃' := by simpa [Regex.times] using htimes
  obtain ⟨n₁, hn₁, hr₁, hp₁, -⟩ := mem_ends_octet.1 h₁
  obtain ⟨n₂, hn₂, hr₂, hp₂, -⟩ := mem_ends_octet.1 h₂
  obtain ⟨n₃, hn₃, hr₃, hp₃, -⟩ := mem_ends_octet.1 h₃
  obtain ⟨n₄, hn₄, hr₄, hp₄, -⟩ := mem_ends_digits.1 hlast
  dsimp only at hr₁ hr₂ hr₃ hr₄ hp₁ hp₂ hp₃ hp₄
  refine ⟨_, .mk hn₁ hn₂ hn₃ hn₄, ?_, ?_, g', hg⟩
  · rw [hr₁, hr₂, hr₃, hr₄]
    simp
  · rw [hp₄, hp₃, hp₂, hp₁]
    simp only [List.length_append, List.length_cons]
    omega

theorem exists_mem_ends_octet {ds : Bytes} (h : Digits 3 ds) (i : ℕ) (u : Bytes) (g : Groups) :
    ∃ j g', (⟨j, u⟩, g') ∈ octetRegex.ends (⟨i, ds ++ 46 :: u⟩, g) := by
  refine ⟨i + ds.length + 1, (2, i, i + ds.length + 1) :: g, ?_⟩
  exact mem_ends_octet.2 ⟨ds, h, rfl, rfl, rfl⟩

theorem exists_mem_ends_quad {q : Bytes} (h : Quad q) (i : ℕ) (u : Bytes) (g : Groups) :
    ∃ j g', (⟨j, u⟩, g') ∈ quadRegex.ends (⟨i, q ++ u⟩, g) := by
  cases h with
  | @mk n₁ n₂ n₃ n₄ h₁ h₂ h₃ h₄ =>
    obtain ⟨j₁, g₁, hm₁⟩ := exists_mem_ends_octet h₁ i (n₂ ++ 46 :: (n₃ ++ 46 :: (n₄ ++ u))) g
    obtain ⟨j₂, g₂, hm₂⟩ := exists_mem_ends_octet h₂ j₁ (n₃ ++ 46 :: (n₄ ++ u)) g₁
    obtain ⟨j₃, g₃, hm₃⟩ := exists_mem_ends_octet h₃ j₂ (n₄ ++ u) g₂
    have hm₄ : (⟨j₃ + n₄.length, u⟩, g₃) ∈ (Regex.rep digit 1 3).ends (⟨j₃, n₄ ++ u⟩, g₃) :=
      mem_ends_digits.2 ⟨n₄, h₄, rfl, rfl, rfl⟩
    simp only [List.append_assoc, List.cons_append]
    refine ⟨j₃ + n₄.length, (1, i, j₃ + n₄.length) :: g₃, ?_⟩
    refine Regex.mem_ends_group.2 ⟨g₃, Regex.mem_ends_seq.2 ⟨_, ?_, hm₄⟩, rfl⟩
    refine Regex.mem_ends_rep.2 ⟨3, Nat.le_refl _, Nat.le_refl _, ?_⟩
    refine Regex.mem_times_succ.2 ⟨_, hm₁, Regex.mem_times_succ.2 ⟨_, hm₂, ?_⟩⟩
    exact Regex.mem_times_succ.2 ⟨_, hm₃, by simp [Regex.times]⟩

end

theorem Digits.not_mem {k : ℕ} {ds : Bytes} (h : Digits k ds) {b : UInt8}
    (hb : isDigit b = false) : b ∉ ds := by
  intro hmem
  rw [h.digits b hmem] at hb
  exact Bool.noConfusion hb

theorem Quad.not_mem {q : Bytes} (h : Quad q) {b : UInt8} (hb : isDigit b = false)
    (hdot : b ≠ 46) : b ∉ q := by
  cases h with
  | mk h₁ h₂ h₃ h₄ =>
    simp [h₁.not_mem hb, h₂.not_mem hb, h₃.not_mem hb, h₄.not_mem hb, hdot]

theorem Quad.length_le {q : Bytes} (h : Quad q) : q.length ≤ 15 := by
  cases h with
  | mk h₁ h₂ h₃ h₄ =>
    have hlen₁ := h₁.length_le
    have hlen₂ := h₂.length_le
    have hlen₃ := h₃.length_le
    have hlen₄ := h₄.length_le
    simp only [List.length_append, List.length_cons]
    omega

/-- What a match gives: the texts before and after the slash, as groups 1 and 3. -/
theorem regexec_cidr {s : Bytes} {groups : Groups} (h : Regex.regexec cidrRegex s = some groups) :
    ∃ q p, Quad q ∧ Digits 2 p ∧ s = q ++ 47 :: p ∧ groups.lookup 1 = some (0, q.length) ∧
      groups.lookup 3 = some (q.length + 1, q.length + 1 + p.length) := by
  rw [cidrRegex, Regex.regexec_bol, Option.map_eq_some_iff] at h
  obtain ⟨⟨c₄, g₄⟩, hmem, rfl⟩ := h
  obtain ⟨⟨c₁, g₁⟩, hquad, hmem⟩ := Regex.mem_ends_seq.1 (Regex.mem_of_longest hmem)
  obtain ⟨⟨c₂, g₂⟩, hslash, hmem⟩ := Regex.mem_ends_seq.1 hmem
  obtain ⟨⟨c₃, g₃⟩, hlen, hend⟩ := Regex.mem_ends_seq.1 hmem
  obtain ⟨q, hq, hr₁, hp₁, g', hg₁⟩ := mem_ends_quad hquad
  obtain ⟨a, ha, hr₂, hp₂, hg₂⟩ := Regex.mem_ends_one.1 hslash
  obtain ⟨g'', hdigits, hg₃⟩ := Regex.mem_ends_group.1 hlen
  obtain ⟨p, hp, hr₃, hp₃, hg''⟩ := mem_ends_digits.1 hdigits
  obtain ⟨hnil, heq⟩ := Regex.mem_ends_eol.1 hend
  obtain ⟨rfl, rfl⟩ := Prod.mk.inj heq
  obtain rfl : a = 47 := by simpa using ha
  dsimp only at *
  refine ⟨q, p, hq, hp, ?_, ?_, ?_⟩
  · rw [hr₁, hr₂, hr₃, hnil, List.append_nil]
  · rw [hg₃, hg'', hg₂, hg₁, hp₁]
    simp [List.lookup_cons]
  · rw [hg₃, hp₃, hp₂, hp₁]
    simp [List.lookup_cons]

theorem regexec_cidr_isSome {q p : Bytes} (hq : Quad q) (hp : Digits 2 p) :
    (Regex.regexec cidrRegex (q ++ 47 :: p)).isSome := by
  rw [cidrRegex, Regex.regexec_bol, Option.isSome_map]
  apply Regex.longest_isSome
  obtain ⟨j, g, hquad⟩ := exists_mem_ends_quad hq 0 (47 :: p) []
  let groups : Groups := (3, j + 1, j + 1 + p.length) :: g
  have hslash : (⟨j + 1, p⟩, g) ∈ (Regex.one (· == 47)).ends (⟨j, 47 :: p⟩, g) :=
    Regex.mem_ends_one.2 ⟨47, rfl, rfl, rfl, rfl⟩
  have hdigits : (⟨j + 1 + p.length, []⟩, g) ∈ (Regex.rep digit 1 2).ends (⟨j + 1, p⟩, g) :=
    mem_ends_digits.2 ⟨p, hp, by simp, rfl, rfl⟩
  have hlen : (⟨j + 1 + p.length, []⟩, groups) ∈
      (Regex.group 3 (.rep digit 1 2)).ends (⟨j + 1, p⟩, g) :=
    Regex.mem_ends_group.2 ⟨g, hdigits, rfl⟩
  have hend : (⟨j + 1 + p.length, []⟩, groups) ∈
      Regex.eol.ends ((⟨j + 1 + p.length, []⟩ : Cursor UInt8), groups) :=
    Regex.mem_ends_eol.2 ⟨rfl, rfl⟩
  exact List.ne_nil_of_mem (Regex.mem_ends_seq.2 ⟨_, hquad, Regex.mem_ends_seq.2 ⟨_, hslash,
    Regex.mem_ends_seq.2 ⟨_, hlen, hend⟩⟩⟩)

/-! ## The grammar -/

/-- A matching text: both copies fit, and the two parts are read. -/
theorem parseCidr_of_match {q p : Bytes} (hq : Quad q) (hp : Digits 2 p) :
    parseCidr (q ++ 47 :: p) = parseNetwork q p := by
  obtain ⟨groups, hexec⟩ := Option.isSome_iff_exists.1 (regexec_cidr_isSome hq hp)
  obtain ⟨q', p', hq', hp', hs, hnetwork, hprefix⟩ := regexec_cidr hexec
  -- the slash cannot stand in the quad, so the text splits in one way only
  obtain ⟨rfl, -, rfl⟩ := (List.append_cons_inj_of_notMem (hq.not_mem (by decide) (by decide))
    (hp.not_mem (by decide))).1 hs
  have hqlen := hq.length_le
  have hplen := hp.length_le
  have hfirst : fromRegmatch 16 (some (0, q.length)) (q ++ 47 :: p) = some q := by
    rw [fromRegmatch, if_neg (by omega), List.drop_zero, Nat.sub_zero, List.take_left,
      cstr_eq_self (hq.not_mem (by decide) (by decide))]
  have hsecond : fromRegmatch 16 (some (q.length + 1, q.length + 1 + p.length))
      (q ++ 47 :: p) = some p := by
    rw [fromRegmatch, if_neg (by omega), Nat.add_sub_cancel_left, List.drop_append,
      List.drop_of_length_le (by omega), List.nil_append, Nat.add_sub_cancel_left, List.drop_one,
      List.tail_cons, List.take_length, cstr_eq_self (hp.not_mem (by decide))]
  rw [parseCidr, hexec]
  simp only [hnetwork, hprefix, hfirst, hsecond]

theorem parseCidr_of_no_match {s : Bytes} (h : ∀ q p, Quad q → Digits 2 p → s ≠ q ++ 47 :: p) :
    parseCidr s = ⟨some (.noMatch s), none, none⟩ := by
  cases hexec : Regex.regexec cidrRegex s with
  | none => rw [parseCidr, hexec]
  | some groups =>
    obtain ⟨q, p, hq, hp, hs, -⟩ := regexec_cidr hexec
    exact absurd hs (h q p hq hp)

/-- `strtoul` on the prefix: no error, and the value fits into an `int`. -/
theorem strtoul_prefix {p : Bytes} (hp : Digits 2 p) :
    strtoul p = ⟨readDecimal p, [], false⟩ ∧ wrapInt (readDecimal p) = readDecimal p := by
  have hlt : readDecimal p < 10 ^ 2 := readDecimal_lt hp.digits hp.length_le
  constructor
  · rw [strtoul, readNumeral_digits hp.ne_nil hp.digits]
    have hmax : ¬ ulongMax < readDecimal p := by
      unfold ulongMax
      omega
    simp only [hmax, if_false, Bool.false_eq_true]
  · apply wrapInt_of_isInt
    unfold IsInt intMin intMax
    omega

/-- `a.b.c.d/p`, with the address `x` and the text `p` of the prefix: the numerals have no
    superfluous zeros, the prefix is between 1 and 25 and may start with a zero, and the bits
    of the address behind the prefix are zero. -/
structure CidrText (s : Bytes) (x : InAddr) (p : Bytes) : Prop where
  text : s = decimal x.a.toNat ++ 46 :: (decimal x.b.toNat ++ 46 :: (decimal x.c.toNat ++
    46 :: decimal x.d.toNat)) ++ 47 :: p
  digits : Digits 2 p
  one_le : 1 ≤ readDecimal p
  le : readDecimal p ≤ 25
  host : x.number % 2 ^ (32 - readDecimal p) = 0

theorem digits_decimal (b : UInt8) : Digits 3 (decimal b.toNat) := by
  have hlt : b.toNat < 256 := b.toNat_lt
  exact ⟨decimal_ne_nil _, decimal_length_le (by decide) (by omega), decimal_isDigit⟩

theorem quad_text (x : InAddr) : Quad x.text := by
  rw [x.text_eq]
  exact .mk (digits_decimal _) (digits_decimal _) (digits_decimal _) (digits_decimal _)

/-- The mask of a prefix of length `n`. -/
def prefixMask (n : ℕ) : InAddr := htonl (maskFrom (32 - n))

theorem getLsbD_prefixMask {n i : ℕ} (hn : 1 ≤ n) (hi : i < 32) :
    (prefixMask n).ntohl.getLsbD i = decide (32 - n ≤ i) := by
  rw [prefixMask, ntohl_htonl, getLsbD_maskFrom (by omega) hi]

theorem and_prefixMask_iff {n : ℕ} (hn : 1 ≤ n) (x : InAddr) :
    x.and (prefixMask n) = x ↔ x.number % 2 ^ (32 - n) = 0 := by
  rw [← x.toNat_ntohl, ← and_maskFrom_iff (by omega)]
  constructor
  · intro h
    rw [← ntohl_htonl (maskFrom (32 - n)), ← InAddr.ntohl_and]
    exact congrArg InAddr.ntohl h
  · intro h
    apply InAddr.ntohl_injective
    rw [InAddr.ntohl_and, prefixMask, ntohl_htonl, h]

/-- What is left of `parse_cidr` for a matching text, in terms of the numbers. -/
theorem parseNetwork_of_digits {p : Bytes} (hp : Digits 2 p) (q : Bytes) : parseNetwork q p =
    match inetPton q with
    | none => ⟨some (.badNetwork q), none, none⟩
    | some x =>
      if readDecimal p < 1 ∨ 25 < readDecimal p then ⟨some .prefixRange, some x, none⟩
      else if x.number % 2 ^ (32 - readDecimal p) ≠ 0 then
        ⟨some .notNetwork, some x, some (prefixMask (readDecimal p))⟩
      else ⟨none, some x, some (prefixMask (readDecimal p))⟩ := by
  obtain ⟨hstrtoul, hwrap⟩ := strtoul_prefix hp
  cases hx : inetPton q with
  | none => simp only [parseNetwork, hx]
  | some x =>
    have hlen : (32 - (readDecimal p : ℤ)).toNat = 32 - readDecimal p := by omega
    have hmask : htonl (maskFrom (32 - (readDecimal p : ℤ)).toNat) = prefixMask (readDecimal p) :=
      congrArg (fun k => htonl (maskFrom k)) hlen
    simp only [parseNetwork, hx, hstrtoul, hwrap, hmask, networkPrefixMin, networkPrefixMax,
      Bool.false_eq_true, if_false]
    by_cases hrange : readDecimal p < 1 ∨ 25 < readDecimal p
    · rw [if_pos (by omega), if_pos hrange]
    · have hhost := and_prefixMask_iff (show 1 ≤ readDecimal p by omega) x
      rw [if_neg (by omega), if_neg hrange]
      exact if_congr (not_congr hhost) rfl rfl

/-- A text of the grammar is accepted. -/
theorem CidrText.parseCidr {s p : Bytes} {x : InAddr} (h : CidrText s x p) :
    parseCidr s = ⟨none, some x, some (prefixMask (readDecimal p))⟩ := by
  have hone := h.one_le
  have hle := h.le
  rw [h.text, ← x.text_eq, parseCidr_of_match (quad_text x) h.digits,
    parseNetwork_of_digits h.digits, inetPton_text]
  dsimp only
  rw [if_neg (by omega), if_neg (by simpa using h.host)]

/-- An accepted text is one of the grammar, and the errors are the five that can occur. -/
theorem parseCidr_cases (s : Bytes) : (∃ x p, CidrText s x p) ∨
    (∃ e, (parseCidr s).error = some e ∧ ∀ t, e ≠ .networkTooLong t ∧ e ≠ .prefixTooLong t ∧
      e ≠ .prefixErrno t) := by
  by_cases hmatch : ∃ q p, Quad q ∧ Digits 2 p ∧ s = q ++ 47 :: p
  · obtain ⟨q, p, hq, hp, rfl⟩ := hmatch
    rw [parseCidr_of_match hq hp, parseNetwork_of_digits hp]
    split
    · right
      exact ⟨_, rfl, by simp⟩
    · next x hx =>
      split
      · right
        exact ⟨_, rfl, by simp⟩
      · next hrange =>
        split
        · right
          exact ⟨_, rfl, by simp⟩
        · next hhost =>
          left
          have htext := inetPton_eq_some.1 hx
          exact ⟨x, p, by rw [htext, x.text_eq], hp, by omega, by omega, by simpa using hhost⟩
  · right
    have hno : ∀ q p, Quad q → Digits 2 p → s ≠ q ++ 47 :: p := fun q p hq hp hs =>
      hmatch ⟨q, p, hq, hp, hs⟩
    rw [parseCidr_of_no_match hno]
    exact ⟨_, rfl, by simp⟩

/-- **`parse_cidr` accepts exactly its grammar**: the result is 0 for the texts of the grammar
    only; then the network is the address of the text and the mask has exactly the top bits of the
    prefix; and a copy that does not fit and an error of `strtoul` do not occur. -/
theorem parseCidr_grammar (s : Bytes) :
    ((parseCidr s).rc = 0 ↔ ∃ x p, CidrText s x p) ∧
      (∀ x p, CidrText s x p → (parseCidr s).network = some x ∧
        ∃ m, (parseCidr s).netmask = some m ∧
          ∀ i < 32, m.ntohl.getLsbD i = decide (32 - readDecimal p ≤ i)) ∧
      ∀ t, (parseCidr s).error ≠ some (.networkTooLong t) ∧
        (parseCidr s).error ≠ some (.prefixTooLong t) ∧
        (parseCidr s).error ≠ some (.prefixErrno t) := by
  refine ⟨⟨?_, ?_⟩, ?_, ?_⟩
  · intro hrc
    rcases parseCidr_cases s with h | ⟨e, he, -⟩
    · exact h
    · simp [ParsedCidr.rc, he] at hrc
  · rintro ⟨x, p, h⟩
    rw [h.parseCidr]
    rfl
  · intro x p h
    rw [h.parseCidr]
    exact ⟨rfl, _, rfl, fun i hi => getLsbD_prefixMask h.one_le hi⟩
  · intro t
    rcases parseCidr_cases s with ⟨x, p, h⟩ | ⟨e, he, hne⟩
    · rw [h.parseCidr]
      simp
    · rw [he]
      simpa using hne t

/-- The default network. -/
theorem parseCidr_grammar_default : CidrText (bytes "10.0.2.0/24") ⟨10, 0, 2, 0⟩ (bytes "24") ∧
    (parseCidr (bytes "10.0.2.0/24")).rc = 0 := by
  have h : CidrText (bytes "10.0.2.0/24") ⟨10, 0, 2, 0⟩ (bytes "24") :=
    ⟨by decide +kernel, ⟨by decide, by decide, by decide +kernel⟩, by decide +kernel,
      by decide +kernel, by decide +kernel⟩
  exact ⟨h, (parseCidr_grammar _).1.2 ⟨_, _, h⟩⟩

end Slirp4netns
