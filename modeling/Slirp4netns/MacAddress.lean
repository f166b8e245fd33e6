/-
  slirp4netns formalization — `--macaddress`
  (`slirp4netns_macaddr_hexstring_to_data` in `main.c`).

  The loop reads a number with `sscanf("%x")` at the start of the text and after
  each colon, so that what it accepts is given by the groups between the colons:
  up to six of them, each starting with something that is read as a number from 0
  to 255 (`macaddrHexstringToData_ok`).

  * `macaddress_strict`: the texts for which this is more than an address.
  * `macaddrWalk` is the loop with its two pointers and the stores that it makes;
    `macaddrWalk_eq` relates it to the loop over groups, and `macaddr_stores` says
    that bytes are read back as they were written and that no store is out of
    bounds.
-/
import Slirp4netns.Config
import Slirp4netns.Numerals

namespace Slirp4netns

/-! ## Hexadecimal numbers -/

/-- The value of hexadecimal digits. -/
def hexValue (ds : Bytes) : ℕ := ds.foldl (fun n c => 16 * n + (hexCharToInt c).getD 0) 0

/-- What a `%x` stores in an `int`: `strtoul` gives `ULONG_MAX` for what is too large. -/
def hexTemp (neg : Bool) (n : ℕ) : ℤ :=
  wrapInt (if (n : ℤ) > ulongMax then ulongMax else if neg then -n else n)

section
variable {s t g : Bytes}

theorem scanHex_eq (s : Bytes) : scanHex s =
    let signed := readSign (s.dropWhile isSpace)
    let ds := (dropHexMark signed.2).takeWhile isHexDigit
    if ds = [] then none else some (hexTemp signed.1 (hexValue ds)) := by
  have hvalue : ∀ ds : Bytes, ((ds.map hexCharToInt).foldl
      (fun (n : ℤ) d => 16 * n + (d.getD 0 : ℕ)) 0) = (hexValue ds : ℤ) := by
    intro ds
    rw [List.foldl_map, hexValue]
    exact (List.foldl_hom (fun n : ℕ => (n : ℤ)) fun n c => by push_cast; rfl)
  simp only [scanHex, List.takeWhile_map, List.map_eq_nil_iff, hvalue]
  rfl

/-- A colon ends what is read. -/
theorem scanHex_colon (g t : Bytes) : scanHex (g ++ 58 :: t) = scanHex g := by
  have hspace : (g ++ 58 :: t).dropWhile isSpace = g.dropWhile isSpace ++ 58 :: t := by
    rw [List.dropWhile_append]
    split
    · next hnil => rw [List.isEmpty_iff.1 hnil]; rfl
    · rfl
  have hsign : ∀ u : Bytes,
      readSign (u ++ 58 :: t) = ((readSign u).1, (readSign u).2 ++ 58 :: t) := by
    intro u
    cases u with
    | nil => rfl
    | cons c u =>
      simp only [List.cons_append, readSign]
      split_ifs <;> rfl
  have hmark : ∀ u : Bytes, dropHexMark (u ++ 58 :: t) = dropHexMark u ++ 58 :: t := by
    intro u
    rcases u with _ | ⟨c, _ | ⟨d, u⟩⟩
    · simp [dropHexMark]
    · by_cases hc : c = 48 <;> simp [dropHexMark, hc]
    · by_cases hc : c = 48
      · simp only [hc, List.cons_append, dropHexMark]
        split_ifs <;> rfl
      · simp [dropHexMark, hc]
  have hdigits : ∀ u : Bytes, (u ++ 58 :: t).takeWhile isHexDigit = u.takeWhile isHexDigit := by
    intro u
    rw [List.takeWhile_append]
    split
    · next hall =>
      have hu : u.takeWhile isHexDigit = u := (List.takeWhile_prefix _).eq_of_length hall
      rw [hu]
      simp [isHexDigit, hexCharToInt]
    · rfl
  simp only [scanHex_eq, hspace, hsign, hmark, hdigits]

/-! ## Groups -/

/-- The text up to the first colon, and what follows it. -/
theorem afterColon_cases (s : Bytes) : (58 ∉ s ∧ afterColon s = none) ∨
    ∃ g t, 58 ∉ g ∧ s = g ++ 58 :: t ∧ afterColon s = some t := by
  have hsplit := @List.takeWhile_append_dropWhile _ (· != 58) s
  have hgroup : 58 ∉ s.takeWhile (· != 58) := by
    intro hmem
    simpa using List.mem_takeWhile_imp hmem
  rw [afterColon]
  cases hrest : s.dropWhile (· != 58) with
  | nil =>
    rw [hrest, List.append_nil] at hsplit
    exact .inl ⟨hsplit ▸ hgroup, rfl⟩
  | cons c t =>
    have hc : (c != 58) = false := by
      have hhead := List.head?_dropWhile_not (· != 58) s
      rw [hrest] at hhead
      simpa using hhead
    obtain rfl : c = 58 := by simpa using hc
    exact .inr ⟨_, t, hgroup, by rw [← hrest, hsplit], rfl⟩

/-- Every text is a last group, or a group with a colon before another text. -/
theorem colon_induction {P : Bytes → Prop} (last : ∀ g, 58 ∉ g → P g)
    (cons : ∀ g t, 58 ∉ g → P t → P (g ++ 58 :: t)) (s : Bytes) : P s := by
  rcases afterColon_cases s with ⟨hno, -⟩ | ⟨g, t, hg, hs, -⟩
  · exact last s hno
  · have hlt : t.length < s.length := by
      rw [hs, List.length_append, List.length_cons]
      omega
    rw [hs]
    exact cons g t hg (colon_induction last cons t)
termination_by s.length

theorem colon_notMem_of_mem_splitOn (s : Bytes) : ∀ g ∈ s.splitOn 58, 58 ∉ g := by
  induction s using colon_induction with
  | last g hg => simpa [List.splitOn_eq_singleton hg] using hg
  | cons g t hg ih => simpa [List.splitOn_append_cons_self_of_not_mem hg, hg] using ih

/-- The number that a group is read as, if it fits into a byte. -/
def ReadsByte (g : Bytes) (b : UInt8) : Prop :=
  ∃ temp, scanHex g = some temp ∧ 0 ≤ temp ∧ temp ≤ 255 ∧ b = UInt8.ofNat temp.toNat

theorem readsByte_colon {b : UInt8} : ReadsByte (g ++ 58 :: t) b ↔ ReadsByte g b := by
  rw [ReadsByte, scanHex_colon]
  rfl

/-- One round of the loop. -/
theorem macaddrLoop_succ {macaddr : Bytes} {n : ℕ} {data : List UInt8} :
    macaddrLoop macaddr (n + 1) s = .ok data ↔ ∃ b, ReadsByte s b ∧
      ((afterColon s = none ∧ data = [b]) ∨ ∃ t rest, afterColon s = some t ∧
        macaddrLoop macaddr n t = .ok rest ∧ data = b :: rest) := by
  rw [macaddrLoop]
  cases hscan : scanHex s with
  | none => simp [ReadsByte, hscan]
  | some temp =>
    by_cases hrange : temp < 0 ∨ temp > 255
    · simp only [hrange, if_true]
      constructor
      · intro h
        cases h
      · rintro ⟨b, ⟨temp', htemp', hmin, hmax, -⟩, -⟩
        rw [hscan] at htemp'
        cases htemp'
        omega
    · have hreads : ∀ b, ReadsByte s b ↔ b = UInt8.ofNat temp.toNat := by
        intro b
        constructor
        · rintro ⟨temp', htemp', -, -, rfl⟩
          rw [hscan] at htemp'
          cases htemp'
          rfl
        · rintro rfl
          exact ⟨temp, hscan, by omega, by omega, rfl⟩
      simp only [hrange, if_false, hreads, exists_eq_left]
      cases afterColon s with
      | none => simp [eq_comm]
      | some t =>
        simp only [Except.bind_eq_ok]
        constructor
        · rintro ⟨rest, hrest, h⟩
          cases h
          exact .inr ⟨t, rest, rfl, hrest, rfl⟩
        · rintro (⟨⟨⟩, -⟩ | ⟨t', rest, ht', hrest, rfl⟩)
          cases ht'
          exact ⟨rest, hrest, rfl⟩

/-- The loop reads the groups one after the other. -/
theorem macaddrLoop_ok {macaddr : Bytes} {n : ℕ} {data : List UInt8} :
    macaddrLoop macaddr n s = .ok data ↔
      (s.splitOn 58).length ≤ n ∧ List.Forall₂ ReadsByte (s.splitOn 58) data := by
  induction n generalizing s data with
  | zero =>
    have hpos : 0 < (s.splitOn 58).length := List.length_pos_iff.2 (List.splitOn_ne_nil _ _)
    constructor
    · intro h
      cases h
    · rintro ⟨hle, -⟩
      omega
  | succ n ih =>
    rw [macaddrLoop_succ]
    rcases afterColon_cases s with ⟨hno, hafter⟩ | ⟨g, t, hg, rfl, hafter⟩
    · rw [hafter, List.splitOn_eq_singleton hno, List.forall₂_cons_left_iff]
      constructor
      · rintro ⟨b, hb, ⟨-, rfl⟩ | ⟨t, rest, ⟨⟩, -⟩⟩
        exact ⟨by simp, b, [], hb, .nil, rfl⟩
      · rintro ⟨-, b, rest, hb, hrest, rfl⟩
        cases hrest
        exact ⟨b, hb, .inl ⟨rfl, rfl⟩⟩
    · rw [hafter, List.splitOn_append_cons_self_of_not_mem hg, List.forall₂_cons_left_iff,
        List.length_cons, Nat.succ_le_succ_iff]
      constructor
      · rintro ⟨b, hb, ⟨⟨⟩, -⟩ | ⟨t', rest, ht', hrest, rfl⟩⟩
        cases ht'
        obtain ⟨hle, hbytes⟩ := ih.1 hrest
        exact ⟨hle, b, rest, readsByte_colon.1 hb, hbytes, rfl⟩
      · rintro ⟨hle, b, rest, hb, hbytes, rfl⟩
        exact ⟨b, readsByte_colon.2 hb, .inr ⟨t, rest, rfl, ih.2 ⟨hle, hbytes⟩, rfl⟩⟩

theorem macaddrHexstringToData_ok {data : List UInt8} : macaddrHexstringToData s = .ok data ↔
    (s.splitOn 58).length ≤ 6 ∧ List.Forall₂ ReadsByte (s.splitOn 58) data :=
  macaddrLoop_ok

end

/-! ## Well-formed addresses -/

/-- One or two hexadecimal digits. -/
structure HexPair (g : Bytes) : Prop where
  ne_nil : g ≠ []
  length_le : g.length ≤ 2
  digits : ∀ c ∈ g, isHexDigit c = true

/-- Six groups of one or two digits with colons between them. -/
def MacText (s : Bytes) : Prop :=
  ∃ groups : List Bytes, groups.length = 6 ∧ (∀ g ∈ groups, HexPair g) ∧
    s = [58].intercalate groups

section
variable {s g : Bytes}

theorem HexPair.colon_notMem (h : HexPair g) : 58 ∉ g := by
  intro hmem
  exact absurd (h.digits 58 hmem) (by decide)

theorem HexPair.hexValue_lt (h : HexPair g) : hexValue g < 256 := by
  have hdigit : ∀ c, (hexCharToInt c).getD 0 < 16 := forall_byte (by decide +kernel)
  obtain ⟨hne, hle, -⟩ := h
  rcases g with _ | ⟨c, _ | ⟨d, _ | ⟨e, g⟩⟩⟩
  · exact absurd rfl hne
  · have hc := hdigit c
    simp only [hexValue, List.foldl_cons, List.foldl_nil]
    omega
  · have hc := hdigit c
    have hd := hdigit d
    simp only [hexValue, List.foldl_cons, List.foldl_nil]
    omega
  · simp at hle

/-- Digits are read as they are: no space, sign or `0x` is among them. -/
theorem HexPair.scanHex (h : HexPair g) : scanHex g = some (hexValue g : ℤ) := by
  have hplain : ∀ c, isHexDigit c = true →
      isSpace c = false ∧ c ≠ 45 ∧ c ≠ 43 ∧ ¬ (c = 120 ∨ c = 88) := forall_byte (by decide +kernel)
  have hmark : dropHexMark g = g := by
    unfold dropHexMark
    split
    · next _ c t => rw [if_neg (hplain c (h.digits c (by simp))).2.2.2]
    · rfl
  have htake : g.takeWhile isHexDigit = g := List.takeWhile_eq_self_iff.2 h.digits
  have hsign : readSign (g.dropWhile isSpace) = (false, g) := by
    obtain ⟨c, t, rfl⟩ := List.exists_cons_of_ne_nil h.ne_nil
    obtain ⟨hspace, hminus, hplus, -⟩ := hplain c (h.digits c (by simp))
    rw [List.dropWhile_cons_of_neg (by simp [hspace]), readSign, if_neg hminus, if_neg hplus]
  have hlt := h.hexValue_lt
  have htemp : hexTemp false (hexValue g) = hexValue g := by
    rw [hexTemp, if_neg (by unfold ulongMax; omega), if_neg (by decide)]
    apply wrapInt_of_isInt
    unfold IsInt intMin intMax
    omega
  simp only [scanHex_eq, hsign, hmark, htake, if_neg h.ne_nil, htemp]

/-- A pair of digits is read as the byte that it writes, and as no other. -/
theorem HexPair.readsByte_iff (h : HexPair g) {b : UInt8} :
    ReadsByte g b ↔ hexValue g = b.toNat := by
  have hlt := h.hexValue_lt
  constructor
  · rintro ⟨temp, htemp, -, -, rfl⟩
    rw [h.scanHex] at htemp
    cases htemp
    simp [Nat.mod_eq_of_lt hlt]
  · intro hb
    refine ⟨_, h.scanHex, by omega, by omega, ?_⟩
    rw [Int.toNat_natCast, hb, UInt8.ofNat_toNat]

theorem MacText.splitOn (h : MacText s) : (s.splitOn 58).length = 6 ∧
    ∀ g ∈ s.splitOn 58, HexPair g := by
  obtain ⟨groups, hlen, hgroups, rfl⟩ := h
  have hne : groups ≠ [] := by
    rintro rfl
    cases hlen
  rw [List.splitOn_intercalate 58 (fun g hg => (hgroups g hg).colon_notMem) hne]
  exact ⟨hlen, hgroups⟩

end

/-! ## What is accepted -/

/-- The digits that `strtoul` reads in base 16: a `0x` is skipped if a digit follows it. -/
def hexDigitsOf : Bytes → Bytes
  | 48 :: x :: u =>
    if (x = 120 ∨ x = 88) ∧ u.takeWhile isHexDigit ≠ [] then u.takeWhile isHexDigit
    else (48 :: x :: u).takeWhile isHexDigit
  | t => t.takeWhile isHexDigit

/-- A text that starts with a number as `strtoul` reads it in base 16, and that number; anything may
    follow the digits. -/
inductive HexStart : Bytes → ℤ → Prop
  | unsigned {ws t : Bytes} (hws : ∀ c ∈ ws, isSpace c = true) (ht : hexDigitsOf t ≠ []) :
      HexStart (ws ++ t) (hexValue (hexDigitsOf t))
  | plus {ws t : Bytes} (hws : ∀ c ∈ ws, isSpace c = true) (ht : hexDigitsOf t ≠ []) :
      HexStart (ws ++ 43 :: t) (hexValue (hexDigitsOf t))
  | minus {ws t : Bytes} (hws : ∀ c ∈ ws, isSpace c = true) (ht : hexDigitsOf t ≠ []) :
      HexStart (ws ++ 45 :: t) (-hexValue (hexDigitsOf t))

/-- A group that starts with a number of 64 bits whose low 32 bits are a number up to 255. -/
def LooseByte (g : Bytes) : Prop :=
  ∃ n, HexStart g n ∧ (n.natAbs : ℤ) ≤ ulongMax ∧ 0 ≤ wrapInt n ∧ wrapInt n ≤ 255

/-- One to six such groups with colons between them. -/
def LooseMac (s : Bytes) : Prop :=
  ∃ groups : List Bytes, groups ≠ [] ∧ groups.length ≤ 6 ∧ (∀ g ∈ groups, 58 ∉ g ∧ LooseByte g) ∧
    s = [58].intercalate groups

section
variable {s t g ws : Bytes} {n temp : ℤ}

/-- To drop the `x` of `0x` gives the same number as to drop both. -/
theorem hexDigitsOf_dropHexMark (t : Bytes) :
    ((dropHexMark t).takeWhile isHexDigit = [] ↔ hexDigitsOf t = []) ∧
      hexValue ((dropHexMark t).takeWhile isHexDigit) = hexValue (hexDigitsOf t) := by
  have hzero : isHexDigit 48 = true := by decide
  have hx : ∀ x, x = 120 ∨ x = 88 → isHexDigit x = false := forall_byte (by decide +kernel)
  unfold dropHexMark hexDigitsOf
  split
  · next x u =>
    by_cases hmark : x = 120 ∨ x = 88
    · by_cases hu : u.takeWhile isHexDigit = []
      · simp [hmark, hu, hzero, hx x hmark]
      · have hvalue : hexValue (48 :: u.takeWhile isHexDigit) = hexValue (u.takeWhile isHexDigit) :=
          rfl
        simp [hmark, hu, hzero, hvalue]
    · simp [hmark]
  · simp

theorem exists_cons_of_hexDigitsOf (h : hexDigitsOf t ≠ []) :
    ∃ c u, t = c :: u ∧ isHexDigit c = true := by
  cases t with
  | nil => exact absurd rfl h
  | cons c u =>
    refine ⟨c, u, rfl, ?_⟩
    by_contra hc
    apply h
    have hne : c ≠ 48 := by
      rintro rfl
      exact hc (by decide)
    unfold hexDigitsOf
    split
    · next heq => exact absurd (List.cons.inj heq).1 hne
    · rw [List.takeWhile_cons_of_neg hc]

theorem HexStart.readSign (h : HexStart g n) : ∃ neg t, readSign (g.dropWhile isSpace) = (neg, t) ∧
    hexDigitsOf t ≠ [] ∧
    n = if neg then -(hexValue (hexDigitsOf t) : ℤ) else hexValue (hexDigitsOf t) := by
  have hplain : ∀ c, isHexDigit c = true → isSpace c = false ∧ c ≠ 45 ∧ c ≠ 43 :=
    forall_byte (by decide +kernel)
  cases h with
  | @unsigned ws t hws ht =>
    obtain ⟨c, u, rfl, hc⟩ := exists_cons_of_hexDigitsOf ht
    obtain ⟨hspace, hminus, hplus⟩ := hplain c hc
    refine ⟨false, _, ?_, ht, rfl⟩
    rw [dropWhile_isSpace hws hspace, Slirp4netns.readSign, if_neg hminus, if_neg hplus]
  | plus hws ht =>
    refine ⟨false, _, ?_, ht, rfl⟩
    rw [dropWhile_isSpace hws (by decide)]
    rfl
  | minus hws ht =>
    refine ⟨true, _, ?_, ht, rfl⟩
    rw [dropWhile_isSpace hws (by decide)]
    rfl

theorem hexStart_of_readSign {neg : Bool} (hsign : readSign (g.dropWhile isSpace) = (neg, t))
    (ht : hexDigitsOf t ≠ []) :
    HexStart g (if neg then -(hexValue (hexDigitsOf t) : ℤ) else hexValue (hexDigitsOf t)) := by
  have hws : ∀ c ∈ g.takeWhile isSpace, isSpace c = true := fun c => List.mem_takeWhile_imp
  rw [← @List.takeWhile_append_dropWhile _ isSpace g]
  rcases readSign_cases (g.dropWhile isSpace) with h | ⟨u, hu, h⟩ | ⟨u, hu, h⟩
  · rw [h] at hsign
    cases hsign
    exact .unsigned hws ht
  · rw [h] at hsign
    cases hsign
    rw [hu]
    exact .plus hws ht
  · rw [h] at hsign
    cases hsign
    rw [hu]
    exact .minus hws ht

/-- `sscanf` reads what `strtoul` reads. -/
theorem scanHex_iff : scanHex g = some temp ↔ ∃ n, HexStart g n ∧
    temp = wrapInt (if (n.natAbs : ℤ) > ulongMax then ulongMax else n) := by
  have htemp : ∀ neg m, hexTemp neg m = wrapInt (
      if ((if neg then -(m : ℤ) else m).natAbs : ℤ) > ulongMax then ulongMax
      else if neg then -(m : ℤ) else m) := by
    intro neg m
    cases neg <;> simp [hexTemp]
  rw [scanHex_eq]
  dsimp only
  constructor
  · rcases hsign : readSign (g.dropWhile isSpace) with ⟨neg, t⟩
    obtain ⟨hnil, hvalue⟩ := hexDigitsOf_dropHexMark t
    intro h
    split at h
    · cases h
    · next hne =>
      refine ⟨_, hexStart_of_readSign hsign (fun h => hne (hnil.2 h)), ?_⟩
      rw [← htemp, ← hvalue]
      exact (Option.some.inj h).symm
  · rintro ⟨n, hn, rfl⟩
    obtain ⟨neg, t, hsign, ht, rfl⟩ := hn.readSign
    obtain ⟨hnil, hvalue⟩ := hexDigitsOf_dropHexMark t
    rw [hsign, if_neg (fun h => ht (hnil.1 h)), hvalue, htemp]

theorem exists_readsByte_iff : (∃ b, ReadsByte g b) ↔ LooseByte g := by
  have hmax : wrapInt ulongMax = -1 := by decide
  constructor
  · rintro ⟨b, temp, htemp, hmin, hle, -⟩
    obtain ⟨n, hn, rfl⟩ := scanHex_iff.1 htemp
    split at hmin
    · rw [hmax] at hmin
      omega
    · next hlong =>
      rw [if_neg hlong] at hle
      exact ⟨n, hn, by omega, hmin, hle⟩
  · rintro ⟨n, hn, hlong, hmin, hle⟩
    exact ⟨_, wrapInt n, scanHex_iff.2 ⟨n, hn, by rw [if_neg (by omega)]⟩, hmin, hle, rfl⟩

theorem exists_forall₂_iff {α β : Type} {R : α → β → Prop} {l : List α} :
    (∃ l', List.Forall₂ R l l') ↔ ∀ a ∈ l, ∃ b, R a b := by
  induction l with
  | nil => simp
  | cons a l ih =>
    rw [List.forall_mem_cons, ← ih]
    constructor
    · rintro ⟨_, ha⟩
      obtain ⟨b, l', hb, hl', rfl⟩ := List.forall₂_cons_left_iff.1 ha
      exact ⟨⟨b, hb⟩, l', hl'⟩
    · rintro ⟨⟨b, hb⟩, l', hl'⟩
      exact ⟨b :: l', .cons hb hl'⟩

theorem exists_macaddr_iff : (∃ data, macaddrHexstringToData s = .ok data) ↔ LooseMac s := by
  simp only [macaddrHexstringToData_ok, exists_and_left, exists_forall₂_iff, exists_readsByte_iff]
  constructor
  · rintro ⟨hlen, hbytes⟩
    exact ⟨s.splitOn 58, List.splitOn_ne_nil _ _, hlen,
      fun g hg => ⟨colon_notMem_of_mem_splitOn s g hg, hbytes g hg⟩,
      (List.intercalate_splitOn 58).symm⟩
  · rintro ⟨groups, hne, hlen, hgroups, rfl⟩
    rw [List.splitOn_intercalate 58 (fun g hg => (hgroups g hg).1) hne]
    exact ⟨hlen, fun g hg => (hgroups g hg).2⟩

end

/-- What `--macaddress` is expected to take: six bytes, each written as a pair of digits. -/
def StrictLaw (s : Bytes) : Prop :=
  ∀ env opt cfg cfg', configFromOptions env opt cfg = .ok cfg' → opt.macaddress = some s →
    MacText s ∧ cfg'.vmacaddressLen = 6

/-- The address of a configuration. -/
theorem vmacaddress_of_ok {env : ConfigEnv} {opt : Options} {cfg cfg' : Config} {s : Bytes}
    (h : configFromOptions env opt cfg = .ok cfg') (hs : opt.macaddress = some s) :
    ∃ data, macaddrHexstringToData s = .ok data ∧ cfg'.vmacaddressLen = data.length ∧
      cfg'.vmacaddress = ⟨afLocal, saData data⟩ := by
  obtain ⟨haccepted, network, netmask, -, rfl⟩ := configFromOptions_ok.1 h
  obtain ⟨data, hdata⟩ := haccepted.macaddress s hs
  have hmac : macaddr? opt = some data := by
    rw [macaddr?, hs, Option.bind_some, hdata]
    rfl
  rw [filled, hmac]
  exact ⟨data, hdata, rfl, rfl⟩

/-- **The texts that `--macaddress` takes although they are no address**: those that are one to six
    groups with a number of a byte at the start of each, and are not six pairs of digits. -/
theorem macaddress_strict (s : Bytes) : StrictLaw s ↔ MacText s ∨ ¬ LooseMac s := by
  constructor
  · intro hlaw
    rw [or_iff_not_imp_right, not_not]
    intro hloose
    -- with the default network and no other options the address decides
    let opt : Options := { Options.init with macaddress := some s }
    have haccepted : Accepted ⟨6, fun _ => none, fun _ => none, some []⟩ opt := by
      have hcidr : (parseCidr defaultCidr).error = none := by decide +kernel
      refine ⟨hcidr, nofun, nofun, nofun, ?_⟩
      rintro _ ⟨⟩
      exact exists_macaddr_iff.2 hloose
    obtain ⟨cfg', hok⟩ := haccepted.exists_config (.stack 0)
    exact (hlaw _ opt _ _ hok rfl).1
  · rintro hs env opt cfg cfg' hok hopt
    obtain ⟨data, hdata, hlen, -⟩ := vmacaddress_of_ok hok hopt
    rcases hs with htext | hno
    · have hgroups := (macaddrHexstringToData_ok.1 hdata).2.length_eq
      rw [htext.splitOn.1] at hgroups
      exact ⟨htext, by rw [hlen, hgroups]⟩
    · exact absurd (exists_macaddr_iff.1 ⟨data, hdata⟩) hno

/-- `-c --macaddress=1 42 tap0` gives an address of one byte, and
    `-c --macaddress="-fffffff6: 0X1z:100000002" 42 tap0` one of three. -/
theorem macaddress_junk :
    (∃ opt cfg, parseArgs (fun _ => true)
        ⟨[.configure, .macaddress (bytes "1")], [bytes "42", bytes "tap0"]⟩ = .ok opt ∧
      configFromOptions ⟨6, fun _ => none, fun _ => none, some []⟩ opt (.stack 0) = .ok cfg ∧
      cfg.vmacaddressLen = 1) ∧
    ∃ opt cfg, parseArgs (fun _ => true)
        ⟨[.configure, .macaddress (bytes "-fffffff6: 0X1z:100000002")],
          [bytes "42", bytes "tap0"]⟩ = .ok opt ∧
      configFromOptions ⟨6, fun _ => none, fun _ => none, some []⟩ opt (.stack 0) = .ok cfg ∧
      cfg.vmacaddressLen = 3 ∧ cfg.vmacaddress = ⟨afLocal, saData [10, 1, 2]⟩ := by
  exact ⟨⟨_, _, rfl, rfl, rfl⟩, _, _, rfl, rfl, rfl, rfl⟩

/-! ## The loop with its pointers -/

/-- `strchr(s + p, ':')`, as an offset from `s`. -/
def strchrColon (s : Bytes) (p : ℕ) : Option ℕ :=
  ((s.drop p).findIdx? (· == 58)).map (p + ·)

/-- What a call of `slirp4netns_macaddr_hexstring_to_data` stores, by the index in `data`, and what
    it returns. -/
structure MacStores where
  stores : List (ℕ × Int8)
  rc : ℤ
  deriving DecidableEq

/-- The loop, from its condition on: `ptr` is `macaddr_ptr - macaddr`, or `none` for `NULL`, and `i`
    is `data_ptr - data`.  The step over the colon is made at the start of a round, unless the
    pointer is still at the start of the text. -/
def macaddrWalk (macaddr : Bytes) (ptr : Option ℕ) (i : ℕ) : MacStores :=
  match ptr with
  | none => ⟨[], i⟩
  | some p =>
    if i < 6 then
      let p := if p ≠ 0 then p + 1 else p
      match scanHex (macaddr.drop p) with
      | none => ⟨[], -1⟩
      | some temp =>
        if temp < 0 ∨ temp > 255 then ⟨[], -1⟩
        else
          let rest := macaddrWalk macaddr (strchrColon macaddr p) (i + 1)
          ⟨(i, Int8.ofInt temp) :: rest.stores, rest.rc⟩
    else ⟨[], -1⟩
termination_by 6 - i

/-- `slirp4netns_macaddr_hexstring_to_data`, with its stores. -/
def hexstringToData (macaddr : Bytes) : MacStores := macaddrWalk macaddr (some 0) 0

/-- Bytes stored one after the other, as signed characters. -/
def storesFrom (i : ℕ) (data : List UInt8) : List (ℕ × Int8) :=
  (data.zipIdx i).map fun (b, j) => (j, b.toInt8)

section
variable {macaddr : Bytes} {p q i n : ℕ}

/-- `strchr` finds the colon that ends the first group. -/
theorem strchrColon_cases (macaddr : Bytes) (p : ℕ) :
    (afterColon (macaddr.drop p) = none ∧ strchrColon macaddr p = none) ∨
      ∃ g t, macaddr.drop p = g ++ 58 :: t ∧ afterColon (macaddr.drop p) = some t ∧
        strchrColon macaddr p = some (p + g.length) ∧ macaddr.drop (p + g.length + 1) = t := by
  have hnone : ∀ {g : Bytes}, 58 ∉ g → g.findIdx? (· == 58) = none := by
    intro g hg
    rw [List.findIdx?_eq_none_iff]
    intro c hc
    simpa using fun heq : c = 58 => hg (heq ▸ hc)
  rcases afterColon_cases (macaddr.drop p) with ⟨hno, hafter⟩ | ⟨g, t, hg, hs, hafter⟩
  · refine .inl ⟨hafter, ?_⟩
    rw [strchrColon, hnone hno]
    rfl
  · refine .inr ⟨g, t, hs, hafter, ?_, ?_⟩
    · rw [strchrColon, hs, List.findIdx?_append, hnone hg, List.findIdx?_cons]
      simp
    · rw [Nat.add_assoc, ← List.drop_drop, hs, List.drop_length_add_append, List.drop_one,
        List.tail_cons]

theorem ofInt_eq_toInt8 {temp : ℤ} (h : 0 ≤ temp) :
    Int8.ofInt temp = (UInt8.ofNat temp.toNat).toInt8 := by
  obtain ⟨n, rfl⟩ := Int.eq_ofNat_of_zero_le h
  rw [Int.toNat_natCast, UInt8.toInt8_ofNat']
  rfl

/-- The loop with pointers stores what the loop over groups gives. -/
theorem macaddrWalk_eq (hq : (if q ≠ 0 then q + 1 else q) = p) (hi : i + n = 6) :
    match macaddrLoop macaddr n (macaddr.drop p) with
    | .ok data => macaddrWalk macaddr (some q) i = ⟨storesFrom i data, i + data.length⟩
    | .error _ => (macaddrWalk macaddr (some q) i).rc = -1 ∧
        ∀ w ∈ (macaddrWalk macaddr (some q) i).stores, w.1 < 6 := by
  have hnone : ∀ w ∈ ([] : List (ℕ × Int8)), w.1 < 6 := fun _ hw => absurd hw List.not_mem_nil
  induction n generalizing i p q with
  | zero =>
    rw [macaddrWalk, if_neg (by omega), macaddrLoop]
    exact ⟨rfl, hnone⟩
  | succ n ih =>
    rw [macaddrWalk, if_pos (by omega), macaddrLoop, hq]
    dsimp only
    cases hscan : scanHex (macaddr.drop p) with
    | none => exact ⟨rfl, hnone⟩
    | some temp =>
      dsimp only
      by_cases hrange : temp < 0 ∨ temp > 255
      · rw [if_pos hrange, if_pos hrange]
        exact ⟨rfl, hnone⟩
      · rw [if_neg hrange, if_neg hrange, ofInt_eq_toInt8 (by omega)]
        rcases strchrColon_cases macaddr p with ⟨hafter, hchr⟩ | ⟨g, t, hs, hafter, hchr, rfl⟩
        · rw [hafter, hchr, macaddrWalk]
          exact congrArg (MacStores.mk _) (Int.natCast_succ i)
        · -- a number was read, so the colon is not at the start of the text
          have hpos : p + g.length ≠ 0 := by
            intro hzero
            obtain rfl : g = [] := List.eq_nil_of_length_eq_zero (by omega)
            rw [hs, scanHex_colon] at hscan
            cases hscan
          have hrest := @ih _ _ (i + 1) (if_pos hpos) (by omega)
          rw [hafter, hchr]
          dsimp only
          cases hloop : macaddrLoop macaddr n (macaddr.drop (p + g.length + 1)) with
          | error e =>
            rw [hloop] at hrest
            exact ⟨hrest.1, List.forall_mem_cons.2 ⟨by omega, hrest.2⟩⟩
          | ok data =>
            rw [hloop] at hrest
            dsimp only at hrest
            rw [hrest]
            refine congrArg₂ MacStores.mk rfl ?_
            rw [List.length_cons]
            push_cast
            omega

theorem hexstringToData_ok {data : List UInt8} (h : macaddrHexstringToData macaddr = .ok data) :
    hexstringToData macaddr = ⟨storesFrom 0 data, data.length⟩ := by
  have hwalk := @macaddrWalk_eq macaddr 0 0 0 6 rfl rfl
  rw [List.drop_zero, ← macaddrHexstringToData, h] at hwalk
  rw [hexstringToData]
  simpa using hwalk

theorem hexstringToData_error {printed : Bytes}
    (h : macaddrHexstringToData macaddr = .error printed) :
    (hexstringToData macaddr).rc = -1 ∧ ∀ w ∈ (hexstringToData macaddr).stores, w.1 < 6 := by
  have hwalk := @macaddrWalk_eq macaddr 0 0 0 6 rfl rfl
  rw [List.drop_zero, ← macaddrHexstringToData, h] at hwalk
  exact hwalk

theorem length_splitOn_colon (s : Bytes) : (s.splitOn 58).length = s.count 58 + 1 := by
  induction s using colon_induction with
  | last g hg => rw [List.splitOn_eq_singleton hg, List.count_eq_zero.2 hg, List.length_singleton]
  | cons g t hg ih =>
    rw [List.splitOn_append_cons_self_of_not_mem hg, List.length_cons, ih, List.count_append,
      List.count_eq_zero.2 hg, List.count_cons_self, Nat.zero_add]

theorem hexPair_hexByte (b : UInt8) : HexPair (hexByte b) ∧ hexValue (hexByte b) = b.toNat := by
  have hdigits : ∀ b, (hexByte b).all isHexDigit = true ∧ hexValue (hexByte b) = b.toNat :=
    forall_byte (by decide +kernel)
  exact ⟨⟨List.cons_ne_nil _ _, Nat.le_refl _, List.all_eq_true.1 (hdigits b).1⟩, (hdigits b).2⟩

/-- A text that writes bytes as pairs of digits is read as these bytes. -/
theorem macaddr_of_pairs {groups : List Bytes} {data : List UInt8} (hlen : data.length = 6)
    (hpairs : List.Forall₂ (fun g b => HexPair g ∧ hexValue g = b.toNat) groups data) :
    macaddrHexstringToData ([58].intercalate groups) = .ok data := by
  have hcolon : ∀ g ∈ groups, 58 ∉ g := fun g hg => by
    obtain ⟨b, hpair, -⟩ := exists_forall₂_iff.1 ⟨data, hpairs⟩ g hg
    exact hpair.colon_notMem
  have hgroups : groups.length = 6 := by rw [hpairs.length_eq, hlen]
  have hne : groups ≠ [] := by
    rintro rfl
    cases hgroups
  rw [macaddrHexstringToData_ok, List.splitOn_intercalate 58 hcolon hne]
  exact ⟨hgroups.le, hpairs.imp fun g b h => h.1.readsByte_iff.2 h.2⟩

/-- What `parent` prints for six bytes. -/
theorem macText_saData {data : List UInt8} (hlen : data.length = 6) (family : ℕ) :
    (⟨family, saData data⟩ : Sockaddr).macText = [58].intercalate (data.map hexByte) := by
  have htake : (saData data ++ List.replicate 6 0).take 6 = data := by
    rw [saData, List.append_assoc, List.take_append_of_le_length hlen.ge, ← hlen, List.take_length]
  rw [Sockaddr.macText, htake]

end

/-- **The loop of `slirp4netns_macaddr_hexstring_to_data`**: six bytes are read back however they
    are written, in particular as `parent` prints them; and every text comes to an end, with stores
    into the first six bytes only, and in case of success into as many as there are groups. -/
theorem macaddr_stores :
    (∀ groups data, data.length = 6 →
      List.Forall₂ (fun g (b : UInt8) => HexPair g ∧ hexValue g = b.toNat) groups data →
      hexstringToData ([58].intercalate groups) = ⟨storesFrom 0 data, 6⟩) ∧
    (∀ env opt cfg cfg' s, configFromOptions env opt cfg = .ok cfg' → opt.macaddress = some s →
      cfg'.vmacaddressLen = 6 →
      hexstringToData cfg'.vmacaddress.macText = hexstringToData s) ∧
    ∀ s, (∀ w ∈ (hexstringToData s).stores, w.1 < 6) ∧
      (0 ≤ (hexstringToData s).rc → 1 ≤ (hexstringToData s).rc ∧ (hexstringToData s).rc ≤ 6 ∧
        (hexstringToData s).stores.map Prod.fst = List.range (hexstringToData s).rc.toNat ∧
        (s.count 58 : ℤ) = (hexstringToData s).rc - 1) := by
  refine ⟨?_, ?_, ?_⟩
  · intro groups data hlen hpairs
    rw [hexstringToData_ok (macaddr_of_pairs hlen hpairs), hlen]
    rfl
  · intro env opt cfg cfg' s hok hs hsix
    obtain ⟨data, hdata, hlen, hmac⟩ := vmacaddress_of_ok hok hs
    rw [hlen] at hsix
    have hpairs : List.Forall₂ (fun g b => HexPair g ∧ hexValue g = b.toNat) (data.map hexByte)
        data := List.forall₂_map_left_iff.2 (List.forall₂_same.2 fun b _ => hexPair_hexByte b)
    rw [hmac, macText_saData hsix, hexstringToData_ok (macaddr_of_pairs hsix hpairs),
      hexstringToData_ok hdata]
  · intro s
    cases hdata : macaddrHexstringToData s with
    | error printed =>
      obtain ⟨hrc, hstores⟩ := hexstringToData_error hdata
      refine ⟨hstores, fun hnonneg => ?_⟩
      rw [hrc] at hnonneg
      omega
    | ok data =>
      obtain ⟨hle, hbytes⟩ := macaddrHexstringToData_ok.1 hdata
      have hcount := length_splitOn_colon s
      have hlen := hbytes.length_eq
      have hindices : (storesFrom 0 data).map Prod.fst = List.range data.length := by
        rw [storesFrom, List.map_map, List.range_eq_range']
        exact List.zipIdx_map_snd 0 data
      rw [hexstringToData_ok hdata]
      dsimp only
      rw [Int.toNat_natCast]
      refine ⟨?_, fun _ => ⟨by omega, by omega, hindices, by omega⟩⟩
      intro w hw
      have hmem := List.mem_map_of_mem (f := Prod.fst) hw
      rw [hindices, List.mem_range] at hmem
      omega

/-- `02:00:00:00:00:ff` -/
theorem macaddr_stores_local :
    hexstringToData (bytes "02:00:00:00:00:ff") = ⟨storesFrom 0 [2, 0, 0, 0, 0, 255], 6⟩ := by
  have htext : bytes "02:00:00:00:00:ff" =
      [58].intercalate ([2, 0, 0, 0, 0, 255].map hexByte) := by
    decide +kernel
  rw [htext]
  exact macaddr_stores.1 _ _ rfl
    (List.forall₂_map_left_iff.2 (List.forall₂_same.2 fun b _ => hexPair_hexByte b))

end Slirp4netns
