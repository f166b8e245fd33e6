/-
  slirp4netns formalization — `process_string` and `get_quoted_string` in memory
  (`parson.c`).

  The escapes of a string are undone in a buffer that is as long as the text between
  the quotes, and the result is copied into one of the right size.  `process_string`
  looks at the text itself, so that an escape might take in the closing quote and
  what is behind it.

  `getQuotedString_owned`: it does not, and no byte is written outside of the buffer;
  the result is that of `Parson.Parse`.
-/
import Slirp4netns.Lib.Heap
import Slirp4netns.Parson.Prefix

namespace Slirp4netns.Parson

open HeapProg

/-! ## The code -/

/-- `parse_utf16_hex` -/
def parseUtf16HexAt : Bytes → Option ℕ
  | c₁ :: c₂ :: c₃ :: c₄ :: _ => parseUtf16Hex c₁ c₂ c₃ c₄
  | _ => none

/-- The second half of a pair of surrogates. -/
def parseTrail (lead : ℕ) : Bytes → Option (Bytes × ℕ)
  | b :: u :: text =>
    if b = 92 ∧ u = 117 then
      match parseUtf16HexAt text with
      | none => none
      | some trail =>
        if trail < 0xDC00 ∨ trail > 0xDFFF then none
        else some (utf16Bytes (surrogatePair lead trail), 10)
    else none
  | _ => none

/-- `parse_utf16` on the text after the `u`: what it writes, and how far it gets. -/
def parseUtf16 (text : Bytes) : Option (Bytes × ℕ) :=
  match parseUtf16HexAt text with
  | none => none
  | some cp =>
    if cp < 0xD800 ∨ cp > 0xDFFF then some (utf16Bytes cp, 4)
    else if cp ≤ 0xDBFF then parseTrail cp (text.drop 4)
    else none

/-- The `switch` of `process_string`, on the text after a backslash. -/
def escape : Bytes → Option (Bytes × ℕ)
  | [] => none
  | e :: text =>
    if e = 117 then (parseUtf16 text).map fun (w, used) => (w, used + 1)
    else (simpleEscape e).map fun b => ([b], 1)

/-- Bytes are written behind those that a buffer holds. -/
def put (block size : ℕ) (out w : Bytes) : HeapProg Bytes := do
  access block
  if out.length + w.length ≤ size then return out ++ w else Prog.stop .outOfBounds

/-- The loop of `process_string`.  `n` is what is left of `input_len`. -/
def processLoop (block size : ℕ) : ℕ → ℕ → Bytes → Bytes → HeapProg (Option Bytes)
  | 0, _, _, _ => Prog.stop .tooDeep
  | _ + 1, _, [], out => return some out
  | fuel + 1, n, c :: text, out =>
    if n = 0 then return some out
    else if c = 92 then
      match escape text with
      | none => return none
      | some (w, used) => do
        let out ← put block size out w
        processLoop block size fuel (n - (used + 1)) (text.drop used) out
    else if c < 0x20 then return none
    else do
      let out ← put block size out [c]
      processLoop block size fuel (n - 1) text out

/-- `process_string` -/
def processString (text : Bytes) (inputLen : ℕ) : HeapProg (Option (ℕ × Bytes)) := do
  match ← malloc with
  | none => do
    free none
    return none
  | some output => do
    match ← processLoop output (inputLen + 1) (inputLen + 1) inputLen text [] with
    | none => do
      free (some output)
      return none
    | some out => do
      let _ ← put output (inputLen + 1) out [0]
      match ← malloc with
      | none => do
        free (some output)
        return none
      | some resized => do
        access resized
        access output
        free (some output)
        return some (resized, out)

/-- `get_quoted_string`: the block of the string, the string, and the text behind it. -/
def getQuotedString (s : Bytes) : HeapProg (Option (ℕ × Bytes × Bytes)) :=
  match expect 34 s with
  | none => return none
  | some text =>
    match skipQuotes text with
    | none => return none
    | some (input, rest) => do
      match ← processString text input.length with
      | none => return none
      | some (block, chars) => return some (block, chars, rest)

/-! ## Escapes stay within the quotes -/

theorem parseUtf16HexAt_quoted {a : Bytes} {x : ℕ} (ha : Quoted a)
    (h : parseUtf16HexAt a = some x) : 4 ≤ a.length ∧ Quoted (a.drop 4) := by
  match a with
  | c₁ :: c₂ :: c₃ :: c₄ :: a =>
    simp only [parseUtf16HexAt, parseUtf16Hex, bind, Option.bind_eq_some_iff] at h
    obtain ⟨x₁, h₁, x₂, h₂, x₃, h₃, x₄, h₄, -⟩ := h
    refine ⟨by simp, ?_⟩
    have hb {c : UInt8} {x : ℕ} (h : hexCharToInt c = some x) : c ≠ 92 := (hexCharToInt_lt h).2.2
    exact (((ha.tail (hb h₁)).tail (hb h₂)).tail (hb h₃)).tail (hb h₄)

theorem parseUtf16Hex_quote {c₁ c₂ c₃ c₄ : UInt8} (h : c₁ = 34 ∨ c₂ = 34 ∨ c₃ = 34 ∨ c₄ = 34) :
    parseUtf16Hex c₁ c₂ c₃ c₄ = none := by
  rw [Option.eq_none_iff_forall_ne_some]
  intro x hx
  simp only [parseUtf16Hex, bind, Option.bind_eq_some_iff] at hx
  obtain ⟨x₁, h₁, x₂, h₂, x₃, h₃, x₄, h₄, -⟩ := hx
  rcases h with rfl | rfl | rfl | rfl
  exacts [(hexCharToInt_lt h₁).2.1 rfl, (hexCharToInt_lt h₂).2.1 rfl, (hexCharToInt_lt h₃).2.1 rfl,
    (hexCharToInt_lt h₄).2.1 rfl]

/-- The closing quote is not a digit. -/
theorem parseUtf16HexAt_append (a r : Bytes) :
    parseUtf16HexAt (a ++ 34 :: r) = parseUtf16HexAt a := by
  have hquote : ∀ {t : Bytes}, (34 : UInt8) ∈ t.take 4 → parseUtf16HexAt t = none := by
    intro t ht
    match t with
    | c₁ :: c₂ :: c₃ :: c₄ :: t =>
      refine parseUtf16Hex_quote ?_
      simpa [eq_comm] using ht
    | [] => rfl
    | [_] => rfl
    | [_, _] => rfl
    | [_, _, _] => rfl
  match a with
  | c₁ :: c₂ :: c₃ :: c₄ :: a => rfl
  | [] => exact hquote (by simp)
  | [c₁] => exact hquote (by simp)
  | [c₁, c₂] => exact hquote (by simp)
  | [c₁, c₂, c₃] => exact hquote (by simp)

theorem parseTrail_append (lead : ℕ) (a r : Bytes) :
    parseTrail lead (a ++ 34 :: r) = parseTrail lead a := by
  match a with
  | [] => cases r <;> rfl
  | [b] =>
    show (if b = 92 ∧ (34 : UInt8) = 117 then _ else none) = none
    rw [if_neg fun h => absurd h.2 (by decide)]
  | b :: u :: a =>
    show parseTrail lead (b :: u :: (a ++ 34 :: r)) = _
    rw [parseTrail, parseTrail, parseUtf16HexAt_append]

theorem parseUtf16_append {a r : Bytes} (ha : Quoted a) :
    parseUtf16 (a ++ 34 :: r) = parseUtf16 a := by
  rw [parseUtf16, parseUtf16, parseUtf16HexAt_append]
  cases h : parseUtf16HexAt a with
  | none => rfl
  | some cp =>
    have hlen := (parseUtf16HexAt_quoted ha h).1
    simp only [List.drop_append_of_le_length hlen, parseTrail_append]

/-- An escape does not take in the closing quote. -/
theorem escape_append {e : UInt8} {a : Bytes} (ha : Quoted a) (r : Bytes) :
    escape (e :: a ++ 34 :: r) = escape (e :: a) := by
  rw [List.cons_append, escape, escape, parseUtf16_append ha]

theorem utf16Bytes_length (cp : ℕ) : (utf16Bytes cp).length ≤ 4 := by
  rw [utf16Bytes]
  split_ifs <;> simp

theorem parseTrail_quoted {lead used : ℕ} {a w : Bytes} (ha : Quoted a)
    (h : parseTrail lead a = some (w, used)) :
    used = 10 ∧ w.length ≤ 4 ∧ 6 ≤ a.length ∧ Quoted (a.drop 6) := by
  match a with
  | b :: u :: a =>
    rw [parseTrail] at h
    split_ifs at h with hbu
    obtain ⟨rfl, rfl⟩ := hbu
    cases htrail : parseUtf16HexAt a with
    | none => rw [htrail] at h; cases h
    | some trail =>
      rw [htrail] at h
      simp only at h
      split_ifs at h
      obtain ⟨rfl, rfl⟩ := Prod.mk.inj (Option.some.inj h)
      obtain ⟨hlen, hq⟩ := parseUtf16HexAt_quoted (quoted_escape.1 ha) htrail
      exact ⟨rfl, utf16Bytes_length _, by simp; omega, hq⟩

/-- An escape is longer than what it stands for. -/
theorem escape_quoted {e : UInt8} {a w : Bytes} {used : ℕ} (ha : Quoted a)
    (h : escape (e :: a) = some (w, used)) :
    w.length ≤ used ∧ used ≤ a.length + 1 ∧ Quoted ((e :: a).drop used) ∧ 0 < used := by
  rw [escape] at h
  split_ifs at h with he
  · obtain ⟨⟨w', used'⟩, h', heq⟩ := Option.map_eq_some_iff.1 h
    cases heq
    rw [parseUtf16] at h'
    cases hcp : parseUtf16HexAt a with
    | none => rw [hcp] at h'; cases h'
    | some cp =>
      rw [hcp] at h'
      simp only at h'
      obtain ⟨hlen, hq⟩ := parseUtf16HexAt_quoted ha hcp
      split_ifs at h'
      · cases h'
        have := utf16Bytes_length cp
        exact ⟨by omega, by omega, hq, by omega⟩
      · obtain ⟨rfl, hw, hlen', hq'⟩ := parseTrail_quoted hq h'
        rw [List.length_drop] at hlen'
        rw [List.drop_drop] at hq'
        exact ⟨by omega, by omega, hq', by omega⟩
  · obtain ⟨b, hb, heq⟩ := Option.map_eq_some_iff.1 h
    cases heq
    exact ⟨le_rfl, by omega, ha, Nat.one_pos⟩

/-- `process_string` of `Parson.Parse`, one escape at a time. -/
theorem processString_escape (e : UInt8) (a : Bytes) :
    Slirp4netns.processString (92 :: e :: a) = (escape (e :: a)).bind fun r =>
      (Slirp4netns.processString ((e :: a).drop r.2)).map (r.1 ++ ·) := by
  rw [Slirp4netns.processString.eq_def, escape]
  simp only [if_true]
  by_cases he : e = 117
  · simp only [if_pos he]
    rcases a with _ | ⟨c₁, _ | ⟨c₂, _ | ⟨c₃, _ | ⟨c₄, a⟩⟩⟩⟩
    · rfl
    · rfl
    · rfl
    · rfl
    · simp only [parseUtf16, parseUtf16HexAt, List.drop_succ_cons, List.drop_zero]
      cases parseUtf16Hex c₁ c₂ c₃ c₄ with
      | none => rfl
      | some cp =>
        simp only
        split_ifs
        · rfl
        · rcases a with _ | ⟨b, _ | ⟨u, _ | ⟨t₁, _ | ⟨t₂, _ | ⟨t₃, _ | ⟨t₄, a⟩⟩⟩⟩⟩⟩
          · rfl
          · rfl
          · simp [parseTrail, parseUtf16HexAt]
          · simp [parseTrail, parseUtf16HexAt]
          · simp [parseTrail, parseUtf16HexAt]
          · simp [parseTrail, parseUtf16HexAt]
          · simp only [parseTrail, parseUtf16HexAt]
            split_ifs
            · cases parseUtf16Hex t₁ t₂ t₃ t₄ with
              | none => rfl
              | some trail =>
                simp only
                split_ifs
                · rfl
                · simp only [Option.map_some, Option.bind_some, List.drop_succ_cons, List.drop_zero]
            · rfl
        · rfl
  · simp only [if_neg he]
    cases simpleEscape e with
    | none => rfl
    | some b => rfl

theorem processString_plain {c : UInt8} (hb : c ≠ 92) (a : Bytes) :
    Slirp4netns.processString (c :: a) =
      if c < 0x20 then none else (Slirp4netns.processString a).map (c :: ·) := by
  rw [Slirp4netns.processString.eq_def]
  simp only [if_neg hb]

/-! ## The buffer is large enough -/

theorem put_reads {block : ℕ} {s : Multiset ℕ} (hb : block ∈ s) {size : ℕ} (out w : Bytes)
    (h : out.length + w.length ≤ size) : Reads s (put block size out w) (out ++ w) := by
  refine .bind (.access hb) ?_
  rw [if_pos h]
  exact .pure

theorem processLoop_reads {block size : ℕ} {s : Multiset ℕ} (hb : block ∈ s) {a : Bytes}
    (ha : Quoted a) (r : Bytes) {fuel : ℕ} (out : Bytes) (hfuel : a.length < fuel)
    (hroom : out.length + a.length < size) :
    Reads s (processLoop block size fuel a.length (a ++ 34 :: r) out)
      ((Slirp4netns.processString a).map (out ++ ·)) := by
  induction fuel generalizing a out with
  | zero => omega
  | succ fuel ih =>
    cases ha with
    | nil =>
      rw [Slirp4netns.processString, Option.map_some, List.append_nil]
      exact .pure
    | @plain c a hq hb' ha =>
      rw [List.length_cons] at hfuel hroom
      rw [processString_plain hb', List.cons_append, processLoop, if_neg (by simp), if_neg hb']
      by_cases hc : c < 0x20
      · rw [if_pos hc, if_pos hc]
        exact .pure
      · have hfit : out.length + [c].length ≤ size := by simp; omega
        have hput := put_reads hb out [c] hfit
        have hrest := ih ha (out ++ [c]) (by omega) (by simp; omega)
        rw [if_neg hc, if_neg hc, Option.map_map]
        refine .bind hput ?_
        simpa [Function.comp_def] using hrest
    | @escaped e a ha =>
      rw [List.length_cons, List.length_cons] at hfuel hroom
      rw [processString_escape, List.cons_append, processLoop, if_neg (by simp), if_pos rfl,
        escape_append ha]
      cases hescape : escape (e :: a) with
      | none => exact .pure
      | some v =>
        obtain ⟨w, used⟩ := v
        obtain ⟨hw, hused, hquoted, hpos⟩ := escape_quoted ha hescape
        have hlen : ((e :: a).drop used).length + used = a.length + 1 := by
          rw [List.length_drop, List.length_cons]
          omega
        have hfit : out.length + w.length ≤ size := by omega
        have hput := put_reads hb out w hfit
        have hrest := ih hquoted (out ++ w) (by omega)
          (by rw [List.length_append]; omega)
        rw [Option.bind_some, Option.map_map]
        refine .bind hput ?_
        have hn : (92 :: e :: a).length - (used + 1) = ((e :: a).drop used).length := by
          simp only [List.length_cons]
          omega
        rw [hn, List.drop_append_of_le_length (by rw [List.length_cons]; exact hused)]
        simpa [Function.comp_def] using hrest

/-- A string is not longer than the text for it. -/
theorem processString_length {a chars : Bytes} (ha : Quoted a)
    (h : Slirp4netns.processString a = some chars) : chars.length ≤ a.length := by
  induction hn : a.length using Nat.strong_induction_on generalizing a chars with
  | _ n ih =>
    cases ha with
    | nil =>
      rw [Slirp4netns.processString] at h
      cases h
      exact Nat.zero_le _
    | @plain c a hq hb ha =>
      rw [processString_plain hb] at h
      split_ifs at h
      obtain ⟨rest, hrest, rfl⟩ := Option.map_eq_some_iff.1 h
      rw [List.length_cons] at hn
      have := ih a.length (by omega) ha hrest rfl
      rw [List.length_cons]
      omega
    | @escaped e a ha =>
      rw [processString_escape] at h
      obtain ⟨⟨w, used⟩, hescape, h⟩ := Option.bind_eq_some_iff.1 h
      obtain ⟨rest, hrest, rfl⟩ := Option.map_eq_some_iff.1 h
      obtain ⟨hw, hused, hquoted, hpos⟩ := escape_quoted ha hescape
      rw [List.length_cons, List.length_cons] at hn
      have hlen : ((e :: a).drop used).length + used = a.length + 1 := by
        rw [List.length_drop, List.length_cons]
        omega
      have := ih _ (by omega) hquoted hrest rfl
      simp only [List.length_append]
      omega

/-! ## The string -/

/-- What a function that makes a string may do, when `o` is the string that is meant. -/
inductive StringMade (o : Option Bytes) : Option (ℕ × Bytes) → Multiset ℕ → Bool → Prop
  | failed {bad : Bool} (why : bad = true ∨ o = none) : StringMade o none 0 bad
  | done {block : ℕ} {chars : Bytes} (h : o = some chars) : StringMade o (some (block, chars)) {block} false

theorem processString_owned {a : Bytes} (ha : Quoted a) (r : Bytes) :
    Owned 0 (processString (a ++ 34 :: r) a.length) (StringMade (Slirp4netns.processString a)) := by
  refine .malloc_bind (.free_none_bind (.pure (.failed (.inl rfl)))) fun output => ?_
  have hmem : output ∈ output ::ₘ (0 : Multiset ℕ) := Multiset.mem_cons_self _ _
  have hsize : ([] : Bytes).length + a.length < a.length + 1 := by simp
  have hloop := processLoop_reads hmem ha r [] (Nat.lt_succ_self _) hsize
  refine Owned.reads_bind hloop le_rfl ?_
  cases hstr : Slirp4netns.processString a with
  | none => exact .free_bind (.pure (.failed (.inr rfl)))
  | some chars =>
    have hroom : chars.length + [(0 : UInt8)].length ≤ a.length + 1 :=
      Nat.succ_le_succ (processString_length ha hstr)
    refine Owned.reads_bind (put_reads hmem _ _ hroom) le_rfl ?_
    refine .malloc_bind (.free_bind (.pure (.failed (.inl rfl)))) fun resized => ?_
    refine Owned.reads_bind (.access (Multiset.mem_cons_self resized _)) le_rfl ?_
    refine Owned.reads_bind (.access (Multiset.mem_cons_of_mem hmem)) le_rfl ?_
    rw [Multiset.cons_swap]
    exact .free_bind (.pure (.done rfl))

/-- What `get_quoted_string` may do, when `o` is the string that is meant and the text behind it. -/
inductive StringRead (o : Option (Bytes × Bytes)) :
    Option (ℕ × Bytes × Bytes) → Multiset ℕ → Bool → Prop
  | failed {bad : Bool} (why : bad = true ∨ o = none) : StringRead o none 0 bad
  | done {block : ℕ} {chars rest : Bytes} (h : o = some (chars, rest)) :
      StringRead o (some (block, chars, rest)) {block} false

/-- **A quoted string is read into a block of its own**, without an access outside of a buffer. -/
theorem getQuotedString_owned (s : Bytes) :
    Owned 0 (getQuotedString s) (StringRead (Slirp4netns.getQuotedString s)) := by
  rw [getQuotedString, Slirp4netns.getQuotedString]
  cases expect 34 s with
  | none => exact .pure (.failed (.inr rfl))
  | some text =>
    simp only [bind, Option.bind_some]
    cases hskip : skipQuotes text with
    | none => exact .pure (.failed (.inr rfl))
    | some v =>
      obtain ⟨input, rest⟩ := v
      obtain ⟨rfl, hquoted⟩ := skipQuotes_eq_some.1 hskip
      refine (processString_owned hquoted rest).bind fun r own bad hr => ?_
      cases hr with
      | failed why =>
        refine .pure (.failed (why.imp (fun h => by rw [h, Bool.true_or]) fun h => ?_))
        rw [Option.bind_some, h]
        rfl
      | done h =>
        refine .pure (.done ?_)
        rw [Option.bind_some, h]
        rfl

end Slirp4netns.Parson
