/-
  slirp4netns formalization — what parson has read does not change when more
  text follows.

  * `parseValue_append`: a value read from `s` is read from `s ++ t` as well.
    A number is the exception, since more digits may follow; it is safe in
    front of a byte that cannot continue it (`isDelim`), which is the case for
    every number inside an array or an object.
  * `jsonParseString_append_object`: hence an object read from the first part
    of a text is the one read from the whole text.
-/
import Slirp4netns.Parson.Parse

namespace Slirp4netns

/-- The bytes that end a number. -/
def isDelim (c : UInt8) : Bool := isSpace c || c == 44 || c == 93 || c == 125

/-- A byte after which a number cannot go on. -/
def Ends (r : Bytes) : Prop := ∃ c r', r = c :: r' ∧ isDelim c = true

/-! ## Scanning -/

theorem skipWhitespaces_append {s : Bytes} {c : UInt8} {r : Bytes}
    (h : skipWhitespaces s = c :: r) (t : Bytes) : skipWhitespaces (s ++ t) = c :: (r ++ t) := by
  unfold skipWhitespaces at h ⊢
  rw [List.dropWhile_append, h]; rfl

theorem dropDigits_append {s : Bytes} {c : UInt8} {r : Bytes} (h : s.dropWhile isDigit = c :: r)
    (t : Bytes) : (s ++ t).dropWhile isDigit = c :: (r ++ t) ∧
      (s ++ t).takeWhile isDigit = s.takeWhile isDigit := by
  refine ⟨by rw [List.dropWhile_append, h]; rfl, ?_⟩
  rw [List.takeWhile_append, if_neg]
  intro he
  have := congrArg List.length (List.takeWhile_append_dropWhile (p := isDigit) (l := s))
  rw [h, List.length_append, List.length_cons] at this
  omega

theorem expect_eq_some {c : UInt8} {s r : Bytes} : expect c s = some r ↔ s = c :: r := by
  cases s with
  | nil => simp [expect]
  | cons d s =>
    simp only [expect]
    split
    · next h => subst h; simp
    · next h => simp [h]

theorem skipQuotes_quote (s : Bytes) : skipQuotes (34 :: s) = some ([], s) := by
  rw [skipQuotes.eq_def]; rfl

theorem skipQuotes_escape (e : UInt8) (s : Bytes) :
    skipQuotes (92 :: e :: s) = (skipQuotes s).map fun (t, r) => (92 :: e :: t, r) := by
  rw [skipQuotes.eq_def]; rfl

theorem skipQuotes_cons {c : UInt8} (hq : c ≠ 34) (hb : c ≠ 92) (s : Bytes) :
    skipQuotes (c :: s) = (skipQuotes s).map fun (t, r) => (c :: t, r) := by
  rw [skipQuotes.eq_def]; simp only [hq, hb, if_false]

/-- What `skip_quotes` takes for the text of a string: a quote in it, or a backslash, has a
    backslash before it. -/
inductive Quoted : Bytes → Prop
  | nil : Quoted []
  | plain {c : UInt8} {a : Bytes} (hq : c ≠ 34) (hb : c ≠ 92) (h : Quoted a) : Quoted (c :: a)
  | escaped {e : UInt8} {a : Bytes} (h : Quoted a) : Quoted (92 :: e :: a)

theorem Quoted.tail {c : UInt8} {a : Bytes} (h : Quoted (c :: a)) (hb : c ≠ 92) : Quoted a := by
  cases h with
  | plain _ _ h => exact h
  | escaped => exact absurd rfl hb

theorem quoted_escape {e : UInt8} {a : Bytes} : Quoted (92 :: e :: a) ↔ Quoted a := by
  refine ⟨fun h => ?_, .escaped⟩
  cases h with
  | plain _ hb => exact absurd rfl hb
  | escaped h => exact h

theorem quoted_cons {c : UInt8} {a : Bytes} (hq : c ≠ 34) (hb : c ≠ 92) :
    Quoted (c :: a) ↔ Quoted a := ⟨fun h => h.tail hb, .plain hq hb⟩

theorem not_quoted_quote {a : Bytes} : ¬ Quoted (34 :: a) := by
  intro h
  cases h with
  | plain hq => exact hq rfl

/-- `skip_quotes` cuts at the closing quote. -/
theorem skipQuotes_eq_some {s a r : Bytes} :
    skipQuotes s = some (a, r) ↔ s = a ++ 34 :: r ∧ Quoted a := by
  constructor
  · intro h
    fun_induction skipQuotes s generalizing a with
    | case1 => cases h
    | case2 s =>
      cases h
      exact ⟨rfl, .nil⟩
    | case3 => cases h
    | case4 e s hq ih =>
      obtain ⟨⟨a', r'⟩, h', hp⟩ := Option.map_eq_some_iff.1 h
      cases hp
      obtain ⟨rfl, ha⟩ := ih h'
      exact ⟨rfl, .escaped ha⟩
    | case5 c s hq hb ih =>
      obtain ⟨⟨a', r'⟩, h', hp⟩ := Option.map_eq_some_iff.1 h
      cases hp
      obtain ⟨rfl, ha⟩ := ih h'
      exact ⟨rfl, .plain hq hb ha⟩
  · rintro ⟨rfl, h⟩
    induction h with
    | nil => exact skipQuotes_quote r
    | plain hq hb _ ih => rw [List.cons_append, skipQuotes_cons hq hb, ih]; rfl
    | escaped _ ih => rw [List.cons_append, List.cons_append, skipQuotes_escape, ih]; rfl

theorem skipQuotes_append {s a r : Bytes} (h : skipQuotes s = some (a, r)) (t : Bytes) :
    skipQuotes (s ++ t) = some (a, r ++ t) := by
  obtain ⟨rfl, ha⟩ := skipQuotes_eq_some.1 h
  refine skipQuotes_eq_some.2 ⟨?_, ha⟩
  rw [List.append_assoc, List.cons_append]

theorem hexCharToInt_byte {c : UInt8} {x : ℕ} (h : hexCharToInt c = some x) :
    (x < 16 ∧ c ≠ 34 ∧ c ≠ 92) ∧ c ≠ 0 ∧ c.toNat < 0x80 := by
  have key : ∀ c : UInt8, ∀ x ∈ hexCharToInt c,
      (x < 16 ∧ c ≠ 34 ∧ c ≠ 92) ∧ c ≠ 0 ∧ c.toNat < 0x80 := forall_byte (by decide +kernel)
  exact key c x h

theorem hexCharToInt_lt {c : UInt8} {x : ℕ} (h : hexCharToInt c = some x) :
    x < 16 ∧ c ≠ 34 ∧ c ≠ 92 := (hexCharToInt_byte h).1

theorem getQuotedString_eq_some {s str r : Bytes} : getQuotedString s = some (str, r) ↔
    ∃ s' a, s = 34 :: s' ∧ skipQuotes s' = some (a, r) ∧ processString a = some str := by
  simp only [getQuotedString, bind, Option.bind_eq_some_iff, expect_eq_some, Prod.exists, pure,
    Option.some.injEq, Prod.mk.injEq]
  constructor
  · rintro ⟨s', rfl, a, r', hq, str', hp, rfl, rfl⟩
    exact ⟨s', a, rfl, hq, hp⟩
  · rintro ⟨s', a, rfl, hq, hp⟩
    exact ⟨s', rfl, a, r, hq, str, hp, rfl, rfl⟩

theorem getQuotedString_append {s str r : Bytes} (h : getQuotedString s = some (str, r))
    (t : Bytes) : getQuotedString (s ++ t) = some (str, r ++ t) := by
  obtain ⟨s', a, rfl, hq, hp⟩ := getQuotedString_eq_some.1 h
  exact getQuotedString_eq_some.2 ⟨s' ++ t, a, rfl, skipQuotes_append hq t, hp⟩

theorem afterItem_append {close : UInt8} {s : Bytes} {o : Option Bytes} {r : Bytes}
    (h : afterItem close s = some (o, r)) (t : Bytes) :
    afterItem close (s ++ t) = some (o.map (· ++ t), r ++ t) := by
  unfold afterItem at h ⊢
  split at h
  · simp at h
  · next c s' hs =>
    rw [skipWhitespaces_append hs t]
    split at h
    · next hc =>
      simp only [hc, if_true] at h ⊢
      split at h
      · simp at h
      · next d s'' hs' =>
        rw [skipWhitespaces_append hs' t]
        split at h
        · next hd => simp only [Option.some.injEq, Prod.mk.injEq] at h; simp [hd, ← h.1, ← h.2]
        · next hd => simp only [Option.some.injEq, Prod.mk.injEq] at h; simp [hd, ← h.1, ← h.2]
    · next hc =>
      split at h
      · next hd =>
        simp only [Option.some.injEq, Prod.mk.injEq] at h
        simp only [if_neg hc, if_pos hd, ← h.1, ← h.2, Option.map_none]
      · simp at h

/-- What may follow an item cannot continue a number. -/
theorem afterItem_ends {close : UInt8} (hc : isDelim close = true) {s : Bytes}
    {x : Option Bytes × Bytes} (h : afterItem close s = some x) : Ends s := by
  cases s with
  | nil => simp [afterItem, skipWhitespaces] at h
  | cons c s =>
    refine ⟨c, s, rfl, ?_⟩
    by_cases hs : isSpace c = true
    · simp [isDelim, hs]
    · have hw : skipWhitespaces (c :: s) = c :: s := by simp [skipWhitespaces, hs]
      simp only [afterItem, hw] at h
      split at h
      · next h44 => simp [isDelim, h44]
      · split at h
        · next hcl => rw [hcl]; exact hc
        · simp at h

/-! ## Numbers -/

theorem strtodFraction_append {s a : Bytes} {c : UInt8} {r : Bytes}
    (h : strtodFraction s = (a, c :: r)) (t : Bytes) :
    strtodFraction (s ++ t) = (a, c :: (r ++ t)) := by
  cases s with
  | nil => simp [strtodFraction] at h
  | cons d s =>
    simp only [List.cons_append, strtodFraction] at h ⊢
    split at h
    · simp only [Prod.mk.injEq] at h
      obtain ⟨hd, ht⟩ := dropDigits_append h.2 t
      rw [if_pos ‹_›, hd, ht, h.1]
    · simp only [Prod.mk.injEq, List.cons.injEq] at h
      rw [if_neg ‹_›, h.1, h.2.1, h.2.2]

/-- The part of an exponent after its letter: its sign and the text after that. -/
def exponentSign : Bytes → Bool × Bytes
  | [] => (false, [])
  | d :: t => if d = 45 then (true, t) else if d = 43 then (false, t) else (false, d :: t)

theorem strtodExponent_cons (c : UInt8) (s : Bytes) : strtodExponent (c :: s) =
    if c = 101 ∨ c = 69 then
      if (exponentSign s).2.takeWhile isDigit = [] then (0, c :: s)
      else (if (exponentSign s).1 then -(readDecimal ((exponentSign s).2.takeWhile isDigit) : ℤ)
        else readDecimal ((exponentSign s).2.takeWhile isDigit),
        (exponentSign s).2.dropWhile isDigit)
    else (0, c :: s) := by
  cases s <;> rfl

theorem exponentSign_append {s : Bytes} (h : s ≠ []) (t : Bytes) :
    exponentSign (s ++ t) = ((exponentSign s).1, (exponentSign s).2 ++ t) := by
  cases s with
  | nil => exact absurd rfl h
  | cons d s =>
    simp only [List.cons_append, exponentSign]
    split
    · rfl
    · split <;> rfl

theorem strtodExponent_append {s : Bytes} {e : ℤ} {c : UInt8} {r : Bytes}
    (h : strtodExponent s = (e, c :: r)) (hc : isDelim c = true) (t : Bytes) :
    strtodExponent (s ++ t) = (e, c :: (r ++ t)) := by
  cases s with
  | nil => simp [strtodExponent] at h
  | cons d s =>
    rw [strtodExponent_cons] at h
    rw [List.cons_append, strtodExponent_cons]
    by_cases hd : d = 101 ∨ d = 69
    · rw [if_pos hd] at h ⊢
      split at h
      · -- without digits the letter is left, and it is no delimiter
        simp only [Prod.mk.injEq, List.cons.injEq] at h
        obtain ⟨-, rfl, -⟩ := h
        rcases hd with rfl | rfl <;> exact absurd hc (by decide)
      · next hne =>
        simp only [Prod.mk.injEq] at h
        have hs : s ≠ [] := by
          rintro rfl
          exact hne rfl
        obtain ⟨hd', ht'⟩ := dropDigits_append h.2 t
        rw [exponentSign_append hs t, ht', if_neg hne, hd', ← h.1]
    · rw [if_neg hd] at h ⊢
      simp only [Prod.mk.injEq, List.cons.injEq] at h
      rw [h.1, h.2.1, h.2.2]

/-- A decimal numeral begins with a digit or a point. -/
theorem strtodUnsigned_decimal {neg b : Bool} {s : Bytes} {m : ℕ} {e : ℤ} {r : Bytes}
    (h : strtodUnsigned neg s = .decimal b m e r) :
    startsHexadecimal s = false ∧ b = neg ∧
      ¬ (s.takeWhile isDigit = [] ∧ (strtodFraction (s.dropWhile isDigit)).1 = []) ∧
      m = readDecimal (s.takeWhile isDigit ++ (strtodFraction (s.dropWhile isDigit)).1) ∧
      e = (strtodExponent (strtodFraction (s.dropWhile isDigit)).2).1 -
        (strtodFraction (s.dropWhile isDigit)).1.length ∧
      r = (strtodExponent (strtodFraction (s.dropWhile isDigit)).2).2 := by
  unfold strtodUnsigned at h
  split at h
  · simp at h
  · next hx =>
    split at h
    · simp at h
    · split at h
      · simp at h
      · simp only at h
        split at h
        · simp at h
        · next hne =>
          simp only [Strtod.decimal.injEq] at h
          exact ⟨by simpa using hx, h.1.symm, hne, h.2.1.symm, h.2.2.1.symm, h.2.2.2.symm⟩

theorem strtodUnsigned_eq_decimal {neg : Bool} {s : Bytes} (hx : startsHexadecimal s = false)
    (hne : ¬ (s.takeWhile isDigit = [] ∧ (strtodFraction (s.dropWhile isDigit)).1 = [])) :
    strtodUnsigned neg s = .decimal neg
      (readDecimal (s.takeWhile isDigit ++ (strtodFraction (s.dropWhile isDigit)).1))
      ((strtodExponent (strtodFraction (s.dropWhile isDigit)).2).1 -
        (strtodFraction (s.dropWhile isDigit)).1.length)
      (strtodExponent (strtodFraction (s.dropWhile isDigit)).2).2 := by
  -- the first byte is a digit or a point, so the text is neither `inf` nor `nan`
  have hfirst : ∃ c s', s = c :: s' ∧ (isDigit c = true ∨ c = 46) := by
    cases s with
    | nil => simp [strtodFraction] at hne
    | cons c s' =>
      refine ⟨c, s', rfl, ?_⟩
      by_contra hc
      simp only [not_or, Bool.not_eq_true] at hc
      refine hne ⟨by simp [hc.1], ?_⟩
      simp [hc.1, strtodFraction, hc.2]
  obtain ⟨c, s', rfl, hc⟩ := hfirst
  have hlow : ∀ c, isDigit c = true ∨ c = 46 → toLower c ≠ 105 ∧ toLower c ≠ 110 :=
    forall_byte (by decide +kernel)
  have hinf : ((c :: s').take 3).map toLower ≠ bytes "inf" := by
    have : bytes "inf" = [105, 110, 102] := by decide
    simp [this, (hlow c hc).1]
  have hnan : ((c :: s').take 3).map toLower ≠ bytes "nan" := by
    have : bytes "nan" = [110, 97, 110] := by decide
    simp [this, (hlow c hc).2]
  unfold strtodUnsigned
  rw [if_neg (by simp [hx]), if_neg hinf, if_neg hnan]
  exact if_neg hne

/-- A numeral in front of a delimiter does not become a hexadecimal one. -/
theorem startsHexadecimal_append {s : Bytes} {c : UInt8} {r : Bytes}
    (h : (strtodExponent (strtodFraction (s.dropWhile isDigit)).2).2 = c :: r)
    (hc : isDelim c = true) (t : Bytes) (hx : startsHexadecimal s = false) :
    startsHexadecimal (s ++ t) = false := by
  match s with
  | [] => simp [strtodFraction, strtodExponent] at h
  | [z] =>
    by_cases hz : isDigit z = true
    · simp [hz, strtodFraction, strtodExponent] at h
    · have hz' : z ≠ 48 := by rintro rfl; exact hz rfl
      rcases t with _ | ⟨x, _ | ⟨y, t⟩⟩ <;> simp [startsHexadecimal, hz']
  | z :: x :: s =>
    by_cases hzx : z = 48 ∧ (x = 120 ∨ x = 88)
    · -- the letter would be what follows the numeral
      obtain ⟨rfl, hx'⟩ := hzx
      have hr : (x :: s) = c :: r := by
        rcases hx' with rfl | rfl <;>
          simpa [List.dropWhile_cons, isDigit, strtodFraction, strtodExponent] using h
      have hcx : c = x := (List.cons.inj hr).1.symm
      rcases hx' with rfl | rfl <;> subst hcx <;> exact absurd hc (by decide)
    · have hno : ∀ u, startsHexadecimal (z :: x :: u) = false := by
        intro u
        cases u with
        | nil => rfl
        | cons y u =>
          simp only [startsHexadecimal, Bool.and_eq_false_iff]
          left
          have := not_and_or.1 hzx
          simpa using this
      exact hno (s ++ t)

theorem strtodUnsigned_append {neg b : Bool} {s : Bytes} {m : ℕ} {e : ℤ} {c : UInt8} {r : Bytes}
    (h : strtodUnsigned neg s = .decimal b m e (c :: r)) (hc : isDelim c = true) (t : Bytes) :
    strtodUnsigned neg (s ++ t) = .decimal b m e (c :: (r ++ t)) := by
  obtain ⟨hx, rfl, hne, rfl, rfl, hr⟩ := strtodUnsigned_decimal h
  rcases h₂ : s.dropWhile isDigit with _ | ⟨x, s₂⟩
  · rw [h₂] at hr; simp [strtodFraction, strtodExponent] at hr
  rcases h₃ : strtodFraction (x :: s₂) with ⟨fp, _ | ⟨y, s₃⟩⟩
  · rw [h₂, h₃] at hr; simp [strtodExponent] at hr
  have hx' := startsHexadecimal_append hr.symm hc t hx
  obtain ⟨hd, ht⟩ := dropDigits_append h₂ t
  have hf := strtodFraction_append h₃ t
  rw [h₂, h₃] at hr hne
  have he := strtodExponent_append (s := y :: s₃) (Prod.ext rfl hr.symm) hc t
  rw [List.cons_append] at hf he
  rw [strtodUnsigned_eq_decimal hx' (by rw [hd, ht, hf]; exact hne), hd, ht, hf, he]

theorem strtod_append {s : Bytes} {b : Bool} {m : ℕ} {e : ℤ} {c : UInt8} {r : Bytes}
    (h : strtod s = .decimal b m e (c :: r)) (hc : isDelim c = true) (t : Bytes) :
    strtod (s ++ t) = .decimal b m e (c :: (r ++ t)) := by
  cases s with
  | nil => simp [strtod] at h
  | cons d s =>
    simp only [List.cons_append, strtod] at h ⊢
    split at h
    · next hd => rw [if_pos hd]; exact strtodUnsigned_append h hc t
    · next hd => rw [if_neg hd]; exact strtodUnsigned_append h hc t

/-- **A number in front of a delimiter is read as such whatever follows.** -/
theorem parseNumberValue_append {C : Libc} {s : Bytes} {v : JsonValue} {r : Bytes}
    (h : parseNumberValue C s = some (v, r)) (hr : Ends r)
    (hs : ∀ c ∈ s.head?, isDelim c = false) (t : Bytes) :
    parseNumberValue C (s ++ t) = some (v, r ++ t) := by
  obtain ⟨c, r', rfl, hc⟩ := hr
  unfold parseNumberValue at h ⊢
  rcases hn : strtod s with ⟨b, m, e, rest⟩ | _ | _ | _ | _
  · simp only [hn] at h
    split at h
    · simp at h
    · next q hq =>
      split at h
      · next hd =>
        simp only [Option.some.injEq, Prod.mk.injEq] at h
        obtain ⟨rfl, rfl⟩ := h
        simp only [strtod_append hn hc t, hq]
        have hl : (s ++ t).length - (c :: (r' ++ t)).length = s.length - (c :: r').length := by
          simp only [List.length_append, List.length_cons]; omega
        rw [hl, List.take_append_of_le_length (Nat.sub_le _ _), if_pos hd]
        rfl
      · simp at h
  · -- nothing was read, so the text itself starts with the delimiter
    simp only [hn, Option.some.injEq, Prod.mk.injEq] at h
    rw [h.2] at hs
    exact absurd hc (by simp [hs c rfl])
  · simp [hn] at h
  · simp [hn] at h
  · simp [hn] at h

theorem parseNumberValue_number {C : Libc} {s : Bytes} {v : JsonValue} {r : Bytes}
    (h : parseNumberValue C s = some (v, r)) : ∃ q, v = .number q := by
  unfold parseNumberValue at h
  split at h
  · split at h
    · simp at h
    · next q hq =>
      split at h
      · simp only [Option.some.injEq, Prod.mk.injEq] at h; exact ⟨q, h.1.symm⟩
      · simp at h
  · simp only [Option.some.injEq, Prod.mk.injEq] at h; exact ⟨0, h.1.symm⟩
  all_goals simp at h

theorem isDelim_digit {c : UInt8} (h : isDigit c = true) : isDelim c = false := by
  have key : ∀ c, isDigit c = true → isDelim c = false := forall_byte (by decide +kernel)
  exact key c h

/-! ## Values -/

theorem take_append_of_eq {s t w : Bytes} {n : ℕ} (hw : w.length = n) (h : s.take n = w) :
    (s ++ t).take n = w ∧ (s ++ t).drop n = s.drop n ++ t := by
  have hl : n ≤ s.length := by
    have := congrArg List.length h
    rw [List.length_take] at this
    omega
  rw [List.take_append_of_le_length hl, List.drop_append_of_le_length hl]
  exact ⟨h, rfl⟩

theorem parseBooleanValue_append {s : Bytes} {v : JsonValue} {r : Bytes}
    (h : parseBooleanValue s = some (v, r)) (t : Bytes) :
    parseBooleanValue (s ++ t) = some (v, r ++ t) := by
  have htf : (bytes "true").length = 4 ∧ (bytes "false").length = 5 := by decide
  unfold parseBooleanValue at h ⊢
  split at h
  · next hs =>
    simp only [Option.some.injEq, Prod.mk.injEq] at h
    obtain ⟨ht, hd⟩ := take_append_of_eq (t := t) htf.1 hs
    rw [if_pos ht, hd, h.2, h.1]
  · next hs =>
    split at h
    · next hs' =>
      simp only [Option.some.injEq, Prod.mk.injEq] at h
      obtain ⟨ht, hd⟩ := take_append_of_eq (t := t) htf.2 hs'
      have hs'' : (s ++ t).take 4 ≠ bytes "true" := by
        have : (s ++ t).take 4 = (bytes "false").take 4 := by
          rw [← ht, List.take_take]; rfl
        rw [this]; decide
      rw [if_neg hs'', if_pos ht, hd, h.2, h.1]
    · simp at h

theorem parseBooleanValue_boolean {s : Bytes} {v : JsonValue} {r : Bytes}
    (h : parseBooleanValue s = some (v, r)) : ∃ b, v = .boolean b := by
  unfold parseBooleanValue at h
  split at h
  · simp only [Option.some.injEq, Prod.mk.injEq] at h; exact ⟨_, h.1.symm⟩
  · split at h
    · simp only [Option.some.injEq, Prod.mk.injEq] at h; exact ⟨_, h.1.symm⟩
    · simp at h

theorem parseStringValue_eq_some {s : Bytes} {v : JsonValue} {r : Bytes} :
    parseStringValue s = some (v, r) ↔ ∃ str, getQuotedString s = some (str, r) ∧
      v = .string str := by
  simp only [parseStringValue, bind, Option.bind_eq_some_iff, Prod.exists, pure,
    Option.some.injEq, Prod.mk.injEq]
  constructor
  · rintro ⟨str, r', hq, rfl, rfl⟩
    exact ⟨str, hq, rfl⟩
  · rintro ⟨str, hq, rfl⟩
    exact ⟨str, r, hq, rfl, rfl⟩

theorem parseNullValue_append {s : Bytes} {v : JsonValue} {r : Bytes}
    (h : parseNullValue s = some (v, r)) (t : Bytes) :
    parseNullValue (s ++ t) = some (v, r ++ t) := by
  unfold parseNullValue at h ⊢
  split at h
  · next hs =>
    simp only [Option.some.injEq, Prod.mk.injEq] at h
    obtain ⟨ht, hd⟩ := take_append_of_eq (t := t) (by decide) hs
    rw [if_pos ht, hd, h.2, h.1]
  · simp at h

/-- What holds of reading a value with more text behind it. -/
def Appends (pv : Bytes → Option (JsonValue × Bytes)) : Prop :=
  ∀ s v r t, pv s = some (v, r) → (∀ q, v = .number q → Ends r) → pv (s ++ t) = some (v, r ++ t)

section
variable {pv : Bytes → Option (JsonValue × Bytes)}

/-- What a round of `parseArrayLoop` does. -/
theorem parseArrayLoop_eq_some {fuel : ℕ} {items : List JsonValue} {s : Bytes}
    {x : JsonValue × Bytes} : parseArrayLoop pv (fuel + 1) items s = some x ↔
      ∃ v s' o r, pv s = some (v, s') ∧ afterItem 93 s' = some (o, r) ∧
        match o with
        | none => x = (.array (items ++ [v]), r)
        | some s'' => parseArrayLoop pv fuel (items ++ [v]) s'' = some x := by
  simp only [parseArrayLoop, bind, Option.bind_eq_some_iff, Prod.exists, pure]
  constructor
  · rintro ⟨v, s', hv, o, r, ha, h⟩
    refine ⟨v, s', o, r, hv, ha, ?_⟩
    cases o with
    | none => exact (Option.some.inj h).symm
    | some s'' => exact h
  · rintro ⟨v, s', o, r, hv, ha, h⟩
    refine ⟨v, s', hv, o, r, ha, ?_⟩
    cases o with
    | none => exact congrArg some h.symm
    | some s'' => exact h

/-- What a round of `parseObjectLoop` does. -/
theorem parseObjectLoop_eq_some {fuel : ℕ} {object : JsonObject} {s : Bytes}
    {x : JsonValue × Bytes} : parseObjectLoop pv (fuel + 1) object s = some x ↔
      ∃ key s₁ s₂ v s₃ object' o r, getQuotedString s = some (key, s₁) ∧ (0 : UInt8) ∉ key ∧
        skipWhitespaces s₁ = 58 :: s₂ ∧ pv s₂ = some (v, s₃) ∧
        jsonObjectAdd object key v = some object' ∧ afterItem 125 s₃ = some (o, r) ∧
        match o with
        | none => x = (.object object', r)
        | some s' => parseObjectLoop pv fuel object' s' = some x := by
  simp only [parseObjectLoop, bind, Option.bind_eq_some_iff, Prod.exists, pure]
  constructor
  · rintro ⟨key, s₁, hk, h⟩
    split at h
    · simp at h
    · next h0 =>
      simp only [Option.bind_eq_some_iff, expect_eq_some, Prod.exists] at h
      obtain ⟨s₂, hs, v, s₃, hv, object', ho, o, r, ha, h⟩ := h
      refine ⟨key, s₁, s₂, v, s₃, object', o, r, hk, h0, hs, hv, ho, ha, ?_⟩
      cases o with
      | none => exact (Option.some.inj h).symm
      | some s' => exact h
  · rintro ⟨key, s₁, s₂, v, s₃, object', o, r, hk, h0, hs, hv, ho, ha, h⟩
    refine ⟨key, s₁, hk, ?_⟩
    rw [if_neg h0]
    simp only [Option.bind_eq_some_iff, expect_eq_some, Prod.exists]
    refine ⟨s₂, hs, v, s₃, hv, object', ho, o, r, ha, ?_⟩
    cases o with
    | none => exact congrArg some h.symm
    | some s' => exact h

theorem parseArrayLoop_append (hpv : Appends pv) {fuel fuel' : ℕ} (hf : fuel ≤ fuel')
    {items : List JsonValue} {s : Bytes} {v : JsonValue} {r : Bytes}
    (h : parseArrayLoop pv fuel items s = some (v, r)) (t : Bytes) :
    parseArrayLoop pv fuel' items (s ++ t) = some (v, r ++ t) := by
  induction fuel generalizing fuel' items s with
  | zero => simp [parseArrayLoop] at h
  | succ fuel ih =>
    obtain ⟨fuel', rfl⟩ : ∃ k, fuel' = k + 1 := ⟨fuel' - 1, by omega⟩
    obtain ⟨w, s', o, r', hv, ha, h⟩ := parseArrayLoop_eq_some.1 h
    refine parseArrayLoop_eq_some.2 ⟨w, s' ++ t, o.map (· ++ t), r' ++ t,
      hpv _ _ _ t hv fun _ _ => afterItem_ends (by decide) ha, afterItem_append ha t, ?_⟩
    cases o with
    | none => simp only [Prod.mk.injEq] at h; simp [h.1, h.2]
    | some s'' => exact ih (by omega) h

theorem parseObjectLoop_append (hpv : Appends pv) {fuel fuel' : ℕ} (hf : fuel ≤ fuel')
    {object : JsonObject} {s : Bytes} {v : JsonValue} {r : Bytes}
    (h : parseObjectLoop pv fuel object s = some (v, r)) (t : Bytes) :
    parseObjectLoop pv fuel' object (s ++ t) = some (v, r ++ t) := by
  induction fuel generalizing fuel' object s with
  | zero => simp [parseObjectLoop] at h
  | succ fuel ih =>
    obtain ⟨fuel', rfl⟩ : ∃ k, fuel' = k + 1 := ⟨fuel' - 1, by omega⟩
    obtain ⟨key, s₁, s₂, w, s₃, object', o, r', hk, h0, hs, hv, ho, ha, h⟩ :=
      parseObjectLoop_eq_some.1 h
    refine parseObjectLoop_eq_some.2 ⟨key, s₁ ++ t, s₂ ++ t, w, s₃ ++ t, object', o.map (· ++ t),
      r' ++ t, getQuotedString_append hk t, h0, skipWhitespaces_append hs t,
      hpv _ _ _ t hv fun _ _ => afterItem_ends (by decide) ha, ho, afterItem_append ha t, ?_⟩
    cases o with
    | none => simp only [Prod.mk.injEq] at h; simp [h.1, h.2]
    | some s' => exact ih (by omega) h

theorem parseArrayValue_append (hpv : Appends pv) {s : Bytes} {v : JsonValue} {r : Bytes}
    (h : parseArrayValue pv s = some (v, r)) (t : Bytes) :
    parseArrayValue pv (s ++ t) = some (v, r ++ t) := by
  unfold parseArrayValue at h ⊢
  split at h
  · simp at h
  · next c s' hs =>
    rw [skipWhitespaces_append hs t]
    split at h
    · next hc => simp only [Option.some.injEq, Prod.mk.injEq] at h; simp [hc, h.1, h.2]
    · next hc =>
      simp only [if_neg hc]
      exact parseArrayLoop_append hpv (by simp) h t

theorem parseObjectValue_append (hpv : Appends pv) {s : Bytes} {v : JsonValue} {r : Bytes}
    (h : parseObjectValue pv s = some (v, r)) (t : Bytes) :
    parseObjectValue pv (s ++ t) = some (v, r ++ t) := by
  unfold parseObjectValue at h ⊢
  split at h
  · simp at h
  · next c s' hs =>
    rw [skipWhitespaces_append hs t]
    split at h
    · next hc => simp only [Option.some.injEq, Prod.mk.injEq] at h; simp [hc, h.1, h.2]
    · next hc =>
      simp only [if_neg hc]
      exact parseObjectLoop_append hpv (by simp) h t

theorem parseArrayLoop_array {fuel : ℕ} {items : List JsonValue} {s : Bytes} {v : JsonValue}
    {r : Bytes} (h : parseArrayLoop pv fuel items s = some (v, r)) : ∃ l, v = .array l := by
  induction fuel generalizing items s with
  | zero => simp [parseArrayLoop] at h
  | succ fuel ih =>
    obtain ⟨w, s', o, r', -, -, h⟩ := parseArrayLoop_eq_some.1 h
    cases o with
    | none => simp only [Prod.mk.injEq] at h; exact ⟨_, h.1⟩
    | some s'' => exact ih h

theorem parseArrayValue_array {s : Bytes} {v : JsonValue} {r : Bytes}
    (h : parseArrayValue pv s = some (v, r)) : ∃ l, v = .array l := by
  unfold parseArrayValue at h
  split at h
  · simp at h
  · split at h
    · simp only [Option.some.injEq, Prod.mk.injEq] at h; exact ⟨_, h.1.symm⟩
    · exact parseArrayLoop_array h

theorem parseObjectLoop_object {fuel : ℕ} {object : JsonObject} {s : Bytes} {v : JsonValue}
    {r : Bytes} (h : parseObjectLoop pv fuel object s = some (v, r)) : ∃ o, v = .object o := by
  induction fuel generalizing object s with
  | zero => simp [parseObjectLoop] at h
  | succ fuel ih =>
    obtain ⟨_, _, _, _, _, _, o, _, -, -, -, -, -, -, h⟩ := parseObjectLoop_eq_some.1 h
    cases o with
    | none => simp only [Prod.mk.injEq] at h; exact ⟨_, h.1⟩
    | some s' => exact ih h

theorem parseObjectValue_object {s : Bytes} {v : JsonValue} {r : Bytes}
    (h : parseObjectValue pv s = some (v, r)) : ∃ o, v = .object o := by
  unfold parseObjectValue at h
  split at h
  · simp at h
  · split at h
    · simp only [Option.some.injEq, Prod.mk.injEq] at h; exact ⟨_, h.1.symm⟩
    · exact parseObjectLoop_object h

end

/-- What `parseValue` does, by the first byte that is no white space. -/
theorem parseValue_eq_some {C : Libc} {levels : ℕ} {s : Bytes} {x : JsonValue × Bytes} :
    parseValue C (levels + 1) s = some x ↔ ∃ c s', skipWhitespaces s = c :: s' ∧
      ((c = 123 ∧ parseObjectValue (parseValue C levels) s' = some x) ∨
        (c = 91 ∧ parseArrayValue (parseValue C levels) s' = some x) ∨
        (c = 34 ∧ parseStringValue (c :: s') = some x) ∨
        ((c = 102 ∨ c = 116) ∧ parseBooleanValue (c :: s') = some x) ∨
        ((c = 45 ∨ isDigit c = true) ∧ parseNumberValue C (c :: s') = some x) ∨
        (c = 110 ∧ parseNullValue (c :: s') = some x)) := by
  have hnum : ∀ c, c = 45 ∨ isDigit c = true →
      c ≠ 123 ∧ c ≠ 91 ∧ c ≠ 34 ∧ ¬ (c = 102 ∨ c = 116) := forall_byte (by decide +kernel)
  rw [parseValue]
  constructor
  · intro h
    split at h
    · simp at h
    · next c s' hs =>
      refine ⟨c, s', hs, ?_⟩
      by_cases h₁ : c = 123
      · exact Or.inl ⟨h₁, by rwa [if_pos h₁] at h⟩
      rw [if_neg h₁] at h
      by_cases h₂ : c = 91
      · exact Or.inr (Or.inl ⟨h₂, by rwa [if_pos h₂] at h⟩)
      rw [if_neg h₂] at h
      by_cases h₃ : c = 34
      · exact Or.inr (Or.inr (Or.inl ⟨h₃, by rwa [if_pos h₃] at h⟩))
      rw [if_neg h₃] at h
      by_cases h₄ : c = 102 ∨ c = 116
      · exact Or.inr (Or.inr (Or.inr (Or.inl ⟨h₄, by rwa [if_pos h₄] at h⟩)))
      rw [if_neg h₄] at h
      by_cases h₅ : c = 45 ∨ isDigit c = true
      · exact Or.inr (Or.inr (Or.inr (Or.inr (Or.inl ⟨h₅, by rwa [if_pos h₅] at h⟩))))
      rw [if_neg h₅] at h
      by_cases h₆ : c = 110
      · exact Or.inr (Or.inr (Or.inr (Or.inr (Or.inr ⟨h₆, by rwa [if_pos h₆] at h⟩))))
      · rw [if_neg h₆] at h; simp at h
  · rintro ⟨c, s', hs, h⟩
    simp only [hs]
    rcases h with ⟨rfl, h⟩ | ⟨rfl, h⟩ | ⟨rfl, h⟩ | ⟨rfl | rfl, h⟩ | ⟨hc, h⟩ | ⟨rfl, h⟩
    any_goals exact h
    obtain ⟨h₁, h₂, h₃, h₄⟩ := hnum c hc
    rwa [if_neg h₁, if_neg h₂, if_neg h₃, if_neg h₄, if_pos hc]

/-- **More text behind a value does not change it**, a number excepted. -/
theorem parseValue_append (C : Libc) (levels : ℕ) : Appends (parseValue C levels) := by
  induction levels with
  | zero => intro s v r t h _; simp [parseValue] at h
  | succ levels ih =>
    intro s v r t h hn
    obtain ⟨c, s', hs, h⟩ := parseValue_eq_some.1 h
    refine parseValue_eq_some.2 ⟨c, s' ++ t, skipWhitespaces_append hs t, ?_⟩
    rcases h with ⟨hc, h⟩ | ⟨hc, h⟩ | ⟨hc, h⟩ | ⟨hc, h⟩ | ⟨hc, h⟩ | ⟨hc, h⟩
    · exact Or.inl ⟨hc, parseObjectValue_append ih h t⟩
    · exact Or.inr (Or.inl ⟨hc, parseArrayValue_append ih h t⟩)
    · refine Or.inr (Or.inr (Or.inl ⟨hc, ?_⟩))
      obtain ⟨str, hq, rfl⟩ := parseStringValue_eq_some.1 h
      exact parseStringValue_eq_some.2 ⟨str, getQuotedString_append hq t, rfl⟩
    · exact Or.inr (Or.inr (Or.inr (Or.inl ⟨hc, parseBooleanValue_append h t⟩)))
    · refine Or.inr (Or.inr (Or.inr (Or.inr (Or.inl ⟨hc, ?_⟩))))
      obtain ⟨q, rfl⟩ := parseNumberValue_number h
      refine parseNumberValue_append h (hn q rfl) (fun d hd => ?_) t
      simp only [List.head?_cons, Option.mem_def, Option.some.injEq] at hd
      subst hd
      rcases hc with rfl | hc
      exacts [by decide, isDelim_digit hc]
    · exact Or.inr (Or.inr (Or.inr (Or.inr (Or.inr ⟨hc, parseNullValue_append h t⟩))))

/-! ## Texts -/

/-- The first byte that is no white space tells whether the value is an object. -/
theorem parseValue_isObject {C : Libc} {levels : ℕ} {s : Bytes} {v : JsonValue} {r : Bytes}
    (h : parseValue C (levels + 1) s = some (v, r)) :
    (∃ o, v = .object o) ↔ (skipWhitespaces s).head? = some 123 := by
  obtain ⟨c, s', hs, h⟩ := parseValue_eq_some.1 h
  rw [hs, List.head?_cons, Option.some.injEq]
  rcases h with ⟨hc, h⟩ | ⟨hc, h⟩ | ⟨hc, h⟩ | ⟨hc, h⟩ | ⟨hc, h⟩ | ⟨hc, h⟩
  · simp only [hc, iff_true]; exact parseObjectValue_object h
  · obtain ⟨items, rfl⟩ := parseArrayValue_array h
    simp [hc]
  · obtain ⟨str, -, rfl⟩ := parseStringValue_eq_some.1 h
    simp [hc]
  · obtain ⟨b, rfl⟩ := parseBooleanValue_boolean h
    rcases hc with rfl | rfl <;> simp
  · obtain ⟨q, rfl⟩ := parseNumberValue_number h
    have : c ≠ 123 := by
      rintro rfl
      exact absurd hc (by decide)
    simp [this]
  · have hv : v = .null := by
      unfold parseNullValue at h
      split at h
      · simp only [Option.some.injEq, Prod.mk.injEq] at h; exact h.1.symm
      · simp at h
    simp [hc, hv]

/-- A value starts with an ASCII character. -/
theorem parseValue_skip {C : Libc} {levels : ℕ} {s : Bytes} {x : JsonValue × Bytes}
    (h : parseValue C levels s = some x) : ∃ c r, skipWhitespaces s = c :: r ∧ c < 0x80 := by
  cases levels with
  | zero => simp [parseValue] at h
  | succ levels =>
    have hdig : ∀ c : UInt8, isDigit c = true → c < 0x80 := forall_byte (by decide +kernel)
    obtain ⟨c, s', hs, h⟩ := parseValue_eq_some.1 h
    refine ⟨c, s', hs, ?_⟩
    rcases h with ⟨rfl, -⟩ | ⟨rfl, -⟩ | ⟨rfl, -⟩ | ⟨rfl | rfl, -⟩ | ⟨rfl | hc, -⟩ | ⟨rfl, -⟩
    any_goals decide
    exact hdig c hc

/-- A text that is read has no part of a byte order mark in it. -/
theorem skipBom_append {C : Libc} {levels : ℕ} {s : Bytes} {x : JsonValue × Bytes}
    (h : parseValue C levels (skipBom s) = some x) (t : Bytes) :
    skipBom (s ++ t) = skipBom s ++ t := by
  unfold skipBom at h ⊢
  by_cases hs : s.take 3 = [0xEF, 0xBB, 0xBF]
  · obtain ⟨h₁, h₂⟩ := take_append_of_eq (t := t) (by decide) hs
    rw [if_pos hs, if_pos h₁, h₂]
  · rw [if_neg hs] at h ⊢
    rw [if_neg]
    intro ht
    -- then the text begins with the first byte of the mark, which starts no value
    obtain ⟨c, r, hc, hlt⟩ := parseValue_skip h
    cases s with
    | nil => simp [skipWhitespaces] at hc
    | cons d s =>
      have hd : d = 0xEF := by simpa using congrArg List.head? ht
      subst hd
      have : skipWhitespaces (0xEF :: s) = 0xEF :: s := rfl
      rw [this] at hc
      rw [← (List.cons.inj hc).1] at hlt
      exact absurd hlt (by decide)

theorem jsonParseString_eq_some {C : Libc} {m : Bytes} {v : JsonValue} :
    jsonParseString C m = some v ↔
      ∃ r, parseValue C (maxNesting + 1) (skipBom (cstr m)) = some (v, r) := by
  simp [jsonParseString]

/-- **An object at the start of a text is the value of the whole text.** -/
theorem jsonParseString_append_object {C : Libc} {m : Bytes} {o : JsonObject}
    (h : jsonParseString C m = some (.object o)) (t : Bytes) :
    jsonParseString C (m ++ t) = some (.object o) := by
  rw [jsonParseString_eq_some] at h ⊢
  obtain ⟨r, h⟩ := h
  rcases cstr_append m t with he | ⟨hm, he⟩
  · exact ⟨r, by rw [he]; exact h⟩
  · refine ⟨r ++ cstr t, ?_⟩
    rw [hm] at h
    rw [he, skipBom_append h]
    exact parseValue_append C _ _ _ _ _ h (by simp)

/-- If a text and a prefix of it are both read, either both are objects or none is. -/
theorem jsonParseString_append_isObject {C : Libc} {m t : Bytes} {v w : JsonValue}
    (hv : jsonParseString C m = some v) (hw : jsonParseString C (m ++ t) = some w) :
    (∃ o, v = .object o) ↔ ∃ o, w = .object o := by
  rw [jsonParseString_eq_some] at hv hw
  obtain ⟨r, hv⟩ := hv
  obtain ⟨r', hw⟩ := hw
  rw [parseValue_isObject hv, parseValue_isObject hw]
  rcases cstr_append m t with he | ⟨hm, he⟩
  · rw [he]
  · rw [hm] at hv ⊢
    obtain ⟨c, u, hc, -⟩ := parseValue_skip hv
    rw [he, skipBom_append hv, skipWhitespaces_append hc, hc]; rfl

end Slirp4netns
