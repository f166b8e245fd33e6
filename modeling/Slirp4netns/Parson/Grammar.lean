/-
  slirp4netns formalization — the language that parson reads.

  `Value` is the grammar of RFC 4627, for a dialect: its white space, its
  numerals, which names the members of an object may have, and whether a comma
  may stand before a closing bracket.  `rfc4627` is the dialect of the RFC and
  `parson` that of the source.

  * `parseValue_sound` and `parseValue_complete`: `parse_value` reads the texts
    of its dialect with at most so many levels, and nothing else;
  * `jsonParseString_iff`: hence `json_parse_string` returns a value that is no
    number exactly if the text starts with a text of that value;
  * `jsonParseString_rfc4627` (in `Parson.Texts`): the texts of the RFC are read as what they say,
    as long as they keep to the names and the numerals of both dialects.
-/
import Slirp4netns.Parson.Tokens

namespace Slirp4netns

/-! ## The grammar -/

/-- What dialects of JSON differ in. -/
structure Dialect where
  space : UInt8 → Bool
  numeral : JsonNumeral → Prop
  /-- the names of an object's members -/
  names : List Bytes → Prop
  /-- a comma may follow the last item -/
  trailingComma : Prop

namespace Dialect

/-- JSON. -/
def rfc4627 : Dialect where
  space c := c == 32 || c == 9 || c == 10 || c == 13
  numeral := JsonNumeral.Rfc4627
  names _ := True
  trailingComma := False

/-- What parson reads. -/
def parson : Dialect where
  space := isSpace
  numeral := JsonNumeral.Accepted
  names names := names.Nodup ∧ ∀ name ∈ names, (0 : UInt8) ∉ name
  trailingComma := True

end Dialect

section
variable (D : Dialect)

/-- White space. -/
def Space (w : Bytes) : Prop := ∀ c ∈ w, D.space c = true

instance (w : Bytes) : Decidable (Space D w) := List.decidableBAll (fun c => D.space c = true) w

/-- One text or several with commas between them, up to the closing bracket. -/
inductive Separated {α : Type} (E : Bytes → α → Prop) : Bytes → List α → Prop
  | last {t w : Bytes} {x : α} (h : E t x) (hw : Space D w) : Separated E (t ++ w) [x]
  | comma {t w w' : Bytes} {x : α} (hD : D.trailingComma) (h : E t x) (hw : Space D w)
      (hw' : Space D w') : Separated E (t ++ w ++ 44 :: w') [x]
  | cons {t w w' ts : Bytes} {x : α} {xs : List α} (h : E t x) (hw : Space D w)
      (hw' : Space D w') (hs : Separated E ts xs) : Separated E (t ++ w ++ 44 :: (w' ++ ts)) (x :: xs)

/-- A member of an object. -/
inductive Member (P : Bytes → JsonValue → Prop) : Bytes → Bytes × JsonValue → Prop
  | mk {k key w w' t : Bytes} {v : JsonValue} (hk : Chars k key) (hw : Space D w)
      (hw' : Space D w') (h : P t v) :
      Member P (34 :: (k ++ 34 :: (w ++ 58 :: (w' ++ t)))) (key, v)

variable (C : Libc)

/-- The texts of a value, if those of the values in it are given by `P`. -/
inductive Value (P : Bytes → JsonValue → Prop) : Bytes → JsonValue → Prop
  | null : Value P (bytes "null") .null
  | true : Value P (bytes "true") (.boolean true)
  | false : Value P (bytes "false") (.boolean false)
  | number {n : JsonNumeral} {d : Double} (hn : D.numeral n)
      (hd : C.strtodRound n.negative n.value = some d) : Value P n.text (.number d)
  | string {k str : Bytes} (hk : Chars k str) : Value P (34 :: (k ++ [34])) (.string str)
  | emptyArray {w : Bytes} (hw : Space D w) : Value P (91 :: (w ++ [93])) (.array [])
  | array {w t : Bytes} {items : List JsonValue} (hw : Space D w) (h : Separated D P t items) :
      Value P (91 :: (w ++ (t ++ [93]))) (.array items)
  | emptyObject {w : Bytes} (hw : Space D w) : Value P (123 :: (w ++ [125])) (.object [])
  | object {w t : Bytes} {members : JsonObject} (hw : Space D w)
      (h : Separated D (Member D P) t members) (hnames : D.names (members.map Prod.fst)) :
      Value P (123 :: (w ++ (t ++ [125]))) (.object members)

/-- The texts of a value of at most `levels` levels. -/
def JsonText : ℕ → Bytes → JsonValue → Prop
  | 0 => fun _ _ => False
  | levels + 1 => Value D C (JsonText levels)

end

/-! ## White space -/

theorem skipWhitespaces_eq (s : Bytes) : ∃ w, Space .parson w ∧ s = w ++ skipWhitespaces s :=
  ⟨s.takeWhile isSpace, fun _ hc => List.mem_takeWhile_imp hc,
    List.takeWhile_append_dropWhile.symm⟩

theorem skipWhitespaces_head {s r : Bytes} {c : UInt8} (h : skipWhitespaces s = c :: r) :
    isSpace c = false := by
  have := List.head?_dropWhile_not isSpace s
  rw [← skipWhitespaces, h] at this
  simpa using this

theorem skipWhitespaces_space {w : Bytes} (hw : Space .parson w) (s : Bytes) :
    skipWhitespaces (w ++ s) = skipWhitespaces s := List.dropWhile_append_of_pos hw

/-- A text that starts with neither white space nor the closing bracket. -/
def Starts (close : UInt8) (t : Bytes) : Prop :=
  ∃ c t', t = c :: t' ∧ isSpace c = false ∧ c ≠ close

theorem Starts.append {close : UInt8} {t : Bytes} (h : Starts close t) (r : Bytes) :
    Starts close (t ++ r) := by
  obtain ⟨c, t', rfl, hs, hc⟩ := h
  exact ⟨c, t' ++ r, rfl, hs, hc⟩

theorem Starts.skipWhitespaces {close : UInt8} {t : Bytes} (h : Starts close t) :
    skipWhitespaces t = t := by
  obtain ⟨c, t', rfl, hs, -⟩ := h
  exact skipWhitespaces_of_not_space hs t'

theorem Starts.space_eq_nil {close : UInt8} {w s : Bytes} (h : Starts close (w ++ s))
    (hw : Space .parson w) : w = [] := by
  cases w with
  | nil => rfl
  | cons c w =>
    obtain ⟨d, t, he, hs, -⟩ := h
    obtain rfl := (List.cons.inj he).1
    rw [show isSpace c = true from hw c (List.mem_cons_self ..)] at hs
    cases hs

/-! ## Brackets and commas -/

/-- What stands between two items, or behind the last one. -/
theorem afterItem_eq_some {close : UInt8} {s : Bytes} {o : Option Bytes} {r : Bytes}
    (h : afterItem close s = some (o, r)) : ∃ w, Space .parson w ∧
      ((o = none ∧ s = w ++ close :: r) ∨
        ∃ w', Space .parson w' ∧ ((o = none ∧ s = w ++ 44 :: (w' ++ close :: r)) ∨
          ∃ s', o = some s' ∧ Starts close s' ∧ s = w ++ 44 :: (w' ++ s'))) := by
  obtain ⟨w, hw, hs⟩ := skipWhitespaces_eq s
  refine ⟨w, hw, ?_⟩
  rw [afterItem] at h
  split at h
  · cases h
  next c s₁ hs₁ =>
  rw [hs₁] at hs
  split at h
  · next hc =>
    obtain ⟨w', hw', hs'⟩ := skipWhitespaces_eq s₁
    refine .inr ⟨w', hw', ?_⟩
    split at h
    · cases h
    next d s₂ hs₂ =>
    rw [hs₂] at hs'
    split at h
    · next hd =>
      cases h
      exact .inl ⟨rfl, by rw [hs, hc, hs', hd]⟩
    · next hd =>
      cases h
      refine .inr ⟨_, rfl, ⟨d, _, rfl, skipWhitespaces_head hs₂, hd⟩, by rw [hs, hc, hs']⟩
  · split at h
    · next hc =>
      cases h
      exact .inl ⟨rfl, by rw [hs, hc]⟩
    · cases h

section
variable {close : UInt8} {w w' : Bytes}

theorem afterItem_space (hw : Space .parson w) (s : Bytes) :
    afterItem close (w ++ s) = afterItem close s := by
  rw [afterItem, skipWhitespaces_space hw, ← afterItem]

/-- White space around a comma is passed. -/
theorem afterItem_comma_space (hw : Space .parson w) (hw' : Space .parson w') (s : Bytes) :
    afterItem close (w ++ 44 :: (w' ++ s)) = afterItem close (44 :: s) := by
  rw [afterItem_space hw, afterItem, afterItem, skipWhitespaces_of_not_space (by decide),
    skipWhitespaces_of_not_space (by decide)]
  simp only [skipWhitespaces_space hw', if_true]

theorem afterItem_comma_close (hs : isSpace close = false) (r : Bytes) :
    afterItem close (44 :: close :: r) = some (none, r) := by
  rw [afterItem, skipWhitespaces_of_not_space (by decide)]
  simp only [if_true, skipWhitespaces_of_not_space hs]

theorem Starts.afterItem {s : Bytes} (h : Starts close s) :
    ∃ r, afterItem close (44 :: s) = some (some s, r) := by
  obtain ⟨c, t, rfl, hs, hc⟩ := h
  exact ⟨t, afterItem_comma hs hc t⟩

end

section
variable {α : Type} {E : Bytes → α → Prop} {close : UInt8} {t s r : Bytes} {x : α}

/-- The last item and the closing bracket. -/
theorem separated_last (h : E t x) (ha : afterItem close s = some (none, r)) :
    ∃ u, Separated .parson E u [x] ∧ t ++ s = u ++ close :: r := by
  obtain ⟨w, hw, ⟨-, rfl⟩ | ⟨w', hw', ⟨-, rfl⟩ | ⟨s', hs', -⟩⟩⟩ := afterItem_eq_some ha
  · exact ⟨t ++ w, .last h hw, by simp⟩
  · exact ⟨t ++ w ++ 44 :: w', .comma trivial h hw hw', by simp⟩
  · cases hs'

/-- One more item in front of others. -/
theorem separated_cons {s' ts r' : Bytes} {xs : List α} (h : E t x)
    (ha : afterItem close s = some (some s', r')) (hs : Separated .parson E ts xs)
    (he : s' = ts ++ close :: r) :
    ∃ u, Separated .parson E u (x :: xs) ∧ t ++ s = u ++ close :: r := by
  obtain ⟨w, hw, ⟨hs', -⟩ | ⟨w', hw', ⟨hs', -⟩ | ⟨s'', hs', -, rfl⟩⟩⟩ := afterItem_eq_some ha
  · cases hs'
  · cases hs'
  · cases hs'
    exact ⟨t ++ w ++ 44 :: (w' ++ ts), .cons h hw hw' hs, by simp [he]⟩

theorem Separated.starts (hE : ∀ {t x}, E t x → Starts close t) {xs : List α} {D : Dialect}
    (h : Separated D E t xs) : Starts close t := by
  cases h with
  | last h => exact (hE h).append _
  | comma _ h =>
    rw [List.append_assoc]
    exact (hE h).append _
  | cons h =>
    rw [List.append_assoc]
    exact (hE h).append _

theorem Separated.length_le {D : Dialect} {xs : List α} (h : Separated D E t xs) :
    xs.length ≤ t.length + 1 := by
  induction h with
  | last | comma => simp
  | cons _ _ _ _ ih =>
    simp only [List.length_cons, List.length_append]
    omega

end

/-! ## What is read is in the language -/

/-- What `pv` reads, after white space, is a text as `P` says.  A `-` that starts no numeral is read
    as a number too, but not passed. -/
def Sound (P : Bytes → JsonValue → Prop) (pv : Bytes → Option (JsonValue × Bytes)) : Prop :=
  ∀ {s v r}, pv s = some (v, r) →
    (∃ w t, Space .parson w ∧ s = w ++ (t ++ r) ∧ P t v) ∨ (v = .number 0 ∧ r.head? = some 45)

section
variable {P : Bytes → JsonValue → Prop} {pv : Bytes → Option (JsonValue × Bytes)}

theorem afterItem_minus {close : UInt8} (hc : close ≠ 45) {s : Bytes} (hs : s.head? = some 45) :
    afterItem close s = none := by
  obtain ⟨t, rfl⟩ := List.head?_eq_some_iff.1 hs
  rw [afterItem, skipWhitespaces_of_not_space (by decide)]
  simp [hc.symm]

/-- A value in brackets is one of the language. -/
theorem Sound.item (hpv : Sound P pv) {close : UInt8} (hc : close ≠ 45) {s r : Bytes}
    {v : JsonValue} (h : pv s = some (v, r)) {x : Option Bytes × Bytes}
    (ha : afterItem close r = some x) : ∃ w t, Space .parson w ∧ s = w ++ (t ++ r) ∧ P t v := by
  rcases hpv h with h | ⟨-, h⟩
  · exact h
  · rw [afterItem_minus hc h] at ha
    cases ha

theorem parseArrayLoop_sound (hpv : Sound P pv) {fuel : ℕ} {items : List JsonValue} {s r : Bytes}
    {v : JsonValue} (hs : Starts 93 s) (h : parseArrayLoop pv fuel items s = some (v, r)) :
    ∃ t xs, Separated .parson P t xs ∧ s = t ++ 93 :: r ∧ v = .array (items ++ xs) := by
  induction fuel generalizing items s with
  | zero => cases h
  | succ fuel ih =>
    obtain ⟨x, s', o, r', hx, ha, h⟩ := parseArrayLoop_eq_some.1 h
    obtain ⟨w, t, hw, rfl, ht⟩ := hpv.item (by decide) hx ha
    obtain rfl := hs.space_eq_nil hw
    cases o with
    | none =>
      cases h
      obtain ⟨u, hu, he⟩ := separated_last ht ha
      exact ⟨u, [x], hu, he, rfl⟩
    | some s'' =>
      obtain ⟨w, -, ⟨hn, -⟩ | ⟨w', -, ⟨hn, -⟩ | ⟨_, hn, hs'', -⟩⟩⟩ := afterItem_eq_some ha <;>
        cases hn
      obtain ⟨ts, xs, hts, he, rfl⟩ := ih hs'' h
      obtain ⟨u, hu, he⟩ := separated_cons ht ha hts he
      exact ⟨u, x :: xs, hu, he, by simp⟩

theorem jsonObjectAdd_eq_some {object object' : JsonObject} {key : Bytes} {v : JsonValue} :
    jsonObjectAdd object key v = some object' ↔
      key ∉ object.map Prod.fst ∧ object' = object ++ [(key, v)] := by
  have hlookup : (object.lookup key).isSome = true ↔ key ∈ object.map Prod.fst := by
    rw [← not_iff_not, Bool.not_eq_true, Option.isSome_eq_false_iff, Option.isNone_iff_eq_none,
      List.lookup_eq_none_iff]
    simp only [List.mem_map, bne_iff_ne, not_exists, not_and]
    exact forall₂_congr fun _ _ => ne_comm
  rw [jsonObjectAdd]
  split
  · next h => simp [hlookup.1 h]
  · next h => simp [mt hlookup.2 h, eq_comm]

theorem parseObjectLoop_sound (hpv : Sound P pv) {fuel : ℕ} {object : JsonObject} {s r : Bytes}
    {v : JsonValue} (hobject : Dialect.parson.names (object.map Prod.fst))
    (h : parseObjectLoop pv fuel object s = some (v, r)) :
    ∃ t members, Separated .parson (Member .parson P) t members ∧ s = t ++ 125 :: r ∧
      v = .object (object ++ members) ∧
      Dialect.parson.names ((object ++ members).map Prod.fst) := by
  induction fuel generalizing object s with
  | zero => cases h
  | succ fuel ih =>
    obtain ⟨key, s₁, s₂, x, s₃, object', o, r', hk, h0, hs, hx, hadd, ha, h⟩ :=
      parseObjectLoop_eq_some.1 h
    obtain ⟨k, hchars, rfl⟩ := getQuotedString_iff.1 hk
    obtain ⟨w, hw, hs₁⟩ := skipWhitespaces_eq s₁
    obtain ⟨w', t, hw', rfl, ht⟩ := hpv.item (by decide) hx ha
    rw [hs] at hs₁
    have hmember : Member .parson P (34 :: (k ++ 34 :: (w ++ 58 :: (w' ++ t)))) (key, x) :=
      .mk hchars hw hw' ht
    have htext : 34 :: (k ++ 34 :: s₁) = 34 :: (k ++ 34 :: (w ++ 58 :: (w' ++ t))) ++ s₃ := by
      rw [hs₁]
      simp
    -- the name is new
    obtain ⟨hnew, rfl⟩ := jsonObjectAdd_eq_some.1 hadd
    have hobject' : Dialect.parson.names ((object ++ [(key, x)]).map Prod.fst) := by
      rw [List.map_append]
      exact ⟨List.nodup_append.2 ⟨hobject.1, by simp,
        fun a ha b hb hab => hnew (by simp_all)⟩, List.forall_mem_append.2
          ⟨hobject.2, List.forall_mem_singleton.2 h0⟩⟩
    rw [htext]
    cases o with
    | none =>
      cases h
      obtain ⟨u, hu, he⟩ := separated_last hmember ha
      exact ⟨u, [(key, x)], hu, he, rfl, hobject'⟩
    | some s' =>
      obtain ⟨ts, members, hts, he, rfl, hnames⟩ := ih hobject' h
      obtain ⟨u, hu, he⟩ := separated_cons hmember ha hts he
      refine ⟨u, (key, x) :: members, hu, he, by simp, ?_⟩
      rwa [List.append_assoc] at hnames

end

variable {C : Libc}

theorem parseArrayValue_sound {P : Bytes → JsonValue → Prop}
    {pv : Bytes → Option (JsonValue × Bytes)} (hpv : Sound P pv) {s r : Bytes} {v : JsonValue}
    (h : parseArrayValue pv s = some (v, r)) : ∃ t, 91 :: s = t ++ r ∧ Value .parson C P t v := by
  obtain ⟨w, hw, hs⟩ := skipWhitespaces_eq s
  rw [parseArrayValue] at h
  split at h
  · cases h
  next c s' hs' =>
  rw [hs'] at hs
  split at h
  · next hc =>
    cases h
    exact ⟨91 :: (w ++ [93]), by simp [hs, hc], .emptyArray hw⟩
  · next hc =>
    have hstart : Starts 93 (c :: s') := ⟨c, s', rfl, skipWhitespaces_head hs', hc⟩
    obtain ⟨t, xs, ht, he, rfl⟩ := parseArrayLoop_sound hpv hstart h
    exact ⟨91 :: (w ++ (t ++ [93])), by simp [hs, he], .array hw ht⟩

theorem parseObjectValue_sound {P : Bytes → JsonValue → Prop}
    {pv : Bytes → Option (JsonValue × Bytes)} (hpv : Sound P pv) {s r : Bytes} {v : JsonValue}
    (h : parseObjectValue pv s = some (v, r)) : ∃ t, 123 :: s = t ++ r ∧ Value .parson C P t v := by
  obtain ⟨w, hw, hs⟩ := skipWhitespaces_eq s
  rw [parseObjectValue] at h
  split at h
  · cases h
  next c s' hs' =>
  rw [hs'] at hs
  split at h
  · next hc =>
    cases h
    exact ⟨123 :: (w ++ [125]), by simp [hs, hc], .emptyObject hw⟩
  · obtain ⟨t, members, ht, he, rfl, hnames⟩ :=
      parseObjectLoop_sound hpv (show Dialect.parson.names (([] : JsonObject).map Prod.fst) from
        ⟨List.nodup_nil, by simp⟩) h
    exact ⟨123 :: (w ++ (t ++ [125])), by simp [hs, he], .object hw ht hnames⟩

/-- A literal that the text starts with. -/
theorem take_eq_append {s w : Bytes} {n : ℕ} (h : s.take n = w) : s = w ++ s.drop n := by
  rw [← h, List.take_append_drop]

/-- **What `parse_value` reads is a text of its dialect.** -/
theorem parseValue_sound (C : Libc) (levels : ℕ) :
    Sound (JsonText .parson C levels) (parseValue C levels) := by
  induction levels with
  | zero => exact fun h => by cases h
  | succ levels ih =>
    intro s v r h
    obtain ⟨c, s', hs', h⟩ := parseValue_eq_some.1 h
    obtain ⟨w, hw, hs⟩ := skipWhitespaces_eq s
    rw [hs'] at hs
    suffices hsuff : (∃ t, c :: s' = t ++ r ∧ Value .parson C (JsonText .parson C levels) t v) ∨
        (v = .number 0 ∧ r = c :: s' ∧ c = 45) by
      rcases hsuff with ⟨t, ht, hvalue⟩ | ⟨hv, hr, hc⟩
      · exact .inl ⟨w, t, hw, by rw [hs, ht], hvalue⟩
      · exact .inr ⟨hv, by rw [hr, hc]; rfl⟩
    rcases h with ⟨rfl, h⟩ | ⟨rfl, h⟩ | ⟨rfl, h⟩ | ⟨hc, h⟩ | ⟨hc, h⟩ | ⟨rfl, h⟩
    · exact .inl (parseObjectValue_sound ih h)
    · exact .inl (parseArrayValue_sound ih h)
    · obtain ⟨str, hq, rfl⟩ := parseStringValue_eq_some.1 h
      obtain ⟨k, hk, he⟩ := getQuotedString_iff.1 hq
      exact .inl ⟨34 :: (k ++ [34]), by simp [he], .string hk⟩
    · rw [parseBooleanValue] at h
      split at h
      · next ht =>
        cases h
        exact .inl ⟨_, take_eq_append ht, .true⟩
      · split at h
        · next ht =>
          cases h
          exact .inl ⟨_, take_eq_append ht, .false⟩
        · cases h
    · rcases parseNumberValue_eq_some h with ⟨n, q, he, hd, hq, rfl⟩ | ⟨rfl, rfl, hdigit⟩
      · obtain ⟨hz, hexp⟩ := n.isDecimal_text.1 hd
        obtain ⟨d, t, ht, hfirst⟩ := n.text_head
        obtain rfl : c = d := by
          rw [ht] at he
          exact (List.cons.inj he).1
        exact .inl ⟨n.text, he, .number ⟨hfirst.2 hc, hz, hexp⟩ hq⟩
      · refine .inr ⟨rfl, rfl, hc.resolve_right ?_⟩
        rw [hdigit c rfl]
        exact Bool.false_ne_true
    · rw [parseNullValue] at h
      split at h
      · next ht =>
        cases h
        exact .inl ⟨_, take_eq_append ht, .null⟩
      · cases h

/-! ## What is in the language is read -/

/-- A text as `P` says is read as its value, behind white space and in front of anything; a number
    has to end there. -/
def Complete (P : Bytes → JsonValue → Prop) (pv : Bytes → Option (JsonValue × Bytes)) : Prop :=
  ∀ {w t v r}, Space .parson w → P t v → (∀ q, v = .number q → Stops r) →
    pv (w ++ (t ++ r)) = some (v, r)

theorem Stops.space {w : Bytes} (hw : Space .parson w) {r : Bytes} (hr : Stops r) :
    Stops (w ++ r) := by
  cases w with
  | nil => exact hr
  | cons c w =>
    have hc : isSpace c = true := hw c (List.mem_cons_self ..)
    exact .cons (by simp [isDelim, hc]) _

/-- The texts of values start with neither white space nor a closing bracket. -/
theorem jsonText_starts {close : UInt8} (hc : close = 93 ∨ close = 125) {levels : ℕ} {t : Bytes}
    {v : JsonValue} (h : JsonText .parson C levels t v) : Starts close t := by
  have key : ∀ c : UInt8, (c = 45 ∨ isDigit c = true) ∨ c ∈ [34, 91, 102, 110, 116, 123] →
      isSpace c = false ∧ c ≠ 93 ∧ c ≠ 125 := forall_byte (by decide +kernel)
  suffices hsuff : ∃ c t', t = c :: t' ∧
      ((c = 45 ∨ isDigit c = true) ∨ c ∈ [34, 91, 102, 110, 116, 123]) by
    obtain ⟨c, t', rfl, hc'⟩ := hsuff
    obtain ⟨hs, h₁, h₂⟩ := key c hc'
    exact ⟨c, t', rfl, hs, by rcases hc with rfl | rfl <;> assumption⟩
  cases levels with
  | zero => cases h
  | succ levels =>
    cases h with
    | @number n q hn =>
      obtain ⟨c, t, ht, hfirst⟩ := n.text_head
      exact ⟨c, t, ht, .inl (hfirst.1 hn.first)⟩
    | _ => exact ⟨_, _, rfl, .inr (by decide)⟩

/-- A loop that reads an item in each round, and then looks at what follows it, reads all items;
    `ok` is what holds of the list that they make up. -/
theorem Separated.read {α : Type} {E : Bytes → α → Prop} {close : UInt8}
    {loop : ℕ → List α → Bytes → Option (JsonValue × Bytes)} {done : List α → JsonValue}
    (ok : List α → Prop) (hclose : close = 93 ∨ close = 125)
    (hE : ∀ {t x}, E t x → Starts close t)
    (hround : ∀ {fuel acc t x xs s o r}, ok (acc ++ x :: xs) → E t x → Stops s →
      afterItem close s = some (o, r) → loop (fuel + 1) acc (t ++ s) =
        o.elim (some (done (acc ++ [x]), r)) (loop fuel (acc ++ [x])))
    {t : Bytes} {xs : List α} (h : Separated .parson E t xs) (r : Bytes) {fuel : ℕ}
    (hfuel : xs.length ≤ fuel) (acc : List α) (hok : ok (acc ++ xs)) :
    loop fuel acc (t ++ close :: r) = some (done (acc ++ xs), r) := by
  have hdelim : isDelim close = true := by rcases hclose with rfl | rfl <;> rfl
  have hspace : isSpace close = false := by rcases hclose with rfl | rfl <;> rfl
  have hcomma : close ≠ 44 := by rcases hclose with rfl | rfl <;> decide
  induction h generalizing fuel acc with
  | @last t w x h hw =>
    cases fuel with
    | zero => simp at hfuel
    | succ fuel =>
      have hafter : afterItem close (w ++ close :: r) = some (none, r) := by
        rw [afterItem_space hw, afterItem_close hspace hcomma]
      rw [List.append_assoc]
      exact hround hok h (.space hw (.cons hdelim _)) hafter
  | @comma t w w' x _ h hw hw' =>
    cases fuel with
    | zero => simp at hfuel
    | succ fuel =>
      have hafter : afterItem close (w ++ 44 :: (w' ++ close :: r)) = some (none, r) := by
        rw [afterItem_comma_space hw hw', afterItem_comma_close hspace]
      rw [List.append_assoc, List.append_assoc, List.cons_append]
      exact hround hok h (.space hw (.cons rfl _)) hafter
  | @cons t w w' ts x xs h hw hw' hs ih =>
    cases fuel with
    | zero => simp at hfuel
    | succ fuel =>
      obtain ⟨r', hafter⟩ := ((hs.starts hE).append (close :: r)).afterItem
      rw [← afterItem_comma_space hw hw'] at hafter
      rw [List.append_assoc, List.append_assoc, List.cons_append, List.append_assoc,
        hround hok h (.space hw (.cons rfl _)) hafter]
      have hsplit : acc ++ x :: xs = acc ++ [x] ++ xs := by simp
      rw [hsplit] at hok ⊢
      rw [List.length_cons] at hfuel
      exact ih (by omega) _ hok

section
variable {P : Bytes → JsonValue → Prop} {pv : Bytes → Option (JsonValue × Bytes)}

theorem parseArrayLoop_round (hpv : Complete P pv) {fuel : ℕ} {acc : List JsonValue} {t s r : Bytes}
    {x : JsonValue} {o : Option Bytes} (ht : P t x) (hs : Stops s)
    (ha : afterItem 93 s = some (o, r)) : parseArrayLoop pv (fuel + 1) acc (t ++ s) =
      o.elim (some (.array (acc ++ [x]), r)) (parseArrayLoop pv fuel (acc ++ [x])) := by
  have hx : pv (t ++ s) = some (x, s) :=
    hpv (w := []) (fun c hc => by cases hc) ht fun _ _ => hs
  simp only [parseArrayLoop, hx, ha, bind, Option.bind_some]
  cases o <;> rfl

theorem parseArrayValue_complete (hpv : Complete P pv) (hP : ∀ {t v}, P t v → Starts 93 t)
    {w t : Bytes} (hw : Space .parson w) {xs : List JsonValue} (h : Separated .parson P t xs)
    (r : Bytes) : parseArrayValue pv (w ++ (t ++ 93 :: r)) = some (.array xs, r) := by
  obtain ⟨c, s, hs, hspace, hc⟩ := (h.starts hP).append (93 :: r)
  have hfuel : xs.length ≤ s.length + 2 := by
    have := h.length_le
    have := congrArg List.length hs
    simp only [List.length_append, List.length_cons] at this
    omega
  have hread := Separated.read (fun _ => True) (.inl rfl) hP
    (fun _ ht hs ha => parseArrayLoop_round hpv ht hs ha) h r hfuel [] trivial
  rw [parseArrayValue, skipWhitespaces_space hw, hs, skipWhitespaces_of_not_space hspace]
  rw [hs] at hread
  exact (if_neg hc).trans hread

theorem Member.starts {D : Dialect} {t : Bytes} {m : Bytes × JsonValue} (h : Member D P t m) :
    Starts 125 t := by
  cases h
  exact ⟨34, _, rfl, rfl, by decide⟩

theorem parseObjectLoop_round (hpv : Complete P pv) {fuel : ℕ} {acc ms : JsonObject} {t s r : Bytes}
    {m : Bytes × JsonValue} {o : Option Bytes}
    (hnames : Dialect.parson.names ((acc ++ m :: ms).map Prod.fst)) (ht : Member .parson P t m)
    (hs : Stops s) (ha : afterItem 125 s = some (o, r)) :
    parseObjectLoop pv (fuel + 1) acc (t ++ s) =
      o.elim (some (.object (acc ++ [m]), r)) (parseObjectLoop pv fuel (acc ++ [m])) := by
  cases ht with
  | @mk k key w w' t v hk hw hw' ht =>
  have hkey : getQuotedString (34 :: (k ++ 34 :: (w ++ 58 :: (w' ++ t))) ++ s) =
      some (key, w ++ 58 :: (w' ++ (t ++ s))) :=
    getQuotedString_iff.2 ⟨k, hk, by simp⟩
  have hx : pv (w' ++ (t ++ s)) = some (v, s) := hpv hw' ht fun _ _ => hs
  have h0 : (0 : UInt8) ∉ key := hnames.2 key (by simp)
  have hcolon : expect 58 (skipWhitespaces (w ++ 58 :: (w' ++ (t ++ s)))) =
      some (w' ++ (t ++ s)) := by
    rw [skipWhitespaces_space hw, skipWhitespaces_of_not_space (by decide)]
    rfl
  simp only [parseObjectLoop, hkey, if_neg h0, hcolon, hx, jsonObjectAdd_of_nodup hnames.1, ha,
    bind, Option.bind_some]
  cases o <;> rfl

theorem parseObjectValue_complete (hpv : Complete P pv) {w t : Bytes} (hw : Space .parson w)
    {members : JsonObject} (h : Separated .parson (Member .parson P) t members)
    (hnames : Dialect.parson.names (members.map Prod.fst)) (r : Bytes) :
    parseObjectValue pv (w ++ (t ++ 125 :: r)) = some (.object members, r) := by
  obtain ⟨c, s, hs, hspace, hc⟩ := (h.starts Member.starts).append (125 :: r)
  have hfuel : members.length ≤ s.length + 2 := by
    have := h.length_le
    have := congrArg List.length hs
    simp only [List.length_append, List.length_cons] at this
    omega
  have hread := Separated.read (fun members => Dialect.parson.names (members.map Prod.fst))
    (.inr rfl) Member.starts (fun hok ht hs ha => parseObjectLoop_round hpv hok ht hs ha) h r hfuel
    [] hnames
  rw [parseObjectValue, skipWhitespaces_space hw, hs, skipWhitespaces_of_not_space hspace]
  rw [hs] at hread
  exact (if_neg hc).trans hread

end

theorem parseNullValue_text (r : Bytes) : parseNullValue (bytes "null" ++ r) = some (.null, r) := rfl

theorem parseBooleanValue_true (r : Bytes) :
    parseBooleanValue (bytes "true" ++ r) = some (.boolean true, r) := rfl

theorem parseBooleanValue_false (r : Bytes) :
    parseBooleanValue (bytes "false" ++ r) = some (.boolean false, r) := rfl

/-- **`parse_value` reads the texts of its dialect.** -/
theorem parseValue_complete (C : Libc) (levels : ℕ) :
    Complete (JsonText .parson C levels) (parseValue C levels) := by
  induction levels with
  | zero => exact fun _ h => h.elim
  | succ levels ih =>
    intro w t v r hw h hr
    obtain ⟨c, s, hs, hspace, -⟩ := (jsonText_starts (.inl rfl) h).append r
    have hskip : skipWhitespaces (w ++ (t ++ r)) = t ++ r := by
      rw [skipWhitespaces_space hw, hs, skipWhitespaces_of_not_space hspace]
    refine parseValue_eq_some.2 ?_
    rw [hskip]
    cases h with
    | null => exact ⟨_, _, rfl, .inr (.inr (.inr (.inr (.inr ⟨rfl, parseNullValue_text r⟩))))⟩
    | true => exact ⟨_, _, rfl, .inr (.inr (.inr (.inl ⟨.inr rfl, parseBooleanValue_true r⟩)))⟩
    | false => exact ⟨_, _, rfl, .inr (.inr (.inr (.inl ⟨.inl rfl, parseBooleanValue_false r⟩)))⟩
    | @number n q hn hq =>
      obtain ⟨d, u, hd, hfirst⟩ := n.text_head
      refine ⟨d, u ++ r, by rw [hd]; rfl, .inr (.inr (.inr (.inr (.inl ⟨hfirst.1 hn.first, ?_⟩))))⟩
      rw [← List.cons_append, ← hd, n.parseNumberValue_text C (hr q rfl),
        if_pos (n.isDecimal_text.2 ⟨hn.leading_zero, hn.exponent⟩), hq]
      rfl
    | string hk =>
      refine ⟨_, _, rfl, .inr (.inr (.inl ⟨rfl, ?_⟩))⟩
      exact parseStringValue_eq_some.2 ⟨_, getQuotedString_iff.2 ⟨_, hk, by simp⟩, rfl⟩
    | emptyArray hw =>
      refine ⟨_, _, List.cons_append, .inr (.inl ⟨rfl, ?_⟩)⟩
      rw [List.append_assoc, parseArrayValue, skipWhitespaces_space hw]
      rfl
    | array hw h =>
      refine ⟨_, _, List.cons_append, .inr (.inl ⟨rfl, ?_⟩)⟩
      rw [List.append_assoc, List.append_assoc]
      exact parseArrayValue_complete ih (jsonText_starts (.inl rfl)) hw h r
    | emptyObject hw =>
      refine ⟨_, _, List.cons_append, .inl ⟨rfl, ?_⟩⟩
      rw [List.append_assoc, parseObjectValue, skipWhitespaces_space hw]
      rfl
    | object hw h hnames =>
      refine ⟨_, _, List.cons_append, .inl ⟨rfl, ?_⟩⟩
      rw [List.append_assoc, List.append_assoc]
      exact parseObjectValue_complete ih hw h hnames r

/-! ## Texts -/

/-- **The language of `json_parse_string`**, numbers apart: a value is returned exactly if the text,
    behind a byte order mark and white space, starts with a text of the value that has at most 2049
    levels.  What follows is not looked at. -/
theorem jsonParseString_iff (C : Libc) (mem : Bytes) {v : JsonValue} (hv : ∀ q, v ≠ .number q) :
    jsonParseString C mem = some v ↔ ∃ w t r, skipBom (cstr mem) = w ++ (t ++ r) ∧
      Space .parson w ∧ JsonText .parson C (maxNesting + 1) t v := by
  rw [jsonParseString_eq_some]
  constructor
  · rintro ⟨r, h⟩
    rcases parseValue_sound C _ h with ⟨w, t, hw, hs, ht⟩ | ⟨h0, -⟩
    · exact ⟨w, t, r, hs, hw, ht⟩
    · exact absurd h0 (hv 0)
  · rintro ⟨w, t, r, hs, hw, ht⟩
    refine ⟨r, ?_⟩
    rw [hs]
    exact parseValue_complete C _ hw ht fun q hq => absurd hq (hv q)

/-- A comma before the bracket, and a text that goes on behind it. -/
theorem jsonParseString_trailingComma :
    jsonParseString Libc.exact (bytes "[true , ]]") = some (.array [.boolean true]) := by
  have htext : JsonText .parson Libc.exact (maxNesting + 1) (bytes "[true , ]")
      (.array [.boolean true]) := by
    have hspace : Space .parson [32] := by decide
    refine Value.array (w := []) (by decide) (.comma (t := bytes "true") trivial ?_ hspace hspace)
    exact Value.true
  exact (jsonParseString_iff Libc.exact _ (by simp)).2 ⟨[], _, [93], rfl, by decide, htext⟩

end Slirp4netns
