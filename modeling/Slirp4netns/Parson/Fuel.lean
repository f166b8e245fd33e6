/-
  slirp4netns formalization — the loops of parson's parser end by themselves.

  Every round over a member or an item passes at least one byte of the text, so
  that the fuel which the model gives to the loops is never used up
  (`parseArrayLoop_fuel`, `parseObjectLoop_fuel`): what they compute is what the
  unbounded loops of the source compute.
-/
import Slirp4netns.Parson.Prefix

namespace Slirp4netns

theorem skipWhitespaces_length (s : Bytes) : (skipWhitespaces s).length ≤ s.length :=
  (List.dropWhile_suffix _).length_le

theorem skipQuotes_length {s a r : Bytes} (h : skipQuotes s = some (a, r)) :
    r.length < s.length := by
  fun_induction skipQuotes s generalizing a with
  | case1 => simp at h
  | case2 s =>
    simp only [Option.some.injEq, Prod.mk.injEq] at h
    rw [h.2, List.length_cons]; omega
  | case3 => simp at h
  | case4 e s hq ih =>
    obtain ⟨⟨a', r'⟩, h', hp⟩ := Option.map_eq_some_iff.1 h
    simp only [Prod.mk.injEq] at hp
    obtain ⟨rfl, rfl⟩ := hp
    have := ih h'
    simp only [List.length_cons]; omega
  | case5 c s hq hb ih =>
    obtain ⟨⟨a', r'⟩, h', hp⟩ := Option.map_eq_some_iff.1 h
    simp only [Prod.mk.injEq] at hp
    obtain ⟨rfl, rfl⟩ := hp
    have := ih h'
    simp only [List.length_cons]; omega

theorem getQuotedString_length {s str r : Bytes} (h : getQuotedString s = some (str, r)) :
    r.length < s.length := by
  obtain ⟨s', a, rfl, hq, -⟩ := getQuotedString_eq_some.1 h
  have := skipQuotes_length hq
  rw [List.length_cons]; omega

theorem afterItem_length {close : UInt8} {s : Bytes} {o : Option Bytes} {r : Bytes}
    (h : afterItem close s = some (o, r)) :
    r.length < s.length ∧ ∀ s' ∈ o, s'.length < s.length := by
  unfold afterItem at h
  have hs := skipWhitespaces_length s
  split at h
  · simp at h
  · next c s₁ h₁ =>
    rw [h₁, List.length_cons] at hs
    split at h
    · have hs₁ := skipWhitespaces_length s₁
      split at h
      · simp at h
      · next d s₂ h₂ =>
        rw [h₂, List.length_cons] at hs₁
        split at h
        · simp only [Option.some.injEq, Prod.mk.injEq] at h
          obtain ⟨rfl, rfl⟩ := h
          exact ⟨by omega, by simp⟩
        · simp only [Option.some.injEq, Prod.mk.injEq] at h
          obtain ⟨rfl, rfl⟩ := h
          refine ⟨by omega, fun s' hs' => ?_⟩
          simp only [Option.mem_def, Option.some.injEq] at hs'
          rw [← hs', List.length_cons]; omega
    · split at h
      · simp only [Option.some.injEq, Prod.mk.injEq] at h
        obtain ⟨rfl, rfl⟩ := h
        exact ⟨by omega, by simp⟩
      · simp at h

theorem strtodUnsigned_length {neg b : Bool} {s : Bytes} {m : ℕ} {e : ℤ} {r : Bytes}
    (h : strtodUnsigned neg s = .decimal b m e r) : r.length ≤ s.length := by
  have hdrop : ∀ u : Bytes, (u.dropWhile isDigit).length ≤ u.length := fun u =>
    (List.dropWhile_suffix _).length_le
  have hfrac : ∀ u : Bytes, (strtodFraction u).2.length ≤ u.length := by
    intro u
    cases u with
    | nil => simp [strtodFraction]
    | cons c u =>
      have := hdrop u
      simp only [strtodFraction]
      split <;> simp only [List.length_cons] <;> omega
  have hsign : ∀ u : Bytes, (exponentSign u).2.length ≤ u.length := by
    intro u
    cases u with
    | nil => simp [exponentSign]
    | cons c u =>
      simp only [exponentSign]
      split
      · simp
      · split <;> simp
  have hexp : ∀ u : Bytes, (strtodExponent u).2.length ≤ u.length := by
    intro u
    cases u with
    | nil => simp [strtodExponent]
    | cons c u =>
      have := hsign u
      have := hdrop (exponentSign u).2
      rw [strtodExponent_cons]
      split
      · split
        · simp
        · simp only [List.length_cons]; omega
      · simp
  obtain ⟨-, -, -, -, -, rfl⟩ := strtodUnsigned_decimal h
  exact (hexp _).trans ((hfrac _).trans (hdrop s))

theorem parseNumberValue_length {C : Libc} {s : Bytes} {v : JsonValue} {r : Bytes}
    (h : parseNumberValue C s = some (v, r)) : r.length ≤ s.length := by
  unfold parseNumberValue at h
  split at h
  · next neg m e rest hn =>
    have hr : rest.length ≤ s.length := by
      cases s with
      | nil => simp [strtod] at hn
      | cons c s =>
        simp only [strtod] at hn
        split at hn
        · have := strtodUnsigned_length hn
          rw [List.length_cons]; omega
        · exact strtodUnsigned_length hn
    split at h
    · simp at h
    · split at h
      · simp only [Option.some.injEq, Prod.mk.injEq] at h; rwa [← h.2]
      · simp at h
  · simp only [Option.some.injEq, Prod.mk.injEq] at h; rw [h.2]
  all_goals simp at h

/-- Reading does not make the text longer. -/
def Shortens (pv : Bytes → Option (JsonValue × Bytes)) : Prop :=
  ∀ s v r, pv s = some (v, r) → r.length ≤ s.length

section
variable {pv : Bytes → Option (JsonValue × Bytes)}

theorem parseArrayLoop_length (hpv : Shortens pv) {fuel : ℕ} {items : List JsonValue} {s : Bytes}
    {v : JsonValue} {r : Bytes} (h : parseArrayLoop pv fuel items s = some (v, r)) :
    r.length ≤ s.length := by
  induction fuel generalizing items s with
  | zero => simp [parseArrayLoop] at h
  | succ fuel ih =>
    obtain ⟨w, s', o, r', hv, ha, h⟩ := parseArrayLoop_eq_some.1 h
    have h₁ := hpv _ _ _ hv
    have h₂ := afterItem_length ha
    cases o with
    | none => simp only [Prod.mk.injEq] at h; rw [h.2]; omega
    | some s'' =>
      have h₃ := h₂.2 s'' rfl
      have h₄ := ih h
      omega

theorem parseObjectLoop_length (hpv : Shortens pv) {fuel : ℕ} {object : JsonObject} {s : Bytes}
    {v : JsonValue} {r : Bytes} (h : parseObjectLoop pv fuel object s = some (v, r)) :
    r.length ≤ s.length := by
  induction fuel generalizing object s with
  | zero => simp [parseObjectLoop] at h
  | succ fuel ih =>
    obtain ⟨key, s₁, s₂, w, s₃, object', o, r', hk, -, hs, hv, -, ha, h⟩ :=
      parseObjectLoop_eq_some.1 h
    have h₁ := getQuotedString_length hk
    have h₂ := skipWhitespaces_length s₁
    rw [hs, List.length_cons] at h₂
    have h₃ := hpv _ _ _ hv
    have h₄ := afterItem_length ha
    cases o with
    | none => simp only [Prod.mk.injEq] at h; rw [h.2]; omega
    | some s' =>
      have h₅ := h₄.2 s' rfl
      have h₆ := ih h
      omega

theorem parseArrayValue_length (hpv : Shortens pv) {s : Bytes} {v : JsonValue} {r : Bytes}
    (h : parseArrayValue pv s = some (v, r)) : r.length ≤ s.length := by
  unfold parseArrayValue at h
  have hw := skipWhitespaces_length s
  split at h
  · simp at h
  · next c s' hs =>
    rw [hs] at hw
    split at h
    · simp only [Option.some.injEq, Prod.mk.injEq] at h
      rw [← h.2]; rw [List.length_cons] at hw; omega
    · exact (parseArrayLoop_length hpv h).trans hw

theorem parseObjectValue_length (hpv : Shortens pv) {s : Bytes} {v : JsonValue} {r : Bytes}
    (h : parseObjectValue pv s = some (v, r)) : r.length ≤ s.length := by
  unfold parseObjectValue at h
  have hw := skipWhitespaces_length s
  split at h
  · simp at h
  · next c s' hs =>
    rw [hs] at hw
    split at h
    · simp only [Option.some.injEq, Prod.mk.injEq] at h
      rw [← h.2]; rw [List.length_cons] at hw; omega
    · exact (parseObjectLoop_length hpv h).trans hw

end

theorem parseValue_length (C : Libc) (levels : ℕ) : Shortens (parseValue C levels) := by
  induction levels with
  | zero => intro s v r h; simp [parseValue] at h
  | succ levels ih =>
    intro s v r h
    obtain ⟨c, s', hs, h⟩ := parseValue_eq_some.1 h
    have hw := skipWhitespaces_length s
    rw [hs] at hw
    refine le_trans ?_ hw
    rcases h with ⟨-, h⟩ | ⟨-, h⟩ | ⟨-, h⟩ | ⟨-, h⟩ | ⟨-, h⟩ | ⟨-, h⟩
    · have := parseObjectValue_length ih h
      rw [List.length_cons]; omega
    · have := parseArrayValue_length ih h
      rw [List.length_cons]; omega
    · obtain ⟨str, hq, -⟩ := parseStringValue_eq_some.1 h
      exact (getQuotedString_length hq).le
    · unfold parseBooleanValue at h
      split at h
      · simp only [Option.some.injEq, Prod.mk.injEq] at h
        rw [← h.2, List.length_drop]; omega
      · split at h
        · simp only [Option.some.injEq, Prod.mk.injEq] at h
          rw [← h.2, List.length_drop]; omega
        · simp at h
    · exact parseNumberValue_length h
    · unfold parseNullValue at h
      split at h
      · simp only [Option.some.injEq, Prod.mk.injEq] at h
        rw [← h.2, List.length_drop]; omega
      · simp at h

section
variable {pv : Bytes → Option (JsonValue × Bytes)}

/-- **The loop over the items has enough fuel**: more of it changes nothing. -/
theorem parseArrayLoop_fuel (hpv : Shortens pv) {fuel fuel' : ℕ} {items : List JsonValue}
    {s : Bytes} (h : s.length < fuel) (h' : s.length < fuel') :
    parseArrayLoop pv fuel items s = parseArrayLoop pv fuel' items s := by
  induction fuel generalizing fuel' items s with
  | zero => omega
  | succ fuel ih =>
    obtain ⟨fuel', rfl⟩ : ∃ k, fuel' = k + 1 := ⟨fuel' - 1, by omega⟩
    ext x
    rw [parseArrayLoop_eq_some, parseArrayLoop_eq_some]
    refine exists_congr fun v => exists_congr fun s' => exists_congr fun o => exists_congr fun r =>
      and_congr_right fun hv => and_congr_right fun ha => ?_
    have h₁ := hpv _ _ _ hv
    have h₂ := afterItem_length ha
    cases o with
    | none => rfl
    | some s'' =>
      have h₃ := h₂.2 s'' rfl
      have hloop : parseArrayLoop pv fuel (items ++ [v]) s'' =
          parseArrayLoop pv fuel' (items ++ [v]) s'' := ih (by omega) (by omega)
      simp only [hloop]

/-- **The loop over the members has enough fuel.** -/
theorem parseObjectLoop_fuel (hpv : Shortens pv) {fuel fuel' : ℕ} {object : JsonObject}
    {s : Bytes} (h : s.length < fuel) (h' : s.length < fuel') :
    parseObjectLoop pv fuel object s = parseObjectLoop pv fuel' object s := by
  induction fuel generalizing fuel' object s with
  | zero => omega
  | succ fuel ih =>
    obtain ⟨fuel', rfl⟩ : ∃ k, fuel' = k + 1 := ⟨fuel' - 1, by omega⟩
    ext x
    rw [parseObjectLoop_eq_some, parseObjectLoop_eq_some]
    refine exists_congr fun key => exists_congr fun s₁ => exists_congr fun s₂ =>
      exists_congr fun v => exists_congr fun s₃ => exists_congr fun object' =>
      exists_congr fun o => exists_congr fun r => and_congr_right fun hk =>
      and_congr_right fun _ => and_congr_right fun hs => and_congr_right fun hv =>
      and_congr_right fun _ => and_congr_right fun ha => ?_
    have h₁ := getQuotedString_length hk
    have h₂ := skipWhitespaces_length s₁
    rw [hs, List.length_cons] at h₂
    have h₃ := hpv _ _ _ hv
    have h₄ := afterItem_length ha
    cases o with
    | none => rfl
    | some s' =>
      have h₅ := h₄.2 s' rfl
      have hloop : parseObjectLoop pv fuel object' s' = parseObjectLoop pv fuel' object' s' :=
        ih (by omega) (by omega)
      simp only [hloop]

end

end Slirp4netns
