/-
  Hash tables with linear probing.

  The cells of a table form a ring of `n` positions.  An item has a home, given by
  its hash, and is in the first cell from there on that was free: in a `Probed`
  table there is no empty cell between the home of an item and the item.  So a
  search from the home that meets an empty cell has missed nothing
  (`Probed.absent`), and an item may be put there (`Probed.insert`).

  When an item is taken out, the items behind it are moved up until the next empty
  cell.  `Shifting` is the invariant of this loop, with a hole at `i` and the scan
  at `j`: a cell is passed over (`Shifting.skip`) or its item moves into the hole
  (`Shifting.move`), and at an empty cell the hole may be emptied
  (`Shifting.finish`).
-/
import Mathlib.Logic.Function.Basic
import Mathlib.Data.Nat.Notation
import Mathlib.Tactic.SplitIfs

namespace Probing

/-! ## The ring -/

/-- The number of steps from one position to another. -/
def steps (n a b : ℕ) : ℕ := if a ≤ b then b - a else b + n - a

section
variable {n a b c d k i j p : ℕ}

theorem steps_self : steps n a a = 0 := by
  simp [steps]

theorem steps_lt (ha : a < n) (hb : b < n) : steps n a b < n := by
  unfold steps
  split_ifs <;> omega

theorem steps_pos (hne : b ≠ a) (ha : a < n) : 0 < steps n a b := by
  unfold steps
  split_ifs <;> omega

theorem steps_inj (ha : a < n) (hb : b < n) (hc : c < n) (h : steps n a b = steps n a c) :
    b = c := by
  unfold steps at h
  split_ifs at h <;> omega

/-- The position a number of steps away. -/
theorem add_mod (ha : a < n) (hd : d < n) :
    (a + d) % n = if a + d < n then a + d else a + d - n := by
  split_ifs with h
  · exact Nat.mod_eq_of_lt h
  · rw [Nat.mod_eq_sub_mod (by omega), Nat.mod_eq_of_lt (by omega)]

theorem steps_add (ha : a < n) (hd : d < n) : steps n a ((a + d) % n) = d := by
  rw [add_mod ha hd]
  unfold steps
  split_ifs <;> omega

theorem add_steps (ha : a < n) (hb : b < n) : (a + steps n a b) % n = b := by
  rw [add_mod ha (steps_lt ha hb)]
  unfold steps
  split_ifs <;> omega

/-- The next position is one step further. -/
theorem steps_succ (ha : a < n) (hb : b < n) (hne : (b + 1) % n ≠ a) :
    steps n a ((b + 1) % n) = steps n a b + 1 := by
  rcases Nat.lt_or_ge 1 n with hn | hn
  · rw [add_mod hb hn] at hne ⊢
    unfold steps
    split_ifs at hne ⊢ <;> omega
  · obtain ⟨rfl, rfl, rfl⟩ : n = 1 ∧ a = 0 ∧ b = 0 := by omega
    exact absurd rfl hne

/-- The position before the start is the last one. -/
theorem steps_last (ha : a < n) (hb : b < n) (heq : (b + 1) % n = a) : steps n a b + 1 = n := by
  rcases Nat.lt_or_ge 1 n with hn | hn
  · rw [add_mod hb hn] at heq
    unfold steps
    split_ifs at heq ⊢ <;> omega
  · obtain ⟨rfl, rfl, rfl⟩ : n = 1 ∧ a = 0 ∧ b = 0 := by omega
    rfl

/-- A position between two others is at their distance. -/
theorem steps_between (hk : k < n) (hi : i < n) (hp : p < n) (h : steps n k i ≤ steps n k p) :
    steps n k i + steps n i p = steps n k p := by
  unfold steps at *
  split_ifs at h ⊢ <;> omega

/-- The test for a position that is passed on the way from `k` to `j`. -/
theorem passes_iff (hk : k < n) (hi : i < n) (hj : j < n) :
    steps n k i < steps n k j ↔ (j > i ∧ (k ≤ i ∨ k > j)) ∨ (j < i ∧ (k ≤ i ∧ k > j)) := by
  unfold steps
  split_ifs <;> omega

end

/-! ## Tables -/

section
variable {ι : Type} {n : ℕ} {home : ι → ℕ} {cell : ℕ → Option ι}

theorem mem_update {p q : ℕ} {a b : ι} (hb : b ∈ Function.update cell q (some a) p) :
    (p = q ∧ b = a) ∨ (p ≠ q ∧ b ∈ cell p) := by
  by_cases hp : p = q
  · rw [hp, Function.update_self] at hb
    exact .inl ⟨hp, (Option.mem_some.1 hb).symm⟩
  · rw [Function.update_of_ne hp] at hb
    exact .inr ⟨hp, hb⟩

/-- Every item is in one cell, and the cells from its home to there are full. -/
structure Probed (n : ℕ) (home : ι → ℕ) (cell : ℕ → Option ι) : Prop where
  home_lt : ∀ p < n, ∀ a ∈ cell p, home a < n
  unique : ∀ p < n, ∀ q < n, ∀ a ∈ cell p, a ∈ cell q → p = q
  reach : ∀ p < n, ∀ a ∈ cell p, ∀ d < steps n (home a) p, (cell ((home a + d) % n)).isSome

theorem Probed.empty : Probed n home fun _ => none where
  home_lt _ _ a h := by simp at h
  unique _ _ _ _ a h := by simp at h
  reach _ _ a h := by simp at h

/-- A search that meets an empty cell has passed every item with this home. -/
theorem Probed.absent (h : Probed n home cell) {start d : ℕ}
    (hempty : cell ((start + d) % n) = none) {p : ℕ} (hp : p < n) {a : ι} (ha : a ∈ cell p)
    (hhome : home a = start) : ∃ e < d, (start + e) % n = p := by
  subst hhome
  have hlt := h.home_lt p hp a ha
  by_cases hle : steps n (home a) p < d
  · exact ⟨_, hle, add_steps hlt hp⟩
  · -- the empty cell is at `p` or before it
    rcases Nat.lt_or_ge d (steps n (home a) p) with hbefore | hge
    · have hfull := h.reach p hp a ha d hbefore
      rw [hempty] at hfull
      cases hfull
    · have hd : d = steps n (home a) p := by omega
      rw [hd, add_steps hlt hp] at hempty
      rw [hempty] at ha
      cases ha

/-- An item may be put into the first empty cell from its home on. -/
theorem Probed.insert (h : Probed n home cell) {a : ι} {d : ℕ} (hhome : home a < n) (hd : d < n)
    (hbefore : ∀ e < d, (cell ((home a + e) % n)).isSome)
    (hnew : ∀ p < n, a ∉ cell p) :
    Probed n home (Function.update cell ((home a + d) % n) (some a)) := by
  have hsome : ∀ q, (cell q).isSome →
      (Function.update cell ((home a + d) % n) (some a) q).isSome := by
    intro q hq
    by_cases heq : q = (home a + d) % n
    · rw [heq, Function.update_self]
      rfl
    · rwa [Function.update_of_ne heq]
  refine ⟨fun q hq b hb => ?_, fun q hq r hr b hb hb' => ?_, fun q hq b hb e he => ?_⟩
  · rcases mem_update hb with ⟨-, rfl⟩ | ⟨-, hb⟩
    · exact hhome
    · exact h.home_lt q hq b hb
  · rcases mem_update hb with ⟨hqa, hba⟩ | ⟨-, hb⟩ <;>
      rcases mem_update hb' with ⟨hra, hba'⟩ | ⟨-, hb'⟩
    · rw [hqa, hra]
    · exact absurd (hba ▸ hb') (hnew r hr)
    · exact absurd (hba' ▸ hb) (hnew q hq)
    · exact h.unique q hq r hr b hb hb'
  · rcases mem_update hb with ⟨rfl, rfl⟩ | ⟨-, hb⟩
    · rw [steps_add hhome hd] at he
      exact hsome _ (hbefore e he)
    · exact hsome _ (h.reach q hq b hb e he)

/-! ## Removal -/

/-- The cells while the items behind a removed one are moved up: there is a hole at `i`, and the
    cells behind it up to `j` have been looked at. -/
structure Shifting (n : ℕ) (home : ι → ℕ) (cell : ℕ → Option ι) (i j : ℕ) : Prop where
  hole_lt : i < n
  scan_lt : j < n
  home_lt : ∀ p < n, p ≠ i → ∀ a ∈ cell p, home a < n
  unique : ∀ p < n, ∀ q < n, p ≠ i → q ≠ i → ∀ a ∈ cell p, a ∈ cell q → p = q
  reach : ∀ p < n, p ≠ i → ∀ a ∈ cell p, ∀ d < steps n (home a) p,
    (home a + d) % n = i ∨ (cell ((home a + d) % n)).isSome
  /-- an item beyond the hole has not been looked at -/
  passed : ∀ p < n, p ≠ i → ∀ a ∈ cell p, steps n (home a) i < steps n (home a) p →
    steps n i j < steps n i p

theorem Probed.shifting (h : Probed n home cell) {i : ℕ} (hi : i < n) :
    Shifting n home cell i i where
  hole_lt := hi
  scan_lt := hi
  home_lt p hp _ := h.home_lt p hp
  unique p hp q hq _ _ := h.unique p hp q hq
  reach p hp _ a ha d hd := .inr (h.reach p hp a ha d hd)
  passed p hp hne a ha _ := by
    rw [steps_self]
    exact steps_pos hne hi

namespace Shifting

variable {i j : ℕ} {a : ι}

/-- What the hole holds does not matter. -/
theorem congr (h : Shifting n home cell i j) {cell' : ℕ → Option ι}
    (heq : ∀ p, p ≠ i → cell' p = cell p) : Shifting n home cell' i j where
  hole_lt := h.hole_lt
  scan_lt := h.scan_lt
  home_lt p hp hpi := by
    rw [heq p hpi]
    exact h.home_lt p hp hpi
  unique p hp q hq hpi hqi := by
    rw [heq p hpi, heq q hqi]
    exact h.unique p hp q hq hpi hqi
  reach p hp hpi := by
    rw [heq p hpi]
    intro a ha d hd
    rcases eq_or_ne ((home a + d) % n) i with hi | hi
    · exact .inl hi
    · rw [heq _ hi]
      exact h.reach p hp hpi a ha d hd
  passed p hp hpi := by
    rw [heq p hpi]
    exact h.passed p hp hpi

/-- The item at the next cell does not come past the hole: it stays. -/
theorem skip (h : Shifting n home cell i j) (hne : (j + 1) % n ≠ i) (ha : a ∈ cell ((j + 1) % n))
    (hstay : ¬ steps n (home a) i < steps n (home a) ((j + 1) % n)) :
    Shifting n home cell i ((j + 1) % n) := by
  have hj : (j + 1) % n < n := Nat.mod_lt _ (Nat.zero_lt_of_lt h.hole_lt)
  refine { h with scan_lt := hj, passed := fun p hp hpi b hb hpass => ?_ }
  have hlt := h.passed p hp hpi b hb hpass
  have hpj : p ≠ (j + 1) % n := by
    rintro rfl
    exact hstay (Option.mem_unique ha hb ▸ hpass)
  have hneq : steps n i ((j + 1) % n) ≠ steps n i p :=
    fun heq => hpj (steps_inj h.hole_lt hj hp heq).symm
  rw [steps_succ h.hole_lt h.scan_lt hne] at hneq ⊢
  omega

/-- The item at the next cell comes past the hole: it moves there. -/
theorem move (h : Shifting n home cell i j) (hne : (j + 1) % n ≠ i) (ha : a ∈ cell ((j + 1) % n))
    (hpass : steps n (home a) i < steps n (home a) ((j + 1) % n)) :
    Shifting n home (Function.update cell i (some a)) ((j + 1) % n) ((j + 1) % n) := by
  have hj : (j + 1) % n < n := Nat.mod_lt _ (Nat.zero_lt_of_lt h.hole_lt)
  have hhome := h.home_lt _ hj hne a ha
  have hsome : ∀ q, q = i ∨ (cell q).isSome →
      (Function.update cell i (some a) q).isSome := by
    intro q hq
    by_cases hqi : q = i
    · rw [hqi, Function.update_self]
      rfl
    · rw [Function.update_of_ne hqi]
      exact hq.resolve_left hqi
  refine ⟨hj, hj, fun p hp hpj b hb => ?_, fun p hp q hq hpj hqj b hb hb' => ?_,
    fun p hp hpj b hb d hd => .inr ?_, fun p hp hpj b hb _ => ?_⟩
  · rcases mem_update hb with ⟨-, rfl⟩ | ⟨hpi, hb⟩
    · exact hhome
    · exact h.home_lt p hp hpi b hb
  · rcases mem_update hb with ⟨hpi, hba⟩ | ⟨hpi, hb⟩ <;>
      rcases mem_update hb' with ⟨hqi, hba'⟩ | ⟨hqi, hb'⟩
    · rw [hpi, hqi]
    · exact absurd (h.unique q hq _ hj hqi hne b hb' (hba ▸ ha)) hqj
    · exact absurd (h.unique p hp _ hj hpi hne b hb (hba' ▸ ha)) hpj
    · exact h.unique p hp q hq hpi hqi b hb hb'
  · rcases mem_update hb with ⟨rfl, rfl⟩ | ⟨hpi, hb⟩
    · exact hsome _ (h.reach _ hj hne b ha d (Nat.lt_trans hd hpass))
    · exact hsome _ (h.reach p hp hpi b hb d hd)
  · rw [steps_self]
    exact steps_pos hpj hj

/-- If no item comes past the hole, it may be emptied. -/
theorem emptied (h : Shifting n home cell i j)
    (hnone : ∀ p < n, p ≠ i → ∀ a ∈ cell p, ¬ steps n (home a) i < steps n (home a) p) :
    Probed n home (Function.update cell i none) := by
  have hcases : ∀ {p b}, b ∈ Function.update cell i none p → p ≠ i ∧ b ∈ cell p := by
    intro p b hb
    by_cases hp : p = i
    · rw [hp, Function.update_self] at hb
      cases hb
    · rw [Function.update_of_ne hp] at hb
      exact ⟨hp, hb⟩
  refine ⟨fun p hp b hb => ?_, fun p hp q hq b hb hb' => ?_, fun p hp b hb d hd => ?_⟩
  · obtain ⟨hpi, hb⟩ := hcases hb
    exact h.home_lt p hp hpi b hb
  · obtain ⟨hpi, hb⟩ := hcases hb
    obtain ⟨hqi, hb'⟩ := hcases hb'
    exact h.unique p hp q hq hpi hqi b hb hb'
  · obtain ⟨hpi, hb⟩ := hcases hb
    have hhome := h.home_lt p hp hpi b hb
    have hne : (home b + d) % n ≠ i := by
      intro heq
      refine hnone p hp hpi b hb ?_
      rwa [← heq, steps_add hhome (Nat.lt_trans hd (steps_lt hhome hp))]
    rw [Function.update_of_ne hne]
    exact (h.reach p hp hpi b hb d hd).resolve_left hne

/-- The scan has come to an empty cell: no item beyond it comes past the hole. -/
theorem finish (h : Shifting n home cell i j) (hne : (j + 1) % n ≠ i)
    (hempty : cell ((j + 1) % n) = none) : Probed n home (Function.update cell i none) := by
  have hj : (j + 1) % n < n := Nat.mod_lt _ (Nat.zero_lt_of_lt h.hole_lt)
  refine h.emptied fun p hp hpi a ha hpass => ?_
  have hhome := h.home_lt p hp hpi a ha
  have hlt := h.passed p hp hpi a ha hpass
  have hpj : steps n i ((j + 1) % n) ≠ steps n i p := by
    intro heq
    rw [← steps_inj h.hole_lt hj hp heq, hempty] at ha
    cases ha
  rw [steps_succ h.hole_lt h.scan_lt hne] at hpj
  -- the empty cell is on the way from the home to the item
  have hway := steps_between hhome h.hole_lt hp (Nat.le_of_lt hpass)
  have hd : steps n (home a) i + steps n i ((j + 1) % n) < steps n (home a) p := by
    rw [steps_succ h.hole_lt h.scan_lt hne]
    omega
  have hat : (home a + (steps n (home a) i + steps n i ((j + 1) % n))) % n = (j + 1) % n := by
    rw [← Nat.add_assoc, Nat.add_mod, add_steps hhome h.hole_lt]
    rw [← Nat.mod_eq_of_lt h.hole_lt, ← Nat.add_mod, Nat.mod_eq_of_lt h.hole_lt]
    exact add_steps h.hole_lt hj
  have hfull := h.reach p hp hpi a ha _ hd
  rw [hat] at hfull
  rcases hfull with heq | hsome
  · exact hne heq
  · rw [hempty] at hsome
    cases hsome

end Shifting

end

end Probing
