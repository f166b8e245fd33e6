/-
  Regular expressions with groups, as `regexec` matches them.

  A match goes from one place in the text to another and notes where the groups
  were found.  `Regex.ends` gives all the ways in which a match can end, in the
  order in which they are preferred: a repetition is tried with the larger counts
  first.  `regexec` takes the leftmost place at which there is a match, and the
  longest of the matches there.

  The lemmas `mem_ends_*` say for each way of building an expression where its
  matches end, in terms of the text between the places.
-/
import Mathlib.Data.List.Basic
import Mathlib.Order.Basic

/-- A place in a text: the number of characters before it, and what is after it. -/
structure Cursor (α : Type) where
  pos : ℕ
  rest : List α

/-- The groups found, the latest one first: number, begin and end. -/
abbrev Groups := List (ℕ × ℕ × ℕ)

/-- Regular expressions with groups. -/
inductive Regex (α : Type) where
  /-- a character or a bracket expression -/
  | one (p : α → Bool)
  | seq (r s : Regex α)
  /-- `r{lo,hi}` -/
  | rep (r : Regex α) (lo hi : ℕ)
  /-- the subexpression with number `i` -/
  | group (i : ℕ) (r : Regex α)
  /-- `^` -/
  | bol
  /-- `$` -/
  | eol

namespace Regex

variable {α β : Type}

/-- Do something `n` times, in all possible ways. -/
def times (f : β → List β) : ℕ → β → List β
  | 0, x => [x]
  | n + 1, x => (f x).flatMap (times f n)

/-- The numbers from `hi` down to `lo`. -/
def counts (lo hi : ℕ) : List ℕ := ((List.range (hi + 1)).filter (lo ≤ ·)).reverse

def ends : Regex α → Cursor α × Groups → List (Cursor α × Groups)
  | one p, (c, g) =>
    match c.rest with
    | [] => []
    | a :: t => if p a then [(⟨c.pos + 1, t⟩, g)] else []
  | seq r s, x => (r.ends x).flatMap s.ends
  | rep r lo hi, x => (counts lo hi).flatMap fun n => times r.ends n x
  | group i r, (c, g) => (r.ends (c, g)).map fun y => (y.1, (i, c.pos, y.1.pos) :: y.2)
  | bol, x => if x.1.pos = 0 then [x] else []
  | eol, x => if x.1.rest.isEmpty then [x] else []

/-- The first of the longest matches. -/
def longest (ys : List (Cursor α × Groups)) : Option (Cursor α × Groups) :=
  ys.find? fun y => ys.all fun z => z.1.pos ≤ y.1.pos

/-- The groups of the match in a text, with the whole match as group 0. -/
def regexec (r : Regex α) (text : List α) : Option Groups :=
  (List.range (text.length + 1)).findSome? fun i =>
    (longest (r.ends (⟨i, text.drop i⟩, []))).map fun y => (0, i, y.1.pos) :: y.2

/-! ## Where matches end -/

section
variable {c : Cursor α} {g : Groups} {x y : Cursor α × Groups}

theorem mem_counts {lo hi n : ℕ} : n ∈ counts lo hi ↔ lo ≤ n ∧ n ≤ hi := by
  simp only [counts, List.mem_reverse, List.mem_filter, List.mem_range, decide_eq_true_eq]
  omega

theorem mem_times_succ {f : β → List β} {n : ℕ} {x z : β} :
    z ∈ times f (n + 1) x ↔ ∃ y ∈ f x, z ∈ times f n y := by
  simp [times]

theorem mem_ends_one {p : α → Bool} :
    y ∈ (one p).ends (c, g) ↔
      ∃ a, p a = true ∧ c.rest = a :: y.1.rest ∧ y.1.pos = c.pos + 1 ∧ y.2 = g := by
  obtain ⟨⟨pos, rest⟩, g'⟩ := y
  rcases c with ⟨i, _ | ⟨a, t⟩⟩
  · simp [ends]
  · simp only [ends]
    constructor
    · intro h
      split at h
      · next hp =>
        simp only [List.mem_singleton, Prod.mk.injEq, Cursor.mk.injEq] at h
        obtain ⟨⟨rfl, rfl⟩, rfl⟩ := h
        exact ⟨a, hp, rfl, rfl, rfl⟩
      · simp at h
    · rintro ⟨b, hp, hr, rfl, rfl⟩
      obtain ⟨rfl, rfl⟩ := List.cons.inj hr
      simp [hp]

theorem mem_ends_seq {r s : Regex α} :
    y ∈ (seq r s).ends x ↔ ∃ z ∈ r.ends x, y ∈ s.ends z := by
  simp [ends]

theorem mem_ends_rep {r : Regex α} {lo hi : ℕ} :
    y ∈ (rep r lo hi).ends x ↔ ∃ n, lo ≤ n ∧ n ≤ hi ∧ y ∈ times r.ends n x := by
  simp only [ends, List.mem_flatMap, mem_counts, and_assoc]

theorem mem_ends_group {i : ℕ} {r : Regex α} :
    y ∈ (group i r).ends (c, g) ↔
      ∃ g', (y.1, g') ∈ r.ends (c, g) ∧ y.2 = (i, c.pos, y.1.pos) :: g' := by
  obtain ⟨d, g'⟩ := y
  simp only [ends, List.mem_map, Prod.mk.injEq]
  constructor
  · rintro ⟨⟨e, h⟩, he, rfl, rfl⟩
    exact ⟨h, he, rfl⟩
  · rintro ⟨h, he, rfl⟩
    exact ⟨(d, h), he, rfl, rfl⟩

theorem mem_ends_eol : y ∈ (eol : Regex α).ends x ↔ x.1.rest = [] ∧ y = x := by
  simp only [ends]
  split
  · next h => simp [List.isEmpty_iff.1 h]
  · next h => simp [List.isEmpty_iff] at h; simp [h]

/-- Characters of one kind, a given number of them. -/
theorem mem_times_one {p : α → Bool} {n : ℕ} :
    y ∈ times (one p).ends n (c, g) ↔
      ∃ ds, ds.length = n ∧ (∀ d ∈ ds, p d = true) ∧ c.rest = ds ++ y.1.rest ∧
        y.1.pos = c.pos + n ∧ y.2 = g := by
  induction n generalizing c with
  | zero =>
    obtain ⟨⟨pos, rest⟩, g'⟩ := y
    obtain ⟨i, t⟩ := c
    constructor
    · intro h
      simp only [times, List.mem_singleton, Prod.mk.injEq, Cursor.mk.injEq] at h
      obtain ⟨⟨rfl, rfl⟩, rfl⟩ := h
      exact ⟨[], rfl, by simp, rfl, rfl, rfl⟩
    · rintro ⟨ds, hds, -, hr, hp, rfl⟩
      obtain rfl := List.length_eq_zero_iff.1 hds
      simp only [List.nil_append, Nat.add_zero] at hr hp
      subst hr hp
      simp [times]
  | succ n ih =>
    rw [mem_times_succ]
    constructor
    · rintro ⟨⟨d, g'⟩, hd, hy⟩
      obtain ⟨a, ha, hrest, hpos, rfl⟩ := mem_ends_one.1 hd
      obtain ⟨ds, hlen, hds, hr, hp, hg⟩ := ih.1 hy
      refine ⟨a :: ds, by simp [hlen], ?_, ?_, ?_, hg⟩
      · simpa [ha] using hds
      · rw [hrest, hr]; rfl
      · rw [hp, hpos]; omega
    · rintro ⟨ds, hlen, hds, hr, hp, hg⟩
      obtain ⟨a, ds, rfl⟩ := List.exists_cons_of_length_eq_add_one hlen
      refine ⟨(⟨c.pos + 1, ds ++ y.1.rest⟩, g),
        mem_ends_one.2 ⟨a, hds a (by simp), hr, rfl, rfl⟩, ?_⟩
      refine ih.2 ⟨ds, by simpa using hlen, fun d hd => hds d (by simp [hd]), rfl, ?_, hg⟩
      rw [hp]; dsimp only; omega

end

/-! ## The match of a text -/

theorem longest_isSome {ys : List (Cursor α × Groups)} (h : ys ≠ []) : (longest ys).isSome := by
  rw [longest, List.find?_isSome]
  obtain ⟨y, hy, hmax⟩ : ∃ y ∈ ys, ∀ z ∈ ys, z.1.pos ≤ y.1.pos := by
    induction ys with
    | nil => exact absurd rfl h
    | cons a ys ih =>
      by_cases hys : ys = []
      · exact ⟨a, by simp, by simp [hys]⟩
      · obtain ⟨y, hy, hmax⟩ := ih hys
        by_cases hay : a.1.pos ≤ y.1.pos
        · exact ⟨y, by simp [hy], by simpa [hay] using hmax⟩
        · refine ⟨a, by simp, fun z hz => ?_⟩
          rcases List.mem_cons.1 hz with rfl | hz
          · exact Nat.le_refl _
          · have := hmax z hz
            omega
  exact ⟨y, hy, by simpa using hmax⟩

theorem mem_of_longest {ys : List (Cursor α × Groups)} {y : Cursor α × Groups}
    (h : longest ys = some y) : y ∈ ys := List.mem_of_find?_eq_some h

/-- An expression that starts with `^` is matched at the start of the text only. -/
theorem regexec_bol (r : Regex α) (text : List α) :
    regexec (seq bol r) text =
      (longest (r.ends (⟨0, text⟩, []))).map fun y => (0, 0, y.1.pos) :: y.2 := by
  have hzero : (seq bol r).ends (⟨0, text⟩, []) = r.ends (⟨0, text⟩, []) := by simp [ends]
  have hsucc : ∀ i t, (seq bol r).ends (⟨i + 1, t⟩, []) = [] := by
    intro i t
    simp [ends]
  rw [regexec, List.range_succ_eq_map, List.findSome?_cons, List.drop_zero, hzero,
    List.findSome?_map]
  cases hl : longest (r.ends (⟨0, text⟩, [])) with
  | some y => rfl
  | none =>
    simp only [Option.map_none]
    rw [List.findSome?_eq_none_iff]
    intro i _
    simp [hsucc, longest]

end Regex
