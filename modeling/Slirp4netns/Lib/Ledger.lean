/-
  Ledgers: lists of entries that are kept in the order of addition, each under
  an id that is handed out once, and tables that mirror such a list.

  * `Issued id entries next`: the ids of the entries are increasing numbers from
    1 up to, but not including, `next`.  An addition under `next`
    (`Issued.add`) and any removal (`Issued.sublist`) keep this.
  * `Mirrors key val entries table`: the entries have different keys, and the
    finite map that sends each key to the value of its entry is `table`.
    Additions under a new key (`Mirrors.add`) and removals (`Mirrors.remove`)
    keep this, if the table is updated along.
-/
import Mathlib.Order.Basic
import Mathlib.Algebra.Order.Group.Int
import Mathlib.Data.List.Pairwise
import Mathlib.Data.List.Nodup
import Mathlib.Logic.Function.Basic

variable {ε κ γ : Type}

/-- Ids that were handed out one after the other, up to `next`. -/
structure Issued (id : ε → ℤ) (entries : List ε) (next : ℤ) : Prop where
  increasing : (entries.map id).Pairwise (· < ·)
  one_le : ∀ e ∈ entries, 1 ≤ id e
  lt_next : ∀ e ∈ entries, id e < next
  one_le_next : 1 ≤ next

namespace Issued

variable {id : ε → ℤ} {entries entries' : List ε} {next : ℤ} {e e' : ε}

theorem nil : Issued id [] 1 := ⟨by simp, by simp, by simp, le_refl 1⟩

theorem add (h : Issued id entries next) (he : id e = next) :
    Issued id (entries ++ [e]) (next + 1) where
  increasing := by
    rw [List.map_append, List.pairwise_append]
    refine ⟨h.increasing, by simp, fun i hi j hj => ?_⟩
    obtain ⟨f, hf, rfl⟩ := List.mem_map.1 hi
    have hlt := h.lt_next f hf
    simp only [List.map_cons, List.map_nil, List.mem_singleton] at hj
    omega
  one_le f hf := by
    rcases List.mem_append.1 hf with hf | hf
    · exact h.one_le f hf
    · rw [List.mem_singleton.1 hf, he]; exact h.one_le_next
  lt_next f hf := by
    rcases List.mem_append.1 hf with hf | hf
    · have := h.lt_next f hf; omega
    · rw [List.mem_singleton.1 hf, he]; omega
  one_le_next := by have := h.one_le_next; omega

theorem sublist (h : Issued id entries next) (hs : entries'.Sublist entries) :
    Issued id entries' next where
  increasing := h.increasing.sublist (hs.map id)
  one_le f hf := h.one_le f (hs.subset hf)
  lt_next f hf := h.lt_next f (hs.subset hf)
  one_le_next := h.one_le_next

/-- There are fewer entries than ids up to `next`. -/
theorem length_lt (h : Issued id entries next) : (entries.length : ℤ) < next := by
  have hcount : ∀ (ids : List ℤ) (lo : ℤ), ids.Pairwise (· < ·) → (∀ i ∈ ids, lo ≤ i ∧ i < next) →
      lo ≤ next → lo + ids.length ≤ next := by
    intro ids
    induction ids with
    | nil => intro lo _ _ hlo; simpa using hlo
    | cons i ids ih =>
      intro lo hp hb hlo
      rw [List.pairwise_cons] at hp
      have hi := hb i (by simp)
      have := ih (i + 1) hp.2
        (fun j hj => ⟨hp.1 j hj, (hb j (List.mem_cons_of_mem _ hj)).2⟩) (by omega)
      rw [List.length_cons]
      push_cast
      omega
  have := hcount (entries.map id) 1 h.increasing (by simpa using fun e he =>
    ⟨h.one_le e he, h.lt_next e he⟩) h.one_le_next
  rw [List.length_map] at this
  omega

/-- An id names one entry. -/
theorem eq_of_id (h : Issued id entries next) (he : e ∈ entries) (he' : e' ∈ entries)
    (hid : id e = id e') : e = e' := by
  have hn : (entries.map id).Nodup := h.increasing.imp fun hlt => ne_of_lt hlt
  exact List.inj_on_of_nodup_map hn he he' hid

/-- The entries around one of them have other ids. -/
theorem ne_of_split {a b : List ε} (h : Issued id (a ++ e :: b) next) :
    ∀ f ∈ a ++ b, id f ≠ id e := by
  have hp := h.increasing
  rw [List.map_append, List.map_cons, List.pairwise_append, List.pairwise_cons] at hp
  intro f hf
  rcases List.mem_append.1 hf with hf | hf
  · exact ne_of_lt (hp.2.2 _ (List.mem_map_of_mem hf) _ (by simp))
  · exact (ne_of_lt (hp.2.1.1 _ (List.mem_map_of_mem hf))).symm

end Issued

/-- A table that holds the value of every entry under its key, and nothing else. -/
structure Mirrors (key : ε → κ) (val : ε → γ) (entries : List ε) (table : κ → Option γ) :
    Prop where
  nodup : (entries.map key).Nodup
  table_eq : ∀ k v, table k = some v ↔ ∃ e ∈ entries, key e = k ∧ val e = v

namespace Mirrors

variable {key : ε → κ} {val : ε → γ} {entries : List ε} {table : κ → Option γ} {e : ε}

theorem nil (h : ∀ k, table k = none) : Mirrors key val [] table :=
  ⟨by simp, by simp [h]⟩

theorem isSome (h : Mirrors key val entries table) (he : e ∈ entries) :
    (table (key e)).isSome := by
  rw [(h.table_eq (key e) (val e)).2 ⟨e, he, rfl, rfl⟩]; rfl

variable [DecidableEq κ]

theorem add (h : Mirrors key val entries table) (hk : table (key e) = none) :
    Mirrors key val (entries ++ [e]) (Function.update table (key e) (some (val e))) where
  nodup := by
    rw [List.map_append, List.map_singleton, List.nodup_append]
    refine ⟨h.nodup, List.nodup_singleton _, fun k hk' k' hk'' => ?_⟩
    rw [List.mem_singleton] at hk''
    obtain ⟨f, hf, rfl⟩ := List.mem_map.1 hk'
    intro hfe
    have := h.isSome hf
    rw [hfe, hk'', hk] at this
    simp at this
  table_eq k v := by
    by_cases hke : k = key e
    · subst hke
      rw [Function.update_self, Option.some.injEq]
      constructor
      · intro hv
        exact ⟨e, by simp, rfl, hv⟩
      · rintro ⟨f, hf, hfk, hfv⟩
        rcases List.mem_append.1 hf with hf | hf
        · have := h.isSome hf
          rw [hfk, hk] at this
          simp at this
        · rw [List.mem_singleton] at hf; rw [← hf]; exact hfv
    · rw [Function.update_of_ne hke, h.table_eq]
      constructor
      · rintro ⟨f, hf, hfk⟩
        exact ⟨f, by simp [hf], hfk⟩
      · rintro ⟨f, hf, hfk, hfv⟩
        rcases List.mem_append.1 hf with hf | hf
        · exact ⟨f, hf, hfk, hfv⟩
        · rw [List.mem_singleton] at hf; rw [hf] at hfk; exact absurd hfk.symm hke

theorem remove {a b : List ε} (h : Mirrors key val (a ++ e :: b) table) :
    Mirrors key val (a ++ b) (Function.update table (key e) none) where
  nodup := by
    have hs : (a ++ b).Sublist (a ++ e :: b) := (List.sublist_cons_self e b).append_left a
    exact h.nodup.sublist (hs.map key)
  table_eq k v := by
    have hne : ∀ f ∈ a ++ b, key f ≠ key e := by
      have hn := h.nodup
      rw [List.map_append, List.map_cons, List.nodup_middle, List.nodup_cons,
        ← List.map_append] at hn
      intro f hf hfe
      exact hn.1 (hfe ▸ List.mem_map_of_mem hf)
    by_cases hke : k = key e
    · subst hke
      rw [Function.update_self]
      constructor
      · intro h; simp at h
      · rintro ⟨f, hf, hfk, -⟩
        exact absurd hfk (hne f hf)
    · rw [Function.update_of_ne hke, h.table_eq]
      constructor
      · rintro ⟨f, hf, hfk, hfv⟩
        refine ⟨f, ?_, hfk, hfv⟩
        simp only [List.mem_append, List.mem_cons] at hf ⊢
        rcases hf with hf | rfl | hf
        exacts [Or.inl hf, absurd hfk.symm hke, Or.inr hf]
      · rintro ⟨f, hf, hfk⟩
        refine ⟨f, ?_, hfk⟩
        simp only [List.mem_append, List.mem_cons] at hf ⊢
        exact hf.imp_right Or.inr

end Mirrors
