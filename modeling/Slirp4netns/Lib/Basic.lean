/-
  Lists with one element replaced, and the result of a computation that may fail.

  What a `map` does not see may be replaced (`List.map_set_of_eq`), and to put the
  last element in the place of another and to drop it removes the other
  (`List.perm_set_dropLast`).
-/
import Mathlib.Data.List.Perm.Basic

/-- A computation succeeds if both its parts do. -/
theorem Except.bind_eq_ok {ε α β : Type} {x : Except ε α} {f : α → Except ε β} {b : β} :
    (x >>= f) = .ok b ↔ ∃ a, x = .ok a ∧ f a = .ok b := by
  cases x with
  | error e => simp [bind, Except.bind]
  | ok a => simp [bind, Except.bind]

namespace List

variable {α β : Type} {l : List α} {ix : ℕ} {a b : α}

theorem set_of_getElem? (h : l[ix]? = some a) : l.set ix a = l := by
  obtain ⟨hlt, rfl⟩ := getElem?_eq_some_iff.1 h
  exact set_getElem_self hlt

theorem map_set_of_eq (h : l[ix]? = some a) {f : α → β} (hf : f b = f a) :
    (l.set ix b).map f = l.map f := by
  rw [map_set, hf]
  exact set_of_getElem? (by rw [getElem?_map, h, Option.map_some])

/-- What is gone is one element, whether it was the last one or not. -/
theorem perm_set_dropLast {last : α} (ha : l[ix]? = some a) (hlast : l[l.length - 1]? = some last) :
    (a :: (l.set ix last).dropLast).Perm l := by
  obtain ⟨hlt, rfl⟩ := getElem?_eq_some_iff.1 ha
  have hne : l.set ix last ≠ [] := by
    rw [← length_pos_iff, length_set]
    exact Nat.zero_lt_of_lt hlt
  have hend : (l.set ix last).getLast hne = last := by
    refine Option.some.inj ?_
    rw [← getLast?_eq_some_getLast, getLast?_eq_getElem?, length_set, getElem?_set]
    split_ifs <;> simp_all
  have hconcat := dropLast_append_getLast hne
  rw [hend] at hconcat
  have hset := perm_append_singleton last (l.set ix last).dropLast
  rw [hconcat] at hset
  have herase : (l[ix] :: l.set ix last).Perm (last :: l) :=
    ((set_perm_cons_eraseIdx hlt last).cons _).trans
      ((Perm.swap _ _ _).trans ((getElem_cons_eraseIdx_perm hlt).cons _))
  exact ((Perm.swap _ _ _).trans ((hset.symm.cons _).trans herase)).cons_inv

end List
