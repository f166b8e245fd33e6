/-
  slirp4netns formalization — the removal of a member (`json_object_remove_internal`
  and `json_object_clear` in `parson.c`).

  The last member takes the place of the one that is removed, and the cells behind
  the free one are moved up, so that no search stops too early.

  `jsonObjectRemoveInternal_owned`: the table is as it must be again, with the other
  members.
-/
import Slirp4netns.Parson.Object

namespace Slirp4netns.Parson

open HeapProg Probing

/-! ## The code -/

/-- The member at an index is replaced by the last one. -/
def ObjectTable.swapLast (t : ObjectTable HeapValue) (itemIx : ℕ) (last : Slot HeapValue) :
    ObjectTable HeapValue :=
  { t with
    cells := t.cells.set last.cellIx (some itemIx)
    slots := (t.slots.set itemIx last).dropLast }

/-- A cell is moved up into the free one. -/
def ObjectTable.moveCell (t : ObjectTable HeapValue) (i cell : ℕ) (slot : Slot HeapValue) :
    ObjectTable HeapValue :=
  { t with
    cells := t.cells.set i (some cell)
    slots := t.slots.set cell { slot with cellIx := i } }

/-- A cell is emptied. -/
def ObjectTable.clearCell (t : ObjectTable HeapValue) (i : ℕ) : ObjectTable HeapValue :=
  { t with cells := t.cells.set i none }

/-- The part of `json_object_remove_internal` that closes the gap in the arrays. -/
def moveLast (t : ObjectTable HeapValue) (itemIx : ℕ) : HeapProg (ObjectTable HeapValue) := do
  let lastItemIx := t.slots.length - 1
  if itemIx < lastItemIx then do
    let last ← index (t.arrays.map (·.names)) t.slots lastItemIx
    touch t.arrays (·.values)
    touch t.arrays (·.cellIxs)
    touch t.arrays (·.hashes)
    let _ ← readCell t last.cellIx
    return t.swapLast itemIx last
  else return { t with slots := t.slots.dropLast }

/-- The loop of `json_object_remove_internal`: the table, and the cell that is free at the end. -/
def shiftLoop : ℕ → ObjectTable HeapValue → ℕ → ℕ → HeapProg (ObjectTable HeapValue × ℕ)
  | 0, t, i, _ => return (t, i)
  | rounds + 1, t, i, j => do
    let j := mask (j + 1) t.cells.length
    match ← readCell t j with
    | none => return (t, i)
    | some cell => do
      let slot ← index (t.arrays.map (·.hashes)) t.slots cell
      let k := mask slot.hash.toNat t.cells.length
      if (j > i ∧ (k ≤ i ∨ k > j)) ∨ (j < i ∧ (k ≤ i ∧ k > j)) then do
        touch t.arrays (·.cellIxs)
        let _ ← readCell t i
        shiftLoop rounds (t.moveCell i cell slot) j j
      else shiftLoop rounds t i j

/-- `json_object_remove_internal` on an object that is not `NULL`. -/
def jsonObjectRemoveInternal (t : ObjectTable HeapValue) (name : Bytes) (freeValue : Bool) :
    HeapProg (ObjectTable HeapValue × Bool) := do
  match ← jsonObjectGetCellIx t name (hashString name) with
  | (some cell, true) => do
    match ← readCell t cell with
    | none => Prog.stop .outOfBounds
    | some itemIx => do
      let slot ← index (t.arrays.map (·.values)) t.slots itemIx
      Prog.when (freeValue = true) (jsonValueFree slot.value)
      touch t.arrays (·.names)
      free (some slot.nameBlock)
      let t ← moveLast t itemIx
      let (t, i) ← shiftLoop (t.cells.length - 1) t cell cell
      let _ ← readCell t i
      return (t.clearCell i, true)
  | _ => return (t, false)

/-- `json_object_clear` -/
def jsonObjectClear (t : ObjectTable HeapValue) : HeapProg (ObjectTable HeapValue) := do
  deinitLoop t.arrays true true t.slots
  Prog.when (t.cells ≠ []) (touch t.arrays (·.cells))
  return { t with cells := List.replicate t.cells.length none, slots := [] }

/-! ## The last member moves -/

namespace ObjectTable

variable {t : ObjectTable HeapValue}

/-- The table while the cells are moved up: there is a hole at `i`, and the cells up to `j` have
    been looked at. -/
structure Opened (t : ObjectTable HeapValue) (i j : ℕ) : Prop extends Shape t where
  linked : t.Linked (some i)
  shifting : Shifting t.cells.length (home t.cells.length) t.nameAt i j

theorem Linked.mem_nameAt {hole : Option ℕ} (h : t.Linked hole) {q : ℕ} (hq : hole ≠ some q)
    {name : Bytes} : name ∈ t.nameAt q ↔ ∃ s ∈ t.slots, s.cellIx = q ∧ s.name = name := by
  constructor
  · intro hname
    obtain ⟨s, hs, rfl⟩ := Option.mem_map.1 hname
    obtain ⟨ix, hc, hix⟩ := Option.mem_bind_iff.1 hs
    obtain ⟨s', hs', hcell⟩ := h.cell_slot q ix (Option.join_eq_some_iff.1 hc) hq
    rw [Option.mem_def.1 hix] at hs'
    cases hs'
    exact ⟨s, List.mem_of_getElem? hix, hcell, rfl⟩
  · rintro ⟨s, hs, rfl, rfl⟩
    obtain ⟨ix, hix⟩ := List.getElem?_of_mem hs
    exact h.nameAt_eq hix

section
variable {ix : ℕ} {s last : Slot HeapValue}

theorem slots_swapLast (hs : t.slots[ix]? = some s) (k : ℕ) :
    (t.swapLast ix last).slots[k]? = if k < t.slots.length - 1 then
      (if k = ix then some last else t.slots[k]?) else none := by
  have hlt := (List.getElem?_eq_some_iff.1 hs).1
  rw [swapLast, List.getElem?_dropLast, List.length_set, List.getElem?_set, if_pos hlt]
  simp only [eq_comm]

/-- Whether the member is the last one or not, the last one takes its place. -/
theorem moveLast_reads (harrays : t.arrays.isSome) (hlinked : t.Linked none)
    (hs : t.slots[ix]? = some s) (hlast : t.slots[t.slots.length - 1]? = some last) :
    Reads (arrayBlocks t.arrays) (moveLast t ix) (t.swapLast ix last) := by
  have hlt := (List.getElem?_eq_some_iff.1 hs).1
  rw [moveLast]
  by_cases hix : ix < t.slots.length - 1
  · rw [if_pos hix]
    exact .bind (readSlot_reads harrays hlast ObjectArrays.names_mem)
      (.bind (touch_reads harrays ObjectArrays.values_mem)
        (.bind (touch_reads harrays ObjectArrays.cellIxs_mem)
          (.bind (touch_reads harrays ObjectArrays.hashes_mem)
            (.bind (readCell_reads harrays (hlinked.cell_eq hlast)) .pure))))
  · obtain rfl : ix = t.slots.length - 1 := by omega
    rw [if_neg hix, swapLast, List.set_of_getElem? hlast, List.set_of_getElem? (hlinked.cell_eq hlast)]
    exact .pure

theorem cells_swapLast (h : t.Linked none) (hlast : t.slots[t.slots.length - 1]? = some last)
    (q : ℕ) : (t.swapLast ix last).cells[q]? =
      if q = last.cellIx then some (some ix) else t.cells[q]? := by
  rw [swapLast, List.getElem?_set, if_pos (h.lt hlast)]
  simp only [eq_comm]

/-- After that the cell of the removed member is a hole. -/
theorem linked_swapLast (h : t.Linked none) (hs : t.slots[ix]? = some s)
    (hlast : t.slots[t.slots.length - 1]? = some last) :
    (t.swapLast ix last).Linked (some s.cellIx) := by
  have hlt := (List.getElem?_eq_some_iff.1 hs).1
  have hcell_ne : ∀ {k k' : ℕ} {m m' : Slot HeapValue}, t.slots[k]? = some m →
      t.slots[k']? = some m' → k ≠ k' → m.cellIx ≠ m'.cellIx := by
    intro k k' m m' hm hm' hne heq
    have hc := h.cell_eq hm
    rw [heq, h.cell_eq hm'] at hc
    exact hne (Option.some.inj (Option.some.inj hc)).symm
  refine ⟨fun k m hm => ?_, fun q k hc hq => ?_⟩
  · rw [slots_swapLast hs] at hm
    rw [cells_swapLast h hlast]
    split_ifs at hm with hk hix
    · cases hm
      refine ⟨by rw [if_pos rfl, hix], fun heq => ?_⟩
      exact hcell_ne hs hlast (by omega) (Option.some.inj heq)
    · rw [if_neg (hcell_ne hm hlast (by omega))]
      exact ⟨h.cell_eq hm, fun heq => hcell_ne hs hm (Ne.symm hix) (Option.some.inj heq)⟩
  · rw [cells_swapLast h hlast] at hc
    rw [slots_swapLast hs]
    split_ifs at hc with hqlast
    · cases hc
      have hne : ix ≠ t.slots.length - 1 := by
        rintro rfl
        rw [hs] at hlast
        cases hlast
        exact hq (congrArg some hqlast.symm)
      exact ⟨last, by rw [if_pos (by omega), if_pos rfl], hqlast.symm⟩
    · obtain ⟨m, hm, rfl⟩ := h.slot_of_cell hc
      have hkix : k ≠ ix := by
        rintro rfl
        rw [hs] at hm
        cases hm
        exact hq rfl
      have hklast : k ≠ t.slots.length - 1 := by
        rintro rfl
        rw [hlast] at hm
        cases hm
        exact hqlast rfl
      have hk := (List.getElem?_eq_some_iff.1 hm).1
      exact ⟨m, by rw [if_pos (by omega), if_neg hkix, hm], rfl⟩

/-- The members that remain. -/
theorem mem_swapLast (h : t.Shape) (hs : t.slots[ix]? = some s)
    (hlast : t.slots[t.slots.length - 1]? = some last) (m : Slot HeapValue) :
    m ∈ (t.swapLast ix last).slots ↔ m ∈ t.slots ∧ m.name ≠ s.name := by
  have hlt := (List.getElem?_eq_some_iff.1 hs).1
  constructor
  · intro hm
    obtain ⟨k, hk⟩ := List.getElem?_of_mem hm
    rw [slots_swapLast hs] at hk
    split_ifs at hk with hlt hix
    · cases hk
      exact ⟨List.mem_of_getElem? hlast, fun hname => by
        have := h.slot_unique hlast hs hname
        omega⟩
    · exact ⟨List.mem_of_getElem? hk, fun hname => hix (h.slot_unique hk hs hname)⟩
  · rintro ⟨hm, hname⟩
    obtain ⟨k, hk⟩ := List.getElem?_of_mem hm
    have hkix : k ≠ ix := by
      rintro rfl
      rw [hs] at hk
      cases hk
      exact hname rfl
    have hklt := (List.getElem?_eq_some_iff.1 hk).1
    by_cases hklast : k = t.slots.length - 1
    · rw [hklast, hlast] at hk
      cases hk
      refine List.mem_of_getElem? (i := ix) ?_
      rw [slots_swapLast hs, if_pos (by omega), if_pos rfl]
    · refine List.mem_of_getElem? (i := k) ?_
      rw [slots_swapLast hs, if_pos (by omega), if_neg hkix, hk]

theorem Wf.opened (h : t.Wf) (hs : t.slots[ix]? = some s)
    (hlast : t.slots[t.slots.length - 1]? = some last) :
    (t.swapLast ix last).Opened s.cellIx s.cellIx := by
  have hlen : (t.swapLast ix last).cells.length = t.cells.length := List.length_set
  have hperm : (s :: (t.swapLast ix last).slots).Perm t.slots := List.perm_set_dropLast hs hlast
  have hlinked := linked_swapLast h.linked hs hlast
  have hmem := mem_swapLast h.toShape hs hlast
  refine { arrays := ?_, capacity := ?_, itemCapacity_eq := ?_, count_le := ?_,
           hash_eq := fun m hm => h.hash_eq m ((hmem m).1 hm).1, nodup := ?_,
           parents := fun m hm => h.parents m ((hmem m).1 hm).1, linked := hlinked,
           shifting := ?_ }
  · rw [hlen]
    exact h.arrays
  · rw [hlen]
    exact h.capacity
  · rw [hlen]
    exact h.itemCapacity_eq
  · have hcount := hperm.length_eq
    rw [List.length_cons] at hcount
    have hle : t.slots.length ≤ (t.swapLast ix last).itemCapacity := h.count_le
    omega
  · exact (List.nodup_cons.1 ((hperm.map Slot.name).nodup_iff.2 h.nodup)).2
  · rw [hlen]
    refine (h.probed.shifting (h.linked.lt hs)).congr fun q hq => ?_
    refine Option.ext fun name => ?_
    refine (hlinked.mem_nameAt fun heq => hq (Option.some.inj heq).symm).trans
      (Iff.trans ?_ (h.linked.mem_nameAt (Option.some_ne_none q).symm).symm)
    refine exists_congr fun m => ⟨fun h => ⟨((hmem m).1 h.1).1, h.2⟩, ?_⟩
    rintro ⟨hm, rfl, hname⟩
    refine ⟨(hmem m).2 ⟨hm, fun heq => hq ?_⟩, rfl, hname⟩
    obtain ⟨k, hk⟩ := List.getElem?_of_mem hm
    obtain rfl := h.slot_unique hk hs heq
    rw [hs] at hk
    cases hk
    rfl

end

/-! ## The cells move up -/

section
variable {i j cell : ℕ} {slot : Slot HeapValue}

theorem Opened.step (h : t.Opened i j) {q : ℕ} (hc : t.cells[q]? = some (some cell)) (hq : q ≠ i) :
    ∃ slot, t.slots[cell]? = some slot ∧ slot.cellIx = q ∧ t.nameAt q = some slot.name ∧
      slot.hash.toNat % t.cells.length = home t.cells.length slot.name := by
  obtain ⟨slot, hslot, hcell⟩ :=
    h.linked.cell_slot q cell hc fun heq => hq (Option.some.inj heq).symm
  refine ⟨slot, hslot, hcell, hcell ▸ h.linked.nameAt_eq hslot, ?_⟩
  rw [h.hash_eq slot (List.mem_of_getElem? hslot), home]

theorem slots_moveCell (hslot : t.slots[cell]? = some slot) (k : ℕ) :
    (t.moveCell i cell slot).slots[k]? =
      if k = cell then some { slot with cellIx := i } else t.slots[k]? := by
  rw [moveCell, List.getElem?_set, if_pos (List.getElem?_eq_some_iff.1 hslot).1]
  simp only [eq_comm]

theorem cells_moveCell (hi : i < t.cells.length) (q : ℕ) :
    (t.moveCell i cell slot).cells[q]? = if q = i then some (some cell) else t.cells[q]? := by
  rw [moveCell, List.getElem?_set, if_pos hi]
  simp only [eq_comm]

/-- The cell that has been moved up is the new hole. -/
theorem linked_moveCell (h : t.Linked (some i)) (hi : i < t.cells.length)
    (hc : t.cells[j]? = some (some cell)) (hj : j ≠ i) (hslot : t.slots[cell]? = some slot)
    (hcell : slot.cellIx = j) : (t.moveCell i cell slot).Linked (some j) := by
  refine ⟨fun k m hm => ?_, fun q k hq hqj => ?_⟩
  · rw [slots_moveCell hslot] at hm
    rw [cells_moveCell hi]
    split_ifs at hm with hk
    · cases hm
      exact ⟨by rw [if_pos rfl, hk], fun heq => hj (Option.some.inj heq)⟩
    · obtain ⟨hm', hne⟩ := h.slot_cell k m hm
      refine ⟨by rw [if_neg fun heq => hne (congrArg some heq.symm), hm'], fun heq => hk ?_⟩
      rw [← Option.some.inj heq, hc] at hm'
      exact (Option.some.inj (Option.some.inj hm')).symm
  · rw [cells_moveCell hi] at hq
    rw [slots_moveCell hslot]
    split_ifs at hq with hqi
    · cases hq
      exact ⟨_, if_pos rfl, hqi.symm⟩
    · obtain ⟨m, hm, hmq⟩ := h.cell_slot q k hq fun heq => hqi (Option.some.inj heq).symm
      have hk : k ≠ cell := by
        rintro rfl
        rw [hslot] at hm
        cases hm
        exact hqj (congrArg some (hcell.symm.trans hmq))
      exact ⟨m, by rw [if_neg hk, hm], hmq⟩

theorem Shape.moveCell (h : t.Shape) (hslot : t.slots[cell]? = some slot) :
    (t.moveCell i cell slot).Shape := by
  have hlen : (t.moveCell i cell slot).cells.length = t.cells.length := List.length_set
  have hmem : ∀ m ∈ (t.moveCell i cell slot).slots, m ∈ t.slots ∨ m = { slot with cellIx := i } :=
    fun m hm => List.mem_or_eq_of_mem_set hm
  have hnames : (t.moveCell i cell slot).slots.map Slot.name = t.slots.map Slot.name :=
    List.map_set_of_eq hslot rfl
  have hslot' := List.mem_of_getElem? hslot
  refine ⟨?_, ?_, ?_, ?_, fun m hm => ?_, ?_, fun m hm => ?_⟩
  · rw [hlen]
    exact h.arrays
  · rw [hlen]
    exact h.capacity
  · rw [hlen]
    exact h.itemCapacity_eq
  · rw [ObjectTable.moveCell, List.length_set]
    exact h.count_le
  · rcases hmem m hm with hm | rfl
    · exact h.hash_eq m hm
    · exact h.hash_eq slot hslot'
  · rw [hnames]
    exact h.nodup
  · rcases hmem m hm with hm | rfl
    · exact h.parents m hm
    · exact h.parents slot hslot'

theorem Opened.move (h : t.Opened i j) (hj : (j + 1) % t.cells.length ≠ i)
    (hc : t.cells[(j + 1) % t.cells.length]? = some (some cell))
    (hslot : t.slots[cell]? = some slot) (hcell : slot.cellIx = (j + 1) % t.cells.length)
    (hname : t.nameAt ((j + 1) % t.cells.length) = some slot.name)
    (hpass : steps t.cells.length (home t.cells.length slot.name) i <
      steps t.cells.length (home t.cells.length slot.name) ((j + 1) % t.cells.length)) :
    (t.moveCell i cell slot).Opened ((j + 1) % t.cells.length) ((j + 1) % t.cells.length) := by
  have hlen : (t.moveCell i cell slot).cells.length = t.cells.length := List.length_set
  have hlinked := linked_moveCell h.linked h.shifting.hole_lt hc hj hslot hcell
  refine { h.toShape.moveCell hslot with linked := hlinked, shifting := ?_ }
  rw [hlen]
  refine (h.shifting.move hj hname hpass).congr fun q hq => ?_
  by_cases hqi : q = i
  · rw [hqi, Function.update_self]
    exact hlinked.nameAt_eq (s := { slot with cellIx := i }) ((slots_moveCell hslot cell).trans
      (if_pos rfl))
  · rw [Function.update_of_ne hqi]
    refine nameAt_congr ?_ (List.map_set_of_eq hslot rfl)
    rw [cells_moveCell h.shifting.hole_lt, if_neg hqi]

/-- At the end the hole is cleared. -/
theorem Opened.clear (h : t.Opened i j)
    (hprobed : Probed t.cells.length (home t.cells.length) (Function.update t.nameAt i none)) :
    (t.clearCell i).Wf := by
  have hlen : (t.clearCell i).cells.length = t.cells.length := List.length_set
  have hcells : ∀ q, (t.clearCell i).cells[q]? = if q = i then some none else t.cells[q]? := by
    intro q
    rw [clearCell, List.getElem?_set, if_pos h.shifting.hole_lt]
    simp only [eq_comm]
  have hname : (t.clearCell i).nameAt = Function.update t.nameAt i none := by
    funext q
    by_cases hq : q = i
    · rw [hq, Function.update_self, nameAt, hcells, if_pos rfl]
      rfl
    · rw [Function.update_of_ne hq]
      exact nameAt_congr (by rw [hcells, if_neg hq]) rfl
  refine { arrays := ?_, capacity := ?_, itemCapacity_eq := ?_, count_le := h.count_le,
           hash_eq := h.hash_eq, nodup := h.nodup, parents := h.parents,
           linked := ⟨fun k m hm => ?_, fun q k hc _ => ?_⟩, probed := ?_ }
  · rw [hlen]
    exact h.arrays
  · rw [hlen]
    exact h.capacity
  · rw [hlen]
    exact h.itemCapacity_eq
  · obtain ⟨hm, hne⟩ := h.linked.slot_cell k m hm
    exact ⟨by rw [hcells, if_neg fun heq => hne (congrArg some heq.symm), hm],
      (Option.some_ne_none _).symm⟩
  · rw [hcells] at hc
    split_ifs at hc with hq
    · cases hc
    · exact h.linked.cell_slot q k hc fun heq => hq (Option.some.inj heq).symm
  · rw [hlen, hname]
    exact hprobed

/-- A table after cells have been moved up and the hole has been cleared. -/
structure Closed (t : ObjectTable HeapValue) (t' : ObjectTable HeapValue) : Prop where
  wf : t'.Wf
  arrays : t'.arrays = t.arrays
  wrappingValue : t'.wrappingValue = t.wrappingValue
  cells : t'.cells.length = t.cells.length
  entries : t'.entries = t.entries

/-- The loop comes to an empty cell `e`, before it is back at the start. -/
theorem shiftLoop_reads {n start e : ℕ} (rounds : ℕ) (hn : t.cells.length = n) (hstart : start < n)
    (h : t.Opened i j) (hempty : t.cells[e]? = some none)
    (hrounds : steps n start j + rounds + 1 = n) (hi : steps n start i ≤ steps n start j)
    (hj : steps n start j < steps n start e) :
    ∃ t' i', Reads (arrayBlocks t.arrays) (shiftLoop rounds t i j) (t', i') ∧
      i' < t'.cells.length ∧ t.Closed (t'.clearCell i') := by
  have helt : e < n := hn ▸ (List.getElem?_eq_some_iff.1 hempty).1
  induction rounds generalizing t i j with
  | zero =>
    have := steps_lt hstart helt
    omega
  | succ rounds ih =>
    have harrays := h.arrays (hn ▸ Nat.zero_lt_of_lt hstart)
    have hlt : (j + 1) % n < n := Nat.mod_lt _ (Nat.zero_lt_of_lt hstart)
    have hback : (j + 1) % n ≠ start := by
      intro heq
      have hlast := steps_last hstart (hn ▸ h.shifting.scan_lt) heq
      have hlt := steps_lt hstart helt
      omega
    have hsucc := steps_succ hstart (hn ▸ h.shifting.scan_lt) hback
    have hne : (j + 1) % n ≠ i := by
      rintro heq
      rw [heq] at hsucc
      omega
    rw [shiftLoop]
    simp only [h.mask_eq]
    simp only [hn]
    cases hc : t.cells[(j + 1) % n]?.join with
    | none =>
      have hcell : t.cells[(j + 1) % n]? = some none := by
        rw [List.getElem?_eq_getElem (hn ▸ hlt)] at hc ⊢
        exact congrArg some hc
      have hname : t.nameAt ((j + 1) % n) = none := by
        rw [nameAt, hc]
        rfl
      subst hn
      exact ⟨t, i, .bind (readCell_reads harrays hcell) .pure, h.shifting.hole_lt,
        h.clear (h.shifting.finish hne hname), rfl, rfl, List.length_set, rfl⟩
    | some cell =>
      have hcell := Option.join_eq_some_iff.1 hc
      obtain ⟨slot, hslot, hix, hname, hhome⟩ := h.step hcell hne
      have hread := readCell_reads harrays hcell
      have hhashes := readSlot_reads harrays hslot ObjectArrays.hashes_mem
      have hneq : steps n start ((j + 1) % n) ≠ steps n start e := by
        intro heq
        rw [steps_inj hstart hlt helt heq, hempty] at hcell
        cases hcell
      have hj' : steps n start ((j + 1) % n) < steps n start e := by
        rw [hsucc] at hneq ⊢
        exact Nat.lt_of_le_of_ne hj hneq
      have hrounds' : steps n start ((j + 1) % n) + rounds + 1 = n := by omega
      rw [hn] at hhome
      have hpass := passes_iff (k := home n slot.name) (Nat.mod_lt _ (Nat.zero_lt_of_lt hstart))
        (hn ▸ h.shifting.hole_lt) hlt
      by_cases hmove : steps n (home n slot.name) i < steps n (home n slot.name) ((j + 1) % n)
      · obtain ⟨c, hhole⟩ : ∃ c, t.cells[i]? = some c :=
          ⟨_, List.getElem?_eq_getElem h.shifting.hole_lt⟩
        have hopened : (t.moveCell i cell slot).Opened ((j + 1) % n) ((j + 1) % n) := by
          subst hn
          exact h.move hne hcell hslot hix hname hmove
        have hempty' : (t.moveCell i cell slot).cells[e]? = some none := by
          have hei : e ≠ i := by
            rintro rfl
            omega
          rw [cells_moveCell h.shifting.hole_lt, if_neg hei, hempty]
        obtain ⟨t', i', hloop, hi', hr⟩ := ih (List.length_set.trans hn) hopened hempty' hrounds'
          le_rfl hj'
        refine ⟨t', i', .bind hread (.bind hhashes ?_), hi', ?_⟩
        · rw [hhome, if_pos (hpass.1 hmove)]
          exact .bind (touch_reads harrays ObjectArrays.cellIxs_mem)
            (.bind (readCell_reads harrays hhole) hloop)
        · exact ⟨hr.wf, hr.arrays, hr.wrappingValue, hr.cells.trans List.length_set,
            hr.entries.trans (List.map_set_of_eq hslot rfl)⟩
      · have hskip : Shifting t.cells.length (home t.cells.length) t.nameAt i ((j + 1) % n) := by
          subst hn
          exact h.shifting.skip hne hname hmove
        obtain ⟨t', i', hloop, hr⟩ := ih hn { h with shifting := hskip } hempty hrounds'
          (by omega) hj'
        refine ⟨t', i', .bind hread (.bind hhashes ?_), hr⟩
        rw [hhome, if_neg (mt hpass.2 hmove)]
        exact hloop

end

/-! ## The operations -/

/-- The list of members after `json_object_remove`: the last one is in the place of the one that
    is removed. -/
def removeMember (object : JsonObject) (name : Bytes) : JsonObject :=
  match object.findIdx? fun m => m.1 = name, object.getLast? with
  | some ix, some last => (object.set ix last).dropLast
  | _, _ => object

theorem findIdx_members (h : t.Shape) {ix : ℕ} {s : Slot HeapValue} (hs : t.slots[ix]? = some s) :
    t.members.findIdx? (fun m => m.1 = s.name) = some ix := by
  have hlt := (List.getElem?_eq_some_iff.1 hs).1
  rw [members, slotsAbs_eq, List.findIdx?_eq_some_iff_getElem]
  refine ⟨by rwa [List.length_map], ?_, fun k hk => ?_⟩
  · rw [List.getElem_map, (List.getElem?_eq_some_iff.1 hs).2]
    exact decide_eq_true rfl
  · rw [List.getElem_map]
    simp only [decide_eq_true_eq]
    intro hname
    exact hk.ne (h.slot_unique (List.getElem?_eq_getElem (hk.trans hlt)) hs hname)

theorem members_swapLast (h : t.Shape) {ix : ℕ} {s last : Slot HeapValue}
    (hs : t.slots[ix]? = some s) (hlast : t.slots[t.slots.length - 1]? = some last) :
    (t.swapLast ix last).members = removeMember t.members s.name := by
  have hend : t.members.getLast? = some (last.name, last.value.abs) := by
    rw [members, slotsAbs_eq, List.getLast?_eq_getElem?, List.length_map, List.getElem?_map, hlast]
    rfl
  rw [removeMember, findIdx_members h hs, hend]
  simp only [members, swapLast, slotsAbs_eq, List.map_dropLast, List.map_set]

theorem removeMember_absent {object : JsonObject} {name : Bytes}
    (h : object.lookup name = none) : removeMember object name = object := by
  have hnone : object.findIdx? (fun m => m.1 = name) = none := by
    rw [List.findIdx?_eq_none_iff]
    intro m hm
    have hne := List.lookup_eq_none_iff.1 h m hm
    exact decide_eq_false fun heq => by simp [heq] at hne
  rw [removeMember, hnone]

/-- What `json_object_remove_internal` may do. -/
inductive Removed (t : ObjectTable HeapValue) (name : Bytes) (freeValue : Bool) :
    ObjectTable HeapValue × Bool → Multiset ℕ → Bool → Prop
  | absent (h : ∀ s ∈ t.slots, s.name ≠ name) : Removed t name freeValue (t, false) t.blocks false
  | done {s : Slot HeapValue} {t' : ObjectTable HeapValue} (hs : s ∈ t.slots) (hname : s.name = name)
      (wf : t'.Wf) (wrappingValue : t'.wrappingValue = t.wrappingValue)
      (cells : t'.cells.length = t.cells.length) (perm : (s.entry :: t'.entries).Perm t.entries)
      (members : t'.members = removeMember t.members name) : Removed t name freeValue (t', true)
        ((if freeValue then 0 else s.value.blocks) + t'.blocks) false

theorem blocks_swapLast {ix : ℕ} {s last : Slot HeapValue} (hs : t.slots[ix]? = some s)
    (hlast : t.slots[t.slots.length - 1]? = some last) :
    t.blocks = s.value.blocks + (s.nameBlock ::ₘ (t.swapLast ix last).blocks) := by
  have hperm : (s :: (t.swapLast ix last).slots).Perm t.slots := List.perm_set_dropLast hs hlast
  rw [blocks, ← slotBlocks_perm hperm, slotBlocks_cons, Slot.blocks, blocks,
    ← Multiset.singleton_add, ← Multiset.singleton_add]
  show _ = s.value.blocks + ({s.nameBlock} + (arrayBlocks t.arrays + _))
  ac_rfl

/-- The member has been freed; the gap is closed. -/
theorem close_owned (h : t.Wf) {ix : ℕ} {s last : Slot HeapValue} (hs : t.slots[ix]? = some s)
    (hlast : t.slots[t.slots.length - 1]? = some last) {rest : Multiset ℕ} :
    Owned (rest + (t.swapLast ix last).blocks) (do
      let t ← moveLast t ix
      let (t, i) ← shiftLoop (t.cells.length - 1) t s.cellIx s.cellIx
      let _ ← readCell t i
      return (t.clearCell i, true)) fun r own bad => ∃ t' : ObjectTable HeapValue,
        r = (t', true) ∧ t'.Wf ∧ t'.wrappingValue = t.wrappingValue ∧
        t'.cells.length = t.cells.length ∧ t'.entries = (t.swapLast ix last).entries ∧ own = rest + t'.blocks ∧ bad = false := by
  have hlt := h.linked.lt hs
  have harrays := h.arrays (Nat.zero_lt_of_lt hlt)
  have hlen : (t.swapLast ix last).cells.length = t.cells.length := List.length_set
  have hle : arrayBlocks t.arrays ≤ rest + (t.swapLast ix last).blocks :=
    (Multiset.le_add_right (arrayBlocks (t.swapLast ix last).arrays) _).trans
      (Multiset.le_add_left _ _)
  refine Owned.reads_bind (moveLast_reads harrays h.linked hs hlast) hle ?_
  obtain ⟨e, helt, hempty⟩ := h.exists_empty (Nat.zero_lt_of_lt hlt)
  have hne : e ≠ s.cellIx := by
    rintro rfl
    rw [h.linked.cell_eq hs] at hempty
    cases hempty
  have hempty' : (t.swapLast ix last).cells[e]? = some none := by
    rw [cells_swapLast h.linked hlast, if_neg, hempty]
    rintro rfl
    rw [h.linked.cell_eq hlast] at hempty
    cases hempty
  obtain ⟨t', i, hloop, hi, hr⟩ := shiftLoop_reads (t.cells.length - 1) hlen hlt
    (h.opened hs hlast) hempty' (by rw [steps_self]; omega) le_rfl
    (by rw [steps_self]; exact steps_pos hne hlt)
  rw [hlen]
  refine Owned.reads_bind hloop hle ?_
  have ht'arrays : t'.arrays = t.arrays := hr.arrays
  have hread := readCell_reads (ht'arrays ▸ harrays) (List.getElem?_eq_getElem hi)
  refine Owned.reads_bind hread (ht'arrays ▸ hle) (.pure ⟨t'.clearCell i, rfl, hr.wf,
    hr.wrappingValue, hr.cells.trans hlen, hr.entries, ?_, rfl⟩)
  rw [blocks_eq (t'.clearCell i), hr.entries, hr.arrays, ← blocks_eq]

theorem jsonObjectRemoveInternal_owned (h : t.Wf) (halloc : ∀ s ∈ t.slots, s.value.Allocated)
    (name : Bytes) (freeValue : Bool) :
    Owned t.blocks (jsonObjectRemoveInternal t name freeValue) (t.Removed name freeValue) := by
  obtain ⟨⟨c, found⟩, hsearch, hr⟩ := jsonObjectGetCellIx_reads h name
  refine Owned.reads_bind hsearch le_rfl ?_
  cases hr with
  | free _ _ _ habsent => exact .pure (.absent habsent)
  | none _ habsent => exact .pure (.absent habsent)
  | @found p ix s hcell hslot hname =>
    have hlt := (List.getElem?_eq_some_iff.1 hslot).1
    have harrays := h.arrays (Nat.zero_lt_of_lt (List.getElem?_eq_some_iff.1 hcell).1)
    obtain ⟨last, hlast⟩ : ∃ last, t.slots[t.slots.length - 1]? = some last :=
      ⟨_, List.getElem?_eq_getElem (by omega)⟩
    obtain rfl : p = s.cellIx := by
      obtain ⟨s', hs', hp⟩ := h.linked.slot_of_cell hcell
      rw [hslot] at hs'
      cases hs'
      exact hp.symm
    have hread := (readCell_reads harrays hcell).mono t.arrays_subset
    have hvalues := (readSlot_reads harrays hslot ObjectArrays.values_mem).mono t.arrays_subset
    refine Owned.reads_bind hread le_rfl (Owned.reads_bind hvalues le_rfl ?_)
    -- the value is freed, or kept by the caller
    have hvalue : Frees ((if freeValue then 0 else s.value.blocks) +
        (s.nameBlock ::ₘ (t.swapLast ix last).blocks)) (if freeValue then s.value.blocks else 0)
        (Prog.when (freeValue = true) (jsonValueFree s.value)) := by
      cases freeValue with
      | true =>
        exact (jsonValueFree_frees s.value (halloc s (List.mem_of_getElem? hslot))).mono
          (Multiset.zero_le _)
      | false => exact .pure
    refine Owned.of_eq (hvalue.then_owned fun _ => ?_) ?_
    · have hle : arrayBlocks t.arrays ≤ (if freeValue then 0 else s.value.blocks) +
          (s.nameBlock ::ₘ (t.swapLast ix last).blocks) :=
        ((Multiset.le_add_right (arrayBlocks (t.swapLast ix last).arrays) _).trans
          (Multiset.le_cons_self _ _)).trans (Multiset.le_add_left _ _)
      refine Owned.reads_bind (touch_reads harrays ObjectArrays.names_mem) hle ?_
      rw [Multiset.add_cons]
      refine .free_bind ((close_owned h hslot hlast).conseq fun r own bad hr => ?_)
      obtain ⟨t', rfl, hwf, hwrap, hcells, hentries, rfl, rfl⟩ := hr
      refine .done (List.mem_of_getElem? hslot) hname hwf hwrap hcells ?_ ?_
      · rw [hentries]
        exact (List.perm_set_dropLast hslot hlast).map Slot.entry
      · rw [members_eq, hentries, ← members_eq, ← hname]
        exact members_swapLast h.toShape hslot hlast
    · rw [blocks_swapLast hslot hlast]
      cases freeValue <;> simp

/-- `json_object_clear` frees the members and keeps the arrays. -/
theorem jsonObjectClear_owned (h : t.Wf) (halloc : ∀ s ∈ t.slots, s.value.Allocated) :
    Owned t.blocks (jsonObjectClear t) fun t' own bad => t'.Wf ∧
      t'.wrappingValue = t.wrappingValue ∧ t'.cells.length = t.cells.length ∧ t'.entries = [] ∧
      own = t'.blocks ∧ bad = false := by
  have hfree := deinitLoop_frees t.arrays t.slots h.slots_arrays (slotsAll_iff.2 halloc)
  refine Owned.of_eq (hfree.then_owned fun _ => ?_) (add_comm _ _)
  have htouch : Reads (arrayBlocks t.arrays)
      (Prog.when (t.cells ≠ []) (touch t.arrays (·.cells))) () := by
    by_cases hcells : t.cells ≠ []
    · rw [Prog.when, if_pos hcells]
      exact touch_reads (h.arrays (List.length_pos_iff.2 hcells)) ObjectArrays.cells_mem
    · rw [Prog.when, if_neg hcells]
      exact .pure
  refine Owned.reads_bind htouch le_rfl (.pure ⟨?_, rfl, List.length_replicate, rfl, ?_, rfl⟩)
  · rw [h.itemCapacity_eq]
    exact wf_init h.capacity h.arrays
  · rw [blocks, slotBlocks, add_zero]

end ObjectTable

end Slirp4netns.Parson
