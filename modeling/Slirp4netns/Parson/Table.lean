/-
  slirp4netns formalization — the hash table of a JSON object (`json_object_*` in
  `parson.c`).

  The members of an object are in arrays in the order of insertion; `cells` is a
  table with linear probing that gives the index of a member for its name.  The
  table grows when it is more than seven tenths full.  A removed member is replaced
  by the last one, and the cells behind it are moved up.

  `ObjectTable.Wf` is the invariant.  Under it every operation returns, whatever
  allocations fail, and does to the list of members what the operations of
  `Parson.Value` do: `jsonObjectGetnValue_reads`, `jsonObjectAdd_owned`,
  `jsonObjectSetValue_owned` (in `Parson.Object`) and `jsonObjectRemoveInternal_owned`
  (in `Parson.Removal`).
-/
import Mathlib.Data.Finset.Card
import Mathlib.Data.Finset.Range
import Slirp4netns.Lib.Basic
import Slirp4netns.Lib.Probing
import Slirp4netns.Parson.Memory

namespace Slirp4netns.Parson

open HeapProg Probing

/-! ## The code -/

/-- `hash_string` -/
def hashLoop (hash : UInt64) : Bytes → UInt64
  | [] => hash
  | c :: s => if c = 0 then hash else hashLoop ((hash <<< 5) + hash + c.toUInt64) s

/-- `hash_string` -/
def hashString (name : Bytes) : UInt64 := hashLoop 5381 name

/-- `x & (capacity - 1)`, where the difference wraps around at 0. -/
def mask (x capacity : ℕ) : ℕ := if capacity = 0 then x else x &&& (capacity - 1)

/-- `STARTING_CAPACITY` -/
def startingCapacity : ℕ := 16

/-- `json_object_init` -/
def jsonObjectInit (wrappingValue capacity : ℕ) : HeapProg (Option (ObjectTable HeapValue)) :=
  if capacity = 0 then return some ⟨wrappingValue, none, [], [], 0⟩
  else do
    let cells ← malloc
    let names ← malloc
    let values ← malloc
    let cellIxs ← malloc
    let hashes ← malloc
    match cells, names, values, cellIxs, hashes with
    | some cells, some names, some values, some cellIxs, some hashes =>
      return some ⟨wrappingValue, some ⟨cells, names, values, cellIxs, hashes⟩,
        List.replicate capacity none, [], capacity * 7 / 10⟩
    | _, _, _, _, _ => do
      free cells
      free names
      free values
      free cellIxs
      free hashes
      return none

/-- `object->cells[ix]` -/
def readCell (t : ObjectTable HeapValue) (ix : ℕ) : HeapProg (Option ℕ) :=
  index (t.arrays.map (·.cells)) t.cells ix

/-- The loop of `json_object_get_cell_ix`: an index of `cells`, or `OBJECT_INVALID_IX`, and whether
    the key is there. -/
def getCellIxLoop (t : ObjectTable HeapValue) (key : Bytes) (hash : UInt64) (start : ℕ) :
    ℕ → ℕ → HeapProg (Option ℕ × Bool)
  | 0, _ => return (none, false)
  | rounds + 1, i => do
    let ix := mask (start + i) t.cells.length
    match ← readCell t ix with
    | none => return (some ix, false)
    | some cell => do
      let slot ← index (t.arrays.map (·.hashes)) t.slots cell
      if hash ≠ slot.hash then getCellIxLoop t key hash start rounds (i + 1)
      else do
        let slot ← index (t.arrays.map (·.names)) t.slots cell
        access slot.nameBlock
        if slot.name = key then return (some ix, true)
        else getCellIxLoop t key hash start rounds (i + 1)

/-- `json_object_get_cell_ix` -/
def jsonObjectGetCellIx (t : ObjectTable HeapValue) (key : Bytes) (hash : UInt64) :
    HeapProg (Option ℕ × Bool) :=
  getCellIxLoop t key hash (mask hash.toNat t.cells.length) t.cells.length 0

/-- `json_object_getn_value`, where `name` are the bytes that are given. -/
def jsonObjectGetnValue (t : ObjectTable HeapValue) (name : Bytes) :
    HeapProg (Option HeapValue) := do
  match ← jsonObjectGetCellIx t name (hashString name) with
  | (some cellIx, true) => do
    match ← readCell t cellIx with
    | none => Prog.stop .outOfBounds
    | some itemIx => do
      let slot ← index (t.arrays.map (·.values)) t.slots itemIx
      return some slot.value
  | _ => return none

/-- A new member, in the cell `ix`. -/
def ObjectTable.append (t : ObjectTable HeapValue) (ix : ℕ) (name : Bytes) (nameBlock : ℕ)
    (value : HeapValue) (hash : UInt64) : ObjectTable HeapValue :=
  { t with
    cells := t.cells.set ix (some t.slots.length)
    slots := t.slots ++ [⟨name, nameBlock, value.setParent t.wrappingValue, ix, hash⟩] }

/-- The stores at the end of `json_object_add`. -/
def appendMember (t : ObjectTable HeapValue) (cellIx : Option ℕ) (name : Bytes) (nameBlock : ℕ)
    (value : HeapValue) (hash : UInt64) : HeapProg (ObjectTable HeapValue) :=
  match t.arrays, cellIx with
  | none, _ => Prog.stop .nullPointer
  | _, none => Prog.stop .outOfBounds
  | some a, some ix => do
    access a.names
    access a.cells
    access a.values
    access a.cellIxs
    access a.hashes
    access value.block
    if t.slots.length < t.itemCapacity ∧ ix < t.cells.length then
      return t.append ix name nameBlock value hash
    else Prog.stop .outOfBounds

/-- `json_object_add`, with `json_object_grow_and_rehash`; the table, and whether it succeeded. -/
def addWith (grow : ObjectTable HeapValue → HeapProg (Option (ObjectTable HeapValue)))
    (t : ObjectTable HeapValue) (name : Bytes) (nameBlock : ℕ) (value : HeapValue) :
    HeapProg (ObjectTable HeapValue × Bool) := do
  access nameBlock
  let hash := hashString name
  let (cellIx, found) ← jsonObjectGetCellIx t name hash
  if found then return (t, false)
  else if t.slots.length ≥ t.itemCapacity then
    match ← grow t with
    | none => return (t, false)
    | some t => do
      let (cellIx, _) ← jsonObjectGetCellIx t name hash
      return (← appendMember t cellIx name nameBlock value hash, true)
  else return (← appendMember t cellIx name nameBlock value hash, true)

/-- The loop of `json_object_grow_and_rehash`. -/
def rehashLoop (grow : ObjectTable HeapValue → HeapProg (Option (ObjectTable HeapValue)))
    (arrays : Option ObjectArrays) : List (Slot HeapValue) → ObjectTable HeapValue →
    HeapProg (ObjectTable HeapValue × Bool)
  | [], new => return (new, true)
  | slot :: slots, new => do
    touch arrays (·.names)
    touch arrays (·.values)
    let (new, ok) ← addWith grow new slot.name slot.nameBlock slot.value
    if ok then do
      access slot.value.block
      rehashLoop grow arrays slots new
    else return (new, false)

/-- `json_object_grow_and_rehash`.  It adds the members to the new table with `json_object_add`,
    which could call it again; `depth` is how often. -/
def growAndRehash : ℕ → ObjectTable HeapValue → HeapProg (Option (ObjectTable HeapValue))
  | 0, _ => Prog.stop .tooDeep
  | depth + 1, t => do
    match ← jsonObjectInit t.wrappingValue (max (t.cells.length * 2) startingCapacity) with
    | none => return none
    | some new => do
      let (new, ok) ← rehashLoop (growAndRehash depth) t.arrays t.slots new
      if ok then do
        jsonObjectDeinit t false false
        return some new
      else do
        jsonObjectDeinit new false false
        return none

/-- `json_object_grow_and_rehash` -/
def jsonObjectGrowAndRehash : ObjectTable HeapValue → HeapProg (Option (ObjectTable HeapValue)) :=
  growAndRehash 1

/-- `json_object_add` -/
def jsonObjectAdd : ObjectTable HeapValue → Bytes → ℕ → HeapValue →
    HeapProg (ObjectTable HeapValue × Bool) :=
  addWith jsonObjectGrowAndRehash

/-- The end of `json_object_set_value`: a new member with a copy of the name. -/
def storeCopy (t : ObjectTable HeapValue) (cellIx : Option ℕ) (name : Bytes) (value : HeapValue) :
    HeapProg (ObjectTable HeapValue × Bool) := do
  match ← malloc with
  | none => return (t, false)
  | some nameBlock => return (← appendMember t cellIx name nameBlock value (hashString name), true)

/-- `json_object_set_value` on a name that is not there. -/
def storeNew (t : ObjectTable HeapValue) (cellIx : Option ℕ) (name : Bytes) (value : HeapValue) :
    HeapProg (ObjectTable HeapValue × Bool) :=
  if t.slots.length ≥ t.itemCapacity then do
    match ← jsonObjectGrowAndRehash t with
    | none => return (t, false)
    | some t => do
      let (cellIx, _) ← jsonObjectGetCellIx t name (hashString name)
      storeCopy t cellIx name value
  else storeCopy t cellIx name value

/-- The value of a member is replaced. -/
def ObjectTable.replace (t : ObjectTable HeapValue) (ix : ℕ) (s : Slot HeapValue)
    (value : HeapValue) : ObjectTable HeapValue :=
  { t with slots := t.slots.set ix { s with value := value.setParent t.wrappingValue } }

/-- `json_object_set_value` on an object and a value that are not `NULL`. -/
def jsonObjectSetValue (t : ObjectTable HeapValue) (name : Bytes) (value : HeapValue) :
    HeapProg (ObjectTable HeapValue × Bool) := do
  access value.block
  if value.parent.isSome then return (t, false)
  else do
    match ← jsonObjectGetCellIx t name (hashString name) with
    | (some cellIx, true) => do
      match ← readCell t cellIx with
      | none => Prog.stop .outOfBounds
      | some itemIx => do
        let slot ← index (t.arrays.map (·.values)) t.slots itemIx
        jsonValueFree slot.value
        touch t.arrays (·.values)
        access value.block
        return (t.replace itemIx slot value, true)
    | (cellIx, _) => storeNew t cellIx name value

/-! ## The invariant -/

/-- The cell from which a name is searched for, in a table of `n` cells. -/
def home (n : ℕ) (name : Bytes) : ℕ := (hashString name).toNat % n

namespace ObjectTable

variable {t : ObjectTable HeapValue}

/-- The name of the member that a cell leads to. -/
def nameAt (t : ObjectTable HeapValue) (p : ℕ) : Option Bytes :=
  (t.cells[p]?.join.bind (t.slots[·]?)).map Slot.name

/-- The arrays of a table, apart from the links between cells and members. -/
structure Shape (t : ObjectTable HeapValue) : Prop where
  arrays : 0 < t.cells.length → t.arrays.isSome
  capacity : t.cells.length = 0 ∨ ∃ k, t.cells.length = 2 ^ k
  itemCapacity_eq : t.itemCapacity = t.cells.length * 7 / 10
  count_le : t.slots.length ≤ t.itemCapacity
  hash_eq : ∀ s ∈ t.slots, s.hash = hashString s.name
  nodup : (t.slots.map Slot.name).Nodup
  parents : ∀ s ∈ t.slots, s.value.parent = some t.wrappingValue

/-- Cells and members refer to one another, but for a cell that is about to be cleared. -/
structure Linked (t : ObjectTable HeapValue) (hole : Option ℕ) : Prop where
  slot_cell : ∀ (ix : ℕ) (s : Slot HeapValue), t.slots[ix]? = some s →
    t.cells[s.cellIx]? = some (some ix) ∧ hole ≠ some s.cellIx
  cell_slot : ∀ p ix : ℕ, t.cells[p]? = some (some ix) → hole ≠ some p →
    ∃ s, t.slots[ix]? = some s ∧ s.cellIx = p

/-- The invariant of the table. -/
structure Wf (t : ObjectTable HeapValue) : Prop extends Shape t where
  linked : t.Linked none
  probed : Probed t.cells.length (home t.cells.length) t.nameAt

/-- Where a name is, or where it may be put. -/
inductive CellIx (t : ObjectTable HeapValue) (key : Bytes) : Option ℕ × Bool → Prop
  | found {p ix : ℕ} {s : Slot HeapValue} (hcell : t.cells[p]? = some (some ix))
      (hslot : t.slots[ix]? = some s) (hname : s.name = key) : CellIx t key (some p, true)
  | free {d : ℕ} (hd : d < t.cells.length)
      (hcell : t.cells[(home t.cells.length key + d) % t.cells.length]? = some none)
      (hbefore : ∀ e < d, (t.nameAt ((home t.cells.length key + e) % t.cells.length)).isSome)
      (habsent : ∀ s ∈ t.slots, s.name ≠ key) :
      CellIx t key (some ((home t.cells.length key + d) % t.cells.length), false)
  | none (hcells : t.cells.length = 0) (habsent : ∀ s ∈ t.slots, s.name ≠ key) :
      CellIx t key (none, false)

theorem Shape.mask_eq (h : t.Shape) (x : ℕ) : mask x t.cells.length = x % t.cells.length := by
  rw [mask]
  obtain h0 | ⟨k, hk⟩ := h.capacity
  · rw [if_pos h0, h0, Nat.mod_zero]
  · have hk' : t.cells.length ≠ 0 := by rw [hk]; exact (Nat.two_pow_pos k).ne'
    rw [if_neg hk', hk, Nat.and_two_pow_sub_one_eq_mod]

theorem Shape.count_lt (h : t.Shape) (hn : 0 < t.cells.length) :
    t.slots.length < t.cells.length := by
  have h₁ := h.count_le
  have h₂ := h.itemCapacity_eq
  omega

/-- A name is that of one member. -/
theorem Shape.slot_unique (h : t.Shape) {ix ix' : ℕ} {s s' : Slot HeapValue}
    (hs : t.slots[ix]? = some s) (hs' : t.slots[ix']? = some s') (hname : s.name = s'.name) :
    ix = ix' := by
  have hlt : ix < (t.slots.map Slot.name).length := by
    rw [List.length_map]
    exact (List.getElem?_eq_some_iff.1 hs).1
  refine (List.getElem?_inj hlt h.nodup).1 ?_
  rw [List.getElem?_map, List.getElem?_map, hs, hs', Option.map_some, Option.map_some, hname]

namespace Linked

variable {hole : Option ℕ} {ix p : ℕ} {s : Slot HeapValue}

theorem cell_eq (h : t.Linked hole) (hs : t.slots[ix]? = some s) :
    t.cells[s.cellIx]? = some (some ix) := (h.slot_cell ix s hs).1

theorem lt (h : t.Linked hole) (hs : t.slots[ix]? = some s) : s.cellIx < t.cells.length :=
  (List.getElem?_eq_some_iff.1 (h.cell_eq hs)).1

theorem nameAt_eq (h : t.Linked hole) (hs : t.slots[ix]? = some s) :
    t.nameAt s.cellIx = some s.name := by
  rw [nameAt, h.cell_eq hs]
  simp [hs]

theorem slot_of_cell (h : t.Linked none) (hc : t.cells[p]? = some (some ix)) :
    ∃ s, t.slots[ix]? = some s ∧ s.cellIx = p := h.cell_slot p ix hc (Option.some_ne_none p).symm

end Linked

/-- The table is never full. -/
theorem Wf.exists_empty (h : t.Wf) (hn : 0 < t.cells.length) :
    ∃ p < t.cells.length, t.cells[p]? = some none := by
  by_contra hfull
  have hall : ∀ p < t.cells.length, ∃ ix, t.cells[p]? = some (some ix) := by
    intro p hp
    rw [List.getElem?_eq_getElem hp]
    cases hc : t.cells[p] with
    | none => exact absurd ⟨p, hp, by rw [List.getElem?_eq_getElem hp, hc]⟩ hfull
    | some ix => exact ⟨ix, rfl⟩
  choose! f hf using hall
  -- different cells lead to different members, so there are as many members as cells
  have hcard : (Finset.range t.cells.length).card ≤ (Finset.range t.slots.length).card := by
    refine Finset.card_le_card_of_injOn f (fun p hp => ?_) fun p hp q hq heq => ?_
    · obtain ⟨s, hs, -⟩ := h.linked.slot_of_cell (hf p (Finset.mem_range.1 hp))
      exact Finset.mem_coe.2 (Finset.mem_range.2 (List.getElem?_eq_some_iff.1 hs).1)
    · obtain ⟨s, hs, rfl⟩ := h.linked.slot_of_cell (hf p (Finset.mem_range.1 hp))
      obtain ⟨s', hs', rfl⟩ := h.linked.slot_of_cell (hf q (Finset.mem_range.1 hq))
      have hss : s = s' := by
        rw [heq, hs'] at hs
        exact (Option.some.inj hs).symm
      rw [hss]
  rw [Finset.card_range, Finset.card_range] at hcard
  have := h.count_lt hn
  omega

/-- What a cell leads to depends on the cell and on the names. -/
theorem nameAt_congr {t' : ObjectTable HeapValue} {p : ℕ} (hcell : t'.cells[p]? = t.cells[p]?)
    (hnames : t'.slots.map Slot.name = t.slots.map Slot.name) : t'.nameAt p = t.nameAt p := by
  rw [nameAt, nameAt, hcell]
  cases t.cells[p]?.join with
  | none => rfl
  | some ix =>
    show t'.slots[ix]?.map Slot.name = t.slots[ix]?.map Slot.name
    rw [← List.getElem?_map, ← List.getElem?_map, hnames]

theorem mem_of_nameAt {p : ℕ} {name : Bytes} (h : name ∈ t.nameAt p) :
    ∃ s ∈ t.slots, s.name = name := by
  obtain ⟨s, hs, rfl⟩ := Option.mem_map.1 h
  obtain ⟨ix, -, hix⟩ := Option.mem_bind_iff.1 hs
  exact ⟨s, List.mem_of_getElem? hix, rfl⟩

/-! ## Searching -/

theorem readCell_reads (harrays : t.arrays.isSome) {p : ℕ} {c : Option ℕ}
    (hc : t.cells[p]? = some c) : Reads (arrayBlocks t.arrays) (readCell t p) c := by
  obtain ⟨a, ha⟩ := Option.isSome_iff_exists.1 harrays
  rw [readCell, ha]
  exact .index (by simp [arrayBlocks, ObjectArrays.blocks]) hc

theorem readSlot_reads (harrays : t.arrays.isSome) {ix : ℕ} {s : Slot HeapValue}
    (hs : t.slots[ix]? = some s) {field : ObjectArrays → ℕ}
    (hfield : ∀ a : ObjectArrays, field a ∈ a.blocks) :
    Reads (arrayBlocks t.arrays) (index (t.arrays.map field) t.slots ix) s := by
  obtain ⟨a, ha⟩ := Option.isSome_iff_exists.1 harrays
  rw [ha]
  exact .index (hfield a) hs

theorem accessName_reads {ix : ℕ} {s : Slot HeapValue} (hs : t.slots[ix]? = some s) :
    Reads t.blocks (access s.nameBlock) () := by
  refine .access (Multiset.mem_add.2 (.inr ?_))
  exact slot_blocks_subset (List.mem_of_getElem? hs) (Multiset.mem_cons_self _ _)

theorem arrays_subset (t : ObjectTable HeapValue) : arrayBlocks t.arrays ⊆ t.blocks :=
  Multiset.subset_of_le (Multiset.le_add_right _ _)

theorem getCellIxLoop_reads (h : t.Wf) (key : Bytes) {rounds i : ℕ}
    (hi : i + rounds = t.cells.length)
    (hpassed : ∀ e < i, ∃ name, t.nameAt ((home t.cells.length key + e) % t.cells.length) =
      some name ∧ name ≠ key) :
    ∃ r, Reads t.blocks (getCellIxLoop t key (hashString key) (home t.cells.length key) rounds i) r ∧
      t.CellIx key r := by
  induction rounds generalizing i with
  | zero =>
    have hzero : t.cells.length = 0 := by
      by_contra hn
      obtain ⟨p, hp, hempty⟩ := h.exists_empty (Nat.pos_of_ne_zero hn)
      -- every cell has been passed
      have hhome : home t.cells.length key < t.cells.length := Nat.mod_lt _ (Nat.pos_of_ne_zero hn)
      obtain ⟨name, hat, -⟩ := hpassed _ (Nat.lt_of_lt_of_eq (steps_lt hhome hp) hi.symm)
      rw [add_steps hhome hp, nameAt, hempty] at hat
      cases hat
    refine ⟨_, .pure, .none hzero fun s hs => ?_⟩
    obtain ⟨ix, hix⟩ := List.getElem?_of_mem hs
    have := h.linked.lt hix
    omega
  | succ rounds ih =>
    have hn : 0 < t.cells.length := by omega
    have harrays := h.arrays hn
    have hlt : (home t.cells.length key + i) % t.cells.length < t.cells.length := Nat.mod_lt _ hn
    rw [getCellIxLoop]
    simp only [h.mask_eq]
    cases hc : t.cells[(home t.cells.length key + i) % t.cells.length] with
    | none =>
      have hcell := List.getElem?_eq_some_iff.2 ⟨hlt, hc⟩
      have hread := (readCell_reads harrays hcell).mono t.arrays_subset
      refine ⟨_, .bind hread .pure, .free (by omega) hcell (fun e he => ?_) fun s hs hname => ?_⟩
      · obtain ⟨name, hat, -⟩ := hpassed e he
        rw [hat]
        rfl
      · obtain ⟨ix, hix⟩ := List.getElem?_of_mem hs
        have hempty : t.nameAt ((home t.cells.length key + i) % t.cells.length) = none := by
          rw [nameAt, hcell]
          rfl
        obtain ⟨e, he, hat⟩ := h.probed.absent hempty (h.linked.lt hix) (h.linked.nameAt_eq hix)
          (by rw [hname])
        obtain ⟨name, hname', hne⟩ := hpassed e he
        rw [hat, h.linked.nameAt_eq hix] at hname'
        exact hne (hname ▸ (Option.some.inj hname').symm)
    | some cell =>
      have hcell := List.getElem?_eq_some_iff.2 ⟨hlt, hc⟩
      obtain ⟨s, hs, hix⟩ := h.linked.slot_of_cell hcell
      have hnext (hne : s.name ≠ key) : ∃ r, Reads t.blocks (getCellIxLoop t key (hashString key)
          (home t.cells.length key) rounds (i + 1)) r ∧ t.CellIx key r := by
        refine ih (by omega) fun e he => ?_
        rcases Nat.lt_or_ge e i with hlt | hge
        · exact hpassed e hlt
        · obtain rfl : e = i := by omega
          exact ⟨s.name, by rw [← hix, h.linked.nameAt_eq hs], hne⟩
      have hread := (readCell_reads harrays hcell).mono t.arrays_subset
      have hhashes := (readSlot_reads harrays hs ObjectArrays.hashes_mem).mono t.arrays_subset
      have hnames := (readSlot_reads harrays hs ObjectArrays.names_mem).mono t.arrays_subset
      by_cases hhash : hashString key ≠ s.hash
      · obtain ⟨r, hreads, hr⟩ := hnext fun hname =>
          hhash (by rw [h.hash_eq s (List.mem_of_getElem? hs), hname])
        refine ⟨r, .bind hread (.bind hhashes ?_), hr⟩
        rwa [if_pos hhash]
      · by_cases hname : s.name = key
        · refine ⟨_, .bind hread (.bind hhashes ?_), .found hcell hs hname⟩
          rw [if_neg hhash]
          refine .bind hnames (.bind (accessName_reads hs) ?_)
          rw [if_pos hname]
          exact .pure
        · obtain ⟨r, hreads, hr⟩ := hnext hname
          refine ⟨r, .bind hread (.bind hhashes ?_), hr⟩
          rw [if_neg hhash]
          refine .bind hnames (.bind (accessName_reads hs) ?_)
          rwa [if_neg hname]

theorem jsonObjectGetCellIx_reads (h : t.Wf) (key : Bytes) :
    ∃ r, Reads t.blocks (jsonObjectGetCellIx t key (hashString key)) r ∧ t.CellIx key r := by
  have hloop := getCellIxLoop_reads h key (Nat.zero_add _) fun e he => absurd he (Nat.not_lt_zero e)
  rwa [home, ← h.mask_eq] at hloop

/-! ## Insertion -/

section
variable {ix : ℕ} {name : Bytes} {nameBlock : ℕ} {value : HeapValue} {hash : UInt64}

theorem cells_append {q : ℕ} (hix : ix < t.cells.length) :
    (t.append ix name nameBlock value hash).cells[q]? =
      if q = ix then some (some t.slots.length) else t.cells[q]? := by
  rw [append]
  by_cases hq : q = ix
  · rw [if_pos hq, hq, List.getElem?_set_self hix]
  · rw [if_neg hq, List.getElem?_set_ne (Ne.symm hq)]

theorem nameAt_append (h : t.Linked none) (hix : ix < t.cells.length) :
    (t.append ix name nameBlock value hash).nameAt = Function.update t.nameAt ix (some name) := by
  funext q
  rw [nameAt, cells_append hix]
  by_cases hq : q = ix
  · rw [if_pos hq, hq, Function.update_self]
    simp [append]
  · rw [if_neg hq, Function.update_of_ne hq, nameAt]
    cases hc : t.cells[q]?.join with
    | none => rfl
    | some cell =>
      obtain ⟨s, hs, -⟩ := h.slot_of_cell (Option.join_eq_some_iff.1 hc)
      have hlt := (List.getElem?_eq_some_iff.1 hs).1
      simp [append, List.getElem?_append_left hlt]

theorem linked_append (h : t.Linked none) (hcell : t.cells[ix]? = some none) :
    (t.append ix name nameBlock value hash).Linked none := by
  have hix := (List.getElem?_eq_some_iff.1 hcell).1
  refine ⟨fun cell s hs => ⟨?_, Option.some_ne_none _ |>.symm⟩, fun q cell hc _ => ?_⟩
  · rw [cells_append hix]
    rcases Nat.lt_or_ge cell t.slots.length with hlt | hge
    · rw [append, List.getElem?_append_left hlt] at hs
      have hcell' := h.cell_eq hs
      rw [if_neg, hcell']
      rintro rfl
      rw [hcell] at hcell'
      cases hcell'
    · obtain ⟨hlt, -⟩ := List.getElem?_eq_some_iff.1 hs
      rw [append, List.length_append, List.length_singleton] at hlt
      obtain rfl : cell = t.slots.length := by omega
      rw [append, List.getElem?_concat_length] at hs
      cases hs
      exact if_pos rfl
  · rw [cells_append hix] at hc
    split_ifs at hc with hq
    · cases hc
      exact ⟨_, List.getElem?_concat_length, hq.symm⟩
    · obtain ⟨s, hs, rfl⟩ := h.slot_of_cell hc
      exact ⟨s, by rw [append, List.getElem?_append_left (List.getElem?_eq_some_iff.1 hs).1, hs], rfl⟩

/-- A new member is put into the first free cell from its home on. -/
theorem Wf.append (h : t.Wf) (hroom : t.slots.length < t.itemCapacity)
    (hfree : t.CellIx name (some ix, false)) :
    (t.append ix name nameBlock value (hashString name)).Wf := by
  cases hfree with
  | @free d hd hcell hbefore habsent =>
  have hlen : (t.append ((home t.cells.length name + d) % t.cells.length) name nameBlock value
      (hashString name)).cells.length = t.cells.length := List.length_set
  have hshape : (t.append ((home t.cells.length name + d) % t.cells.length) name nameBlock value
      (hashString name)).Shape := by
    refine ⟨?_, ?_, ?_, ?_, fun s hs => ?_, ?_, fun s hs => ?_⟩
    · rw [hlen]
      exact h.arrays
    · rw [hlen]
      exact h.capacity
    · rw [hlen]
      exact h.itemCapacity_eq
    · rw [ObjectTable.append, List.length_append]
      exact hroom
    · rcases List.mem_append.1 hs with hs | hs
      · exact h.hash_eq s hs
      · rw [List.mem_singleton.1 hs]
    · rw [ObjectTable.append, List.map_append, List.nodup_append]
      refine ⟨h.nodup, by simp, fun a ha b hb => ?_⟩
      obtain ⟨s, hs, rfl⟩ := List.mem_map.1 ha
      obtain rfl : b = name := by simpa using hb
      exact habsent s hs
    · rcases List.mem_append.1 hs with hs | hs
      · exact h.parents s hs
      · rw [List.mem_singleton.1 hs]
        rfl
  refine { hshape with linked := linked_append h.linked hcell, probed := ?_ }
  rw [hlen, nameAt_append h.linked (Nat.mod_lt _ (Nat.zero_lt_of_lt hd))]
  refine h.probed.insert (Nat.mod_lt _ (Nat.zero_lt_of_lt hd)) hd hbefore fun p _ hat => ?_
  obtain ⟨s, hs, hname⟩ := mem_of_nameAt hat
  exact habsent s hs hname

theorem appendMember_reads (harrays : t.arrays.isSome)
    (hroom : t.slots.length < t.itemCapacity) (hix : ix < t.cells.length) {s : Multiset ℕ}
    (hs : arrayBlocks t.arrays ⊆ s) (hvalue : value.block ∈ s) :
    Reads s (appendMember t (some ix) name nameBlock value hash)
      (t.append ix name nameBlock value hash) := by
  obtain ⟨a, ha⟩ := Option.isSome_iff_exists.1 harrays
  rw [ha] at hs
  simp only [appendMember, ha]
  refine .bind (.access (hs a.names_mem)) (.bind (.access (hs a.cells_mem))
    (.bind (.access (hs a.values_mem)) (.bind (.access (hs a.cellIxs_mem))
      (.bind (.access (hs a.hashes_mem)) (.bind (.access hvalue) ?_)))))
  rw [if_pos ⟨hroom, hix⟩]
  exact .pure

theorem Shape.cells_pos (h : t.Shape) (hroom : t.slots.length < t.itemCapacity) :
    0 < t.cells.length := by
  have := h.itemCapacity_eq
  omega

/-- The search for a name that is not there. -/
theorem Wf.search_absent (h : t.Wf) (habsent : ∀ s ∈ t.slots, s.name ≠ name) :
    ∃ c, Reads t.blocks (jsonObjectGetCellIx t name (hashString name)) (c, false) ∧
      t.CellIx name (c, false) := by
  obtain ⟨r, hreads, hr⟩ := jsonObjectGetCellIx_reads h name
  cases hr with
  | found _ hslot hname => exact absurd hname (habsent _ (List.mem_of_getElem? hslot))
  | free hd hcell hbefore => exact ⟨_, hreads, .free hd hcell hbefore habsent⟩
  | none hcells => exact ⟨_, hreads, .none hcells habsent⟩

theorem CellIx.absent {c : Option ℕ} (h : t.CellIx name (c, false)) :
    ∀ s ∈ t.slots, s.name ≠ name := by
  cases h with
  | free _ _ _ habsent => exact habsent
  | none _ habsent => exact habsent

/-- Where there is room, there is a cell. -/
theorem CellIx.exists_lt {c : Option ℕ} (h : t.CellIx name (c, false)) (hn : 0 < t.cells.length) :
    ∃ ix < t.cells.length, c = some ix := by
  cases h with
  | free => exact ⟨_, Nat.mod_lt _ hn, rfl⟩
  | none hcells => omega

/-- There is room for the new member. -/
theorem addWith_reads {grow : ObjectTable HeapValue → HeapProg (Option (ObjectTable HeapValue))}
    (h : t.Wf) (hroom : t.slots.length < t.itemCapacity)
    (habsent : ∀ s ∈ t.slots, s.name ≠ name) {s : Multiset ℕ} (hs : t.blocks ⊆ s)
    (hname : nameBlock ∈ s) (hvalue : value.block ∈ s) :
    ∃ ix, Reads s (addWith grow t name nameBlock value)
      (t.append ix name nameBlock value (hashString name), true) ∧
      (t.append ix name nameBlock value (hashString name)).Wf := by
  obtain ⟨c, hsearch, hfree⟩ := h.search_absent habsent
  obtain ⟨ix, hix, rfl⟩ := hfree.exists_lt (h.cells_pos hroom)
  have happend : Reads s (appendMember t (some ix) name nameBlock value (hashString name)) _ :=
    appendMember_reads (h.arrays (h.cells_pos hroom)) hroom hix
      (fun b hb => hs (t.arrays_subset hb)) hvalue
  refine ⟨ix, .bind (.access hname) (.bind (hsearch.mono hs) ?_), h.append hroom hfree⟩
  simp only [Bool.false_eq_true, if_false, if_neg (Nat.not_le.2 hroom)]
  exact .bind happend .pure

end

end ObjectTable

end Slirp4netns.Parson
