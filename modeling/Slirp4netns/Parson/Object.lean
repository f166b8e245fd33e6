/-
  slirp4netns formalization — the operations of a JSON object (`json_object_*` in
  `parson.c`).

  The table grows when it is more than seven tenths full.  Under the invariant of
  `Parson.Table` every operation returns, whatever allocations fail, and does to the
  members what the operations of `Parson.Value` do to a list:
  `jsonObjectGetnValue_reads`, `jsonObjectAdd_owned`, `jsonObjectSetValue_owned`.
-/
import Slirp4netns.Parson.Table

namespace Slirp4netns.Parson

open HeapProg Probing

namespace ObjectTable

variable {t : ObjectTable HeapValue}

/-! ## Growth -/

/-- The members, without their places in the table. -/
def entries (t : ObjectTable HeapValue) : List (Bytes × ℕ × HeapValue) := t.slots.map Slot.entry

theorem entries_append {ix : ℕ} {name : Bytes} {nameBlock : ℕ} {value : HeapValue}
    {hash : UInt64} : (t.append ix name nameBlock value hash).entries =
      t.entries ++ [(name, nameBlock, value.setParent t.wrappingValue)] := by
  rw [entries, append, List.map_append]
  rfl

theorem blocks_eq (t : ObjectTable HeapValue) : t.blocks =
    arrayBlocks t.arrays + (t.entries.map fun e => e.2.1 ::ₘ e.2.2.blocks).sum := by
  rw [blocks, slotBlocks_eq, entries]

theorem members_eq (t : ObjectTable HeapValue) :
    t.members = t.entries.map fun e => (e.1, e.2.2.abs) := by
  rw [members, slotsAbs_eq, entries, List.map_map]
  rfl

theorem jsonObjectInit_owned (w capacity : ℕ) :
    Owned 0 (jsonObjectInit w capacity) fun r own bad =>
      (r = none ∧ own = 0 ∧ bad = true) ∨
      ∃ arrays, (0 < capacity → arrays.isSome) ∧ own = arrayBlocks arrays ∧ bad = false ∧
        r = some ⟨w, arrays, List.replicate capacity none, [], capacity * 7 / 10⟩ := by
  rw [jsonObjectInit]
  refine .ite (fun hzero => ?_) fun hpos => ?_
  · refine .pure (.inr ⟨none, fun h => absurd hzero h.ne', rfl, rfl, ?_⟩)
    rw [hzero]
    rfl
  · refine .malloc_bind_opt fun cells => .malloc_bind_opt fun names => .malloc_bind_opt fun values =>
      .malloc_bind_opt fun cellIxs => .malloc_bind_opt fun hashes => ?_
    split
    · refine .pure (.inr ⟨some _, fun _ => rfl, ?_, rfl, rfl⟩)
      simp only [optBlock, arrayBlocks, ObjectArrays.blocks, ← Multiset.singleton_add]
      ac_rfl
    · next hnone =>
      refine Owned.of_eq ((Frees.free_opt cells).then_owned fun _ =>
        (Frees.free_opt names).then_owned fun _ => (Frees.free_opt values).then_owned fun _ =>
        (Frees.free_opt cellIxs).then_owned fun _ => (Frees.free_opt hashes).then_owned fun _ =>
        .pure (.inl ⟨rfl, rfl, ?_⟩)) ?_
      · by_contra hbad
        simp only [Bool.or_false, Bool.or_eq_true, not_or, Bool.not_eq_true,
          Option.isNone_eq_false_iff, Option.isSome_iff_exists] at hbad
        obtain ⟨⟨a, ha⟩, ⟨b, hb⟩, ⟨c, hc⟩, ⟨d, hd⟩, ⟨e, he⟩⟩ := hbad
        exact hnone a b c d e ha hb hc hd he
      · ac_rfl

theorem wf_init {w capacity : ℕ} {arrays : Option ObjectArrays}
    (hcapacity : capacity = 0 ∨ ∃ k, capacity = 2 ^ k) (harrays : 0 < capacity → arrays.isSome) :
    (⟨w, arrays, List.replicate capacity none, [], capacity * 7 / 10⟩ :
      ObjectTable HeapValue).Wf := by
  have hlen : (List.replicate capacity (none : Option ℕ)).length = capacity := List.length_replicate
  have hcell : ∀ p : ℕ, (List.replicate capacity (none : Option ℕ))[p]?.join = none := by
    intro p
    rw [List.getElem?_replicate]
    split <;> rfl
  refine { arrays := ?_, capacity := ?_, itemCapacity_eq := ?_, count_le := Nat.zero_le _,
           hash_eq := fun s hs => absurd hs List.not_mem_nil, nodup := List.nodup_nil,
           parents := fun s hs => absurd hs List.not_mem_nil, linked := ⟨?_, ?_⟩, probed := ?_ }
  · rwa [hlen]
  · rwa [hlen]
  · rw [hlen]
  · rintro ix s hs
    cases hs
  · intro p ix hc
    have := hcell p
    simp only at hc
    rw [hc] at this
    cases this
  · have hname : nameAt ⟨w, arrays, List.replicate capacity none, [], capacity * 7 / 10⟩ =
        fun _ => none := by
      funext p
      rw [nameAt, hcell]
      rfl
    rw [hname]
    exact .empty

theorem append_blocks {ix : ℕ} {name : Bytes} {nameBlock : ℕ} {value : HeapValue}
    {hash : UInt64} : (t.append ix name nameBlock value hash).blocks =
      nameBlock ::ₘ (value.blocks + t.blocks) := by
  rw [blocks, append, slotBlocks_append, slotBlocks_singleton, Slot.blocks,
    HeapValue.setParent_blocks, blocks, ← add_assoc, add_comm, Multiset.cons_add]

/-- The members `slots` have been added to a table that has room for them. -/
structure Rehashed (new : ObjectTable HeapValue) (slots : List (Slot HeapValue))
    (new' : ObjectTable HeapValue) : Prop where
  wf : new'.Wf
  arrays : new'.arrays = new.arrays
  wrappingValue : new'.wrappingValue = new.wrappingValue
  itemCapacity : new'.itemCapacity = new.itemCapacity
  cells : new'.cells.length = new.cells.length
  entries : new'.entries = new.entries ++ slots.map Slot.entry

theorem rehashLoop_reads {grow : ObjectTable HeapValue → HeapProg (Option (ObjectTable HeapValue))}
    {old : Option ObjectArrays} {s : Multiset ℕ} (hold : arrayBlocks old ⊆ s)
    {slots : List (Slot HeapValue)} {new : ObjectTable HeapValue} (h : new.Wf)
    (hroom : new.slots.length + slots.length ≤ new.itemCapacity)
    (hnodup : ((new.slots ++ slots).map Slot.name).Nodup)
    (hparents : ∀ m ∈ slots, m.value.parent = some new.wrappingValue)
    (hsome : slots ≠ [] → old.isSome) (hnew : new.blocks ⊆ s) (hslots : slotBlocks slots ⊆ s) :
    ∃ new', Reads s (rehashLoop grow old slots new) (new', true) ∧ new.Rehashed slots new' := by
  induction slots generalizing new with
  | nil => exact ⟨new, .pure, h, rfl, rfl, rfl, rfl, (List.append_nil _).symm⟩
  | cons m slots ih =>
    have harrays := hsome (List.cons_ne_nil m slots)
    rw [slotBlocks_cons] at hslots
    have hm : m.blocks ⊆ s := fun b hb => hslots (Multiset.mem_add.2 (.inl hb))
    have hvalue : m.value.block ∈ s := by
      refine hm (Multiset.mem_cons_of_mem ?_)
      cases m.value
      exact Multiset.mem_cons_self _ _
    have hlt : new.slots.length < new.itemCapacity := by
      rw [List.length_cons] at hroom
      omega
    have habsent : ∀ m' ∈ new.slots, m'.name ≠ m.name := by
      intro m' hm'
      rw [List.map_append, List.nodup_append] at hnodup
      exact hnodup.2.2 _ (List.mem_map_of_mem hm') _ (List.mem_map_of_mem List.mem_cons_self)
    obtain ⟨ix, hadd, hwf⟩ := addWith_reads h hlt habsent hnew (hm (Multiset.mem_cons_self _ _))
      hvalue
    have hroom' : (new.append ix m.name m.nameBlock m.value (hashString m.name)).slots.length +
        slots.length ≤ new.itemCapacity := by
      rw [append, List.length_append, List.length_singleton]
      rw [List.length_cons] at hroom
      omega
    have hnodup' : (((new.append ix m.name m.nameBlock m.value (hashString m.name)).slots ++
        slots).map Slot.name).Nodup := by
      rw [append, List.append_assoc]
      simpa using hnodup
    have hnew' : (new.append ix m.name m.nameBlock m.value (hashString m.name)).blocks ⊆ s := by
      rw [append_blocks]
      intro b hb
      rcases Multiset.mem_cons.1 hb with rfl | hb
      · exact hm (Multiset.mem_cons_self _ _)
      · rcases Multiset.mem_add.1 hb with hb | hb
        · exact hm (Multiset.mem_cons_of_mem hb)
        · exact hnew hb
    obtain ⟨new', hloop, hr⟩ := ih hwf hroom' hnodup' (fun m' hm' => hparents m' (.tail _ hm'))
      (fun _ => harrays) hnew' fun b hb => hslots (Multiset.mem_add.2 (.inr hb))
    have hnames := (touch_reads harrays ObjectArrays.names_mem).mono hold
    have hvalues := (touch_reads harrays ObjectArrays.values_mem).mono hold
    refine ⟨new', .bind hnames (.bind hvalues (.bind hadd (.bind (.access hvalue) hloop))), hr.wf,
      hr.arrays, hr.wrappingValue, hr.itemCapacity, hr.cells.trans List.length_set, ?_⟩
    rw [hr.entries, entries_append,
      HeapValue.setParent_of_parent (hparents m List.mem_cons_self), List.append_assoc]
    rfl

theorem deinit_frees (t : ObjectTable HeapValue) {keep : Multiset ℕ} :
    Frees keep (arrayBlocks t.arrays) (jsonObjectDeinit t false false) :=
  .reads_bind (deinitLoop_keep t.arrays t.slots) (Multiset.zero_le _) (freeArrays_frees keep _)

/-- With one more member, `t'` has no more cells than `t` had, unless they are at most three for each
    member. -/
def CellsWithin (t t' : ObjectTable HeapValue) : Prop :=
  t'.cells.length ≤ max t.cells.length (max startingCapacity (3 * (t.slots.length + 1)))

/-- What `json_object_grow_and_rehash` may do, on a table that is full. -/
inductive Grown (t : ObjectTable HeapValue) :
    Option (ObjectTable HeapValue) → Multiset ℕ → Bool → Prop
  | failed : Grown t none t.blocks true
  | done {new : ObjectTable HeapValue} (wf : new.Wf) (entries : new.entries = t.entries)
      (wrappingValue : new.wrappingValue = t.wrappingValue) (cells : t.CellsWithin new)
      (room : new.slots.length < new.itemCapacity) : Grown t (some new) new.blocks false

theorem Wf.slots_arrays (h : t.Wf) (hne : t.slots ≠ []) : t.arrays.isSome := by
  refine h.arrays ?_
  have h₁ := List.length_pos_iff.2 hne
  have h₂ := h.count_le
  have h₃ := h.itemCapacity_eq
  omega

theorem growth_pow (h : t.Shape) : ∃ k, max (t.cells.length * 2) startingCapacity = 2 ^ k := by
  rw [startingCapacity]
  rcases le_total (t.cells.length * 2) 16 with hle | hle
  · exact ⟨4, max_eq_right hle⟩
  · obtain hzero | ⟨k, hk⟩ := h.capacity
    · omega
    · exact ⟨k + 1, by rw [max_eq_left hle, hk, pow_succ]⟩

theorem growth_room (h : t.Shape) :
    t.slots.length < max (t.cells.length * 2) startingCapacity * 7 / 10 := by
  have hcount := h.count_le
  have hitem := h.itemCapacity_eq
  rw [startingCapacity]
  omega

theorem growth_cells (h : t.Shape) (hfull : t.itemCapacity ≤ t.slots.length) :
    max (t.cells.length * 2) startingCapacity ≤
      max t.cells.length (max startingCapacity (3 * (t.slots.length + 1))) := by
  have hitem := h.itemCapacity_eq
  omega

/-- All members fit into a new table of twice the size. -/
theorem rehash_reads (h : t.Wf) {arrays : Option ObjectArrays} {capacity : ℕ}
    {grow : ObjectTable HeapValue → HeapProg (Option (ObjectTable HeapValue))}
    (hpow : ∃ k, capacity = 2 ^ k) (hroom : t.slots.length < capacity * 7 / 10)
    (harrays : 0 < capacity → arrays.isSome) :
    ∃ new, Reads (arrayBlocks arrays + t.blocks) (rehashLoop grow t.arrays t.slots
        ⟨t.wrappingValue, arrays, List.replicate capacity none, [], capacity * 7 / 10⟩)
        (new, true) ∧ new.Wf ∧ new.entries = t.entries ∧ new.wrappingValue = t.wrappingValue ∧
      new.arrays = arrays ∧ new.cells.length = capacity ∧ new.slots.length < new.itemCapacity := by
  obtain ⟨new, hreads, hr⟩ := rehashLoop_reads
    (fun b hb => Multiset.mem_add.2 (.inr (t.arrays_subset hb)))
    (wf_init (w := t.wrappingValue) (.inr hpow) harrays)
    (by simpa using Nat.le_of_lt hroom) (by simpa using h.nodup) h.parents h.slots_arrays
    (fun b hb => Multiset.mem_add.2 (.inl (by simpa [blocks, slotBlocks] using hb)))
    (fun b hb => Multiset.mem_add.2 (.inr (Multiset.mem_add.2 (.inr hb))))
  have hentries : new.entries = t.entries := hr.entries
  have hlength := congrArg List.length hentries
  rw [entries, entries, List.length_map, List.length_map] at hlength
  refine ⟨new, hreads, hr.wf, hentries, hr.wrappingValue, hr.arrays,
    hr.cells.trans List.length_replicate, ?_⟩
  rw [hlength, hr.itemCapacity]
  exact hroom

/-- The table grows, or is as it was. -/
theorem growAndRehash_owned (h : t.Wf) (hfull : t.itemCapacity ≤ t.slots.length) (depth : ℕ) :
    Owned t.blocks (growAndRehash (depth + 1) t) t.Grown := by
  rw [growAndRehash]
  have hinit := (jsonObjectInit_owned t.wrappingValue
    (max (t.cells.length * 2) startingCapacity)).frame t.blocks
  refine Owned.bind (hinit.of_eq (zero_add _).symm) fun r own bad hr => ?_
  rcases hr with ⟨_, rfl, ⟨rfl, rfl, rfl⟩ | ⟨arrays, harrays, rfl, rfl, rfl⟩⟩
  · exact .pure (by rw [zero_add]; exact .failed)
  · obtain ⟨new, hloop, hwf, hentries, hwrap, rfl, hcells, hroom⟩ :=
      rehash_reads h (growth_pow h.toShape) (growth_room h.toShape) harrays
    refine Owned.reads_bind hloop le_rfl ?_
    have hwithin : t.CellsWithin new := hcells.trans_le (growth_cells h.toShape hfull)
    have hdeinit : Owned (arrayBlocks t.arrays + new.blocks) (jsonObjectDeinit t false false >>=
        fun _ => pure (some new)) t.Grown :=
      (deinit_frees t).then_owned fun _ => .pure (.done hwf hentries hwrap hwithin hroom)
    refine hdeinit.of_eq ?_
    rw [blocks_eq new, hentries, blocks_eq t]
    ac_rfl

/-! ## The operations -/

section
variable {name : Bytes} {nameBlock : ℕ} {value : HeapValue}

theorem lookup_members_eq_none (habsent : ∀ s ∈ t.slots, s.name ≠ name) :
    t.members.lookup name = none := by
  rw [List.lookup_eq_none_iff, members, slotsAbs_eq]
  intro m hm
  obtain ⟨s, hs, rfl⟩ := List.mem_map.1 hm
  simpa using (habsent s hs).symm

theorem lookup_members_eq_some (h : t.Wf) {ix : ℕ} {s : Slot HeapValue}
    (hs : t.slots[ix]? = some s) : t.members.lookup s.name = some s.value.abs := by
  obtain ⟨before, after, hsplit⟩ := List.append_of_mem (List.mem_of_getElem? hs)
  have hnodup := h.nodup
  rw [hsplit, List.map_append, List.map_cons, List.nodup_append] at hnodup
  rw [List.lookup_eq_some_iff, members, slotsAbs_eq, hsplit]
  refine ⟨before.map fun s => (s.name, s.value.abs), after.map fun s => (s.name, s.value.abs),
    by rw [List.map_append, List.map_cons], fun m hm => ?_⟩
  obtain ⟨s', hs', rfl⟩ := List.mem_map.1 hm
  simpa using (hnodup.2.2 _ (List.mem_map_of_mem hs') _ List.mem_cons_self).symm

/-- **`json_object_getn_value` finds the member with a name**, as on the list of the members. -/
theorem jsonObjectGetnValue_reads (h : t.Wf) (name : Bytes) :
    ∃ r, Reads t.blocks (jsonObjectGetnValue t name) r ∧
      r.map HeapValue.abs = Slirp4netns.jsonObjectGetnValue (some t.members) name ∧
      ∀ v ∈ r, ∃ s ∈ t.slots, s.value = v := by
  obtain ⟨r, hsearch, hr⟩ := jsonObjectGetCellIx_reads h name
  cases hr with
  | @found p ix s hcell hslot hname =>
    have harrays := h.arrays (Nat.zero_lt_of_lt (List.getElem?_eq_some_iff.1 hcell).1)
    have hread := (readCell_reads harrays hcell).mono t.arrays_subset
    have hvalues := (readSlot_reads harrays hslot ObjectArrays.values_mem).mono t.arrays_subset
    refine ⟨some s.value, .bind hsearch (.bind hread (.bind hvalues .pure)), ?_, ?_⟩
    · exact (hname ▸ lookup_members_eq_some h hslot).symm
    · rintro v hv
      cases hv
      exact ⟨s, List.mem_of_getElem? hslot, rfl⟩
  | free _ _ _ habsent =>
    exact ⟨none, .bind hsearch .pure, (lookup_members_eq_none habsent).symm,
      fun v hv => by cases hv⟩
  | none _ habsent =>
    exact ⟨none, .bind hsearch .pure, (lookup_members_eq_none habsent).symm,
      fun v hv => by cases hv⟩

/-- The table has a new member, at the end. -/
structure Extended (t : ObjectTable HeapValue) (name : Bytes) (nameBlock : ℕ) (value : HeapValue)
    (t' : ObjectTable HeapValue) : Prop where
  wf : t'.Wf
  wrappingValue : t'.wrappingValue = t.wrappingValue
  cells : t.CellsWithin t'
  entries : t'.entries = t.entries ++ [(name, nameBlock, value.setParent t.wrappingValue)]

theorem Extended.members_eq {t' : ObjectTable HeapValue} (h : t.Extended name nameBlock value t') :
    t'.members = t.members ++ [(name, value.abs)] := by
  rw [ObjectTable.members_eq t', h.entries, List.map_append, ← ObjectTable.members_eq,
    List.map_singleton, HeapValue.setParent_abs]

theorem CellsWithin.of_eq {t' : ObjectTable HeapValue} (h : t'.cells.length = t.cells.length) :
    t.CellsWithin t' := h.trans_le (le_max_left _ _)

/-- A member is added where there is room. -/
theorem appendMember_owned (h : t.Wf) (hroom : t.slots.length < t.itemCapacity) {c : Option ℕ}
    (hfree : t.CellIx name (c, false)) : Owned (nameBlock ::ₘ (value.blocks + t.blocks))
      (appendMember t c name nameBlock value (hashString name)) fun t' own bad =>
        t.Extended name nameBlock value t' ∧ own = t'.blocks ∧ bad = false := by
  obtain ⟨ix, hix, rfl⟩ := hfree.exists_lt (h.cells_pos hroom)
  refine .of_reads (appendMember_reads (h.arrays (h.cells_pos hroom)) hroom hix ?_ ?_) le_rfl
    ⟨⟨h.append hroom hfree, rfl, .of_eq List.length_set, entries_append⟩, append_blocks.symm, rfl⟩
  · exact fun b hb => Multiset.mem_cons_of_mem (Multiset.mem_add.2 (.inr (t.arrays_subset hb)))
  · exact Multiset.mem_cons_of_mem (Multiset.mem_add.2 (.inl value.block_mem))

/-- What `json_object_add` may do. -/
inductive Added (t : ObjectTable HeapValue) (name : Bytes) (nameBlock : ℕ) (value : HeapValue) :
    ObjectTable HeapValue × Bool → Multiset ℕ → Bool → Prop
  | done {t' : ObjectTable HeapValue} (h : t.Extended name nameBlock value t')
      (absent : ∀ s ∈ t.slots, s.name ≠ name) : Added t name nameBlock value (t', true) t'.blocks false
  | failed {bad : Bool} (why : bad = true ∨ ∃ s ∈ t.slots, s.name = name) :
      Added t name nameBlock value (t, false) (nameBlock ::ₘ (value.blocks + t.blocks)) bad

theorem slots_ne_of_entries {t' : ObjectTable HeapValue} (heq : t'.entries = t.entries)
    (habsent : ∀ s ∈ t.slots, s.name ≠ name) : ∀ s ∈ t'.slots, s.name ≠ name := by
  intro s hs
  have hmem : s.entry ∈ t'.entries := List.mem_map_of_mem hs
  rw [heq] at hmem
  obtain ⟨s', hs', hentry⟩ := List.mem_map.1 hmem
  have hname : s'.name = s.name := congrArg Prod.fst hentry
  exact hname ▸ habsent s' hs'

theorem length_of_entries {t' : ObjectTable HeapValue} (heq : t'.entries = t.entries) :
    t'.slots.length = t.slots.length := by
  have := congrArg List.length heq
  rwa [entries, entries, List.length_map, List.length_map] at this

theorem CellsWithin.trans {new t' : ObjectTable HeapValue} (hentries : new.entries = t.entries)
    (h : t.CellsWithin new) (h' : new.CellsWithin t') : t.CellsWithin t' := by
  have hlength := length_of_entries hentries
  rw [CellsWithin] at *
  omega

theorem Extended.of_grown {new t' : ObjectTable HeapValue} (hentries : new.entries = t.entries)
    (hwrap : new.wrappingValue = t.wrappingValue) (hcells : t.CellsWithin new)
    (h : new.Extended name nameBlock value t') : t.Extended name nameBlock value t' :=
  ⟨h.wf, h.wrappingValue.trans hwrap, hcells.trans hentries h.cells, by rw [h.entries, hentries, hwrap]⟩

theorem jsonObjectAdd_owned (h : t.Wf) :
    Owned (nameBlock ::ₘ (value.blocks + t.blocks)) (jsonObjectAdd t name nameBlock value)
      (t.Added name nameBlock value) := by
  have hle : ∀ t : ObjectTable HeapValue, t.blocks ≤ nameBlock ::ₘ (value.blocks + t.blocks) :=
    fun t => (Multiset.le_add_left _ _).trans (Multiset.le_cons_self _ _)
  refine Owned.reads_bind (.access (Multiset.mem_singleton_self nameBlock)) (by simp) ?_
  obtain ⟨⟨c, found⟩, hsearch, hr⟩ := jsonObjectGetCellIx_reads h name
  refine Owned.reads_bind hsearch (hle t) ?_
  cases found with
  | true =>
    cases hr with
    | found _ hslot hname => exact .pure (.failed (.inr ⟨_, List.mem_of_getElem? hslot, hname⟩))
  | false =>
    simp only [Bool.false_eq_true, if_false]
    refine .ite (fun hfull => ?_) fun hroom => ?_
    · have hgrow := (growAndRehash_owned h hfull 0).frame (nameBlock ::ₘ value.blocks)
      refine Owned.bind (hgrow.of_eq ?_) fun r own bad hg => ?_
      · rw [← Multiset.cons_add, add_comm]
      · obtain ⟨own, rfl, hg⟩ := hg
        rw [add_comm, Multiset.cons_add]
        cases hg with
        | failed => exact .pure (.failed (.inl rfl))
        | @done new hwf hentries hwrap hcells hroom =>
          obtain ⟨c, hsearch, hfree⟩ := hwf.search_absent (slots_ne_of_entries hentries hr.absent)
          refine Owned.reads_bind hsearch (hle new) ?_
          refine (appendMember_owned hwf hroom hfree).bind fun t' own bad ht' => ?_
          obtain ⟨ht', rfl, rfl⟩ := ht'
          exact .pure (.done (.of_grown hentries hwrap hcells ht') hr.absent)
    · refine (appendMember_owned h (Nat.lt_of_not_le hroom) hr).bind fun t' own bad ht' => ?_
      obtain ⟨ht', rfl, rfl⟩ := ht'
      exact .pure (.done ht' hr.absent)

theorem getElem?_replace {ix ix' : ℕ} {s : Slot HeapValue} (hs : t.slots[ix]? = some s) :
    (t.replace ix s value).slots[ix']? = if ix' = ix then
      some { s with value := value.setParent t.wrappingValue } else t.slots[ix']? := by
  have hlt := (List.getElem?_eq_some_iff.1 hs).1
  rw [replace]
  by_cases hix : ix' = ix
  · rw [if_pos hix, hix, List.getElem?_set_self hlt]
  · rw [if_neg hix, List.getElem?_set_ne (Ne.symm hix)]

theorem names_replace {ix : ℕ} {s : Slot HeapValue} (hs : t.slots[ix]? = some s) :
    (t.replace ix s value).slots.map Slot.name = t.slots.map Slot.name := List.map_set_of_eq hs rfl

theorem Wf.replace (h : t.Wf) {ix : ℕ} {s : Slot HeapValue} (hs : t.slots[ix]? = some s) :
    (t.replace ix s value).Wf := by
  have hmem : ∀ s' ∈ (t.replace ix s value).slots, s' ∈ t.slots ∨
      s' = { s with value := value.setParent t.wrappingValue } := fun s' hs' =>
    List.mem_or_eq_of_mem_set hs'
  refine { arrays := h.arrays, capacity := h.capacity, itemCapacity_eq := h.itemCapacity_eq,
           count_le := ?_, hash_eq := fun s' hs' => ?_, nodup := ?_, parents := fun s' hs' => ?_,
           linked := ⟨fun ix' s' hs' => ⟨?_, (Option.some_ne_none _).symm⟩, fun p ix' hc _ => ?_⟩,
           probed := ?_ }
  · rw [ObjectTable.replace, List.length_set]
    exact h.count_le
  · rcases hmem s' hs' with hs' | rfl
    · exact h.hash_eq s' hs'
    · exact h.hash_eq s (List.mem_of_getElem? hs)
  · rw [names_replace hs]
    exact h.nodup
  · rcases hmem s' hs' with hs' | rfl
    · exact h.parents s' hs'
    · rfl
  · rw [getElem?_replace hs] at hs'
    split_ifs at hs' with hix
    · cases hs'
      have hcell := h.linked.cell_eq hs
      rwa [hix]
    · exact h.linked.cell_eq hs'
  · obtain ⟨s', hs', hcell⟩ := h.linked.slot_of_cell hc
    rw [getElem?_replace hs]
    split_ifs with hix
    · rw [hix, hs] at hs'
      cases hs'
      exact ⟨_, rfl, hcell⟩
    · exact ⟨s', hs', hcell⟩
  · have hname : (t.replace ix s value).nameAt = t.nameAt :=
      funext fun p => nameAt_congr rfl (names_replace hs)
    rw [hname]
    exact h.probed

theorem slotBlocks_replace {ix : ℕ} {s : Slot HeapValue} (hs : t.slots[ix]? = some s)
    (value : HeapValue) :
    ∃ rest, t.blocks = s.value.blocks + rest ∧ (t.replace ix s value).blocks = value.blocks + rest ∧
      arrayBlocks t.arrays ≤ rest := by
  obtain ⟨hlt, hget⟩ := List.getElem?_eq_some_iff.1 hs
  have hsplit : t.slots = t.slots.take ix ++ s :: t.slots.drop (ix + 1) := by
    rw [← hget, List.getElem_cons_drop, List.take_append_drop]
  refine ⟨arrayBlocks t.arrays + (slotBlocks (t.slots.take ix) +
    (s.nameBlock ::ₘ slotBlocks (t.slots.drop (ix + 1)))), ?_, ?_, Multiset.le_add_right _ _⟩
  · rw [blocks]
    nth_rewrite 1 [hsplit]
    rw [slotBlocks_append, slotBlocks_cons, Slot.blocks, ← Multiset.singleton_add,
      ← Multiset.singleton_add]
    ac_rfl
  · rw [blocks, replace, List.set_eq_take_append_cons_drop, if_pos hlt, slotBlocks_append,
      slotBlocks_cons, Slot.blocks, HeapValue.setParent_blocks, ← Multiset.singleton_add,
      ← Multiset.singleton_add]
    ac_rfl

theorem members_replace (h : t.Wf) {ix : ℕ} {s : Slot HeapValue} (hs : t.slots[ix]? = some s) :
    (t.replace ix s value).members =
      Slirp4netns.jsonObjectSetValue t.members s.name (some value.abs) := by
  have hlookup := lookup_members_eq_some h hs
  rw [Slirp4netns.jsonObjectSetValue, hlookup, if_pos (Option.isSome_some), members, members,
    slotsAbs_eq, slotsAbs_eq]
  refine List.ext_getElem? fun ix' => ?_
  rw [List.getElem?_map, List.getElem?_map, List.getElem?_map, getElem?_replace hs]
  split_ifs with hix
  · rw [hix, hs]
    simp [HeapValue.setParent_abs]
  · cases hs' : t.slots[ix']? with
    | none => rfl
    | some s' =>
      have hne : s'.name ≠ s.name := fun hname => hix (h.slot_unique hs' hs hname)
      simp [hne]

/-- What `json_object_set_value` may do. -/
inductive Stored (t : ObjectTable HeapValue) (name : Bytes) (value : HeapValue) :
    ObjectTable HeapValue × Bool → Multiset ℕ → Bool → Prop
  | refused (hparent : value.parent.isSome) :
      Stored t name value (t, false) (value.blocks + t.blocks) false
  | failed {t' : ObjectTable HeapValue} (wf : t'.Wf) (entries : t'.entries = t.entries)
      (wrappingValue : t'.wrappingValue = t.wrappingValue) (cells : t.CellsWithin t') :
      Stored t name value (t', false) (value.blocks + t'.blocks) true
  | replaced {ix : ℕ} {s : Slot HeapValue} (hs : t.slots[ix]? = some s) (hname : s.name = name)
      (wf : (t.replace ix s value).Wf) :
      Stored t name value (t.replace ix s value, true) (t.replace ix s value).blocks false
  | added {nameBlock : ℕ} {t' : ObjectTable HeapValue} (h : t.Extended name nameBlock value t')
      (absent : ∀ s ∈ t.slots, s.name ≠ name) : Stored t name value (t', true) t'.blocks false

theorem storeCopy_owned (h : t.Wf) (hroom : t.slots.length < t.itemCapacity) {c : Option ℕ}
    (hfree : t.CellIx name (c, false)) :
    Owned (value.blocks + t.blocks) (storeCopy t c name value) (t.Stored name value) := by
  refine .malloc_bind (.pure (.failed h rfl rfl (.of_eq rfl))) fun nameBlock => ?_
  refine (appendMember_owned h hroom hfree).bind fun t' own bad ht' => ?_
  obtain ⟨ht', rfl, rfl⟩ := ht'
  exact .pure (.added ht' hfree.absent)

theorem Stored.of_grown {new : ObjectTable HeapValue} {r : ObjectTable HeapValue × Bool}
    {own : Multiset ℕ} {bad : Bool} (hentries : new.entries = t.entries)
    (hwrap : new.wrappingValue = t.wrappingValue) (hcells : t.CellsWithin new)
    (habsent : ∀ s ∈ t.slots, s.name ≠ name) (hparent : value.parent = none) (h : new.Stored name value r own bad) :
    t.Stored name value r own bad := by
  cases h with
  | refused hp => simp [hparent] at hp
  | failed wf he hw hc =>
    exact .failed wf (he.trans hentries) (hw.trans hwrap) (hcells.trans hentries hc)
  | replaced hs hname =>
    exact absurd hname (slots_ne_of_entries hentries habsent _ (List.mem_of_getElem? hs))
  | added he => exact .added (.of_grown hentries hwrap hcells he) habsent

theorem storeNew_owned (h : t.Wf) {c : Option ℕ} (hfree : t.CellIx name (c, false))
    (hparent : value.parent = none) :
    Owned (value.blocks + t.blocks) (storeNew t c name value) (t.Stored name value) := by
  refine .ite (fun hfull => ?_) fun hroom => storeCopy_owned h (Nat.lt_of_not_le hroom) hfree
  have hgrow := (growAndRehash_owned h hfull 0).frame value.blocks
  refine Owned.bind (hgrow.of_eq (add_comm _ _)) fun r own bad hg => ?_
  obtain ⟨own, rfl, hg⟩ := hg
  rw [add_comm]
  cases hg with
  | failed => exact .pure (.failed h rfl rfl (.of_eq rfl))
  | @done new hwf hentries hwrap hcells hroom =>
    obtain ⟨c, hsearch, hnew⟩ := hwf.search_absent (slots_ne_of_entries hentries hfree.absent)
    refine Owned.reads_bind hsearch (Multiset.le_add_left _ _) ?_
    exact (storeCopy_owned hwf hroom hnew).conseq fun r own bad hr =>
      .of_grown hentries hwrap hcells hfree.absent hparent hr

theorem jsonObjectSetValue_owned (h : t.Wf) (halloc : ∀ s ∈ t.slots, s.value.Allocated) :
    Owned (value.blocks + t.blocks) (jsonObjectSetValue t name value) (t.Stored name value) := by
  have hmem : value.block ∈ value.blocks + t.blocks := Multiset.mem_add.2 (.inl value.block_mem)
  refine Owned.reads_bind (.access hmem) le_rfl (.ite (fun hp => .pure (.refused hp)) fun hp => ?_)
  obtain ⟨⟨c, found⟩, hsearch, hr⟩ := jsonObjectGetCellIx_reads h name
  refine Owned.reads_bind hsearch (Multiset.le_add_left _ _) ?_
  cases found with
  | true =>
    cases hr with
    | @found p ix s hcell hslot hname =>
      have harrays := h.arrays (Nat.zero_lt_of_lt (List.getElem?_eq_some_iff.1 hcell).1)
      have hread := (readCell_reads harrays hcell).mono t.arrays_subset
      have hvalues := (readSlot_reads harrays hslot ObjectArrays.values_mem).mono t.arrays_subset
      refine Owned.reads_bind hread (Multiset.le_add_left _ _)
        (Owned.reads_bind hvalues (Multiset.le_add_left _ _) ?_)
      obtain ⟨rest, hblocks, hblocks', hrest⟩ := slotBlocks_replace hslot value
      have hfree := (jsonValueFree_frees s.value (halloc s (List.mem_of_getElem? hslot))).mono
        (Multiset.zero_le (value.blocks + rest))
      refine Owned.of_eq (hfree.then_owned fun _ => ?_) (by rw [hblocks]; ac_rfl)
      refine Owned.reads_bind (touch_reads harrays ObjectArrays.values_mem)
        (hrest.trans (Multiset.le_add_left _ _)) (Owned.reads_bind (.access value.block_mem)
          (Multiset.le_add_right _ _) ?_)
      rw [← hblocks']
      exact .pure (.replaced hslot hname (h.replace hslot))
  | false =>
    have hnew := storeNew_owned h hr (Option.not_isSome_iff_eq_none.1 hp)
    cases c with
    | none => exact hnew
    | some cellIx => exact hnew

end

end ObjectTable

end Slirp4netns.Parson
