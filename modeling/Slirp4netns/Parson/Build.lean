/-
  slirp4netns formalization — values that are built in memory (`json_value_init_*`,
  `json_array_add` and `json_object_set_*` in `parson.c`).

  `HeapValue.Wf` is the invariant of a value: every object in it is a table as in
  `Parson.Table`, every array has room for its items, and every value knows the one
  that it is in.  A function that makes a value gives one that is as it must be, or
  fails for want of memory (`Makes`).
-/
import Slirp4netns.Parson.Removal

namespace Slirp4netns.Parson

open HeapProg

/-! ## The code -/

/-- A value with nothing to allocate but itself. -/
def initValue (data : JsonData HeapValue) : HeapProg (Option HeapValue) := do
  match ← malloc with
  | none => return none
  | some block => return some (.mk block none data)

/-- `json_value_init_null` -/
def jsonValueInitNull : HeapProg (Option HeapValue) := initValue .null

/-- `json_value_init_boolean` -/
def jsonValueInitBoolean (b : Bool) : HeapProg (Option HeapValue) := initValue (.boolean b)

/-- `json_value_init_number`, for a finite number. -/
def jsonValueInitNumber (d : Double) : HeapProg (Option HeapValue) := initValue (.number d)

/-- `json_value_init_string_no_copy` -/
def jsonValueInitStringNoCopy (block : ℕ) (chars : Bytes) : HeapProg (Option HeapValue) :=
  initValue (.string block chars)

/-- `json_value_init_string_with_len`, of the first `length` bytes of the memory `mem`. -/
def jsonValueInitStringWithLen (mem : Bytes) (length : ℕ) : HeapProg (Option HeapValue) :=
  if isValidUtf8 mem length = false then return none
  else do
    match ← malloc with
    | none => return none
    | some copy => do
      match ← jsonValueInitStringNoCopy copy (mem.take length) with
      | none => do
        free (some copy)
        return none
      | some v => return some v

/-- `json_value_init_string` on a C string. -/
def jsonValueInitString (chars : Bytes) : HeapProg (Option HeapValue) :=
  jsonValueInitStringWithLen (chars ++ [0]) chars.length

/-- `json_object_make` -/
def jsonObjectMake (wrappingValue : ℕ) : HeapProg (Option (ℕ × ObjectTable HeapValue)) := do
  match ← malloc with
  | none => return none
  | some block => do
    match ← jsonObjectInit wrappingValue 0 with
    | none => do
      free (some block)
      return none
    | some t => return some (block, t)

/-- `json_value_init_object` -/
def jsonValueInitObject : HeapProg (Option HeapValue) := do
  match ← malloc with
  | none => return none
  | some block => do
    match ← jsonObjectMake block with
    | none => do
      free (some block)
      return none
    | some (object, t) => return some (.mk block none (.object object t))

/-- `json_value_init_array`, with `json_array_make`. -/
def jsonValueInitArray : HeapProg (Option HeapValue) := do
  match ← malloc with
  | none => return none
  | some block => do
    match ← malloc with
    | none => do
      free (some block)
      return none
    | some array => return some (.mk block none (.array array ⟨block, none, [], 0⟩))

/-- `json_array_resize`; the array, and whether it succeeded. -/
def jsonArrayResize (a : ArrayItems HeapValue) (newCapacity : ℕ) :
    HeapProg (ArrayItems HeapValue × Bool) :=
  if newCapacity = 0 then return (a, false)
  else do
    match ← malloc with
    | none => return (a, false)
    | some newItems => do
      match a.itemsBlock with
      | none => pure ()
      | some old =>
        Prog.when (a.items ≠ []) do
          access old
          access newItems
          Prog.when (a.items.length > newCapacity) (Prog.stop .outOfBounds)
      free a.itemsBlock
      return ({ a with itemsBlock := some newItems, capacity := newCapacity }, true)

/-- The stores at the end of `json_array_add`. -/
def appendItem (a : ArrayItems HeapValue) (v : HeapValue) : HeapProg (ArrayItems HeapValue) := do
  access v.block
  match a.itemsBlock with
  | none => Prog.stop .nullPointer
  | some b => do
    access b
    if a.items.length < a.capacity then
      return { a with items := a.items ++ [v.setParent a.wrappingValue] }
    else Prog.stop .outOfBounds

/-- `json_array_add` -/
def jsonArrayAdd (a : ArrayItems HeapValue) (v : HeapValue) :
    HeapProg (ArrayItems HeapValue × Bool) :=
  if a.items.length ≥ a.capacity then do
    match ← jsonArrayResize a (max (a.capacity * 2) startingCapacity) with
    | (a, false) => return (a, false)
    | (a, true) => return (← appendItem a v, true)
  else return (← appendItem a v, true)

/-- `json_object_set_string` and the others, with `init` for the value. -/
def setWith (init : HeapProg (Option HeapValue)) (t : ObjectTable HeapValue) (name : Bytes) :
    HeapProg (ObjectTable HeapValue × Bool) := do
  match ← init with
  | none => do
    jsonValueFreePtr none
    return (t, false)
  | some v => do
    let (t, ok) ← jsonObjectSetValue t name v
    Prog.when (ok = false) (jsonValueFree v)
    return (t, ok)

/-- `json_object_set_string` -/
def jsonObjectSetString (t : ObjectTable HeapValue) (name s : Bytes) :
    HeapProg (ObjectTable HeapValue × Bool) := setWith (jsonValueInitString s) t name

/-- `json_object_set_number` -/
def jsonObjectSetNumber (t : ObjectTable HeapValue) (name : Bytes) (d : Double) :
    HeapProg (ObjectTable HeapValue × Bool) := setWith (jsonValueInitNumber d) t name

/-- `json_object_set_boolean` -/
def jsonObjectSetBoolean (t : ObjectTable HeapValue) (name : Bytes) (b : Bool) :
    HeapProg (ObjectTable HeapValue × Bool) := setWith (jsonValueInitBoolean b) t name

/-- `json_object_set_null` -/
def jsonObjectSetNull (t : ObjectTable HeapValue) (name : Bytes) :
    HeapProg (ObjectTable HeapValue × Bool) := setWith jsonValueInitNull t name

/-! ## The invariant -/

/-- The items are in their block, and each of them is whole. -/
structure ArrayItems.Wf (a : ArrayItems HeapValue) : Prop where
  block : 0 < a.capacity → a.itemsBlock.isSome
  count_le : a.items.length ≤ a.capacity
  parents : ∀ v ∈ a.items, v.parent = some a.wrappingValue

/-- The invariant of a value and of all that is in it. -/
def HeapValue.Wf : HeapValue → Prop :=
  HeapValue.All (fun block t => t.wrappingValue = block ∧ t.Wf)
    fun block a => a.wrappingValue = block ∧ a.Wf

theorem ArrayItems.Wf.allocated {a : ArrayItems HeapValue} (h : a.Wf) : a.Allocated := by
  intro hne
  have := List.length_pos_iff.2 hne
  exact h.block (Nat.lt_of_lt_of_le this h.count_le)

theorem HeapValue.Wf.allocated {v : HeapValue} (h : v.Wf) : v.Allocated :=
  HeapValue.All.mono (fun _ _ ht => ht.2.slots_arrays) (fun _ _ ha => ha.2.allocated) v h

theorem HeapValue.Wf.setParent {v : HeapValue} (h : v.Wf) (p : ℕ) : (v.setParent p).Wf := by
  cases v
  exact h

theorem HeapValue.wf_object {b : ℕ} {p : Option ℕ} {o : ℕ} {t : ObjectTable HeapValue} :
    (HeapValue.mk b p (.object o t)).Wf ↔
      (t.wrappingValue = b ∧ t.Wf) ∧ ∀ s ∈ t.slots, s.value.Wf := by
  rw [HeapValue.Wf, HeapValue.All, JsonData.All, slotsAll_iff]

theorem HeapValue.wf_array {b : ℕ} {p : Option ℕ} {a : ℕ} {items : ArrayItems HeapValue} :
    (HeapValue.mk b p (.array a items)).Wf ↔
      (items.wrappingValue = b ∧ items.Wf) ∧ ∀ v ∈ items.items, v.Wf := by
  rw [HeapValue.Wf, HeapValue.All, JsonData.All, itemsAll_iff]

/-- A table with values that are as they must be. -/
structure ObjectTable.Whole (t : ObjectTable HeapValue) : Prop where
  wf : t.Wf
  values : ∀ e ∈ t.entries, e.2.2.Wf

theorem ObjectTable.Whole.of_slots {t : ObjectTable HeapValue} (h : t.Wf)
    (hvalues : ∀ s ∈ t.slots, s.value.Wf) : t.Whole := by
  refine ⟨h, fun e he => ?_⟩
  obtain ⟨s, hs, rfl⟩ := List.mem_map.1 he
  exact hvalues s hs

theorem ObjectTable.Whole.slots {t : ObjectTable HeapValue} (h : t.Whole) :
    ∀ s ∈ t.slots, s.value.Wf := fun _ hs => h.values _ (List.mem_map_of_mem hs)

theorem ObjectTable.Whole.allocated {t : ObjectTable HeapValue} (h : t.Whole) :
    ∀ s ∈ t.slots, s.value.Allocated := fun s hs => (h.slots s hs).allocated

section
variable {t : ObjectTable HeapValue} {name : Bytes}

theorem ObjectTable.Whole.extended {nameBlock : ℕ} {w : HeapValue} {t' : ObjectTable HeapValue}
    (h : t.Whole) (hw : w.Wf) (ht' : t.Extended name nameBlock w t') : t'.Whole := by
  refine ⟨ht'.wf, fun e he => ?_⟩
  rw [ht'.entries] at he
  rcases List.mem_append.1 he with he | he
  · exact h.values e he
  · rw [List.mem_singleton.1 he]
    exact hw.setParent _

theorem ObjectTable.Whole.of_entries {t' : ObjectTable HeapValue} (h : t.Whole) (hwf : t'.Wf)
    (hentries : t'.entries = t.entries) : t'.Whole := ⟨hwf, hentries ▸ h.values⟩

theorem ObjectTable.Whole.replace {ix : ℕ} {s : Slot HeapValue} {w : HeapValue} (h : t.Whole)
    (hw : w.Wf) (hwf : (t.replace ix s w).Wf) : (t.replace ix s w).Whole := by
  refine ⟨hwf, fun e he => ?_⟩
  obtain ⟨s', hs', rfl⟩ := List.mem_map.1 he
  rcases List.mem_or_eq_of_mem_set hs' with hs' | rfl
  · exact h.slots s' hs'
  · exact hw.setParent _

end

/-! ## New values -/

/-- A function that makes a value that means `v`, or fails for want of memory. -/
def Makes (v : JsonValue) (p : HeapProg (Option HeapValue)) : Prop :=
  Owned 0 p fun r own bad => (r = none ∧ own = 0 ∧ bad = true) ∨
    ∃ w : HeapValue, r = some w ∧ own = w.blocks ∧ bad = false ∧ w.Wf ∧ w.parent = none ∧ w.abs = v

/-- Data that own a block at most. -/
theorem initValue_owned (data : JsonData HeapValue)
    (hwf : ∀ b : ℕ, (HeapValue.mk b none data).Wf) :
    Owned data.blocks (initValue data) fun r own bad =>
      (r = none ∧ own = data.blocks ∧ bad = true) ∨ ∃ w : HeapValue, r = some w ∧
        own = w.blocks ∧ bad = false ∧ w.Wf ∧ w.parent = none ∧ w.abs = data.abs := by
  refine .malloc_bind (.pure (.inl ⟨rfl, rfl, rfl⟩)) fun b => .pure (.inr ?_)
  exact ⟨_, rfl, by rw [HeapValue.blocks], rfl, hwf b, rfl, by rw [HeapValue.abs]⟩

theorem jsonValueInitNull_makes : Makes .null jsonValueInitNull :=
  initValue_owned .null fun _ => trivial

theorem jsonValueInitBoolean_makes (b : Bool) : Makes (.boolean b) (jsonValueInitBoolean b) :=
  initValue_owned (.boolean b) fun _ => trivial

theorem jsonValueInitNumber_makes (d : Double) : Makes (.number d) (jsonValueInitNumber d) :=
  initValue_owned (.number d) fun _ => trivial

theorem jsonValueInitString_makes {chars : Bytes}
    (h : isValidUtf8 (chars ++ [0]) chars.length = true) :
    Makes (.string chars) (jsonValueInitString chars) := by
  rw [Makes, jsonValueInitString, jsonValueInitStringWithLen,
    if_neg (by rw [h]; exact Bool.noConfusion), List.take_left]
  refine .malloc_bind (.pure (.inl ⟨rfl, rfl, rfl⟩)) fun copy => ?_
  refine (initValue_owned (.string copy chars) fun _ => trivial).bind fun r own bad hr => ?_
  rcases hr with ⟨rfl, rfl, rfl⟩ | ⟨w, rfl, rfl, rfl, hw⟩
  · show Owned (copy ::ₘ 0) _ _
    exact .free_bind (.pure (.inl ⟨rfl, rfl, rfl⟩))
  · exact .pure (.inr ⟨w, rfl, rfl, rfl, hw⟩)

/-- The object `{}`, in the blocks `b` and `o`. -/
def emptyObject (b o : ℕ) : HeapValue := .mk b none (.object o ⟨b, none, [], [], 0⟩)

/-- A new object, or `NULL` for want of memory. -/
theorem jsonValueInitObject_owned : Owned 0 jsonValueInitObject fun r own bad =>
    (r = none ∧ own = 0 ∧ bad = true) ∨
      ∃ b o, r = some (emptyObject b o) ∧ own = b ::ₘ o ::ₘ 0 ∧ bad = false := by
  refine .malloc_bind (.pure (.inl ⟨rfl, rfl, rfl⟩)) fun b => ?_
  have hmake : Owned (b ::ₘ 0) (jsonObjectMake b) fun r own bad =>
      (r = none ∧ own = b ::ₘ 0 ∧ bad = true) ∨ ∃ o, r = some (o, ⟨b, none, [], [], 0⟩) ∧
        own = o ::ₘ b ::ₘ 0 ∧ bad = false :=
    .malloc_bind (.pure (.inl ⟨rfl, rfl, rfl⟩)) fun o => .pure (.inr ⟨o, rfl, rfl, rfl⟩)
  refine hmake.bind fun r own bad hr => ?_
  rcases hr with ⟨rfl, rfl, rfl⟩ | ⟨o, rfl, rfl, rfl⟩
  · exact .free_bind (.pure (.inl ⟨rfl, rfl, rfl⟩))
  · exact .pure (.inr ⟨b, o, rfl, Multiset.cons_swap _ _ _, rfl⟩)

theorem emptyObject_blocks (b o : ℕ) : (emptyObject b o).blocks = b ::ₘ o ::ₘ 0 := by
  rw [emptyObject, blocks_object]
  rfl

/-- The table of a new object. -/
theorem emptyObject_whole (b : ℕ) : (⟨b, none, [], [], 0⟩ : ObjectTable HeapValue).Whole :=
  ⟨ObjectTable.wf_init (.inl rfl) fun h => absurd h (Nat.lt_irrefl 0),
    fun _ he => absurd he List.not_mem_nil⟩

theorem jsonValueInitArray_makes : Makes (.array []) jsonValueInitArray := by
  refine .malloc_bind (.pure (.inl ⟨rfl, rfl, rfl⟩)) fun b => ?_
  refine .malloc_bind (.free_bind (.pure (.inl ⟨rfl, rfl, rfl⟩))) fun a => ?_
  refine .pure (.inr ⟨_, rfl, ?_, rfl, HeapValue.wf_array.2 ⟨⟨rfl, ?_⟩, ?_⟩, rfl, ?_⟩)
  · rw [blocks_array, Multiset.cons_swap]
    rfl
  · exact ⟨fun h => absurd h (Nat.lt_irrefl 0), le_rfl, fun v hv => absurd hv List.not_mem_nil⟩
  · exact fun v hv => absurd hv List.not_mem_nil
  · rw [HeapValue.abs, JsonData.abs, itemsAbs]

/-! ## Arrays -/

section
variable {a : ArrayItems HeapValue} {v : HeapValue}

/-- What `json_array_resize` may do. -/
inductive Resized (a : ArrayItems HeapValue) (newCapacity : ℕ) :
    ArrayItems HeapValue × Bool → Multiset ℕ → Bool → Prop
  | failed : Resized a newCapacity (a, false) a.blocks true
  | done {b : ℕ} (wf : ArrayItems.Wf { a with itemsBlock := some b, capacity := newCapacity }) :
      Resized a newCapacity ({ a with itemsBlock := some b, capacity := newCapacity }, true)
        (b ::ₘ itemBlocks a.items) false

theorem jsonArrayResize_owned (h : a.Wf) (newCapacity : ℕ) (hpos : 0 < newCapacity)
    (hroom : a.items.length ≤ newCapacity) :
    Owned a.blocks (jsonArrayResize a newCapacity) (Resized a newCapacity) := by
  rw [jsonArrayResize, if_neg hpos.ne']
  refine .malloc_bind (.pure .failed) fun b => ?_
  have hwf : ArrayItems.Wf { a with itemsBlock := some b, capacity := newCapacity } :=
    ⟨fun _ => rfl, hroom, h.parents⟩
  have hfree : Owned (b ::ₘ a.blocks) (free a.itemsBlock >>= fun _ =>
      pure ({ a with itemsBlock := some b, capacity := newCapacity }, true))
      (Resized a newCapacity) := by
    refine Owned.of_eq ((Frees.free_opt a.itemsBlock).then_owned fun _ => .pure (.done hwf)) ?_
    rw [ArrayItems.blocks, ← Multiset.add_cons]
  cases hblock : a.itemsBlock with
  | none =>
    rw [hblock] at hfree
    exact hfree
  | some old =>
    rw [hblock] at hfree
    have hcopy : Reads (b ::ₘ a.blocks) (Prog.when (a.items ≠ []) do
        access old
        access b
        Prog.when (a.items.length > newCapacity) (Prog.stop .outOfBounds)) () := by
      rw [Prog.when]
      split_ifs
      · refine .bind (.access ?_) (.bind (.access (Multiset.mem_cons_self _ _)) ?_)
        · rw [ArrayItems.blocks, hblock]
          simp [optBlock]
        · rw [Prog.when, if_neg (Nat.not_lt.2 hroom)]
          exact .pure
      · exact .pure
    exact Owned.reads_bind hcopy le_rfl hfree

/-- The array has a new item, at the end. -/
structure Extended (a : ArrayItems HeapValue) (v : HeapValue) (a' : ArrayItems HeapValue) :
    Prop where
  wf : a'.Wf
  wrappingValue : a'.wrappingValue = a.wrappingValue
  items : a'.items = a.items ++ [v.setParent a.wrappingValue]

theorem appendItem_owned (h : a.Wf) (hroom : a.items.length < a.capacity) :
    Owned (v.blocks + a.blocks) (appendItem a v) fun a' own bad =>
      Extended a v a' ∧ own = a'.blocks ∧ bad = false := by
  obtain ⟨b, hb⟩ := Option.isSome_iff_exists.1 (h.block (Nat.zero_lt_of_lt hroom))
  have hmem : b ∈ v.blocks + a.blocks := by
    rw [ArrayItems.blocks, hb]
    simp [optBlock]
  refine Owned.reads_bind (.access (Multiset.mem_add.2 (.inl v.block_mem))) le_rfl ?_
  simp only [hb]
  refine Owned.reads_bind (.access hmem) le_rfl ?_
  rw [if_pos hroom]
  refine .pure ⟨⟨⟨fun _ => rfl, ?_, fun w hw => ?_⟩, rfl, rfl⟩, ?_, rfl⟩
  · rw [List.length_append]
    exact hroom
  · rcases List.mem_append.1 hw with hw | hw
    · exact h.parents w hw
    · rw [List.mem_singleton.1 hw]
      rfl
  · simp only [ArrayItems.blocks, itemBlocks_append, itemBlocks, HeapValue.setParent_blocks, hb]
    rw [add_zero]
    ac_rfl

/-- What `json_array_add` may do. -/
inductive ItemAdded (a : ArrayItems HeapValue) (v : HeapValue) :
    ArrayItems HeapValue × Bool → Multiset ℕ → Bool → Prop
  | failed : ItemAdded a v (a, false) (v.blocks + a.blocks) true
  | done {a' : ArrayItems HeapValue} (h : Extended a v a') : ItemAdded a v (a', true) a'.blocks false

theorem jsonArrayAdd_owned (h : a.Wf) :
    Owned (v.blocks + a.blocks) (jsonArrayAdd a v) (ItemAdded a v) := by
  refine .ite (fun hfull => ?_) fun hroom => ?_
  · have hcount := h.count_le
    have hresize := (jsonArrayResize_owned h (max (a.capacity * 2) startingCapacity)
      (by rw [startingCapacity]; omega) (by omega)).frame v.blocks
    refine Owned.bind (hresize.of_eq (add_comm _ _)) fun r own bad hr => ?_
    obtain ⟨own, rfl, hr⟩ := hr
    cases hr with
    | failed => exact .pure (by rw [add_comm]; exact .failed)
    | @done b hwf =>
      have hlt : a.items.length < max (a.capacity * 2) startingCapacity := by
        rw [startingCapacity]
        omega
      refine ((appendItem_owned hwf hlt).of_eq ?_).bind fun a' own bad ha' => ?_
      · rw [add_comm, ArrayItems.blocks]
        simp only [optBlock, ← Multiset.singleton_add]
      · obtain ⟨ha', rfl, rfl⟩ := ha'
        exact .pure (.done ⟨ha'.wf, ha'.wrappingValue, ha'.items⟩)
  · refine (appendItem_owned h (Nat.lt_of_not_le hroom)).bind fun a' own bad ha' => ?_
    obtain ⟨ha', rfl, rfl⟩ := ha'
    exact .pure (.done ha')

end

end Slirp4netns.Parson
