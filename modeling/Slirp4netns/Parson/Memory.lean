/-
  slirp4netns formalization — JSON values in memory, and `json_value_free`
  (`parson.c`).

  A `HeapValue` is a `JSON_Value` with all that it owns: each structure, array and
  string comes with the number of its block.  An object is the hash table that the
  source keeps, and an array has its capacity.  `HeapValue.blocks` are the blocks,
  and `HeapValue.abs` is the value that is meant, as in `Parson.Value`.

  `jsonValueFree_frees`: a value is freed with everything below it, every block
  once.
-/
import Mathlib.Algebra.BigOperators.Group.List.Basic
import Slirp4netns.Lib.Heap
import Slirp4netns.Parson.Value

namespace Slirp4netns.Parson

open HeapProg

/-! ## Values in memory -/

/-- The blocks of the five arrays of a `JSON_Object`. -/
structure ObjectArrays where
  cells : ℕ
  names : ℕ
  values : ℕ
  cellIxs : ℕ
  hashes : ℕ
  deriving DecidableEq

/-- What the arrays `names`, `values`, `cell_ixs` and `hashes` hold at one index. -/
structure Slot (V : Type) where
  name : Bytes
  /-- the block of the name -/
  nameBlock : ℕ
  value : V
  cellIx : ℕ
  hash : UInt64

/-- `struct json_object_t`.  `OBJECT_INVALID_IX` is `none`, `cell_capacity` is the length of
    `cells`, and `count` that of `slots`. -/
structure ObjectTable (V : Type) where
  wrappingValue : ℕ
  /-- `none` if the arrays are `NULL` -/
  arrays : Option ObjectArrays
  cells : List (Option ℕ)
  slots : List (Slot V)
  itemCapacity : ℕ

/-- `struct json_array_t`; `count` is the length of `items`. -/
structure ArrayItems (V : Type) where
  wrappingValue : ℕ
  itemsBlock : Option ℕ
  items : List V
  capacity : ℕ

/-- `JSON_Value_Value`, with what it points to. -/
inductive JsonData (V : Type) where
  | null
  | boolean (b : Bool)
  | number (d : Double)
  | string (block : ℕ) (chars : Bytes)
  | array (block : ℕ) (items : ArrayItems V)
  | object (block : ℕ) (table : ObjectTable V)

/-- `struct json_value_t` -/
inductive HeapValue where
  | mk (block : ℕ) (parent : Option ℕ) (data : JsonData HeapValue)

namespace HeapValue

/-- The block of the `JSON_Value` itself. -/
def block : HeapValue → ℕ
  | mk block _ _ => block

/-- The block of the value that holds this one. -/
def parent : HeapValue → Option ℕ
  | mk _ parent _ => parent

/-- What the value holds. -/
def data : HeapValue → JsonData HeapValue
  | mk _ _ data => data

/-- `value->parent = parent` -/
def setParent (v : HeapValue) (parent : ℕ) : HeapValue := mk v.block (some parent) v.data

end HeapValue

/-- The blocks of the six arrays. -/
def ObjectArrays.blocks (a : ObjectArrays) : Multiset ℕ :=
  a.cells ::ₘ a.names ::ₘ a.values ::ₘ a.cellIxs ::ₘ a.hashes ::ₘ 0

/-- The blocks of the arrays, if there are any. -/
def arrayBlocks : Option ObjectArrays → Multiset ℕ
  | none => 0
  | some a => a.blocks

mutual

/-- Everything that a value owns. -/
def HeapValue.blocks : HeapValue → Multiset ℕ
  | .mk block _ data => block ::ₘ data.blocks

/-- The blocks below a value. -/
def JsonData.blocks : JsonData HeapValue → Multiset ℕ
  | .null => 0
  | .boolean _ => 0
  | .number _ => 0
  | .string block _ => {block}
  | .array block ⟨_, itemsBlock, items, _⟩ => block ::ₘ (optBlock itemsBlock + itemBlocks items)
  | .object block ⟨_, arrays, _, slots, _⟩ => block ::ₘ (arrayBlocks arrays + slotBlocks slots)

/-- The blocks of the items. -/
def itemBlocks : List HeapValue → Multiset ℕ
  | [] => 0
  | v :: items => v.blocks + itemBlocks items

/-- The blocks of the names and the values. -/
def slotBlocks : List (Slot HeapValue) → Multiset ℕ
  | [] => 0
  | ⟨_, nameBlock, value, _, _⟩ :: slots => nameBlock ::ₘ (value.blocks + slotBlocks slots)

end

mutual

/-- The value that is meant. -/
def HeapValue.abs : HeapValue → JsonValue
  | .mk _ _ data => data.abs

/-- What the value means by what it holds. -/
def JsonData.abs : JsonData HeapValue → JsonValue
  | .null => .null
  | .boolean b => .boolean b
  | .number d => .number d
  | .string _ chars => .string chars
  | .array _ ⟨_, _, items, _⟩ => .array (itemsAbs items)
  | .object _ ⟨_, _, _, slots, _⟩ => .object (slotsAbs slots)

/-- What the items mean. -/
def itemsAbs : List HeapValue → List JsonValue
  | [] => []
  | v :: items => v.abs :: itemsAbs items

/-- What the members mean. -/
def slotsAbs : List (Slot HeapValue) → JsonObject
  | [] => []
  | ⟨name, _, value, _, _⟩ :: slots => (name, value.abs) :: slotsAbs slots

end

/-- The blocks of a table, without that of the structure. -/
def ObjectTable.blocks (t : ObjectTable HeapValue) : Multiset ℕ :=
  arrayBlocks t.arrays + slotBlocks t.slots

/-- The members of an object. -/
def ObjectTable.members (t : ObjectTable HeapValue) : JsonObject := slotsAbs t.slots

/-- The blocks of an array and its items. -/
def ArrayItems.blocks (a : ArrayItems HeapValue) : Multiset ℕ :=
  optBlock a.itemsBlock + itemBlocks a.items

@[simp] theorem blocks_object (b : ℕ) (p : Option ℕ) (o : ℕ) (t : ObjectTable HeapValue) :
    (HeapValue.mk b p (.object o t)).blocks = b ::ₘ o ::ₘ t.blocks := by
  rw [HeapValue.blocks, JsonData.blocks, ObjectTable.blocks]

@[simp] theorem blocks_array (b : ℕ) (p : Option ℕ) (a : ℕ) (items : ArrayItems HeapValue) :
    (HeapValue.mk b p (.array a items)).blocks = b ::ₘ a ::ₘ items.blocks := by
  rw [HeapValue.blocks, JsonData.blocks, ArrayItems.blocks]

/-- The two structures of an object or an array are apart from the rest. -/
theorem cons_cons_eq_add (b o : ℕ) (s : Multiset ℕ) : b ::ₘ o ::ₘ s = s + (b ::ₘ o ::ₘ 0) := by
  rw [add_comm, Multiset.cons_add, Multiset.cons_add, zero_add]

theorem HeapValue.setParent_of_parent {v : HeapValue} {p : ℕ} (h : v.parent = some p) :
    v.setParent p = v := by
  cases v
  simp_all [setParent, parent, block, data]

theorem HeapValue.setParent_blocks (v : HeapValue) (p : ℕ) : (v.setParent p).blocks = v.blocks := by
  cases v
  simp only [setParent, block, data, HeapValue.blocks]

theorem HeapValue.setParent_abs (v : HeapValue) (p : ℕ) : (v.setParent p).abs = v.abs := by
  cases v
  simp only [setParent, block, data, HeapValue.abs]

theorem HeapValue.block_mem (v : HeapValue) : v.block ∈ v.blocks := by
  cases v
  exact Multiset.mem_cons_self _ _

theorem itemsAbs_eq (items : List HeapValue) : itemsAbs items = items.map HeapValue.abs := by
  induction items with
  | nil => rfl
  | cons v items ih => rw [itemsAbs, ih, List.map_cons]

theorem slotsAbs_eq (slots : List (Slot HeapValue)) :
    slotsAbs slots = slots.map fun s => (s.name, s.value.abs) := by
  induction slots with
  | nil => rfl
  | cons s slots ih => rw [slotsAbs, ih, List.map_cons]

theorem itemBlocks_append (items items' : List HeapValue) :
    itemBlocks (items ++ items') = itemBlocks items + itemBlocks items' := by
  induction items with
  | nil => rw [List.nil_append, itemBlocks, zero_add]
  | cons v items ih => rw [List.cons_append, itemBlocks, itemBlocks, ih, add_assoc]

theorem slotBlocks_append (slots slots' : List (Slot HeapValue)) :
    slotBlocks (slots ++ slots') = slotBlocks slots + slotBlocks slots' := by
  induction slots with
  | nil => rw [List.nil_append, slotBlocks, zero_add]
  | cons s slots ih =>
    rw [List.cons_append, slotBlocks, slotBlocks, ih, Multiset.cons_add, add_assoc]

/-- The blocks of one index. -/
def Slot.blocks (s : Slot HeapValue) : Multiset ℕ := s.nameBlock ::ₘ s.value.blocks

theorem slotBlocks_cons (s : Slot HeapValue) (slots : List (Slot HeapValue)) :
    slotBlocks (s :: slots) = s.blocks + slotBlocks slots := by
  rw [slotBlocks, Slot.blocks, Multiset.cons_add]

theorem slotBlocks_singleton (s : Slot HeapValue) : slotBlocks [s] = s.blocks := by
  rw [slotBlocks_cons, slotBlocks, add_zero]

/-- A member, without its place in the table. -/
def Slot.entry (s : Slot HeapValue) : Bytes × ℕ × HeapValue := (s.name, s.nameBlock, s.value)

theorem slotBlocks_eq (slots : List (Slot HeapValue)) : slotBlocks slots =
    ((slots.map Slot.entry).map fun e => e.2.1 ::ₘ e.2.2.blocks).sum := by
  induction slots with
  | nil => rfl
  | cons s slots ih =>
    rw [slotBlocks_cons, ih, List.map_cons, List.map_cons, List.sum_cons]
    rfl

theorem slotBlocks_perm {slots slots' : List (Slot HeapValue)} (h : slots.Perm slots') :
    slotBlocks slots = slotBlocks slots' := by
  rw [slotBlocks_eq, slotBlocks_eq]
  exact ((h.map _).map _).sum_eq

theorem slot_blocks_subset {s : Slot HeapValue} {slots : List (Slot HeapValue)} (hs : s ∈ slots) :
    s.blocks ⊆ slotBlocks slots := by
  obtain ⟨before, after, rfl⟩ := List.append_of_mem hs
  rw [slotBlocks_append, slotBlocks_cons]
  exact fun b hb => Multiset.mem_add.2 (.inr (Multiset.mem_add.2 (.inl hb)))

/-! ## Freeing -/

/-- An access to one of the arrays of an object. -/
def touch (arrays : Option ObjectArrays) (field : ObjectArrays → ℕ) : HeapProg Unit :=
  match arrays with
  | none => Prog.stop .nullPointer
  | some a => access (field a)

/-- The five arrays are freed, one after the other. -/
def freeArrays (arrays : Option ObjectArrays) : HeapProg Unit := do
  free (arrays.map (·.cells))
  free (arrays.map (·.names))
  free (arrays.map (·.values))
  free (arrays.map (·.cellIxs))
  free (arrays.map (·.hashes))

mutual

/-- `json_value_free` -/
def jsonValueFree : HeapValue → HeapProg Unit
  | .mk block _ data => do
    access block
    jsonDataFree data
    free (some block)

/-- The `switch` of `json_value_free`, with `json_object_free` and `json_array_free`. -/
def jsonDataFree : JsonData HeapValue → HeapProg Unit
  | .null => pure ()
  | .boolean _ => pure ()
  | .number _ => pure ()
  | .string block _ => free (some block)
  | .array block ⟨_, itemsBlock, items, _⟩ => do
    access block
    freeItems itemsBlock items
    free itemsBlock
    free (some block)
  | .object block ⟨_, arrays, _, slots, _⟩ => do
    access block
    deinitLoop arrays true true slots
    freeArrays arrays
    free (some block)

/-- The loop of `json_array_free`. -/
def freeItems (itemsBlock : Option ℕ) : List HeapValue → HeapProg Unit
  | [] => pure ()
  | v :: items => do
    match itemsBlock with
    | none => Prog.stop .nullPointer
    | some b => access b
    jsonValueFree v
    freeItems itemsBlock items

/-- The loop of `json_object_deinit`. -/
def deinitLoop (arrays : Option ObjectArrays) (freeKeys freeValues : Bool) :
    List (Slot HeapValue) → HeapProg Unit
  | [] => pure ()
  | ⟨_, nameBlock, value, _, _⟩ :: slots => do
    Prog.when (freeKeys = true) do
      touch arrays (·.names)
      free (some nameBlock)
    Prog.when (freeValues = true) do
      touch arrays (·.values)
      jsonValueFree value
    deinitLoop arrays freeKeys freeValues slots

end

/-- `json_object_deinit` -/
def jsonObjectDeinit (t : ObjectTable HeapValue) (freeKeys freeValues : Bool) : HeapProg Unit := do
  deinitLoop t.arrays freeKeys freeValues t.slots
  freeArrays t.arrays

/-- `json_value_free` of a pointer that may be `NULL`. -/
def jsonValueFreePtr : Option HeapValue → HeapProg Unit
  | none => free none
  | some v => jsonValueFree v

/-! ## What is freed -/

section
variable (P : ℕ → ObjectTable HeapValue → Prop) (Q : ℕ → ArrayItems HeapValue → Prop)

mutual

/-- `P` holds of every object of a value, and `Q` of every array, with the blocks of the values
    that wrap them. -/
def HeapValue.All : HeapValue → Prop
  | .mk block _ data => data.All block

/-- The condition for what is below a value. -/
def JsonData.All (block : ℕ) : JsonData HeapValue → Prop
  | .array _ ⟨w, itemsBlock, items, capacity⟩ =>
    Q block ⟨w, itemsBlock, items, capacity⟩ ∧ ItemsAll items
  | .object _ ⟨w, arrays, cells, slots, itemCapacity⟩ =>
    P block ⟨w, arrays, cells, slots, itemCapacity⟩ ∧ SlotsAll slots
  | _ => True

/-- The condition for the items. -/
def ItemsAll : List HeapValue → Prop
  | [] => True
  | v :: items => v.All ∧ ItemsAll items

/-- The condition for the members. -/
def SlotsAll : List (Slot HeapValue) → Prop
  | [] => True
  | ⟨_, _, value, _, _⟩ :: slots => value.All ∧ SlotsAll slots

end

end

section
variable {P P' : ℕ → ObjectTable HeapValue → Prop} {Q Q' : ℕ → ArrayItems HeapValue → Prop}

theorem itemsAll_iff {items : List HeapValue} : ItemsAll P Q items ↔ ∀ v ∈ items, v.All P Q := by
  induction items with
  | nil => simp [ItemsAll]
  | cons v items ih => rw [ItemsAll, ih, List.forall_mem_cons]

theorem slotsAll_iff {slots : List (Slot HeapValue)} :
    SlotsAll P Q slots ↔ ∀ s ∈ slots, s.value.All P Q := by
  induction slots with
  | nil => simp [SlotsAll]
  | cons s slots ih => rw [SlotsAll, ih, List.forall_mem_cons]

mutual

theorem HeapValue.All.mono (hP : ∀ b t, P b t → P' b t) (hQ : ∀ b a, Q b a → Q' b a) :
    ∀ v : HeapValue, v.All P Q → v.All P' Q'
  | .mk block _ data, h => JsonData.All.mono hP hQ block data h

theorem JsonData.All.mono (hP : ∀ b t, P b t → P' b t) (hQ : ∀ b a, Q b a → Q' b a)
    (block : ℕ) : ∀ data : JsonData HeapValue, data.All P Q block → data.All P' Q' block
  | .null, h => h
  | .boolean _, h => h
  | .number _, h => h
  | .string _ _, h => h
  | .array _ ⟨_, _, items, _⟩, h => ⟨hQ _ _ h.1, ItemsAll.mono hP hQ items h.2⟩
  | .object _ ⟨_, _, _, slots, _⟩, h => ⟨hP _ _ h.1, SlotsAll.mono hP hQ slots h.2⟩

theorem ItemsAll.mono (hP : ∀ b t, P b t → P' b t) (hQ : ∀ b a, Q b a → Q' b a) :
    ∀ items : List HeapValue, ItemsAll P Q items → ItemsAll P' Q' items
  | [], h => h
  | v :: items, h => ⟨HeapValue.All.mono hP hQ v h.1, ItemsAll.mono hP hQ items h.2⟩

theorem SlotsAll.mono (hP : ∀ b t, P b t → P' b t) (hQ : ∀ b a, Q b a → Q' b a) :
    ∀ slots : List (Slot HeapValue), SlotsAll P Q slots → SlotsAll P' Q' slots
  | [], h => h
  | ⟨_, _, value, _, _⟩ :: slots, h =>
    ⟨HeapValue.All.mono hP hQ value h.1, SlotsAll.mono hP hQ slots h.2⟩

end

end

/-- Where an object has members, it has the arrays for them. -/
def ObjectTable.Allocated (t : ObjectTable HeapValue) : Prop := t.slots ≠ [] → t.arrays.isSome

/-- There is a block for the items. -/
def ArrayItems.Allocated (a : ArrayItems HeapValue) : Prop := a.items ≠ [] → a.itemsBlock.isSome

/-- There are blocks for all items and members. -/
abbrev HeapValue.Allocated : HeapValue → Prop :=
  HeapValue.All (fun _ => ObjectTable.Allocated) fun _ => ArrayItems.Allocated

theorem freeArrays_frees (keep : Multiset ℕ) (arrays : Option ObjectArrays) :
    Frees keep (arrayBlocks arrays) (freeArrays arrays) := by
  cases arrays with
  | none => exact .pure
  | some a =>
    refine ((Frees.free a.cells).bind fun _ => (Frees.free a.names).bind fun _ =>
      (Frees.free a.values).bind fun _ => (Frees.free a.cellIxs).bind fun _ =>
        Frees.free a.hashes).of_eq ?_
    simp only [arrayBlocks, ObjectArrays.blocks, Multiset.singleton_add]
    rfl

namespace ObjectArrays

variable (a : ObjectArrays)

theorem cells_mem : a.cells ∈ a.blocks := by simp [blocks]

theorem names_mem : a.names ∈ a.blocks := by simp [blocks]

theorem values_mem : a.values ∈ a.blocks := by simp [blocks]

theorem cellIxs_mem : a.cellIxs ∈ a.blocks := by simp [blocks]

theorem hashes_mem : a.hashes ∈ a.blocks := by simp [blocks]

end ObjectArrays

theorem touch_reads {arrays : Option ObjectArrays} (h : arrays.isSome) {field : ObjectArrays → ℕ}
    (hfield : ∀ a : ObjectArrays, field a ∈ a.blocks) :
    Reads (arrayBlocks arrays) (touch arrays field) () := by
  cases arrays with
  | none => cases h
  | some a => exact .access (hfield a)

/-- With the names and the values kept, the loop does nothing. -/
theorem deinitLoop_keep (arrays : Option ObjectArrays) (slots : List (Slot HeapValue)) :
    Reads 0 (deinitLoop arrays false false slots) () := by
  induction slots with
  | nil => exact .pure
  | cons s slots ih =>
    rw [deinitLoop]
    exact .bind .pure (.bind .pure ih)

mutual

/-- **A value is freed with everything below it, every block once.** -/
theorem jsonValueFree_frees : ∀ v : HeapValue, v.Allocated → Frees 0 v.blocks (jsonValueFree v)
  | .mk block parent data, h => by
    rw [HeapValue.blocks, jsonValueFree]
    refine .reads_bind (.access (Multiset.mem_singleton_self block)) (by simp) ?_
    refine ((jsonDataFree_frees block data h).bind fun _ => .free block).of_eq ?_
    rw [add_comm, Multiset.singleton_add]

theorem jsonDataFree_frees (b : ℕ) : ∀ data : JsonData HeapValue,
    data.All (fun _ => ObjectTable.Allocated) (fun _ => ArrayItems.Allocated) b →
    Frees 0 data.blocks (jsonDataFree data)
  | .null, _ => .pure
  | .boolean _, _ => .pure
  | .number _, _ => .pure
  | .string block _, _ => .free block
  | .array block ⟨_, itemsBlock, items, _⟩, h => by
    rw [JsonData.blocks, jsonDataFree]
    refine .reads_bind (.access (Multiset.mem_singleton_self block)) (by simp) ?_
    have hitems := freeItems_frees itemsBlock items h.1 h.2
    refine ((hitems.mono ?_).then_frees fun _ => (Frees.free_opt itemsBlock).bind fun _ =>
      .free block).of_eq ?_
    · rw [add_zero]
      exact Multiset.le_add_right _ _
    · rw [← Multiset.singleton_add, add_comm, add_comm (optBlock _), add_assoc]
  | .object block ⟨_, arrays, _, slots, _⟩, h => by
    rw [JsonData.blocks, jsonDataFree]
    refine .reads_bind (.access (Multiset.mem_singleton_self block)) (by simp) ?_
    have hslots := deinitLoop_frees arrays slots h.1 h.2
    refine ((hslots.mono ?_).then_frees fun _ => (freeArrays_frees 0 arrays).bind fun _ =>
      .free block).of_eq ?_
    · rw [add_zero]
      exact Multiset.le_add_right _ _
    · rw [← Multiset.singleton_add, add_comm, add_comm (arrayBlocks _), add_assoc]

/-- The items are freed while the array is still there. -/
theorem freeItems_frees (itemsBlock : Option ℕ) : ∀ items : List HeapValue,
    (items ≠ [] → itemsBlock.isSome) →
    ItemsAll (fun _ => ObjectTable.Allocated) (fun _ => ArrayItems.Allocated) items →
    Frees (optBlock itemsBlock) (itemBlocks items) (freeItems itemsBlock items)
  | [], _, _ => .pure
  | v :: items, hblock, h => by
    obtain ⟨b, rfl⟩ := Option.isSome_iff_exists.1 (hblock (List.cons_ne_nil v items))
    rw [itemBlocks, freeItems]
    refine .reads_bind (.access (Multiset.mem_singleton_self b)) (Multiset.le_add_left _ _) ?_
    exact ((jsonValueFree_frees v h.1).mono (Multiset.zero_le _)).bind fun _ =>
      freeItems_frees (some b) items (fun _ => rfl) h.2

/-- The names and the values are freed while the arrays are still there. -/
theorem deinitLoop_frees (arrays : Option ObjectArrays) : ∀ slots : List (Slot HeapValue),
    (slots ≠ [] → arrays.isSome) →
    SlotsAll (fun _ => ObjectTable.Allocated) (fun _ => ArrayItems.Allocated) slots →
    Frees (arrayBlocks arrays) (slotBlocks slots) (deinitLoop arrays true true slots)
  | [], _, _ => .pure
  | ⟨name, nameBlock, value, cellIx, hash⟩ :: slots, harrays, h => by
    have hsome := harrays (List.cons_ne_nil _ slots)
    rw [slotBlocks, deinitLoop]
    have hname : Frees (arrayBlocks arrays) {nameBlock} (Prog.when (true = true) do
        touch arrays (·.names)
        free (some nameBlock)) :=
      .reads_bind (touch_reads hsome ObjectArrays.names_mem)
        (Multiset.le_add_left _ _) (.free nameBlock)
    have hvalue : Frees (arrayBlocks arrays) value.blocks (Prog.when (true = true) do
        touch arrays (·.values)
        jsonValueFree value) :=
      .reads_bind (touch_reads hsome ObjectArrays.values_mem)
        (Multiset.le_add_left _ _) ((jsonValueFree_frees value h.1).mono (Multiset.zero_le _))
    exact (hname.bind fun _ => hvalue.bind fun _ =>
      deinitLoop_frees arrays slots (fun _ => hsome) h.2).of_eq (Multiset.singleton_add _ _).symm

end

end Slirp4netns.Parson
