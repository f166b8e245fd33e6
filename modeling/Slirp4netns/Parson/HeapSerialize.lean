/-
  slirp4netns formalization — parson's serializer in memory
  (`json_serialize_to_string` and its pretty variant in `parson.c`).

  `json_serialize_to_buffer_r` runs three times over a value: twice to count the bytes
  of the text, into no buffer at all, and once to write it.  A number is written into
  an array of 64 bytes while the text is only counted.  The count is an `int`.

  `jsonSerializeToString_owned`: the text is written just into the buffer that has
  been allocated for it, and ends with a NUL there.
-/
import Slirp4netns.Lib.Writer
import Slirp4netns.Parson.Build
import Slirp4netns.Parson.Serialize

namespace Slirp4netns.Parson

open HeapProg

/-! ## The code -/

/-- What the type `int` can count. -/
def countMax : ℕ := intMax.toNat

/-- Where the text is written. -/
abbrev Out := BufWriter UInt8

/-- `APPEND_STRING` -/
def appendString (str : Bytes) : Out → HeapProg Out := BufWriter.store countMax (str ++ [0]) str.length

/-- `APPEND_INDENT` -/
def appendIndent : ℕ → Out → HeapProg Out
  | 0, w => return w
  | level + 1, w => do
    let w ← appendString (bytes "    ") w
    appendIndent level w

/-- The `switch` of `json_serialize_string`; a byte that stands for itself is stored without a NUL
    behind it. -/
def serializeChar (c : UInt8) : Out → HeapProg Out :=
  if escapeByte c = [c] then BufWriter.store countMax [c] 1 else appendString (escapeByte c)

/-- The loop of `json_serialize_string`. -/
def serializeChars : Bytes → Out → HeapProg Out
  | [], w => return w
  | c :: s, w => do
    let w ← serializeChar c w
    serializeChars s w

/-- `json_serialize_string` -/
def jsonSerializeString (s : Bytes) (w : Out) : HeapProg Out := do
  let w ← appendString [34] w
  let w ← serializeChars s w
  appendString [34] w

/-- `PARSON_NUM_BUF_SIZE` -/
def numBufSize : ℕ := 64

/-- `sprintf` of a number, into the buffer or into `num_buf`. -/
def serializeNumber (C : Libc) (d : Double) (w : Out) : HeapProg Out := do
  Prog.when (w.dst.isNone ∧ numBufSize < (C.sprintfG17 d).length + 1) (Prog.stop .outOfBounds)
  appendString (C.sprintfG17 d) w

section
variable (C : Libc) (pretty : Bool)

mutual

/-- `json_serialize_to_buffer_r` -/
def jsonSerializeToBufferR : HeapValue → ℕ → Out → HeapProg Out
  | .mk block _ data, level, w => do
    access block
    serializeData data level w

/-- The `switch` of `json_serialize_to_buffer_r`. -/
def serializeData : JsonData HeapValue → ℕ → Out → HeapProg Out
  | .null, _, w => appendString (bytes "null") w
  | .boolean b, _, w => appendString (if b then bytes "true" else bytes "false") w
  | .number q, _, w => serializeNumber C q w
  | .string block chars, _, w => do
    access block
    BufWriter.call countMax (jsonSerializeString chars) w
  | .array block ⟨_, itemsBlock, items, _⟩, level, w => do
    access block
    let w ← appendString [91] w
    let w ← BufWriter.when (items ≠ [] ∧ pretty = true) (appendString [10]) w
    let w ← serializeItems itemsBlock items level w
    let w ← BufWriter.when (items ≠ [] ∧ pretty = true) (appendIndent level) w
    appendString [93] w
  | .object block ⟨_, arrays, _, slots, _⟩, level, w => do
    access block
    let w ← appendString [123] w
    let w ← BufWriter.when (slots ≠ [] ∧ pretty = true) (appendString [10]) w
    let w ← serializeSlots arrays slots level w
    let w ← BufWriter.when (slots ≠ [] ∧ pretty = true) (appendIndent level) w
    appendString [125] w

/-- The loop over the items of an array. -/
def serializeItems (itemsBlock : Option ℕ) : List HeapValue → ℕ → Out → HeapProg Out
  | [], _, w => return w
  | v :: items, level, w => do
    let w ← BufWriter.when (pretty = true) (appendIndent (level + 1)) w
    match itemsBlock with
    | none => Prog.stop .nullPointer
    | some b => access b
    let w ← BufWriter.call countMax (jsonSerializeToBufferR v (level + 1)) w
    let w ← BufWriter.when (items ≠ []) (appendString [44]) w
    let w ← BufWriter.when (pretty = true) (appendString [10]) w
    serializeItems itemsBlock items level w

/-- The loop over the members of an object. -/
def serializeSlots (arrays : Option ObjectArrays) : List (Slot HeapValue) → ℕ → Out → HeapProg Out
  | [], _, w => return w
  | ⟨name, nameBlock, value, _, _⟩ :: slots, level, w => do
    touch arrays (·.names)
    let w ← BufWriter.when (pretty = true) (appendIndent (level + 1)) w
    access nameBlock
    let w ← BufWriter.call countMax (jsonSerializeString (cstr name)) w
    let w ← appendString [58] w
    let w ← BufWriter.when (pretty = true) (appendString [32]) w
    touch arrays (·.values)
    let w ← BufWriter.call countMax (jsonSerializeToBufferR value (level + 1)) w
    let w ← BufWriter.when (slots ≠ []) (appendString [44]) w
    let w ← BufWriter.when (pretty = true) (appendString [10]) w
    serializeSlots arrays slots level w

end

/-- `json_serialization_size` and `json_serialization_size_pretty` -/
def jsonSerializationSize (v : HeapValue) : HeapProg ℕ := do
  let w ← jsonSerializeToBufferR C pretty v 0 ⟨none, 0, 0⟩
  return w.total + 1

/-- `json_serialize_to_buffer` and `json_serialize_to_buffer_pretty`, into a buffer with the
    contents `mem`. -/
def jsonSerializeToBuffer (v : HeapValue) (block : ℕ) (mem : Bytes) : HeapProg (Option Bytes) := do
  let needed ← jsonSerializationSize C pretty v
  if needed = 0 ∨ mem.length < needed then return none
  else do
    let w ← jsonSerializeToBufferR C pretty v 0 ⟨some (block, mem), 0, 0⟩
    return w.dst.map Prod.snd

/-- `json_serialize_to_string` and `json_serialize_to_string_pretty`; what `malloc` leaves in the
    buffer is `junk`. -/
def jsonSerializeToString (junk : ℕ → UInt8) (v : HeapValue) : HeapProg (Option (ℕ × Bytes)) := do
  let size ← jsonSerializationSize C pretty v
  if size = 0 then return none
  else do
    match ← malloc with
    | none => return none
    | some block => do
      match ← jsonSerializeToBuffer C pretty v block ((List.range size).map junk) with
      | none => do
        free (some block)
        return none
      | some mem => return some (block, mem)

/-! ## The text -/

/-- The text of an indentation. -/
def indentText (level : ℕ) : Bytes := (List.replicate level (bytes "    ")).flatten

mutual

/-- The text of a value, at a level of indentation. -/
def serializeText : JsonValue → ℕ → Bytes
  | .null, _ => bytes "null"
  | .boolean b, _ => if b then bytes "true" else bytes "false"
  | .number q, _ => C.sprintfG17 q
  | .string chars, _ => Slirp4netns.jsonSerializeString chars
  | .array items, level => [91] ++ ((if items ≠ [] ∧ pretty = true then [10] else []) ++
      (itemsText items level ++
        ((if items ≠ [] ∧ pretty = true then indentText level else []) ++ [93])))
  | .object members, level => [123] ++ ((if members ≠ [] ∧ pretty = true then [10] else []) ++
      (membersText members level ++
        ((if members ≠ [] ∧ pretty = true then indentText level else []) ++ [125])))

/-- The text of the items of an array. -/
def itemsText : List JsonValue → ℕ → Bytes
  | [], _ => []
  | v :: items, level => (if pretty = true then indentText (level + 1) else []) ++
      (serializeText v (level + 1) ++ ((if items ≠ [] then [44] else []) ++
        ((if pretty = true then [10] else []) ++ itemsText items level)))

/-- The text of the members of an object. -/
def membersText : JsonObject → ℕ → Bytes
  | [], _ => []
  | (name, v) :: members, level => (if pretty = true then indentText (level + 1) else []) ++
      (Slirp4netns.jsonSerializeString (cstr name) ++ ([58] ++
        ((if pretty = true then [32] else []) ++ (serializeText v (level + 1) ++
          ((if members ≠ [] then [44] else []) ++ ((if pretty = true then [10] else []) ++
            membersText members level))))))

end

mutual

/-- The numbers of a value fit into `num_buf`. -/
def NumbersFit : JsonValue → Prop
  | .number q => (C.sprintfG17 q).length < numBufSize
  | .array items => ItemsFit items
  | .object members => MembersFit members
  | _ => True

/-- The condition for the items of an array. -/
def ItemsFit : List JsonValue → Prop
  | [] => True
  | v :: items => NumbersFit v ∧ ItemsFit items

/-- The condition for the members of an object. -/
def MembersFit : JsonObject → Prop
  | [] => True
  | (_, v) :: members => NumbersFit v ∧ MembersFit members

end

end

/-! ## Numbers that fit -/

section
variable {C : Libc}

theorem itemsFit_iff {items : List JsonValue} : ItemsFit C items ↔ ∀ v ∈ items, NumbersFit C v := by
  induction items with
  | nil => simp [ItemsFit]
  | cons v items ih => rw [ItemsFit, ih, List.forall_mem_cons]

theorem membersFit_iff {members : JsonObject} :
    MembersFit C members ↔ ∀ m ∈ members, NumbersFit C m.2 := by
  induction members with
  | nil => simp [MembersFit]
  | cons m members ih => rw [MembersFit, ih, List.forall_mem_cons]

/-- Of the integers that a double holds none has more than 17 characters. -/
theorem sprintfG17_exact_length {d : Double} (h : d.Exact) : (C.sprintfG17 d).length ≤ 17 := by
  rcases h with rfl | ⟨n, rfl, hn⟩
  · rw [C.sprintfG17_negZero]
    decide
  · rw [C.sprintfG17_int n hn]
    exact intText_length (by decide) (lt_of_le_of_lt hn (by decide))

theorem numbersFit_of_plain {levels : ℕ} {v : JsonValue} (h : v.Plain levels) :
    NumbersFit C v := by
  induction levels generalizing v with
  | zero => exact h.elim
  | succ levels ih =>
    cases v with
    | null | boolean | string => trivial
    | number d => exact lt_of_le_of_lt (sprintfG17_exact_length h) (by decide)
    | array items => exact itemsFit_iff.2 fun v hv => ih (h v hv)
    | object members => exact membersFit_iff.2 fun m hm => ih (h.2 m hm).2

end

/-! ## Without indentation -/

section
variable {C : Libc}

theorem itemsText_compact {items : List JsonValue} (level : ℕ)
    (h : ∀ v ∈ items, serializeText C false v (level + 1) =
      Slirp4netns.jsonSerializeToBufferR C v) :
    itemsText C false items level = Slirp4netns.serializeItems C items := by
  induction items with
  | nil => rfl
  | cons v items ih =>
    have ih := ih fun w hw => h w (List.mem_cons_of_mem _ hw)
    rw [itemsText, ih, h v List.mem_cons_self]
    cases items with
    | nil => simp [Slirp4netns.serializeItems]
    | cons w items => simp [Slirp4netns.serializeItems]

theorem membersText_compact {members : JsonObject} (level : ℕ)
    (h : ∀ m ∈ members, (0 : UInt8) ∉ m.1 ∧
      serializeText C false m.2 (level + 1) = Slirp4netns.jsonSerializeToBufferR C m.2) :
    membersText C false members level = Slirp4netns.serializeMembers C members := by
  induction members with
  | nil => rfl
  | cons m members ih =>
    obtain ⟨name, v⟩ := m
    have ih := ih fun w hw => h w (List.mem_cons_of_mem _ hw)
    obtain ⟨hname, hv⟩ := h (name, v) List.mem_cons_self
    rw [membersText, ih, hv, cstr_eq_self hname]
    cases members with
    | nil => simp [Slirp4netns.serializeMembers]
    | cons m members => simp [Slirp4netns.serializeMembers]

/-- The compact text is the one of `Parson.Serialize`. -/
theorem serializeText_compact {levels : ℕ} {v : JsonValue} (h : v.Plain levels) (level : ℕ) :
    serializeText C false v level = Slirp4netns.jsonSerializeToBufferR C v := by
  induction levels generalizing v level with
  | zero => exact h.elim
  | succ levels ih =>
    cases v with
    | array items =>
      rw [serializeText, Slirp4netns.jsonSerializeToBufferR,
        itemsText_compact level fun v hv => ih (h v hv) (level + 1)]
      simp
    | object members =>
      rw [serializeText, Slirp4netns.jsonSerializeToBufferR, membersText_compact level fun m hm =>
        ⟨(h.2 m hm).1, ih (h.2 m hm).2 (level + 1)⟩]
      simp
    | _ => rw [serializeText, Slirp4netns.jsonSerializeToBufferR]

end

/-! ## The text is written -/

section
variable {s : Multiset ℕ}

/-- Code that writes a text whose length is an `int`. -/
abbrev Writes (s : Multiset ℕ) (p : Out → HeapProg Out) (t : Bytes) (post : Out → Prop) : Prop :=
  BufWriter.Writes countMax s p t post

theorem appendString_writes (str : Bytes) : Writes s (appendString str) str (BufWriter.Ended 0) :=
  BufWriter.Writes.ended_store str 0

theorem appendString_open (str : Bytes) : Writes s (appendString str) str fun _ => True :=
  (appendString_writes str).conseq fun _ _ => trivial

theorem appendIndent_writes (level : ℕ) :
    Writes s (appendIndent level) (indentText level) fun _ => True := by
  induction level with
  | zero => exact .skip
  | succ level ih =>
    rw [indentText, List.replicate_succ, List.flatten_cons]
    exact .bind (appendString_open _) ih

theorem serializeChar_writes (c : UInt8) :
    Writes s (serializeChar c) (escapeByte c) fun _ => True := by
  rw [serializeChar]
  split_ifs with hplain
  · rw [hplain]
    exact BufWriter.Writes.item_store c
  · exact appendString_open _

theorem serializeChars_writes (chars : Bytes) :
    Writes s (serializeChars chars) (chars.flatMap escapeByte) fun _ => True := by
  induction chars with
  | nil => exact .skip
  | cons c chars ih =>
    rw [List.flatMap_cons]
    exact .bind (serializeChar_writes c) ih

theorem jsonSerializeString_writes (chars : Bytes) :
    Writes s (jsonSerializeString chars) (Slirp4netns.jsonSerializeString chars)
      (BufWriter.Ended 0) := by
  have h : Writes s (jsonSerializeString chars) ([34] ++ (chars.flatMap escapeByte ++ [34]))
      (BufWriter.Ended 0) :=
    .bind (appendString_open _) (.bind (serializeChars_writes chars) (appendString_writes _))
  rwa [Slirp4netns.jsonSerializeString]

theorem serializeNumber_writes {C : Libc} {q : Double} (h : (C.sprintfG17 q).length < numBufSize) :
    Writes s (serializeNumber C q) (C.sprintfG17 q) (BufWriter.Ended 0) := by
  intro w hroom
  obtain ⟨w', hreads, hw⟩ := appendString_writes (C.sprintfG17 q) w hroom
  have hcheck : Reads s (Prog.when (w.dst.isNone ∧ numBufSize < (C.sprintfG17 q).length + 1)
      (Prog.stop .outOfBounds)) () := by
    rw [Prog.when, if_neg fun hbad => Nat.not_lt.2 h hbad.2]
    exact .pure
  exact ⟨w', .bind hcheck hreads, hw⟩

end

theorem add_subset_iff {s t u : Multiset ℕ} : s + t ⊆ u ↔ s ⊆ u ∧ t ⊆ u := by
  simp only [Multiset.subset_iff, Multiset.mem_add, or_imp, forall_and]

theorem itemsAbs_ne_nil {items : List HeapValue} : items ≠ [] ↔ itemsAbs items ≠ [] := by
  rw [itemsAbs_eq, Ne, Ne, List.map_eq_nil_iff]

theorem slotsAbs_ne_nil {slots : List (Slot HeapValue)} : slots ≠ [] ↔ slotsAbs slots ≠ [] := by
  rw [slotsAbs_eq, Ne, Ne, List.map_eq_nil_iff]

section
variable {s : Multiset ℕ} (C : Libc) (pretty : Bool)

mutual

theorem jsonSerializeToBufferR_writes : ∀ (v : HeapValue) (level : ℕ), v.Allocated →
    NumbersFit C v.abs → v.blocks ⊆ s → Writes s (jsonSerializeToBufferR C pretty v level)
      (serializeText C pretty v.abs level) (BufWriter.Ended 0)
  | .mk block _ data, level, halloc, hfit, hsub => by
    rw [HeapValue.blocks, Multiset.cons_subset] at hsub
    rw [HeapValue.abs]
    exact .reads_bind (.access hsub.1) (serializeData_writes block data level halloc hfit hsub.2)

theorem serializeData_writes (block : ℕ) : ∀ (data : JsonData HeapValue) (level : ℕ),
    data.All (fun _ => ObjectTable.Allocated) (fun _ => ArrayItems.Allocated) block →
    NumbersFit C data.abs → data.blocks ⊆ s → Writes s (serializeData C pretty data level)
      (serializeText C pretty data.abs level) (BufWriter.Ended 0)
  | .null, _, _, _, _ => appendString_writes _
  | .boolean b, _, _, _, _ => appendString_writes _
  | .number q, _, _, hfit, _ => serializeNumber_writes hfit
  | .string b chars, _, _, _, hsub => by
    rw [JsonData.blocks, Multiset.singleton_subset] at hsub
    exact .reads_bind (.access hsub) (.call (jsonSerializeString_writes chars))
  | .array b ⟨_, itemsBlock, items, _⟩, level, ⟨halloc, hitems⟩, hfit, hsub => by
    rw [JsonData.blocks, Multiset.cons_subset, add_subset_iff] at hsub
    rw [JsonData.abs, serializeText]
    have hcond : items ≠ [] ∧ pretty = true ↔ itemsAbs items ≠ [] ∧ pretty = true :=
      and_congr_left' itemsAbs_ne_nil
    exact .reads_bind (.access hsub.1) <| .bind (appendString_open _) <|
      .bind (.when hcond (appendString_open _)) <|
      .bind (serializeItems_writes itemsBlock items level halloc hitems hfit hsub.2.1 hsub.2.2) <|
      .bind (.when hcond (appendIndent_writes level)) (appendString_writes _)
  | .object b ⟨_, arrays, _, slots, _⟩, level, ⟨halloc, hslots⟩, hfit, hsub => by
    rw [JsonData.blocks, Multiset.cons_subset, add_subset_iff] at hsub
    rw [JsonData.abs, serializeText]
    have hcond : slots ≠ [] ∧ pretty = true ↔ slotsAbs slots ≠ [] ∧ pretty = true :=
      and_congr_left' slotsAbs_ne_nil
    exact .reads_bind (.access hsub.1) <| .bind (appendString_open _) <|
      .bind (.when hcond (appendString_open _)) <|
      .bind (serializeSlots_writes arrays slots level halloc hslots hfit hsub.2.1 hsub.2.2) <|
      .bind (.when hcond (appendIndent_writes level)) (appendString_writes _)

theorem serializeItems_writes (itemsBlock : Option ℕ) : ∀ (items : List HeapValue) (level : ℕ),
    (items ≠ [] → itemsBlock.isSome) →
    ItemsAll (fun _ => ObjectTable.Allocated) (fun _ => ArrayItems.Allocated) items →
    ItemsFit C (itemsAbs items) → optBlock itemsBlock ⊆ s → itemBlocks items ⊆ s →
    Writes s (serializeItems C pretty itemsBlock items level)
      (itemsText C pretty (itemsAbs items) level) fun _ => True
  | [], _, _, _, _, _, _ => .skip
  | v :: items, level, halloc, ⟨hv, hitems⟩, ⟨hfit, hfits⟩, hblock, hsub => by
    rw [itemBlocks, add_subset_iff] at hsub
    obtain ⟨b, rfl⟩ := Option.isSome_iff_exists.1 (halloc (List.cons_ne_nil _ _))
    have hb : b ∈ s := hblock (Multiset.mem_singleton_self b)
    rw [itemsAbs, itemsText]
    exact .bind (.when Iff.rfl (appendIndent_writes _)) <|
      .reads_bind (.access hb) <|
      .bind ((jsonSerializeToBufferR_writes v (level + 1) hv hfit hsub.1).call.conseq
        fun _ _ => trivial) <|
      .bind (.when itemsAbs_ne_nil (appendString_open _)) <|
      .bind (.when Iff.rfl (appendString_open _)) <|
      serializeItems_writes (some b) items level (fun _ => rfl) hitems hfits hblock hsub.2

theorem serializeSlots_writes (arrays : Option ObjectArrays) :
    ∀ (slots : List (Slot HeapValue)) (level : ℕ), (slots ≠ [] → arrays.isSome) →
    SlotsAll (fun _ => ObjectTable.Allocated) (fun _ => ArrayItems.Allocated) slots →
    MembersFit C (slotsAbs slots) → arrayBlocks arrays ⊆ s → slotBlocks slots ⊆ s →
    Writes s (serializeSlots C pretty arrays slots level)
      (membersText C pretty (slotsAbs slots) level) fun _ => True
  | [], _, _, _, _, _, _ => .skip
  | ⟨name, nameBlock, value, _, _⟩ :: slots, level, halloc, ⟨hv, hslots⟩, ⟨hfit, hfits⟩, hblock,
      hsub => by
    rw [slotBlocks, Multiset.cons_subset, add_subset_iff] at hsub
    have harrays : arrays.isSome := halloc (List.cons_ne_nil _ _)
    rw [slotsAbs, membersText]
    exact .reads_bind ((touch_reads harrays ObjectArrays.names_mem).mono hblock) <|
      .bind (.when Iff.rfl (appendIndent_writes _)) <|
      .reads_bind (.access hsub.1) <|
      .bind ((jsonSerializeString_writes _).call.conseq fun _ _ => trivial) <|
      .bind (appendString_open _) <|
      .bind (.when Iff.rfl (appendString_open _)) <|
      .reads_bind ((touch_reads harrays ObjectArrays.values_mem).mono hblock) <|
      .bind ((jsonSerializeToBufferR_writes value (level + 1) hv hfit hsub.2.1).call.conseq
        fun _ _ => trivial) <|
      .bind (.when slotsAbs_ne_nil (appendString_open _)) <|
      .bind (.when Iff.rfl (appendString_open _)) <|
      serializeSlots_writes arrays slots level (fun _ => harrays) hslots hfits hblock hsub.2.2

end

/-! ## The three passes -/

variable {C pretty} {v : HeapValue}

/-- The text is counted without a buffer. -/
theorem jsonSerializationSize_reads (hv : v.Wf) (hfit : NumbersFit C v.abs)
    (hlen : (serializeText C pretty v.abs 0).length ≤ countMax) (hsub : v.blocks ⊆ s) :
    Reads s (jsonSerializationSize C pretty v) ((serializeText C pretty v.abs 0).length + 1) := by
  have hroom : BufWriter.Room countMax s (⟨none, 0, 0⟩ : Out) (serializeText C pretty v.abs 0) := by
    refine ⟨by rw [Nat.zero_add]; exact hlen, fun b mem h => ?_⟩
    cases h
  obtain ⟨w, hreads, hw, -⟩ :=
    jsonSerializeToBufferR_writes C pretty v 0 hv.allocated hfit hsub _ hroom
  rw [← Nat.zero_add (serializeText C pretty v.abs 0).length, ← hw.total_eq]
  exact .bind hreads .pure

/-- A buffer of just the size that was counted holds the text and a NUL. -/
theorem jsonSerializeToBuffer_reads (hv : v.Wf) (hfit : NumbersFit C v.abs)
    (hlen : (serializeText C pretty v.abs 0).length ≤ countMax) (hsub : v.blocks ⊆ s)
    {block : ℕ} (hblock : block ∈ s) {mem : Bytes}
    (hmem : mem.length = (serializeText C pretty v.abs 0).length + 1) :
    Reads s (jsonSerializeToBuffer C pretty v block mem)
      (some (serializeText C pretty v.abs 0 ++ [0])) := by
  have hroom : BufWriter.Room countMax s (⟨some (block, mem), 0, 0⟩ : Out)
      (serializeText C pretty v.abs 0) := by
    refine ⟨by rw [Nat.zero_add]; exact hlen, fun b mem' h => ?_⟩
    cases h
    exact ⟨hblock, by rw [Nat.zero_add, hmem]⟩
  obtain ⟨w, hreads, hw, hended⟩ :=
    jsonSerializeToBufferR_writes C pretty v 0 hv.allocated hfit hsub _ hroom
  obtain ⟨hpos, mem', hdst, hlen', htake⟩ := hw.some block mem rfl
  rw [Nat.zero_add] at hpos
  rw [List.take_zero, List.nil_append, hpos] at htake
  have hlast : mem'[(serializeText C pretty v.abs 0).length]? = some 0 :=
    hpos ▸ hended block mem' hdst
  have hbuf : mem' = serializeText C pretty v.abs 0 ++ [0] := by
    rw [← List.take_append_drop (serializeText C pretty v.abs 0).length mem', htake]
    congr 1
    obtain ⟨hlt, hget⟩ := List.getElem?_eq_some_iff.1 hlast
    rw [List.drop_eq_getElem_cons hlt, hget, List.drop_eq_nil_of_le (by omega)]
  refine .bind (jsonSerializationSize_reads hv hfit hlen hsub) ?_
  rw [if_neg (by omega)]
  have hret : w.dst.map Prod.snd = some (serializeText C pretty v.abs 0 ++ [0]) := by
    rw [hdst, ← hbuf]
    rfl
  exact .bind hreads (hret ▸ .pure)

theorem jsonSerializeToString_owned (junk : ℕ → UInt8) (hv : v.Wf) (hfit : NumbersFit C v.abs)
    (hlen : (serializeText C pretty v.abs 0).length ≤ countMax) :
    Owned v.blocks (jsonSerializeToString C pretty junk v) fun r own bad =>
      (r = none ∧ own = v.blocks ∧ bad = true) ∨
      ∃ block, r = some (block, serializeText C pretty v.abs 0 ++ [0]) ∧
        own = block ::ₘ v.blocks ∧ bad = false := by
  refine .reads_bind (jsonSerializationSize_reads hv hfit hlen fun _ hb => hb) le_rfl ?_
  rw [if_neg (Nat.succ_ne_zero _)]
  refine .malloc_bind (.pure (.inl ⟨rfl, rfl, rfl⟩)) fun block => ?_
  refine .reads_bind (jsonSerializeToBuffer_reads hv hfit hlen (Multiset.subset_cons _ _)
    (Multiset.mem_cons_self _ _) (by rw [List.length_map, List.length_range])) le_rfl ?_
  exact .pure (.inr ⟨block, rfl, rfl, rfl⟩)

/-- **The text of a value fits into the memory that is allocated for it.**  Into a buffer with
    anything in it, of the size that was counted without a buffer, `json_serialize_to_string` writes
    the text and a NUL, without a store outside of the buffer; no other block is allocated.  `NULL`
    is returned only for want of memory. -/
theorem jsonSerializeToString_run (junk : ℕ → UInt8) {h : Heap} (hv : v.Wf)
    (hlive : v.blocks ≤ h.live) (hfit : NumbersFit C v.abs)
    (hlen : (serializeText C pretty v.abs 0).length ≤ countMax) :
    (((jsonSerializeToString C pretty junk v).run h).out = .ret none ∧
      ((jsonSerializeToString C pretty junk v).run h).st.live = h.live ∧
      ((jsonSerializeToString C pretty junk v).run h).st.failed = true) ∨
    ∃ block, ((jsonSerializeToString C pretty junk v).run h).out =
        .ret (some (block, serializeText C pretty v.abs 0 ++ [0])) ∧
      ((jsonSerializeToString C pretty junk v).run h).st.live = block ::ₘ h.live ∧
      ((jsonSerializeToString C pretty junk v).run h).st.failed = h.failed := by
  obtain ⟨frame, hframe⟩ := Multiset.le_iff_exists_add.1 hlive
  obtain ⟨r, own, bad, hout, hr, hown, hbad⟩ :=
    jsonSerializeToString_owned junk hv hfit hlen h frame hframe
  rcases hr with ⟨rfl, rfl, rfl⟩ | ⟨block, rfl, rfl, rfl⟩
  · exact .inl ⟨hout, hown.trans hframe.symm, hbad.trans (Bool.or_true _)⟩
  · refine .inr ⟨block, hout, ?_, hbad.trans (Bool.or_false _)⟩
    rw [hown, Multiset.cons_add, ← hframe]

/-- `NULL` is returned exactly if there is no memory for the text. -/
theorem jsonSerializeToString_none_iff (junk : ℕ → UInt8) {h : Heap} (hv : v.Wf)
    (hlive : v.blocks ≤ h.live) (hfit : NumbersFit C v.abs)
    (hlen : (serializeText C pretty v.abs 0).length ≤ countMax) :
    ((jsonSerializeToString C pretty junk v).run h).out = .ret none ↔ h.fails h.next = true := by
  have hsize := jsonSerializationSize_reads (s := v.blocks) hv hfit hlen (fun _ hb => hb) h
    fun b hb => Multiset.mem_of_le hlive hb
  rw [jsonSerializeToString, Prog.bind_of_ret hsize, if_neg (Nat.succ_ne_zero _), Ran.after_nil]
  cases hfails : h.fails h.next with
  | true =>
    have hmalloc : malloc.run h = ⟨.ret none, h.refuse, []⟩ := if_pos hfails
    rw [Prog.bind_of_ret hmalloc]
    exact iff_of_true rfl rfl
  | false =>
    have hmalloc : malloc.run h = ⟨.ret (some h.next), h.grant, []⟩ := if_neg (by simp [hfails])
    have hmem : ((List.range ((serializeText C pretty v.abs 0).length + 1)).map junk).length =
        (serializeText C pretty v.abs 0).length + 1 := by rw [List.length_map, List.length_range]
    have hbuffer := jsonSerializeToBuffer_reads hv hfit hlen (Multiset.subset_cons _ h.next)
      (Multiset.mem_cons_self _ _) hmem h.grant fun b hb => ?_
    · rw [Prog.bind_of_ret hmalloc]
      dsimp only
      rw [Prog.bind_of_ret hbuffer]
      exact iff_of_false (fun hnone => Option.some_ne_none _ (Outcome.ret.inj hnone))
        Bool.false_ne_true
    · rcases Multiset.mem_cons.1 hb with rfl | hb
      · exact Multiset.mem_cons_self _ _
      · exact Multiset.mem_cons_of_mem (Multiset.mem_of_le hlive hb)

end

/-- The array `[true]`, in four blocks. -/
def sampleArray : HeapValue :=
  .mk 0 none (.array 1 ⟨0, some 2, [.mk 3 (some 0) (.boolean true)], 16⟩)

theorem sampleArray_wf : sampleArray.Wf :=
  HeapValue.wf_array.2 ⟨⟨rfl, fun _ => rfl, by decide, by simp [HeapValue.parent]⟩,
    List.forall_mem_singleton.2 trivial⟩

/-- Memory that holds `sampleArray` only. -/
def sampleArrayHeap : Heap where
  next := 4
  fails _ := false
  failed := false
  live := sampleArray.blocks
  nodup := by decide
  live_lt := by decide

/-- `[true]` and its NUL fill the seven bytes that are allocated. -/
theorem jsonSerializeToString_run_sample : ∃ block,
    ((jsonSerializeToString Libc.exact false (fun _ => 0xFF) sampleArray).run sampleArrayHeap).out =
      .ret (some (block, bytes "[true]" ++ [0])) := by
  have hfit : NumbersFit Libc.exact sampleArray.abs := ⟨trivial, trivial⟩
  rcases jsonSerializeToString_run (fun _ => 0xFF) (h := sampleArrayHeap) sampleArray_wf
    le_rfl hfit (show (serializeText _ false _ 0).length ≤ _ by decide) with h | ⟨block, hout, -⟩
  · exact absurd h.2.2 (by decide)
  · exact ⟨block, hout⟩

end Slirp4netns.Parson
