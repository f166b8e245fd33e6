/-
  slirp4netns formalization — parson's lookups in memory (`json_value_get_*`,
  `json_object_get_*` and `json_object_dotget_*` in `parson.c`).

  A pointer that may be `NULL` is an `Option`; a string comes with the block that it is
  in.  What a lookup finds is in the blocks of the value that it started from
  (`ValueIn`, `ObjectIn`), and means what the lookup of `Parson.Value` gives.
-/
import Slirp4netns.Parson.Build

namespace Slirp4netns.Parson

open HeapProg

/-! ## The code -/

/-- A `JSON_Object *`: the block of the structure, and the table. -/
abbrev ObjectPtr := Option (ℕ × ObjectTable HeapValue)

/-- A `const char *` into a block. -/
abbrev StringPtr := Option (ℕ × Bytes)

/-- `json_value_get_object` -/
def jsonValueGetObject : Option HeapValue → HeapProg ObjectPtr
  | none => return none
  | some (.mk block _ data) => do
    access block
    match data with
    | .object object t => return some (object, t)
    | _ => return none

/-- `json_value_get_string` -/
def jsonValueGetString : Option HeapValue → HeapProg StringPtr
  | none => return none
  | some (.mk block _ data) => do
    access block
    match data with
    | .string string chars => return some (string, chars)
    | _ => return none

/-- `json_value_get_number` -/
def jsonValueGetNumber : Option HeapValue → HeapProg Double
  | none => return 0
  | some (.mk block _ data) => do
    access block
    match data with
    | .number d => return d
    | _ => return 0

/-- `json_object_getn_value`, of a pointer that may be `NULL`. -/
def getnValue (object : ObjectPtr) (name : Bytes) : HeapProg (Option HeapValue) :=
  match object with
  | none => return none
  | some (block, t) => do
    access block
    jsonObjectGetnValue t name

/-- `json_object_get_string` -/
def jsonObjectGetString (object : ObjectPtr) (name : Bytes) : HeapProg StringPtr := do
  jsonValueGetString (← getnValue object name)

/-- `json_object_dotget_value`, with the part of the name before the next dot accumulated in `pre`,
    last byte first. -/
def dotgetFrom (object : ObjectPtr) (pre : Bytes) : Bytes → HeapProg (Option HeapValue)
  | [] => getnValue object pre.reverse
  | c :: name =>
    if c = 46 then do
      let value ← getnValue object pre.reverse
      let object ← jsonValueGetObject value
      dotgetFrom object [] name
    else dotgetFrom object (c :: pre) name

/-- `json_object_dotget_value` -/
def jsonObjectDotgetValue (object : ObjectPtr) (name : Bytes) : HeapProg (Option HeapValue) :=
  dotgetFrom object [] name

/-- `json_object_dotget_string` -/
def jsonObjectDotgetString (object : ObjectPtr) (name : Bytes) : HeapProg StringPtr := do
  jsonValueGetString (← jsonObjectDotgetValue object name)

/-- `json_object_dotget_number` -/
def jsonObjectDotgetNumber (object : ObjectPtr) (name : Bytes) : HeapProg Double := do
  jsonValueGetNumber (← jsonObjectDotgetValue object name)

/-- The C string that a pointer points to. -/
def StringPtr.text (s : StringPtr) : Option Bytes := s.map fun p => cstr p.2

/-! ## What is found -/

/-- The value is in the blocks `s`, and as it must be. -/
def ValueIn (s : Multiset ℕ) (r : Option HeapValue) : Prop := ∀ v ∈ r, v.Wf ∧ v.blocks ⊆ s

/-- An object that is whole, in these blocks. -/
def ObjectIn (s : Multiset ℕ) (o : ObjectPtr) : Prop :=
  ∀ p ∈ o, p.2.Whole ∧ p.1 ∈ s ∧ p.2.blocks ⊆ s

/-- A string in one of these blocks. -/
def StringIn (s : Multiset ℕ) (r : StringPtr) : Prop := ∀ p ∈ r, p.1 ∈ s

/-- The members of the object that a pointer points to. -/
def ObjectPtr.members (o : ObjectPtr) : Option JsonObject := o.map fun p => p.2.members

section
variable {s : Multiset ℕ} {r : Option HeapValue} {o : ObjectPtr}

theorem ValueIn.none : ValueIn s none := fun v hv => by cases hv

theorem ObjectIn.none : ObjectIn s none := fun p hp => by cases hp

theorem StringIn.none : StringIn s none := fun p hp => by cases hp

theorem ValueIn.block_mem {v : HeapValue} (h : ValueIn s (some v)) : v.block ∈ s :=
  (h v rfl).2 v.block_mem

theorem jsonValueGetObject_reads (h : ValueIn s r) :
    ∃ o, Reads s (jsonValueGetObject r) o ∧ ObjectIn s o ∧
      o.members = Slirp4netns.jsonValueGetObject (r.map HeapValue.abs) := by
  cases r with
  | none => exact ⟨_, .pure, .none, rfl⟩
  | some v =>
    obtain ⟨block, parent, data⟩ := v
    cases data with
    | object object t =>
      obtain ⟨hwf, hsub⟩ := h _ rfl
      obtain ⟨⟨-, ht⟩, hvalues⟩ := HeapValue.wf_object.1 hwf
      rw [blocks_object, Multiset.cons_subset, Multiset.cons_subset] at hsub
      refine ⟨_, .bind (.access hsub.1) .pure, fun p hp => ?_, ?_⟩
      · cases hp
        exact ⟨.of_slots ht hvalues, hsub.2.1, hsub.2.2⟩
      · rw [Option.map_some, HeapValue.abs, JsonData.abs, Slirp4netns.jsonValueGetObject]
        rfl
    | _ => exact ⟨_, .bind (.access h.block_mem) .pure, .none, rfl⟩

theorem jsonValueGetString_reads (h : ValueIn s r) :
    ∃ p, Reads s (jsonValueGetString r) p ∧ StringIn s p ∧
      p.text = Slirp4netns.jsonValueGetString (r.map HeapValue.abs) := by
  cases r with
  | none => exact ⟨_, .pure, .none, rfl⟩
  | some v =>
    obtain ⟨block, parent, data⟩ := v
    cases data with
    | string string chars =>
      refine ⟨_, .bind (.access h.block_mem) .pure, fun p hp => ?_, rfl⟩
      cases hp
      refine (h _ rfl).2 ?_
      rw [HeapValue.blocks, JsonData.blocks]
      exact Multiset.mem_cons_of_mem (Multiset.mem_singleton_self _)
    | _ => exact ⟨_, .bind (.access h.block_mem) .pure, .none, rfl⟩

theorem jsonValueGetNumber_reads (h : ValueIn s r) :
    Reads s (jsonValueGetNumber r) (Slirp4netns.jsonValueGetNumber (r.map HeapValue.abs)) := by
  cases r with
  | none => exact .pure
  | some v =>
    obtain ⟨block, parent, data⟩ := v
    cases data <;> exact .bind (.access h.block_mem) .pure

theorem getnValue_reads (h : ObjectIn s o) (name : Bytes) :
    ∃ r, Reads s (getnValue o name) r ∧ ValueIn s r ∧
      r.map HeapValue.abs = Slirp4netns.jsonObjectGetnValue o.members name := by
  cases o with
  | none => exact ⟨_, .pure, .none, rfl⟩
  | some p =>
    obtain ⟨block, t⟩ := p
    obtain ⟨ht, hblock, hsub⟩ := h _ rfl
    obtain ⟨r, hr, habs, hslots⟩ := ObjectTable.jsonObjectGetnValue_reads ht.wf name
    refine ⟨r, .bind (.access hblock) (hr.mono hsub), fun v hv => ?_, habs⟩
    obtain ⟨slot, hslot, rfl⟩ := hslots v hv
    refine ⟨ht.slots slot hslot, fun b hb => hsub ?_⟩
    rw [ObjectTable.blocks]
    exact Multiset.mem_add.2 (.inr (slot_blocks_subset hslot (Multiset.mem_cons_of_mem hb)))

theorem dotgetFrom_reads (name : Bytes) (pre : Bytes) (h : ObjectIn s o) :
    ∃ r, Reads s (dotgetFrom o pre name) r ∧ ValueIn s r ∧
      r.map HeapValue.abs = Slirp4netns.dotgetFrom o.members pre name := by
  induction name generalizing o pre with
  | nil => exact getnValue_reads h pre.reverse
  | cons c name ih =>
    rw [dotgetFrom, Slirp4netns.dotgetFrom]
    by_cases hdot : c = 46
    · rw [if_pos hdot, if_pos hdot]
      obtain ⟨r, hr, hin, habs⟩ := getnValue_reads h pre.reverse
      obtain ⟨o', ho', hin', hmembers⟩ := jsonValueGetObject_reads hin
      obtain ⟨r', hr', hin'', habs'⟩ := ih [] hin'
      refine ⟨r', .bind hr (.bind ho' hr'), hin'', ?_⟩
      rw [habs', hmembers, habs]
    · rw [if_neg hdot, if_neg hdot]
      exact ih (c :: pre) h

theorem jsonObjectGetString_reads {b : ℕ} {t : ObjectTable HeapValue}
    (h : ObjectIn s (some (b, t))) (name : Bytes) :
    ∃ p, Reads s (jsonObjectGetString (some (b, t)) name) p ∧ StringIn s p ∧
      p.text = Slirp4netns.jsonObjectGetString t.members name := by
  obtain ⟨r, hr, hin, habs⟩ := getnValue_reads h name
  obtain ⟨p, hp, hpin, htext⟩ := jsonValueGetString_reads hin
  exact ⟨p, .bind hr hp, hpin, by rw [htext, habs]; rfl⟩

theorem jsonObjectDotgetString_reads {b : ℕ} {t : ObjectTable HeapValue}
    (h : ObjectIn s (some (b, t))) (name : Bytes) :
    ∃ p, Reads s (jsonObjectDotgetString (some (b, t)) name) p ∧ StringIn s p ∧
      p.text = Slirp4netns.jsonObjectDotgetString t.members name := by
  obtain ⟨r, hr, hin, habs⟩ := dotgetFrom_reads name [] h
  obtain ⟨p, hp, hpin, htext⟩ := jsonValueGetString_reads hin
  exact ⟨p, .bind hr hp, hpin, by rw [htext, habs]; rfl⟩

theorem jsonObjectDotgetNumber_reads {b : ℕ} {t : ObjectTable HeapValue}
    (h : ObjectIn s (some (b, t))) (name : Bytes) :
    Reads s (jsonObjectDotgetNumber (some (b, t)) name)
      (Slirp4netns.jsonObjectDotgetNumber t.members name) := by
  obtain ⟨r, hr, hin, habs⟩ := dotgetFrom_reads name [] h
  have hnumber := jsonValueGetNumber_reads hin
  rw [habs] at hnumber
  exact .bind hr hnumber

end

end Slirp4netns.Parson
