/-
  slirp4netns formalization — parson's parser in memory (`parse_*` in `parson.c`).

  The same functions as in `Parson.Parse`, with all that they allocate and free: the
  value that is built, the strings, and what has to be given back when the text turns
  out to be wrong or there is no memory.  A loop that used up its fuel would be a
  fault here.

  `jsonParseString_refines`: for every text, and whatever allocations fail, the parser
  returns.  A value that it returns owns just the blocks that have been allocated for
  it, and means what `Parson.Parse` says; `NULL` leaves no block behind, and is
  returned only for a text that is not accepted or for want of memory.
-/
import Slirp4netns.Parson.Build
import Slirp4netns.Parson.Fuel
import Slirp4netns.Parson.Strings

namespace Slirp4netns.Parson

open HeapProg

/-! ## The code -/

/-- A value without parts, and the text behind it. -/
def scalarThen (init : HeapProg (Option HeapValue)) (rest : Bytes) :
    HeapProg (Option (HeapValue × Bytes)) := do
  match ← init with
  | none => return none
  | some v => return some (v, rest)

/-- `parse_string_value` -/
def parseStringValue (s : Bytes) : HeapProg (Option (HeapValue × Bytes)) := do
  match ← getQuotedString s with
  | none => return none
  | some (block, chars, rest) => do
    match ← jsonValueInitStringNoCopy block chars with
    | none => do
      free (some block)
      return none
    | some v => return some (v, rest)

/-- `parse_boolean_value` -/
def parseBooleanValue (s : Bytes) : HeapProg (Option (HeapValue × Bytes)) :=
  if s.take 4 = bytes "true" then scalarThen (jsonValueInitBoolean true) (s.drop 4)
  else if s.take 5 = bytes "false" then scalarThen (jsonValueInitBoolean false) (s.drop 5)
  else return none

/-- `parse_number_value`, with the conversion of `Parson.Parse`. -/
def parseNumberValue (C : Libc) (s : Bytes) : HeapProg (Option (HeapValue × Bytes)) :=
  match Slirp4netns.parseNumberValue C s with
  | some (.number q, rest) => scalarThen (jsonValueInitNumber q) rest
  | _ => return none

/-- `parse_null_value` -/
def parseNullValue (s : Bytes) : HeapProg (Option (HeapValue × Bytes)) :=
  if s.take 4 = bytes "null" then scalarThen jsonValueInitNull (s.drop 4) else return none

section
variable (pv : Bytes → HeapProg (Option (HeapValue × Bytes)))

/-- The loop of `parse_object_value`, for an object in the blocks `block` and `object`. -/
def parseObjectLoop (block object : ℕ) :
    ℕ → ObjectTable HeapValue → Bytes → HeapProg (Option (HeapValue × Bytes))
  | 0, _, _ => Prog.stop .tooDeep
  | fuel + 1, t, s => do
    match ← getQuotedString s with
    | none => do
      jsonValueFree (.mk block none (.object object t))
      return none
    | some (key, chars, s) =>
      -- a name with a NUL in it is not supported
      if (0 : UInt8) ∈ chars then do
        free (some key)
        jsonValueFree (.mk block none (.object object t))
        return none
      else
        match expect 58 (skipWhitespaces s) with
        | none => do
          free (some key)
          jsonValueFree (.mk block none (.object object t))
          return none
        | some s => do
          match ← pv s with
          | none => do
            free (some key)
            jsonValueFree (.mk block none (.object object t))
            return none
          | some (v, s) => do
            match ← jsonObjectAdd t chars key v with
            | (t, false) => do
              free (some key)
              jsonValueFree v
              jsonValueFree (.mk block none (.object object t))
              return none
            | (t, true) =>
              match afterItem 125 s with
              | none => do
                jsonValueFree (.mk block none (.object object t))
                return none
              | some (none, s) => return some (.mk block none (.object object t), s)
              | some (some s, _) => parseObjectLoop block object fuel t s

/-- `parse_object_value`, on the text after the opening brace. -/
def parseObjectValue (s : Bytes) : HeapProg (Option (HeapValue × Bytes)) := do
  match ← jsonValueInitObject with
  | none => return none
  | some (.mk block _ (.object object t)) =>
    match skipWhitespaces s with
    | [] => do
      jsonValueFree (.mk block none (.object object t))
      return none
    | c :: s =>
      if c = 125 then return some (.mk block none (.object object t), s)
      else parseObjectLoop pv block object (s.length + 2) t (c :: s)
  -- `json_value_get_object` of something else
  | some _ => Prog.stop .nullPointer

/-- The loop of `parse_array_value`, for an array in the blocks `block` and `array`. -/
def parseArrayLoop (block array : ℕ) :
    ℕ → ArrayItems HeapValue → Bytes → HeapProg (Option (HeapValue × Bytes))
  | 0, _, _ => Prog.stop .tooDeep
  | fuel + 1, a, s => do
    match ← pv s with
    | none => do
      jsonValueFree (.mk block none (.array array a))
      return none
    | some (v, s) => do
      match ← jsonArrayAdd a v with
      | (a, false) => do
        jsonValueFree v
        jsonValueFree (.mk block none (.array array a))
        return none
      | (a, true) =>
        match afterItem 93 s with
        | none => do
          jsonValueFree (.mk block none (.array array a))
          return none
        | some (some s, _) => parseArrayLoop block array fuel a s
        | some (none, s) => do
          -- the array is trimmed
          match ← jsonArrayResize a a.items.length with
          | (a, false) => do
            jsonValueFree (.mk block none (.array array a))
            return none
          | (a, true) => return some (.mk block none (.array array a), s)

/-- `parse_array_value`, on the text after the opening bracket. -/
def parseArrayValue (s : Bytes) : HeapProg (Option (HeapValue × Bytes)) := do
  match ← jsonValueInitArray with
  | none => return none
  | some (.mk block _ (.array array a)) =>
    match skipWhitespaces s with
    | [] => do
      jsonValueFree (.mk block none (.array array a))
      return none
    | c :: s =>
      if c = 93 then return some (.mk block none (.array array a), s)
      else parseArrayLoop pv block array (s.length + 2) a (c :: s)
  | some _ => Prog.stop .nullPointer

end

/-- `parse_value`, with `levels` nesting levels left. -/
def parseValue (C : Libc) : ℕ → Bytes → HeapProg (Option (HeapValue × Bytes))
  | 0, _ => return none
  | levels + 1, s =>
    match skipWhitespaces s with
    | [] => return none
    | c :: s =>
      if c = 123 then parseObjectValue (parseValue C levels) s
      else if c = 91 then parseArrayValue (parseValue C levels) s
      else if c = 34 then parseStringValue (c :: s)
      else if c = 102 ∨ c = 116 then parseBooleanValue (c :: s)
      else if c = 45 ∨ isDigit c then parseNumberValue C (c :: s)
      else if c = 110 then parseNullValue (c :: s)
      else return none

/-- `json_parse_string` on the C string at the start of `mem`. -/
def jsonParseString (C : Libc) (mem : Bytes) : HeapProg (Option HeapValue) := do
  let r ← parseValue C (maxNesting + 1) (skipBom (cstr mem))
  return r.map Prod.fst

/-! ## Tables that have not become smaller -/

/-- Every table has three cells for each member at most, or 16. -/
def HeapValue.Compact : HeapValue → Prop :=
  HeapValue.All (fun _ t => t.cells.length ≤ max startingCapacity (3 * t.slots.length))
    fun _ _ => True

theorem HeapValue.Compact.setParent {v : HeapValue} (h : v.Compact) (p : ℕ) :
    (v.setParent p).Compact := by
  cases v
  exact h

/-- The same of the table of an object. -/
structure ObjectTable.Compact (t : ObjectTable HeapValue) : Prop where
  cells : t.cells.length ≤ max startingCapacity (3 * t.slots.length)
  values : ∀ e ∈ t.entries, e.2.2.Compact

theorem HeapValue.Compact.object {b : ℕ} {p : Option ℕ} {o : ℕ} {t : ObjectTable HeapValue}
    (h : t.Compact) : (HeapValue.mk b p (.object o t)).Compact :=
  ⟨h.cells, slotsAll_iff.2 fun _ hs => h.values _ (List.mem_map_of_mem hs)⟩

theorem HeapValue.Compact.array {b : ℕ} {p : Option ℕ} {a : ℕ} {items : ArrayItems HeapValue}
    (h : ∀ v ∈ items.items, v.Compact) : (HeapValue.mk b p (.array a items)).Compact :=
  ⟨trivial, itemsAll_iff.2 h⟩

/-- A value with no values in it. -/
def Atomic : JsonValue → Prop
  | .array _ | .object _ => False
  | _ => True

theorem HeapValue.Compact.of_atomic : ∀ {w : HeapValue}, Atomic w.abs → w.Compact := by
  rintro ⟨b, p, data⟩ h
  rw [HeapValue.abs] at h
  cases data with
  | array => exact h.elim
  | object => exact h.elim
  | _ => trivial

/-- A member has been added. -/
theorem ObjectTable.Compact.extended {t t' : ObjectTable HeapValue} {name : Bytes} {nameBlock : ℕ}
    {w : HeapValue} (h : t.Compact) (hw : w.Compact) (ht' : t.Extended name nameBlock w t') :
    t'.Compact := by
  have hlength : t'.slots.length = t.slots.length + 1 := by
    have := congrArg List.length ht'.entries
    rwa [entries, entries, List.length_append, List.length_map, List.length_map] at this
  refine ⟨?_, fun e he => ?_⟩
  · have hcells := h.cells
    have hwithin := ht'.cells
    rw [CellsWithin] at hwithin
    omega
  · rw [ht'.entries] at he
    rcases List.mem_append.1 he with he | he
    · exact h.values e he
    · rw [List.mem_singleton.1 he]
      exact hw.setParent _

/-! ## Refinement -/

/-- What a parsing function may do, when `o` is the value that is meant and the text behind it. -/
inductive Parsed (o : Option (JsonValue × Bytes)) :
    Option (HeapValue × Bytes) → Multiset ℕ → Bool → Prop
  | failed {bad : Bool} (why : bad = true ∨ o = none) : Parsed o none 0 bad
  | done {v : HeapValue} {rest : Bytes} (wf : v.Wf) (compact : v.Compact) (parent : v.parent = none)
      (h : o = some (v.abs, rest)) : Parsed o (some (v, rest)) v.blocks false

/-- A function in memory that parses what a function on values parses. -/
def Refines (p : Bytes → HeapProg (Option (HeapValue × Bytes)))
    (f : Bytes → Option (JsonValue × Bytes)) : Prop := ∀ s, Owned 0 (p s) (Parsed (f s))

theorem scalarThen_owned {init : HeapProg (Option HeapValue)} {v : JsonValue} {rest : Bytes}
    (hv : Atomic v) (h : Makes v init) :
    Owned 0 (scalarThen init rest) (Parsed (some (v, rest))) := by
  refine h.bind fun r own bad hr => ?_
  rcases hr with ⟨rfl, rfl, rfl⟩ | ⟨w, rfl, rfl, rfl, hw, hparent, rfl⟩
  · exact .pure (.failed (.inl rfl))
  · exact .pure (.done hw (.of_atomic hv) hparent rfl)

theorem parseStringValue_refines : Refines parseStringValue Slirp4netns.parseStringValue := by
  intro s
  refine (getQuotedString_owned s).bind fun r own bad hr => ?_
  rw [Slirp4netns.parseStringValue]
  cases hr with
  | failed why =>
    refine .pure (.failed (why.imp (fun h => by rw [h, Bool.true_or]) fun h => ?_))
    rw [h]
    rfl
  | @done block chars rest h =>
    rw [h]
    have hinit := initValue_owned (.string block chars) fun _ => trivial
    refine Owned.bind hinit fun r own bad hr => ?_
    rcases hr with ⟨rfl, rfl, rfl⟩ | ⟨w, rfl, rfl, rfl, hw, hparent, habs⟩
    · show Owned (block ::ₘ 0) _ _
      exact .free_bind (.pure (.failed (.inl rfl)))
    · refine .pure (.done hw (.of_atomic ?_) hparent ?_) <;> rw [habs]
      · trivial
      · rfl

theorem parseBooleanValue_refines : Refines parseBooleanValue Slirp4netns.parseBooleanValue := by
  intro s
  rw [parseBooleanValue, Slirp4netns.parseBooleanValue]
  split_ifs
  · exact scalarThen_owned trivial (jsonValueInitBoolean_makes true)
  · exact scalarThen_owned trivial (jsonValueInitBoolean_makes false)
  · exact .pure (.failed (.inr rfl))

theorem parseNullValue_refines : Refines parseNullValue Slirp4netns.parseNullValue := by
  intro s
  rw [parseNullValue, Slirp4netns.parseNullValue]
  split_ifs
  · exact scalarThen_owned trivial jsonValueInitNull_makes
  · exact .pure (.failed (.inr rfl))

theorem parseNumberValue_refines (C : Libc) :
    Refines (parseNumberValue C) (Slirp4netns.parseNumberValue C) := by
  intro s
  rw [parseNumberValue]
  cases h : Slirp4netns.parseNumberValue C s with
  | none => exact .pure (.failed (.inr rfl))
  | some r =>
    obtain ⟨v, rest⟩ := r
    obtain ⟨q, rfl⟩ : ∃ q, v = .number q := by
      rw [Slirp4netns.parseNumberValue] at h
      split at h
      · split at h
        · cases h
        · split_ifs at h
          cases h
          exact ⟨_, rfl⟩
      · cases h
        exact ⟨_, rfl⟩
      all_goals cases h
    exact scalarThen_owned trivial (jsonValueInitNumber_makes q)

section
variable {pv : Bytes → HeapProg (Option (HeapValue × Bytes))} {f : Bytes → Option (JsonValue × Bytes)}
  {block object array : ℕ} {o : Option (JsonValue × Bytes)}

/-- A value is given back, and the function fails. -/
theorem free_fail {v : HeapValue} {bad : Bool} (hv : v.Wf) (why : bad = true ∨ o = none) :
    Owned v.blocks (jsonValueFree v >>= fun _ => pure none) fun r own bad' =>
      Parsed o r own (bad || bad') := by
  have hfree := jsonValueFree_frees v hv.allocated
  refine Owned.of_eq (hfree.then_owned fun _ => .pure (.failed ?_)) (add_zero _).symm
  rwa [Bool.or_false]

/-- The same after another block, or another value. -/
theorem then_fail {v : HeapValue} {bad : Bool} {p : HeapProg Unit} {own : Multiset ℕ} (hv : v.Wf)
    (hp : Frees 0 own p) (why : bad = true ∨ o = none) :
    Owned (own + v.blocks) (p >>= fun _ => jsonValueFree v >>= fun _ => pure none)
      fun r own bad' => Parsed o r own (bad || bad') :=
  (hp.mono (Multiset.zero_le _)).then_owned fun _ => free_fail hv why

/-! ### Arrays -/

theorem array_wf {a : ArrayItems HeapValue} (ha : a.Wf) (hitems : ∀ v ∈ a.items, v.Wf ∧ v.Compact)
    (hwrap : a.wrappingValue = block) : (HeapValue.mk block none (.array array a)).Wf :=
  HeapValue.wf_array.2 ⟨⟨hwrap, ha⟩, fun v hv => (hitems v hv).1⟩

theorem array_abs {a : ArrayItems HeapValue} :
    (HeapValue.mk block none (.array array a)).abs = .array (a.items.map HeapValue.abs) := by
  rw [HeapValue.abs, JsonData.abs, itemsAbs_eq]

/-- The array is trimmed at the end. -/
theorem trim_owned {a : ArrayItems HeapValue} (ha : a.Wf)
    (hitems : ∀ v ∈ a.items, v.Wf ∧ v.Compact) (hwrap : a.wrappingValue = block) (hne : a.items ≠ []) {rest : Bytes} :
    Owned (HeapValue.mk block none (.array array a)).blocks (do
      match ← jsonArrayResize a a.items.length with
      | (a, false) => do
        jsonValueFree (.mk block none (.array array a))
        return none
      | (a, true) => return some (.mk block none (.array array a), rest))
      (Parsed (some (.array (a.items.map HeapValue.abs), rest))) := by
  rw [blocks_array, cons_cons_eq_add]
  have hresize := jsonArrayResize_owned ha a.items.length (List.length_pos_iff.2 hne) le_rfl
  refine (hresize.frame (block ::ₘ array ::ₘ 0)).bind fun r own bad hr => ?_
  obtain ⟨own, rfl, hr⟩ := hr
  cases hr with
  | failed =>
    rw [← cons_cons_eq_add, ← blocks_array]
    exact free_fail (array_wf ha hitems hwrap) (.inl rfl)
  | @done b hwf =>
    have hv : (HeapValue.mk block none (.array array
        { a with itemsBlock := some b, capacity := a.items.length })).Wf :=
      array_wf hwf hitems hwrap
    have hdone := Parsed.done hv (.array fun v hv => (hitems v hv).2) rfl
      (congrArg some (congrArg (·, rest) array_abs.symm))
    rw [blocks_array, cons_cons_eq_add] at hdone
    exact .pure hdone

theorem parseArrayLoop_owned (hp : Refines pv f) (hf : Shortens f) {fuel : ℕ}
    {a : ArrayItems HeapValue} {s : Bytes} (ha : a.Wf) (hitems : ∀ v ∈ a.items, v.Wf ∧ v.Compact)
    (hwrap : a.wrappingValue = block) (hfuel : s.length < fuel) :
    Owned (HeapValue.mk block none (.array array a)).blocks (parseArrayLoop pv block array fuel a s)
      (Parsed (Slirp4netns.parseArrayLoop f fuel (a.items.map HeapValue.abs) s)) := by
  induction fuel generalizing a s with
  | zero => omega
  | succ fuel ih =>
    rw [parseArrayLoop, Slirp4netns.parseArrayLoop]
    have hitem := (hp s).frame (HeapValue.mk block none (.array array a)).blocks
    refine Owned.bind (hitem.of_eq (zero_add _).symm) fun r own bad hr => ?_
    obtain ⟨own, rfl, hr⟩ := hr
    cases hr with
    | failed why =>
      rw [zero_add]
      refine free_fail (array_wf ha hitems hwrap) (why.imp_right fun h => ?_)
      rw [h]
      rfl
    | @done v rest hv hcompact hparent h =>
      rw [blocks_array, cons_cons_eq_add, ← add_assoc]
      refine ((jsonArrayAdd_owned ha).frame (block ::ₘ array ::ₘ 0)).bind fun r own bad hr => ?_
      obtain ⟨own, rfl, hr⟩ := hr
      cases hr with
      | failed =>
        rw [add_assoc, ← cons_cons_eq_add, ← blocks_array]
        exact then_fail (array_wf ha hitems hwrap) (jsonValueFree_frees v hv.allocated) (.inl rfl)
      | @done a' ha' =>
        have hitems' : ∀ w ∈ a'.items, w.Wf ∧ w.Compact := by
          rw [ha'.items]
          intro w hw
          rcases List.mem_append.1 hw with hw | hw
          · exact hitems w hw
          · rw [List.mem_singleton.1 hw]
            exact ⟨hv.setParent _, hcompact.setParent _⟩
        have hwrap' := ha'.wrappingValue.trans hwrap
        have habs : a'.items.map HeapValue.abs = a.items.map HeapValue.abs ++ [v.abs] := by
          rw [ha'.items, List.map_append, List.map_singleton, HeapValue.setParent_abs]
        rw [← cons_cons_eq_add, ← blocks_array, h]
        simp only [bind, Option.bind_some, ← habs]
        cases hafter : afterItem 93 rest with
        | none => exact free_fail (array_wf ha'.wf hitems' hwrap') (.inr rfl)
        | some r =>
          obtain ⟨next, rest'⟩ := r
          cases next with
          | none =>
            have hne : a'.items ≠ [] := by
              rw [ha'.items]
              simp
            exact trim_owned ha'.wf hitems' hwrap' hne
          | some s' =>
            have hlen := (afterItem_length hafter).2 s' rfl
            have hlen' := hf _ _ _ h
            exact ih ha'.wf hitems' hwrap' (by omega)

theorem parseArrayValue_refines (hp : Refines pv f) (hf : Shortens f) :
    Refines (parseArrayValue pv) (Slirp4netns.parseArrayValue f) := by
  intro s
  refine jsonValueInitArray_makes.bind fun r own bad hr => ?_
  rcases hr with ⟨rfl, rfl, rfl⟩ | ⟨w, rfl, rfl, rfl, hw, hparent, habs⟩
  · exact .pure (.failed (.inl rfl))
  · obtain ⟨b, p, data⟩ := w
    obtain rfl : p = none := hparent
    rw [HeapValue.abs] at habs
    cases data with
    | array array a =>
      rw [JsonData.abs, itemsAbs_eq] at habs
      have hempty : a.items.map HeapValue.abs = [] := JsonValue.array.inj habs
      obtain ⟨⟨hwrap, ha⟩, -⟩ := HeapValue.wf_array.1 hw
      have hitems : ∀ v ∈ a.items, v.Wf ∧ v.Compact := by
        rw [List.map_eq_nil_iff.1 hempty]
        exact fun v hv => absurd hv List.not_mem_nil
      rw [Slirp4netns.parseArrayValue]
      cases skipWhitespaces s with
      | nil => exact free_fail hw (.inr rfl)
      | cons c s =>
        simp only
        split_ifs
        · refine .pure (.done hw (.array fun v hv => (hitems v hv).2) rfl ?_)
          rw [array_abs, hempty]
        · rw [← hempty]
          exact parseArrayLoop_owned hp hf ha hitems hwrap (by simp)
    | _ => cases habs

/-! ### Objects -/

theorem object_wf {t : ObjectTable HeapValue} (ht : t.Whole) (hwrap : t.wrappingValue = block) :
    (HeapValue.mk block none (.object object t)).Wf :=
  HeapValue.wf_object.2 ⟨⟨hwrap, ht.wf⟩, ht.slots⟩

theorem object_abs {t : ObjectTable HeapValue} :
    (HeapValue.mk block none (.object object t)).abs = .object t.members := by
  rw [HeapValue.abs, JsonData.abs, ObjectTable.members]

theorem jsonObjectAdd_members {t t' : ObjectTable HeapValue} {name : Bytes} {key : ℕ} {v : HeapValue}
    (h : t.Extended name key v t') (habsent : ∀ s ∈ t.slots, s.name ≠ name) :
    Slirp4netns.jsonObjectAdd t.members name v.abs = some t'.members := by
  rw [Slirp4netns.jsonObjectAdd, ObjectTable.lookup_members_eq_none habsent, if_neg (by simp),
    h.members_eq]

theorem jsonObjectAdd_present {t : ObjectTable HeapValue} {name : Bytes} (ht : t.Wf)
    (h : ∃ s ∈ t.slots, s.name = name) (v : JsonValue) :
    Slirp4netns.jsonObjectAdd t.members name v = none := by
  obtain ⟨s, hs, rfl⟩ := h
  obtain ⟨ix, hix⟩ := List.getElem?_of_mem hs
  rw [Slirp4netns.jsonObjectAdd, ObjectTable.lookup_members_eq_some ht hix,
    if_pos Option.isSome_some]

theorem parseObjectLoop_owned (hp : Refines pv f) (hf : Shortens f) {fuel : ℕ}
    {t : ObjectTable HeapValue} {s : Bytes} (ht : t.Whole) (hc : t.Compact)
    (hwrap : t.wrappingValue = block) (hfuel : s.length < fuel) :
    Owned (HeapValue.mk block none (.object object t)).blocks
      (parseObjectLoop pv block object fuel t s)
      (Parsed (Slirp4netns.parseObjectLoop f fuel t.members s)) := by
  induction fuel generalizing t s with
  | zero => omega
  | succ fuel ih =>
    rw [parseObjectLoop, Slirp4netns.parseObjectLoop]
    have hv : (HeapValue.mk block none (.object object t)).Wf := object_wf ht hwrap
    have hkey := (getQuotedString_owned s).frame (HeapValue.mk block none (.object object t)).blocks
    refine Owned.bind (hkey.of_eq (zero_add _).symm) fun r own bad hr => ?_
    obtain ⟨own, rfl, hr⟩ := hr
    cases hr with
    | failed why =>
      rw [zero_add]
      refine free_fail hv (why.imp_right fun h => ?_)
      rw [h]
      rfl
    | @done key name s₁ hname =>
      rw [hname]
      simp only [bind, Option.bind_some]
      split_ifs with hnul
      · exact then_fail hv (.free key) (.inr rfl)
      cases hcolon : expect 58 (skipWhitespaces s₁) with
      | none => exact then_fail hv (.free key) (.inr rfl)
      | some s₂ =>
        have hitem := (hp s₂).frame ({key} + (HeapValue.mk block none (.object object t)).blocks)
        refine Owned.bind (hitem.of_eq (zero_add _).symm) fun r own bad hr => ?_
        obtain ⟨own, rfl, hr⟩ := hr
        cases hr with
        | failed why =>
          rw [zero_add]
          refine then_fail hv (.free key) (why.imp_right fun h => ?_)
          rw [Option.bind_some, h]
          rfl
        | @done w s₃ hw hcompact hparent h =>
          have hblocks : w.blocks + ({key} + (HeapValue.mk block none (.object object t)).blocks) =
              key ::ₘ (w.blocks + t.blocks) + (block ::ₘ object ::ₘ 0) := by
            rw [blocks_object, cons_cons_eq_add, ← Multiset.singleton_add key]
            ac_rfl
          rw [hblocks]
          have hadd : Owned (key ::ₘ (w.blocks + t.blocks)) (jsonObjectAdd t name key w)
              (t.Added name key w) := ObjectTable.jsonObjectAdd_owned ht.wf
          refine (hadd.frame (block ::ₘ object ::ₘ 0)).bind fun r own bad hr => ?_
          obtain ⟨own, rfl, hr⟩ := hr
          rw [Option.bind_some, h, Option.bind_some]
          cases hr with
          | failed why =>
            have hwhy := why.imp_right fun h => jsonObjectAdd_present ht.wf h w.abs
            refine Owned.of_eq ((Frees.free key).then_owned fun _ =>
              then_fail hv (jsonValueFree_frees w hw.allocated) (hwhy.imp_right fun h => ?_)) ?_
            · simp only [h, Option.bind_none]
            · rw [← hblocks]
              ac_rfl
          | @done t' ht' habsent =>
            have hwhole := ht.extended hw ht'
            have hc' := hc.extended hcompact ht'
            have hwrap' := ht'.wrappingValue.trans hwrap
            have hv' : (HeapValue.mk block none (.object object t')).Wf := object_wf hwhole hwrap'
            rw [← cons_cons_eq_add, ← blocks_object block none object]
            simp only [jsonObjectAdd_members ht' habsent, Option.bind_some]
            cases hafter : afterItem 125 s₃ with
            | none => exact free_fail hv' (.inr rfl)
            | some r =>
              obtain ⟨next, s₄⟩ := r
              cases next with
              | none =>
                exact .pure (.done hv' (.object hc') rfl (by rw [object_abs]; rfl))
              | some s' =>
                have h₁ := getQuotedString_length hname
                have h₂ := (afterItem_length hafter).2 s' rfl
                have h₃ := hf _ _ _ h
                have h₄ := skipWhitespaces_length s₁
                rw [expect_eq_some.1 hcolon, List.length_cons] at h₄
                exact ih hwhole hc' hwrap' (by omega)

theorem parseObjectValue_refines (hp : Refines pv f) (hf : Shortens f) :
    Refines (parseObjectValue pv) (Slirp4netns.parseObjectValue f) := by
  intro s
  refine jsonValueInitObject_owned.bind fun r own bad hr => ?_
  rcases hr with ⟨rfl, rfl, rfl⟩ | ⟨b, o, rfl, rfl, rfl⟩
  · exact .pure (.failed (.inl rfl))
  · have ht := emptyObject_whole b
    have hc : (⟨b, none, [], [], 0⟩ : ObjectTable HeapValue).Compact :=
      ⟨Nat.zero_le _, fun _ he => absurd he List.not_mem_nil⟩
    have hw : (emptyObject b o).Wf := object_wf ht rfl
    rw [Slirp4netns.parseObjectValue, ← emptyObject_blocks]
    simp only [emptyObject]
    cases skipWhitespaces s with
    | nil => exact free_fail hw (.inr rfl)
    | cons c s =>
      simp only
      split_ifs
      · exact .pure (.done hw (.object hc) rfl (by rw [object_abs]; rfl))
      · exact parseObjectLoop_owned hp hf ht hc rfl (by simp)

end

/-- Every level of nesting parses in memory what it parses on values. -/
theorem parseValue_refines (C : Libc) (levels : ℕ) :
    Refines (parseValue C levels) (Slirp4netns.parseValue C levels) := by
  induction levels with
  | zero => exact fun s => .pure (.failed (.inr rfl))
  | succ levels ih =>
    intro s
    rw [parseValue, Slirp4netns.parseValue]
    cases skipWhitespaces s with
    | nil => exact .pure (.failed (.inr rfl))
    | cons c s =>
      simp only
      split_ifs
      · exact parseObjectValue_refines ih (parseValue_length C levels) s
      · exact parseArrayValue_refines ih (parseValue_length C levels) s
      · exact parseStringValue_refines (c :: s)
      · exact parseBooleanValue_refines (c :: s)
      · exact parseNumberValue_refines C (c :: s)
      · exact parseNullValue_refines (c :: s)
      · exact .pure (.failed (.inr rfl))

theorem jsonParseString_owned (C : Libc) (mem : Bytes) :
    Owned 0 (jsonParseString C mem) fun r own bad =>
      (r = none ∧ own = 0 ∧ (bad = true ∨ Slirp4netns.jsonParseString C mem = none)) ∨
      ∃ v, r = some v ∧ own = v.blocks ∧ bad = false ∧ v.Wf ∧ v.Compact ∧
        Slirp4netns.jsonParseString C mem = some v.abs := by
  refine (parseValue_refines C (maxNesting + 1) _).bind fun r own bad hr => ?_
  rw [Slirp4netns.jsonParseString]
  cases hr with
  | failed why =>
    refine .pure (.inl ⟨rfl, rfl, why.imp (fun h => by rw [h, Bool.true_or]) fun h => ?_⟩)
    rw [h, Option.map_none]
  | @done v rest hv hcompact _ h =>
    refine .pure (.inr ⟨v, rfl, rfl, rfl, hv, hcompact, ?_⟩)
    rw [h, Option.map_some]

/-- **`json_parse_string` in memory is `json_parse_string` on values.**  For every text and every
    heap it returns.  `NULL` leaves the memory as it was, and is returned for a text that is not
    accepted, or for want of memory; a value has just the blocks that are new.

    The tables of its objects have three cells for each member at most, or 16: with fewer than 2³⁰
    members no `unsigned int` that counts them wraps around, as the natural numbers here assume. -/
theorem jsonParseString_refines (C : Libc) (mem : Bytes) (h : Heap) : ∃ r bad,
    ((jsonParseString C mem).run h).out = .ret r ∧
    ((jsonParseString C mem).run h).st.failed = (h.failed || bad) ∧
    (r = none → ((jsonParseString C mem).run h).st.live = h.live ∧
      (bad = true ∨ Slirp4netns.jsonParseString C mem = none)) ∧
    ∀ v, r = some v → bad = false ∧ v.Wf ∧ v.Compact ∧
      Slirp4netns.jsonParseString C mem = some v.abs ∧
      ((jsonParseString C mem).run h).st.live = v.blocks + h.live := by
  obtain ⟨r, own, bad, hout, hr, hlive, hfailed⟩ :=
    jsonParseString_owned C mem h h.live (zero_add _).symm
  refine ⟨r, bad, hout, hfailed, ?_⟩
  rcases hr with ⟨rfl, rfl, hwhy⟩ | ⟨v, rfl, rfl, rfl, hv, hcompact, habs⟩
  · exact ⟨fun _ => ⟨hlive.trans (zero_add _), hwhy⟩, fun v hv => by cases hv⟩
  · refine ⟨fun hnone => (Option.some_ne_none _ hnone).elim, fun w hw => ?_⟩
    obtain rfl := Option.some.inj hw
    exact ⟨rfl, hv, hcompact, habs, hlive⟩

end Slirp4netns.Parson
