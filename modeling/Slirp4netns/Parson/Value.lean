/-
  slirp4netns formalization — JSON values of the vendored parson library: the
  lookups that the API handlers make, and the operations that build a value.

  An object is the list of its members in the order of insertion.  A lookup of
  a member that is missing or of another type gives `NULL` (here `none`) for an
  object or a string, and `0` for a number.  A string is kept with its length,
  so it may hold a NUL byte; what `json_object_get_string` hands out is a C
  string and ends there.
-/
import Slirp4netns.Libc

namespace Slirp4netns

/-- `JSON_Value`; a number is the double it holds. -/
inductive JsonValue where
  | null
  | boolean (b : Bool)
  | number (d : Double)
  | string (chars : Bytes)
  | array (items : List JsonValue)
  | object (members : List (Bytes × JsonValue))

/-- `JSON_Object`, the members in the order of insertion. -/
abbrev JsonObject := List (Bytes × JsonValue)

/-! ## Decidable equality -/

mutual

/-- Whether two values are equal. -/
def JsonValue.decEq : (a b : JsonValue) → Decidable (a = b)
  | .null, .null => isTrue rfl
  | .boolean a, .boolean b => decidable_of_iff (a = b) (by simp)
  | .number a, .number b => decidable_of_iff (a = b) (by simp)
  | .string a, .string b => decidable_of_iff (a = b) (by simp)
  | .array a, .array b => match itemsDecEq a b with
    | isTrue h => isTrue (by rw [h])
    | isFalse h => isFalse (by simpa using h)
  | .object a, .object b => match membersDecEq a b with
    | isTrue h => isTrue (by rw [h])
    | isFalse h => isFalse (by simpa using h)
  | .null, .boolean _ | .null, .number _ | .null, .string _ | .null, .array _ | .null, .object _
  | .boolean _, .null | .boolean _, .number _ | .boolean _, .string _ | .boolean _, .array _
  | .boolean _, .object _ | .number _, .null | .number _, .boolean _ | .number _, .string _
  | .number _, .array _ | .number _, .object _ | .string _, .null | .string _, .boolean _
  | .string _, .number _ | .string _, .array _ | .string _, .object _ | .array _, .null
  | .array _, .boolean _ | .array _, .number _ | .array _, .string _ | .array _, .object _
  | .object _, .null | .object _, .boolean _ | .object _, .number _ | .object _, .string _
  | .object _, .array _ => isFalse (by simp)

/-- Whether the items of two arrays are equal. -/
def itemsDecEq : (a b : List JsonValue) → Decidable (a = b)
  | [], [] => isTrue rfl
  | [], _ :: _ => isFalse (by simp)
  | _ :: _, [] => isFalse (by simp)
  | x :: a, y :: b => match x.decEq y, itemsDecEq a b with
    | isTrue h, isTrue h' => isTrue (by rw [h, h'])
    | isFalse h, _ => isFalse (by simp [h])
    | _, isFalse h => isFalse (by simp [h])

/-- Whether the members of two objects are equal, in their order. -/
def membersDecEq : (a b : JsonObject) → Decidable (a = b)
  | [], [] => isTrue rfl
  | [], _ :: _ => isFalse (by simp)
  | _ :: _, [] => isFalse (by simp)
  | (k, x) :: a, (l, y) :: b => match decEq k l, x.decEq y, membersDecEq a b with
    | isTrue h, isTrue h', isTrue h'' => isTrue (by rw [h, h', h''])
    | isFalse h, _, _ => isFalse (by simp [h])
    | _, isFalse h, _ => isFalse (by simp [h])
    | _, _, isFalse h => isFalse (by simp [h])

end

instance : DecidableEq JsonValue := JsonValue.decEq

/-! ## Lookups -/

/-- `json_value_get_object`: `NULL` for a value that is none. -/
def jsonValueGetObject : Option JsonValue → Option JsonObject
  | some (.object o) => some o
  | _ => none

/-- `json_value_get_string`: `NULL` for a value that is none. -/
def jsonValueGetString : Option JsonValue → Option Bytes
  | some (.string chars) => some (cstr chars)
  | _ => none

/-- `json_value_get_number`: 0 for a value that is none. -/
def jsonValueGetNumber : Option JsonValue → Double
  | some (.number d) => d
  | _ => 0

/-- `json_object_getn_value`: `NULL` if there is no such member. -/
def jsonObjectGetnValue (object : Option JsonObject) (name : Bytes) : Option JsonValue :=
  object.bind (·.lookup name)

/-- `json_object_get_string` -/
def jsonObjectGetString (object : JsonObject) (name : Bytes) : Option Bytes :=
  jsonValueGetString (jsonObjectGetnValue (some object) name)

/-- `json_object_dotget_value`, with the part of the name before the next dot
    accumulated in `pre`, last byte first. -/
def dotgetFrom (object : Option JsonObject) (pre : Bytes) : Bytes → Option JsonValue
  | [] => jsonObjectGetnValue object pre.reverse
  | c :: name =>
    if c = 46 then
      dotgetFrom (jsonValueGetObject (jsonObjectGetnValue object pre.reverse)) [] name
    else dotgetFrom object (c :: pre) name

/-- `json_object_dotget_value`: a member of a member, and so on, by a path with dots. -/
def jsonObjectDotgetValue (object : JsonObject) (name : Bytes) : Option JsonValue :=
  dotgetFrom (some object) [] name

/-- `json_object_dotget_string` -/
def jsonObjectDotgetString (object : JsonObject) (name : Bytes) : Option Bytes :=
  jsonValueGetString (jsonObjectDotgetValue object name)

/-- `json_object_dotget_number` -/
def jsonObjectDotgetNumber (object : JsonObject) (name : Bytes) : Double :=
  jsonValueGetNumber (jsonObjectDotgetValue object name)

theorem dotgetFrom_append {object : Option JsonObject} {pre a name : Bytes}
    (h : (46 : UInt8) ∉ a) :
    dotgetFrom object pre (a ++ name) = dotgetFrom object (a.reverse ++ pre) name := by
  induction a generalizing pre with
  | nil => rfl
  | cons c a ih =>
    simp only [List.mem_cons, not_or] at h
    rw [List.cons_append, dotgetFrom, if_neg (Ne.symm h.1), ih h.2]
    simp

/-- A name with one dot is looked up in two steps. -/
theorem jsonObjectDotgetValue_dot (object : JsonObject) {a b : Bytes} (ha : (46 : UInt8) ∉ a)
    (hb : (46 : UInt8) ∉ b) :
    jsonObjectDotgetValue object (a ++ 46 :: b) =
      jsonObjectGetnValue (jsonValueGetObject (object.lookup a)) b := by
  have hrest (o : Option JsonObject) : dotgetFrom o [] b = jsonObjectGetnValue o b := by
    have : dotgetFrom o [] (b ++ []) = dotgetFrom o (b.reverse ++ []) [] := dotgetFrom_append hb
    simpa [dotgetFrom] using this
  rw [jsonObjectDotgetValue, dotgetFrom_append ha, dotgetFrom, if_pos rfl, hrest]
  simp [jsonObjectGetnValue]

/-- A member other than the first. -/
theorem lookup_cons_of_ne {k name : Bytes} (h : name ≠ k) (v : JsonValue) (o : JsonObject) :
    List.lookup name ((k, v) :: o) = List.lookup name o := by
  rw [List.lookup_cons, beq_eq_false_iff_ne.2 h]

/-- Looking up a literal name among literal names. -/
theorem lookup_bytes (name k : String) (v : JsonValue) (o : JsonObject) :
    List.lookup (bytes name) ((bytes k, v) :: o) =
      if name = k then some v else List.lookup (bytes name) o := by
  split
  · next h => rw [h, List.lookup_cons, beq_self_eq_true]
  · next h => exact lookup_cons_of_ne (fun hb => h (bytes_injective hb)) v o

/-! ## UTF-8 -/

/-- `IS_CONT`: a continuation byte. -/
def isCont (c : UInt8) : Bool := c &&& 0xC0 == 0x80

/-- The length of a sequence that starts with this byte, 0 if none does. -/
def numBytesInUtf8Sequence (c : UInt8) : ℕ :=
  if c == 0xC0 || c == 0xC1 || c > 0xF4 || isCont c then 0
  else if c &&& 0x80 == 0 then 1
  else if c &&& 0xE0 == 0xC0 then 2
  else if c &&& 0xF0 == 0xE0 then 3
  else if c &&& 0xF8 == 0xF0 then 4
  else 0

/-- The code point of a sequence of `len` bytes at the start of the memory `mem`, if the bytes
    after the first continue it. -/
def utf8CodePoint (mem : Bytes) (len : ℕ) : Option ℕ :=
  let b (i : ℕ) : UInt8 := mem.getD i 0
  let bits (i : ℕ) : ℕ := (b i &&& 0x3F).toNat
  if len = 1 then some (b 0).toNat
  else if len = 2 ∧ isCont (b 1) then some ((b 0 &&& 0x1F).toNat <<< 6 ||| bits 1)
  else if len = 3 ∧ isCont (b 1) ∧ isCont (b 2) then
    some (((b 0 &&& 0xF).toNat <<< 6 ||| bits 1) <<< 6 ||| bits 2)
  else if len = 4 ∧ isCont (b 1) ∧ isCont (b 2) ∧ isCont (b 3) then
    some ((((b 0 &&& 0x7).toNat <<< 6 ||| bits 1) <<< 6 ||| bits 2) <<< 6 ||| bits 3)
  else none

/-- `verify_utf8_sequence`: the length of the UTF-8 sequence at the start of the memory `mem`, if
    it is a valid one. -/
def verifyUtf8Sequence (mem : Bytes) : Option ℕ :=
  let len := numBytesInUtf8Sequence (mem.getD 0 0)
  match utf8CodePoint mem len with
  | none => none
  | some cp =>
    if (cp < 0x80 ∧ len > 1) ∨ (cp < 0x800 ∧ len > 2) ∨ (cp < 0x10000 ∧ len > 3) then none
    else if cp > 0x10FFFF then none
    else if 0xD800 ≤ cp ∧ cp ≤ 0xDFFF then none
    else some len

/-- The loop of `is_valid_utf8`, with `left` bytes to go up to `string_end` (none, if a sequence has
    gone beyond it).  Every round takes at least one byte, so that the length is enough fuel. -/
def isValidUtf8Loop : ℕ → Bytes → ℕ → Bool
  | _, _, 0 => true
  | 0, _, _ + 1 => false
  | fuel + 1, mem, left + 1 => match verifyUtf8Sequence mem with
    | some len => isValidUtf8Loop fuel (mem.drop len) (left + 1 - len)
    | none => false

/-- `is_valid_utf8`, of `stringLen` bytes; `mem` is the memory from the string on, with what is
    behind it (behind the end of the list, zeros). -/
def isValidUtf8 (mem : Bytes) (stringLen : ℕ) : Bool := isValidUtf8Loop stringLen mem stringLen

theorem numBytesInUtf8Sequence_ascii {c : UInt8} (h : c.toNat < 128) :
    numBytesInUtf8Sequence c = 1 := by
  have key : ∀ c : UInt8, c.toNat < 128 → numBytesInUtf8Sequence c = 1 :=
    forall_byte (by decide +kernel)
  exact key c h

theorem verifyUtf8Sequence_ascii {c : UInt8} {s : Bytes} (h : c.toNat < 128) :
    verifyUtf8Sequence (c :: s) = some 1 := by
  simp only [verifyUtf8Sequence, List.getD_cons_zero, numBytesInUtf8Sequence_ascii h,
    utf8CodePoint, if_true]
  rw [if_neg (by omega), if_neg (by omega), if_neg (by omega)]

/-- A text of ASCII characters is valid UTF-8. -/
theorem isValidUtf8_ascii {s : Bytes} (h : ∀ c ∈ s, c.toNat < 128) (behind : Bytes) :
    isValidUtf8 (s ++ behind) s.length = true := by
  unfold isValidUtf8
  induction s with
  | nil => rfl
  | cons c s ih =>
    simp only [List.length_cons, List.cons_append, isValidUtf8Loop,
      verifyUtf8Sequence_ascii (h c (List.mem_cons_self ..)), List.drop_succ_cons, List.drop_zero,
      Nat.add_sub_cancel]
    exact ih fun d hd => h d (List.mem_cons_of_mem _ hd)

/-! ## Building values -/

/-- `json_value_init_string_with_len`, of the first `length` bytes of the memory `mem`. -/
def jsonValueInitStringWithLen (mem : Bytes) (length : ℕ) : Option JsonValue :=
  if isValidUtf8 mem length then some (.string (mem.take length)) else none

/-- `json_value_init_string` on a C string. -/
def jsonValueInitString (s : Bytes) : Option JsonValue :=
  jsonValueInitStringWithLen (s ++ [0]) s.length

theorem jsonValueInitString_eq (s : Bytes) : jsonValueInitString s =
    if isValidUtf8 (s ++ [0]) s.length then some (.string s) else none := by
  rw [jsonValueInitString, jsonValueInitStringWithLen, List.take_left]

/-- `json_object_set_value`: replace the value of a member or append a new one;
    nothing happens if the value is `NULL`. -/
def jsonObjectSetValue (object : JsonObject) (name : Bytes) : Option JsonValue → JsonObject
  | none => object
  | some v =>
    if (object.lookup name).isSome then object.map fun m => if m.1 = name then (m.1, v) else m
    else object ++ [(name, v)]

/-- `json_object_set_string` -/
def jsonObjectSetString (object : JsonObject) (name s : Bytes) : JsonObject :=
  jsonObjectSetValue object name (jsonValueInitString s)

/-- `json_object_set_number`, for a finite number. -/
def jsonObjectSetNumber (object : JsonObject) (name : Bytes) (d : Double) : JsonObject :=
  jsonObjectSetValue object name (some (.number d))

/-- `json_object_add`: fails on a name that is already there. -/
def jsonObjectAdd (object : JsonObject) (name : Bytes) (v : JsonValue) : Option JsonObject :=
  if (object.lookup name).isSome then none else some (object ++ [(name, v)])

theorem jsonObjectAdd_of_nodup {object rest : JsonObject} {name : Bytes} {v : JsonValue}
    (h : ((object ++ (name, v) :: rest).map Prod.fst).Nodup) :
    jsonObjectAdd object name v = some (object ++ [(name, v)]) := by
  rw [jsonObjectAdd, if_neg]
  simp only [List.map_append, List.map_cons, List.nodup_append] at h
  rw [Bool.not_eq_true, Option.isSome_eq_false_iff, Option.isNone_iff_eq_none,
    List.lookup_eq_none_iff]
  intro m hm
  have := h.2.2 m.1 (List.mem_map_of_mem hm) name (by simp)
  simpa using this.symm

end Slirp4netns
