/-
  slirp4netns formalization — parson's parser.

  A parsing function takes the text from the current position on and gives
  what it read together with the text after it; `none` is parson's `NULL`.
  The text is a C string, so its end plays the part of the terminating NUL.

  `parseValue` recurses on the number of nesting levels still allowed: with
  none left, the source's test `nesting > MAX_NESTING` has succeeded.  The
  loops over members and items carry fuel; every round passes at least one
  byte, so that the length of the text is enough of it (`parseArrayLoop_fuel`,
  `parseObjectLoop_fuel`).

  As in the source, a comma may stand before the closing bracket, what follows
  the value is not looked at, and a `-` that starts no numeral is the number 0
  (`strtod` converts nothing).
-/
import Slirp4netns.Parson.Value

namespace Slirp4netns

/-- `SKIP_WHITESPACES`. -/
def skipWhitespaces (s : Bytes) : Bytes := s.dropWhile isSpace

/-- Pass one given byte. -/
def expect (c : UInt8) : Bytes → Option Bytes
  | [] => none
  | d :: s => if d = c then some s else none

/-! ## Strings -/

/-- The loop of `skip_quotes`: split at the closing quote, passing over the byte
    after each backslash. -/
def skipQuotes : Bytes → Option (Bytes × Bytes)
  | [] => none
  | c :: s =>
    if c = 34 then some ([], s)
    else if c = 92 then
      match s with
      | [] => none
      | e :: s => (skipQuotes s).map fun (t, r) => (c :: e :: t, r)
    else (skipQuotes s).map fun (t, r) => (c :: t, r)

/-- `hex_char_to_int` -/
def hexCharToInt (c : UInt8) : Option ℕ :=
  if 48 ≤ c ∧ c ≤ 57 then some (c.toNat - 48)
  else if 97 ≤ c ∧ c ≤ 102 then some (c.toNat - 97 + 10)
  else if 65 ≤ c ∧ c ≤ 70 then some (c.toNat - 65 + 10)
  else none

/-- `parse_utf16_hex` -/
def parseUtf16Hex (c₁ c₂ c₃ c₄ : UInt8) : Option ℕ := do
  let x₁ ← hexCharToInt c₁
  let x₂ ← hexCharToInt c₂
  let x₃ ← hexCharToInt c₃
  let x₄ ← hexCharToInt c₄
  return x₁ <<< 12 ||| x₂ <<< 8 ||| x₃ <<< 4 ||| x₄

/-- The bytes that `parse_utf16` writes for a code point outside the surrogates. -/
def utf16Bytes (cp : ℕ) : Bytes :=
  if cp < 0x80 then [UInt8.ofNat cp]
  else if cp < 0x800 then
    [UInt8.ofNat (cp >>> 6 &&& 0x1F ||| 0xC0), UInt8.ofNat (cp &&& 0x3F ||| 0x80)]
  else if cp < 0x10000 then
    [UInt8.ofNat (cp >>> 12 &&& 0x0F ||| 0xE0), UInt8.ofNat (cp >>> 6 &&& 0x3F ||| 0x80),
      UInt8.ofNat (cp &&& 0x3F ||| 0x80)]
  else
    [UInt8.ofNat (cp >>> 18 &&& 0x07 ||| 0xF0), UInt8.ofNat (cp >>> 12 &&& 0x3F ||| 0x80),
      UInt8.ofNat (cp >>> 6 &&& 0x3F ||| 0x80), UInt8.ofNat (cp &&& 0x3F ||| 0x80)]

/-- The code point of a pair of surrogates. -/
def surrogatePair (lead trail : ℕ) : ℕ :=
  (((lead - 0xD800) &&& 0x3FF) <<< 10 ||| ((trail - 0xDC00) &&& 0x3FF)) + 0x10000

/-- The byte that a one-letter escape stands for. -/
def simpleEscape (e : UInt8) : Option UInt8 :=
  if e = 34 then some 34          -- \"
  else if e = 92 then some 92     -- \\
  else if e = 47 then some 47     -- \/
  else if e = 98 then some 8      -- \b
  else if e = 102 then some 12    -- \f
  else if e = 110 then some 10    -- \n
  else if e = 114 then some 13    -- \r
  else if e = 116 then some 9     -- \t
  else none

/-- `process_string`: undo the escapes. -/
def processString : Bytes → Option Bytes
  | [] => some []
  | c :: s =>
    if c = 92 then
      match s with
      | [] => none
      | e :: s =>
        if e = 117 then
          match s with
          | c₁ :: c₂ :: c₃ :: c₄ :: s =>
            match parseUtf16Hex c₁ c₂ c₃ c₄ with
            | none => none
            | some cp =>
              if cp < 0xD800 ∨ cp > 0xDFFF then (processString s).map (utf16Bytes cp ++ ·)
              else if cp ≤ 0xDBFF then
                match s with
                | b :: u :: t₁ :: t₂ :: t₃ :: t₄ :: s =>
                  if b = 92 ∧ u = 117 then
                    match parseUtf16Hex t₁ t₂ t₃ t₄ with
                    | none => none
                    | some trail =>
                      if trail < 0xDC00 ∨ trail > 0xDFFF then none
                      else (processString s).map (utf16Bytes (surrogatePair cp trail) ++ ·)
                  else none
                | _ => none
              else none
          | _ => none
        else
          match simpleEscape e with
          | none => none
          | some b => (processString s).map (b :: ·)
    else if c < 0x20 then none
    else (processString s).map (c :: ·)

/-- `get_quoted_string` -/
def getQuotedString (s : Bytes) : Option (Bytes × Bytes) := do
  let s ← expect 34 s
  let (t, r) ← skipQuotes s
  let str ← processString t
  return (str, r)

/-! ## Numbers -/

/-- What `strtod` finds at the start of a text that begins with a digit or `-`.
    The values and the ends of the last three kinds are not needed: parson
    refuses them whatever they are. -/
inductive Strtod where
  /-- `± mantissa * 10 ^ scale`, and the text after the numeral -/
  | decimal (negative : Bool) (mantissa : ℕ) (scale : ℤ) (rest : Bytes)
  /-- nothing converted: the value 0, and the text unchanged -/
  | noConversion
  | hexadecimal
  | infinity
  | nan

/-- `isxdigit` -/
def isHexDigit (c : UInt8) : Bool := (hexCharToInt c).isSome

/-- `0x` followed by a hexadecimal digit, with or without a point before it. -/
def startsHexadecimal : Bytes → Bool
  | z :: x :: c :: s =>
    z == 48 && (x == 120 || x == 88) && (isHexDigit c || (c == 46 && (s.head?.any isHexDigit)))
  | _ => false

/-- `tolower` -/
def toLower (c : UInt8) : UInt8 := if 65 ≤ c ∧ c ≤ 90 then c + 32 else c

/-- The exponent part of a decimal numeral: without a digit it is not one. -/
def strtodExponent : Bytes → ℤ × Bytes
  | [] => (0, [])
  | c :: s =>
    if c = 101 ∨ c = 69 then
      let (neg, t) : Bool × Bytes := match s with
        | [] => (false, [])
        | d :: t => if d = 45 then (true, t) else if d = 43 then (false, t) else (false, d :: t)
      if t.takeWhile isDigit = [] then (0, c :: s)
      else
        let e : ℤ := readDecimal (t.takeWhile isDigit)
        (if neg then -e else e, t.dropWhile isDigit)
    else (0, c :: s)

/-- The digits after a decimal point, if there is one, and what follows. -/
def strtodFraction : Bytes → Bytes × Bytes
  | [] => ([], [])
  | c :: s => if c = 46 then (s.takeWhile isDigit, s.dropWhile isDigit) else ([], c :: s)

/-- `strtod` after the sign. -/
def strtodUnsigned (negative : Bool) (s : Bytes) : Strtod :=
  if startsHexadecimal s then .hexadecimal
  else if (s.take 3).map toLower = bytes "inf" then .infinity
  else if (s.take 3).map toLower = bytes "nan" then .nan
  else
    let ip := s.takeWhile isDigit
    let fp := (strtodFraction (s.dropWhile isDigit)).1
    let e := strtodExponent (strtodFraction (s.dropWhile isDigit)).2
    if ip = [] ∧ fp = [] then .noConversion
    else .decimal negative (readDecimal (ip ++ fp)) (e.1 - fp.length) e.2

/-- `strtod` -/
def strtod : Bytes → Strtod
  | [] => .noConversion
  | c :: s => if c = 45 then strtodUnsigned true s else strtodUnsigned false (c :: s)

/-- The value of `± mantissa * 10 ^ scale`. -/
def decimalValue (negative : Bool) (mantissa : ℕ) (scale : ℤ) : ℚ :=
  let m : ℚ := if negative then -(mantissa : ℚ) else mantissa
  match scale with
  | .ofNat k => m * 10 ^ k
  | .negSucc k => m / 10 ^ (k + 1)

/-- `is_decimal`: no superfluous leading zero, no `x`. -/
def isDecimal (text : Bytes) : Bool :=
  if text.length > 1 ∧ text.head? = some 48 ∧ text[1]? ≠ some 46 then false
  else if text.length > 2 ∧ text.take 2 = [45, 48] ∧ text[2]? ≠ some 46 then false
  else !text.any fun c => c == 120 || c == 88

/-- `parse_number_value` -/
def parseNumberValue (C : Libc) (s : Bytes) : Option (JsonValue × Bytes) :=
  match strtod s with
  | .decimal negative m e rest =>
    match C.strtodRound negative (decimalValue negative m e) with
    | none => none
    | some d =>
      if isDecimal (s.take (s.length - rest.length)) then some (.number d, rest) else none
  | .noConversion => some (.number 0, s)
  -- the text has an `x`
  | .hexadecimal => none
  -- refused by `json_value_init_number`
  | .infinity => none
  | .nan => none

/-! ## Values -/

/-- `parse_string_value` -/
def parseStringValue (s : Bytes) : Option (JsonValue × Bytes) := do
  let (str, r) ← getQuotedString s
  return (.string str, r)

/-- `parse_boolean_value` -/
def parseBooleanValue (s : Bytes) : Option (JsonValue × Bytes) :=
  if s.take 4 = bytes "true" then some (.boolean true, s.drop 4)
  else if s.take 5 = bytes "false" then some (.boolean false, s.drop 5)
  else none

/-- `parse_null_value` -/
def parseNullValue (s : Bytes) : Option (JsonValue × Bytes) :=
  if s.take 4 = bytes "null" then some (.null, s.drop 4) else none

section
variable (pv : Bytes → Option (JsonValue × Bytes))

/-- What follows a member or an item: the closing bracket, after an optional
    comma, or a comma and the text of the next one (`some`). -/
def afterItem (close : UInt8) (s : Bytes) : Option (Option Bytes × Bytes) :=
  match skipWhitespaces s with
  | [] => none
  | c :: s =>
    if c = 44 then
      match skipWhitespaces s with
      | [] => none
      | d :: s => if d = close then some (none, s) else some (some (d :: s), s)
    else if c = close then some (none, s)
    else none

/-- The loop of `parse_object_value`, values being read by `pv`. -/
def parseObjectLoop : ℕ → JsonObject → Bytes → Option (JsonValue × Bytes)
  | 0, _, _ => none
  | fuel + 1, object, s => do
    let (key, s) ← getQuotedString s
    -- a name with a NUL in it is not supported
    if (0 : UInt8) ∈ key then none
    else
      let s ← expect 58 (skipWhitespaces s)
      let (v, s) ← pv s
      let object ← jsonObjectAdd object key v
      match ← afterItem 125 s with
      | (none, s) => return (.object object, s)
      | (some s, _) => parseObjectLoop fuel object s

/-- `parse_object_value` after the opening brace. -/
def parseObjectValue (s : Bytes) : Option (JsonValue × Bytes) :=
  match skipWhitespaces s with
  | [] => none
  | c :: s =>
    if c = 125 then some (.object [], s)
    else parseObjectLoop pv (s.length + 2) [] (c :: s)

/-- The loop of `parse_array_value`. -/
def parseArrayLoop : ℕ → List JsonValue → Bytes → Option (JsonValue × Bytes)
  | 0, _, _ => none
  | fuel + 1, items, s => do
    let (v, s) ← pv s
    match ← afterItem 93 s with
    | (none, s) => return (.array (items ++ [v]), s)
    | (some s, _) => parseArrayLoop fuel (items ++ [v]) s

/-- `parse_array_value` after the opening bracket. -/
def parseArrayValue (s : Bytes) : Option (JsonValue × Bytes) :=
  match skipWhitespaces s with
  | [] => none
  | c :: s =>
    if c = 93 then some (.array [], s)
    else parseArrayLoop pv (s.length + 2) [] (c :: s)

end

/-- `parse_value`, with `levels` nesting levels left. -/
def parseValue (C : Libc) : ℕ → Bytes → Option (JsonValue × Bytes)
  | 0, _ => none
  | levels + 1, s =>
    match skipWhitespaces s with
    | [] => none
    | c :: s =>
      if c = 123 then parseObjectValue (parseValue C levels) s
      else if c = 91 then parseArrayValue (parseValue C levels) s
      else if c = 34 then parseStringValue (c :: s)
      else if c = 102 ∨ c = 116 then parseBooleanValue (c :: s)
      else if c = 45 ∨ isDigit c then parseNumberValue C (c :: s)
      else if c = 110 then parseNullValue (c :: s)
      else none

/-- `MAX_NESTING` -/
def maxNesting : ℕ := 2048

/-- The text after a UTF-8 byte order mark. -/
def skipBom (s : Bytes) : Bytes := if s.take 3 = [0xEF, 0xBB, 0xBF] then s.drop 3 else s

/-- `json_parse_string` on the C string at the start of `mem`. -/
def jsonParseString (C : Libc) (mem : Bytes) : Option JsonValue :=
  (parseValue C (maxNesting + 1) (skipBom (cstr mem))).map Prod.fst

end Slirp4netns
