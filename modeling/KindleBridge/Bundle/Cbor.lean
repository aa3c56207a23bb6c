import KindleBridge.Foundations.Bytes
import Mathlib.Data.List.Lex
import Mathlib.Data.Prod.Lex
import Mathlib.Data.UInt

/-! # Canonical CBOR

The encoder that bundle metadata is written with, and the scanner that goes over the bytes
before they are decoded. Values have no tags and no floating point numbers, arguments are as
short as they can be, and the entries of a map are ordered by their encoded keys.
-/

namespace KindleBridge.Bundle

inductive ErrorCode
  | io
  | header
  | bounds
  | canonicalCbor
  | schema
  | profilePolicy
  | path
  | tree
  | block
  | signature
  | publisher
  | target
  | activation
  | quota
  | conflict
  | recovery
deriving Repr, DecidableEq

structure Error where
  code : ErrorCode
  message : String
deriving Repr, DecidableEq

namespace Cbor

/-- A CBOR value. The entries of a map are listed in the order in which they are visited. -/
inductive Value
  | null
  | bool (value : Bool)
  | integer (value : ℤ)
  | bytes (bytes : List UInt8)
  | text (text : String)
  | array (items : List Value)
  | map (entries : List (Value × Value))
  | tag (number : ℕ) (value : Value)
  | float (bits : UInt64)

def maxDepth : ℕ := 32

/-! ## The encoder -/

def encodeArgument (major : UInt8) (argument : ℕ) : List UInt8 :=
  let lead := major <<< 5
  if argument ≤ 23 then
    [lead ||| UInt8.ofNat argument]
  else if argument ≤ 0xff then
    (lead ||| 24) :: toBe 1 argument
  else if argument ≤ 0xffff then
    (lead ||| 25) :: toBe 2 argument
  else if argument ≤ 0xffffffff then
    (lead ||| 26) :: toBe 4 argument
  else
    (lead ||| 27) :: toBe 8 argument

def toU64 (error : Error) (value : ℕ) : Except Error ℕ :=
  if value < 2 ^ 64 then .ok value else .error error

def usizeU64 (value : ℕ) : Except Error ℕ :=
  toU64 ⟨.bounds, "length exceeds uint64"⟩ value

/-- Shorter keys come first, keys of one length in the order of their bytes. -/
def keyRank (key : List UInt8) : ℕ ×ₗ List ℕ :=
  toLex (key.length, key.map UInt8.toNat)

def textBytes (text : String) : List UInt8 := text.toByteArray.data.toList

def writeEntries : List (List UInt8 × Except Error (List UInt8)) → Except Error (List UInt8)
  | [] => .ok []
  | (key, value) :: rest => do
    let encoded ← value
    let others ← writeEntries rest
    return key ++ encoded ++ others

mutual

def encodeValue : Value → Except Error (List UInt8)
  | .null => .ok [0xf6]
  | .bool false => .ok [0xf4]
  | .bool true => .ok [0xf5]
  | .integer integer =>
    if 0 ≤ integer then do
      let value ← toU64 ⟨.schema, "CBOR integer exceeds uint64"⟩ integer.toNat
      return encodeArgument 0 value
    else do
      let value ← toU64 ⟨.schema, "CBOR integer is below int64 encoding range"⟩
        (-1 - integer).toNat
      return encodeArgument 1 value
  | .bytes bytes => do
    let length ← usizeU64 bytes.length
    return encodeArgument 2 length ++ bytes
  | .text text => do
    let length ← usizeU64 (textBytes text).length
    return encodeArgument 3 length ++ textBytes text
  | .array items => do
    let length ← usizeU64 items.length
    let encoded ← encodeItems items
    return encodeArgument 4 length ++ encoded
  | .map entries => do
    let keyed ← encodeKeys entries
    let ordered := keyed.insertionSort fun left right => keyRank left.1 ≤ keyRank right.1
    let length ← usizeU64 ordered.length
    let encoded ← writeEntries ordered
    return encodeArgument 5 length ++ encoded
  | .tag _ _ | .float _ =>
    .error ⟨.schema, "tags and floating point values are forbidden by KBB v1"⟩

def encodeItems : List Value → Except Error (List UInt8)
  | [] => .ok []
  | item :: items => do
    let encoded ← encodeValue item
    let others ← encodeItems items
    return encoded ++ others

/-- Every key is encoded before the first value is; the encodings of the values wait. -/
def encodeKeys : List (Value × Value) →
    Except Error (List (List UInt8 × Except Error (List UInt8)))
  | [] => .ok []
  | (key, value) :: entries => do
    let encodedKey ← encodeValue key
    let others ← encodeKeys entries
    return (encodedKey, encodeValue value) :: others

end

/-! ## The scanner -/

/-- The elements between two positions, if the slice has them all. -/
def slice? {α : Type*} (input : List α) (start stop : ℕ) : Option (List α) :=
  if start ≤ stop ∧ stop ≤ input.length then
    some ((input.drop start).take (stop - start))
  else
    none

def readArray (width : ℕ) (input : List UInt8) (offset : ℕ) : Except Error (List UInt8) :=
  match slice? input offset (offset + width) with
  | some bytes => .ok bytes
  | none => .error ⟨.canonicalCbor, "truncated CBOR argument"⟩

/-- An argument of several bytes, which a shorter form must not be able to hold. -/
def readArgument (width shorter : ℕ) (input : List UInt8) (offset : ℕ) :
    Except Error (ℕ × ℕ) := do
  let bytes ← readArray width input offset
  if ofBe bytes ≤ shorter then
    .error ⟨.canonicalCbor, "non-minimal CBOR integer/length encoding"⟩
  else
    return (ofBe bytes, width)

def decodeArgument (input : List UInt8) (offset : ℕ) (additional : UInt8) :
    Except Error (ℕ × ℕ) :=
  if additional.toNat ≤ 23 then
    .ok (additional.toNat, 0)
  else if additional = 24 then
    match input[offset]? with
    | none => .error ⟨.canonicalCbor, "truncated CBOR uint8 argument"⟩
    | some byte =>
      if byte.toNat < 24 then
        .error ⟨.canonicalCbor, "non-minimal CBOR integer/length encoding"⟩
      else
        .ok (byte.toNat, 1)
  else if additional = 25 then
    readArgument 2 0xff input offset
  else if additional = 26 then
    readArgument 4 0xffff input offset
  else if additional = 27 then
    readArgument 8 0xffffffff input offset
  else if additional = 31 then
    .error ⟨.canonicalCbor, "indefinite-length CBOR is forbidden"⟩
  else
    .error ⟨.canonicalCbor, "reserved CBOR additional information"⟩

/-- `std::str::from_utf8` accepts the bytes. -/
def validUtf8 (bytes : List UInt8) : Bool := (ByteArray.mk bytes.toArray).validateUTF8

def checkedAdd (usizeMax : ℕ) (error : Error) (left right : ℕ) : Except Error ℕ :=
  if left + right ≤ usizeMax then .ok (left + right) else .error error

def scanString (usizeMax : ℕ) (input : List UInt8) (isText : Bool) (argument position : ℕ) :
    Except Error ℕ := do
  if usizeMax < argument then
    throw ⟨.bounds, "CBOR string length exceeds usize"⟩
  let stop ← checkedAdd usizeMax ⟨.bounds, "CBOR string end overflow"⟩ position argument
  match slice? input position stop with
  | none => throw ⟨.canonicalCbor, "truncated CBOR string"⟩
  | some bytes =>
    if isText && !validUtf8 bytes then
      throw ⟨.canonicalCbor, "invalid UTF-8 in CBOR text"⟩
    else
      return stop

/-- `for _ in 0..count` around a scan that moves the position on. -/
def repeated (scan : ℕ → Except Error ℕ) : ℕ → ℕ → Except Error ℕ
  | 0, position => .ok position
  | count + 1, position => do
    let next ← scan position
    repeated scan count next

/-- What follows the argument of an item, whose own items are scanned by `scan`. -/
def scanBody (usizeMax : ℕ) (input : List UInt8) (scan : ℕ → Except Error ℕ) (initial : UInt8)
    (argument position : ℕ) : Except Error ℕ :=
  match (initial >>> 5).toNat with
  | 0 | 1 => .ok position
  | 2 => scanString usizeMax input false argument position
  | 3 => scanString usizeMax input true argument position
  | 4 => repeated scan argument position
  | 5 => repeated (fun position => scan position >>= scan) argument position
  | 6 => .error ⟨.canonicalCbor, "CBOR tags are forbidden"⟩
  | _ =>
    if initial = 0xf4 ∨ initial = 0xf5 ∨ initial = 0xf6 then
      .ok position
    else
      .error ⟨.canonicalCbor, "only false, true, and null CBOR simple values are allowed"⟩

/-- One item, of which `levels` levels may be open, this one included. -/
def scanLevels (usizeMax : ℕ) (input : List UInt8) : ℕ → ℕ → Except Error ℕ
  | 0, _ => .error ⟨.canonicalCbor, "CBOR nesting exceeds 32 levels"⟩
  | levels + 1, offset =>
    match input[offset]? with
    | none => .error ⟨.canonicalCbor, "truncated CBOR initial byte"⟩
    | some initial => do
      let (argument, argumentBytes) ← decodeArgument input (offset + 1) (initial &&& 0x1f)
      let position ← checkedAdd usizeMax ⟨.bounds, "CBOR offset overflow"⟩ offset
        (1 + argumentBytes)
      scanBody usizeMax input (scanLevels usizeMax input levels) initial argument position

def scanItem (usizeMax : ℕ) (input : List UInt8) (offset depth : ℕ) : Except Error ℕ :=
  scanLevels usizeMax input (maxDepth - depth) offset

/-! ## Typed values

The derived conversions between a type and CBOR values are given.
-/

section
variable {τ : Type} (toValue : τ → Except String Value)

def toCanonicalVec (value : τ) : Except Error (List UInt8) :=
  match toValue value with
  | .error error => .error ⟨.schema, "cannot convert value to CBOR: " ++ error⟩
  | .ok value => encodeValue value

def fromCanonicalSlice (fromSlice : List UInt8 → Except String τ) (usizeMax : ℕ)
    (bytes : List UInt8) : Except Error τ := do
  let consumed ← scanItem usizeMax bytes 0 0
  if consumed ≠ bytes.length then
    throw ⟨.canonicalCbor, "trailing bytes after the top-level CBOR item"⟩
  match fromSlice bytes with
  | .error error => throw ⟨.schema, "CBOR does not match the expected schema: " ++ error⟩
  | .ok value =>
    let canonical ← toCanonicalVec toValue value
    if canonical ≠ bytes then
      throw ⟨.canonicalCbor,
        "CBOR is not in deterministic encoding or contains duplicate/unknown fields"⟩
    else
      return value

end

end Cbor
end KindleBridge.Bundle
