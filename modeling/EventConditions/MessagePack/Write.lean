import EventConditions.MessagePack.BigEndian
import EventConditions.MessagePack.Packed

/-!
# Writing MessagePack

Every value is written in the shortest form that its kind has for it. This is what the external
serializer writes by its documentation; writing a value is its work, and stands here as
`Packed.write`.
-/

namespace EventConditions

namespace MessagePack

/-- A length behind the shortest header of three widths that holds it. -/
def lengthHeader (one two four : UInt8) (n : Nat) : List UInt8 :=
  if n < 256 then one :: bigEndian 1 n
  else if n < 65536 then two :: bigEndian 2 n
  else four :: bigEndian 4 n

/-- An unsigned form. -/
def uintBytes (n : Nat) : List UInt8 :=
  if n < 128 then [UInt8.ofNat n]
  else if n < 256 then 0xcc :: bigEndian 1 n
  else if n < 65536 then 0xcd :: bigEndian 2 n
  else if n < 4294967296 then 0xce :: bigEndian 4 n
  else 0xcf :: bigEndian 8 n

/-- The two's complement of a number in the given count of bytes. -/
def twosComplement (width : Nat) (i : Int) : List UInt8 :=
  bigEndian width (i % capacity width).toNat

/-- A signed form. -/
def sintBytes (i : Int) : List UInt8 :=
  if -32 ≤ i ∧ i < 0 then twosComplement 1 i
  else if -128 ≤ i ∧ i < 128 then 0xd0 :: twosComplement 1 i
  else if -32768 ≤ i ∧ i < 32768 then 0xd1 :: twosComplement 2 i
  else if -2147483648 ≤ i ∧ i < 2147483648 then 0xd2 :: twosComplement 4 i
  else 0xd3 :: twosComplement 8 i

/-- The header of a text of the given length. -/
def strHeader (n : Nat) : List UInt8 :=
  if n < 32 then [UInt8.ofNat (0xa0 + n)] else lengthHeader 0xd9 0xda 0xdb n

/-- The header of application-defined bytes of the given length, up to their type. -/
def extHeader (n : Nat) : List UInt8 :=
  match n with
  | 1 => [0xd4]
  | 2 => [0xd5]
  | 4 => [0xd6]
  | 8 => [0xd7]
  | 16 => [0xd8]
  | _ => lengthHeader 0xc7 0xc8 0xc9 n

/-- The header of an array of the given length. -/
def arrayHeader (n : Nat) : List UInt8 :=
  if n < 16 then [UInt8.ofNat (0x90 + n)]
  else if n < 65536 then 0xdc :: bigEndian 2 n
  else 0xdd :: bigEndian 4 n

/-- The header of a map of the given length. -/
def mapHeader (n : Nat) : List UInt8 :=
  if n < 16 then [UInt8.ofNat (0x80 + n)]
  else if n < 65536 then 0xde :: bigEndian 2 n
  else 0xdf :: bigEndian 4 n

end MessagePack

namespace Packed

open MessagePack

mutual

/-- The bytes of a value. -/
def write : Packed → List UInt8
  | .nil => [0xc0]
  | .bool b => [if b then 0xc3 else 0xc2]
  | .uint n => uintBytes n.toNat
  | .sint i => sintBytes i.toInt
  | .float32 bits => 0xca :: bigEndian 4 bits.toNat
  | .float64 bits => 0xcb :: bigEndian 8 bits.toNat
  | .str bytes => strHeader bytes.length ++ bytes
  | .bin bytes => lengthHeader 0xc4 0xc5 0xc6 bytes.length ++ bytes
  | .ext kind bytes => extHeader bytes.length ++ kind :: bytes
  | .array items => arrayHeader items.length ++ writeItems items
  | .map entries => mapHeader entries.length ++ writeEntries entries

/-- The bytes of the items of an array, one after the other. -/
def writeItems : List Packed → List UInt8
  | [] => []
  | v :: rest => v.write ++ writeItems rest

/-- The bytes of the entries of a map, each key before its value. -/
def writeEntries : List (Packed × Packed) → List UInt8
  | [] => []
  | (k, v) :: rest => k.write ++ (v.write ++ writeEntries rest)

end

end Packed

end EventConditions
