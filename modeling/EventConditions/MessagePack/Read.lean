import EventConditions.MessagePack.BigEndian
import EventConditions.MessagePack.Packed

/-!
# Reading MessagePack

A value is read from the front of some bytes, and what follows it is left over. Its first byte says
of what kind it is and how its size is given. Any form is accepted, also one that is longer than
needed; one byte is reserved and starts no value. Arrays and maps may nest up to a given depth.

This is what the external serializer accepts by its documentation; reading a value is its work, and
stands here as `Packed.read?`.
-/

namespace EventConditions

namespace MessagePack

/-- How a header gives a size. -/
inductive Extent where
  /-- In its first byte. -/
  | fixed (n : Nat)
  /-- In the given count of bytes that follow. -/
  | counted (width : Nat)

/-- What the first byte of a value says. -/
inductive Head where
  /-- The byte is the whole value. -/
  | whole (v : Packed)
  | uint (width : Nat)
  | sint (width : Nat)
  | float32
  | float64
  | str (extent : Extent)
  | bin (extent : Extent)
  | ext (extent : Extent)
  | array (extent : Extent)
  | map (extent : Extent)

/-- The meaning of a first byte; `0xc1` has none. -/
def Head.ofByte? (b : UInt8) : Option Head :=
  let n := b.toNat
  if n < 0x80 then some (.whole (.uint (UInt64.ofNat n)))
  else if n < 0x90 then some (.map (.fixed (n - 0x80)))
  else if n < 0xa0 then some (.array (.fixed (n - 0x90)))
  else if n < 0xc0 then some (.str (.fixed (n - 0xa0)))
  else if 0xe0 ≤ n then some (.whole (.sint (Int64.ofInt (n - 256))))
  else
    match n with
    | 0xc0 => some (.whole .nil)
    | 0xc2 => some (.whole (.bool false))
    | 0xc3 => some (.whole (.bool true))
    | 0xc4 => some (.bin (.counted 1))
    | 0xc5 => some (.bin (.counted 2))
    | 0xc6 => some (.bin (.counted 4))
    | 0xc7 => some (.ext (.counted 1))
    | 0xc8 => some (.ext (.counted 2))
    | 0xc9 => some (.ext (.counted 4))
    | 0xca => some .float32
    | 0xcb => some .float64
    | 0xcc => some (.uint 1)
    | 0xcd => some (.uint 2)
    | 0xce => some (.uint 4)
    | 0xcf => some (.uint 8)
    | 0xd0 => some (.sint 1)
    | 0xd1 => some (.sint 2)
    | 0xd2 => some (.sint 4)
    | 0xd3 => some (.sint 8)
    | 0xd4 => some (.ext (.fixed 1))
    | 0xd5 => some (.ext (.fixed 2))
    | 0xd6 => some (.ext (.fixed 4))
    | 0xd7 => some (.ext (.fixed 8))
    | 0xd8 => some (.ext (.fixed 16))
    | 0xd9 => some (.str (.counted 1))
    | 0xda => some (.str (.counted 2))
    | 0xdb => some (.str (.counted 4))
    | 0xdc => some (.array (.counted 2))
    | 0xdd => some (.array (.counted 4))
    | 0xde => some (.map (.counted 2))
    | 0xdf => some (.map (.counted 4))
    | _ => none

/-- Reads a number of the given width. -/
def readNat (width : Nat) (bytes : List UInt8) : Option (Nat × List UInt8) := do
  let (digits, rest) ← takeBytes width bytes
  return (ofBigEndian digits, rest)

/-- Reads a size. -/
def Extent.read : Extent → List UInt8 → Option (Nat × List UInt8)
  | .fixed n, bytes => some (n, bytes)
  | .counted width, bytes => readNat width bytes

/-- Reads a size and as many bytes. -/
def Extent.readBytes (extent : Extent) (bytes : List UInt8) :
    Option (List UInt8 × List UInt8) := do
  let (n, rest) ← extent.read bytes
  takeBytes n rest

/-- Reads so many things one after the other, behind those read before, which are given last
first. -/
def readMany {α : Type} (read : List UInt8 → Option (α × List UInt8)) :
    Nat → List α → List UInt8 → Option (List α × List UInt8)
  | 0, done, bytes => some (done.reverse, bytes)
  | n + 1, done, bytes =>
    match read bytes with
    | some (x, rest) => readMany read n (x :: done) rest
    | none => none

/-- Reads two things one after the other. -/
def readPair {α : Type} (read : List UInt8 → Option (α × List UInt8)) (bytes : List UInt8) :
    Option ((α × α) × List UInt8) := do
  let (x, rest) ← read bytes
  let (y, rest) ← read rest
  return ((x, y), rest)

end MessagePack

open MessagePack

/-- Reads one value in which arrays and maps nest at most `depth` deep. -/
def Packed.read? (depth : Nat) : List UInt8 → Option (Packed × List UInt8)
  | [] => none
  | first :: bytes =>
    match Head.ofByte? first with
    | none => none
    | some (.whole v) => some (v, bytes)
    | some (.uint width) => do
      let (n, rest) ← readNat width bytes
      return (.uint (UInt64.ofNat n), rest)
    | some (.sint width) => do
      let (n, rest) ← readNat width bytes
      return (.sint (Int64.ofInt ((n : Int).bmod (capacity width))), rest)
    | some .float32 => do
      let (n, rest) ← readNat 4 bytes
      return (.float32 (UInt32.ofNat n), rest)
    | some .float64 => do
      let (n, rest) ← readNat 8 bytes
      return (.float64 (UInt64.ofNat n), rest)
    | some (.str extent) => do
      let (content, rest) ← extent.readBytes bytes
      return (.str content, rest)
    | some (.bin extent) => do
      let (content, rest) ← extent.readBytes bytes
      return (.bin content, rest)
    | some (.ext extent) => do
      let (n, rest) ← extent.read bytes
      let (kind, rest) ← readNat 1 rest
      let (content, rest) ← takeBytes n rest
      return (.ext (UInt8.ofNat kind) content, rest)
    | some (.array extent) =>
      match depth with
      | 0 => none
      | depth + 1 => do
        let (n, rest) ← extent.read bytes
        let (items, rest) ← readMany (Packed.read? depth) n [] rest
        return (.array items, rest)
    | some (.map extent) =>
      match depth with
      | 0 => none
      | depth + 1 => do
        let (n, rest) ← extent.read bytes
        let (entries, rest) ← readMany (readPair (Packed.read? depth)) n [] rest
        return (.map entries, rest)

end EventConditions
