/-!
# MessagePack values

A stored value is a number, a text, a list, a map and so on. An integer is written in an unsigned or
a signed form, and readers may tell the two apart, so they are kept apart here as well. Texts are
kept as bytes, because a reader may pass over one that is not UTF-8.

Configurations are stored by an external serializer. The values here, how they are written and read,
and how records and choices are made of them stand for the format that is documented of it.
-/

namespace EventConditions

/-- A MessagePack value. -/
inductive Packed where
  | nil
  | bool (b : Bool)
  /-- An integer in an unsigned form. -/
  | uint (n : UInt64)
  /-- An integer in a signed form. -/
  | sint (i : Int64)
  | float32 (bits : UInt32)
  | float64 (bits : UInt64)
  /-- A text, in UTF-8 unless it is broken. -/
  | str (bytes : List UInt8)
  | bin (bytes : List UInt8)
  /-- Bytes of a type that the application defines. -/
  | ext (kind : UInt8) (bytes : List UInt8)
  | array (items : List Packed)
  | map (entries : List (Packed × Packed))

namespace Packed

/-- The UTF-8 bytes of a text. -/
def utf8 (s : String) : List UInt8 :=
  s.toByteArray.data.toList

/-- A text. -/
def ofString (s : String) : Packed :=
  .str (utf8 s)

/-- A signed number; only one below zero needs a signed form. -/
def ofInt64 (i : Int64) : Packed :=
  if i.toInt < 0 then .sint i else .uint (UInt64.ofNat i.toInt.toNat)

/-- A map with texts as keys. -/
def ofMembers (members : List (String × Packed)) : Packed :=
  .map (members.map fun (name, v) => (ofString name, v))

mutual

/-- How many levels a value has: an array or a map is one level around what it holds, bytes of a
type that the application defines are one level, and all else is none. -/
def depth : Packed → Nat
  | .ext _ _ => 1
  | .array items => depthOfItems items + 1
  | .map entries => depthOfEntries entries + 1
  | _ => 0

/-- The levels of the deepest of some items. -/
def depthOfItems : List Packed → Nat
  | [] => 0
  | v :: rest => max v.depth (depthOfItems rest)

/-- The levels of the deepest key or value of some entries. -/
def depthOfEntries : List (Packed × Packed) → Nat
  | [] => 0
  | (k, v) :: rest => max (max k.depth v.depth) (depthOfEntries rest)

end

end Packed

end EventConditions
