import EventConditions.MessagePack.Packed

/-!
# Records and choices in MessagePack

A record is stored as a map from the names of its members, in any order, or as an array of its
members in their declared order. Members that are small numbers may also be bytes, one for each. A
choice between named variants is stored as the name alone, if the variant holds nothing, or as a map
from the name to what it holds. In a map, and for a variant, the position in the declared order may
stand for the name.

These are the shapes that the external serializer reads records and choices from by its
documentation. Each function here reads one of them from a value and gives nothing if the value has
another one. Members and variants are identified by their positions in the list of declared names.
-/

namespace EventConditions.Packed

/-- The most levels of stored arrays and maps inside one another. The map that names a variant is no
level. -/
def maxDepth : Nat := 1023

/-- A text: a string, or bytes that are UTF-8. -/
def toText? : Packed → Option String
  | .str bytes => String.fromUTF8? ⟨bytes.toArray⟩
  | .bin bytes => String.fromUTF8? ⟨bytes.toArray⟩
  | _ => none

/-- A text, or nil for none. -/
def toOptionalText? : Packed → Option (Option String)
  | .nil => some none
  | v => v.toText?.map some

/-- A truth value. -/
def toBool? : Packed → Option Bool
  | .bool b => some b
  | _ => none

/-- An integer in either form. -/
def toInt? : Packed → Option Int
  | .uint n => some n.toNat
  | .sint i => some i.toInt
  | _ => none

/-- An integer that fits 64 bits with a sign. -/
def toInt64? (v : Packed) : Option Int64 := do
  let i ← v.toInt?
  if i < 9223372036854775808 then some (Int64.ofInt i) else none

/-- An integer that fits 64 bits without a sign. -/
def toUInt64? (v : Packed) : Option UInt64 := do
  let i ← v.toInt?
  if 0 ≤ i then some (UInt64.ofNat i.toNat) else none

/-- An integer that fits 32 bits without a sign. -/
def toUInt32? (v : Packed) : Option UInt32 := do
  let i ← v.toInt?
  if 0 ≤ i ∧ i < 4294967296 then some (UInt32.ofNat i.toNat) else none

/-- A byte as a small number. -/
def ofByte (b : UInt8) : Packed :=
  .uint (UInt64.ofNat b.toNat)

/-- The items of a list. Bytes are a list of small numbers. -/
def toItems? : Packed → Option (List Packed)
  | .array items => some items
  | .bin bytes => some (bytes.map ofByte)
  | _ => none

/-- A list with items of one shape. -/
def toListOf? {α : Type} (item? : Packed → Option α) (v : Packed) : Option (List α) := do
  (← v.toItems?).mapM item?

/-- The declared name that a key stands for. A key of another shape than a name or a position gives
nothing; one that stands for no declared name gives no position. -/
def position? (names : List String) : Packed → Option (Option Nat)
  | .str bytes => some (names.findIdx? fun name => utf8 name == bytes)
  | .bin bytes => some (names.findIdx? fun name => utf8 name == bytes)
  | .uint n => some (if n.toNat < names.length then some n.toNat else none)
  | _ => none

/-- The value given for a position: none, or the only one. -/
def valueAt? (entries : List (Option Nat × Packed)) (i : Nat) : Option (Option Packed) :=
  match entries.filter fun entry => entry.1 == some i with
  | [] => some none
  | [entry] => some (some entry.2)
  | _ => none

/-- The place of an entry of a record whose own map is the given level, and its value. An entry for
another name is passed over, unless it goes too deep. -/
def placed? (level : Nat) (names : List String) (entry : Packed × Packed) :
    Option (Option Nat × Packed) := do
  let place ← position? names entry.1
  if place.isSome || level + entry.2.depth ≤ maxDepth then some (place, entry.2) else none

/-- The values of a record's members in declared order, as far as they are given. The level counts
the arrays and maps from the outermost one to the record's own. Entries for other names and surplus
bytes are passed over; a member given twice is refused, and so is an array that is too long. -/
def members? (level : Nat) (names : List String) : Packed → Option (List (Option Packed))
  | .map entries => do
    let placed ← entries.mapM (placed? level names)
    (List.range names.length).mapM (valueAt? placed)
  | .array items =>
    if items.length ≤ names.length then
      some (items.map some ++ List.replicate (names.length - items.length) none)
    else none
  | .bin bytes =>
    let given := bytes.take names.length
    some (given.map (some ∘ ofByte) ++ List.replicate (names.length - given.length) none)
  | _ => none

/-- The variant of a choice, and what it holds. -/
def variant? (names : List String) : Packed → Option (Nat × Option Packed)
  | .map [(name, content)] => (position? names name).join.map (·, some content)
  | .map _ => none
  | name => (position? names name).join.map (·, none)

/-- A variant of a choice where none holds anything. -/
def plainVariant? (names : List String) (v : Packed) : Option Nat :=
  match v.variant? names with
  | some (i, none) => some i
  | some (i, some .nil) => some i
  | _ => none

end EventConditions.Packed
