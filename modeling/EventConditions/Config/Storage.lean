import EventConditions.Config.Basic
import EventConditions.MessagePack.Members
import EventConditions.MessagePack.Read
import EventConditions.MessagePack.Write

/-!
# Stored configurations

A configuration is stored as one MessagePack value. For each part of it, `pack` gives the value that
is written, with every member present and in declared order, and `unpack?` reads every value that
stands for such a part. Limits may be left out and then have their standard values; so may the
matchers that a simple condition does not have.

The storing itself is done by an external serializer. `Config.toBytes` and `Config.ofBytes` stand
for it, by the format that is documented of it. What configurations settle are the names of the
members, their order and which of them may be left out.
-/

namespace EventConditions

namespace Value

/-- The names of the types of values. -/
def typeNames : List String := ["Int", "Bool", "Str"]

/-- A map from the name of the type to the content. -/
def pack : Value → Packed
  | .int v => .ofMembers [("Int", .ofInt64 v)]
  | .bool v => .ofMembers [("Bool", .bool v)]
  | .str v => .ofMembers [("Str", .ofString v)]

/-- Reads a field value. Every type has content, so a name alone stands for no value. -/
def unpack? (p : Packed) : Option Value :=
  match p.variant? typeNames with
  | some (0, some content) => content.toInt64?.map .int
  | some (1, some content) => content.toBool?.map .bool
  | some (2, some content) => content.toText?.map .str
  | _ => none

end Value

namespace Predicate

/-- The names of the tests. -/
def testNames : List String := ["Eq", "NotEq"]

/-- A map from the name of the test to its field and value. -/
def pack : Predicate → Packed
  | .equals field value => .ofMembers [("Eq", .array [.uint field.toUInt64, value.pack])]
  | .differs field value => .ofMembers [("NotEq", .array [.uint field.toUInt64, value.pack])]

/-- The field and the value of a test. -/
def unpackPair? (p : Packed) : Option (FieldId × Value) :=
  match p.toItems? with
  | some [field, value] => do
    let field ← field.toUInt32?
    let value ← Value.unpack? value
    return (field, value)
  | _ => none

/-- Reads a test of one field. -/
def unpack? (p : Packed) : Option Predicate :=
  match p.variant? testNames with
  | some (0, some content) => (unpackPair? content).map fun (field, value) => .equals field value
  | some (1, some content) => (unpackPair? content).map fun (field, value) => .differs field value
  | _ => none

end Predicate

namespace Matcher

/-- The names of a matcher's members. -/
def memberNames : List String := ["name", "tag_id", "predicates"]

/-- Around a matcher are the configuration and the list of matchers. -/
def level : Nat := 3

/-- A record of all members. -/
def pack (m : Matcher) : Packed :=
  .ofMembers [("name", .ofString m.name), ("tag_id", .uint m.tag.toUInt64),
    ("predicates", .array (m.predicates.map Predicate.pack))]

/-- Reads a matcher. No member may be left out. -/
def unpack? (p : Packed) : Option Matcher :=
  match p.members? level memberNames with
  | some [some name, some tag, some predicates] => do
    let name ← name.toText?
    let tag ← tag.toUInt32?
    let predicates ← predicates.toListOf? Predicate.unpack?
    return { name, tag, predicates }
  | _ => none

end Matcher

namespace Operator

/-- The names of the operators. -/
def names : List String := ["And", "Or", "Not", "Nand", "Nor"]

/-- The name alone. -/
def pack : Operator → Packed
  | .and => .ofString "And"
  | .or => .ofString "Or"
  | .not => .ofString "Not"
  | .nand => .ofString "Nand"
  | .nor => .ofString "Nor"

/-- Reads an operator. -/
def unpack? (p : Packed) : Option Operator :=
  match p.plainVariant? names with
  | some 0 => some .and
  | some 1 => some .or
  | some 2 => some .not
  | some 3 => some .nand
  | some 4 => some .nor
  | _ => none

end Operator

namespace Initial

/-- The names of the initial states. -/
def names : List String := ["Unknown", "False"]

/-- The name alone. -/
def pack : Initial → Packed
  | .unknown => .ofString "Unknown"
  | .fails => .ofString "False"

/-- Reads an initial state. -/
def unpack? (p : Packed) : Option Initial :=
  match p.plainVariant? names with
  | some 0 => some .unknown
  | some 1 => some .fails
  | _ => none

end Initial

namespace SimpleSpec

/-- The names of a simple condition's members. -/
def memberNames : List String :=
  ["start", "stop", "stop_all", "count_nesting", "dimensions", "initial_value"]

/-- Around a simple condition are the configuration, the list of conditions and the condition. -/
def level : Nat := 4

/-- The name of a matcher, nil for none. -/
def packName : Option String → Packed
  | some name => .ofString name
  | none => .nil

/-- The name of a matcher; one that is left out is none. -/
def unpackName? : Option Packed → Option (Option String)
  | some p => p.toOptionalText?
  | none => some none

/-- A record of all members, with nil for a matcher that the condition does not have. -/
def pack (s : SimpleSpec) : Packed :=
  .ofMembers [("start", packName s.start), ("stop", packName s.stop),
    ("stop_all", packName s.stopAll), ("count_nesting", .bool s.countNesting),
    ("dimensions", .array (s.dimensions.map fun f => .uint f.toUInt64)),
    ("initial_value", s.initial.pack)]

/-- Reads a simple condition. Only the matchers may be left out. -/
def unpack? (p : Packed) : Option SimpleSpec :=
  match p.members? level memberNames with
  | some [start, stop, stopAll, some countNesting, some dimensions, some initial] => do
    let start ← unpackName? start
    let stop ← unpackName? stop
    let stopAll ← unpackName? stopAll
    let countNesting ← countNesting.toBool?
    let dimensions ← dimensions.toListOf? Packed.toUInt32?
    let initial ← Initial.unpack? initial
    return { start, stop, stopAll, countNesting, dimensions, initial }
  | _ => none

end SimpleSpec

namespace Spec

/-- The names of the ways a condition is driven. -/
def kindNames : List String := ["Simple", "Combination"]

/-- The names of a combination's members. -/
def combinationNames : List String := ["operation", "children"]

/-- Around a combination are the same as around a simple condition. -/
def combinationLevel : Nat := 4

/-- A map from the way the condition is driven to what drives it. -/
def pack : Spec → Packed
  | .simple spec => .ofMembers [("Simple", spec.pack)]
  | .combination operator children => .ofMembers [("Combination", .ofMembers
      [("operation", operator.pack), ("children", .array (children.map Packed.ofString))])]

/-- A combination's operator and children. -/
def unpackCombination? (p : Packed) : Option Spec :=
  match p.members? combinationLevel combinationNames with
  | some [some operator, some children] => do
    let operator ← Operator.unpack? operator
    let children ← children.toListOf? Packed.toText?
    return .combination operator children
  | _ => none

/-- Reads how a condition is driven. -/
def unpack? (p : Packed) : Option Spec :=
  match p.variant? kindNames with
  | some (0, some content) => (SimpleSpec.unpack? content).map .simple
  | some (1, some content) => unpackCombination? content
  | _ => none

end Spec

namespace Condition

/-- The names of a condition's members. -/
def memberNames : List String := ["name", "spec"]

/-- Around a condition are the configuration and the list of conditions. -/
def level : Nat := 3

/-- A record of both members. -/
def pack (c : Condition) : Packed :=
  .ofMembers [("name", .ofString c.name), ("spec", c.spec.pack)]

/-- Reads a condition. No member may be left out. -/
def unpack? (p : Packed) : Option Condition :=
  match p.members? level memberNames with
  | some [some name, some spec] => do
    let name ← name.toText?
    let spec ← Spec.unpack? spec
    return { name, spec }
  | _ => none

end Condition

namespace Limits

/-- The names of the limits. -/
def memberNames : List String := ["max_matchers", "max_conditions", "max_slices_per_condition"]

/-- Around the limits is the configuration. -/
def level : Nat := 2

/-- A record of all limits. -/
def pack (l : Limits) : Packed :=
  .ofMembers [("max_matchers", .uint l.maxMatchers), ("max_conditions", .uint l.maxConditions),
    ("max_slices_per_condition", .uint l.maxSlices)]

/-- A limit; one that is left out has its standard value. -/
def unpackLimit? (standard : UInt64) : Option Packed → Option UInt64
  | some p => p.toUInt64?
  | none => some standard

/-- Reads limits. Any of them may be left out. -/
def unpack? (p : Packed) : Option Limits :=
  match p.members? level memberNames with
  | some [maxMatchers, maxConditions, maxSlices] => do
    let standard : Limits := {}
    let maxMatchers ← unpackLimit? standard.maxMatchers maxMatchers
    let maxConditions ← unpackLimit? standard.maxConditions maxConditions
    let maxSlices ← unpackLimit? standard.maxSlices maxSlices
    return { maxMatchers, maxConditions, maxSlices }
  | _ => none

end Limits

namespace Config

/-- The names of a configuration's members. -/
def memberNames : List String := ["matchers", "conditions", "limits"]

/-- Around a configuration is nothing. -/
def level : Nat := 1

/-- A record of all members. -/
def pack (c : Config) : Packed :=
  .ofMembers [("matchers", .array (c.matchers.map Matcher.pack)),
    ("conditions", .array (c.conditions.map Condition.pack)), ("limits", c.limits.pack)]

/-- Limits; if they are left out, they are the standard ones. -/
def unpackLimits? : Option Packed → Option Limits
  | some p => Limits.unpack? p
  | none => some {}

/-- Reads a configuration. Only the limits may be left out. -/
def unpack? (p : Packed) : Option Config :=
  match p.members? level memberNames with
  | some [some matchers, some conditions, limits] => do
    let matchers ← matchers.toListOf? Matcher.unpack?
    let conditions ← conditions.toListOf? Condition.unpack?
    let limits ← unpackLimits? limits
    return { matchers, conditions, limits }
  | _ => none

/-- The bytes a configuration is stored as. -/
def toBytes (c : Config) : List UInt8 :=
  c.pack.write

/-- The configuration that is stored in front of some bytes. What is read may have one level more
than is counted, for the map that names a variant. -/
def ofBytes (bytes : List UInt8) : Except Error Config :=
  match Packed.read? (Packed.maxDepth + 1) bytes with
  | none => .error { cause := .undecodable "no complete value" }
  | some (p, _) =>
    match unpack? p with
    | some c => .ok c
    | none => .error { cause := .undecodable "not a configuration" }

end Config

end EventConditions
