import EventConditions.Text.Quoted

/-!
# Field values

Events carry fields with a numeric id and a value of one of three types. Values are ordered by type
first: integers before booleans before texts.
-/

namespace EventConditions

/-- The number of a field within an event. -/
abbrev FieldId := UInt32

/-- The value of one event field. -/
inductive Value where
  /-- A signed integer; user ids and enumerations are integers too. -/
  | int (v : Int64)
  | bool (v : Bool)
  | str (v : String)
  deriving DecidableEq

namespace Value

/-- Integers come before booleans and booleans before texts. Within a type integers are ordered by
size, `false` comes before `true`, and texts are ordered by code points. -/
def compare : Value → Value → Ordering
  | .int a, .int b => Ord.compare a b
  | .int _, _ => .lt
  | .bool _, .int _ => .gt
  | .bool a, .bool b => Ord.compare a b
  | .bool _, .str _ => .lt
  | .str a, .str b => Ord.compare a b
  | .str _, _ => .gt

/-- Integers and booleans are written plainly, texts in quotes. -/
def text : Value → String
  | .int v => toString v.toInt
  | .bool true => "true"
  | .bool false => "false"
  | .str v => Text.quote v

end Value

end EventConditions
