import EventConditions.Key

/-!
# Events

An event has a tag, the time it was logged, and at most one value per field. Its fields are kept
ascending by field id.
-/

namespace EventConditions

/-- One parsed log event. -/
structure Event where
  /-- What kind of event it is. -/
  tag : UInt32
  /-- The time since boot at which it was logged, in nanoseconds. -/
  elapsed : UInt64 := 0
  /-- The fields, ascending by id. -/
  fields : List (FieldId × Value) := []

namespace Event

/-- Puts a value into ascending fields; a value already there for the field is replaced. -/
def putField (field : FieldId) (value : Value) :
    List (FieldId × Value) → List (FieldId × Value)
  | [] => [(field, value)]
  | (f, v) :: rest =>
    if field < f then (field, value) :: (f, v) :: rest
    else if field = f then (field, value) :: rest
    else (f, v) :: putField field value rest

/-- Sets one field. -/
def set (e : Event) (field : FieldId) (value : Value) : Event :=
  { e with fields := putField field value e.fields }

/-- The event whose fields are set in turn, so that of two values for a field the later one
stays. -/
def ofFields (tag : UInt32) (elapsed : UInt64) (fields : List (FieldId × Value)) : Event :=
  fields.foldl (fun e field => e.set field.1 field.2) { tag, elapsed }

/-- The value of a field. -/
def get? (e : Event) (field : FieldId) : Option Value :=
  e.fields.lookup field

/-- The key over the given dimensions, in their order. There is none if the event lacks one of
them. -/
def key? (e : Event) (dimensions : List FieldId) : Option Key :=
  Key.gather e.get? dimensions

/-- Setting a field sets that field and no other. -/
theorem lookup_putField (fields : List (FieldId × Value)) (field other : FieldId) (value : Value) :
    (putField field value fields).lookup other =
      if other = field then some value else fields.lookup other := by
  by_cases ho : other = field
  · subst ho
    induction fields with
    | nil => simp [putField]
    | cons x rest ih =>
      obtain ⟨f, v⟩ := x
      simp only [putField]
      split
      · simp
      · split
        · simp
        · next hf => simpa [List.lookup_cons, beq_false_of_ne hf] using ih
  · have hb : (other == field) = false := beq_false_of_ne ho
    simp only [if_neg ho]
    induction fields with
    | nil => simp [putField, List.lookup_cons, hb]
    | cons x rest ih =>
      obtain ⟨f, v⟩ := x
      simp only [putField]
      split
      · simp [List.lookup_cons, hb]
      · split
        · next hf => simp [List.lookup_cons, ← hf, hb]
        · simp [List.lookup_cons, ih]

end Event

end EventConditions
