import EventConditions.Value

/-!
# Dimension keys

A key is an ordered list of fields with their values and names one slice of a condition. Two keys
are equal when they list the same fields with the same values in the same order. `gather` builds a
key from any source of field values; an event and a wider key are two such sources, so a key taken
from an event and a key projected from a wider one are built in the same way.
-/

namespace EventConditions

/-- Names one slice of a condition. -/
structure Key where
  /-- The fields in order, each with its value. -/
  fields : List (FieldId × Value) := []
  deriving DecidableEq

namespace Key

/-- The key without fields, which names the only slice of a condition without dimensions. -/
def whole : Key := {}

/-- The key has no fields. -/
def isWhole (k : Key) : Bool :=
  k.fields.isEmpty

/-- The number of fields. -/
def size (k : Key) : Nat :=
  k.fields.length

/-- The value of a field; of a field listed twice, the first one. -/
def get? (k : Key) (field : FieldId) : Option Value :=
  k.fields.lookup field

/-- The key over the wanted fields, in the order wanted, if every one of them has a value. -/
def gather (value? : FieldId → Option Value) : List FieldId → Option Key
  | [] => some whole
  | field :: rest =>
    match value? field, gather value? rest with
    | some v, some k => some ⟨(field, v) :: k.fields⟩
    | _, _ => none

/-- The key over the wanted fields of this one, in the order wanted. There is none if this key lacks
one of them. -/
def project (k : Key) (wanted : List FieldId) : Option Key :=
  gather k.get? wanted

/-- Keys are ordered by their fields from the first one on, each by its number and then by its
value; a key that ends early comes first. -/
def compare (a b : Key) : Ordering :=
  List.compareLex
    (fun x y => (Ord.compare x.1 y.1).then (Value.compare x.2 y.2)) a.fields b.fields

/-- One field as it is written in a key. -/
def fieldText (field : FieldId × Value) : String :=
  toString field.1.toNat ++ ":" ++ field.2.text

/-- The fields between brackets, separated by bars. -/
def text (k : Key) : String :=
  "[" ++ String.intercalate "|" (k.fields.map fieldText) ++ "]"

/-- A key over no fields always exists. -/
@[simp] theorem gather_nil (value? : FieldId → Option Value) : gather value? [] = some whole := rfl

/-- A key depends on no other values than those of the wanted fields. -/
theorem gather_congr {value? value?' : FieldId → Option Value} {wanted : List FieldId}
    (h : ∀ field ∈ wanted, value?' field = value? field) :
    gather value?' wanted = gather value? wanted := by
  induction wanted with
  | nil => rfl
  | cons field rest ih =>
    rw [gather, gather, h field List.mem_cons_self,
      ih fun other hother => h other (List.mem_cons_of_mem field hother)]

/-- There is a key exactly if every wanted field has a value. -/
theorem isSome_gather_iff {value? : FieldId → Option Value} {wanted : List FieldId} :
    (gather value? wanted).isSome = true ↔ ∀ field ∈ wanted, (value? field).isSome = true := by
  induction wanted with
  | nil => simp
  | cons field rest ih =>
    rw [List.forall_mem_cons, ← ih, gather]
    cases value? field <;> cases gather value? rest <;> simp

/-- A key exists exactly when every wanted field has a value, and then it lists them as wanted. -/
theorem gather_eq_some_iff {value? : FieldId → Option Value} {wanted : List FieldId} {k : Key} :
    gather value? wanted = some k ↔
      wanted.map (fun f => (f, value? f)) = k.fields.map (fun x => (x.1, some x.2)) := by
  induction wanted generalizing k with
  | nil => cases k with | mk fields => cases fields <;> simp [gather, whole]
  | cons f rest ih =>
    cases k with
    | mk fields =>
      simp only [gather, List.map_cons]
      cases hv : value? f with
      | none => cases fields <;> simp
      | some v =>
        cases hr : gather value? rest with
        | none =>
          cases fields with
          | nil => simp
          | cons x xs =>
            have : ¬ rest.map (fun f => (f, value? f)) = xs.map (fun x => (x.1, some x.2)) :=
              fun h => by simpa [hr] using (ih (k := ⟨xs⟩)).2 h
            simp [this]
        | some k' =>
          have hk := ih.1 hr
          cases fields with
          | nil => simp
          | cons x xs =>
            have hxs := ih (k := ⟨xs⟩)
            rw [hr] at hxs
            obtain ⟨xf, xv⟩ := x
            constructor
            · intro h
              simp only [Option.some.injEq, Key.mk.injEq, List.cons.injEq, Prod.mk.injEq] at h
              obtain ⟨⟨rfl, rfl⟩, rfl⟩ := h
              simp [hk]
            · intro h
              simp only [List.map_cons, List.cons.injEq, Prod.mk.injEq, Option.some.injEq] at h
              obtain ⟨⟨rfl, rfl⟩, h⟩ := h
              have := hxs.2 h
              simp only [Option.some.injEq] at this
              simp [this]

end Key

end EventConditions
