/-!
# Names and their indices

Matchers and conditions are configured by name and addressed by index. A `NameIndex` holds the index
of each name; `ofNames` numbers the names of a list in order.
-/

namespace EventConditions

/-- Names, each with the index it stands for. -/
structure NameIndex where
  entries : List (String × Nat) := []
  deriving DecidableEq

namespace NameIndex

/-- Numbers the names in order, from `start` on. -/
def number (start : Nat) : List String → List (String × Nat)
  | [] => []
  | name :: rest => (name, start) :: number (start + 1) rest

/-- Each name of the list with its position. -/
def ofNames (names : List String) : NameIndex :=
  ⟨number 0 names⟩

/-- The index of a name. -/
def get? (index : NameIndex) (name : String) : Option Nat :=
  index.entries.lookup name

theorem lookup_number_eq_some {start i : Nat} {name : String} {names : List String}
    (h : (number start names).lookup name = some i) : ∃ k, i = start + k ∧ names[k]? = some name := by
  induction names generalizing start with
  | nil => cases h
  | cons first rest ih =>
    rw [number, List.lookup_cons] at h
    split at h
    · next hname =>
      cases h
      exact ⟨0, rfl, by rw [List.getElem?_cons_zero, eq_of_beq hname]⟩
    · obtain ⟨k, rfl, hk⟩ := ih h
      exact ⟨k + 1, by omega, hk⟩

theorem lookup_number_eq_none_iff {start : Nat} {name : String} {names : List String} :
    (number start names).lookup name = none ↔ name ∉ names := by
  induction names generalizing start with
  | nil => simp [number]
  | cons first rest ih =>
    rw [number, List.lookup_cons]
    by_cases hname : name = first
    · simp [hname]
    · simp [beq_false_of_ne hname, hname, ih]

/-- The index of a name is a position of the name. -/
theorem getElem?_of_get?_ofNames {names : List String} {name : String} {i : Nat}
    (h : (ofNames names).get? name = some i) : names[i]? = some name := by
  obtain ⟨k, rfl, hk⟩ := lookup_number_eq_some h
  rwa [Nat.zero_add]

/-- Exactly the listed names have an index. -/
theorem get?_ofNames_eq_none_iff {names : List String} {name : String} :
    (ofNames names).get? name = none ↔ name ∉ names :=
  lookup_number_eq_none_iff

/-- The index of a name in a list of distinct names is its position. -/
theorem get?_ofNames_eq_some_iff {names : List String} (h : names.Nodup) {name : String} {i : Nat} :
    (ofNames names).get? name = some i ↔ names[i]? = some name := by
  refine ⟨getElem?_of_get?_ofNames, fun hi => ?_⟩
  cases hget : (ofNames names).get? name with
  | none => exact absurd (List.mem_of_getElem? hi) (get?_ofNames_eq_none_iff.1 hget)
  | some j =>
    have hj := getElem?_of_get?_ofNames hget
    obtain ⟨hlt, -⟩ := List.getElem?_eq_some_iff.1 hi
    rw [(List.getElem?_inj hlt h).1 (hi.trans hj.symm)]

end NameIndex

/-- The first name of the list that already occurs before it. -/
def firstRepeated? (seen : List String) : List String → Option String
  | [] => none
  | name :: rest => if name ∈ seen then some name else firstRepeated? (name :: seen) rest

/-- No name is found exactly when the names are distinct and none of them was seen before. -/
theorem firstRepeated?_eq_none_iff {seen names : List String} :
    firstRepeated? seen names = none ↔ names.Nodup ∧ ∀ name ∈ names, name ∉ seen := by
  induction names generalizing seen with
  | nil => simp [firstRepeated?]
  | cons name rest ih =>
    by_cases h : name ∈ seen
    · simp [firstRepeated?, h]
    · simp only [firstRepeated?, h, if_false, ih, List.nodup_cons, List.mem_cons, not_or]
      grind

/-- The names of a list are distinct exactly when none is repeated. -/
theorem firstRepeated?_nil_eq_none_iff {names : List String} :
    firstRepeated? [] names = none ↔ names.Nodup := by
  simp [firstRepeated?_eq_none_iff]

end EventConditions
