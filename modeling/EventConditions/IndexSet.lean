/-!
# Sets of indices

A set of indices is kept as an ascending list without repetitions.
-/

namespace EventConditions

/-- A set of indices, ascending. -/
structure IndexSet where
  toList : List Nat := []
  deriving DecidableEq

namespace IndexSet

/-- Puts an index into an ascending list. -/
def insertInto (i : Nat) : List Nat → List Nat
  | [] => [i]
  | j :: rest => if i < j then i :: j :: rest else if i = j then j :: rest else j :: insertInto i rest

/-- Adds an index. -/
def insert (s : IndexSet) (i : Nat) : IndexSet :=
  ⟨insertInto i s.toList⟩

/-- Adds every index of a list. -/
def insertAll (s : IndexSet) (indices : List Nat) : IndexSet :=
  indices.foldl insert s

/-- The indices of a list. -/
def ofList (indices : List Nat) : IndexSet :=
  insertAll {} indices

/-- The indices of either set. -/
def union (s t : IndexSet) : IndexSet :=
  s.insertAll t.toList

instance : Membership Nat IndexSet where
  mem s i := i ∈ s.toList

theorem mem_def {i : Nat} {s : IndexSet} : i ∈ s ↔ i ∈ s.toList := Iff.rfl

theorem mem_insertInto {i j : Nat} {l : List Nat} : i ∈ insertInto j l ↔ i = j ∨ i ∈ l := by
  induction l with
  | nil => simp [insertInto]
  | cons k rest ih =>
    simp only [insertInto]
    split
    · simp
    · split
      · next h => simp [h]
      · simp [ih, or_left_comm]

@[simp] theorem mem_insert {i j : Nat} {s : IndexSet} : i ∈ s.insert j ↔ i = j ∨ i ∈ s :=
  mem_insertInto

@[simp] theorem mem_insertAll {i : Nat} {s : IndexSet} {l : List Nat} :
    i ∈ s.insertAll l ↔ i ∈ s ∨ i ∈ l := by
  induction l generalizing s with
  | nil => simp [insertAll]
  | cons j rest ih =>
    have : s.insertAll (j :: rest) = (s.insert j).insertAll rest := rfl
    simp [this, ih, or_assoc, or_left_comm]

@[simp] theorem mem_ofList {i : Nat} {l : List Nat} : i ∈ ofList l ↔ i ∈ l := by
  rw [ofList, mem_insertAll]
  simp [mem_def]

@[simp] theorem mem_union {i : Nat} {s t : IndexSet} : i ∈ s.union t ↔ i ∈ s ∨ i ∈ t := by
  rw [union, mem_insertAll, ← mem_def]

end IndexSet

end EventConditions
