/-!
# Tables

The conditions of a graph are numbered from zero, and everything that is kept per condition is a
table with one entry for each number. Reading and writing an entry cannot miss.
-/

namespace EventConditions

/-- One entry per number below `n`. -/
abbrev Table (n : Nat) (α : Type) :=
  Vector α n

namespace Table

variable {n : Nat} {α β : Type}

/-- The entry of a number. -/
def entry (t : Table n α) (i : Fin n) : α :=
  t[i]

/-- Replaces one entry. -/
def put (t : Table n α) (i : Fin n) (x : α) : Table n α :=
  t.set i x

/-- The table with the same entry everywhere. -/
def fill (n : Nat) (x : α) : Table n α :=
  Vector.replicate n x

/-- Changes every entry by itself. -/
def map (f : α → β) (t : Table n α) : Table n β :=
  Vector.map f t

@[simp] theorem entry_put_self (t : Table n α) (i : Fin n) (x : α) : (t.put i x).entry i = x := by
  simp [entry, put]

theorem entry_put_ne (t : Table n α) {i j : Fin n} (h : j ≠ i) (x : α) :
    (t.put i x).entry j = t.entry j := by
  have : i.val ≠ j.val := fun e => h (Fin.ext e.symm)
  simp [entry, put, this]

@[simp] theorem entry_fill (x : α) (i : Fin n) : (fill n x).entry i = x := by
  simp [entry, fill]

@[simp] theorem entry_map (f : α → β) (t : Table n α) (i : Fin n) :
    (t.map f).entry i = f (t.entry i) := by
  simp [entry, map]

/-- A table is told by its entries. -/
theorem ext_entry {s t : Table n α} (h : ∀ i, s.entry i = t.entry i) : s = t :=
  Vector.ext fun i hi => h ⟨i, hi⟩

/-- Listed in order, a table gives the entries of all numbers in order. -/
theorem toList_eq_map_entry (t : Table n α) : t.toList = (List.finRange n).map t.entry := by
  apply List.ext_getElem <;> simp [entry]

/-- The list of a table holds at each position the entry of that number. -/
theorem getElem?_toList_eq_some_iff {t : Table n α} {k : Nat} {x : α} :
    t.toList[k]? = some x ↔ ∃ h : k < n, t.entry ⟨k, h⟩ = x := by
  simp [Vector.getElem?_eq_some_iff, entry]

end Table

end EventConditions
