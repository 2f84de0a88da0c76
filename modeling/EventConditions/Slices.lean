import EventConditions.Key

/-!
# Slices and their nesting counts

A simple condition holds some slices and counts for each how deeply its starts are nested. A slice
that is not held has no entry; its count is zero. Starting and stopping a slice touch its own count
only, and report whether the slice came to be held or stopped being held.
-/

namespace EventConditions

/-- The slices that are held, each with its nesting count. -/
structure Slices where
  entries : List (Key × Nat) := []
  deriving DecidableEq

namespace Slices

/-- The highest count that is kept; further starts leave it there. -/
def maxCount : Nat := 4294967295

/-- The count of a held slice. -/
def count? (s : Slices) (key : Key) : Option Nat :=
  s.entries.lookup key

/-- The count of a slice, zero if it is not held. -/
def count (s : Slices) (key : Key) : Nat :=
  (s.count? key).getD 0

/-- The number of slices that are held. -/
def size (s : Slices) : Nat :=
  s.entries.length

/-- No slice is held. -/
def isEmpty (s : Slices) : Bool :=
  s.entries.isEmpty

/-- The slices that are held. -/
def keys (s : Slices) : List Key :=
  s.entries.map (·.1)

/-- The held slices with their counts, in the order of their keys. -/
def inOrder (s : Slices) : List (Key × Nat) :=
  s.entries.mergeSort fun a b => (Key.compare a.1 b.1).isLE

/-- Lets go of one slice. -/
def erase (s : Slices) (key : Key) : Slices :=
  ⟨s.entries.filter (·.1 != key)⟩

/-- Holds one slice with the given count. -/
def put (s : Slices) (key : Key) (count : Nat) : Slices :=
  ⟨(key, count) :: (s.erase key).entries⟩

/-- One more start of a slice. A slice that is already held counts it if nesting counts; a new one
is held with count one, unless as many slices as allowed are held. Tells whether the slice is
new. -/
def start (s : Slices) (nesting : Bool) (limit : Nat) (key : Key) : Slices × Bool :=
  match s.count? key with
  | some c => (if nesting then s.put key (min (c + 1) maxCount) else s, false)
  | none => if limit ≤ s.size then (s, false) else (s.put key 1, true)

/-- A start that finds no room: the slice is not held yet, and as many as allowed are. -/
def drops (s : Slices) (limit : Nat) (key : Key) : Bool :=
  (s.count? key).isNone && limit ≤ s.size

/-- One stop of a slice, which takes back one start if nesting counts and all of them if not. Tells
whether the slice is held no longer. -/
def stop (s : Slices) (nesting : Bool) (key : Key) : Slices × Bool :=
  match s.count? key with
  | none => (s, false)
  | some c =>
    let left := if nesting then c - 1 else 0
    if left = 0 then (s.erase key, true) else (s.put key left, false)

theorem count?_erase (s : Slices) (key other : Key) :
    (s.erase key).count? other = if other = key then none else s.count? other := by
  obtain ⟨entries⟩ := s
  simp only [count?, erase]
  by_cases ho : other = key
  · subst ho
    rw [if_pos rfl, List.lookup_eq_none_iff]
    intro x hx
    have := (List.mem_filter.1 hx).2
    grind
  · rw [if_neg ho]
    induction entries with
    | nil => rfl
    | cons x rest ih =>
      obtain ⟨k, c⟩ := x
      by_cases hk : k = key
      · subst hk
        rw [List.filter_cons_of_neg (by simp), ih, List.lookup_cons, beq_false_of_ne ho]
      · rw [List.filter_cons_of_pos (by simpa using hk), List.lookup_cons, List.lookup_cons, ih]

theorem count?_put (s : Slices) (key other : Key) (c : Nat) :
    (s.put key c).count? other = if other = key then some c else s.count? other := by
  by_cases ho : other = key
  · simp [put, count?, ho]
  · have := count?_erase s key other
    simp only [count?, if_neg ho] at this
    simp [put, count?, List.lookup_cons, beq_false_of_ne ho, this, ho]

end Slices

end EventConditions
