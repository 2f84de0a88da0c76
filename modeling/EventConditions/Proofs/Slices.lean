import Mathlib.Tactic.SplitIfs
import EventConditions.Proofs.Simple

/-!
# Counts of slices

What a start and a stop do to the held slices, slice by slice. Seen from outside, every slice has a
count, zero as long as it is not held; a start raises the count of its own slice and a stop lowers
it, and no other count moves (`Slices.Counted.count_start`, `Slices.count_stop`). That a stored
count is never zero (`Slices.Counted`) is what makes the two views one: a slice is held exactly
while its count is positive.

How many slices are held shows whether another limit would have dropped a start
(`Slices.drops_of_size_start_le`).
-/

namespace EventConditions

namespace Slices

variable {s : Slices} {key other : Key} {nesting : Bool} {limit c : Nat} {P : Slices → Prop}

/-! ## What starts and stops can do -/

/-- What a start that is not dropped makes of the count of its slice. -/
def raised (nesting : Bool) (count : Nat) : Nat :=
  if count = 0 then 1 else if nesting then min (count + 1) maxCount else count

/-- What a stop makes of the count of its slice. -/
def lowered (nesting : Bool) (count : Nat) : Nat :=
  if nesting then count - 1 else 0

/-- All that a start can do: count a held slice once more, leave it as it is, find no room, or hold
another slice. -/
theorem start_cases
    (nested : ∀ c, s.count? key = some c → nesting = true → P (s.put key (min (c + 1) maxCount)))
    (again : ∀ c, s.count? key = some c → nesting = false → P s)
    (dropped : s.count? key = none → limit ≤ s.size → P s)
    (new : s.count? key = none → s.size < limit → P (s.put key 1)) :
    P (s.start nesting limit key).1 := by
  unfold start
  cases hcount : s.count? key with
  | some c =>
    cases nesting with
    | true => exact nested c hcount rfl
    | false => exact again c hcount rfl
  | none =>
    by_cases hfull : limit ≤ s.size
    · simpa only [hfull, if_true] using dropped hcount hfull
    · simpa only [hfull, if_false] using new hcount (Nat.lt_of_not_le hfull)

/-- All that a stop can do: nothing for a slice that is not held, let go of a held one, or lower its
count. -/
theorem stop_cases
    (free : s.count? key = none → P s)
    (released : ∀ c, s.count? key = some c → lowered nesting c = 0 → P (s.erase key))
    (lessened : ∀ c, s.count? key = some c → lowered nesting c ≠ 0 →
      P (s.put key (lowered nesting c))) :
    P (s.stop nesting key).1 := by
  unfold stop
  cases hcount : s.count? key with
  | none => exact free hcount
  | some c =>
    dsimp only
    by_cases hleft : lowered nesting c = 0
    · rw [← lowered.eq_def, if_pos hleft]
      exact released c hcount hleft
    · rw [← lowered.eq_def, if_neg hleft]
      exact lessened c hcount hleft

theorem raised_mono {c d : Nat} (h : c ≤ d) : raised nesting c ≤ raised nesting d := by
  have hmax : 1 ≤ maxCount := by decide
  unfold raised
  split_ifs <;> omega

theorem lowered_mono {c d : Nat} (h : c ≤ d) : lowered nesting c ≤ lowered nesting d := by
  unfold lowered
  split_ifs <;> omega

theorem lowered_le : lowered nesting c ≤ c := by
  unfold lowered
  split_ifs <;> omega

theorem count_eq_zero_of_drops (h : s.drops limit key = true) : s.count key = 0 := by
  rw [drops, Bool.and_eq_true, Option.isNone_iff_eq_none] at h
  rw [count, h.1, Option.getD_none]

/-- A held slice needs no room. -/
theorem drops_of_mem (h : key ∈ s.keys) : s.drops limit key = false := by
  have hheld : (s.count? key).isNone = false := by
    rw [← Bool.not_eq_true, Option.isNone_iff_eq_none]
    exact mem_keys_iff.1 h
  rw [drops, hheld, Bool.false_and]

/-- The limit decides only which starts are dropped. -/
theorem start_eq_of_drops_eq {limit' : Nat} (h : s.drops limit key = s.drops limit' key) :
    s.start nesting limit key = s.start nesting limit' key := by
  unfold start
  cases hcount : s.count? key with
  | some c => rfl
  | none =>
    simp only [drops, hcount, Option.isNone_none, Bool.true_and, decide_eq_decide] at h
    simp only [h]

/-! ## Stored counts -/

/-- Every stored count is at least one, and no higher than the highest one that is kept. -/
def Counted (s : Slices) : Prop :=
  ∀ key c, s.count? key = some c → 1 ≤ c ∧ c ≤ maxCount

theorem counted_empty : Counted {} :=
  fun _ _ h => nomatch h

theorem Counted.put (h : s.Counted) {c : Nat} (hc : 1 ≤ c ∧ c ≤ maxCount) :
    (s.put key c).Counted := by
  intro other d hd
  rw [count?_put] at hd
  split_ifs at hd
  · cases hd
    exact hc
  · exact h other d hd

theorem Counted.erase (h : s.Counted) : (s.erase key).Counted := by
  intro other d hd
  rw [count?_erase] at hd
  split_ifs at hd
  exact h other d hd

/-- A raised count is in range. -/
theorem capped_mem (c : Nat) : 1 ≤ min (c + 1) maxCount ∧ min (c + 1) maxCount ≤ maxCount :=
  ⟨Nat.le_min.2 ⟨Nat.le_add_left 1 c, by decide⟩, Nat.min_le_right _ _⟩

/-- A start stores a count of one, or raises one up to the highest. -/
theorem Counted.start (h : s.Counted) (nesting : Bool) (limit : Nat) (key : Key) :
    (s.start nesting limit key).1.Counted :=
  start_cases (fun c _ _ => h.put (capped_mem c)) (fun _ _ _ => h) (fun _ _ => h)
    fun _ _ => h.put ⟨Nat.le_refl 1, by decide⟩

/-- A lowered count is in range, unless nothing is left. -/
theorem Counted.lowered_mem (h : s.Counted) (hcount : s.count? key = some c)
    (hleft : lowered nesting c ≠ 0) : 1 ≤ lowered nesting c ∧ lowered nesting c ≤ maxCount :=
  ⟨Nat.one_le_iff_ne_zero.2 hleft, Nat.le_trans lowered_le (h key c hcount).2⟩

/-- A stop takes one off a count, and stores what is left unless that is nothing. -/
theorem Counted.stop (h : s.Counted) (nesting : Bool) (key : Key) :
    (s.stop nesting key).1.Counted :=
  stop_cases (fun _ => h) (fun _ _ _ => h.erase) fun _ hcount hleft =>
    h.put (h.lowered_mem hcount hleft)

theorem count_of_count? (h : s.count? key = some c) : s.count key = c := by
  rw [count, h, Option.getD_some]

theorem count_of_count?_none (h : s.count? key = none) : s.count key = 0 := by
  rw [count, h, Option.getD_none]

theorem mem_keys_of_count? (h : s.count? key = some c) : key ∈ s.keys :=
  mem_keys_iff.2 (by rw [h]; exact Option.some_ne_none c)

/-- A slice is held exactly while its count is positive. -/
theorem Counted.mem_keys_iff (h : s.Counted) : key ∈ s.keys ↔ 0 < s.count key := by
  rw [Slices.mem_keys_iff]
  cases hcount : s.count? key with
  | none => simp [count_of_count?_none hcount]
  | some c => simp [count_of_count? hcount, Nat.pos_iff_ne_zero,
      Nat.one_le_iff_ne_zero.1 (h key c hcount).1]

/-! ## The count of every slice -/

theorem count_put : (s.put key c).count other = if other = key then c else s.count other := by
  rw [count, count?_put]
  split_ifs <;> rfl

theorem count_erase : (s.erase key).count other = if other = key then 0 else s.count other := by
  rw [count, count?_erase]
  split_ifs <;> rfl

/-- Where a slice has the count already, nothing is to be written. -/
theorem count_eq_ite (h : s.count key = c) :
    s.count other = if other = key then c else s.count other := by
  split_ifs with ho
  · rw [ho, h]
  · rfl

/-- A start raises the count of its slice and no other, unless it is dropped. -/
theorem Counted.count_start (h : s.Counted) (hroom : s.drops limit key = false) :
    (s.start nesting limit key).1.count other =
      if other = key then raised nesting (s.count key) else s.count other := by
  have hheld : ∀ c, s.count? key = some c → s.count key ≠ 0 := by
    intro c hcount
    rw [count_of_count? hcount]
    exact Nat.one_le_iff_ne_zero.1 (h key c hcount).1
  refine start_cases (P := fun t => t.count other = _) ?_ ?_ ?_ ?_
  · intro c hcount hnesting
    rw [raised, if_neg (hheld c hcount), if_pos hnesting, count_of_count? hcount]
    exact count_put
  · intro c hcount hnesting
    rw [raised, if_neg (hheld c hcount), hnesting, if_neg Bool.false_ne_true]
    exact count_eq_ite rfl
  · intro hcount hfull
    simp [drops, hcount, hfull] at hroom
  · intro hcount _
    rw [count_of_count?_none hcount, raised, if_pos rfl]
    exact count_put

/-- A stop lowers the count of its slice and no other. -/
theorem count_stop : (s.stop nesting key).1.count other =
    if other = key then lowered nesting (s.count key) else s.count other := by
  refine stop_cases (P := fun t => t.count other = _) ?_ ?_ ?_
  · intro hcount
    have hzero : lowered nesting 0 = 0 := Nat.le_zero.1 lowered_le
    rw [count_of_count?_none hcount, hzero]
    exact count_eq_ite (count_of_count?_none hcount)
  · intro c hcount hleft
    rw [count_of_count? hcount, hleft]
    exact count_erase
  · intro c hcount _
    rw [count_of_count? hcount]
    exact count_put

/-! ## How many slices are held -/

theorem size_erase_le : (s.erase key).size ≤ s.size :=
  List.length_filter_le _ _

theorem size_put_le : (s.put key c).size ≤ s.size + 1 :=
  Nat.succ_le_succ size_erase_le

/-- Writing the count of a held slice makes no slices more. -/
theorem size_put_of_mem (h : key ∈ s.keys) : (s.put key c).size ≤ s.size := by
  obtain ⟨entry, hentry, rfl⟩ := List.mem_map.1 h
  have hlt : (s.erase entry.1).size < s.size :=
    List.length_filter_lt_length_iff_exists.2 ⟨entry, hentry, by simp⟩
  exact hlt

/-- A slice that is not held yet makes one slice more. -/
theorem size_put_of_notMem (h : key ∉ s.keys) : (s.put key c).size = s.size + 1 := by
  have hsame : s.erase key = s := by
    obtain ⟨entries⟩ := s
    refine congrArg Slices.mk (List.filter_eq_self.2 fun entry hentry => bne_iff_ne.2 ?_)
    rintro rfl
    exact h (List.mem_map_of_mem hentry)
  show (s.erase key).size + 1 = s.size + 1
  rw [hsame]

/-- A start makes one slice more at most. -/
theorem size_start_le : (s.start nesting limit key).1.size ≤ s.size + 1 :=
  start_cases (P := fun t => t.size ≤ s.size + 1) (fun _ _ _ => size_put_le)
    (fun _ _ _ => Nat.le_succ _) (fun _ _ => Nat.le_succ _) (fun _ _ => size_put_le)

/-- A start that found room, and left no more slices than another limit allows, finds room under
that limit as well. -/
theorem drops_of_size_start_le {limit' : Nat} (hroom : s.drops limit key = false)
    (hsize : (s.start nesting limit key).1.size ≤ limit') : s.drops limit' key = false := by
  cases hcount : s.count? key with
  | some c => exact drops_of_mem (mem_keys_of_count? hcount)
  | none =>
    have hfree : key ∉ s.keys := fun hkey => mem_keys_iff.1 hkey hcount
    have hlimit : ¬ limit ≤ s.size := by simpa [drops, hcount] using hroom
    rw [start, hcount] at hsize
    simp only [hlimit, if_false, size_put_of_notMem hfree] at hsize
    simp [drops, hcount, Nat.lt_of_succ_le hsize]

/-- A stop makes no slices more. -/
theorem size_stop_le : (s.stop nesting key).1.size ≤ s.size :=
  stop_cases (P := fun t => t.size ≤ s.size) (fun _ => Nat.le_refl _) (fun _ _ _ => size_erase_le)
    (fun _ hcount _ => size_put_of_mem (mem_keys_of_count? hcount))

end Slices

/-- Whatever an event asks, the counts that are stored afterwards are in range. -/
theorem Simple.counted_serve {s : Simple} (h : s.slices.Counted) (request : Request) :
    (s.serve request).1.slices.Counted := by
  cases request with
  | nothing => exact h
  | sliceless => exact h
  | start key => exact h.start s.countNesting s.maxSlices key
  | stop key => exact h.stop s.countNesting key
  | stopAll => exact Slices.counted_empty

end EventConditions
