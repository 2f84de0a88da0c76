import Mathlib.Logic.Basic
import EventConditions.Simple

/-!
# What serving a request does

A request may move slices, and it may put a condition into another state. That slices moved is
reported exactly if the set of held keys is another one than before
(`Simple.slicesMoved_serve_iff`), whatever counts were raised or lowered. A condition that is in a
state to go with its slices, holding exactly while any is held, stays in such a state
(`Simple.backs_serve`).

Most requests that find nothing to do leave both alone (`Request.Idle.serve`). A start that finds no
room is one of them only once the state is known: it decides a condition of which nothing is known.
-/

namespace EventConditions

/-! ## Held keys -/

namespace Slices

variable {s t : Slices} {key other : Key}

theorem mem_keys_iff : key ∈ s.keys ↔ s.count? key ≠ none := by
  rw [count?, ne_eq, List.lookup_eq_none_iff, keys]
  constructor
  · intro hkey hnone
    obtain ⟨entry, hentry, rfl⟩ := List.mem_map.1 hkey
    simpa using hnone entry hentry
  · refine fun hsome => Decidable.byContradiction fun hout => ?_
    refine hsome fun entry hentry => bne_iff_ne.2 ?_
    rintro rfl
    exact hout (List.mem_map_of_mem hentry)

theorem keys_erase : (s.erase key).keys = s.keys.filter (· != key) := by
  rw [keys, keys, erase, List.filter_map]
  rfl

theorem keys_put {count : Nat} : (s.put key count).keys = key :: s.keys.filter (· != key) := by
  rw [← keys_erase]
  rfl

theorem mem_keys_erase : other ∈ (s.erase key).keys ↔ other ≠ key ∧ other ∈ s.keys := by
  rw [keys_erase, List.mem_filter, bne_iff_ne, and_comm]

theorem mem_keys_put {count : Nat} :
    other ∈ (s.put key count).keys ↔ other = key ∨ other ∈ s.keys := by
  rw [keys_put, ← keys_erase, List.mem_cons, mem_keys_erase]
  by_cases ho : other = key <;> simp [ho]

theorem nodup_keys_erase (h : s.keys.Nodup) : (s.erase key).keys.Nodup := by
  rw [keys_erase]
  exact h.filter _

theorem nodup_keys_put {count : Nat} (h : s.keys.Nodup) : (s.put key count).keys.Nodup := by
  rw [keys_put]
  exact List.nodup_cons.2 ⟨by simp, h.filter _⟩

theorem isEmpty_eq_false_iff : s.isEmpty = false ↔ ∃ key, key ∈ s.keys := by
  rw [isEmpty, List.isEmpty_eq_false_iff_exists_mem, keys]
  simp

/-- A slice that is counted is held. -/
theorem isEmpty_of_count_pos (h : 0 < s.count key) : s.isEmpty = false := by
  refine isEmpty_eq_false_iff.2 ⟨key, mem_keys_iff.2 fun hnone => ?_⟩
  simp [count, hnone] at h

/-- Some key is held after and was not before, or the other way round. -/
def Moved (before after : Slices) : Prop :=
  ∃ key, ¬ (key ∈ before.keys ↔ key ∈ after.keys)

theorem not_moved_iff : ¬ s.Moved t ↔ ∀ key, key ∈ s.keys ↔ key ∈ t.keys := by
  simp [Moved]

theorem not_moved_self (s : Slices) : ¬ s.Moved s :=
  not_moved_iff.2 fun _ => Iff.rfl

/-- While nothing moves, there are slices or none as before. -/
theorem isEmpty_eq_of_not_moved (h : ¬ s.Moved t) : t.isEmpty = s.isEmpty := by
  rw [Bool.eq_iff_iff, ← not_iff_not, Bool.not_eq_true, Bool.not_eq_true, isEmpty_eq_false_iff,
    isEmpty_eq_false_iff]
  exact exists_congr fun key => (not_moved_iff.1 h key).symm

/-- Writing the count of a held key moves nothing. -/
theorem not_moved_put (h : key ∈ s.keys) (count : Nat) : ¬ s.Moved (s.put key count) := by
  refine not_moved_iff.2 fun other => ?_
  rw [mem_keys_put]
  exact ⟨.inr, fun ho => ho.elim (fun heq => heq ▸ h) id⟩

/-- A start reports whether slices moved. -/
theorem start_snd_iff (s : Slices) (nesting : Bool) (limit : Nat) (key : Key) :
    (s.start nesting limit key).2 = true ↔ s.Moved (s.start nesting limit key).1 := by
  unfold start
  cases hcount : s.count? key with
  | some c =>
    have hkey : key ∈ s.keys := mem_keys_iff.2 (by rw [hcount]; simp)
    cases nesting with
    | false => simpa using not_moved_self s
    | true => simpa using not_moved_put hkey _
  | none =>
    have hkey : key ∉ s.keys := fun hkey => mem_keys_iff.1 hkey hcount
    by_cases hroom : limit ≤ s.size
    · simpa [hroom] using not_moved_self s
    · simp only [hroom, if_false, true_iff]
      exact ⟨key, by simp [hkey, mem_keys_put]⟩

/-- A start of a held key moves nothing. -/
theorem start_of_mem (h : key ∈ s.keys) (nesting : Bool) (limit : Nat) :
    ¬ s.Moved (s.start nesting limit key).1 := by
  obtain ⟨c, hcount⟩ := Option.ne_none_iff_exists'.1 (mem_keys_iff.1 h)
  rw [← start_snd_iff, start, hcount]
  exact Bool.false_ne_true

/-- A start that finds no room changes nothing. -/
theorem start_eq_of_drops {limit : Nat} (h : s.drops limit key = true) (nesting : Bool) :
    s.start nesting limit key = (s, false) := by
  rw [drops, Bool.and_eq_true, Option.isNone_iff_eq_none, decide_eq_true_iff] at h
  simp [start, h.1, h.2]

theorem start_of_drops {limit : Nat} (h : s.drops limit key = true) (nesting : Bool) :
    ¬ s.Moved (s.start nesting limit key).1 := by
  rw [start_eq_of_drops h]
  exact s.not_moved_self

/-- A stop reports whether slices moved. -/
theorem stop_snd_iff (s : Slices) (nesting : Bool) (key : Key) :
    (s.stop nesting key).2 = true ↔ s.Moved (s.stop nesting key).1 := by
  unfold stop
  cases hcount : s.count? key with
  | none => simpa using not_moved_self s
  | some c =>
    have hkey : key ∈ s.keys := mem_keys_iff.2 (by rw [hcount]; simp)
    dsimp only
    by_cases hleft : (if nesting then c - 1 else 0) = 0
    · rw [if_pos hleft]
      exact iff_of_true rfl ⟨key, by simp [hkey, mem_keys_erase]⟩
    · rw [if_neg hleft]
      exact iff_of_false Bool.false_ne_true (not_moved_put hkey _)

/-- Letting go of all slices moves them if there are any. -/
theorem moved_empty_iff : s.Moved {} ↔ s.isEmpty = false := by
  rw [isEmpty_eq_false_iff, Moved]
  simp [keys]

/-- The state goes with the slices: the condition holds exactly while any is held. -/
def Backs (s : Slices) (state : State) : Prop :=
  state = .holds ↔ s.isEmpty = false

instance (s : Slices) (state : State) : Decidable (s.Backs state) :=
  inferInstanceAs (Decidable (_ ↔ _))

/-- The state that slices stand for goes with them. -/
theorem backs_ofBool (s : Slices) : s.Backs (.ofBool !s.isEmpty) := by
  simp [Backs]

/-- No condition holds at first, as it should holding no slice. -/
theorem backs_initial (initial : Initial) : Backs {} initial.state := by
  cases initial <;> decide

/-- A state that is known and goes with the slices is the one that they stand for. -/
theorem Backs.eq_ofBool {state : State} (h : s.Backs state) (hknown : state ≠ .unknown) :
    state = .ofBool !s.isEmpty := by
  unfold Backs at h
  cases hempty : s.isEmpty <;> cases state <;> simp_all [State.ofBool]

end Slices

/-! ## Serving -/

namespace Simple

variable {s : Simple} {state : State}

/-- A condition reports that slices moved exactly if it holds other keys than before. -/
theorem slicesMoved_serve_iff (s : Simple) (request : Request) :
    (s.serve request).2.slicesMoved = true ↔ s.slices.Moved (s.serve request).1.slices := by
  cases request with
  | nothing => exact iff_of_false Bool.false_ne_true s.slices.not_moved_self
  | sliceless => exact iff_of_false Bool.false_ne_true s.slices.not_moved_self
  | start key => exact s.slices.start_snd_iff s.countNesting s.maxSlices key
  | stop key => exact s.slices.stop_snd_iff s.countNesting key
  | stopAll =>
    show (!s.slices.isEmpty) = true ↔ s.slices.Moved {}
    rw [Slices.moved_empty_iff, Bool.not_eq_true']

/-- Serving a request leaves a state that goes with the slices. -/
theorem backs_serve (h : s.slices.Backs state) (request : Request) :
    (s.serve request).1.slices.Backs ((s.serve request).2.state.getD state) := by
  cases request with
  | nothing => exact h
  | sliceless => exact h
  | start key => exact Slices.backs_ofBool _
  | stop key => exact Slices.backs_ofBool _
  | stopAll => exact Slices.backs_ofBool {}

/-- What a request does depends on the slices and settings only, not on which matchers it came
from. -/
theorem serve_congr {t : Simple} (hnesting : t.countNesting = s.countNesting)
    (hlimit : t.maxSlices = s.maxSlices) (hslices : t.slices = s.slices) (request : Request) :
    (t.serve request).1.slices = (s.serve request).1.slices ∧
      (t.serve request).2 = (s.serve request).2 := by
  cases request with
  | nothing => exact ⟨hslices, rfl⟩
  | sliceless => exact ⟨hslices, rfl⟩
  | start key => simp [serve, aggregate, hnesting, hlimit, hslices]
  | stop key => simp [serve, aggregate, hnesting, hslices]
  | stopAll => simp [serve, hslices]

/-- A start that moves nothing leaves a known state as it is. -/
theorem state_start_of_not_moved (h : s.slices.Backs state) (hknown : state ≠ .unknown) {key : Key}
    (hstill : ¬ s.slices.Moved (s.serve (.start key)).1.slices) :
    (s.serve (.start key)).2.state.getD state = state := by
  rw [h.eq_ofBool hknown, ← Slices.isEmpty_eq_of_not_moved hstill]
  rfl

end Simple

/-- The request finds nothing to do for a condition in the given state: there is none, it names no
slice, or it is a start of a slice that is held already or that there is no room for. The latter
only counts if the state is known. -/
inductive Request.Idle (s : Simple) (state : State) : Request → Prop
  | nothing : Idle s state .nothing
  | sliceless : Idle s state .sliceless
  | nested {key : Key} : key ∈ s.slices.keys → Idle s state (.start key)
  | dropped {key : Key} : s.slices.drops s.maxSlices key = true → state ≠ .unknown →
      Idle s state (.start key)

/-- An idle request moves no slice and leaves the state as it is. -/
theorem Request.Idle.serve {s : Simple} {state : State} {request : Request}
    (h : request.Idle s state) (hbacks : s.slices.Backs state) :
    ¬ s.slices.Moved (s.serve request).1.slices ∧
      (s.serve request).2.state.getD state = state := by
  cases h with
  | nothing => exact ⟨s.slices.not_moved_self, rfl⟩
  | sliceless => exact ⟨s.slices.not_moved_self, rfl⟩
  | @nested key hkey =>
    have hholds : state = .holds := hbacks.2 (Slices.isEmpty_eq_false_iff.2 ⟨key, hkey⟩)
    have hstill := Slices.start_of_mem hkey s.countNesting s.maxSlices
    exact ⟨hstill, Simple.state_start_of_not_moved hbacks (hholds ▸ by decide) hstill⟩
  | dropped hdrops hknown =>
    have hstill := Slices.start_of_drops hdrops s.countNesting
    exact ⟨hstill, Simple.state_start_of_not_moved hbacks hknown hstill⟩

end EventConditions
