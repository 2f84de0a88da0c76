import EventConditions.Proofs.Simple.Counters

/-!
# What a simple condition holds

Whatever events ask of a simple condition, it holds each slice once, no more of them than allowed,
each named by a key over the condition's dimensions and counted at least once, and exactly once
where nesting does not count (`Slices.Kept`). Starts are what the bounds are about: only a start
holds a new slice, and it needs room for it (`Slices.Kept.start`).

The state is known from the first event on that affects the condition, be it by a start that finds
no room (`Simple.unknown_serve_asked_iff`).
-/

namespace EventConditions

/-- A key that was taken from an event lists the wanted fields in the order wanted. -/
theorem Event.fields_of_key? {e : Event} {dimensions : List FieldId} {key : Key}
    (h : e.key? dimensions = some key) : key.fields.map Prod.fst = dimensions := by
  have hfields := congrArg (List.map Prod.fst) (Key.gather_eq_some_iff.1 h)
  simpa [List.map_map, Function.comp_def] using hfields.symm

/-- Without dimensions there is one key only. -/
theorem Key.eq_whole {key : Key} (h : key.fields.map Prod.fst = []) : key = .whole := by
  obtain ⟨fields⟩ := key
  exact congrArg Key.mk (List.map_eq_nil_iff.1 h)

/-! ## Slices -/

namespace Slices

variable {s : Slices} {nesting : Bool} {limit : Nat} {dimensions : List FieldId} {key other : Key}

/-- What is true of the slices that a condition with the given settings holds. -/
structure Kept (nesting : Bool) (limit : Nat) (dimensions : List FieldId) (s : Slices) : Prop where
  counted : s.Counted
  once : nesting = false → ∀ key c, s.count? key = some c → c = 1
  distinct : s.keys.Nodup
  size_le : s.size ≤ limit
  fields : ∀ key ∈ s.keys, key.fields.map Prod.fst = dimensions

theorem kept_empty : Kept nesting limit dimensions {} where
  counted := counted_empty
  once _ _ _ h := nomatch h
  distinct := List.nodup_nil
  size_le := Nat.zero_le limit
  fields _ h := absurd h List.not_mem_nil

theorem Kept.erase (h : s.Kept nesting limit dimensions) (key : Key) :
    (s.erase key).Kept nesting limit dimensions where
  counted := h.counted.erase
  once hnesting other c hc := by
    rw [count?_erase] at hc
    split_ifs at hc
    exact h.once hnesting other c hc
  distinct := nodup_keys_erase h.distinct
  size_le := Nat.le_trans size_erase_le h.size_le
  fields other ho := h.fields other (mem_keys_erase.1 ho).2

/-- A slice over the dimensions may be written if there is room for it and its count is in range. -/
theorem Kept.put (h : s.Kept nesting limit dimensions) {c : Nat} (hc : 1 ≤ c ∧ c ≤ maxCount)
    (honce : nesting = false → c = 1) (hsize : (s.put key c).size ≤ limit)
    (hfields : key.fields.map Prod.fst = dimensions) :
    (s.put key c).Kept nesting limit dimensions where
  counted := h.counted.put hc
  once hnesting other d hd := by
    rw [count?_put] at hd
    split_ifs at hd
    · cases hd
      exact honce hnesting
    · exact h.once hnesting other d hd
  distinct := nodup_keys_put h.distinct
  size_le := hsize
  fields other ho := by
    rcases mem_keys_put.1 ho with rfl | ho
    · exact hfields
    · exact h.fields other ho

theorem Kept.start (h : s.Kept nesting limit dimensions)
    (hfields : key.fields.map Prod.fst = dimensions) :
    (s.start nesting limit key).1.Kept nesting limit dimensions := by
  refine start_cases (fun c hcount hnesting => ?_) (fun _ _ _ => h) (fun _ _ => h)
    fun _ hroom => ?_
  · have hsize : (s.put key (min (c + 1) maxCount)).size ≤ limit :=
      Nat.le_trans (size_put_of_mem (mem_keys_of_count? hcount)) h.size_le
    exact h.put (capped_mem c) (fun hoff => nomatch hnesting.symm.trans hoff) hsize hfields
  · exact h.put ⟨Nat.le_refl 1, by decide⟩ (fun _ => rfl) (Nat.le_trans size_put_le hroom) hfields

theorem Kept.stop (h : s.Kept nesting limit dimensions) (key : Key) :
    (s.stop nesting key).1.Kept nesting limit dimensions := by
  refine stop_cases (fun _ => h) (fun _ _ _ => h.erase key) fun c hcount hleft => ?_
  have hheld : key ∈ s.keys := mem_keys_of_count? hcount
  have honce : nesting = false → lowered nesting c = 1 := by
    rintro rfl
    exact absurd rfl hleft
  have hsize : (s.put key (lowered nesting c)).size ≤ limit :=
    Nat.le_trans (size_put_of_mem hheld) h.size_le
  exact h.put (h.counted.lowered_mem hcount hleft) honce hsize (h.fields key hheld)

/-- A start lowers no count. -/
theorem Counted.count_le_start (h : s.Counted) :
    s.count other ≤ (s.start nesting limit key).1.count other := by
  refine start_cases (P := fun t => s.count other ≤ t.count other) (fun c hcount _ => ?_)
    (fun _ _ _ => Nat.le_refl _) (fun _ _ => Nat.le_refl _) fun hcount _ => ?_
  · rw [count_put]
    split_ifs with ho
    · rw [ho, count_of_count? hcount]
      exact Nat.le_min.2 ⟨Nat.le_succ c, (h key c hcount).2⟩
    · exact Nat.le_refl _
  · rw [count_put]
    split_ifs with ho
    · rw [ho, count_of_count?_none hcount]
      exact Nat.zero_le 1
    · exact Nat.le_refl _

end Slices

/-! ## Requests -/

/-- The slice that is to be started, if any, is one over the given dimensions. -/
def Request.Fits (dimensions : List FieldId) : Request → Prop
  | .start key => key.fields.map Prod.fst = dimensions
  | _ => True

namespace Simple

variable {s : Simple} {state : State} {request : Request} {x : Judged}

theorem fits_asked (s : Simple) (e : Event) (matched : Nat → Bool) :
    (s.asked e matched).Fits s.dimensions := by
  unfold asked
  cases hkey : e.key? s.dimensions with
  | none =>
    dsimp only
    split_ifs <;> trivial
  | some key =>
    dsimp only
    split_ifs
    · trivial
    · trivial
    · trivial
    · exact Event.fields_of_key? hkey

/-- What is held is in order after a request as before. -/
theorem kept_serve (h : s.slices.Kept s.countNesting s.maxSlices s.dimensions)
    (hfits : request.Fits s.dimensions) :
    (s.serve request).1.slices.Kept s.countNesting s.maxSlices s.dimensions := by
  cases request with
  | nothing => exact h
  | sliceless => exact h
  | start key => exact h.start hfits
  | stop key => exact h.stop key
  | stopAll => exact Slices.kept_empty

/-- The event stops all slices, or it starts or stops one and says which. -/
def Affected (s : Simple) (x : Judged) : Prop :=
  s.stopAll.any (matchedIn x.verdicts) = true ∨
    (s.start.any (matchedIn x.verdicts) = true ∨ s.stop.any (matchedIn x.verdicts) = true) ∧
      ∃ key, x.event.key? s.dimensions = some key

theorem affected_serve (request : Request) : (s.serve request).1.Affected x ↔ s.Affected x := by
  rw [serve_fst]
  rfl

/-- A condition that is not affected is asked nothing, or nothing of a slice. -/
theorem asked_eq_iff : s.asked x.event (matchedIn x.verdicts) = .nothing ∨
    s.asked x.event (matchedIn x.verdicts) = .sliceless ↔ ¬ s.Affected x := by
  unfold asked Affected
  cases s.stopAll.any (matchedIn x.verdicts) <;> cases s.start.any (matchedIn x.verdicts) <;>
    cases s.stop.any (matchedIn x.verdicts) <;> cases x.event.key? s.dimensions <;> simp

/-- After a request nothing is known of the state only if nothing was before, and the request was
none or of no slice. -/
theorem unknown_serve_iff : (s.serve request).2.state.getD state = .unknown ↔
    state = .unknown ∧ (request = .nothing ∨ request = .sliceless) := by
  cases request with
  | nothing => simp [serve]
  | sliceless => simp [serve]
  | start key => simp [serve, aggregate]
  | stop key => simp [serve, aggregate]
  | stopAll => simp [serve]

/-- The state stays unknown until an event affects the condition. -/
theorem unknown_serve_asked_iff :
    (s.serve (s.asked x.event (matchedIn x.verdicts))).2.state.getD state = .unknown ↔
      state = .unknown ∧ ¬ s.Affected x := by
  rw [unknown_serve_iff, asked_eq_iff]

end Simple

end EventConditions
