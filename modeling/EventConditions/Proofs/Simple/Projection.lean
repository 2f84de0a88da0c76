import Mathlib.Data.List.Nodup
import EventConditions.Proofs.Graph.Query
import EventConditions.Proofs.Simple.Counters

/-!
# Keys of events and keys of queries

The key of a slice is made in two ways: in a pass out of the fields of an event, in a query out of a
key with more fields. Both must list the same values in the same order, or a slice that is held
could not be found. They do, because a gathered key gives for every wanted field the value that it
was gathered from (`Key.get?_of_gather`), whatever the order of the fields and however often they
are repeated. So projecting a key gathers from its source anew (`Key.project_of_gather`), be that
source an event or a third key.

For a simple condition this means that what an event starts is found by every query whose key was
taken from that event (`Key.projections_agree`).
-/

namespace EventConditions

namespace Key

variable {value? : FieldId → Option Value} {wanted narrower : List FieldId} {k : Key}

theorem gather_cons_eq_some_iff {field : FieldId} {rest : List FieldId} :
    gather value? (field :: rest) = some k ↔ ∃ v others, value? field = some v ∧
      gather value? rest = some others ∧ k = ⟨(field, v) :: others.fields⟩ := by
  rw [gather]
  cases value? field <;> cases gather value? rest <;> simp [eq_comm]

/-- For a wanted field, a gathered key gives the value that it was gathered from. -/
theorem get?_of_gather (h : gather value? wanted = some k) {field : FieldId}
    (hfield : field ∈ wanted) : k.get? field = value? field := by
  induction wanted generalizing k with
  | nil => exact absurd hfield List.not_mem_nil
  | cons first rest ih =>
    obtain ⟨v, others, hv, hothers, rfl⟩ := gather_cons_eq_some_iff.1 h
    rw [get?, List.lookup_cons]
    by_cases hfirst : field = first
    · rw [hfirst, beq_self_eq_true, hv]
    · rw [beq_false_of_ne hfirst]
      exact ih hothers ((List.mem_cons.1 hfield).resolve_left hfirst)

/-- A key projected onto fields that were wanted of it is the key gathered from its source. -/
theorem project_of_gather (h : gather value? wanted = some k) (hsub : narrower ⊆ wanted) :
    k.project narrower = gather value? narrower :=
  gather_congr fun _ hfield => get?_of_gather h (hsub hfield)

/-- Where a key could be gathered, one over fewer fields can. -/
theorem exists_gather_of_subset (h : gather value? wanted = some k) (hsub : narrower ⊆ wanted) :
    ∃ slice, gather value? narrower = some slice := by
  have hall := isSome_gather_iff.1 (Option.isSome_of_eq_some h)
  exact Option.isSome_iff_exists.1 (isSome_gather_iff.2 fun field hfield => hall field (hsub hfield))

theorem get?_eq_none_iff {field : FieldId} :
    k.get? field = none ↔ field ∉ k.fields.map Prod.fst := by
  rw [get?, List.lookup_eq_none_iff]
  constructor
  · intro hnone hmem
    obtain ⟨x, hx, rfl⟩ := List.mem_map.1 hmem
    exact bne_iff_ne.1 (hnone x hx) rfl
  · refine fun hout x hx => bne_iff_ne.2 ?_
    rintro rfl
    exact hout (List.mem_map_of_mem hx)

/-- Only a field that the key lacks stands against projecting it. -/
theorem project_eq_none_iff :
    k.project wanted = none ↔ ∃ field ∈ wanted, field ∉ k.fields.map Prod.fst := by
  rw [← Option.not_isSome_iff_eq_none, project, isSome_gather_iff]
  simp only [← get?_eq_none_iff, ← Option.not_isSome_iff_eq_none, not_forall, exists_prop]

/-- Of a field that is listed once, the key gives the value it is listed with. -/
theorem get?_of_mem (h : (k.fields.map Prod.fst).Nodup) {x : FieldId × Value} (hx : x ∈ k.fields) :
    k.get? x.1 = some x.2 := by
  obtain ⟨before, after, hfields⟩ := List.append_of_mem hx
  rw [hfields, List.map_append, List.map_cons, List.nodup_middle, List.nodup_cons] at h
  refine List.lookup_eq_some_iff.2 ⟨before, after, hfields, fun y hy => bne_iff_ne.2 fun heq => ?_⟩
  exact h.1 (List.mem_append_left _ (heq ▸ List.mem_map_of_mem hy))

/-- A key without repeated fields is its own projection onto them. -/
theorem project_self (h : (k.fields.map Prod.fst).Nodup) :
    k.project (k.fields.map Prod.fst) = some k := by
  rw [project, gather_eq_some_iff, List.map_map]
  exact List.map_congr_left fun x hx => congrArg (x.1, ·) (get?_of_mem h hx)

end Key

/-! ## Queries find what events start -/

namespace Slices

/-- A start leaves a count. -/
theorem raised_pos (nesting : Bool) (count : Nat) : 0 < raised nesting count := by
  have hmax : 0 < maxCount := by decide
  unfold raised
  split_ifs <;> omega

end Slices

namespace Simple

variable {s t : Simple} {x : Judged} {slice : Key}

/-- Whatever events are taken, the counts that are stored are in range. -/
theorem counted_takeAll (h : s.slices.Counted) {history : List Judged} {outcomes : List Outcome}
    (hrun : s.takeAll history = .ok (t, outcomes)) : t.slices.Counted := by
  induction history generalizing s outcomes with
  | nil =>
    obtain ⟨rfl, -⟩ := Prod.mk.inj (Except.ok.inj hrun)
    exact h
  | cons x rest ih =>
    obtain ⟨request, others, -, hrest, -⟩ := takeAll_cons_eq_ok_iff.1 hrun
    exact ih (counted_serve h request) hrest

/-- The slice that an event asks to start is that of its own fields. -/
theorem key?_of_request_start (h : s.request x.event x.verdicts = .ok (.start slice)) :
    x.event.key? s.dimensions = some slice := by
  have hasked := eq_asked_of_request h
  unfold asked at hasked
  cases hkey : x.event.key? s.dimensions with
  | none =>
    rw [hkey] at hasked
    split_ifs at hasked
  | some key =>
    rw [hkey] at hasked
    dsimp only at hasked
    split_ifs at hasked
    rw [Request.start.inj hasked]

/-- A query with a key that projects onto the slice finds a start that was not dropped. -/
theorem query_serve_start (hcounted : s.slices.Counted) (hdimensions : s.dimensions ≠ [])
    (hroom : ¬ s.Drops (.start slice)) {k : Key} (hslice : k.project s.dimensions = some slice)
    (state : State) : (s.serve (.start slice)).1.query (some k) state = .holds := by
  have hheld : 0 < (s.serve (.start slice)).1.slices.count slice := by
    rw [count_serve hcounted hroom, recount, if_pos rfl]
    exact Slices.raised_pos _ _
  exact replies_iff.1 (.held hdimensions hslice hheld)

end Simple

/-- **Keys of events and keys of queries agree.** A key taken from an event, projected onto fewer
fields, is the key that the event gives for those. Projections compose, fail only for want of a
field, and leave a key as it is on its own fields, if it repeats none. So when a simple condition
with dimensions, after any events, has taken another one as a start that was not dropped, it holds
for every query whose key lists at least the condition's dimensions of that event, be its state as
it may. -/
theorem Key.projections_agree :
    (∀ (e : Event) (wanted narrower : List FieldId) (k : Key), narrower ⊆ wanted →
      e.key? wanted = some k →
      ∃ slice, e.key? narrower = some slice ∧ k.project narrower = some slice) ∧
    (∀ (k p : Key) (wanted : List FieldId), k.project wanted = some p →
      p.project wanted = some p ∧
      ∀ narrower, narrower ⊆ wanted → p.project narrower = k.project narrower) ∧
    (∀ (k : Key) (wanted : List FieldId),
      k.project wanted = none ↔ ∃ field ∈ wanted, field ∉ k.fields.map Prod.fst) ∧
    (∀ k : Key, (k.fields.map Prod.fst).Nodup → k.project (k.fields.map Prod.fst) = some k) ∧
    ∀ (s t : Simple) (history : List Judged) (outcomes : List Outcome) (x : Judged) (slice : Key),
      s.slices = {} → s.takeAll history = .ok (t, outcomes) → t.dimensions ≠ [] →
      t.request x.event x.verdicts = .ok (.start slice) → ¬ t.Drops (.start slice) →
      ∃ u outcome, t.take x = .ok (u, outcome) ∧
        ∀ wanted k, t.dimensions ⊆ wanted → x.event.key? wanted = some k →
          ∀ state, u.query (some k) state = .holds := by
  refine ⟨fun e wanted narrower k hsub hk => ?_, fun k p wanted hp => ?_,
    fun k wanted => project_eq_none_iff, fun k hnodup => project_self hnodup, ?_⟩
  · obtain ⟨slice, hslice⟩ := exists_gather_of_subset hk hsub
    exact ⟨slice, hslice, (project_of_gather hk hsub).trans hslice⟩
  · have hnarrow := fun narrower (hsub : narrower ⊆ wanted) => project_of_gather hp hsub
    exact ⟨(hnarrow wanted (List.Subset.refl _)).trans hp, hnarrow⟩
  · intro s t history outcomes x slice hnone hrun hdimensions hrequest hroom
    have hcounted : t.slices.Counted :=
      Simple.counted_takeAll (hnone ▸ Slices.counted_empty) hrun
    refine ⟨_, _, Simple.take_eq_ok_iff.2 ⟨_, hrequest, rfl⟩, fun wanted k hsub hk state => ?_⟩
    have hslice : k.project t.dimensions = some slice :=
      (project_of_gather hk hsub).trans (Simple.key?_of_request_start hrequest)
    exact Simple.query_serve_start hcounted hdimensions hroom hslice state

/-- A user who is logged in logs in again, on a terminal. A key over some fields of that event, one
of them given twice, projects onto what the event gives for fewer of them, and finds the user's
slice. -/
theorem Key.projections_agree_logins :
    let x : Judged := ⟨{ tag := 7, fields := [(1, .int 5), (2, .str "tty"), (3, .bool true)] },
      #[.matched, .notMatched, .notMatched]⟩
    let k : Key := ⟨[(3, .bool true), (1, .int 5), (1, .int 5)]⟩
    let narrow : Key := ⟨[(1, .int 5), (3, .bool true)]⟩
    x.event.key? [3, 1, 1] = some k ∧ [1, 3] ⊆ ([3, 1, 1] : List FieldId) ∧
      x.event.key? [1, 3] = some narrow ∧ k.project [1, 3] = some narrow ∧
      narrow.project [3] = k.project [3] ∧ (narrow.fields.map Prod.fst).Nodup ∧
      narrow.project [1, 3] = some narrow ∧ narrow.project [3, 2] = none ∧
      ∃ t outcomes, Simple.logins.takeAll [Simple.loginBy 5 true false false] = .ok (t, outcomes) ∧
        t.dimensions ≠ [] ∧ t.request x.event x.verdicts = .ok (.start ⟨[(1, .int 5)]⟩) ∧
        ¬ t.Drops (.start ⟨[(1, .int 5)]⟩) ∧
        ∃ u outcome, t.take x = .ok (u, outcome) ∧ u.query (some k) .unknown = .holds := by
  intro x k narrow
  obtain ⟨hevent, hcompose, hnone, hself, hstart⟩ := Key.projections_agree
  have hk : x.event.key? [3, 1, 1] = some k := by decide
  have hsub : [1, 3] ⊆ ([3, 1, 1] : List FieldId) := by decide
  have hnarrow : x.event.key? [1, 3] = some narrow := by decide
  obtain ⟨slice, hslice, hproject⟩ := hevent x.event [3, 1, 1] [1, 3] k hsub hk
  obtain rfl : narrow = slice := Option.some.inj (hnarrow.symm.trans hslice)
  have hnodup : (narrow.fields.map Prod.fst).Nodup := by decide
  have hmissing : narrow.project [3, 2] = none := (hnone narrow [3, 2]).2 ⟨2, by decide, by decide⟩
  have hcovered : ∀ y ∈ [Simple.loginBy 5 true false false], Simple.logins.Covered y := by decide
  obtain ⟨t, outcomes, hrun⟩ := Simple.exists_takeAll hcovered
  have hready : t.dimensions ≠ [] ∧ t.dimensions ⊆ [3, 1, 1] ∧
      t.request x.event x.verdicts = .ok (.start ⟨[(1, .int 5)]⟩) ∧
      ¬ t.Drops (.start ⟨[(1, .int 5)]⟩) := by
    cases hrun
    decide
  obtain ⟨hdimensions, hwider, hrequest, hroom⟩ := hready
  obtain ⟨u, outcome, htake, hfound⟩ :=
    hstart Simple.logins t _ outcomes x _ rfl hrun hdimensions hrequest hroom
  exact ⟨hk, hsub, hnarrow, hproject, (hcompose k narrow [1, 3] hproject).2 [3] (by decide), hnodup,
    hself narrow hnodup, hmissing, t, outcomes, hrun, hdimensions, hrequest, hroom, u, outcome, htake,
    hfound [3, 1, 1] k hwider hk .unknown⟩

end EventConditions
