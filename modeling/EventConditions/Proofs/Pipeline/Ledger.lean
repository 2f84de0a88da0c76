import Mathlib.Data.Finset.Card
import Mathlib.Data.Finset.Dedup
import EventConditions.Pipeline
import EventConditions.Proofs.Graph.Sweep
import EventConditions.Proofs.Simple

/-!
# The history of a simple condition

What a simple condition has come to after some events can be said without matcher indices, verdicts
or counters. A `Ledger` keeps the keys that were started and not yet stopped, a key as often as it
is nested, and its step reads the configuration by name. A graph keeps one count per held key
instead; the two agree (`Slices.Tallies`) as long as no count reaches the highest one that is kept,
which takes as many events.
-/

namespace EventConditions

/-! ## What matches -/

/-- The event passes the test: it has the field, with the value or with another one. -/
def Predicate.Passes (e : Event) : Predicate → Prop
  | .equals field value => e.get? field = some value
  | .differs field value => ∃ v ∈ e.get? field, v ≠ value

/-- The event has the tag and passes every test. -/
def Matcher.Matches (m : Matcher) (e : Event) : Prop :=
  e.tag = m.tag ∧ ∀ predicate ∈ m.predicates, predicate.Passes e

/-- There is a name, and the matcher of that name matches. -/
def Config.Matched (c : Config) (e : Event) (name? : Option String) : Prop :=
  ∃ m ∈ c.matchers, name? = some m.name ∧ m.Matches e

instance (e : Event) : (predicate : Predicate) → Decidable (predicate.Passes e)
  | .equals _ _ => inferInstanceAs (Decidable (_ = _))
  | .differs _ value => inferInstanceAs (Decidable (∃ v ∈ e.get? _, v ≠ value))

instance (m : Matcher) (e : Event) : Decidable (m.Matches e) :=
  inferInstanceAs (Decidable (_ ∧ _))

instance (c : Config) (e : Event) (name? : Option String) : Decidable (c.Matched e name?) :=
  inferInstanceAs (Decidable (∃ m ∈ c.matchers, _))

theorem Predicate.test_iff {e : Event} {predicate : Predicate} :
    predicate.test e = true ↔ predicate.Passes e := by
  cases predicate with
  | equals field value => simp [test, Passes]
  | differs field value => cases hget : e.get? field <;> simp [test, Passes, hget]

/-- A verdict says whether the matcher matches. -/
theorem Matcher.isMatched_verdict {m : Matcher} {e : Event} :
    (m.verdict e).isMatched = true ↔ m.Matches e := by
  rw [verdict, Verdict.isMatched_ofBool, Bool.and_eq_true, beq_iff_eq, List.all_eq_true, Matches]
  exact and_congr_right fun _ => forall₂_congr fun _ _ => Predicate.test_iff

/-! ## Ledgers -/

/-- What a simple condition has come to: the keys it holds, each as often as it is nested, and its
state. -/
structure Ledger where
  held : Multiset Key
  state : State

namespace Ledger

/-- Nothing is held at first. -/
def initial (spec : SimpleSpec) : Ledger where
  held := 0
  state := spec.initial.state

/-- The condition holds while it holds any key. -/
def settled (held : Multiset Key) : Ledger where
  held
  state := if held = 0 then .fails else .holds

/-- One more start. It raises the count of a held key if nesting counts, and adds another key unless
as many as allowed are held. -/
def raise (nesting : Bool) (limit : Nat) (key : Key) (held : Multiset Key) : Multiset Key :=
  if key ∈ held then if nesting then key ::ₘ held else held
  else if held.toFinset.card < limit then key ::ₘ held
  else held

/-- One stop. It takes back one start of the key if nesting counts, and all of them if not. -/
def lower (nesting : Bool) (key : Key) (held : Multiset Key) : Multiset Key :=
  if nesting then held.erase key else held.filter (· ≠ key)

/-- What one event does. A stop of all keys goes before a stop of the event's key, and that before a
start of it; without the fields that make up the key neither of them does anything. -/
def step (c : Config) (spec : SimpleSpec) (l : Ledger) (e : Event) : Ledger :=
  if c.Matched e spec.stopAll then { held := 0, state := .fails }
  else if c.Matched e spec.stop then
    match e.key? spec.dimensions with
    | some key => settled (lower spec.countNesting key l.held)
    | none => l
  else if c.Matched e spec.start then
    match e.key? spec.dimensions with
    | some key => settled (raise spec.countNesting c.limits.maxSlices.toNat key l.held)
    | none => l
  else l

/-- The ledger after a history. -/
def after (c : Config) (spec : SimpleSpec) (history : List Event) : Ledger :=
  history.foldl (step c spec) (initial spec)

theorem card_raise_le (nesting : Bool) (limit : Nat) (key : Key) (held : Multiset Key) :
    (raise nesting limit key held).card ≤ held.card + 1 := by
  unfold raise
  split_ifs <;> simp

theorem card_lower_le (nesting : Bool) (key : Key) (held : Multiset Key) :
    (lower nesting key held).card ≤ held.card := by
  unfold lower
  split_ifs
  · exact Multiset.card_erase_le
  · exact Multiset.card_le_card (Multiset.filter_le _ _)

/-- An event adds one start at most. -/
theorem card_step_le (c : Config) (spec : SimpleSpec) (l : Ledger) (e : Event) :
    (step c spec l e).held.card ≤ l.held.card + 1 := by
  unfold step
  split_ifs
  · simp
  · cases e.key? spec.dimensions with
    | none => exact Nat.le_succ _
    | some key => exact (card_lower_le _ _ _).trans (Nat.le_succ _)
  · cases e.key? spec.dimensions with
    | none => exact Nat.le_succ _
    | some key => exact card_raise_le _ _ _ _
  · exact Nat.le_succ _

/-- No more starts are held than there were events. -/
theorem card_after_le (c : Config) (spec : SimpleSpec) (history : List Event) :
    (after c spec history).held.card ≤ history.length := by
  induction history using List.reverseRecOn with
  | nil => simp [after, initial]
  | append_singleton history e ih =>
    rw [after, List.foldl_concat, List.length_append]
    exact (card_step_le _ _ _ _).trans (Nat.succ_le_succ ih)

end Ledger

/-! ## Counts of held keys -/

namespace Slices

/-- The slices are the held keys, each with the number of its starts. -/
structure Tallies (s : Slices) (held : Multiset Key) : Prop where
  nodup : s.keys.Nodup
  count : ∀ key, s.count? key = if key ∈ held then some (held.count key) else none

variable {s : Slices} {held held' : Multiset Key} {key : Key}

/-- Nothing is held at first. -/
theorem Tallies.empty : Tallies {} 0 where
  nodup := List.nodup_nil
  count _ := rfl

theorem Tallies.mem_keys_iff (h : s.Tallies held) : key ∈ s.keys ↔ key ∈ held := by
  rw [Slices.mem_keys_iff, h.count]
  split_ifs with hkey <;> simp [hkey]

/-- As many keys are held as slices. -/
theorem Tallies.size_eq (h : s.Tallies held) : s.size = held.toFinset.card := by
  have hkeys : held.toFinset = s.keys.toFinset := by
    ext key
    rw [Multiset.mem_toFinset, List.mem_toFinset, h.mem_keys_iff]
  rw [hkeys, List.toFinset_card_of_nodup h.nodup, keys, List.length_map, size]

/-- Slices are held exactly when keys are. -/
theorem Tallies.isEmpty_iff (h : s.Tallies held) : s.isEmpty = true ↔ held = 0 := by
  rw [isEmpty, List.isEmpty_iff]
  constructor
  · intro hentries
    refine Multiset.eq_zero_of_forall_notMem fun key hkey => ?_
    rw [← h.mem_keys_iff, keys, hentries] at hkey
    exact List.not_mem_nil hkey
  · rintro rfl
    have hkeys : s.keys = [] := List.eq_nil_iff_forall_not_mem.2 fun key hkey =>
      Multiset.notMem_zero key (h.mem_keys_iff.1 hkey)
    exact List.map_eq_nil_iff.1 hkeys

/-- What two multisets count alike, they hold alike. -/
theorem count?_congr (h : s.Tallies held) (hcount : held'.count key = held.count key) :
    s.count? key = if key ∈ held' then some (held'.count key) else none := by
  have hmem : key ∈ held' ↔ key ∈ held := by
    rw [← Multiset.count_pos, ← Multiset.count_pos, hcount]
  rw [h.count, hcount, if_congr hmem rfl rfl]

/-- Writing the count of a held key. -/
theorem Tallies.put (h : s.Tallies held) (hkey : key ∈ held')
    (hother : ∀ other, other ≠ key → held'.count other = held.count other) :
    (s.put key (held'.count key)).Tallies held' where
  nodup := nodup_keys_put h.nodup
  count other := by
    rw [count?_put]
    by_cases ho : other = key
    · subst ho
      rw [if_pos rfl, if_pos hkey]
    · rw [if_neg ho]
      exact count?_congr h (hother other ho)

/-- Letting go of a key that is held no longer. -/
theorem Tallies.erase (h : s.Tallies held) (hkey : key ∉ held')
    (hother : ∀ other, other ≠ key → held'.count other = held.count other) :
    (s.erase key).Tallies held' where
  nodup := nodup_keys_erase h.nodup
  count other := by
    rw [count?_erase]
    by_cases ho : other = key
    · subst ho
      rw [if_pos rfl, if_neg hkey]
    · rw [if_neg ho]
      exact count?_congr h (hother other ho)

/-- A start counts as in the ledger while no count is at the highest one that is kept. -/
theorem Tallies.start (h : s.Tallies held) (hroom : held.card < maxCount) (nesting : Bool)
    (limit : Nat) (key : Key) :
    (s.start nesting limit key).1.Tallies (Ledger.raise nesting limit key held) := by
  have hother : ∀ other, other ≠ key → (key ::ₘ held).count other = held.count other :=
    fun other ho => Multiset.count_cons_of_ne ho held
  unfold Slices.start Ledger.raise
  by_cases hkey : key ∈ held
  · rw [h.count, if_pos hkey, if_pos hkey]
    cases nesting with
    | false => exact h
    | true =>
      -- a count is no more than the number of all starts, so it is not cut off
      have hcount : min (held.count key + 1) maxCount = (key ::ₘ held).count key := by
        have := Multiset.count_le_card key held
        rw [Multiset.count_cons_self]
        omega
      show (s.put key (min (held.count key + 1) maxCount)).Tallies (key ::ₘ held)
      rw [hcount]
      exact h.put (Multiset.mem_cons_self key held) hother
  · rw [h.count, if_neg hkey, if_neg hkey]
    dsimp only
    rw [h.size_eq]
    by_cases hlimit : held.toFinset.card < limit
    · rw [if_neg (Nat.not_le.2 hlimit), if_pos hlimit]
      have hcount : (key ::ₘ held).count key = 1 := by
        rw [Multiset.count_cons_self, Multiset.count_eq_zero_of_notMem hkey]
      have hput := h.put (Multiset.mem_cons_self key held) hother
      rwa [hcount] at hput
    · rw [if_pos (Nat.not_lt.1 hlimit), if_neg hlimit]
      exact h

/-- A stop counts as in the ledger. -/
theorem Tallies.stop (h : s.Tallies held) (nesting : Bool) (key : Key) :
    (s.stop nesting key).1.Tallies (Ledger.lower nesting key held) := by
  have hother : ∀ other, other ≠ key →
      (Ledger.lower nesting key held).count other = held.count other := by
    intro other ho
    unfold Ledger.lower
    split_ifs
    · exact Multiset.count_erase_of_ne ho held
    · exact Multiset.count_filter_of_pos ho
  have hself : (Ledger.lower nesting key held).count key =
      if nesting then held.count key - 1 else 0 := by
    unfold Ledger.lower
    split_ifs
    · exact Multiset.count_erase_self key held
    · exact Multiset.count_filter_of_neg (by simp)
  unfold Slices.stop
  by_cases hkey : key ∈ held
  · rw [h.count, if_pos hkey]
    dsimp only
    -- what is left of the key decides whether it is let go or written back
    rw [← hself]
    by_cases hleft : (Ledger.lower nesting key held).count key = 0
    · rw [if_pos hleft]
      exact h.erase (Multiset.count_eq_zero.1 hleft) hother
    · rw [if_neg hleft]
      exact h.put (Multiset.count_ne_zero.1 hleft) hother
  · have hsame : Ledger.lower nesting key held = held := by
      unfold Ledger.lower
      split_ifs
      · exact Multiset.erase_of_notMem hkey
      · exact Multiset.filter_eq_self.2 fun other ho => by
          rintro rfl
          exact hkey ho
    rw [h.count, if_neg hkey, hsame]
    exact h

end Slices

/-! ## One event -/

namespace Simple

/-- The simple condition has the settings of the specification, and what matched by index is what
matched by name. -/
structure Driven (s : Simple) (c : Config) (spec : SimpleSpec) (e : Event) (matched : Nat → Bool) :
    Prop where
  nesting : s.countNesting = spec.countNesting
  dimensions : s.dimensions = spec.dimensions
  limit : s.maxSlices = c.limits.maxSlices.toNat
  start : s.start.any matched = true ↔ c.Matched e spec.start
  stop : s.stop.any matched = true ↔ c.Matched e spec.stop
  stopAll : s.stopAll.any matched = true ↔ c.Matched e spec.stopAll

/-- A condition is settled as its ledger is. -/
theorem aggregate_eq_settled {s : Simple} {held : Multiset Key} (h : s.slices.Tallies held) :
    s.aggregate = (Ledger.settled held).state := by
  unfold aggregate Ledger.settled
  by_cases hheld : held = 0
  · rw [h.isEmpty_iff.2 hheld, if_pos hheld]
    rfl
  · rw [Bool.eq_false_iff.2 (mt h.isEmpty_iff.1 hheld), if_neg hheld]
    rfl

/-- Serving what an event asks is one step of the ledger. -/
theorem Driven.serve {s : Simple} {c : Config} {spec : SimpleSpec} {e : Event}
    {matched : Nat → Bool} (h : s.Driven c spec e matched) {l : Ledger}
    (htallies : s.slices.Tallies l.held) (hroom : l.held.card < Slices.maxCount) :
    (s.serve (s.asked e matched)).1.slices.Tallies (l.step c spec e).held ∧
      (s.serve (s.asked e matched)).2.state.getD l.state = (l.step c spec e).state := by
  -- the cases come in the order in which the ledger asks the matchers
  unfold Simple.asked Ledger.step
  rw [h.dimensions]
  by_cases hstopAll : c.Matched e spec.stopAll
  · rw [if_pos hstopAll, if_pos (h.stopAll.2 hstopAll)]
    exact ⟨.empty, rfl⟩
  rw [if_neg hstopAll, if_neg (mt h.stopAll.1 hstopAll)]
  by_cases hstop : c.Matched e spec.stop
  · rw [if_pos hstop, h.stop.2 hstop, Bool.not_true, Bool.and_false, if_neg Bool.false_ne_true]
    cases e.key? spec.dimensions with
    | none => exact ⟨htallies, rfl⟩
    | some key =>
      have hstopped := htallies.stop s.countNesting key
      rw [h.nesting] at hstopped
      dsimp only
      rw [if_pos rfl, Simple.serve, h.nesting]
      exact ⟨hstopped, aggregate_eq_settled hstopped⟩
  rw [if_neg hstop, Bool.eq_false_iff.2 (mt h.stop.1 hstop), Bool.not_false, Bool.and_true]
  by_cases hstart : c.Matched e spec.start
  · rw [if_pos hstart, h.start.2 hstart, Bool.not_true, if_neg Bool.false_ne_true]
    cases e.key? spec.dimensions with
    | none => exact ⟨htallies, rfl⟩
    | some key =>
      have hstarted := htallies.start hroom s.countNesting s.maxSlices key
      rw [h.nesting, h.limit] at hstarted
      dsimp only
      rw [if_neg Bool.false_ne_true, Simple.serve, h.nesting, h.limit]
      exact ⟨hstarted, aggregate_eq_settled hstarted⟩
  · rw [if_neg hstart, Bool.eq_false_iff.2 (mt h.start.1 hstart), Bool.not_false, if_pos rfl]
    exact ⟨htallies, rfl⟩

end Simple

end EventConditions
