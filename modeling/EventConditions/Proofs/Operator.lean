import EventConditions.Operator

/-!
# What operators say

An operator's answer is computed by a scan that stops early and keeps a tally. Here it is said of
the children's states as a whole: one that is not decided leaves the result undecided, and else the
operator asks for some or all of them to hold or to fail (`combine_eq_join`).
-/

namespace EventConditions

namespace Operator

/-- What an operator says of decided states. -/
def Truth (states : List State) : Operator → Prop
  | .and => ∀ s ∈ states, s = .holds
  | .or => ∃ s ∈ states, s = .holds
  | .not => ∀ s ∈ states, s = .fails
  | .nand => ∃ s ∈ states, s = .fails
  | .nor => ∀ s ∈ states, s = .fails

instance (states : List State) : (op : Operator) → Decidable (op.Truth states)
  | .and => inferInstanceAs (Decidable (∀ s ∈ states, s = .holds))
  | .or => inferInstanceAs (Decidable (∃ s ∈ states, s = .holds))
  | .not => inferInstanceAs (Decidable (∀ s ∈ states, s = .fails))
  | .nand => inferInstanceAs (Decidable (∃ s ∈ states, s = .fails))
  | .nor => inferInstanceAs (Decidable (∀ s ∈ states, s = .fails))

/-- What an operator makes of states: nothing is decided while one of them is not. -/
def join (op : Operator) (states : List State) : State :=
  if .unknown ∈ states then .unknown else .ofBool (op.Truth states)

end Operator

/-- A scan ends at an unknown state, and else has met all states. -/
theorem Tally.scan_eq (t : Tally) (states : List State) :
    t.scan states = if .unknown ∈ states then none else some {
      anyHolds := t.anyHolds || states.any (· == .holds)
      anyFails := t.anyFails || states.any (· == .fails)
      first := t.first <|> states.head? } := by
  induction states generalizing t with
  | nil => simp [scan]
  | cons s rest ih =>
    rw [scan]
    by_cases hs : s = .unknown
    · simp [hs]
    · rw [if_neg hs, ih]
      by_cases hrest : State.unknown ∈ rest
      · simp [hrest]
      · have hmem : State.unknown ∉ s :: rest := by simp [hrest, Ne.symm hs]
        rw [if_neg hrest, if_neg hmem]
        obtain ⟨_, _, first⟩ := t
        cases first <;> simp [add, Bool.or_assoc]

/-- The scan gives what the operator makes of the states, provided that `not` is given one. -/
theorem combine_eq_join {op : Operator} {states : List State} (h : op = .not → states.length = 1) :
    combine op states = op.join states := by
  unfold combine Operator.join
  rw [Tally.scan_eq]
  by_cases hunknown : State.unknown ∈ states
  · rw [if_pos hunknown, if_pos hunknown]
  rw [if_neg hunknown, if_neg hunknown]
  have hdecided : ∀ s ∈ states, s = .holds ↔ s ≠ .fails := by
    intro s hs
    cases s with
    | unknown => exact absurd hs hunknown
    | fails => decide
    | holds => decide
  refine congrArg State.ofBool (Bool.eq_iff_iff.2 ?_)
  rw [decide_eq_true_iff]
  cases op with
  | and =>
    have hand : (∀ s ∈ states, s = .holds) ↔ ∀ s ∈ states, s ≠ .fails :=
      forall₂_congr hdecided
    simp only [Tally.answer, Operator.Truth, hand]
    simp
  | or => simp [Tally.answer, Operator.Truth]
  | not =>
    obtain ⟨s, rfl⟩ := List.length_eq_one_iff.1 (h rfl)
    simp [Tally.answer, Operator.Truth]
  | nand => simp [Tally.answer, Operator.Truth]
  | nor =>
    have hnor : (∀ s ∈ states, s = .fails) ↔ ∀ s ∈ states, s ≠ .holds :=
      forall₂_congr fun s hs => by
        rw [ne_eq, hdecided s hs]
        exact Decidable.not_not.symm
    simp only [Tally.answer, Operator.Truth, hnor]
    simp

/-- A state is told by whether it is decided and whether it is that the condition holds. -/
theorem State.eq_of_iff {s t : State} (hunknown : s = .unknown ↔ t = .unknown)
    (hholds : s = .holds ↔ t = .holds) : s = t := by
  cases s <;> cases t <;> simp_all

/-- The result is decided exactly if all states are. -/
theorem combine_eq_unknown_iff {op : Operator} {states : List State} :
    combine op states = .unknown ↔ .unknown ∈ states := by
  unfold combine
  rw [Tally.scan_eq]
  by_cases h : State.unknown ∈ states <;> simp [h]

/-- When the result is that the combination holds. -/
theorem combine_eq_holds_iff {op : Operator} {states : List State} :
    combine op states = .holds ↔ .unknown ∉ states ∧
      match op with
      | .and => .fails ∉ states
      | .or => .holds ∈ states
      | .not => states.head? = some .fails
      | .nand => .fails ∈ states
      | .nor => .holds ∉ states := by
  unfold combine
  rw [Tally.scan_eq]
  by_cases h : State.unknown ∈ states
  · simp [h]
  · cases op <;> simp [h, Tally.answer, List.forall_mem_ne']

/-- The order and number of the children do not matter, but for an operator that looks at the first
one only. -/
theorem combine_congr {op : Operator} {states states' : List State}
    (h : ∀ s, s ∈ states ↔ s ∈ states') (hnot : op = .not → states = states') :
    combine op states = combine op states' := by
  have hunknown : combine op states = .unknown ↔ combine op states' = .unknown := by
    rw [combine_eq_unknown_iff, combine_eq_unknown_iff, h]
  have hholds : combine op states = .holds ↔ combine op states' = .holds := by
    rw [combine_eq_holds_iff, combine_eq_holds_iff]
    cases op with
    | not => rw [hnot rfl]
    | _ => simp only [h]
  exact State.eq_of_iff hunknown hholds

/-! ## Which way operators carry truth -/

namespace State

/-- The states are decided alike, and the second holds if the first does. -/
def Implies (s t : State) : Prop :=
  (s = .unknown ↔ t = .unknown) ∧ (s = .holds → t = .holds)

theorem Implies.refl (s : State) : s.Implies s :=
  ⟨Iff.rfl, id⟩

/-- If the second state fails, so does the first. -/
theorem Implies.fails {s t : State} (h : s.Implies t) (ht : t = .fails) : s = .fails := by
  obtain ⟨hunknown, hholds⟩ := h
  cases s with
  | unknown => exact absurd (hunknown.1 rfl) (by simp [ht])
  | fails => rfl
  | holds => exact absurd (hholds rfl) (by simp [ht])

/-- The first state implies the second, or the second the first if `flipped`. -/
def Toward (flipped : Bool) (s t : State) : Prop :=
  if flipped then t.Implies s else s.Implies t

theorem toward_refl (flipped : Bool) (s : State) : Toward flipped s s := by
  cases flipped <;> exact .refl s

theorem toward_not {flipped : Bool} {s t : State} : Toward (!flipped) s t ↔ Toward flipped t s := by
  cases flipped <;> exact Iff.rfl

theorem Toward.unknown_iff {flipped : Bool} {s t : State} (h : Toward flipped s t) :
    s = .unknown ↔ t = .unknown := by
  cases flipped with
  | false => exact h.1
  | true => exact h.1.symm

end State

namespace Operator

/-- The operator turns truth around: the fewer children hold, the rather it does. -/
def negates : Operator → Bool
  | .and => false
  | .or => false
  | .not => true
  | .nand => true
  | .nor => true

end Operator

section Toward

variable {ι : Type} {op : Operator} {children : List ι} {before after : ι → State}

theorem mem_map_of_imp {s : State}
    (h : ∀ child ∈ children, before child = s → after child = s)
    (hmem : s ∈ children.map before) : s ∈ children.map after := by
  obtain ⟨child, hchild, hs⟩ := List.mem_map.1 hmem
  exact List.mem_map.2 ⟨child, hchild, h child hchild hs⟩

/-- An operator carries implications from the states of the children over to the results, if it does
not negate, and takes those in the other direction if it does. -/
theorem combine_implies
    (h : ∀ child ∈ children, State.Toward op.negates (before child) (after child)) :
    (combine op (children.map before)).Implies (combine op (children.map after)) := by
  have hunknown : .unknown ∈ children.map before ↔ .unknown ∈ children.map after := by
    rw [List.mem_map, List.mem_map]
    exact exists_congr fun child => and_congr_right fun hchild => (h child hchild).unknown_iff
  refine ⟨by rw [combine_eq_unknown_iff, combine_eq_unknown_iff, hunknown], fun hholds => ?_⟩
  rw [combine_eq_holds_iff] at hholds ⊢
  refine ⟨mt hunknown.2 hholds.1, ?_⟩
  replace hholds := hholds.2
  cases op with
  | and => exact mt (mem_map_of_imp fun child hchild => (h child hchild).fails) hholds
  | or => exact mem_map_of_imp (fun child hchild => (h child hchild).2) hholds
  | not =>
    cases children with
    | nil => exact nomatch hholds
    | cons first rest =>
      have hfirst : before first = .fails := Option.some.inj hholds
      exact congrArg some ((h first List.mem_cons_self).fails hfirst)
  | nand => exact mem_map_of_imp (fun child hchild => (h child hchild).fails) hholds
  | nor => exact mt (mem_map_of_imp fun child hchild => (h child hchild).2) hholds

/-- The same for implications in either direction. -/
theorem combine_toward {flipped : Bool}
    (h : ∀ child ∈ children, State.Toward (flipped ^^ op.negates) (before child) (after child)) :
    State.Toward flipped (combine op (children.map before)) (combine op (children.map after)) := by
  cases flipped with
  | false => exact combine_implies fun child hchild => by simpa using h child hchild
  | true =>
    exact combine_implies fun child hchild => State.toward_not.1 (by simpa using h child hchild)

end Toward

end EventConditions
