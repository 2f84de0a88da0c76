import Mathlib.Data.List.Basic
import EventConditions.Proofs.Operator

/-!
# Laws of operators

Over children of any number, an operator decides nothing while one of them is undecided, wherever
that child stands in the list. Over decided children `and` asks for all of them to hold and `or` for
one; `nand` and `nor` are their opposites, both as negated results and, by De Morgan's laws, as the
other operator over negated children. None of these four sees the order of the children or how often
a state occurs among them. Only `not` does, which looks at the first child (`combine_threeValued`).
-/

namespace EventConditions

namespace State

theorem negate_involutive : Function.Involutive negate
  | .unknown => rfl
  | .fails => rfl
  | .holds => rfl

theorem negate_eq_iff {s t : State} : s.negate = t ↔ s = t.negate :=
  negate_involutive.eq_iff

/-- A decided state that does not hold fails. -/
theorem eq_fails_iff {s : State} : s = .fails ↔ s ≠ .unknown ∧ s ≠ .holds := by
  cases s <;> decide

theorem mem_map_negate {s : State} {states : List State} :
    s ∈ states.map negate ↔ s.negate ∈ states :=
  List.mem_map_of_involutive negate_involutive

end State

variable {states : List State}

/-- Over decided children, `and` holds exactly if all of them do. -/
theorem combine_and_eq_holds_iff (h : .unknown ∉ states) :
    combine .and states = .holds ↔ ∀ s ∈ states, s = .holds := by
  have hjoin : combine .and states = Operator.and.join states := combine_eq_join nofun
  rw [hjoin, Operator.join, if_neg h, State.ofBool_eq_holds, decide_eq_true_iff, Operator.Truth]

/-- Over decided children, `or` holds exactly if one of them does. -/
theorem combine_or_eq_holds_iff (h : .unknown ∉ states) :
    combine .or states = .holds ↔ ∃ s ∈ states, s = .holds := by
  have hjoin : combine .or states = Operator.or.join states := combine_eq_join nofun
  rw [hjoin, Operator.join, if_neg h, State.ofBool_eq_holds, decide_eq_true_iff, Operator.Truth]

/-- Over decided children, `not` holds exactly if there is a first one and it fails. -/
theorem combine_not_eq_holds_iff (h : .unknown ∉ states) :
    combine .not states = .holds ↔ states.head? = some .fails := by
  rw [combine_eq_holds_iff]
  exact and_iff_right h

/-! ## Opposites -/

/-- Two operators are opposites of each other if over decided children exactly one of them holds. -/
theorem combine_eq_negate {op op' : Operator}
    (h : .unknown ∉ states → (combine op states = .holds ↔ combine op' states ≠ .holds)) :
    combine op states = (combine op' states).negate := by
  refine State.eq_of_iff ?_ ?_
  · rw [State.negate_eq_iff, State.negate, combine_eq_unknown_iff, combine_eq_unknown_iff]
  · rw [State.negate_eq_iff, State.negate, State.eq_fails_iff, ne_eq, combine_eq_unknown_iff]
    by_cases hunknown : State.unknown ∈ states
    · simp [combine_eq_holds_iff, hunknown]
    · rw [h hunknown, and_iff_right hunknown]

theorem combine_nand_eq_negate (states : List State) :
    combine .nand states = (combine .and states).negate :=
  combine_eq_negate fun hdecided => by simp [combine_eq_holds_iff, hdecided]

theorem combine_nor_eq_negate (states : List State) :
    combine .nor states = (combine .or states).negate :=
  combine_eq_negate fun hdecided => by simp [combine_eq_holds_iff, hdecided]

/-- **De Morgan.** No child holds exactly if all children's opposites do. -/
theorem combine_nor_eq_and (states : List State) :
    combine .nor states = combine .and (states.map State.negate) := by
  refine State.eq_of_iff ?_ ?_
  · rw [combine_eq_unknown_iff, combine_eq_unknown_iff, State.mem_map_negate, State.negate]
  · simp only [combine_eq_holds_iff, State.mem_map_negate, State.negate]

/-- **De Morgan.** Some child fails exactly if some child's opposite holds. -/
theorem combine_nand_eq_or (states : List State) :
    combine .nand states = combine .or (states.map State.negate) := by
  refine State.eq_of_iff ?_ ?_
  · rw [combine_eq_unknown_iff, combine_eq_unknown_iff, State.mem_map_negate, State.negate]
  · simp only [combine_eq_holds_iff, State.mem_map_negate, State.negate]

/-- **Operators on three-valued states.** Nothing is decided exactly while some child is undecided.
Otherwise `and` asks for all children to hold, `or` for one and `not` for a first one that fails.
`nand` and `nor` are the opposites of `and` and `or`. Every operator but `not` depends on which
states occur among the children only, not on their order or number, and `nor` and `nand` are `and`
and `or` over the opposite states. -/
theorem combine_threeValued (states : List State) :
    (∀ op, combine op states = .unknown ↔ .unknown ∈ states) ∧
    (.unknown ∉ states →
      (combine .and states = .holds ↔ ∀ s ∈ states, s = .holds) ∧
      (combine .or states = .holds ↔ ∃ s ∈ states, s = .holds) ∧
      (combine .not states = .holds ↔ states.head? = some .fails)) ∧
    combine .nand states = (combine .and states).negate ∧
    combine .nor states = (combine .or states).negate ∧
    (∀ op, op ≠ .not → ∀ others, (∀ s, s ∈ others ↔ s ∈ states) →
      combine op others = combine op states) ∧
    combine .nor states = combine .and (states.map State.negate) ∧
    combine .nand states = combine .or (states.map State.negate) := by
  refine ⟨fun op => combine_eq_unknown_iff, fun hdecided => ?_, combine_nand_eq_negate states,
    combine_nor_eq_negate states, fun op hop others hsame => ?_, combine_nor_eq_and states,
    combine_nand_eq_or states⟩
  · exact ⟨combine_and_eq_holds_iff hdecided, combine_or_eq_holds_iff hdecided,
      combine_not_eq_holds_iff hdecided⟩
  · exact combine_congr hsame fun hnot => absurd hnot hop

/-- `not` over three children goes by the first of them, and `nand` over the same children in
another order, one of them given once less, comes to the same. -/
theorem combine_threeValued_failsFirst :
    let states : List State := [.fails, .holds, .holds]
    .unknown ∉ states ∧ combine .not states = .holds ∧ combine .and states ≠ .holds ∧
      (∀ s, s ∈ [.holds, .fails] ↔ s ∈ states) ∧
      combine .nand [.holds, .fails] = combine .nand states := by
  intro states
  have hdecided : .unknown ∉ states := by decide
  have hsame : ∀ s, s ∈ [.holds, .fails] ↔ s ∈ states := by
    intro s
    cases s <;> decide
  obtain ⟨-, htruth, -, -, hset, -⟩ := combine_threeValued states
  obtain ⟨hand, -, hnot⟩ := htruth hdecided
  exact ⟨hdecided, hnot.2 rfl, fun h => absurd (hand.1 h) (by decide), hsame,
    hset .nand (by decide) _ hsame⟩

end EventConditions
