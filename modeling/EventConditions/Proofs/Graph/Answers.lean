import EventConditions.Graph.Query
import EventConditions.Proofs.Graph.Signals
import EventConditions.Proofs.Operator

/-!
# Answers to queries

The answers of all conditions to one query can be worked out along the evaluation order into a
table. In an ordered graph each of them is the answer that its rule gives from the finished table
(`Graph.Ordered.answers_eq`): a combination joins the answers of its children, just as its state
joins theirs. That a single condition is answered for from this table is shown apart.

So answers and states can be compared from the simple conditions upwards. The answer of a condition
is decided exactly if its state is, and without keys it is its state.
-/

namespace EventConditions

variable {n : Nat}

/-! ## Answers of simple conditions -/

namespace Simple

variable {s : Simple} {state : State} {key : Option Key}

/-- The answer for a slice implies the state: it is decided alike, and a slice that is held makes
the condition hold. -/
theorem query_implies (h : s.slices.Backs state) (key : Option Key) :
    (s.query key state).Implies state := by
  unfold query
  split
  · exact .refl state
  · split
    · exact .refl state
    · next slice _ =>
      split
      · next hheld =>
        have hholds : state = .holds := h.2 (Slices.isEmpty_of_count_pos hheld)
        rw [hholds]
        exact .refl _
      · split
        · next hunknown =>
          rw [show state = .unknown from eq_of_beq hunknown]
          exact .refl _
        · next hunknown => exact ⟨by simpa [State.isUnknown] using hunknown, nofun⟩

theorem query_of_dimensions_nil (h : s.dimensions = []) : s.query key state = state := by
  rw [query, h]
  rfl

theorem query_none : s.query none state = state := by
  unfold query
  split <;> rfl

end Simple

namespace Graph

/-- The answer of a resolved node, given those of its children. -/
def answer (q : Query) (name : String) (resolved : Resolved n) (table : Table n State) : State :=
  match resolved.rule with
  | .simple simple => simple.query (q.keyFor name) resolved.aggregate
  | .combination c => c.evaluate fun child => table.entry child

/-- Adds the answer of the condition at `i` to the table. -/
def addAnswer (g : Graph n) (q : Query) (table : Table n State) (i : Fin n) : Table n State :=
  match (g.nodes.entry i).resolved? with
  | some resolved => table.put i (answer q (g.nodes.entry i).name resolved table)
  | none => table

/-- The answers of all resolved conditions. -/
def answers (g : Graph n) (q : Query) : Table n State :=
  g.order.foldl (g.addAnswer q) (Table.fill n .unknown)

variable {g : Graph n} {q : Query}

/-- An answer depends on the answers of the children only. -/
theorem answer_congr {name : String} {x : Resolved n} {t t' : Table n State}
    (h : ∀ c ∈ x.rule.children, t'.entry c = t.entry c) :
    answer q name x t' = answer q name x t := by
  unfold answer
  cases hrule : x.rule with
  | simple s => rfl
  | combination c =>
    rw [hrule] at h
    exact congrArg (combine c.operator) (List.map_congr_left h)

/-- The table has the answers of the listed conditions. -/
def Answered (g : Graph n) (q : Query) (done : List (Fin n)) (table : Table n State) : Prop :=
  ∀ i ∈ done, ∀ x, (g.nodes.entry i).resolved? = some x →
    table.entry i = answer q (g.nodes.entry i).name x table

/-- One more answer, of a condition whose children were answered. -/
theorem Answered.add {done : List (Fin n)} {table : Table n State} {i : Fin n}
    (h : g.Answered q done table) (hi : i ∉ done)
    (hchildren : ∀ c ∈ (g.nodes.entry i).children, c ∈ done)
    (hclosed : ∀ j ∈ done, ∀ c ∈ (g.nodes.entry j).children, c ∈ done) :
    g.Answered q (done ++ [i]) (g.addAnswer q table i) := by
  have hkept : ∀ j, j ≠ i → (g.addAnswer q table i).entry j = table.entry j := by
    intro j hj
    unfold addAnswer
    split
    · exact Table.entry_put_ne _ hj _
    · rfl
  have hdone : ∀ j ∈ done, (g.addAnswer q table i).entry j = table.entry j := by
    intro j hj
    exact hkept j fun heq => hi (heq ▸ hj)
  intro j hj x hx
  have hread : ∀ c ∈ x.rule.children, c ∈ (g.nodes.entry j).children := by
    intro c hc
    rwa [Node.children, hx]
  rcases List.mem_append.1 hj with hj | hj
  · rw [hdone j hj, h j hj x hx]
    exact (answer_congr fun c hc => hdone c (hclosed j hj c (hread c hc))).symm
  · obtain rfl := List.mem_singleton.1 hj
    have hself : (g.addAnswer q table j).entry j = answer q (g.nodes.entry j).name x table := by
      rw [addAnswer, hx]
      exact Table.entry_put_self ..
    rw [hself]
    exact (answer_congr fun c hc => hdone c (hchildren c (hread c hc))).symm

/-- The answer of every condition is what its rule makes of the answers. -/
theorem Ordered.answers_eq (hg : g.Ordered) (q : Query) {i : Fin n} {x : Resolved n}
    (hx : (g.nodes.entry i).resolved? = some x) :
    (g.answers q).entry i = answer q (g.nodes.entry i).name x (g.answers q) := by
  have hall : g.Answered q g.order (g.answers q) := by
    refine hg.order_induction (P := fun done =>
      g.Answered q done (done.foldl (g.addAnswer q) (Table.fill n .unknown))) ?_ ?_
    · exact fun _ hi => absurd hi List.not_mem_nil
    · intro done i hi hchildren hclosed hdone
      rw [List.foldl_concat]
      exact hdone.add hi hchildren hclosed
  exact hall i (hg.mem_order i) x hx

/-- A simple condition answers for itself. -/
theorem Ordered.answers_simple (hg : g.Ordered) (q : Query) {i : Fin n} {s : Simple}
    (hs : (g.nodes.entry i).simple? = some s) :
    (g.answers q).entry i =
      s.query (q.keyFor (g.nodes.entry i).name) (g.nodes.entry i).aggregate := by
  obtain ⟨x, hx, hrule⟩ := Node.simple?_eq_some_iff.1 hs
  rw [hg.answers_eq q hx, answer, Node.aggregate_of_resolved hx]
  simp only [hrule]

/-- A combination joins the answers of its children. -/
theorem Ordered.answers_combination (hg : g.Ordered) (q : Query) {i : Fin n} {x : Resolved n}
    {c : Combination (Fin n)} (hx : (g.nodes.entry i).resolved? = some x)
    (hrule : x.rule = .combination c) :
    (g.answers q).entry i = c.evaluate (g.answers q).entry := by
  rw [hg.answers_eq q hx, answer]
  simp only [hrule]

/-! ## Answers and states -/

/-- A condition's answer is decided exactly if its state is. -/
theorem Coherent.answers_eq_unknown_iff (hg : g.Coherent) (hsettled : g.Settled) (q : Query)
    (i : Fin n) : (g.answers q).entry i = .unknown ↔ (g.nodes.entry i).aggregate = .unknown := by
  -- by the order: a combination is undecided if some child is
  induction i using hg.ordered.induction with
  | step i ih =>
    obtain ⟨x, hx⟩ := Option.ne_none_iff_exists'.1 (hg.resolved i)
    cases hrule : x.rule with
    | simple s =>
      have hs := Node.simple?_eq_some_iff.2 ⟨x, hx, hrule⟩
      rw [hg.ordered.answers_simple q hs]
      exact (Simple.query_implies (hsettled i s hs) _).1
    | combination c =>
      rw [Sweep.children_of_combination hx hrule] at ih
      rw [hg.ordered.answers_combination q hx hrule, hg.aggregate_combination hx hrule,
        Combination.evaluate, Combination.evaluate, combine_eq_unknown_iff, combine_eq_unknown_iff,
        List.mem_map, List.mem_map]
      exact exists_congr fun child => and_congr_right fun hchild => ih child hchild

/-- Asked without keys, every condition answers with its state. -/
theorem Coherent.answers_empty (hg : g.Coherent) (i : Fin n) :
    (g.answers {}).entry i = (g.nodes.entry i).aggregate := by
  induction i using hg.ordered.induction with
  | step i ih =>
    obtain ⟨x, hx⟩ := Option.ne_none_iff_exists'.1 (hg.resolved i)
    cases hrule : x.rule with
    | simple s =>
      rw [hg.ordered.answers_simple {} (Node.simple?_eq_some_iff.2 ⟨x, hx, hrule⟩)]
      exact Simple.query_none
    | combination c =>
      rw [Sweep.children_of_combination hx hrule] at ih
      rw [hg.ordered.answers_combination {} hx hrule, hg.aggregate_combination hx hrule]
      exact congrArg (combine c.operator) (List.map_congr_left ih)

end Graph

end EventConditions
