import Mathlib.Algebra.Ring.Parity
import EventConditions.Proofs.Graph.Query
import EventConditions.Proofs.Pipeline.Soundness

/-!
# Answers of a pipeline

A pipeline answers for single slices beside showing states. Whatever it was fed and whatever it is
asked, answers agree with states (`Pipeline.query_agrees`): a condition's answer is decided exactly
if its state is, and without keys it is its state. For slices the answer of a simple condition that
holds none of them may fail while its state holds, and never the other way round. Each operator that
negates turns this around, so it is the number of such operators on the paths down to conditions
with dimensions that says which of answer and state implies the other.
-/

namespace EventConditions

/-- A path of children leads from the condition of the given name down to a simple condition, across
a number of operators that negate. -/
inductive Config.Crosses (c : Config) : String → Nat → SimpleSpec → Prop
  | simple {condition spec} : condition ∈ c.conditions → condition.spec = .simple spec →
      Crosses c condition.name 0 spec
  | combination {condition operator children child k spec} : condition ∈ c.conditions →
      condition.spec = .combination operator children → child ∈ children →
      Crosses c child k spec → Crosses c condition.name (k + operator.negates.toNat) spec

section Crosses

variable {c : Config} (hnames : (c.conditions.map Condition.name).Nodup) {condition : Condition}
  (hmem : condition ∈ c.conditions) {k : Nat} {spec : SimpleSpec}
include hnames hmem

/-- The only path from a simple condition is that to itself. -/
theorem Config.crosses_simple_iff {own : SimpleSpec} (hspec : condition.spec = .simple own) :
    c.Crosses condition.name k spec ↔ k = 0 ∧ spec = own := by
  constructor
  · intro h
    generalize hname : condition.name = name at h
    cases h with
    | simple hmem' hspec' =>
      obtain rfl := List.inj_on_of_nodup_map hnames hmem hmem' hname
      exact ⟨rfl, Spec.simple.inj (hspec'.symm.trans hspec)⟩
    | combination hmem' hspec' _ _ =>
      obtain rfl := List.inj_on_of_nodup_map hnames hmem hmem' hname
      exact nomatch hspec.symm.trans hspec'
  · rintro ⟨rfl, rfl⟩
    exact .simple hmem hspec

/-- The paths from a combination are those from its children, across its own operator. -/
theorem Config.crosses_combination_iff {operator : Operator} {children : List String}
    (hspec : condition.spec = .combination operator children) :
    c.Crosses condition.name k spec ↔
      ∃ child ∈ children, ∃ l, c.Crosses child l spec ∧ k = l + operator.negates.toNat := by
  constructor
  · intro h
    generalize hname : condition.name = name at h
    cases h with
    | simple hmem' hspec' =>
      obtain rfl := List.inj_on_of_nodup_map hnames hmem hmem' hname
      exact nomatch hspec.symm.trans hspec'
    | combination hmem' hspec' hchild hbelow =>
      obtain rfl := List.inj_on_of_nodup_map hnames hmem hmem' hname
      obtain ⟨rfl, rfl⟩ := Spec.combination.inj (hspec.symm.trans hspec')
      exact ⟨_, hchild, _, hbelow, rfl⟩
  · rintro ⟨child, hchild, l, hbelow, rfl⟩
    exact .combination hmem hspec hchild hbelow

end Crosses

/-- All paths down to conditions with dimensions cross an odd number of operators that negate, if
`flipped`, and else an even number. -/
def Config.Turns (c : Config) (name : String) (flipped : Bool) : Prop :=
  ∀ k spec, c.Crosses name k spec → spec.dimensions ≠ [] → (Odd k ↔ flipped = true)

/-- The paths from a child are shorter by the operator of its parent. -/
theorem Config.Turns.of_child {c : Config} {condition : Condition} {operator : Operator}
    {children : List String} {flipped : Bool} (h : c.Turns condition.name flipped)
    (hmem : condition ∈ c.conditions) (hspec : condition.spec = .combination operator children)
    {child : String} (hchild : child ∈ children) : c.Turns child (flipped ^^ operator.negates) := by
  intro k spec hcrosses hdimensions
  have hparent := h _ spec (.combination hmem hspec hchild hcrosses) hdimensions
  cases hnegates : operator.negates with
  | false =>
    rw [hnegates] at hparent
    simpa using hparent
  | true =>
    rw [hnegates, Bool.toNat_true, Nat.odd_add_one] at hparent
    rw [Bool.xor_true, Bool.not_eq_true', ← Bool.not_eq_true, ← hparent, not_not]

namespace Pipeline

variable {config : Config} {p : Pipeline config.conditions.length}

/-- A condition is answered for from the answers of the graph. -/
theorem Stands.query_eq (h : p.Stands config) (i : Fin config.conditions.length) (q : Query) :
    p.query (config.conditions.get i).name q = .ok (some ((p.graph.answers q).entry i)) := by
  rw [query, h.indexOf?_eq i]
  dsimp only
  rw [h.coherent.ordered.query_eq h.coherent.isResolved]
  rfl

/-- Answers imply states, or states answers if the paths down turn truth around. -/
theorem Sound.answers_toward (h : p.Sound config) (q : Query) (i : Fin config.conditions.length)
    (flipped : Bool) (hturns : config.Turns (config.conditions.get i).name flipped) :
    State.Toward flipped ((p.graph.answers q).entry i) (p.graph.nodes.entry i).aggregate := by
  -- by the order: the operator of a combination takes what is known of the children over
  induction i using h.coherent.ordered.induction generalizing flipped with
  | step i ih =>
    have hmem : config.conditions.get i ∈ config.conditions := List.get_mem _ i
    rcases h.rule i with ⟨s, spec, hs, hspec, hrenders⟩ | ⟨x, c, hx, hrule, hspec⟩
    · rw [h.coherent.ordered.answers_simple q hs]
      by_cases hdimensions : spec.dimensions = []
      · have hnone : s.dimensions = [] := by
          cases hrenders
          rwa [← hdimensions]
        rw [Simple.query_of_dimensions_nil hnone]
        exact State.toward_refl flipped _
      · have hodd := hturns 0 spec (.simple hmem hspec) hdimensions
        obtain rfl : flipped = false := by simpa using hodd.symm
        exact Simple.query_implies (h.settled i s hs) _
    · rw [h.coherent.ordered.answers_combination q hx hrule,
        h.coherent.aggregate_combination hx hrule]
      refine combine_toward fun child hchild => ih child ?_ _ (hturns.of_child hmem hspec ?_)
      · rwa [Sweep.children_of_combination hx hrule]
      · exact List.mem_map_of_mem hchild

/-- **Answers agree with states.** After any steps of the pipeline of an accepted configuration, and
for every query, a condition's answer is decided exactly if its state is, and without keys it is its
state. If all paths from the condition down to simple conditions with dimensions cross an even
number of operators that negate, the condition holds if its answer does; if they all cross an odd
number, its answer holds if the condition does. -/
theorem query_agrees (hload : (load config).result = .ok (.ok p)) (steps : List Step) :
    ∃ p', (steps.foldlM step p).result = .ok p' ∧ ∀ condition ∈ config.conditions, ∃ s,
      p'.state? condition.name = .ok (some s) ∧ p'.query condition.name {} = .ok (some s) ∧
      ∀ q, ∃ a, p'.query condition.name q = .ok (some a) ∧ (a = .unknown ↔ s = .unknown) ∧
        ((∀ k spec, config.Crosses condition.name k spec → spec.dimensions ≠ [] → Even k) →
          a = .holds → s = .holds) ∧
        ((∀ k spec, config.Crosses condition.name k spec → spec.dimensions ≠ [] → Odd k) →
          s = .holds → a = .holds) := by
  obtain ⟨p', hrun, hsound⟩ := (Sound.of_loads (load_eq_ok_iff.1 hload)).run steps
  refine ⟨p', hrun, fun condition hmem => ?_⟩
  obtain ⟨i, rfl⟩ := List.mem_iff_get.1 hmem
  refine ⟨_, hsound.state?_eq i, ?_, fun q => ⟨_, hsound.query_eq i q, ?_, fun heven => ?_,
    fun hodd => ?_⟩⟩
  · rw [hsound.query_eq i, hsound.coherent.answers_empty]
  · exact hsound.coherent.answers_eq_unknown_iff hsound.settled q i
  · refine (hsound.answers_toward q i false fun k spec hcrosses hdimensions => ?_).2
    simpa using heven k spec hcrosses hdimensions
  · refine (hsound.answers_toward q i true fun k spec hcrosses hdimensions => ?_).2
    simpa using hodd k spec hcrosses hdimensions

/-- A configuration in which events of tag 7 make the user in their first field busy. Nobody is busy
at first. -/
def usersConfig : Config where
  matchers := [{ name := "login", tag := 7 }]
  conditions := [
    ⟨"busy", .simple { start := some "login", dimensions := [1], initial := .fails }⟩,
    ⟨"idle", .combination .not ["busy"]⟩]

/-- Its graph once resolved, asked for slice reports or not. -/
def usersGraph (asked : Bool) : Graph 2 where
  nodes := #v[
    { name := "busy"
      index := 0
      sliced := asked
      resolved? := some {
        rule := .simple { start := some 0, dimensions := [1], initial := .fails }
        used := ⟨[0]⟩
        aggregate := .fails } },
    { name := "idle"
      index := 1
      sliced := asked
      resolved? := some {
        rule := .combination { operator := .not, children := [⟨0, Nat.zero_lt_two⟩] }
        used := ⟨[0]⟩
        aggregate := .holds } }]
  order := List.finRange 2

/-- Its pipeline before any event, asked for slice reports or not. -/
def usersPipeline (asked : Bool) : Pipeline usersConfig.conditions.length where
  matchers := { matchers := usersConfig.matchers, distinct := by decide }
  graph := usersGraph asked
  board := (usersGraph asked).newBoard

theorem query_agrees_users :
    let steps : List Step := [.setSliced "idle", .event { tag := 8 }]
    ∃ p p', (load usersConfig).result = .ok (.ok p) ∧ (steps.foldlM step p).result = .ok p' ∧
      p'.state? "idle" = .ok (some .holds) ∧ ∀ q, p'.query "idle" q = .ok (some .holds) := by
  intro steps
  have hload : (load usersConfig).result = .ok (.ok (usersPipeline false)) := by
    with_unfolding_all rfl
  have hidle : ⟨"idle", .combination .not ["busy"]⟩ ∈ usersConfig.conditions :=
    List.mem_cons_of_mem _ List.mem_cons_self
  obtain ⟨p', hrun, hagrees⟩ := query_agrees hload steps
  obtain ⟨s, hstate, -, hqueries⟩ := hagrees _ hidle
  have hasked : ((usersPipeline false).step (.setSliced "idle")).result =
      .ok (usersPipeline true) :=
    step_setSliced_of_spread rfl ((Graph.spread_of_unsliced rfl).trans (Graph.spread_nil _))
  have hfinal : (steps.foldlM step (usersPipeline false)).result >>=
      (fun p' => p'.state? "idle") = .ok (some .holds) := by
    rw [List.foldlM_cons, Logged.result_bind_of_ok hasked]
    with_unfolding_all rfl
  rw [hrun, ok_bind] at hfinal
  obtain rfl : s = .holds := Option.some.inj (Except.ok.inj (hstate.symm.trans hfinal))
  -- the only path from `idle` goes over its own `not`
  have hodd : ∀ k spec, usersConfig.Crosses "idle" k spec → spec.dimensions ≠ [] → Odd k := by
    intro k spec hcrosses _
    have hnames : (usersConfig.conditions.map Condition.name).Nodup := by decide
    obtain ⟨child, hchild, k, hbelow, rfl⟩ :=
      (Config.crosses_combination_iff hnames hidle rfl).1 hcrosses
    obtain rfl := List.mem_singleton.1 hchild
    obtain ⟨rfl, -⟩ := (Config.crosses_simple_iff hnames List.mem_cons_self rfl).1 hbelow
    exact odd_one
  refine ⟨usersPipeline false, p', hload, hrun, hfinal, fun q => ?_⟩
  obtain ⟨a, hquery, -, -, himplied⟩ := hqueries q
  rw [hquery, himplied hodd rfl]

end Pipeline

end EventConditions
