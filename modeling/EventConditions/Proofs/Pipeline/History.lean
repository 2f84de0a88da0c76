import EventConditions.Proofs.Graph.Pruning
import EventConditions.Proofs.Pipeline.Acceptance
import EventConditions.Proofs.Pipeline.Ledger

/-!
# Histories of a pipeline

A pipeline is fed events, with requests for slice reports in between. Whatever the steps, it goes on
standing for its configuration (`Pipeline.Stands`): its graph stands for the configured conditions
and is coherent, and its board shows the graph. It also stays where the events among the steps lead
(`Pipeline.Tracks`): every simple condition in the graph agrees with its ledger. For that the events
must be fewer than the counts of slices can tell apart.
-/

namespace EventConditions

/-! ## Matching by index -/

/-- The index of a matcher's name is where the matcher is. -/
theorem MatcherSet.get?_names_iff {s : MatcherSet} {name : String} {i : Nat} :
    s.names.get? name = some i ↔ ∃ m, s.matchers[i]? = some m ∧ m.name = name := by
  rw [names, NameIndex.get?_ofNames_eq_some_iff s.distinct, List.getElem?_map,
    Option.map_eq_some_iff]

/-- Matchers that have indices are in the set. -/
theorem MatcherSet.mem_names_of_get? {s : MatcherSet} {name? : Option String} {index? : Option Nat}
    (h : name?.map s.names.get? = index?.map some) :
    ∀ name ∈ name?, name ∈ s.matchers.map Matcher.name := by
  rintro name rfl
  obtain ⟨i, -, hget⟩ := Option.map_eq_some_iff.1 h.symm
  obtain ⟨m, hm, hname⟩ := MatcherSet.get?_names_iff.1 hget.symm
  exact List.mem_map.2 ⟨m, List.mem_of_getElem? hm, hname⟩

@[simp] theorem MatcherSet.size_verdicts (s : MatcherSet) (e : Event) :
    (s.verdicts e).size = s.matchers.length := by
  simp [verdicts]

/-- What matched by index is what matched by name. -/
theorem Config.any_matchedIn_iff {c : Config} {matchers : MatcherSet}
    (h : matchers.matchers = c.matchers) {name? : Option String} {index? : Option Nat}
    (hindex : name?.map matchers.names.get? = index?.map some) (e : Event) :
    index?.any (matchedIn (matchers.verdicts e)) = true ↔ c.Matched e name? := by
  rcases name? with _ | name <;> rcases index? with _ | i
  · simp [Matched]
  · simp at hindex
  · simp at hindex
  have hget : matchers.names.get? name = some i := Option.some.inj hindex
  obtain ⟨m, hm, hname⟩ := MatcherSet.get?_names_iff.1 hget
  have hverdict : matchedIn (matchers.verdicts e) i = (m.verdict e).isMatched := by
    simp [matchedIn, MatcherSet.verdicts, hm]
  rw [Option.any_some, hverdict, Matcher.isMatched_verdict]
  constructor
  · intro hmatches
    exact ⟨m, h ▸ List.mem_of_getElem? hm, by rw [hname], hmatches⟩
  · rintro ⟨m', hm', hname', hmatches⟩
    -- names are distinct, so the matcher found by name is the one at the index
    obtain ⟨j, hj⟩ := List.getElem?_of_mem (h ▸ hm')
    have hget' := MatcherSet.get?_names_iff.2 ⟨m', hj, (Option.some.inj hname').symm⟩
    obtain rfl : i = j := Option.some.inj (hget.symm.trans hget')
    obtain rfl : m = m' := Option.some.inj (hm.symm.trans hj)
    exact hmatches

/-- A matcher that a resolved rule reads has a verdict. -/
theorem Rule.Renders.lt_of_mem_reads {n : Nat} {names : NameIndex} {matchers : MatcherSet}
    {maxSlices : Nat} {spec : Spec} {rule : Rule n}
    (h : rule.Renders names matchers.names maxSlices spec) (e : Event) {m : Nat}
    (hm : m ∈ rule.reads) : m < (matchers.verdicts e).size := by
  have hread : ∀ {name? : Option String} {index? : Option Nat},
      name?.map matchers.names.get? = index?.map some → index? = some m →
      m < (matchers.verdicts e).size := by
    rintro name? _ hindex rfl
    obtain ⟨name, -, hget⟩ := Option.map_eq_some_iff.1 hindex
    obtain ⟨_, hslot, -⟩ := MatcherSet.get?_names_iff.1 hget
    rw [MatcherSet.size_verdicts]
    exact (List.getElem?_eq_some_iff.1 hslot).1
  cases h with
  | simple hstart hstop hstopAll =>
    rcases Simple.mem_matchers.1 hm with h | h | h
    · exact hread hstart h
    · exact hread hstop h
    · exact hread hstopAll h
  | combination _ => exact absurd hm List.not_mem_nil

/-- A simple rule is driven as specified. -/
theorem Rule.Renders.driven {n : Nat} {names : NameIndex} {c : Config} {matchers : MatcherSet}
    (hmatchers : matchers.matchers = c.matchers) {spec : SimpleSpec} {s : Simple}
    (h : (Rule.simple s : Rule n).Renders names matchers.names c.limits.maxSlices.toNat
      (.simple spec)) (e : Event) : s.Driven c spec e (matchedIn (matchers.verdicts e)) := by
  cases h with
  | simple hstart hstop hstopAll hnesting hdimensions _ hlimit =>
    exact ⟨hnesting, hdimensions, hlimit, Config.any_matchedIn_iff hmatchers hstart e,
      Config.any_matchedIn_iff hmatchers hstop e, Config.any_matchedIn_iff hmatchers hstopAll e⟩

/-- The condition of the first name is the one of the second, or depends on it. -/
def Config.DependsOn (c : Config) : String → String → Prop :=
  Relation.ReflTransGen (Lists c.conditions)

/-! ## Feeding a pipeline -/

namespace Pipeline

variable {n : Nat}

/-- What may happen to a pipeline. -/
inductive Step where
  | event (e : Event)
  /-- A request for slice reports of the condition of the given name. -/
  | setSliced (name : String)

/-- Takes one step. A request for an unknown condition is refused and changes nothing. -/
def step (p : Pipeline n) : Step → Logged Fault (Pipeline n)
  | .event e => do
    let (p, _) ← p.onEvent e
    return p
  | .setSliced name =>
    match p.setSliced name with
    | .ok p => pure p
    | .error _ => pure p

/-- The events among the steps. -/
def history (steps : List Step) : List Event :=
  steps.filterMap fun
    | .event e => some e
    | .setSliced _ => none

theorem history_append (done later : List Step) :
    history (done ++ later) = history done ++ history later :=
  List.filterMap_append

/-- What each step leads on to the next holds after all steps. -/
theorem exists_run {P : Pipeline n → List Step → Prop}
    (hstep : ∀ p done next, P p done →
      ∃ p', (p.step next).result = .ok p' ∧ P p' (done ++ [next]))
    {p : Pipeline n} (done : List Step) (h : P p done) (later : List Step) :
    ∃ p', (later.foldlM step p).result = .ok p' ∧ P p' (done ++ later) := by
  induction later generalizing p done with
  | nil => exact ⟨p, rfl, by rwa [List.append_nil]⟩
  | cons next rest ih =>
    obtain ⟨p₁, hnext, hp₁⟩ := hstep p done next h
    rw [List.foldlM_cons, Logged.result_bind_of_ok hnext, List.append_cons]
    exact ih _ hp₁

/-- An event is judged by all matchers: if none of them asks for its tag, none matches. -/
theorem judge_eq_ok (p : Pipeline n) (e : Event) :
    (p.judge e).result = .ok (p.matchers.verdicts e) := by
  unfold judge
  split_ifs with htag
  · rfl
  · have hnone : ∀ m ∈ p.matchers.matchers, m.verdict e = .notMatched := by
      intro m hm
      have hne : m.tag ≠ e.tag := fun heq =>
        htag (List.any_eq_true.2 ⟨m, hm, beq_iff_eq.2 heq⟩)
      rw [Matcher.verdict, beq_false_of_ne (Ne.symm hne), Bool.false_and]
      rfl
    have hverdicts : p.matchers.verdicts e = Array.replicate p.matchers.size .notMatched := by
      rw [MatcherSet.verdicts, List.map_congr_left hnone, List.map_const', MatcherSet.size,
        List.toArray_replicate]
    rw [hverdicts]
    rfl

variable {config : Config} {p : Pipeline config.conditions.length} {events : List Event}

/-! ## What always holds of a pipeline -/

/-- The pipeline stands for its configuration, whatever it was fed: the graph stands for the
conditions and is coherent, and the board shows it. -/
structure Stands (config : Config) (p : Pipeline config.conditions.length) : Prop where
  matchers : p.matchers.matchers = config.matchers
  invariant : Graph.Invariant config.limits.maxSlices.toNat p.graph
    (some (config.conditions, p.matchers.names))
  coherent : p.graph.Coherent
  shows : p.board.Shows p.graph

/-- Every node stands for its condition. -/
theorem Stands.represents (h : p.Stands config) (i : Fin config.conditions.length) :
    ∃ x, (p.graph.nodes.entry i).resolved? = some x ∧
      (config.conditions.get i).name = (p.graph.nodes.entry i).name ∧
      x.rule.Renders p.graph.names p.matchers.names config.limits.maxSlices.toNat
        (config.conditions.get i).spec ∧
      ∀ m, m ∈ (p.graph.nodes.entry i).used ↔
        ∃ j, p.graph.Reaches i j ∧ m ∈ (p.graph.nodes.entry j).reads := by
  rcases h.invariant.resolved with hu | ⟨-, conditions, matchers, hlatest, hrep⟩
  · exact absurd (hu.2 i) (h.coherent.resolved i)
  · obtain ⟨rfl, rfl⟩ := Prod.mk.inj (Option.some.inj hlatest)
    obtain ⟨condition, x, hcondition, hname, hx, hrule, hused⟩ := hrep i
    obtain rfl : config.conditions.get i = condition :=
      Option.some.inj ((List.getElem?_eq_getElem i.isLt).symm.trans hcondition)
    exact ⟨x, hx, hname, hrule, hused⟩

/-- A node has the name of its condition. -/
theorem Stands.name_eq (h : p.Stands config) (i : Fin config.conditions.length) :
    (p.graph.nodes.entry i).name = (config.conditions.get i).name := by
  obtain ⟨-, -, hname, -⟩ := h.represents i
  exact hname.symm

/-- A node is simple as its condition is, or combines what its condition combines. -/
theorem Stands.rule (h : p.Stands config) (i : Fin config.conditions.length) :
    (∃ s spec, (p.graph.nodes.entry i).simple? = some s ∧
      (config.conditions.get i).spec = .simple spec ∧
      (Rule.simple s : Rule config.conditions.length).Renders p.graph.names p.matchers.names
        config.limits.maxSlices.toNat (.simple spec)) ∨
    ∃ x c, (p.graph.nodes.entry i).resolved? = some x ∧ x.rule = .combination c ∧
      (config.conditions.get i).spec =
        .combination c.operator (c.children.map fun j => (config.conditions.get j).name) := by
  obtain ⟨x, hx, -, hrenders, -⟩ := h.represents i
  generalize hspec : (config.conditions.get i).spec = spec at hrenders
  generalize hrule : x.rule = rule at hrenders
  have hrendered := hrenders
  cases hrenders with
  | simple => exact .inl ⟨_, _, Node.simple?_eq_some_iff.2 ⟨x, hx, hrule⟩, rfl, hrendered⟩
  | @combination operator childNames children hchildren =>
    refine .inr ⟨x, _, hx, hrule, congrArg (Spec.combination operator) ?_⟩
    rw [Graph.names_of_get?_names hchildren]
    exact List.map_congr_left fun j _ => h.name_eq j

/-- A simple node stands for a simple condition. -/
theorem Stands.of_simple (h : p.Stands config) {i : Fin config.conditions.length} {s : Simple}
    (hs : (p.graph.nodes.entry i).simple? = some s) :
    ∃ spec, (config.conditions.get i).spec = .simple spec ∧
      (Rule.simple s : Rule config.conditions.length).Renders p.graph.names p.matchers.names
        config.limits.maxSlices.toNat (.simple spec) := by
  rcases h.rule i with ⟨s', spec, hs', hspec, hrenders⟩ | ⟨x, c, hx, hrule, -⟩
  · obtain rfl := Option.some.inj (hs.symm.trans hs')
    exact ⟨spec, hspec, hrenders⟩
  · exact nomatch hs.symm.trans (Node.simple?_of_combination hx hrule)

/-- A simple condition has a simple node. -/
theorem Stands.exists_simple (h : p.Stands config) {i : Fin config.conditions.length}
    {spec : SimpleSpec} (hspec : (config.conditions.get i).spec = .simple spec) :
    ∃ s, (p.graph.nodes.entry i).simple? = some s ∧
      (Rule.simple s : Rule config.conditions.length).Renders p.graph.names p.matchers.names
        config.limits.maxSlices.toNat (.simple spec) := by
  rcases h.rule i with ⟨s, spec', hs, hspec', hrenders⟩ | ⟨x, c, -, -, hspec'⟩
  · obtain rfl := Spec.simple.inj (hspec.symm.trans hspec')
    exact ⟨s, hs, hrenders⟩
  · exact nomatch hspec.symm.trans hspec'

/-- A node that combines stands for a condition that does, with the names of its children. -/
theorem Stands.of_combination (h : p.Stands config) {i : Fin config.conditions.length}
    {x : Resolved config.conditions.length} {c : Combination (Fin config.conditions.length)}
    (hx : (p.graph.nodes.entry i).resolved? = some x) (hrule : x.rule = .combination c) :
    (config.conditions.get i).spec =
      .combination c.operator (c.children.map fun j => (config.conditions.get j).name) := by
  rcases h.rule i with ⟨s, spec, hs, -, -⟩ | ⟨x', c', hx', hrule', hspec⟩
  · exact nomatch hs.symm.trans (Node.simple?_of_combination hx hrule)
  · obtain rfl := Option.some.inj (hx.symm.trans hx')
    obtain rfl := Rule.combination.inj (hrule.symm.trans hrule')
    exact hspec

/-- A condition that combines others has a node that does. -/
theorem Stands.exists_combination (h : p.Stands config) {i : Fin config.conditions.length}
    {operator : Operator} {children : List String}
    (hspec : (config.conditions.get i).spec = .combination operator children) :
    ∃ x c, (p.graph.nodes.entry i).resolved? = some x ∧ x.rule = .combination c ∧
      c.operator = operator ∧ (c.children.map fun j => (config.conditions.get j).name) = children := by
  rcases h.rule i with ⟨s, spec, -, hspec', -⟩ | ⟨x, c, hx, hrule, hspec'⟩
  · exact nomatch hspec.symm.trans hspec'
  · obtain ⟨rfl, rfl⟩ := Spec.combination.inj (hspec.symm.trans hspec')
    exact ⟨x, c, hx, hrule, rfl, rfl⟩

/-- A condition is found by its name. -/
theorem Stands.indexOf?_eq (h : p.Stands config) (i : Fin config.conditions.length) :
    p.graph.indexOf? (config.conditions.get i).name = some i := by
  have hget : p.graph.names.get? (config.conditions.get i).name = some i.val :=
    (h.invariant.named.slot _ i).2 ⟨i.isLt, h.name_eq i⟩
  rw [Graph.indexOf?, hget]
  exact dif_pos i.isLt

/-- What is found by a name has the name. -/
theorem Stands.name_of_indexOf? (h : p.Stands config) {name : String}
    {i : Fin config.conditions.length} (hindex : p.graph.indexOf? name = some i) :
    (config.conditions.get i).name = name := by
  rw [Graph.indexOf?] at hindex
  split at hindex
  · next k hget =>
    obtain ⟨hk, hname⟩ := (h.invariant.named.slot name k).1 hget
    rw [dif_pos hk] at hindex
    obtain rfl := Option.some.inj hindex
    rw [← h.name_eq, hname]
  · cases hindex

/-- No condition is found by a name that none has. -/
theorem Stands.indexOf?_eq_none_iff (h : p.Stands config) {name : String} :
    p.graph.indexOf? name = none ↔ name ∉ config.conditions.map Condition.name := by
  rw [List.mem_map]
  constructor
  · rintro hnone ⟨condition, hmem, rfl⟩
    obtain ⟨i, rfl⟩ := List.mem_iff_get.1 hmem
    exact nomatch hnone.symm.trans (h.indexOf?_eq i)
  · intro hnot
    cases hindex : p.graph.indexOf? name with
    | none => rfl
    | some i => exact absurd ⟨_, List.get_mem _ i, h.name_of_indexOf? hindex⟩ hnot

/-- No two conditions have the same name. -/
theorem Stands.name_injective (h : p.Stands config) {i j : Fin config.conditions.length}
    (hname : (config.conditions.get i).name = (config.conditions.get j).name) : i = j := by
  have hi := h.indexOf?_eq i
  rw [hname, h.indexOf?_eq j] at hi
  exact (Option.some.inj hi).symm

/-- A condition lists the names of the children of its node. -/
theorem Stands.lists_iff (h : p.Stands config) {i : Fin config.conditions.length} {name : String} :
    Lists config.conditions (config.conditions.get i).name name ↔
      ∃ j ∈ (p.graph.nodes.entry i).children, (config.conditions.get j).name = name := by
  have hchildren : name ∈ (config.conditions.get i).spec.children ↔
      ∃ j ∈ (p.graph.nodes.entry i).children, (config.conditions.get j).name = name := by
    rcases h.rule i with ⟨s, spec, hs, hspec, -⟩ | ⟨x, c, hx, hrule, hspec⟩
    · rw [hspec, Node.children_of_simple hs]
      simp [Spec.children]
    · rw [hspec, Sweep.children_of_combination hx hrule]
      exact List.mem_map
  rw [← hchildren]
  constructor
  · rintro ⟨condition, hmem, hname, hchild⟩
    obtain ⟨k, rfl⟩ := List.mem_iff_get.1 hmem
    rwa [← h.name_injective hname]
  · exact fun hchild => ⟨_, List.get_mem _ i, rfl, hchild⟩

/-- What a condition depends on by name is what is reached from it. -/
theorem Stands.dependsOn_iff (h : p.Stands config) {i : Fin config.conditions.length} {name : String} :
    config.DependsOn (config.conditions.get i).name name ↔
      ∃ j, p.graph.Reaches i j ∧ (config.conditions.get j).name = name := by
  constructor
  · intro hdepends
    induction hdepends with
    | refl => exact ⟨i, .refl, rfl⟩
    | tail _ hlists ih =>
      obtain ⟨j, hreach, rfl⟩ := ih
      obtain ⟨k, hchild, hname⟩ := h.lists_iff.1 hlists
      exact ⟨k, hreach.tail hchild, hname⟩
  · rintro ⟨j, hreach, rfl⟩
    induction hreach with
    | refl => exact .refl
    | tail _ hchild ih => exact ih.tail (h.lists_iff.2 ⟨_, hchild, rfl⟩)

/-- One condition depends on another by name if it reaches its node. -/
theorem Stands.reaches_iff (h : p.Stands config) {i j : Fin config.conditions.length} :
    p.graph.Reaches i j ↔
      config.DependsOn (config.conditions.get i).name (config.conditions.get j).name := by
  rw [h.dependsOn_iff]
  constructor
  · exact fun hreach => ⟨j, hreach, rfl⟩
  · rintro ⟨k, hreach, hname⟩
    rwa [← h.name_injective hname]

/-- The conditions that one depends on by name are those whose nodes are reached from it. -/
theorem Stands.exists_below_iff (h : p.Stands config) {i : Fin config.conditions.length}
    {P : Condition → Prop} :
    (∃ below ∈ config.conditions,
      config.DependsOn (config.conditions.get i).name below.name ∧ P below) ↔
    ∃ j, p.graph.Reaches i j ∧ P (config.conditions.get j) := by
  constructor
  · rintro ⟨below, hmem, hdepends, hbelow⟩
    obtain ⟨j, rfl⟩ := List.mem_iff_get.1 hmem
    exact ⟨j, h.reaches_iff.2 hdepends, hbelow⟩
  · rintro ⟨j, hreach, hbelow⟩
    exact ⟨_, List.get_mem _ j, h.reaches_iff.1 hreach, hbelow⟩

/-- A name is shown in the state of its node. -/
theorem Stands.state?_eq_map (h : p.Stands config) (name : String) :
    p.state? name = .ok ((p.graph.indexOf? name).map fun i => (p.graph.nodes.entry i).aggregate) := by
  rw [state?]
  cases p.graph.indexOf? name with
  | none => rfl
  | some i =>
    have hsize : i.val < p.board.cells.size := by
      rw [h.shows.size]
      exact i.isLt
    have hcell : p.board.cells[i.val].state = (p.graph.nodes.entry i).aggregate := h.shows.state i
    dsimp only
    rw [readAt_eq_ok hsize, Option.map_some, ← hcell]
    rfl

/-- The board shows each condition in its state. -/
theorem Stands.state?_eq (h : p.Stands config) (i : Fin config.conditions.length) :
    p.state? (config.conditions.get i).name = .ok (some (p.graph.nodes.entry i).aggregate) := by
  rw [h.state?_eq_map, h.indexOf?_eq i, Option.map_some]

/-- The names of changed conditions are those of conditions whose cells are marked. -/
theorem Stands.mem_changedNames_iff (h : p.Stands config) (i : Fin config.conditions.length) :
    (config.conditions.get i).name ∈ p.changedNames ↔
      p.board.cells[i.val]?.map Cell.changed = some true := by
  rw [changedNames, List.mem_filterMap, Option.map_eq_some_iff]
  constructor
  · rintro ⟨k, hk, hname⟩
    obtain ⟨node, hnode, hname⟩ := Option.map_eq_some_iff.1 hname
    obtain ⟨hlt, hnode⟩ := Vector.getElem?_eq_some_iff.1 hnode
    -- the condition of that name is the one asked about
    have hsame : (config.conditions.get ⟨k, hlt⟩).name = (config.conditions.get i).name := by
      rw [← h.name_eq, ← hname, ← hnode]
      rfl
    obtain rfl := h.name_injective hsame
    obtain ⟨-, hchanged⟩ := List.mem_filter.1 hk
    cases hcell : p.board.cells[k]? with
    | none => simp [hcell] at hchanged
    | some cell => exact ⟨cell, rfl, by simpa [hcell] using hchanged⟩
  · rintro ⟨cell, hcell, hchanged⟩
    refine ⟨i, List.mem_filter.2 ⟨?_, by simpa [hcell] using hchanged⟩, ?_⟩
    · exact List.mem_range.2 (Array.getElem?_eq_some_iff.1 hcell).1
    · rw [Vector.getElem?_eq_getElem i.isLt, Option.map_some, ← h.name_eq]
      rfl

/-- There is a verdict for every matcher that the graph uses. -/
theorem Stands.covers (h : p.Stands config) (e : Event) :
    p.graph.Covers (p.matchers.verdicts e) := by
  intro i m hm
  obtain ⟨-, -, -, -, hused⟩ := h.represents i
  obtain ⟨j, -, hread⟩ := (hused m).1 hm
  obtain ⟨x, hx, -, hrule, -⟩ := h.represents j
  rw [Node.reads, hx] at hread
  exact hrule.lt_of_mem_reads e hread

/-- An event gives every condition its turn. It leaves a pipeline that stands for the configuration,
with the nodes and cells that the turns made of what the graph and the board were. -/
theorem Stands.onEvent (h : p.Stands config) (e : Event) :
    ∃ (p' : Pipeline config.conditions.length) (summary : Summary)
      (s : Sweep config.conditions.length),
      (p.onEvent e).result = .ok (p', summary) ∧ p'.Stands config ∧
      p'.matchers = p.matchers ∧ p'.graph.outline = p.graph.outline ∧
      (∀ i, (p'.graph.nodes.entry i).sliced = (p.graph.nodes.entry i).sliced) ∧
      p'.graph.nodes = s.nodes ∧ p'.board = ⟨s.cells.toArray⟩ ∧
      ∀ i, Sweep.Turned e (p.matchers.verdicts e) p.graph.opening s i := by
  have hcovers := h.covers e
  obtain ⟨g', board', s, hfull, hpruned, hcoherent, hshows, hnodes, hcells, hs⟩ :=
    h.coherent.pass e hcovers h.shows
  have hends : ∃ summary, (p.onEvent e).result =
      .ok ({ p with graph := g', board := board', eventsSeen := p.eventsSeen + 1 }, summary) := by
    rw [Pipeline.onEvent, Logged.result_bind_of_ok (judge_eq_ok p e),
      Logged.result_bind_of_ok (Graph.relevance_eq_ok hcovers),
      Logged.result_bind_of_ok (hpruned _ (p.graph.marks_marks _))]
    dsimp only
    split_ifs <;> exact ⟨_, rfl⟩
  obtain ⟨summary, hfed⟩ := hends
  have houtline := Graph.outline_pass hfull
  exact ⟨_, summary, s, hfed, ⟨h.matchers, h.invariant.of_outline houtline, hcoherent, hshows⟩, rfl,
    houtline, Graph.sliced_pass hfull, hnodes, hcells,
    fun i => hs.turned i (h.coherent.ordered.mem_order i) rfl⟩

/-- A request leaves a pipeline that stands for the configuration. -/
theorem Stands.slice (h : p.Stands config) (i : Fin config.conditions.length) :
    Stands config { p with graph := p.graph.slice i } where
  matchers := h.matchers
  invariant := h.invariant.of_outline (Graph.outline_slice p.graph i)
  coherent := h.coherent.slice i
  shows := h.shows.slice i

/-- A request for a condition that is found asks for its reports. -/
theorem setSliced_eq_ok {p : Pipeline n} {name : String} {i : Fin n}
    (h : p.graph.indexOf? name = some i) :
    p.setSliced name = .ok { p with graph := p.graph.slice i } := by
  rw [Pipeline.setSliced, h]

/-- A request for a condition that is not found is refused. -/
theorem setSliced_eq_error {p : Pipeline n} {name : String} (h : p.graph.indexOf? name = none) :
    p.setSliced name = .error { cause := .unknownCondition name } := by
  rw [Pipeline.setSliced, h]

/-- A request as a step for a condition that is found, given how far it spreads. -/
theorem step_setSliced_of_spread {p : Pipeline n} {name : String} {i : Fin n}
    {nodes : Table n (Node n)} (hindex : p.graph.indexOf? name = some i)
    (hspread : Graph.spread (Graph.mark p.graph.nodes i) (p.graph.nodes.entry i).children = nodes) :
    (p.step (.setSliced name)).result = .ok { p with graph := { p.graph with nodes } } := by
  rw [step, setSliced_eq_ok hindex, Graph.slice, hspread]
  rfl

/-- A request as a step asks for the reports of a condition, or changes nothing. -/
theorem step_setSliced (p : Pipeline n) (name : String) :
    (∃ i, p.graph.indexOf? name = some i ∧
      (p.step (.setSliced name)).result = .ok { p with graph := p.graph.slice i }) ∨
    p.graph.indexOf? name = none ∧ (p.step (.setSliced name)).result = .ok p := by
  cases hindex : p.graph.indexOf? name with
  | none =>
    refine .inr ⟨rfl, ?_⟩
    rw [step, setSliced_eq_error hindex]
    rfl
  | some i => exact .inl ⟨i, rfl, step_setSliced_of_spread hindex rfl⟩

/-- A pipeline that was just loaded stands for its configuration. -/
theorem Stands.of_loads (h : Loads config p) : p.Stands config := by
  obtain ⟨-, matchers, g, hmatchers, hbuild, rfl⟩ := h
  obtain ⟨g₀, hmade, hres⟩ := Graph.build_eq_ok_iff.1 hbuild
  exact ⟨(MatcherSet.ofList_eq_ok_iff.1 hmatchers).2,
    (Graph.Invariant.of_fresh hmade).of_resolve hres, Graph.coherent_of_build hbuild,
    g.newBoard_shows⟩

/-- In a pipeline that was just loaded a simple condition holds no slice and is in its initial
state. -/
theorem Loads.starts (h : Loads config p) {i : Fin config.conditions.length} {s : Simple}
    (hs : (p.graph.nodes.entry i).simple? = some s) :
    s.slices = {} ∧ ∃ spec, (config.conditions.get i).spec = .simple spec ∧
      (p.graph.nodes.entry i).aggregate = spec.initial.state := by
  obtain ⟨-, matchers, g, -, hbuild, rfl⟩ := h
  exact Graph.starts_of_build hbuild hs

/-- A pipeline that was just loaded shows no change. -/
theorem Loads.changed (h : Loads config p) (i : Fin config.conditions.length) :
    p.board.cells[i.val]?.map Cell.changed = some false := by
  obtain ⟨-, matchers, g, -, -, rfl⟩ := h
  simp [Graph.newBoard]

/-! ## What events add up to -/

/-- The pipeline is where the configuration's history of events leads: the graph stands for the
conditions and is coherent, the board shows it, and its simple conditions agree with their ledgers.
-/
structure Tracks (config : Config) (p : Pipeline config.conditions.length) (events : List Event) :
    Prop where
  matchers : p.matchers.matchers = config.matchers
  invariant : Graph.Invariant config.limits.maxSlices.toNat p.graph
    (some (config.conditions, p.matchers.names))
  coherent : p.graph.Coherent
  shows : p.board.Shows p.graph
  ledgers : ∀ i x s spec, (p.graph.nodes.entry i).resolved? = some x → x.rule = .simple s →
    (config.conditions.get i).spec = .simple spec →
    s.slices.Tallies (Ledger.after config spec events).held ∧
      x.aggregate = (Ledger.after config spec events).state

theorem Tracks.stands (h : p.Tracks config events) : p.Stands config :=
  ⟨h.matchers, h.invariant, h.coherent, h.shows⟩

/-- Every node stands for its condition. -/
theorem Tracks.represents (h : p.Tracks config events) (i : Fin config.conditions.length) :
    ∃ x, (p.graph.nodes.entry i).resolved? = some x ∧
      (config.conditions.get i).name = (p.graph.nodes.entry i).name ∧
      x.rule.Renders p.graph.names p.matchers.names config.limits.maxSlices.toNat
        (config.conditions.get i).spec ∧
      ∀ m, m ∈ (p.graph.nodes.entry i).used ↔
        ∃ j, p.graph.Reaches i j ∧ m ∈ (p.graph.nodes.entry j).reads :=
  h.stands.represents i

/-- A simple condition that had its turn on an event has come to where its ledger has. -/
theorem Tracks.turned (h : p.Tracks config events) (hroom : events.length < Slices.maxCount)
    {e : Event} {i : Fin config.conditions.length} {s : Sweep config.conditions.length}
    (hturned : Sweep.Turned e (p.matchers.verdicts e) p.graph.opening s i)
    {x : Resolved config.conditions.length} {simple : Simple} {spec : SimpleSpec}
    (hx : (s.nodes.entry i).resolved? = some x) (hrule : x.rule = .simple simple)
    (hspec : (config.conditions.get i).spec = .simple spec) :
    simple.slices.Tallies (Ledger.after config spec (events ++ [e])).held ∧
      x.aggregate = (Ledger.after config spec (events ++ [e])).state := by
  cases hturned with
  | @simple x₀ simple₀ request hx₀ hrule₀ hrequest hturn =>
    rw [hturn.1, Sweep.node_settle_self] at hx
    obtain rfl := Option.some.inj hx
    obtain rfl := Rule.simple.inj hrule
    obtain ⟨htallies, hstate⟩ := h.ledgers i x₀ simple₀ spec hx₀ hrule₀ hspec
    obtain ⟨x₁, hx₁, -, hrenders, -⟩ := h.represents i
    obtain rfl := Option.some.inj (hx₀.symm.trans hx₁)
    rw [hrule₀, hspec] at hrenders
    have hreads : ∀ m ∈ simple₀.matchers, m < (p.matchers.verdicts e).size := fun m hm =>
      hrenders.lt_of_mem_reads e hm
    rw [Simple.request_eq_ok hreads] at hrequest
    obtain rfl := Except.ok.inj hrequest
    have hcard := (Ledger.card_after_le config spec events).trans_lt hroom
    have hserve := (hrenders.driven h.matchers e).serve htallies hcard
    rw [← hstate] at hserve
    rw [Ledger.after, List.foldl_concat]
    exact hserve
  | combination _ _ hturn =>
    rw [hturn.1, Sweep.node_settle_self] at hx
    obtain rfl := Option.some.inj hx
    simp at hrule

/-- An event leads on to the history with the event, unless the history is too long for counts. -/
theorem Tracks.event (h : p.Tracks config events) (hroom : events.length < Slices.maxCount)
    (e : Event) :
    ∃ p', (p.step (.event e)).result = .ok p' ∧ p'.Tracks config (events ++ [e]) := by
  obtain ⟨p', summary, s, hfed, hstands, -, -, -, hnodes, -, hturned⟩ := h.stands.onEvent e
  refine ⟨p', Logged.result_bind_of_ok hfed _, hstands.matchers, hstands.invariant,
    hstands.coherent, hstands.shows, ?_⟩
  intro i x simple spec hx hrule hspec
  exact h.turned hroom (hturned i) (hnodes ▸ hx) hrule hspec

/-- A request for slice reports leaves the history as it is. -/
theorem Tracks.setSliced (h : p.Tracks config events) (name : String) :
    ∃ p', (p.step (.setSliced name)).result = .ok p' ∧ p'.Tracks config events := by
  rcases p.step_setSliced name with ⟨i, -, hstep⟩ | ⟨-, hstep⟩
  · have hstands := h.stands.slice i
    refine ⟨_, hstep, hstands.matchers, hstands.invariant, hstands.coherent, hstands.shows,
      fun j x s spec hx => ?_⟩
    rw [Graph.resolved?_slice] at hx
    exact h.ledgers j x s spec hx
  · exact ⟨p, hstep, h⟩

/-- Steps lead on by the events among them. -/
theorem Tracks.run {steps : List Step} (h : p.Tracks config events)
    (hroom : (events ++ history steps).length ≤ Slices.maxCount) :
    ∃ p', (steps.foldlM step p).result = .ok p' ∧ p'.Tracks config (events ++ history steps) := by
  -- by the steps, of which only events make the history longer
  induction steps generalizing p events with
  | nil => exact ⟨p, rfl, by rwa [history, List.filterMap_nil, List.append_nil]⟩
  | cons first rest ih =>
    rw [List.foldlM_cons]
    cases first with
    | event e =>
      have hsplit : events ++ history (.event e :: rest) = events ++ [e] ++ history rest := by
        rw [List.append_assoc]
        rfl
      rw [hsplit] at hroom ⊢
      have hlt : events.length < Slices.maxCount := by
        rw [List.length_append, List.length_append, List.length_singleton] at hroom
        omega
      obtain ⟨p₁, hstep, htracks⟩ := h.event hlt e
      rw [Logged.result_bind_of_ok hstep]
      exact ih htracks hroom
    | setSliced name =>
      obtain ⟨p₁, hstep, htracks⟩ := h.setSliced name
      rw [Logged.result_bind_of_ok hstep]
      exact ih htracks hroom

/-- A pipeline that was just loaded is where no events lead. -/
theorem Tracks.of_loads (h : Loads config p) : p.Tracks config [] := by
  have hstands := Stands.of_loads h
  refine ⟨hstands.matchers, hstands.invariant, hstands.coherent, hstands.shows, ?_⟩
  intro i x s spec hx hrule hspec
  obtain ⟨hslices, spec', hspec', hstate⟩ := h.starts (Node.simple?_eq_some_iff.2 ⟨x, hx, hrule⟩)
  obtain rfl := Spec.simple.inj (hspec.symm.trans hspec')
  rw [Node.aggregate_of_resolved hx] at hstate
  exact ⟨hslices ▸ .empty, hstate⟩

end Pipeline

end EventConditions
