import EventConditions.Pipeline
import EventConditions.Proofs.Graph.Acceptance

/-!
# Which configurations are accepted

Loading a configuration always comes to an end without a fault, and succeeds exactly for acceptable
configurations: `Pipeline.load_accepts_iff`. What makes a configuration acceptable is said of its
lists and names only; that its conditions have no cycle is said by the transitive closure of listing
a child.
-/

namespace EventConditions

/-- What is said of the numbers of matchers and conditions. -/
theorem Config.validate_eq_ok_iff {c : Config} :
    c.validate = .ok () ↔ c.matchers.length ≤ c.limits.maxMatchers.toNat ∧
      c.conditions.length ≤ c.limits.maxConditions.toNat := by
  unfold validate
  dsimp only
  split
  · next h => simp [Nat.not_le.2 h]
  · next h =>
    split
    · next h' => simp [Nat.not_le.2 h']
    · next h' => simp [Nat.not_lt.1 h, Nat.not_lt.1 h']

/-- A set is made of matchers with distinct names. -/
theorem MatcherSet.ofList_eq_ok_iff {matchers : List Matcher} {s : MatcherSet} :
    (ofList matchers).result = .ok s ↔
      (matchers.map Matcher.name).Nodup ∧ s.matchers = matchers := by
  rw [← firstRepeated?_nil_eq_none_iff, ofList]
  split
  · next name h => simp [h]
  · next h =>
    constructor
    · intro hs
      obtain rfl := Except.ok.inj hs
      exact ⟨h, rfl⟩
    · rintro ⟨-, rfl⟩
      rfl

/-- A condition is well-formed by itself. -/
theorem Spec.defect?_eq_none_iff {spec : Spec} :
    spec.defect? = none ↔
      match spec with
      | .simple spec => spec.start ≠ none ∨ spec.stopAll ≠ none
      | .combination operator children =>
        children ≠ [] ∧ (operator = .not → children.length = 1) := by
  cases spec with
  | simple spec =>
    obtain ⟨start, stop, stopAll, _, _, _⟩ := spec
    cases start <;> cases stopAll <;> simp [defect?]
  | combination operator children =>
    cases children with
    | nil => simp [defect?]
    | cons child rest =>
      rw [defect?]
      simp

namespace Pipeline

/-- The pipeline is what validating, collecting the matchers and building the graph give. -/
def Loads (config : Config) (p : Pipeline config.conditions.length) : Prop :=
  config.validate = .ok () ∧ ∃ matchers graph,
    (MatcherSet.ofList config.matchers).result = .ok matchers ∧
    (Graph.build config.conditions matchers.names config.limits.maxSlices.toNat).result
      = .ok (.ok graph) ∧
    p = { matchers, graph, board := graph.newBoard }

/-- Loading never ends in a fault, and gives a pipeline exactly if each of its stages succeeds. -/
theorem load_spec (config : Config) :
    ∃ outcome, (load config).result = .ok outcome ∧ ∀ p, outcome = .ok p ↔ Loads config p := by
  unfold load Loads
  cases config.validate with
  | error e => exact ⟨_, rfl, by simp⟩
  | ok u =>
    dsimp only
    rw [Logged.result_bind_of_ok (Logged.result_attempt _)]
    cases (MatcherSet.ofList config.matchers).result with
    | error e => exact ⟨_, rfl, by simp⟩
    | ok matchers =>
      dsimp only
      obtain ⟨outcome, hbuild⟩ := Graph.exists_build config.conditions matchers.names
        config.limits.maxSlices.toNat
      rw [Logged.result_bind_of_ok hbuild]
      cases outcome with
      | error e => exact ⟨_, rfl, by simp [hbuild]⟩
      | ok graph =>
        refine ⟨_, rfl, fun p => ⟨fun h => ?_, ?_⟩⟩
        · obtain rfl := Except.ok.inj h
          exact ⟨rfl, matchers, graph, rfl, hbuild, rfl⟩
        · rintro ⟨-, matchers', graph', hmatchers, hbuild', rfl⟩
          obtain rfl := Except.ok.inj hmatchers
          obtain rfl := Except.ok.inj (Except.ok.inj (hbuild.symm.trans hbuild'))
          rfl

theorem load_eq_ok_iff {config : Config} {p : Pipeline config.conditions.length} :
    (load config).result = .ok (.ok p) ↔ Loads config p := by
  obtain ⟨outcome, hres, hloads⟩ := load_spec config
  rw [hres, ← hloads p, Except.ok.injEq]

/-- What was loaded has conditions with distinct names that can be resolved. -/
theorem Loads.resolvable {config : Config} {p : Pipeline config.conditions.length}
    (h : Loads config p) : (config.conditions.map Condition.name).Nodup ∧
      Graph.Resolvable config.conditions p.matchers.names := by
  obtain ⟨-, matchers, graph, -, hbuild, rfl⟩ := h
  exact Graph.build_accepts_iff.1 ⟨graph, hbuild⟩

end Pipeline

/-- The configuration is one that a pipeline can be made of. -/
structure Config.Acceptable (c : Config) : Prop where
  matcherCount : c.matchers.length ≤ c.limits.maxMatchers.toNat
  conditionCount : c.conditions.length ≤ c.limits.maxConditions.toNat
  matcherNames : (c.matchers.map Matcher.name).Nodup
  conditionNames : (c.conditions.map Condition.name).Nodup
  /-- A simple condition names a matcher that can decide it. -/
  decided : ∀ condition ∈ c.conditions, ∀ spec, condition.spec = .simple spec →
    spec.start ≠ none ∨ spec.stopAll ≠ none
  matchersExist : ∀ condition ∈ c.conditions, ∀ name ∈ condition.spec.matchers,
    name ∈ c.matchers.map Matcher.name
  /-- A combination has children, and exactly one if it is an opposite. -/
  fed : ∀ condition ∈ c.conditions, ∀ operator children,
    condition.spec = .combination operator children →
      children ≠ [] ∧ (operator = .not → children.length = 1)
  childrenExist : ∀ condition ∈ c.conditions, ∀ name ∈ condition.spec.children,
    name ∈ c.conditions.map Condition.name
  /-- No chain of conditions, each listing the next as a child, comes back to where it started. -/
  acyclic : ∀ name, ¬ Relation.TransGen (Lists c.conditions) name name

/-- **Acceptance.** Loading a configuration comes to an end without a fault, and gives a pipeline
exactly if the configuration is acceptable. -/
theorem Pipeline.load_accepts_iff (config : Config) :
    (∃ outcome, (load config).result = .ok outcome) ∧
      ((∃ p, (load config).result = .ok (.ok p)) ↔ config.Acceptable) := by
  refine ⟨(load_spec config).imp fun _ h => h.1, ?_⟩
  have hmatcher : ∀ (matchers : MatcherSet), matchers.matchers = config.matchers → ∀ name,
      matchers.names.get? name ≠ none ↔ name ∈ config.matchers.map Matcher.name := by
    intro matchers heq name
    rw [MatcherSet.names, heq, ne_eq, NameIndex.get?_ofNames_eq_none_iff, not_not]
  constructor
  · rintro ⟨p, hp⟩
    obtain ⟨hvalid, matchers, graph, hmatchers, hbuild, -⟩ := load_eq_ok_iff.1 hp
    obtain ⟨hmatcherCount, hconditionCount⟩ := Config.validate_eq_ok_iff.1 hvalid
    obtain ⟨hdistinct, heq⟩ := MatcherSet.ofList_eq_ok_iff.1 hmatchers
    obtain ⟨hnames, hres⟩ := Graph.build_accepts_iff.1 ⟨graph, hbuild⟩
    refine ⟨hmatcherCount, hconditionCount, hdistinct, hnames, ?_, ?_, ?_, hres.children,
      hres.acyclic⟩
    · intro condition hmem spec hspec
      have := Spec.defect?_eq_none_iff.1 (hres.wellFormed condition hmem)
      rwa [hspec] at this
    · exact fun condition hmem name hname =>
        (hmatcher matchers heq name).1 (hres.matchers condition hmem name hname)
    · intro condition hmem operator children hspec
      have := Spec.defect?_eq_none_iff.1 (hres.wellFormed condition hmem)
      rwa [hspec] at this
  · intro h
    have hmatchers := MatcherSet.ofList_eq_ok_iff.2
      ⟨h.matcherNames, show (MatcherSet.mk config.matchers h.matcherNames).matchers = _ from rfl⟩
    have hvalid := Config.validate_eq_ok_iff.2 ⟨h.matcherCount, h.conditionCount⟩
    have hwellFormed : ∀ condition ∈ config.conditions, condition.spec.defect? = none := by
      intro condition hmem
      rw [Spec.defect?_eq_none_iff]
      cases hspec : condition.spec with
      | simple spec => exact h.decided condition hmem spec hspec
      | combination operator children => exact h.fed condition hmem operator children hspec
    obtain ⟨graph, hbuild⟩ := Graph.build_accepts_iff.2 ⟨h.conditionNames, hwellFormed,
      fun condition hmem name hname =>
        (hmatcher ⟨config.matchers, h.matcherNames⟩ rfl name).2
          (h.matchersExist condition hmem name hname),
      h.childrenExist, h.acyclic⟩
    exact ⟨_, load_eq_ok_iff.2 ⟨hvalid, _, graph, hmatchers, hbuild, rfl⟩⟩

end EventConditions
