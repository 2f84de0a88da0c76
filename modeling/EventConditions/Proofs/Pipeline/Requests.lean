import EventConditions.Proofs.Pipeline.Meaning
import EventConditions.Proofs.Pipeline.Soundness

/-!
# What requests add up to

After any steps slice reports are asked for of exactly the conditions that requests named, and of
all that these depend on. What else happened, and in which order, does not matter. A request is
passed on only as far as nobody was asked before, which is far enough because the children of asked
conditions are asked (`Pipeline.Sound`). To all else it does nothing (`Pipeline.run_asks`).
-/

namespace EventConditions

namespace Pipeline

variable {n : Nat}

/-- The steps request slice reports of the condition of the given name, or of one that depends on
it. -/
def Asks (config : Config) (steps : List Step) (name : String) : Prop :=
  ∃ condition ∈ config.conditions, Step.setSliced condition.name ∈ steps ∧
    config.DependsOn condition.name name

/-- The second pipeline is the first, except that other slice reports may be asked for. -/
structure SameButAsked (p p' : Pipeline n) : Prop where
  rest : p' = { p with graph := { p.graph with nodes := p'.graph.nodes } }
  nodes : ∀ i, (p.graph.nodes.entry i).SameButAsked (p'.graph.nodes.entry i)

variable {config : Config} {p : Pipeline config.conditions.length} {steps : List Step}

/-- One more step asks for what it requests besides. -/
theorem asks_append_singleton {step : Step} {name : String} :
    Asks config (steps ++ [step]) name ↔ Asks config steps name ∨
      ∃ condition ∈ config.conditions, Step.setSliced condition.name = step ∧
        config.DependsOn condition.name name := by
  simp only [Asks, List.mem_append, List.mem_singleton, or_and_right, and_or_left, exists_or]

/-- The pipeline is sound, and slice reports are asked for of the conditions that the steps led
to. -/
structure SlicedIffAsks (config : Config) (p : Pipeline config.conditions.length)
    (steps : List Step) : Prop extends Sound config p where
  sliced_iff : ∀ i, (p.graph.nodes.entry i).sliced = true ↔
    Asks config steps (config.conditions.get i).name

/-- A pipeline that was just loaded was asked for nothing. -/
theorem SlicedIffAsks.of_loads (h : Loads config p) : p.SlicedIffAsks config [] :=
  ⟨.of_loads h, fun i => by simp [h.unasked, Asks]⟩

/-- An event asks for nothing. -/
theorem SlicedIffAsks.event (h : p.SlicedIffAsks config steps) (e : Event) :
    ∃ p', (p.step (.event e)).result = .ok p' ∧ p'.SlicedIffAsks config (steps ++ [.event e]) := by
  obtain ⟨p', summary, -, hfed, hsound, -, -, hsliced, -⟩ := h.toSound.onEvent e
  refine ⟨p', Logged.result_bind_of_ok hfed _, hsound, fun i => ?_⟩
  rw [hsliced, h.sliced_iff, asks_append_singleton]
  simp

/-- A request asks for what is reached from the condition of its name, if there is one. -/
theorem SlicedIffAsks.setSliced (h : p.SlicedIffAsks config steps) (name : String) :
    ∃ p', (p.step (.setSliced name)).result = .ok p' ∧
      p'.SlicedIffAsks config (steps ++ [.setSliced name]) := by
  rcases p.step_setSliced name with ⟨k, hindex, hstep⟩ | ⟨hindex, hstep⟩
  · obtain rfl := h.name_of_indexOf? hindex
    refine ⟨_, hstep, h.toSound.slice k, fun i => ?_⟩
    rw [h.closed.sliced_slice_iff, h.sliced_iff, asks_append_singleton]
    refine or_congr_right (h.reaches_iff.trans ⟨fun hdepends => ?_, ?_⟩)
    · exact ⟨_, List.get_mem _ k, rfl, hdepends⟩
    · rintro ⟨condition, -, hname, hdepends⟩
      rwa [← Step.setSliced.inj hname]
  · refine ⟨p, hstep, h.toSound, fun i => ?_⟩
    rw [h.sliced_iff, asks_append_singleton, or_iff_left]
    rintro ⟨condition, hmem, hname, -⟩
    obtain rfl := Step.setSliced.inj hname
    exact h.indexOf?_eq_none_iff.1 hindex (List.mem_map_of_mem hmem)

/-- Any steps ask for what they request. -/
theorem SlicedIffAsks.run (h : p.SlicedIffAsks config steps) (later : List Step) :
    ∃ p', (later.foldlM step p).result = .ok p' ∧ p'.SlicedIffAsks config (steps ++ later) := by
  refine exists_run (P := fun p steps => p.SlicedIffAsks config steps) (fun p steps next h => ?_)
    steps h later
  cases next with
  | event e => exact h.event e
  | setSliced name => exact h.setSliced name

/-- A request for a name that there is asks nodes, and does nothing else. -/
theorem sameButAsked_slice (p : Pipeline n) (i : Fin n) :
    p.SameButAsked { p with graph := p.graph.slice i } :=
  ⟨rfl, p.graph.sameButAsked_slice i⟩

/-- **What requests add up to.** Take the pipeline of an accepted configuration through any steps.
Slice reports are then asked for of exactly the conditions that were requested and of all that these
depend on, so other steps with the same requests lead to the same, and further steps take no request
back. A request for a name that there is not is refused and changes nothing; any other one changes
nothing but who is asked. -/
theorem run_asks (hload : (load config).result = .ok (.ok p)) (steps : List Step) :
    ∃ p', (steps.foldlM step p).result = .ok p' ∧
      (∀ i, (p'.graph.nodes.entry i).sliced = true ↔
        Asks config steps (config.conditions.get i).name) ∧
      (∀ others : List Step, (∀ name, Step.setSliced name ∈ others ↔ Step.setSliced name ∈ steps) →
        ∃ q, (others.foldlM step p).result = .ok q ∧
          ∀ i, (q.graph.nodes.entry i).sliced = (p'.graph.nodes.entry i).sliced) ∧
      (∀ later : List Step, ∃ q, (later.foldlM step p').result = .ok q ∧
        ∀ i, (p'.graph.nodes.entry i).sliced = true → (q.graph.nodes.entry i).sliced = true) ∧
      ∀ name,
        (name ∉ config.conditions.map Condition.name →
          p'.setSliced name = .error { cause := .unknownCondition name } ∧
          (p'.step (.setSliced name)).result = .ok p') ∧
        (name ∈ config.conditions.map Condition.name →
          ∃ q, p'.setSliced name = .ok q ∧ p'.SameButAsked q) := by
  have hfresh := SlicedIffAsks.of_loads (load_eq_ok_iff.1 hload)
  obtain ⟨p', hrun, h⟩ := hfresh.run steps
  refine ⟨p', hrun, h.sliced_iff, fun others hsame => ?_, fun later => ?_, fun name => ⟨?_, ?_⟩⟩
  · obtain ⟨q, hrun', h'⟩ := hfresh.run others
    refine ⟨q, hrun', fun i => ?_⟩
    rw [Bool.eq_iff_iff, h.sliced_iff, h'.sliced_iff]
    simp only [Asks, List.nil_append, hsame]
  · obtain ⟨q, hrun', h'⟩ := h.run later
    refine ⟨q, hrun', fun i hi => (h'.sliced_iff i).2 ?_⟩
    obtain ⟨condition, hmem, hrequested, hdepends⟩ := (h.sliced_iff i).1 hi
    exact ⟨condition, hmem, List.mem_append_left _ hrequested, hdepends⟩
  · intro hunknown
    have hindex := h.indexOf?_eq_none_iff.2 hunknown
    refine ⟨setSliced_eq_error hindex, ?_⟩
    rw [step, setSliced_eq_error hindex]
    rfl
  · intro hknown
    obtain ⟨i, hindex⟩ := Option.ne_none_iff_exists'.1 (mt h.indexOf?_eq_none_iff.1 (not_not.2 hknown))
    exact ⟨_, setSliced_eq_ok hindex, p'.sameButAsked_slice i⟩

/-- A request for `busy` does not reach `idle`, which depends on it, whatever else is requested
when. -/
theorem run_asks_busy :
    let steps : List Step := [.setSliced "nobody", .event { tag := 7 }, .setSliced "busy"]
    let others : List Step := [.setSliced "busy", .setSliced "nobody", .setSliced "busy"]
    let idle : Fin idleBusyConfig.conditions.length := ⟨0, by decide⟩
    let busy : Fin idleBusyConfig.conditions.length := ⟨1, by decide⟩
    (load idleBusyConfig).result = .ok (.ok idleBusyPipeline) ∧
      ∃ p' q, (steps.foldlM step idleBusyPipeline).result = .ok p' ∧
        (others.foldlM step idleBusyPipeline).result = .ok q ∧
        (p'.graph.nodes.entry idle).sliced = false ∧ (p'.graph.nodes.entry busy).sliced = true ∧
        (q.graph.nodes.entry idle).sliced = false ∧ (q.graph.nodes.entry busy).sliced = true ∧
        p'.setSliced "nobody" = .error { cause := .unknownCondition "nobody" } := by
  intro steps others idle busy
  have hload : (load idleBusyConfig).result = .ok (.ok idleBusyPipeline) := by
    with_unfolding_all rfl
  have hbusy : Asks idleBusyConfig steps "busy" :=
    ⟨_, List.mem_cons_of_mem _ List.mem_cons_self, by simp [steps], .refl⟩
  have hidle : ¬ Asks idleBusyConfig steps "idle" := by
    rintro ⟨condition, hmem, hrequested, hdepends⟩
    rcases List.mem_pair.1 hmem with rfl | rfl
    · simp [steps] at hrequested
    · -- nothing is listed below `busy`
      rcases hdepends.cases_head with hsame | ⟨child, ⟨condition, hmem, hname, hchild⟩, -⟩
      · exact absurd hsame (by decide)
      · rcases List.mem_pair.1 hmem with rfl | rfl
        · exact absurd hname (by decide)
        · exact nomatch hchild
  obtain ⟨p', hrun, hsliced, hothers, -, hrequests⟩ := run_asks hload steps
  obtain ⟨q, hrun', hsame⟩ := hothers others (by simp [steps, others, or_comm])
  have hidle' : (p'.graph.nodes.entry idle).sliced = false :=
    Bool.eq_false_iff.2 (mt (hsliced idle).1 hidle)
  have hbusy' : (p'.graph.nodes.entry busy).sliced = true := (hsliced busy).2 hbusy
  exact ⟨hload, p', q, hrun, hrun', hidle', hbusy', (hsame idle).trans hidle',
    (hsame busy).trans hbusy', ((hrequests "nobody").1 (by decide)).1⟩

end Pipeline

end EventConditions
