import EventConditions.Proofs.Pipeline.Soundness

/-!
# What a pipeline reports

After every event a pipeline names the conditions that are in another state than before it, and
counts them and the conditions that took part. Those that took part are told by the configuration:
an event concerns a condition if it matches a matcher that drives a simple condition below it. What
it does not concern stays as it was, so an event that no matcher matches leaves everything as it
was, and nothing is reported of it (`Pipeline.onEvent_reports`).
-/

namespace EventConditions

/-- The event matches a matcher that drives the condition of the given name, or one that it depends
on. -/
def Config.Concerns (c : Config) (e : Event) (name : String) : Prop :=
  ∃ below ∈ c.conditions, c.DependsOn name below.name ∧
    ∃ m ∈ c.matchers, m.name ∈ below.spec.matchers ∧ m.Matches e

/-! ## Conditions that an event concerns -/

theorem Simple.exists_matched_iff {s : Simple} {matched : Nat → Bool} :
    (∃ m ∈ s.matchers, matched m = true) ↔ s.start.any matched = true ∨
      s.stop.any matched = true ∨ s.stopAll.any matched = true := by
  simp only [mem_matchers, or_and_right, exists_or, Option.any_eq_true]

/-- By index a matched matcher drives a simple condition if one does by name. -/
theorem Simple.Driven.exists_matched_iff {s : Simple} {c : Config} {spec : SimpleSpec} {e : Event}
    {matched : Nat → Bool} (h : s.Driven c spec e matched) :
    (∃ m ∈ s.matchers, matched m = true) ↔
      ∃ m ∈ c.matchers, m.name ∈ (Spec.simple spec).matchers ∧ m.Matches e := by
  rw [Simple.exists_matched_iff, h.start, h.stop, h.stopAll]
  simp only [Spec.mem_matchers_simple, Config.Matched, or_and_right, and_or_left, exists_or]

namespace Board

variable {n : Nat}

theorem changedIndices_mk (cells : Table n Cell) : (Board.mk cells.toArray).changedIndices =
    ((List.finRange n).filter fun i => (cells.entry i).changed).map Fin.val := by
  rw [changedIndices, size, Vector.size_toArray, ← List.map_coe_finRange_eq_range, List.filter_map]
  refine congrArg (List.map Fin.val) (List.filter_congr fun i _ => ?_)
  simp [Table.entry]

end Board

/-- The configured names in index order. -/
theorem Config.map_name_eq (c : Config) : c.conditions.map Condition.name =
    (List.finRange c.conditions.length).map fun i => (c.conditions.get i).name := by
  conv_lhs => rw [← List.map_get_finRange c.conditions, List.map_map]
  rfl

namespace Pipeline

variable {config : Config} {p p' : Pipeline config.conditions.length} {e : Event} {summary : Summary}

/-- A node reads a matched matcher if one that drives its condition matches. -/
theorem Stands.exists_matched_iff (h : p.Stands config) (e : Event)
    (i : Fin config.conditions.length) :
    (∃ m ∈ (p.graph.nodes.entry i).reads, matchedIn (p.matchers.verdicts e) m = true) ↔
      ∃ m ∈ config.matchers, m.name ∈ (config.conditions.get i).spec.matchers ∧ m.Matches e := by
  rcases h.rule i with ⟨s, spec, hs, hspec, hrenders⟩ | ⟨x, c, hx, hrule, hspec⟩
  · rw [hspec, ← (hrenders.driven h.matchers e).exists_matched_iff]
    simp [Node.mem_reads_iff, hs]
  · rw [hspec]
    simp [Node.mem_reads_iff, Node.simple?_of_combination hx hrule, Spec.matchers]

/-- Matched matchers can influence the conditions that the event concerns. -/
theorem Stands.influenced_iff (h : p.Stands config) (e : Event) (i : Fin config.conditions.length) :
    p.graph.influenced (p.matchers.verdicts e) i = true ↔
      config.Concerns e (config.conditions.get i).name := by
  obtain ⟨-, -, -, -, hused⟩ := h.represents i
  rw [Graph.influenced, List.any_eq_true, Config.Concerns, h.exists_below_iff]
  simp only [← h.exists_matched_iff, ← IndexSet.mem_def, hused]
  constructor
  · rintro ⟨m, ⟨j, hreach, hread⟩, hmatched⟩
    exact ⟨j, hreach, m, hread, hmatched⟩
  · rintro ⟨j, hreach, m, hread, hmatched⟩
    exact ⟨m, ⟨j, hreach, hread⟩, hmatched⟩

/-! ## What is counted and named -/

/-- The summary counts the conditions that were to take part, and those that the board shows as
changed. -/
theorem Stands.summary_eq (h : p.Stands config) (hfed : (p.onEvent e).result = .ok (p', summary)) :
    summary.evaluated = (List.finRange config.conditions.length).countP
        (p.graph.influenced (p.matchers.verdicts e)) ∧
      summary.changed = p'.board.changedIndices.length := by
  rw [Pipeline.onEvent, Logged.result_bind_of_ok (judge_eq_ok p e),
    Logged.result_bind_of_ok (Graph.relevance_eq_ok (h.covers e))] at hfed
  obtain ⟨⟨graph, board⟩, -, hfed⟩ := Logged.result_bind_eq_ok_iff.1 hfed
  have hcount : (p.graph.marks (p.matchers.verdicts e)).toList.countP id =
      (List.finRange config.conditions.length).countP
        (p.graph.influenced (p.matchers.verdicts e)) := by
    rw [Graph.marks, List.countP_map]
    rfl
  dsimp only at hfed
  split_ifs at hfed
  · cases hfed
    exact ⟨hcount, rfl⟩
  · cases hfed
    exact ⟨hcount, rfl⟩

/-- Every condition that is shown as changed is named, in index order. -/
theorem Stands.changedNames_eq (h : p.Stands config) {cells : Table config.conditions.length Cell}
    (hcells : p.board = ⟨cells.toArray⟩) :
    p.changedNames = ((List.finRange config.conditions.length).filter fun i =>
      (cells.entry i).changed).map fun i => (config.conditions.get i).name := by
  rw [changedNames, hcells, Board.changedIndices_mk, List.filterMap_map, ← List.filterMap_eq_map]
  refine List.filterMap_congr fun i _ => ?_
  rw [Function.comp_apply, Function.comp_apply, Vector.getElem?_eq_getElem i.isLt, Option.map_some,
    ← h.name_eq]
  rfl

/-! ## What an event does not concern -/

section Turns

variable {s : Sweep config.conditions.length} {i : Fin config.conditions.length}

/-- A condition that the event does not concern comes out of its turn as it went in. -/
theorem Stands.still (h : p.Stands config)
    (hturned : ∀ i, Sweep.Turned e (p.matchers.verdicts e) p.graph.opening s i)
    (hi : ¬ config.Concerns e (config.conditions.get i).name) : Sweep.Agree i s p.graph.opening :=
  Sweep.still_of_turned h.coherent (h.covers e) hturned
    (Bool.eq_false_iff.2 (mt (h.influenced_iff e i).1 hi))

/-- What is shown as changed is concerned. -/
theorem Stands.concerns_of_changed (h : p.Stands config)
    (hturned : ∀ i, Sweep.Turned e (p.matchers.verdicts e) p.graph.opening s i)
    (hi : (s.cells.entry i).changed = true) :
    config.Concerns e (config.conditions.get i).name := by
  by_contra hnot
  rw [(h.still hturned hnot).2] at hi
  simp [Graph.opening] at hi

/-- A condition is shown as changed if the pipelines before and after show it in different
states. -/
theorem Stands.changed_iff (h : p.Stands config) (h' : p'.Stands config)
    (hnodes : p'.graph.nodes = s.nodes)
    (hturned : Sweep.Turned e (p.matchers.verdicts e) p.graph.opening s i) :
    (s.cells.entry i).changed = true ↔
      p'.state? (config.conditions.get i).name ≠ p.state? (config.conditions.get i).name := by
  rw [hturned.changed_eq, bne_iff_ne, h'.state?_eq, h.state?_eq, hnodes, Ne, Ne, Except.ok.injEq,
    Option.some.injEq]
  rfl

end Turns

/-! ## Reports -/

open Classical in
/-- What a pipeline reports of an event that leads from `p` to `p'`. -/
structure Reports (config : Config) (e : Event) (p p' : Pipeline config.conditions.length)
    (summary : Summary) : Prop where
  /-- The conditions that are named are those in another state than before, in index order. -/
  named : p'.changedNames = (config.conditions.map Condition.name).filter
    fun name => p'.state? name ≠ p.state? name
  /-- None is named twice. -/
  nodup : p'.changedNames.Nodup
  changed : summary.changed = p'.changedNames.length
  evaluated : summary.evaluated =
    config.conditions.countP fun condition => config.Concerns e condition.name
  concerned : ∀ name ∈ p'.changedNames, config.Concerns e name
  changed_le : summary.changed ≤ summary.evaluated
  /-- An event that no matcher matches does nothing. -/
  unmatched : (∀ m ∈ config.matchers, ¬ m.Matches e) → summary = { evaluated := 0, changed := 0 } ∧
    p'.graph = p.graph ∧ ∀ name, p'.state? name = p.state? name

/-- Feeding an event reports what it did. -/
theorem Sound.reports (h : p.Sound config) (e : Event) :
    ∃ p' summary, (p.onEvent e).result = .ok (p', summary) ∧ Reports config e p p' summary := by
  obtain ⟨p', summary, s, hfed, hsound, -, houtline, -, hnodes, hcells, hturned⟩ := h.onEvent e
  have hnamed := hsound.changedNames_eq hcells
  obtain ⟨hevaluated, hcount⟩ := h.summary_eq hfed
  rw [hcells, Board.changedIndices_mk, List.length_map] at hcount
  have hle : summary.changed ≤ summary.evaluated := by
    rw [hcount, hevaluated, ← List.countP_eq_length_filter]
    exact List.countP_mono_left fun i _ hi =>
      (h.influenced_iff e i).2 (h.concerns_of_changed hturned hi)
  refine ⟨p', summary, hfed, ?_, ?_, ?_, ?_, ?_, hle, fun hnone => ?_⟩
  · rw [hnamed, config.map_name_eq, List.filter_map]
    refine congrArg (List.map _) (List.filter_congr fun i _ => ?_)
    rw [Bool.eq_iff_iff, h.changed_iff hsound.toStands hnodes (hturned i)]
    exact decide_eq_true_iff.symm
  · rw [hnamed]
    exact ((List.nodup_finRange _).filter _).map fun i j => hsound.name_injective
  · rw [hcount, hnamed, List.length_map]
  · conv_rhs => rw [← List.map_get_finRange config.conditions]
    rw [hevaluated, List.countP_map]
    exact List.countP_congr fun i _ => by simp [h.influenced_iff]
  · intro name hname
    rw [hnamed] at hname
    obtain ⟨i, hi, rfl⟩ := List.mem_map.1 hname
    exact h.concerns_of_changed hturned (List.mem_filter.1 hi).2
  · have hnot : ∀ i, ¬ config.Concerns e (config.conditions.get i).name :=
      fun i ⟨_, _, _, m, hm, _, hmatches⟩ => hnone m hm hmatches
    have hgraph : p'.graph = p.graph := by
      refine Graph.eq_of_outline houtline fun i => ?_
      rw [hnodes]
      exact (h.still hturned (hnot i)).1
    have hnobody : summary.evaluated = 0 := by
      rw [hevaluated]
      exact List.countP_eq_zero.2 fun i _ => mt (h.influenced_iff e i).1 (hnot i)
    refine ⟨?_, hgraph, fun name => ?_⟩
    · rw [Summary.mk.injEq]
      exact ⟨hnobody, Nat.le_zero.1 (hnobody ▸ hle)⟩
    · rw [hsound.state?_eq_map, h.state?_eq_map, hgraph]

/-- **What a pipeline reports.** Take the pipeline of an accepted configuration through any steps,
and feed it one more event. It names the conditions whose state the event changed, each once and in
index order. The summary counts them, and the conditions that the event concerns, among which all
changed ones are. An event that no matcher matches leaves the graph and all states as they were, and
the summary counts nothing. -/
theorem onEvent_reports (hload : (load config).result = .ok (.ok p)) (steps : List Step) (e : Event) :
    ∃ p₁ p₂ summary, (steps.foldlM step p).result = .ok p₁ ∧
      (p₁.onEvent e).result = .ok (p₂, summary) ∧ Reports config e p₁ p₂ summary := by
  obtain ⟨p₁, hrun, hsound⟩ := (Sound.of_loads (load_eq_ok_iff.1 hload)).run steps
  obtain ⟨p₂, summary, hfed, hreports⟩ := hsound.reports e
  exact ⟨p₁, p₂, summary, hrun, hfed, hreports⟩

/-- A configuration in which a place is manned as long as it is busy or alarmed. -/
def mannedConfig : Config where
  matchers := [{ name := "begin", tag := 7 }, { name := "alarm", tag := 9 }]
  conditions := [
    ⟨"manned", .combination .or ["busy", "alarmed"]⟩,
    ⟨"busy", .simple { start := some "begin" }⟩,
    ⟨"alarmed", .simple { start := some "alarm", initial := .fails }⟩]

/-- An alarm concerns the place too, which stays manned as it was. An event of tag 8 concerns
nothing. -/
theorem onEvent_reports_alarm :
    ∃ p p₁ p₂ p₃, (load mannedConfig).result = .ok (.ok p) ∧
      ([.event { tag := 7 }].foldlM step p).result = .ok p₁ ∧
      (p₁.onEvent { tag := 9 }).result = .ok (p₂, { evaluated := 2, changed := 1 }) ∧
      p₂.changedNames = ["alarmed"] ∧
      Reports mannedConfig { tag := 9 } p₁ p₂ { evaluated := 2, changed := 1 } ∧
      (p₁.onEvent { tag := 8 }).result = .ok (p₃, { evaluated := 0, changed := 0 }) ∧
      p₃.graph = p₁.graph := by
  obtain ⟨p, hload⟩ : ∃ p, (load mannedConfig).result = .ok (.ok p) :=
    ⟨_, by with_unfolding_all rfl⟩
  obtain ⟨p₁, p₂, summary, hrun, hfed, hreports⟩ :=
    onEvent_reports hload [.event { tag := 7 }] { tag := 9 }
  obtain ⟨q₁, p₃, summary', hrun', hfed', hreports'⟩ :=
    onEvent_reports hload [.event { tag := 7 }] { tag := 8 }
  obtain rfl : p₁ = q₁ := Except.ok.inj (hrun.symm.trans hrun')
  obtain ⟨rfl, hgraph, -⟩ := hreports'.unmatched (by decide)
  have hfinal : ((load mannedConfig).result >>= fun outcome =>
      match outcome with
      | .ok p => ([.event { tag := 7 }].foldlM step p).result >>= fun p₁ =>
        (p₁.onEvent { tag := 9 }).result.map fun fed => (fed.1.changedNames, fed.2)
      | .error _ => .ok ([], { evaluated := 0, changed := 0 })) =
      .ok (["alarmed"], { evaluated := 2, changed := 1 }) := by
    with_unfolding_all rfl
  rw [hload, ok_bind] at hfinal
  dsimp only at hfinal
  rw [hrun, ok_bind, hfed] at hfinal
  obtain ⟨hnamed, rfl⟩ := Prod.mk.inj (Except.ok.inj hfinal)
  exact ⟨p, p₁, p₂, p₃, hload, hrun, hfed, hnamed, hreports, hfed', hgraph⟩

end Pipeline

end EventConditions
