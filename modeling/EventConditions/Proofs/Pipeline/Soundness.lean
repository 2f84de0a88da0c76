import EventConditions.Proofs.Graph.Signals
import EventConditions.Proofs.Pipeline.History

/-!
# What holds of a pipeline after any steps

Besides standing for its configuration, a pipeline is closed, which makes requests for slice reports
reach all that they should, and settled: every simple condition holds exactly while it holds a
slice. Both hold after loading and are kept by every step (`Pipeline.Sound.run`), however many
events there were.
-/

namespace EventConditions

namespace Pipeline

variable {config : Config} {p : Pipeline config.conditions.length}

/-- The pipeline stands for its configuration, children of asked conditions are asked, and states go
with slices. -/
structure Sound (config : Config) (p : Pipeline config.conditions.length) : Prop
    extends Stands config p where
  closed : p.graph.Closed
  settled : p.graph.Settled

/-- An event gives every condition its turn, and leaves a sound pipeline. -/
theorem Sound.onEvent (h : p.Sound config) (e : Event) :
    ∃ (p' : Pipeline config.conditions.length) (summary : Summary)
      (s : Sweep config.conditions.length),
      (p.onEvent e).result = .ok (p', summary) ∧ p'.Sound config ∧
      p'.matchers = p.matchers ∧ p'.graph.outline = p.graph.outline ∧
      (∀ i, (p'.graph.nodes.entry i).sliced = (p.graph.nodes.entry i).sliced) ∧
      p'.graph.nodes = s.nodes ∧ p'.board = ⟨s.cells.toArray⟩ ∧
      ∀ i, Sweep.Turned e (p.matchers.verdicts e) p.graph.opening s i := by
  obtain ⟨p', summary, s, hfed, hstands, hmatchers, houtline, hsliced, hnodes, hcells, hturned⟩ :=
    h.toStands.onEvent e
  exact ⟨p', summary, s, hfed, ⟨hstands, h.closed.of_outline houtline hsliced,
    Sweep.settled_of_turned h.settled hnodes hturned⟩, hmatchers, houtline,
    hsliced, hnodes, hcells, hturned⟩

/-- A request leaves a sound pipeline. -/
theorem Sound.slice (h : p.Sound config) (i : Fin config.conditions.length) :
    Sound config { p with graph := p.graph.slice i } :=
  ⟨h.toStands.slice i, h.closed.slice i, h.settled.slice i⟩

/-- A step comes to an end and leaves a sound pipeline. -/
theorem Sound.step (h : p.Sound config) (step : Step) :
    ∃ p', (p.step step).result = .ok p' ∧ p'.Sound config := by
  cases step with
  | event e =>
    obtain ⟨p', summary, -, hfed, hsound, -⟩ := h.onEvent e
    exact ⟨p', Logged.result_bind_of_ok hfed _, hsound⟩
  | setSliced name =>
    rcases p.step_setSliced name with ⟨i, -, hstep⟩ | ⟨-, hstep⟩
    · exact ⟨_, hstep, h.slice i⟩
    · exact ⟨p, hstep, h⟩

/-- Any steps come to an end and leave a sound pipeline. -/
theorem Sound.run (h : p.Sound config) (steps : List Step) :
    ∃ p', (steps.foldlM Pipeline.step p).result = .ok p' ∧ p'.Sound config :=
  exists_run (P := fun p _ => p.Sound config) (fun _ _ next h => h.step next) [] h steps

/-- In a pipeline that was just loaded no slice reports are asked for. -/
theorem Loads.unasked (h : Loads config p) (i : Fin config.conditions.length) :
    (p.graph.nodes.entry i).sliced = false := by
  obtain ⟨-, matchers, g, -, hbuild, rfl⟩ := h
  obtain ⟨g₀, hmade, hres⟩ := Graph.build_eq_ok_iff.1 hbuild
  -- resolving asks no node
  obtain ⟨g', o, hres', -, hreset, -⟩ := g₀.resolve_spec config.conditions matchers.names
  obtain ⟨rfl, -⟩ := Prod.mk.inj (Except.ok.inj (hres'.symm.trans hres))
  obtain ⟨-, rfl⟩ := Graph.ofConditions_eq_ok_iff.1 hmade
  rw [Node.sliced_eq_of_reset (hreset i), Graph.entry_freshNodes]

/-- A pipeline that was just loaded is sound. -/
theorem Sound.of_loads (h : Loads config p) : p.Sound config := by
  refine ⟨Stands.of_loads h, .of_unasked h.unasked, fun i s hs => ?_⟩
  -- a simple condition starts without slices and never out of holding
  obtain ⟨hslices, spec, -, hstate⟩ := h.starts hs
  rw [hslices, hstate]
  exact Slices.backs_initial spec.initial

end Pipeline

end EventConditions
