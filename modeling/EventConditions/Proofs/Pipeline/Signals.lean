import EventConditions.Proofs.Pipeline.Meaning
import EventConditions.Proofs.Pipeline.Soundness

/-!
# What a pipeline signals

After every event a pipeline signals a slice change of exactly the conditions that slice reports
were asked for and that depend on a simple condition whose state or held keys the event changed
(`Pipeline.onEvent_signals_iff`). An event that all these simple conditions are idle on is not
signalled.

A start for which there is no room is among the events that a condition is idle on only once the
state of the condition is known. Where a condition may hold no slice at all, such a start decides
the condition to fail, and that is signalled (`Pipeline.onEvent_signals_dropped`).
-/

namespace EventConditions

namespace Pipeline

/-- **What a pipeline signals.** Take the pipeline of an accepted configuration through any steps,
and feed it one more event. The slice change flag of a condition is set exactly if slice reports of
it are asked for and the event changed the state or the held keys of a simple condition that it
depends on, or is. It is not set if all of these are idle on the event. -/
theorem onEvent_signals_iff {config : Config} {p : Pipeline config.conditions.length}
    (hload : (load config).result = .ok (.ok p)) (steps : List Step) (e : Event) :
    ∃ p₁ p₂ summary, (steps.foldlM step p).result = .ok p₁ ∧
      (p₁.onEvent e).result = .ok (p₂, summary) ∧
      ∀ i : Fin config.conditions.length, ∃ cell, p₂.board.cells[i.val]? = some cell ∧
        (cell.sliceChanged = true ↔ (p₂.graph.nodes.entry i).sliced = true ∧
          ∃ j, p₂.graph.Reaches i j ∧
            Node.Stirred (p₁.graph.nodes.entry j) (p₂.graph.nodes.entry j)) ∧
        ((∀ j, p₂.graph.Reaches i j →
            (p₁.graph.nodes.entry j).IdleOn e (p₁.matchers.verdicts e)) →
          cell.sliceChanged = false) := by
  obtain ⟨p₁, hrun, hsound⟩ := (Sound.of_loads (load_eq_ok_iff.1 hload)).run steps
  obtain ⟨p₂, summary, s, hfed, -, -, houtline, hsliced, hnodes, hcells, hturned⟩ :=
    hsound.onEvent e
  refine ⟨p₁, p₂, summary, hrun, hfed, fun i => ⟨s.cells.entry i, ?_, ?_, fun hidle => ?_⟩⟩
  · rw [hcells]
    simp [Table.entry]
  · rw [hsliced, Graph.reaches_eq_of_outline houtline, hnodes]
    exact Sweep.sliceChanged_iff hsound.coherent hturned hsound.closed i
  · rw [← Bool.not_eq_true, Sweep.sliceChanged_iff hsound.coherent hturned hsound.closed i]
    rintro ⟨-, j, hreach, hstirred⟩
    rw [Graph.reaches_eq_of_outline houtline] at hidle
    exact (hturned j).not_stirred hsound.settled (hidle j hreach) hstirred

theorem onEvent_signals_iff_idleBusy :
    let e : Event := { tag := 7 }
    let idle : Fin idleBusyConfig.conditions.length := ⟨0, by decide⟩
    (load idleBusyConfig).result = .ok (.ok idleBusyPipeline) ∧
      ∃ p₁ p₂ summary, ([.setSliced "idle"].foldlM step idleBusyPipeline).result = .ok p₁ ∧
        (p₁.onEvent e).result = .ok (p₂, summary) ∧
        p₂.board = ⟨#[⟨.fails, true, true⟩, ⟨.holds, true, true⟩]⟩ ∧
        ∃ j, p₂.graph.Reaches idle j ∧
          Node.Stirred (p₁.graph.nodes.entry j) (p₂.graph.nodes.entry j) := by
  intro e idle
  have hload : (load idleBusyConfig).result = .ok (.ok idleBusyPipeline) := by
    with_unfolding_all rfl
  let busy : Fin idleBusyConfig.conditions.length := ⟨1, by decide⟩
  let p₁ : Pipeline idleBusyConfig.conditions.length := { idleBusyPipeline with
    graph := { idleBusyPipeline.graph with
      nodes := Graph.mark (Graph.mark idleBusyPipeline.graph.nodes idle) busy } }
  have hasked : (idleBusyPipeline.step (.setSliced "idle")).result = .ok p₁ :=
    step_setSliced_of_spread rfl ((Graph.spread_of_unsliced rfl).trans (Graph.spread_nil _))
  have hrun : ([.setSliced "idle"].foldlM step idleBusyPipeline).result = .ok p₁ := by
    rw [List.foldlM_cons, Logged.result_bind_of_ok hasked]
    rfl
  have hfinal : (·.1.board) <$> (p₁.onEvent e).result =
      .ok ⟨#[⟨.fails, true, true⟩, ⟨.holds, true, true⟩]⟩ := by
    with_unfolding_all rfl
  obtain ⟨q, p₂, summary, hrun', hfed, hsignals⟩ := onEvent_signals_iff hload [.setSliced "idle"] e
  obtain rfl := Except.ok.inj (hrun.symm.trans hrun')
  rw [hfed] at hfinal
  have hboard : p₂.board = ⟨#[⟨.fails, true, true⟩, ⟨.holds, true, true⟩]⟩ :=
    Except.ok.inj hfinal
  obtain ⟨cell, hcell, hsignal, -⟩ := hsignals idle
  rw [hboard] at hcell
  obtain rfl := Option.some.inj hcell
  exact ⟨hload, p₁, p₂, summary, hrun, hfed, hboard, (hsignal.1 rfl).2⟩

/-- A configuration of one condition, which may not hold any slice. -/
def noRoomConfig : Config where
  matchers := [{ name := "begin", tag := 7 }]
  conditions := [⟨"busy", .simple { start := some "begin" }⟩]
  limits := { maxSlices := 0 }

/-- Its pipeline in the given state, asked for slice reports or not. -/
def noRoomPipeline (asked : Bool) (cell : Cell) (eventsSeen : Nat) :
    Pipeline 1 where
  matchers := { matchers := noRoomConfig.matchers, distinct := by decide }
  graph := {
    nodes := #v[{
      name := "busy"
      index := 0
      sliced := asked
      resolved? := some {
        rule := .simple { start := some 0, maxSlices := 0 }
        used := ⟨[0]⟩
        aggregate := cell.state } }]
    order := [0]
    maxSlices := 0 }
  board := ⟨#[cell]⟩
  eventsSeen

/-- A start that is dropped may be signalled: where nothing is known of a condition that may not
hold any slice, it decides the condition to fail, while no key is held before or after. -/
theorem onEvent_signals_dropped :
    let e : Event := { tag := 7 }
    let s : Simple := { start := some 0, maxSlices := 0 }
    let p := noRoomPipeline true {} 0
    let p' := noRoomPipeline true { state := .fails, changed := true, sliceChanged := true } 1
    (load noRoomConfig).result = .ok (.ok (noRoomPipeline false {} 0)) ∧
      ([.setSliced "busy"].foldlM step (noRoomPipeline false {} 0)).result = .ok p ∧
      (p.onEvent e).result = .ok (p', { evaluated := 1, changed := 1 }) ∧
      (p.graph.nodes.entry 0).simple? = some s ∧ (p'.graph.nodes.entry 0).simple? = some s ∧
      s.request e (p.matchers.verdicts e) = .ok (.start .whole) ∧
      s.slices.drops s.maxSlices .whole = true ∧
      p'.board.cells[0]?.map Cell.sliceChanged = some true := by
  refine ⟨?_, ?_, ?_, rfl, rfl, ?_, ?_, ?_⟩
  · with_unfolding_all rfl
  · have hasked : ((noRoomPipeline false {} 0).step (.setSliced "busy")).result =
        .ok (noRoomPipeline true {} 0) := step_setSliced_of_spread rfl (Graph.spread_nil _)
    rw [List.foldlM_cons, Logged.result_bind_of_ok hasked]
    rfl
  · with_unfolding_all rfl
  · with_unfolding_all rfl
  · decide
  · rfl

end Pipeline

end EventConditions
