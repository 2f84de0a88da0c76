import Mathlib.Tactic.SplitIfs
import EventConditions.Proofs.Graph.Query
import EventConditions.Proofs.Pipeline.Meaning
import EventConditions.Proofs.Pipeline.Soundness
import EventConditions.Proofs.Slices

/-!
# No call on a pipeline ends in a fault

Whatever is asked of the pipeline of an accepted configuration, in any order and as often as one
likes, every call comes to an end without a fault (`Pipeline.calls_return`). A fault would be a
verdict, cell, mark, node or answer that is read outside its table, a pass or a query that meets a
condition that is not resolved, or a board or mask of the wrong size.

One more thing could go wrong that is no fault here: taking one off a count of zero. Counts are
stored for held slices only, and a stored count is never zero (`Slices.Counted`).
-/

namespace EventConditions

/-! ## Stored counts -/

variable {n : Nat}

/-- All counts that the graph's conditions store are in range. -/
def Graph.Counted (g : Graph n) : Prop :=
  ∀ i s, (g.nodes.entry i).simple? = some s → s.slices.Counted

theorem Graph.Counted.slice {g : Graph n} (h : g.Counted) (i : Fin n) : (g.slice i).Counted := by
  intro j s hs
  refine h j s ?_
  rwa [Node.simple?, ← resolved?_slice g i j]

/-- A pass over all conditions keeps the counts in range. -/
theorem Sweep.counted_of_turned {g g' : Graph n} (hg : g.Counted) {e : Event}
    {verdicts : Array Verdict} {s : Sweep n} (hnodes : g'.nodes = s.nodes)
    (hturned : ∀ i, Turned e verdicts g.opening s i) : g'.Counted := by
  intro i simple' hsimple'
  rw [hnodes] at hsimple'
  obtain ⟨simple, hsimple⟩ := (hturned i).simple_before hsimple'
  obtain ⟨request, -, hafter, -⟩ := (hturned i).of_simple hsimple
  obtain rfl := Option.some.inj (hafter.symm.trans hsimple')
  exact Simple.counted_serve (hg i simple hsimple) request

namespace Pipeline

/-! ## Calls -/

/-- The names of the conditions that the latest event changed, where each must be found by its
index. -/
def lookUpChanged (p : Pipeline n) : Except Fault (List String) :=
  p.board.changedIndices.mapM fun k => do
    let i ← within n k
    return (p.graph.nodes.entry i).name

/-- What may be asked of a pipeline. -/
inductive Call where
  | event (e : Event)
  /-- A request for slice reports of the condition of the given name. -/
  | setSliced (name : String)
  | state (name : String)
  | query (name : String) (q : Query)
  /-- The conditions that the latest event changed. -/
  | changed

/-- The call feeds an event. -/
def Call.isEvent : Call → Bool
  | .event _ => true
  | _ => false

/-- Answers one call, and gives the pipeline as it is after that. -/
def call (p : Pipeline n) : Call → Logged Fault (Pipeline n)
  | .event e => p.step (.event e)
  | .setSliced name => p.step (.setSliced name)
  | .state name => do
    let _ ← Logged.ofExcept (p.state? name)
    return p
  | .query name q => do
    let _ ← Logged.ofExcept (p.query name q)
    return p
  | .changed => do
    let _ ← Logged.ofExcept p.lookUpChanged
    return p

/-- Nothing that a call reads is missing: all conditions are resolved, the board has a cell and each
used matcher a verdict, and stored counts can be lowered by one. -/
structure Intact (p : Pipeline n) : Prop where
  resolved : p.graph.isResolved = true
  board : p.board.cells.size = n
  verdicts : ∀ e, p.graph.Covers (p.matchers.verdicts e)
  counted : p.graph.Counted

variable {config : Config} {p : Pipeline config.conditions.length}

/-- The pipeline is sound, stored counts are in range, and so many events were fed. -/
structure Guarded (config : Config) (p : Pipeline config.conditions.length) (events : Nat) : Prop
    extends Sound config p where
  counted : p.graph.Counted
  seen : p.eventsSeen = events

variable {events : Nat}

theorem Guarded.intact (h : p.Guarded config events) : p.Intact where
  resolved := h.coherent.isResolved
  board := h.shows.size
  verdicts := h.covers
  counted := h.counted

/-- Every name has a state or is unknown. -/
theorem Stands.exists_state? (h : p.Stands config) (name : String) : ∃ s, p.state? name = .ok s :=
  ⟨_, h.state?_eq_map name⟩

/-- Every query is answered, or its name is unknown. -/
theorem Stands.exists_query (h : p.Stands config) (name : String) (q : Query) :
    ∃ s, p.query name q = .ok s := by
  rw [query]
  cases p.graph.indexOf? name with
  | none => exact ⟨none, rfl⟩
  | some i =>
    have hquery := h.coherent.ordered.query_eq h.coherent.isResolved i q
    exact ⟨some ((p.graph.answers q).entry i), by simp only [hquery, ok_bind]; rfl⟩

/-- Every condition that is shown as changed is found, so that none is left out of the names. -/
theorem Stands.lookUpChanged_eq (h : p.Stands config) : p.lookUpChanged = .ok p.changedNames := by
  have hwithin : ∀ k ∈ p.board.changedIndices, k < config.conditions.length := by
    intro k hk
    have hlt : k < p.board.size := List.mem_range.1 (List.mem_filter.1 hk).1
    rwa [Board.size, h.shows.size] at hlt
  rw [lookUpChanged, changedNames]
  generalize p.board.changedIndices = indices at hwithin ⊢
  induction indices with
  | nil => rfl
  | cons k rest ih =>
    rw [List.forall_mem_cons] at hwithin
    have hnode : p.graph.nodes[k]? = some (p.graph.nodes.entry ⟨k, hwithin.1⟩) :=
      Vector.getElem?_eq_getElem hwithin.1
    rw [List.mapM_cons, ih hwithin.2, within, dif_pos hwithin.1, List.filterMap_cons, hnode]
    rfl

/-- An event that was fed is counted. -/
theorem eventsSeen_onEvent {p p' : Pipeline n} {e : Event} {summary : Summary}
    (h : (p.onEvent e).result = .ok (p', summary)) : p'.eventsSeen = p.eventsSeen + 1 := by
  obtain ⟨verdicts, -, h⟩ := Logged.result_bind_eq_ok_iff.1 h
  obtain ⟨mask, -, h⟩ := Logged.result_bind_eq_ok_iff.1 h
  obtain ⟨⟨graph, board⟩, -, h⟩ := Logged.result_bind_eq_ok_iff.1 h
  dsimp only at h
  split_ifs at h
  · cases h
    rfl
  · cases h
    rfl

/-- Each call comes to an end, and leaves a pipeline that is guarded. -/
theorem Guarded.call (h : p.Guarded config events) (c : Call) :
    ∃ p', (p.call c).result = .ok p' ∧
      p'.Guarded config (events + if c.isEvent then 1 else 0) := by
  cases c with
  | event e =>
    obtain ⟨p', summary, s, hfed, hsound, -, -, -, hnodes, -, hturned⟩ := h.toSound.onEvent e
    refine ⟨p', Logged.result_bind_of_ok hfed _, hsound,
      Sweep.counted_of_turned h.counted hnodes hturned, ?_⟩
    rw [eventsSeen_onEvent hfed, h.seen]
    rfl
  | setSliced name =>
    rcases p.step_setSliced name with ⟨i, -, hstep⟩ | ⟨-, hstep⟩
    · exact ⟨_, hstep, h.toSound.slice i, h.counted.slice i, h.seen⟩
    · exact ⟨p, hstep, h⟩
  | state name =>
    obtain ⟨s, hs⟩ := h.exists_state? name
    exact ⟨p, Logged.result_bind_of_ok hs _, h⟩
  | query name q =>
    obtain ⟨s, hs⟩ := h.exists_query name q
    exact ⟨p, Logged.result_bind_of_ok hs _, h⟩
  | changed =>
    exact ⟨p, Logged.result_bind_of_ok h.lookUpChanged_eq _, h⟩

/-- Any calls come to an end, and leave a pipeline that is guarded. -/
theorem Guarded.run (h : p.Guarded config events) (calls : List Call) :
    ∃ p', (calls.foldlM Pipeline.call p).result = .ok p' ∧
      p'.Guarded config (events + calls.countP Call.isEvent) := by
  induction calls generalizing p events with
  | nil => exact ⟨p, rfl, h⟩
  | cons first rest ih =>
    obtain ⟨p₁, hcall, hguarded⟩ := h.call first
    obtain ⟨p', hrun, hguarded'⟩ := ih hguarded
    refine ⟨p', ?_, ?_⟩
    · rw [List.foldlM_cons, Logged.result_bind_of_ok hcall, hrun]
    · rwa [List.countP_cons, Nat.add_comm (rest.countP _), ← Nat.add_assoc]

/-- A pipeline that was just loaded is guarded. -/
theorem Guarded.of_loads (h : Loads config p) : p.Guarded config 0 := by
  refine ⟨.of_loads h, fun i s hs => ?_, ?_⟩
  · obtain ⟨hslices, -⟩ := h.starts hs
    rw [hslices]
    exact Slices.counted_empty
  · obtain ⟨-, matchers, g, -, -, rfl⟩ := h
    rfl

/-- **No call ends in a fault.** Whatever is asked of the pipeline of an accepted configuration,
every call comes to an end. After each of them the pipeline is intact and has counted the events
that it was fed. -/
theorem calls_return (hload : (load config).result = .ok (.ok p)) (calls : List Call) :
    ∃ p', (calls.foldlM call p).result = .ok p' ∧ p'.Intact ∧
      p'.eventsSeen = calls.countP Call.isEvent := by
  obtain ⟨p', hrun, hguarded⟩ := (Guarded.of_loads (load_eq_ok_iff.1 hload)).run calls
  exact ⟨p', hrun, hguarded.intact, hguarded.seen.trans (Nat.zero_add _)⟩

/-- Calls of each kind, some of them with a name that there is not. -/
theorem calls_return_idleBusy :
    let calls : List Call := [.event { tag := 7 }, .setSliced "idle", .setSliced "manned", .changed,
      .state "busy", .state "manned", .event { tag := 8 },
      .query "idle" { shared := some ⟨[(1, .int 5)]⟩ }, .changed]
    (load idleBusyConfig).result = .ok (.ok idleBusyPipeline) ∧
      ∃ p', (calls.foldlM call idleBusyPipeline).result = .ok p' ∧ p'.Intact ∧
        p'.eventsSeen = 2 := by
  intro calls
  have hload : (load idleBusyConfig).result = .ok (.ok idleBusyPipeline) := by
    with_unfolding_all rfl
  obtain ⟨p', hrun, hintact, hseen⟩ := calls_return hload calls
  exact ⟨hload, p', hrun, hintact, hseen⟩

end Pipeline

end EventConditions
