import EventConditions.Proofs.Graph.Coherence

/-!
# Pruned passes

A pass may leave out every condition that no matched matcher can influence: such a condition would
come out of its turn as it went in (`Swept.still`). Hence all passes that take at least the relevant
conditions end alike, on the nodes and on the board, and a graph that is only ever given pruned
passes stays equal to one that is given full passes (`Tracker.pruned_eq_full`).
-/

namespace EventConditions

variable {n : Nat}

/-! ## Relevance -/

namespace Graph

/-- Some matched matcher can influence the condition. -/
def influenced (g : Graph n) (verdicts : Array Verdict) (i : Fin n) : Bool :=
  (g.nodes.entry i).used.toList.any (matchedIn verdicts)

/-- The marks of the influenced conditions. -/
def marks (g : Graph n) (verdicts : Array Verdict) : Array Bool :=
  ((List.finRange n).map (g.influenced verdicts)).toArray

@[simp] theorem size_marks (g : Graph n) (verdicts : Array Verdict) :
    (g.marks verdicts).size = n := by
  simp [marks]

/-- Where the verdicts cover the graph, the relevant conditions are the influenced ones. -/
theorem relevance_eq_ok {g : Graph n} {verdicts : Array Verdict} (h : g.Covers verdicts) :
    g.relevance verdicts = .ok (g.marks verdicts) := by
  have hasked : ∀ node ∈ g.nodes.toList,
      anyMatched verdicts node.used.toList = .ok (node.used.toList.any (matchedIn verdicts)) := by
    intro node hnode
    rw [Table.toList_eq_map_entry] at hnode
    obtain ⟨i, -, rfl⟩ := List.mem_map.1 hnode
    exact anyMatched_eq_ok (h i)
  unfold relevance
  rw [mapM_eq_pure hasked, Table.toList_eq_map_entry, List.map_map]
  rfl

/-- A condition that is not influenced reads no matched matcher. -/
theorem Coherent.matchedIn_of_reads {g : Graph n} (hg : g.Coherent) {verdicts : Array Verdict}
    {i : Fin n} (h : g.influenced verdicts i = false) {m : Nat}
    (hm : m ∈ (g.nodes.entry i).reads) : matchedIn verdicts m = false := by
  have hused := (hg.used i m).2 (.inl hm)
  simpa using List.any_eq_false.1 h m (IndexSet.mem_def.1 hused)

/-- What influences a condition influences those that depend on it. -/
theorem Coherent.influenced_of_child {g : Graph n} (hg : g.Coherent) {verdicts : Array Verdict}
    {i c : Fin n} (h : g.influenced verdicts i = false) (hc : c ∈ (g.nodes.entry i).children) :
    g.influenced verdicts c = false := by
  refine List.any_eq_false.2 fun m hm => ?_
  exact List.any_eq_false.1 h m (IndexSet.mem_def.1 ((hg.used i m).2 (.inr ⟨c, hc, hm⟩)))

theorem Coherent.influenced_of_reaches {g : Graph n} (hg : g.Coherent) {verdicts : Array Verdict}
    {i j : Fin n} (h : g.influenced verdicts i = false) (hreach : g.Reaches i j) :
    g.influenced verdicts j = false := by
  induction hreach with
  | refl => exact h
  | tail _ hstep ih => exact hg.influenced_of_child ih hstep

end Graph

/-! ## Turns that change nothing -/

namespace Sweep

variable {g : Graph n} {e : Event} {verdicts : Array Verdict}

/-- Settling a condition in the state it is in leaves the opening as it is. -/
theorem agree_settle_opening {i : Fin n} {x : Resolved n}
    (hx : (g.nodes.entry i).resolved? = some x) {rule : Rule n} (hrule : x.rule = rule) :
    Agree i (g.opening.settle i rule x.aggregate false) g.opening := by
  have hnode : g.opening.nodes.entry i = g.nodes.entry i := rfl
  have hback : ∀ node : Node n, node.resolved? = some x →
      { node with resolved? := some { rule := x.rule, used := x.used, aggregate := x.aggregate } }
        = node := by
    rintro ⟨_, _, _, _⟩ h
    cases h
    rfl
  have hcell : g.opening.cells.entry i = { state := x.aggregate } := by
    rw [Graph.opening, Table.entry_map, Node.aggregate_of_resolved hx]
  constructor
  · rw [node_settle_self, hnode, Node.used, hx, ← hrule]
    exact hback _ hx
  · rw [cell_settle_self, hnode, hcell, Node.aggregate_of_resolved hx]
    simp

/-- A condition that is not influenced stays as it was, whether it had its turn or not. -/
theorem Swept.still (hg : g.Coherent) (hcovers : g.Covers verdicts) {relevant : Fin n → Bool}
    {s : Sweep n} (hs : Swept e verdicts relevant g.opening g.order s) (i : Fin n)
    (hi : g.influenced verdicts i = false) : Agree i s g.opening := by
  -- by the order: the children of such a condition are not influenced either
  induction i using hg.ordered.induction with
  | step i ih =>
    cases hrel : relevant i with
    | false => exact hs.kept i (.inr hrel)
    | true =>
      cases hs.turned i (hg.ordered.mem_order i) hrel with
      | @simple x simple request hx hrule hrequest hturn =>
        have hsimple : (g.nodes.entry i).simple? = some simple :=
          Node.simple?_eq_some_iff.2 ⟨x, hx, hrule⟩
        have hreads : ∀ m ∈ simple.matchers, m ∈ (g.nodes.entry i).reads := fun m hm =>
          Node.mem_reads_iff.2 ⟨simple, hsimple, hm⟩
        have hnothing : request = .nothing := by
          rw [Simple.request_eq_ok fun m hm =>
            hcovers i m ((hg.used i m).2 (.inl (hreads m hm)))] at hrequest
          cases hrequest
          exact Simple.asked_eq_nothing fun m hm => hg.matchedIn_of_reads hi (hreads m hm)
        rw [hnothing] at hturn
        have hsame := agree_settle_opening hx hrule
        exact ⟨hturn.1.trans hsame.1, hturn.2.trans hsame.2⟩
      | @combination x c hx hrule hturn =>
        have hchildren : ∀ child ∈ c.children,
            s.cells.entry child = g.opening.cells.entry child := by
          intro child hchild
          rw [← children_of_combination hx hrule] at hchild
          exact (ih child hchild (hg.influenced_of_child hi hchild)).2
        obtain ⟨hstate, hmoved⟩ := evaluate_congr hchildren
        have hquiet : (c.children.any fun child => (g.opening.cells.entry child).sliceChanged)
            = false := by
          simp [Graph.opening]
        rw [hstate, hmoved, hquiet] at hturn
        have hsame := agree_settle_opening hx hrule
        rw [hg.combined i x c hx hrule] at hsame
        simp only [Graph.opening, Table.entry_map] at hturn hsame ⊢
        exact ⟨hturn.1.trans hsame.1, hturn.2.trans hsame.2⟩

/-- Where every condition had its turn, one that is not influenced stayed as it was. -/
theorem still_of_turned (hg : g.Coherent) (hcovers : g.Covers verdicts) {s : Sweep n}
    (hturned : ∀ i, Turned e verdicts g.opening s i) {i : Fin n}
    (hi : g.influenced verdicts i = false) : Agree i s g.opening := by
  have hswept : Swept e verdicts (fun _ => true) g.opening g.order s := by
    refine ⟨fun j hj => ?_, fun j _ _ => hturned j⟩
    rcases hj with hj | hj
    · exact absurd (hg.ordered.mem_order j) hj
    · exact nomatch hj
  exact hswept.still hg hcovers i hi

/-- Runs that give at least the influenced conditions their turn end alike. -/
theorem Swept.agree (hg : g.Coherent) (hcovers : g.Covers verdicts)
    {relevant₁ relevant₂ : Fin n → Bool} {s₁ s₂ : Sweep n}
    (h₁ : Swept e verdicts relevant₁ g.opening g.order s₁)
    (h₂ : Swept e verdicts relevant₂ g.opening g.order s₂)
    (hrel₁ : ∀ i, g.influenced verdicts i = true → relevant₁ i = true)
    (hrel₂ : ∀ i, g.influenced verdicts i = true → relevant₂ i = true) (i : Fin n) :
    Agree i s₁ s₂ := by
  -- by the order: a combination reads the same cells of its children in both runs
  induction i using hg.ordered.induction with
  | step i ih =>
    cases hi : g.influenced verdicts i with
    | false =>
      have still₁ := h₁.still hg hcovers i hi
      have still₂ := h₂.still hg hcovers i hi
      exact ⟨still₁.1.trans still₂.1.symm, still₁.2.trans still₂.2.symm⟩
    | true =>
      have hmem : i ∈ g.order := hg.ordered.mem_order i
      exact (h₁.turned i hmem (hrel₁ i hi)).agree (h₂.turned i hmem (hrel₂ i hi))
        fun child hchild => (ih child hchild).2

end Sweep

namespace Graph

/-- The mask is made for the graph and marks every influenced condition. -/
def Marks (g : Graph n) (verdicts : Array Verdict) (mask : Array Bool) : Prop :=
  ∃ h : mask.size = n, ∀ i, g.influenced verdicts i = true → Table.entry ⟨mask, h⟩ i = true

theorem marks_marks (g : Graph n) (verdicts : Array Verdict) :
    g.Marks verdicts (g.marks verdicts) :=
  ⟨g.size_marks verdicts, fun i hi => by simp [Table.entry, marks, hi]⟩

/-- All passes over a coherent graph that take at least the influenced conditions, with a board that
shows it, do the same. They leave a coherent graph that the board shows. -/
theorem Coherent.pass {g : Graph n} (hg : g.Coherent) (e : Event) {verdicts : Array Verdict}
    (hcovers : g.Covers verdicts) {board : Board} (hboard : board.Shows g) :
    ∃ (g' : Graph n) (board' : Board) (s : Sweep n),
      (g.evaluate e verdicts board).result = .ok (g', board') ∧
      (∀ mask, g.Marks verdicts mask →
        (g.evaluateRelevant e verdicts board mask).result = .ok (g', board')) ∧
      g'.Coherent ∧ board'.Shows g' ∧ g'.nodes = s.nodes ∧ board' = ⟨s.cells.toArray⟩ ∧
      Sweep.Swept e verdicts (fun _ => true) g.opening g.order s := by
  have hready : ∀ i, Sweep.Ready e verdicts g.opening i := hg.ready hcovers
  obtain ⟨s, hrun, hs⟩ := Sweep.run_swept hg.ordered rfl
    fun i (_ : (fun _ => true) i = true) => hready i
  have hfull := pass_eq_ok_of_shows hg.isResolved hboard hrun
  obtain ⟨hcoherent, hshows⟩ := hg.of_swept hfull rfl rfl hs
  refine ⟨_, _, s, hfull, ?_, hcoherent, hshows, rfl, rfl, hs⟩
  rintro mask ⟨hsize, hmask⟩
  -- a run over the marked conditions only, which ends as the one over all of them
  obtain ⟨t, hrunt, ht⟩ := Sweep.run_swept hg.ordered rfl
    fun i (_ : Table.entry ⟨mask, hsize⟩ i = true) => hready i
  have hsame : ∀ i, Sweep.Agree i t s := ht.agree hg hcovers hs hmask fun _ _ => rfl
  rw [evaluateRelevant_eq_pass hsize, pass_eq_ok_of_shows hg.isResolved hboard hrunt,
    Table.ext_entry fun i => (hsame i).1, Table.ext_entry fun i => (hsame i).2]

end Graph

/-! ## A graph that is pruned beside one that is not -/

/-- A graph with a board made for it. -/
structure Tracker (n : Nat) where
  graph : Graph n
  board : Board

namespace Tracker

/-- What may happen to a tracker. -/
inductive Step where
  /-- A request for slice reports of the condition at an index, or for none. -/
  | setSliced (index : Nat) (on : Bool)
  /-- An event and the verdicts on it. A pruned pass takes the conditions marked in `extra` besides
  the relevant ones. -/
  | event (e : Event) (verdicts : Array Verdict) (extra : Array Bool)

/-- The marks, and those of `extra` besides. -/
def widen (marks extra : Array Bool) : Array Bool :=
  marks.mapIdx fun i mark => mark || extra.getD i false

/-- A mask that covers the marks is what they widen to by it, so `widen` gives every such mask. -/
theorem widen_eq_of_covers {marks mask : Array Bool} (hsize : mask.size = marks.size)
    (h : ∀ i (hi : i < marks.size), marks[i] = true → mask[i] = true) :
    widen marks mask = mask := by
  refine Array.ext (by simp [widen, hsize]) fun i hi hmask => ?_
  have hi' : i < marks.size := hsize ▸ hmask
  have hcovered := h i hi'
  simp only [widen, Array.getElem_mapIdx, Array.getD_eq_getD_getElem?,
    Array.getElem?_eq_getElem hmask, Option.getD_some]
  cases hm : marks[i] with
  | false => rfl
  | true => rw [hcovered hm, Bool.or_self]

/-- Asks for slice reports of the condition at an index, or for none. -/
def setSliced (t : Tracker n) (index : Nat) (on : Bool) : Logged Fault (Tracker n) := do
  let graph ← Logged.ofExcept (t.graph.setSliced index on)
  return { t with graph }

/-- One step, with a pass over all conditions for an event. -/
def full (t : Tracker n) : Step → Logged Fault (Tracker n)
  | .setSliced index on => t.setSliced index on
  | .event e verdicts _ => do
    let (graph, board) ← t.graph.evaluate e verdicts t.board
    return { graph, board }

/-- One step, with a pass over the relevant conditions and the extra ones for an event. -/
def pruned (t : Tracker n) : Step → Logged Fault (Tracker n)
  | .setSliced index on => t.setSliced index on
  | .event e verdicts extra => do
    let marks ← Logged.ofExcept (t.graph.relevance verdicts)
    let (graph, board) ← t.graph.evaluateRelevant e verdicts t.board (widen marks extra)
    return { graph, board }

/-- What holds of a tracker after any steps: it is coherent, its board shows it, and it has the
outline of the graph it started from. -/
structure Sound (g₀ : Graph n) (t : Tracker n) : Prop where
  coherent : t.graph.Coherent
  shows : t.board.Shows t.graph
  outline : t.graph.outline = g₀.outline

/-- The verdicts of an event step cover the graph. -/
def Step.Covers (g : Graph n) : Step → Prop
  | .setSliced _ _ => True
  | .event _ verdicts _ => g.Covers verdicts

/-- The index of a request is that of a condition. -/
def Step.Inside (n : Nat) : Step → Prop
  | .setSliced index _ => index < n
  | .event _ _ _ => True

variable {g₀ : Graph n} {t : Tracker n}

/-- A request at an index inside the graph ends well and leaves a sound tracker; at any other index
it is a fault. -/
theorem Sound.setSliced (h : t.Sound g₀) (index : Nat) (on : Bool) :
    (index < n → ∃ t', (t.setSliced index on).result = .ok t') ∧
      ∀ t', (t.setSliced index on).result = .ok t' → t'.Sound g₀ := by
  by_cases hindex : index < n
  · have hset : (t.setSliced index on).result =
        .ok { t with graph := if on then t.graph.slice ⟨index, hindex⟩ else t.graph } := by
      rw [Tracker.setSliced, Graph.setSliced, within, dif_pos hindex]
      rfl
    refine ⟨fun _ => ⟨_, hset⟩, fun t' ht' => ?_⟩
    cases hset.symm.trans ht'
    cases on with
    | false => exact h
    | true => exact ⟨h.coherent.slice _, h.shows.slice _, (Graph.outline_slice _ _).trans h.outline⟩
  · refine ⟨fun hin => absurd hin hindex, fun t' ht' => ?_⟩
    rw [Tracker.setSliced, Graph.setSliced, within, dif_neg hindex] at ht'
    cases ht'

/-- An event with covering verdicts leads to a sound tracker, by a pruned pass the same as by a full
one. -/
theorem Sound.event (h : t.Sound g₀) (e : Event) {verdicts : Array Verdict}
    (hcovers : g₀.Covers verdicts) (extra : Array Bool) :
    ∃ t', (t.full (.event e verdicts extra)).result = .ok t' ∧
      (t.pruned (.event e verdicts extra)).result = .ok t' ∧ t'.Sound g₀ := by
  have hcovers' : t.graph.Covers verdicts := hcovers.of_outline h.outline
  obtain ⟨g', board', s, hfull, hpruned, hcoherent, hshows, -, -, -⟩ :=
    h.coherent.pass e hcovers' h.shows
  have hwide : t.graph.Marks verdicts (widen (t.graph.marks verdicts) extra) := by
    refine ⟨by simp [widen], fun i hi => ?_⟩
    simp [Table.entry, widen, Graph.marks, hi]
  refine ⟨⟨g', board'⟩, ?_, ?_, hcoherent, hshows, (Graph.outline_pass hfull).trans h.outline⟩
  · rw [full, Logged.result_bind_of_ok hfull]
    rfl
  · rw [pruned, Logged.result_bind_of_ok (Graph.relevance_eq_ok hcovers'),
      Logged.result_bind_of_ok (hpruned _ hwide)]
    rfl

/-- One step keeps a tracker sound, and does the same with a pruned pass as with a full one. -/
theorem Sound.step (h : t.Sound g₀) {step : Step} (hcovers : step.Covers g₀) :
    (t.pruned step).result = (t.full step).result ∧
      (step.Inside n → ∃ t', (t.full step).result = .ok t') ∧
      ∀ t', (t.full step).result = .ok t' → t'.Sound g₀ := by
  cases step with
  | setSliced index on => exact ⟨rfl, h.setSliced index on⟩
  | event e verdicts extra =>
    obtain ⟨t', hfull, hpruned, hsound⟩ := h.event e hcovers extra
    refine ⟨hpruned.trans hfull.symm, fun _ => ⟨t', hfull⟩, fun t'' ht'' => ?_⟩
    cases hfull.symm.trans ht''
    exact hsound

/-- From a sound tracker on, a run with pruned passes is a run with full passes. -/
theorem Sound.run {steps : List Step} (h : t.Sound g₀) (hcovers : ∀ step ∈ steps, step.Covers g₀) :
    (steps.foldlM pruned t).result = (steps.foldlM full t).result ∧
      ((∀ step ∈ steps, step.Inside n) → ∃ t', (steps.foldlM full t).result = .ok t') := by
  -- by the steps; where one is a fault, both runs end with it
  induction steps generalizing t with
  | nil => exact ⟨rfl, fun _ => ⟨t, rfl⟩⟩
  | cons step rest ih =>
    obtain ⟨hsame, hinside, hsound⟩ := h.step (hcovers step List.mem_cons_self)
    have hrest : ∀ step ∈ rest, step.Covers g₀ := fun s hs => hcovers s (List.mem_cons_of_mem _ hs)
    rw [List.foldlM_cons, List.foldlM_cons]
    cases hfull : (t.full step).result with
    | error fault =>
      refine ⟨by rw [Logged.result_bind, Logged.result_bind, hsame, hfull]; rfl, fun hin => ?_⟩
      obtain ⟨t', ht'⟩ := hinside (hin step List.mem_cons_self)
      cases hfull.symm.trans ht'
    | ok t' =>
      rw [Logged.result_bind_of_ok hfull, Logged.result_bind_of_ok (hsame.trans hfull)]
      obtain ⟨hrun, hends⟩ := ih (hsound t' hfull) hrest
      exact ⟨hrun, fun hin => hends fun s hs => hin s (List.mem_cons_of_mem _ hs)⟩

/-- **Pruned passes equal full passes.** Of a graph just built and its new board take two copies,
and over any steps give one of them full passes and the other passes over its relevant conditions
and any others: graphs and boards stay equal. No step fails but a request at an index outside the
graph. -/
theorem pruned_eq_full {conditions : List Condition} {matchers : NameIndex} {maxSlices : Nat}
    {g : Graph conditions.length}
    (hg : (Graph.build conditions matchers maxSlices).result = .ok (.ok g)) {steps : List Step}
    (hcovers : ∀ step ∈ steps, step.Covers g) :
    (steps.foldlM pruned ⟨g, g.newBoard⟩).result = (steps.foldlM full ⟨g, g.newBoard⟩).result ∧
      ((∀ step ∈ steps, step.Inside conditions.length) →
        ∃ t, (steps.foldlM full ⟨g, g.newBoard⟩).result = .ok t) := by
  have hsound : Sound g ⟨g, g.newBoard⟩ := ⟨Graph.coherent_of_build hg, g.newBoard_shows, rfl⟩
  exact hsound.run hcovers

theorem pruned_eq_full_idleBusy :
    let g := Graph.idleBusyIn .unknown .unknown {}
    let steps : List Step := [.event { tag := 7 } #[.matched] #[], .setSliced 0 true,
      .event { tag := 8 } #[.notMatched] #[true, false]]
    (Graph.build Graph.idleBusy ⟨[("begin", 0)]⟩ 800).result = .ok (.ok g) ∧
      (∀ step ∈ steps, step.Covers g ∧ step.Inside 2) ∧
      (steps.foldlM pruned ⟨g, g.newBoard⟩).result = (steps.foldlM full ⟨g, g.newBoard⟩).result ∧
      ∃ t, (steps.foldlM full ⟨g, g.newBoard⟩).result = .ok t := by
  intro g steps
  have hbuild : (Graph.build Graph.idleBusy ⟨[("begin", 0)]⟩ 800).result = .ok (.ok g) := by
    with_unfolding_all rfl
  have hcovers : ∀ verdict, g.Covers #[verdict] := by
    intro verdict i m hm
    have husedall : ∀ i, (g.nodes.entry i).used.toList = [0] := by decide
    rw [IndexSet.mem_def, husedall, List.mem_singleton] at hm
    simp [hm]
  have hsteps : ∀ step ∈ steps, step.Covers g ∧ step.Inside 2 := by
    intro step hstep
    simp only [steps, List.mem_cons, List.not_mem_nil, or_false] at hstep
    rcases hstep with rfl | rfl | rfl
    · exact ⟨hcovers _, trivial⟩
    · exact ⟨trivial, Nat.two_pos⟩
    · exact ⟨hcovers _, trivial⟩
  obtain ⟨hsame, hends⟩ := pruned_eq_full hbuild fun step hstep => (hsteps step hstep).1
  exact ⟨hbuild, hsteps, hsame, hends fun step hstep => (hsteps step hstep).2⟩

end Tracker

end EventConditions
