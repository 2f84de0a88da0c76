import EventConditions.Proofs.Graph.Representation
import EventConditions.Proofs.Graph.Signals

/-!
# What a pass reports

A pass over all conditions of a resolved graph leaves on the board what happened, and nothing of
what the board showed before: every condition's new state, whether it is another one than before the
pass, and whether a slice change is signalled (`Graph.evaluate_reports`). Every cell is written
once, behind those of the children, so no turn reads a cell that the pass did not write.

Unlike for a pruned pass, nothing is asked of the states that the pass starts from: it does not
matter whether combinations were in the states that their children give.
-/

namespace EventConditions

variable {n : Nat}

namespace Graph

/-- What a pass from `g` to `g'` reports of the condition at `i`, in terms of the cells after it. -/
structure Reports (g g' : Graph n) (cells : Table n Cell) (i : Fin n) : Prop where
  state : (cells.entry i).state = (g'.nodes.entry i).aggregate
  changed : (cells.entry i).changed = true ↔
    (g'.nodes.entry i).aggregate ≠ (g.nodes.entry i).aggregate
  combined : ∀ x c, (g.nodes.entry i).resolved? = some x → x.rule = .combination c →
    (g'.nodes.entry i).aggregate = c.evaluate fun child => (g'.nodes.entry child).aggregate
  sliceChanged : (cells.entry i).sliceChanged = true ↔ (g.nodes.entry i).sliced = true ∧
    ((cells.entry i).changed = true ∨
      (∃ s s', (g.nodes.entry i).simple? = some s ∧ (g'.nodes.entry i).simple? = some s' ∧
        s.slices.Moved s'.slices) ∨
      ∃ child ∈ (g.nodes.entry i).children, (cells.entry child).sliceChanged = true)

end Graph

namespace Sweep

variable {g : Graph n} {e : Event} {verdicts : Array Verdict} {s t : Sweep n}

/-- Where every condition had its turn, the cells report what happened. -/
theorem reports_of_turned (hturned : ∀ i, Turned e verdicts g.opening s i)
    (hresolved : ∀ i, (g.nodes.entry i).resolved? ≠ none) (i : Fin n) :
    g.Reports { g with nodes := s.nodes } s.cells i where
  state := (hturned i).shows
  changed := by
    rw [(hturned i).changed_eq, bne_iff_ne]
    rfl
  combined x c hx hrule := by
    refine ((hturned i).of_combination hx hrule).1.trans ?_
    simp only [(hturned _).shows]
  sliceChanged := by
    have hchanged : (s.cells.entry i).changed =
        ((s.nodes.entry i).aggregate != (g.nodes.entry i).aggregate) := (hturned i).changed_eq
    obtain ⟨x, hx⟩ := Option.ne_none_iff_exists'.1 (hresolved i)
    cases hrule : x.rule with
    | simple simple =>
      have hsimple := Node.simple?_eq_some_iff.2 ⟨x, hx, hrule⟩
      obtain ⟨request, -, hafter, -, hsignal⟩ := (hturned i).of_simple hsimple
      rw [hsignal, ← hchanged, Bool.and_eq_true, Bool.or_eq_true, simple.slicesMoved_serve_iff,
        Node.children_of_simple hsimple]
      simp [hsimple, hafter]
    | combination c =>
      obtain ⟨-, hsignal⟩ := (hturned i).of_combination hx hrule
      rw [hsignal, ← hchanged, Bool.and_eq_true, Bool.or_eq_true, List.any_eq_true,
        children_of_combination hx hrule, Node.simple?_of_combination hx hrule]
      simp

/-- Two runs from the same nodes in which every condition had its turn end alike. -/
theorem eq_of_turned (hg : g.Ordered) (hs : ∀ i, Turned e verdicts g.opening s i)
    (ht : ∀ i, Turned e verdicts g.opening t i) : s = t := by
  have hagree : ∀ i, Agree i s t := by
    intro i
    -- by the order: what is read of the children is the same
    induction i using hg.induction with
    | step i ih => exact (hs i).agree (ht i) fun c hc => (ih c hc).2
  obtain ⟨nodes, cells⟩ := s
  obtain ⟨nodes', cells'⟩ := t
  rw [Sweep.mk.injEq]
  exact ⟨Table.ext_entry fun i => (hagree i).1, Table.ext_entry fun i => (hagree i).2⟩

end Sweep

namespace Graph

variable {g : Graph n} {e : Event} {verdicts : Array Verdict}

/-- In an ordered graph where every condition can be asked, a pass over all conditions ends from any
board made for the graph, with every condition's turn. -/
theorem Ordered.evaluate_turned (hg : g.Ordered) (hall : g.isResolved = true)
    (hreads : ∀ i, ∀ m ∈ (g.nodes.entry i).reads, m < verdicts.size) {board : Board}
    (hsize : board.cells.size = n) :
    ∃ s : Sweep n, (g.evaluate e verdicts board).result =
        .ok ({ g with nodes := s.nodes }, ⟨s.cells.toArray⟩) ∧
      ∀ i, Sweep.Turned e verdicts g.opening s i := by
  have hready : ∀ i, Sweep.Ready e verdicts
      { nodes := g.nodes
        cells := Table.map (fun cell => { state := cell.state }) ⟨board.cells, hsize⟩ } i :=
    fun i => .of_reads (isResolved_iff.1 hall i) (hreads i)
  obtain ⟨s, hrun, hswept⟩ := Sweep.run_swept hg rfl
    fun i (_ : (fun _ => true) i = true) => hready i
  refine ⟨s, pass_eq_ok_iff.2 ⟨hall, hsize, s, hrun, rfl, rfl⟩, fun i => ?_⟩
  have hmem : i ∈ g.order := hg.mem_order i
  exact (hswept.turned i hmem rfl).of_nodes rfl

/-- All boards made for the graph lead to the same end. -/
theorem Ordered.evaluate_same (hg : g.Ordered) (hall : g.isResolved = true)
    (hreads : ∀ i, ∀ m ∈ (g.nodes.entry i).reads, m < verdicts.size) :
    ∃ s : Sweep n, (∀ board : Board, board.cells.size = n → (g.evaluate e verdicts board).result =
        .ok ({ g with nodes := s.nodes }, ⟨s.cells.toArray⟩)) ∧
      ∀ i, Sweep.Turned e verdicts g.opening s i := by
  obtain ⟨s, -, hturned⟩ := hg.evaluate_turned (e := e) hall hreads (newBoard_shows g).size
  refine ⟨s, fun board hsize => ?_, hturned⟩
  obtain ⟨t, hpass, hturned'⟩ := hg.evaluate_turned (e := e) hall hreads hsize
  obtain rfl := Sweep.eq_of_turned hg hturned hturned'
  exact hpass

/-- **What a pass reports.** In every resolved graph that can be reached, a pass over all conditions
with a verdict on every matcher in use ends the same from all boards made for the graph, and reports
what happened to every condition. -/
theorem evaluate_reports {conditions₀ : List Condition} {maxSlices : Nat}
    {g₀ g : Graph conditions₀.length} {latest : Option (List Condition × NameIndex)}
    (hmade : (ofConditions conditions₀ maxSlices).result = .ok g₀) (h : Reached g₀ g latest)
    (hall : g.isResolved = true) (e : Event) {verdicts : Array Verdict}
    (hcovers : g.Covers verdicts) :
    ∃ (g' : Graph conditions₀.length) (cells : Table conditions₀.length Cell),
      (∀ board : Board, board.cells.size = conditions₀.length →
        (g.evaluate e verdicts board).result = .ok (g', ⟨cells.toArray⟩)) ∧
      ∀ i, g.Reports g' cells i := by
  have hinvariant := h.invariant (.of_fresh hmade)
  have hreads : ∀ i, ∀ m ∈ (g.nodes.entry i).reads, m < verdicts.size :=
    fun i m hm => hcovers i m (hinvariant.mem_used hm)
  obtain ⟨s, hpass, hturned⟩ := (hinvariant.ordered hall).evaluate_same (e := e) hall hreads
  exact ⟨{ g with nodes := s.nodes }, s.cells, hpass,
    Sweep.reports_of_turned hturned (isResolved_iff.1 hall)⟩

/-- When `busy` starts, a board that shows what is not so and a blank one both report the start. -/
theorem evaluate_reports_busyIdleManned :
    let g := busyIdleMannedAsked true true true
    let stale : Board := ⟨#[⟨.holds, true, false⟩, ⟨.fails, false, true⟩, ⟨.holds, true, true⟩]⟩
    let cells : Table 3 Cell := #v[⟨.holds, true, true⟩, ⟨.fails, true, true⟩, ⟨.holds, true, true⟩]
    (ofConditions busyIdleManned 800).result = .ok (busyIdleMannedFresh false) ∧
      Reached (busyIdleMannedFresh false) g (some (busyIdleManned, ⟨[("begin", 0)]⟩)) ∧
      g.isResolved = true ∧ g.Covers #[.matched] ∧ ∃ g',
        (g.evaluate { tag := 7 } #[.matched] stale).result = .ok (g', ⟨cells.toArray⟩) ∧
        (g.evaluate { tag := 7 } #[.matched] (.blank 3)).result = .ok (g', ⟨cells.toArray⟩) ∧
        ∀ i, g.Reports g' cells i := by
  intro g stale cells
  have hmade : (ofConditions busyIdleManned 800).result = .ok (busyIdleMannedFresh false) := rfl
  have hresolved : ((busyIdleMannedFresh false).resolve busyIdleManned ⟨[("begin", 0)]⟩).result =
      .ok (busyIdleMannedAsked false false false, .ok ()) := by
    with_unfolding_all rfl
  have hreached : Reached (busyIdleMannedFresh false) g
      (some (busyIdleManned, ⟨[("begin", 0)]⟩)) :=
    .setSliced (.resolved .fresh hresolved) setSliced_manned
  have hall : g.isResolved = true := rfl
  have hcovers : g.Covers #[.matched] := by
    have hused : ∀ i, (g.nodes.entry i).used = ⟨[0]⟩ :=
      Fin.cases rfl (Fin.cases rfl (Fin.cases rfl fun i => i.elim0))
    intro i m hm
    rw [hused] at hm
    obtain rfl : m = 0 := List.mem_singleton.1 hm
    exact Nat.zero_lt_one
  obtain ⟨(g' : Graph 3), (shown : Table 3 Cell), hsame, hreports⟩ :=
    evaluate_reports hmade hreached hall { tag := 7 } hcovers
  have hblank : (g.evaluate { tag := 7 } #[.matched] (.blank 3)).result =
      .ok (g', ⟨shown.toArray⟩) := hsame (.blank 3) rfl
  have hshown : ((g.evaluate { tag := 7 } #[.matched] (.blank 3)).result.map Prod.snd) =
      .ok ⟨cells.toArray⟩ := by
    with_unfolding_all rfl
  rw [hblank] at hshown
  obtain rfl : shown = cells :=
    Vector.toArray_inj.1 (congrArg Board.cells (Except.ok.inj hshown))
  exact ⟨hmade, hreached, hall, hcovers, g', hsame stale rfl, hblank, hreports⟩

end Graph

end EventConditions
