import EventConditions.Proofs.Graph.Report

/-!
# What a pruned pass takes from the board

A pass over all conditions does not depend on what the board showed before. A pruned pass does: a
combination that it takes may read the cell of a child that it leaves out, and finds there what the
board showed. These children are the border between what the pass takes and what it leaves out.

Nothing else is read. Simple conditions and those that are left out come out the same from any
board, and a combination does from boards that show the same at the border below it. The graph comes
out as from a pass over all conditions if the board shows the graph's own states there
(`Graph.evaluatePruned_eq_of_border`). A blank board shows none of them, and then a combination may
end in another state (`Graph.evaluatePruned_blank_differs`).
-/

namespace EventConditions

variable {n : Nat}

/-- The state that a board shows of the condition at an index, if it has a cell for it. -/
def Board.shown? (b : Board) (index : Nat) : Option State :=
  b.cells[index]?.map Cell.state

theorem Board.shown?_eq_some (b : Board) (h : b.cells.size = n) (i : Fin n) :
    b.shown? i.val = some (Table.entry ⟨b.cells, h⟩ i).state := by
  rw [shown?, Array.getElem?_eq_getElem (h.symm ▸ i.isLt)]
  rfl

namespace Graph

/-- A pass over the conditions that some matched matcher can influence. -/
def evaluatePruned (g : Graph n) (e : Event) (verdicts : Array Verdict) (board : Board) :
    Logged Fault (Graph n × Board) := do
  let mask ← Logged.ofExcept (g.relevance verdicts)
  g.evaluateRelevant e verdicts board mask

/-- The graphs that `g₀` becomes by passes over all conditions, whatever boards they are given. -/
inductive Passed (g₀ : Graph n) : Graph n → Prop
  | start : Passed g₀ g₀
  | evaluate {g g' event verdicts board board'} : Passed g₀ g →
      (g.evaluate event verdicts board).result = .ok (g', board') → Passed g₀ g'

/-- Of the conditions that the one at `i` depends on, two boards show the same of each that no
matched matcher can influence, but that is read by one that some can. -/
def SameBelow (g : Graph n) (verdicts : Array Verdict) (b₁ b₂ : Board) (i : Fin n) : Prop :=
  ∀ j, g.Reaches i j → g.influenced verdicts j = true → ∀ c ∈ (g.nodes.entry j).children,
    g.influenced verdicts c = false → b₁.shown? c.val = b₂.shown? c.val

/-- The nodes and cells that a pass starts from. -/
def openingOn (g : Graph n) (b : Board) (h : b.cells.size = n) : Sweep n where
  nodes := g.nodes
  cells := Table.map (fun cell => { state := cell.state }) ⟨b.cells, h⟩

end Graph

/-! ## Runs from different cells -/

namespace Sweep

variable {e : Event} {verdicts : Array Verdict} {relevant : Fin n → Bool} {s₀ t₀ s t : Sweep n}

/-- Of two runs from the same nodes, a condition comes out the same if the cells that its turn reads
do. -/
theorem Swept.agree_of_children {order : List (Fin n)} (hs : Swept e verdicts relevant s₀ order s)
    (ht : Swept e verdicts relevant t₀ order t) (hnodes : s₀.nodes = t₀.nodes) {i : Fin n}
    (hi : i ∈ order) (hc : relevant i = true → ∀ c ∈ (s₀.nodes.entry i).children,
      s.cells.entry c = t.cells.entry c) :
    s.nodes.entry i = t.nodes.entry i ∧
      (relevant i = true → s.cells.entry i = t.cells.entry i) := by
  cases hrel : relevant i with
  | false =>
    refine ⟨?_, fun htrue => nomatch htrue⟩
    rw [(hs.kept i (.inr hrel)).1, (ht.kept i (.inr hrel)).1, hnodes]
  | true =>
    have ht' : Turned e verdicts s₀ t i := (ht.turned i hi hrel).of_nodes (by rw [hnodes])
    have hagree := (hs.turned i hi hrel).agree ht' (hc hrel)
    exact ⟨hagree.1, fun _ => hagree.2⟩

/-- A condition comes out of runs from the same nodes the same if, of the children of conditions
that have a turn, those that have none start with the same cells. Only what it depends on counts. -/
theorem Swept.agree_of_border {g : Graph n} (hg : g.Ordered)
    (hs : Swept e verdicts relevant s₀ g.order s) (ht : Swept e verdicts relevant t₀ g.order t)
    (hs₀ : s₀.nodes = g.nodes) (ht₀ : t₀.nodes = g.nodes) (i : Fin n)
    (hborder : ∀ j, g.Reaches i j → relevant j = true → ∀ c ∈ (g.nodes.entry j).children,
      relevant c = false → s₀.cells.entry c = t₀.cells.entry c) :
    s.nodes.entry i = t.nodes.entry i ∧
      (relevant i = true → s.cells.entry i = t.cells.entry i) := by
  -- by the order: a child's cell was written by its own turn, or never
  induction i using hg.induction with
  | step i ih =>
    refine hs.agree_of_children ht (hs₀.trans ht₀.symm) (hg.mem_order i) fun hrel c hchild => ?_
    rw [hs₀] at hchild
    cases hc : relevant c with
    | true => exact (ih c hchild fun j hreach => hborder j (.head hchild hreach)).2 hc
    | false =>
      rw [(hs.kept c (.inr hc)).2, (ht.kept c (.inr hc)).2]
      exact hborder i .refl hrel c hchild hc

end Sweep

/-! ## Pruned passes -/

namespace Graph

variable {g g' : Graph n} {e : Event} {verdicts : Array Verdict} {board board' : Board}

/-- A pass over all conditions keeps a graph coherent, whatever the board showed. -/
theorem Coherent.evaluate (hg : g.Coherent)
    (hpass : (g.evaluate e verdicts board).result = .ok (g', board')) : g'.Coherent := by
  obtain ⟨-, _, s, hrun, hgraph, -⟩ := pass_eq_ok_iff.1 hpass
  have hswept := Sweep.swept_of_run hg.ordered rfl hrun
  exact hg.of_turned (outline_pass hpass) (congrArg Graph.nodes hgraph)
    fun i => (hswept.turned i (hg.ordered.mem_order i) rfl).of_nodes rfl

theorem Coherent.of_passed {g₀ : Graph n} (hg₀ : g₀.Coherent) (h : Passed g₀ g) : g.Coherent := by
  induction h with
  | start => exact hg₀
  | evaluate _ hpass ih => exact ih.evaluate hpass

/-- From any board made for the graph, a pruned pass gives the influenced conditions their turn. -/
theorem Coherent.evaluatePruned_swept (hg : g.Coherent) (hcovers : g.Covers verdicts)
    (hsize : board.cells.size = n) :
    ∃ s : Sweep n, (g.evaluatePruned e verdicts board).result =
        .ok ({ g with nodes := s.nodes }, ⟨s.cells.toArray⟩) ∧
      Sweep.Swept e verdicts (g.influenced verdicts) (g.openingOn board hsize) g.order s := by
  have hready : ∀ i, Sweep.Ready e verdicts (g.openingOn board hsize) i := hg.ready hcovers
  have hmask : Table.entry ⟨g.marks verdicts, g.size_marks verdicts⟩ = g.influenced verdicts := by
    funext i
    simp [Table.entry, marks]
  obtain ⟨s, hrun, hswept⟩ := Sweep.run_swept hg.ordered rfl
    fun i (_ : g.influenced verdicts i = true) => hready i
  refine ⟨s, ?_, hswept⟩
  rw [evaluatePruned, Logged.result_bind_of_ok (relevance_eq_ok hcovers),
    evaluateRelevant_eq_pass (g.size_marks verdicts), hmask]
  exact pass_eq_ok_iff.2 ⟨hg.isResolved, hsize, s, hrun, rfl, rfl⟩

/-- From boards that show the same below a condition, it comes out the same. -/
theorem Coherent.node_eq_of_below (hg : g.Coherent) {b₁ b₂ : Board} {h₁ : b₁.cells.size = n}
    {h₂ : b₂.cells.size = n} {s₁ s₂ : Sweep n}
    (hs₁ : Sweep.Swept e verdicts (g.influenced verdicts) (g.openingOn b₁ h₁) g.order s₁)
    (hs₂ : Sweep.Swept e verdicts (g.influenced verdicts) (g.openingOn b₂ h₂) g.order s₂) {i : Fin n}
    (hsame : g.SameBelow verdicts b₁ b₂ i) : s₁.nodes.entry i = s₂.nodes.entry i := by
  refine (hs₁.agree_of_border hg.ordered hs₂ rfl rfl i fun j hreach hj c hchild hc => ?_).1
  have hshown := hsame j hreach hj c hchild hc
  rw [b₁.shown?_eq_some h₁, b₂.shown?_eq_some h₂] at hshown
  simp only [openingOn, Table.entry_map, Option.some.inj hshown]

/-- There is no border below a simple condition, nor below one that no matched matcher can
influence. -/
theorem Coherent.sameBelow (hg : g.Coherent) {i : Fin n}
    (hi : (∃ s, (g.nodes.entry i).simple? = some s) ∨ g.influenced verdicts i = false) (b₁ b₂ : Board) :
    g.SameBelow verdicts b₁ b₂ i := by
  intro j hreach hj c hchild _
  rcases hi with ⟨s, hs⟩ | hout
  · obtain rfl := (reaches_iff_of_simple hs).1 hreach
    rw [Node.children_of_simple hs] at hchild
    exact absurd hchild List.not_mem_nil
  · exact nomatch hj.symm.trans (hg.influenced_of_reaches hout hreach)

/-- A pruned pass from a board that shows the graph leads to where passes over all conditions
lead. -/
theorem Coherent.evaluate_eq_evaluatePruned (hg : g.Coherent) (hcovers : g.Covers verdicts)
    (hsize : board.cells.size = n) : ∃ (g' : Graph n) (shown : Board),
      (g.evaluate e verdicts board).result = .ok (g', shown) ∧
      (g.evaluatePruned e verdicts g.newBoard).result = .ok (g', shown) := by
  have hreads : ∀ i, ∀ m ∈ (g.nodes.entry i).reads, m < verdicts.size :=
    fun i m hm => hcovers i m ((hg.used i m).2 (.inl hm))
  obtain ⟨s, hsame, -⟩ := hg.ordered.evaluate_same (e := e) hg.isResolved hreads
  obtain ⟨g', shown, _, hfull, hpruned, -⟩ := hg.pass e hcovers g.newBoard_shows
  rw [hsame _ g.newBoard_shows.size] at hfull
  refine ⟨g', shown, (hsame board hsize).trans hfull, ?_⟩
  rw [evaluatePruned, Logged.result_bind_of_ok (relevance_eq_ok hcovers)]
  exact hpruned _ (g.marks_marks verdicts)

/-- **What a pruned pass takes from the board.** A graph that was built and then given any passes
over all conditions can be given a pruned pass from every board made for it. Whatever two boards
show, the simple conditions and those that no matched matcher can influence come out the same. So
does every condition below which the boards show the same at the border, and the graph as a whole if
that is true of all. If a board shows there what the graph is in, the pass leads to where a pass
over all conditions would. -/
theorem evaluatePruned_eq_of_border {conditions : List Condition} {matchers : NameIndex}
    {maxSlices : Nat} {g₀ g : Graph conditions.length}
    (hbuild : (build conditions matchers maxSlices).result = .ok (.ok g₀)) (hpassed : Passed g₀ g)
    (e : Event) {verdicts : Array Verdict} (hcovers : g.Covers verdicts) {b₁ b₂ : Board}
    (h₁ : b₁.cells.size = conditions.length) (h₂ : b₂.cells.size = conditions.length) :
    ∃ (g₁ g₂ : Graph conditions.length) (b₁' b₂' : Board),
      (g.evaluatePruned e verdicts b₁).result = .ok (g₁, b₁') ∧
      (g.evaluatePruned e verdicts b₂).result = .ok (g₂, b₂') ∧
      (∀ i, (∃ s, (g.nodes.entry i).simple? = some s) ∨ g.influenced verdicts i = false →
        g₁.nodes.entry i = g₂.nodes.entry i) ∧
      (∀ i, g.SameBelow verdicts b₁ b₂ i → g₁.nodes.entry i = g₂.nodes.entry i) ∧
      ((∀ i, g.SameBelow verdicts b₁ b₂ i) → g₁ = g₂) ∧
      ((∀ i, g.SameBelow verdicts b₁ g.newBoard i) →
        ∃ shown, (g.evaluate e verdicts b₁).result = .ok (g₁, shown)) := by
  have hg : g.Coherent := (coherent_of_build hbuild).of_passed hpassed
  obtain ⟨s₁, hpruned₁, hs₁⟩ := hg.evaluatePruned_swept (e := e) hcovers h₁
  obtain ⟨s₂, hpruned₂, hs₂⟩ := hg.evaluatePruned_swept (e := e) hcovers h₂
  refine ⟨_, _, _, _, hpruned₁, hpruned₂, fun i hi => ?_, fun i hsame => ?_, fun hsame => ?_,
    fun hsame => ?_⟩
  · exact hg.node_eq_of_below hs₁ hs₂ (hg.sameBelow hi b₁ b₂)
  · exact hg.node_eq_of_below hs₁ hs₂ hsame
  · rw [Table.ext_entry fun i => hg.node_eq_of_below hs₁ hs₂ (hsame i)]
  · obtain ⟨t, hpruned, ht⟩ := hg.evaluatePruned_swept (e := e) hcovers g.newBoard_shows.size
    obtain ⟨g', shown, hfull, hpruned'⟩ := hg.evaluate_eq_evaluatePruned (e := e) hcovers h₁
    rw [hpruned] at hpruned'
    obtain ⟨rfl, rfl⟩ := Prod.mk.inj (Except.ok.inj hpruned')
    rw [Table.ext_entry fun i => hg.node_eq_of_below hs₁ ht (hsame i)]
    exact ⟨_, hfull⟩

/-- Two simple conditions, the second of which is known to fail at first, and their disjunction. -/
def busyOpen : List Condition :=
  [⟨"busy", .simple { start := some "begin" }⟩,
   ⟨"open", .simple { start := some "enter", initial := .fails }⟩,
   ⟨"either", .combination .or ["busy", "open"]⟩]

/-- Their graph once resolved, in the given states, where `busy` holds the slices `begun` and `open`
the slices `entered`. -/
def busyOpenIn (busy opened either : State) (begun entered : Slices) : Graph 3 where
  nodes := #v[
    { name := "busy"
      index := 0
      resolved? := some {
        rule := .simple { start := some 0, slices := begun }
        used := ⟨[0]⟩
        aggregate := busy } },
    { name := "open"
      index := 1
      resolved? := some {
        rule := .simple { start := some 1, initial := .fails, slices := entered }
        used := ⟨[1]⟩
        aggregate := opened } },
    { name := "either"
      index := 2
      resolved? := some {
        rule := .combination { operator := .or, children := (List.finRange 3).take 2 }
        used := ⟨[0, 1]⟩
        aggregate := either } }]
  order := List.finRange 3

theorem busyOpenIn_covers {busy opened either : State} {begun entered : Slices}
    (first second : Verdict) :
    (busyOpenIn busy opened either begun entered).Covers #[first, second] := by
  have hused : ∀ i,
      ((busyOpenIn busy opened either begun entered).nodes.entry i).used.toList ⊆ [0, 1] :=
    Fin.cases (show [0] ⊆ [0, 1] by decide) (Fin.cases (show [1] ⊆ [0, 1] by decide)
      (Fin.cases (show [0, 1] ⊆ [0, 1] by decide) fun i => i.elim0))
  intro i m hm
  rcases List.mem_pair.1 (hused i (IndexSet.mem_def.1 hm)) with rfl | rfl
  · exact Nat.two_pos
  · exact Nat.one_lt_two

theorem busyOpen_build : (build busyOpen ⟨[("begin", 0), ("enter", 1)]⟩ 800).result =
    .ok (.ok (busyOpenIn .unknown .fails .unknown {} {})) := by
  with_unfolding_all rfl

/-- Once `open` was entered, a board that is right about `open` and wrong about the others will
do. -/
theorem evaluatePruned_eq_of_border_busyOpen :
    let g₀ := busyOpenIn .unknown .fails .unknown {} {}
    let g := busyOpenIn .unknown .holds .unknown {} ⟨[(.whole, 1)]⟩
    let verdicts : Array Verdict := #[.matched, .notMatched]
    let stale : Board := ⟨#[⟨.fails, true, false⟩, ⟨.holds, false, true⟩, ⟨.fails, false, false⟩]⟩
    (build busyOpen ⟨[("begin", 0), ("enter", 1)]⟩ 800).result = .ok (.ok g₀) ∧ Passed g₀ g ∧
      g.Covers verdicts ∧ stale.cells.size = 3 ∧ g.newBoard.cells.size = 3 ∧
      (∀ i, g.SameBelow verdicts stale g.newBoard i) ∧
      ∃ g' shown shown', (g.evaluatePruned { tag := 7 } verdicts stale).result = .ok (g', shown) ∧
        (g.evaluatePruned { tag := 7 } verdicts g.newBoard).result = .ok (g', shown') := by
  intro g₀ g verdicts stale
  have henter : (g₀.evaluate { tag := 6 } #[.notMatched, .matched] (.blank 3)).result =
      .ok (g, ⟨#[{}, ⟨.holds, true, false⟩, {}]⟩) := by
    with_unfolding_all rfl
  have hpassed : Passed g₀ g := .evaluate .start henter
  have hcovers : g.Covers verdicts := busyOpenIn_covers .matched .notMatched
  have hsame : ∀ i, g.SameBelow verdicts stale g.newBoard i := by
    have hborder : ∀ j, ∀ c ∈ (g.nodes.entry j).children, g.influenced verdicts c = false →
        stale.shown? c.val = g.newBoard.shown? c.val := by
      decide
    exact fun _ j _ _ => hborder j
  have hstale : stale.cells.size = 3 := rfl
  have hnew : g.newBoard.cells.size = 3 := rfl
  obtain ⟨g₁, g₂, shown, shown', hpruned, hpruned', -, -, heq, -⟩ :=
    evaluatePruned_eq_of_border busyOpen_build hpassed { tag := 7 } hcovers hstale hnew
  obtain rfl := heq hsame
  exact ⟨busyOpen_build, hpassed, hcovers, hstale, hnew, hsame, g₁, shown, shown', hpruned, hpruned'⟩

/-- On a blank board a pruned pass may go wrong. When `busy` starts, `open` is left out, and of
`open` the board shows that nothing is known. So nothing is known of `either`, while it holds by a
pass on a new board and by a pass over all conditions. -/
theorem evaluatePruned_blank_differs :
    let g := busyOpenIn .unknown .fails .unknown {} {}
    let verdicts : Array Verdict := #[.matched, .notMatched]
    let after := fun either => busyOpenIn .holds .fails either ⟨[(.whole, 1)]⟩ {}
    let shown : Board := ⟨#[⟨.holds, true, false⟩, ⟨.fails, false, false⟩, ⟨.holds, true, false⟩]⟩
    (build busyOpen ⟨[("begin", 0), ("enter", 1)]⟩ 800).result = .ok (.ok g) ∧ Passed g g ∧
      g.Covers verdicts ∧ g.newBoard.cells.size = 3 ∧ (Board.blank 3).cells.size = 3 ∧
      (g.evaluatePruned { tag := 7 } verdicts g.newBoard).result = .ok (after .holds, shown) ∧
      (g.evaluate { tag := 7 } verdicts (.blank 3)).result = .ok (after .holds, shown) ∧
      (g.evaluatePruned { tag := 7 } verdicts (.blank 3)).result =
        .ok (after .unknown, ⟨#[⟨.holds, true, false⟩, {}, {}]⟩) ∧
      ((after .holds).nodes.entry 2).aggregate ≠ ((after .unknown).nodes.entry 2).aggregate := by
  refine ⟨busyOpen_build, .start, busyOpenIn_covers .matched .notMatched, rfl, rfl, ?_, ?_, ?_, ?_⟩
  · with_unfolding_all rfl
  · with_unfolding_all rfl
  · with_unfolding_all rfl
  · decide

end Graph

end EventConditions
