import EventConditions.Proofs.Graph.Coherence
import EventConditions.Proofs.Graph.Representation
import EventConditions.Proofs.Graph.Slicing
import EventConditions.Proofs.Resolution.Twins
import EventConditions.Proofs.Simple.Counters

/-!
# Resolving afresh

Whatever happened to a graph since it was made, resolving it gives what it would have given right at
the beginning, apart from the requests for slice reports, which stay (`Graph.resolve_afresh`): a
history changes neither names nor numbers, and resolving reads nothing else of a node.

The two graphs are twins from then on. Passes over twins end in twins, and their boards differ at
most in the slice change flags, since these are all that a request has an influence on
(`Graph.evaluateAll_twin`).
-/

namespace EventConditions

variable {n : Nat}

open Logged

/-- The cell without its slice change flag. -/
def Cell.plain (cell : Cell) : Cell :=
  { cell with sliceChanged := false }

/-- The board without its slice change flags. -/
def Board.plain (b : Board) : Board :=
  ⟨b.cells.map Cell.plain⟩

theorem Node.Twin.aggregate {a b : Node n} (h : a.Twin b) : b.aggregate = a.aggregate := by
  rw [Node.aggregate, Node.aggregate, h.resolved]

theorem Node.Twin.used {a b : Node n} (h : a.Twin b) : b.used = a.used := by
  rw [Node.used, Node.used, h.resolved]

/-! ## Passes over twins -/

namespace Sweep

variable {s t : Sweep n} {e : Event} {verdicts : Array Verdict}

/-- The nodes are twins, and the cells differ at most in their slice change flags. -/
structure Twin (s t : Sweep n) : Prop where
  nodes : Twins s.nodes t.nodes
  cells : ∀ i, (t.cells.entry i).plain = (s.cells.entry i).plain

theorem Twin.state (h : s.Twin t) (i : Fin n) :
    (t.cells.entry i).state = (s.cells.entry i).state := by
  show (t.cells.entry i).plain.state = (s.cells.entry i).plain.state
  rw [h.cells i]

/-- Settling twins in the same state, whether or not a slice moved. -/
theorem Twin.settle (h : s.Twin t) (i : Fin n) (rule : Rule n) (state : State)
    (moved moved' : Bool) : (s.settle i rule state moved).Twin (t.settle i rule state moved') where
  nodes := by
    have hput := h.nodes.put i { rule, used := (s.nodes.entry i).used, aggregate := state }
    show Twins _ (t.nodes.put i _)
    rw [(h.nodes i).used]
    exact hput
  cells j := by
    by_cases hj : j = i
    · subst hj
      rw [cell_settle_self, cell_settle_self, (h.nodes j).aggregate]
      rfl
    · rw [cell_settle_ne _ hj, cell_settle_ne _ hj]
      exact h.cells j

/-- A turn is the same among twins: a request for slice reports decides of no more than a slice
change flag. -/
theorem turn_twin (h : s.Twin t) (i : Fin n) :
    Rel Twin (s.turn e verdicts i) (t.turn e verdicts i) := by
  rw [turn, turn, (h.nodes i).resolved]
  cases (s.nodes.entry i).resolved? with
  | none => exact .error
  | some x =>
    dsimp only
    cases x.rule with
    | simple simple =>
      rw [(h.nodes i).name]
      refine .after fun request => .after fun _ => .pure ?_
      exact h.settle i _ _ _ _
    | combination c =>
      have hstate : (c.evaluate fun child => (t.cells.entry child).state) =
          c.evaluate fun child => (s.cells.entry child).state :=
        congrArg c.evaluate (funext h.state)
      dsimp only
      rw [hstate]
      exact .pure (h.settle i _ _ _ _)

theorem run_twin {relevant : Fin n → Bool} (order : List (Fin n)) (h : s.Twin t) :
    Rel Twin (run e verdicts relevant order s) (run e verdicts relevant order t) := by
  induction order generalizing s t with
  | nil => exact .pure h
  | cons i rest ih =>
    rw [run, run]
    split
    · exact (turn_twin h i).bind fun _ _ htwin => ih htwin
    · exact ih h

end Sweep

namespace Graph

variable {f g : Graph n} {e : Event} {verdicts : Array Verdict} {b c : Board}

theorem Twin.isResolved (h : f.Twin g) : g.isResolved = f.isResolved := by
  rw [Bool.eq_iff_iff, isResolved_iff, isResolved_iff]
  simp only [(h.nodes _).resolved]

theorem Twin.newBoard (h : f.Twin g) : g.newBoard = f.newBoard := by
  have hcells : g.nodes.toList.map (fun node => ({ state := node.aggregate } : Cell)) =
      f.nodes.toList.map fun node => { state := node.aggregate } := by
    rw [Table.toList_eq_map_entry, Table.toList_eq_map_entry, List.map_map, List.map_map]
    refine List.map_congr_left fun i _ => ?_
    rw [Function.comp_apply, Function.comp_apply, (h.nodes i).aggregate]
  rw [Graph.newBoard, Graph.newBoard, hcells]

/-- A graph and a board, each next to one of its kind. -/
structure TwinPass (s t : Graph n × Board) : Prop where
  graph : s.1.Twin t.1
  board : t.2.plain = s.2.plain

/-- A pass starts from cells that show states and nothing else, so it does not matter which slice
change flags the board showed. -/
theorem cleared_eq_of_plain (hboard : c.plain = b.plain) (hb : b.cells.size = n)
    (hc : c.cells.size = n) :
    Table.map (fun cell : Cell => ({ state := cell.state } : Cell)) ⟨c.cells, hc⟩ =
      Table.map (fun cell : Cell => { state := cell.state }) ⟨b.cells, hb⟩ := by
  refine Table.ext_entry fun i => ?_
  have hib : i.val < b.cells.size := hb ▸ i.isLt
  have hic : i.val < c.cells.size := hc ▸ i.isLt
  have hcell : c.cells[i.val].plain = b.cells[i.val].plain := by
    simpa [Board.plain, hib, hic] using congrArg (fun board : Board => board.cells[i.val]?) hboard
  rw [Table.entry_map, Table.entry_map]
  show ({ state := c.cells[i.val].plain.state } : Cell) = { state := b.cells[i.val].plain.state }
  rw [hcell]

/-- A pass is the same over twins. -/
theorem pass_twin {relevant : Fin n → Bool} (h : f.Twin g) (hboard : c.plain = b.plain) :
    Rel TwinPass (f.pass e verdicts b relevant) (g.pass e verdicts c relevant) := by
  have hsize : c.cells.size = b.cells.size := by
    simpa [Board.plain] using congrArg (fun board : Board => board.cells.size) hboard
  rw [pass, pass, h.isResolved]
  split
  · by_cases hb : b.cells.size = n
    · have hc : c.cells.size = n := hsize.trans hb
      rw [dif_pos hb, dif_pos hc, h.order]
      dsimp only
      rw [cleared_eq_of_plain hboard hb hc]
      refine Rel.bind (Sweep.run_twin f.order ⟨h.nodes, fun _ => rfl⟩) fun s t hst =>
        .pure ⟨?_, ?_⟩
      · exact ⟨hst.nodes, rfl, h.maxSlices⟩
      · have hcells : Table.map Cell.plain t.cells = Table.map Cell.plain s.cells :=
          Table.ext_entry fun i => by rw [Table.entry_map, Table.entry_map, hst.cells i]
        exact congrArg (fun cells : Table n Cell => (⟨cells.toArray⟩ : Board)) hcells
    · rw [dif_neg hb, dif_neg (hsize ▸ hb)]
      exact .error
  · exact .error

/-- Passes over all conditions, one event after the other, on one board. -/
def evaluateAll (g : Graph n) (board : Board) : List Judged → Logged Fault (Graph n × Board)
  | [] => pure (g, board)
  | x :: rest => do
    let (g, board) ← g.evaluate x.event x.verdicts board
    g.evaluateAll board rest

theorem evaluateAll_twin (xs : List Judged) (h : f.Twin g) (hboard : c.plain = b.plain) :
    Rel TwinPass (f.evaluateAll b xs) (g.evaluateAll c xs) := by
  induction xs generalizing f g b c with
  | nil => exact .pure ⟨h, hboard⟩
  | cons x rest ih => exact (pass_twin h hboard).bind fun _ _ hpass => ih hpass.graph hpass.board

/-! ## Histories -/

theorem SameNamesAndLimit.of_outline (h : g.outline = f.outline) : f.SameNamesAndLimit g where
  name := entry_eq_of_outline h Node.name_outline
  index := entry_eq_of_outline h Node.index_outline
  maxSlices := maxSlices_eq_of_outline h

theorem SameNamesAndLimit.of_resolve {conditions : List Condition} {matchers : NameIndex}
    {outcome : Except Error Unit} (h : (f.resolve conditions matchers).result = .ok (g, outcome)) :
    f.SameNamesAndLimit g := by
  obtain ⟨g', o, hres, hmax, hreset, -⟩ := f.resolve_spec conditions matchers
  cases hres.symm.trans h
  exact ⟨fun i => Node.name_eq_of_reset (hreset i), fun i => Node.index_eq_of_reset (hreset i),
    hmax⟩

/-- Nothing that happens to a graph changes names, numbers or the limit. -/
theorem Reached.sameNamesAndLimit {latest : Option (List Condition × NameIndex)}
    (h : Reached f g latest) : f.SameNamesAndLimit g := by
  induction h with
  | fresh => exact .refl f
  | resolved _ hres ih => exact ih.trans (.of_resolve hres)
  | refused _ hres ih => exact ih.trans (.of_resolve hres)
  | evaluate _ hpass ih => exact ih.trans (.of_outline (outline_pass hpass))
  | evaluateRelevant _ hpass ih =>
    obtain ⟨_, hpass⟩ := evaluateRelevant_eq_ok_iff.1 hpass
    exact ih.trans (.of_outline (outline_pass hpass))
  | setSliced _ hset ih => exact ih.trans (.of_outline (outline_setSliced hset))

/-- **Resolving starts from scratch.** After any history that began with the graph `g₀`, such as one
that was just made, resolving ends as it does on `g₀`, with the same outcome. It leaves the same
graph, in which no slice is held, apart from the requests for slice reports, which stay as they
were. If it fails, no condition is resolved; if it succeeds, all are, and any sequence of passes
from a new board on shows the same states and changes as it does on `g₀`. -/
theorem resolve_afresh {g₀ g : Graph n} {latest : Option (List Condition × NameIndex)}
    (h : Reached g₀ g latest) (conditions : List Condition) (matchers : NameIndex) :
    ∃ f' g' outcome, (g₀.resolve conditions matchers).result = .ok (f', outcome) ∧
      (g.resolve conditions matchers).result = .ok (g', outcome) ∧
      g'.order = f'.order ∧ g'.maxSlices = f'.maxSlices ∧
      (∀ i, g'.nodes.entry i =
        { f'.nodes.entry i with sliced := (g.nodes.entry i).sliced }) ∧
      (∀ i s, (g'.nodes.entry i).simple? = some s → s.slices = {}) ∧
      match outcome with
      | .ok () => g'.isResolved = true ∧ ∀ xs,
          (g'.evaluateAll g'.newBoard xs).result.map (fun t => t.2.plain) =
            (f'.evaluateAll f'.newBoard xs).result.map fun t => t.2.plain
      | .error _ => g'.order = [] ∧ ∀ i, (g'.nodes.entry i).resolved? = none := by
  obtain ⟨f', outcome, hf, -, -, -⟩ := g₀.resolve_spec conditions matchers
  obtain ⟨⟨g', o⟩, hg, htwin, ho⟩ := (h.sameNamesAndLimit.resolve_twin conditions matchers).exists_ok hf
  obtain rfl : outcome = o := ho.symm
  obtain ⟨_, _, hg', -, hreset, hspec⟩ := g.resolve_spec conditions matchers
  cases hg.symm.trans hg'
  refine ⟨f', g', outcome, hf, hg, htwin.order, htwin.maxSlices, fun i => ?_, ?_, ?_⟩
  · rw [← Node.sliced_eq_of_reset (hreset i)]
    exact (htwin.nodes i).eq
  · intro i s hs
    cases outcome with
    | error e =>
      rw [Node.simple?, hspec.2 i] at hs
      cases hs
    | ok u =>
      obtain ⟨_, -, hby⟩ := hspec
      exact (hby.starts hs).1
  · cases outcome with
    | error e => exact hspec
    | ok u =>
      obtain ⟨_, -, hby⟩ := hspec
      refine ⟨hby.coherent.isResolved, fun xs => ?_⟩
      rw [htwin.newBoard]
      exact (evaluateAll_twin xs htwin rfl).map_eq fun _ _ hpass => hpass.board

/-- The graph with all nodes asked for slice reports. -/
def asked (g : Graph n) : Graph n :=
  { g with nodes := g.nodes.map fun node => node.setSliced true }

/-- Once resolved, asked for slice reports and fed the event that starts `busy`, the graph is
resolved to unknown states and no slices again, and both conditions stay asked. -/
theorem resolve_afresh_idleBusy :
    let matchers : NameIndex := ⟨[("begin", 0)]⟩
    let g := (idleBusyIn .fails .holds ⟨[(.whole, 1)]⟩).asked
    let f' := idleBusyIn .unknown .unknown {}
    let g' := f'.asked
    (ofConditions idleBusy 800).result = .ok idleBusyFresh ∧
      Reached idleBusyFresh g (some (idleBusy, matchers)) ∧
      (idleBusyFresh.resolve idleBusy matchers).result = .ok (f', .ok ()) ∧
      (g.resolve idleBusy matchers).result = .ok (g', .ok ()) ∧
      ∀ xs, (g'.evaluateAll g'.newBoard xs).result.map (fun t => t.2.plain) =
        (f'.evaluateAll f'.newBoard xs).result.map fun t => t.2.plain := by
  intro matchers g f' g'
  have hresolved : (idleBusyFresh.resolve idleBusy matchers).result = .ok (f', .ok ()) := by
    with_unfolding_all rfl
  have hasked : f'.setSliced 0 true = .ok g' := by
    refine setSliced_of_spread (i := 0) ((spread_of_unsliced rfl).trans ((spread_nil _).trans ?_))
    with_unfolding_all rfl
  have hevent : (g'.evaluate { tag := 7 } #[.matched] (.blank 2)).result =
      .ok (g, ⟨#[⟨.fails, true, true⟩, ⟨.holds, true, true⟩]⟩) := by
    with_unfolding_all rfl
  have hagain : (g.resolve idleBusy matchers).result = .ok (g', .ok ()) := by
    with_unfolding_all rfl
  have hreached : Reached idleBusyFresh g (some (idleBusy, matchers)) :=
    .evaluate (.setSliced (.resolved .fresh hresolved) hasked) hevent
  obtain ⟨_, _, _, hf, hg, -, -, -, -, hpasses⟩ := resolve_afresh hreached idleBusy matchers
  cases hf.symm.trans hresolved
  cases hg.symm.trans hagain
  exact ⟨rfl, hreached, hresolved, hagain, hpasses.2⟩

end Graph

end EventConditions
