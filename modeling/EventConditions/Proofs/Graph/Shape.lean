import Mathlib.Logic.Relation
import EventConditions.Graph.Pass
import EventConditions.Graph.Slicing

/-!
# The shape of a graph

What a resolved graph looks like apart from what events do to it: its names, its rules without the
held slices, the matchers in use and the order. `Node.outline` is a node with everything else
erased. Passes and requests for slice reports keep every outline, so that whatever is said of
outlines alone holds after them as it did before.

In an order with children first, a property that passes from children to their parents holds
everywhere: `ChildrenFirst.induction`.
-/

namespace EventConditions

variable {n : Nat}

/-- The rule with no slices held. -/
def Rule.blank : Rule n → Rule n
  | .simple s => .simple { s with slices := {} }
  | .combination c => .combination c

/-- The matchers that the rule itself reads. -/
def Rule.reads : Rule n → List Nat
  | .simple s => s.matchers
  | .combination _ => []

namespace Node

/-- The matchers that the node itself reads; none before it is resolved. -/
def reads (node : Node n) : List Nat :=
  match node.resolved? with
  | some x => x.rule.reads
  | none => []

theorem aggregate_of_resolved {node : Node n} {x : Resolved n} (hx : node.resolved? = some x) :
    node.aggregate = x.aggregate := by
  rw [aggregate, hx]

/-- The simple condition that the node was resolved to, with the slices it holds. -/
def simple? (node : Node n) : Option Simple :=
  match node.resolved? with
  | some ⟨.simple s, _, _⟩ => some s
  | _ => none

theorem simple?_eq_some_iff {node : Node n} {s : Simple} :
    node.simple? = some s ↔ ∃ x, node.resolved? = some x ∧ x.rule = .simple s := by
  obtain ⟨_, _, _, _ | ⟨_ | _, _, _⟩⟩ := node <;> simp [simple?]

theorem simple?_of_combination {node : Node n} {x : Resolved n} {c : Combination (Fin n)}
    (hx : node.resolved? = some x) (hrule : x.rule = .combination c) : node.simple? = none := by
  obtain ⟨_, _, _⟩ := x
  obtain rfl := hrule
  rw [simple?, hx]

theorem children_of_simple {node : Node n} {s : Simple} (h : node.simple? = some s) :
    node.children = [] := by
  obtain ⟨x, hx, hrule⟩ := simple?_eq_some_iff.1 h
  rw [children, hx]
  dsimp only
  rw [hrule, Rule.children]

/-- Only simple conditions read matchers. -/
theorem mem_reads_iff {node : Node n} {m : Nat} :
    m ∈ node.reads ↔ ∃ s, node.simple? = some s ∧ m ∈ s.matchers := by
  obtain ⟨_, _, _, _ | ⟨_ | _, _, _⟩⟩ := node <;> simp [reads, simple?, Rule.reads]

/-- The node without what events and requests for slice reports do to it. -/
def outline (node : Node n) : Node n :=
  { node with
    sliced := false
    resolved? := node.resolved?.map fun x =>
      { x with rule := x.rule.blank, aggregate := .unknown } }

theorem name_eq_of_reset {a b : Node n} (h : a.reset = b.reset) : a.name = b.name := by
  show a.reset.name = b.reset.name
  rw [h]

theorem index_eq_of_reset {a b : Node n} (h : a.reset = b.reset) : a.index = b.index := by
  show a.reset.index = b.reset.index
  rw [h]

theorem sliced_eq_of_reset {a b : Node n} (h : a.reset = b.reset) : a.sliced = b.sliced := by
  show a.reset.sliced = b.reset.sliced
  rw [h]

@[simp] theorem name_outline (node : Node n) : node.outline.name = node.name := rfl

@[simp] theorem index_outline (node : Node n) : node.outline.index = node.index := rfl

@[simp] theorem isResolved_outline (node : Node n) : node.outline.isResolved = node.isResolved := by
  simp [outline, isResolved]

@[simp] theorem used_outline (node : Node n) : node.outline.used = node.used := by
  obtain ⟨_, _, _, _ | x⟩ := node <;> rfl

@[simp] theorem children_outline (node : Node n) : node.outline.children = node.children := by
  obtain ⟨_, _, _, _ | ⟨_ | _, _, _⟩⟩ := node <;> rfl

@[simp] theorem reads_outline (node : Node n) : node.outline.reads = node.reads := by
  obtain ⟨_, _, _, _ | ⟨_ | _, _, _⟩⟩ := node <;> rfl

/-- The second node is the first, except that other slice reports may be asked for. -/
def SameButAsked (a b : Node n) : Prop :=
  b = { a with sliced := b.sliced }

section SameButAsked

variable {a b c : Node n}

theorem SameButAsked.refl (a : Node n) : a.SameButAsked a := rfl

theorem SameButAsked.trans (hab : a.SameButAsked b) (hbc : b.SameButAsked c) : a.SameButAsked c := by
  rw [SameButAsked] at hab hbc
  rw [hab] at hbc
  exact hbc

theorem SameButAsked.resolved?_eq (h : a.SameButAsked b) : b.resolved? = a.resolved? := by
  rw [h]

theorem SameButAsked.outline_eq (h : a.SameButAsked b) : b.outline = a.outline := by
  rw [h]
  rfl

end SameButAsked

end Node

namespace Graph

/-- The graph with every node reduced to its outline. -/
def outline (g : Graph n) : Graph n :=
  { g with nodes := g.nodes.map Node.outline }

@[simp] theorem entry_outline (g : Graph n) (i : Fin n) :
    g.outline.nodes.entry i = (g.nodes.entry i).outline :=
  Table.entry_map _ _ _

/-- Graphs of one outline are told apart by their nodes. -/
theorem eq_of_outline {g g' : Graph n} (houtline : g'.outline = g.outline)
    (hnodes : ∀ i, g'.nodes.entry i = g.nodes.entry i) : g' = g := by
  obtain ⟨nodes, order, maxSlices⟩ := g
  obtain ⟨nodes', order', maxSlices'⟩ := g'
  rw [outline, outline, Graph.mk.injEq] at houtline
  rw [Graph.mk.injEq]
  exact ⟨Table.ext_entry hnodes, houtline.2⟩

/-- The condition at `j` is the one at `i` or one that it depends on. -/
def Reaches (g : Graph n) : Fin n → Fin n → Prop :=
  Relation.ReflTransGen fun a b => b ∈ (g.nodes.entry a).children

/-- In the order every condition comes behind those it reads. -/
def ChildrenFirst (g : Graph n) : Prop :=
  ∀ before i after, g.order = before ++ i :: after →
    ∀ c ∈ (g.nodes.entry i).children, c ∈ before

/-- Each condition has its turn once, behind those it reads. -/
structure Ordered (g : Graph n) : Prop where
  perm : g.order.Perm (List.finRange n)
  children : g.ChildrenFirst

theorem Ordered.mem_order {g : Graph n} (h : g.Ordered) (i : Fin n) : i ∈ g.order :=
  h.perm.mem_iff.2 (List.mem_finRange i)

/-- What passes from the conditions that one reads to that one itself holds of all. -/
theorem Ordered.induction {g : Graph n} (h : g.Ordered) {P : Fin n → Prop}
    (step : ∀ i, (∀ c ∈ (g.nodes.entry i).children, P c) → P i) (i : Fin n) : P i := by
  -- by the number of conditions that have their turn before
  have key : ∀ k before i after, before.length = k → g.order = before ++ i :: after → P i := by
    intro k
    induction k using Nat.strongRecOn with
    | _ k ih =>
      rintro before i after rfl ho
      refine step i fun c hc => ?_
      obtain ⟨s, t, rfl⟩ := List.append_of_mem (h.children before i after ho c hc)
      exact ih s.length (by simp) s c (t ++ i :: after) rfl (by rw [ho]; simp)
  obtain ⟨s, t, ho⟩ := List.append_of_mem (h.mem_order i)
  exact key s.length s i t rfl ho

/-- No condition depends on itself. -/
theorem Ordered.not_reaches {g : Graph n} (h : g.Ordered) {i c : Fin n}
    (hc : c ∈ (g.nodes.entry i).children) : ¬ g.Reaches c i := by
  induction i using h.induction generalizing c with
  | step i ih =>
    intro hback
    rcases Relation.ReflTransGen.cases_head hback with rfl | ⟨d, hd, hdown⟩
    · exact ih c hc hc .refl
    · exact ih c hc hd (hdown.tail hc)

/-- What holds of no conditions, and of some conditions and a next one whenever it holds of the
former and these are all that any of them reads, holds of the whole order. -/
theorem Ordered.order_induction {g : Graph n} (h : g.Ordered) {P : List (Fin n) → Prop}
    (nil : P [])
    (snoc : ∀ done i, i ∉ done → (∀ c ∈ (g.nodes.entry i).children, c ∈ done) →
      (∀ j ∈ done, ∀ c ∈ (g.nodes.entry j).children, c ∈ done) → P done → P (done ++ [i])) :
    P g.order := by
  -- by what is left of the order
  have key : ∀ rest done, g.order = done ++ rest → P done → P g.order := by
    intro rest
    induction rest with
    | nil =>
      intro done ho hdone
      rw [List.append_nil] at ho
      exact ho ▸ hdone
    | cons i rest ih =>
      intro done ho hdone
      refine ih (done ++ [i]) (by rw [ho, List.append_assoc]; rfl) (snoc done i ?_ ?_ ?_ hdone)
      · have hnodup := h.perm.nodup_iff.2 (List.nodup_finRange n)
        rw [ho, List.nodup_append] at hnodup
        exact fun hmem => hnodup.2.2 i hmem i List.mem_cons_self rfl
      · exact fun c hc => h.children done i rest ho c hc
      · intro j hj c hc
        obtain ⟨before, after, rfl⟩ := List.append_of_mem hj
        exact List.mem_append_left _
          (h.children before j (after ++ i :: rest) (by rw [ho]; simp) c hc)
  exact key g.order [] rfl nil

end Graph

/-! ## Passes keep outlines -/

namespace Simple

/-- Serving a request changes nothing but the held slices. -/
theorem serve_fst (s : Simple) (request : Request) :
    (s.serve request).1 = { s with slices := (s.serve request).1.slices } := by
  cases request <;> rfl

end Simple

namespace Sweep

variable {e : Event} {verdicts : Array Verdict}

/-- What every turn keeps, a run keeps. -/
theorem run_preserves {P : Sweep n → Prop} {relevant : Fin n → Bool}
    (step : ∀ s i s', P s → (s.turn e verdicts i).result = .ok s' → P s') {order : List (Fin n)}
    {s s' : Sweep n} (h : P s) (hrun : (run e verdicts relevant order s).result = .ok s') :
    P s' := by
  induction order generalizing s with
  | nil =>
    cases hrun
    exact h
  | cons i rest ih =>
    rw [run] at hrun
    split at hrun
    · obtain ⟨s₁, hturn, hrest⟩ := Logged.result_bind_eq_ok_iff.1 hrun
      exact ih (step s i s₁ h hturn) hrest
    · exact ih h hrun

/-- All that a turn can do: a simple condition serves what the event asks of it, and a combination
joins what the cells of its children show. -/
inductive Turn (e : Event) (verdicts : Array Verdict) (s : Sweep n) (i : Fin n) : Sweep n → Prop
  | simple {x simple request} : (s.nodes.entry i).resolved? = some x → x.rule = .simple simple →
      simple.request e verdicts = .ok request →
      Turn e verdicts s i (s.settle i (.simple (simple.serve request).1)
        ((simple.serve request).2.state.getD x.aggregate) (simple.serve request).2.slicesMoved)
  | combination {x c} : (s.nodes.entry i).resolved? = some x → x.rule = .combination c →
      Turn e verdicts s i (s.settle i (.combination c)
        (c.evaluate fun child => (s.cells.entry child).state)
        (c.children.any fun child => (s.cells.entry child).sliceChanged))

/-- A turn that ends well is one of these. -/
theorem turn_eq_ok_iff {s s' : Sweep n} {i : Fin n} :
    (s.turn e verdicts i).result = .ok s' ↔ Turn e verdicts s i s' := by
  rw [turn]
  constructor
  · intro h
    split at h
    · cases h
    · next x hx =>
      split at h
      · next simple hrule =>
        obtain ⟨request, hrequest, h⟩ := Logged.result_bind_eq_ok_iff.1 h
        obtain ⟨-, -, h⟩ := Logged.result_bind_eq_ok_iff.1 h
        have hturn := Turn.simple hx hrule hrequest
        cases hserve : simple.serve request with
        | mk simple' outcome =>
          rw [hserve] at h hturn
          cases h
          exact hturn
      · next c hrule =>
        cases h
        exact .combination hx hrule
  · intro h
    cases h with
    | simple hx hrule hrequest =>
      rw [hx]
      simp only [hrule, hrequest]
      rfl
    | combination hx hrule =>
      rw [hx]
      simp only [hrule]
      rfl

/-- A turn stores a rule with the same outline, and touches no other node. -/
theorem Turn.settled {s s' : Sweep n} {i : Fin n} (h : Turn e verdicts s i s') :
    ∃ x rule state moved, (s.nodes.entry i).resolved? = some x ∧ rule.blank = x.rule.blank ∧
      s' = s.settle i rule state moved := by
  cases h with
  | simple hx hrule hrequest =>
    refine ⟨_, _, _, _, hx, ?_, rfl⟩
    rw [hrule, Simple.serve_fst]
    rfl
  | combination hx hrule => exact ⟨_, _, _, _, hx, by rw [hrule], rfl⟩

/-- A turn keeps every outline. -/
theorem outline_turn {s s' : Sweep n} {i : Fin n} (h : (s.turn e verdicts i).result = .ok s')
    (j : Fin n) : (s'.nodes.entry j).outline = (s.nodes.entry j).outline := by
  obtain ⟨x, rule, state, moved, hx, hblank, rfl⟩ := (turn_eq_ok_iff.1 h).settled
  by_cases hj : j = i
  · subst hj
    simp [settle, Node.outline, Node.used, hx, hblank]
  · rw [settle, Table.entry_put_ne _ hj]

/-- A turn keeps who asked for slice reports. -/
theorem sliced_turn {s s' : Sweep n} {i : Fin n} (h : (s.turn e verdicts i).result = .ok s')
    (j : Fin n) : (s'.nodes.entry j).sliced = (s.nodes.entry j).sliced := by
  obtain ⟨x, rule, state, moved, -, -, rfl⟩ := (turn_eq_ok_iff.1 h).settled
  by_cases hj : j = i
  · subst hj
    simp [settle]
  · rw [settle, Table.entry_put_ne _ hj]

end Sweep

namespace Graph

variable {e : Event} {verdicts : Array Verdict}

/-- A pass that ends well was over a resolved graph with a board made for it, and is a run along the
order from cleared cells. -/
theorem pass_eq_ok_iff {g g' : Graph n} {board board' : Board} {relevant : Fin n → Bool} :
    (g.pass e verdicts board relevant).result = .ok (g', board') ↔
      g.isResolved = true ∧ ∃ (h : board.cells.size = n) (s : Sweep n),
        (Sweep.run e verdicts relevant g.order
          { nodes := g.nodes
            cells := Table.map (fun cell => { state := cell.state }) ⟨board.cells, h⟩ }).result
          = .ok s ∧
        g' = { g with nodes := s.nodes } ∧ board' = ⟨s.cells.toArray⟩ := by
  rw [pass]
  by_cases hg : g.isResolved = true
  · rw [if_pos hg]
    by_cases hb : board.cells.size = n
    · rw [dif_pos hb]
      dsimp only
      rw [Logged.result_bind_eq_ok_iff]
      constructor
      · rintro ⟨s, hs, heq⟩
        cases heq
        exact ⟨hg, hb, s, hs, rfl, rfl⟩
      · rintro ⟨-, _, s, hs, rfl, rfl⟩
        exact ⟨s, hs, rfl⟩
    · rw [dif_neg hb]
      simp [hb]
  · rw [if_neg hg]
    simp [hg]

/-- A pass keeps every outline and the order. -/
theorem outline_pass {g g' : Graph n} {board board' : Board} {relevant : Fin n → Bool}
    (h : (g.pass e verdicts board relevant).result = .ok (g', board')) :
    g'.outline = g.outline := by
  obtain ⟨-, hb, s, hs, rfl, -⟩ := pass_eq_ok_iff.1 h
  have houtline : ∀ j, (s.nodes.entry j).outline = (g.nodes.entry j).outline :=
    Sweep.run_preserves (P := fun s => ∀ j, (s.nodes.entry j).outline = (g.nodes.entry j).outline)
      (fun s i s' h hturn j => (Sweep.outline_turn hturn j).trans (h j)) (fun _ => rfl) hs
  rw [outline, outline]
  congr 1
  refine Table.ext_entry fun j => ?_
  rw [Table.entry_map, Table.entry_map]
  exact houtline j

/-- A pass keeps who asked for slice reports. -/
theorem sliced_pass {g g' : Graph n} {board board' : Board} {relevant : Fin n → Bool}
    (h : (g.pass e verdicts board relevant).result = .ok (g', board')) (j : Fin n) :
    (g'.nodes.entry j).sliced = (g.nodes.entry j).sliced := by
  obtain ⟨-, hb, s, hs, rfl, -⟩ := pass_eq_ok_iff.1 h
  exact Sweep.run_preserves (P := fun s => (s.nodes.entry j).sliced = (g.nodes.entry j).sliced)
    (fun s i s' h hturn => (Sweep.sliced_turn hturn j).trans h) rfl hs

/-- With a mask made for the graph, a pruned pass is a pass over the conditions that it marks. -/
theorem evaluateRelevant_eq_pass {g : Graph n} {board : Board} {mask : Array Bool}
    (h : mask.size = n) : g.evaluateRelevant e verdicts board mask
      = g.pass e verdicts board (Table.entry ⟨mask, h⟩) := by
  rw [evaluateRelevant, dif_pos h]

/-- A pruned pass that ends well is a pass with a mask made for the graph. -/
theorem evaluateRelevant_eq_ok_iff {g g' : Graph n} {board board' : Board} {mask : Array Bool} :
    (g.evaluateRelevant e verdicts board mask).result = .ok (g', board') ↔
      ∃ h : mask.size = n,
        (g.pass e verdicts board (Table.entry ⟨mask, h⟩)).result = .ok (g', board') := by
  by_cases h : mask.size = n
  · rw [evaluateRelevant_eq_pass h]
    simp [h]
  · rw [evaluateRelevant, dif_neg h]
    simp [h]

/-! ## Requests for slice reports keep outlines -/

theorem sameButAsked_mark (nodes : Table n (Node n)) (i j : Fin n) :
    (nodes.entry j).SameButAsked ((mark nodes i).entry j) := by
  by_cases hj : j = i
  · subst hj
    rw [mark, Table.entry_put_self]
    rfl
  · rw [mark, Table.entry_put_ne _ hj]
    exact .refl _

/-- A request asks nodes and does nothing else to them, however far it spreads. -/
theorem sameButAsked_spread (nodes : Table n (Node n)) (pending : List (Fin n)) (j : Fin n) :
    (nodes.entry j).SameButAsked ((spread nodes pending).entry j) := by
  fun_induction spread nodes pending with
  | case1 => exact .refl _
  | case2 _ _ _ _ ih => exact ih
  | case3 nodes i _ _ ih => exact (sameButAsked_mark nodes i j).trans ih

theorem sameButAsked_slice (g : Graph n) (i j : Fin n) :
    (g.nodes.entry j).SameButAsked ((g.slice i).nodes.entry j) :=
  (sameButAsked_mark g.nodes i j).trans (sameButAsked_spread _ _ j)

/-- A request changes no state, slice or rule. -/
@[simp] theorem resolved?_slice (g : Graph n) (i j : Fin n) :
    ((g.slice i).nodes.entry j).resolved? = (g.nodes.entry j).resolved? :=
  (g.sameButAsked_slice i j).resolved?_eq

@[simp] theorem outline_slice (g : Graph n) (i : Fin n) : (g.slice i).outline = g.outline := by
  rw [outline, outline]
  congr 1
  refine Table.ext_entry fun j => ?_
  rw [Table.entry_map, Table.entry_map, (g.sameButAsked_slice i j).outline_eq]

/-- A request that ends well reaches what some node depends on, or is for no reports. -/
theorem eq_slice_of_setSliced {g g' : Graph n} {index : Nat} {on : Bool}
    (h : g.setSliced index on = .ok g') : g' = g ∨ ∃ i, g' = g.slice i := by
  rw [setSliced, within] at h
  split at h
  · cases on with
    | true =>
      cases h
      exact .inr ⟨_, rfl⟩
    | false =>
      cases h
      exact .inl rfl
  · cases h

theorem outline_setSliced {g g' : Graph n} {index : Nat} {on : Bool}
    (h : g.setSliced index on = .ok g') : g'.outline = g.outline := by
  rcases eq_slice_of_setSliced h with rfl | ⟨i, rfl⟩
  · rfl
  · exact outline_slice g i

end Graph

end EventConditions
