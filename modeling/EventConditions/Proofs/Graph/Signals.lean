import EventConditions.Proofs.Graph.Pruning
import EventConditions.Proofs.Graph.Slicing
import EventConditions.Proofs.Simple

/-!
# What a pass signals

A pass signals a slice change of a condition if slice reports of it are wanted and its own state
changed, its own slices moved, or a change is signalled of one of its children. In a closed graph
that passes signals on from each simple condition to all that depend on it and are asked, so that
the signals tell exactly who depends on a simple condition that was stirred
(`Sweep.sliceChanged_iff`). A combination need not be looked at itself: it changes only if something
below it does (`Sweep.exists_stirred`).
-/

namespace EventConditions

variable {n : Nat}

/-- Of a simple condition, before and after an event: its state changed or its slices moved. -/
def Node.Stirred (before after : Node n) : Prop :=
  ∃ s s', before.simple? = some s ∧ after.simple? = some s' ∧
    (after.aggregate ≠ before.aggregate ∨ s.slices.Moved s'.slices)

/-- Of a simple condition, the event asks nothing of it that there is anything to do for. -/
def Node.IdleOn (node : Node n) (e : Event) (verdicts : Array Verdict) : Prop :=
  ∀ s, node.simple? = some s →
    ∃ request, s.request e verdicts = .ok request ∧ request.Idle s node.aggregate

namespace Graph

/-- Every simple condition is in a state that goes with its slices. -/
def Settled (g : Graph n) : Prop :=
  ∀ i s, (g.nodes.entry i).simple? = some s → s.slices.Backs (g.nodes.entry i).aggregate

/-- A request for slice reports keeps the graph settled. -/
theorem Settled.slice {g : Graph n} (h : g.Settled) (i : Fin n) : (g.slice i).Settled := by
  intro j s hs
  rw [aggregate_slice]
  refine h j s ?_
  rwa [Node.simple?, ← resolved?_slice g i j]

end Graph

namespace Sweep

variable {g : Graph n} {e : Event} {verdicts : Array Verdict} {s : Sweep n} {i : Fin n}

/-- What a simple condition's turn did to it, and what the pass signals of it. -/
theorem Turned.of_simple (h : Turned e verdicts g.opening s i) {simple : Simple}
    (hsimple : (g.nodes.entry i).simple? = some simple) :
    ∃ request, simple.request e verdicts = .ok request ∧
      (s.nodes.entry i).simple? = some (simple.serve request).1 ∧
      (s.nodes.entry i).aggregate =
        (simple.serve request).2.state.getD (g.nodes.entry i).aggregate ∧
      (s.cells.entry i).sliceChanged = ((g.nodes.entry i).sliced &&
        ((s.nodes.entry i).aggregate != (g.nodes.entry i).aggregate ||
          (simple.serve request).2.slicesMoved)) := by
  obtain ⟨x, hx, hrule⟩ := Node.simple?_eq_some_iff.1 hsimple
  cases h with
  | @simple x₀ simple₀ request hx₀ hrule₀ hrequest hs =>
    obtain rfl := Option.some.inj (hx.symm.trans hx₀)
    obtain rfl := Rule.simple.inj (hrule.symm.trans hrule₀)
    have haggregate := Node.aggregate_of_resolved hx
    refine ⟨request, hrequest, ?_, ?_, ?_⟩
    · rw [hs.1, node_settle_self]
      rfl
    · rw [hs.1, aggregate_settle_self, haggregate]
    · rw [hs.1, hs.2, cell_settle_self, aggregate_settle_self]
      rfl
  | combination hx₀ hrule₀ _ =>
    obtain rfl := Option.some.inj (hx.symm.trans hx₀)
    exact nomatch hrule.symm.trans hrule₀

/-- A turn leaves a simple condition only where there was one. -/
theorem Turned.simple_before (h : Turned e verdicts g.opening s i) {simple' : Simple}
    (hsimple' : (s.nodes.entry i).simple? = some simple') :
    ∃ simple, (g.nodes.entry i).simple? = some simple := by
  cases h with
  | simple hx hrule _ _ => exact ⟨_, Node.simple?_eq_some_iff.2 ⟨_, hx, hrule⟩⟩
  | combination _ _ hs =>
    rw [hs.1, node_settle_self, Node.simple?_of_combination rfl rfl] at hsimple'
    exact nomatch hsimple'

/-- What the pass signals of a combination that had its turn. -/
theorem Turned.of_combination (h : Turned e verdicts g.opening s i) {x : Resolved n}
    {c : Combination (Fin n)} (hx : (g.nodes.entry i).resolved? = some x)
    (hrule : x.rule = .combination c) :
    (s.nodes.entry i).aggregate = (c.evaluate fun child => (s.cells.entry child).state) ∧
      (s.cells.entry i).sliceChanged = ((g.nodes.entry i).sliced &&
        ((s.nodes.entry i).aggregate != (g.nodes.entry i).aggregate ||
          c.children.any fun child => (s.cells.entry child).sliceChanged)) := by
  cases h with
  | simple hx₀ hrule₀ _ _ =>
    obtain rfl := Option.some.inj (hx.symm.trans hx₀)
    exact nomatch hrule.symm.trans hrule₀
  | combination hx₀ hrule₀ hs =>
    obtain rfl := Option.some.inj (hx.symm.trans hx₀)
    obtain rfl := Rule.combination.inj (hrule.symm.trans hrule₀)
    refine ⟨?_, ?_⟩
    · rw [hs.1, aggregate_settle_self]
    · rw [hs.1, hs.2, cell_settle_self, aggregate_settle_self]
      rfl

/-- Of a simple condition that is asked for, a pass signals that it was stirred. -/
theorem Turned.sliceChanged_simple_iff (h : Turned e verdicts g.opening s i) {simple : Simple}
    (hsimple : (g.nodes.entry i).simple? = some simple) :
    (s.cells.entry i).sliceChanged = true ↔ (g.nodes.entry i).sliced = true ∧
      Node.Stirred (g.nodes.entry i) (s.nodes.entry i) := by
  obtain ⟨request, -, hsimple', -, hsignal⟩ := h.of_simple hsimple
  rw [hsignal, Bool.and_eq_true, Bool.or_eq_true, bne_iff_ne, simple.slicesMoved_serve_iff]
  refine and_congr_right fun _ => ⟨fun hchange => ⟨_, _, hsimple, hsimple', hchange⟩, ?_⟩
  rintro ⟨s₁, s₂, h₁, h₂, hchange⟩
  obtain rfl := Option.some.inj (hsimple.symm.trans h₁)
  obtain rfl := Option.some.inj (hsimple'.symm.trans h₂)
  exact hchange

/-- An event that a simple condition is idle on does not stir it. -/
theorem Turned.not_stirred (h : Turned e verdicts g.opening s i) (hg : g.Settled)
    (hidle : (g.nodes.entry i).IdleOn e verdicts) :
    ¬ Node.Stirred (g.nodes.entry i) (s.nodes.entry i) := by
  rintro ⟨simple, simple', hsimple, hsimple', hchange⟩
  obtain ⟨request, hrequest, hafter, hstate, -⟩ := h.of_simple hsimple
  obtain ⟨request', hrequest', hidle⟩ := hidle simple hsimple
  obtain rfl := Except.ok.inj (hrequest.symm.trans hrequest')
  obtain rfl := Option.some.inj (hafter.symm.trans hsimple')
  obtain ⟨hstill, hsame⟩ := hidle.serve (hg i simple hsimple)
  exact hchange.elim (fun hne => hne (hstate.trans hsame)) hstill

/-- A pass over all conditions keeps a graph settled. -/
theorem settled_of_turned (hg : g.Settled) {g' : Graph n} (hnodes : g'.nodes = s.nodes)
    (hturned : ∀ i, Turned e verdicts g.opening s i) : g'.Settled := by
  intro i simple' hsimple'
  rw [hnodes] at hsimple' ⊢
  obtain ⟨simple, hsimple⟩ := (hturned i).simple_before hsimple'
  obtain ⟨request, -, hafter, hstate, -⟩ := (hturned i).of_simple hsimple
  obtain rfl := Option.some.inj (hafter.symm.trans hsimple')
  rw [hstate]
  exact Simple.backs_serve (hg i simple hsimple) request

section Pass

variable (hg : g.Coherent) (hturned : ∀ i, Turned e verdicts g.opening s i)
include hg hturned

/-- The state of a condition changes only if a simple condition that it depends on, or it itself,
is stirred. -/
theorem exists_stirred (i : Fin n)
    (hchange : (s.nodes.entry i).aggregate ≠ (g.nodes.entry i).aggregate) :
    ∃ j, g.Reaches i j ∧ Node.Stirred (g.nodes.entry j) (s.nodes.entry j) := by
  -- by the order: a combination whose children all kept their states keeps its own
  induction i using hg.ordered.induction with
  | step i ih =>
    obtain ⟨x, hx⟩ := Option.ne_none_iff_exists'.1 (hg.resolved i)
    cases hrule : x.rule with
    | simple simple =>
      have hsimple := Node.simple?_eq_some_iff.2 ⟨x, hx, hrule⟩
      obtain ⟨request, -, hafter, -, -⟩ := (hturned i).of_simple hsimple
      exact ⟨i, .refl, _, _, hsimple, hafter, .inl hchange⟩
    | combination c =>
      have hchildren : (g.nodes.entry i).children = c.children := children_of_combination hx hrule
      obtain ⟨hstate, -⟩ := (hturned i).of_combination hx hrule
      obtain ⟨child, hchild, hne⟩ : ∃ child ∈ c.children,
          (s.nodes.entry child).aggregate ≠ (g.nodes.entry child).aggregate := by
        by_contra! hsame
        refine hchange ?_
        rw [hstate, hg.aggregate_combination hx hrule]
        refine congrArg (combine c.operator) (List.map_congr_left fun child hchild => ?_)
        rw [(hturned child).shows, hsame child hchild]
      rw [← hchildren] at hchild
      obtain ⟨j, hreach, hstirred⟩ := ih child hchild hne
      exact ⟨j, .head hchild hreach, hstirred⟩

/-- **What a pass signals.** Where children of asked nodes are asked, a slice change is signalled of
exactly the asked conditions that depend on a stirred simple condition, or are one. -/
theorem sliceChanged_iff (hclosed : g.Closed) (i : Fin n) :
    (s.cells.entry i).sliceChanged = true ↔ (g.nodes.entry i).sliced = true ∧
      ∃ j, g.Reaches i j ∧ Node.Stirred (g.nodes.entry j) (s.nodes.entry j) := by
  -- by the order: what is signalled of the children is known
  induction i using hg.ordered.induction with
  | step i ih =>
    obtain ⟨x, hx⟩ := Option.ne_none_iff_exists'.1 (hg.resolved i)
    cases hrule : x.rule with
    | simple simple =>
      have hsimple := Node.simple?_eq_some_iff.2 ⟨x, hx, hrule⟩
      rw [(hturned i).sliceChanged_simple_iff hsimple]
      simp only [Graph.reaches_iff_of_simple hsimple, exists_eq_left]
    | combination c =>
      have hchildren : (g.nodes.entry i).children = c.children := children_of_combination hx hrule
      obtain ⟨-, hsignal⟩ := (hturned i).of_combination hx hrule
      rw [hsignal, Bool.and_eq_true, Bool.or_eq_true, bne_iff_ne, List.any_eq_true]
      refine and_congr_right fun hsliced => ⟨?_, ?_⟩
      · rintro (hchange | ⟨child, hchild, hsignalled⟩)
        · exact exists_stirred hg hturned i hchange
        · rw [← hchildren] at hchild
          obtain ⟨-, j, hreach, hstirred⟩ := (ih child hchild).1 hsignalled
          exact ⟨j, .head hchild hreach, hstirred⟩
      · rintro ⟨j, hreach, hstirred⟩
        rcases Graph.reaches_iff.1 hreach with rfl | ⟨child, hchild, hbelow⟩
        · -- a combination is not stirred itself
          obtain ⟨simple, -, hsimple, -⟩ := hstirred
          exact nomatch (Node.simple?_of_combination hx hrule).symm.trans hsimple
        · have hasked := hclosed i hsliced child hchild
          exact .inr ⟨child, hchildren ▸ hchild,
            (ih child hchild).2 ⟨hasked, j, hbelow, hstirred⟩⟩

end Pass

end Sweep

end EventConditions
