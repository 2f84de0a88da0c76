import Mathlib.Logic.Relation
import EventConditions.Proofs.Graph.Coherence

/-!
# What a request for slice reports reaches

A request is passed on from a node to its children, and stops at a child that was asked before. So
it reaches exactly the nodes to which a chain of children leads that were not asked before
(`Graph.sliced_slice_iff`), whatever the graph. These are all the nodes below the requested one as
long as children of asked nodes are asked themselves (`Graph.Closed`), which passes and requests
keep.

Resolving does not keep it: nodes stay asked while their children change. A node that was asked
before it got its children hides them from later requests (`Graph.setSliced_stops_short`), while in
a graph that was resolved before any node was asked, every request reaches all that it should
(`Graph.setSliced_reaches`).
-/

namespace EventConditions

variable {n : Nat}

namespace Graph

/-- The node at `a` reads the one at `b`, which is not asked for slice reports. -/
def UnaskedChild (nodes : Table n (Node n)) (a b : Fin n) : Prop :=
  b ∈ (nodes.entry a).children ∧ (nodes.entry b).sliced = false

/-- A chain of children that are not asked leads from `a` down to `b`. -/
def UnaskedBelow (nodes : Table n (Node n)) : Fin n → Fin n → Prop :=
  Relation.ReflTransGen (UnaskedChild nodes)

/-! ## Asking one node -/

section Mark

variable {nodes : Table n (Node n)} {i a b j : Fin n}

theorem sliced_mark_iff :
    ((mark nodes i).entry j).sliced = true ↔ j = i ∨ (nodes.entry j).sliced = true := by
  by_cases hj : j = i
  · subst hj
    simp [mark, Node.setSliced]
  · rw [mark, Table.entry_put_ne _ hj]
    simp [hj]

theorem sliced_mark_eq_false_iff :
    ((mark nodes i).entry j).sliced = false ↔ j ≠ i ∧ (nodes.entry j).sliced = false := by
  rw [← Bool.not_eq_true, sliced_mark_iff, not_or, Bool.not_eq_true]

@[simp] theorem children_mark :
    ((mark nodes i).entry j).children = (nodes.entry j).children := by
  rw [← Node.children_outline, (sameButAsked_mark nodes i j).outline_eq, Node.children_outline]

theorem unaskedChild_mark_iff :
    UnaskedChild (mark nodes i) a b ↔ b ≠ i ∧ UnaskedChild nodes a b := by
  rw [UnaskedChild, UnaskedChild, children_mark, sliced_mark_eq_false_iff]
  exact and_left_comm

/-- What is below a node once another one is asked was below it before. -/
theorem UnaskedBelow.of_mark (h : UnaskedBelow (mark nodes i) a j) : UnaskedBelow nodes a j :=
  Relation.ReflTransGen.mono (fun _ _ hab => (unaskedChild_mark_iff.1 hab).2) _ _ h

/-- A chain that asking the node at `i` breaks leads to that node, or to something below one of its
children. -/
theorem UnaskedBelow.to_mark (h : UnaskedBelow nodes a j) :
    (a ≠ i ∧ UnaskedBelow (mark nodes i) a j) ∨ j = i ∨
      ∃ c ∈ (nodes.entry i).children, ((mark nodes i).entry c).sliced = false ∧
        UnaskedBelow (mark nodes i) c j := by
  induction h using Relation.ReflTransGen.head_induction_on with
  | refl =>
    by_cases hj : j = i
    · exact .inr (.inl hj)
    · exact .inl ⟨hj, .refl⟩
  | @head a b hab _ ih =>
    rcases ih with ⟨hb, hbelow⟩ | hrest
    · by_cases ha : a = i
      · subst ha
        exact .inr (.inr ⟨b, hab.1, sliced_mark_eq_false_iff.2 ⟨hb, hab.2⟩, hbelow⟩)
      · exact .inl ⟨ha, .head (unaskedChild_mark_iff.2 ⟨hb, hab⟩) hbelow⟩
    · exact .inr hrest

/-- Asking a node and what is then below its children reaches what was below the node. -/
theorem sliced_mark_or_below_iff :
    (((mark nodes i).entry j).sliced = true ∨
      ∃ c ∈ (nodes.entry i).children, ((mark nodes i).entry c).sliced = false ∧
        UnaskedBelow (mark nodes i) c j) ↔
      (nodes.entry j).sliced = true ∨ UnaskedBelow nodes i j := by
  rw [sliced_mark_iff]
  constructor
  · rintro ((rfl | hj) | ⟨c, hc, hunasked, hbelow⟩)
    · exact .inr .refl
    · exact .inl hj
    · exact .inr (.head ⟨hc, (sliced_mark_eq_false_iff.1 hunasked).2⟩ hbelow.of_mark)
  · rintro (hj | hbelow)
    · exact .inl (.inr hj)
    · rcases hbelow.to_mark (i := i) with ⟨hne, -⟩ | hj | hrest
      · exact absurd rfl hne
      · exact .inl (.inl hj)
      · exact .inr hrest

end Mark

/-! ## How far a request spreads -/

/-- A request that is to be passed to the pending nodes reaches exactly what is below those of them
that are not asked. -/
theorem sliced_spread_iff (nodes : Table n (Node n)) (pending : List (Fin n)) (j : Fin n) :
    ((spread nodes pending).entry j).sliced = true ↔ (nodes.entry j).sliced = true ∨
      ∃ c ∈ pending, (nodes.entry c).sliced = false ∧ UnaskedBelow nodes c j := by
  fun_induction spread nodes pending with
  | case1 => simp
  | case2 nodes i pending hi ih =>
    rw [ih]
    simp [hi]
  | case3 nodes i pending hi ih =>
    rw [Bool.not_eq_true] at hi
    rw [ih]
    constructor
    · rintro (hj | ⟨c, hc, hunasked, hbelow⟩)
      · exact (sliced_mark_or_below_iff.1 (.inl hj)).imp_right fun hbelow =>
          ⟨i, List.mem_cons_self, hi, hbelow⟩
      · rcases List.mem_append.1 hc with hc | hc
        · exact (sliced_mark_or_below_iff.1 (.inr ⟨c, hc, hunasked, hbelow⟩)).imp_right
            fun hbelow => ⟨i, List.mem_cons_self, hi, hbelow⟩
        · exact .inr ⟨c, List.mem_cons_of_mem i hc, (sliced_mark_eq_false_iff.1 hunasked).2,
            hbelow.of_mark⟩
    · rintro (hj | ⟨c, hc, hunasked, hbelow⟩)
      · exact .inl (sliced_mark_iff.2 (.inr hj))
      · rcases hbelow.to_mark (i := i) with ⟨hne, hbelow⟩ | hj | ⟨d, hd, hunasked', hbelow⟩
        · exact .inr ⟨c, List.mem_append_right _ ((List.mem_cons.1 hc).resolve_left hne),
            sliced_mark_eq_false_iff.2 ⟨hne, hunasked⟩, hbelow⟩
        · exact .inl (sliced_mark_iff.2 (.inl hj))
        · exact .inr ⟨d, List.mem_append_left _ hd, hunasked', hbelow⟩

/-- A request reaches exactly the nodes to which a chain of children leads that were not asked. -/
theorem sliced_slice_iff (g : Graph n) (i j : Fin n) :
    ((g.slice i).nodes.entry j).sliced = true ↔
      (g.nodes.entry j).sliced = true ∨ UnaskedBelow g.nodes i j := by
  rw [slice, sliced_spread_iff, sliced_mark_or_below_iff]

/-! ## Where requests reach all that they should -/

/-- The children of every node that was asked were asked. -/
def Closed (g : Graph n) : Prop :=
  ∀ i, (g.nodes.entry i).sliced = true → ∀ c ∈ (g.nodes.entry i).children,
    (g.nodes.entry c).sliced = true

variable {g g' : Graph n}

/-- What is below a node is reached from it. -/
theorem UnaskedBelow.reaches {i j : Fin n} (h : UnaskedBelow g.nodes i j) : g.Reaches i j :=
  Relation.ReflTransGen.mono (fun _ _ hab => hab.1) _ _ h

/-- In a closed graph a node that was not asked is below all from which it is reached. -/
theorem Closed.unaskedBelow (h : g.Closed) {i j : Fin n} (hreach : g.Reaches i j)
    (hj : (g.nodes.entry j).sliced = false) : UnaskedBelow g.nodes i j := by
  induction hreach with
  | refl => exact .refl
  | @tail b c _ hchild ih =>
    -- had the parent been asked, so had the child
    have hb : (g.nodes.entry b).sliced = false := by
      rw [← Bool.not_eq_true] at hj ⊢
      exact fun hb => hj (h b hb c hchild)
    exact (ih hb).tail ⟨hchild, hj⟩

/-- In a closed graph a request reaches all that it should. -/
theorem Closed.sliced_slice_iff (h : g.Closed) (i j : Fin n) :
    ((g.slice i).nodes.entry j).sliced = true ↔
      (g.nodes.entry j).sliced = true ∨ g.Reaches i j := by
  rw [Graph.sliced_slice_iff]
  constructor
  · exact Or.imp_right UnaskedBelow.reaches
  · rintro (hj | hreach)
    · exact .inl hj
    · cases hj : (g.nodes.entry j).sliced with
      | true => exact .inl rfl
      | false => exact .inr (h.unaskedBelow hreach hj)

/-- Whether a graph is closed is told by its outline and by who was asked. -/
theorem Closed.of_outline (h : g.Closed) (houtline : g'.outline = g.outline)
    (hsliced : ∀ i, (g'.nodes.entry i).sliced = (g.nodes.entry i).sliced) : g'.Closed := by
  intro i hi c hc
  rw [hsliced] at hi ⊢
  rw [entry_eq_of_outline houtline Node.children_outline] at hc
  exact h i hi c hc

/-- A request keeps a graph closed. -/
theorem Closed.slice (h : g.Closed) (i : Fin n) : (g.slice i).Closed := by
  intro a ha c hc
  rw [h.sliced_slice_iff] at ha ⊢
  rw [entry_eq_of_outline (outline_slice g i) Node.children_outline] at hc
  rcases ha with ha | ha
  · exact .inl (h a ha c hc)
  · exact .inr (ha.tail hc)

/-- A pass keeps a graph closed. -/
theorem Closed.pass (h : g.Closed) {e : Event} {verdicts : Array Verdict} {board board' : Board}
    {relevant : Fin n → Bool} (hpass : (g.pass e verdicts board relevant).result = .ok (g', board')) :
    g'.Closed :=
  h.of_outline (outline_pass hpass) (sliced_pass hpass)

/-- As long as no node is asked, the graph is closed. -/
theorem Closed.of_unasked (h : ∀ i, (g.nodes.entry i).sliced = false) : g.Closed := by
  intro i hi
  rw [h i] at hi
  cases hi

/-! ## Histories -/

/-- A request at an index inside the graph ends well. -/
theorem setSliced_eq_ok (g : Graph n) (i : Fin n) : g.setSliced i.val true = .ok (g.slice i) := by
  rw [setSliced, within, dif_pos i.isLt]
  rfl

/-- What a request yields, given how far it spreads below the requested node. -/
theorem setSliced_of_spread {i : Fin n} {nodes : Table n (Node n)}
    (h : spread (mark g.nodes i) (g.nodes.entry i).children = nodes) :
    g.setSliced i.val true = .ok { g with nodes } := by
  rw [setSliced_eq_ok, slice, h]

/-- No node was asked before the graph was last resolved, if it is resolved at all. -/
inductive AskedInTurn : Graph n → Prop
  | unresolved {g : Graph n} : g.Unresolved → AskedInTurn g
  | resolved {g g' : Graph n} {conditions matchers outcome} :
      (∀ i, (g.nodes.entry i).sliced = false) →
      (g.resolve conditions matchers).result = .ok (g', outcome) → AskedInTurn g'
  | pass {g g' : Graph n} {event verdicts board board' relevant} : AskedInTurn g →
      (g.pass event verdicts board relevant).result = .ok (g', board') → AskedInTurn g'
  | setSliced {g g' : Graph n} {index on} : AskedInTurn g → g.setSliced index on = .ok g' →
      AskedInTurn g'

theorem Unresolved.closed (h : g.Unresolved) : g.Closed := by
  intro i _ c hc
  rw [Node.children, h.2 i] at hc
  exact absurd hc List.not_mem_nil

/-- Where nodes are asked in turn, the graph is closed. -/
theorem AskedInTurn.closed (h : g.AskedInTurn) : g.Closed := by
  induction h with
  | unresolved hu => exact hu.closed
  | @resolved g g' conditions matchers outcome hnone hres =>
    obtain ⟨g₁, o, hres', -, hreset, -⟩ := g.resolve_spec conditions matchers
    obtain ⟨rfl, -⟩ := Prod.mk.inj (Except.ok.inj (hres'.symm.trans hres))
    refine .of_unasked fun i => ?_
    rw [Node.sliced_eq_of_reset (hreset i)]
    exact hnone i
  | pass _ hpass ih => exact ih.pass hpass
  | @setSliced g g' index on _ hset ih =>
    rw [Graph.setSliced, within] at hset
    split at hset
    · next hlt =>
      cases on with
      | true =>
        obtain rfl := Except.ok.inj hset
        exact ih.slice ⟨index, hlt⟩
      | false =>
        obtain rfl := Except.ok.inj hset
        exact ih
    · cases hset

/-- **What a request reaches.** In any graph, a request asks exactly the nodes to which a chain of
children leads that were not asked, and leaves all others as they were. If no node was asked before
the graph was last resolved, these are the requested node and all that are reached from it. -/
theorem setSliced_reaches (g : Graph n) (i : Fin n) :
    ∃ g', g.setSliced i.val true = .ok g' ∧
      (∀ j, (g'.nodes.entry j).sliced = true ↔
        (g.nodes.entry j).sliced = true ∨ UnaskedBelow g.nodes i j) ∧
      (g.AskedInTurn → ∀ j, (g'.nodes.entry j).sliced = true ↔
        (g.nodes.entry j).sliced = true ∨ g.Reaches i j) := by
  refine ⟨g.slice i, g.setSliced_eq_ok i, g.sliced_slice_iff i, fun h => ?_⟩
  exact h.closed.sliced_slice_iff i

/-- Three conditions, of which the second and the third are each the opposite of the one before. -/
def busyIdleManned : List Condition :=
  [⟨"busy", .simple { start := some "begin" }⟩, ⟨"idle", .combination .not ["busy"]⟩,
    ⟨"manned", .combination .not ["idle"]⟩]

/-- Their graph before it is resolved, where `idle` may have been asked. -/
def busyIdleMannedFresh (idleAsked : Bool) : Graph 3 where
  nodes := #v[{ name := "busy", index := 0 }, { name := "idle", index := 1, sliced := idleAsked },
    { name := "manned", index := 2 }]

/-- Their graph once resolved, with the given nodes asked. -/
def busyIdleMannedAsked (busy idle manned : Bool) : Graph 3 where
  nodes := #v[
    { name := "busy"
      index := 0
      sliced := busy
      resolved? := some {
        rule := .simple { start := some 0 }
        used := ⟨[0]⟩
        aggregate := .unknown } },
    { name := "idle"
      index := 1
      sliced := idle
      resolved? := some {
        rule := .combination { operator := .not, children := [0] }
        used := ⟨[0]⟩
        aggregate := .unknown } },
    { name := "manned"
      index := 2
      sliced := manned
      resolved? := some {
        rule := .combination { operator := .not, children := [1] }
        used := ⟨[0]⟩
        aggregate := .unknown } }]
  order := [0, 1, 2]

/-- Where no condition was asked before, a request for `manned` is passed on to the other two. -/
theorem setSliced_manned : (busyIdleMannedAsked false false false).setSliced 2 true =
    .ok (busyIdleMannedAsked true true true) := by
  refine setSliced_of_spread (i := 2) ?_
  -- on to `idle`, and from there to `busy`
  exact (spread_of_unsliced rfl).trans ((spread_of_unsliced rfl).trans (spread_nil _))

theorem setSliced_reaches_busyIdleManned :
    let g := busyIdleMannedAsked false false false
    g.AskedInTurn ∧ g.setSliced 2 true = .ok (busyIdleMannedAsked true true true) ∧
      ∀ j, ((busyIdleMannedAsked true true true).nodes.entry j).sliced = true ↔
        (g.nodes.entry j).sliced = true ∨ g.Reaches 2 j := by
  intro g
  have hresolved : ((busyIdleMannedFresh false).resolve busyIdleManned ⟨[("begin", 0)]⟩).result =
      .ok (g, .ok ()) := by
    with_unfolding_all rfl
  have hturn : g.AskedInTurn := .resolved (by decide) hresolved
  obtain ⟨g', hset, -, hreaches⟩ := setSliced_reaches g 2
  obtain rfl := Except.ok.inj (setSliced_manned.symm.trans hset)
  exact ⟨hturn, setSliced_manned, hreaches hturn⟩

/-- A request need not reach all that it should: where `idle` was asked before it was resolved, a
request for `manned` stops there and leaves out `busy`. -/
theorem setSliced_stops_short :
    let g := busyIdleMannedAsked false true false
    (ofConditions busyIdleManned 800).result = .ok (busyIdleMannedFresh false) ∧
      Reached (busyIdleMannedFresh false) g (some (busyIdleManned, ⟨[("begin", 0)]⟩)) ∧
      g.setSliced 2 true = .ok (busyIdleMannedAsked false true true) ∧ g.Reaches 2 0 ∧
      ((busyIdleMannedAsked false true true).nodes.entry 0).sliced = false := by
  intro g
  have hasked : (busyIdleMannedFresh false).setSliced 1 true = .ok (busyIdleMannedFresh true) :=
    setSliced_of_spread (i := 1) (spread_nil _)
  have hresolved : ((busyIdleMannedFresh true).resolve busyIdleManned ⟨[("begin", 0)]⟩).result =
      .ok (g, .ok ()) := by
    with_unfolding_all rfl
  have hset : g.setSliced 2 true = .ok (busyIdleMannedAsked false true true) :=
    setSliced_of_spread (i := 2) ((spread_of_sliced rfl).trans (spread_nil _))
  have hreaches : g.Reaches 2 0 :=
    .head (b := 1) List.mem_cons_self (.single List.mem_cons_self)
  exact ⟨rfl, .resolved (.setSliced .fresh hasked) hresolved, hset, hreaches, rfl⟩

end Graph

end EventConditions
