import Mathlib.Data.List.Forall2
import EventConditions.Proofs.Resolution.Walk

/-!
# What resolving leaves behind

From any nodes on, a walk only finishes nodes: `Progress.Grows`. The ones it finished, listed in
`Progress.order`, have the rule of their condition with names replaced by indices, and come behind
their children: `Progress.Sound`. Both hold whether the walk succeeds or fails, and
`Resolver.advance` is described by them. A walk from unresolved nodes that succeeds resolves every
node.
-/

namespace EventConditions

variable {n : Nat}

@[simp] theorem Progress.order_finish (p : Progress n) (i : Fin n) (x : Resolved n) :
    (p.finish i x).order = p.order ++ [i] := rfl

@[simp] theorem Progress.resolved?_finish_self (p : Progress n) (i : Fin n) (x : Resolved n) :
    ((p.finish i x).nodes.entry i).resolved? = some x := by
  simp [finish]

theorem Progress.entry_finish_ne (p : Progress n) {i j : Fin n} (h : j ≠ i) (x : Resolved n) :
    (p.finish i x).nodes.entry j = p.nodes.entry j :=
  Table.entry_put_ne _ h _

namespace Resolver

/-- A matcher is resolved exactly when it is absent or its name has an index. -/
theorem matcher_eq_ok_iff {r : Resolver} {condition : String} {name? : Option String}
    {index? : Option Nat} :
    (r.matcher condition name?).result = .ok index? ↔
      name?.map r.matcherIndex.get? = index?.map some := by
  cases name? with
  | none => cases index? <;> simp [matcher]
  | some name =>
    cases hget : r.matcherIndex.get? name with
    | none => cases index? <;> simp [matcher, hget]
    | some i => cases index? <;> simp [matcher, hget]

/-- A simple condition is resolved exactly when its matchers are, and then it holds no slice and is
in its initial state. -/
theorem simple_eq_ok_iff {r : Resolver} {name : String} {spec : SimpleSpec} {x : Resolved n} :
    (r.simple name spec).result = .ok x ↔ ∃ start stop stopAll,
      spec.start.map r.matcherIndex.get? = start.map some ∧
      spec.stop.map r.matcherIndex.get? = stop.map some ∧
      spec.stopAll.map r.matcherIndex.get? = stopAll.map some ∧
      x = {
        rule := .simple {
          start, stop, stopAll
          countNesting := spec.countNesting
          dimensions := spec.dimensions
          initial := spec.initial
          maxSlices := r.maxSlices }
        used := .ofList ([start, stop, stopAll].filterMap id)
        aggregate := spec.initial.state } := by
  constructor
  · intro h
    obtain ⟨start, hstart, h⟩ := Logged.result_bind_eq_ok_iff.1 h
    obtain ⟨stop, hstop, h⟩ := Logged.result_bind_eq_ok_iff.1 h
    obtain ⟨stopAll, hstopAll, h⟩ := Logged.result_bind_eq_ok_iff.1 h
    cases h
    exact ⟨start, stop, stopAll, matcher_eq_ok_iff.1 hstart, matcher_eq_ok_iff.1 hstop,
      matcher_eq_ok_iff.1 hstopAll, rfl⟩
  · rintro ⟨start, stop, stopAll, hstart, hstop, hstopAll, rfl⟩
    rw [simple, Logged.result_bind_of_ok (matcher_eq_ok_iff.2 hstart),
      Logged.result_bind_of_ok (matcher_eq_ok_iff.2 hstop),
      Logged.result_bind_of_ok (matcher_eq_ok_iff.2 hstopAll)]
    rfl

/-- The child of the given name is resolved, as given. -/
def Found (r : Resolver) (nodes : Table n (Node n)) (name : String)
    (child : Fin n × Resolved n) : Prop :=
  r.conditionIndex.get? name = some child.1.val ∧
    (nodes.entry child.1).resolved? = some child.2

/-- Found children are resolved as found. -/
theorem resolved_of_found {r : Resolver} {nodes : Table n (Node n)} {names : List String}
    {children : List (Fin n × Resolved n)} (h : List.Forall₂ (r.Found nodes) names children)
    {child : Fin n × Resolved n} (hc : child ∈ children) :
    (nodes.entry child.1).resolved? = some child.2 := by
  induction h with
  | nil => exact absurd hc List.not_mem_nil
  | cons hf _ ih =>
    rcases List.mem_cons.1 hc with rfl | hc
    · exact hf.2
    · exact ih hc

/-- Every name looked for is found. -/
theorem exists_found {r : Resolver} {nodes : Table n (Node n)} {names : List String}
    {children : List (Fin n × Resolved n)} (h : List.Forall₂ (r.Found nodes) names children)
    {name : String} (hname : name ∈ names) : ∃ child ∈ children, r.Found nodes name child := by
  induction h with
  | nil => exact absurd hname List.not_mem_nil
  | @cons _ child _ children hf _ ih =>
    rcases List.mem_cons.1 hname with rfl | hname
    · exact ⟨child, List.mem_cons_self, hf⟩
    · obtain ⟨child', hmem, hf'⟩ := ih hname
      exact ⟨child', List.mem_cons_of_mem child hmem, hf'⟩

/-- What resolving a condition gives when its children are resolved as in `nodes`. -/
inductive Gives (r : Resolver) (nodes : Table n (Node n)) (condition : Condition) :
    Resolved n → Prop
  | simple {spec x} : condition.spec = .simple spec → condition.spec.defect? = none →
      (r.simple condition.name spec).result = .ok x → Gives r nodes condition x
  | combination {operator names children} : condition.spec = .combination operator names →
      condition.spec.defect? = none → List.Forall₂ (r.Found nodes) names children →
      Gives r nodes condition (.combination operator children)

end Resolver

/-- Between two points of resolving, resolved nodes stay as they are, nodes change in nothing but
being resolved, and the finished ones are added to the order. -/
structure Progress.Grows (p p' : Progress n) : Prop where
  resolved : ∀ {j x}, (p.nodes.entry j).resolved? = some x → (p'.nodes.entry j).resolved? = some x
  reset : ∀ j, (p'.nodes.entry j).reset = (p.nodes.entry j).reset
  order : ∃ new, p'.order = p.order ++ new

namespace Progress.Grows

variable {p p₁ p₂ : Progress n}

theorem refl (p : Progress n) : p.Grows p :=
  ⟨fun h => h, fun _ => rfl, [], by simp⟩

theorem trans (h₁ : p.Grows p₁) (h₂ : p₁.Grows p₂) : p.Grows p₂ := by
  obtain ⟨new₁, ho₁⟩ := h₁.order
  obtain ⟨new₂, ho₂⟩ := h₂.order
  refine ⟨fun h => h₂.resolved (h₁.resolved h), fun j => (h₂.reset j).trans (h₁.reset j), ?_⟩
  exact ⟨new₁ ++ new₂, by rw [ho₂, ho₁, List.append_assoc]⟩

/-- Finishing a node that was not resolved changes no other one. -/
theorem finish {i : Fin n} (h : (p.nodes.entry i).resolved? = none) (x : Resolved n) :
    p.Grows (p.finish i x) := by
  refine ⟨?_, ?_, [i], rfl⟩
  · intro j y hy
    have hj : j ≠ i := by
      rintro rfl
      rw [h] at hy
      cases hy
    rw [p.entry_finish_ne hj]
    exact hy
  · intro j
    by_cases hj : j = i
    · subst hj
      simp [Progress.finish, Node.reset]
    · rw [p.entry_finish_ne hj]

/-- Children that were found stay found. -/
theorem found {r : Resolver} (h : p.Grows p₁) {names : List String}
    {children : List (Fin n × Resolved n)}
    (hc : List.Forall₂ (r.Found p.nodes) names children) :
    List.Forall₂ (r.Found p₁.nodes) names children :=
  hc.imp fun _ _ hf => ⟨hf.1, h.resolved hf.2⟩

/-- What resolving gave is still what it gives. -/
theorem gives {r : Resolver} (h : p.Grows p₁) {condition : Condition} {x : Resolved n}
    (hx : r.Gives p.nodes condition x) : r.Gives p₁.nodes condition x := by
  cases hx with
  | simple hspec hd hx => exact .simple hspec hd hx
  | combination hspec hd hc => exact .combination hspec hd (h.found hc)

end Progress.Grows

/-- The nodes finished since `start` are the ones in the order, each once; each is what resolving
its condition gives and comes behind its children, those aside that were resolved at the start. -/
structure Progress.Sound (r : Resolver) (conditions : Table n Condition)
    (start : Table n (Node n)) (p : Progress n) : Prop where
  known : ∀ {j x}, (start.entry j).resolved? = some x → (p.nodes.entry j).resolved? = some x
  nodup : p.order.Nodup
  mem_order : ∀ j, j ∈ p.order ↔
    (start.entry j).resolved? = none ∧ (p.nodes.entry j).resolved? ≠ none
  gives : ∀ j ∈ p.order, ∃ x, (p.nodes.entry j).resolved? = some x ∧
    r.Gives p.nodes (conditions.entry j) x
  children : ∀ before j after, p.order = before ++ j :: after →
    ∀ c ∈ (p.nodes.entry j).children, (start.entry c).resolved? = none → c ∈ before

namespace Progress

/-- The children of what resolving gives are resolved. -/
theorem resolved_of_gives {r : Resolver} {nodes : Table n (Node n)} {condition : Condition}
    {x : Resolved n} (hx : r.Gives nodes condition x) {c : Fin n} (hc : c ∈ x.rule.children) :
    (nodes.entry c).resolved? ≠ none := by
  cases hx with
  | simple _ _ hs =>
    obtain ⟨_, _, _, -, -, -, rfl⟩ := Resolver.simple_eq_ok_iff.1 hs
    cases hc
  | combination _ _ hf =>
    obtain ⟨child, hchild, rfl⟩ := List.mem_map.1 hc
    rw [Resolver.resolved_of_found hf hchild]
    simp

variable {r : Resolver} {conditions : Table n Condition} {start : Table n (Node n)}
  {p p' : Progress n}

/-- Nothing is finished at the start. -/
theorem Sound.begin : Sound r conditions start { nodes := start } where
  known h := h
  nodup := List.nodup_nil
  mem_order j := by
    constructor
    · intro h
      cases h
    · rintro ⟨h, h'⟩
      exact absurd h h'
  gives j h := by cases h
  children before j after h := by simp at h

/-- Finishing a node whose children are resolved keeps what the order says. -/
theorem Sound.finish (h : Sound r conditions start p) {i : Fin n} {x : Resolved n}
    (hi : (p.nodes.entry i).resolved? = none) (hx : r.Gives p.nodes (conditions.entry i) x) :
    Sound r conditions start (p.finish i x) := by
  -- the node is new to the order and was not resolved at the start
  have hgrow : p.Grows (p.finish i x) := .finish hi x
  have hout : i ∉ p.order := fun hmem => ((h.mem_order i).1 hmem).2 hi
  have hself : ((p.finish i x).nodes.entry i).resolved? = some x := p.resolved?_finish_self i x
  have hs : (start.entry i).resolved? = none := by
    by_contra hne
    obtain ⟨y, hy⟩ := Option.ne_none_iff_exists'.1 hne
    rw [h.known hy] at hi
    cases hi
  refine ⟨fun hy => hgrow.resolved (h.known hy), ?_, ?_, ?_, ?_⟩
  · rw [order_finish, List.nodup_append]
    refine ⟨h.nodup, by simp, ?_⟩
    rintro a ha b hb rfl
    rw [List.mem_singleton] at hb
    exact hout (hb ▸ ha)
  · intro j
    rw [order_finish, List.mem_append, List.mem_singleton]
    by_cases hj : j = i
    · subst hj
      simp [hs, hself]
    · rw [p.entry_finish_ne hj, h.mem_order j]
      simp [hj]
  · intro j hj
    rw [order_finish, List.mem_append, List.mem_singleton] at hj
    rcases hj with hj | rfl
    · obtain ⟨y, hy, hg⟩ := h.gives j hj
      exact ⟨y, hgrow.resolved hy, hgrow.gives hg⟩
    · exact ⟨x, hself, hgrow.gives hx⟩
  · intro before j after ho c hc hcs
    rw [order_finish] at ho
    -- the new node is the last of the order, so a split of the order is at it or before it
    rcases List.eq_nil_or_concat after with rfl | ⟨after', last, rfl⟩
    · -- `j` is the node just finished
      obtain ⟨rfl, hj⟩ := List.append_inj' ho rfl
      obtain rfl : i = j := by simpa using hj
      have hne := resolved_of_gives hx (c := c) (by simpa [Node.children, hself] using hc)
      exact (h.mem_order c).2 ⟨hcs, hne⟩
    · have ho' : p.order ++ [i] = (before ++ j :: after') ++ [last] := by simpa using ho
      obtain ⟨hp, -⟩ := List.append_inj' ho' rfl
      have hj : j ≠ i := by
        rintro rfl
        exact hout (by simp [hp])
      rw [p.entry_finish_ne hj] at hc
      exact h.children before j after' hp c hc hcs

end Progress

namespace Resolver

/-- A walk along `path` finishes nodes soundly and leaves those on the path alone. -/
structure Leaves (r : Resolver) (conditions : Table n Condition) (start : Table n (Node n))
    (path : List (Fin n)) (p p' : Progress n) : Prop where
  sound : p'.Sound r conditions start
  grows : p.Grows p'
  path : ∀ j ∈ path, p'.nodes.entry j = p.nodes.entry j

variable {r : Resolver} {conditions : Table n Condition} {start : Table n (Node n)}

theorem Leaves.refl {path : List (Fin n)} {p : Progress n} (h : p.Sound r conditions start) :
    Leaves r conditions start path p p :=
  ⟨h, .refl p, fun _ _ => rfl⟩

/-- Finishing the node behind the path, once its children are settled, still leaves the path alone.
-/
theorem Leaves.finish {path : List (Fin n)} {i : Fin n} {p p' : Progress n} {x : Resolved n}
    (h : Leaves r conditions start (i :: path) p p') (off : i ∉ path)
    (hi : (p.nodes.entry i).resolved? = none)
    (hx : r.Gives p'.nodes (conditions.entry i) x) :
    Leaves r conditions start path p (p'.finish i x) := by
  have hi' : (p'.nodes.entry i).resolved? = none := by
    rw [h.path i List.mem_cons_self]
    exact hi
  refine ⟨h.sound.finish hi' hx, h.grows.trans (.finish hi' x), ?_⟩
  intro j hj
  have hne : j ≠ i := by
    rintro rfl
    exact off hj
  rw [p'.entry_finish_ne hne]
  exact h.path j (List.mem_cons_of_mem i hj)

/-- Every walk finishes nodes soundly. A condition it settled is resolved as its outcome says, and
so are children. -/
theorem walk_leaves (r : Resolver) (conditions : Table n Condition) (start : Table n (Node n)) :
    r.Walk conditions
      (fun path i p p' o => p.Sound r conditions start →
        r.Leaves conditions start path p p' ∧
          ∀ x, o = .ok x → (p'.nodes.entry i).resolved? = some x)
      (fun i path names p p' o => p.Sound r conditions start →
        r.Leaves conditions start (i :: path) p p' ∧
          ∀ children, o = .ok children → List.Forall₂ (r.Found p'.nodes) names children) where
  known _ hx h := ⟨.refl h, fun _ ho => by cases ho; exact hx⟩
  defective _ _ _ h := ⟨.refl h, fun _ ho => by cases ho⟩
  matched off hi hspec hd hx h := by
    refine ⟨(Leaves.refl h).finish off hi (.simple hspec hd hx), ?_⟩
    intro y ho
    cases ho
    exact Progress.resolved?_finish_self _ _ _
  unmatched _ _ _ _ _ h := ⟨.refl h, fun _ ho => by cases ho⟩
  combined off hi hspec hd hchildren h := by
    obtain ⟨hleaves, hfound⟩ := hchildren h
    refine ⟨hleaves.finish off hi (.combination hspec hd (hfound _ rfl)), ?_⟩
    intro y ho
    cases ho
    exact Progress.resolved?_finish_self _ _ _
  broken off _ _ _ hchildren h := by
    obtain ⟨⟨hsound, hgrows, hpath⟩, -⟩ := hchildren h
    refine ⟨⟨hsound, hgrows, fun j hj => hpath j (List.mem_cons_of_mem _ hj)⟩, ?_⟩
    exact fun _ ho => by cases ho
  done _ h := ⟨.refl h, fun _ ho => by cases ho; exact .nil⟩
  unknown _ _ h := ⟨.refl h, fun _ ho => by cases ho⟩
  cycle _ _ _ h := ⟨.refl h, fun _ ho => by cases ho⟩
  failed _ _ _ hchild h := ⟨(hchild h).1, fun _ ho => by cases ho⟩
  next := by
    intro i path name rest p p₁ p₂ x o child _ hname _ hchild hrest h
    obtain ⟨hleaves, hx⟩ := hchild h
    obtain ⟨hleaves', hfound⟩ := hrest hleaves.sound
    refine ⟨⟨hleaves'.sound, hleaves.grows.trans hleaves'.grows, ?_⟩, ?_⟩
    · intro j hj
      rw [hleaves'.path j hj, hleaves.path j hj]
    · intro children ho
      cases o with
      | error e => cases ho
      | ok others =>
        cases ho
        exact .cons ⟨hname, hleaves'.grows.resolved (hx x rfl)⟩ (hfound others rfl)

/-- Settling conditions one after the other finishes nodes soundly, and all of the listed ones
unless it fails. -/
theorem settleAll_leaves (inside : r.Inside n) (roots : List (Fin n)) (p : Progress n)
    (h : p.Sound r conditions start) :
    ∃ p' o, (r.settleAll conditions roots p).result = .ok (p', o) ∧
      r.Leaves conditions start [] p p' ∧
      (o = .ok () → ∀ i ∈ roots, (p'.nodes.entry i).resolved? ≠ none) := by
  obtain ⟨p', o, hres, hall⟩ := (walk_leaves r conditions start).settleAll inside
    (fun roots p p' o => p.Sound r conditions start → r.Leaves conditions start [] p p' ∧
      (o = .ok () → ∀ i ∈ roots, (p'.nodes.entry i).resolved? ≠ none))
    (fun p h => ⟨.refl h, fun _ i hi => by cases hi⟩)
    (fun i rest p p' e hpost h => ⟨(hpost h).1, fun ho => by cases ho⟩)
    (by
      intro i rest p p₁ p₂ x o hpost hrest h
      obtain ⟨hleaves, hx⟩ := hpost h
      obtain ⟨hleaves', hok⟩ := hrest hleaves.sound
      refine ⟨⟨hleaves'.sound, hleaves.grows.trans hleaves'.grows, fun _ hj => by cases hj⟩, ?_⟩
      intro ho j hj
      rcases List.mem_cons.1 hj with rfl | hj
      · rw [hleaves'.grows.resolved (hx x rfl)]
        simp
      · exact hok ho j hj)
    roots p
  exact ⟨p', o, hres, hall h⟩

/-- Nothing keeps nodes and conditions from belonging together exactly when each node has the name
of its condition and the position that both its own index and the name index give. -/
theorem misfit?_eq_none_iff {r : Resolver} {slot : Nat} {nodes : List (Node n)}
    {conditions : List Condition} :
    r.misfit? slot nodes conditions = none ↔
      ∀ k node condition, nodes[k]? = some node → conditions[k]? = some condition →
        node.name = condition.name ∧ node.index = slot + k ∧
          r.conditionIndex.get? condition.name = some (slot + k) := by
  induction nodes generalizing slot conditions with
  | nil => simp [misfit?]
  | cons node nodes ih =>
    cases conditions with
    | nil => simp [misfit?]
    | cons condition conditions =>
      rw [misfit?]
      constructor
      · intro h k node' condition' hn hc
        split at h
        · cases h
        · next hname =>
          split at h
          · cases h
          · next hslot =>
            cases k with
            | zero =>
              cases hn
              cases hc
              simpa [not_or] using And.intro hname hslot
            | succ k =>
              have := ih.1 h k node' condition' hn hc
              rwa [show slot + 1 + k = slot + (k + 1) by omega] at this
      · intro h
        obtain ⟨hname, hindex, hget⟩ := h 0 node condition rfl rfl
        rw [if_neg (not_not.2 hname), if_neg (by simp [hindex, hget])]
        refine ih.2 fun k node' condition' hn hc => ?_
        have := h (k + 1) node' condition' hn hc
        rwa [show slot + (k + 1) = slot + 1 + k by omega] at this

/-- The conditions are laid out one per node exactly when there are as many and each belongs to its
node. -/
theorem layout_eq_ok_iff {nodes : Table n (Node n)} :
    r.layout nodes = .ok conditions ↔ r.conditions = conditions.toList ∧
      ∀ i, (nodes.entry i).name = (conditions.entry i).name ∧ (nodes.entry i).index = i.val ∧
        r.conditionIndex.get? (conditions.entry i).name = some i.val := by
  constructor
  · intro h
    rw [layout] at h
    split at h
    · next hsize =>
      split at h
      · cases h
      · next hfit =>
        cases h
        have hlist : r.conditions = Vector.toList ⟨r.conditions.toArray, hsize⟩ := by simp
        refine ⟨hlist, fun i => ?_⟩
        have := misfit?_eq_none_iff.1 hfit i.val _ _
          (Table.getElem?_toList_eq_some_iff.2 ⟨i.isLt, rfl⟩)
          (by rw [hlist]; exact Table.getElem?_toList_eq_some_iff.2 ⟨i.isLt, rfl⟩)
        rwa [Nat.zero_add] at this
    · cases h
  · rintro ⟨hlist, hfit⟩
    have hsize : r.conditions.toArray.size = n := by simp [hlist]
    have hnone : r.misfit? 0 nodes.toList r.conditions = none := by
      refine misfit?_eq_none_iff.2 fun k node condition hn hc => ?_
      rw [hlist] at hc
      obtain ⟨hk, rfl⟩ := Table.getElem?_toList_eq_some_iff.1 hn
      obtain ⟨-, rfl⟩ := Table.getElem?_toList_eq_some_iff.1 hc
      simpa using hfit ⟨k, hk⟩
    rw [layout, dif_pos hsize, hnone]
    refine congrArg Except.ok (Table.ext_entry fun i => ?_)
    simp [Table.entry, hlist]

/-- Settling every node never ends in a fault. If the conditions do not belong to the nodes, nothing
happens; if they do, nodes are finished soundly, and all of them unless it fails. -/
theorem advance_leaves (inside : r.Inside n) (nodes : Table n (Node n)) :
    ∃ p o, (r.advance nodes).result = .ok (p, o) ∧
      ((∃ e, r.layout nodes = .error e ∧ p = { nodes } ∧ o = .error e) ∨
        ∃ conditions, r.layout nodes = .ok conditions ∧
          r.Leaves conditions nodes [] { nodes } p ∧
          (o = .ok () → ∀ i, (p.nodes.entry i).resolved? ≠ none)) := by
  rw [advance]
  split
  · next e he => exact ⟨_, _, rfl, .inl ⟨e, he, rfl, rfl⟩⟩
  · next conditions hlayout =>
    have hbegin : Progress.Sound r conditions nodes { nodes } := .begin
    obtain ⟨p, o, hres, hleaves, hall⟩ := settleAll_leaves inside (List.finRange n) { nodes } hbegin
    refine ⟨p, o, hres, .inr ⟨conditions, hlayout, hleaves, fun ho i => ?_⟩⟩
    exact hall ho i (List.mem_finRange i)

end Resolver

end EventConditions
