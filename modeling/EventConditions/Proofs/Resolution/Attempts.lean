import EventConditions.Proofs.Graph.Resolved
import EventConditions.Proofs.Resolution.Blame
import EventConditions.Proofs.Resolution.Markers

/-!
# Attempts at resolving

The same nodes may be resolved in several attempts, each with other conditions, other matchers and
another name index. What an attempt finished before it failed stays resolved, and the next one
settles only the rest. However the attempts ended, the resolved nodes can be lined up with children
first (`Lined`), because an attempt puts what it finished behind what was finished before
(`Lined.append`).

`Resumed` is the history of a schedule with its markers, `Tried` that of the nodes alone.
-/

namespace EventConditions

variable {n : Nat}

/-- Unresolved nodes of the given names, numbered in order. -/
def newNodes (names : Table n String) : Table n (Node n) :=
  Vector.ofFn fun i => { name := names.entry i, index := i.val }

@[simp] theorem entry_newNodes (names : Table n String) (i : Fin n) :
    (newNodes names).entry i = { name := names.entry i, index := i.val } := by
  simp [newNodes, Table.entry]

/-- A node is told by what resolving gave and by the rest. -/
theorem Node.eq_of_reset {a b : Node n} (h : a.reset = b.reset)
    (hresolved : a.resolved? = b.resolved?) : a = b := by
  obtain ⟨_, _, _, _⟩ := a
  obtain ⟨_, _, _, _⟩ := b
  cases hresolved
  cases h
  rfl

/-- A node that is not resolved is its own reset. -/
theorem Node.reset_eq_self {node : Node n} (h : node.resolved? = none) : node.reset = node :=
  eq_of_reset rfl h.symm

/-- A walk leaves resolved nodes as they are. -/
theorem Progress.Grows.entry_eq {p p' : Progress n} (h : p.Grows p') {i : Fin n}
    (hi : (p.nodes.entry i).resolved? ≠ none) : p'.nodes.entry i = p.nodes.entry i := by
  obtain ⟨x, hx⟩ := Option.ne_none_iff_exists'.1 hi
  exact Node.eq_of_reset (h.reset i) ((h.resolved hx).trans hx.symm)

/-- The nodes in `order` are the resolved ones, each once and behind its children. They use what
their own rules read and what their children use. -/
structure Lined (nodes : Table n (Node n)) (order : List (Fin n)) : Prop where
  nodup : order.Nodup
  mem : ∀ i, i ∈ order ↔ (nodes.entry i).resolved? ≠ none
  children : ∀ before i after, order = before ++ i :: after →
    ∀ c ∈ (nodes.entry i).children, c ∈ before
  used : ∀ i ∈ order, ∀ m, m ∈ (nodes.entry i).used ↔ m ∈ (nodes.entry i).reads ∨
    ∃ c ∈ (nodes.entry i).children, m ∈ (nodes.entry c).used

namespace Lined

variable {nodes nodes' : Table n (Node n)} {order : List (Fin n)}

/-- Of unresolved nodes there is nothing to line up. -/
theorem nil (h : ∀ i, (nodes.entry i).resolved? = none) : Lined nodes [] where
  nodup := List.nodup_nil
  mem i := by simp [h i]
  children before i after ho := by simp at ho
  used i hi := by cases hi

/-- The children of a node in the order are in the order. -/
theorem mem_of_child (h : Lined nodes order) {i c : Fin n} (hi : i ∈ order)
    (hc : c ∈ (nodes.entry i).children) : c ∈ order := by
  obtain ⟨before, after, rfl⟩ := List.append_of_mem hi
  exact List.mem_append_left _ (h.children before i after rfl c hc)

/-- What a walk finishes goes behind what was there when it began. -/
theorem append {r : Resolver} {conditions : Table n Condition} {p : Progress n}
    (h : Lined nodes order) (hwalk : r.Leaves conditions nodes [] { nodes } p) :
    Lined p.nodes (order ++ p.order) := by
  have hsound := hwalk.sound
  have hkept : ∀ i ∈ order, p.nodes.entry i = nodes.entry i := fun i hi =>
    hwalk.grows.entry_eq ((h.mem i).1 hi)
  refine ⟨?_, fun i => ?_, ?_, ?_⟩
  · refine List.nodup_append.2 ⟨h.nodup, hsound.nodup, fun i hi j hj => ?_⟩
    rintro rfl
    exact (h.mem i).1 hi ((hsound.mem_order i).1 hj).1
  · rw [List.mem_append, hsound.mem_order]
    by_cases hi : i ∈ order
    · simp [hi, hkept i hi, (h.mem i).1 hi]
    · have hnone : (nodes.entry i).resolved? = none := by simpa [hi] using h.mem i
      simp [hi, hnone]
  · intro before i after ho c hc
    rcases List.append_eq_append_iff.1 ho with ⟨mid, rfl, hmid⟩ | ⟨_ | ⟨j, mid⟩, hmid, hrest⟩
    · -- finished by the walk: a child was there before, or the walk finished it earlier
      rw [List.mem_append, h.mem c]
      by_cases hnone : (nodes.entry c).resolved? = none
      · exact .inr (hsound.children mid i after hmid c hc hnone)
      · exact .inl hnone
    · -- the first that the walk finished
      rw [List.append_nil] at hmid
      subst hmid
      rw [h.mem c]
      intro hnone
      exact absurd (hsound.children [] i after hrest.symm c hc hnone) List.not_mem_nil
    · -- there before
      obtain ⟨rfl, -⟩ := List.cons.inj hrest
      rw [hkept i (by simp [hmid])] at hc
      exact h.children before i mid hmid c hc
  · intro i hi m
    rcases List.mem_append.1 hi with hi | hi
    · rw [hkept i hi, h.used i hi m]
      refine or_congr_right (exists_congr fun c => and_congr_right fun hc => ?_)
      rw [hkept c (h.mem_of_child hi hc)]
    · obtain ⟨x, hx, hgives⟩ := hsound.gives i hi
      simp only [Node.used, Node.reads, Node.children, hx]
      exact hgives.mem_used_iff

end Lined

namespace Resolver

variable {r : Resolver} {nodes : Table n (Node n)}

/-- Conditions that do not belong to the nodes are no cycle. -/
theorem misfit?_cause {slot : Nat} {nodes : List (Node n)} {conditions : List Condition} {e : Error}
    (h : r.misfit? slot nodes conditions = some e) (name : String) :
    e.cause ≠ .dependencyCycle name := by
  induction nodes generalizing slot conditions with
  | nil => simp [misfit?] at h
  | cons node nodes ih =>
    cases conditions with
    | nil => simp [misfit?] at h
    | cons condition conditions =>
      rw [misfit?] at h
      split at h
      · cases h
        simp
      · split at h
        · cases h
          simp
        · exact ih h

theorem layout_cause {e : Error} (h : r.layout nodes = .error e) (name : String) :
    e.cause ≠ .dependencyCycle name := by
  rw [layout] at h
  split at h
  · split at h
    · next hmisfit =>
      cases h
      exact misfit?_cause hmisfit name
    · cases h
  · cases h
    simp

/-- An error reports a cycle only if one of the given conditions depends on itself. -/
def Cyclic (r : Resolver) (nodes : Table n (Node n)) (e : Error) : Prop :=
  ∀ name, e.cause = .dependencyCycle name → ∃ conditions, r.layout nodes = .ok conditions ∧
    ∃ i, (conditions.entry i).name = name ∧ Relation.TransGen (r.DependsOn conditions) i i

/-- Settling every node from lined-up nodes on always ends, leaves lined-up nodes, and reports no
cycle that is not one. -/
theorem advance_lined (inside : r.Inside n) {order : List (Fin n)} (h : Lined nodes order) :
    ∃ p o, (r.advance nodes).result = .ok (p, o) ∧ Progress.Grows { nodes } p ∧
      Lined p.nodes (order ++ p.order) ∧
      (∀ i, i ∈ p.order ↔ (nodes.entry i).resolved? = none ∧ (p.nodes.entry i).resolved? ≠ none) ∧
      match o with
      | .ok () => ∀ i, (p.nodes.entry i).resolved? ≠ none
      | .error e => r.Cyclic nodes e := by
  obtain ⟨p, o, hres, ⟨e, hlayout, rfl, rfl⟩ | ⟨conditions, hlayout, hwalk, hall⟩⟩ :=
    advance_leaves inside nodes
  · refine ⟨_, _, hres, .refl _, by rwa [List.append_nil], fun i => ?_, fun name hcause => ?_⟩
    · constructor
      · intro hi
        cases hi
      · rintro ⟨hnone, hsome⟩
        exact absurd hnone hsome
    · exact absurd hcause (layout_cause hlayout name)
  · refine ⟨p, o, hres, hwalk.grows, h.append hwalk, hwalk.sound.mem_order, ?_⟩
    cases o with
    | ok u => exact hall rfl
    | error e =>
      intro name hcause
      obtain ⟨p', o', hres', hblames⟩ := advance_blames inside hlayout
      obtain ⟨-, rfl⟩ : p' = p ∧ o' = .error e := by
        rw [hres] at hres'
        cases hres'
        exact ⟨rfl, rfl⟩
      obtain ⟨i, hexplains⟩ := hblames e rfl
      exact ⟨conditions, hlayout, hexplains.cyclic hcause⟩

/-! ## Attempts with one schedule -/

/-- Nodes and scratch after attempts from new nodes and an empty schedule on. -/
inductive Resumed (names : Table n String) : Table n (Node n) → Scratch n → Prop
  | new : Resumed names (newNodes names) { schedule := { size := n } }
  | call {nodes scratch nodes' scratch' outcome} {r : Resolver} : Resumed names nodes scratch →
      r.Inside n → (r.resumeMarked nodes scratch).result = .ok (nodes', scratch', outcome) →
      Resumed names nodes' scratch'

/-- What every attempt keeps of new nodes and an empty schedule for them. -/
structure Kept (names : Table n String) (nodes : Table n (Node n)) (scratch : Scratch n) :
    Prop where
  /-- No marker is set. -/
  clear : scratch.marked = []
  size : scratch.schedule.size = n
  /-- The schedule lists the resolved nodes. -/
  lined : ∃ order, scratch.schedule.order = order.map Fin.val ∧ Lined nodes order
  /-- A node that is not resolved is new. -/
  unresolved : ∀ i, (nodes.entry i).resolved? = none → nodes.entry i = (newNodes names).entry i
  /-- Resolving is all that happens to a node. -/
  reset : ∀ i, (nodes.entry i).reset = (newNodes names).entry i

/-- What one attempt does to nodes and schedule. -/
structure Resumes (r : Resolver) (nodes nodes' : Table n (Node n)) (schedule schedule' : Schedule)
    (outcome : Except Error Unit) : Prop where
  /-- Resolved nodes stay as they are. -/
  resolved : ∀ i, (nodes.entry i).resolved? ≠ none → nodes'.entry i = nodes.entry i
  order : schedule.order <+: schedule'.order
  complete : outcome = .ok () → ∀ i, (nodes'.entry i).resolved? ≠ none
  cyclic : ∀ e, outcome = .error e → r.Cyclic nodes e

variable {names : Table n String}

theorem Kept.new : Kept names (newNodes names) { schedule := { size := n } } where
  clear := rfl
  size := rfl
  lined := ⟨[], rfl, .nil fun i => by simp⟩
  unresolved _ _ := rfl
  reset i := by simp [Node.reset]

/-- One more attempt ends, with or without an error, and keeps what the earlier ones kept. -/
theorem Kept.resume {scratch : Scratch n} (h : Kept names nodes scratch) (inside : r.Inside n) :
    ∃ nodes' schedule' outcome,
      (r.resume nodes scratch.schedule).result = .ok (nodes', schedule', outcome) ∧
      Kept names nodes' { schedule := schedule' } ∧
      r.Resumes nodes nodes' scratch.schedule schedule' outcome := by
  obtain ⟨order, horder, hlined⟩ := h.lined
  obtain ⟨p, o, hres, hgrows, hlined', -, ho⟩ := advance_lined inside hlined
  have hreset : ∀ i, (p.nodes.entry i).reset = (newNodes names).entry i := fun i =>
    (hgrows.reset i).trans (h.reset i)
  refine ⟨p.nodes, { scratch.schedule with order := scratch.schedule.order ++ p.order.map Fin.val },
    o, ?_, ?_, ?_⟩
  · rw [Resolver.resume, if_pos h.size, Logged.result_bind_of_ok hres]
    rfl
  · refine ⟨rfl, h.size, ⟨_, ?_, hlined'⟩, fun i hi => ?_, hreset⟩
    · rw [horder, List.map_append]
    · rw [← Node.reset_eq_self hi, hreset i]
  · refine ⟨fun i hi => hgrows.entry_eq hi, List.prefix_append _ _, ?_, ?_⟩
    · rintro rfl
      exact ho
    · rintro e rfl
      exact ho

/-- From clear markers on, an attempt with markers ends as one without. -/
theorem Kept.resumeMarked {nodes' : Table n (Node n)} {scratch : Scratch n} {schedule' : Schedule}
    {outcome : Except Error Unit} (h : Kept names nodes scratch)
    (hresume : (r.resume nodes scratch.schedule).result = .ok (nodes', schedule', outcome)) :
    (r.resumeMarked nodes scratch).result = .ok (nodes', { schedule := schedule' }, outcome) := by
  obtain ⟨schedule, marked⟩ := scratch
  obtain rfl : marked = [] := h.clear
  obtain ⟨_, hmarked, rfl⟩ := (resumeMarked_mirrors r nodes schedule).exists_ok hresume
  exact hmarked

theorem Resumed.kept {scratch : Scratch n} (h : Resumed names nodes scratch) :
    Kept names nodes scratch := by
  induction h with
  | new => exact .new
  | call _ inside hres ih =>
    obtain ⟨nodes', schedule', outcome, hresume, hkept, -⟩ := ih.resume inside
    rw [ih.resumeMarked hresume] at hres
    cases hres
    exact hkept

/-- **Attempts can be repeated.** From new nodes and an empty schedule on, after any attempts, with
whatever conditions and names and with whatever outcomes, one more attempt ends and leaves no marker
set. The schedule then lists the resolved nodes, each once and behind its children, and a node that
is not resolved is new. What was resolved or listed before stays so, an attempt that succeeds
resolves every node, and one that reports a cycle was given one. -/
theorem resumed_sound {scratch : Scratch n} (h : Resumed names nodes scratch)
    (inside : r.Inside n) :
    ∃ nodes' scratch' outcome,
      (r.resumeMarked nodes scratch).result = .ok (nodes', scratch', outcome) ∧
      (r.resume nodes scratch.schedule).result = .ok (nodes', scratch'.schedule, outcome) ∧
      Kept names nodes' scratch' ∧
      r.Resumes nodes nodes' scratch.schedule scratch'.schedule outcome := by
  obtain ⟨nodes', schedule', outcome, hresume, hkept, hresumes⟩ := h.kept.resume inside
  exact ⟨nodes', { schedule := schedule' }, outcome, h.kept.resumeMarked hresume, hresume, hkept,
    hresumes⟩

/-- What resolves three conditions of which `both` may read the other two. -/
def turnstile (both begun ended : Spec) (matchers : List String) : Resolver where
  conditions := [⟨"both", both⟩, ⟨"begun", begun⟩, ⟨"ended", ended⟩]
  conditionIndex := .ofNames ["both", "begun", "ended"]
  matcherIndex := .ofNames matchers
  maxSlices := 800

theorem turnstile_inside {both begun ended : Spec} {matchers : List String} :
    (turnstile both begun ended matchers).Inside 3 := fun _ _ h =>
  (List.getElem?_eq_some_iff.1 (NameIndex.getElem?_of_get?_ofNames h)).1

/-- Its nodes when only `begun` is resolved. -/
def onlyBegun : Table 3 (Node 3) := #v[
  { name := "both", index := 0 },
  { name := "begun"
    index := 1
    resolved? := some {
      rule := .simple { start := some 0 }
      used := ⟨[0]⟩
      aggregate := .unknown } },
  { name := "ended", index := 2 }]

/-- A first attempt that fails at `ended`, whose matcher does not exist. -/
def turnstileBegun : Resolver :=
  turnstile (.combination .and ["begun", "ended"]) (.simple { start := some "begin" })
    (.simple { start := some "end" }) ["begin"]

theorem turnstileBegun_resume :
    (turnstileBegun.resume (newNodes #v["both", "begun", "ended"]) { size := 3 }).result =
      .ok (onlyBegun, { size := 3, order := [1] }, .error {
        cause := .unknownMatcher "end", origin := some { frames := ["ended", "both"] } }) := by
  with_unfolding_all rfl

/-- In an attempt after that, `begun` would depend on `both`, but as it is resolved already there is
no cycle. -/
theorem resumed_sound_turnstile :
    let names : Table 3 String := #v["both", "begun", "ended"]
    let next := turnstile (.combination .or ["ended", "begun"]) (.combination .not ["both"])
      (.simple { start := some "end" }) ["begin", "end"]
    let scratch : Scratch 3 := { schedule := { size := 3, order := [1] } }
    Resumed names onlyBegun scratch ∧ next.Inside 3 ∧
    ∃ nodes' scratch',
      (next.resumeMarked onlyBegun scratch).result = .ok (nodes', scratch', .ok ()) ∧
      scratch'.schedule.order = [1, 2, 0] ∧ Kept names nodes' scratch' ∧
      next.Resumes onlyBegun nodes' scratch.schedule scratch'.schedule (.ok ()) := by
  intro names next scratch
  have hfirst : (turnstileBegun.resumeMarked (newNodes names)
      { schedule := { size := 3 } }).result = .ok (onlyBegun, scratch, .error {
        cause := .unknownMatcher "end", origin := some { frames := ["ended", "both"] } }) :=
    Kept.new.resumeMarked turnstileBegun_resume
  have hresumed : Resumed names onlyBegun scratch := .call .new turnstile_inside hfirst
  obtain ⟨nodes', scratch', outcome, hmarked, hresume, hkept, hresumes⟩ :=
    resumed_sound hresumed (turnstile_inside : next.Inside 3)
  have hnext : (next.resume onlyBegun scratch.schedule).result.map (·.2) =
      .ok ({ size := 3, order := [1, 2, 0] }, .ok ()) := by
    with_unfolding_all rfl
  rw [hresume] at hnext
  obtain ⟨hschedule, rfl⟩ := Prod.mk.inj (Except.ok.inj hnext)
  refine ⟨hresumed, turnstile_inside, nodes', scratch', hmarked, ?_, hkept, hresumes⟩
  show scratch'.schedule.order = _
  rw [hschedule]

/-! ## Attempts of either kind -/

/-- Nodes after attempts from new nodes on, with or without a schedule. -/
inductive Tried (names : Table n String) : Table n (Node n) → Prop
  | new : Tried names (newNodes names)
  | run {nodes nodes' outcome} {r : Resolver} : Tried names nodes → r.Inside n →
      (r.run nodes).result = .ok (nodes', outcome) → Tried names nodes'
  | resume {nodes nodes' schedule schedule' outcome} {r : Resolver} : Tried names nodes →
      r.Inside n → (r.resume nodes schedule).result = .ok (nodes', schedule', outcome) →
      Tried names nodes'

/-- Nodes of the given names whose resolved ones can be lined up. -/
structure Alignable (names : Table n String) (nodes : Table n (Node n)) : Prop where
  lined : ∃ order, Lined nodes order
  reset : ∀ i, (nodes.entry i).reset = (newNodes names).entry i

/-- Resetting nodes makes them new. -/
theorem map_reset_eq (h : ∀ i, (nodes.entry i).reset = (newNodes names).entry i) :
    nodes.map Node.reset = newNodes names :=
  Table.ext_entry fun i => by rw [Table.entry_map, h i]

theorem Alignable.new : Alignable names (newNodes names) where
  lined := ⟨[], .nil fun i => by simp⟩
  reset i := by simp [Node.reset]

/-- What a run does that ends with an order: it resolves what was not resolved, and lists that
behind the rest. -/
structure Completes (nodes nodes' : Table n (Node n)) (order : List (Fin n)) : Prop where
  resolved : ∀ i, (nodes'.entry i).resolved? ≠ none
  known : ∀ i, (nodes.entry i).resolved? ≠ none → nodes'.entry i = nodes.entry i
  mem : ∀ i, i ∈ order ↔ (nodes.entry i).resolved? = none
  lined : ∃ earlier, Lined nodes earlier ∧ Lined nodes' (earlier ++ order)
  /-- If there was no rest, the order is complete. -/
  complete : (∀ i, (nodes.entry i).resolved? = none) → Lined nodes' order

/-- One more run ends with new nodes or an order of those it resolved. -/
theorem Alignable.run (h : Alignable names nodes) (inside : r.Inside n) :
    ∃ nodes' outcome, (r.run nodes).result = .ok (nodes', outcome) ∧ Alignable names nodes' ∧
      match outcome with
      | .ok order => Completes nodes nodes' order
      | .error _ => nodes' = newNodes names := by
  obtain ⟨earlier, hlined⟩ := h.lined
  obtain ⟨p, o, hres, hgrows, hlined', hmem, ho⟩ := advance_lined inside hlined
  have hreset : ∀ i, (p.nodes.entry i).reset = (newNodes names).entry i := fun i =>
    (hgrows.reset i).trans (h.reset i)
  have hrun : (r.run nodes).result =
      match o with
      | .ok () => .ok (p.nodes, .ok p.order)
      | .error e => .ok (p.nodes.map Node.reset, .error e) := by
    rw [Resolver.run, Logged.result_bind_of_ok hres]
    cases o <;> rfl
  cases o with
  | error e =>
    rw [map_reset_eq hreset] at hrun
    exact ⟨_, _, hrun, .new, rfl⟩
  | ok u =>
    refine ⟨_, _, hrun, ⟨⟨_, hlined'⟩, hreset⟩, ho, fun i hi => hgrows.entry_eq hi, fun i => ?_,
      ⟨earlier, hlined, hlined'⟩, fun hnone => ?_⟩
    · rw [hmem i]
      exact and_iff_left (ho i)
    · have hempty : earlier = [] :=
        List.eq_nil_iff_forall_not_mem.2 fun i hi => (hlined.mem i).1 hi (hnone i)
      rwa [hempty, List.nil_append] at hlined'

/-- An attempt with a schedule keeps nodes alignable, also if the schedule is refused. -/
theorem Alignable.resume {nodes' : Table n (Node n)} {schedule schedule' : Schedule}
    {outcome : Except Error Unit} (h : Alignable names nodes) (inside : r.Inside n)
    (hres : (r.resume nodes schedule).result = .ok (nodes', schedule', outcome)) :
    Alignable names nodes' := by
  obtain ⟨earlier, hlined⟩ := h.lined
  obtain ⟨p, o, hadvance, hgrows, hlined', -, -⟩ := advance_lined inside hlined
  rw [Resolver.resume] at hres
  split at hres
  · rw [Logged.result_bind_of_ok hadvance] at hres
    cases hres
    exact ⟨⟨_, hlined'⟩, fun i => (hgrows.reset i).trans (h.reset i)⟩
  · cases hres
    exact h

theorem Tried.alignable (h : Tried names nodes) : Alignable names nodes := by
  induction h with
  | new => exact .new
  | run _ inside hres ih =>
    obtain ⟨nodes', outcome, hrun, halignable, -⟩ := ih.run inside
    rw [hrun] at hres
    cases hres
    exact halignable
  | resume _ inside hres ih => exact ih.resume inside hres

/-- **What a run lists.** After any attempts a run ends. If it fails, the nodes are new again; if it
succeeds, every node is resolved, and the order lists those that were not resolved before, behind
their children as far as these were not resolved before either. From unresolved nodes on, that is a
complete order. -/
theorem run_orders (h : Tried names nodes) (inside : r.Inside n) :
    ∃ nodes' outcome, (r.run nodes).result = .ok (nodes', outcome) ∧
      match outcome with
      | .ok order => Completes nodes nodes' order
      | .error _ => nodes' = newNodes names := by
  obtain ⟨nodes', outcome, hrun, -, houtcome⟩ := h.alignable.run inside
  exact ⟨nodes', outcome, hrun, houtcome⟩

/-- What resolves the rest of the turnstile. -/
def turnstileRest : Resolver :=
  turnstile (.combination .and ["begun", "ended"]) (.simple { start := some "begin" })
    (.simple { start := some "end" }) ["begin", "end"]

theorem turnstileRest_inside : turnstileRest.Inside 3 :=
  turnstile_inside

theorem onlyBegun_tried : Tried #v["both", "begun", "ended"] onlyBegun :=
  .resume .new turnstile_inside turnstileBegun_resume

theorem run_orders_turnstile :
    Tried #v["both", "begun", "ended"] onlyBegun ∧ turnstileRest.Inside 3 ∧
      ∃ nodes', (turnstileRest.run onlyBegun).result = .ok (nodes', .ok [2, 0]) ∧
        Completes onlyBegun nodes' [2, 0] := by
  refine ⟨onlyBegun_tried, turnstileRest_inside, ?_⟩
  obtain ⟨nodes', outcome, hrun, houtcome⟩ := run_orders onlyBegun_tried turnstileRest_inside
  have horder : (turnstileRest.run onlyBegun).result.map (·.2) = .ok (.ok [2, 0]) := by
    with_unfolding_all rfl
  rw [hrun] at horder
  obtain rfl : outcome = .ok [2, 0] := Except.ok.inj horder
  exact ⟨nodes', hrun, houtcome⟩

/-- The order of a run is not complete if some node was resolved before: here it lists `both`, which
reads `begun`, and not `begun`. -/
theorem run_omits_resolved :
    Tried #v["both", "begun", "ended"] onlyBegun ∧ turnstileRest.Inside 3 ∧
      (∃ conditions, turnstileRest.layout onlyBegun = .ok conditions) ∧
      ∃ nodes' order, (turnstileRest.run onlyBegun).result = .ok (nodes', .ok order) ∧
        1 ∉ order ∧ 0 ∈ order ∧ 1 ∈ (nodes'.entry 0).children := by
  refine ⟨onlyBegun_tried, turnstileRest_inside, ⟨_, by with_unfolding_all rfl⟩, ?_⟩
  refine ⟨_, _, by with_unfolding_all rfl, by decide, by decide, by decide⟩

end Resolver

end EventConditions
