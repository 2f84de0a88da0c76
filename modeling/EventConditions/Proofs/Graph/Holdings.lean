import EventConditions.Proofs.Graph.Signals
import EventConditions.Proofs.Simple.Holdings

/-!
# What simple conditions hold over any history

From when a graph was resolved on, passes of either kind are made over it, with any events,
verdicts, boards and masks. `Graph.Since` keeps with the graph what passes were made. A pass may
take a simple condition or leave it out; it then has served what the event asked of it, or is as it
was. Either way its slices stay in order, its state goes with them, and it is unknown only if no
pass that took the condition affected it (`Graph.Holds.pass`).

Nothing is asked of boards here, since no turn of a simple condition reads one.
-/

namespace EventConditions

variable {n : Nat}

/-- What a pass is made with: an event, the verdicts on it, and which conditions the pass takes. -/
structure Feed (n : Nat) extends Judged where
  relevant : Fin n → Bool

/-- A simple condition has the limit that its rule was resolved with. -/
theorem Rule.Renders.maxSlices_eq {names matchers : NameIndex} {maxSlices : Nat} {spec : Spec}
    {s : Simple} (h : Renders names matchers maxSlices spec (.simple s : Rule n)) :
    s.maxSlices = maxSlices := by
  cases h with
  | simple _ _ _ _ _ _ hlimit => exact hlimit

namespace Graph

/-- The graphs that `g₀` may become once it is resolved, each with the passes that were made since
it was, in order. -/
inductive Since (g₀ : Graph n) : Graph n → List (Feed n) → Prop
  | resolved {g g' latest conditions matchers} : Reached g₀ g latest →
      (g.resolve conditions matchers).result = .ok (g', .ok ()) → Since g₀ g' []
  | evaluate {g g' feeds event verdicts board board'} : Since g₀ g feeds →
      (g.evaluate event verdicts board).result = .ok (g', board') →
      Since g₀ g' (feeds ++ [⟨⟨event, verdicts⟩, fun _ => true⟩])
  | evaluateRelevant {g g' feeds event verdicts board board' mask} : Since g₀ g feeds →
      (g.evaluateRelevant event verdicts board mask).result = .ok (g', board') →
      Since g₀ g' (feeds ++ [⟨⟨event, verdicts⟩, fun i => mask.getD i.val false⟩])
  | setSliced {g g' feeds index on} : Since g₀ g feeds → g.setSliced index on = .ok g' →
      Since g₀ g' feeds

/-- A graph with its passes is one that can be reached. -/
theorem Since.reached {g₀ g : Graph n} {feeds : List (Feed n)} (h : Since g₀ g feeds) :
    ∃ latest, Reached g₀ g latest := by
  induction h with
  | resolved h hres => exact ⟨_, .resolved h hres⟩
  | evaluate _ hpass ih =>
    obtain ⟨latest, h⟩ := ih
    exact ⟨latest, .evaluate h hpass⟩
  | evaluateRelevant _ hpass ih =>
    obtain ⟨latest, h⟩ := ih
    exact ⟨latest, .evaluateRelevant h hpass⟩
  | setSliced _ hset ih =>
    obtain ⟨latest, h⟩ := ih
    exact ⟨latest, .setSliced h hset⟩

/-- The simple condition at `i` after the given passes: its slices are in order, its state goes with
them, and it is unknown only if none of the passes affected it. -/
structure Holding (g : Graph n) (feeds : List (Feed n)) (i : Fin n) (s : Simple) : Prop where
  kept : s.slices.Kept s.countNesting s.maxSlices s.dimensions
  backs : s.slices.Backs (g.nodes.entry i).aggregate
  unknown_iff : (g.nodes.entry i).aggregate = .unknown ↔ s.initial.state = .unknown ∧
    ∀ feed ∈ feeds, feed.relevant i = true → ¬ s.Affected feed.toJudged

/-- All simple conditions of the graph after the given passes. -/
def Holds (g : Graph n) (feeds : List (Feed n)) : Prop :=
  ∀ i s, (g.nodes.entry i).simple? = some s → g.Holding feeds i s

/-- What is true of a condition depends on no more of the graph than its state. -/
theorem Holding.congr {g g' : Graph n} {feeds : List (Feed n)} {i : Fin n} {s : Simple}
    (h : g.Holding feeds i s)
    (haggregate : (g'.nodes.entry i).aggregate = (g.nodes.entry i).aggregate) :
    g'.Holding feeds i s where
  kept := h.kept
  backs := haggregate ▸ h.backs
  unknown_iff := haggregate ▸ h.unknown_iff

/-- A graph that was just resolved holds no slice. -/
theorem ResolvedBy.holds {g : Graph n} {r : Resolver} {conditions : Table n Condition}
    (h : g.ResolvedBy r conditions) : g.Holds [] := by
  intro i s hs
  obtain ⟨hnone, hstate, -⟩ := h.starts hs
  refine ⟨?_, ?_, ?_⟩
  · rw [hnone]
    exact Slices.kept_empty
  · rw [hnone, hstate]
    exact Slices.backs_initial s.initial
  · rw [hstate]
    simp

/-- A request for slice reports is no pass. -/
theorem Holds.slice {g : Graph n} {feeds : List (Feed n)} (h : g.Holds feeds) (i : Fin n) :
    (g.slice i).Holds feeds := by
  intro j s hs
  rw [Node.simple?, resolved?_slice] at hs
  exact (h j s hs).congr (aggregate_slice g i j)

/-- A condition that the pass took has served what the event asked of it. -/
theorem Holding.turn {g g' : Graph n} {feeds : List (Feed n)} {feed : Feed n} {i : Fin n} {s : Simple}
    (h : g.Holding feeds i s) (htakes : feed.relevant i = true) {request : Request}
    (hrequest : s.request feed.event feed.verdicts = .ok request)
    (haggregate : (g'.nodes.entry i).aggregate =
      (s.serve request).2.state.getD (g.nodes.entry i).aggregate) :
    g'.Holding (feeds ++ [feed]) i (s.serve request).1 := by
  obtain rfl := Simple.eq_asked_of_request hrequest
  have hinitial : (s.serve (s.asked feed.event (matchedIn feed.verdicts))).1.initial = s.initial := by
    rw [Simple.serve_fst]
  refine ⟨?_, ?_, ?_⟩
  · have hkept := Simple.kept_serve h.kept (s.fits_asked feed.event (matchedIn feed.verdicts))
    rwa [Simple.serve_fst]
  · rw [haggregate]
    exact Simple.backs_serve h.backs _
  · rw [haggregate, Simple.unknown_serve_asked_iff, h.unknown_iff, hinitial]
    simp [Simple.affected_serve, htakes, and_assoc, or_imp, forall_and]

/-- A condition that the pass left out cannot have been affected by it. -/
theorem Holding.skip {g g' : Graph n} {feeds : List (Feed n)} {feed : Feed n} {i : Fin n} {s : Simple}
    (h : g.Holding feeds i s) (hskips : feed.relevant i = false)
    (haggregate : (g'.nodes.entry i).aggregate = (g.nodes.entry i).aggregate) :
    g'.Holding (feeds ++ [feed]) i s where
  kept := h.kept
  backs := haggregate ▸ h.backs
  unknown_iff := by
    rw [haggregate, h.unknown_iff]
    simp [hskips, or_imp, forall_and]

/-- What one pass keeps, whatever it is made with. -/
theorem Holds.pass {g g' : Graph n} {feeds : List (Feed n)} (h : g.Holds feeds) (hg : g.Ordered)
    (feed : Feed n) {board board' : Board}
    (hpass : (g.pass feed.event feed.verdicts board feed.relevant).result = .ok (g', board')) :
    g'.Holds (feeds ++ [feed]) := by
  obtain ⟨-, hsize, sweep, hrun, rfl, -⟩ := pass_eq_ok_iff.1 hpass
  have hswept := Sweep.swept_of_run hg rfl hrun
  intro i s' hs'
  cases htakes : feed.relevant i with
  | false =>
    obtain ⟨hnode, -⟩ := hswept.kept i (.inr htakes)
    rw [hnode] at hs'
    exact (h i s' hs').skip htakes (congrArg Node.aggregate hnode)
  | true =>
    have hturned : Sweep.Turned feed.event feed.verdicts g.opening sweep i :=
      (hswept.turned i (hg.mem_order i) htakes).of_nodes rfl
    obtain ⟨s, hs⟩ := hturned.simple_before hs'
    obtain ⟨request, hrequest, hafter, haggregate, -⟩ := hturned.of_simple hs
    obtain rfl := Option.some.inj (hafter.symm.trans hs')
    exact (h i s hs).turn htakes hrequest haggregate

variable {conditions₀ : List Condition} {maxSlices : Nat} {g₀ g : Graph conditions₀.length}
  {feeds : List (Feed conditions₀.length)}

theorem Since.ordered (hmade : (ofConditions conditions₀ maxSlices).result = .ok g₀)
    (h : Since g₀ g feeds) (hall : g.isResolved = true) : g.Ordered := by
  obtain ⟨latest, hreached⟩ := h.reached
  exact (hreached.invariant (.of_fresh hmade)).ordered hall

/-- What any passes keep. -/
theorem Since.holds (hmade : (ofConditions conditions₀ maxSlices).result = .ok g₀)
    (h : Since g₀ g feeds) : g.Holds feeds := by
  induction h with
  | resolved _ hres =>
    obtain ⟨g', outcome, hres', -, -, hspec⟩ := resolve_spec _ _ _
    obtain ⟨rfl, rfl⟩ := Prod.mk.inj (Except.ok.inj (hres'.symm.trans hres))
    obtain ⟨_, -, hby⟩ := hspec
    exact hby.holds
  | evaluate h hpass ih =>
    exact ih.pass (h.ordered hmade (pass_eq_ok_iff.1 hpass).1) ⟨⟨_, _⟩, fun _ => true⟩ hpass
  | @evaluateRelevant _ _ _ _ _ _ _ mask h hpass ih =>
    obtain ⟨hsize, hpass⟩ := evaluateRelevant_eq_ok_iff.1 hpass
    have hmask : Table.entry ⟨mask, hsize⟩ =
        fun i : Fin conditions₀.length => mask.getD i.val false := by
      funext i
      rw [Array.getD_eq_getD_getElem?, Array.getElem?_eq_getElem (hsize.symm ▸ i.isLt)]
      rfl
    rw [hmask] at hpass
    exact ih.pass (h.ordered hmade (pass_eq_ok_iff.1 hpass).1)
      ⟨⟨_, _⟩, fun i => mask.getD i.val false⟩ hpass
  | setSliced _ hset ih =>
    rcases eq_slice_of_setSliced hset with rfl | ⟨i, rfl⟩
    · exact ih
    · exact ih.slice i

/-- A graph that can be reached gives its own limit to every simple condition. -/
theorem Invariant.maxSlices_eq {latest : Option (List Condition × NameIndex)}
    (h : Invariant maxSlices g latest) {i : Fin conditions₀.length} {s : Simple}
    (hs : (g.nodes.entry i).simple? = some s) : s.maxSlices = maxSlices := by
  obtain ⟨x, hx, hrule⟩ := Node.simple?_eq_some_iff.1 hs
  rcases h.resolved with ⟨-, hnone⟩ | ⟨-, _, _, -, hrep⟩
  · exact nomatch (hnone i).symm.trans hx
  · obtain ⟨_, x', -, -, hx', hrenders, -⟩ := hrep i
    obtain rfl := Option.some.inj (hx.symm.trans hx')
    exact (hrule ▸ hrenders).maxSlices_eq

/-- **What a simple condition holds.** Take a simple condition of a graph after any passes since it
was resolved. It counts each held slice at least once, and exactly once where nesting does not
count. It holds distinct slices, no more than allowed, and each is named by the condition's
dimensions. It is in the state that it holds exactly while it holds a slice, and in an unknown state
exactly if it was at first and none of the passes that took it affected it. A start is not dropped
if its slice is held, and lowers no count. -/
theorem since_holding (hmade : (ofConditions conditions₀ maxSlices).result = .ok g₀)
    (h : Since g₀ g feeds) {i : Fin conditions₀.length} {s : Simple}
    (hs : (g.nodes.entry i).simple? = some s) :
    (∀ key ∈ s.slices.keys, 1 ≤ s.slices.count key ∧
      (s.countNesting = false → s.slices.count key = 1)) ∧
    s.slices.keys.Nodup ∧ s.slices.keys.length ≤ maxSlices ∧
    (∀ key ∈ s.slices.keys, key.fields.map Prod.fst = s.dimensions ∧
      (s.dimensions = [] → key = .whole)) ∧
    ((g.nodes.entry i).aggregate = .holds ↔ ∃ key, key ∈ s.slices.keys) ∧
    ((g.nodes.entry i).aggregate = .unknown ↔ s.initial = .unknown ∧
      ∀ feed ∈ feeds, feed.relevant i = true → ¬ s.Affected feed.toJudged) ∧
    ∀ key, (key ∈ s.slices.keys → s.slices.drops s.maxSlices key = false) ∧
      ∀ other, s.slices.count other ≤ (s.serve (.start key)).1.slices.count other ∧
        (other ∈ s.slices.keys → other ∈ (s.serve (.start key)).1.slices.keys) := by
  obtain ⟨hkept, hbacks, hunknown⟩ := h.holds hmade i s hs
  obtain ⟨latest, hreached⟩ := h.reached
  have hlimit : s.maxSlices = maxSlices := (hreached.invariant (.of_fresh hmade)).maxSlices_eq hs
  have hinitial : s.initial.state = .unknown ↔ s.initial = .unknown := by
    cases s.initial <;> decide
  refine ⟨fun key hkey => ?_, hkept.distinct, ?_, fun key hkey => ?_, ?_, ?_, fun key => ?_⟩
  · obtain ⟨c, hcount⟩ := Option.ne_none_iff_exists'.1 (Slices.mem_keys_iff.1 hkey)
    rw [Slices.count_of_count? hcount]
    exact ⟨(hkept.counted key c hcount).1, fun hnesting => hkept.once hnesting key c hcount⟩
  · rw [Slices.keys, List.length_map, ← hlimit]
    exact hkept.size_le
  · have hfields := hkept.fields key hkey
    exact ⟨hfields, fun hnone => Key.eq_whole (hfields.trans hnone)⟩
  · exact hbacks.trans Slices.isEmpty_eq_false_iff
  · rw [hunknown, hinitial]
  · refine ⟨Slices.drops_of_mem, fun other => ⟨hkept.counted.count_le_start, fun hother => ?_⟩⟩
    have hstart := Simple.counted_serve hkept.counted (.start key)
    exact hstart.mem_keys_iff.2
      (Nat.lt_of_lt_of_le (hkept.counted.mem_keys_iff.1 hother) hkept.counted.count_le_start)

/-- Two simple conditions, one of them with a dimension and without nesting. -/
def busyLogged : List Condition :=
  [⟨"busy", .simple { start := some "begin" }⟩,
   ⟨"logged", .simple { start := some "login", countNesting := false, dimensions := [1] }⟩]

/-- Their graph for one slice each, before it is resolved. -/
def busyLoggedFresh : Graph 2 where
  nodes := #v[{ name := "busy", index := 0 }, { name := "logged", index := 1 }]
  maxSlices := 1

/-- Their graph once resolved, while nothing is known of `busy`. -/
def busyLoggedIn (logged : State) (slices : Slices) : Graph 2 where
  nodes := #v[
    { name := "busy"
      index := 0
      resolved? := some {
        rule := .simple { start := some 0, maxSlices := 1 }
        used := ⟨[0]⟩
        aggregate := .unknown } },
    { name := "logged"
      index := 1
      resolved? := some {
        rule := .simple
          { start := some 1, countNesting := false, dimensions := [1], maxSlices := 1, slices }
        used := ⟨[1]⟩
        aggregate := logged } }]
  order := List.finRange 2
  maxSlices := 1

/-- Two users log in, for the second of whom there is no room. Then `busy` is started, but left
out. -/
theorem since_holding_busyLogged :
    let matchers : NameIndex := ⟨[("begin", 0), ("login", 1)]⟩
    let user : Key := ⟨[(1, .int 5)]⟩
    let g := busyLoggedIn .holds ⟨[(user, 1)]⟩
    (busyLoggedFresh.resolve busyLogged matchers).result = .ok (busyLoggedIn .unknown {}, .ok ()) ∧
    ∃ feeds, (ofConditions busyLogged 1).result = .ok busyLoggedFresh ∧
      Since busyLoggedFresh g feeds ∧ feeds.length = 3 ∧
      (∀ s, (g.nodes.entry 0).simple? = some s → s.initial = .unknown ∧
        ∀ feed ∈ feeds, feed.relevant 0 = true → ¬ s.Affected feed.toJudged) ∧
      ∀ s, (g.nodes.entry 1).simple? = some s →
        s.slices.keys = [user] ∧ s.slices.count user = 1 ∧ s.slices.drops s.maxSlices user = false := by
  intro matchers user g
  have hmade : (ofConditions busyLogged 1).result = .ok busyLoggedFresh := rfl
  have hresolved : (busyLoggedFresh.resolve busyLogged matchers).result =
      .ok (busyLoggedIn .unknown {}, .ok ()) := by
    with_unfolding_all rfl
  have hlogin : ((busyLoggedIn .unknown {}).evaluate { tag := 7, fields := [(1, .int 5)] }
      #[.notMatched, .matched] (.blank 2)).result = .ok (g, ⟨#[{}, ⟨.holds, true, false⟩]⟩) := by
    with_unfolding_all rfl
  have hdropped : (g.evaluate { tag := 7, fields := [(1, .int 6)] } #[.notMatched, .matched]
      (.blank 2)).result = .ok (g, ⟨#[{}, ⟨.holds, false, false⟩]⟩) := by
    with_unfolding_all rfl
  have hbegin : (g.evaluateRelevant { tag := 8 } #[.matched, .notMatched] (.blank 2)
      #[false, true]).result = .ok (g, ⟨#[{}, ⟨.holds, false, false⟩]⟩) := by
    with_unfolding_all rfl
  have hsince := ((Since.resolved .fresh hresolved).evaluate hlogin).evaluate hdropped
    |>.evaluateRelevant hbegin
  refine ⟨hresolved, _, hmade, hsince, rfl, fun s hs => ?_, fun s hs => ?_⟩
  · obtain ⟨-, -, -, -, -, hunknown, -⟩ := since_holding hmade hsince hs
    exact hunknown.1 rfl
  · obtain ⟨hcount, -, -, -, -, -, hstart⟩ := since_holding hmade hsince hs
    have hkeys : s.slices.keys = [user] := by
      cases hs
      rfl
    have hnesting : s.countNesting = false := by
      cases hs
      rfl
    have hkey : user ∈ s.slices.keys := hkeys ▸ List.mem_singleton_self user
    exact ⟨hkeys, (hcount user hkey).2 hnesting, (hstart user).1 hkey⟩

end Graph

end EventConditions
