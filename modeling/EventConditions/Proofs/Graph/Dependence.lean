import EventConditions.Proofs.Graph.Holdings
import EventConditions.Proofs.Graph.Report

/-!
# What a condition depends on

The matchers that a node uses were collected when the graph was resolved, and no turn looks at them.
Here they are shown to be all that matters: what passes over all conditions make of a condition
depends on the verdicts of the matchers that it uses, and on the values that events have of the
dimensions of the simple conditions below it (`Graph.used_determines`). Other conditions may be in
whatever state, and boards may show whatever, since the turns of the condition and of those below it
read no cells but each other's.

This is said of two runs side by side, which share the condition and everything below it
(`Graph.Shared`) and may drift apart elsewhere.
-/

namespace EventConditions

variable {n : Nat}

/-- The dimensions that the node itself reads; none unless it is simple. -/
def Node.dimensions (node : Node n) : List FieldId :=
  match node.simple? with
  | some s => s.dimensions
  | none => []

theorem Node.dimensions_of_simple {node : Node n} {s : Simple} (h : node.simple? = some s) :
    node.dimensions = s.dimensions := by
  rw [dimensions, h]

@[simp] theorem Node.dimensions_outline (node : Node n) :
    node.outline.dimensions = node.dimensions := by
  obtain ⟨_, _, _, _ | ⟨_ | _, _, _⟩⟩ := node <;> rfl

namespace Graph

/-! ## Two passes -/

/-- From the condition at `i` the events look the same: of the matchers that it uses the same ones
matched, and the simple conditions that it depends on find the same values of their dimensions. -/
structure Indistinct (g : Graph n) (i : Fin n) (x y : Judged) : Prop where
  matched : ∀ m ∈ (g.nodes.entry i).used, matchedIn x.verdicts m = matchedIn y.verdicts m
  fields : ∀ j, g.Reaches i j → ∀ field ∈ (g.nodes.entry j).dimensions,
    x.event.get? field = y.event.get? field

/-- Both graphs have the outline of `g`, and from the one at `i` downwards their nodes are the
same. -/
structure Shared (g : Graph n) (i : Fin n) (g₁ g₂ : Graph n) : Prop where
  outline₁ : g₁.outline = g.outline
  outline₂ : g₂.outline = g.outline
  node_eq : ∀ j, g.Reaches i j → g₁.nodes.entry j = g₂.nodes.entry j

theorem Shared.refl (g : Graph n) (i : Fin n) : g.Shared i g g :=
  ⟨rfl, rfl, fun _ _ => rfl⟩

/-- The graph is resolved and its conditions are in order, and every condition uses the matchers
that those below it read. -/
structure Gathered (g : Graph n) : Prop where
  ordered : g.Ordered
  resolved : g.isResolved = true
  mem_used : ∀ i j, g.Reaches i j → ∀ m ∈ (g.nodes.entry j).reads, m ∈ (g.nodes.entry i).used

/-- A graph that can be reached and is resolved has gathered the matchers in use. -/
theorem Invariant.gathered {g : Graph n} {maxSlices : Nat}
    {latest : Option (List Condition × NameIndex)} (h : Invariant maxSlices g latest)
    (hall : g.isResolved = true) : g.Gathered where
  ordered := h.ordered hall
  resolved := hall
  mem_used _ _ hreach _ hm := h.mem_used_of_reaches hreach hm

variable {g g₁ g₂ : Graph n} {i : Fin n} {x y : Judged}

theorem Gathered.of_outline (h : g.Gathered) (houtline : g₁.outline = g.outline) : g₁.Gathered where
  ordered := h.ordered.of_outline houtline
  resolved := (isResolved_eq_of_outline houtline).trans h.resolved
  mem_used i j hreach m hm := by
    rw [reaches_eq_of_outline houtline] at hreach
    rw [entry_eq_of_outline houtline Node.reads_outline] at hm
    rw [entry_eq_of_outline houtline Node.used_outline]
    exact h.mem_used i j hreach m hm

/-- Events that look the same from a condition ask the same of the simple conditions below it. -/
theorem Indistinct.request_eq (h : g.Indistinct i x y) (hg : g.Gathered) (hx : g.Covers x.verdicts)
    (hy : g.Covers y.verdicts) {j : Fin n} (hreach : g.Reaches i j) {s : Simple}
    (hs : (g.nodes.entry j).simple? = some s) :
    s.request x.event x.verdicts = s.request y.event y.verdicts := by
  have hread : ∀ m ∈ s.matchers, m ∈ (g.nodes.entry i).used := fun m hm =>
    hg.mem_used i j hreach m (Node.mem_reads_iff.2 ⟨s, hs, hm⟩)
  have hasked : s.asked x.event (matchedIn x.verdicts) = s.asked y.event (matchedIn y.verdicts) :=
    Simple.asked_eq (fun m hm => h.matched m (hread m hm)) fun field hfield =>
      h.fields j hreach field (Node.dimensions_of_simple hs ▸ hfield)
  rw [Simple.request_eq_ok fun m hm => hx i m (hread m hm),
    Simple.request_eq_ok fun m hm => hy i m (hread m hm), hasked]

theorem Indistinct.of_outline (h : g.Indistinct i x y) (houtline : g₁.outline = g.outline) :
    g₁.Indistinct i x y where
  matched m hm := by
    rw [entry_eq_of_outline houtline Node.used_outline] at hm
    exact h.matched m hm
  fields j hreach field hfield := by
    rw [reaches_eq_of_outline houtline] at hreach
    rw [entry_eq_of_outline houtline Node.dimensions_outline] at hfield
    exact h.fields j hreach field hfield

/-- Two passes over events that look the same from a condition, over graphs that share it, leave
graphs that share it and boards that show the same of it and of all below it. -/
theorem Shared.evaluate (h : g.Shared i g₁ g₂) (hg : g.Gathered) (hsame : g.Indistinct i x y)
    (hx : g.Covers x.verdicts) (hy : g.Covers y.verdicts) {b₁ b₂ : Board}
    (hb₁ : b₁.cells.size = n) (hb₂ : b₂.cells.size = n) :
    ∃ (g₁' g₂' : Graph n) (cells₁ cells₂ : Table n Cell),
      (g₁.evaluate x.event x.verdicts b₁).result = .ok (g₁', ⟨cells₁.toArray⟩) ∧
      (g₂.evaluate y.event y.verdicts b₂).result = .ok (g₂', ⟨cells₂.toArray⟩) ∧
      g.Shared i g₁' g₂' ∧ ∀ j, g.Reaches i j → cells₁.entry j = cells₂.entry j := by
  have hg₁ := hg.of_outline h.outline₁
  have hg₂ := hg.of_outline h.outline₂
  have hx₁ : g₁.Covers x.verdicts := hx.of_outline h.outline₁
  have hy₁ : g₁.Covers y.verdicts := hy.of_outline h.outline₁
  have hy₂ : g₂.Covers y.verdicts := hy.of_outline h.outline₂
  obtain ⟨s, hpass₁, hturned₁⟩ := hg₁.ordered.evaluate_turned (e := x.event) hg₁.resolved
    (fun j m hm => hx₁ j m (hg₁.mem_used j j .refl m hm)) hb₁
  obtain ⟨t, hpass₂, hturned₂⟩ := hg₂.ordered.evaluate_turned (e := y.event) hg₂.resolved
    (fun j m hm => hy₂ j m (hg₂.mem_used j j .refl m hm)) hb₂
  have hagree : ∀ j, g₁.Reaches i j → Sweep.Agree j s t := by
    intro j hreach
    -- by the order: below the condition all that a combination reads is shared
    induction j using hg₁.ordered.induction with
    | step j ih =>
      refine (hturned₁ j).agree_of_asked (hturned₂ j) (h.node_eq j ?_) (fun simple hsimple => ?_)
        fun c hc => (ih c hc (hreach.tail hc)).2
      · rwa [reaches_eq_of_outline h.outline₁] at hreach
      · exact (hsame.of_outline h.outline₁).request_eq hg₁ hx₁ hy₁ hreach hsimple
  rw [reaches_eq_of_outline h.outline₁] at hagree
  exact ⟨_, _, s.cells, t.cells, hpass₁, hpass₂,
    ⟨(outline_pass hpass₁).trans h.outline₁, (outline_pass hpass₂).trans h.outline₂,
      fun j hreach => (hagree j hreach).1⟩,
    fun j hreach => (hagree j hreach).2⟩

/-! ## Runs side by side -/

/-- What one pass of a run is made with: an event and the verdicts on it, and a board to go on with
if it is not to be the one that the pass before left. -/
structure Round extends Judged where
  board? : Option Board := none

/-- Passes over all conditions, and what each of them left. -/
def evaluateEach (g : Graph n) (board : Board) : List Round → Logged Fault (List (Graph n × Board))
  | [] => pure []
  | x :: rest => do
    let (g, board) ← g.evaluate x.event x.verdicts (x.board?.getD board)
    let later ← g.evaluateEach board rest
    return (g, board) :: later

/-- There is a verdict on every matcher in use, and a board that is given is made for the graph. -/
structure Fits (g : Graph n) (x : Round) : Prop where
  covers : g.Covers x.verdicts
  size : ∀ board ∈ x.board?, board.cells.size = n

/-- The graphs have the same nodes, and the boards show the same, from the condition at `i`
downwards. -/
def SameFrom (g : Graph n) (i : Fin n) (t u : Graph n × Board) : Prop :=
  ∀ j, g.Reaches i j → t.1.nodes.entry j = u.1.nodes.entry j ∧
    ∃ cell, t.2.cells[j.val]? = some cell ∧ u.2.cells[j.val]? = some cell

theorem Fits.size_getD {x : Round} (h : g.Fits x) {board : Board} (hboard : board.cells.size = n) :
    (x.board?.getD board).cells.size = n := by
  cases hgiven : x.board? with
  | none => exact hboard
  | some given => exact h.size given hgiven

/-- Two runs over events that look the same from a condition go on sharing it. -/
theorem Shared.evaluateEach (h : g.Shared i g₁ g₂) (hg : g.Gathered) {xs ys : List Round}
    (hsame : List.Forall₂ (fun x y => g.Indistinct i x.toJudged y.toJudged) xs ys)
    (hxs : ∀ x ∈ xs, g.Fits x) (hys : ∀ y ∈ ys, g.Fits y) {b₁ b₂ : Board}
    (hb₁ : b₁.cells.size = n) (hb₂ : b₂.cells.size = n) :
    ∃ ts us, (g₁.evaluateEach b₁ xs).result = .ok ts ∧ (g₂.evaluateEach b₂ ys).result = .ok us ∧
      List.Forall₂ (g.SameFrom i) ts us := by
  induction hsame generalizing g₁ g₂ b₁ b₂ with
  | nil => exact ⟨[], [], rfl, rfl, .nil⟩
  | @cons x y xs ys hxy _ ih =>
    rw [List.forall_mem_cons] at hxs hys
    obtain ⟨g₁', g₂', cells₁, cells₂, hpass₁, hpass₂, hshared, hcells⟩ :=
      h.evaluate hg hxy hxs.1.covers hys.1.covers (hxs.1.size_getD hb₁) (hys.1.size_getD hb₂)
    have hsize₁ : (Board.mk cells₁.toArray).cells.size = n := cells₁.size_toArray
    have hsize₂ : (Board.mk cells₂.toArray).cells.size = n := cells₂.size_toArray
    obtain ⟨ts, us, hrun₁, hrun₂, hrest⟩ := ih hshared hxs.2 hys.2 hsize₁ hsize₂
    have hfirst : g.SameFrom i (g₁', ⟨cells₁.toArray⟩) (g₂', ⟨cells₂.toArray⟩) := by
      refine fun j hreach => ⟨hshared.node_eq j hreach, cells₁.entry j, ?_, ?_⟩
      · simp [Table.entry]
      · rw [hcells j hreach]
        simp [Table.entry]
    refine ⟨_ :: ts, _ :: us, ?_, ?_, .cons hfirst hrest⟩
    · rw [Graph.evaluateEach, Logged.result_bind_of_ok hpass₁, Logged.result_bind_of_ok hrun₁]
      rfl
    · rw [Graph.evaluateEach, Logged.result_bind_of_ok hpass₂, Logged.result_bind_of_ok hrun₂]
      rfl

/-- **What a condition depends on.** Take a resolved graph that can be reached and one of its
conditions, and make two runs of passes over all conditions, each over its own events and with its
own boards. If at every step the events look the same from the condition, then after every step it
and all conditions reached from it have come out the same, and the boards show the same of them. -/
theorem used_determines {conditions₀ : List Condition} {maxSlices : Nat}
    {g₀ g : Graph conditions₀.length} {latest : Option (List Condition × NameIndex)}
    (hmade : (ofConditions conditions₀ maxSlices).result = .ok g₀) (h : Reached g₀ g latest)
    (hall : g.isResolved = true) (i : Fin conditions₀.length) {xs ys : List Round}
    (hsame : List.Forall₂ (fun x y => g.Indistinct i x.toJudged y.toJudged) xs ys)
    (hxs : ∀ x ∈ xs, g.Fits x) (hys : ∀ y ∈ ys, g.Fits y) {b₁ b₂ : Board}
    (hb₁ : b₁.cells.size = conditions₀.length) (hb₂ : b₂.cells.size = conditions₀.length) :
    ∃ ts us, (g.evaluateEach b₁ xs).result = .ok ts ∧ (g.evaluateEach b₂ ys).result = .ok us ∧
      List.Forall₂ (g.SameFrom i) ts us :=
  (Shared.refl g i).evaluateEach ((h.invariant (.of_fresh hmade)).gathered hall) hsame hxs hys hb₁ hb₂

/-- A desk is covered if it is idle or somebody is served. So `covered` depends on `busy` in two
ways, and on `open` in none. -/
def desk : List Condition :=
  [⟨"busy", .simple { start := some "begin" }⟩,
   ⟨"logged", .simple { start := some "login", dimensions := [1] }⟩,
   ⟨"idle", .combination .not ["busy"]⟩,
   ⟨"served", .combination .and ["busy", "logged"]⟩,
   ⟨"covered", .combination .or ["idle", "served"]⟩,
   ⟨"open", .simple { start := some "enter", dimensions := [2] }⟩]

/-- Their graph before it is resolved. -/
def deskFresh : Graph 6 where
  nodes := #v[{ name := "busy", index := 0 }, { name := "logged", index := 1 },
    { name := "idle", index := 2 }, { name := "served", index := 3 },
    { name := "covered", index := 4 }, { name := "open", index := 5 }]
  maxSlices := 4

/-- Their graph once resolved. -/
def deskResolved : Graph 6 where
  nodes := #v[
    { name := "busy"
      index := 0
      resolved? := some {
        rule := .simple { start := some 0, maxSlices := 4 }
        used := ⟨[0]⟩
        aggregate := .unknown } },
    { name := "logged"
      index := 1
      resolved? := some {
        rule := .simple { start := some 1, dimensions := [1], maxSlices := 4 }
        used := ⟨[1]⟩
        aggregate := .unknown } },
    { name := "idle"
      index := 2
      resolved? := some {
        rule := .combination { operator := .not, children := [0] }
        used := ⟨[0]⟩
        aggregate := .unknown } },
    { name := "served"
      index := 3
      resolved? := some {
        rule := .combination { operator := .and, children := [0, 1] }
        used := ⟨[0, 1]⟩
        aggregate := .unknown } },
    { name := "covered"
      index := 4
      resolved? := some {
        rule := .combination { operator := .or, children := [2, 3] }
        used := ⟨[0, 1]⟩
        aggregate := .unknown } },
    { name := "open"
      index := 5
      resolved? := some {
        rule := .simple { start := some 2, dimensions := [2], maxSlices := 4 }
        used := ⟨[2]⟩
        aggregate := .unknown } }]
  order := List.finRange 6
  maxSlices := 4

/-- Two runs in which `busy` begins and then a user logs in. In the second one `open` is started as
well, the boards are others and so are the tags, and the second event has a further field. `open`
drifts apart, while `covered` and the four conditions below it come out the same. -/
theorem used_determines_desk :
    let user : FieldId × Value := (1, .int 5)
    let g := deskResolved
    let stale : Board := ⟨Array.replicate 6 ⟨.holds, true, true⟩⟩
    let xs : List Round := [
      ⟨⟨{ tag := 7 }, #[.matched, .notMatched, .notMatched]⟩, none⟩,
      ⟨⟨{ tag := 8, fields := [user] }, #[.notMatched, .matched, .matched]⟩, none⟩]
    let ys : List Round := [
      ⟨⟨{ tag := 9, fields := [(2, .bool true)] }, #[.matched, .unknown, .matched]⟩, none⟩,
      ⟨⟨{ tag := 7, fields := [user, (2, .bool true)] }, #[.unknown, .matched, .notMatched]⟩,
        some stale⟩]
    let shown := fun ts : List (Graph 6 × Board) => ts.map fun t =>
      ((t.1.nodes.entry 4).aggregate, (t.1.nodes.entry 5).aggregate)
    (ofConditions desk 4).result = .ok deskFresh ∧ (∃ latest, Reached deskFresh g latest) ∧
      g.isResolved = true ∧ (g.nodes.entry 4).used = ⟨[0, 1]⟩ ∧
      (∀ j, g.Reaches 4 j ↔ j ≠ 5) ∧
      List.Forall₂ (fun x y => g.Indistinct 4 x.toJudged y.toJudged) xs ys ∧
      (∀ x ∈ xs ++ ys, g.Fits x) ∧
      (g.evaluateEach (.blank 6) xs).result.map shown =
        .ok [(.unknown, .unknown), (.holds, .unknown)] ∧
      (g.evaluateEach stale ys).result.map shown = .ok [(.unknown, .holds), (.holds, .holds)] ∧
      ∃ ts us, (g.evaluateEach (.blank 6) xs).result = .ok ts ∧
        (g.evaluateEach stale ys).result = .ok us ∧ List.Forall₂ (g.SameFrom 4) ts us := by
  intro user g stale xs ys shown
  have hmade : (ofConditions desk 4).result = .ok deskFresh := rfl
  have hresolved : (deskFresh.resolve desk ⟨[("begin", 0), ("login", 1), ("enter", 2)]⟩).result =
      .ok (g, .ok ()) := by
    with_unfolding_all rfl
  have hreached := Reached.resolved .fresh hresolved
  have hall : g.isResolved = true := rfl
  have hbelow : ∀ j, g.Reaches 4 j ↔ j ≠ 5 := by
    have hidle : g.Reaches 4 2 := .single (by decide)
    have hserved : g.Reaches 4 3 := .single (by decide)
    -- `open` is nobody's child
    have hnone : ∀ i, 5 ∉ (g.nodes.entry i).children := by decide
    intro j
    constructor
    · rintro hreach rfl
      rcases hreach.cases_tail with h | ⟨i, -, hchild⟩
      · exact absurd h (by decide)
      · exact hnone i hchild
    · intro hj
      obtain rfl | rfl | rfl | rfl | rfl : j = 0 ∨ j = 1 ∨ j = 2 ∨ j = 3 ∨ j = 4 := by omega
      · exact hidle.tail (by decide)
      · exact hserved.tail (by decide)
      · exact hidle
      · exact hserved
      · exact .refl
  have hsees : ∀ x y : Judged, matchedIn x.verdicts 0 = matchedIn y.verdicts 0 →
      matchedIn x.verdicts 1 = matchedIn y.verdicts 1 → x.event.get? 1 = y.event.get? 1 →
      g.Indistinct 4 x y := by
    have hdimensions : ∀ j, j ≠ 5 → (g.nodes.entry j).dimensions ⊆ [1] := by decide
    intro x y hbegin hlogin huser
    refine ⟨fun m hm => ?_, fun j hreach field hfield => ?_⟩
    · rcases List.mem_pair.1 (IndexSet.mem_def.1 hm) with rfl | rfl
      · exact hbegin
      · exact hlogin
    · obtain rfl := List.mem_singleton.1 (hdimensions j ((hbelow j).1 hreach) hfield)
      exact huser
  have hsame : List.Forall₂ (fun x y => g.Indistinct 4 x.toJudged y.toJudged) xs ys :=
    .cons (hsees _ _ (by decide) (by decide) (by decide))
      (.cons (hsees _ _ (by decide) (by decide) (by decide)) .nil)
  have hcovers : ∀ first second third, g.Covers #[first, second, third] := by
    have hthree : ∀ i, ∀ m ∈ (g.nodes.entry i).used.toList, m < 3 := by decide
    exact fun _ _ _ => hthree
  have hfits : ∀ x ∈ xs ++ ys, g.Fits x := by
    simp only [xs, ys, List.cons_append, List.nil_append, List.forall_mem_cons]
    exact ⟨⟨hcovers _ _ _, nofun⟩, ⟨hcovers _ _ _, nofun⟩, ⟨hcovers _ _ _, nofun⟩,
      ⟨hcovers _ _ _, fun _ hboard => Option.some.inj hboard ▸ rfl⟩, nofun⟩
  refine ⟨hmade, ⟨_, hreached⟩, hall, rfl, hbelow, hsame, hfits, ?_, ?_, ?_⟩
  · decide +kernel
  · decide +kernel
  · exact used_determines hmade hreached hall ⟨4, by decide⟩ hsame
      (fun x hx => hfits x (List.mem_append_left _ hx))
      (fun y hy => hfits y (List.mem_append_right _ hy)) rfl rfl

end Graph

end EventConditions
