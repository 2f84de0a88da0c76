import EventConditions.Graph.Query
import EventConditions.Proofs.Graph.Answers
import EventConditions.Proofs.Graph.Representation

/-!
# Queries

What a condition answers to a query is told by its rule alone (`Graph.Replies`): a simple condition
answers for the slice that it is asked about, and a combination joins what its children answer. Each
condition has one such answer, and it depends on the query only through the keys of the simple
conditions below.

A query works the answer out down the children, and reads what it found on the way from a memo. Two
things carry it: what the memo holds are answers, and no condition on the path is below the one at
hand, so the path never closes. So on a resolved graph every query ends with the answer
(`Graph.query_eq_iff_replies`).
-/

namespace EventConditions

variable {n : Nat}

/-! ## What a condition answers -/

/-- What a simple condition in the given state answers for a key. -/
inductive Simple.Replies (s : Simple) (key : Option Key) (state : State) : State → Prop
  | undivided : s.dimensions = [] → Replies s key state state
  | sliceless : key.bind (·.project s.dimensions) = none → Replies s key state state
  | held {slice} : s.dimensions ≠ [] → key.bind (·.project s.dimensions) = some slice →
      0 < s.slices.count slice → Replies s key state .holds
  | undecided {slice} : s.dimensions ≠ [] → key.bind (·.project s.dimensions) = some slice →
      s.slices.count slice = 0 → state = .unknown → Replies s key state .unknown
  | free {slice} : s.dimensions ≠ [] → key.bind (·.project s.dimensions) = some slice →
      s.slices.count slice = 0 → state ≠ .unknown → Replies s key state .fails

/-- A query of a simple condition gives its answer. -/
theorem Simple.replies_iff {s : Simple} {key : Option Key} {state answer : State} :
    s.Replies key state answer ↔ s.query key state = answer := by
  constructor
  · intro h
    cases h with
    | undivided hdimensions => exact query_of_dimensions_nil hdimensions
    | sliceless hkey => simp [query, hkey]
    | held hdimensions hkey hheld => simp [query, hkey, hdimensions, hheld]
    | undecided hdimensions hkey hheld hstate =>
      simp [query, hkey, hdimensions, hheld, hstate, State.isUnknown]
    | free hdimensions hkey hheld hstate =>
      simp [query, hkey, hdimensions, hheld, State.isUnknown, hstate]
  · rintro rfl
    by_cases hdimensions : s.dimensions = []
    · rw [query_of_dimensions_nil hdimensions]
      exact .undivided hdimensions
    · cases hkey : key.bind (·.project s.dimensions) with
      | none =>
        have hquery : s.query key state = state := by simp [query, hkey]
        rw [hquery]
        exact .sliceless hkey
      | some slice =>
        rcases Nat.eq_zero_or_pos (s.slices.count slice) with hheld | hheld
        · by_cases hstate : state = .unknown
          · have hquery : s.query key state = .unknown := by
              simp [query, hkey, hdimensions, hheld, hstate, State.isUnknown]
            rw [hquery]
            exact .undecided hdimensions hkey hheld hstate
          · have hquery : s.query key state = .fails := by
              simp [query, hkey, hdimensions, hheld, hstate, State.isUnknown]
            rw [hquery]
            exact .free hdimensions hkey hheld hstate
        · have hquery : s.query key state = .holds := by
            simp [query, hkey, hdimensions, hheld]
          rw [hquery]
          exact .held hdimensions hkey hheld

namespace Graph

/-- What a condition answers to a query: a simple condition for the key that the query has for it,
and a combination by joining the answers of its children. -/
inductive Replies (g : Graph n) (q : Query) : Fin n → State → Prop
  | simple {i s a} : (g.nodes.entry i).simple? = some s →
      s.Replies (q.keyFor (g.nodes.entry i).name) (g.nodes.entry i).aggregate a → Replies g q i a
  | combination {i x c} {answer : Fin n → State} : (g.nodes.entry i).resolved? = some x →
      x.rule = .combination c → (∀ child ∈ c.children, Replies g q child (answer child)) →
      Replies g q i (c.evaluate answer)

variable {g : Graph n} {q : Query}

/-- No condition has two answers. -/
theorem Replies.unique {i : Fin n} {a b : State} (ha : g.Replies q i a) (hb : g.Replies q i b) :
    a = b := by
  induction ha generalizing b with
  | simple hs hreply =>
    cases hb with
    | simple hs' hreply' =>
      obtain rfl := Option.some.inj (hs.symm.trans hs')
      exact (Simple.replies_iff.1 hreply).symm.trans (Simple.replies_iff.1 hreply')
    | combination hx hrule _ => exact nomatch hs.symm.trans (Node.simple?_of_combination hx hrule)
  | combination hx hrule _ ih =>
    cases hb with
    | simple hs' _ => exact nomatch hs'.symm.trans (Node.simple?_of_combination hx hrule)
    | combination hx' hrule' hchildren' =>
      obtain rfl := Option.some.inj (hx.symm.trans hx')
      obtain rfl := Rule.combination.inj (hrule.symm.trans hrule')
      exact congrArg (combine _) (List.map_congr_left fun child hchild =>
        ih child hchild (hchildren' child hchild))

/-- An answer depends on the query only through the keys of the simple conditions below. -/
theorem Replies.of_keys {q' : Query} {i : Fin n} {a : State} (h : g.Replies q i a)
    (hkeys : ∀ j s, g.Reaches i j → (g.nodes.entry j).simple? = some s →
      q'.keyFor (g.nodes.entry j).name = q.keyFor (g.nodes.entry j).name) : g.Replies q' i a := by
  induction h with
  | @simple i s a hs hreply =>
    refine .simple hs ?_
    rwa [hkeys i s .refl hs]
  | @combination i x c answer hx hrule _ ih =>
    refine .combination hx hrule fun child hchild => ih child hchild fun j s hreach => ?_
    have hbelow : child ∈ (g.nodes.entry i).children := by
      rwa [Sweep.children_of_combination hx hrule]
    exact hkeys j s (.head hbelow hreach)

/-- The table of answers has what the conditions answer. -/
theorem Ordered.replies_answers (hg : g.Ordered) (hall : g.isResolved = true) (q : Query) (i : Fin n) :
    g.Replies q i ((g.answers q).entry i) := by
  induction i using hg.induction with
  | step i ih =>
    obtain ⟨x, hx⟩ := Option.ne_none_iff_exists'.1 (isResolved_iff.1 hall i)
    cases hrule : x.rule with
    | simple s =>
      have hs := Node.simple?_eq_some_iff.2 ⟨x, hx, hrule⟩
      exact .simple hs (Simple.replies_iff.2 (hg.answers_simple q hs).symm)
    | combination c =>
      rw [Sweep.children_of_combination hx hrule] at ih
      rw [hg.answers_combination q hx hrule]
      exact .combination hx hrule ih

/-! ## The memo -/

/-- What the memo holds are answers. -/
def Remembers (g : Graph n) (q : Query) (memo : Memo n) : Prop :=
  ∀ i a, memo.entry i = some a → a = (g.answers q).entry i

theorem Remembers.put {memo : Memo n} (h : g.Remembers q memo) (i : Fin n) :
    g.Remembers q (memo.put i (some ((g.answers q).entry i))) := by
  intro j a hj
  by_cases hji : j = i
  · subst hji
    rw [Table.entry_put_self] at hj
    exact (Option.some.inj hj).symm
  · rw [Table.entry_put_ne _ hji] at hj
    exact h j a hj

/-- Asking finds the answer of the condition at `i`, and remembers answers only. -/
def Finds (g : Graph n) (q : Query) (i : Fin n)
    (ask : Memo n → Except Fault (State × Memo n)) : Prop :=
  ∀ memo, g.Remembers q memo →
    ∃ memo', ask memo = .ok ((g.answers q).entry i, memo') ∧ g.Remembers q memo'

/-- Children that are not on the path and each are asked for their answers give these in order. -/
theorem askChildren_finds (name : String) {path : List (Fin n)}
    (ask : (child : Fin n) → path.contains child = false → Memo n →
      Except Fault (State × Memo n))
    {children : List (Fin n)} (hoff : ∀ child ∈ children, path.contains child = false)
    (hask : ∀ child ∈ children, ∀ off, g.Finds q child (ask child off)) {memo : Memo n}
    (hmemo : g.Remembers q memo) :
    ∃ memo', askChildren name path ask children memo =
      .ok (children.map (g.answers q).entry, memo') ∧ g.Remembers q memo' := by
  induction children generalizing memo with
  | nil => exact ⟨memo, rfl, hmemo⟩
  | cons child rest ih =>
    rw [List.forall_mem_cons] at hoff hask
    obtain ⟨memo₁, hfirst, hmemo₁⟩ := hask.1 hoff.1 memo hmemo
    obtain ⟨memo₂, hrest, hmemo₂⟩ := ih hoff.2 hask.2 hmemo₁
    refine ⟨memo₂, ?_, hmemo₂⟩
    rw [askChildren, dif_pos hoff.1, hfirst]
    simp only [ok_bind, hrest]
    rfl

/-- Asking finds the answer along any path that does not come back. -/
theorem Ordered.ask_finds (hg : g.Ordered) (hall : g.isResolved = true) (q : Query) (i : Fin n)
    {path : List (Fin n)} (off : path.contains i = false) (hpath : ∀ p ∈ path, ¬ g.Reaches i p) :
    g.Finds q i (g.ask q path i off) := by
  induction i using hg.induction generalizing path with
  | step i ih =>
    intro memo hmemo
    rw [ask]
    cases hfound : memo.entry i with
    | some a =>
      obtain rfl := hmemo i a hfound
      exact ⟨memo, rfl, hmemo⟩
    | none =>
      obtain ⟨x, hx⟩ := Option.ne_none_iff_exists'.1 (isResolved_iff.1 hall i)
      cases hrule : x.rule with
      | simple s =>
        have hanswer := hg.answers_simple q (Node.simple?_eq_some_iff.2 ⟨x, hx, hrule⟩)
        refine ⟨_, ?_, hmemo.put i⟩
        rw [hanswer, Node.aggregate_of_resolved hx]
        simp only [hx, hrule]
        rfl
      | combination c =>
        have hchildren := Sweep.children_of_combination hx hrule
        have hbelow : ∀ child ∈ c.children, ∀ p ∈ i :: path, ¬ g.Reaches child p := by
          intro child hchild p hp hreach
          have hchild' : child ∈ (g.nodes.entry i).children := hchildren ▸ hchild
          rcases List.mem_cons.1 hp with rfl | hp
          · exact hg.not_reaches hchild' hreach
          · exact hpath p hp (.head hchild' hreach)
        obtain ⟨memo', hask, hmemo'⟩ := askChildren_finds (g.nodes.entry i).name
          (fun child off memo => g.ask q (i :: path) child off memo)
          (fun child hchild => by simpa using fun hon => hbelow child hchild child hon .refl)
          (fun child hchild off => ih child (hchildren ▸ hchild) off (hbelow child hchild)) hmemo
        refine ⟨_, ?_, hmemo'.put i⟩
        rw [hg.answers_combination q hx hrule]
        simp only [hx, hrule, hask, ok_bind]
        rfl

/-- A query gives the answer. -/
theorem Ordered.query_eq (hg : g.Ordered) (hall : g.isResolved = true) (i : Fin n) (q : Query) :
    g.query i q = .ok ((g.answers q).entry i) := by
  have hblank : g.Remembers q (Table.fill n none) := by
    intro j a hj
    rw [Table.entry_fill] at hj
    nomatch hj
  obtain ⟨memo, hask, -⟩ := hg.ask_finds hall q i rfl
    (fun _ hp => absurd hp List.not_mem_nil) _ hblank
  rw [query, hask]
  rfl

/-- **Queries give the answers.** In every resolved graph that can be reached, each query on each
condition ends without a fault. What it gives is what the condition answers by its rule, and only
that. Another query with the same keys for the simple conditions that the condition depends on gives
the same. -/
theorem query_eq_iff_replies {conditions₀ : List Condition} {maxSlices : Nat}
    {g₀ g : Graph conditions₀.length} {latest : Option (List Condition × NameIndex)}
    (hmade : (ofConditions conditions₀ maxSlices).result = .ok g₀) (h : Reached g₀ g latest)
    (hall : g.isResolved = true) (i : Fin conditions₀.length) (q : Query) :
    (∃ a, g.query i q = .ok a) ∧ (∀ a, g.query i q = .ok a ↔ g.Replies q i a) ∧
      ∀ q' : Query, (∀ j s, g.Reaches i j → (g.nodes.entry j).simple? = some s →
        q'.keyFor (g.nodes.entry j).name = q.keyFor (g.nodes.entry j).name) →
        g.query i q' = g.query i q := by
  have hordered : g.Ordered := (h.invariant (.of_fresh hmade)).ordered hall
  have hquery := hordered.query_eq hall i
  have hreply := fun q => hordered.replies_answers hall q i
  refine ⟨⟨_, hquery q⟩, fun a => ?_, fun q' hkeys => ?_⟩
  · rw [hquery q, Except.ok.injEq]
    constructor
    · rintro rfl
      exact hreply q
    · exact fun ha => (hreply q).unique ha
  · rw [hquery q, hquery q']
    exact congrArg Except.ok ((hreply q').unique ((hreply q).of_keys hkeys))

/-- Whether a user is busy, whether none is, whether either is known, and whether both hold. -/
def busyOfUser : List Condition :=
  [⟨"busy", .simple { start := some "begin", dimensions := [1] }⟩,
    ⟨"idle", .combination .not ["busy"]⟩, ⟨"known", .combination .or ["idle", "busy", "idle"]⟩,
    ⟨"both", .combination .and ["busy", "idle"]⟩]

/-- Their graph once resolved, in the given states and holding the given slices. -/
def busyOfUserIn (busy idle known both : State) (slices : Slices) : Graph 4 where
  nodes := #v[
    { name := "busy"
      index := 0
      resolved? := some {
        rule := .simple { start := some 0, dimensions := [1], slices }
        used := ⟨[0]⟩
        aggregate := busy } },
    { name := "idle"
      index := 1
      resolved? := some {
        rule := .combination { operator := .not, children := [0] }
        used := ⟨[0]⟩
        aggregate := idle } },
    { name := "known"
      index := 2
      resolved? := some {
        rule := .combination { operator := .or, children := [1, 0, 1] }
        used := ⟨[0]⟩
        aggregate := known } },
    { name := "both"
      index := 3
      resolved? := some {
        rule := .combination { operator := .and, children := [0, 1] }
        used := ⟨[0]⟩
        aggregate := both } }]
  order := [0, 1, 2, 3]

/-- User 5 is busy, so user 6 is not. -/
theorem query_eq_iff_replies_busyOfUser :
    let matchers : NameIndex := ⟨[("begin", 0)]⟩
    let g := busyOfUserIn .holds .fails .holds .fails ⟨[(⟨[(1, .int 5)]⟩, 1)]⟩
    let q : Query := { shared := some ⟨[(1, .int 6)]⟩ }
    (ofConditions busyOfUser 800).result = .ok { nodes := freshNodes busyOfUser } ∧
      Reached { nodes := freshNodes busyOfUser } g (some (busyOfUser, matchers)) ∧
      g.isResolved = true ∧ g.Replies q 0 .fails ∧ g.Replies q 2 .holds ∧
      g.query 2 (q.withKey "idle" ⟨[(1, .int 5)]⟩) = .ok .holds := by
  intro matchers g q
  have hmade : (ofConditions busyOfUser 800).result = .ok { nodes := freshNodes busyOfUser } := rfl
  have hresolved : (Graph.resolve { nodes := freshNodes busyOfUser } busyOfUser matchers).result =
      .ok (busyOfUserIn .unknown .unknown .unknown .unknown {}, .ok ()) := by
    with_unfolding_all rfl
  have hevent : ((busyOfUserIn .unknown .unknown .unknown .unknown {}).evaluate
      { tag := 7, fields := [(1, .int 5)] } #[.matched] (.blank 4)).result =
        .ok (g, ⟨#[⟨.holds, true, false⟩, ⟨.fails, true, false⟩, ⟨.holds, true, false⟩,
          ⟨.fails, true, false⟩]⟩) := by
    with_unfolding_all rfl
  have hreached : Reached { nodes := freshNodes busyOfUser } g (some (busyOfUser, matchers)) :=
    .evaluate (.resolved .fresh hresolved) hevent
  have hall : g.isResolved = true := rfl
  have hbusy : g.query 0 q = .ok .fails := by with_unfolding_all rfl
  have hknown : g.query 2 q = .ok .holds := by with_unfolding_all rfl
  obtain ⟨-, hreply, -⟩ := query_eq_iff_replies hmade hreached hall (0 : Fin 4) q
  obtain ⟨-, hreply', hsame⟩ := query_eq_iff_replies hmade hreached hall (2 : Fin 4) q
  refine ⟨hmade, hreached, hall, (hreply _).1 hbusy, (hreply' _).1 hknown, ?_⟩
  -- only `busy` is asked with a key
  refine (hsame _ fun (j : Fin 4) s _ hs => ?_).trans hknown
  match j with
  | 0 => rfl
  | 1 => nomatch hs
  | 2 => nomatch hs
  | 3 => nomatch hs

end Graph

end EventConditions
