import EventConditions.Proofs.Graph.Resolved

/-!
# What a pass does

A run along the evaluation order gives each relevant condition one turn and leaves the others alone.
`Sweep.run_swept` describes the nodes and cells after it without mentioning the order: a simple
condition has served what the event asks of it as it was before the run, and a combination joins
what the cells of its children show after the run. The order matters for that only by having
children first, and verdicts only by covering the matchers in use.
-/

namespace EventConditions

variable {n : Nat}

/-! ## Reading verdicts -/

/-- The matcher at an index matched; outside the verdicts none did. -/
def matchedIn (verdicts : Array Verdict) (m : Nat) : Bool :=
  (verdicts[m]?.getD .unknown).isMatched

theorem readAt_eq_ok {α : Type} {xs : Array α} {i : Nat} (h : i < xs.size) :
    readAt xs i = .ok xs[i] := by
  rw [readAt, Array.getElem?_eq_getElem h]

theorem matchedAt_eq_ok {verdicts : Array Verdict} {m? : Option Nat}
    (h : ∀ m ∈ m?, m < verdicts.size) :
    matchedAt verdicts m? = .ok (m?.any (matchedIn verdicts)) := by
  cases m? with
  | none => rfl
  | some m =>
    have hm : m < verdicts.size := h m rfl
    rw [matchedAt, readAt_eq_ok hm, ok_bind]
    simp [matchedIn, Array.getElem?_eq_getElem hm]
    rfl

theorem anyMatched_eq_ok {verdicts : Array Verdict} {matchers : List Nat}
    (h : ∀ m ∈ matchers, m < verdicts.size) :
    Graph.anyMatched verdicts matchers = .ok (matchers.any (matchedIn verdicts)) := by
  induction matchers with
  | nil => rfl
  | cons m rest ih =>
    have hm : m < verdicts.size := h m List.mem_cons_self
    rw [Graph.anyMatched, readAt_eq_ok hm, ok_bind, List.any_cons, matchedIn,
      Array.getElem?_eq_getElem hm, Option.getD_some]
    cases verdicts[m].isMatched with
    | true => rfl
    | false => exact ih fun m' hm' => h m' (List.mem_cons_of_mem m hm')

/-- What an event asks of a simple condition, given which of its matchers matched. -/
def Simple.asked (s : Simple) (e : Event) (matched : Nat → Bool) : Request :=
  if s.stopAll.any matched then .stopAll
  else if !s.start.any matched && !s.stop.any matched then .nothing
  else
    match e.key? s.dimensions with
    | none => .sliceless
    | some key => if s.stop.any matched then .stop key else .start key

/-- A request can be told once there are verdicts on all matchers that the condition reads. -/
theorem Simple.request_eq_ok {s : Simple} {e : Event} {verdicts : Array Verdict}
    (h : ∀ m ∈ s.matchers, m < verdicts.size) :
    s.request e verdicts = .ok (s.asked e (matchedIn verdicts)) := by
  have hstart := matchedAt_eq_ok fun m hm => h m (mem_matchers.2 (.inl hm))
  have hstop := matchedAt_eq_ok fun m hm => h m (mem_matchers.2 (.inr (.inl hm)))
  have hstopAll := matchedAt_eq_ok fun m hm => h m (mem_matchers.2 (.inr (.inr hm)))
  unfold request asked
  simp only [hstart, hstop, hstopAll, ok_bind]
  split
  · rfl
  · split
    · rfl
    · cases e.key? s.dimensions with
      | none => rfl
      | some key => rfl

/-- Where a matcher is read at all, what is read is whether it matched. -/
theorem eq_of_matchedAt {verdicts : Array Verdict} {m? : Option Nat} {b : Bool}
    (h : matchedAt verdicts m? = .ok b) : b = m?.any (matchedIn verdicts) := by
  cases m? with
  | none => exact (Except.ok.inj h).symm
  | some m =>
    rw [matchedAt, readAt] at h
    cases hget : verdicts[m]? with
    | none =>
      rw [hget] at h
      exact nomatch h
    | some verdict =>
      rw [hget] at h
      rw [← Except.ok.inj h, Option.any_some, matchedIn, hget, Option.getD_some]

/-- A request that can be told is what the event asks. -/
theorem Simple.eq_asked_of_request {s : Simple} {e : Event} {verdicts : Array Verdict}
    {request : Request} (h : s.request e verdicts = .ok request) :
    request = s.asked e (matchedIn verdicts) := by
  obtain ⟨stopAll, hstopAll, h⟩ := bind_eq_ok_iff.1 h
  rw [asked, ← eq_of_matchedAt hstopAll]
  cases stopAll with
  | true => exact (Except.ok.inj h).symm
  | false =>
    obtain ⟨start, hstart, h⟩ := bind_eq_ok_iff.1 h
    obtain ⟨stop, hstop, h⟩ := bind_eq_ok_iff.1 h
    rw [← eq_of_matchedAt hstart, ← eq_of_matchedAt hstop, if_neg Bool.false_ne_true]
    split at h
    · next hnone =>
      rw [if_pos hnone]
      exact (Except.ok.inj h).symm
    · next hsome =>
      rw [if_neg hsome]
      cases hkey : e.key? s.dimensions with
      | none =>
        rw [hkey] at h
        exact (Except.ok.inj h).symm
      | some key =>
        rw [hkey] at h
        exact (Except.ok.inj h).symm

/-- What an event asks is told by which of the matchers matched and by the dimensions. -/
theorem Simple.asked_congr {s s' : Simple} {matched matched' : Nat → Bool}
    (hstart : s'.start.any matched' = s.start.any matched)
    (hstop : s'.stop.any matched' = s.stop.any matched)
    (hstopAll : s'.stopAll.any matched' = s.stopAll.any matched)
    (hdimensions : s'.dimensions = s.dimensions) (e : Event) :
    s'.asked e matched' = s.asked e matched := by
  unfold asked
  rw [hstart, hstop, hstopAll, hdimensions]

/-- What an event asks is told by what is read of it: which of the condition's own matchers matched,
and the values of its dimensions. -/
theorem Simple.asked_eq {s : Simple} {e e' : Event} {matched matched' : Nat → Bool}
    (hmatched : ∀ m ∈ s.matchers, matched' m = matched m)
    (hfields : ∀ field ∈ s.dimensions, e'.get? field = e.get? field) :
    s.asked e' matched' = s.asked e matched := by
  have hread : ∀ m?, (∀ m, m? = some m → m ∈ s.matchers) → m?.any matched' = m?.any matched := by
    rintro (_ | m) hread
    · rfl
    · exact hmatched m (hread m rfl)
  have hstart := hread s.start fun m hm => mem_matchers.2 (.inl hm)
  have hstop := hread s.stop fun m hm => mem_matchers.2 (.inr (.inl hm))
  have hstopAll := hread s.stopAll fun m hm => mem_matchers.2 (.inr (.inr hm))
  have hkey : e'.key? s.dimensions = e.key? s.dimensions := Key.gather_congr hfields
  unfold asked
  rw [hstart, hstop, hstopAll, hkey]

/-- Nothing is asked of a condition none of whose matchers matched. -/
theorem Simple.asked_eq_nothing {s : Simple} {e : Event} {matched : Nat → Bool}
    (h : ∀ m ∈ s.matchers, matched m = false) : s.asked e matched = .nothing := by
  have hsame : s.asked e matched = s.asked e fun _ => false := asked_eq h fun _ _ => rfl
  rw [hsame]
  simp [asked]

/-! ## Runs -/

namespace Sweep

variable {e : Event} {verdicts : Array Verdict}

@[simp] theorem node_settle_self (s : Sweep n) (i : Fin n) (rule : Rule n) (state : State)
    (moved : Bool) : (s.settle i rule state moved).nodes.entry i =
      { s.nodes.entry i with
        resolved? := some { rule, used := (s.nodes.entry i).used, aggregate := state } } := by
  simp [settle]

@[simp] theorem cell_settle_self (s : Sweep n) (i : Fin n) (rule : Rule n) (state : State)
    (moved : Bool) : (s.settle i rule state moved).cells.entry i =
      { state
        changed := state != (s.nodes.entry i).aggregate
        sliceChanged := (s.nodes.entry i).sliced &&
          (state != (s.nodes.entry i).aggregate || moved) } := by
  simp [settle]

theorem node_settle_ne (s : Sweep n) {i j : Fin n} (h : j ≠ i) (rule : Rule n) (state : State)
    (moved : Bool) : (s.settle i rule state moved).nodes.entry j = s.nodes.entry j :=
  Table.entry_put_ne _ h _

theorem cell_settle_ne (s : Sweep n) {i j : Fin n} (h : j ≠ i) (rule : Rule n) (state : State)
    (moved : Bool) : (s.settle i rule state moved).cells.entry j = s.cells.entry j :=
  Table.entry_put_ne _ h _

/-- Two sweeps have the same node and cell at `i`. -/
def Agree (i : Fin n) (s t : Sweep n) : Prop :=
  s.nodes.entry i = t.nodes.entry i ∧ s.cells.entry i = t.cells.entry i

/-- The condition at `i` had its turn: `s₀` is the sweep before and `s` the one after the run. -/
inductive Turned (e : Event) (verdicts : Array Verdict) (s₀ s : Sweep n) (i : Fin n) : Prop
  | simple {x simple request} : (s₀.nodes.entry i).resolved? = some x →
      x.rule = .simple simple → simple.request e verdicts = .ok request →
      Agree i s (s₀.settle i (.simple (simple.serve request).1)
        ((simple.serve request).2.state.getD x.aggregate) (simple.serve request).2.slicesMoved) →
      Turned e verdicts s₀ s i
  | combination {x c} : (s₀.nodes.entry i).resolved? = some x → x.rule = .combination c →
      Agree i s (s₀.settle i (.combination c)
        (c.evaluate fun child => (s.cells.entry child).state)
        (c.children.any fun child => (s.cells.entry child).sliceChanged)) →
      Turned e verdicts s₀ s i

/-- What the listed conditions' turns made of `s₀`, where only relevant ones have one. -/
structure Swept (e : Event) (verdicts : Array Verdict) (relevant : Fin n → Bool) (s₀ : Sweep n)
    (done : List (Fin n)) (s : Sweep n) : Prop where
  kept : ∀ i, i ∉ done ∨ relevant i = false → Agree i s s₀
  turned : ∀ i ∈ done, relevant i = true → Turned e verdicts s₀ s i

/-- Settling one node of a sweep does to it what settling does to the same node elsewhere, whatever
its cell showed before. -/
theorem agree_settle {s t : Sweep n} {i : Fin n} (h : s.nodes.entry i = t.nodes.entry i)
    (rule : Rule n) (state : State) (moved : Bool) :
    Agree i (s.settle i rule state moved) (t.settle i rule state moved) := by
  constructor
  · rw [node_settle_self, node_settle_self, h]
  · rw [cell_settle_self, cell_settle_self, h]

/-- A turn reads nothing of the cells before the run. -/
theorem Turned.of_nodes {s₀ t₀ s : Sweep n} {i : Fin n} (h : Turned e verdicts s₀ s i)
    (hnode : t₀.nodes.entry i = s₀.nodes.entry i) : Turned e verdicts t₀ s i := by
  cases h with
  | simple hx hrule hrequest hs =>
    have hsame := agree_settle hnode.symm
    exact .simple (hnode ▸ hx) hrule hrequest
      ⟨hs.1.trans (hsame ..).1, hs.2.trans (hsame ..).2⟩
  | combination hx hrule hs =>
    have hsame := agree_settle hnode.symm
    exact .combination (hnode ▸ hx) hrule ⟨hs.1.trans (hsame ..).1, hs.2.trans (hsame ..).2⟩

theorem children_of_combination {node : Node n} {x : Resolved n} {c : Combination (Fin n)}
    (hx : node.resolved? = some x) (hrule : x.rule = .combination c) :
    node.children = c.children := by
  rw [Node.children, hx]
  simp [hrule, Rule.children]

/-- A combination reads nothing but the cells of its children. -/
theorem evaluate_congr {c : Combination (Fin n)} {s t : Sweep n}
    (h : ∀ child ∈ c.children, t.cells.entry child = s.cells.entry child) :
    (c.evaluate fun child => (t.cells.entry child).state) =
        (c.evaluate fun child => (s.cells.entry child).state) ∧
      (c.children.any fun child => (t.cells.entry child).sliceChanged) =
        c.children.any fun child => (s.cells.entry child).sliceChanged := by
  constructor
  · refine congrArg (combine c.operator) (List.map_congr_left fun child hchild => ?_)
    rw [h child hchild]
  · rw [Bool.eq_iff_iff, List.any_eq_true, List.any_eq_true]
    refine exists_congr fun child => and_congr_right fun hchild => ?_
    rw [h child hchild]

/-- What a turn did stays done while neither the node nor its children are touched. -/
theorem Turned.congr {s₀ s t : Sweep n} {i : Fin n} (h : Turned e verdicts s₀ s i)
    (hi : Agree i t s)
    (hc : ∀ c ∈ (s₀.nodes.entry i).children, t.cells.entry c = s.cells.entry c) :
    Turned e verdicts s₀ t i := by
  cases h with
  | simple hx hrule hrequest hs =>
    exact .simple hx hrule hrequest ⟨hi.1.trans hs.1, hi.2.trans hs.2⟩
  | combination hx hrule hs =>
    rw [children_of_combination hx hrule] at hc
    obtain ⟨hstate, hmoved⟩ := evaluate_congr hc
    refine .combination hx hrule ?_
    rw [hstate, hmoved]
    exact ⟨hi.1.trans hs.1, hi.2.trans hs.2⟩

/-- Two turns end alike if the condition was the same before both, was asked the same and read the
same of its children. The runs may be over different events. -/
theorem Turned.agree_of_asked {e' : Event} {verdicts' : Array Verdict} {s₀ t₀ s t : Sweep n} {i : Fin n}
    (hs : Turned e verdicts s₀ s i) (ht : Turned e' verdicts' t₀ t i)
    (hnode : s₀.nodes.entry i = t₀.nodes.entry i)
    (hasked : ∀ simple, (s₀.nodes.entry i).simple? = some simple →
      simple.request e verdicts = simple.request e' verdicts')
    (hc : ∀ c ∈ (s₀.nodes.entry i).children, s.cells.entry c = t.cells.entry c) :
    Agree i s t := by
  have hsame := agree_settle hnode
  cases hs with
  | @simple x simple request hx hrule hrequest hs =>
    rw [hasked simple (Node.simple?_eq_some_iff.2 ⟨x, hx, hrule⟩)] at hrequest
    rw [hnode] at hx
    cases ht with
    | simple hx' hrule' hrequest' ht =>
      cases hx.symm.trans hx'
      cases hrule.symm.trans hrule'
      cases hrequest.symm.trans hrequest'
      exact ⟨(hs.1.trans (hsame ..).1).trans ht.1.symm, (hs.2.trans (hsame ..).2).trans ht.2.symm⟩
    | combination hx' hrule' _ =>
      cases hx.symm.trans hx'
      cases hrule.symm.trans hrule'
  | combination hx hrule hs =>
    rw [children_of_combination hx hrule] at hc
    rw [hnode] at hx
    cases ht with
    | simple hx' hrule' _ _ =>
      cases hx.symm.trans hx'
      cases hrule.symm.trans hrule'
    | combination hx' hrule' ht =>
      cases hx.symm.trans hx'
      cases hrule.symm.trans hrule'
      obtain ⟨hstate, hmoved⟩ := evaluate_congr hc
      rw [hstate, hmoved] at hs
      exact ⟨(hs.1.trans (hsame ..).1).trans ht.1.symm, (hs.2.trans (hsame ..).2).trans ht.2.symm⟩

/-- Of two runs from the same start, a condition that had its turn in both, and whose children ended
alike, ended alike. -/
theorem Turned.agree {s₀ s t : Sweep n} {i : Fin n} (hs : Turned e verdicts s₀ s i)
    (ht : Turned e verdicts s₀ t i)
    (hc : ∀ c ∈ (s₀.nodes.entry i).children, s.cells.entry c = t.cells.entry c) :
    Agree i s t :=
  hs.agree_of_asked ht rfl (fun _ _ => rfl) hc

/-- The condition is resolved, and what an event asks of it can be told. -/
def Ready (e : Event) (verdicts : Array Verdict) (s : Sweep n) (i : Fin n) : Prop :=
  ∃ x, (s.nodes.entry i).resolved? = some x ∧
    ∀ simple, x.rule = .simple simple → ∃ request, simple.request e verdicts = .ok request

/-- A resolved condition is ready if there are verdicts on the matchers that it reads. -/
theorem Ready.of_reads {s : Sweep n} {i : Fin n} (hresolved : (s.nodes.entry i).resolved? ≠ none)
    (h : ∀ m ∈ (s.nodes.entry i).reads, m < verdicts.size) : Ready e verdicts s i := by
  obtain ⟨x, hx⟩ := Option.ne_none_iff_exists'.1 hresolved
  refine ⟨x, hx, fun simple hrule => ⟨_, Simple.request_eq_ok fun m hm => h m ?_⟩⟩
  rw [Node.reads, hx]
  show m ∈ x.rule.reads
  rw [hrule]
  exact hm

/-- A condition that is ready has a turn. -/
theorem Ready.turn {s : Sweep n} {i : Fin n} (h : Ready e verdicts s i) :
    ∃ s', Turn e verdicts s i s' := by
  obtain ⟨x, hx, hready⟩ := h
  cases hrule : x.rule with
  | simple simple =>
    obtain ⟨request, hrequest⟩ := hready simple hrule
    exact ⟨_, .simple hx hrule hrequest⟩
  | combination c => exact ⟨_, .combination hx hrule⟩

/-- One more turn, of a condition whose children had theirs. -/
theorem Swept.turn {relevant : Fin n → Bool} {s₀ s s' : Sweep n} {done : List (Fin n)} {i : Fin n}
    (h : Swept e verdicts relevant s₀ done s) (hrel : relevant i = true) (hi : i ∉ done)
    (hclosed : ∀ j ∈ done, ∀ c ∈ (s₀.nodes.entry j).children, c ∈ done)
    (hchildren : ∀ c ∈ (s₀.nodes.entry i).children, c ∈ done)
    (hturn : Turn e verdicts s i s') : Swept e verdicts relevant s₀ (done ++ [i]) s' := by
  have hbefore : Agree i s s₀ := h.kept i (.inl hi)
  have hother : ∀ j, j ≠ i → Agree j s' s := by
    obtain ⟨x, rule, state, moved, -, -, rfl⟩ := hturn.settled
    exact fun j hj => ⟨node_settle_ne s hj .., cell_settle_ne s hj ..⟩
  have hne : ∀ j ∈ done, j ≠ i := by
    rintro j hj rfl
    exact hi hj
  have hcells : ∀ c ∈ (s₀.nodes.entry i).children, s'.cells.entry c = s.cells.entry c :=
    fun c hc => (hother c (hne c (hchildren c hc))).2
  refine ⟨fun j hj => ?_, fun j hj hrelj => ?_⟩
  · have hji : j ≠ i := by
      rintro rfl
      rcases hj with hj | hj
      · exact hj (by simp)
      · simp [hrel] at hj
    have hkept := h.kept j (hj.imp_left fun hj hmem => hj (List.mem_append_left _ hmem))
    exact ⟨(hother j hji).1.trans hkept.1, (hother j hji).2.trans hkept.2⟩
  · rcases List.mem_append.1 hj with hj | hj
    · exact (h.turned j hj hrelj).congr (hother j (hne j hj))
        fun c hc => (hother c (hne c (hclosed j hj c hc))).2
    · obtain rfl := List.mem_singleton.1 hj
      -- the turn read the node as it was at the start, and cells that it does not touch
      cases hturn with
      | simple hx hrule hrequest =>
        rw [hbefore.1] at hx
        exact .simple hx hrule hrequest (agree_settle hbefore.1 ..)
      | combination hx hrule =>
        rw [hbefore.1] at hx
        rw [children_of_combination hx hrule] at hcells
        obtain ⟨hstate, hmoved⟩ := evaluate_congr hcells
        refine .combination hx hrule ?_
        rw [hstate, hmoved]
        exact agree_settle hbefore.1 ..

/-- A condition that is not relevant is passed over. -/
theorem Swept.skip {relevant : Fin n → Bool} {s₀ s : Sweep n} {done : List (Fin n)} {i : Fin n}
    (h : Swept e verdicts relevant s₀ done s) (hrel : relevant i = false) :
    Swept e verdicts relevant s₀ (done ++ [i]) s := by
  refine ⟨fun j hj => ?_, fun j hj hrelj => ?_⟩
  · exact h.kept j (hj.imp_left fun hj hmem => hj (List.mem_append_left _ hmem))
  · rcases List.mem_append.1 hj with hj | hj
    · exact h.turned j hj hrelj
    · obtain rfl := List.mem_singleton.1 hj
      simp [hrel] at hrelj

/-- A run along one list and then another is a run along both. -/
theorem run_append {relevant : Fin n → Bool} (done rest : List (Fin n)) (s : Sweep n) :
    (run e verdicts relevant (done ++ rest) s).result =
      (run e verdicts relevant done s).result >>= fun s =>
        (run e verdicts relevant rest s).result := by
  induction done generalizing s with
  | nil => rfl
  | cons i done ih =>
    rw [List.cons_append, run, run]
    split
    · rw [Logged.result_bind, Logged.result_bind]
      cases (s.turn e verdicts i).result with
      | error fault => rfl
      | ok s₁ => exact ih s₁
    · exact ih s

/-- What a run along one more condition makes of a run so far. -/
theorem Swept.next {relevant : Fin n → Bool} {s₀ s s' : Sweep n} {done : List (Fin n)} {i : Fin n}
    (h : Swept e verdicts relevant s₀ done s) (hi : i ∉ done)
    (hclosed : ∀ j ∈ done, ∀ c ∈ (s₀.nodes.entry j).children, c ∈ done)
    (hchildren : ∀ c ∈ (s₀.nodes.entry i).children, c ∈ done)
    (hrun : (run e verdicts relevant [i] s).result = .ok s') :
    Swept e verdicts relevant s₀ (done ++ [i]) s' := by
  rw [run] at hrun
  split at hrun
  · next hrel =>
    obtain ⟨s₁, hturn, hlast⟩ := Logged.result_bind_eq_ok_iff.1 hrun
    obtain rfl : s₁ = s' := Except.ok.inj hlast
    exact h.turn hrel hi hclosed hchildren (turn_eq_ok_iff.1 hturn)
  · next hrel =>
    obtain rfl : s = s' := Except.ok.inj hrun
    exact h.skip (by simpa using hrel)

/-- A run along an order with children first that ends well gave each relevant condition its
turn. -/
theorem swept_of_run {g : Graph n} (hg : g.Ordered) {relevant : Fin n → Bool} {s₀ s : Sweep n}
    (hnodes : s₀.nodes = g.nodes) (hrun : (run e verdicts relevant g.order s₀).result = .ok s) :
    Swept e verdicts relevant s₀ g.order s := by
  refine hg.order_induction (P := fun done => ∀ s, (run e verdicts relevant done s₀).result = .ok s →
    Swept e verdicts relevant s₀ done s) ?_ ?_ s hrun
  · intro s hrun
    obtain rfl : s₀ = s := Except.ok.inj hrun
    exact ⟨fun _ _ => ⟨rfl, rfl⟩, fun _ hi => by cases hi⟩
  · intro done i hi hchildren hclosed ih s' hrun
    rw [← hnodes] at hchildren hclosed
    rw [run_append] at hrun
    cases hdone : (run e verdicts relevant done s₀).result with
    | error fault =>
      rw [hdone] at hrun
      exact nomatch hrun
    | ok s =>
      rw [hdone] at hrun
      exact (ih s hdone).next hi hclosed hchildren hrun

/-- A run along an order with children first, if each condition that takes part is ready. -/
theorem run_swept {g : Graph n} (hg : g.Ordered) {relevant : Fin n → Bool} {s₀ : Sweep n}
    (hnodes : s₀.nodes = g.nodes) (hready : ∀ i, relevant i = true → Ready e verdicts s₀ i) :
    ∃ s, (run e verdicts relevant g.order s₀).result = .ok s ∧
      Swept e verdicts relevant s₀ g.order s := by
  refine hg.order_induction (P := fun done => ∃ s,
    (run e verdicts relevant done s₀).result = .ok s ∧ Swept e verdicts relevant s₀ done s)
    ⟨s₀, rfl, fun _ _ => ⟨rfl, rfl⟩, fun _ hi => by cases hi⟩ ?_
  rintro done i hi hchildren hclosed ⟨s, hrun, h⟩
  rw [← hnodes] at hchildren hclosed
  simp only [run_append, hrun, ok_bind]
  -- the next condition is still as it was at the start, so it has its turn if it is to have one
  have hnext : ∃ s', (run e verdicts relevant [i] s).result = .ok s' := by
    rw [run]
    split
    · next hrel =>
      have hready' : Ready e verdicts s i := by
        have := hready i hrel
        rwa [Ready, ← (h.kept i (.inl hi)).1] at this
      obtain ⟨s₁, hturn⟩ := hready'.turn
      exact ⟨s₁, Logged.result_bind_of_ok (turn_eq_ok_iff.2 hturn) _⟩
    · exact ⟨s, rfl⟩
  obtain ⟨s', hrun'⟩ := hnext
  exact ⟨s', hrun', h.next hi hclosed hchildren hrun'⟩

end Sweep

end EventConditions
