import EventConditions.Proofs.Graph.Answers

/-!
# One graph inside another

A graph is embedded in another one if each of its conditions has a counterpart there that is driven
in the same way: a simple condition one with the same settings, and a combination one that joins the
counterparts of its children by the same operator. Which other conditions there are, the order of
evaluation, and the order and number of the children of a combination are left open, but for `not`.

Whatever is computed of the conditions from the simple ones upwards is the same of a condition and
of its counterpart (`Graph.Embeds.agree`). So two such graphs that agree on their simple conditions
agree on all states and answers, and go on doing so as long as events ask the same of both
(`Graph.Alike.turned`).
-/

namespace EventConditions

variable {n m : Nat} {φ : Fin n → Fin m}

/-- The second combination joins the counterparts of what the first one joins. -/
structure Combination.Embeds (c : Combination (Fin n)) (c' : Combination (Fin m))
    (φ : Fin n → Fin m) : Prop where
  operator : c'.operator = c.operator
  children : ∀ k, k ∈ c'.children ↔ ∃ j ∈ c.children, φ j = k
  /-- An opposite is that of the first child. -/
  listed : c.operator = .not → c'.children = c.children.map φ

/-- Combinations of the same states are in the same state. -/
theorem Combination.Embeds.evaluate_eq {c : Combination (Fin n)} {c' : Combination (Fin m)}
    (h : c.Embeds c' φ) {state : Fin n → State} {state' : Fin m → State}
    (hsame : ∀ j ∈ c.children, state' (φ j) = state j) : c'.evaluate state' = c.evaluate state := by
  rw [evaluate, evaluate, h.operator]
  refine combine_congr (fun s => ?_) fun hnot => ?_
  · rw [List.mem_map, List.mem_map]
    constructor
    · rintro ⟨k, hk, rfl⟩
      obtain ⟨j, hj, rfl⟩ := (h.children k).1 hk
      exact ⟨j, hj, (hsame j hj).symm⟩
    · rintro ⟨j, hj, rfl⟩
      exact ⟨φ j, (h.children _).2 ⟨j, hj, rfl⟩, hsame j hj⟩
  · rw [h.listed hnot, List.map_map]
    exact List.map_congr_left hsame

namespace Graph

variable {g : Graph n} {g' : Graph m}

/-- Each condition of the first graph has a counterpart in the second that is driven in the same
way. -/
structure Embeds (g : Graph n) (g' : Graph m) (φ : Fin n → Fin m) : Prop where
  name : ∀ i, (g'.nodes.entry (φ i)).name = (g.nodes.entry i).name
  simple : ∀ i s, (g.nodes.entry i).simple? = some s →
    ∃ s', (g'.nodes.entry (φ i)).simple? = some s' ∧ s'.countNesting = s.countNesting ∧
      s'.dimensions = s.dimensions ∧ s'.maxSlices = s.maxSlices
  combination : ∀ i x c, (g.nodes.entry i).resolved? = some x → x.rule = .combination c →
    ∃ x' c', (g'.nodes.entry (φ i)).resolved? = some x' ∧ x'.rule = .combination c' ∧
      c.Embeds c' φ

/-- States are given for all conditions, of which those of combinations join those of the
children. -/
def Joined (g : Graph n) (state : Fin n → State) : Prop :=
  ∀ i x c, (g.nodes.entry i).resolved? = some x → x.rule = .combination c →
    state i = c.evaluate state

theorem Coherent.joined_aggregates (hg : g.Coherent) :
    g.Joined fun i => (g.nodes.entry i).aggregate :=
  fun _ _ _ hx hrule => hg.aggregate_combination hx hrule

theorem Coherent.joined_answers (hg : g.Coherent) (q : Query) : g.Joined (g.answers q).entry :=
  fun _ _ _ hx hrule => hg.ordered.answers_combination q hx hrule

/-- What simple conditions and their counterparts agree on, all conditions and theirs do. -/
theorem Embeds.agree (h : g.Embeds g' φ) (hg : g.Coherent) {state : Fin n → State}
    {state' : Fin m → State} (hstate : g.Joined state) (hstate' : g'.Joined state')
    (hsimple : ∀ i s, (g.nodes.entry i).simple? = some s → state' (φ i) = state i) (i : Fin n) :
    state' (φ i) = state i := by
  induction i using hg.ordered.induction with
  | step i ih =>
    obtain ⟨x, hx⟩ := Option.ne_none_iff_exists'.1 (hg.resolved i)
    cases hrule : x.rule with
    | simple s => exact hsimple i s (Node.simple?_eq_some_iff.2 ⟨x, hx, hrule⟩)
    | combination c =>
      obtain ⟨x', c', hx', hrule', hc⟩ := h.combination i x c hx hrule
      rw [Sweep.children_of_combination hx hrule] at ih
      rw [hstate i x c hx hrule, hstate' _ x' c' hx' hrule']
      exact hc.evaluate_eq ih

/-- Conditions and their counterparts hold the same slices and are in the same states. -/
structure Alike (g : Graph n) (g' : Graph m) (φ : Fin n → Fin m) : Prop extends Embeds g g' φ where
  slices : ∀ i s s', (g.nodes.entry i).simple? = some s →
    (g'.nodes.entry (φ i)).simple? = some s' → s'.slices = s.slices
  state : ∀ i, (g'.nodes.entry (φ i)).aggregate = (g.nodes.entry i).aggregate

/-- Only simple conditions and their counterparts hold slices. -/
theorem Alike.slices_eq (h : g.Alike g' φ) (hg : g.Coherent) (i : Fin n) :
    (g'.nodes.entry (φ i)).simple?.map Simple.slices =
      (g.nodes.entry i).simple?.map Simple.slices := by
  obtain ⟨x, hx⟩ := Option.ne_none_iff_exists'.1 (hg.resolved i)
  cases hrule : x.rule with
  | simple s =>
    have hs := Node.simple?_eq_some_iff.2 ⟨x, hx, hrule⟩
    obtain ⟨s', hs', -⟩ := h.simple i s hs
    rw [hs, hs', Option.map_some, Option.map_some, h.slices i s s' hs hs']
  | combination c =>
    obtain ⟨x', c', hx', hrule', -⟩ := h.combination i x c hx hrule
    rw [Node.simple?_of_combination hx hrule, Node.simple?_of_combination hx' hrule']

/-- Conditions and their counterparts answer alike. -/
theorem Alike.answers_eq (h : g.Alike g' φ) (hg : g.Coherent) (hg' : g'.Coherent) (q : Query)
    (i : Fin n) : (g'.answers q).entry (φ i) = (g.answers q).entry i := by
  refine h.agree hg (hg.joined_answers q) (hg'.joined_answers q) (fun i s hs => ?_) i
  obtain ⟨s', hs', -, hdimensions, -⟩ := h.simple i s hs
  rw [hg.ordered.answers_simple q hs, hg'.ordered.answers_simple q hs', h.name, h.state, Simple.query,
    Simple.query, hdimensions, h.slices i s s' hs hs']

/-- A pass that asks the same of simple conditions and their counterparts leaves them alike, and
changes the same ones. -/
theorem Alike.turned {e e' : Event} {verdicts verdicts' : Array Verdict} {s : Sweep n}
    {s' : Sweep m} {g₁ : Graph n} {g₁' : Graph m} (h : g.Alike g' φ)
    (hturned : ∀ i, Sweep.Turned e verdicts g.opening s i)
    (hturned' : ∀ i, Sweep.Turned e' verdicts' g'.opening s' i)
    (hasked : ∀ i simple simple', (g.nodes.entry i).simple? = some simple →
      (g'.nodes.entry (φ i)).simple? = some simple' →
      simple'.request e' verdicts' = simple.request e verdicts)
    (hnodes : g₁.nodes = s.nodes) (hnodes' : g₁'.nodes = s'.nodes) (hg₁ : g₁.Coherent)
    (hg₁' : g₁'.Coherent) (hafter : g₁.Embeds g₁' φ) :
    g₁.Alike g₁' φ ∧
      ∀ i, (s'.cells.entry (φ i)).changed = (s.cells.entry i).changed := by
  -- a simple condition and its counterpart serve the same request
  have hserved : ∀ i simple₁ simple₁', (s.nodes.entry i).simple? = some simple₁ →
      (s'.nodes.entry (φ i)).simple? = some simple₁' → simple₁'.slices = simple₁.slices ∧
        (s'.nodes.entry (φ i)).aggregate = (s.nodes.entry i).aggregate := by
    intro i simple₁ simple₁' hsimple₁ hsimple₁'
    obtain ⟨simple, hsimple⟩ := (hturned i).simple_before hsimple₁
    obtain ⟨simple', hsimple', hnesting, -, hlimit⟩ := h.simple i simple hsimple
    obtain ⟨request, hrequest, hleft, hstate, -⟩ := (hturned i).of_simple hsimple
    obtain ⟨request', hrequest', hleft', hstate', -⟩ := (hturned' (φ i)).of_simple hsimple'
    rw [hasked i simple simple' hsimple hsimple'] at hrequest'
    obtain rfl := Except.ok.inj (hrequest.symm.trans hrequest')
    obtain rfl := Option.some.inj (hleft.symm.trans hsimple₁)
    obtain rfl := Option.some.inj (hleft'.symm.trans hsimple₁')
    obtain ⟨hslices, houtcome⟩ := Simple.serve_congr hnesting hlimit
      (h.slices i simple simple' hsimple hsimple') request
    exact ⟨hslices, by rw [hstate', hstate, houtcome, h.state]⟩
  have hstate : ∀ i, (g₁'.nodes.entry (φ i)).aggregate = (g₁.nodes.entry i).aggregate := by
    refine hafter.agree hg₁ hg₁.joined_aggregates hg₁'.joined_aggregates fun i simple₁ hsimple₁ => ?_
    obtain ⟨simple₁', hsimple₁', -⟩ := hafter.simple i simple₁ hsimple₁
    rw [hnodes] at hsimple₁ ⊢
    rw [hnodes'] at hsimple₁' ⊢
    exact (hserved i simple₁ simple₁' hsimple₁ hsimple₁').2
  refine ⟨⟨hafter, fun i simple₁ simple₁' hsimple₁ hsimple₁' => ?_, hstate⟩, fun i => ?_⟩
  · rw [hnodes] at hsimple₁
    rw [hnodes'] at hsimple₁'
    exact (hserved i simple₁ simple₁' hsimple₁ hsimple₁').1
  · have hbefore := h.state i
    have hthen := hstate i
    rw [hnodes, hnodes'] at hthen
    rw [(hturned i).changed_eq, (hturned' (φ i)).changed_eq, hthen]
    show (_ != (g'.nodes.entry (φ i)).aggregate) = (_ != (g.nodes.entry i).aggregate)
    rw [hbefore]

end Graph

end EventConditions
