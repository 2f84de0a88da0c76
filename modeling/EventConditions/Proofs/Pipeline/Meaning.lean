import EventConditions.Proofs.Operator
import EventConditions.Proofs.Pipeline.History

/-!
# What the state of a condition means

The meaning of a condition after a history of events is defined from the configuration alone, by
name: that of a simple condition is the state of its ledger, and that of a combination joins the
meanings of its children (`Config.Means`). A pipeline computes it in another way, over a graph of
indices, with verdicts that are computed once per event, passes that leave conditions out, and
states kept both in the graph and on the board. `Pipeline.run_means` says that whatever is fed to
it, both of these states are the meaning.
-/

namespace EventConditions

/-- What a condition of the given name means after a history. -/
inductive Config.Means (c : Config) (history : List Event) : String → State → Prop
  | simple {condition spec} : condition ∈ c.conditions → condition.spec = .simple spec →
      Means c history condition.name (Ledger.after c spec history).state
  | combination {condition operator children states} : condition ∈ c.conditions →
      condition.spec = .combination operator children →
      List.Forall₂ (Means c history) children states →
      Means c history condition.name (operator.join states)

/-! ## States are meanings -/

namespace Config

variable {c : Config} {events : List Event}

/-- A simple condition means the state of its ledger. -/
theorem means_simple_iff (hnames : (c.conditions.map Condition.name).Nodup) {condition : Condition}
    (hmem : condition ∈ c.conditions) {spec : SimpleSpec} (hspec : condition.spec = .simple spec)
    {s : State} :
    c.Means events condition.name s ↔ s = (Ledger.after c spec events).state := by
  constructor
  · intro hmeans
    generalize hname : condition.name = name at hmeans
    cases hmeans with
    | simple hmem' hspec' =>
      obtain rfl := List.inj_on_of_nodup_map hnames hmem hmem' hname
      obtain rfl := Spec.simple.inj (hspec.symm.trans hspec')
      rfl
    | combination hmem' hspec' _ =>
      obtain rfl := List.inj_on_of_nodup_map hnames hmem hmem' hname
      exact nomatch hspec.symm.trans hspec'
  · rintro rfl
    exact .simple hmem hspec

/-- A combination means what its operator makes of the meanings of its children. -/
theorem means_combination_iff (hnames : (c.conditions.map Condition.name).Nodup)
    {condition : Condition} (hmem : condition ∈ c.conditions) {operator : Operator}
    {children : List String} (hspec : condition.spec = .combination operator children) {s : State} :
    c.Means events condition.name s ↔
      ∃ states, List.Forall₂ (c.Means events) children states ∧ s = operator.join states := by
  constructor
  · intro hmeans
    generalize hname : condition.name = name at hmeans
    cases hmeans with
    | simple hmem' hspec' =>
      obtain rfl := List.inj_on_of_nodup_map hnames hmem hmem' hname
      exact nomatch hspec.symm.trans hspec'
    | @combination _ _ _ states hmem' hspec' hstates =>
      obtain rfl := List.inj_on_of_nodup_map hnames hmem hmem' hname
      obtain ⟨rfl, rfl⟩ := Spec.combination.inj (hspec.symm.trans hspec')
      exact ⟨states, hstates, rfl⟩
  · rintro ⟨states, hstates, rfl⟩
    exact .combination hmem hspec hstates

/-- Names of children mean what the children's states are, if each single name does. -/
theorem forall₂_means_iff {n : Nat} {names : NameIndex} {value : Fin n → State}
    {childNames : List String} {children : List (Fin n)}
    (hnames : childNames.map names.get? = children.map fun child => some child.val)
    (hchild : ∀ child ∈ children, ∀ name, names.get? name = some child.val →
      ∀ s, c.Means events name s ↔ s = value child) {states : List State} :
    List.Forall₂ (c.Means events) childNames states ↔ states = children.map value := by
  induction childNames generalizing children states with
  | nil =>
    obtain rfl := List.map_eq_nil_iff.1 hnames.symm
    exact List.forall₂_nil_left_iff
  | cons name rest ih =>
    cases children with
    | nil => exact nomatch hnames
    | cons child others =>
      obtain ⟨hget, hrest⟩ := List.cons.inj hnames
      have hname := hchild child List.mem_cons_self name hget
      have hothers : ∀ states, List.Forall₂ (c.Means events) rest states ↔
          states = others.map value := fun _ =>
        ih hrest fun child hmem => hchild child (List.mem_cons_of_mem _ hmem)
      rw [List.forall₂_cons_left_iff, List.map_cons]
      constructor
      · rintro ⟨s, ss, hs, hss, rfl⟩
        rw [(hname s).1 hs, (hothers ss).1 hss]
      · rintro rfl
        exact ⟨_, _, (hname _).2 rfl, (hothers _).2 rfl, rfl⟩

end Config

namespace Pipeline

variable {config : Config} {p : Pipeline config.conditions.length} {events : List Event}

/-- Each state in the graph is the meaning of its condition, and the only one. -/
theorem Tracks.means_iff (h : p.Tracks config events)
    (hnames : (config.conditions.map Condition.name).Nodup)
    (hwellFormed : ∀ condition ∈ config.conditions, condition.spec.defect? = none)
    (i : Fin config.conditions.length) (s : State) :
    config.Means events (config.conditions.get i).name s ↔
      s = (p.graph.nodes.entry i).aggregate := by
  -- by the order of the graph: the meanings of the children are known
  induction i using h.coherent.ordered.induction generalizing s with
  | step i ih =>
    obtain ⟨x, hx, -, hrenders, -⟩ := h.represents i
    have hmem : config.conditions.get i ∈ config.conditions := List.get_mem _ i
    have hdefect := Spec.defect?_eq_none_iff.1 (hwellFormed _ hmem)
    rw [Node.aggregate_of_resolved hx]
    generalize hspec : (config.conditions.get i).spec = spec at hrenders hdefect
    generalize hrule : x.rule = rule at hrenders
    cases hrenders with
    | simple =>
      rw [Config.means_simple_iff hnames hmem hspec, (h.ledgers i x _ _ hx hrule hspec).2]
    | @combination operator childNames children hchildren =>
      have hmeans : ∀ states, List.Forall₂ (config.Means events) childNames states ↔
          states = children.map fun child => (p.graph.nodes.entry child).aggregate := by
        refine fun _ => Config.forall₂_means_iff hchildren fun child hchild name hget => ?_
        obtain ⟨-, -, hname, -⟩ := h.represents child
        obtain ⟨_, rfl⟩ := Graph.name_of_get?_names hget
        rw [← hname]
        exact ih child (Sweep.children_of_combination hx hrule ▸ hchild)
      have hlength : children.length = childNames.length := by
        rw [← List.length_map (fun child : Fin _ => some child.val), ← hchildren, List.length_map]
      have hjoin : x.aggregate =
          operator.join (children.map fun child => (p.graph.nodes.entry child).aggregate) := by
        rw [h.coherent.combined i x _ hx hrule, Combination.evaluate]
        refine combine_eq_join fun hnot => ?_
        rw [List.length_map, hlength]
        exact hdefect.2 hnot
      rw [Config.means_combination_iff hnames hmem hspec, hjoin]
      simp only [hmeans, exists_eq_left]

/-- **The meaning of a pipeline.** Feed any events, fewer than 2³² of them, to the pipeline of an
accepted configuration, with requests for slice reports anywhere in between. It ends well, and for
every condition the state on the board, the state in the graph and the meaning after the events are
the same. -/
theorem run_means {config : Config} {p : Pipeline config.conditions.length}
    (hload : (load config).result = .ok (.ok p)) {steps : List Step}
    (hlength : (history steps).length < 4294967296) :
    ∃ p', (steps.foldlM step p).result = .ok p' ∧ ∀ condition ∈ config.conditions, ∃ i s,
      p'.graph.indexOf? condition.name = some i ∧ p'.state? condition.name = .ok (some s) ∧
      (p'.graph.nodes.entry i).aggregate = s ∧
      ∀ s', config.Means (history steps) condition.name s' ↔ s' = s := by
  have hloads := load_eq_ok_iff.1 hload
  obtain ⟨hnames, hresolvable⟩ := hloads.resolvable
  have hroom : ([] ++ history steps).length ≤ Slices.maxCount := Nat.le_of_lt_succ hlength
  obtain ⟨p', hrun, htracks⟩ := (Tracks.of_loads hloads).run hroom
  rw [List.nil_append] at htracks
  refine ⟨p', hrun, fun condition hmem => ?_⟩
  obtain ⟨k, hk, rfl⟩ := List.getElem_of_mem hmem
  obtain ⟨x, -, hname, -⟩ := htracks.represents ⟨k, hk⟩
  have hget : p'.graph.names.get? config.conditions[k].name = some k :=
    (htracks.invariant.named.slot _ k).2 ⟨hk, hname.symm⟩
  have hindex : p'.graph.indexOf? config.conditions[k].name = some ⟨k, hk⟩ := by
    rw [Graph.indexOf?, hget]
    exact dif_pos hk
  have hsize : k < p'.board.cells.size := by
    rw [htracks.shows.size]
    exact hk
  have hcell : p'.board.cells[k].state = (p'.graph.nodes.entry ⟨k, hk⟩).aggregate :=
    htracks.shows.state ⟨k, hk⟩
  refine ⟨⟨k, hk⟩, _, hindex, ?_, rfl, htracks.means_iff hnames hresolvable.wellFormed ⟨k, hk⟩⟩
  rw [state?, hindex, ← hcell]
  dsimp only
  rw [readAt_eq_ok hsize]
  rfl

/-- A configuration in which events of tag 7 make something busy that is idle else. -/
def idleBusyConfig : Config where
  matchers := [{ name := "begin", tag := 7 }]
  conditions := Graph.idleBusy

/-- Its pipeline before any event. -/
def idleBusyPipeline : Pipeline idleBusyConfig.conditions.length where
  matchers := { matchers := idleBusyConfig.matchers, distinct := by decide }
  graph := Graph.idleBusyIn .unknown .unknown {}
  board := ⟨#[{}, {}]⟩

theorem run_means_idleBusy :
    let steps : List Step := [.setSliced "idle", .event { tag := 7 }, .event { tag := 8 }]
    (load idleBusyConfig).result = .ok (.ok idleBusyPipeline) ∧
      (history steps).length < 4294967296 ∧
      ∃ p', (steps.foldlM step idleBusyPipeline).result = .ok p' ∧
        p'.state? "busy" = .ok (some .holds) ∧ p'.state? "idle" = .ok (some .fails) := by
  intro steps
  have hload : (load idleBusyConfig).result = .ok (.ok idleBusyPipeline) := by
    with_unfolding_all rfl
  have hlength : (history steps).length < 4294967296 := by decide
  have hbusyListed : (⟨"busy", .simple { start := some "begin" }⟩ : Condition) ∈
      idleBusyConfig.conditions := List.mem_cons_of_mem _ List.mem_cons_self
  have hidleListed : (⟨"idle", .combination .not ["busy"]⟩ : Condition) ∈
      idleBusyConfig.conditions := List.mem_cons_self
  have hledger : (Ledger.after idleBusyConfig { start := some "begin" } (history steps)).state
      = .holds := by
    decide
  have hbusy : idleBusyConfig.Means (history steps) "busy" .holds :=
    hledger ▸ .simple hbusyListed rfl
  have hidle : idleBusyConfig.Means (history steps) "idle" .fails :=
    .combination hidleListed rfl (.cons hbusy .nil)
  obtain ⟨p', hrun, hmeans⟩ := run_means hload hlength
  obtain ⟨-, s, -, hs, -, hunique⟩ := hmeans _ hbusyListed
  obtain ⟨-, t, -, ht, -, hunique'⟩ := hmeans _ hidleListed
  obtain rfl := (hunique _).1 hbusy
  obtain rfl := (hunique' _).1 hidle
  exact ⟨hload, hlength, p', hrun, hs, ht⟩

end Pipeline

end EventConditions
