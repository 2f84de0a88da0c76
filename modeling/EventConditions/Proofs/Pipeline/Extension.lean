import EventConditions.Proofs.Graph.Embedding
import EventConditions.Proofs.Pipeline.Answers

/-!
# Extending a configuration

A configuration is extended by more matchers and conditions, put anywhere among its own, and by
listing the children of its combinations in another order or repeatedly. Fed the same events, the
pipelines of both show the same of every condition of the first (`Pipeline.run_extends`), although
all indices, the order of evaluation, the verdicts and the conditions that take part in a pass
differ.

Which matcher matched is told by name (`Config.Extends.matched_iff`), so every event asks the same
of a simple condition in both pipelines. The rest is that one graph is embedded in the other.
-/

namespace EventConditions

/-- The second way of driving a condition is the first, up to the order and number of children where
these do not matter. -/
inductive Spec.Rearranges : Spec → Spec → Prop
  | same {spec : Spec} : Rearranges spec spec
  | children {operator : Operator} {children children' : List String} : operator ≠ .not →
      (∀ name, name ∈ children' ↔ name ∈ children) →
      Rearranges (.combination operator children) (.combination operator children')

/-- The first configuration has all that the second has, and may have more. -/
structure Config.Extends (c' c : Config) : Prop where
  maxSlices : c'.limits.maxSlices = c.limits.maxSlices
  matchers : ∀ m ∈ c.matchers, m ∈ c'.matchers
  conditions : ∀ condition ∈ c.conditions, ∃ condition' ∈ c'.conditions,
    condition'.name = condition.name ∧ condition.spec.Rearranges condition'.spec

namespace Config

variable {c c' : Config}

/-- What matches by the name of a matcher that the smaller configuration has. -/
theorem Extends.matched_iff (h : c'.Extends c) (hdistinct : (c'.matchers.map Matcher.name).Nodup)
    {name? : Option String} (hnamed : ∀ name ∈ name?, name ∈ c.matchers.map Matcher.name)
    (e : Event) : c'.Matched e name? ↔ c.Matched e name? := by
  constructor
  · rintro ⟨m', hm', rfl, hmatches⟩
    obtain ⟨m, hm, hname⟩ := List.mem_map.1 (hnamed m'.name rfl)
    obtain rfl := List.inj_on_of_nodup_map hdistinct (h.matchers m hm) hm' hname
    exact ⟨m, hm, rfl, hmatches⟩
  · rintro ⟨m, hm, hname, hmatches⟩
    exact ⟨m, h.matchers m hm, hname, hmatches⟩

/-- The counterpart of a condition by index has its name, and is driven like it. -/
def Counterparts (c c' : Config) (φ : Fin c.conditions.length → Fin c'.conditions.length) : Prop :=
  ∀ i, (c'.conditions.get (φ i)).name = (c.conditions.get i).name ∧
    (c.conditions.get i).spec.Rearranges (c'.conditions.get (φ i)).spec

/-- The counterpart of a simple condition is the same. -/
theorem Counterparts.spec_simple {φ : Fin c.conditions.length → Fin c'.conditions.length}
    (hφ : Counterparts c c' φ) {i : Fin c.conditions.length} {spec : SimpleSpec}
    (hspec : (c.conditions.get i).spec = .simple spec) :
    (c'.conditions.get (φ i)).spec = .simple spec := by
  have hrearranges := (hφ i).2
  rw [hspec] at hrearranges
  generalize (c'.conditions.get (φ i)).spec = spec' at hrearranges
  cases hrearranges
  rfl

/-- The counterpart of a combination joins conditions of the same names by the same operator. -/
theorem Counterparts.spec_combination {φ : Fin c.conditions.length → Fin c'.conditions.length}
    (hφ : Counterparts c c' φ) {i : Fin c.conditions.length} {operator : Operator}
    {children : List String} (hspec : (c.conditions.get i).spec = .combination operator children) :
    ∃ children', (c'.conditions.get (φ i)).spec = .combination operator children' ∧
      (∀ name, name ∈ children' ↔ name ∈ children) ∧ (operator = .not → children' = children) := by
  have hrearranges := (hφ i).2
  rw [hspec] at hrearranges
  generalize (c'.conditions.get (φ i)).spec = spec' at hrearranges
  cases hrearranges with
  | same => exact ⟨children, rfl, fun _ => Iff.rfl, fun _ => rfl⟩
  | children hnot hsame => exact ⟨_, rfl, hsame, fun h => absurd h hnot⟩

theorem Extends.exists_counterparts (h : c'.Extends c) : ∃ φ, Counterparts c c' φ := by
  have hcounterpart : ∀ i, ∃ k : Fin c'.conditions.length,
      (c'.conditions.get k).name = (c.conditions.get i).name ∧
        (c.conditions.get i).spec.Rearranges (c'.conditions.get k).spec := by
    intro i
    obtain ⟨condition', hmem, hname, hspec⟩ := h.conditions _ (List.get_mem c.conditions i)
    obtain ⟨k, rfl⟩ := List.mem_iff_get.1 hmem
    exact ⟨k, hname, hspec⟩
  choose φ hφ using hcounterpart
  exact ⟨φ, hφ⟩

end Config

namespace Pipeline

variable {c c' : Config} {p : Pipeline c.conditions.length} {p' : Pipeline c'.conditions.length}
  {φ : Fin c.conditions.length → Fin c'.conditions.length}

/-- The graph of a pipeline is embedded in that of the extended configuration. -/
theorem Stands.embeds (h : p.Stands c) (h' : p'.Stands c') (hext : c'.Extends c)
    (hφ : Config.Counterparts c c' φ) : p.graph.Embeds p'.graph φ := by
  refine ⟨fun i => ?_, fun i s hs => ?_, fun i x d hx hrule => ?_⟩
  · rw [h.name_eq, h'.name_eq, (hφ i).1]
  · obtain ⟨spec, hspec, hrenders⟩ := h.of_simple hs
    obtain ⟨s', hs', hrenders'⟩ := h'.exists_simple (hφ.spec_simple hspec)
    cases hrenders with
    | simple _ _ _ hnesting hdimensions _ hlimit =>
      cases hrenders' with
      | simple _ _ _ hnesting' hdimensions' _ hlimit' =>
        refine ⟨s', hs', hnesting'.trans hnesting.symm, hdimensions'.trans hdimensions.symm, ?_⟩
        rw [hlimit, hlimit', hext.maxSlices]
  · obtain ⟨children', hspec', hsame, hnot⟩ := hφ.spec_combination (h.of_combination hx hrule)
    obtain ⟨x', d', hx', hrule', hoperator, hchildren⟩ := h'.exists_combination hspec'
    have hname : ∀ j, (c'.conditions.get (φ j)).name = (c.conditions.get j).name := fun j => (hφ j).1
    refine ⟨x', d', hx', hrule', hoperator, fun k => ?_, fun hop => ?_⟩
    · -- a child of the one is listed exactly if its name is
      have hlisted : k ∈ d'.children ↔ (c'.conditions.get k).name ∈ children' := by
        rw [← hchildren, List.mem_map_of_injective fun _ _ => h'.name_injective]
      rw [hlisted, hsame, List.mem_map]
      refine exists_congr fun j => and_congr_right fun _ => ?_
      rw [← hname j]
      exact ⟨h'.name_injective, fun heq => by rw [heq]⟩
    · have hinjective : Function.Injective fun k => (c'.conditions.get k).name :=
        fun _ _ => h'.name_injective
      refine List.map_injective_iff.2 hinjective ?_
      rw [hchildren, hnot hop, List.map_map]
      exact List.map_congr_left fun j _ => (hname j).symm

/-- Every event asks the same of a simple condition and of its counterpart. -/
theorem Stands.request_eq (h : p.Stands c) (h' : p'.Stands c') (hext : c'.Extends c)
    (hφ : Config.Counterparts c c' φ) (e : Event) {i : Fin c.conditions.length} {s s' : Simple}
    (hs : (p.graph.nodes.entry i).simple? = some s)
    (hs' : (p'.graph.nodes.entry (φ i)).simple? = some s') :
    s'.request e (p'.matchers.verdicts e) = s.request e (p.matchers.verdicts e) := by
  obtain ⟨spec, hspec, hrenders⟩ := h.of_simple hs
  obtain ⟨s'', hs'', hrenders'⟩ := h'.exists_simple (hφ.spec_simple hspec)
  obtain rfl := Option.some.inj (hs'.symm.trans hs'')
  have hdriven := hrenders.driven h.matchers e
  have hdriven' := hrenders'.driven h'.matchers e
  have hdistinct : (c'.matchers.map Matcher.name).Nodup := h'.matchers ▸ p'.matchers.distinct
  have hasked : s'.asked e (matchedIn (p'.matchers.verdicts e)) =
      s.asked e (matchedIn (p.matchers.verdicts e)) := by
    have hmatched : ∀ {name? : Option String} {index? : Option Nat},
        name?.map p.matchers.names.get? = index?.map some →
        (c'.Matched e name? ↔ c.Matched e name?) := fun hindex =>
      hext.matched_iff hdistinct (h.matchers ▸ MatcherSet.mem_names_of_get? hindex) e
    cases hrenders with
    | simple hstart hstop hstopAll _ _ _ _ =>
      refine Simple.asked_congr ?_ ?_ ?_ (hdriven'.dimensions.trans hdriven.dimensions.symm) e
      · rw [Bool.eq_iff_iff, hdriven'.start, hdriven.start, hmatched hstart]
      · rw [Bool.eq_iff_iff, hdriven'.stop, hdriven.stop, hmatched hstop]
      · rw [Bool.eq_iff_iff, hdriven'.stopAll, hdriven.stopAll, hmatched hstopAll]
  rw [Simple.request_eq_ok fun m hm => hrenders.lt_of_mem_reads e hm,
    Simple.request_eq_ok fun m hm => hrenders'.lt_of_mem_reads e hm, hasked]

/-- Two pipelines show the same of a condition and of its counterpart. -/
structure Lockstep (p : Pipeline c.conditions.length) (p' : Pipeline c'.conditions.length)
    (φ : Fin c.conditions.length → Fin c'.conditions.length) : Prop where
  stands : p.Stands c
  stands' : p'.Stands c'
  alike : p.graph.Alike p'.graph φ
  changed : ∀ i, p'.board.cells[(φ i).val]?.map Cell.changed =
    p.board.cells[i.val]?.map Cell.changed

/-- An event keeps two pipelines in lockstep. -/
theorem Lockstep.event (h : Lockstep p p' φ) (hext : c'.Extends c)
    (hφ : Config.Counterparts c c' φ) (e : Event) :
    ∃ q q', (p.step (.event e)).result = .ok q ∧ (p'.step (.event e)).result = .ok q' ∧
      Lockstep q q' φ := by
  obtain ⟨q, summary, s, hfed, hstands, -, -, -, hnodes, hboard, hturned⟩ := h.stands.onEvent e
  obtain ⟨q', summary', s', hfed', hstands', -, -, -, hnodes', hboard', hturned'⟩ :=
    h.stands'.onEvent e
  obtain ⟨halike, hchanged⟩ := h.alike.turned hturned hturned'
    (fun i simple simple' hsimple hsimple' =>
      h.stands.request_eq h.stands' hext hφ e hsimple hsimple')
    hnodes hnodes' hstands.coherent hstands'.coherent (hstands.embeds hstands' hext hφ)
  refine ⟨q, q', Logged.result_bind_of_ok hfed _, Logged.result_bind_of_ok hfed' _, hstands,
    hstands', halike, fun i => ?_⟩
  rw [hboard, hboard']
  simpa [Table.entry] using hchanged i

/-- Events keep two pipelines in lockstep. -/
theorem Lockstep.run (h : Lockstep p p' φ) (hext : c'.Extends c)
    (hφ : Config.Counterparts c c' φ) (events : List Event) :
    ∃ q q', ((events.map Step.event).foldlM step p).result = .ok q ∧
      ((events.map Step.event).foldlM step p').result = .ok q' ∧ Lockstep q q' φ := by
  induction events generalizing p p' with
  | nil => exact ⟨p, p', rfl, rfl, h⟩
  | cons e rest ih =>
    obtain ⟨q, q', hstep, hstep', hnext⟩ := h.event hext hφ e
    rw [List.map_cons, List.foldlM_cons, List.foldlM_cons, Logged.result_bind_of_ok hstep,
      Logged.result_bind_of_ok hstep']
    exact ih hnext

/-- Two pipelines that were just loaded are in lockstep. -/
theorem Lockstep.of_loads (hloads : Loads c p) (hloads' : Loads c' p') (hext : c'.Extends c)
    (hφ : Config.Counterparts c c' φ) : Lockstep p p' φ := by
  have hstands := Stands.of_loads hloads
  have hstands' := Stands.of_loads hloads'
  have hembeds := hstands.embeds hstands' hext hφ
  refine ⟨hstands, hstands', ⟨hembeds, fun i s s' hs hs' => ?_, ?_⟩, fun i => ?_⟩
  · rw [(hloads.starts hs).1, (hloads'.starts hs').1]
  · refine hembeds.agree hstands.coherent hstands.coherent.joined_aggregates
      hstands'.coherent.joined_aggregates fun i s hs => ?_
    obtain ⟨s', hs', -⟩ := hembeds.simple i s hs
    obtain ⟨-, spec, hspec, hstate⟩ := hloads.starts hs
    obtain ⟨-, spec', hspec', hstate'⟩ := hloads'.starts hs'
    obtain rfl := Spec.simple.inj ((hφ.spec_simple hspec).symm.trans hspec')
    rw [hstate, hstate']
  · rw [hloads.changed i, hloads'.changed (φ i)]

/-- **Extending a configuration.** Take the pipelines of an accepted configuration and of an
accepted one that extends it, and feed the same events to both. For every condition of the first
one, both pipelines show the same state, both or neither report it as changed by the latest event,
both hold the same slices with the same counts, and both answer every query alike. -/
theorem run_extends (hload : (load c).result = .ok (.ok p)) (hload' : (load c').result = .ok (.ok p'))
    (hext : c'.Extends c) (events : List Event) :
    ∃ q q', ((events.map Step.event).foldlM step p).result = .ok q ∧
      ((events.map Step.event).foldlM step p').result = .ok q' ∧
      ∀ condition ∈ c.conditions, ∃ i i' s, q.graph.indexOf? condition.name = some i ∧
        q'.graph.indexOf? condition.name = some i' ∧ q.state? condition.name = .ok (some s) ∧
        q'.state? condition.name = .ok (some s) ∧
        (condition.name ∈ q'.changedNames ↔ condition.name ∈ q.changedNames) ∧
        (q'.graph.nodes.entry i').simple?.map Simple.slices =
          (q.graph.nodes.entry i).simple?.map Simple.slices ∧
        ∀ asked, ∃ a, q.query condition.name asked = .ok (some a) ∧
          q'.query condition.name asked = .ok (some a) := by
  obtain ⟨φ, hφ⟩ := hext.exists_counterparts
  obtain ⟨q, q', hrun, hrun', h⟩ := (Lockstep.of_loads (load_eq_ok_iff.1 hload)
    (load_eq_ok_iff.1 hload') hext hφ).run hext hφ events
  refine ⟨q, q', hrun, hrun', fun condition hmem => ?_⟩
  obtain ⟨i, rfl⟩ := List.mem_iff_get.1 hmem
  refine ⟨i, φ i, _, h.stands.indexOf?_eq i, ?_, h.stands.state?_eq i, ?_, ?_, ?_,
    fun asked => ⟨_, h.stands.query_eq i asked, ?_⟩⟩
  · rw [← (hφ i).1]
    exact h.stands'.indexOf?_eq (φ i)
  · rw [← (hφ i).1, h.stands'.state?_eq, h.alike.state]
  · rw [h.stands.mem_changedNames_iff, ← (hφ i).1, h.stands'.mem_changedNames_iff, h.changed]
  · exact h.alike.slices_eq h.stands.coherent i
  · rw [← (hφ i).1, h.stands'.query_eq,
      h.alike.answers_eq h.stands.coherent h.stands'.coherent asked i]

/-- Events of tag 7 make something busy that is idle else, and it is known which once it is
either. -/
def busyOrIdle : Config where
  matchers := [{ name := "begin", tag := 7 }]
  conditions := [⟨"busy", .simple { start := some "begin" }⟩, ⟨"idle", .combination .not ["busy"]⟩,
    ⟨"known", .combination .or ["busy", "idle"]⟩]

/-- The same in another order and among others. -/
def busyOrIdleOrDone : Config where
  matchers := [{ name := "end", tag := 8 }, { name := "begin", tag := 7 }]
  conditions := [⟨"known", .combination .or ["idle", "busy", "idle"]⟩,
    ⟨"done", .simple { start := some "end" }⟩, ⟨"idle", .combination .not ["busy"]⟩,
    ⟨"busy", .simple { start := some "begin" }⟩]

theorem run_extends_busyOrIdle :
    ∃ p p', (load busyOrIdle).result = .ok (.ok p) ∧
      (load busyOrIdleOrDone).result = .ok (.ok p') ∧ busyOrIdleOrDone.Extends busyOrIdle ∧
      ∃ q q', (([{ tag := 8 }, { tag := 7 }].map Step.event).foldlM step p).result = .ok q ∧
        (([{ tag := 8 }, { tag := 7 }].map Step.event).foldlM step p').result = .ok q' ∧
        q.state? "known" = .ok (some .holds) ∧ q'.state? "known" = .ok (some .holds) := by
  obtain ⟨p, hload⟩ : ∃ p, (load busyOrIdle).result = .ok (.ok p) := ⟨_, by with_unfolding_all rfl⟩
  obtain ⟨p', hload'⟩ : ∃ p', (load busyOrIdleOrDone).result = .ok (.ok p') :=
    ⟨_, by with_unfolding_all rfl⟩
  have hext : busyOrIdleOrDone.Extends busyOrIdle := by
    refine ⟨rfl, by decide, fun condition hmem => ?_⟩
    simp only [busyOrIdle, List.mem_cons, List.not_mem_nil, or_false] at hmem
    rcases hmem with rfl | rfl | rfl
    · exact ⟨_, by decide, rfl, .same⟩
    · exact ⟨_, by decide, rfl, .same⟩
    · exact ⟨⟨"known", .combination .or ["idle", "busy", "idle"]⟩, List.mem_cons_self, rfl,
        .children (by decide) (by simp [or_comm])⟩
  obtain ⟨q, q', hrun, hrun', hsame⟩ := run_extends hload hload' hext [{ tag := 8 }, { tag := 7 }]
  obtain ⟨-, -, s, -, -, hstate, hstate', -⟩ :=
    hsame ⟨"known", .combination .or ["busy", "idle"]⟩ (by decide)
  have hfinal : ((load busyOrIdle).result >>= fun outcome =>
      match outcome with
      | .ok p => (([{ tag := 8 }, { tag := 7 }].map Step.event).foldlM step p).result >>= fun q =>
          q.state? "known"
      | .error _ => .ok none) = .ok (some .holds) := by
    with_unfolding_all rfl
  rw [hload, ok_bind] at hfinal
  dsimp only at hfinal
  rw [hrun, ok_bind, hstate] at hfinal
  obtain rfl := Option.some.inj (Except.ok.inj hfinal)
  exact ⟨p, p', hload, hload', hext, q, q', hrun, hrun', hstate, hstate'⟩

end Pipeline

end EventConditions
