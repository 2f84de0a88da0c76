import EventConditions.Proofs.Graph.Answers
import EventConditions.Proofs.Pipeline.Answers
import EventConditions.Proofs.Simple.Holdings

/-!
# When a state is known

A simple condition of which nothing is known at first gets to be known by the first event that takes
effect on it, and a combination is known as soon as all simple conditions below it are. So nothing
is known of a condition exactly while it depends on a simple condition that waits for such an event,
and what is known once stays known (`Pipeline.known_stays`). Answers for single slices are known
exactly when states are.

Which events take effect is said by name. A start for which there is no room is one of them; an
event that lacks a field of the slice is not.
-/

namespace EventConditions

/-- The event stops all slices of a simple condition, or it starts or stops one and has every field
that tells which. -/
def Config.TakesEffect (c : Config) (spec : SimpleSpec) (e : Event) : Prop :=
  c.Matched e spec.stopAll ∨ (c.Matched e spec.start ∨ c.Matched e spec.stop) ∧
    ∀ field ∈ spec.dimensions, (e.get? field).isSome = true

instance (c : Config) (spec : SimpleSpec) (e : Event) : Decidable (c.TakesEffect spec e) :=
  -- by the listed dimensions: there are too many fields to try them all
  have : Decidable (∀ field ∈ spec.dimensions, (e.get? field).isSome = true) := List.decidableBAll _ _
  inferInstanceAs (Decidable (_ ∨ _ ∧ _))

/-- Nothing is known of a simple condition at first, and none of the events took effect on it. -/
def Config.Awaits (c : Config) (spec : SimpleSpec) (events : List Event) : Prop :=
  spec.initial = .unknown ∧ ∀ e ∈ events, ¬ c.TakesEffect spec e

/-- By index the same events take effect as by name. -/
theorem Simple.Driven.affected_iff {s : Simple} {c : Config} {spec : SimpleSpec} {x : Judged}
    (h : s.Driven c spec x.event (matchedIn x.verdicts)) :
    s.Affected x ↔ c.TakesEffect spec x.event := by
  rw [Affected, Config.TakesEffect, h.start, h.stop, h.stopAll, ← Option.isSome_iff_exists, Event.key?,
    Key.isSome_gather_iff, h.dimensions]

theorem Initial.state_eq_unknown_iff {initial : Initial} :
    initial.state = .unknown ↔ initial = .unknown := by
  cases initial <;> decide

/-- In a coherent graph nothing is known of a condition exactly if nothing is of a simple condition
that it depends on, or is. -/
theorem Graph.Coherent.unknown_iff {n : Nat} {g : Graph n} (hg : g.Coherent) (i : Fin n) :
    (g.nodes.entry i).aggregate = .unknown ↔
      ∃ j, g.Reaches i j ∧ ∃ s, (g.nodes.entry j).simple? = some s ∧
        (g.nodes.entry j).aggregate = .unknown := by
  -- by the order: a combination is unknown if some child is
  induction i using hg.ordered.induction with
  | step i ih =>
    obtain ⟨x, hx⟩ := Option.ne_none_iff_exists'.1 (hg.resolved i)
    cases hrule : x.rule with
    | simple s =>
      have hs := Node.simple?_eq_some_iff.2 ⟨x, hx, hrule⟩
      simp only [reaches_iff_of_simple hs, exists_eq_left, hs, Option.some.injEq, exists_eq_left']
    | combination c =>
      rw [hg.aggregate_combination hx hrule, Combination.evaluate, combine_eq_unknown_iff,
        List.mem_map, ← Sweep.children_of_combination hx hrule]
      constructor
      · rintro ⟨child, hchild, hunknown⟩
        obtain ⟨j, hreach, hj⟩ := (ih child hchild).1 hunknown
        exact ⟨j, .head hchild hreach, hj⟩
      · rintro ⟨j, hreach, s, hs, hunknown⟩
        rcases reaches_iff.1 hreach with rfl | ⟨child, hchild, hbelow⟩
        · cases (Node.simple?_of_combination hx hrule).symm.trans hs
        · exact ⟨child, hchild, (ih child hchild).2 ⟨j, hbelow, s, hs, hunknown⟩⟩

namespace Pipeline

variable {config : Config} {p : Pipeline config.conditions.length} {events : List Event}

/-- The pipeline is sound, and nothing is known of exactly those simple conditions that await an
event after the given ones. -/
structure UnknownIffAwaits (config : Config) (p : Pipeline config.conditions.length)
    (events : List Event) : Prop extends Sound config p where
  unknown_iff : ∀ i spec, (config.conditions.get i).spec = .simple spec →
    ((p.graph.nodes.entry i).aggregate = .unknown ↔ config.Awaits spec events)

/-- One more event. -/
theorem UnknownIffAwaits.event (h : p.UnknownIffAwaits config events) (e : Event) :
    ∃ p', (p.step (.event e)).result = .ok p' ∧ p'.UnknownIffAwaits config (events ++ [e]) := by
  obtain ⟨p', summary, s, hfed, hsound, -, -, -, hnodes, -, hturned⟩ := h.toSound.onEvent e
  refine ⟨p', Logged.result_bind_of_ok hfed _, hsound, fun i spec hspec => ?_⟩
  obtain ⟨simple, hsimple, hrenders⟩ := h.exists_simple hspec
  obtain ⟨request, hrequest, -, hstate, -⟩ := (hturned i).of_simple hsimple
  obtain rfl := Simple.eq_asked_of_request hrequest
  let judged : Judged := ⟨e, p.matchers.verdicts e⟩
  have haffected : simple.Affected judged ↔ config.TakesEffect spec e :=
    (hrenders.driven h.matchers e).affected_iff
  rw [hnodes, hstate, simple.unknown_serve_asked_iff (x := judged), h.unknown_iff i spec hspec,
    haffected]
  simp [Config.Awaits, and_assoc, or_imp, forall_and]

/-- A request for slice reports is no event. -/
theorem UnknownIffAwaits.setSliced (h : p.UnknownIffAwaits config events) (name : String) :
    ∃ p', (p.step (.setSliced name)).result = .ok p' ∧ p'.UnknownIffAwaits config events := by
  rcases p.step_setSliced name with ⟨k, -, hstep⟩ | ⟨-, hstep⟩
  · refine ⟨_, hstep, h.toSound.slice k, fun i spec hspec => ?_⟩
    rw [Graph.aggregate_slice]
    exact h.unknown_iff i spec hspec
  · exact ⟨p, hstep, h⟩

/-- Steps, of which only events count. -/
theorem UnknownIffAwaits.run (h : p.UnknownIffAwaits config events) (steps : List Step) :
    ∃ p', (steps.foldlM step p).result = .ok p' ∧
      p'.UnknownIffAwaits config (events ++ history steps) := by
  refine exists_run (P := fun p done => p.UnknownIffAwaits config (events ++ history done))
    (fun p done next h => ?_) [] (by rwa [history, List.filterMap_nil, List.append_nil]) steps
  rw [history_append, ← List.append_assoc]
  cases next with
  | event e => exact h.event e
  | setSliced name =>
    have hnone : history [.setSliced name] = [] := rfl
    rw [hnone, List.append_nil]
    exact h.setSliced name

/-- A pipeline that was just loaded has seen no events. -/
theorem UnknownIffAwaits.of_loads (h : Loads config p) : p.UnknownIffAwaits config [] := by
  refine ⟨.of_loads h, fun i spec hspec => ?_⟩
  obtain ⟨s, hs, -⟩ := (Stands.of_loads h).exists_simple hspec
  obtain ⟨-, spec', hspec', hstate⟩ := h.starts hs
  obtain rfl := Spec.simple.inj (hspec.symm.trans hspec')
  rw [hstate, Initial.state_eq_unknown_iff]
  simp [Config.Awaits]

/-- Nothing is known of a condition exactly while it depends on a simple one that awaits an
event. -/
theorem UnknownIffAwaits.aggregate_eq_unknown_iff (h : p.UnknownIffAwaits config events)
    (i : Fin config.conditions.length) :
    (p.graph.nodes.entry i).aggregate = .unknown ↔
      ∃ below ∈ config.conditions, config.DependsOn (config.conditions.get i).name below.name ∧
        ∃ spec, below.spec = .simple spec ∧ config.Awaits spec events := by
  rw [h.coherent.unknown_iff, h.exists_below_iff]
  refine exists_congr fun j => and_congr_right fun _ => ?_
  constructor
  · rintro ⟨s, hs, hunknown⟩
    obtain ⟨spec, hspec, -⟩ := h.of_simple hs
    exact ⟨spec, hspec, (h.unknown_iff j spec hspec).1 hunknown⟩
  · rintro ⟨spec, hspec, hawaits⟩
    obtain ⟨s, hs, -⟩ := h.exists_simple hspec
    exact ⟨s, hs, (h.unknown_iff j spec hspec).2 hawaits⟩

/-- **What is known stays known.** Take the pipeline of an accepted configuration through any steps,
and on through any more. A condition whose state was known then has a known state now, and a query
whose answer was known has a known answer. Nothing is known of the state exactly if the condition
depends on a simple condition, or is one, of which nothing was known at first and on which no event
took effect. -/
theorem known_stays (hload : (load config).result = .ok (.ok p)) (earlier later : List Step) :
    ∃ p₁ p₂, (earlier.foldlM step p).result = .ok p₁ ∧ (later.foldlM step p₁).result = .ok p₂ ∧
      ∀ condition ∈ config.conditions, ∃ s₁ s₂, p₁.state? condition.name = .ok (some s₁) ∧
        p₂.state? condition.name = .ok (some s₂) ∧ (s₁ ≠ .unknown → s₂ ≠ .unknown) ∧
        (∀ q, ∃ a₁ a₂, p₁.query condition.name q = .ok (some a₁) ∧
          p₂.query condition.name q = .ok (some a₂) ∧ (a₁ ≠ .unknown → a₂ ≠ .unknown)) ∧
        (s₁ = .unknown ↔ ∃ below ∈ config.conditions, config.DependsOn condition.name below.name ∧
          ∃ spec, below.spec = .simple spec ∧ spec.initial = .unknown ∧
            ∀ e ∈ history earlier, ¬ config.TakesEffect spec e) := by
  obtain ⟨p₁, hrun₁, h₁⟩ := (UnknownIffAwaits.of_loads (load_eq_ok_iff.1 hload)).run earlier
  obtain ⟨p₂, hrun₂, h₂⟩ := h₁.run later
  refine ⟨p₁, p₂, hrun₁, hrun₂, fun condition hmem => ?_⟩
  obtain ⟨i, rfl⟩ := List.mem_iff_get.1 hmem
  -- a simple condition that still awaits an event awaited one before
  have hback : (p₂.graph.nodes.entry i).aggregate = .unknown →
      (p₁.graph.nodes.entry i).aggregate = .unknown := by
    rw [h₁.aggregate_eq_unknown_iff, h₂.aggregate_eq_unknown_iff]
    rintro ⟨below, hbelow, hdepends, spec, hspec, hinitial, hnone⟩
    exact ⟨below, hbelow, hdepends, spec, hspec, hinitial,
      fun e he => hnone e (List.mem_append_left _ he)⟩
  refine ⟨_, _, h₁.state?_eq i, h₂.state?_eq i, mt hback,
    fun q => ⟨_, _, h₁.query_eq i q, h₂.query_eq i q, mt ?_⟩, h₁.aggregate_eq_unknown_iff i⟩
  rw [h₁.coherent.answers_eq_unknown_iff h₁.settled, h₂.coherent.answers_eq_unknown_iff h₂.settled]
  exact hback

/-- A configuration in which events of tag 7 log in the user in their first field. Nothing is known
of the users at first, and there is room for none of them. -/
def sessionsConfig : Config where
  matchers := [{ name := "login", tag := 7 }]
  conditions := [
    ⟨"logged", .simple { start := some "login", dimensions := [1] }⟩,
    ⟨"absent", .combination .not ["logged"]⟩]
  limits := { maxSlices := 0 }

/-- A login without a user leaves the condition unknown. One for which there is no room makes it
known, and it stays so. -/
theorem known_stays_absent :
    let stray : Event := { tag := 7 }
    let login : Event := { tag := 7, fields := [(1, .int 5)] }
    ∃ p p₀ p₁ p₂, (load sessionsConfig).result = .ok (.ok p) ∧
      ([.event stray].foldlM step p).result = .ok p₀ ∧ p₀.state? "absent" = .ok (some .unknown) ∧
      ([.event stray, .event login].foldlM step p).result = .ok p₁ ∧
      ([.event stray, .setSliced "absent"].foldlM step p₁).result = .ok p₂ ∧
      ∃ s, p₂.state? "absent" = .ok (some s) ∧ s ≠ .unknown := by
  intro stray login
  obtain ⟨p, hload⟩ : ∃ p, (load sessionsConfig).result = .ok (.ok p) :=
    ⟨_, by with_unfolding_all rfl⟩
  have habsent : ⟨"absent", .combination .not ["logged"]⟩ ∈ sessionsConfig.conditions :=
    List.mem_cons_of_mem _ List.mem_cons_self
  have hlists : Lists sessionsConfig.conditions "absent" "logged" :=
    ⟨_, habsent, rfl, List.mem_cons_self⟩
  have hstray : ¬ sessionsConfig.TakesEffect { start := some "login", dimensions := [1] } stray := by
    decide
  have hlogin : sessionsConfig.TakesEffect { start := some "login", dimensions := [1] } login := by
    decide
  obtain ⟨p₀, p₀', hrun₀, -, hknown₀⟩ := known_stays hload [.event stray] []
  obtain ⟨p₁, p₂, hrun₁, hrun₂, hknown⟩ :=
    known_stays hload [.event stray, .event login] [.event stray, .setSliced "absent"]
  obtain ⟨s₀, -, hs₀, -, -, -, hunknown₀⟩ := hknown₀ _ habsent
  obtain ⟨s₁, s₂, -, hs₂, hstays, -, hunknown₁⟩ := hknown _ habsent
  -- `logged` is the only simple condition, and only the login takes effect on it
  obtain rfl : s₀ = .unknown :=
    hunknown₀.2 ⟨_, List.mem_cons_self, .single hlists, _, rfl, rfl,
      List.forall_mem_singleton.2 hstray⟩
  refine ⟨p, p₀, p₁, p₂, hload, hrun₀, hs₀, hrun₁, hrun₂, s₂, hs₂, hstays fun hs₁ => ?_⟩
  obtain ⟨below, hbelow, -, spec, hspec, -, hnone⟩ := hunknown₁.1 hs₁
  rcases List.mem_pair.1 hbelow with rfl | rfl
  · obtain rfl := Spec.simple.inj hspec
    exact hnone login (List.mem_cons_of_mem _ List.mem_cons_self) hlogin
  · exact nomatch hspec

end Pipeline

end EventConditions
