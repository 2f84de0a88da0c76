import EventConditions.Proofs.Graph.Acceptance
import EventConditions.Proofs.Resolution.Blame

/-!
# What an error of building blames

A graph is not built of conditions of which two share a name, or of conditions that cannot be
resolved. The error then names a condition with something wrong about it, and its frames lead from
that condition to one where the walk began, from each condition to one that lists it as a child:
`Graph.build_error_blames`. An ascent of the walk is one of indices; since the conditions have
distinct names, their names tell the same.
-/

namespace EventConditions

/-- A name found repeated occurs twice, counting the names that were seen before. -/
theorem count_of_firstRepeated? {seen names : List String} {name : String}
    (h : firstRepeated? seen names = some name) : 1 < (seen ++ names).count name := by
  induction names generalizing seen with
  | nil => cases h
  | cons first rest ih =>
    rw [firstRepeated?] at h
    split at h
    · next hseen =>
      obtain rfl := Option.some.inj h
      have hbefore : 0 < seen.count first := List.count_pos_iff.2 hseen
      rw [List.count_append, List.count_cons_self]
      omega
    · calc 1 < (first :: seen ++ rest).count name := ih h
        _ = (seen ++ first :: rest).count name := List.perm_middle.symm.count_eq name

namespace Graph

/-- Names of conditions, each listed as a child by the condition called next, and none of them
twice. -/
structure Ascends (conditions : List Condition) (names : List String) : Prop where
  listed : names.IsChain fun child parent => Lists conditions parent child
  distinct : names.Nodup

/-- What a cause and the frames that come with it say of the conditions. -/
inductive Blames (conditions : List Condition) (matchers : NameIndex) :
    Cause → List String → Prop
  /-- Two conditions share the name. -/
  | duplicateCondition {name} : 1 < (conditions.map Condition.name).count name →
      Blames conditions matchers (.duplicateCondition name) []
  /-- The condition breaks a rule by itself. The frames begin with one that lists it. -/
  | invalidCondition {condition defect frames} : condition ∈ conditions →
      condition.spec.Breaks defect → Ascends conditions (condition.name :: frames) →
      Blames conditions matchers (.invalidCondition condition.name defect.message) frames
  /-- The first frame is a condition that names the matcher, which does not exist. -/
  | unknownMatcher {condition matcher frames} : condition ∈ conditions →
      matcher ∈ condition.spec.matchers → matchers.get? matcher = none →
      Ascends conditions (condition.name :: frames) →
      Blames conditions matchers (.unknownMatcher matcher) (condition.name :: frames)
  /-- The first frame is a condition that lists the child, which does not exist. -/
  | unknownCondition {condition child frames} : condition ∈ conditions →
      child ∈ condition.spec.children → child ∉ conditions.map Condition.name →
      Ascends conditions (condition.name :: frames) →
      Blames conditions matchers (.unknownCondition child) (condition.name :: frames)
  /-- The first frame is a child that the condition lists, and is that condition itself or one of
  the frames behind it. These lead up from the condition. -/
  | dependencyCycle {name closing frames} : Lists conditions name closing →
      closing ∈ name :: frames → Ascends conditions (name :: frames) →
      Blames conditions matchers (.dependencyCycle name) (closing :: frames)

/-- A condition that is blamed for a cycle is on one. -/
theorem Blames.cyclic {conditions : List Condition} {matchers : NameIndex} {name : String}
    {frames : List String} (h : Blames conditions matchers (.dependencyCycle name) frames) :
    Relation.TransGen (Lists conditions) name name := by
  cases h with
  | dependencyCycle hlists hclosing hascends =>
    rcases List.mem_cons.1 hclosing with rfl | habove
    · exact .single hlists
    · exact .head hlists (Resolver.transGen_of_isChain hascends.listed habove)

/-- An ascent is one of names. -/
theorem ascends_of_ascent {r : Resolver} {conditions : List Condition}
    (h : r.Indexes (conditionTable conditions)) {path ascent : List (Fin conditions.length)}
    {i : Fin conditions.length} (hascent : r.Ascent (conditionTable conditions) path i ascent) :
    Ascends conditions (ascent.map fun j => ((conditionTable conditions).entry j).name) where
  listed := by
    refine (List.isChain_map _).2 (hascent.linked.imp fun child parent hdepends => ?_)
    simpa using h.dependsOn_iff.1 hdepends
  distinct := hascent.distinct.map fun _ _ hname => h.injective hname

/-- What an error of the walk tells of indices, it tells of names. -/
theorem blames_of_explains {r : Resolver} {conditions : List Condition} {matchers : NameIndex}
    (h : r.Indexes (conditionTable conditions)) (hmatchers : r.matcherIndex = matchers)
    (hunknown : ∀ name, r.conditionIndex.get? name = none →
      name ∉ conditions.map Condition.name) {i : Fin conditions.length} {e : Error}
    (hexplains : r.Explains (conditionTable conditions) [] i e) :
    Blames conditions matchers e.cause e.frames := by
  obtain ⟨ascent, hascent, hblames⟩ := hexplains
  have hascends := ascends_of_ascent h hascent
  have hmem : ∀ j, (conditionTable conditions).entry j ∈ conditions := fun j => by
    rw [entry_conditionTable]
    exact List.get_mem conditions j
  subst hmatchers
  generalize e.cause = cause, e.frames = frames at hblames
  cases hblames with
  | invalidCondition hbreaks => exact .invalidCondition (hmem _) hbreaks hascends
  | unknownMatcher hmatcher hnone => exact .unknownMatcher (hmem _) hmatcher hnone hascends
  | unknownCondition hchild hnone =>
    exact .unknownCondition (hmem _) hchild (hunknown _ hnone) hascends
  | @dependencyCycle j above child closing hchild hget hclosing =>
    obtain rfl := (h child closing).1 hget
    rw [List.append_nil] at hclosing
    exact .dependencyCycle ⟨_, hmem j, rfl, hchild⟩
      (List.mem_map_of_mem (f := fun j => ((conditionTable conditions).entry j).name) hclosing)
      hascends

/-- A graph is not made of conditions of which two share a name. -/
theorem eq_of_ofConditions_error {conditions : List Condition} {maxSlices : Nat} {e : Error}
    (h : (ofConditions conditions maxSlices).result = .error e) :
    ∃ name, 1 < (conditions.map Condition.name).count name ∧
      e = { cause := .duplicateCondition name } := by
  rw [ofConditions] at h
  split at h
  · next name hname =>
    cases h
    exact ⟨name, count_of_firstRepeated? hname, rfl⟩
  · cases h

/-- Building fails where making the graph or resolving it does. -/
theorem build_eq_error_iff {conditions : List Condition} {matchers : NameIndex} {maxSlices : Nat}
    {e : Error} : (build conditions matchers maxSlices).result = .ok (.error e) ↔
      (ofConditions conditions maxSlices).result = .error e ∨
        ∃ g₀ g, (ofConditions conditions maxSlices).result = .ok g₀ ∧
          (g₀.resolve conditions matchers).result = .ok (g, .error e) := by
  rw [build, Logged.result_bind_of_ok (Logged.result_attempt _)]
  cases (ofConditions conditions maxSlices).result with
  | error e₁ => simp
  | ok g₀ =>
    dsimp only
    rw [Logged.result_bind_eq_ok_iff]
    constructor
    · rintro ⟨⟨g, outcome⟩, hres, hout⟩
      cases outcome with
      | error e₁ =>
        cases hout
        exact .inr ⟨g₀, g, rfl, hres⟩
      | ok u => cases hout
    · rintro (hmade | ⟨_, g, hmade, hres⟩)
      · cases hmade
      · cases hmade
        exact ⟨_, hres, rfl⟩

/-- **What an error blames.** Where a graph cannot be built, two conditions share a name, or one
breaks a rule by itself, names something that does not exist or depends on itself; the error says
which, and by what chain of parents it was reached. -/
theorem build_error_blames {conditions : List Condition} {matchers : NameIndex} {maxSlices : Nat}
    {e : Error} (h : (build conditions matchers maxSlices).result = .ok (.error e)) :
    Blames conditions matchers e.cause e.frames ∧
      ∀ name, e.cause = .dependencyCycle name → Relation.TransGen (Lists conditions) name name := by
  have hblames : Blames conditions matchers e.cause e.frames := by
    rcases build_eq_error_iff.1 h with hmade | ⟨g₀, g, hmade, hres⟩
    · obtain ⟨name, hcount, rfl⟩ := eq_of_ofConditions_error hmade
      exact .duplicateCondition hcount
    · have inside := resolver_inside g₀ conditions matchers
      obtain ⟨p, o, hadvance, hexplains⟩ :=
        Resolver.advance_blames inside (layout_of_fresh hmade matchers)
      rw [resolve_of_advance hadvance] at hres
      cases o with
      | ok u => cases hres
      | error e₁ =>
        cases hres
        obtain ⟨i, hi⟩ := hexplains e rfl
        have hindexes := indexes_of_fresh hmade matchers
        refine blames_of_explains hindexes rfl (fun name hnone hmem => ?_) hi
        obtain ⟨condition, hcondition, rfl⟩ := List.mem_map.1 hmem
        obtain ⟨k, rfl⟩ := List.get_of_mem hcondition
        have hget := (hindexes (conditions.get k).name k).2 (by rw [entry_conditionTable])
        rw [hnone] at hget
        cases hget
  refine ⟨hblames, fun name hcause => ?_⟩
  rw [hcause] at hblames
  exact hblames.cyclic

/-- Where `open` and `lit` depend on each other and `staffed` on `open`, the cycle is met at `lit`.
-/
theorem build_error_blames_staffedOpenLit :
    let conditions : List Condition := [⟨"staffed", .combination .or ["open"]⟩,
      ⟨"open", .combination .and ["lit"]⟩, ⟨"lit", .combination .or ["open"]⟩]
    (build conditions {} 800).result = .ok (.error
        { cause := .dependencyCycle "lit"
          origin := some { frames := ["open", "open", "staffed"] } }) ∧
      Blames conditions {} (.dependencyCycle "lit") ["open", "open", "staffed"] ∧
      Relation.TransGen (Lists conditions) "lit" "lit" := by
  intro conditions
  have hbuild : (build conditions {} 800).result = .ok (.error
      { cause := .dependencyCycle "lit"
        origin := some { frames := ["open", "open", "staffed"] } }) := by
    with_unfolding_all rfl
  obtain ⟨hblames, hcyclic⟩ := build_error_blames hbuild
  exact ⟨hbuild, hblames, hcyclic "lit" rfl⟩

end Graph

end EventConditions
