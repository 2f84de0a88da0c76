import Mathlib.Data.List.Chain
import Mathlib.Data.List.Nodup
import EventConditions.Proofs.Resolution.Acceptance

/-!
# What a failed walk blames

An error names what is wrong at one condition, and its frames lead from there to where the walk
began. While the walk returns, the conditions it went through form an *ascent*: each depends on the
one before it, and as none of them is on the path that is left, none occurs twice
(`Resolver.Ascent`). `Resolver.Blames` says what the cause and the frames tell of an ascent. The
blamed condition adds its own name as a frame only where something it names does not exist; one that
is malformed adds none, and one that closes a cycle adds the name of the child instead. Every
condition further up adds its own name (`Blames.ascend`).
-/

namespace EventConditions

variable {n : Nat}

/-- The rules that a condition can break by itself: a simple one needs a matcher that can decide it,
a combination needs children, and `not` takes exactly one. -/
inductive Spec.Breaks : Spec → Defect → Prop
  | neverDecided {spec : SimpleSpec} : spec.start = none → spec.stopAll = none →
      Breaks (.simple spec) .neverDecided
  | childless {operator} : Breaks (.combination operator []) (.childless operator)
  | notUnary {children} : children ≠ [] → children.length ≠ 1 →
      Breaks (.combination .not children) (.notUnary children.length)

/-- A defect that is found is a rule broken. -/
theorem Spec.breaks_of_defect? {spec : Spec} {defect : Defect} (h : spec.defect? = some defect) :
    spec.Breaks defect := by
  cases spec with
  | simple spec =>
    rw [defect?] at h
    split at h
    · next hnone =>
      rw [Bool.and_eq_true, Option.isNone_iff_eq_none, Option.isNone_iff_eq_none] at hnone
      cases h
      exact .neverDecided hnone.1 hnone.2
    · cases h
  | combination operator children =>
    rw [defect?] at h
    split at h
    · next hempty =>
      obtain rfl := List.isEmpty_iff.1 hempty
      cases h
      exact .childless
    · next hempty =>
      split at h
      · next hnot =>
        obtain ⟨rfl, hlength⟩ := hnot
        cases h
        exact .notUnary (fun h => hempty (List.isEmpty_iff.2 h)) hlength
      · cases h

namespace Resolver

/-- A matcher that cannot be resolved is named and does not exist, and the condition is blamed. -/
theorem eq_of_matcher_error {r : Resolver} {condition : String} {name? : Option String} {e : Error}
    (h : (r.matcher condition name?).result = .error e) :
    ∃ name, name? = some name ∧ r.matcherIndex.get? name = none ∧
      e = Error.via { cause := .unknownMatcher name } condition := by
  cases name? with
  | none => cases h
  | some name =>
    cases hget : r.matcherIndex.get? name with
    | none =>
      simp only [matcher, hget] at h
      cases h
      exact ⟨name, rfl, hget, rfl⟩
    | some i =>
      simp only [matcher, hget] at h
      cases h

/-- A simple condition that cannot be resolved names a matcher that does not exist. -/
theorem eq_of_simple_error {r : Resolver} {name : String} {spec : SimpleSpec} {e : Error}
    (h : (r.simple (n := n) name spec).result = .error e) :
    ∃ matcher ∈ (Spec.simple spec).matchers, r.matcherIndex.get? matcher = none ∧
      e = Error.via { cause := .unknownMatcher matcher } name := by
  have blamed : ∀ {name? : Option String}, (r.matcher name name?).result = .error e →
      (∀ matcher, name? = some matcher → matcher ∈ (Spec.simple spec).matchers) →
      ∃ matcher ∈ (Spec.simple spec).matchers, r.matcherIndex.get? matcher = none ∧
        e = Error.via { cause := .unknownMatcher matcher } name := by
    intro name? herror hnamed
    obtain ⟨matcher, hname, hget, he⟩ := eq_of_matcher_error herror
    exact ⟨matcher, hnamed matcher hname, hget, he⟩
  -- the matchers are resolved in turn, and the first that cannot be ends it
  rcases Logged.result_bind_eq_error_iff.1 h with hstart | ⟨start, -, h⟩
  · exact blamed hstart fun _ hname => Spec.mem_matchers_simple.2 (.inl hname)
  rcases Logged.result_bind_eq_error_iff.1 h with hstop | ⟨stop, -, h⟩
  · exact blamed hstop fun _ hname => Spec.mem_matchers_simple.2 (.inr (.inl hname))
  rcases Logged.result_bind_eq_error_iff.1 h with hstopAll | ⟨stopAll, -, h⟩
  · exact blamed hstopAll fun _ hname => Spec.mem_matchers_simple.2 (.inr (.inr hname))
  cases h

variable {r : Resolver} {conditions : Table n Condition}

/-! ## Ascents -/

/-- The conditions on the way up to the one at `i`, which is reached along `path`. -/
structure Ascent (r : Resolver) (conditions : Table n Condition) (path : List (Fin n)) (i : Fin n)
    (ascent : List (Fin n)) : Prop where
  linked : ascent.IsChain fun child parent => r.DependsOn conditions parent child
  distinct : ascent.Nodup
  off : ∀ j ∈ ascent, j ∉ path
  last : ascent.getLast? = some i

/-- The way up begins where the error is met. -/
theorem Ascent.begin {path : List (Fin n)} {i : Fin n} (off : i ∉ path) :
    r.Ascent conditions path i [i] where
  linked := .singleton i
  distinct := List.nodup_singleton i
  off := by
    intro j hj
    rw [List.mem_singleton.1 hj]
    exact off
  last := rfl

/-- The way up goes on to the condition whose child was to be settled. -/
theorem Ascent.ascend {path ascent : List (Fin n)} {i child : Fin n}
    (h : r.Ascent conditions (i :: path) child ascent) (off : i ∉ path)
    (hdepends : r.DependsOn conditions i child) : r.Ascent conditions path i (ascent ++ [i]) where
  linked := by
    refine h.linked.append (.singleton i) fun j hj k hk => ?_
    rw [h.last] at hj
    cases hj
    cases hk
    exact hdepends
  distinct := by
    refine List.nodup_append.2 ⟨h.distinct, List.nodup_singleton i, fun j hj k hk => ?_⟩
    rintro rfl
    rw [List.mem_singleton.1 hk] at hj
    exact h.off i hj List.mem_cons_self
  off := by
    intro j hj
    rcases List.mem_append.1 hj with hj | hj
    · exact fun hmem => h.off j hj (List.mem_cons_of_mem i hmem)
    · rw [List.mem_singleton.1 hj]
      exact off
  last := by simp

/-- Where each depends on the one before it, all of those further up depend on the first one. -/
theorem transGen_of_isChain {α : Type} {R : α → α → Prop} {i j : α} {above : List α}
    (h : (i :: above).IsChain fun child parent => R parent child) (hj : j ∈ above) :
    Relation.TransGen R j i := by
  have hup : (i :: above).IsChain (Relation.TransGen (Function.swap R)) :=
    h.imp fun _ _ hlink => .single hlink
  exact Relation.transGen_swap.1 (hup.rel_cons hj)

/-! ## Causes and frames -/

/-- What an error says of the ascent from where it was met, whose first condition it blames. -/
inductive Blames (r : Resolver) (conditions : Table n Condition) (path : List (Fin n)) :
    List (Fin n) → Cause → List String → Prop
  /-- The condition is malformed. -/
  | invalidCondition {i above defect} : (conditions.entry i).spec.Breaks defect →
      Blames r conditions path (i :: above)
        (.invalidCondition (conditions.entry i).name defect.message)
        (above.map fun j => (conditions.entry j).name)
  /-- The condition names a matcher that does not exist. -/
  | unknownMatcher {i above matcher} : matcher ∈ (conditions.entry i).spec.matchers →
      r.matcherIndex.get? matcher = none →
      Blames r conditions path (i :: above) (.unknownMatcher matcher)
        ((i :: above).map fun j => (conditions.entry j).name)
  /-- The condition lists a child that does not exist. -/
  | unknownCondition {i above child} : child ∈ (conditions.entry i).spec.children →
      r.conditionIndex.get? child = none →
      Blames r conditions path (i :: above) (.unknownCondition child)
        ((i :: above).map fun j => (conditions.entry j).name)
  /-- The condition lists a child that is on the way to it. -/
  | dependencyCycle {i above child} {closing : Fin n} :
      child ∈ (conditions.entry i).spec.children →
      r.conditionIndex.get? child = some closing.val → closing ∈ i :: above ++ path →
      Blames r conditions path (i :: above) (.dependencyCycle (conditions.entry i).name)
        (child :: above.map fun j => (conditions.entry j).name)

/-- On the way up the next condition adds its name. -/
theorem Blames.ascend {path ascent : List (Fin n)} {i : Fin n} {cause : Cause}
    {frames : List String} (h : r.Blames conditions (i :: path) ascent cause frames) :
    r.Blames conditions path (ascent ++ [i]) cause (frames ++ [(conditions.entry i).name]) := by
  have hframes : ∀ above : List (Fin n),
      (above.map fun j => (conditions.entry j).name) ++ [(conditions.entry i).name] =
        (above ++ [i]).map fun j => (conditions.entry j).name := fun above => by
    rw [List.map_append, List.map_singleton]
  cases h with
  | invalidCondition hbreaks =>
    rw [hframes]
    exact .invalidCondition hbreaks
  | unknownMatcher hmatcher hnone =>
    rw [hframes]
    exact .unknownMatcher hmatcher hnone
  | unknownCondition hchild hnone =>
    rw [hframes]
    exact .unknownCondition hchild hnone
  | dependencyCycle hchild hget hclosing =>
    rw [List.cons_append, List.cons_append, hframes]
    exact .dependencyCycle hchild hget (by simpa [or_assoc] using hclosing)

/-- The error blames a condition from which there is an ascent to the one at `i`. -/
def Explains (r : Resolver) (conditions : Table n Condition) (path : List (Fin n)) (i : Fin n)
    (e : Error) : Prop :=
  ∃ ascent, r.Ascent conditions path i ascent ∧
    r.Blames conditions path ascent e.cause e.frames

/-- Every walk that fails does so with an error that tells why. -/
theorem walk_blames (r : Resolver) (conditions : Table n Condition) :
    r.Walk conditions
      (fun path i _ _ o => ∀ e, o = .error e → r.Explains conditions path i e)
      (fun i path names _ _ o => (∀ name ∈ names, name ∈ (conditions.entry i).spec.children) →
        ∀ e, o = .error e → r.Explains conditions path i e) where
  known := by
    intro path i p x _ _ e ho
    cases ho
  defective := by
    intro path i p defect off _ hdefect e ho
    cases ho
    exact ⟨[i], .begin off, .invalidCondition (Spec.breaks_of_defect? hdefect)⟩
  matched := by
    intro path i p spec x _ _ _ _ _ e ho
    cases ho
  unmatched := by
    intro path i p spec e off _ hspec _ hsimple e' ho
    cases ho
    obtain ⟨matcher, hmatcher, hnone, rfl⟩ := eq_of_simple_error hsimple
    rw [← hspec] at hmatcher
    exact ⟨[i], .begin off, .unknownMatcher hmatcher hnone⟩
  combined := by
    intro path i p p' operator names children _ _ _ _ _ e ho
    cases ho
  broken := by
    intro path i p p' operator names e _ _ hspec _ hposts e' ho
    cases ho
    refine hposts (fun name hname => ?_) e rfl
    rw [hspec]
    exact hname
  done := by
    intro i path p _ _ e ho
    cases ho
  unknown := by
    intro i path name rest p off hnone hlisted e ho
    cases ho
    exact ⟨[i], .begin off, .unknownCondition (hlisted name List.mem_cons_self) hnone⟩
  cycle := by
    intro i path name rest p child off hget hon hlisted e ho
    cases ho
    exact ⟨[i], .begin off, .dependencyCycle (hlisted name List.mem_cons_self) hget hon⟩
  failed := by
    intro i path name rest p p' e child off hget _ hpost hlisted e' ho
    cases ho
    obtain ⟨ascent, hascent, hblames⟩ := hpost e rfl
    have hdepends : r.DependsOn conditions i child := ⟨name, hlisted name List.mem_cons_self, hget⟩
    exact ⟨ascent ++ [i], hascent.ascend off hdepends, hblames.ascend⟩
  next := by
    intro i path name rest p p₁ p₂ x o child _ _ _ _ hposts hlisted e ho
    cases o with
    | ok xs => cases ho
    | error e' =>
      cases ho
      exact hposts (fun name hname => hlisted name (List.mem_cons_of_mem _ hname)) e rfl

/-- Settling every node of a fitting layout fails, if it does, with an error that tells why. -/
theorem advance_blames (inside : r.Inside n) {nodes : Table n (Node n)}
    (hlayout : r.layout nodes = .ok conditions) :
    ∃ p o, (r.advance nodes).result = .ok (p, o) ∧
      ∀ e, o = .error e → ∃ i, r.Explains conditions [] i e := by
  rw [advance, hlayout]
  exact (walk_blames r conditions).settleAll inside
    (fun _ _ _ o => ∀ e, o = .error e → ∃ i, r.Explains conditions [] i e)
    (fun _ e ho => by cases ho)
    (fun i _ _ _ e hpost e' ho => by
      cases ho
      exact ⟨i, hpost e rfl⟩)
    (fun _ _ _ _ _ _ _ _ hall => hall) (List.finRange n) { nodes }

/-- A condition that is reported to close a cycle depends on itself. -/
theorem Explains.cyclic {i : Fin n} {e : Error} {name : String}
    (h : r.Explains conditions [] i e) (hcause : e.cause = .dependencyCycle name) :
    ∃ j, (conditions.entry j).name = name ∧ Relation.TransGen (r.DependsOn conditions) j j := by
  obtain ⟨ascent, hascent, hblames⟩ := h
  rw [hcause] at hblames
  generalize e.frames = frames at hblames
  cases hblames with
  | @dependencyCycle j above child closing hchild hget hclosing =>
    refine ⟨j, rfl, ?_⟩
    have hdepends : r.DependsOn conditions j closing := ⟨child, hchild, hget⟩
    rw [List.append_nil] at hclosing
    rcases List.mem_cons.1 hclosing with rfl | habove
    · exact .single hdepends
    · exact .head hdepends (transGen_of_isChain hascent.linked habove)

end Resolver

end EventConditions
