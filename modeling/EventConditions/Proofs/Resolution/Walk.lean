import EventConditions.Graph.Basic

/-!
# The walk of resolving

Settling a condition ends in one of a few ways, and so does settling a list of children. `Walk`
lists them all: it holds of two relations, one between the progress before and after settling a
condition and one for children, if each ending is covered by them. `Walk.settle` then gives the
relations for every walk, along any path and from any progress, and says that no walk ends in a
fault as long as names stand for existing conditions. What resolving does is proved by giving the
two relations and checking the endings; nothing else looks into the recursion.
-/

namespace EventConditions

variable {n : Nat}

namespace Resolver

/-- Every condition name stands for one of `n` conditions. -/
def Inside (r : Resolver) (n : Nat) : Prop :=
  ∀ name index, r.conditionIndex.get? name = some index → index < n

/-- How settling the condition at `i` ends, given what resolving it came to. -/
def ending (name : String) (i : Fin n) (p : Progress n) :
    Except Error (Resolved n) → Logged Fault (Progress n × Except Error (Resolved n))
  | .error e => pure (p, .error e)
  | .ok x => do
    Logged.log .trace s!"initialized condition {name} at {i.val}"
    return (p.finish i x, .ok x)

/-- The endings of a walk. `Post path i p p' o` is to hold when settling the condition at `i`,
reached along `path`, leads from `p` to `p'` with outcome `o`; `Posts i path names p p' o` when
settling the children `names` of the condition at `i` does. -/
structure Walk (r : Resolver) (conditions : Table n Condition)
    (Post : List (Fin n) → Fin n → Progress n → Progress n → Except Error (Resolved n) → Prop)
    (Posts : Fin n → List (Fin n) → List String → Progress n → Progress n →
      Except Error (List (Fin n × Resolved n)) → Prop) : Prop where
  /-- The condition is resolved already. -/
  known {path i p x} : i ∉ path → (p.nodes.entry i).resolved? = some x → Post path i p p (.ok x)
  /-- The condition is malformed. -/
  defective {path i p defect} : i ∉ path → (p.nodes.entry i).resolved? = none →
    (conditions.entry i).spec.defect? = some defect →
    Post path i p p
      (.error { cause := .invalidCondition (conditions.entry i).name defect.message })
  /-- A simple condition whose matchers exist. -/
  matched {path i p spec x} : i ∉ path → (p.nodes.entry i).resolved? = none →
    (conditions.entry i).spec = .simple spec → (conditions.entry i).spec.defect? = none →
    (r.simple (n := n) (conditions.entry i).name spec).result = .ok x →
    Post path i p (p.finish i x) (.ok x)
  /-- A simple condition that names an unknown matcher. -/
  unmatched {path i p spec e} : i ∉ path → (p.nodes.entry i).resolved? = none →
    (conditions.entry i).spec = .simple spec → (conditions.entry i).spec.defect? = none →
    (r.simple (n := n) (conditions.entry i).name spec).result = .error e →
    Post path i p p (.error e)
  /-- A combination whose children could be settled. -/
  combined {path i p p' operator names children} : i ∉ path →
    (p.nodes.entry i).resolved? = none →
    (conditions.entry i).spec = .combination operator names →
    (conditions.entry i).spec.defect? = none →
    Posts i path names p p' (.ok children) →
    Post path i p (p'.finish i (.combination operator children))
      (.ok (.combination operator children))
  /-- A combination one of whose children could not be settled. -/
  broken {path i p p' operator names e} : i ∉ path → (p.nodes.entry i).resolved? = none →
    (conditions.entry i).spec = .combination operator names →
    (conditions.entry i).spec.defect? = none →
    Posts i path names p p' (.error e) → Post path i p p' (.error e)
  /-- No child is left. -/
  done {i path p} : i ∉ path → Posts i path [] p p (.ok [])
  /-- The next child does not exist. -/
  unknown {i path name rest p} : i ∉ path → r.conditionIndex.get? name = none →
    Posts i path (name :: rest) p p
      (.error (Error.via { cause := .unknownCondition name } (conditions.entry i).name))
  /-- The next child is on the path. -/
  cycle {i path name rest p} {child : Fin n} : i ∉ path →
    r.conditionIndex.get? name = some child.val → child ∈ i :: path →
    Posts i path (name :: rest) p p
      (.error (Error.via { cause := .dependencyCycle (conditions.entry i).name } name))
  /-- The next child cannot be settled. -/
  failed {i path name rest p p' e} {child : Fin n} : i ∉ path →
    r.conditionIndex.get? name = some child.val → child ∉ i :: path →
    Post (i :: path) child p p' (.error e) →
    Posts i path (name :: rest) p p' (.error (e.via (conditions.entry i).name))
  /-- The next child is settled, and the others are to follow. -/
  next {i path name rest p p₁ p₂ x o} {child : Fin n} : i ∉ path →
    r.conditionIndex.get? name = some child.val → child ∉ i :: path →
    Post (i :: path) child p p₁ (.ok x) → Posts i path rest p₁ p₂ o →
    Posts i path (name :: rest) p p₂ (o.map ((child, x) :: ·))

namespace Walk

variable {r : Resolver} {conditions : Table n Condition}
  {Post : List (Fin n) → Fin n → Progress n → Progress n → Except Error (Resolved n) → Prop}
  {Posts : Fin n → List (Fin n) → List String → Progress n → Progress n →
    Except Error (List (Fin n × Resolved n)) → Prop}

/-- Children are settled as the endings say, if each single child is. -/
theorem settleChildren (w : r.Walk conditions Post Posts) (inside : r.Inside n)
    {i : Fin n} {path : List (Fin n)} (off : i ∉ path)
    (settle : (child : Fin n) → child ∉ i :: path → Progress n →
      Logged Fault (Progress n × Except Error (Resolved n)))
    (hsettle : ∀ child h p, ∃ p' o, (settle child h p).result = .ok (p', o) ∧
      Post (i :: path) child p p' o) (names : List String) :
    ∀ p, ∃ p' o,
      (r.settleChildren (conditions.entry i).name (i :: path) settle names p).result
        = .ok (p', o) ∧ Posts i path names p p' o := by
  -- by the names; an earlier child changes the progress that the later ones start from
  induction names with
  | nil => exact fun p => ⟨p, .ok [], rfl, w.done off⟩
  | cons name rest ih =>
    intro p
    rw [Resolver.settleChildren]
    split
    · next hname => exact ⟨p, _, rfl, w.unknown off hname⟩
    · next index hname =>
      have hlt : index < n := inside name index hname
      rw [dif_pos hlt]
      by_cases hon : (⟨index, hlt⟩ : Fin n) ∈ i :: path
      · have hchild : r.conditionIndex.get? name = some (⟨index, hlt⟩ : Fin n).val := hname
        refine ⟨p, _, ?_, w.cycle off hchild hon⟩
        simp only [dif_pos hon]
        rfl
      · simp only [dif_neg hon]
        obtain ⟨p₁, o, hres, hpost⟩ := hsettle ⟨index, hlt⟩ hon p
        cases o with
        | error e =>
          refine ⟨p₁, _, ?_, w.failed off hname hon hpost⟩
          rw [Logged.result_bind_of_ok hres]
          rfl
        | ok x =>
          obtain ⟨p₂, o, hrest, hposts⟩ := ih p₁
          refine ⟨p₂, _, ?_, w.next off hname hon hpost hposts⟩
          rw [Logged.result_bind_of_ok hres]
          dsimp only
          rw [Logged.result_bind_of_ok hrest]
          rfl

/-- Every condition is settled without a fault, and as the endings say. -/
theorem settle (w : r.Walk conditions Post Posts) (inside : r.Inside n) (path : List (Fin n)) :
    ∀ i (off : i ∉ path) p, ∃ p' o,
      (r.settle conditions path i off p).result = .ok (p', o) ∧ Post path i p p' o := by
  -- the path grows at every call, so the number of conditions off it is the measure
  induction hm : offPath path using Nat.strongRecOn generalizing path with
  | _ m ih =>
    subst hm
    intro i off p
    have children := w.settleChildren inside off
      (fun child h p => r.settle conditions (i :: path) child h p)
      (ih _ (offPath_cons_lt off) (i :: path) rfl)
    rw [Resolver.settle]
    split
    · next x hx => exact ⟨p, _, rfl, w.known off hx⟩
    · next hx =>
      dsimp only
      split
      · next defect hd => exact ⟨p, _, rfl, w.defective off hx hd⟩
      · next spec hd hspec =>
        cases hs : (r.simple (n := n) (conditions.entry i).name spec).result with
        | error e =>
          refine ⟨p, _, ?_, w.unmatched off hx hspec hd hs⟩
          simp only [Logged.result_bind, Logged.result_attempt, hs, ok_bind]
          rfl
        | ok x =>
          refine ⟨_, _, ?_, w.matched off hx hspec hd hs⟩
          simp only [Logged.result_bind, Logged.result_attempt, hs, ok_bind]
          rfl
      · next operator names hd hspec =>
        obtain ⟨p', o, hchildren, hposts⟩ := children names p
        cases o with
        | error e =>
          refine ⟨p', _, ?_, w.broken off hx hspec hd hposts⟩
          simp only [Logged.result_bind, hchildren, ok_bind]
          rfl
        | ok children =>
          refine ⟨_, _, ?_, w.combined off hx hspec hd hposts⟩
          simp only [Logged.result_bind, hchildren, ok_bind]
          rfl

/-- Settling conditions one after the other, up to the first failure. -/
theorem settleAll (w : r.Walk conditions Post Posts) (inside : r.Inside n)
    (All : List (Fin n) → Progress n → Progress n → Except Error Unit → Prop)
    (nil : ∀ p, All [] p p (.ok ()))
    (failed : ∀ i rest p p' e, Post [] i p p' (.error e) → All (i :: rest) p p' (.error e))
    (next : ∀ i rest p p₁ p₂ x o, Post [] i p p₁ (.ok x) → All rest p₁ p₂ o →
      All (i :: rest) p p₂ o) (roots : List (Fin n)) :
    ∀ p, ∃ p' o, (r.settleAll conditions roots p).result = .ok (p', o) ∧ All roots p p' o := by
  induction roots with
  | nil => exact fun p => ⟨p, .ok (), rfl, nil p⟩
  | cons i rest ih =>
    intro p
    obtain ⟨p₁, o, hres, hpost⟩ := w.settle inside [] i List.not_mem_nil p
    rw [Resolver.settleAll]
    rw [Logged.result_bind_of_ok hres]
    cases o with
    | error e => exact ⟨p₁, .error e, rfl, failed i rest p p₁ e hpost⟩
    | ok x =>
      obtain ⟨p₂, o, hrest, hall⟩ := ih p₁
      exact ⟨p₂, o, hrest, next i rest p p₁ p₂ x o hpost hall⟩

end Walk

end Resolver

end EventConditions
