import Mathlib.Logic.Relation
import EventConditions.Proofs.Resolution.Progress

/-!
# Which conditions can be resolved

A walk fails for a reason that can be told from the conditions alone. Either some condition is not
wired: it is malformed, or names a matcher or a child that does not exist. Or a child is met on the
path, and then the conditions on the path close a cycle, because along a path each condition depends
on the next (`walk_settles`). So conditions that are wired and depend on each other without a cycle
are all resolved.
-/

namespace EventConditions

variable {n : Nat}

/-- The names of the matchers that drive a condition. -/
def Spec.matchers : Spec → List String
  | .simple spec => [spec.start, spec.stop, spec.stopAll].filterMap id
  | .combination _ _ => []

theorem Spec.mem_matchers_simple {spec : SimpleSpec} {name : String} :
    name ∈ (Spec.simple spec).matchers ↔
      spec.start = some name ∨ spec.stop = some name ∨ spec.stopAll = some name := by
  simp [matchers, eq_comm]

/-- The names of the conditions that drive a condition. -/
def Spec.children : Spec → List String
  | .simple _ => []
  | .combination _ children => children

namespace Resolver

/-- A specification that is well-formed, and in which every name stands for something. -/
structure Wired (r : Resolver) (spec : Spec) : Prop where
  wellFormed : spec.defect? = none
  matchers : ∀ name ∈ spec.matchers, r.matcherIndex.get? name ≠ none
  children : ∀ name ∈ spec.children, r.conditionIndex.get? name ≠ none

/-- The condition at `i` lists the one at `j` as a child. -/
def DependsOn (r : Resolver) (conditions : Table n Condition) (i j : Fin n) : Prop :=
  ∃ name ∈ (conditions.entry i).spec.children, r.conditionIndex.get? name = some j.val

/-- No condition depends on itself, not even through others. -/
def Acyclic (r : Resolver) (conditions : Table n Condition) : Prop :=
  ∀ i, ¬ Relation.TransGen (r.DependsOn conditions) i i

variable {r : Resolver} {conditions : Table n Condition}

/-- A matcher that may be absent has an index, if need be, exactly when its name has. -/
theorem exists_index_iff {names : NameIndex} {name? : Option String} :
    (∃ index? : Option Nat, name?.map names.get? = index?.map some) ↔
      ∀ name ∈ name?, names.get? name ≠ none := by
  cases name? with
  | none => exact ⟨fun _ _ hname => absurd hname (by simp), fun _ => ⟨none, rfl⟩⟩
  | some name =>
    have hall : (∀ other ∈ some name, names.get? other ≠ none) ↔ names.get? name ≠ none := by
      simp
    rw [hall, Option.map_some]
    constructor
    · rintro ⟨index?, hindex⟩ hnone
      rw [hnone] at hindex
      rcases index? with _ | i <;> simp at hindex
    · intro hsome
      obtain ⟨i, hi⟩ := Option.ne_none_iff_exists'.1 hsome
      exact ⟨some i, by rw [hi, Option.map_some]⟩

/-- A simple condition can be resolved exactly when every matcher it names exists. -/
theorem exists_simple_iff {name : String} {spec : SimpleSpec} :
    (∃ x : Resolved n, (r.simple name spec).result = .ok x) ↔
      ∀ matcher ∈ (Spec.simple spec).matchers, r.matcherIndex.get? matcher ≠ none := by
  constructor
  · rintro ⟨x, hx⟩ matcher hmatcher
    obtain ⟨start, stop, stopAll, hstart, hstop, hstopAll, -⟩ := simple_eq_ok_iff.1 hx
    rcases Spec.mem_matchers_simple.1 hmatcher with hmem | hmem | hmem
    · exact exists_index_iff.1 ⟨start, hstart⟩ matcher hmem
    · exact exists_index_iff.1 ⟨stop, hstop⟩ matcher hmem
    · exact exists_index_iff.1 ⟨stopAll, hstopAll⟩ matcher hmem
  · intro h
    obtain ⟨start, hstart⟩ := exists_index_iff.2 fun matcher hmem =>
      h matcher (Spec.mem_matchers_simple.2 (.inl hmem))
    obtain ⟨stop, hstop⟩ := exists_index_iff.2 fun matcher hmem =>
      h matcher (Spec.mem_matchers_simple.2 (.inr (.inl hmem)))
    obtain ⟨stopAll, hstopAll⟩ := exists_index_iff.2 fun matcher hmem =>
      h matcher (Spec.mem_matchers_simple.2 (.inr (.inr hmem)))
    exact ⟨_, simple_eq_ok_iff.2 ⟨start, stop, stopAll, hstart, hstop, hstopAll, rfl⟩⟩

/-- What was resolved is wired. -/
theorem Gives.wired {nodes : Table n (Node n)} {condition : Condition} {x : Resolved n}
    (h : r.Gives nodes condition x) : r.Wired condition.spec := by
  cases h with
  | simple hspec hd hs =>
    refine ⟨hd, ?_, ?_⟩
    · rw [hspec]
      exact exists_simple_iff.1 ⟨x, hs⟩
    · rw [hspec]
      exact fun _ hname => absurd hname List.not_mem_nil
  | combination hspec hd hf =>
    refine ⟨hd, ?_, ?_⟩
    · rw [hspec]
      exact fun _ hname => absurd hname List.not_mem_nil
    · intro name hname
      rw [hspec] at hname
      obtain ⟨child, -, hget, -⟩ := exists_found hf hname
      rw [hget]
      simp

/-- Conditions that are wired and have no cycle are settled, from any path on which each condition
depends on the one at hand. -/
theorem walk_settles (hwired : ∀ i, r.Wired (conditions.entry i).spec)
    (hacyclic : r.Acyclic conditions) :
    r.Walk conditions
      (fun path i _ _ o =>
        (∀ a ∈ path, Relation.TransGen (r.DependsOn conditions) a i) → ∃ x, o = .ok x)
      (fun i path names _ _ o =>
        (∀ a ∈ path, Relation.TransGen (r.DependsOn conditions) a i) →
          (∀ name ∈ names, name ∈ (conditions.entry i).spec.children) → ∃ xs, o = .ok xs) where
  known _ _ _ := ⟨_, rfl⟩
  defective := by
    intro path i p defect _ _ hdefect _
    rw [(hwired i).wellFormed] at hdefect
    nomatch hdefect
  matched _ _ _ _ _ _ := ⟨_, rfl⟩
  unmatched := by
    intro path i p spec e _ _ hspec _ hsimple _
    have hmatchers := (hwired i).matchers
    rw [hspec] at hmatchers
    obtain ⟨x, hx⟩ := exists_simple_iff.2 hmatchers
    rw [hx] at hsimple
    nomatch hsimple
  combined _ _ _ _ _ _ := ⟨_, rfl⟩
  broken := by
    intro path i p p' operator names e _ _ hspec _ hposts hpath
    obtain ⟨xs, hxs⟩ := hposts hpath fun name hname => by rw [hspec]; exact hname
    nomatch hxs
  done _ _ _ := ⟨[], rfl⟩
  unknown := by
    intro i path name rest p _ hget _ hlisted
    exact absurd hget ((hwired i).children name (hlisted name List.mem_cons_self))
  cycle := by
    -- the child is on the path, which leads from it to the condition at hand and back
    intro i path name rest p child _ hget hon hpath hlisted
    have hdepends : r.DependsOn conditions i child := ⟨name, hlisted name List.mem_cons_self, hget⟩
    rcases List.mem_cons.1 hon with rfl | hon
    · exact absurd (.single hdepends) (hacyclic child)
    · exact absurd ((hpath child hon).tail hdepends) (hacyclic child)
  failed := by
    intro i path name rest p p' e child _ hget _ hpost hpath hlisted
    have hdepends : r.DependsOn conditions i child := ⟨name, hlisted name List.mem_cons_self, hget⟩
    -- the path to the child goes through the condition at hand
    have hpath' : ∀ a ∈ i :: path, Relation.TransGen (r.DependsOn conditions) a child := by
      intro a ha
      rcases List.mem_cons.1 ha with rfl | ha
      · exact .single hdepends
      · exact (hpath a ha).tail hdepends
    obtain ⟨x, hx⟩ := hpost hpath'
    nomatch hx
  next := by
    intro i path name rest p p₁ p₂ x o child _ _ _ _ hposts hpath hlisted
    obtain ⟨xs, rfl⟩ := hposts hpath fun name hname => hlisted name (List.mem_cons_of_mem _ hname)
    exact ⟨_, rfl⟩

/-- Settling every node succeeds if the conditions belong to the nodes, are wired and have no cycle.
-/
theorem advance_settles (inside : r.Inside n) {nodes : Table n (Node n)}
    (hlayout : r.layout nodes = .ok conditions) (hwired : ∀ i, r.Wired (conditions.entry i).spec)
    (hacyclic : r.Acyclic conditions) : ∃ p, (r.advance nodes).result = .ok (p, .ok ()) := by
  obtain ⟨p, o, hres, ho⟩ := (walk_settles hwired hacyclic).settleAll inside
    (fun _ _ _ o => o = .ok ()) (fun _ => rfl)
    (fun i rest p p' e hpost => by
      obtain ⟨x, hx⟩ := hpost fun _ ha => absurd ha List.not_mem_nil
      nomatch hx)
    (fun _ _ _ _ _ _ _ _ ho => ho) (List.finRange n) { nodes }
  rw [advance, hlayout]
  exact ⟨p, ho ▸ hres⟩

end Resolver

/-! ## Cycles among names -/

/-- The condition called `parent` lists the name `child`. -/
def Lists (conditions : List Condition) (parent child : String) : Prop :=
  ∃ condition ∈ conditions, condition.name = parent ∧ child ∈ condition.spec.children

namespace Resolver

variable {r : Resolver} {conditions : Table n Condition}

/-- A name has the index of the condition that it names. -/
def Indexes (r : Resolver) (conditions : Table n Condition) : Prop :=
  ∀ name (i : Fin n), r.conditionIndex.get? name = some i.val ↔ (conditions.entry i).name = name

theorem Indexes.injective (h : r.Indexes conditions) {i j : Fin n}
    (hname : (conditions.entry i).name = (conditions.entry j).name) : i = j := by
  have hi := (h _ i).2 hname
  have hj := (h _ j).2 rfl
  rw [hi] at hj
  exact Fin.ext (Option.some.inj hj)

theorem mem_toList_iff {condition : Condition} :
    condition ∈ conditions.toList ↔ ∃ i, conditions.entry i = condition := by
  rw [Table.toList_eq_map_entry, List.mem_map]
  simp

/-- Depending on a condition is listing its name. -/
theorem Indexes.dependsOn_iff (h : r.Indexes conditions) {i j : Fin n} :
    r.DependsOn conditions i j ↔
      Lists conditions.toList (conditions.entry i).name (conditions.entry j).name := by
  constructor
  · rintro ⟨name, hname, hget⟩
    refine ⟨conditions.entry i, mem_toList_iff.2 ⟨i, rfl⟩, rfl, ?_⟩
    rw [(h name j).1 hget]
    exact hname
  · rintro ⟨condition, hmem, hparent, hchild⟩
    obtain ⟨k, rfl⟩ := mem_toList_iff.1 hmem
    obtain rfl := h.injective hparent
    exact ⟨_, hchild, (h _ j).2 rfl⟩

/-- A chain of names, each listing the next, is a chain of conditions if every listed name exists.
-/
theorem Indexes.exists_transGen (h : r.Indexes conditions) (inside : r.Inside n)
    (hchildren : ∀ i, ∀ name ∈ (conditions.entry i).spec.children,
      r.conditionIndex.get? name ≠ none)
    {parent child : String} (hchain : Relation.TransGen (Lists conditions.toList) parent child) :
    ∃ i j, (conditions.entry i).name = parent ∧ (conditions.entry j).name = child ∧
      Relation.TransGen (r.DependsOn conditions) i j := by
  -- both ends of a link are names of conditions: one lists something, the other is listed
  have hstep : ∀ {a b}, Lists conditions.toList a b → ∃ i j,
      (conditions.entry i).name = a ∧ (conditions.entry j).name = b ∧
        r.DependsOn conditions i j := by
    rintro a b ⟨condition, hmem, rfl, hb⟩
    obtain ⟨i, rfl⟩ := mem_toList_iff.1 hmem
    obtain ⟨k, hk⟩ := Option.ne_none_iff_exists'.1 (hchildren i b hb)
    exact ⟨i, ⟨k, inside b k hk⟩, rfl, (h b _).1 hk, b, hb, hk⟩
  induction hchain with
  | single hab =>
    obtain ⟨i, j, hi, hj, hdepends⟩ := hstep hab
    exact ⟨i, j, hi, hj, .single hdepends⟩
  | tail _ hbc ih =>
    obtain ⟨i, j, hi, hj, hchain⟩ := ih
    obtain ⟨j', k, hj', hk, hdepends⟩ := hstep hbc
    obtain rfl : j = j' := h.injective (hj.trans hj'.symm)
    exact ⟨i, k, hi, hk, hchain.tail hdepends⟩

/-- There is a cycle of conditions exactly when there is one of names. -/
theorem Indexes.acyclic_iff (h : r.Indexes conditions) (inside : r.Inside n)
    (hchildren : ∀ i, ∀ name ∈ (conditions.entry i).spec.children,
      r.conditionIndex.get? name ≠ none) :
    r.Acyclic conditions ↔ ∀ name, ¬ Relation.TransGen (Lists conditions.toList) name name := by
  constructor
  · intro hacyclic name hcycle
    obtain ⟨i, j, hi, hj, hchain⟩ := h.exists_transGen inside hchildren hcycle
    obtain rfl : i = j := h.injective (hi.trans hj.symm)
    exact hacyclic i hchain
  · intro hacyclic i hcycle
    refine hacyclic (conditions.entry i).name ?_
    exact hcycle.lift (fun i => (conditions.entry i).name) fun _ _ => h.dependsOn_iff.1

end Resolver

end EventConditions
