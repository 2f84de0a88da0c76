import Mathlib.Data.List.Forall2
import EventConditions.Proofs.Graph.Resolved
import EventConditions.Proofs.Related

/-!
# Resolving does not read requests for slice reports

Nodes are *twins* if they differ at most in whether slice reports are wanted of them. Twins are
resolved alike: walks over them settle the same conditions in the same order and end with the same
outcome (`Resolver.advance_twin`), because all that a walk reads of a node is what it was resolved
to. So two graphs whose nodes have the same names and numbers are resolved to twins, whatever they
were resolved to before (`Graph.SameNamesAndLimit.resolve_twin`).
-/

namespace EventConditions

variable {n : Nat}

/-! ## Twins -/

/-- The nodes differ at most in whether slice reports are wanted of them. -/
structure Node.Twin (a b : Node n) : Prop where
  name : b.name = a.name
  index : b.index = a.index
  resolved : b.resolved? = a.resolved?

theorem Node.Twin.eq {a b : Node n} (h : a.Twin b) : b = { a with sliced := b.sliced } := by
  obtain ⟨_, _, _, _⟩ := b
  obtain ⟨rfl, rfl, rfl⟩ := h
  rfl

/-- All nodes at the same index are twins. -/
def Twins (s t : Table n (Node n)) : Prop :=
  ∀ i, (s.entry i).Twin (t.entry i)

/-- Storing the same in twins. -/
theorem Twins.put {s t : Table n (Node n)} (h : Twins s t) (i : Fin n) (x : Resolved n) :
    Twins (s.put i { s.entry i with resolved? := some x })
      (t.put i { t.entry i with resolved? := some x }) := by
  intro j
  by_cases hj : j = i
  · subst hj
    rw [Table.entry_put_self, Table.entry_put_self]
    exact ⟨(h j).name, (h j).index, rfl⟩
  · rw [Table.entry_put_ne _ hj, Table.entry_put_ne _ hj]
    exact h j

/-- Reset nodes of the same names and numbers are twins. -/
theorem Twins.reset {s t : Table n (Node n)}
    (hname : ∀ i, (t.entry i).name = (s.entry i).name)
    (hindex : ∀ i, (t.entry i).index = (s.entry i).index) :
    Twins (s.map Node.reset) (t.map Node.reset) := by
  intro i
  rw [Table.entry_map, Table.entry_map]
  exact ⟨hname i, hindex i, rfl⟩

/-- Walks over twins that came equally far. -/
structure Progress.Twin (p q : Progress n) : Prop where
  nodes : Twins p.nodes q.nodes
  order : q.order = p.order

theorem Progress.Twin.finish {p q : Progress n} (h : p.Twin q) (i : Fin n) (x : Resolved n) :
    (p.finish i x).Twin (q.finish i x) where
  nodes := h.nodes.put i x
  order := congrArg (· ++ [i]) h.order

/-! ## Walks over twins -/

namespace Resolver

open Logged

variable {r : Resolver} {conditions : Table n Condition}

/-- Children are settled alike among twins, if each single child is. -/
theorem settleChildren_twin {name : String} {path : List (Fin n)}
    {settle : (child : Fin n) → child ∉ path → Progress n →
      Logged Fault (Progress n × Except Error (Resolved n))}
    (hsettle : ∀ child off p q, p.Twin q →
      Rel (SameOutcome Progress.Twin) (settle child off p) (settle child off q))
    (names : List String) {p q : Progress n} (h : p.Twin q) :
    Rel (SameOutcome Progress.Twin) (r.settleChildren name path settle names p)
      (r.settleChildren name path settle names q) := by
  induction names generalizing p q with
  | nil => exact .pure ⟨h, rfl⟩
  | cons childName rest ih =>
    rw [settleChildren, settleChildren]
    cases r.conditionIndex.get? childName with
    | none => exact .after fun _ => .pure ⟨h, rfl⟩
    | some index =>
      dsimp only
      split
      · next inside =>
        by_cases hit : (⟨index, inside⟩ : Fin n) ∈ path
        · rw [dif_pos hit, dif_pos hit]
          exact .after fun _ => .pure ⟨h, rfl⟩
        · rw [dif_neg hit, dif_neg hit]
          refine (hsettle _ hit p q h).bind ?_
          rintro ⟨p, o⟩ ⟨q, o'⟩ ⟨htwin, ho⟩
          cases ho
          cases o with
          | error e => exact .pure ⟨htwin, rfl⟩
          | ok x =>
            refine (ih htwin).bind ?_
            rintro ⟨p, others⟩ ⟨q, others'⟩ ⟨htwin, ho⟩
            cases ho
            exact .pure ⟨htwin, rfl⟩
      · exact .error

/-- Settling ends alike among twins. -/
theorem ending_twin (name : String) (i : Fin n) {p q : Progress n} (h : p.Twin q)
    (o : Except Error (Resolved n)) :
    Rel (SameOutcome Progress.Twin) (ending name i p o) (ending name i q o) := by
  cases o with
  | error e => exact .pure ⟨h, rfl⟩
  | ok x => exact .after fun _ => .pure ⟨h.finish i x, rfl⟩

/-- A condition is settled alike among twins. -/
theorem settle_twin (path : List (Fin n)) :
    ∀ i (off : i ∉ path) p q, p.Twin q → Rel (SameOutcome Progress.Twin)
      (r.settle conditions path i off p) (r.settle conditions path i off q) := by
  induction hm : offPath path using Nat.strongRecOn generalizing path with
  | _ m ih =>
    subst hm
    intro i off p q h
    rw [settle, settle, (h.nodes i).resolved]
    cases (p.nodes.entry i).resolved? with
    | some x => exact .pure ⟨h, rfl⟩
    | none =>
      dsimp only
      cases (conditions.entry i).spec.defect? with
      | some defect =>
        exact ending_twin (conditions.entry i).name i h
          (.error { cause := .invalidCondition (conditions.entry i).name defect.message })
      | none =>
        cases (conditions.entry i).spec with
        | simple spec => exact .after fun o => ending_twin _ i h o
        | combination operator names =>
          refine (settleChildren_twin (fun child hit p q h => ?_) names h).bind ?_
          · exact ih _ (offPath_cons_lt off) (i :: path) rfl child hit p q h
          · rintro ⟨p, o⟩ ⟨q, o'⟩ ⟨htwin, ho⟩
            cases ho
            exact ending_twin _ i htwin _

/-- Conditions are settled alike among twins, one after the other. -/
theorem settleAll_twin (roots : List (Fin n)) {p q : Progress n} (h : p.Twin q) :
    Rel (SameOutcome Progress.Twin) (r.settleAll conditions roots p)
      (r.settleAll conditions roots q) := by
  induction roots generalizing p q with
  | nil => exact .pure ⟨h, rfl⟩
  | cons i rest ih =>
    rw [settleAll, settleAll]
    refine (settle_twin [] i List.not_mem_nil p q h).bind ?_
    rintro ⟨p, o⟩ ⟨q, o'⟩ ⟨htwin, ho⟩
    cases ho
    cases o with
    | error e => exact .pure ⟨htwin, rfl⟩
    | ok x => exact ih htwin

/-- What keeps conditions from belonging to nodes is told by names and numbers. -/
theorem misfit?_congr {slot : Nat} {nodes nodes' : List (Node n)} {conditions : List Condition}
    (h : List.Forall₂ Node.Twin nodes nodes') :
    r.misfit? slot nodes' conditions = r.misfit? slot nodes conditions := by
  induction h generalizing slot conditions with
  | nil => rfl
  | cons htwin _ ih =>
    cases conditions with
    | nil => rfl
    | cons condition rest => rw [misfit?, misfit?, htwin.name, htwin.index, ih]

theorem layout_twin {s t : Table n (Node n)} (h : Twins s t) : r.layout t = r.layout s := by
  have hlist : List.Forall₂ Node.Twin s.toList t.toList := by
    rw [Table.toList_eq_map_entry, Table.toList_eq_map_entry, List.forall₂_map_left_iff,
      List.forall₂_map_right_iff, List.forall₂_same]
    exact fun i _ => h i
  rw [layout, layout, misfit?_congr hlist]

theorem advance_twin {s t : Table n (Node n)} (h : Twins s t) :
    Rel (SameOutcome Progress.Twin) (r.advance s) (r.advance t) := by
  rw [advance, advance, layout_twin h]
  cases r.layout s with
  | error e => exact .pure ⟨⟨h, rfl⟩, rfl⟩
  | ok conditions => exact settleAll_twin (List.finRange n) ⟨h, rfl⟩

theorem run_twin {s t : Table n (Node n)} (h : Twins s t) :
    Rel (SameOutcome Twins) (r.run s) (r.run t) := by
  rw [run, run]
  refine (advance_twin h).bind ?_
  rintro ⟨p, o⟩ ⟨q, o'⟩ ⟨htwin, ho⟩
  cases ho
  cases o with
  | error e =>
    refine .after fun _ => .pure ⟨?_, rfl⟩
    exact .reset (fun i => (htwin.nodes i).name) fun i => (htwin.nodes i).index
  | ok u => exact .pure ⟨htwin.nodes, by rw [htwin.order]⟩

end Resolver

/-! ## Graphs of twins -/

namespace Graph

open Logged

/-- The conditions of both graphs have the same names and numbers, and may hold as many slices. -/
structure SameNamesAndLimit (f g : Graph n) : Prop where
  name : ∀ i, (g.nodes.entry i).name = (f.nodes.entry i).name
  index : ∀ i, (g.nodes.entry i).index = (f.nodes.entry i).index
  maxSlices : g.maxSlices = f.maxSlices

theorem SameNamesAndLimit.refl (g : Graph n) : g.SameNamesAndLimit g :=
  ⟨fun _ => rfl, fun _ => rfl, rfl⟩

theorem SameNamesAndLimit.trans {f g h : Graph n} (hfg : f.SameNamesAndLimit g)
    (hgh : g.SameNamesAndLimit h) : f.SameNamesAndLimit h where
  name i := (hgh.name i).trans (hfg.name i)
  index i := (hgh.index i).trans (hfg.index i)
  maxSlices := hgh.maxSlices.trans hfg.maxSlices

/-- The graphs differ at most in the conditions of which slice reports are wanted. -/
structure Twin (f g : Graph n) : Prop where
  nodes : Twins f.nodes g.nodes
  order : g.order = f.order
  maxSlices : g.maxSlices = f.maxSlices

/-- Graphs of the same names and numbers are resolved to twins. -/
theorem SameNamesAndLimit.resolve_twin {f g : Graph n} (h : f.SameNamesAndLimit g)
    (conditions : List Condition) (matchers : NameIndex) :
    Rel (SameOutcome Twin) (f.resolve conditions matchers) (g.resolve conditions matchers) := by
  rw [resolve, resolve, names_congr h.name, h.maxSlices]
  refine (Resolver.run_twin (.reset h.name h.index)).bind ?_
  rintro ⟨s, o⟩ ⟨t, o'⟩ ⟨htwins, ho⟩
  cases ho
  cases o with
  | error e => exact .pure ⟨⟨htwins, rfl, rfl⟩, rfl⟩
  | ok order => exact .after fun _ => .pure ⟨⟨htwins, rfl, rfl⟩, rfl⟩

end Graph

end EventConditions
