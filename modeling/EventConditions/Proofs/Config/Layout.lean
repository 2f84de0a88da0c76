import EventConditions.Proofs.Config.Storage
import EventConditions.Proofs.MessagePack.Arrangement

/-!
# Stored configurations in other layouts

A stored configuration is a nest of records. Each of them may give its members in any order and
leave out some of them; a `Config.Layout` says which and how for every record of a configuration. If
no record lacks a member that it must have, the configuration is read back with the standard values
for the limits that are left out, and otherwise it is refused (`Config.ofBytes_packAs`).

Each part has the same lemma `unpack?_packAs`. It says of every arrangement of the part's members
when the part is read, and as what.
-/

namespace EventConditions

open MessagePack Packed

/-- Items that are all treated alike need no places. -/
theorem mapIdx_eq_map {α β : Type} {g : Nat → α → β} {f : α → β} {xs : List α}
    (h : ∀ i, (hi : i < xs.length) → g i xs[i] = f xs[i]) : xs.mapIdx g = xs.map f := by
  refine List.ext_getElem (by simp) fun i _ hi => ?_
  rw [List.getElem_mapIdx, List.getElem_map, h i (by simpa using hi)]

namespace Packed

/-- A list is read if all its items are. How an item is packed and what it is read as may depend on
its place. -/
theorem toListOf?_mapIdx {α β : Type} {item? : Packed → Option β} {pack : Nat → α → Packed}
    {Complete : Nat → α → Prop} [∀ i x, Decidable (Complete i x)] {value : Nat → α → β}
    (h : ∀ i x, item? (pack i x) = if Complete i x then some (value i x) else none) (xs : List α) :
    toListOf? item? (.array (xs.mapIdx pack)) =
      if ∀ i, (hi : i < xs.length) → Complete i xs[i] then some (xs.mapIdx value) else none := by
  show (xs.mapIdx pack).mapM item? = _
  induction xs generalizing pack Complete value with
  | nil => simp
  | cons x rest ih =>
    have hrest := ih fun i y => h (i + 1) y
    have hall : (∀ i, (hi : i < (x :: rest).length) → Complete i (x :: rest)[i]) ↔
        Complete 0 x ∧ ∀ i, (hi : i < rest.length) → Complete (i + 1) rest[i] := by
      refine ⟨fun h => ⟨h 0 (by simp), fun i hi => h (i + 1) (by simpa using hi)⟩, ?_⟩
      rintro ⟨hfirst, hrest⟩ (_ | i) hi
      · exact hfirst
      · exact hrest i (by simpa using hi)
    rw [List.mapIdx_cons, List.mapIdx_cons, List.mapM_cons, h, hrest]
    simp only [hall]
    by_cases hfirst : Complete 0 x <;>
      by_cases hothers : ∀ i, (hi : i < rest.length) → Complete (i + 1) rest[i] <;>
        simp [hfirst, hothers]

/-- A list is one level around its items. -/
theorem Storable.listIdx {α : Type} {depth : Nat} {pack : Nat → α → Packed} {xs : List α}
    (hlength : xs.length < capacity 4) (h : ∀ i, ∀ x ∈ xs, Storable depth (pack i x)) :
    Storable (depth + 1) (.array (xs.mapIdx pack)) := by
  refine .array (by simpa using hlength) fun v hv => ?_
  obtain ⟨i, hi, rfl⟩ := List.mem_mapIdx.1 hv
  exact h i _ (List.getElem_mem hi)

end Packed

namespace Matcher

/-- The members in declared order. -/
def members (m : Matcher) : List (String × Packed) :=
  [("name", .ofString m.name), ("tag_id", .uint m.tag.toUInt64),
    ("predicates", .array (m.predicates.map Predicate.pack))]

/-- A record of the members that an arrangement gives. -/
def packAs (a : Arrangement memberNames) (m : Matcher) : Packed :=
  a.record m.members

theorem packAs_declared (h : memberNames.Nodup) (m : Matcher) :
    m.packAs (.declared memberNames h) = m.pack :=
  Arrangement.record_declared h rfl

theorem unpack?_packAs (a : Arrangement memberNames) (m : Matcher) :
    unpack? (m.packAs a) = if memberNames ⊆ a.given then some m else none := by
  have hmembers : (m.packAs a).members? level memberNames = some [
      if "name" ∈ a.given then some (.ofString m.name) else none,
      if "tag_id" ∈ a.given then some (.uint m.tag.toUInt64) else none,
      if "predicates" ∈ a.given then some (.array (m.predicates.map Predicate.pack)) else none] :=
    a.members?_record (by decide) rfl
  have hpredicates := toListOf?_array fun p (_ : p ∈ m.predicates) => Predicate.unpack?_pack p
  rw [unpack?, hmembers]
  by_cases hname : "name" ∈ a.given <;> by_cases htag : "tag_id" ∈ a.given <;>
    by_cases hpreds : "predicates" ∈ a.given <;>
      simp [memberNames, hname, htag, hpreds, hpredicates]

theorem storable_packAs {m : Matcher} (h : m.Sized) (a : Arrangement memberNames) (depth : Nat) :
    Storable (depth + 5) (m.packAs a) :=
  (show Storable (depth + 5) (.ofMembers m.members) from storable_pack h depth).record a

end Matcher

namespace SimpleSpec

/-- The members in declared order. -/
def members (s : SimpleSpec) : List (String × Packed) :=
  [("start", packName s.start), ("stop", packName s.stop), ("stop_all", packName s.stopAll),
    ("count_nesting", .bool s.countNesting),
    ("dimensions", .array (s.dimensions.map fun f => .uint f.toUInt64)),
    ("initial_value", s.initial.pack)]

/-- A record of the members that an arrangement gives. -/
def packAs (a : Arrangement memberNames) (s : SimpleSpec) : Packed :=
  a.record s.members

/-- The members that must be given: all but the matchers. -/
def requiredNames : List String := ["count_nesting", "dimensions", "initial_value"]

/-- The condition without the matchers that an arrangement leaves out. -/
def givenBy (a : Arrangement memberNames) (s : SimpleSpec) : SimpleSpec :=
  { s with
    start := if "start" ∈ a.given then s.start else none
    stop := if "stop" ∈ a.given then s.stop else none
    stopAll := if "stop_all" ∈ a.given then s.stopAll else none }

/-- A matcher that is left out is read as none. -/
theorem unpackName?_ite (given : Prop) [Decidable given] (name : Option String) :
    unpackName? (if given then some (packName name) else none) =
      some (if given then name else none) := by
  split
  · exact unpackName?_packName name
  · rfl

theorem packAs_declared (h : memberNames.Nodup) (s : SimpleSpec) :
    s.packAs (.declared memberNames h) = s.pack :=
  Arrangement.record_declared h rfl

theorem unpack?_packAs (a : Arrangement memberNames) (s : SimpleSpec) :
    unpack? (s.packAs a) = if requiredNames ⊆ a.given then some (s.givenBy a) else none := by
  have hmembers : (s.packAs a).members? level memberNames = some [
      if "start" ∈ a.given then some (packName s.start) else none,
      if "stop" ∈ a.given then some (packName s.stop) else none,
      if "stop_all" ∈ a.given then some (packName s.stopAll) else none,
      if "count_nesting" ∈ a.given then some (.bool s.countNesting) else none,
      if "dimensions" ∈ a.given then
        some (.array (s.dimensions.map fun f => .uint f.toUInt64)) else none,
      if "initial_value" ∈ a.given then some s.initial.pack else none] :=
    a.members?_record (by decide) rfl
  have hdimensions := toListOf?_array fun f (_ : f ∈ s.dimensions) => toUInt32?_uint f
  rw [unpack?, hmembers]
  -- Whether the matchers are given needs no cases: either way there is something to read.
  by_cases hnesting : "count_nesting" ∈ a.given <;> by_cases hdims : "dimensions" ∈ a.given <;>
    by_cases hinitial : "initial_value" ∈ a.given <;>
      simp [requiredNames, givenBy, unpackName?_ite, toBool?, hnesting, hdims, hinitial, hdimensions,
        Initial.unpack?_pack]

theorem storable_packAs {s : SimpleSpec} (h : s.Sized) (a : Arrangement memberNames) (depth : Nat) :
    Storable (depth + 2) (s.packAs a) :=
  (show Storable (depth + 2) (.ofMembers s.members) from storable_pack h depth).record a

/-- No matcher is left out that the condition has. -/
def Spared (a : Arrangement memberNames) (s : SimpleSpec) : Prop :=
  ("start" ∉ a.given → s.start = none) ∧ ("stop" ∉ a.given → s.stop = none) ∧
    ("stop_all" ∉ a.given → s.stopAll = none)

instance (a : Arrangement memberNames) (s : SimpleSpec) : Decidable (s.Spared a) :=
  inferInstanceAs (Decidable (_ ∧ _ ∧ _))

theorem givenBy_eq {a : Arrangement memberNames} {s : SimpleSpec} (h : s.Spared a) :
    s.givenBy a = s := by
  obtain ⟨hstart, hstop, hstopAll⟩ := h
  rw [givenBy, ite_eq_left_iff.2 fun h => (hstart h).symm, ite_eq_left_iff.2 fun h => (hstop h).symm,
    ite_eq_left_iff.2 fun h => (hstopAll h).symm]

end SimpleSpec

namespace Spec

/-- How what drives a condition is laid out, whichever it is. -/
structure Layout where
  simple : Arrangement SimpleSpec.memberNames
  combination : Arrangement combinationNames

/-- All members in declared order. -/
def Layout.declared : Layout where
  simple := .declared SimpleSpec.memberNames (by decide)
  combination := .declared combinationNames (by decide)

/-- A combination's members in declared order. -/
def combinationMembers (operator : Operator) (children : List String) : List (String × Packed) :=
  [("operation", operator.pack), ("children", .array (children.map Packed.ofString))]

/-- A map from the way the condition is driven to a record in the given layout. -/
def packAs (l : Layout) : Spec → Packed
  | .simple spec => .ofMembers [("Simple", spec.packAs l.simple)]
  | .combination operator children =>
    .ofMembers [("Combination", l.combination.record (combinationMembers operator children))]

/-- No member that must be given is left out. -/
def Complete (l : Layout) : Spec → Prop
  | .simple _ => SimpleSpec.requiredNames ⊆ l.simple.given
  | .combination _ _ => combinationNames ⊆ l.combination.given

instance (l : Layout) (s : Spec) : Decidable (s.Complete l) :=
  match s with
  | .simple _ => inferInstanceAs (Decidable (SimpleSpec.requiredNames ⊆ l.simple.given))
  | .combination _ _ => inferInstanceAs (Decidable (combinationNames ⊆ l.combination.given))

/-- What is left when the matchers that are left out are forgotten. -/
def givenBy (l : Layout) : Spec → Spec
  | .simple spec => .simple (spec.givenBy l.simple)
  | .combination operator children => .combination operator children

theorem packAs_declared (s : Spec) : s.packAs .declared = s.pack := by
  cases s with
  | simple spec => rw [packAs, Layout.declared, SimpleSpec.packAs_declared, pack]
  | combination operator children =>
    have hrecord : Layout.declared.combination.record (combinationMembers operator children) =
        .ofMembers (combinationMembers operator children) :=
      Arrangement.record_declared (by decide) rfl
    rw [packAs, hrecord, combinationMembers, pack]

theorem unpackCombination?_record (a : Arrangement combinationNames) (operator : Operator)
    (children : List String) :
    unpackCombination? (a.record (combinationMembers operator children)) =
      if combinationNames ⊆ a.given then some (.combination operator children) else none := by
  have hmembers : members? combinationLevel combinationNames
      (a.record (combinationMembers operator children)) = some [
        if "operation" ∈ a.given then some operator.pack else none,
        if "children" ∈ a.given then some (.array (children.map Packed.ofString)) else none] :=
    a.members?_record (by decide) rfl
  have hchildren := toListOf?_array fun name (_ : name ∈ children) => toText?_ofString name
  rw [unpackCombination?, hmembers]
  by_cases hoperation : "operation" ∈ a.given <;> by_cases hnames : "children" ∈ a.given <;>
    simp [combinationNames, hoperation, hnames, hchildren, Operator.unpack?_pack]

theorem unpack?_packAs (l : Layout) (s : Spec) :
    unpack? (s.packAs l) = if s.Complete l then some (s.givenBy l) else none := by
  cases s with
  | simple spec =>
    rw [packAs, unpack?, variant?_ofMembers (i := 0) _ rfl]
    show (SimpleSpec.unpack? (spec.packAs l.simple)).map Spec.simple = _
    rw [SimpleSpec.unpack?_packAs, apply_ite (Option.map Spec.simple)]
    rfl
  | combination operator children =>
    rw [packAs, unpack?, variant?_ofMembers (i := 1) _ rfl]
    exact unpackCombination?_record l.combination operator children

theorem storable_packAs {s : Spec} (h : s.Sized) (l : Layout) (depth : Nat) :
    Storable (depth + 3) (s.packAs l) := by
  cases s with
  | simple spec =>
    exact .ofMembers ["Simple"] (by decide) rfl (by simp [SimpleSpec.storable_packAs h])
  | combination operator children =>
    have hmembers : Storable (depth + 2) (.ofMembers (combinationMembers operator children)) :=
      (storable_pack h depth).of_mem (List.mem_singleton_self _)
    exact .ofMembers ["Combination"] (by decide) rfl (by simp [hmembers.record])

/-- No matcher is left out that the condition has. -/
def Spared (l : Layout) : Spec → Prop
  | .simple spec => spec.Spared l.simple
  | .combination _ _ => True

instance (l : Layout) (s : Spec) : Decidable (s.Spared l) :=
  match s with
  | .simple spec => inferInstanceAs (Decidable (spec.Spared l.simple))
  | .combination _ _ => inferInstanceAs (Decidable True)

theorem givenBy_eq {l : Layout} {s : Spec} (h : s.Spared l) : s.givenBy l = s := by
  cases s with
  | simple spec => exact congrArg Spec.simple (SimpleSpec.givenBy_eq h)
  | combination operator children => rfl

end Spec

namespace Condition

/-- How a condition's own record and what drives it are laid out. -/
structure Layout where
  own : Arrangement memberNames
  spec : Spec.Layout

/-- All members in declared order throughout. -/
def Layout.declared : Layout where
  own := .declared memberNames (by decide)
  spec := .declared

/-- The members in declared order, in the given layout. -/
def membersAs (l : Layout) (c : Condition) : List (String × Packed) :=
  [("name", .ofString c.name), ("spec", c.spec.packAs l.spec)]

/-- A record in the given layout. -/
def packAs (l : Layout) (c : Condition) : Packed :=
  l.own.record (c.membersAs l)

/-- No member that must be given is left out. -/
def Complete (l : Layout) (c : Condition) : Prop :=
  memberNames ⊆ l.own.given ∧ c.spec.Complete l.spec

instance (l : Layout) (c : Condition) : Decidable (c.Complete l) :=
  inferInstanceAs (Decidable (_ ∧ _))

/-- What is left when the matchers that are left out are forgotten. -/
def givenBy (l : Layout) (c : Condition) : Condition :=
  { c with spec := c.spec.givenBy l.spec }

theorem packAs_declared (c : Condition) : c.packAs .declared = c.pack := by
  have hrecord : c.packAs .declared = .ofMembers (c.membersAs .declared) :=
    Arrangement.record_declared (by decide) rfl
  rw [hrecord, membersAs, Layout.declared, Spec.packAs_declared, pack]

theorem unpack?_packAs (l : Layout) (c : Condition) :
    unpack? (c.packAs l) = if c.Complete l then some (c.givenBy l) else none := by
  have hmembers : (c.packAs l).members? level memberNames = some [
      if "name" ∈ l.own.given then some (.ofString c.name) else none,
      if "spec" ∈ l.own.given then some (c.spec.packAs l.spec) else none] :=
    l.own.members?_record (by decide) rfl
  rw [unpack?, hmembers]
  by_cases hname : "name" ∈ l.own.given <;> by_cases hspec : "spec" ∈ l.own.given <;>
    by_cases hcomplete : c.spec.Complete l.spec <;>
      simp [memberNames, Complete, givenBy, hname, hspec, hcomplete, Spec.unpack?_packAs]

theorem storable_packAs {c : Condition} (h : c.Sized) (l : Layout) (depth : Nat) :
    Storable (depth + 4) (c.packAs l) :=
  (Storable.ofMembers memberNames (by decide) rfl (by simp [membersAs, Storable.ofString h.name,
    Spec.storable_packAs h.spec])).record l.own

end Condition

namespace Limits

/-- The members in declared order. -/
def members (l : Limits) : List (String × Packed) :=
  [("max_matchers", .uint l.maxMatchers), ("max_conditions", .uint l.maxConditions),
    ("max_slices_per_condition", .uint l.maxSlices)]

/-- A record of the limits that an arrangement gives. -/
def packAs (a : Arrangement memberNames) (l : Limits) : Packed :=
  a.record l.members

/-- The limits with standard values for those that an arrangement leaves out. -/
def givenBy (a : Arrangement memberNames) (l : Limits) : Limits where
  maxMatchers := if "max_matchers" ∈ a.given then l.maxMatchers else 500
  maxConditions := if "max_conditions" ∈ a.given then l.maxConditions else 300
  maxSlices := if "max_slices_per_condition" ∈ a.given then l.maxSlices else 800

theorem unpackLimit?_ite (given : Prop) [Decidable given] (standard limit : UInt64) :
    unpackLimit? standard (if given then some (.uint limit) else none) =
      some (if given then limit else standard) := by
  split
  · exact toUInt64?_uint limit
  · rfl

theorem packAs_declared (h : memberNames.Nodup) (l : Limits) :
    l.packAs (.declared memberNames h) = l.pack :=
  Arrangement.record_declared h rfl

theorem unpack?_packAs (a : Arrangement memberNames) (l : Limits) :
    unpack? (l.packAs a) = some (l.givenBy a) := by
  have hmembers : (l.packAs a).members? level memberNames = some [
      if "max_matchers" ∈ a.given then some (.uint l.maxMatchers) else none,
      if "max_conditions" ∈ a.given then some (.uint l.maxConditions) else none,
      if "max_slices_per_condition" ∈ a.given then some (.uint l.maxSlices) else none] :=
    a.members?_record (by decide) rfl
  rw [unpack?, hmembers]
  simp [unpackLimit?_ite, givenBy]

theorem storable_packAs (l : Limits) (a : Arrangement memberNames) (depth : Nat) :
    Storable (depth + 1) (l.packAs a) :=
  (show Storable (depth + 1) (.ofMembers l.members) from l.storable_pack depth).record a

end Limits

namespace Config

/-- How a configuration's own record, the limits, and each matcher and condition are laid out. -/
structure Layout where
  own : Arrangement memberNames
  limits : Arrangement Limits.memberNames
  matcher : Nat → Arrangement Matcher.memberNames
  condition : Nat → Condition.Layout

/-- All members in declared order throughout. -/
def Layout.declared : Layout where
  own := .declared memberNames (by decide)
  limits := .declared Limits.memberNames (by decide)
  matcher _ := .declared Matcher.memberNames (by decide)
  condition _ := .declared

/-- The members in declared order, in the given layout. -/
def membersAs (l : Layout) (c : Config) : List (String × Packed) :=
  [("matchers", .array (c.matchers.mapIdx fun i => Matcher.packAs (l.matcher i))),
    ("conditions", .array (c.conditions.mapIdx fun i => Condition.packAs (l.condition i))),
    ("limits", c.limits.packAs l.limits)]

/-- A record in the given layout. -/
def packAs (l : Layout) (c : Config) : Packed :=
  l.own.record (c.membersAs l)

/-- No member that must be given is left out. -/
def Complete (l : Layout) (c : Config) : Prop :=
  ["matchers", "conditions"] ⊆ l.own.given ∧
    (∀ i, i < c.matchers.length → Matcher.memberNames ⊆ (l.matcher i).given) ∧
      ∀ i, (hi : i < c.conditions.length) → c.conditions[i].Complete (l.condition i)

instance (l : Layout) (c : Config) : Decidable (c.Complete l) :=
  inferInstanceAs (Decidable (_ ∧ _ ∧ _))

/-- No matcher is left out that a simple condition has. -/
def Spared (l : Layout) (c : Config) : Prop :=
  ∀ i, (hi : i < c.conditions.length) → c.conditions[i].spec.Spared (l.condition i).spec

instance (l : Layout) (c : Config) : Decidable (c.Spared l) :=
  inferInstanceAs (Decidable (∀ i, (hi : i < c.conditions.length) → _))

/-- The limits with standard values for those that are left out, one by one or together. -/
def limitsBy (l : Layout) (c : Config) : Limits :=
  if "limits" ∈ l.own.given then c.limits.givenBy l.limits
  else { maxMatchers := 500, maxConditions := 300, maxSlices := 800 }

/-- What is left when the members that are left out are forgotten. -/
def givenBy (l : Layout) (c : Config) : Config where
  matchers := c.matchers
  conditions := c.conditions.mapIdx fun i => Condition.givenBy (l.condition i)
  limits := c.limitsBy l

theorem unpackLimits?_ite (l : Layout) (c : Config) :
    unpackLimits? (if "limits" ∈ l.own.given then some (c.limits.packAs l.limits) else none) =
      some (c.limitsBy l) := by
  rw [limitsBy]
  split
  · exact Limits.unpack?_packAs l.limits c.limits
  · rfl

theorem unpack?_packAs (l : Layout) (c : Config) :
    unpack? (c.packAs l) = if c.Complete l then some (c.givenBy l) else none := by
  have hmembers : (c.packAs l).members? level memberNames = some [
      if "matchers" ∈ l.own.given then
        some (.array (c.matchers.mapIdx fun i => Matcher.packAs (l.matcher i))) else none,
      if "conditions" ∈ l.own.given then
        some (.array (c.conditions.mapIdx fun i => Condition.packAs (l.condition i))) else none,
      if "limits" ∈ l.own.given then some (c.limits.packAs l.limits) else none] :=
    l.own.members?_record (by decide) rfl
  have hmatchers := toListOf?_mapIdx (fun i => Matcher.unpack?_packAs (l.matcher i)) c.matchers
  have hconditions :=
    toListOf?_mapIdx (fun i => Condition.unpack?_packAs (l.condition i)) c.conditions
  have hsame : c.matchers.mapIdx (fun _ m => m) = c.matchers :=
    (mapIdx_eq_map fun _ _ => rfl).trans (List.map_id _)
  rw [hsame] at hmatchers
  rw [unpack?, hmembers]
  by_cases hms : "matchers" ∈ l.own.given <;> by_cases hcs : "conditions" ∈ l.own.given <;>
    by_cases heachm : ∀ i, i < c.matchers.length → Matcher.memberNames ⊆ (l.matcher i).given <;>
      by_cases heachc : ∀ i, (hi : i < c.conditions.length) →
        c.conditions[i].Complete (l.condition i) <;>
          simp +contextual [Complete, givenBy, unpackLimits?_ite, hms, hcs, heachm, heachc,
            hmatchers, hconditions]

theorem storable_packAs {c : Config} (h : c.Sized) (l : Layout) (depth : Nat) :
    Storable (depth + 7) (c.packAs l) := by
  have hmatchers : Storable (depth + 6)
      (.array (c.matchers.mapIdx fun i => Matcher.packAs (l.matcher i))) :=
    .listIdx h.matchers fun i m hm => Matcher.storable_packAs (h.eachMatcher m hm) (l.matcher i) depth
  have hconditions : Storable (depth + 6)
      (.array (c.conditions.mapIdx fun i => Condition.packAs (l.condition i))) :=
    .listIdx h.conditions fun i d hd =>
      Condition.storable_packAs (h.eachCondition d hd) (l.condition i) (depth + 1)
  exact (Storable.ofMembers memberNames (by decide) rfl
    (by simp [membersAs, hmatchers, hconditions, Limits.storable_packAs])).record l.own

theorem packAs_declared (c : Config) : c.packAs .declared = c.pack := by
  have hmatchers := mapIdx_eq_map fun i (_ : i < c.matchers.length) =>
    Matcher.packAs_declared (by decide) c.matchers[i]
  have hconditions := mapIdx_eq_map fun i (_ : i < c.conditions.length) =>
    Condition.packAs_declared c.conditions[i]
  have hrecord : c.packAs .declared = .ofMembers (c.membersAs .declared) :=
    Arrangement.record_declared (by decide) rfl
  rw [hrecord, membersAs, Layout.declared, hmatchers, hconditions, Limits.packAs_declared, pack]

theorem givenBy_eq {l : Layout} {c : Config} (h : c.Spared l) :
    c.givenBy l = { c with limits := c.limitsBy l } := by
  have heach : ∀ i, (hi : i < c.conditions.length) →
      c.conditions[i].givenBy (l.condition i) = id c.conditions[i] := by
    intro i hi
    rw [Condition.givenBy, Spec.givenBy_eq (h i hi), id]
  rw [givenBy, mapIdx_eq_map heach, List.map_id]

/-- **The layout does not matter.** With all members in declared order, a configuration is stored as
usual. From a layout where each record has its members in any order, it is read back if what is left
out are at most limits and matchers that the conditions do not have; the limits that are left out
are then 500, 300 and 800. If any other member is left out anywhere, nothing is read. -/
theorem ofBytes_packAs {c : Config} (h : c.Sized) (l : Layout) :
    (c.packAs .declared).write = c.toBytes ∧
      (c.Complete l → c.Spared l →
        ofBytes (c.packAs l).write = .ok { c with limits := c.limitsBy l }) ∧
      (¬ c.Complete l →
        ∃ detail, ofBytes (c.packAs l).write = .error { cause := .undecodable detail }) := by
  have hread : Packed.read? (maxDepth + 1) (c.packAs l).write = some (c.packAs l, []) := by
    have hlevels : Storable (maxDepth + 1) (c.packAs l) := storable_packAs h l 1017
    simpa using Packed.read?_write hlevels []
  refine ⟨congrArg Packed.write c.packAs_declared, fun hcomplete hspared => ?_, fun hlacking => ?_⟩
  · rw [ofBytes, hread]
    simp only [unpack?_packAs, if_pos hcomplete, givenBy_eq hspared]
  · refine ⟨"not a configuration", ?_⟩
    rw [ofBytes, hread]
    simp only [unpack?_packAs, if_neg hlacking]

/-- Whether somebody is in. -/
def presence : Config where
  matchers := [{ name := "enter", tag := 7 }, { name := "leave", tag := 8 }]
  conditions := [
    ⟨"present", .simple { start := some "enter", stop := some "leave", dimensions := [4] }⟩,
    ⟨"absent", .combination .not ["present"]⟩]
  limits := { maxMatchers := 7, maxConditions := 9, maxSlices := 11 }

/-- Members in another order, without a bound on the conditions and without a matcher that stops
all. -/
def Layout.backward : Layout where
  own := ⟨["limits", "conditions", "matchers"], by decide, by decide⟩
  limits := ⟨["max_slices_per_condition", "max_matchers"], by decide, by decide⟩
  matcher _ := ⟨["predicates", "tag_id", "name"], by decide, by decide⟩
  condition _ :=
    { own := ⟨["spec", "name"], by decide, by decide⟩
      spec :=
        { simple := ⟨["initial_value", "stop", "dimensions", "start", "count_nesting"], by decide,
            by decide⟩
          combination := ⟨["children", "operation"], by decide, by decide⟩ } }

/-- The same, where the second matcher has no tag. -/
def Layout.untagged : Layout :=
  { Layout.backward with
    matcher := fun i => if i = 1 then ⟨["predicates", "name"], by decide, by decide⟩
      else Layout.backward.matcher i }

/-- From one layout the configuration is read back but for the bound, from the other it is not. -/
theorem ofBytes_packAs_presence :
    presence.Sized ∧ presence.Complete .backward ∧ presence.Spared .backward ∧
      ¬ presence.Complete .untagged ∧
      ofBytes (presence.packAs .backward).write =
        .ok { presence with limits := { maxMatchers := 7, maxConditions := 300, maxSlices := 11 } } ∧
      ∃ detail, ofBytes (presence.packAs .untagged).write = .error { cause := .undecodable detail } := by
  have hsized : presence.Sized := by
    refine ⟨by decide, ?_, by decide, ?_⟩
    · simp only [presence, List.forall_mem_cons]
      exact ⟨⟨by decide, by decide, by simp⟩, ⟨by decide, by decide, by simp⟩, by simp⟩
    · simp only [presence, List.forall_mem_cons]
      exact ⟨⟨by decide, by decide, by decide, by decide, by decide⟩,
        ⟨by decide, by decide, by decide⟩, by simp⟩
  have hcomplete : presence.Complete .backward := by decide
  have hspared : presence.Spared .backward := by decide
  have hlacking : ¬ presence.Complete .untagged := by decide
  refine ⟨hsized, hcomplete, hspared, hlacking, ?_, (ofBytes_packAs hsized .untagged).2.2 hlacking⟩
  exact (ofBytes_packAs hsized .backward).2.1 hcomplete hspared

end Config

end EventConditions
