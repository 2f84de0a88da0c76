import EventConditions.Config.Storage
import EventConditions.Proofs.MessagePack.Members
import EventConditions.Proofs.MessagePack.RoundTrip

/-!
# Stored configurations are read back

A configuration whose texts and lists can be counted in four bytes is read back from its stored
form, and from nothing that begins like it: no stored form is the beginning of another one
(`Config.ofBytes_toBytes`).

Each part has the same two lemmas. `storable_pack` says that what is packed can be written, and how
many levels it has at most; `unpack?_pack` says that the part is read back from what is packed.
-/

namespace EventConditions

open MessagePack Packed

namespace Packed.Storable

/-- A text that can be counted in four bytes. -/
theorem ofString {depth : Nat} {s : String} (h : s.utf8ByteSize < capacity 4) :
    Storable depth (ofString s) :=
  .str (by simpa [utf8] using h)

theorem ofInt64 {depth : Nat} (i : Int64) : Storable depth (ofInt64 i) := by
  unfold Packed.ofInt64
  split
  · exact .sint _
  · exact .uint _

/-- A list is one level around its items. -/
theorem list {α : Type} {depth : Nat} {pack : α → Packed} {xs : List α}
    (hlength : xs.length < capacity 4) (h : ∀ x ∈ xs, Storable depth (pack x)) :
    Storable (depth + 1) (.array (xs.map pack)) :=
  .array (by simpa using hlength) (List.forall_mem_map.2 h)

/-- A record is one level around its members. -/
theorem ofMembers {depth : Nat} (names : List String) {members : List (String × Packed)}
    (hnames : names.length < capacity 4 ∧ ∀ name ∈ names, name.utf8ByteSize < capacity 4)
    (hmembers : members.map Prod.fst = names) (h : ∀ m ∈ members, Storable depth m.2) :
    Storable (depth + 1) (ofMembers members) := by
  subst hmembers
  rw [List.length_map, List.forall_mem_map] at hnames
  exact .map (by simpa using hnames.1)
    (List.forall_mem_map.2 fun m hm => ofString (hnames.2 m hm)) (List.forall_mem_map.2 h)

end Packed.Storable

namespace Value

/-- A text can be counted in four bytes. -/
def Sized : Value → Prop
  | .str v => v.utf8ByteSize < capacity 4
  | _ => True

theorem storable_pack {v : Value} (h : v.Sized) (depth : Nat) : Storable (depth + 1) v.pack := by
  cases v with
  | int v => exact .ofMembers ["Int"] (by decide) rfl (by simp [Storable.ofInt64])
  | bool v => exact .ofMembers ["Bool"] (by decide) rfl (by simp [Storable.bool])
  | str v => exact .ofMembers ["Str"] (by decide) rfl (by simp [Storable.ofString h])

theorem unpack?_pack (v : Value) : unpack? v.pack = some v := by
  cases v with
  | int v =>
    rw [pack, unpack?, variant?_ofMembers (i := 0) (ofInt64 v) rfl]
    simp
  | bool v =>
    rw [pack, unpack?, variant?_ofMembers (i := 1) (.bool v) rfl]
    rfl
  | str v =>
    rw [pack, unpack?, variant?_ofMembers (i := 2) (ofString v) rfl]
    simp

end Value

namespace Predicate

/-- The value can be counted in four bytes. -/
def Sized : Predicate → Prop
  | .equals _ value => value.Sized
  | .differs _ value => value.Sized

theorem storable_pack {p : Predicate} (h : p.Sized) (depth : Nat) : Storable (depth + 3) p.pack := by
  have hpair (field : FieldId) {value : Value} (h : value.Sized) :
      Storable (depth + 2) (.array [.uint field.toUInt64, value.pack]) :=
    .array (show 2 < capacity 4 by decide) (by simp [Storable.uint, Value.storable_pack h])
  cases p with
  | equals field value => exact .ofMembers ["Eq"] (by decide) rfl (by simp [hpair field h])
  | differs field value => exact .ofMembers ["NotEq"] (by decide) rfl (by simp [hpair field h])

theorem unpackPair?_pack (field : FieldId) (value : Value) :
    unpackPair? (.array [.uint field.toUInt64, value.pack]) = some (field, value) := by
  simp [unpackPair?, toItems?, Value.unpack?_pack]

theorem unpack?_pack (p : Predicate) : unpack? p.pack = some p := by
  cases p with
  | equals field value =>
    rw [pack, unpack?, variant?_ofMembers (i := 0) _ rfl]
    simp [unpackPair?_pack]
  | differs field value =>
    rw [pack, unpack?, variant?_ofMembers (i := 1) _ rfl]
    simp [unpackPair?_pack]

end Predicate

namespace Matcher

/-- The name, the predicates and all in them can be counted in four bytes. -/
structure Sized (m : Matcher) : Prop where
  name : m.name.utf8ByteSize < capacity 4
  predicates : m.predicates.length < capacity 4
  each : ∀ p ∈ m.predicates, p.Sized

theorem storable_pack {m : Matcher} (h : m.Sized) (depth : Nat) : Storable (depth + 5) m.pack := by
  have hpredicates : Storable (depth + 4) (.array (m.predicates.map Predicate.pack)) :=
    .list h.predicates fun p hp => Predicate.storable_pack (h.each p hp) depth
  exact .ofMembers memberNames (by decide) rfl
    (by simp [Storable.ofString h.name, Storable.uint, hpredicates])

theorem unpack?_pack (m : Matcher) : unpack? m.pack = some m := by
  have hmembers : m.pack.members? level memberNames = some [some (ofString m.name),
      some (.uint m.tag.toUInt64), some (.array (m.predicates.map Predicate.pack))] :=
    members?_ofMembers_all (by decide) rfl
  have hpredicates := toListOf?_array fun p (_ : p ∈ m.predicates) => Predicate.unpack?_pack p
  rw [unpack?, hmembers]
  simp [hpredicates]

end Matcher

namespace Operator

theorem storable_pack (op : Operator) (depth : Nat) : Storable depth op.pack := by
  cases op <;> exact .ofString (by decide)

theorem unpack?_pack (op : Operator) : unpack? op.pack = some op := by
  cases op <;> rw [pack, unpack?, plainVariant?_ofString rfl] <;> rfl

end Operator

namespace Initial

theorem storable_pack (initial : Initial) (depth : Nat) : Storable depth initial.pack := by
  cases initial <;> exact .ofString (by decide)

theorem unpack?_pack (initial : Initial) : unpack? initial.pack = some initial := by
  cases initial <;> rw [pack, unpack?, plainVariant?_ofString rfl] <;> rfl

end Initial

namespace SimpleSpec

/-- The names of the matchers and the dimensions can be counted in four bytes. -/
structure Sized (s : SimpleSpec) : Prop where
  start : ∀ name ∈ s.start, name.utf8ByteSize < capacity 4
  stop : ∀ name ∈ s.stop, name.utf8ByteSize < capacity 4
  stopAll : ∀ name ∈ s.stopAll, name.utf8ByteSize < capacity 4
  dimensions : s.dimensions.length < capacity 4

theorem storable_packName {name : Option String} (h : ∀ n ∈ name, n.utf8ByteSize < capacity 4)
    (depth : Nat) : Storable depth (packName name) := by
  cases name with
  | none => exact .nil
  | some name => exact .ofString (h name rfl)

theorem unpackName?_packName (name : Option String) :
    unpackName? (some (packName name)) = some name := by
  cases name with
  | none => rfl
  | some name => exact toOptionalText?_ofString name

theorem storable_pack {s : SimpleSpec} (h : s.Sized) (depth : Nat) : Storable (depth + 2) s.pack := by
  have hdimensions :
      Storable (depth + 1) (.array (s.dimensions.map fun f => .uint f.toUInt64)) :=
    .list h.dimensions fun f _ => .uint f.toUInt64
  exact .ofMembers memberNames (by decide) rfl (by simp [storable_packName h.start,
    storable_packName h.stop, storable_packName h.stopAll, Storable.bool, hdimensions,
    Initial.storable_pack])

theorem unpack?_pack (s : SimpleSpec) : unpack? s.pack = some s := by
  have hmembers : s.pack.members? level memberNames = some [some (packName s.start),
      some (packName s.stop), some (packName s.stopAll), some (.bool s.countNesting),
      some (.array (s.dimensions.map fun f => .uint f.toUInt64)), some s.initial.pack] :=
    members?_ofMembers_all (by decide) rfl
  have hdimensions := toListOf?_array fun f (_ : f ∈ s.dimensions) => toUInt32?_uint f
  rw [unpack?, hmembers]
  simp [unpackName?_packName, toBool?, hdimensions, Initial.unpack?_pack]

end SimpleSpec

namespace Spec

/-- All names and lists can be counted in four bytes. -/
def Sized : Spec → Prop
  | .simple spec => spec.Sized
  | .combination _ children =>
    children.length < capacity 4 ∧ ∀ name ∈ children, name.utf8ByteSize < capacity 4

theorem storable_pack {s : Spec} (h : s.Sized) (depth : Nat) : Storable (depth + 3) s.pack := by
  cases s with
  | simple spec =>
    exact .ofMembers ["Simple"] (by decide) rfl (by simp [SimpleSpec.storable_pack h])
  | combination operator children =>
    have hchildren : Storable (depth + 1) (.array (children.map Packed.ofString)) :=
      .list h.1 fun name hname => .ofString (h.2 name hname)
    have hcontent : Storable (depth + 2) (.ofMembers
        [("operation", operator.pack), ("children", .array (children.map Packed.ofString))]) :=
      .ofMembers combinationNames (by decide) rfl (by simp [Operator.storable_pack, hchildren])
    exact .ofMembers ["Combination"] (by decide) rfl (by simp [hcontent])

theorem unpackCombination?_pack (operator : Operator) (children : List String) :
    unpackCombination? (.ofMembers [("operation", operator.pack),
      ("children", .array (children.map Packed.ofString))]) =
        some (.combination operator children) := by
  have hmembers : members? combinationLevel combinationNames (.ofMembers
      [("operation", operator.pack), ("children", .array (children.map Packed.ofString))]) =
        some [some operator.pack, some (.array (children.map Packed.ofString))] :=
    members?_ofMembers_all (by decide) rfl
  have hchildren := toListOf?_array fun name (_ : name ∈ children) => toText?_ofString name
  rw [unpackCombination?, hmembers]
  simp [hchildren, Operator.unpack?_pack]

theorem unpack?_pack (s : Spec) : unpack? s.pack = some s := by
  cases s with
  | simple spec =>
    rw [pack, unpack?, variant?_ofMembers (i := 0) _ rfl]
    simp [SimpleSpec.unpack?_pack]
  | combination operator children =>
    rw [pack, unpack?, variant?_ofMembers (i := 1) _ rfl]
    exact unpackCombination?_pack operator children

end Spec

namespace Condition

/-- All names and lists can be counted in four bytes. -/
structure Sized (c : Condition) : Prop where
  name : c.name.utf8ByteSize < capacity 4
  spec : c.spec.Sized

theorem storable_pack {c : Condition} (h : c.Sized) (depth : Nat) :
    Storable (depth + 4) c.pack :=
  .ofMembers memberNames (by decide) rfl
    (by simp [Storable.ofString h.name, Spec.storable_pack h.spec])

theorem unpack?_pack (c : Condition) : unpack? c.pack = some c := by
  have hmembers : c.pack.members? level memberNames =
      some [some (ofString c.name), some c.spec.pack] :=
    members?_ofMembers_all (by decide) rfl
  rw [unpack?, hmembers]
  simp [Spec.unpack?_pack]

end Condition

namespace Limits

theorem storable_pack (l : Limits) (depth : Nat) : Storable (depth + 1) l.pack :=
  .ofMembers memberNames (by decide) rfl (by simp [Storable.uint])

theorem unpack?_pack (l : Limits) : unpack? l.pack = some l := by
  have hmembers : l.pack.members? level memberNames =
      some [some (.uint l.maxMatchers), some (.uint l.maxConditions), some (.uint l.maxSlices)] :=
    members?_ofMembers_all (by decide) rfl
  rw [unpack?, hmembers]
  simp [unpackLimit?]

end Limits

namespace Config

/-- All texts and lists of a configuration can be counted in four bytes. -/
structure Sized (c : Config) : Prop where
  matchers : c.matchers.length < capacity 4
  eachMatcher : ∀ m ∈ c.matchers, m.Sized
  conditions : c.conditions.length < capacity 4
  eachCondition : ∀ d ∈ c.conditions, d.Sized

theorem storable_pack {c : Config} (h : c.Sized) (depth : Nat) : Storable (depth + 7) c.pack := by
  have hmatchers : Storable (depth + 6) (.array (c.matchers.map Matcher.pack)) :=
    .list h.matchers fun m hm => Matcher.storable_pack (h.eachMatcher m hm) depth
  have hconditions : Storable (depth + 6) (.array (c.conditions.map Condition.pack)) :=
    .list h.conditions fun d hd => Condition.storable_pack (h.eachCondition d hd) (depth + 1)
  exact .ofMembers memberNames (by decide) rfl
    (by simp [hmatchers, hconditions, Limits.storable_pack])

theorem unpack?_pack (c : Config) : unpack? c.pack = some c := by
  have hmembers : c.pack.members? level memberNames =
      some [some (.array (c.matchers.map Matcher.pack)),
        some (.array (c.conditions.map Condition.pack)), some c.limits.pack] :=
    members?_ofMembers_all (by decide) rfl
  have hmatchers := toListOf?_array fun m (_ : m ∈ c.matchers) => Matcher.unpack?_pack m
  have hconditions := toListOf?_array fun d (_ : d ∈ c.conditions) => Condition.unpack?_pack d
  rw [unpack?, hmembers]
  simp [hmatchers, hconditions, unpackLimits?, Limits.unpack?_pack]

/-- Behind a stored configuration nothing is looked at. -/
theorem ofBytes_append {c : Config} (h : c.Sized) (rest : List UInt8) :
    ofBytes (c.toBytes ++ rest) = .ok c := by
  have hlevels : Storable (maxDepth + 1) c.pack := storable_pack h 1017
  rw [ofBytes, toBytes, Packed.read?_write hlevels rest]
  simp only [unpack?_pack]

/-- **Stored configurations are read back.** A configuration whose texts and lists can be counted in
four bytes is read back from the bytes it is stored as, whatever follows them. So of two different
configurations neither is stored as the beginning of what the other is stored as, nor as the
same. -/
theorem ofBytes_toBytes {c : Config} (h : c.Sized) :
    (∀ rest, ofBytes (c.toBytes ++ rest) = .ok c) ∧
      ∀ other : Config, other.Sized → c.toBytes <+: other.toBytes → other = c := by
  refine ⟨ofBytes_append h, fun other hother hfront => ?_⟩
  obtain ⟨rest, hrest⟩ := hfront
  have hread := ofBytes_append hother []
  rw [List.append_nil, ← hrest, ofBytes_append h] at hread
  exact (Except.ok.inj hread).symm

/-- Whether some user is logged in, and whether none is. -/
def logins : Config where
  matchers := [
    { name := "login", tag := 7, predicates := [.equals 1 (.str "ok"), .differs 2 (.int (-40000)),
      .equals 3 (.bool true)] },
    { name := "logout", tag := 70000 }]
  conditions := [
    ⟨"active", .simple { start := some "login", stop := some "logout", dimensions := [4] }⟩,
    ⟨"idle", .combination .not ["active"]⟩]
  limits := { maxSlices := 18446744073709551615 }

/-- It is read back in front of a byte that starts no value, and the empty configuration is not
stored as anything that begins like it. -/
theorem ofBytes_toBytes_logins :
    logins.Sized ∧ ({} : Config).Sized ∧ ofBytes (logins.toBytes ++ [0xc1]) = .ok logins ∧
      ¬ logins.toBytes <+: ({} : Config).toBytes := by
  have hsized : logins.Sized := by
    refine ⟨by decide, ?_, by decide, ?_⟩
    · simp only [logins, List.forall_mem_cons]
      refine ⟨⟨by decide, by decide, ?_⟩, ⟨by decide, by decide, by simp⟩, by simp⟩
      simp only [Predicate.Sized, Value.Sized, List.forall_mem_cons]
      exact ⟨by decide, trivial, trivial, by simp⟩
    · simp only [logins, List.forall_mem_cons]
      refine ⟨⟨by decide, ?_⟩, ⟨by decide, by decide, by decide⟩, by simp⟩
      exact ⟨by decide, by decide, by decide, by decide⟩
  have hempty : ({} : Config).Sized := ⟨by decide, by simp, by decide, by simp⟩
  obtain ⟨hback, hfront⟩ := ofBytes_toBytes hsized
  exact ⟨hsized, hempty, hback [0xc1], fun h => absurd (hfront {} hempty h) (by decide)⟩

end Config

end EventConditions
