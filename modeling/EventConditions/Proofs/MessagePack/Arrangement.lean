import EventConditions.Proofs.MessagePack.Members
import EventConditions.Proofs.MessagePack.RoundTrip
import Mathlib.Data.List.Perm.Subperm

/-!
# Records in another order and with members left out

A record may give its members in any order, and not all of them. What is read of it then are the
values of the members that are given, whatever their order (`Packed.Arrangement.members?_record`),
and it can be written if the whole record can (`Packed.Storable.record`).
-/

namespace EventConditions.Packed

/-- Which of its declared members a record gives, and in which order. -/
structure Arrangement (names : List String) where
  given : List String
  once : given.Nodup
  known : given ⊆ names

namespace Arrangement

variable {names : List String} (a : Arrangement names)

/-- All members in declared order. -/
def declared (names : List String) (h : names.Nodup) : Arrangement names :=
  ⟨names, h, List.Subset.refl names⟩

/-- The given ones of some members, in the order in which they are given. -/
def arrange (members : List (String × Packed)) : List (String × Packed) :=
  a.given.filterMap fun name => (members.lookup name).map (name, ·)

/-- The record that gives its members so. -/
def record (members : List (String × Packed)) : Packed :=
  .ofMembers (a.arrange members)

theorem map_fst_arrange (members : List (String × Packed)) :
    (a.arrange members).map Prod.fst =
      a.given.filter fun name => (members.lookup name).isSome := by
  rw [arrange, List.map_filterMap, ← List.filterMap_eq_filter]
  refine List.filterMap_congr fun name _ => ?_
  cases h : members.lookup name <;> simp [Option.guard, h]

theorem nodup_arrange (members : List (String × Packed)) :
    ((a.arrange members).map Prod.fst).Nodup := by
  rw [map_fst_arrange]
  exact a.once.filter _

theorem arrange_subset (members : List (String × Packed)) : a.arrange members ⊆ members := by
  intro m hm
  obtain ⟨name, -, hmap⟩ := List.mem_filterMap.1 hm
  obtain ⟨v, hv, rfl⟩ := Option.map_eq_some_iff.1 hmap
  obtain ⟨before, after, rfl, -⟩ := List.lookup_eq_some_iff.1 hv
  simp

/-- A member is found under its name exactly if it is given. -/
theorem lookup_arrange (members : List (String × Packed)) (name : String) :
    (a.arrange members).lookup name = if name ∈ a.given then members.lookup name else none := by
  rw [arrange]
  induction a.given with
  | nil => rfl
  | cons first rest ih =>
    by_cases hfirst : name = first
    · subst hfirst
      cases h : members.lookup name <;> simp [h, ih]
    · cases h : members.lookup first <;>
        simp [h, ih, hfirst, List.lookup_cons, beq_false_of_ne hfirst]

/-- **Reading a rearranged record.** Of a record of all members, the values are read in declared
order whatever the order in which they are given, with none for those that are left out. -/
theorem members?_record {level : Nat} {members : List (String × Packed)} (hnames : names.Nodup)
    (hmembers : members.map Prod.fst = names) :
    members? level names (a.record members) =
      some (members.map fun m => if m.1 ∈ a.given then some m.2 else none) := by
  subst hmembers
  have hknown : ∀ m ∈ a.arrange members, m.1 ∈ members.map Prod.fst := fun m hm =>
    List.mem_map_of_mem (a.arrange_subset members hm)
  rw [record, members?_ofMembers hnames (a.nodup_arrange members) hknown, List.map_map]
  refine congrArg some (List.map_congr_left fun m hm => ?_)
  rw [Function.comp_apply, lookup_arrange, lookup_of_mem hnames hm]

/-- In declared order, a record of all members is as it was. -/
theorem record_declared {members : List (String × Packed)} (hnames : names.Nodup)
    (hmembers : members.map Prod.fst = names) :
    (declared names hnames).record members = .ofMembers members := by
  subst hmembers
  have hall : members.filterMap (fun m => (members.lookup m.1).map (m.1, ·)) = members := by
    refine (List.filterMap_congr fun m hm => ?_).trans List.filterMap_some
    rw [lookup_of_mem hnames hm]
    rfl
  rw [record, arrange, declared, List.filterMap_map]
  exact congrArg ofMembers hall

end Arrangement

/-- What a record holds is one level inside it. -/
theorem Storable.of_mem {depth : Nat} {members : List (String × Packed)}
    (h : Storable (depth + 1) (.ofMembers members)) {m : String × Packed} (hm : m ∈ members) :
    Storable depth m.2 := by
  obtain _ | _ | _ | _ | _ | _ | _ | _ | _ | _ | ⟨-, -, hvalues⟩ := h
  exact hvalues _ (List.mem_map_of_mem hm)

/-- A record can still be written when its members are rearranged. -/
theorem Storable.record {depth : Nat} {members : List (String × Packed)}
    (h : Storable depth (.ofMembers members)) {names : List String} (a : Arrangement names) :
    Storable depth (a.record members) := by
  obtain _ | _ | _ | _ | _ | _ | _ | _ | _ | _ | ⟨hlength, hkeys, hvalues⟩ := h
  have hsub := List.map_subset (fun m : String × Packed => (ofString m.1, m.2))
    (a.arrange_subset members)
  have hfew : (a.arrange members).length ≤ members.length :=
    (List.subperm_of_subset (a.nodup_arrange members).of_map (a.arrange_subset members)).length_le
  refine .map ?_ (fun entry hentry => hkeys entry (hsub hentry))
    fun entry hentry => hvalues entry (hsub hentry)
  rw [List.length_map] at hlength ⊢
  exact Nat.lt_of_le_of_lt hfew hlength

end EventConditions.Packed
