import Mathlib.Data.List.Nodup
import EventConditions.Log
import EventConditions.MessagePack.Members

/-!
# Reading records and choices

Texts, numbers and lists are read as what was packed. A record that gives some of its members by
name, each once and in any order, is read as the values of the declared members, with none for those
that are left out (`Packed.members?_ofMembers`); a record of all members in declared order is the
case that is written.
-/

namespace EventConditions.Packed

/-! ## Texts and numbers -/

theorem utf8_injective {s t : String} (h : utf8 s = utf8 t) : s = t := by
  rw [utf8, utf8, Array.toList_inj] at h
  exact String.toByteArray_inj.1 (ByteArray.ext h)

@[simp] theorem toText?_ofString (s : String) : (ofString s).toText? = some s := by
  have hvalid : String.fromUTF8? s.toByteArray = some s := by
    rw [String.fromUTF8?, dif_pos s.isValidUTF8]
    rfl
  exact hvalid

@[simp] theorem toOptionalText?_ofString (s : String) :
    (ofString s).toOptionalText? = some (some s) := by
  show (ofString s).toText?.map some = _
  rw [toText?_ofString, Option.map_some]

@[simp] theorem toInt64?_ofInt64 (i : Int64) : (ofInt64 i).toInt64? = some i := by
  have hmax : i.toInt < 9223372036854775808 := i.toInt_lt
  have hread : (ofInt64 i).toInt? = some i.toInt := by
    unfold ofInt64
    split
    · rfl
    · next h =>
      have hlt : i.toInt.toNat < UInt64.size := by
        rw [show UInt64.size = 2 ^ 64 from rfl]
        omega
      rw [toInt?, UInt64.toNat_ofNat_of_lt' hlt, Int.toNat_of_nonneg (by omega)]
  simp [toInt64?, hread, hmax, Int64.ofInt_toInt]

@[simp] theorem toUInt64?_uint (n : UInt64) : (uint n).toUInt64? = some n := by
  simp [toUInt64?, toInt?]

/-- An integer that is in range is read as it is. -/
theorem toUInt32?_of_toInt? {v : Packed} {i : Int} (h : v.toInt? = some i) (hnonneg : 0 ≤ i)
    (hlt : i < 4294967296) : v.toUInt32? = some (UInt32.ofNat i.toNat) := by
  rw [toUInt32?, h]
  exact if_pos ⟨hnonneg, hlt⟩

@[simp] theorem toUInt32?_uint (n : UInt32) : (uint n.toUInt64).toUInt32? = some n := by
  have hlt : n.toNat < 4294967296 := n.toNat_lt
  have hread : (uint n.toUInt64).toInt? = some (n.toNat : Int) := by
    rw [toInt?, UInt32.toNat_toUInt64]
  rw [toUInt32?_of_toInt? hread (Int.natCast_nonneg _) (Int.ofNat_lt.2 hlt), Int.toNat_natCast,
    UInt32.ofNat_toNat]

/-! ## Lists -/

/-- Items that are each read back are read back as a list. -/
theorem toListOf?_array {α : Type} {item? : Packed → Option α} {pack : α → Packed} {xs : List α}
    (h : ∀ x ∈ xs, item? (pack x) = some x) :
    toListOf? item? (.array (xs.map pack)) = some xs := by
  show (xs.map pack).mapM item? = some xs
  rw [List.mapM_map]
  exact (mapM_eq_pure h).trans (congrArg some (List.map_id xs))

/-! ## Records -/

/-- A name stands for its position. -/
theorem position?_ofString (names : List String) (name : String) :
    position? names (ofString name) = some (names.idxOf? name) := by
  have hsame : (fun other => utf8 other == utf8 name) = fun other => other == name := by
    funext other
    rw [Bool.eq_iff_iff, beq_iff_eq, beq_iff_eq]
    exact ⟨utf8_injective, congrArg utf8⟩
  show some (names.findIdx? fun other => utf8 other == utf8 name) = _
  rw [hsame, List.idxOf?]

/-- A member that is given once is the only one of its name. -/
theorem filter_name_eq {members : List (String × Packed)} (h : (members.map Prod.fst).Nodup)
    (name : String) :
    members.filter (fun m => m.1 == name) = (members.lookup name).toList.map (name, ·) := by
  induction members with
  | nil => rfl
  | cons m rest ih =>
    obtain ⟨first, v⟩ := m
    rw [List.map_cons, List.nodup_cons] at h
    by_cases hfirst : first = name
    · subst hfirst
      have hnone : rest.lookup first = none := by
        rw [List.lookup_eq_none_iff]
        intro m hm
        exact bne_iff_ne.2 fun heq => h.1 (List.mem_map.2 ⟨m, hm, heq.symm⟩)
      simp [ih h.2, hnone]
    · simp [ih h.2, hfirst, List.lookup_cons, beq_false_of_ne (Ne.symm hfirst)]

/-- **Reading a record.** Of a record that gives some declared members by name, each once, the
values are read in declared order, with none for a member that is left out. -/
theorem members?_ofMembers {level : Nat} {names : List String} (hnames : names.Nodup)
    {members : List (String × Packed)} (hmembers : (members.map Prod.fst).Nodup)
    (hknown : ∀ m ∈ members, m.1 ∈ names) :
    members? level names (ofMembers members) =
      some (names.map fun name => members.lookup name) := by
  have hplaced : (members.map fun m => (ofString m.1, m.2)).mapM (placed? level names) =
      some (members.map fun m => (names.idxOf? m.1, m.2)) := by
    rw [List.mapM_map]
    refine mapM_eq_pure fun m hm => ?_
    have hsome : (names.idxOf? m.1).isSome = true := by
      simpa using hknown m hm
    simp [placed?, position?_ofString, hsome]
  have hvalue : ∀ i ∈ List.range names.length,
      valueAt? (members.map fun m => (names.idxOf? m.1, m.2)) i =
        some (names[i]?.bind fun name => members.lookup name) := by
    intro i hi
    have hlt : i < names.length := List.mem_range.1 hi
    have hsame : (fun m : String × Packed => names.idxOf? m.1 == some i) =
        fun m => m.1 == names[i] := by
      funext m
      rw [Bool.eq_iff_iff, beq_iff_eq, beq_iff_eq, List.idxOf?_eq_some_iff]
      constructor
      · rintro ⟨_, hget, -⟩
        exact hget.symm
      · intro heq
        refine ⟨hlt, heq.symm, fun j hj hget => ?_⟩
        exact Nat.ne_of_lt hj ((hnames.getElem_inj_iff).1 (hget.trans heq))
    have hfilter : (members.map fun m => (names.idxOf? m.1, m.2)).filter
        (fun entry => entry.1 == some i) =
          (members.lookup names[i]).toList.map (names.idxOf? names[i], ·) := by
      rw [List.filter_map, Function.comp_def]
      simp only [hsame, filter_name_eq hmembers, List.map_map, Function.comp_def]
    rw [valueAt?, hfilter, List.getElem?_eq_getElem hlt, Option.bind_some]
    cases members.lookup names[i] <;> rfl
  show ((members.map fun m => (ofString m.1, m.2)).mapM (placed? level names) >>= fun placed =>
    (List.range names.length).mapM (valueAt? placed)) = _
  rw [hplaced]
  refine (mapM_eq_pure hvalue).trans (congrArg some ?_)
  refine List.ext_getElem (by simp) fun i hi hi' => ?_
  have hlt : i < names.length := by simpa using hi'
  simp [List.getElem?_eq_getElem hlt]

/-- A member that is given once is found under its name. -/
theorem lookup_of_mem {members : List (String × Packed)} (h : (members.map Prod.fst).Nodup)
    {m : String × Packed} (hm : m ∈ members) : members.lookup m.1 = some m.2 := by
  have hkept : m ∈ members.filter fun other => other.1 == m.1 :=
    List.mem_filter.2 ⟨hm, beq_self_eq_true _⟩
  rw [filter_name_eq h, List.mem_map] at hkept
  obtain ⟨v, hv, heq⟩ := hkept
  rw [show m.2 = v from congrArg Prod.snd heq.symm]
  exact Option.mem_toList.1 hv

/-- A record of all members in declared order gives all their values. -/
theorem members?_ofMembers_all {level : Nat} {names : List String} (hnames : names.Nodup)
    {members : List (String × Packed)} (hmembers : members.map Prod.fst = names) :
    members? level names (ofMembers members) = some (members.map fun m => some m.2) := by
  subst hmembers
  rw [members?_ofMembers hnames hnames fun m hm => List.mem_map.2 ⟨m, hm, rfl⟩, List.map_map]
  exact congrArg some (List.map_congr_left fun m hm => lookup_of_mem hnames hm)

/-! ## Choices -/

/-- A variant with content is told by its name. -/
theorem variant?_ofMembers {names : List String} {name : String} {i : Nat} (content : Packed)
    (h : names.idxOf? name = some i) :
    variant? names (ofMembers [(name, content)]) = some (i, some content) := by
  show (position? names (ofString name)).join.map (·, some content) = _
  rw [position?_ofString, h]
  rfl

/-- A variant without content is its name. -/
theorem plainVariant?_ofString {names : List String} {name : String} {i : Nat}
    (h : names.idxOf? name = some i) : plainVariant? names (ofString name) = some i := by
  have hvariant : variant? names (ofString name) = some (i, none) := by
    show (position? names (ofString name)).join.map (·, none) = _
    rw [position?_ofString, h]
    rfl
  rw [plainVariant?, hvariant]

end EventConditions.Packed
