import Mathlib.Tactic.SplitIfs
import EventConditions.MessagePack.Read
import EventConditions.MessagePack.Write

/-!
# Reading what was written

A written value is read back, whatever bytes come behind it (`Packed.read?_write`). Two things limit
this: lengths are stored in four bytes at most, and a reader follows arrays and maps only to its
depth. `Packed.Storable` says both of a value.

Every form begins with a byte that says of what kind the value is. Where a length follows, in the
first byte or behind it, `Announces` says that the reader gets the kind and the length from the
header; each header has one lemma, and the values are read back by these.
-/

namespace EventConditions

namespace MessagePack

/-! ## Numbers -/

/-- A number that fits the width is read back. -/
theorem readNat_bigEndian {width n : Nat} (h : n < capacity width) (rest : List UInt8) :
    readNat width (bigEndian width n ++ rest) = some (n, rest) := by
  have htake := takeBytes_append (bigEndian width n) rest
  rw [length_bigEndian] at htake
  simp [readNat, htake, ofBigEndian_bigEndian, Nat.mod_eq_of_lt h]

/-- One byte is a number of width one. -/
theorem readNat_one (b : UInt8) (rest : List UInt8) :
    readNat 1 (b :: rest) = some (b.toNat, rest) := by
  simp [readNat, takeBytes, ofBigEndian]

/-- The two's complement of a number that fits the width is read back. -/
theorem readNat_twosComplement (width : Nat) (i : Int) (rest : List UInt8) :
    readNat width (twosComplement width i ++ rest) =
      some ((i % capacity width).toNat, rest) := by
  have hpos : 0 < capacity width := by
    induction width with
    | zero => decide
    | succ width ih => rw [capacity]; omega
  have hlt := Int.emod_lt_of_pos i (Int.natCast_pos.2 hpos)
  exact readNat_bigEndian (by omega) rest

/-- Of a two's complement the number is told by its bounds. -/
theorem ofInt_bmod_twosComplement {width : Nat} {i : Int64} (hlow : -(capacity width / 2) ≤ i.toInt)
    (hhigh : i.toInt < (capacity width + 1) / 2) (hpos : 0 < capacity width) :
    Int64.ofInt (((i.toInt % capacity width).toNat : Int).bmod (capacity width)) = i := by
  have hnonneg := Int.emod_nonneg i.toInt (Int.ne_of_gt (Int.natCast_pos.2 hpos))
  rw [Int.toNat_of_nonneg hnonneg, Int.emod_bmod, Int.bmod_eq_of_le hlow hhigh, Int64.ofInt_toInt]

/-! ## Headers -/

/-- From the header, and from no more than the header, a reader gets a head of the given kind and a
length. -/
def Announces (header : List UInt8) (kind : Extent → Head) (n : Nat) : Prop :=
  ∃ first digits extent, header = first :: digits ∧ Head.ofByte? first = some (kind extent) ∧
    ∀ rest, extent.read (digits ++ rest) = some (n, rest)

/-- A length in the first byte. -/
theorem announces_fixed {first : UInt8} {kind : Extent → Head} {n : Nat}
    (h : Head.ofByte? first = some (kind (.fixed n))) : Announces [first] kind n :=
  ⟨first, [], .fixed n, rfl, h, fun _ => rfl⟩

/-- A length behind the first byte. -/
theorem announces_counted {first : UInt8} {kind : Extent → Head} {width n : Nat}
    (h : Head.ofByte? first = some (kind (.counted width))) (hn : n < capacity width) :
    Announces (first :: bigEndian width n) kind n :=
  ⟨first, bigEndian width n, .counted width, rfl, h, readNat_bigEndian hn⟩

theorem announces_lengthHeader {one two four : UInt8} {kind : Extent → Head} {n : Nat}
    (hone : Head.ofByte? one = some (kind (.counted 1)))
    (htwo : Head.ofByte? two = some (kind (.counted 2)))
    (hfour : Head.ofByte? four = some (kind (.counted 4))) (hn : n < capacity 4) :
    Announces (lengthHeader one two four n) kind n := by
  unfold lengthHeader
  split_ifs with h₁ h₂
  · exact announces_counted hone h₁
  · exact announces_counted htwo h₂
  · exact announces_counted hfour hn

/-- The meaning of a first byte that carries a small length or number. -/
theorem Head.ofByte?_ofNat {n : Nat} (h : n < 0xc0) : Head.ofByte? (UInt8.ofNat n) =
    if n < 0x80 then some (.whole (.uint (UInt64.ofNat n)))
    else if n < 0x90 then some (.map (.fixed (n - 0x80)))
    else if n < 0xa0 then some (.array (.fixed (n - 0x90)))
    else some (.str (.fixed (n - 0xa0))) := by
  have hn : (UInt8.ofNat n).toNat = n := UInt8.toNat_ofNat_of_lt' (Nat.lt_trans h (by decide))
  simp only [Head.ofByte?, hn, if_pos h]

theorem announces_strHeader {n : Nat} (hn : n < capacity 4) : Announces (strHeader n) .str n := by
  unfold strHeader
  split_ifs with h
  · refine announces_fixed ?_
    rw [Head.ofByte?_ofNat (by omega), if_neg (by omega), if_neg (by omega), if_neg (by omega),
      Nat.add_sub_cancel_left]
  · exact announces_lengthHeader rfl rfl rfl hn

theorem announces_binHeader {n : Nat} (hn : n < capacity 4) :
    Announces (lengthHeader 0xc4 0xc5 0xc6 n) .bin n :=
  announces_lengthHeader rfl rfl rfl hn

theorem announces_extHeader {n : Nat} (hn : n < capacity 4) : Announces (extHeader n) .ext n := by
  unfold extHeader
  split
  · exact announces_fixed rfl
  · exact announces_fixed rfl
  · exact announces_fixed rfl
  · exact announces_fixed rfl
  · exact announces_fixed rfl
  · exact announces_lengthHeader rfl rfl rfl hn

theorem announces_arrayHeader {n : Nat} (hn : n < capacity 4) :
    Announces (arrayHeader n) .array n := by
  unfold arrayHeader
  split_ifs with h₁ h₂
  · refine announces_fixed ?_
    rw [Head.ofByte?_ofNat (by omega), if_neg (by omega), if_neg (by omega), if_pos (by omega),
      Nat.add_sub_cancel_left]
  · exact announces_counted rfl h₂
  · exact announces_counted rfl hn

theorem announces_mapHeader {n : Nat} (hn : n < capacity 4) : Announces (mapHeader n) .map n := by
  unfold mapHeader
  split_ifs with h₁ h₂
  · refine announces_fixed ?_
    rw [Head.ofByte?_ofNat (by omega), if_neg (by omega), if_pos (by omega),
      Nat.add_sub_cancel_left]
  · exact announces_counted rfl h₂
  · exact announces_counted rfl hn

/-- Behind a header that announces their number, so many bytes are read. -/
theorem Extent.readBytes_of_read {extent : Extent} {digits content rest : List UInt8}
    (h : ∀ rest, extent.read (digits ++ rest) = some (content.length, rest)) :
    extent.readBytes (digits ++ (content ++ rest)) = some (content, rest) := by
  rw [Extent.readBytes, h]
  exact takeBytes_append content rest

/-! ## Several values one after the other -/

/-- Values that are each read back are read back one after the other. -/
theorem readMany_flatMap {α : Type} {read : List UInt8 → Option (α × List UInt8)}
    {write : α → List UInt8} {xs : List α}
    (h : ∀ x ∈ xs, ∀ rest, read (write x ++ rest) = some (x, rest)) (done : List α)
    (rest : List UInt8) :
    readMany read xs.length done (xs.flatMap write ++ rest) = some (done.reverse ++ xs, rest) := by
  induction xs generalizing done with
  | nil => simp [readMany]
  | cons x xs ih =>
    have hx := h x List.mem_cons_self (xs.flatMap write ++ rest)
    rw [List.length_cons, List.flatMap_cons, List.append_assoc, readMany, hx]
    dsimp only
    rw [ih (fun y hy => h y (List.mem_cons_of_mem x hy))]
    simp

end MessagePack

namespace Packed

open MessagePack

theorem writeItems_eq_flatMap (items : List Packed) : writeItems items = items.flatMap write := by
  induction items with
  | nil => rfl
  | cons v rest ih => rw [writeItems, ih, List.flatMap_cons]

theorem writeEntries_eq_flatMap (entries : List (Packed × Packed)) :
    writeEntries entries = entries.flatMap fun entry => entry.1.write ++ entry.2.write := by
  induction entries with
  | nil => rfl
  | cons entry rest ih => rw [writeEntries, ih, List.flatMap_cons, List.append_assoc]

/-- A reader that follows arrays and maps to the given depth gets the value back: it nests no
deeper, and every length in it fits four bytes. -/
inductive Storable : Nat → Packed → Prop
  | nil {depth : Nat} : Storable depth .nil
  | bool {depth : Nat} (b : Bool) : Storable depth (.bool b)
  | uint {depth : Nat} (n : UInt64) : Storable depth (.uint n)
  | sint {depth : Nat} (i : Int64) : Storable depth (.sint i)
  | float32 {depth : Nat} (bits : UInt32) : Storable depth (.float32 bits)
  | float64 {depth : Nat} (bits : UInt64) : Storable depth (.float64 bits)
  | str {depth : Nat} {bytes : List UInt8} : bytes.length < capacity 4 → Storable depth (.str bytes)
  | bin {depth : Nat} {bytes : List UInt8} : bytes.length < capacity 4 → Storable depth (.bin bytes)
  | ext {depth : Nat} {kind : UInt8} {bytes : List UInt8} : bytes.length < capacity 4 →
      Storable depth (.ext kind bytes)
  | array {depth : Nat} {items : List Packed} : items.length < capacity 4 →
      (∀ v ∈ items, Storable depth v) → Storable (depth + 1) (.array items)
  | map {depth : Nat} {entries : List (Packed × Packed)} : entries.length < capacity 4 →
      (∀ entry ∈ entries, Storable depth entry.1) → (∀ entry ∈ entries, Storable depth entry.2) →
      Storable (depth + 1) (.map entries)

/-- A byte that is a whole value is read as that value. -/
theorem read?_of_whole {first : UInt8} {v : Packed} (h : Head.ofByte? first = some (.whole v))
    (depth : Nat) (rest : List UInt8) : read? depth (first :: rest) = some (v, rest) := by
  rw [read?, h]

/-- An unsigned form is read back. -/
theorem read?_uintBytes (depth : Nat) (n : UInt64) (rest : List UInt8) :
    read? depth (uintBytes n.toNat ++ rest) = some (.uint n, rest) := by
  have hwide : ∀ {first : UInt8} {width : Nat}, Head.ofByte? first = some (.uint width) →
      n.toNat < capacity width →
      read? depth (first :: bigEndian width n.toNat ++ rest) = some (.uint n, rest) := by
    intro first width hfirst hn
    rw [List.cons_append, read?, hfirst]
    simp [readNat_bigEndian hn]
  unfold uintBytes
  split_ifs with h₁ h₂ h₃ h₄
  · refine read?_of_whole ?_ depth rest
    rw [Head.ofByte?_ofNat (by omega), if_pos h₁, UInt64.ofNat_toNat]
  · exact hwide rfl h₂
  · exact hwide rfl h₃
  · exact hwide rfl h₄
  · exact hwide rfl n.toNat_lt

/-- A signed form is read back. -/
theorem read?_sintBytes (depth : Nat) (i : Int64) (rest : List UInt8) :
    read? depth (sintBytes i.toInt ++ rest) = some (.sint i, rest) := by
  have hwide : ∀ {first : UInt8} {width : Nat}, Head.ofByte? first = some (.sint width) →
      0 < capacity width → -(capacity width / 2) ≤ i.toInt →
      i.toInt < (capacity width + 1) / 2 →
      read? depth (first :: twosComplement width i.toInt ++ rest) = some (.sint i, rest) := by
    intro first width hfirst hpos hlow hhigh
    rw [List.cons_append, read?, hfirst]
    simp only [readNat_twosComplement, Option.bind_eq_bind, Option.bind_some,
      ofInt_bmod_twosComplement hlow hhigh hpos]
    rfl
  have hmin := i.le_toInt
  have hmax := i.toInt_lt
  unfold sintBytes
  split_ifs with h₁ h₂ h₃ h₄
  · -- the byte itself is the two's complement
    obtain ⟨n, hn⟩ := Int.eq_ofNat_of_zero_le (Int.emod_nonneg i.toInt (b := 256) (by decide))
    have hbyte : (UInt8.ofNat n).toNat = n := UInt8.toNat_ofNat_of_lt' (show n < 256 by omega)
    have hhead : Head.ofByte? (UInt8.ofNat n) = some (.whole (.sint i)) := by
      simp only [Head.ofByte?, hbyte]
      rw [if_neg (by omega), if_neg (by omega), if_neg (by omega), if_neg (by omega),
        if_pos (by omega)]
      rw [show (n : Int) - 256 = i.toInt by omega, Int64.ofInt_toInt]
    have hbytes : twosComplement 1 i.toInt = [UInt8.ofNat n] := by
      simp [twosComplement, bigEndian, capacity, hn]
    rw [hbytes]
    exact read?_of_whole hhead depth rest
  · exact hwide rfl (by decide) (by simp [capacity]; omega) (by simp [capacity]; omega)
  · exact hwide rfl (by decide) (by simp [capacity]; omega) (by simp [capacity]; omega)
  · exact hwide rfl (by decide) (by simp [capacity]; omega) (by simp [capacity]; omega)
  · exact hwide rfl (by decide) (by simp [capacity]; omega) (by simp [capacity]; omega)

/-- **Reading what was written.** A storable value is read back from what it is written as, and what
comes behind it is left over. -/
theorem read?_write {depth : Nat} {v : Packed} (h : v.Storable depth) (rest : List UInt8) :
    read? depth (v.write ++ rest) = some (v, rest) := by
  induction h generalizing rest with
  | nil => exact read?_of_whole rfl _ rest
  | bool b => cases b <;> exact read?_of_whole rfl _ rest
  | uint n => exact read?_uintBytes _ n rest
  | sint i => exact read?_sintBytes _ i rest
  | float32 bits =>
    have hbits : bits.toNat < capacity 4 := bits.toNat_lt
    rw [write, List.cons_append, read?, show Head.ofByte? 0xca = some .float32 from rfl]
    simp [readNat_bigEndian hbits]
  | float64 bits =>
    have hbits : bits.toNat < capacity 8 := bits.toNat_lt
    rw [write, List.cons_append, read?, show Head.ofByte? 0xcb = some .float64 from rfl]
    simp [readNat_bigEndian hbits]
  | str hlength =>
    obtain ⟨first, digits, extent, hheader, hfirst, hread⟩ := announces_strHeader hlength
    rw [write, hheader, List.append_assoc, List.cons_append, read?, hfirst]
    simp [Extent.readBytes_of_read hread]
  | bin hlength =>
    obtain ⟨first, digits, extent, hheader, hfirst, hread⟩ := announces_binHeader hlength
    rw [write, hheader, List.append_assoc, List.cons_append, read?, hfirst]
    simp [Extent.readBytes_of_read hread]
  | @ext _ kind bytes hlength =>
    obtain ⟨first, digits, extent, hheader, hfirst, hread⟩ := announces_extHeader hlength
    rw [write, hheader, List.append_assoc, List.cons_append, read?, hfirst]
    simp [hread, readNat_one, takeBytes_append]
  | @array depth items hlength _ ih =>
    obtain ⟨first, digits, extent, hheader, hfirst, hread⟩ := announces_arrayHeader hlength
    have hitems := readMany_flatMap ih [] rest
    rw [write, hheader, List.append_assoc, List.cons_append, read?, hfirst, writeItems_eq_flatMap]
    simp [hread, hitems]
  | @map depth entries hlength _ _ ihkey ihvalue =>
    obtain ⟨first, digits, extent, hheader, hfirst, hread⟩ := announces_mapHeader hlength
    have hpair : ∀ entry ∈ entries, ∀ rest, readPair (read? depth)
        (entry.1.write ++ entry.2.write ++ rest) = some (entry, rest) := by
      intro entry hentry rest
      rw [List.append_assoc, readPair, ihkey entry hentry]
      simp [ihvalue entry hentry]
    have hentries := readMany_flatMap hpair [] rest
    rw [write, hheader, List.append_assoc, List.cons_append, read?, hfirst,
      writeEntries_eq_flatMap]
    simp [hread, hentries]

end Packed

end EventConditions
