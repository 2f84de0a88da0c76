/-!
# Numbers in bytes

Numbers are written in a fixed number of bytes, the most significant one first.
-/

namespace EventConditions.MessagePack

/-- How many numbers the given count of bytes can tell apart. -/
def capacity : Nat → Nat
  | 0 => 1
  | width + 1 => 256 * capacity width

/-- The number in the given count of bytes. Of a number that needs more, the lowest ones are
kept. -/
def bigEndian : Nat → Nat → List UInt8
  | 0, _ => []
  | width + 1, n => UInt8.ofNat (n / capacity width) :: bigEndian width n

/-- The number that bytes stand for. -/
def ofBigEndian (bytes : List UInt8) : Nat :=
  bytes.foldl (fun n b => n * 256 + b.toNat) 0

@[simp] theorem length_bigEndian (width n : Nat) : (bigEndian width n).length = width := by
  induction width with
  | zero => rfl
  | succ width ih => simp [bigEndian, ih]

/-- What is written is read back, up to what did not fit. -/
theorem ofBigEndian_bigEndian (width n : Nat) :
    ofBigEndian (bigEndian width n) = n % capacity width := by
  have shift (w acc : Nat) : (bigEndian w n).foldl (fun n b => n * 256 + b.toNat) acc =
      acc * capacity w + n % capacity w := by
    induction w generalizing acc with
    | zero => simp [bigEndian, capacity, Nat.mod_one]
    | succ w ih =>
      have digits : n % capacity (w + 1) =
          n / capacity w % 256 * capacity w + n % capacity w := by
        rw [capacity, Nat.mul_comm 256, Nat.mod_mul, Nat.mul_comm (capacity w), Nat.add_comm]
      simp only [bigEndian, List.foldl_cons, ih, UInt8.toNat_ofNat', Nat.reducePow]
      rw [digits, capacity, Nat.add_mul, Nat.mul_assoc, Nat.add_assoc]
  simpa [ofBigEndian] using shift width 0

/-- The first bytes, as many as wanted, and the rest; nothing if there are too few. -/
def takeBytes (count : Nat) (bytes : List UInt8) : Option (List UInt8 × List UInt8) :=
  let taken := bytes.take count
  if taken.length = count then some (taken, bytes.drop count) else none

/-- Bytes put in front are taken off again. -/
theorem takeBytes_append (front rest : List UInt8) :
    takeBytes front.length (front ++ rest) = some (front, rest) := by
  simp [takeBytes]

end EventConditions.MessagePack
