/-! Byte strings as lists, and the little-endian spelling of numbers in them. The two
directions undo each other: a number that fits its width is read back, and a string of
that width is written back. -/

namespace ReplicaRing

abbrev Bytes := List UInt8

namespace Bytes

/-- The lowest `width` bytes of a number, least significant first. -/
def littleEndian : Nat → Nat → Bytes
  | 0, _ => []
  | width + 1, number => UInt8.ofNat number :: littleEndian width (number / 256)

/-- The number a byte string spells, least significant byte first. -/
def number : Bytes → Nat
  | [] => 0
  | first :: rest => first.toNat + 256 * number rest

@[simp] theorem length_littleEndian (width value : Nat) :
    (littleEndian width value).length = width := by
  induction width generalizing value with
  | zero => rfl
  | succ width ih => simp [littleEndian, ih]

theorem number_lt (bytes : Bytes) : number bytes < 1 <<< (8 * bytes.length) := by
  induction bytes with
  | nil => simp [number]
  | cons first rest ih =>
    have small := first.toNat_lt
    rw [number, List.length_cons, Nat.mul_succ, Nat.shiftLeft_add, Nat.shiftLeft_eq _ 8]
    omega

theorem number_littleEndian (width value : Nat) :
    number (littleEndian width value) = value % 1 <<< (8 * width) := by
  induction width generalizing value with
  | zero => simp [littleEndian, number, Nat.mod_one]
  | succ width ih =>
    have grown : 1 <<< (8 * (width + 1)) = 256 * 1 <<< (8 * width) := by
      rw [Nat.mul_succ, Nat.shiftLeft_add, Nat.shiftLeft_eq _ 8, Nat.mul_comm]
    rw [littleEndian, number, ih, UInt8.toNat_ofNat', grown, Nat.mod_mul]

/-- Writing the number that a string spells gives the string back. -/
theorem littleEndian_number (bytes : Bytes) :
    littleEndian bytes.length (number bytes) = bytes := by
  induction bytes with
  | nil => rfl
  | cons first rest ih =>
    have small := first.toNat_lt
    have low : UInt8.ofNat (first.toNat + 256 * number rest) = first := by
      apply UInt8.toNat_inj.mp
      simp only [UInt8.toNat_ofNat']
      omega
    have high : (first.toNat + 256 * number rest) / 256 = number rest := by omega
    simp only [List.length_cons, littleEndian, number, low, high, ih]

end Bytes
end ReplicaRing
