import Mathlib.Data.Nat.Digits.Defs

/-! Words of any width as their bytes in memory. -/

namespace Open3DStream.Lib

/-- The low `n` bytes of a number, the lowest one first. -/
def toBytes : Nat → Nat → List UInt8
  | 0, _ => []
  | n + 1, x => .ofNat x :: toBytes n (x / 256)

def ofBytes (bytes : List UInt8) : Nat := Nat.ofDigits 256 (bytes.map UInt8.toNat)

@[simp] theorem length_toBytes (n x : Nat) : (toBytes n x).length = n := by
  induction n generalizing x with
  | zero => rfl
  | succ n ih => rw [toBytes, List.length_cons, ih]

theorem ofBytes_cons (b : UInt8) (bytes : List UInt8) :
    ofBytes (b :: bytes) = b.toNat + 256 * ofBytes bytes := by
  rw [ofBytes, List.map_cons, Nat.ofDigits_cons]
  rfl

theorem ofBytes_toBytes {n x : Nat} (h : x < 256 ^ n) : ofBytes (toBytes n x) = x := by
  induction n generalizing x with
  | zero =>
    rw [Nat.pow_zero, Nat.lt_one_iff] at h
    rw [h]
    rfl
  | succ n ih =>
    have hq : x / 256 < 256 ^ n := by
      rw [Nat.pow_succ] at h
      omega
    rw [toBytes, ofBytes_cons, ih hq, UInt8.toNat_ofNat']
    omega

end Open3DStream.Lib
