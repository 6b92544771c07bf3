import Mathlib.Algebra.Ring.Nat
import Mathlib.Data.List.Induction

/-!
# Big-endian numbers

A number of fixed width as bytes, the most significant one first.  The bytes are read back
(`fromBeBytes_toBeBytes`).
-/

namespace Boru

/-- `to_be_bytes` of a number that is `width` bytes wide. -/
def toBeBytes : ℕ → ℕ → List UInt8
  | 0, _ => []
  | width + 1, x => toBeBytes width (x / 256) ++ [UInt8.ofNat x]

def fromBeBytes (bytes : List UInt8) : ℕ :=
  bytes.foldl (fun x byte => 256 * x + byte.toNat) 0

@[simp] theorem length_toBeBytes (width x : ℕ) : (toBeBytes width x).length = width := by
  induction width generalizing x with
  | zero => rfl
  | succ width ih => simp [toBeBytes, ih]

theorem fromBeBytes_snoc (bytes : List UInt8) (byte : UInt8) :
    fromBeBytes (bytes ++ [byte]) = 256 * fromBeBytes bytes + byte.toNat := by
  simp [fromBeBytes]

theorem fromBeBytes_toBeBytes {width x : ℕ} (h : x < 256 ^ width) :
    fromBeBytes (toBeBytes width x) = x := by
  induction width generalizing x with
  | zero => simpa [fromBeBytes, toBeBytes] using (Nat.lt_one_iff.1 h).symm
  | succ width ih =>
    have hd : x / 256 < 256 ^ width := Nat.div_lt_of_lt_mul (by rwa [← Nat.pow_succ'])
    have hm : (UInt8.ofNat x).toNat = x % 256 := UInt8.toNat_ofNat'
    rw [toBeBytes, fromBeBytes_snoc, ih hd, hm, Nat.div_add_mod]

end Boru
