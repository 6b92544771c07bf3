import Mathlib.Algebra.Ring.Int.Defs
import Mathlib.Algebra.Ring.Nat

/-!
# Machine integers

Times are `u64` in the code.  The conversions to and from `i64` wrap, and the arithmetic saturates.
-/

namespace Boru

variable (x : UInt64)

def asI64 : ℤ := x.toBitVec.toInt

def asU64 (x : ℤ) : UInt64 := ⟨BitVec.ofInt 64 x⟩

def saturatingAdd (a b : UInt64) : UInt64 := UInt64.ofNat (min (a.toNat + b.toNat) (2 ^ 64 - 1))

def saturatingSub (a b : UInt64) : UInt64 := UInt64.ofNat (a.toNat - b.toNat)

def absDiff (a b : UInt64) : ℕ := (a.toNat - b.toNat) + (b.toNat - a.toNat)

def saturatingSubI64 (a b : ℤ) : ℤ := max (a - b) (-2 ^ 63)

theorem asI64_eq : asI64 x = if x.toNat < 2 ^ 63 then (x.toNat : ℤ) else x.toNat - 2 ^ 64 := by
  unfold asI64
  rw [BitVec.toInt_eq_toNat_cond]
  have ht : x.toBitVec.toNat = x.toNat := rfl
  split_ifs <;> omega

@[simp] theorem asU64_asI64 : asU64 (asI64 x) = x := by
  unfold asU64 asI64
  rw [BitVec.ofInt_toInt]

theorem toNat_saturatingAdd (a b : UInt64) :
    (saturatingAdd a b).toNat = min (a.toNat + b.toNat) (2 ^ 64 - 1) :=
  UInt64.toNat_ofNat_of_lt' (by show _ < 2 ^ 64; omega)

theorem toNat_saturatingSub (a b : UInt64) : (saturatingSub a b).toNat = a.toNat - b.toNat := by
  have hlt := a.toNat_lt
  exact UInt64.toNat_ofNat_of_lt' (by show _ < 2 ^ 64; omega)

end Boru
