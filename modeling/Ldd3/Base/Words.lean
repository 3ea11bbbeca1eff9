import Mathlib.Data.ZMod.Basic

/-!
Conversions between the C integer types of a 64-bit kernel, over unbounded integers, and the error
codes a call can return. `toU64` converts to `size_t`, `u64` or `unsigned long`, `toInt32` to `int`
and `toInt64` to `loff_t`.
-/

namespace Base.Words

inductive Errno where
  | EAGAIN | EBUSY | EFAULT | EINVAL | EIO | ERESTARTSYS
  deriving DecidableEq, Repr

def toU64 (z : Int) : Nat := (z % 2 ^ 64).toNat

def toInt32 (z : Int) : Int := z.bmod (2 ^ 32)

def toInt64 (z : Int) : Int := z.bmod (2 ^ 64)

theorem toU64_of_range {z : Int} (low : 0 ≤ z) (high : z < 2 ^ 64) : toU64 z = z.toNat := by
  rw [toU64, Int.emod_eq_of_lt low high]

theorem toU64_natCast (n : Nat) : toU64 (n : Int) = n % 2 ^ 64 := by
  unfold toU64
  omega

theorem toU64_of_negative {z : Int} (low : -2 ^ 31 ≤ z) (negative : z < 0) : 2 ^ 63 ≤ toU64 z := by
  unfold toU64
  omega

theorem toInt32_of_range {z : Int} (low : -2 ^ 31 ≤ z) (high : z < 2 ^ 31) : toInt32 z = z :=
  Int.bmod_eq_of_le low high

theorem toInt64_of_range {z : Int} (low : -2 ^ 63 ≤ z) (high : z < 2 ^ 63) : toInt64 z = z :=
  Int.bmod_eq_of_le low high

theorem toInt32_range (z : Int) : -2 ^ 31 ≤ toInt32 z ∧ toInt32 z < 2 ^ 31 :=
  ⟨Int.le_bmod (x := z) (m := 2 ^ 32) (by decide), Int.bmod_lt (x := z) (m := 2 ^ 32) (by decide)⟩

theorem toInt32_emod (z : Int) : toInt32 z % 2 ^ 32 = z % 2 ^ 32 := Int.bmod_emod

theorem toInt32_of_toU64 {z : Int} (small : toU64 z < 2 ^ 31) : toInt32 z = toU64 z := by
  have range := toInt32_range z
  have residue := toInt32_emod z
  unfold toU64 at small ⊢
  omega

theorem toInt32_residue (z : Int) : ((toInt32 z : Int) : ZMod (2 ^ 32)) = (z : ZMod (2 ^ 32)) := by
  rw [ZMod.intCast_eq_intCast_iff]
  exact toInt32_emod z

theorem eq_of_residue {x y : Int} (residue : (x : ZMod (2 ^ 32)) = (y : ZMod (2 ^ 32)))
    (xLow : -2 ^ 31 ≤ x) (xHigh : x < 2 ^ 31) (yLow : -2 ^ 31 ≤ y) (yHigh : y < 2 ^ 31) : x = y := by
  have same := (ZMod.intCast_eq_intCast_iff _ _ _).mp residue
  unfold Int.ModEq at same
  omega

end Base.Words
