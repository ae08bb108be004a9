import Smash.PageMap
import Smash.SpanSlots

/-! The map from request sizes to size classes: a table up to 1024 bytes, shifts above. -/
namespace Smash.SizeClasses

open PageMap (kNumClasses)
open SpanSlots (kClassSizes)

def kMaxSmallSize : Nat := 16384

/-- The first class that holds `size` bytes, or `kNumClasses`. -/
def firstFit (size : Nat) : Nat := kClassSizes.findIdx (size ≤ ·)

def kSmallLookup (idx : Nat) : Nat :=
  let maxSize := idx * 16
  firstFit (if maxSize = 0 then 1 else maxSize)

def sizeToClass (size : Nat) : Nat :=
  let size := if size = 0 then 1 else size
  if size ≤ 1024 then kSmallLookup ((size + 15) >>> 4)
  else if size ≤ kMaxSmallSize then
    let bits := Nat.log2 (size - 1)
    let group := bits - 10
    let groupBase := 1 <<< bits
    let sub := (size - groupBase - 1) >>> (bits - 2)
    20 + group * 4 + sub
  else kNumClasses

theorem firstFit_eq {size i : Nat} (small : i < 36) (fits : size ≤ kClassSizes[i]!)
    (above : i = 0 ∨ kClassSizes[i - 1]! < size) : firstFit size = i := by
  have sorted : ∀ i < 36, ∀ j < i, kClassSizes[j]! ≤ kClassSizes[i - 1]! := by decide +kernel
  refine (List.findIdx_eq small).mpr ⟨?_, fun j earlier => ?_⟩
  · simpa [getElem!_pos kClassSizes i small] using fits
  · have lower := sorted i small j earlier
    rw [getElem!_pos kClassSizes j (earlier.trans small)] at lower
    simp only [decide_eq_false_iff_not]
    omega

theorem kSmallLookup_firstFit {n : Nat} (positive : 1 ≤ n) (short : n ≤ 1024) :
    kSmallLookup ((n + 15) >>> 4) = firstFit n := by
  -- Class sizes are multiples of 16, so the sizes of a table entry share their class.
  have table : ∀ idx < 65, 1 ≤ idx → kSmallLookup idx < 36 ∧
      idx * 16 ≤ kClassSizes[kSmallLookup idx]! ∧
      (kSmallLookup idx = 0 ∨ kClassSizes[kSmallLookup idx - 1]! ≤ (idx - 1) * 16) := by
    decide +kernel
  rw [Nat.shiftRight_eq_div_pow]
  obtain ⟨below, fits, above⟩ := table ((n + 15) / 2 ^ 4) (by omega) (by omega)
  exact (firstFit_eq below (by omega) (by omega)).symm

theorem shifts_firstFit {n bits : Nat} (low : 2 ^ bits < n) (high : n ≤ 2 ^ bits * 2)
    (many : 10 ≤ bits) (few : bits < 14) :
    20 + (bits - 10) * 4 + (n - 2 ^ bits - 1) / 2 ^ (bits - 2) = firstFit n := by
  -- The four classes of a group cut it into quarters.
  have table : ∀ bits < 14, 10 ≤ bits → ∀ sub < 4, let i := 20 + (bits - 10) * 4 + sub
      i < 36 ∧ 2 ^ bits = 4 * 2 ^ (bits - 2) ∧
      kClassSizes[i]! = 2 ^ bits + (sub + 1) * 2 ^ (bits - 2) ∧
      kClassSizes[i - 1]! = 2 ^ bits + sub * 2 ^ (bits - 2) := by decide +kernel
  have quarter := (table bits few many 0 (by decide)).2.1
  have split := Nat.div_add_mod' (n - 2 ^ bits - 1) (2 ^ (bits - 2))
  have left := Nat.mod_lt (n - 2 ^ bits - 1) (Nat.two_pow_pos (bits - 2))
  obtain ⟨below, -, fits, above⟩ := table bits few many ((n - 2 ^ bits - 1) / 2 ^ (bits - 2))
    (Nat.div_lt_of_lt_mul (by omega))
  rw [Nat.succ_mul] at fits
  exact (firstFit_eq below (by omega) (by omega)).symm

/-- Both paths of `sizeToClass` give the smallest class that holds the request. -/
theorem sizeToClass_firstFit (size : Nat) : sizeToClass size = firstFit (max size 1) := by
  have same : (if size = 0 then 1 else size) = max size 1 := by split <;> omega
  have positive : 1 ≤ max size 1 := Nat.le_max_right _ _
  unfold sizeToClass
  rw [same]
  generalize max size 1 = n at positive ⊢
  dsimp only
  split_ifs with short large
  · exact kSmallLookup_firstFit positive short
  · simp only [kMaxSmallSize, Nat.shiftRight_eq_div_pow, Nat.one_shiftLeft] at large ⊢
    have used : n - 1 ≠ 0 := by omega
    have low := Nat.log2_self_le used
    have high := @Nat.lt_log2_self (n - 1)
    exact shifts_firstFit (by omega) (by omega) ((Nat.le_log2 used).mpr (by omega))
      ((Nat.log2_lt used).mpr (by omega))
  · have most : ∀ c ∈ kClassSizes, c ≤ 16384 := by decide
    refine (List.findIdx_eq_length.mpr fun c mem => ?_ : firstFit n = 36).symm
    simpa using Nat.lt_of_le_of_lt (most c mem) (Nat.lt_of_not_le large)

end Smash.SizeClasses
