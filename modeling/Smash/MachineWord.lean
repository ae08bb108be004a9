import Mathlib.Algebra.Order.Ring.Nat

/-! Unsigned 64-bit counters kept as natural numbers, and rounding up to a multiple. -/
namespace Smash.MachineWord

/-- The number of values of a 64-bit word. -/
def wordSize : Nat := 2 ^ 64

def fetchAdd (counter amount : Nat) : Nat := (counter + amount) % wordSize

def fetchSub (counter amount : Nat) : Nat := (counter + (wordSize - amount % wordSize)) % wordSize

theorem fetchAdd_of_lt {counter amount : Nat} (fits : counter + amount < wordSize) :
    fetchAdd counter amount = counter + amount :=
  Nat.mod_eq_of_lt fits

theorem fetchSub_of_le {counter amount : Nat} (enough : amount ≤ counter)
    (fits : counter < wordSize) : fetchSub counter amount = counter - amount := by
  have small : amount % wordSize = amount := Nat.mod_eq_of_lt (by omega)
  have shifted : counter + (wordSize - amount) = wordSize + (counter - amount) := by omega
  rw [fetchSub, small, shifted, Nat.add_mod_left, Nat.mod_eq_of_lt (by omega)]

def alignUp (v alignment : Nat) : Nat := (v + alignment - 1) / alignment * alignment

theorem le_alignUp {v alignment : Nat} (positive : 0 < alignment) :
    v ≤ alignUp v alignment := by
  have split := Nat.div_add_mod (v + alignment - 1) alignment
  have small := Nat.mod_lt (v + alignment - 1) positive
  rw [alignUp, Nat.mul_comm]
  omega

theorem alignUp_lt_add {v alignment : Nat} (positive : 0 < alignment) :
    alignUp v alignment < v + alignment := by
  have split := Nat.div_add_mod (v + alignment - 1) alignment
  rw [alignUp, Nat.mul_comm]
  omega

theorem alignUp_mod (v alignment : Nat) : alignUp v alignment % alignment = 0 :=
  Nat.mul_mod_left _ _

end Smash.MachineWord
