import Mathlib.Algebra.Order.Ring.Nat
import Mathlib.Data.Finset.Card

/-! Bitmaps as functions and the number of bits set in an initial part. -/
namespace Smash.Popcount

open Function

abbrev Bits := Nat → Bool

def popcount (bits : Bits) (size : Nat) : Nat :=
  ((Finset.range size).filter fun slot => bits slot = true).card

variable {bits : Bits} {size slot : Nat}

theorem popcount_set (below : slot < size) (clear : bits slot = false) :
    popcount (update bits slot true) size = popcount bits size + 1 := by
  have grown : (Finset.range size).filter (fun j => update bits slot true j = true) =
      insert slot ((Finset.range size).filter fun j => bits j = true) := by
    ext j
    by_cases here : j = slot
    · subst here
      simp [below]
    · simp [here]
  unfold popcount
  rw [grown, Finset.card_insert_of_notMem (by simp [clear])]

theorem popcount_clear (below : slot < size) (marked : bits slot = true) :
    popcount (update bits slot false) size + 1 = popcount bits size := by
  have again : update (update bits slot false) slot true = bits := by
    rw [update_idem, ← marked, update_eq_self]
  rw [← popcount_set below (update_self slot false bits), again]

theorem popcount_eq_zero : popcount bits size = 0 ↔ ∀ slot < size, bits slot = false := by
  simp [popcount, Finset.filter_eq_empty_iff]

theorem popcount_below {count : Nat} (within : count ≤ size) :
    popcount (fun slot => decide (slot < count)) size = count := by
  have initial : (Finset.range size).filter (fun slot => decide (slot < count) = true) =
      Finset.range count := by
    ext slot
    simp only [decide_eq_true_eq, Finset.mem_filter, Finset.mem_range]
    omega
  unfold popcount
  rw [initial, Finset.card_range]

/-- Bits that mark what a duplicate-free list has left of a set count the rest of it. -/
theorem popcount_add_length {usable : Nat → Prop} [DecidablePred usable] {taken : List Nat}
    (marks : ∀ slot, bits slot = true ↔ usable slot ∧ slot ∉ taken) (nodup : taken.Nodup)
    (within : ∀ slot ∈ taken, usable slot ∧ slot < size) :
    popcount bits size + taken.length = ((Finset.range size).filter usable).card := by
  have split : (Finset.range size).filter usable =
      ((Finset.range size).filter fun slot => bits slot = true) ∪ taken.toFinset := by
    ext slot
    simp only [Finset.mem_filter, Finset.mem_range, Finset.mem_union, List.mem_toFinset, marks]
    constructor
    · rintro ⟨below, able⟩
      by_cases mem : slot ∈ taken
      · exact .inr mem
      · exact .inl ⟨below, able, mem⟩
    · rintro (⟨below, able, -⟩ | mem)
      · exact ⟨below, able⟩
      · exact ⟨(within slot mem).2, (within slot mem).1⟩
  have apart : Disjoint ((Finset.range size).filter fun slot => bits slot = true)
      taken.toFinset := by
    rw [Finset.disjoint_left]
    intro slot marked mem
    simp only [Finset.mem_filter, marks] at marked
    exact marked.2.2 (List.mem_toFinset.mp mem)
  rw [split, Finset.card_union_of_disjoint apart, List.toFinset_card_of_nodup nodup]
  rfl

end Smash.Popcount
