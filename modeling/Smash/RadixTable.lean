import Mathlib.Algebra.Order.Ring.Nat
import Mathlib.Logic.Function.Basic
import Mathlib.Tactic.SplitIfs

/-! Two-level tables whose second-level parts are made when they are first needed. A table is
determined by the parts that exist and by what a lookup finds, so two ways to fill it are
compared by these two observations. -/
namespace Smash.RadixTable

open Function

variable {Value : Type} {width : Nat}

abbrev Part (width : Nat) (Value : Type) := Fin width → Option Value

abbrev Table (width : Nat) (Value : Type) := Nat → Option (Part width Value)

section Operations

variable [NeZero width]

def slotOf (i : Nat) : Fin width := Fin.ofNat width i

def ensure (table : Table width Value) (row : Nat) : Table width Value :=
  match table row with
  | some _ => table
  | none => update table row (some fun _ => none)

def write (table : Table width Value) (row : Nat) (slot : Fin width) (v : Option Value) :
    Table width Value :=
  update table row ((table row).map fun part => update part slot v)

def store (table : Table width Value) (i : Nat) (v : Option Value) : Table width Value :=
  write (ensure table (i / width)) (i / width) (slotOf i) v

def lookup (table : Table width Value) (i : Nat) : Option Value :=
  match table (i / width) with
  | none => none
  | some part => part (slotOf i)

def fillRow (table : Table width Value) (row : Nat) (v : Option Value) :
    (slot count : Nat) → Table width Value
  | _, 0 => table
  | slot, count + 1 => fillRow (write table row (slotOf slot) v) row v (slot + 1) count

/-- Write a run of indices part by part: each time to the end of the part or of the run. -/
def fill (table : Table width Value) (v : Option Value) (first last : Nat) :
    Table width Value :=
  if first ≤ last then
    let slot := first % width
    let final := if slot + (last - first) < width - 1 then slot + (last - first) else width - 1
    fill (fillRow (ensure table (first / width)) (first / width) v slot (final - slot + 1))
      v (first + (final - slot) + 1) last
  else table
termination_by last + 1 - first

end Operations

section Observations

variable [NeZero width] {table : Table width Value} {v : Option Value}

theorem slotOf_val (i : Nat) : (slotOf i : Fin width).val = i % width := rfl

theorem table_ext {j : Table width Value}
    (parts : ∀ row, (table row).isSome = (j row).isSome)
    (values : ∀ i, lookup table i = lookup j i) : table = j := by
  funext row
  have positive : 0 < width := Nat.pos_of_neZero width
  have exists_same := parts row
  cases here : table row with
  | none =>
    rw [here] at exists_same
    exact (Option.isSome_eq_false_iff.mp exists_same.symm |> Option.isNone_iff_eq_none.mp).symm
  | some part =>
    rw [here] at exists_same
    obtain ⟨also, there⟩ := Option.isSome_iff_exists.mp exists_same.symm
    rw [there]
    refine congrArg some (funext fun slot => ?_)
    have found := values (row * width + slot)
    have place : (row * width + slot.val) / width = row := by
      rw [Nat.mul_comm, Nat.mul_add_div positive, Nat.div_eq_of_lt slot.isLt, Nat.add_zero]
    have inside : (slotOf (row * width + slot.val) : Fin width) = slot := by
      refine Fin.ext ?_
      rw [slotOf_val, Nat.mul_comm, Nat.mul_add_mod, Nat.mod_eq_of_lt slot.isLt]
    rw [lookup, lookup, place, here, there, inside] at found
    exact found

omit [NeZero width] in
theorem ensure_isSome (row j : Nat) :
    (ensure table row j).isSome ↔ j = row ∨ (table j).isSome := by
  unfold ensure
  cases here : table row with
  | some part =>
    dsimp only
    refine ⟨.inr, fun either => either.elim (fun same => ?_) id⟩
    rw [same, here, Option.isSome_some]
  | none =>
    rcases eq_or_ne j row with same | apart
    · simp [same]
    · simp [apart]

theorem lookup_ensure (row i : Nat) : lookup (ensure table row) i = lookup table i := by
  unfold ensure
  cases here : table row with
  | some part => rfl
  | none =>
    dsimp only
    rcases eq_or_ne (i / width) row with same | apart
    · rw [lookup, same, update_self, lookup, same, here]
    · rw [lookup, update_of_ne apart, lookup]

omit [NeZero width] in
theorem write_isSome (row : Nat) (slot : Fin width) (j : Nat) :
    (write table row slot v j).isSome = (table j).isSome := by
  rcases eq_or_ne j row with same | apart
  · rw [same, write, update_self, Option.isSome_map]
  · rw [write, update_of_ne apart]

theorem lookup_write {row : Nat} {slot : Fin width} (made : (table row).isSome) (i : Nat) :
    lookup (write table row slot v) i =
      if i / width = row ∧ slotOf i = slot then v else lookup table i := by
  obtain ⟨part, here⟩ := Option.isSome_iff_exists.mp made
  rcases eq_or_ne (i / width) row with same | apart
  · rw [lookup, write, same, update_self, here, Option.map_some]
    dsimp only
    rcases eq_or_ne (slotOf i) slot with equal | different
    · rw [equal, update_self, if_pos ⟨rfl, rfl⟩]
    · rw [update_of_ne different, if_neg fun both => different both.2, lookup, same, here]
  · rw [lookup, write, update_of_ne apart, if_neg fun both => apart both.1, lookup]

theorem store_isSome (i row : Nat) :
    (store table i v row).isSome ↔ row = i / width ∨ (table row).isSome := by
  rw [store, write_isSome, ensure_isSome]

theorem same_index_iff {i j : Nat} :
    (j / width = i / width ∧ (slotOf j : Fin width) = slotOf i) ↔ j = i := by
  constructor
  · rintro ⟨row, slot⟩
    have rest : j % width = i % width := congrArg Fin.val slot
    rw [← Nat.div_add_mod j width, row, rest, Nat.div_add_mod]
  · rintro rfl
    exact ⟨rfl, rfl⟩

theorem lookup_store (i j : Nat) :
    lookup (store table i v) j = if j = i then v else lookup table j := by
  rw [store, lookup_write ((ensure_isSome ..).mpr (.inl rfl)), lookup_ensure]
  simp only [same_index_iff]

theorem fillRow_isSome (row slot count j : Nat) :
    (fillRow table row v slot count j).isSome = (table j).isSome := by
  induction count generalizing table slot with
  | zero => rfl
  | succ count ih => rw [fillRow, ih, write_isSome]

theorem lookup_fillRow {row slot count : Nat} (made : (table row).isSome)
    (fits : slot + count ≤ width) (i : Nat) :
    lookup (fillRow table row v slot count) i =
      if i / width = row ∧ slot ≤ i % width ∧ i % width < slot + count then v
      else lookup table i := by
  induction count generalizing table slot with
  | zero =>
    rw [fillRow, if_neg]
    omega
  | succ count ih =>
    rw [fillRow, ih (by rw [write_isSome]; exact made) (by omega), lookup_write made]
    have equal : (slotOf i : Fin width) = slotOf slot ↔ i % width = slot := by
      rw [Fin.ext_iff, slotOf_val, slotOf_val, Nat.mod_eq_of_lt (by omega : slot < width)]
    simp only [equal]
    split_ifs <;> first | rfl | omega

end Observations

section Runs

variable [NeZero width]

omit [NeZero width] in
theorem in_row_iff {first final i : Nat} (s' : first % width ≤ final) (within : final < width) :
    (i / width = first / width ∧ first % width ≤ i % width ∧
        i % width < first % width + (final - first % width + 1)) ↔
      first ≤ i ∧ i ≤ first + (final - first % width) := by
  have split := Nat.div_add_mod i width
  have start := Nat.div_add_mod first width
  constructor
  · rintro ⟨row, low, high⟩
    rw [row] at split
    omega
  · rintro ⟨low, high⟩
    have row : i / width = first / width := by
      refine Nat.div_eq_of_lt_le ?_ ?_
      · rw [Nat.mul_comm]
        omega
      · rw [Nat.mul_comm, Nat.mul_add, Nat.mul_one]
        omega
    rw [row] at split
    omega

theorem piece_spec {first last final : Nat} (more : first ≤ last)
    (piece : final = if first % width + (last - first) < width - 1 then
      first % width + (last - first) else width - 1) :
    first % width ≤ final ∧ final < width ∧ first + (final - first % width) ≤ last := by
  have positive : 0 < width := Nat.pos_of_neZero width
  have below := Nat.mod_lt first positive
  split at piece <;> omega

theorem lookup_fill (table : Table width Value) (v : Option Value) (first last i : Nat) :
    lookup (fill table v first last) i =
      if first ≤ i ∧ i ≤ last then v else lookup table i := by
  fun_induction fill table v first last with
  | case1 table first more slot final ih =>
    obtain ⟨s', within, short⟩ := piece_spec more (rfl : final = _)
    rw [ih, lookup_fillRow ((ensure_isSome ..).mpr (.inl rfl)) (by omega), lookup_ensure]
    simp only [slot, in_row_iff s' within]
    split_ifs <;> first | rfl | omega
  | case2 table first done =>
    rw [if_neg]
    omega

theorem fill_isSome (table : Table width Value) (v : Option Value) (first last row : Nat) :
    (fill table v first last row).isSome ↔
      (∃ i, first ≤ i ∧ i ≤ last ∧ row = i / width) ∨ (table row).isSome := by
  fun_induction fill table v first last with
  | case1 table first more slot final ih =>
    obtain ⟨s', within, short⟩ := piece_spec more (rfl : final = _)
    rw [ih, fillRow_isSome, ensure_isSome]
    constructor
    · rintro (⟨i, low, high, same⟩ | same | made)
      · exact .inl ⟨i, by omega, high, same⟩
      · exact .inl ⟨first, Nat.le_refl first, more, same⟩
      · exact .inr made
    · rintro (⟨i, low, high, same⟩ | made)
      · -- An index of the run is in the piece just written or behind it.
        by_cases here : i ≤ first + (final - slot)
        · have row := ((in_row_iff s' within).mpr ⟨low, here⟩).1
          exact .inr (.inl (same.trans row))
        · exact .inl ⟨i, by omega, high, same⟩
      · exact .inr (.inr made)
  | case2 table first done =>
    refine ⟨.inr, fun either => either.elim ?_ id⟩
    rintro ⟨i, low, high, -⟩
    omega

end Runs

end Smash.RadixTable
