import Mathlib.Algebra.BigOperators.Intervals
import Mathlib.Algebra.Group.Action.Defs
import Mathlib.Algebra.Order.BigOperators.Group.Finset

/-! Half-open extents of natural numbers and how often a collection of them covers a
point. Counting the extents over each point turns "pairwise apart" and "covers exactly"
into equations that survive permutation, splitting and moving an extent from one
collection to another. -/
namespace Smash.Extents

open Function List

structure Extent where
  start : Nat
  size : Nat
  deriving DecidableEq, Repr

def Covers (extent : Extent) (point : Nat) : Prop :=
  extent.start ≤ point ∧ point < extent.start + extent.size

instance (extent : Extent) (point : Nat) : Decidable (Covers extent point) :=
  inferInstanceAs (Decidable (_ ∧ _))

/-- No point lies in both extents. An empty extent is apart from every other. -/
def Apart (first second : Extent) : Prop :=
  ∀ point, ¬ (Covers first point ∧ Covers second point)

theorem apart_comm {first second : Extent} : Apart first second ↔ Apart second first := by
  simp only [Apart, and_comm]

theorem apart_iff (first second : Extent) : Apart first second ↔ first.size = 0 ∨ second.size = 0 ∨
      first.start + first.size ≤ second.start ∨ second.start + second.size ≤ first.start := by
  constructor
  · intro apart
    have := apart first.start
    have := apart second.start
    simp only [Covers] at *
    omega
  · intro separated point covered
    simp only [Covers] at covered
    omega

theorem apart_of_le {first second : Extent} (pre : first.start + first.size ≤ second.start) :
    Apart first second :=
  (apart_iff first second).mpr (Or.inr (Or.inr (Or.inl pre)))

instance (first second : Extent) : Decidable (Apart first second) :=
  decidable_of_iff _ (apart_iff first second).symm

def Within (inner outer : Extent) : Prop :=
  outer.start ≤ inner.start ∧ inner.start + inner.size ≤ outer.start + outer.size

instance (inner outer : Extent) : Decidable (Within inner outer) :=
  inferInstanceAs (Decidable (_ ∧ _))

theorem Within.trans {inner middle outer : Extent} (front : Within inner middle)
    (back : Within middle outer) : Within inner outer := by
  simp only [Within] at *
  omega

theorem Apart.within {first second inner outer : Extent} (apart : Apart first second)
    (left : Within inner first) (right : Within outer second) : Apart inner outer := by
  intro point covered
  refine apart point ?_
  simp only [Covers, Within] at *
  omega

def depth (extents : List Extent) (point : Nat) : Nat :=
  extents.countP (Covers · point)

@[simp] theorem depth_nil (point : Nat) : depth [] point = 0 := rfl

@[simp] theorem depth_cons (extent : Extent) (rest : List Extent) (point : Nat) :
    depth (extent :: rest) point = depth rest point + if Covers extent point then 1 else 0 := by
  simp [depth, countP_cons]

@[simp] theorem depth_append (first second : List Extent) (point : Nat) :
    depth (first ++ second) point = depth first point + depth second point := by
  simp [depth]

theorem depth_perm {first second : List Extent} (same : first.Perm second) (point : Nat) :
    depth first point = depth second point :=
  same.countP_eq _

theorem depth_pos_iff {extents : List Extent} {point : Nat} :
    0 < depth extents point ↔ ∃ extent ∈ extents, Covers extent point := by
  simp [depth, countP_pos_iff]

theorem depth_erase {extents : List Extent} {extent : Extent} (mem : extent ∈ extents)
    (point : Nat) :
    depth (extents.erase extent) point + (if Covers extent point then 1 else 0) =
      depth extents point := by
  rw [depth_perm (perm_cons_erase mem) point, depth_cons]

theorem covers_split (start front back point : Nat) :
    ((if Covers ⟨start, front⟩ point then 1 else 0) +
      if Covers ⟨start + front, back⟩ point then 1 else 0) =
        if Covers ⟨start, front + back⟩ point then 1 else 0 := by
  split_ifs <;> simp only [Covers] at * <;> omega

theorem covers_grow (bound size point : Nat) :
    ((if point < bound then 1 else 0) + if Covers ⟨bound, size⟩ point then 1 else 0) =
      if point < bound + size then 1 else 0 := by
  split_ifs <;> simp only [Covers] at * <;> omega

def Packed (extents : List Extent) : Prop :=
  ∀ point, depth extents point ≤ 1

theorem packed_iff_pairwise (extents : List Extent) : Packed extents ↔ extents.Pairwise Apart := by
  induction extents with
  | nil => simp [Packed]
  | cons extent rest ih =>
    rw [pairwise_cons, ← ih]
    constructor
    · intro packed
      refine ⟨fun j mem point covered => ?_, fun point => ?_⟩
      · have bound := packed point
        have counted : 0 < depth rest point := depth_pos_iff.mpr ⟨j, mem, covered.2⟩
        simp only [depth_cons, if_pos covered.1] at bound
        omega
      · have bound := packed point
        rw [depth_cons] at bound
        omega
    · rintro ⟨separated, packed⟩ point
      rw [depth_cons]
      by_cases covered : Covers extent point
      · have clear : depth rest point = 0 := by
          by_contra occupied
          obtain ⟨j, mem, also⟩ := depth_pos_iff.mp (Nat.pos_of_ne_zero occupied)
          exact separated j mem point ⟨covered, also⟩
        simp [clear, covered]
      · simpa [covered] using packed point

theorem packed_cons {extent : Extent} {rest : List Extent} :
    Packed (extent :: rest) ↔ (∀ j ∈ rest, Apart extent j) ∧ Packed rest := by
  rw [packed_iff_pairwise, packed_iff_pairwise, pairwise_cons]

theorem Packed.apart {front back : List Extent} {extent j : Extent}
    (packed : Packed (front ++ extent :: back)) (mem : j ∈ front ++ back) :
    Apart extent j := by
  have moved : Packed (extent :: (front ++ back)) := fun point =>
    (depth_perm perm_middle point) ▸ packed point
  exact (packed_cons.mp moved).1 j mem

theorem Packed.sublist {extents smaller : List Extent} (packed : Packed extents)
    (sub : smaller.Sublist extents) : Packed smaller :=
  fun point => (sub.countP_le).trans (packed point)

theorem sum_depth {extents : List Extent} {outer : Extent}
    (inside : ∀ extent ∈ extents, Within extent outer) :
    ∑ point ∈ Finset.Ico outer.start (outer.start + outer.size), depth extents point =
      (extents.map (·.size)).sum := by
  induction extents with
  | nil => simp
  | cons extent rest ih =>
    have here := inside extent mem_cons_self
    have points : (Finset.Ico outer.start (outer.start + outer.size)).filter (Covers extent ·) =
        Finset.Ico extent.start (extent.start + extent.size) := by
      ext point
      rw [Finset.mem_filter, Finset.mem_Ico, Finset.mem_Ico]
      simp only [Covers, Within] at *
      omega
    have own : ∑ point ∈ Finset.Ico outer.start (outer.start + outer.size),
        (if Covers extent point then 1 else 0) = extent.size := by
      rw [← Finset.card_filter, points, Nat.card_Ico, Nat.add_sub_cancel_left]
    have tail := ih fun j mem => inside j (mem_cons_of_mem extent mem)
    simp only [depth_cons, Finset.sum_add_distrib, map_cons, sum_cons, tail, own]
    exact Nat.add_comm _ _

theorem Packed.sum_size_le {extents : List Extent} {outer : Extent} (packed : Packed extents)
    (inside : ∀ extent ∈ extents, Within extent outer) :
    (extents.map (·.size)).sum ≤ outer.size := by
  rw [← sum_depth inside]
  have bound := Finset.sum_le_card_nsmul
    (Finset.Ico outer.start (outer.start + outer.size)) _ 1 fun point _ => packed point
  rwa [Nat.card_Ico, Nat.add_sub_cancel_left, smul_eq_mul, Nat.mul_one] at bound

/-- The extents cover every point below `bound` exactly once and no other point. -/
def Tiles (extents : List Extent) (bound : Nat) : Prop :=
  ∀ point, depth extents point = if point < bound then 1 else 0

theorem Tiles.packed {extents : List Extent} {bound : Nat} (tiles : Tiles extents bound) :
    Packed extents := by
  intro point
  rw [tiles point]
  split <;> omega

theorem Tiles.pairwise {extents : List Extent} {bound : Nat} (tiles : Tiles extents bound) :
    extents.Pairwise Apart :=
  (packed_iff_pairwise extents).mp tiles.packed

theorem Tiles.covered_iff {extents : List Extent} {bound : Nat} (tiles : Tiles extents bound)
    (point : Nat) : (∃ extent ∈ extents, Covers extent point) ↔ point < bound := by
  rw [← depth_pos_iff, tiles point]
  split <;> simp_all

theorem flatMap_update_perm {Index Item : Type} [DecidableEq Index]
    (family : Index → List Item) (i : Index) (items : List Item) {indices : List Index}
    (distinct : indices.Nodup) (mem : i ∈ indices) : (indices.flatMap (update family i items)).Perm
      (items ++ (indices.erase i).flatMap family) := by
  have unchanged : (indices.erase i).flatMap (update family i items) =
      (indices.erase i).flatMap family := by
    refine flatMap_congr fun j present => ?_
    have apart : j ≠ i := fun same => (distinct.not_mem_erase) (same ▸ present)
    simp [apart]
  have pulled := (perm_cons_erase mem).flatMap_right (update family i items)
  simpa [unchanged] using pulled

theorem depth_le_flatMap {Index : Type} [DecidableEq Index] (family : Index → List Extent)
    {i : Index} {indices : List Index} (mem : i ∈ indices) (point : Nat) :
    depth (family i) point ≤ depth (indices.flatMap family) point := by
  have pulled := depth_perm ((perm_cons_erase mem).flatMap_right family) point
  rw [pulled, flatMap_cons, depth_append]
  omega

theorem depth_flatMap_update {Index : Type} [DecidableEq Index]
    (family : Index → List Extent) (i : Index) (items : List Extent) {indices : List Index}
    (distinct : indices.Nodup) (mem : i ∈ indices) (point : Nat) :
    depth (indices.flatMap (update family i items)) point + depth (family i) point =
      depth (indices.flatMap family) point + depth items point := by
  have changed := depth_perm (flatMap_update_perm family i items distinct mem) point
  have same := depth_perm (flatMap_update_perm family i (family i) distinct mem) point
  rw [update_eq_self] at same
  rw [changed, same, depth_append, depth_append]
  omega

end Smash.Extents
