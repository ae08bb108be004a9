import Mathlib.Data.List.Nodup
import Mathlib.Tactic.Ring
import Smash.LargeAlloc

/-! The sizes of cached large blocks. Rounding, stepping to the next size and numbering the
buckets each take their own logarithm in the source; all three are read here against one
sequence, `rung`: the sizes up to eight and then eight sizes for each power of two. -/
namespace Smash.LargeAlloc

open MachineWord List

section Rungs

/-- Size number `k`: 1 to 8, then 9 to 16 times a power of two. -/
def rung (k : Nat) : Nat := if k < 8 then k + 1 else (9 + k % 8) * 2 ^ (k / 8 - 1)

theorem rung_small {k : Nat} (small : k < 8) : rung k = k + 1 := if_pos small

theorem rung_octave (q : Nat) {m : Nat} (inside : m < 8) :
    rung (8 * (q + 1) + m) = (9 + m) * 2 ^ q := by
  have rest : (8 * (q + 1) + m) % 8 = m := by omega
  have octave : (8 * (q + 1) + m) / 8 - 1 = q := by omega
  rw [rung, if_neg (by omega), rest, octave]

theorem exists_octave {k : Nat} (large : 8 ≤ k) : ∃ q m, m < 8 ∧ k = 8 * (q + 1) + m :=
  ⟨k / 8 - 1, k % 8, by omega, by omega⟩

theorem log2_eq {v b : Nat} (above : 2 ^ b ≤ v) (below : v < 2 ^ (b + 1)) :
    Nat.log2 v = b := by
  have positive : v ≠ 0 := by
    have := Nat.two_pow_pos b
    omega
  exact (Nat.log2_eq_iff positive).mpr ⟨above, below⟩

theorem nextRounded_rung (k : Nat) : nextRounded (rung k) = rung (k + 1) := by
  rcases Nat.lt_or_ge k 7 with first | later
  · rw [rung_small (by omega), rung_small (by omega), nextRounded, if_pos (by omega)]
  rcases Nat.lt_or_ge k 8 with seven | large
  · obtain rfl : k = 7 := by omega
    decide
  obtain ⟨q, m, inside, rfl⟩ := exists_octave large
  have power := Nat.two_pow_pos q
  have eight : 2 ^ (q + 3) = 8 * 2 ^ q := by rw [Nat.pow_add]; omega
  have sixteen : 2 ^ (q + 3 + 1) = 16 * 2 ^ q := by rw [Nat.pow_add, eight]; omega
  have thirtytwo : 2 ^ (q + 4 + 1) = 32 * 2 ^ q := by rw [Nat.pow_add, sixteen]; omega
  have double : 2 ^ (q + 1) = 2 * 2 ^ q := by rw [Nat.pow_succ]; omega
  rw [rung_octave q inside]
  have large : ¬ (9 + m) * 2 ^ q < 8 := by
    have := Nat.mul_le_mul (show 9 ≤ 9 + m by omega) (Nat.succ_le_of_lt power)
    omega
  rcases Nat.lt_or_ge m 7 with more | last
  · -- inside the octave the step is the octave's own power
    have logarithm : Nat.log2 ((9 + m) * 2 ^ q) = q + 3 := by
      apply log2_eq
      · rw [eight]
        exact Nat.mul_le_mul_right _ (by omega)
      · rw [sixteen]
        exact Nat.mul_lt_mul_of_pos_right (by omega) power
    rw [nextRounded, if_neg large, logarithm, Nat.add_sub_cancel,
      show 8 * (q + 1) + m + 1 = 8 * (q + 1) + (m + 1) by omega, rung_octave q (by omega)]
    ring
  · -- the last size of an octave is a power of two, whose step is that of the next octave
    obtain rfl : m = 7 := by omega
    have logarithm : Nat.log2 ((9 + 7) * 2 ^ q) = q + 4 := by
      apply log2_eq
      · exact sixteen.le
      · rw [thirtytwo]
        omega
    rw [nextRounded, if_neg large, logarithm, show q + 4 - 3 = q + 1 by omega, double,
      show 8 * (q + 1) + 7 + 1 = 8 * (q + 1 + 1) + 0 by omega, rung_octave (q + 1) (by omega),
      double]
    ring

theorem nextRounded_iterate (k : Nat) : nextRounded^[k] 1 = rung k := by
  induction k with
  | zero => rfl
  | succ k ih => rw [Function.iterate_succ_apply', ih, nextRounded_rung]

theorem rung_pos (k : Nat) : 0 < rung k := by
  unfold rung
  split
  · omega
  · exact Nat.mul_pos (by omega) (Nat.two_pow_pos _)

theorem rung_strictMono : StrictMono rung := by
  apply strictMono_nat_of_lt_succ
  intro k
  rw [← nextRounded_rung k, nextRounded]
  split
  · omega
  · exact Nat.lt_add_of_pos_right (Nat.two_pow_pos _)

theorem bucketOf_rung (k : Nat) : bucketOf (rung k) = k := by
  rcases Nat.lt_or_ge k 8 with small | large
  · rw [rung_small small, bucketOf, if_pos (by omega)]
    omega
  obtain ⟨q, m, inside, rfl⟩ := exists_octave large
  have power := Nat.two_pow_pos q
  have eight : 2 ^ (q + 3) = 8 * 2 ^ q := by rw [Nat.pow_add]; omega
  have sixteen : 2 ^ (q + 3 + 1) = 16 * 2 ^ q := by rw [Nat.pow_add, eight]; omega
  have least : 9 * 2 ^ q ≤ (9 + m) * 2 ^ q := Nat.mul_le_mul_right _ (by omega)
  have most : (9 + m) * 2 ^ q ≤ 16 * 2 ^ q := Nat.mul_le_mul_right _ (by omega)
  have logarithm : Nat.log2 ((9 + m) * 2 ^ q - 1) = q + 3 := by
    apply log2_eq <;> omega
  have place : (((9 + m) * 2 ^ q : Nat) : Int) / 2 ^ q = 9 + m := by
    push_cast
    exact Int.mul_ediv_cancel _ (pow_ne_zero q (by decide))
  rw [rung_octave q inside, bucketOf, if_neg (by omega)]
  dsimp only
  rw [logarithm, Nat.add_sub_cancel, place]
  push_cast
  omega

end Rungs

section Rounding

theorem roundPages_large {n : Nat} (large : 8 < n) :
    ∃ q, roundPages n = alignUp n (2 ^ q) ∧ 8 * 2 ^ q < n ∧ n ≤ 16 * 2 ^ q := by
  have bound : 8 ≤ n - 1 := by omega
  have three : 3 ≤ Nat.log2 (n - 1) := (Nat.le_log2 (by omega)).mpr bound
  refine ⟨Nat.log2 (n - 1) - 3, by rw [roundPages, if_neg (by omega)], ?_, ?_⟩
  · have below := Nat.log2_self_le (show n - 1 ≠ 0 by omega)
    have power : 2 ^ Nat.log2 (n - 1) = 8 * 2 ^ (Nat.log2 (n - 1) - 3) := by
      rw [show (8 : Nat) = 2 ^ 3 by rfl, ← Nat.pow_add]
      congr 1
      omega
    omega
  · have above := @Nat.lt_log2_self (n - 1)
    have power : 2 ^ (Nat.log2 (n - 1) + 1) = 16 * 2 ^ (Nat.log2 (n - 1) - 3) := by
      rw [show (16 : Nat) = 2 ^ 4 by rfl, ← Nat.pow_add]
      congr 1
      omega
    omega

theorem alignUp_eq_mul (n step : Nat) : ∃ count, alignUp n step = count * step :=
  ⟨(n + step - 1) / step, rfl⟩

theorem alignUp_le_mul {n step count : Nat} (positive : 0 < step) (above : n ≤ count * step) :
    alignUp n step ≤ count * step := by
  unfold alignUp
  apply Nat.mul_le_mul_right
  apply Nat.lt_succ_iff.mp
  apply (Nat.div_lt_iff_lt_mul positive).mpr
  rw [Nat.succ_mul]
  omega

theorem roundPages_mem {n : Nat} (positive : 1 ≤ n) : ∃ k, roundPages n = rung k := by
  rcases Nat.lt_or_ge 8 n with large | small
  · obtain ⟨q, rounds, below, above⟩ := roundPages_large large
    have power := Nat.two_pow_pos q
    obtain ⟨count, multiple⟩ := alignUp_eq_mul n (2 ^ q)
    have least := @le_alignUp n (2 ^ q) power
    have most := alignUp_le_mul power above
    rw [multiple] at least most
    have nine : 9 ≤ count := by
      by_contra few
      have := Nat.mul_le_mul_right (2 ^ q) (show count ≤ 8 by omega)
      omega
    have sixteen : count ≤ 16 := Nat.le_of_mul_le_mul_right most power
    refine ⟨8 * (q + 1) + (count - 9), ?_⟩
    rw [rounds, multiple, rung_octave q (by omega), Nat.add_sub_cancel' nine]
  · exact ⟨n - 1, by rw [roundPages, if_pos small, rung_small (by omega)]; omega⟩

theorem roundPages_le_rung {n k : Nat} (above : n ≤ rung k) : roundPages n ≤ rung k := by
  rcases Nat.lt_or_ge 8 n with large | small
  · obtain ⟨q, rounds, below, -⟩ := roundPages_large large
    rw [rounds]
    have power := Nat.two_pow_pos q
    rcases Nat.lt_or_ge k 8 with first | later
    · rw [rung_small first] at above
      omega
    obtain ⟨p, m, inside, rfl⟩ := exists_octave later
    rw [rung_octave p inside] at above ⊢
    -- in an earlier octave every size is too small, in a later one every size is a multiple
    rcases Nat.lt_or_ge p q with earlier | same
    · have double : 2 * 2 ^ p ≤ 2 ^ q := by
        rw [Nat.mul_comm, ← Nat.pow_succ]
        exact Nat.pow_le_pow_right (by decide) earlier
      have most : (9 + m) * 2 ^ p ≤ 16 * 2 ^ p := Nat.mul_le_mul_right _ (by omega)
      omega
    · have split : (9 + m) * 2 ^ p = (9 + m) * 2 ^ (p - q) * 2 ^ q := by
        rw [Nat.mul_assoc, ← Nat.pow_add, Nat.sub_add_cancel same]
      rw [split] at above ⊢
      exact alignUp_le_mul power above
  · rw [roundPages, if_pos small]
    exact above

theorem roundPages_rung (k : Nat) : roundPages (rung k) = rung k :=
  le_antisymm (roundPages_le_rung le_rfl) (le_roundPages _)

theorem roundPages_idempotent {n : Nat} (positive : 1 ≤ n) :
    roundPages (roundPages n) = roundPages n := by
  obtain ⟨k, rounds⟩ := roundPages_mem positive
  rw [rounds, roundPages_rung]

theorem roundPages_mono {m n : Nat} (positive : 1 ≤ m) (ordered : m ≤ n) :
    roundPages m ≤ roundPages n := by
  obtain ⟨k, rounds⟩ := roundPages_mem (positive.trans ordered)
  rw [rounds]
  apply roundPages_le_rung
  rw [← rounds]
  exact ordered.trans (le_roundPages n)

theorem roundPages_le_eighth {n : Nat} : roundPages n ≤ n + n / 8 := by
  rcases Nat.lt_or_ge 8 n with large | small
  · obtain ⟨q, rounds, below, -⟩ := roundPages_large large
    have near := @alignUp_lt_add n (2 ^ q) (Nat.two_pow_pos q)
    rw [rounds]
    omega
  · rw [roundPages, if_pos small]
    exact Nat.le_add_right _ _

end Rounding

section Buckets

def purgeSizes : (fuel rounded : Nat) → List Nat
  | 0, _ => []
  | fuel + 1, rounded =>
    if rounded ≤ kMaxPages then rounded :: purgeSizes fuel (nextRounded rounded) else []

/-- The loop that counts the buckets at compile time; it steps by a formula of its own. -/
def countBuckets : (fuel rounded : Nat) → Nat
  | 0, _ => 0
  | fuel + 1, rounded =>
    if rounded ≤ kMaxPages then
      countBuckets fuel
        (if rounded ≤ 8 then rounded + 1 else rounded + 2 ^ (Nat.log2 rounded - 3)) + 1
    else 0

def kUsedBuckets : Nat := countBuckets kMaxPages 1

theorem countBuckets_eq_length (fuel rounded : Nat) :
    countBuckets fuel rounded = (purgeSizes fuel rounded).length := by
  induction fuel generalizing rounded with
  | zero => rfl
  | succ fuel ih =>
    -- the two formulas differ at eight only, where both give nine
    have same : (if rounded ≤ 8 then rounded + 1 else rounded + 2 ^ (Nat.log2 rounded - 3)) =
        nextRounded rounded := by
      unfold nextRounded
      rcases Nat.lt_trichotomy rounded 8 with below | rfl | above
      · rw [if_pos below.le, if_pos below]
      · rfl
      · rw [if_neg (Nat.not_le.mpr above), if_neg (Nat.not_lt.mpr above.le)]
    unfold countBuckets purgeSizes
    split
    · rw [same, ih, length_cons]
    · rfl

theorem rung_le_kMaxPages (k : Nat) : rung k ≤ kMaxPages ↔ k < 72 := by
  have top : rung 71 = kMaxPages := by decide
  rw [← top, rung_strictMono.le_iff_le]
  omega

theorem purgeSizes_rung {fuel k : Nat} (enough : 72 ≤ k + fuel) :
    purgeSizes fuel (rung k) = (List.range' k (72 - k)).map rung := by
  induction fuel generalizing k with
  | zero =>
    rw [show 72 - k = 0 by omega]
    rfl
  | succ fuel ih =>
    unfold purgeSizes
    by_cases inside : k < 72
    · rw [if_pos ((rung_le_kMaxPages k).mpr inside), nextRounded_rung, ih (by omega),
        show 72 - k = 72 - (k + 1) + 1 by omega, List.range'_succ, map_cons]
    · rw [if_neg (by rwa [rung_le_kMaxPages]), show 72 - k = 0 by omega]
      rfl

theorem purgeSizes_eq : purgeSizes kMaxPages 1 = (List.range 72).map rung := by
  rw [range_eq_range']
  exact @purgeSizes_rung kMaxPages 0 (by decide)

theorem kUsedBuckets_eq : kUsedBuckets = 72 := by
  rw [kUsedBuckets, countBuckets_eq_length, purgeSizes_eq, length_map, length_range]

theorem purge_buckets :
    (purgeSizes kMaxPages 1).map bucketOf = (List.range kUsedBuckets).map Nat.cast := by
  rw [purgeSizes_eq, kUsedBuckets_eq, map_map]
  exact map_congr_left fun k _ => bucketOf_rung k

/-- Rounding, stepping and numbering describe one grid: the rounded sizes are what stepping from
one page reaches, numbered in that order, and the idle purge goes through the bucket of every
cacheable size once. -/
theorem rounding_grid : (∀ n, 1 ≤ n → n ≤ 2 ^ 60 → n ≤ roundPages n ∧ roundPages n ≤ n + n / 8 ∧
      roundPages (roundPages n) = roundPages n) ∧
    (∀ m n, 1 ≤ m → m ≤ n → n ≤ 2 ^ 60 → roundPages m ≤ roundPages n) ∧
    (∀ r, (∃ n, 1 ≤ n ∧ n ≤ 2 ^ 60 ∧ roundPages n = r) ↔ ∃ k, nextRounded^[k] 1 = r ∧ r ≤ 2 ^ 60) ∧
    (∀ k, nextRounded^[k] 1 < nextRounded^[k + 1] 1 ∧ bucketOf (nextRounded^[k] 1) = k) ∧
    (∀ m n, 1 ≤ m → m ≤ 2 ^ 60 → 1 ≤ n → n ≤ 2 ^ 60 →
      bucketOf (roundPages m) = bucketOf (roundPages n) → roundPages m = roundPages n) ∧
    (purgeSizes kMaxPages 1).map bucketOf = (List.range kUsedBuckets).map Nat.cast ∧
    (∀ n, 1 ≤ n → n ≤ kMaxPages →
      ((purgeSizes kMaxPages 1).map bucketOf).count (bucketOf (roundPages n)) = 1) := by
  refine ⟨?_, ?_, ?_, ?_, ?_, purge_buckets, ?_⟩
  · intro n positive _
    exact ⟨le_roundPages n, roundPages_le_eighth, roundPages_idempotent positive⟩
  · intro m n positive ordered _
    exact roundPages_mono positive ordered
  · intro r
    have top : rung 463 = 2 ^ 60 := by decide
    constructor
    · rintro ⟨n, positive, small, rfl⟩
      obtain ⟨k, rounds⟩ := roundPages_mem positive
      refine ⟨k, (nextRounded_iterate k).trans rounds.symm, ?_⟩
      rw [← top]
      exact roundPages_le_rung (small.trans top.ge)
    · rintro ⟨k, rfl, small⟩
      rw [nextRounded_iterate] at small ⊢
      exact ⟨rung k, rung_pos k, small, roundPages_rung k⟩
  · intro k
    rw [nextRounded_iterate, nextRounded_iterate]
    exact ⟨rung_strictMono (Nat.lt_succ_self k), bucketOf_rung k⟩
  · intro m n first _ second _ same
    obtain ⟨j, left⟩ := roundPages_mem first
    obtain ⟨k, right⟩ := roundPages_mem second
    rw [left, right, bucketOf_rung, bucketOf_rung] at same
    rw [left, right, Int.ofNat.inj same]
  · intro n positive small
    obtain ⟨k, rounds⟩ := roundPages_mem positive
    have top : rung 71 = kMaxPages := by decide
    have inside : k < 72 := by
      rw [← rung_le_kMaxPages, ← rounds, ← top]
      exact roundPages_le_rung (small.trans top.ge)
    rw [purge_buckets, kUsedBuckets_eq, rounds, bucketOf_rung]
    exact count_eq_one_of_mem (List.Nodup.map Nat.cast_injective nodup_range)
      (mem_map.mpr ⟨k, mem_range.mpr inside, rfl⟩)

end Buckets

end Smash.LargeAlloc
