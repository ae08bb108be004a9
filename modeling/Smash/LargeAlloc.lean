import Smash.MachineWord
import Smash.PageMachine

/-! Large allocations: the page-count grid of the block cache and the ways `allocate` finds
a block. Sizes and addresses are `size_t` values kept as natural numbers below `wordSize`,
the page count is a `uint32_t`. What the kernel and `VmRegion::allocatePages` answer is given
by `Platform`; the cache is a stack of blocks for each bucket, and a bucket number outside
the array stands for whatever memory lies beside it. -/
namespace Smash.LargeAlloc

open MachineWord PageMachine

def roundUp (v alignment : Nat) : Nat :=
  (v + alignment - 1) % wordSize / alignment * alignment

def narrow32 (v : Nat) : Nat := v % 2 ^ 32

def kLargeAllocVmThreshold : Nat := 1024 * 1024

section BlockCache

def kMaxPages : Nat := 8 * 2 ^ 20 / kPageSize

/-- Eight sizes for each power of two. -/
def roundPages (n : Nat) : Nat :=
  if n ≤ 8 then n else alignUp n (2 ^ (Nat.log2 (n - 1) - 3))

def nextRounded (rounded : Nat) : Nat :=
  if rounded < 8 then rounded + 1 else rounded + 2 ^ (Nat.log2 rounded - 3)

def bucketOf (rounded : Nat) : Int :=
  if rounded ≤ 8 then rounded - 1
  else
    let b := Nat.log2 (rounded - 1)
    8 + (b - 3) * 8 + (rounded / 2 ^ (b - 3) - 9)

structure LargeBlockCache where
  blocks : Int → List Nat
  bytes : Nat

def LargeBlockCache.pop (cache : LargeBlockCache) (rounded : Nat) :
    Option (Nat × LargeBlockCache) :=
  match cache.blocks (bucketOf rounded) with
  | [] => none
  | base :: rest =>
    some (base, {
      blocks := Function.update cache.blocks (bucketOf rounded) rest
      bytes := fetchSub cache.bytes (rounded * kPageSize) })

/-- A block of the rounded size, or of one of the next `tries` sizes. -/
def LargeBlockCache.popNear (cache : LargeBlockCache) (rounded : Nat) :
    (tries : Nat) → Option (Nat × Nat × LargeBlockCache)
  | 0 => (cache.pop rounded).map fun (base, left) => (base, rounded, left)
  | tries + 1 =>
    match cache.pop rounded with
    | some (base, left) => some (base, rounded, left)
    | none =>
      if kMaxPages < nextRounded rounded then none
      else cache.popNear (nextRounded rounded) tries

end BlockCache

section Allocate

/-- A block with the fields of its span; `zeroed` is the out-parameter of `allocate`. -/
structure Block where
  base : Nat
  pageCount : Nat
  largeSize : Nat
  zeroed : Bool
  deriving DecidableEq, Repr

/-- `allocatePages` by page count, if a region is attached, and the mappings the kernel
gives; the second mapping of a call may be answered differently. -/
structure Platform where
  vmRegion : Bool
  allocatePages : Nat → Option Nat
  mapPages : (retry : Bool) → (bytes : Nat) → Option Nat

/-- The address inside an over-allocated mapping; what is around the block is unmapped. -/
def alignedMapping (platform : Platform) (retry : Bool) (allocSize alignment : Nat) : Option Nat :=
  (platform.mapPages retry (fetchAdd allocSize alignment)).map fun addr => roundUp addr alignment

/-- The last resort: a direct mapping of the unrounded size. -/
def mapDirect (platform : Platform) (retry : Bool) (size allocSize numPages alignment : Nat) :
    Option Block :=
  if alignment ≤ kPageSize then
    (platform.mapPages retry allocSize).map fun base => ⟨base, numPages, size, true⟩
  else
    (alignedMapping platform retry allocSize alignment).map fun base => ⟨base, numPages, size, false⟩

def mapBlock (platform : Platform) (cacheable : Bool) (size allocSize numPages alignment : Nat) :
    Option Block :=
  if cacheable then
    match platform.mapPages false (roundPages numPages * kPageSize) with
    | some base => some ⟨base, narrow32 (roundPages numPages), size, true⟩
    | none => mapDirect platform true size allocSize numPages alignment
  else mapDirect platform false size allocSize numPages alignment

/-- Large enough blocks come from the region, so that they can be compressed. -/
def placeBlock (platform : Platform) (cacheable : Bool) (size allocSize numPages alignment : Nat) :
    Option Block :=
  let np := if cacheable then narrow32 (roundPages numPages) else numPages
  let inRegion :=
    if platform.vmRegion ∧ alignment ≤ kPageSize ∧ kLargeAllocVmThreshold ≤ allocSize then
      platform.allocatePages np
    else none
  match inRegion with
  | some base => some ⟨base, np, size, false⟩
  | none => mapBlock platform cacheable size allocSize numPages alignment

def allocate (platform : Platform) (cache : LargeBlockCache) (size requested : Nat) :
    Option Block × LargeBlockCache :=
  let alignment := if requested < kPageSize then kPageSize else requested
  let allocSize := roundUp size kPageSize
  let numPages := narrow32 (allocSize / kPageSize)
  let cacheable := decide (alignment ≤ kPageSize ∧ numPages ≤ kMaxPages)
  match if cacheable then cache.popNear (roundPages numPages) 2 else none with
  | some (base, rounded, left) => (some ⟨base, narrow32 rounded, size, false⟩, left)
  | none => (placeBlock platform cacheable size allocSize numPages alignment, cache)

end Allocate

section Usable

variable {block : Block} {cache left : LargeBlockCache} {platform : Platform}
variable {size allocSize numPages alignment : Nat}

theorem le_roundPages (n : Nat) : n ≤ roundPages n := by
  unfold roundPages
  split
  · exact le_rfl
  · exact le_alignUp (Nat.two_pow_pos _)

theorem roundPages_le (n : Nat) : roundPages n ≤ 2 * n := by
  unfold roundPages
  split
  · omega
  · have step : 2 ^ (Nat.log2 (n - 1) - 3) ≤ n - 1 :=
      (Nat.pow_le_pow_right (by omega) (Nat.sub_le _ _)).trans (Nat.log2_self_le (by omega))
    have below : alignUp n (2 ^ (Nat.log2 (n - 1) - 3)) < n + 2 ^ (Nat.log2 (n - 1) - 3) :=
      alignUp_lt_add (Nat.two_pow_pos _)
    omega

theorem le_nextRounded (rounded : Nat) : rounded ≤ nextRounded rounded := by
  unfold nextRounded
  split
  · omega
  · exact Nat.le_add_right _ _

theorem le_narrow32_roundPages {n : Nat} (small : n ≤ kMaxPages) : n ≤ narrow32 (roundPages n) := by
  have above := le_roundPages n
  have bound := roundPages_le n
  have most : kMaxPages = 2048 := by decide
  rw [narrow32, Nat.mod_eq_of_lt (by omega)]
  exact above

theorem popNear_spec {rounded found base tries : Nat} (small : rounded ≤ 2 * kMaxPages)
    (popped : cache.popNear rounded tries = some (base, found, left)) :
    rounded ≤ found ∧ found ≤ 2 * kMaxPages := by
  induction tries generalizing rounded with
  | zero =>
    simp only [LargeBlockCache.popNear, Option.map_eq_some_iff] at popped
    obtain ⟨pair, -, same⟩ := popped
    cases same
    exact ⟨le_rfl, small⟩
  | succ tries ih =>
    simp only [LargeBlockCache.popNear] at popped
    split at popped
    · cases popped
      exact ⟨le_rfl, small⟩
    · split at popped
      · cases popped
      · rename_i within
        obtain ⟨more, bound⟩ := ih (by omega) popped
        exact ⟨(le_nextRounded rounded).trans more, bound⟩

theorem mapDirect_fields {retry : Bool}
    (mapped : mapDirect platform retry size allocSize numPages alignment = some block) :
    block.pageCount = numPages ∧ block.largeSize = size := by
  unfold mapDirect at mapped
  split at mapped
  all_goals
    obtain ⟨base, -, same⟩ := Option.map_eq_some_iff.mp mapped
    cases same
    exact ⟨rfl, rfl⟩

theorem placeBlock_fields {cacheable : Bool}
    (placed : placeBlock platform cacheable size allocSize numPages alignment = some block) :
    (block.pageCount = numPages ∨
      cacheable = true ∧ block.pageCount = narrow32 (roundPages numPages)) ∧
      block.largeSize = size := by
  unfold placeBlock mapBlock at placed
  dsimp only at placed
  split at placed
  · cases placed
    cases cacheable
    · exact ⟨.inl rfl, rfl⟩
    · exact ⟨.inr ⟨rfl, rfl⟩, rfl⟩
  · cases cacheable with
    | false => exact (mapDirect_fields placed).imp_left .inl
    | true =>
      simp only [if_true] at placed
      split at placed
      · cases placed
        exact ⟨.inr ⟨rfl, rfl⟩, rfl⟩
      · exact (mapDirect_fields placed).imp_left .inl

theorem size_le_numPages {size : Nat} (small : size ≤ (2 ^ 32 - 1) * kPageSize) :
    size ≤ narrow32 (roundUp size kPageSize / kPageSize) * kPageSize := by
  have page : kPageSize = 4096 := rfl
  have word : wordSize = 2 ^ 64 := rfl
  rw [narrow32, roundUp, page, Nat.mod_eq_of_lt (by omega : size + 4096 - 1 < wordSize),
    Nat.mul_div_cancel _ (by omega)]
  omega

theorem numPages_usable_lt {numPages : Nat} (count : numPages < 2 ^ 32) {size : Nat}
    (large : (2 ^ 32 - 1) * kPageSize < size) : numPages * kPageSize < size :=
  (Nat.mul_le_mul_right kPageSize (Nat.le_pred_of_lt count)).trans_lt large

def emptyCache : LargeBlockCache := ⟨fun _ => [], 0⟩

def generous : Platform := ⟨false, fun _ => none, fun _ _ => some 0⟩

theorem emptyCache_popNear (rounded tries : Nat) : emptyCache.popNear rounded tries = none := by
  induction tries generalizing rounded with
  | zero => rfl
  | succ tries ih =>
    simp only [LargeBlockCache.popNear, LargeBlockCache.pop, emptyCache] at ih ⊢
    split
    · rfl
    · exact ih _

theorem generous_places (cacheable : Bool) (size allocSize numPages alignment : Nat) :
    ∃ block, placeBlock generous cacheable size allocSize numPages alignment = some block := by
  cases cacheable <;> by_cases small : alignment ≤ kPageSize <;>
    simp [placeBlock, mapBlock, mapDirect, alignedMapping, generous, small]

theorem allocate_numPages_le {size requested : Nat}
    (allocated : allocate platform cache size requested = (some block, left)) :
    narrow32 (roundUp size kPageSize / kPageSize) ≤ block.pageCount := by
  unfold allocate at allocated
  dsimp only at allocated
  generalize narrow32 (roundUp size kPageSize / kPageSize) = numPages at allocated ⊢
  generalize (if requested < kPageSize then kPageSize else requested) = alignment at allocated
  split at allocated
  next base rounded rest popped =>
    cases allocated
    split at popped
    next cacheable =>
      have small : numPages ≤ kMaxPages := (of_decide_eq_true cacheable).2
      have above := le_roundPages numPages
      have bound := roundPages_le numPages
      obtain ⟨more, most⟩ := popNear_spec (by omega) popped
      have limit : kMaxPages = 2048 := by decide
      show numPages ≤ narrow32 rounded
      rw [narrow32, Nat.mod_eq_of_lt (by omega)]
      omega
    next => cases popped
  next =>
    rcases (placeBlock_fields (Prod.mk.inj allocated).1).1 with exact | ⟨cacheable, rounded⟩
    · exact exact.ge
    · rw [rounded]
      exact le_narrow32_roundPages (of_decide_eq_true cacheable).2

/-- With nothing cached and every mapping granted a block is returned, and its count is a
32-bit number. -/
theorem allocate_generous (size requested : Nat) :
    ∃ block, allocate generous emptyCache size requested = (some block, emptyCache) ∧
      block.pageCount < 2 ^ 32 := by
  unfold allocate
  dsimp only
  rw [emptyCache_popNear, ite_self]
  obtain ⟨block, placed⟩ := generous_places
    (decide ((if requested < kPageSize then kPageSize else requested) ≤ kPageSize ∧
      narrow32 (roundUp size kPageSize / kPageSize) ≤ kMaxPages))
    size (roundUp size kPageSize) (narrow32 (roundUp size kPageSize / kPageSize))
    (if requested < kPageSize then kPageSize else requested)
  refine ⟨block, by rw [placed], ?_⟩
  rcases (placeBlock_fields placed).1 with count | ⟨-, count⟩
  all_goals
    rw [count]
    exact Nat.mod_lt _ (by decide)

/-- `allocate` keeps its promise for exactly the sizes whose page count is below 2^32,
whatever the alignment: from there on the count is cut off. -/
theorem allocate_usable_iff (size : UInt64) (exponent : Fin 64) : (∀ platform cache block left,
        allocate platform cache size.toNat (2 ^ exponent.val) = (some block, left) →
          size.toNat ≤ block.pageCount * kPageSize) ↔ size.toNat ≤ (2 ^ 32 - 1) * kPageSize := by
  constructor
  · intro promise
    obtain ⟨block, returned, count⟩ := allocate_generous size.toNat (2 ^ exponent.val)
    have enough := promise generous emptyCache block emptyCache returned
    by_contra large
    exact absurd enough (Nat.not_le.mpr (numPages_usable_lt count (Nat.not_le.mp large)))
  · intro small platform cache block left allocated
    calc size.toNat
        ≤ narrow32 (roundUp size.toNat kPageSize / kPageSize) * kPageSize := size_le_numPages small
      _ ≤ block.pageCount * kPageSize :=
          Nat.mul_le_mul_right _ (allocate_numPages_le allocated)

def onePageCached : LargeBlockCache := ⟨fun bucket => if bucket = 0 then [4096] else [], 4096⟩

/-- A request for 16 TiB and one byte counts as one page and takes the cached page. -/
theorem allocate_returns_one_page :
    (allocate ⟨true, fun _ => none, fun _ _ => none⟩ onePageCached (2 ^ 44 + 1) 16).1 =
      some ⟨4096, 1, 2 ^ 44 + 1, false⟩ := by
  decide +kernel

end Usable

end Smash.LargeAlloc
