import Smash.CompressStoreSafety
import Smash.PageMachine
import Smash.SpillStore

/-! Moving a very cold page's blob from the anonymous store into the spill file: the guard of the
second phase and the call it makes, which looks at the page again under its lock, copies the
blob as it is, repoints the page's record and releases the old slot. -/
namespace Smash.SpillMove

open CompressStore Extents ByteMemory MachineWord SpillStore Transition Function
open PageMachine (CompressAlgo PageState Tier)

/-- `CompressedPageInfo`: where a page's blob lies, its size and algorithm in one word, and the
size of its slot. -/
structure PageInfo where
  data : Nat
  compSize : BitVec 32
  allocSize : BitVec 32
  deriving DecidableEq

def algoCode : CompressAlgo → BitVec 32
  | .none => 0
  | .lz4 => 1
  | .zstd => 2
  | .zstdDict => 3

def algoOf (code : BitVec 32) : CompressAlgo :=
  if code = 0 then .none else if code = 1 then .lz4 else if code = 2 then .zstd else .zstdDict

def PageInfo.set (data size allocSize : Nat) (algo : CompressAlgo) : PageInfo where
  data
  compSize := (BitVec.ofNat 32 size &&& 0x3FFFFFFF#32) ||| (algoCode algo <<< 30)
  allocSize := BitVec.ofNat 32 allocSize

def PageInfo.compressedSize (info : PageInfo) : Nat := (info.compSize &&& 0x3FFFFFFF#32).toNat

def PageInfo.algorithm (info : PageInfo) : CompressAlgo := algoOf (info.compSize >>> 30)

theorem PageInfo.compressedSize_set {size : Nat} (data allocSize : Nat) (algo : CompressAlgo)
    (small : size < 2 ^ 30) : (PageInfo.set data size allocSize algo).compressedSize = size := by
  have field : (BitVec.ofNat 32 size &&& 0x3FFFFFFF#32).toNat = size := by
    rw [BitVec.toNat_and, BitVec.toNat_ofNat, BitVec.toNat_ofNat,
      show 0x3FFFFFFF % 2 ^ 32 = 2 ^ 30 - 1 from rfl, Nat.and_two_pow_sub_one_eq_mod]
    omega
  have high : algoCode algo <<< 30 &&& 0x3FFFFFFF#32 = 0#32 := by cases algo <;> decide
  unfold compressedSize set
  dsimp only
  rw [BitVec.and_or_distrib_right, high, BitVec.or_zero, BitVec.and_assoc, BitVec.and_self, field]

theorem PageInfo.algorithm_set (data size allocSize : Nat) (algo : CompressAlgo) :
    (PageInfo.set data size allocSize algo).algorithm = algo := by
  have low : (BitVec.ofNat 32 size &&& 0x3FFFFFFF#32) >>> 30 = 0#32 := by
    rw [BitVec.ushiftRight_and_distrib, show 0x3FFFFFFF#32 >>> 30 = 0#32 by decide, BitVec.and_zero]
  unfold algorithm set
  rw [BitVec.ushiftRight_or_distrib, low, BitVec.zero_or]
  cases algo <;> decide

structure Page where
  state : PageState
  tier : Tier
  coldCount : Nat
  locked : Bool
  info : PageInfo

/-- What the two stores and the pages' records hold. -/
structure Heap where
  page : Nat → Page
  anonymous : Store
  spill : Spill
  /-- What `ensureSpillReady` returns. -/
  spillReady : Bool
  spilledCount : Nat
  /-- The calls of the anonymous store's `release` so far: pointer, slot size and page. -/
  released : List (Nat × Nat × Nat)

/-- The settings the guard reads, and whether the build has the deep tier. -/
structure Settings where
  spill : Bool
  veryColdTicks : Nat
  deepTier : Bool

def spillGuard (settings : Settings) (page : Page) : Bool :=
  settings.spill && decide (page.state = .compressed) &&
    decide (settings.veryColdTicks ≤ page.coldCount) &&
    (decide (page.tier = .deep) || decide (page.tier = .fastTried) ||
      (!settings.deepTier && decide (page.tier = .fast)))

def releaseOld (heap : Heap) (i data allocSize pageSize : Nat) (refill : Memory) : Heap :=
  { heap with
    anonymous :=
      { CompressStore.release heap.anonymous data allocSize pageSize refill with
        live := heap.anonymous.live.eraseP fun blob => blob.ptr == data }
    released := heap.released ++ [(data, allocSize, i)] }

/-- The call has the page's lock from its check to the new record; without a change it gives the
lock back at once. The anonymous store may drop a region's pages on release and find `refill`
in them. -/
def maybeSpillPage (heap : Heap) (i pageSize : Nat) (refill : Memory) : Option Heap :=
  let page := heap.page i
  if !heap.spillReady then some heap
  else if page.locked then some heap
  else if page.state ≠ .compressed ∨ (page.tier ≠ .deep ∧ page.tier ≠ .fastTried) then some heap
  else
    let oldData := page.info.data
    let oldAlloc := page.info.allocSize.toNat
    let size := page.info.compressedSize
    let algo := page.info.algorithm
    if oldData = 0 ∨ contains heap.spill oldData then some heap
    else
      match storeNow heap.spill (readBytes heap.anonymous.memory oldData size) i with
      | none => none
      | some (spill, none) => some { heap with spill }
      | some (spill, some new) =>
        let record := PageInfo.set (spill.mapBase + new.ptr) size new.allocSize algo
        some (releaseOld
          { heap with
            page := update heap.page i { page with tier := .spilled, info := record }
            spill
            spilledCount := fetchAdd heap.spilledCount 1 }
          i oldData oldAlloc pageSize refill)

structure Holds (heap : Heap) (idx : Nat) (blob : Blob) : Prop where
  held : blob ∈ heap.anonymous.live
  mine : blob.pageIdx = idx
  data : (heap.page idx).info.data = blob.ptr
  size : (heap.page idx).info.compressedSize = blob.data.length
  alloc : (heap.page idx).info.allocSize.toNat = blob.allocSize

/-- Both stores are as their runs leave them, the spill store is ready and has room for the blob,
and nobody has the page's lock or the shard's. -/
structure Ready (heap : Heap) (idx : Nat) (blob : Blob) : Prop where
  anonymous : ∃ free, WellFormed heap.anonymous free
  spill : ∃ first, Valid first heap.spill
  apart : contains heap.spill blob.ptr = false
  ready : heap.spillReady = true
  room : Room heap.spill blob.data.length idx
  shardFree : heap.spill.pending (shardOf idx) = none
  lockFree : (heap.page idx).locked = false

/-- The blob lies in the spill store as `new`, the page's record names it there with the size and
the algorithm it had, and the old slot was released once. -/
structure Moved (heap after : Heap) (idx : Nat) (blob new : Blob) : Prop where
  stored : new ∈ after.spill.store.live
  bytes : readBytes after.spill.store.memory new.ptr blob.data.length = blob.data
  inside : contains after.spill (after.page idx).info.data = true
  data : (after.page idx).info.data = after.spill.mapBase + new.ptr
  size : (after.page idx).info.compressedSize = blob.data.length
  algo : (after.page idx).info.algorithm = (heap.page idx).info.algorithm
  alloc : (after.page idx).info.allocSize.toNat = new.allocSize
  state : (after.page idx).state = .compressed
  tier : (after.page idx).tier = .spilled
  unlocked : (after.page idx).locked = false
  others : ∀ other ≠ idx, after.page other = heap.page other
  counted : after.spilledCount = fetchAdd heap.spilledCount 1
  once : after.released = heap.released ++ [(blob.ptr, blob.allocSize, idx)]
  live : after.anonymous.live = heap.anonymous.live.erase blob
  anonymous : ∃ free, WellFormed after.anonymous free
  spill : ∃ first, Valid first after.spill

section Move

variable {heap s' : Heap} {i pageSize : Nat} {refill : Memory} {blob : Blob}
  {settings : Settings}
variable {dataStart : Nat} {free : Nat → List Extent} {store : Store}

theorem live_ptr_unique
    (ok : Sound dataStart store free) {first second : Blob} (one : first ∈ store.live)
    (j : second ∈ store.live) (same : first.ptr = second.ptr) : first = second := by
  by_contra different
  have packed : Packed (liveSlots store) := ok.packed.sublist (List.sublist_append_left _ _)
  obtain ⟨front, back, split⟩ := List.append_of_mem one
  have listed : second ∈ front ++ back := by
    rw [split] at j
    simpa [Ne.symm different] using j
  rw [liveSlots, split, List.map_append, List.map_cons] at packed
  have apart := packed.apart (List.map_append .. ▸ List.mem_map_of_mem listed : slotOf second ∈ _)
  have firstRoom := (ok.room first one).1
  have secondRoom := (ok.room second (by assumption)).1
  rw [apart_iff] at apart
  simp only [slotOf, nodeSize] at apart firstRoom secondRoom
  omega

theorem eraseP_ptr (ok : Sound dataStart store free) (held : blob ∈ store.live) :
    store.live.eraseP (fun j => j.ptr == blob.ptr) = store.live.erase blob := by
  have same : ∀ j ∈ store.live, (j.ptr == blob.ptr) = (j == blob) := by
    intro j mem
    rw [Bool.eq_iff_iff, beq_iff_eq, beq_iff_eq]
    exact ⟨fun ptr => live_ptr_unique ok mem held ptr, fun equal => equal ▸ rfl⟩
  clear held
  generalize store.live = live at same ⊢
  induction live with
  | nil => rfl
  | cons first rest ih =>
    have later := ih fun j mem => same j (List.mem_cons_of_mem first mem)
    rw [List.eraseP_cons, List.erase_cons, same first List.mem_cons_self, later, cond_eq_ite]

theorem blob_small (ok : Sound dataStart store free) (early : SpillStore.kDataStart ≤ dataStart)
    (held : blob ∈ store.live) :
    blob.ptr ≠ 0 ∧ blob.data.length ≤ kRegionSize - SpillStore.kDataStart := by
  have inside := ok.liveUsed blob held
  have within := ok.used_within (ok.home_base held)
  have fits := (ok.room blob held).2
  simp only [Within, usedFrom, slotOf, SpillStore.kDataStart, kRegionSize] at *
  omega

/-- Under the lock the call wants a terminal tier, and a single-tier build's is not among them. -/
theorem maybeSpillPage_fast (fast : (heap.page i).tier = .fast) :
    maybeSpillPage heap i pageSize refill = some heap := by
  unfold maybeSpillPage
  simp [fast]

theorem guard_state (selected : spillGuard settings (heap.page i) = true) :
    (heap.page i).state = .compressed ∧ ((heap.page i).tier = .deep ∨
      (heap.page i).tier = .fastTried ∨ (heap.page i).tier = .fast) := by
  simp only [spillGuard, Bool.and_eq_true, Bool.or_eq_true, decide_eq_true_eq] at selected
  obtain ⟨⟨⟨_, s⟩, _⟩, tier⟩ := selected
  refine ⟨s, ?_⟩
  rcases tier with (deep | tried) | ⟨_, fast⟩
  · exact .inl deep
  · exact .inr (.inl tried)
  · exact .inr (.inr fast)

theorem maybeSpillPage_moves (ready : Ready heap i blob) (holds : Holds heap i blob)
    (s : (heap.page i).state = .compressed)
    (terminal : (heap.page i).tier = .deep ∨ (heap.page i).tier = .fastTried) :
    ∃ s' new, maybeSpillPage heap i pageSize refill = some s' ∧
      Moved heap s' i blob new := by
  obtain ⟨free, formed⟩ := ready.anonymous
  obtain ⟨first, ok⟩ := ready.spill
  have sound := wellFormed_iff_sound.mp formed
  obtain ⟨nonnull, small⟩ := blob_small sound (by decide) holds.held
  obtain ⟨next, new, called, kept, listed, same⟩ := ok.storeNow ready.shardFree small ready.room
  have check : ¬ ((heap.page i).state ≠ .compressed ∨
      ((heap.page i).tier ≠ .deep ∧ (heap.page i).tier ≠ .fastTried)) := by
    rcases terminal with deep | tried
    · simp [s, deep]
    · simp [s, tried]
  have elsewhere : ¬ (blob.ptr = 0 ∨ contains heap.spill blob.ptr = true) := by
    simp [nonnull, ready.apart]
  have ran : maybeSpillPage heap i pageSize refill = some (releaseOld { heap with
        page := update heap.page i
          { heap.page i with
            tier := .spilled
            info := .set (next.mapBase + new.ptr) blob.data.length new.allocSize
              (heap.page i).info.algorithm }
        spill := next
        spilledCount := fetchAdd heap.spilledCount 1 }
      i blob.ptr blob.allocSize pageSize refill) := by
    unfold maybeSpillPage
    dsimp only
    rw [ready.ready, ready.lockFree, if_neg (by decide), if_neg (by decide), if_neg check,
      holds.data, if_neg elsewhere, holds.size, sound.kept blob holds.held, called, holds.alloc]
  refine ⟨_, new, ran, ?_⟩
  obtain ⟨spillFree, stored⟩ := kept.sound
  have fits := kept.blob_inside listed
  have room := (stored.room new listed).1
  have narrow : new.allocSize < 2 ^ 32 := by
    have inside := stored.live_within listed
    simp only [Within, slotOf, kRegionSize] at inside
    omega
  obtain ⟨left, released⟩ := @Sound.release _ free sound blob pageSize refill holds.held
  constructor
  case stored => exact listed
  case bytes =>
    rw [← same]
    exact stored.kept new listed
  case inside =>
    simp only [releaseOld, update_self, PageInfo.set, contains, Bool.and_eq_true, decide_eq_true_eq]
    simp only [nodeSize] at room
    omega
  case data => simp only [releaseOld, update_self, PageInfo.set]
  case size =>
    simp only [releaseOld, update_self]
    refine PageInfo.compressedSize_set _ _ _ ?_
    simp only [kRegionSize, SpillStore.kDataStart] at small
    omega
  case algo =>
    simp only [releaseOld, update_self]
    exact PageInfo.algorithm_set _ _ _ _
  case alloc =>
    simp only [releaseOld, update_self, PageInfo.set, BitVec.toNat_ofNat]
    exact Nat.mod_eq_of_lt narrow
  case state => simpa only [releaseOld, update_self] using s
  case tier => simp only [releaseOld, update_self]
  case unlocked => simpa only [releaseOld, update_self] using ready.lockFree
  case others =>
    intro j apart
    exact update_of_ne apart _ _
  case counted => rfl
  case once => rfl
  case live => exact eraseP_ptr sound holds.held
  case anonymous =>
    refine ⟨left, wellFormed_iff_sound.mpr ?_⟩
    simpa only [releaseOld, eraseP_ptr sound holds.held] using released
  case spill => exact ⟨first, kept⟩

/-- For a page the guard selects, the blob is moved exactly when the page has left the fast
tier: the check under the lock has no exception for builds without the deep tier. -/
theorem selected_moved_iff (selected : spillGuard settings (heap.page i) = true)
    (ready : Ready heap i blob) (holds : Holds heap i blob) :
    (∃ s' new, maybeSpillPage heap i pageSize refill = some s' ∧
      Moved heap s' i blob new) ↔ (heap.page i).tier ≠ .fast := by
  obtain ⟨s, tier⟩ := guard_state selected
  constructor
  · rintro ⟨s', new, ran, moved⟩ fast
    rw [maybeSpillPage_fast fast] at ran
    cases ran
    cases fast.symm.trans moved.tier
  · intro left
    refine maybeSpillPage_moves ready holds s ?_
    rcases tier with deep | tried | fast
    · exact .inl deep
    · exact .inr tried
    · exact absurd fast left

end Move

def coldCalls : List Call :=
  [.addRegion 0 (some 4096), .store [1, 2, 3] 0 none (fun _ => false)]

def coldStore : Store := (exec (CompressStore.step 4096) CompressStore.empty coldCalls).getD
  CompressStore.empty

def coldBlob : Blob := ⟨16777264, [1, 2, 3], 16, 0⟩

def coldHeap (tier : Tier) : Heap where
  page := fun _ => ⟨.compressed, tier, 100, false, PageInfo.set 16777264 3 16 .lz4⟩
  anonymous := coldStore
  spill := oddSpill
  spillReady := true
  spilledCount := 0
  released := []

theorem coldHeap_ready (tier : Tier) : Ready (coldHeap tier) 0 coldBlob where
  anonymous := by
    have returns : (exec (CompressStore.step 4096) CompressStore.empty coldCalls).isSome := by
      decide +kernel
    obtain ⟨store, ran⟩ := Option.isSome_iff_exists.mp returns
    have promised : Along (CompressStore.step 4096) CompressStore.Promised CompressStore.empty
        coldCalls := by decide +kernel
    have same : coldStore = store := by rw [coldStore, ran, Option.getD_some]
    have formed := invariant_of_along step_wellFormed ⟨_, empty_wellFormed⟩ promised ran
    rw [← same] at formed
    exact formed
  spill := ⟨oddSpill, (init_valid init_oddSpill).2.2⟩
  apart := by cases tier <;> decide +kernel
  ready := rfl
  room := .inr (show oddSpill.nextSlot < oddSpill.numSlots by decide)
  shardFree := rfl
  lockFree := rfl

theorem coldHeap_holds (tier : Tier) : Holds (coldHeap tier) 0 coldBlob where
  held := by
    have live : coldStore.live = [coldBlob] := by decide +kernel
    exact live ▸ List.mem_singleton_self coldBlob
  mine := rfl
  data := rfl
  size := by cases tier <;> decide +kernel
  alloc := by cases tier <;> decide +kernel

/-- In a build with the deep tier the page that was tried and kept is moved. -/
theorem coldHeap_tried_moved : spillGuard ⟨true, 20, true⟩ ((coldHeap .fastTried).page 0) = true ∧
      ∃ s' new, maybeSpillPage (coldHeap .fastTried) 0 4096 (fun _ => 0) = some s' ∧
        Moved (coldHeap .fastTried) s' 0 coldBlob new := by
  have selected : spillGuard ⟨true, 20, true⟩ ((coldHeap .fastTried).page 0) = true := by
    decide +kernel
  exact ⟨selected, (selected_moved_iff selected (coldHeap_ready .fastTried)
    (coldHeap_holds .fastTried)).mpr (by decide)⟩

/-- In a build without it the guard takes the page in the fast tier, and the call leaves it. -/
theorem coldHeap_fast_kept : spillGuard ⟨true, 20, false⟩ ((coldHeap .fast).page 0) = true ∧
      Ready (coldHeap .fast) 0 coldBlob ∧ Holds (coldHeap .fast) 0 coldBlob ∧
      maybeSpillPage (coldHeap .fast) 0 4096 (fun _ => 0) = some (coldHeap .fast) ∧
      (∀ new, ¬ Moved (coldHeap .fast) (coldHeap .fast) 0 coldBlob new) := by
  refine ⟨by decide +kernel, coldHeap_ready .fast, coldHeap_holds .fast,
    maybeSpillPage_fast rfl, fun new moved => ?_⟩
  cases moved.tier

end Smash.SpillMove
