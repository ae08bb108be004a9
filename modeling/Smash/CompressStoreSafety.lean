import Smash.BlobRegions

/-! Safety of the blob store over every run of calls: live slots and free slots never
overlap, a stored blob keeps its bytes until it is released, and the live-byte counters
are exact. -/
namespace Smash.CompressStore

open Extents ByteMemory MachineWord Transition List

def used (store : Store) (base : Nat) : Extent :=
  ⟨base + kDataStart, (store.header base).offset - kDataStart⟩

structure WellFormed (store : Store) (free : Nat → List Extent) : Prop where
  distinct : (bases store).Nodup
  aligned : ∀ base ∈ bases store, base % kRegionSize = 0
  sized : ∀ base ∈ bases store, (store.header base).capacity = kRegionSize ∧
    kDataStart ≤ (store.header base).offset ∧ (store.header base).offset ≤ kRegionSize
  linked : ∀ base ∈ bases store,
    Segment store.memory base (store.header base).freeHead (free base) 0
  freeUsed : ∀ base ∈ bases store, ∀ slot ∈ free base, Within slot (used store base)
  home : ∀ blob ∈ store.live, regionOf blob.ptr ∈ store.chain (shardOf blob.pageIdx)
  liveUsed : ∀ blob ∈ store.live, Within (slotOf blob) (used store (regionOf blob.ptr))
  room : ∀ blob ∈ store.live, nodeSize ≤ blob.allocSize ∧ blob.data.length ≤ blob.allocSize
  kept : ∀ blob ∈ store.live,
    readBytes store.memory blob.ptr blob.data.length = blob.data
  packed : Packed (liveSlots store ++ (bases store).flatMap free)
  counted : ∀ base ∈ bases store, (store.header base).liveBytes = liveSum base store.live

section Invariant

variable {store : Store} {free : Nat → List Extent}

theorem wellFormed_iff_sound : WellFormed store free ↔ Sound kDataStart store free :=
  ⟨fun ⟨distinct, aligned, sized, linked, freeUsed, home, liveUsed, room, kept, packed, counted⟩ =>
      ⟨distinct, aligned, sized, linked, freeUsed, home, liveUsed, room, kept, packed, counted⟩,
    fun ⟨distinct, aligned, sized, linked, freeUsed, home, liveUsed, room, kept, packed, counted⟩ =>
      ⟨distinct, aligned, sized, linked, freeUsed, home, liveUsed, room, kept, packed, counted⟩⟩

section

variable (ok : Sound kDataStart store free)
include ok

theorem Sound.newRegion (shard : Shard) {raw : Nat}
    (fresh : ∀ base ∈ bases store, Apart ⟨raw, 2 * kRegionSize⟩ ⟨base, kRegionSize⟩) :
    Sound kDataStart (newRegion store shard raw)
      (Function.update free (alignUp raw kRegionSize) []) := by
  have positive : 0 < kRegionSize := by decide
  have low : raw ≤ alignUp raw kRegionSize := le_alignUp positive
  have high : alignUp raw kRegionSize < raw + kRegionSize := alignUp_lt_add positive
  refine ok.pushed shard (fun mem => ?_) (alignUp_mod raw kRegionSize) (by decide)
  have apart := fresh _ mem
  rw [apart_iff] at apart
  simp only at apart
  omega

theorem Sound.allocFresh {shard : Shard} {size : Nat} {mmap : Option Nat} (fresh : Fresh store mmap)
    (enough : nodeSize ≤ size) (small : size ≤ kRegionSize - kDataStart) :
    allocFresh store shard size mmap = .nothing ∨
      ∃ ans, allocFresh store shard size mmap = .found ans ∧
        Granted kDataStart store shard size ans := by
  cases mmap with
  | none => exact .inl rfl
  | some raw =>
    right
    refine ⟨_, rfl, ?_⟩
    have mapped := ok.newRegion shard (fresh raw rfl)
    have listed : alignUp raw kRegionSize ∈
        (CompressStore.newRegion store shard raw).chain shard := by
      simp [CompressStore.newRegion]
    have space : fits (CompressStore.newRegion store shard raw) (alignUp raw kRegionSize) size := by
      have header : (CompressStore.newRegion store shard raw).header
          (alignUp raw kRegionSize) = ⟨kRegionSize, kDataStart, 0, 0⟩ := by
        simp [CompressStore.newRegion]
      rw [fits, header]
      simp only [kRegionSize, kDataStart, alignUp] at small ⊢
      omega
    exact mapped.bumped_granted listed space enough

theorem Sound.scanOlder {shard : Shard} {size : Nat}
    {mmap : Option Nat} {spurious : Nat → Bool} {older : List Nat}
    (members : ∀ base ∈ older, base ∈ store.chain shard) (fresh : Fresh store mmap)
    (enough : nodeSize ≤ size) (small : size ≤ kRegionSize - kDataStart) :
    scanOlder store shard size mmap spurious older = .nothing ∨
      ∃ ans, scanOlder store shard size mmap spurious older = .found ans ∧
        Granted kDataStart store shard size ans := by
  induction older with
  | nil => exact ok.allocFresh fresh enough small
  | cons base rest ih =>
    have mem := members base mem_cons_self
    have later := ih fun j found => members j (mem_cons_of_mem base found)
    unfold CompressStore.scanOlder
    simp only
    split
    · split
      next reset =>
        exact .inr ⟨_, rfl, ok.bumped_granted mem reset.2.2.1 enough⟩
      next => exact later
    · rcases ok.searched (mem_bases mem) enough with
        none | ⟨next, list, taken, large, found, allocated⟩
      · rw [none]
        simp only
        split
        next reset =>
          exact .inr ⟨_, rfl, ok.bumped_granted mem reset.2.2.1 enough⟩
        next => exact later
      · rw [found]
        exact .inr ⟨_, rfl, allocated.granted ok mem large⟩

theorem Sound.bumpAlloc {shard : Shard} {size : Nat}
    {mmap : Option Nat} {spurious : Nat → Bool} (fresh : Fresh store mmap)
    (enough : nodeSize ≤ size) (small : size ≤ kRegionSize - kDataStart) :
    bumpAlloc store shard size mmap spurious = .nothing ∨
      ∃ ans, bumpAlloc store shard size mmap spurious = .found ans ∧
        Granted kDataStart store shard size ans := by
  unfold CompressStore.bumpAlloc
  split
  next => exact ok.allocFresh fresh enough small
  next current older chained =>
    have mem : current ∈ store.chain shard := by simp [chained]
    rcases ok.searched (mem_bases mem) enough with
      none | ⟨next, list, taken, large, found, allocated⟩
    · rw [none]
      simp only
      split
      next space => exact .inr ⟨_, rfl, ok.bumped_granted mem space enough⟩
      next =>
        refine ok.scanOlder (fun base listed => ?_) fresh enough small
        simp [chained, listed]
    · rw [found]
      exact .inr ⟨_, rfl, allocated.granted ok mem large⟩

end

theorem alignedSize_le {size : Nat} (small : size ≤ kRegionSize - kDataStart) :
    alignedSize size ≤ kRegionSize - kDataStart := by
  unfold alignedSize
  split <;> simp only [alignUp, nodeSize, kRegionSize, kDataStart] at * <;> omega

theorem resetRegion_apart {base pageSize : Nat} {refill : Memory}
    (capacity : (store.header base).capacity = kRegionSize) {extent : Extent}
    (apart : Apart ⟨base, kRegionSize⟩ extent) :
    AgreeOn store.memory (resetRegion store base pageSize refill).memory extent := by
  simp only [resetRegion, setHeader_memory, capacity]
  split
  next dropped =>
    refine overwrite_apart (apart.within ?_ (by simp [Within]))
    simp only [Within]
    omega
  next => exact .refl _ _

theorem Sound.release (ok : Sound kDataStart store free) {blob : Blob} {pageSize : Nat}
    {refill : Memory} (held : blob ∈ store.live) :
    ∃ free', Sound kDataStart
      { release store blob.ptr blob.allocSize pageSize refill with
        live := store.live.erase blob } free' := by
  obtain ⟨counted, charged⟩ := ok.release_counts held
  have positive : 0 < kDataStart := by decide
  have nonnull : blob.ptr ≠ 0 := by
    have inside := ok.liveUsed blob held
    simp only [Within, usedFrom, slotOf] at inside
    omega
  simp only [CompressStore.release, if_neg nonnull, setHeader_same]
  split
  next last =>
    have capacity := (ok.sized _ (ok.home_base held)).1
    have dropped := ok.reset held rfl charged (counted ▸ last) fun extent apart =>
      @resetRegion_apart (setHeader store (regionOf blob.ptr)
        { store.header (regionOf blob.ptr) with
          liveBytes := fetchSub (store.header (regionOf blob.ptr)).liveBytes blob.allocSize })
        (regionOf blob.ptr) pageSize refill (by simpa using capacity) extent apart
    exact ⟨_, by simpa [resetRegion, setHeader] using dropped⟩
  next more =>
    have pushed := ok.pushFree positive held rfl charged
    simpa [setHeader] using pushed

/-- A `store` call that the callers may make ends: it returns nothing and changes nothing, or it
returns a blob of the data, and the store is well formed with it. -/
theorem Sound.storeBlob (ok : Sound kDataStart store free) {data : List UInt8} {pageIdx : Nat}
    {mmap : Option Nat} {spurious : Nat → Bool} (fresh : Fresh store mmap)
    (small : data.length ≤ kRegionSize - kDataStart) :
    storeBlob store data pageIdx mmap spurious = some (store, none) ∨
      ∃ next new, storeBlob store data pageIdx mmap spurious = some (next, some new) ∧
        next.live = store.live ∧ new.data = data ∧ new.pageIdx = pageIdx ∧
        ∃ free', Sound kDataStart { next with live := new :: next.live } free' := by
  rw [CompressStore.storeBlob]
  rcases @Sound.bumpAlloc store free ok (shardOf pageIdx) _ mmap spurious fresh
    (nodeSize_le_alignedSize data.length) (alignedSize_le small) with
    none | ⟨⟨s', ptr, size⟩, found, same, enough, granted⟩
  · rw [none]
    exact .inl rfl
  · rw [found]
    obtain ⟨free', placed⟩ := granted pageIdx rfl
    have filled := placed.fill ((le_alignedSize data.length).trans enough)
    exact .inr ⟨_, _, rfl, same, rfl, rfl, free', filled⟩

end Invariant

section Mapped

variable {store : Store} {shard : Shard} {size : Nat} {mmap : Option Nat} {spurious : Nat → Bool}
  {ans : Store × Nat × Nat}

def FromMapped (store : Store) (mmap : Option Nat) (next : Store) : Prop :=
  ∀ base ∈ bases next, base ∈ bases store ∨ ∃ raw ∈ mmap, base = alignUp raw kRegionSize

theorem FromMapped.of_chain {next : Store} (chain : next.chain = store.chain) :
    FromMapped store mmap next := by
  intro base mem
  left
  unfold bases at mem ⊢
  rwa [chain] at mem

theorem takeNode_chain (store : Store) (base requested : Nat) (node : FoundNode) :
    (takeNode store base requested node).1.chain = store.chain := by
  unfold takeNode
  dsimp only
  split <;> simp [addLiveBytes]

theorem tryFreeList_fromMapped {base : Nat} (found : tryFreeList store base size = .found ans) :
    FromMapped store mmap ans.1 := by
  unfold tryFreeList at found
  split at found
  next => cases found
  next => cases found
  next node _ =>
    cases found
    exact .of_chain (takeNode_chain store base size node)

theorem bumpIn_fromMapped (base : Nat) : FromMapped store mmap (bumpIn store base size).1 :=
  .of_chain rfl

theorem allocFresh_fromMapped (found : allocFresh store shard size mmap = .found ans) :
    FromMapped store mmap ans.1 := by
  cases mmap with
  | none => cases found
  | some raw =>
    cases found
    intro base mem
    obtain ⟨j, _, listed⟩ := mem_flatMap.mp mem
    by_cases same : j = shard
    · subst same
      -- Only this shard's chain has grown, by the new region.
      have listed : base ∈ alignUp raw kRegionSize :: store.chain j := by
        simpa [bumpIn, addLiveBytes, newRegion] using listed
      rcases mem_cons.mp listed with new | old
      · exact .inr ⟨raw, rfl, new⟩
      · exact .inl (mem_bases old)
    · have listed : base ∈ store.chain j := by
        simpa [bumpIn, addLiveBytes, newRegion, same] using listed
      exact .inl (mem_bases listed)

theorem scanOlder_fromMapped {older : List Nat}
    (found : scanOlder store shard size mmap spurious older = .found ans) :
    FromMapped store mmap ans.1 := by
  induction older with
  | nil => exact allocFresh_fromMapped found
  | cons base rest ih =>
    unfold scanOlder at found
    dsimp only at found
    split at found
    · split at found
      · cases found
        apply bumpIn_fromMapped
      · exact ih found
    · split at found
      · cases found
      · split at found
        · cases found
          apply bumpIn_fromMapped
        · exact ih found
      next taken =>
        cases found
        exact tryFreeList_fromMapped taken

theorem bumpAlloc_fromMapped (found : bumpAlloc store shard size mmap spurious = .found ans) :
    FromMapped store mmap ans.1 := by
  unfold bumpAlloc at found
  split at found
  · exact allocFresh_fromMapped found
  · split at found
    · cases found
    next taken =>
      cases found
      exact tryFreeList_fromMapped taken
    · split at found
      · cases found
        apply bumpIn_fromMapped
      · exact scanOlder_fromMapped found

theorem storeBlob_fromMapped {data : List UInt8} {pageIdx : Nat} {next : Store}
    {new : Option Blob} (stored : storeBlob store data pageIdx mmap spurious = some (next, new)) :
    FromMapped store mmap next := by
  unfold storeBlob at stored
  split at stored
  next => cases stored
  next =>
    cases stored
    exact .of_chain rfl
  next found =>
    cases stored
    exact bumpAlloc_fromMapped found

end Mapped

theorem empty_wellFormed : WellFormed empty fun _ => [] :=
  wellFormed_iff_sound.mpr (sound_of_unused (fun _ => rfl) rfl)

theorem step_wellFormed {pageSize : Nat} {store next : Store} {call : Call}
    (h : ∃ free, WellFormed store free) (promised : Promised store call)
    (moved : step pageSize store call = some next) : ∃ free, WellFormed next free := by
  obtain ⟨free, formed⟩ := h
  have ok := wellFormed_iff_sound.mp formed
  cases call with
  | addRegion shard mmap =>
    cases mmap with
    | none =>
      cases moved
      exact ⟨free, formed⟩
    | some raw =>
      cases moved
      exact ⟨_, wellFormed_iff_sound.mpr (ok.newRegion shard (promised raw rfl))⟩
  | store data pageIdx mmap spurious =>
    obtain ⟨small, fresh⟩ := promised
    rw [step] at moved
    rcases @Sound.storeBlob _ _ ok data pageIdx mmap spurious fresh small with
      none | ⟨s', blob, stored, -, -, -, free', filled⟩
    · rw [none] at moved
      cases moved
      exact ⟨free, formed⟩
    · rw [stored] at moved
      cases moved
      exact ⟨free', wellFormed_iff_sound.mpr filled⟩
  | release blob refill =>
    simp only [step] at moved
    split at moved
    next held =>
      cases moved
      obtain ⟨free', released⟩ := ok.release held
      exact ⟨free', wellFormed_iff_sound.mpr released⟩
    next => cases moved

theorem step_returns {pageSize : Nat} {store : Store} {free : Nat → List Extent}
    (ok : Sound kDataStart store free) {data : List UInt8} {pageIdx : Nat} {mmap : Option Nat}
    {spurious : Nat → Bool} (promised : Promised store (.store data pageIdx mmap spurious)) :
    (step pageSize store (.store data pageIdx mmap spurious)).isSome := by
  obtain ⟨small, fresh⟩ := promised
  rw [step]
  rcases @Sound.storeBlob _ _ ok data pageIdx mmap spurious fresh small with
    none | ⟨s', blob, stored, -⟩
  · rw [none]
    rfl
  · rw [stored]
    rfl

theorem blobs_safe (pageSize : Nat) (calls : List Call) (store : Store)
    (promised : Along (step pageSize) Promised empty calls)
    (ran : exec (step pageSize) empty calls = some store) : (liveSlots store).Pairwise Apart ∧
      (∀ blob ∈ store.live, (∃ base ∈ bases store, Within (slotOf blob) ⟨base, kRegionSize⟩) ∧
        blob.data.length ≤ blob.allocSize ∧
        readBytes store.memory blob.ptr blob.data.length = blob.data) ∧ (∃ free : Nat → List Extent,
        (∀ base ∈ bases store,
          Segment store.memory base (store.header base).freeHead (free base) 0) ∧
        (liveSlots store ++ (bases store).flatMap free).Pairwise Apart) ∧
      (∀ base ∈ bases store, (store.header base).liveBytes = liveSum base store.live) ∧
      (∀ data pageIdx mmap spurious, Promised store (.store data pageIdx mmap spurious) →
        (step pageSize store (.store data pageIdx mmap spurious)).isSome) := by
  obtain ⟨free, formed⟩ := invariant_of_along step_wellFormed ⟨_, empty_wellFormed⟩ promised ran
  have ok := wellFormed_iff_sound.mp formed
  refine ⟨?_, ?_, ⟨free, ok.linked, (packed_iff_pairwise _).mp ok.packed⟩, ok.counted,
    fun data pageIdx mmap spurious may => step_returns ok may⟩
  · exact (packed_iff_pairwise _).mp (ok.packed.sublist (sublist_append_left _ _))
  · intro blob held
    exact ⟨⟨_, ok.home_base held, ok.live_within held⟩, (ok.room blob held).2, ok.kept blob held⟩

def reuseCalls : List Call :=
  [.addRegion 0 (some 4096), .store (List.replicate 40 7) 0 none (fun _ => false),
    .store [1, 2, 3] 8 none (fun _ => false),
    .release ⟨16777264, List.replicate 40 7, 48, 0⟩ (fun _ => 0),
    .store [9] 16 none (fun _ => false)]

theorem blobs_safe_after_reuse : Along (step 4096) Promised empty reuseCalls ∧
      ∃ store, exec (step 4096) empty reuseCalls = some store ∧
        store.live = [⟨16777264, [9], 16, 16⟩, ⟨16777312, [1, 2, 3], 16, 8⟩] ∧
        (liveSlots store).Pairwise Apart := by
  have promised : Along (step 4096) Promised empty reuseCalls := by decide +kernel
  exact ⟨promised, _, rfl, by decide +kernel, (blobs_safe 4096 reuseCalls _ promised rfl).1⟩

end Smash.CompressStore
