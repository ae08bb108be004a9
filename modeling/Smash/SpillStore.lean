import Smash.BlobRegions

/-! The file-backed blob store: one shared file mapping cut into 16 MB slots that the shards take
from a common counter. A region's metadata lies outside the file; inside it blobs and free nodes
are laid out as in the anonymous store, so its record, its free-list search and its bump are used
here. Positions count from the start of the mapping, a pointer is the mapping's base plus a
position. A store call holds its shard's lock throughout; what it does with the slot counter are
steps of their own, and other shards run in between. -/
namespace Smash.SpillStore

open CompressStore Extents ByteMemory MachineWord Transition Function List

/-- No blob lies in the first bytes of a region, so that offset 0 can end a free list. -/
def kDataStart : Nat := 16

/-- A store call that found no room in its shard's regions, and the counter value it has taken. -/
structure Pending where
  data : List UInt8
  pageIdx : Nat
  slot : Option Nat
  deriving DecidableEq

structure Spill where
  mapBase : Nat
  numSlots : Nat
  nextSlot : Nat
  store : Store
  /-- The call that holds the shard's lock between two steps. -/
  pending : Shard → Option Pending

/-- `init`, with the file as it is then. -/
def init (fd : Int) (mapBase : Nat) (mapSize : UInt64) (metadataCount : Option Nat)
    (contents : Memory) : Option Spill :=
  if fd < 0 ∨ mapBase = 0 ∨ mapSize.toNat < kRegionSize then none
  else
    match metadataCount with
    | none => none
    | some count =>
      let slots := mapSize.toNat / kRegionSize
      if slots = 0 ∨ count < slots then none
      else
        some
          { mapBase, numSlots := slots, nextSlot := 0
            store := { CompressStore.empty with memory := contents }
            pending := fun _ => none }

def contains (spill : Spill) (pointer : Nat) : Bool :=
  decide (spill.mapBase ≤ pointer) &&
    decide (pointer < spill.mapBase + spill.numSlots * kRegionSize)

/-- A region that was reset serves from its start, otherwise the scan goes on. -/
def reuseReset (store : Store) (base size : Nat) (onward : Search (Store × Nat × Nat)) :
    Search (Store × Nat × Nat) :=
  if (store.header base).liveBytes = 0 ∧ (store.header base).offset = kDataStart ∧
      alignUp kDataStart 16 + size ≤ kRegionSize then .found (bumpIn store base size)
  else onward

/-- Older regions of the shard, for one with a fitting free slot or one that was reset. -/
def scanOlder (store : Store) (size : Nat) : List Nat → Search (Store × Nat × Nat)
  | [] => .nothing
  | base :: rest =>
    if (store.header base).freeHead = 0 then
      reuseReset store base size (scanOlder store size rest)
    else
      match tryFreeList store base size with
      | .diverges => .diverges
      | .nothing => reuseReset store base size (scanOlder store size rest)
      | .found ans => .found ans

/-- `bumpAlloc` up to the point where it needs a new slot. -/
def searchShard (store : Store) (shard : Shard) (size : Nat) : Search (Store × Nat × Nat) :=
  match store.chain shard with
  | [] => .nothing
  | current :: older =>
    match tryFreeList store current size with
    | .diverges => .diverges
    | .found ans => .found ans
    | .nothing =>
      if alignUp (store.header current).offset 16 + size ≤ kRegionSize then
        .found (bumpIn store current size)
      else scanOlder store size older

def fillSlot (ans : Store × Nat × Nat) (data : List UInt8) (pageIdx : Nat) : Store :=
  { ans.1 with
    memory := writeBytes ans.1.memory ans.2.1 data
    live := ⟨ans.2.1, data, ans.2.2, pageIdx⟩ :: ans.1.live }

/-- The data range becomes a hole in the file, unless the kernel refuses. -/
def resetRegion (store : Store) (base : Nat) (punched : Bool) : Store :=
  let hole : Extent := ⟨base + kDataStart, kRegionSize - kDataStart⟩
  let mem := if punched then overwrite store.memory hole fun _ => 0 else store.memory
  setHeader { store with memory := mem } base
    { store.header base with offset := kDataStart, freeHead := 0 }

def release (store : Store) (position allocSize : Nat) (punched : Bool) : Store :=
  let base := regionOf position
  let reg := store.header base
  let lowered := setHeader store base
    { reg with liveBytes := fetchSub reg.liveBytes allocSize }
  if reg.liveBytes ≤ allocSize then resetRegion lowered base punched
  else
    setHeader
      { lowered with
        memory := writeU32 (writeU32 store.memory position allocSize) (position + 4)
          reg.freeHead }
      base { lowered.header base with freeHead := (position - base) % 2 ^ 32 }

inductive Event where
  /-- A call takes its shard's lock and searches the shard's regions. -/
  | store (data : List UInt8) (pageIdx : Nat)
  /-- `next_slot_.fetch_add(1)` of a call that needs a slot. -/
  | fetchAdd (shard : Shard)
  /-- The rest of that call: the new region, or `next_slot_.fetch_sub(1)` and null. -/
  | finish (shard : Shard)
  | release (blob : Blob) (punched : Bool)

def step (spill : Spill) : Event → Option Spill
  | .store data pageIdx =>
    match spill.pending (shardOf pageIdx) with
    | some _ => none
    | none =>
      match searchShard spill.store (shardOf pageIdx) (alignedSize data.length) with
      | .diverges => none
      | .found ans => some { spill with store := fillSlot ans data pageIdx }
      | .nothing =>
        some { spill with
          pending := update spill.pending (shardOf pageIdx)
            (some ⟨data, pageIdx, none⟩) }
  | .fetchAdd shard =>
    match spill.pending shard with
    | some ⟨data, pageIdx, none⟩ =>
      some { spill with
        nextSlot := fetchAdd spill.nextSlot 1
        pending := update spill.pending shard
          (some ⟨data, pageIdx, some spill.nextSlot⟩) }
    | _ => none
  | .finish shard =>
    match spill.pending shard with
    | some ⟨data, pageIdx, some slot⟩ =>
      if slot < spill.numSlots then
        let base := slot * kRegionSize
        let opened := pushRegion kDataStart spill.store shard base
        some { spill with
          store := fillSlot (bumpIn opened base (alignedSize data.length)) data pageIdx
          pending := update spill.pending shard none }
      else
        some { spill with
          nextSlot := fetchSub spill.nextSlot 1
          pending := update spill.pending shard none }
    | _ => none
  | .release blob punched =>
    if spill.pending (shardOf blob.pageIdx) = none ∧ blob ∈ spill.store.live then
      some { spill with
        store := { release spill.store blob.ptr blob.allocSize punched with
          live := spill.store.live.erase blob } }
    else none

/-- A blob is no larger than a region's data part. -/
def Promised (_ : Spill) : Event → Prop
  | .store data _ => data.length ≤ kRegionSize - kDataStart
  | .fetchAdd _ | .finish _ | .release _ _ => True

instance (spill : Spill) (event : Event) : Decidable (Promised spill event) := by
  cases event <;> unfold Promised <;> infer_instance

def owned (spill : Spill) (shard : Shard) : List Nat :=
  (spill.store.chain shard).map (· / kRegionSize) ++
    ((spill.pending shard).bind (·.slot)).toList.filter (· < spill.numSlots)

section Allocation

variable {store : Store} {free : Nat → List Extent} {shard : Shard} {base size : Nat}

/-- The answer cuts a large enough slot out of one of the shard's regions. -/
def Serves (store : Store) (free : Nat → List Extent) (shard : Shard) (size : Nat)
    (ans : Store × Nat × Nat) : Prop :=
  ∃ base ∈ store.chain shard, ∃ list taken, size ≤ taken.size ∧
    ans.2 = (taken.start, taken.size) ∧
    Allocated kDataStart store free base ans.1 list taken

section

variable (ok : Sound kDataStart store free)
include ok

theorem bumpIn_serves (mem : base ∈ store.chain shard)
    (space : alignUp (store.header base).offset 16 + size ≤ kRegionSize)
    (enough : nodeSize ≤ size) : Serves store free shard size (bumpIn store base size) := by
  have capacity := (ok.sized base (mem_bases mem)).1
  have fit : fits store base size := by
    rw [fits, capacity]
    exact space
  exact ⟨base, mem, _, _, Nat.le_refl size, rfl, ok.bumped (mem_bases mem) fit enough⟩

theorem tryFreeList_serves (mem : base ∈ store.chain shard) (enough : nodeSize ≤ size) :
    tryFreeList store base size = .nothing ∨ ∃ ans, tryFreeList store base size = .found ans ∧
        Serves store free shard size ans := by
  rcases ok.searched (mem_bases mem) enough with
    none | ⟨next, list, taken, large, found, allocated⟩
  · exact .inl none
  · exact .inr ⟨_, found, base, mem, list, taken, large, rfl, allocated⟩

theorem scanOlder_serves {older : List Nat}
    (members : ∀ base ∈ older, base ∈ store.chain shard) (enough : nodeSize ≤ size) :
    scanOlder store size older = .nothing ∨ ∃ ans, scanOlder store size older = .found ans ∧
        Serves store free shard size ans := by
  induction older with
  | nil => exact .inl rfl
  | cons base rest ih =>
    have mem := members base mem_cons_self
    have later := ih fun j found => members j (mem_cons_of_mem base found)
    have onward : reuseReset store base size (scanOlder store size rest) = .nothing ∨
        ∃ ans, reuseReset store base size (scanOlder store size rest) = .found ans ∧
          Serves store free shard size ans := by
      unfold reuseReset
      split
      next reset =>
        have space : alignUp (store.header base).offset 16 + size ≤ kRegionSize := by
          rw [reset.2.1]
          exact reset.2.2
        exact .inr ⟨_, rfl, bumpIn_serves ok mem space enough⟩
      next => exact later
    unfold scanOlder
    split
    · exact onward
    · rcases tryFreeList_serves ok mem enough with none | ⟨ans, found, serves⟩
      · rw [none]
        exact onward
      · rw [found]
        exact .inr ⟨ans, rfl, serves⟩

theorem searchShard_serves (shard : Shard) (enough : nodeSize ≤ size) :
    searchShard store shard size = .nothing ∨ ∃ ans, searchShard store shard size = .found ans ∧
        Serves store free shard size ans := by
  unfold searchShard
  split
  next => exact .inl rfl
  next current older chained =>
    have mem : current ∈ store.chain shard := by simp [chained]
    rcases tryFreeList_serves ok mem enough with none | ⟨ans, found, serves⟩
    · rw [none]
      dsimp only
      split
      next space => exact .inr ⟨_, rfl, bumpIn_serves ok mem space enough⟩
      next =>
        refine scanOlder_serves ok (fun base listed => ?_) enough
        simp [chained, listed]
    · rw [found]
      exact .inr ⟨ans, rfl, serves⟩

end

theorem Serves.sound {ans : Store × Nat × Nat} {data : List UInt8} {pageIdx : Nat}
    (serves : Serves store free (shardOf pageIdx) size ans)
    (ok : Sound kDataStart store free) (small : data.length ≤ size) :
    (∃ free', Sound kDataStart (fillSlot ans data pageIdx) free') ∧
      (fillSlot ans data pageIdx).chain = store.chain := by
  obtain ⟨base, mem, list, taken, large, same, allocated⟩ := serves
  obtain ⟨next, position, actual⟩ := ans
  obtain ⟨rfl, rfl⟩ := Prod.mk.inj same
  have granted := allocated.wellFormed ok mem
  exact ⟨⟨_, granted.fill (Nat.le_trans small large)⟩, allocated.chain⟩

theorem alignedSize_le (small : size ≤ kRegionSize - kDataStart) :
    alignedSize size ≤ kRegionSize - kDataStart := by
  unfold alignedSize
  split <;> simp only [alignUp, nodeSize, kRegionSize, kDataStart] at * <;> omega

theorem resetRegion_apart {punched : Bool} {extent : Extent}
    (apart : Apart ⟨base, kRegionSize⟩ extent) :
    AgreeOn store.memory (resetRegion store base punched).memory extent := by
  unfold resetRegion
  dsimp only [setHeader_memory]
  split
  · refine overwrite_apart (apart.within ?_ (by simp [Within]))
    simp only [Within, kRegionSize, kDataStart]
    omega
  · exact AgreeOn.refl _ _

theorem release_sound (ok : Sound kDataStart store free) {blob : Blob} {punched : Bool}
    (held : blob ∈ store.live) : ∃ free', Sound kDataStart
      { release store blob.ptr blob.allocSize punched with live := store.live.erase blob }
      free' := by
  obtain ⟨counted, charged⟩ := ok.release_counts held
  unfold release
  simp only [setHeader_same]
  split
  next last =>
    have emptied := ok.reset held rfl charged (counted ▸ last) fun extent apart =>
      @resetRegion_apart (setHeader store (regionOf blob.ptr)
        { store.header (regionOf blob.ptr) with
          liveBytes := fetchSub (store.header (regionOf blob.ptr)).liveBytes blob.allocSize })
        (regionOf blob.ptr) punched extent apart
    exact ⟨_, by simpa [resetRegion, setHeader] using emptied⟩
  next more =>
    have pushed := ok.pushFree (by decide) held rfl charged
    simpa [setHeader] using pushed

theorem release_chain (store : Store) (position allocSize : Nat) (punched : Bool) :
    (release store position allocSize punched).chain = store.chain := by
  unfold release
  dsimp only
  split <;> rfl

end Allocation

section Slots

variable {first spill next : Spill} {granted : Nat} {failing : Finset Shard}
variable {call : Option Pending} {data : List UInt8} {shard : Shard} {slot : Nat}

def Took (spill : Spill) (shard : Shard) (slot : Nat) : Prop :=
  ∃ call, spill.pending shard = some call ∧ call.slot = some slot

/-- The counter is ahead of the slots given out by exactly the calls that have yet to roll back,
and there are such calls only when every slot has been given out. -/
structure Slots (spill : Spill) (granted : Nat) (failing : Finset Shard) : Prop where
  counter : spill.nextSlot = granted + failing.card
  bound : granted ≤ spill.numSlots
  full : failing.Nonempty → granted = spill.numSlots
  fails : ∀ shard, shard ∈ failing ↔ ∃ slot, Took spill shard slot ∧ spill.numSlots ≤ slot
  below : ∀ base ∈ bases spill.store, base / kRegionSize < granted
  taken : ∀ shard slot, Took spill shard slot → slot < spill.numSlots →
    slot < granted ∧ slot * kRegionSize ∉ bases spill.store
  apart : ∀ shard other slot, Took spill shard slot → Took spill other slot →
    slot < spill.numSlots → shard = other

structure Valid (first spill : Spill) : Prop where
  base : spill.mapBase = first.mapBase
  count : spill.numSlots = first.numSlots
  sound : ∃ free, Sound kDataStart spill.store free
  slots : ∃ granted failing, Slots spill granted failing
  calls : ∀ shard call, spill.pending shard = some call →
    shardOf call.pageIdx = shard ∧ call.data.length ≤ kRegionSize - kDataStart
  small : spill.numSlots + kCompressStoreShards < wordSize

theorem took_other {shard j : Shard}
    (pending : next.pending = update spill.pending shard call) (apart : j ≠ shard) :
    Took next j slot ↔ Took spill j slot := by
  unfold Took
  simp only [pending, update_of_ne apart]

theorem took_own {pageIdx v slot : Nat}
    (pending : next.pending = update spill.pending shard (some ⟨data, pageIdx, some v⟩)) :
    Took next shard slot ↔ slot = v := by
  unfold Took
  rw [pending, update_self]
  simp [eq_comm]

theorem Slots.room (slots : Slots spill granted failing)
    (left : spill.nextSlot < spill.numSlots) : failing = ∅ ∧ granted = spill.nextSlot := by
  have counter := slots.counter
  rcases failing.eq_empty_or_nonempty with rfl | some
  · exact ⟨rfl, by simpa using counter.symm⟩
  · have all := slots.full some
    omega

theorem Slots.none_left (slots : Slots spill granted failing)
    (exhausted : spill.numSlots ≤ spill.nextSlot) : granted = spill.numSlots := by
  have counter := slots.counter
  have bound := slots.bound
  rcases failing.eq_empty_or_nonempty with rfl | some
  · rw [Finset.card_empty] at counter
    omega
  · exact slots.full some

theorem card_le (failing : Finset Shard) : failing.card ≤ kCompressStoreShards := by
  simpa using Finset.card_le_univ failing

/-- One shard's call changes. The slots of the others stay as they are, so what is left to show
is about this shard, about the counter and about the regions. -/
theorem Slots.change (slots : Slots spill granted failing) {shard : Shard}
    {call : Option Pending} {granted' : Nat} {failing' : Finset Shard}
    (count : next.numSlots = spill.numSlots)
    (pending : next.pending = update spill.pending shard call)
    (counter : next.nextSlot = granted' + failing'.card) (grown : granted ≤ granted')
    (bound : granted' ≤ spill.numSlots) (full : failing'.Nonempty → granted' = spill.numSlots)
    (others : ∀ j ≠ shard, j ∈ failing' ↔ j ∈ failing)
    (failed : shard ∈ failing' ↔ ∃ slot, Took next shard slot ∧ spill.numSlots ≤ slot)
    (below : ∀ base ∈ bases next.store, base / kRegionSize < granted')
    (own : ∀ slot, Took next shard slot → slot < spill.numSlots → slot < granted' ∧
      slot * kRegionSize ∉ bases next.store ∧ ∀ j ≠ shard, ¬ Took spill j slot)
    (rest : ∀ j ≠ shard, ∀ slot, Took spill j slot → slot < spill.numSlots →
      slot * kRegionSize ∉ bases next.store) : Slots next granted' failing' := by
  refine ⟨counter, count ▸ bound, fun some => count ▸ full some, fun j => ?_, below, ?_, ?_⟩
  · rw [count]
    by_cases here : j = shard
    · subst here
      exact failed
    · simp only [others j here, slots.fails, took_other pending here]
  · intro j slot took within
    rw [count] at within
    by_cases here : j = shard
    · subst here
      have ⟨low, free, _⟩ := own slot took within
      exact ⟨low, free⟩
    · have old := (took_other pending here).mp took
      exact ⟨Nat.lt_of_lt_of_le (slots.taken j slot old within).1 grown,
        rest j here slot old within⟩
  · intro one j slot took also within
    rw [count] at within
    by_cases here : one = shard
    · by_cases there : j = shard
      · rw [here, there]
      · subst here
        exact absurd ((took_other pending there).mp also) ((own slot took within).2.2 j there)
    · by_cases there : j = shard
      · subst there
        exact absurd ((took_other pending here).mp took) ((own slot also within).2.2 one here)
      · exact slots.apart one j slot ((took_other pending here).mp took)
          ((took_other pending there).mp also) within

theorem Slots.fetchAdd (slots : Slots spill granted failing)
    (small : spill.numSlots + kCompressStoreShards < wordSize) {pageIdx : Nat}
    (waits : spill.pending shard = some ⟨data, pageIdx, none⟩)
    (store : next.store = spill.store) (count : next.numSlots = spill.numSlots)
    (counted : next.nextSlot = MachineWord.fetchAdd spill.nextSlot 1)
    (pending : next.pending = update spill.pending shard
      (some ⟨data, pageIdx, some spill.nextSlot⟩)) :
    ∃ granted' failing', Slots next granted' failing' := by
  have absent : shard ∉ failing := fun mem => by
    obtain ⟨slot, ⟨call, here, took⟩, _⟩ := (slots.fails shard).mp mem
    cases waits.symm.trans here
    cases took
  have few := card_le (insert shard failing)
  rw [Finset.card_insert_of_notMem absent] at few
  have counter := slots.counter
  have bound := slots.bound
  have added : next.nextSlot = spill.nextSlot + 1 := by
    rw [counted]
    exact fetchAdd_of_lt (by omega)
  have regions : bases next.store = bases spill.store := by rw [store]
  have rest : ∀ j ≠ shard, ∀ slot, Took spill j slot → slot < spill.numSlots →
      slot * kRegionSize ∉ bases next.store := fun j _ slot took within =>
    regions ▸ (slots.taken j slot took within).2
  by_cases left : spill.nextSlot < spill.numSlots
  · -- the new slot lies above every slot given out before
    obtain ⟨rfl, rfl⟩ := slots.room left
    refine ⟨spill.nextSlot + 1, ∅, slots.change count pending (by simpa using added)
      (Nat.le_succ _) left (fun some => absurd some Finset.not_nonempty_empty)
      (fun _ _ => Iff.rfl) ?_ ?_ ?_ rest⟩
    · refine iff_of_false (Finset.notMem_empty shard) ?_
      rintro ⟨slot, took, beyond⟩
      have := (took_own pending).mp took
      omega
    · intro base mem
      rw [regions] at mem
      exact Nat.lt_succ_of_lt (slots.below base mem)
    · intro slot took within
      obtain rfl := (took_own pending).mp took
      refine ⟨Nat.lt_succ_self _, fun mem => ?_, fun j _ also => ?_⟩
      · rw [regions] at mem
        have below := slots.below _ mem
        rw [Nat.mul_div_cancel _ (by decide)] at below
        exact Nat.lt_irrefl _ below
      · exact Nat.lt_irrefl _ (slots.taken j _ also within).1
  · have all := slots.none_left (Nat.le_of_not_lt left)
    refine ⟨granted, insert shard failing, slots.change count pending ?_ (Nat.le_refl _) bound
      (fun _ => all) (fun j apart => by simp [apart]) ?_ ?_ ?_ rest⟩
    · rw [Finset.card_insert_of_notMem absent]
      omega
    · exact iff_of_true (Finset.mem_insert_self _ _)
        ⟨_, (took_own pending).mpr rfl, Nat.le_of_not_lt left⟩
    · rw [regions]
      exact slots.below
    · intro slot took within
      have := (took_own pending).mp took
      omega

theorem took_none (pending : next.pending = update spill.pending shard call)
    (idle : ∀ pending ∈ call, pending.slot = none) : ¬ Took next shard slot := by
  rintro ⟨mine, here, took⟩
  rw [pending, update_self] at here
  cases (idle mine here).symm.trans took

theorem Slots.settle (slots : Slots spill granted failing) (count : next.numSlots = spill.numSlots)
    (counted : next.nextSlot = spill.nextSlot)
    (pending : next.pending = update spill.pending shard call)
    (idle : ∀ pending ∈ call, pending.slot = none) (absent : shard ∉ failing)
    (below : ∀ base ∈ bases next.store, base / kRegionSize < granted)
    (rest : ∀ j ≠ shard, ∀ slot, Took spill j slot → slot < spill.numSlots →
      slot * kRegionSize ∉ bases next.store) : Slots next granted failing :=
  slots.change count pending (counted.trans slots.counter) (Nat.le_refl _) slots.bound slots.full
    (fun _ _ => Iff.rfl)
    (iff_of_false absent fun ⟨_, took, _⟩ => took_none pending idle took) below
    (fun _ took _ => absurd took (took_none pending idle)) rest

theorem Slots.rollBack (slots : Slots spill granted failing)
    (small : spill.numSlots + kCompressStoreShards < wordSize) (took : Took spill shard slot)
    (beyond : spill.numSlots ≤ slot) (store : next.store = spill.store)
    (count : next.numSlots = spill.numSlots) (counted : next.nextSlot = fetchSub spill.nextSlot 1)
    (pending : next.pending = update spill.pending shard none) :
    Slots next granted (failing.erase shard) := by
  have mem : shard ∈ failing := (slots.fails shard).mpr ⟨slot, took, beyond⟩
  have few := card_le failing
  have some := Finset.card_pos.mpr ⟨shard, mem⟩
  have counter := slots.counter
  have bound := slots.bound
  refine slots.change count pending ?_ (Nat.le_refl _) bound
    (fun _ => slots.full ⟨shard, mem⟩) (fun j apart => by simp [apart])
    (iff_of_false (Finset.notMem_erase _ _) fun ⟨_, took, _⟩ => took_none pending nofun took)
    (store ▸ slots.below) (fun _ took _ => absurd took (took_none pending nofun))
    fun j _ slot took within => store ▸ (slots.taken j slot took within).2
  rw [counted, Finset.card_erase_of_mem mem, fetchSub_of_le (by omega) (by omega)]
  omega

end Slots

section Runs

variable {first spill next : Spill} {event : Event}
variable {blob : Blob} {data : List UInt8} {free : Nat → List Extent} {pageIdx : Nat}
variable {shard : Shard} {slot : Nat}

theorem open_sound (ok : Sound kDataStart spill.store free)
    (unmapped : slot * kRegionSize ∉ bases spill.store) (home : shardOf pageIdx = shard)
    (small : data.length ≤ kRegionSize - kDataStart) : (∃ free', Sound kDataStart (fillSlot (bumpIn
        (pushRegion kDataStart spill.store shard (slot * kRegionSize)) (slot * kRegionSize)
        (alignedSize data.length)) data pageIdx) free') ∧ (bases (fillSlot (bumpIn
        (pushRegion kDataStart spill.store shard (slot * kRegionSize)) (slot * kRegionSize)
        (alignedSize data.length)) data pageIdx)).Perm
          (slot * kRegionSize :: bases spill.store) := by
  subst home
  have opened := ok.pushed (shardOf pageIdx) unmapped (Nat.mul_mod_left _ _) (by decide)
  have listed : slot * kRegionSize ∈
      (pushRegion kDataStart spill.store (shardOf pageIdx) (slot * kRegionSize)).chain
        (shardOf pageIdx) := by
    simp [pushRegion]
  have space : alignUp ((pushRegion kDataStart spill.store (shardOf pageIdx)
      (slot * kRegionSize)).header (slot * kRegionSize)).offset 16 + alignedSize data.length ≤
        kRegionSize := by
    have most := alignedSize_le small
    simp only [pushRegion, update_self]
    simp only [alignUp, kRegionSize, kDataStart] at most ⊢
    omega
  obtain ⟨filled, chain⟩ := (bumpIn_serves opened listed space
    (nodeSize_le_alignedSize data.length)).sound opened (le_alignedSize data.length)
  refine ⟨filled, ?_⟩
  have pushed := pushRegion_bases kDataStart spill.store (shardOf pageIdx) (slot * kRegionSize)
  unfold bases at pushed ⊢
  rw [chain]
  exact pushed

theorem calls_update {call : Option Pending}
    (calls : ∀ shard call, spill.pending shard = some call →
      shardOf call.pageIdx = shard ∧ call.data.length ≤ kRegionSize - kDataStart)
    (own : ∀ mine ∈ call,
      shardOf mine.pageIdx = shard ∧ mine.data.length ≤ kRegionSize - kDataStart)
    (j : Shard) (mine : Pending) (busy : update spill.pending shard call j = some mine) :
    shardOf mine.pageIdx = j ∧ mine.data.length ≤ kRegionSize - kDataStart := by
  by_cases same : j = shard
  · subst same
    rw [update_self] at busy
    exact own mine busy
  · rw [update_of_ne same] at busy
    exact calls j mine busy

section

variable (ok : Valid first spill)
include ok

theorem store_valid (promised : data.length ≤ kRegionSize - kDataStart)
    (moved : step spill (.store data pageIdx) = some next) : Valid first next := by
  obtain ⟨base, count, ⟨free, sound⟩, ⟨granted, failing, slots⟩, calls, small⟩ := ok
  unfold step at moved
  dsimp only at moved
  cases here : spill.pending (shardOf pageIdx) with
  | some call =>
    rw [here] at moved
    cases moved
  | none =>
    rw [here] at moved
    dsimp only at moved
    rcases searchShard_serves sound (shardOf pageIdx)
      (nodeSize_le_alignedSize data.length) with nothing | ⟨ans, found, serves⟩
    · rw [nothing] at moved
      cases moved
      have absent : shardOf pageIdx ∉ failing := fun mem => by
        obtain ⟨slot, ⟨call, busy, _⟩, _⟩ := (slots.fails _).mp mem
        cases here.symm.trans busy
      refine ⟨base, count, ⟨free, sound⟩, ⟨granted, failing, ?_⟩, ?_, small⟩
      · exact slots.settle rfl rfl rfl (by simp) absent slots.below
          fun j _ slot took within => (slots.taken j slot took within).2
      · exact calls_update calls (by simpa using promised)
    · rw [found] at moved
      cases moved
      obtain ⟨filled, chain⟩ := serves.sound sound (le_alignedSize data.length)
      have regions : bases (fillSlot ans data pageIdx) = bases spill.store := by
        unfold bases
        rw [chain]
      exact ⟨base, count, filled, ⟨granted, failing, ⟨slots.counter, slots.bound, slots.full,
        slots.fails, regions ▸ slots.below, regions ▸ slots.taken, slots.apart⟩⟩, calls, small⟩

theorem fetchAdd_valid (moved : step spill (.fetchAdd shard) = some next) : Valid first next := by
  obtain ⟨base, count, sound, ⟨granted, failing, slots⟩, calls, small⟩ := ok
  unfold step at moved
  dsimp only at moved
  split at moved
  next data pageIdx waits =>
    cases moved
    have own := calls shard _ waits
    exact ⟨base, count, sound, slots.fetchAdd small waits rfl rfl rfl rfl,
      calls_update calls (by simpa using own), small⟩
  next => cases moved

theorem finish_valid (moved : step spill (.finish shard) = some next) : Valid first next := by
  obtain ⟨base, count, ⟨free, sound⟩, ⟨granted, failing, slots⟩, calls, small⟩ := ok
  unfold step at moved
  dsimp only at moved
  split at moved
  next data pageIdx slot busy =>
    obtain ⟨home, fits⟩ := calls shard _ busy
    have took : Took spill shard slot := ⟨_, busy, rfl⟩
    split at moved
    next within =>
      cases moved
      obtain ⟨low, unmapped⟩ := slots.taken shard slot took within
      obtain ⟨filled, regions⟩ := open_sound sound unmapped home fits
      have absent : shard ∉ failing := fun mem => by
        obtain ⟨j, ⟨call, again, v⟩, beyond⟩ := (slots.fails shard).mp mem
        cases busy.symm.trans again
        cases v
        omega
      refine ⟨base, count, filled, ⟨granted, failing, ?_⟩, calls_update calls nofun, small⟩
      refine slots.settle rfl rfl rfl nofun absent (fun reg mem => ?_)
        fun j apart taken also below mem => ?_
      · rcases mem_cons.mp (regions.mem_iff.mp mem) with rfl | older
        · rw [Nat.mul_div_cancel _ (by decide)]
          exact low
        · exact slots.below reg older
      · rcases mem_cons.mp (regions.mem_iff.mp mem) with same | older
        · obtain rfl : taken = slot := Nat.eq_of_mul_eq_mul_right (by decide) same
          exact apart (slots.apart j shard taken also took below)
        · exact (slots.taken j taken also below).2 older
    next beyond =>
      cases moved
      exact ⟨base, count, ⟨free, sound⟩, ⟨granted, _, slots.rollBack small took
        (Nat.le_of_not_lt beyond) rfl rfl rfl rfl⟩, calls_update calls nofun, small⟩
  next => cases moved

theorem release_valid {punched : Bool}
    (moved : step spill (.release blob punched) = some next) : Valid first next := by
  obtain ⟨base, count, ⟨free, sound⟩, ⟨granted, failing, slots⟩, calls, small⟩ := ok
  unfold step at moved
  dsimp only at moved
  split at moved
  next ready =>
    cases moved
    have chain := release_chain spill.store blob.ptr blob.allocSize punched
    have regions : bases { release spill.store blob.ptr blob.allocSize punched with
        live := spill.store.live.erase blob } = bases spill.store := by
      unfold bases
      rw [chain]
    exact ⟨base, count, release_sound sound ready.2, ⟨granted, failing, ⟨slots.counter,
      slots.bound, slots.full, slots.fails, regions ▸ slots.below, regions ▸ slots.taken,
      slots.apart⟩⟩, calls, small⟩
  next => cases moved

theorem step_valid (promised : Promised spill event)
    (moved : step spill event = some next) : Valid first next := by
  cases event with
  | store data pageIdx => exact store_valid ok promised moved
  | fetchAdd shard => exact fetchAdd_valid ok moved
  | finish shard => exact finish_valid ok moved
  | release blob punched => exact release_valid ok moved

end

theorem init_valid {fd : Int} {mapBase : Nat} {mapSize : UInt64} {metadataCount : Option Nat}
    {contents : Memory} (ready : init fd mapBase mapSize metadataCount contents = some first) :
    first.mapBase = mapBase ∧ first.numSlots = mapSize.toNat / kRegionSize ∧ Valid first first := by
  unfold init at ready
  split at ready
  next => cases ready
  next =>
    cases metadataCount with
    | none => cases ready
    | some count =>
      dsimp only at ready
      split at ready
      next => cases ready
      next =>
        cases ready
        have unused : bases { CompressStore.empty with memory := contents } = [] := by
          simp [bases, CompressStore.empty]
        have idle : ∀ shard slot, ¬ Took ⟨mapBase, mapSize.toNat / kRegionSize, 0,
            { CompressStore.empty with memory := contents }, fun _ => none⟩ shard slot := by
          rintro shard slot ⟨call, ⟨⟩, _⟩
        refine ⟨rfl, rfl, rfl, rfl, ⟨_, sound_of_unused (fun _ => rfl) rfl⟩, ⟨0, ∅, ?_⟩,
          by simp, ?_⟩
        · refine ⟨rfl, Nat.zero_le _, fun some => absurd some Finset.not_nonempty_empty,
            fun shard => ?_, ?_, fun shard slot took => absurd took (idle shard slot),
            fun shard _ slot took => absurd took (idle shard slot)⟩
          · exact iff_of_false (Finset.notMem_empty shard) (by
              rintro ⟨slot, took, _⟩
              exact idle shard slot took)
          · intro reg mem
            rw [unused] at mem
            cases mem
        · have bound := mapSize.toNat_lt
          simp only [kRegionSize, wordSize, kCompressStoreShards]
          omega

theorem mem_owned_iff : slot ∈ owned spill shard ↔
      (∃ base ∈ spill.store.chain shard, base / kRegionSize = slot) ∨
        Took spill shard slot ∧ slot < spill.numSlots := by
  simp [owned, Took, Option.bind_eq_some_iff]

theorem Slots.owned_lt {granted : Nat} {failing : Finset Shard}
    (slots : Slots spill granted failing) (mine : slot ∈ owned spill shard) : slot < granted := by
  rcases mem_owned_iff.mp mine with ⟨base, mem, rfl⟩ | ⟨took, within⟩
  · exact slots.below base (mem_bases mem)
  · exact (slots.taken shard slot took within).1

theorem chain_unique {store : Store}
    (sound : Sound kDataStart store free) {shard j : Shard} {base : Nat}
    (mine : base ∈ store.chain shard) (also : base ∈ store.chain j) : shard = j := by
  have distinct := sound.distinct
  unfold bases at distinct
  by_contra apart
  have : Std.Symm (Function.onFun List.Disjoint store.chain) := ⟨fun _ _ => List.Disjoint.symm⟩
  have disjoint := (nodup_flatMap.mp distinct).2.forall (mem_finRange shard) (mem_finRange j) apart
  exact disjoint mine also

theorem Valid.owner_unique (ok : Valid first spill) {shard j : Shard}
    (mine : slot ∈ owned spill shard) (also : slot ∈ owned spill j) : shard = j := by
  obtain ⟨-, -, ⟨free, sound⟩, ⟨granted, failing, slots⟩, -, -⟩ := ok
  have start : ∀ {shard base}, base ∈ spill.store.chain shard →
      base / kRegionSize * kRegionSize = base := fun mem =>
    Nat.div_mul_cancel (Nat.dvd_of_mod_eq_zero (sound.aligned _ (mem_bases mem)))
  rcases mem_owned_iff.mp mine with ⟨base, mem, rfl⟩ | ⟨took, within⟩
  · rcases mem_owned_iff.mp also with ⟨twin, there, same⟩ | ⟨also, within⟩
    · have equal : twin = base := by rw [← start there, same, start mem]
      exact chain_unique sound mem (equal ▸ there)
    · have unmapped := (slots.taken j _ also within).2
      rw [start mem] at unmapped
      exact absurd (mem_bases mem) unmapped
  · rcases mem_owned_iff.mp also with ⟨base, there, rfl⟩ | ⟨also, _⟩
    · have unmapped := (slots.taken shard _ took within).2
      rw [start there] at unmapped
      exact absurd (mem_bases there) unmapped
    · exact slots.apart shard j slot took also within

theorem Valid.blob_inside (ok : Valid first spill) (held : blob ∈ spill.store.live) :
    blob.ptr + blob.allocSize ≤ spill.numSlots * kRegionSize := by
  obtain ⟨-, -, ⟨free, sound⟩, ⟨granted, failing, slots⟩, -, -⟩ := ok
  have home := sound.home_base held
  have slot := Nat.lt_of_lt_of_le (slots.below _ home) slots.bound
  have aligned : regionOf blob.ptr / kRegionSize * kRegionSize = regionOf blob.ptr :=
    Nat.div_mul_cancel (Nat.dvd_of_mod_eq_zero (sound.aligned _ home))
  have inside := sound.live_within held
  have reg : (regionOf blob.ptr / kRegionSize + 1) * kRegionSize ≤
      spill.numSlots * kRegionSize := Nat.mul_le_mul_right _ slot
  rw [Nat.add_mul, aligned, Nat.one_mul] at reg
  simp only [Within, slotOf] at inside
  omega

/-- What holds between two steps of any run, for a mapping at `mapBase` of so many whole slots. -/
structure Safe (mapBase numSlots : Nat) (spill : Spill) : Prop where
  owners : ∀ shard other slot, slot ∈ owned spill shard → slot ∈ owned spill other → shard = other
  disjoint : (liveSlots spill.store).Pairwise Apart
  inside : ∀ blob ∈ spill.store.live, blob.data.length ≤ blob.allocSize ∧
    blob.ptr + blob.allocSize ≤ numSlots * kRegionSize
  kept : ∀ blob ∈ spill.store.live,
    readBytes spill.store.memory blob.ptr blob.data.length = blob.data
  contained : ∀ pointer, contains spill pointer = true ↔
    mapBase ≤ pointer ∧ pointer < mapBase + numSlots * kRegionSize
  /-- A call on a free shard gets through its search. -/
  searched : ∀ data pageIdx, spill.pending (shardOf pageIdx) = none →
    (step spill (.store data pageIdx)).isSome
  /-- Once all slots are taken, a call that needs one returns null and changes no blob. -/
  exhausted : (∀ slot < numSlots, ∃ shard, slot ∈ owned spill shard) →
    ∀ shard next, step spill (.fetchAdd shard) = some next →
      ∃ slot, Took next shard slot ∧ numSlots ≤ slot
  rolledBack : ∀ shard slot next, Took spill shard slot → numSlots ≤ slot →
    step spill (.finish shard) = some next → next.store = spill.store

theorem blobs_keep_to_their_slots {fd : Int} {mapBase : Nat} {mapSize : UInt64}
    {metadataCount : Option Nat} {contents : Memory} {events : List Event}
    (ready : init fd mapBase mapSize metadataCount contents = some first)
    (promised : Along step Promised first events) (ran : exec step first events = some spill) :
    Safe mapBase (mapSize.toNat / kRegionSize) spill := by
  obtain ⟨placed, sized, start⟩ := init_valid ready
  have ok : Valid first spill := invariant_of_along step_valid start promised ran
  have count := ok.count.trans sized
  have base := ok.base.trans placed
  have ⟨free, sound⟩ := ok.sound
  have ⟨granted, failing, slots⟩ := ok.slots
  refine ⟨fun _ _ _ => ok.owner_unique, ?_, fun blob held => ⟨(sound.room blob held).2, ?_⟩,
    sound.kept, fun pointer => ?_, fun data pageIdx idle => ?_, fun full shard next moved => ?_,
    fun shard slot next took beyond moved => ?_⟩
  · exact (packed_iff_pairwise _).mp (sound.packed.sublist (sublist_append_left _ _))
  · exact count ▸ ok.blob_inside held
  · rw [contains, base, count, Bool.and_eq_true, decide_eq_true_eq, decide_eq_true_eq]
  · unfold step
    dsimp only
    rw [idle]
    dsimp only
    rcases searchShard_serves sound (shardOf pageIdx) (nodeSize_le_alignedSize data.length) with
      nothing | ⟨ans, found, _⟩
    · rw [nothing]
      rfl
    · rw [found]
      rfl
  · -- every slot is owned, so all have been given out and the counter is past them
    have all : mapSize.toNat / kRegionSize ≤ granted := by
      by_contra more
      obtain ⟨owner, mine⟩ := full granted (Nat.lt_of_not_le more)
      exact Nat.lt_irrefl _ (slots.owned_lt mine)
    have counter := slots.counter
    unfold step at moved
    dsimp only at moved
    split at moved
    next data pageIdx waits =>
      cases moved
      exact ⟨spill.nextSlot, ⟨_, update_self _ _ _, rfl⟩, by omega⟩
    next => cases moved
  · obtain ⟨call, busy, v⟩ := took
    unfold step at moved
    dsimp only at moved
    rw [busy] at moved
    obtain ⟨data, pageIdx, taken⟩ := call
    cases v
    dsimp only at moved
    rw [if_neg (by omega)] at moved
    cases moved
    rfl

def storeNow (spill : Spill) (data : List UInt8) (pageIdx : Nat) : Option (Spill × Option Blob) :=
  let size := alignedSize data.length
  match searchShard spill.store (shardOf pageIdx) size with
  | .diverges => none
  | .found ans =>
    some ({ spill with store := fillSlot ans data pageIdx },
      some ⟨ans.2.1, data, ans.2.2, pageIdx⟩)
  | .nothing =>
    if spill.nextSlot < spill.numSlots then
      let base := spill.nextSlot * kRegionSize
      let ans := bumpIn (pushRegion kDataStart spill.store (shardOf pageIdx) base) base size
      some ({ spill with
          nextSlot := fetchAdd spill.nextSlot 1
          store := fillSlot ans data pageIdx },
        some ⟨ans.2.1, data, ans.2.2, pageIdx⟩)
    else some ({ spill with nextSlot := fetchSub (fetchAdd spill.nextSlot 1) 1 }, none)

theorem storeNow_exec {stored : Option Blob} (idle : spill.pending (shardOf pageIdx) = none)
    (called : storeNow spill data pageIdx = some (next, stored)) :
    ∃ events, exec step spill events = some next ∧
      (∀ event ∈ events, event = .store data pageIdx ∨ ∀ s, Promised s event) := by
  have park : ∀ pending : Option Pending,
      update (update spill.pending (shardOf pageIdx) pending) (shardOf pageIdx)
        none = spill.pending := by
    intro pending
    rw [update_idem, ← idle, update_eq_self]
  unfold storeNow at called
  dsimp only at called
  split at called
  next => cases called
  next ans found =>
    cases called
    refine ⟨[.store data pageIdx], ?_, by simp⟩
    simp [exec, step, idle, found]
  next nothing =>
    refine ⟨[.store data pageIdx, .fetchAdd (shardOf pageIdx), .finish (shardOf pageIdx)], ?_,
      by simp [Promised]⟩
    split at called
    next within =>
      cases called
      simp [exec, step, idle, nothing, within, update_idem, park]
    next beyond =>
      cases called
      simp [exec, step, idle, nothing, beyond, update_idem, park]

/-- One of the shard's regions has a place for the blob, or a slot is left to open a region in. -/
def Room (spill : Spill) (length pageIdx : Nat) : Prop :=
  (∃ ans, searchShard spill.store (shardOf pageIdx) (alignedSize length) = .found ans) ∨
    spill.nextSlot < spill.numSlots

/-- The call ends and keeps the store valid. Either it returns nothing and the blobs are as they
were, or it returns a new blob of the data; with room for it, it returns one. -/
theorem Valid.storeNow_cases (ok : Valid first spill)
    (idle : spill.pending (shardOf pageIdx) = none)
    (small : data.length ≤ kRegionSize - kDataStart) :
    ∃ next stored, storeNow spill data pageIdx = some (next, stored) ∧ Valid first next ∧
      (Room spill data.length pageIdx → stored ≠ none) ∧ (stored = none ∧ next.store = spill.store ∨
        ∃ new, stored = some new ∧ next.store.live = new :: spill.store.live ∧
          new.data = data ∧ new.pageIdx = pageIdx) := by
  have stores : ∃ next stored, SpillStore.storeNow spill data pageIdx = some (next, stored) ∧
      (Room spill data.length pageIdx → stored ≠ none) ∧
      (stored = none ∧ next.store = spill.store ∨
        ∃ new, stored = some new ∧ next.store.live = new :: spill.store.live ∧
          new.data = data ∧ new.pageIdx = pageIdx) := by
    obtain ⟨free, sound⟩ := ok.sound
    unfold SpillStore.storeNow
    dsimp only
    rcases searchShard_serves sound (shardOf pageIdx) (nodeSize_le_alignedSize data.length) with
      nothing | ⟨ans, found, serves⟩
    · rw [nothing]
      dsimp only
      by_cases left : spill.nextSlot < spill.numSlots
      · rw [if_pos left]
        exact ⟨_, _, rfl, fun _ => nofun, .inr ⟨_, rfl, rfl, rfl, rfl⟩⟩
      · rw [if_neg left]
        refine ⟨_, _, rfl, ?_, .inl ⟨rfl, rfl⟩⟩
        rintro (⟨ans, found⟩ | room)
        · cases nothing.symm.trans found
        · exact absurd room left
    · obtain ⟨base, -, list, taken, -, -, allocated⟩ := serves
      rw [found]
      refine ⟨_, _, rfl, fun _ => nofun, .inr ⟨_, rfl, ?_, rfl, rfl⟩⟩
      rw [← allocated.live]
      rfl
  obtain ⟨next, stored, called, room, outcome⟩ := stores
  obtain ⟨events, ran, may⟩ := storeNow_exec idle called
  have promised : Along step Promised spill events := along_of_forall fun event mem s => by
    rcases may event mem with rfl | always
    · exact small
    · exact always s
  exact ⟨next, stored, called, invariant_of_along step_valid ok promised ran, room, outcome⟩

theorem Valid.storeNow (ok : Valid first spill) (idle : spill.pending (shardOf pageIdx) = none)
    (small : data.length ≤ kRegionSize - kDataStart) (room : Room spill data.length pageIdx) :
    ∃ next new, storeNow spill data pageIdx = some (next, some new) ∧ Valid first next ∧
      new ∈ next.store.live ∧ new.data = data := by
  obtain ⟨next, stored, called, kept, returns, outcome⟩ := ok.storeNow_cases idle small
  rcases outcome with ⟨none, -⟩ | ⟨new, rfl, live, same, -⟩
  · exact absurd none (returns room)
  · exact ⟨next, new, called, kept, live ▸ mem_cons_self, same⟩

def oddSpill : Spill where
  mapBase := 2 ^ 40
  numSlots := 1
  nextSlot := 0
  store := { CompressStore.empty with memory := fun _ => 0 }
  pending := fun _ => none

theorem init_oddSpill : init 3 (2 ^ 40) 0x1800000 (some 1) (fun _ => 0) = some oddSpill := by
  rfl

def crowdedEvents : List Event :=
  [.store [1, 2, 3] 0, .fetchAdd 0, .store [4] 1, .fetchAdd 1, .finish 0, .finish 1]

theorem blobs_keep_to_their_slots_crowded : ∃ spill, exec step oddSpill crowdedEvents = some spill ∧
      spill.store.live = [⟨16, [1, 2, 3], 16, 0⟩] ∧ Safe (2 ^ 40) 1 spill := by
  have shown : (exec step oddSpill crowdedEvents).map (·.store.live) =
      some [⟨16, [1, 2, 3], 16, 0⟩] := by decide +kernel
  obtain ⟨spill, ran, live⟩ := Option.map_eq_some_iff.mp shown
  have promised : Along step Promised oddSpill crowdedEvents := by decide +kernel
  exact ⟨spill, ran, live, blobs_keep_to_their_slots init_oddSpill promised ran⟩

/-- `contains` is false of a pointer into the mapping's last half slot, and a store succeeds
although every slot is taken. -/
theorem last_half_slot_unused : init 3 (2 ^ 40) 0x1800000 (some 1) (fun _ => 0) = some oddSpill ∧
      contains oddSpill (2 ^ 40 + 0x1000000) = false ∧
      2 ^ 40 + 0x1000000 < 2 ^ 40 + (0x1800000 : UInt64).toNat ∧
      ∃ spill, exec step oddSpill crowdedEvents = some spill ∧
        (∀ slot < spill.numSlots, slot ∈ owned spill 0) ∧
        ((step spill (.store [5] 8)).map (·.store.live)) =
          some [⟨32, [5], 16, 8⟩, ⟨16, [1, 2, 3], 16, 0⟩] := by
  have shown : (exec step oddSpill crowdedEvents).map (fun spill =>
      (spill.numSlots, owned spill 0, (step spill (.store [5] 8)).map (·.store.live))) =
        some (1, [0], some [⟨32, [5], 16, 8⟩, ⟨16, [1, 2, 3], 16, 0⟩]) := by decide +kernel
  obtain ⟨spill, ran, same⟩ := Option.map_eq_some_iff.mp shown
  simp only [Prod.mk.injEq] at same
  obtain ⟨count, mine, again⟩ := same
  refine ⟨init_oddSpill, by decide +kernel, by decide +kernel, spill, ran, ?_, again⟩
  intro slot below
  rw [mine]
  simpa [count] using below

end Runs

end Smash.SpillStore
