import Smash.ByteMemory
import Smash.MachineWord
import Smash.Transition

/-! The blob store: regions with a bump offset, a live-byte counter and an in-band free
list of released slots. Blob and free-node bytes live in one byte memory; a region's
header is a record found by the region's base address, and the chain of a shard is the
list of bases from `current` along `next`. Every call holds its shard's lock, so calls
are single steps. `mmap` results, the pages' contents after a decommit and the spurious
failures of the weak compare-exchange are arguments of the call. Pinning only advises the
kernel and is not modelled. -/
namespace Smash.CompressStore

open Extents ByteMemory MachineWord Transition

def kRegionSize : Nat := 16 * 1024 * 1024

/-- `sizeof(Region)` rounded up to 16. -/
def kDataStart : Nat := 48

abbrev kCompressStoreShards : Nat := 8

abbrev Shard := Fin kCompressStoreShards

structure Region where
  capacity : Nat
  offset : Nat
  liveBytes : Nat
  freeHead : Nat
  deriving DecidableEq, Repr

/-- A stored blob as its owner knows it, with the bytes it handed in. -/
structure Blob where
  ptr : Nat
  data : List UInt8
  allocSize : Nat
  pageIdx : Nat
  deriving DecidableEq, Repr

structure Store where
  memory : Memory
  header : Nat → Region
  chain : Shard → List Nat
  /-- Blobs stored and not released since. -/
  live : List Blob

instance : NeZero kCompressStoreShards := ⟨by decide⟩

def shardOf (pageIdx : Nat) : Shard := Fin.ofNat kCompressStoreShards pageIdx

def regionOf (ptr : Nat) : Nat := ptr / kRegionSize * kRegionSize

def setHeader (store : Store) (base : Nat) (reg : Region) : Store :=
  { store with header := Function.update store.header base reg }

/-- The outcome of a search through linked memory. -/
inductive Search (Answer : Type) where
  | diverges
  | nothing
  | found (answer : Answer)

structure FoundNode where
  prevOff : Nat
  curOff : Nat
  slotSize : Nat
  nextOff : Nat

/-- First fit along the in-band list, at most `fuel` nodes. -/
def findNode (mem : Memory) (base requested : Nat) : Nat → Nat → Nat → Search FoundNode
  | 0, _, _ => .diverges
  | fuel + 1, prevOff, curOff =>
    if curOff = 0 then .nothing
    else
      let slotSize := readU32 mem (base + curOff)
      let nextOff := readU32 mem (base + curOff + 4)
      if requested ≤ slotSize then .found ⟨prevOff, curOff, slotSize, nextOff⟩
      else findNode mem base requested fuel curOff nextOff

/-- Point the predecessor of an unlinked node, or the list head, at `target`. -/
def linkTo (store : Store) (base prevOff target : Nat) : Store :=
  if prevOff = 0 then
    setHeader store base { store.header base with freeHead := target % 2 ^ 32 }
  else { store with memory := writeU32 store.memory (base + prevOff + 4) target }

def addLiveBytes (store : Store) (base amount : Nat) : Store :=
  setHeader store base
    { store.header base with liveBytes := fetchAdd (store.header base).liveBytes amount }

/-- The slot's front goes to the caller. A rest that can hold a node stays on the list in
the slot's place, a smaller one goes to the caller too. -/
def takeNode (store : Store) (base requested : Nat) (node : FoundNode) : Store × Nat × Nat :=
  let remainder := node.slotSize - requested
  if nodeSize ≤ remainder then
    let remOff := node.curOff + requested
    let split := { store with
      memory := writeU32 (writeU32 store.memory (base + remOff) remainder)
        (base + remOff + 4) node.nextOff }
    (addLiveBytes (linkTo split base node.prevOff remOff) base requested,
      base + node.curOff, requested)
  else
    (addLiveBytes (linkTo store base node.prevOff node.nextOff) base node.slotSize,
      base + node.curOff, node.slotSize)

def tryFreeList (store : Store) (base requested : Nat) : Search (Store × Nat × Nat) :=
  match findNode store.memory base requested kRegionSize 0 (store.header base).freeHead with
  | .diverges => .diverges
  | .nothing => .nothing
  | .found node => .found (takeNode store base requested node)

def bumpIn (store : Store) (base size : Nat) : Store × Nat × Nat :=
  let aligned := alignUp (store.header base).offset 16
  let bumped := setHeader store base { store.header base with offset := aligned + size }
  (addLiveBytes bumped base size, base + aligned, size)

def fits (store : Store) (base size : Nat) : Prop :=
  alignUp (store.header base).offset 16 + size ≤ (store.header base).capacity

instance (store : Store) (base size : Nat) : Decidable (fits store base size) :=
  inferInstanceAs (Decidable (_ ≤ _))

/-- The kernel returns twice the size, the part around the aligned region is unmapped. -/
def newRegion (store : Store) (shard : Shard) (raw : Nat) : Store :=
  let base := alignUp raw kRegionSize
  { store with
    header := Function.update store.header base ⟨kRegionSize, kDataStart, 0, 0⟩
    chain := Function.update store.chain shard (base :: store.chain shard) }

def allocFresh (store : Store) (shard : Shard) (size : Nat) :
    Option Nat → Search (Store × Nat × Nat)
  | none => .nothing
  | some raw => .found (bumpIn (newRegion store shard raw) (alignUp raw kRegionSize) size)

/-- Older regions, for one with a fitting free slot or one that was reset. A spurious
failure of the weak compare-exchange makes the scan go on to the next region. -/
def scanOlder (store : Store) (shard : Shard) (size : Nat) (mmap : Option Nat)
    (spurious : Nat → Bool) : List Nat → Search (Store × Nat × Nat)
  | [] => allocFresh store shard size mmap
  | base :: rest =>
    let onward :=
      if (store.header base).liveBytes = 0 ∧ (store.header base).offset = kDataStart ∧
          fits store base size ∧ spurious base = false then
        .found (bumpIn store base size)
      else scanOlder store shard size mmap spurious rest
    if (store.header base).freeHead = 0 then onward
    else
      match tryFreeList store base size with
      | .diverges => .diverges
      | .nothing => onward
      | .found ans => .found ans

/-- On the current region a spurious failure only repeats the loop body, which finds the
region unchanged. -/
def bumpAlloc (store : Store) (shard : Shard) (size : Nat) (mmap : Option Nat)
    (spurious : Nat → Bool) : Search (Store × Nat × Nat) :=
  match store.chain shard with
  | [] => allocFresh store shard size mmap
  | current :: older =>
    match tryFreeList store current size with
    | .diverges => .diverges
    | .found ans => .found ans
    | .nothing =>
      if fits store current size then .found (bumpIn store current size)
      else scanOlder store shard size mmap spurious older

def alignedSize (size : Nat) : Nat :=
  if alignUp size 16 < nodeSize then nodeSize else alignUp size 16

/-- The unmapped result is the null pointer with `alloc_size` 0. -/
def storeBlob (store : Store) (data : List UInt8) (pageIdx : Nat) (mmap : Option Nat)
    (spurious : Nat → Bool) : Option (Store × Option Blob) :=
  match bumpAlloc store (shardOf pageIdx) (alignedSize data.length) mmap spurious with
  | .diverges => none
  | .nothing => some (store, none)
  | .found (next, ptr, actualSize) =>
    some ({ next with memory := writeBytes next.memory ptr data },
      some ⟨ptr, data, actualSize, pageIdx⟩)

/-- The data pages are dropped; `refill` is what the kernel maps in their place. -/
def resetRegion (store : Store) (base pageSize : Nat) (refill : Memory) : Store :=
  let decommitStart := alignUp kDataStart pageSize
  let capacity := (store.header base).capacity
  let dropped :=
    if decommitStart < capacity then
      overwrite store.memory ⟨base + decommitStart, capacity - decommitStart⟩ refill
    else store.memory
  setHeader { store with memory := dropped } base
    { store.header base with offset := kDataStart, freeHead := 0 }

def release (store : Store) (ptr allocSize pageSize : Nat) (refill : Memory) : Store :=
  if ptr = 0 then store
  else
    let base := regionOf ptr
    let reg := store.header base
    let lowered := setHeader store base
      { reg with liveBytes := fetchSub reg.liveBytes allocSize }
    if reg.liveBytes ≤ allocSize then resetRegion lowered base pageSize refill
    else
      setHeader
        { lowered with
          memory := writeU32 (writeU32 store.memory ptr allocSize) (ptr + 4) reg.freeHead }
        base { lowered.header base with freeHead := (ptr - base) % 2 ^ 32 }

inductive Call where
  /-- `init` and `pushFreshRegions` on one shard. -/
  | addRegion (shard : Shard) (mmap : Option Nat)
  | store (data : List UInt8) (pageIdx : Nat) (mmap : Option Nat) (spurious : Nat → Bool)
  | release (blob : Blob) (refill : Memory)

def step (pageSize : Nat) (store : Store) : Call → Option Store
  | .addRegion _ none => some store
  | .addRegion shard (some raw) => some (newRegion store shard raw)
  | .store data pageIdx mmap spurious =>
    match storeBlob store data pageIdx mmap spurious with
    | none => none
    | some (next, none) => some next
    | some (next, some blob) => some { next with live := blob :: next.live }
  | .release blob refill =>
    if blob ∈ store.live then
      some { release store blob.ptr blob.allocSize pageSize refill with
        live := store.live.erase blob }
    else none

def empty : Store where
  memory := fun _ => 0
  header := fun _ => ⟨0, 0, 0, 0⟩
  chain := fun _ => []
  live := []

def bases (store : Store) : List Nat :=
  (List.finRange kCompressStoreShards).flatMap store.chain

def slotOf (blob : Blob) : Extent := ⟨blob.ptr, blob.allocSize⟩

def liveSlots (store : Store) : List Extent := store.live.map slotOf

/-- What the live blobs of one region have been given. -/
def liveSum (base : Nat) (live : List Blob) : Nat :=
  ((live.filter fun blob => regionOf blob.ptr == base).map (·.allocSize)).sum

def Fresh (store : Store) (mmap : Option Nat) : Prop :=
  ∀ raw ∈ mmap, ∀ base ∈ bases store, Apart ⟨raw, 2 * kRegionSize⟩ ⟨base, kRegionSize⟩

instance (store : Store) (mmap : Option Nat) : Decidable (Fresh store mmap) :=
  match mmap with
  | none => isTrue fun _ missing => nomatch missing
  | some raw => decidable_of_iff
      (∀ base ∈ bases store, Apart ⟨raw, 2 * kRegionSize⟩ ⟨base, kRegionSize⟩) (by simp [Fresh])

/-- New regions are fresh and a blob is no larger than a region's data part. -/
def Promised (store : Store) : Call → Prop
  | .addRegion _ mmap => Fresh store mmap
  | .store data _ mmap _ => data.length ≤ kRegionSize - kDataStart ∧ Fresh store mmap
  | .release _ _ => True

instance (store : Store) (call : Call) : Decidable (Promised store call) := by
  cases call <;> unfold Promised <;> infer_instance

end Smash.CompressStore
