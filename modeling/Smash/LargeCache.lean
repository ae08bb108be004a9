import Smash.Extents
import Smash.LargeGrid

/-! `LargeAlloc` over whole runs: the block cache with its byte counter and clock, and where each
block and its descriptor are. The cache of `Smash.LargeAlloc` holds span numbers here. A span
number stands for one use of a descriptor, from `newSpanDescriptor` to `recycleSpanDescriptor`;
the stack of unused descriptors is shared with the slabs and not modelled. Calls come one after
another. What the kernel and `allocatePages` answer is part of the call. -/
namespace Smash.LargeCache

open Extents LargeAlloc MachineWord PageMachine Transition Function

/-- `SMASH_LARGE_CACHE_MB`, whether a region is attached, which addresses lie in it, and the
debug modes in which every freed range has to reach `releasePages`. -/
structure Config where
  maxBytes : Nat
  vmRegion : Bool
  inContigArena : Nat → Bool
  releaseDebugModes : Bool

structure Span where
  base : Nat
  pageCount : Nat
  largeSize : Nat
  deriving DecidableEq, Repr

inductive Way where
  | released
  | unmapped
  deriving DecidableEq, Repr

/-- A range given to `releasePages` or `unmapPages`, with the span it was given up for. -/
structure Disposal where
  span : Nat
  pages : Extent
  way : Way
  deriving DecidableEq, Repr

structure State where
  cache : LargeBlockCache
  lastUse : Int → Nat
  tick : Nat
  spans : Nat → Span
  /-- The base and page count each span's block had when it was obtained. -/
  obtained : Nat → Extent
  nextSpan : Nat
  /-- The spans in the page map. -/
  live : List Nat
  disposed : List Disposal
  recycled : List Nat

def initial : State where
  cache := emptyCache
  lastUse := fun _ => 0
  tick := 0
  spans := fun _ => ⟨0, 0, 0⟩
  obtained := fun _ => ⟨0, 0⟩
  nextSpan := 0
  live := []
  disposed := []
  recycled := []

def kDepth : Nat := 32
def kIdleTicks : Nat := 2

section Code

variable (cfg : Config)

/-- Room for a block of `rounded` pages under the byte cap. -/
def canAccept (rounded : Nat) (s : State) : Bool :=
  fetchAdd s.cache.bytes (rounded * kPageSize) ≤ cfg.maxBytes

def push (id rounded now : Nat) (s : State) : Option State :=
  let sz := rounded * kPageSize
  if cfg.maxBytes < fetchAdd s.cache.bytes sz then none
  else
    let bucket := bucketOf rounded
    if kDepth ≤ (s.cache.blocks bucket).length then none
    else some { s with
      cache :=
        { blocks := update s.cache.blocks bucket (id :: s.cache.blocks bucket)
          bytes := fetchAdd s.cache.bytes sz }
      lastUse := update s.lastUse bucket now }

def dispose (way : Way) (id pages : Nat) (s : State) : State :=
  { s with
    disposed := ⟨id, ⟨(s.spans id).base, pages⟩, way⟩ :: s.disposed
    recycled := id :: s.recycled }

def inRegion (base : Nat) : Bool := cfg.vmRegion && cfg.inContigArena base

def releaseIdle (pages : Nat) (s : State) (id : Nat) : State :=
  dispose (if inRegion cfg (s.spans id).base then .released else .unmapped) id pages s

/-- The body of the loop of `purgeIdle`; the blocks are released from the bottom of the stack. -/
def purgeBucket (now : Nat) (s : State) (rounded : Nat) : State :=
  let bucket := bucketOf rounded
  let victims := s.cache.blocks bucket
  if victims = [] then s
  else if (now + 2 ^ 32 - s.lastUse bucket) % 2 ^ 32 < kIdleTicks then s
  else
    victims.reverse.foldl (releaseIdle cfg rounded)
      { s with
        cache :=
          { blocks := update s.cache.blocks bucket []
            bytes := fetchSub s.cache.bytes (victims.length * rounded * kPageSize) } }

def purgeIdle (now : Nat) (s : State) : State :=
  if s.cache.bytes = 0 then s
  else (purgeSizes kMaxPages 1).foldl (purgeBucket cfg now) s

def onTick (s : State) : State :=
  let now := (s.tick + 1) % 2 ^ 32
  purgeIdle cfg now { s with tick := now }

/-- A cached block is given its span again; otherwise a block is obtained and gets a new one. -/
def allocate (platform : Platform) (size requested : Nat) (s : State) : State :=
  let alignment := if requested < kPageSize then kPageSize else requested
  let allocSize := roundUp size kPageSize
  let numPages := narrow32 (allocSize / kPageSize)
  let cacheable := decide (alignment ≤ kPageSize ∧ numPages ≤ kMaxPages)
  match if cacheable then s.cache.popNear (roundPages numPages) 2 else none with
  | some (id, rounded, left) =>
    { s with
      cache := left
      spans := update s.spans id
        ⟨(s.spans id).base, narrow32 rounded, size⟩
      live := id :: s.live }
  | none =>
    match placeBlock platform cacheable size allocSize numPages alignment with
    | none => s
    | some block =>
      let id := s.nextSpan
      { s with
        spans := update s.spans id ⟨block.base, block.pageCount, block.largeSize⟩
        obtained := update s.obtained id ⟨block.base, block.pageCount⟩
        nextSpan := id + 1
        live := id :: s.live }

/-- A region block is cached only if the cap has room for it, and not in the debug modes. -/
def deallocate (id : Nat) (s : State) : State :=
  let span := s.spans id
  let numPages := span.pageCount
  let cacheable := decide (numPages ≤ kMaxPages ∧ roundPages numPages = numPages)
  let now := s.tick
  let s := { s with live := s.live.erase id }
  if inRegion cfg span.base then
    match if cacheable && !cfg.releaseDebugModes && canAccept cfg numPages s then
        push cfg id numPages now s else none with
    | some cached => cached
    | none => dispose .released id numPages s
  else
    match if cacheable then push cfg id numPages now s else none with
    | some cached => cached
    | none => dispose .unmapped id numPages s

inductive Label where
  | allocate (platform : Platform) (size alignment : Nat)
  | deallocate (id : Nat)
  | onTick

/-- Sizes from 1 to 2^43; only live blocks are freed. -/
def step (s : State) : Label → Option State
  | .allocate platform size alignment =>
    if 1 ≤ size ∧ size ≤ 2 ^ 43 then some (allocate platform size alignment s) else none
  | .deallocate id => if id ∈ s.live then some (deallocate cfg id s) else none
  | .onTick => some (onTick cfg s)

end Code

section Cached

def usedBuckets : List Int := (List.range kUsedBuckets).map Nat.cast

def cachedIn (blocks : Int → List Nat) : List Nat := usedBuckets.flatMap blocks

def State.cached (s : State) : List Nat := cachedIn s.cache.blocks

theorem usedBuckets_nodup : usedBuckets.Nodup :=
  List.Nodup.map Nat.cast_injective List.nodup_range

theorem mem_usedBuckets {bucket : Int} :
    bucket ∈ usedBuckets ↔ ∃ k, k < kUsedBuckets ∧ bucket = k := by
  simp only [usedBuckets, List.mem_map, List.mem_range]
  exact ⟨fun ⟨k, inside, same⟩ => ⟨k, inside, same.symm⟩,
    fun ⟨k, inside, same⟩ => ⟨k, inside, same.symm⟩⟩

variable {blocks : Int → List Nat} {bucket : Int}

theorem cachedIn_update (used : bucket ∈ usedBuckets) (items : List Nat) :
    ∃ others, (cachedIn blocks).Perm (blocks bucket ++ others) ∧
      (cachedIn (update blocks bucket items)).Perm (items ++ others) := by
  refine ⟨(usedBuckets.erase bucket).flatMap blocks, ?_, ?_⟩
  · have same := flatMap_update_perm blocks bucket (blocks bucket) usedBuckets_nodup used
    rwa [update_eq_self] at same
  · exact flatMap_update_perm blocks bucket items usedBuckets_nodup used

theorem cachedIn_push (used : bucket ∈ usedBuckets) (id : Nat) :
    (cachedIn (update blocks bucket (id :: blocks bucket))).Perm (id :: cachedIn blocks) := by
  obtain ⟨others, pre, s'⟩ := @cachedIn_update blocks bucket used (id :: blocks bucket)
  exact s'.trans (pre.symm.cons id)

theorem cachedIn_pop (used : bucket ∈ usedBuckets) {id : Nat} {rest : List Nat}
    (top : blocks bucket = id :: rest) :
    (cachedIn blocks).Perm (id :: cachedIn (update blocks bucket rest)) := by
  obtain ⟨others, pre, s'⟩ := @cachedIn_update blocks bucket used rest
  rw [top] at pre
  exact pre.trans (s'.symm.cons id)

theorem cachedIn_clear (used : bucket ∈ usedBuckets) :
    (cachedIn blocks).Perm (blocks bucket ++ cachedIn (update blocks bucket [])) := by
  obtain ⟨others, pre, s'⟩ := @cachedIn_update blocks bucket used []
  exact pre.trans (s'.symm.append_left _)

end Cached

end Smash.LargeCache
