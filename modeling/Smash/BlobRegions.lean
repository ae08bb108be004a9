import Smash.CompressStore

/-! What the anonymous and the file-backed blob store share: regions of one size with a bump
offset and an in-band free list, over any start of the data part. The invariant names the free
list of every region; each allocation is first proved to grant an empty blob, which the copy then
fills. -/
namespace Smash.CompressStore

open Extents ByteMemory MachineWord Transition Function List

def usedFrom (dataStart : Nat) (store : Store) (base : Nat) : Extent :=
  ⟨base + dataStart, (store.header base).offset - dataStart⟩

structure Sound (dataStart : Nat) (store : Store) (free : Nat → List Extent) : Prop where
  distinct : (bases store).Nodup
  aligned : ∀ base ∈ bases store, base % kRegionSize = 0
  sized : ∀ base ∈ bases store, (store.header base).capacity = kRegionSize ∧
    dataStart ≤ (store.header base).offset ∧ (store.header base).offset ≤ kRegionSize
  linked : ∀ base ∈ bases store,
    Segment store.memory base (store.header base).freeHead (free base) 0
  freeUsed : ∀ base ∈ bases store, ∀ slot ∈ free base, Within slot (usedFrom dataStart store base)
  home : ∀ blob ∈ store.live, regionOf blob.ptr ∈ store.chain (shardOf blob.pageIdx)
  liveUsed : ∀ blob ∈ store.live,
    Within (slotOf blob) (usedFrom dataStart store (regionOf blob.ptr))
  room : ∀ blob ∈ store.live, nodeSize ≤ blob.allocSize ∧ blob.data.length ≤ blob.allocSize
  kept : ∀ blob ∈ store.live,
    readBytes store.memory blob.ptr blob.data.length = blob.data
  packed : Packed (liveSlots store ++ (bases store).flatMap free)
  counted : ∀ base ∈ bases store, (store.header base).liveBytes = liveSum base store.live


theorem mem_bases {store : Store} {shard : Shard} {base : Nat}
    (mem : base ∈ store.chain shard) : base ∈ bases store :=
  mem_flatMap.mpr ⟨shard, mem_finRange shard, mem⟩

theorem regionOf_eq {base ptr : Nat} (aligned : base % kRegionSize = 0) (low : base ≤ ptr)
    (high : ptr < base + kRegionSize) : regionOf ptr = base := by
  simp only [regionOf, kRegionSize] at *
  omega

theorem regions_apart {first second : Nat} (alignedFirst : first % kRegionSize = 0)
    (alignedSecond : second % kRegionSize = 0) (apart : first ≠ second) :
    Apart ⟨first, kRegionSize⟩ ⟨second, kRegionSize⟩ := by
  rw [apart_iff]
  simp only [kRegionSize] at *
  omega

@[simp] theorem setHeader_memory (store : Store) (base : Nat) (reg : Region) :
    (setHeader store base reg).memory = store.memory := rfl

@[simp] theorem setHeader_live (store : Store) (base : Nat) (reg : Region) :
    (setHeader store base reg).live = store.live := rfl

@[simp] theorem setHeader_chain (store : Store) (base : Nat) (reg : Region) :
    (setHeader store base reg).chain = store.chain := rfl

@[simp] theorem setHeader_same (store : Store) (base : Nat) (reg : Region) :
    (setHeader store base reg).header base = reg := by
  simp [setHeader]

theorem setHeader_other {store : Store} {base j : Nat} {reg : Region}
    (apart : j ≠ base) : (setHeader store base reg).header j = store.header j := by
  simp [setHeader, apart]

theorem liveSum_cons (base : Nat) (blob : Blob) (rest : List Blob) :
    liveSum base (blob :: rest) =
      (if regionOf blob.ptr = base then blob.allocSize else 0) + liveSum base rest := by
  by_cases here : regionOf blob.ptr = base <;> simp [liveSum, here]

theorem liveSum_erase {base : Nat} {blob : Blob} {live : List Blob} (mem : blob ∈ live) :
    (if regionOf blob.ptr = base then blob.allocSize else 0) + liveSum base (live.erase blob) =
      liveSum base live := by
  rw [← liveSum_cons]
  exact ((((perm_cons_erase mem).filter _).map _).sum_nat).symm

section Invariant

variable {dataStart : Nat} {store : Store} {free : Nat → List Extent}
variable {base : Nat} {blob : Blob} {front back : List Extent} {list : List Extent}
variable {live : List Blob} {memory : Memory} {next : Store} {shard : Shard} {slot : Extent}

section

variable (ok : Sound dataStart store free)
include ok

theorem Sound.used_within
    (mem : base ∈ bases store) : Within (usedFrom dataStart store base) ⟨base, kRegionSize⟩ := by
  obtain ⟨_, low, high⟩ := ok.sized base mem
  simp only [Within, usedFrom]
  omega

theorem Sound.home_base (mem : blob ∈ store.live) : regionOf blob.ptr ∈ bases store :=
  mem_bases (ok.home blob mem)

theorem Sound.live_within (mem : blob ∈ store.live) :
    Within (slotOf blob) ⟨regionOf blob.ptr, kRegionSize⟩ :=
  .trans (ok.liveUsed blob mem) (ok.used_within (ok.home_base mem))

theorem Sound.free_within (mem : base ∈ bases store) (listed : slot ∈ free base) :
    Within slot ⟨base, kRegionSize⟩ :=
  .trans (ok.freeUsed base mem slot listed) (ok.used_within mem)

theorem Sound.free_packed (mem : base ∈ bases store) : Packed (free base) := by
  intro point
  have bound := ok.packed point
  have part := depth_le_flatMap free mem point
  rw [depth_append] at bound
  omega

theorem Sound.live_free_apart (held : blob ∈ store.live)
    (mem : base ∈ bases store) (listed : slot ∈ free base) : Apart (slotOf blob) slot := by
  intro point covered
  have bound := ok.packed point
  have first : 0 < depth (liveSlots store) point :=
    depth_pos_iff.mpr ⟨slotOf blob, mem_map_of_mem held, covered.1⟩
  have second : 0 < depth ((bases store).flatMap free) point :=
    depth_pos_iff.mpr ⟨slot, mem_flatMap.mpr ⟨base, mem, listed⟩, covered.2⟩
  rw [depth_append] at bound
  omega

theorem Sound.free_free_apart {first second : Nat}
    {slot j : Extent} (memberFirst : first ∈ bases store) (memberSecond : second ∈ bases store)
    (apart : first ≠ second) (listed : slot ∈ free first) (otherListed : j ∈ free second) :
    Apart slot j :=
  (regions_apart (ok.aligned first memberFirst) (ok.aligned second memberSecond)
    apart).within (ok.free_within memberFirst listed)
      (ok.free_within memberSecond otherListed)

end

def grant (ans : Store × Nat × Nat) (pageIdx : Nat) : Store :=
  { ans.1 with live := ⟨ans.2.1, [], ans.2.2, pageIdx⟩ :: ans.1.live }

theorem liveSum_le (packed : Packed (live.map slotOf))
    (inside : ∀ blob ∈ live, Within (slotOf blob) ⟨regionOf blob.ptr, kRegionSize⟩) :
    liveSum base live ≤ kRegionSize := by
  have confined : ∀ extent ∈ (live.filter fun blob => regionOf blob.ptr == base).map slotOf,
      Within extent ⟨base, kRegionSize⟩ := by
    intro extent mem
    obtain ⟨blob, chosen, rfl⟩ := mem_map.mp mem
    obtain ⟨held, here⟩ := mem_filter.mp chosen
    exact (beq_iff_eq.mp here) ▸ inside blob held
  have bound := (packed.sublist (filter_sublist.map slotOf)).sum_size_le confined
  simpa [liveSum, slotOf, Function.comp_def] using bound

/-- How an allocation from the region at `base` changes the store: `slot` is cut out,
`list` is the region's free list afterwards. -/
structure Allocated (dataStart : Nat) (store : Store) (free : Nat → List Extent) (base : Nat)
    (next : Store) (list : List Extent) (slot : Extent) : Prop where
  chain : next.chain = store.chain
  live : next.live = store.live
  others : ∀ other, other ≠ base → next.header other = store.header other
  capacity : (next.header base).capacity = (store.header base).capacity
  grown : (store.header base).offset ≤ (next.header base).offset
  bounded : (next.header base).offset ≤ kRegionSize
  charged : (next.header base).liveBytes = fetchAdd (store.header base).liveBytes slot.size
  liveKept : ∀ blob ∈ store.live, AgreeOn store.memory next.memory (slotOf blob)
  nodesKept : ∀ other ∈ bases store, other ≠ base → ∀ node ∈ free other,
    AgreeOn store.memory next.memory ⟨node.start, nodeSize⟩
  linked : Segment next.memory base (next.header base).freeHead list 0
  listUsed : ∀ node ∈ list, Within node (usedFrom dataStart next base)
  slotUsed : Within slot (usedFrom dataStart next base)
  room : nodeSize ≤ slot.size
  packed : Packed (slot :: liveSlots store ++
    (bases store).flatMap (update free base list))

section

variable (ok : Sound dataStart store free)
include ok

theorem Allocated.used_grows (allocated : Allocated dataStart store free base next list slot)
    {j : Nat} (mem : j ∈ bases store) :
    Within (usedFrom dataStart store j) (usedFrom dataStart next j) := by
  have low := (ok.sized j mem).2.1
  by_cases same : j = base
  · subst same
    have grown := allocated.grown
    simp only [Within, usedFrom]
    omega
  · simp [Within, usedFrom, allocated.others j same]

theorem Allocated.wellFormed {base pageIdx : Nat} (mem : base ∈ store.chain (shardOf pageIdx))
    (allocated : Allocated dataStart store free base next list slot) :
    Sound dataStart (grant (next, slot.start, slot.size) pageIdx) (update free base list) := by
  have mapped := mem_bases mem
  have sameBases : bases next = bases store := by simp [bases, allocated.chain]
  have sized : ∀ j ∈ bases store, (next.header j).capacity = kRegionSize ∧
      dataStart ≤ (next.header j).offset ∧ (next.header j).offset ≤ kRegionSize := by
    intro j present
    obtain ⟨capacity, low, high⟩ := ok.sized j present
    by_cases same : j = base
    · subst same
      exact ⟨allocated.capacity.trans capacity, low.trans allocated.grown, allocated.bounded⟩
    · rw [allocated.others j same]
      exact ⟨capacity, low, high⟩
  have placed : regionOf slot.start = base := by
    have inside := allocated.slotUsed
    have room := allocated.room
    obtain ⟨_, low, high⟩ := sized base mapped
    simp only [Within, usedFrom, nodeSize] at inside room
    refine regionOf_eq (ok.aligned base mapped) ?_ ?_
    · omega
    · omega
  have liveUsed : ∀ blob ∈ store.live,
      Within (slotOf blob) (usedFrom dataStart next (regionOf blob.ptr)) := fun blob held =>
    (ok.liveUsed blob held).trans (allocated.used_grows ok (ok.home_base held))
  have packedLive : Packed ((slot :: liveSlots store)) :=
    allocated.packed.sublist (sublist_append_left _ _)
  have bounded : ∀ j, liveSum j (⟨slot.start, [], slot.size, pageIdx⟩ :: store.live) ≤
      kRegionSize := by
    intro j
    refine liveSum_le packedLive fun blob held => ?_
    rcases mem_cons.mp held with same | older
    · subst same
      obtain ⟨_, low, high⟩ := sized base mapped
      have inside := allocated.slotUsed
      simp only [placed, slotOf, Within, usedFrom] at *
      omega
    · exact ok.live_within older
  constructor
  · exact sameBases ▸ ok.distinct
  · exact sameBases ▸ ok.aligned
  · exact fun j present => sized j (sameBases ▸ present)
  · intro j present
    have h : j ∈ bases store := sameBases ▸ present
    by_cases same : j = base
    · subst same
      simpa [grant] using allocated.linked
    · simp only [grant, update_of_ne same, allocated.others j same]
      exact (ok.linked j h).frame (allocated.nodesKept j h same)
  · intro j present node listed
    have h : j ∈ bases store := sameBases ▸ present
    by_cases same : j = base
    · subst same
      rw [update_self] at listed
      exact allocated.listUsed node listed
    · rw [update_of_ne same] at listed
      exact (ok.freeUsed j h node listed).trans (allocated.used_grows ok h)
  · intro blob held
    simp only [grant, allocated.live, allocated.chain] at held ⊢
    rcases mem_cons.mp held with same | older
    · subst same
      simpa [placed] using mem
    · exact ok.home blob older
  · intro blob held
    simp only [grant, allocated.live] at held
    rcases mem_cons.mp held with same | older
    · subst same
      simpa [placed, slotOf, usedFrom, grant] using allocated.slotUsed
    · exact liveUsed blob older
  · intro blob held
    simp only [grant, allocated.live] at held
    rcases mem_cons.mp held with same | older
    · subst same
      exact ⟨allocated.room, Nat.zero_le _⟩
    · exact ok.room blob older
  · intro blob held
    simp only [grant, allocated.live] at held ⊢
    rcases mem_cons.mp held with same | older
    · subst same
      rfl
    · have enough := (ok.room blob older).2
      refine (readBytes_congr ((allocated.liveKept blob older).within ?_)).trans
        (ok.kept blob older)
      simpa [Within, slotOf] using enough
  · simpa [grant, liveSlots, slotOf, allocated.live, bases, allocated.chain] using allocated.packed
  · intro j present
    have h : j ∈ bases store := sameBases ▸ present
    have total := bounded j
    simp only [grant, allocated.live]
    rw [liveSum_cons] at total ⊢
    by_cases same : j = base
    · subst same
      simp only [placed, ↓reduceIte] at total ⊢
      rw [allocated.charged, ok.counted j h, fetchAdd_of_lt]
      · omega
      · simp only [kRegionSize, wordSize] at *
        omega
    · simp [placed, Ne.symm same, allocated.others j same, ok.counted j h]

theorem Sound.unused_apart {base j : Nat} {slot inner : Extent} (mem : base ∈ bases store)
    (present : j ∈ bases store) (above : base + (store.header base).offset ≤ slot.start)
    (below : slot.start + slot.size ≤ base + kRegionSize)
    (inside : Within inner (usedFrom dataStart store j)) : Apart slot inner := by
  by_cases same : j = base
  · subst same
    have low := (ok.sized j present).2.1
    refine apart_comm.mp (apart_of_le ?_)
    simp only [Within, usedFrom] at inside
    omega
  · have separate := regions_apart (ok.aligned base mem) (ok.aligned j present) (Ne.symm same)
    refine separate.within ?_ (inside.trans (ok.used_within present))
    have low := (ok.sized base mem).2.1
    simp only [Within]
    omega

theorem Sound.bumped {base size : Nat}
    (mem : base ∈ bases store) (space : fits store base size) (enough : nodeSize ≤ size) :
    Allocated dataStart store free base (bumpIn store base size).1 (free base)
      ⟨base + alignUp (store.header base).offset 16, size⟩ := by
  obtain ⟨capacity, low, high⟩ := ok.sized base mem
  have up : (store.header base).offset ≤ alignUp (store.header base).offset 16 :=
    le_alignUp (by decide)
  have room : alignUp (store.header base).offset 16 + size ≤ kRegionSize := by
    simpa [fits, capacity] using space
  have extent : usedFrom dataStart (bumpIn store base size).1 base =
      ⟨base + dataStart, alignUp (store.header base).offset 16 + size - dataStart⟩ := by
    simp [usedFrom, bumpIn, addLiveBytes]
  constructor
  · rfl
  · rfl
  · intro j different
    simp [bumpIn, addLiveBytes, setHeader_other different]
  · simp [bumpIn, addLiveBytes]
  · simp [bumpIn, addLiveBytes]
    omega
  · simpa [bumpIn, addLiveBytes] using room
  · simp [bumpIn, addLiveBytes]
  · exact fun blob held => .refl _ _
  · exact fun j present different node listed => .refl _ _
  · simpa [bumpIn, addLiveBytes] using ok.linked base mem
  · intro node listed
    have inside := ok.freeUsed base mem node listed
    rw [extent]
    simp only [Within, usedFrom] at *
    omega
  · rw [extent]
    simp only [Within]
    omega
  · exact enough
  · rw [update_eq_self, cons_append, packed_cons]
    refine ⟨fun j found => ?_, ok.packed⟩
    have apart : ∀ home ∈ bases store, Within j (usedFrom dataStart store home) →
        Apart ⟨base + alignUp (store.header base).offset 16, size⟩ j := by
      intro home present inside
      refine ok.unused_apart mem present ?_ ?_ inside
      · simpa using up
      · simpa [Nat.add_assoc] using room
    rcases mem_append.mp found with held | listed
    · obtain ⟨blob, present, rfl⟩ := mem_map.mp held
      exact apart _ (ok.home_base present) (ok.liveUsed blob present)
    · obtain ⟨home, present, node⟩ := mem_flatMap.mp listed
      exact apart home present (ok.freeUsed home present j node)

end

def prevOffset (base : Nat) (front : List Extent) (initial : Nat) : Nat :=
  (front.getLast?.map fun last => last.start - base).getD initial

/-- Along a list that fits the fuel the search answers, and with the first slot that is
large enough. -/
theorem findNode_spec {base fuel head : Nat} {slots : List Extent} (requested prevOff : Nat)
    (linked : Segment memory base head slots 0) (short : slots.length < fuel) :
    findNode memory base requested fuel prevOff head = .nothing ∨
      ∃ front slot back, slots = front ++ slot :: back ∧ requested ≤ slot.size ∧
        findNode memory base requested fuel prevOff head = .found
          ⟨prevOffset base front prevOff, slot.start - base, slot.size,
            readU32 memory (slot.start + 4)⟩ := by
  induction slots generalizing fuel prevOff head with
  | nil =>
    obtain ⟨rest, rfl⟩ : ∃ rest, fuel = rest + 1 := ⟨fuel - 1, by simp at short; omega⟩
    left
    simp only [Segment] at linked
    simp [findNode, linked]
  | cons slot rest ih =>
    obtain ⟨remaining, rfl⟩ : ∃ remaining, fuel = remaining + 1 :=
      ⟨fuel - 1, by simp at short; omega⟩
    obtain ⟨nonzero, place, room, size, further⟩ := linked
    have offset : slot.start - base = head := by omega
    rw [findNode, if_neg nonzero, ← place, size]
    by_cases large : requested ≤ slot.size
    · right
      refine ⟨[], slot, rest, rfl, large, ?_⟩
      simp [large, offset, prevOffset]
    · simp only [if_neg large]
      have shorter : rest.length < remaining := by
        simp only [length_cons] at short
        omega
      rcases ih head further shorter with none | some
      · exact .inl none
      · obtain ⟨front, chosen, back, same, enough, found⟩ := some
        right
        refine ⟨slot :: front, chosen, back, by simp [same], enough, ?_⟩
        rw [found]
        cases front with
        | nil => simp [offset, prevOffset]
        | cons first others => simp [List.getLast?_cons, prevOffset]

theorem linkTo_nil (store : Store) (base target : Nat) :
    linkTo store base (prevOffset base [] 0) target =
      setHeader store base { store.header base with freeHead := target % 2 ^ 32 } := rfl

theorem linkTo_last {base target : Nat} {first : List Extent} {last : Extent}
    (above : base < last.start) : linkTo store base (prevOffset base (first ++ [last]) 0) target =
      { store with memory := writeU32 store.memory (last.start + 4) target } := by
  have offset : prevOffset base (first ++ [last]) 0 = last.start - base := by
    simp [prevOffset]
  have nonzero : last.start - base ≠ 0 := by omega
  have place : base + (last.start - base) = last.start := by omega
  simp only [linkTo, offset, if_neg nonzero, place]

theorem linkTo_segment {base target middle : Nat} {front tail : List Extent}
    (pre : Segment store.memory base (store.header base).freeHead front middle)
    (s' : Segment store.memory base target tail 0) (packed : Packed (front ++ tail))
    (small : target < 2 ^ 32) :
    Segment (linkTo store base (prevOffset base front 0) target).memory base
      ((linkTo store base (prevOffset base front 0) target).header base).freeHead
      (front ++ tail) 0 := by
  rcases eq_nil_or_concat' front with rfl | ⟨first, last, rfl⟩
  · rw [linkTo_nil, setHeader_same, Nat.mod_eq_of_lt small]
    exact s'
  · have above : base < last.start := pre.base_lt last (by simp)
    have wide : nodeSize ≤ last.size := pre.nodeSize_le last (by simp)
    have apart : ∀ slot ∈ first ++ tail, Apart last slot := by
      intro slot mem
      exact Packed.apart (by simpa using packed) mem
    have link : ∀ slot : Extent, nodeSize ≤ slot.size → Apart last slot →
        Apart ⟨last.start + 4, 4⟩ ⟨slot.start, nodeSize⟩ := by
      intro slot room separate
      refine separate.within ?_ ?_ <;> simp only [Within, nodeSize] at * <;> omega
    rw [linkTo_last above]
    refine segment_append.mpr ⟨target, pre.relink (fun slot mem => ?_) small, ?_⟩
    · have room := pre.nodeSize_le slot (by simp [mem])
      exact link slot room (apart slot (by simp [mem]))
    · refine s'.frame fun slot mem => writeU32_apart ?_
      exact link slot (s'.nodeSize_le slot mem) (apart slot (by simp [mem]))

theorem linkTo_agree {base target : Nat} {front : List Extent} {extent : Extent}
    (wide : ∀ slot ∈ front, base < slot.start ∧ nodeSize ≤ slot.size)
    (apart : ∀ slot ∈ front, Apart slot extent) :
    AgreeOn store.memory (linkTo store base (prevOffset base front 0) target).memory extent := by
  rcases eq_nil_or_concat' front with rfl | ⟨first, last, rfl⟩
  · exact .refl store.memory extent
  · obtain ⟨above, room⟩ := wide last (by simp)
    rw [linkTo_last above]
    refine writeU32_apart ((apart last (by simp)).within ?_ ?_)
    · simp only [Within, nodeSize] at *
      omega
    · simp [Within]

@[simp] theorem linkTo_chain (store : Store) (base prevOff target : Nat) :
    (linkTo store base prevOff target).chain = store.chain := by
  unfold linkTo
  split <;> rfl

@[simp] theorem linkTo_live (store : Store) (base prevOff target : Nat) :
    (linkTo store base prevOff target).live = store.live := by
  unfold linkTo
  split <;> rfl

theorem linkTo_other {base prevOff target j : Nat} (apart : j ≠ base) :
    (linkTo store base prevOff target).header j = store.header j := by
  unfold linkTo
  split
  · exact setHeader_other apart
  · rfl

theorem linkTo_counters (store : Store) (base prevOff target : Nat) :
    ((linkTo store base prevOff target).header base).capacity = (store.header base).capacity ∧
      ((linkTo store base prevOff target).header base).offset = (store.header base).offset ∧
      ((linkTo store base prevOff target).header base).liveBytes =
        (store.header base).liveBytes := by
  unfold linkTo
  split <;> simp

section

variable (ok : Sound dataStart store free)
include ok

/-- Taking `taken` out of a listed slot: `memory` may differ inside that slot only, and
`tail` is the list from there on. -/
theorem Sound.unlink {base target : Nat}
    {front back tail : List Extent} {slot taken : Extent}
    (mem : base ∈ bases store) (listed : free base = front ++ slot :: back)
    (outside : ∀ extent, Apart slot extent → AgreeOn store.memory memory extent)
    (small : target < 2 ^ 32) (linked : Segment memory base target tail 0)
    (cut : ∀ point, depth tail point + (if Covers taken point then 1 else 0) =
      depth (slot :: back) point)
    (tailUsed : ∀ node ∈ tail, Within node (usedFrom dataStart store base))
    (takenUsed : Within taken (usedFrom dataStart store base)) (room : nodeSize ≤ taken.size) :
    Allocated dataStart store free base
      (addLiveBytes (linkTo { store with memory } base (prevOffset base front 0) target) base
        taken.size) (front ++ tail) taken := by
  have inList : ∀ node ∈ front, node ∈ free base := by
    intro node found
    simp [listed, found]
  have slotListed : slot ∈ free base := by simp [listed]
  obtain ⟨middle, pre, _⟩ := segment_append.mp (listed ▸ ok.linked base mem)
  have packedList := ok.free_packed mem
  rw [listed] at packedList
  have kept : ∀ node ∈ front, AgreeOn store.memory memory ⟨node.start, nodeSize⟩ := by
    intro node found
    have apart : Apart slot node := packedList.apart (mem_append_left back found)
    have wide := pre.nodeSize_le node found
    exact (outside node apart).within (by simpa [Within] using wide)
  have before' : Segment memory base (store.header base).freeHead front middle := pre.frame kept
  have wide : ∀ node ∈ front, base < node.start ∧ nodeSize ≤ node.size := fun node found =>
    ⟨pre.base_lt node found, pre.nodeSize_le node found⟩
  have joined : Packed (front ++ tail) := by
    intro point
    have bound := packedList point
    have share := cut point
    rw [depth_append] at bound ⊢
    omega
  have counters := linkTo_counters { store with memory } base (prevOffset base front 0) target
  have extent : usedFrom dataStart (addLiveBytes (linkTo { store with memory } base
      (prevOffset base front 0) target) base taken.size) base = usedFrom dataStart store base := by
    simp [usedFrom, addLiveBytes, counters.2.1]
  constructor
  · simp [addLiveBytes]
  · simp [addLiveBytes]
  · intro j different
    simp [addLiveBytes, setHeader_other different, linkTo_other different]
  · simp [addLiveBytes, counters.1]
  · simp [addLiveBytes, counters.2.1]
  · simpa [addLiveBytes, counters.2.1] using (ok.sized base mem).2.2
  · simp [addLiveBytes, counters.2.2]
  · intro blob held
    refine .trans (outside _ ?_) (linkTo_agree wide fun node found => ?_)
    · exact apart_comm.mp (ok.live_free_apart held mem slotListed)
    · exact apart_comm.mp (ok.live_free_apart held mem (inList node found))
  · intro j present different node found
    have reach : ∀ own ∈ free base, Apart own ⟨node.start, nodeSize⟩ := by
      intro own ownListed
      have apart := ok.free_free_apart mem present (Ne.symm different) ownListed found
      have wideNode := (ok.linked j present).nodeSize_le node found
      exact apart.within (by simp [Within]) (by simpa [Within] using wideNode)
    refine .trans (outside _ (reach slot slotListed)) (linkTo_agree wide ?_)
    exact fun own ownFound => reach own (inList own ownFound)
  · have spliced := @linkTo_segment { store with memory } base target middle front tail
      before' linked joined small
    simpa [addLiveBytes] using spliced
  · intro node found
    rw [extent]
    rcases mem_append.mp found with inFront | inTail
    · exact ok.freeUsed base mem node (inList node inFront)
    · exact tailUsed node inTail
  · rw [extent]
    exact takenUsed
  · exact room
  · intro point
    have bound := ok.packed point
    have share := cut point
    have moved := depth_flatMap_update free base (front ++ tail) ok.distinct mem point
    rw [listed] at moved
    simp only [depth_append, depth_cons, cons_append] at *
    omega

theorem Sound.takeWhole (mem : base ∈ bases store) (listed : free base = front ++ slot :: back) :
    Allocated dataStart store free base (addLiveBytes (linkTo store base (prevOffset base front 0)
        (readU32 store.memory (slot.start + 4))) base slot.size) (front ++ back) slot := by
  obtain ⟨middle, _, _, _, room, _, s'⟩ := segment_append.mp (listed ▸ ok.linked base mem)
  exact ok.unlink mem listed (fun _ _ => .refl _ _) (readU32_lt _ _) s'
    (fun point => (depth_cons slot back point).symm)
    (fun node found => ok.freeUsed base mem node (by simp [listed, found]))
    (ok.freeUsed base mem slot (by simp [listed])) room

theorem Sound.takeFront {base start size requested : Nat} (mem : base ∈ bases store)
    (listed : free base = front ++ ⟨start, size⟩ :: back) (large : requested ≤ size)
    (enough : nodeSize ≤ requested) (wide : nodeSize ≤ size - requested) :
    Allocated dataStart store free base
      (addLiveBytes (linkTo { store with
        memory := writeU32 (writeU32 store.memory (base + (start - base + requested))
          (size - requested)) (base + (start - base + requested) + 4)
          (readU32 store.memory (start + 4)) } base (prevOffset base front 0)
        (start - base + requested)) base requested)
      (front ++ ⟨start + requested, size - requested⟩ :: back) ⟨start, requested⟩ := by
  have slotUsed := ok.freeUsed base mem ⟨start, size⟩ (by simp [listed])
  obtain ⟨middle, _, nonzero, place, _, _, s'⟩ := segment_append.mp (listed ▸ ok.linked base mem)
  have packedList := ok.free_packed mem
  rw [listed] at packedList
  obtain ⟨_, low, high⟩ := ok.sized base mem
  have spot : base + (start - base + requested) = start + requested := by
    simp only at place
    omega
  have bound : start + size ≤ base + kRegionSize := by
    simp only [Within, usedFrom] at slotUsed
    omega
  have smallRegion : kRegionSize < 2 ^ 32 := by decide
  have room : nodeSize ≤ (⟨start, requested⟩ : Extent).size := enough
  refine ok.unlink mem listed ?_ ?_ ?_ ?_ ?_ ?_ room
  · intro extent apart
    rw [spot]
    refine .trans (writeU32_apart (apart.within ?_ ?_))
      (writeU32_apart (apart.within ?_ ?_)) <;> simp only [Within, nodeSize] at * <;> omega
  · simp only at place
    omega
  · have nodesApart : ∀ node ∈ back, Apart ⟨base + (start - base + requested), nodeSize⟩
        ⟨node.start, nodeSize⟩ := by
      intro node found
      have apart : Apart ⟨start, size⟩ node := packedList.apart (mem_append_right front found)
      have nodeRoom := s'.nodeSize_le node found
      rw [spot]
      refine apart.within ?_ ?_ <;> simp only [Within, nodeSize] at * <;> omega
    have offset : start - base + requested ≠ 0 := by
      simp only [nodeSize] at enough
      omega
    have pushed := s'.push offset wide (by omega) (readU32_lt _ _) nodesApart
    rw [spot] at pushed ⊢
    exact pushed
  · intro point
    have whole := covers_split start requested (size - requested) point
    rw [Nat.add_sub_cancel' large] at whole
    simp only [depth_cons]
    omega
  · intro node found
    rcases mem_cons.mp found with same | later
    · subst same
      simp only [Within, usedFrom] at *
      omega
    · exact ok.freeUsed base mem node (by simp [listed, later])
  · simp only [Within, usedFrom] at *
    omega

theorem Sound.taken {base requested : Nat}
    (mem : base ∈ bases store) (listed : free base = front ++ slot :: back)
    (large : requested ≤ slot.size) (enough : nodeSize ≤ requested) :
    ∃ next list taken, requested ≤ taken.size ∧
      takeNode store base requested ⟨prevOffset base front 0, slot.start - base, slot.size,
        readU32 store.memory (slot.start + 4)⟩ = (next, taken.start, taken.size) ∧
      Allocated dataStart store free base next list taken := by
  have above := (ok.linked base mem).base_lt slot (by simp [listed])
  have place : base + (slot.start - base) = slot.start := by omega
  by_cases wide : nodeSize ≤ slot.size - requested
  · refine ⟨_, _, ⟨slot.start, requested⟩, Nat.le_refl _, ?_,
      ok.takeFront mem listed large enough wide⟩
    simp [takeNode, wide, place]
  · refine ⟨_, _, slot, large, ?_, ok.takeWhole mem listed⟩
    simp [takeNode, wide, place]

theorem Sound.free_short (mem : base ∈ bases store) : (free base).length < kRegionSize := by
  have total := (ok.free_packed mem).sum_size_le (ok.freeUsed base mem)
  have wide := (ok.linked base mem).nodeSize_le
  have counted : (free base).length * nodeSize ≤ ((free base).map (·.size)).sum := by
    refine (card_nsmul_le_sum ((free base).map (·.size)) nodeSize fun size found => ?_).trans' ?_
    · obtain ⟨slot, listed, rfl⟩ := mem_map.mp found
      exact wide slot listed
    · simp
  obtain ⟨_, low, high⟩ := ok.sized base mem
  simp only [usedFrom, nodeSize, kRegionSize] at *
  omega

theorem Sound.searched {base requested : Nat}
    (mem : base ∈ bases store) (enough : nodeSize ≤ requested) :
    tryFreeList store base requested = .nothing ∨ ∃ next list taken, requested ≤ taken.size ∧
        tryFreeList store base requested = .found (next, taken.start, taken.size) ∧
        Allocated dataStart store free base next list taken := by
  rcases findNode_spec requested 0 (ok.linked base mem) (ok.free_short mem) with
    none | ⟨front, slot, back, listed, large, found⟩
  · left
    simp [tryFreeList, none]
  · right
    obtain ⟨next, list, taken, size, r, allocated⟩ := ok.taken mem listed large enough
    refine ⟨next, list, taken, size, ?_, allocated⟩
    simp [tryFreeList, found, r]

end

def Granted (dataStart : Nat) (store : Store) (shard : Shard) (size : Nat)
    (ans : Store × Nat × Nat) : Prop :=
  ans.1.live = store.live ∧ size ≤ ans.2.2 ∧
    ∀ pageIdx, shardOf pageIdx = shard → ∃ free, Sound dataStart (grant ans pageIdx) free

theorem Allocated.granted {base size : Nat}
    {taken : Extent} (ok : Sound dataStart store free) (mem : base ∈ store.chain shard)
    (enough : size ≤ taken.size) (allocated : Allocated dataStart store free base next list taken) :
    Granted dataStart store shard size (next, taken.start, taken.size) := by
  refine ⟨allocated.live, enough, fun pageIdx same => ?_⟩
  subst same
  exact ⟨_, allocated.wellFormed ok mem⟩

theorem Sound.bumped_granted (ok : Sound dataStart store free) {base size : Nat}
    (mem : base ∈ store.chain shard) (space : fits store base size) (enough : nodeSize ≤ size) :
    Granted dataStart store shard size (bumpIn store base size) :=
  (ok.bumped (mem_bases mem) space enough).granted ok mem (Nat.le_refl size)

theorem le_alignedSize (size : Nat) : size ≤ alignedSize size := by
  have up : size ≤ alignUp size 16 := le_alignUp (by decide)
  unfold alignedSize
  split <;> omega

theorem nodeSize_le_alignedSize (size : Nat) : nodeSize ≤ alignedSize size := by
  unfold alignedSize
  split <;> omega

theorem Sound.fill {ans : Store × Nat × Nat} {pageIdx : Nat} {data : List UInt8}
    (ok : Sound dataStart (grant ans pageIdx) free) (enough : data.length ≤ ans.2.2) :
    Sound dataStart { ans.1 with
      memory := writeBytes ans.1.memory ans.2.1 data
      live := ⟨ans.2.1, data, ans.2.2, pageIdx⟩ :: ans.1.live } free := by
  have inside : Within ⟨ans.2.1, data.length⟩ (slotOf ⟨ans.2.1, [], ans.2.2, pageIdx⟩) := by
    simpa [Within, slotOf] using enough
  have head : (⟨ans.2.1, [], ans.2.2, pageIdx⟩ : Blob) ∈ (grant ans pageIdx).live := mem_cons_self
  have others : ∀ blob ∈ ans.1.live,
      AgreeOn ans.1.memory (writeBytes ans.1.memory ans.2.1 data) (slotOf blob) := by
    intro blob held
    have packed := ok.packed.sublist (sublist_append_left _ _)
    have apart := (packed_cons.mp packed).1 (slotOf blob) (mem_map_of_mem held)
    exact writeBytes_apart (apart.within inside (by simp [Within]))
  constructor
  · exact ok.distinct
  · exact ok.aligned
  · exact ok.sized
  · intro base mem
    refine (ok.linked base mem).frame fun node listed => writeBytes_apart ?_
    have apart := ok.live_free_apart head mem listed
    have wide := (ok.linked base mem).nodeSize_le node listed
    exact apart.within inside (by simpa [Within] using wide)
  · exact ok.freeUsed
  · intro blob held
    rcases mem_cons.mp held with same | older
    · subst same
      exact ok.home ⟨ans.2.1, [], ans.2.2, pageIdx⟩ head
    · exact ok.home blob (mem_cons_of_mem _ older)
  · intro blob held
    rcases mem_cons.mp held with same | older
    · subst same
      exact ok.liveUsed ⟨ans.2.1, [], ans.2.2, pageIdx⟩ head
    · exact ok.liveUsed blob (mem_cons_of_mem _ older)
  · intro blob held
    rcases mem_cons.mp held with same | older
    · subst same
      exact ⟨(ok.room _ head).1, enough⟩
    · exact ok.room blob (mem_cons_of_mem _ older)
  · intro blob held
    rcases mem_cons.mp held with same | older
    · subst same
      exact readBytes_writeBytes _ _ _
    · have wide := (ok.room blob (mem_cons_of_mem _ older)).2
      refine (readBytes_congr ((others blob older).within ?_)).trans
        (ok.kept blob (mem_cons_of_mem _ older))
      simpa [Within, slotOf] using wide
  · exact ok.packed
  · intro base mem
    have exact := ok.counted base mem
    simpa [grant, liveSum_cons] using exact

theorem Sound.others_apart (ok : Sound dataStart store free) {blob j : Blob}
    (held : blob ∈ store.live) (left : j ∈ store.live.erase blob) :
    Apart (slotOf blob) (slotOf j) := by
  have packed := ok.packed.sublist (sublist_append_left _ _)
  have moved : Packed (slotOf blob :: (store.live.erase blob).map slotOf) := fun point =>
    depth_perm ((perm_cons_erase held).map slotOf) point ▸ packed point
  exact (packed_cons.mp moved).1 _ (mem_map_of_mem left)

/-- Taking a blob off the live list. Its region gets the header `region` and the free list
`list`, and `memory` keeps the other blobs and the other regions' nodes. -/
theorem Sound.drop (ok : Sound dataStart store free) {reg : Region} (held : blob ∈ store.live)
    (home : regionOf blob.ptr = base) (capacity : reg.capacity = (store.header base).capacity)
    (low : dataStart ≤ reg.offset) (high : reg.offset ≤ kRegionSize)
    (charged : reg.liveBytes = liveSum base (store.live.erase blob))
    (liveKept : ∀ j ∈ store.live.erase blob, AgreeOn store.memory memory (slotOf j))
    (nodesKept : ∀ j ∈ bases store, j ≠ base → ∀ node ∈ free j,
      AgreeOn store.memory memory ⟨node.start, nodeSize⟩)
    (linked : Segment memory base reg.freeHead list 0)
    (listUsed : ∀ node ∈ list, Within node ⟨base + dataStart, reg.offset - dataStart⟩)
    (othersUsed : ∀ j ∈ store.live.erase blob, regionOf j.ptr = base →
      Within (slotOf j) ⟨base + dataStart, reg.offset - dataStart⟩)
    (covered : ∀ point, depth list point ≤ depth (slotOf blob :: free base) point) :
    Sound dataStart { setHeader store base reg with memory, live := store.live.erase blob }
      (update free base list) := by
  have mem : base ∈ bases store := home ▸ ok.home_base held
  have older : ∀ j, j ∈ store.live.erase blob → j ∈ store.live :=
    fun j left => mem_of_mem_erase left
  constructor
  · exact ok.distinct
  · exact ok.aligned
  · intro j present
    by_cases same : j = base
    · subst same
      simp only [setHeader_same]
      exact ⟨capacity.trans (ok.sized j present).1, low, high⟩
    · simp only [setHeader_other same]
      exact ok.sized j present
  · intro j present
    by_cases same : j = base
    · subst same
      simpa using linked
    · simp only [setHeader_other same, update_of_ne same]
      exact (ok.linked j present).frame (nodesKept j present same)
  · intro j present node listed
    by_cases same : j = base
    · subst same
      rw [update_self] at listed
      simpa [usedFrom] using listUsed node listed
    · rw [update_of_ne same] at listed
      simpa [usedFrom, setHeader_other same] using ok.freeUsed j present node listed
  · exact fun j left => ok.home j (older j left)
  · intro j left
    by_cases same : regionOf j.ptr = base
    · simpa [usedFrom, same] using othersUsed j left same
    · simpa [usedFrom, setHeader_other same] using ok.liveUsed j (older j left)
  · exact fun j left => ok.room j (older j left)
  · intro j left
    have wide := (ok.room j (older j left)).2
    refine (readBytes_congr ((liveKept j left).within ?_)).trans (ok.kept j (older j left))
    simpa [Within, slotOf] using wide
  · intro point
    have bound := ok.packed point
    have fewer := covered point
    have pulled := depth_perm ((perm_cons_erase held).map slotOf) point
    have moved := depth_flatMap_update free base list ok.distinct mem point
    simp only [liveSlots, bases, setHeader_chain, depth_append, map_cons, depth_cons] at *
    omega
  · intro j present
    by_cases same : j = base
    · subst same
      simpa using charged
    · have total := @liveSum_erase j blob store.live held
      have elsewhere : regionOf blob.ptr ≠ j := fun here => same (here ▸ home)
      simp only [if_neg elsewhere, Nat.zero_add] at total
      simp only [setHeader_other same, total]
      exact ok.counted j present

theorem Sound.pushFree (ok : Sound dataStart store free) (positive : 0 < dataStart)
    {base liveBytes : Nat} (held : blob ∈ store.live) (home : regionOf blob.ptr = base)
    (charged : liveBytes = liveSum base (store.live.erase blob)) :
    ∃ free', Sound dataStart
      { setHeader store base { store.header base with
          liveBytes, freeHead := (blob.ptr - base) % 2 ^ 32 } with
        memory := writeU32 (writeU32 store.memory blob.ptr blob.allocSize) (blob.ptr + 4)
          (store.header base).freeHead
        live := store.live.erase blob } free' := by
  have mem : base ∈ bases store := home ▸ ok.home_base held
  have room := (ok.room blob held).1
  have inside := home ▸ ok.liveUsed blob held
  obtain ⟨capacity, low, high⟩ := ok.sized base mem
  have smallRegion : kRegionSize < 2 ^ 32 := by decide
  obtain ⟨offset, placed⟩ : ∃ offset, blob.ptr = base + offset := by
    simp only [Within, usedFrom, slotOf] at inside
    exact ⟨blob.ptr - base, by omega⟩
  have offsetBound : dataStart ≤ offset ∧ offset + blob.allocSize ≤ kRegionSize := by
    simp only [Within, usedFrom, slotOf] at inside
    omega
  have wrapped : (blob.ptr - base) % 2 ^ 32 = offset := by
    rw [placed, Nat.add_sub_cancel_left]
    exact Nat.mod_eq_of_lt (by omega)
  have headSmall : (store.header base).freeHead < 2 ^ 32 := by
    have linked := ok.linked base mem
    cases nodes : free base with
    | nil =>
      rw [nodes] at linked
      simp only [Segment] at linked
      omega
    | cons first rest =>
      rw [nodes] at linked
      have within := ok.free_within mem (nodes ▸ mem_cons_self : first ∈ free base)
      obtain ⟨_, place, wide, _⟩ := linked
      simp only [Within, nodeSize] at within wide
      omega
  have reach : ∀ extent, Apart (slotOf blob) extent → AgreeOn store.memory
      (writeU32 (writeU32 store.memory blob.ptr blob.allocSize) (blob.ptr + 4)
        (store.header base).freeHead) extent := by
    intro extent apart
    refine .trans (writeU32_apart (apart.within ?_ ?_)) (writeU32_apart (apart.within ?_ ?_)) <;>
      simp only [Within, slotOf, nodeSize] at * <;> omega
  refine ⟨_, ok.drop held home rfl low high charged ?_ ?_ ?_ ?_ ?_ fun point => Nat.le_refl _⟩
  · exact fun j left => reach _ (ok.others_apart held left)
  · intro j present different node listed
    have apart := ok.live_free_apart held present listed
    have wide := (ok.linked j present).nodeSize_le node listed
    exact reach _ (apart.within (by simp [Within]) (by simpa [Within] using wide))
  · have nodesApart : ∀ node ∈ free base, Apart ⟨base + offset, nodeSize⟩
        ⟨node.start, nodeSize⟩ := by
      intro node listed
      have apart := ok.live_free_apart held mem listed
      have wide := (ok.linked base mem).nodeSize_le node listed
      rw [← placed]
      exact apart.within (by simpa [Within, slotOf] using room) (by simpa [Within] using wide)
    have pushed := (ok.linked base mem).push (by omega : offset ≠ 0) room (by omega)
      headSmall nodesApart
    rw [wrapped]
    simpa [slotOf, placed] using pushed
  · intro node listed
    rcases mem_cons.mp listed with same | later
    · subst same
      exact inside
    · exact ok.freeUsed base mem node later
  · intro j left here
    exact here ▸ ok.liveUsed j (mem_of_mem_erase left)

theorem liveSum_pos (held : blob ∈ live)
    (home : regionOf blob.ptr = base) : blob.allocSize ≤ liveSum base live := by
  have total := @liveSum_erase base blob live held
  rw [if_pos home] at total
  omega

theorem sound_of_unused (chain : ∀ shard, store.chain shard = []) (live : store.live = []) :
    Sound dataStart store fun _ => [] := by
  have none : bases store = [] := by simp [bases, chain]
  constructor <;> simp [none, live, liveSlots, Packed]

def pushRegion (dataStart : Nat) (store : Store) (shard : Shard) (base : Nat) : Store :=
  { store with
    header := update store.header base ⟨kRegionSize, dataStart, 0, 0⟩
    chain := update store.chain shard (base :: store.chain shard) }

theorem pushRegion_bases (dataStart : Nat) (store : Store) (shard : Shard) (base : Nat) :
    (bases (pushRegion dataStart store shard base)).Perm (base :: bases store) := by
  have pushed := flatMap_update_perm store.chain shard
    (base :: store.chain shard) (nodup_finRange _) (mem_finRange _)
  have same := flatMap_update_perm store.chain shard (store.chain shard)
    (nodup_finRange _) (mem_finRange _)
  rw [update_eq_self] at same
  exact pushed.trans (same.symm.cons _)

theorem Sound.pushed (ok : Sound dataStart store free) (shard : Shard)
    (unmapped : base ∉ bases store) (aligned : base % kRegionSize = 0)
    (fits : dataStart ≤ kRegionSize) :
    Sound dataStart (pushRegion dataStart store shard base) (update free base []) := by
  have split : ∀ j, j ∈ bases (pushRegion dataStart store shard base) →
      j = base ∨ (j ∈ bases store ∧ j ≠ base) := by
    intro j mem
    have listed := (pushRegion_bases dataStart store shard base).mem_iff.mp mem
    rcases mem_cons.mp listed with same | older
    · exact .inl same
    · exact .inr ⟨older, fun same => unmapped (same ▸ older)⟩
  have header : ∀ j, j ≠ base →
      (pushRegion dataStart store shard base).header j = store.header j := by
    intro j apart
    simp [pushRegion, apart]
  have own : (pushRegion dataStart store shard base).header base =
      ⟨kRegionSize, dataStart, 0, 0⟩ := by
    simp [pushRegion]
  have extent : ∀ j, j ≠ base → usedFrom dataStart (pushRegion dataStart store shard base) j =
        usedFrom dataStart store j := by
    intro j apart
    simp [usedFrom, header j apart]
  have homes : ∀ blob ∈ store.live, regionOf blob.ptr ≠ base := by
    intro blob held same
    exact unmapped (same ▸ ok.home_base held)
  constructor
  · refine (pushRegion_bases dataStart store shard base).nodup_iff.mpr ?_
    exact nodup_cons.mpr ⟨unmapped, ok.distinct⟩
  · intro j mem
    rcases split j mem with same | ⟨older, _⟩
    · subst same
      exact aligned
    · exact ok.aligned j older
  · intro j mem
    rcases split j mem with same | ⟨older, apart⟩
    · subst same
      rw [own]
      exact ⟨rfl, Nat.le_refl _, fits⟩
    · rw [header j apart]
      exact ok.sized j older
  · intro j mem
    rcases split j mem with same | ⟨older, apart⟩
    · subst same
      rw [own, update_self]
      rfl
    · rw [header j apart, update_of_ne apart]
      exact ok.linked j older
  · intro j mem slot listed
    rcases split j mem with same | ⟨older, apart⟩
    · subst same
      rw [update_self] at listed
      exact absurd listed not_mem_nil
    · rw [update_of_ne apart] at listed
      rw [extent j apart]
      exact ok.freeUsed j older slot listed
  · intro blob held
    have old := ok.home blob held
    by_cases here : shardOf blob.pageIdx = shard
    · subst here
      simp [pushRegion, old]
    · simpa [pushRegion, here] using old
  · intro blob held
    rw [extent _ (homes blob held)]
    exact ok.liveUsed blob held
  · exact ok.room
  · exact ok.kept
  · intro point
    have bound := ok.packed point
    have pulled := depth_perm ((pushRegion_bases dataStart store shard base).flatMap_right
      (update free base [])) point
    have unchanged : (bases store).flatMap (update free base []) = (bases store).flatMap free := by
      refine flatMap_congr fun j mem => ?_
      have apart : j ≠ base := fun same => unmapped (same ▸ mem)
      exact update_of_ne apart _ _
    rw [flatMap_cons, update_self, unchanged] at pulled
    rw [depth_append] at bound ⊢
    rw [pulled]
    exact bound
  · intro j mem
    rcases split j mem with same | ⟨older, apart⟩
    · subst same
      have none : store.live.filter (fun blob => regionOf blob.ptr == j) = [] := by
        rw [filter_eq_nil_iff]
        intro blob held
        simpa using homes blob held
      rw [own]
      simp [liveSum, pushRegion, none]
    · rw [header j apart]
      exact ok.counted j older

theorem Sound.reset (ok : Sound dataStart store free) {base liveBytes : Nat}
    (held : blob ∈ store.live) (home : regionOf blob.ptr = base)
    (charged : liveBytes = liveSum base (store.live.erase blob))
    (last : liveSum base store.live ≤ blob.allocSize)
    (outside : ∀ extent, Apart ⟨base, kRegionSize⟩ extent → AgreeOn store.memory memory extent) :
    Sound dataStart
      { setHeader store base ⟨(store.header base).capacity, dataStart, liveBytes, 0⟩ with
        memory, live := store.live.erase blob } (update free base []) := by
  have mem : base ∈ bases store := home ▸ ok.home_base held
  obtain ⟨capacity, low, high⟩ := ok.sized base mem
  have nothing : liveSum base (store.live.erase blob) = 0 := by
    have total := @liveSum_erase base blob store.live held
    rw [if_pos home] at total
    omega
  have elsewhere : ∀ j ∈ store.live.erase blob, regionOf j.ptr ≠ base := by
    intro j left here
    have room := (ok.room j (mem_of_mem_erase left)).1
    have share := liveSum_pos left here
    simp only [nodeSize] at room
    omega
  -- the bytes that change lie in the region, so everything kept in another one is untouched
  have reach : ∀ j ∈ bases store, j ≠ base → ∀ extent, Within extent ⟨j, kRegionSize⟩ →
      AgreeOn store.memory memory extent := by
    intro j present different extent inside
    have apart := regions_apart (ok.aligned base mem) (ok.aligned j present) (Ne.symm different)
    exact outside extent (apart.within (by simp [Within]) inside)
  have unlisted : ∀ node ∈ ([] : List Extent), Within node
      ⟨base + dataStart, dataStart - dataStart⟩ := by simp
  refine ok.drop held home rfl (Nat.le_refl _) (Nat.le_trans low high) charged ?_ ?_ rfl unlisted
    ?_ ?_
  · intro j left
    have h := mem_of_mem_erase left
    exact reach _ (ok.home_base h) (elsewhere j left) _ (ok.live_within h)
  · intro j present different node listed
    refine reach j present different _ ?_
    have inside := ok.free_within present listed
    have wide := (ok.linked j present).nodeSize_le node listed
    simp only [Within] at *
    omega
  · exact fun j left here => absurd here (elsewhere j left)
  · intro point
    simp

theorem Sound.release_counts (ok : Sound dataStart store free) (held : blob ∈ store.live) :
    (store.header (regionOf blob.ptr)).liveBytes = liveSum (regionOf blob.ptr) store.live ∧
      fetchSub (store.header (regionOf blob.ptr)).liveBytes blob.allocSize =
        liveSum (regionOf blob.ptr) (store.live.erase blob) := by
  have counted := ok.counted _ (ok.home_base held)
  have share := liveSum_pos held rfl
  have total := @liveSum_erase (regionOf blob.ptr) blob store.live held
  rw [if_pos rfl] at total
  have bounded : liveSum (regionOf blob.ptr) store.live ≤ kRegionSize :=
    liveSum_le (ok.packed.sublist (sublist_append_left _ _)) fun j present =>
      ok.live_within present
  have small : kRegionSize < wordSize := by decide
  refine ⟨counted, ?_⟩
  rw [counted, fetchSub_of_le share (by omega)]
  omega

end Invariant

end Smash.CompressStore
