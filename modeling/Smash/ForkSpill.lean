import Smash.Recompress

/-! `resetForFork` in a forked child, as far as the spill file goes. The child has its own copies of
the pages' records and of the anonymous store, but the spill file's mapping is shared: what the
parent writes there, free-list nodes and new blobs, or punches out of it, the child sees. The
child walks its pages and copies each spilled blob into its anonymous store; the parent's calls
run between any two of its steps, also between two bytes of one blob. -/
namespace Smash.ForkSpill

open CompressStore Extents ByteMemory MachineWord SpillStore SpillMove Recompress Transition
open PageMachine (Tier)

section Code

inductive Phase where
  | scanning
  /-- In the copy of the page at hand, with the bytes read so far. -/
  | copying (bytes : List UInt8)
  | done
  deriving DecidableEq

structure World where
  /-- The parent's spill store; its memory is the mapping that both processes see. -/
  parent : Spill
  /-- The child's tables. `child.spill` is the inherited copy of the spill store's fields. -/
  child : Heap
  committed : Nat
  next : Nat
  phase : Phase

inductive Label where
  | parent (event : Event)
  /-- The child looks at its next page, or ends the loop and forgets the spill store. -/
  | look
  /-- One byte of the copy. -/
  | read
  /-- `store` has its copy and returns. -/
  | store (mmap : Option Nat) (spurious : Nat → Bool)

def forked (committed : Nat) (heap : Heap) : World where
  parent := heap.spill
  child := heap
  committed
  next := if heap.spillReady = true ∧ 0 < heap.spilledCount then 0 else committed
  phase := .scanning

def advance (world : World) : World := { world with next := world.next + 1, phase := .scanning }

def forget (world : World) : World :=
  { world with
    child := { world.child with spilledCount := 0, spillReady := false }
    phase := .done }

def look (world : World) : World :=
  if world.next < world.committed then
    let page := world.child.page world.next
    if page.tier ≠ .spilled then advance world
    else if page.info.data ≠ 0 ∧ contains world.child.spill page.info.data = true then
      { world with phase := .copying [] }
    else advance world
  else forget world

def repoint (world : World) (new : Blob) : Heap :=
  alter world.child world.next fun page =>
    { page with
      tier := .deep
      info := PageInfo.set new.ptr page.info.compressedSize new.allocSize page.info.algorithm }

def step (world : World) : Label → Option World
  | .parent event => (SpillStore.step world.parent event).map fun parent => { world with parent }
  | .look => if world.phase = .scanning then some (look world) else none
  | .read =>
    match world.phase with
    | .copying bytes =>
      let info := (world.child.page world.next).info
      if bytes.length < info.compressedSize then
        let position := info.data - world.child.spill.mapBase + bytes.length
        some { world with
          phase := .copying (bytes ++ [world.parent.store.memory position]) }
      else none
    | _ => none
  | .store mmap spurious =>
    match world.phase with
    | .copying bytes =>
      if bytes.length = (world.child.page world.next).info.compressedSize then
        match storeBlob world.child.anonymous bytes world.next mmap spurious with
        | none => none
        | some (_, none) => some (advance world)
        | some (anonymous, some new) =>
          some (advance { world with
            child := { repoint world new with
              anonymous := { anonymous with live := new :: anonymous.live } } })
      else none
    | _ => none

end Code

section Statement

def mapping (spill : Spill) : Extent := ⟨spill.mapBase, spill.numSlots * kRegionSize⟩

structure InSpill (heap : Heap) (idx : Nat) (blob : Blob) : Prop where
  held : blob ∈ heap.spill.store.live
  data : (heap.page idx).info.data = heap.spill.mapBase + blob.ptr
  size : (heap.page idx).info.compressedSize = blob.data.length

/-- The stores are as their runs leave them, in different parts of the address space, and every
record that points into the mapping is that of a committed page and names a blob there, the
size of a compressed page. -/
structure Consistent (committed : Nat) (heap : Heap) : Prop where
  anonymous : ∃ free, WellFormed heap.anonymous free
  spill : ∃ first, Valid first heap.spill
  mapped : heap.spill.mapBase ≠ 0
  apart : ∀ base ∈ bases heap.anonymous, Apart ⟨base, kRegionSize⟩ (mapping heap.spill)
  recorded : ∀ idx, contains heap.spill (heap.page idx).info.data = true →
    idx < committed ∧ ∃ blob, InSpill heap idx blob ∧
      blob.data.length ≤ kRegionSize - CompressStore.kDataStart

/-- What the loop's two tests look at: the tier and the number of spilled pages. -/
structure Tagged (heap : Heap) : Prop where
  tier : ∀ idx, contains heap.spill (heap.page idx).info.data = true →
    (heap.page idx).tier = .spilled
  counted : ∀ idx, contains heap.spill (heap.page idx).info.data = true →
    heap.spillReady = true ∧ 0 < heap.spilledCount

def Grants (world : World) (mmap : Option Nat) (spurious : Nat → Bool) : Prop :=
  match world.phase with
  | .copying bytes =>
    (storeBlob world.child.anonymous bytes world.next mmap spurious).all (·.2.isSome) = true
  | .scanning | .done => True

/-- The kernel maps new regions elsewhere, the parent's blobs are no larger than a region, and
the child's store does not fail. -/
def Answered (world : World) : Label → Prop
  | .parent event => Promised world.parent event
  | .look | .read => True
  | .store mmap spurious =>
    Fresh world.child.anonymous mmap ∧
      (∀ raw ∈ mmap, Apart ⟨raw, 2 * kRegionSize⟩ (mapping world.child.spill)) ∧
      Grants world mmap spurious

/-- The parent does not release a blob that a record of the child still names. -/
def Spares (world : World) : Label → Prop
  | .parent (.release blob _) => ∀ i < world.committed,
      (world.child.page i).info.data ≠ world.child.spill.mapBase + blob.ptr
  | _ => True

instance (world : World) (mmap : Option Nat) (spurious : Nat → Bool) :
    Decidable (Grants world mmap spurious) := by
  unfold Grants
  split <;> infer_instance

instance (world : World) (label : Label) : Decidable (Answered world label) := by
  cases label <;> unfold Answered <;> infer_instance

instance (world : World) (label : Label) : Decidable (Spares world label) := by
  unfold Spares
  split <;> infer_instance

/-- What the child's records and blobs are after `resetForFork`, against those at fork. -/
structure Recovered (heap : Heap) (child : Heap) : Prop where
  spilled : ∀ idx, contains heap.spill (heap.page idx).info.data = true →
    (child.page idx).info.compressedSize = (heap.page idx).info.compressedSize ∧
      (child.page idx).info.algorithm = (heap.page idx).info.algorithm ∧
      (child.page idx).tier = .deep ∧
      blobBytes child (child.page idx) = blobBytes heap (heap.page idx)
  unmapped : ∀ idx, contains heap.spill (child.page idx).info.data = false
  others : ∀ idx, contains heap.spill (heap.page idx).info.data = false →
    child.page idx = heap.page idx
  blobs : ∀ blob ∈ heap.anonymous.live, blob ∈ child.anonymous.live ∧
    readBytes child.anonymous.memory blob.ptr blob.data.length = blob.data

def Label.ofChild : Label → Bool
  | .parent _ => false
  | .look | .read | .store _ _ => true

/-- A bound on the steps the child still makes: a blob's size has 30 bits. -/
def stepsLeft (world : World) : Nat :=
  match world.phase with
  | .scanning => (world.committed + 1 - world.next) * 2 ^ 31
  | .copying bytes => (world.committed + 1 - world.next) * 2 ^ 31 - 1 - bytes.length
  | .done => 0

/-- Until it is done the child has a step, and each step of it leaves fewer. -/
structure Progresses (world : World) : Prop where
  enabled : world.phase ≠ .done → ∃ label, label.ofChild = true ∧ (step world label).isSome
  lowers : ∀ label next, label.ofChild = true → step world label = some next →
    stepsLeft next < stepsLeft world

end Statement

section Invariant

variable {committed : Nat} {heap : Heap} {world next : World} {idx : Nat} {blob : Blob}
variable {bytes : List UInt8} {event : Event} {first : Spill} {free : Nat → List Extent}
variable {label : Label} {mmap : Option Nat}

theorem step_keeps {first spill s' : Spill} (ok : Valid first spill)
    (moved : SpillStore.step spill event = some s') (held : blob ∈ spill.store.live)
    (kept : ∀ punched, event ≠ .release blob punched) : blob ∈ s'.store.live := by
  obtain ⟨free, sound⟩ := ok.sound
  cases event with
  | store data pageIdx =>
    unfold SpillStore.step at moved
    dsimp only at moved
    split at moved
    · cases moved
    · rcases searchShard_serves sound (shardOf pageIdx)
        (nodeSize_le_alignedSize data.length) with nothing | ⟨ans, found, serves⟩
      · rw [nothing] at moved
        cases moved
        exact held
      · rw [found] at moved
        cases moved
        obtain ⟨base, _, list, taken, _, _, allocated⟩ := serves
        apply List.mem_cons_of_mem
        rw [allocated.live]
        exact held
  | fetchAdd shard =>
    unfold SpillStore.step at moved
    dsimp only at moved
    split at moved <;> cases moved
    exact held
  | finish shard =>
    unfold SpillStore.step at moved
    dsimp only at moved
    split at moved
    · split at moved <;> cases moved
      · exact List.mem_cons_of_mem _ held
      · exact held
    · cases moved
  | release j punched =>
    unfold SpillStore.step at moved
    dsimp only at moved
    split at moved <;> cases moved
    refine (List.mem_erase_of_ne ?_).mpr held
    rintro rfl
    exact kept punched rfl

theorem InSpill.contains (named : InSpill heap idx blob) (ok : Valid first heap.spill) :
    SpillStore.contains heap.spill (heap.page idx).info.data = true := by
  obtain ⟨free, sound⟩ := ok.sound
  have inside := ok.blob_inside named.held
  have room := (sound.room blob named.held).1
  rw [named.data]
  simp only [SpillStore.contains, Bool.and_eq_true, decide_eq_true_eq]
  simp only [nodeSize] at room
  omega

theorem InSpill.unique {twin : Blob} (named : InSpill heap idx blob)
    (also : InSpill heap idx twin) (ok : Valid first heap.spill) : blob = twin := by
  obtain ⟨free, sound⟩ := ok.sound
  have same := named.data.symm.trans also.data
  exact live_ptr_unique sound named.held also.held (by omega)

theorem outside {store : Store} {spill : Spill} (sound : Sound CompressStore.kDataStart store free)
    (apart : ∀ base ∈ bases store, Apart ⟨base, kRegionSize⟩ (mapping spill))
    (held : blob ∈ store.live) : contains spill blob.ptr = false := by
  have away := apart _ (sound.home_base held)
  have within := sound.live_within held
  have room := (sound.room blob held).1
  rw [apart_iff] at away
  have sized : 0 < kRegionSize := by decide
  simp only [mapping, Within, slotOf, nodeSize] at away within room
  simp only [contains, Bool.and_eq_false_iff, decide_eq_false_iff_not]
  generalize spill.numSlots * kRegionSize = total at away ⊢
  omega

def Copied (heap child : Heap) (idx : Nat) (blob : Blob) : Prop :=
  ∃ new ∈ child.anonymous.live, new.data = blob.data ∧
    child.page idx =
      { heap.page idx with
        tier := .deep
        info := PageInfo.set new.ptr blob.data.length new.allocSize
          (heap.page idx).info.algorithm }

/-- The spilled pages behind the loop are copied. Those ahead are as at fork and the parent still
holds their blobs, so the bytes read so far are the blob's. -/
structure Going (committed : Nat) (heap : Heap) (world : World) : Prop where
  pages : world.committed = committed
  parent : Valid heap.spill world.parent
  spill : world.child.spill = heap.spill
  anonymous : ∃ free, Sound CompressStore.kDataStart world.child.anonymous free
  apart : ∀ base ∈ bases world.child.anonymous,
    Apart ⟨base, kRegionSize⟩ (mapping heap.spill)
  live : ∀ blob ∈ heap.anonymous.live, blob ∈ world.child.anonymous.live
  others : ∀ idx, contains heap.spill (heap.page idx).info.data = false →
    world.child.page idx = heap.page idx
  behind : ∀ idx blob, InSpill heap idx blob → idx < world.next →
    Copied heap world.child idx blob
  ahead : ∀ idx blob, InSpill heap idx blob → world.next ≤ idx →
    world.child.page idx = heap.page idx ∧ blob ∈ world.parent.store.live
  copying : ∀ bytes, world.phase = .copying bytes → ∃ blob, InSpill heap world.next blob ∧
    blob.data.length ≤ kRegionSize - CompressStore.kDataStart ∧ bytes <+: blob.data
  ended : world.phase = .done → committed ≤ world.next

theorem forked_going (consistent : Consistent committed heap) (tagged : Tagged heap) :
    Going committed heap (forked committed heap) where
  pages := rfl
  parent := by
    obtain ⟨first, ok⟩ := consistent.spill
    exact { ok with base := rfl, count := rfl }
  spill := rfl
  anonymous := consistent.anonymous.imp fun _ formed => wellFormed_iff_sound.mp formed
  apart := consistent.apart
  live := fun _ held => held
  others := fun _ _ => rfl
  behind := by
    intro idx blob named low
    obtain ⟨first, ok⟩ := consistent.spill
    -- With a spilled page the loop starts at page 0, so no page is behind it.
    have start := tagged.counted idx (named.contains ok)
    rw [forked, if_pos start] at low
    exact absurd low (Nat.not_lt_zero idx)
  ahead := fun _ _ named _ => ⟨rfl, named.held⟩
  copying := nofun
  ended := nofun

section

variable (going : Going committed heap world)
include going

theorem Going.parent_step {parent : Spill} (consistent : Consistent committed heap)
    (promised : Promised world.parent event) (spared : Spares world (.parent event))
    (moved : SpillStore.step world.parent event = some parent) :
    Going committed heap { world with parent } := by
  refine { going with parent := step_valid going.parent promised moved, ahead := ?_ }
  intro idx blob named later
  obtain ⟨page, held⟩ := going.ahead idx blob named later
  refine ⟨page, step_keeps going.parent moved held ?_⟩
  rintro punched rfl
  obtain ⟨first, ok⟩ := consistent.spill
  have below := (consistent.recorded idx (named.contains ok)).1
  -- The released blob would be the one this page's record names.
  apply spared idx (going.pages ▸ below)
  rw [page, going.spill, named.data]

theorem Going.advance
    (unneeded : ∀ blob, InSpill heap world.next blob → Copied heap world.child world.next blob) :
    Going committed heap (advance world) := by
  refine { going with behind := ?_, ahead := ?_, copying := nofun, ended := nofun }
  · intro idx blob named low
    rcases Nat.lt_succ_iff_lt_or_eq.mp low with earlier | rfl
    · exact going.behind idx blob named earlier
    · exact unneeded blob named
  · intro idx blob named later
    exact going.ahead idx blob named (Nat.le_of_succ_le later)

theorem Going.look (consistent : Consistent committed heap)
    (tagged : Tagged heap) : Going committed heap (look world) := by
  obtain ⟨first, ok⟩ := consistent.spill
  unfold ForkSpill.look
  split
  next below =>
    dsimp only
    split
    next tier =>
      apply going.advance
      intro blob named
      -- A spilled page has its tier, as at fork.
      rw [(going.ahead _ blob named (Nat.le_refl _)).1] at tier
      exact absurd (tagged.tier _ (named.contains ok)) tier
    next =>
      split
      next inside =>
        refine { going with copying := ?_, ended := nofun }
        intro bytes same
        cases same
        by_cases spilled : contains heap.spill (heap.page world.next).info.data = true
        · obtain ⟨-, blob, named, small⟩ := consistent.recorded _ spilled
          exact ⟨blob, named, small, List.nil_prefix⟩
        · have kept := going.others world.next (Bool.eq_false_of_not_eq_true spilled)
          rw [kept, going.spill] at inside
          exact absurd inside.2 spilled
      next outside =>
        apply going.advance
        intro blob named
        have here := named.contains ok
        rw [(going.ahead _ blob named (Nat.le_refl _)).1, going.spill] at outside
        refine absurd ⟨?_, here⟩ outside
        have mapped := consistent.mapped
        rw [named.data]
        omega
  next beyond =>
    refine { going with copying := nofun, ended := ?_ }
    intro
    rw [← going.pages]
    exact Nat.le_of_not_lt beyond

theorem Going.next_byte (named : InSpill heap world.next blob)
    (h : bytes <+: blob.data) (more : bytes.length < blob.data.length) :
    bytes ++ [world.parent.store.memory (blob.ptr + bytes.length)] <+: blob.data := by
  obtain ⟨free, sound⟩ := going.parent.sound
  have kept := sound.kept blob (going.ahead _ blob named (Nat.le_refl _)).2
  obtain ⟨rest, split⟩ := h
  cases rest with
  | nil =>
    rw [List.append_nil] at split
    rw [split] at more
    exact absurd more (Nat.lt_irrefl _)
  | cons byte rest =>
    have here : world.parent.store.memory (blob.ptr + bytes.length) = byte := by
      have read : (readBytes world.parent.store.memory blob.ptr blob.data.length)[bytes.length]? =
          blob.data[bytes.length]? := by rw [kept]
      simpa [readBytes, more, ← split] using read
    rw [here]
    exact ⟨rest, by simpa using split⟩

theorem Going.read (moved : step world .read = some next) : Going committed heap next := by
  unfold step at moved
  dsimp only at moved
  split at moved
  next bytes reading =>
    split at moved
    next more =>
      cases moved
      obtain ⟨blob, named, small, h⟩ := going.copying bytes reading
      obtain ⟨page, held⟩ := going.ahead _ blob named (Nat.le_refl _)
      refine { going with copying := ?_, ended := nofun }
      intro read same
      cases same
      rw [page, named.size] at more
      have position : (world.child.page world.next).info.data - world.child.spill.mapBase =
          blob.ptr := by
        rw [page, going.spill, named.data, Nat.add_sub_cancel_left]
      rw [position]
      exact ⟨blob, named, small, going.next_byte named h more⟩
    next => cases moved
  next => cases moved

theorem Going.copied (ok : Valid first heap.spill)
    {anonymous : Store} {new : Blob} (named : InSpill heap world.next blob)
    (bytes : new.data = blob.data) (live : anonymous.live = world.child.anonymous.live)
    (sound : Sound CompressStore.kDataStart { anonymous with live := new :: anonymous.live } free)
    (regions : FromMapped world.child.anonymous mmap anonymous)
    (elsewhere : ∀ raw ∈ mmap, Apart ⟨raw, 2 * kRegionSize⟩ (mapping world.child.spill)) :
    Going committed heap (ForkSpill.advance { world with
      child := { repoint world new with
        anonymous := { anonymous with live := new :: anonymous.live } } }) := by
  have kept : ∀ idx ≠ world.next, (repoint world new).page idx = world.child.page idx :=
    fun idx different => Function.update_of_ne different _ _
  refine
    { pages := going.pages, parent := going.parent, spill := going.spill, anonymous := ⟨free, sound⟩
      apart := ?_, live := ?_, others := ?_, behind := ?_, ahead := ?_, copying := nofun
      ended := nofun }
  · intro base mem
    rcases regions base mem with old | ⟨raw, mapped, rfl⟩
    · exact going.apart base old
    · -- The aligned region lies in the two that were mapped for it.
      rw [← going.spill]
      apply (elsewhere raw mapped).within _ ⟨Nat.le_refl _, Nat.le_refl _⟩
      simp only [Within, alignUp, kRegionSize]
      omega
  · intro old held
    apply List.mem_cons_of_mem
    rw [live]
    exact going.live old held
  · intro idx unspilled
    have different : idx ≠ world.next := by
      rintro rfl
      exact Bool.false_ne_true (unspilled.symm.trans (named.contains ok))
    rw [← going.others idx unspilled]
    exact kept idx different
  · intro idx j also low
    rcases Nat.lt_succ_iff_lt_or_eq.mp low with earlier | rfl
    · obtain ⟨copy, held, same, page⟩ := going.behind idx j also earlier
      refine ⟨copy, List.mem_cons_of_mem _ (live ▸ held), same, ?_⟩
      rw [← page]
      exact kept idx (Nat.ne_of_lt earlier)
    · obtain rfl := named.unique also ok
      refine ⟨new, List.mem_cons_self, bytes, ?_⟩
      have page := (going.ahead _ blob named (Nat.le_refl _)).1
      change (repoint world new).page world.next = _
      simp only [repoint, alter, Function.update_self, page, named.size]
  · intro idx j also later
    obtain ⟨page, held⟩ := going.ahead idx j also (Nat.le_of_succ_le later)
    exact ⟨(kept idx (Nat.ne_of_gt later)).trans page, held⟩

theorem Going.store (consistent : Consistent committed heap)
    {spurious : Nat → Bool} (answered : Answered world (.store mmap spurious))
    (moved : step world (.store mmap spurious) = some next) : Going committed heap next := by
  obtain ⟨fresh, elsewhere, granted⟩ := answered
  obtain ⟨first, ok⟩ := consistent.spill
  obtain ⟨free, sound⟩ := going.anonymous
  unfold step at moved
  dsimp only at moved
  split at moved
  next bytes reading =>
    split at moved
    next whole =>
      obtain ⟨blob, named, small, h⟩ := going.copying bytes reading
      have page := (going.ahead _ blob named (Nat.le_refl _)).1
      obtain rfl : bytes = blob.data := by
        apply h.eq_of_length
        rw [whole, page, named.size]
      rw [Grants, reading] at granted
      rcases @Sound.storeBlob _ free sound _ world.next mmap spurious fresh small with
        nothing | ⟨anonymous, new, stored, live, data, -, free', filled⟩
      · dsimp only at granted
        rw [nothing] at granted
        cases granted
      · rw [stored] at moved
        cases moved
        exact going.copied ok named data live filled (storeBlob_fromMapped stored) elsewhere
    next => cases moved
  next => cases moved

end

theorem step_going (consistent : Consistent committed heap) (tagged : Tagged heap)
    (going : Going committed heap world) (may : Answered world label ∧ Spares world label)
    (moved : step world label = some next) : Going committed heap next := by
  cases label with
  | parent event =>
    obtain ⟨parent, called, rfl⟩ := Option.map_eq_some_iff.mp moved
    exact going.parent_step consistent may.1 may.2 called
  | look =>
    unfold step at moved
    dsimp only at moved
    split at moved <;> cases moved
    exact going.look consistent tagged
  | read => exact going.read moved
  | store mmap spurious => exact going.store consistent may.1 moved

theorem Going.recovered (going : Going committed heap world)
    (consistent : Consistent committed heap) (tagged : Tagged heap)
    (ended : world.phase = .done) : Recovered heap world.child := by
  obtain ⟨first, ok⟩ := consistent.spill
  obtain ⟨free, sound⟩ := going.anonymous
  have copied : ∀ idx, contains heap.spill (heap.page idx).info.data = true →
      ∃ blob, InSpill heap idx blob ∧ Copied heap world.child idx blob := by
    intro idx spilled
    obtain ⟨below, blob, named, -⟩ := consistent.recorded idx spilled
    have passed := Nat.lt_of_lt_of_le below (going.ended ended)
    exact ⟨blob, named, going.behind idx blob named passed⟩
  constructor
  · intro idx spilled
    obtain ⟨blob, named, new, held, bytes, page⟩ := copied idx spilled
    have kept := sound.kept new held
    have size := (record_sizes sound held new.ptr (heap.page idx).info.algorithm).1
    rw [bytes] at size kept
    have pre := tagged.tier idx spilled
    obtain ⟨old, stored⟩ := ok.sound
    rw [page]
    refine ⟨size.trans named.size.symm, PageInfo.algorithm_set .., rfl, ?_⟩
    calc blobBytes world.child _
        = readBytes world.child.anonymous.memory new.ptr blob.data.length := by
          rw [blobBytes, if_neg (by simp), size]
          rfl
      _ = blob.data := kept
      _ = readBytes heap.spill.store.memory blob.ptr blob.data.length :=
          (stored.kept blob named.held).symm
      _ = blobBytes heap (heap.page idx) := by
          rw [blobBytes, if_pos pre, named.data, named.size, Nat.add_sub_cancel_left]
  · intro idx
    by_cases spilled : contains heap.spill (heap.page idx).info.data = true
    · obtain ⟨blob, named, new, held, bytes, page⟩ := copied idx spilled
      rw [page]
      exact outside sound going.apart held
    · have none := Bool.eq_false_of_not_eq_true spilled
      rw [going.others idx none]
      exact none
  · exact going.others
  · intro blob held
    have now := going.live blob held
    exact ⟨now, sound.kept blob now⟩

structure Placed (world : World) : Prop where
  bounded : world.next ≤ world.committed
  copying : ∀ bytes, world.phase = .copying bytes → world.next < world.committed ∧
    bytes.length ≤ (world.child.page world.next).info.compressedSize

theorem forked_placed (committed : Nat) (heap : Heap) : Placed (forked committed heap) := by
  refine ⟨?_, nofun⟩
  simp only [forked]
  split
  · exact Nat.zero_le committed
  · exact Nat.le_refl committed

theorem size_lt (info : PageInfo) : info.compressedSize < 2 ^ 30 := by
  unfold PageInfo.compressedSize
  rw [BitVec.toNat_and]
  exact Nat.lt_of_le_of_lt Nat.and_le_right (by decide)

theorem advance_left (placed : Placed world)
    (copying : world.phase = .copying bytes) : stepsLeft (advance world) < stepsLeft world := by
  obtain ⟨below, short⟩ := placed.copying bytes copying
  have size := size_lt (world.child.page world.next).info
  simp only [stepsLeft, ForkSpill.advance, copying]
  omega

theorem look_placed (placed : Placed world) (scanning : world.phase = .scanning) :
    Placed (look world) ∧ stepsLeft (look world) < stepsLeft world := by
  have bounded := placed.bounded
  have skips : world.next < world.committed →
      Placed (advance world) ∧ stepsLeft (advance world) < stepsLeft world := by
    intro below
    refine ⟨⟨below, nofun⟩, ?_⟩
    simp only [stepsLeft, ForkSpill.advance, scanning]
    omega
  unfold look
  split
  next below =>
    dsimp only
    split
    · exact skips below
    · split
      · refine ⟨⟨bounded, ?_⟩, ?_⟩
        · intro bytes same
          cases same
          exact ⟨below, Nat.zero_le _⟩
        · simp only [stepsLeft, scanning, List.length_nil]
          omega
      · exact skips below
  next =>
    refine ⟨⟨bounded, nofun⟩, ?_⟩
    simp only [stepsLeft, forget, scanning]
    omega

theorem child_step (placed : Placed world) (child : label.ofChild = true)
    (moved : step world label = some next) : Placed next ∧ stepsLeft next < stepsLeft world := by
  cases label with
  | parent event => cases child
  | look =>
    unfold step at moved
    dsimp only at moved
    split at moved <;> cases moved
    apply look_placed placed
    assumption
  | read =>
    unfold step at moved
    dsimp only at moved
    split at moved
    next bytes copying =>
      split at moved <;> cases moved
      next more =>
      obtain ⟨below, _⟩ := placed.copying bytes copying
      have size := size_lt (world.child.page world.next).info
      refine ⟨⟨placed.bounded, ?_⟩, ?_⟩
      · intro read same
        cases same
        rw [List.length_append, List.length_singleton]
        exact ⟨below, more⟩
      · simp only [stepsLeft, copying, List.length_append, List.length_singleton]
        omega
    next => cases moved
  | store mmap spurious =>
    unfold step at moved
    dsimp only at moved
    split at moved
    next bytes copying =>
      obtain ⟨below, _⟩ := placed.copying bytes copying
      -- The new record does not enter the count.
      have fewer : stepsLeft (advance world) < stepsLeft world := advance_left placed copying
      split at moved
      next => split at moved <;> cases moved <;> exact ⟨⟨below, nofun⟩, fewer⟩
      next => cases moved
    next => cases moved

theorem step_placed (placed : Placed world)
    (moved : step world label = some next) : Placed next := by
  cases label with
  | parent event =>
    obtain ⟨parent, _, rfl⟩ := Option.map_eq_some_iff.mp moved
    exact ⟨placed.bounded, placed.copying⟩
  | look => exact (child_step placed rfl moved).1
  | read => exact (child_step placed rfl moved).1
  | store mmap spurious => exact (child_step placed rfl moved).1

theorem Going.progresses (going : Going committed heap world) (placed : Placed world) :
    Progresses world where
  lowers := fun _ _ child moved => (child_step placed child moved).2
  enabled := by
    intro unfinished
    cases phase : world.phase with
    | scanning => exact ⟨.look, rfl, by simp [step, phase]⟩
    | done => exact absurd phase unfinished
    | copying bytes =>
      obtain ⟨blob, named, small, h⟩ := going.copying bytes phase
      have short := (placed.copying bytes phase).2
      rcases Nat.lt_or_eq_of_le short with more | whole
      · exact ⟨.read, rfl, by simp [step, phase, more]⟩
      · obtain ⟨free, sound⟩ := going.anonymous
        have fits := Nat.le_trans h.length_le small
        -- Even without a new region the call returns.
        refine ⟨.store none fun _ => false, rfl, ?_⟩
        rcases @Sound.storeBlob _ free sound bytes world.next none (fun _ => false) nofun
          fits with nothing | ⟨anonymous, new, stored, -⟩
        · simp [step, phase, whole, nothing]
        · simp [step, phase, whole, stored]

/-- In every run of the child's loop with the parent's calls in which the parent releases no blob
that the child still has to copy, the child comes out with all blobs. -/
theorem fork_copies_spilled_blobs {labels : List Label} (consistent : Consistent committed heap)
    (tagged : Tagged heap)
    (may : Along step (fun world label => Answered world label ∧ Spares world label)
      (forked committed heap) labels)
    (ran : exec step (forked committed heap) labels = some world) :
    (world.phase = .done → Recovered heap world.child) ∧ Progresses world := by
  have going : Going committed heap world :=
    invariant_of_along (fun going => step_going consistent tagged going)
      (forked_going consistent tagged) may ran
  have placed : Placed world := invariant step_placed (forked_placed committed heap) ran
  exact ⟨going.recovered consistent tagged, going.progresses placed⟩

end Invariant

section Examples

def forkSpill : Spill :=
  (exec SpillStore.step oddSpill [.store [1, 2, 3] 0, .fetchAdd 0, .finish 0]).getD oddSpill

def forkBlob : Blob := ⟨16, [1, 2, 3], 16, 0⟩

def forkHeap : Heap where
  page := fun i =>
    if i = 0 then
      ⟨.compressed, .spilled, 0, false, PageInfo.set (2 ^ 40 + 16) 3 16 .zstd⟩
    else ⟨.active, .none, 0, false, ⟨0, 0, 0⟩⟩
  anonymous := CompressStore.empty
  spill := forkSpill
  spillReady := true
  spilledCount := 1
  released := []

theorem forkSpill_valid : Valid oddSpill forkSpill := by
  have promised : Along SpillStore.step Promised oddSpill
      [.store [1, 2, 3] 0, .fetchAdd 0, .finish 0] := by decide +kernel
  have ends : (exec SpillStore.step oddSpill
      [.store [1, 2, 3] 0, .fetchAdd 0, .finish 0]).isSome := by decide +kernel
  obtain ⟨spill, ran⟩ := Option.isSome_iff_exists.mp ends
  have ok : Valid oddSpill spill :=
    invariant_of_along (fun h promised moved => step_valid h promised moved)
      (init_valid init_oddSpill).2.2 promised ran
  rw [forkSpill, ran]
  exact ok

theorem forkHeap_spilled {i : Nat}
    (spilled : contains forkHeap.spill (forkHeap.page i).info.data = true) : i = 0 := by
  by_contra j
  have nowhere : contains forkHeap.spill 0 = false := by decide +kernel
  simp only [forkHeap, if_neg j] at spilled
  exact Bool.false_ne_true (nowhere.symm.trans spilled)

theorem forkHeap_consistent : Consistent 1 forkHeap where
  anonymous := ⟨_, empty_wellFormed⟩
  spill := ⟨_, forkSpill_valid⟩
  mapped := by decide +kernel
  apart := by decide +kernel
  recorded := by
    intro i spilled
    obtain rfl := forkHeap_spilled spilled
    exact ⟨Nat.one_pos, forkBlob, ⟨by decide +kernel, by decide +kernel, by decide +kernel⟩,
      by decide +kernel⟩

theorem forkHeap_tagged : Tagged forkHeap where
  tier := by
    intro i spilled
    obtain rfl := forkHeap_spilled spilled
    rfl
  counted := fun _ _ => ⟨rfl, Nat.one_pos⟩

/-- The parent stores another blob during the copy, and releases the first when it is copied. -/
def patientLabels : List Label :=
  [.look, .read, .parent (.store [7] 8), .read, .read, .store (some (2 ^ 41)) fun _ => false,
    .parent (.release forkBlob false), .look]

theorem fork_copies_patient : ∃ world, exec step (forked 1 forkHeap) patientLabels = some world ∧
      Recovered forkHeap world.child := by
  have may : Along step (fun world label => Answered world label ∧ Spares world label)
      (forked 1 forkHeap) patientLabels := by decide +kernel
  have shown : (exec step (forked 1 forkHeap) patientLabels).map (·.phase) = some .done := by
    decide +kernel
  obtain ⟨world, ran, ended⟩ := Option.map_eq_some_iff.mp shown
  have outcome := fork_copies_spilled_blobs forkHeap_consistent forkHeap_tagged may ran
  exact ⟨world, ran, outcome.1 ended⟩

/-- The parent stores another blob in the region, so that the release of the first writes a
free-list node over it. -/
def hastyLabels : List Label :=
  [.parent (.store [7] 8), .parent (.release forkBlob false), .look, .read, .read, .read,
    .store (some (2 ^ 41)) fun _ => false, .look]

/-- A fault in the parent releases the blob before the child has copied it, and the child's page
is left with the free-list node's bytes. -/
theorem fork_copies_free_node : Consistent 1 forkHeap ∧ Tagged forkHeap ∧
      Along step Answered (forked 1 forkHeap) hastyLabels ∧
      ∃ world, exec step (forked 1 forkHeap) hastyLabels = some world ∧ world.phase = .done ∧
        blobBytes forkHeap (forkHeap.page 0) = [1, 2, 3] ∧
        blobBytes world.child (world.child.page 0) = [16, 0, 0] ∧
        ¬ Recovered forkHeap world.child := by
  have answered : Along step Answered (forked 1 forkHeap) hastyLabels := by decide +kernel
  have pre : blobBytes forkHeap (forkHeap.page 0) = [1, 2, 3] := by decide +kernel
  have shown : (exec step (forked 1 forkHeap) hastyLabels).map
      (fun world => (world.phase, blobBytes world.child (world.child.page 0))) =
        some (.done, [16, 0, 0]) := by decide +kernel
  obtain ⟨world, ran, same⟩ := Option.map_eq_some_iff.mp shown
  obtain ⟨ended, bytes⟩ := Prod.mk.inj same
  refine ⟨forkHeap_consistent, forkHeap_tagged, answered, world, ran, ended, pre, bytes, ?_⟩
  intro recovered
  have kept := (recovered.spilled 0 (by decide +kernel)).2.2.2
  rw [pre, bytes] at kept
  exact absurd kept (by decide)

end Examples

end Smash.ForkSpill
