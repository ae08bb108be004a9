import Smash.SpillMove

/-! The tier upgrade of a compressed page: `recompressPage` decompresses the page's blob, compresses
it with a stronger algorithm and replaces the blob if that saves a fifth. Two blobs of the page
exist between the new blob's `store` and the old one's `release`; every way out has to leave
one. -/
namespace Smash.Recompress

open CompressStore Extents ByteMemory MachineWord SpillStore SpillMove List
open PageMachine (CompressAlgo PageState Tier)

/-- The compression calls for one page: what `compress` returns when it is not 0, and the page that
`decompress` yields when it is a whole one. -/
structure Codec where
  compress : CompressAlgo → List UInt8 → Option (List UInt8)
  decompress : CompressAlgo → List UInt8 → Option (List UInt8)
  inverts : ∀ algo contents data, compress algo contents = some data →
    decompress algo data = some contents

/-- What the anonymous store's calls meet: a new mapping for a region, spurious failures of the
compare-exchange, and the contents of dropped pages. -/
structure Kernel where
  pageSize : Nat
  mmap : Option Nat
  spurious : Nat → Bool
  refill : Memory

section Code

def alter (heap : Heap) (i : Nat) (change : Page → Page) : Heap :=
  { heap with page := Function.update heap.page i (change (heap.page i)) }

def setState (heap : Heap) (i : Nat) (s : PageState) : Heap :=
  alter heap i fun page => { page with state := s }

def setTier (heap : Heap) (i : Nat) (tier : Tier) : Heap :=
  alter heap i fun page => { page with tier }

def setLocked (heap : Heap) (i : Nat) (locked : Bool) : Heap :=
  alter heap i fun page => { page with locked }

/-- The bytes a page's record points to, in the store that its tier names. -/
def blobBytes (heap : Heap) (page : Page) : List UInt8 :=
  if page.tier = .spilled then
    readBytes heap.spill.store.memory (page.info.data - heap.spill.mapBase)
      page.info.compressedSize
  else readBytes heap.anonymous.memory page.info.data page.info.compressedSize

structure NewBlob where
  data : Nat
  allocSize : Nat
  spilled : Bool

/-- The spill store is tried first, then the anonymous one. -/
def storeNew (settings : Settings) (k : Kernel) (heap : Heap) (i : Nat)
    (data : List UInt8) : Option (Heap × Option NewBlob) :=
  let spilling :=
    if settings.spill && heap.spillReady then storeNow heap.spill data i
    else some (heap.spill, none)
  match spilling with
  | none => none
  | some (spill, some new) =>
    some ({ heap with spill }, some ⟨spill.mapBase + new.ptr, new.allocSize, true⟩)
  | some (spill, none) =>
    match storeBlob heap.anonymous data i k.mmap k.spurious with
    | none => none
    | some (anonymous, none) => some ({ heap with spill, anonymous }, none)
    | some (anonymous, some new) =>
      some ({ heap with
          spill
          anonymous := { anonymous with live := new :: anonymous.live } },
        some ⟨new.ptr, new.allocSize, false⟩)

def publish (heap : Heap) (i : Nat) (new : NewBlob) (size : Nat) (target : CompressAlgo) : Heap :=
  let recorded := alter heap i fun page =>
    { page with
      info := PageInfo.set new.data size new.allocSize target
      tier := if new.spilled then .spilled else .deep }
  if new.spilled then { recorded with spilledCount := fetchAdd heap.spilledCount 1 } else recorded

/-- Whether the page was upgraded, and what is left; nothing when the call waits for the page's
lock. -/
def recompressPage (codec : Codec) (settings : Settings) (k : Kernel) (heap : Heap)
    (i : Nat) (target : CompressAlgo) : Option (Bool × Heap) :=
  let page := heap.page i
  if page.locked then none
  else
    let heap := setLocked heap i true
    if page.state ≠ .compressed then some (false, setLocked heap i false)
    else
      let oldData := page.info.data
      let oldSize := page.info.compressedSize
      if oldData = 0 then some (false, setLocked (setTier heap i .deep) i false)
      else if page.info.algorithm = target ∧ target ≠ .zstdDict then
        some (false, setLocked (setTier heap i .deep) i false)
      else
        let heap := setState heap i .compressing
        match codec.decompress page.info.algorithm (blobBytes heap page) with
        | none => some (false, setLocked (setState heap i .compressed) i false)
        | some contents =>
          let data := (codec.compress target contents).getD []
          if data.length = 0 ∨ oldSize * 4 / 5 < data.length then
            let heap := setTier (setState heap i .compressed) i .fastTried
            some (false, setLocked heap i false)
          else
            match storeNew settings k heap i data with
            | none => none
            | some (heap, none) =>
              some (false, setLocked (setState heap i .compressed) i false)
            | some (heap, some new) =>
              let heap := publish heap i new data.length target
              let heap := setLocked (setState heap i .compressed) i false
              some (true, releaseOld heap i oldData page.info.allocSize.toNat
                k.pageSize k.refill)

end Code

section Blobs

def pageBlobs (heap : Heap) (i : Nat) : List Blob :=
  (heap.anonymous.live ++ heap.spill.store.live).filter fun blob => blob.pageIdx == i

structure Records (heap : Heap) (idx : Nat) (blob : Blob) : Prop where
  size : (heap.page idx).info.compressedSize = blob.data.length
  alloc : (heap.page idx).info.allocSize.toNat = blob.allocSize
  bytes : blobBytes heap (heap.page idx) = blob.data
  place : if (heap.page idx).tier = .spilled then
      blob ∈ heap.spill.store.live ∧ (heap.page idx).info.data = heap.spill.mapBase + blob.ptr
    else blob ∈ heap.anonymous.live ∧ (heap.page idx).info.data = blob.ptr

/-- Both stores as their runs leave them, with nobody at work in the page's spill shard. -/
structure Formed (settings : Settings) (heap : Heap) (idx : Nat) : Prop where
  anonymous : ∃ free, WellFormed heap.anonymous free
  spill : settings.spill = true → heap.spillReady = true →
    (∃ first, Valid first heap.spill) ∧ heap.spill.pending (shardOf idx) = none

/-- What a call leaves: the page compressed and unlocked with one blob that its record names and
that decompresses to what the old one did. -/
structure Left (codec : Codec) (heap after : Heap) (idx : Nat) (blob : Blob) : Prop where
  state : (after.page idx).state = .compressed
  unlocked : (after.page idx).locked = false
  only : pageBlobs after idx = [blob]
  records : Records after idx blob
  contents : codec.decompress (after.page idx).info.algorithm blob.data =
    codec.decompress (heap.page idx).info.algorithm (blobBytes heap (heap.page idx))
  others : ∀ other ≠ idx, after.page other = heap.page other

end Blobs

section Storing

variable {settings : Settings} {k : Kernel} {heap after : Heap} {idx : Nat} {data : List UInt8}

inductive Stored (anonymous spill : Store) (after : Heap) (idx : Nat) (data : List UInt8) :
    Option NewBlob → Prop where
  | nowhere (anonymously : after.anonymous = anonymous) (spilling : after.spill.store = spill) :
      Stored anonymous spill after idx data none
  | spilled (blob : Blob) (bytes : blob.data = data) (mine : blob.pageIdx = idx)
      (anonymously : after.anonymous = anonymous)
      (live : after.spill.store.live = blob :: spill.live)
      (valid : ∃ first, Valid first after.spill) :
      Stored anonymous spill after idx data
        (some ⟨after.spill.mapBase + blob.ptr, blob.allocSize, true⟩)
  | anonymous (blob : Blob) (bytes : blob.data = data) (mine : blob.pageIdx = idx)
      (spilling : after.spill.store = spill)
      (live : after.anonymous.live = blob :: anonymous.live)
      (sound : ∃ free, Sound CompressStore.kDataStart after.anonymous free) :
      Stored anonymous spill after idx data (some ⟨blob.ptr, blob.allocSize, false⟩)

theorem storeNew_spec (formed : Formed settings heap idx) (fresh : Fresh heap.anonymous k.mmap)
    (small : data.length ≤ kRegionSize - CompressStore.kDataStart) :
    ∃ after r, storeNew settings k heap idx data = some (after, r) ∧
      after.page = heap.page ∧ after.released = heap.released ∧
      Stored heap.anonymous heap.spill.store after idx data r := by
  obtain ⟨free, wellFormed⟩ := formed.anonymous
  have sound := wellFormed_iff_sound.mp wellFormed
  -- What the anonymous store does once the spill store has returned nothing.
  have fallback : ∀ spill : Spill, spill.store = heap.spill.store →
      (if settings.spill && heap.spillReady then storeNow heap.spill data idx
        else some (heap.spill, none)) = some (spill, none) →
      ∃ after r, storeNew settings k heap idx data = some (after, r) ∧
        after.page = heap.page ∧ after.released = heap.released ∧
        Stored heap.anonymous heap.spill.store after idx data r := by
    intro spill same missed
    rw [storeNew, missed]
    dsimp only
    rcases @Sound.storeBlob _ _ sound data idx k.mmap k.spurious fresh small with
      nothing | ⟨next, blob, stored, live, bytes, mine, placed⟩
    · rw [nothing]
      exact ⟨_, _, rfl, rfl, rfl, .nowhere rfl same⟩
    · rw [stored]
      refine ⟨_, _, rfl, rfl, rfl, .anonymous blob bytes mine same ?_ placed⟩
      exact congrArg (List.cons blob) live
  by_cases spilling : settings.spill && heap.spillReady
  · obtain ⟨on, ready⟩ := Bool.and_eq_true_iff.mp spilling
    obtain ⟨⟨first, ok⟩, idle⟩ := formed.spill on ready
    have fits : data.length ≤ kRegionSize - SpillStore.kDataStart := by
      simp only [kRegionSize, CompressStore.kDataStart, SpillStore.kDataStart] at small ⊢
      omega
    obtain ⟨next, stored, called, kept, -, outcome⟩ := ok.storeNow_cases idle fits
    rcases outcome with ⟨rfl, same⟩ | ⟨blob, rfl, live, bytes, mine⟩
    · apply fallback next same
      rw [if_pos spilling, called]
    · refine ⟨{ heap with spill := next }, some ⟨next.mapBase + blob.ptr, blob.allocSize, true⟩,
        ?_, rfl, rfl, .spilled blob bytes mine rfl live ⟨first, kept⟩⟩
      rw [storeNew, if_pos spilling, called]
  · apply fallback heap.spill rfl
    rw [if_neg spilling]

end Storing

section Pages

variable {codec : Codec} {settings : Settings} {k : Kernel} {heap s' : Heap} {idx : Nat}
  {old : Blob}
variable {blob : Blob} {dataStart : Nat} {free : Nat → List Extent} {store : Store}

/-- The page is compressed and unlocked, and its only blob is in the anonymous store. -/
structure Starts (settings : Settings) (heap : Heap) (idx : Nat) (old : Blob) : Prop where
  state : (heap.page idx).state = .compressed
  unlocked : (heap.page idx).locked = false
  resident : (heap.page idx).tier ≠ .spilled
  holds : Holds heap idx old
  only : pageBlobs heap idx = [old]
  formed : Formed settings heap idx

theorem Starts.bytes (starts : Starts settings heap idx old) :
    blobBytes heap (heap.page idx) = old.data := by
  obtain ⟨free, wellFormed⟩ := starts.formed.anonymous
  rw [blobBytes, if_neg starts.resident, starts.holds.data, starts.holds.size]
  exact wellFormed.kept old starts.holds.held

/-- The ways out that keep the old blob: only the state, the lock and the tier of the page's entry
may have changed. -/
theorem Starts.kept (starts : Starts settings heap idx old)
    (s : (s'.page idx).state = .compressed) (unlocked : (s'.page idx).locked = false)
    (resident : (s'.page idx).tier ≠ .spilled)
    (info : (s'.page idx).info = (heap.page idx).info)
    (others : ∀ j ≠ idx, s'.page j = heap.page j)
    (anonymous : s'.anonymous = heap.anonymous) (spill : s'.spill.store = heap.spill.store) :
    Left codec heap s' idx old := by
  have bytes : blobBytes s' (s'.page idx) = old.data := by
    rw [← starts.bytes, blobBytes, blobBytes, if_neg resident, if_neg starts.resident, info,
      anonymous]
  constructor
  · exact s
  · exact unlocked
  · rw [pageBlobs, anonymous, spill]
    exact starts.only
  · constructor
    · rw [info]
      exact starts.holds.size
    · rw [info]
      exact starts.holds.alloc
    · exact bytes
    · rw [if_neg resident, info, anonymous]
      exact ⟨starts.holds.held, starts.holds.data⟩
  · rw [info, starts.bytes]
  · exact others

def upgraded (heap : Heap) (idx : Nat) (new : NewBlob) (size : Nat) (target : CompressAlgo) :
    Heap :=
  setLocked (setState (publish heap idx new size target) idx .compressed) idx false

theorem upgraded_page (new : NewBlob) (size : Nat) (target : CompressAlgo) :
    (upgraded heap idx new size target).page idx =
      { heap.page idx with
        state := .compressed
        tier := if new.spilled then .spilled else .deep
        locked := false
        info := PageInfo.set new.data size new.allocSize target } := by
  cases spilled : new.spilled <;>
    simp [upgraded, setLocked, setState, publish, alter, spilled]

theorem upgraded_other (new : NewBlob) (size : Nat) (target : CompressAlgo) {j : Nat}
    (apart : j ≠ idx) : (upgraded heap idx new size target).page j = heap.page j := by
  cases spilled : new.spilled <;>
    simp [upgraded, setLocked, setState, publish, alter, spilled, apart]

@[simp] theorem upgraded_anonymous (new : NewBlob) (size : Nat) (target : CompressAlgo) :
    (upgraded heap idx new size target).anonymous = heap.anonymous := by
  cases spilled : new.spilled <;> simp [upgraded, setLocked, setState, publish, alter, spilled]

@[simp] theorem upgraded_spill (new : NewBlob) (size : Nat) (target : CompressAlgo) :
    (upgraded heap idx new size target).spill = heap.spill := by
  cases spilled : new.spilled <;> simp [upgraded, setLocked, setState, publish, alter, spilled]

@[simp] theorem upgraded_released (new : NewBlob) (size : Nat) (target : CompressAlgo) :
    (upgraded heap idx new size target).released = heap.released := by
  cases spilled : new.spilled <;> simp [upgraded, setLocked, setState, publish, alter, spilled]

theorem alloc_narrow (sound : Sound dataStart store free) (held : blob ∈ store.live) :
    blob.allocSize < 2 ^ 32 := by
  have inside := sound.live_within held
  simp only [Within, slotOf, kRegionSize] at inside
  omega

theorem record_sizes (sound : Sound dataStart store free) (held : blob ∈ store.live) (data : Nat)
    (target : CompressAlgo) :
    (PageInfo.set data blob.data.length blob.allocSize target).compressedSize = blob.data.length ∧
      (PageInfo.set data blob.data.length blob.allocSize target).allocSize.toNat =
        blob.allocSize := by
  have narrow := alloc_narrow sound held
  have room := (sound.room blob held).2
  have inside := sound.live_within held
  constructor
  · apply PageInfo.compressedSize_set
    simp only [Within, slotOf, kRegionSize] at inside
    omega
  · simp only [PageInfo.set, BitVec.toNat_ofNat]
    exact Nat.mod_eq_of_lt narrow

theorem new_ne {live : List Blob} (sound : Sound dataStart store free)
    (listed : store.live = blob :: live) (held : old ∈ live) : blob ≠ old := by
  rintro rfl
  have packed : Packed (liveSlots store) := sound.packed.sublist (sublist_append_left _ _)
  rw [liveSlots, listed, map_cons] at packed
  have apart := (packed_cons.mp packed).1 (slotOf blob) (mem_map_of_mem held)
  have room := (sound.room blob (listed ▸ mem_cons_self)).1
  rw [apart_iff] at apart
  simp only [slotOf, nodeSize] at apart room
  omega

theorem Starts.split (starts : Starts settings heap idx old) :
    (heap.anonymous.live.filter fun blob => blob.pageIdx == idx) = [old] ∧
      (heap.spill.store.live.filter fun blob => blob.pageIdx == idx) = [] := by
  have only := starts.only
  rw [pageBlobs, filter_append] at only
  have mem : old ∈ heap.anonymous.live.filter fun blob => blob.pageIdx == idx :=
    mem_filter.mpr ⟨starts.holds.held, by simp [starts.holds.mine]⟩
  obtain ⟨first, rest, anonymous⟩ := exists_cons_of_ne_nil (ne_nil_of_mem mem)
  rw [anonymous, cons_append, List.cons.injEq, append_eq_nil_iff] at only
  obtain ⟨rfl, rfl, spill⟩ := only
  exact ⟨anonymous, spill⟩

end Pages

section Upgrade

variable {codec : Codec} {settings : Settings} {k : Kernel} {heap stored : Heap}
  {i : Nat} {old : Blob} {data contents : List UInt8} {target : CompressAlgo}

theorem Starts.replaced (starts : Starts settings heap i old) {new : NewBlob}
    (outcome : Stored heap.anonymous heap.spill.store stored i data (some new))
    (pages : ∀ j ≠ i, stored.page j = heap.page j)
    (decoded : codec.decompress (heap.page i).info.algorithm
      (blobBytes heap (heap.page i)) = some contents)
    (encoded : codec.compress target contents = some data) : ∃ blob, blob.data = data ∧
      Left codec heap (releaseOld (upgraded stored i new data.length target) i old.ptr old.allocSize
          k.pageSize k.refill) i blob := by
  have inverse := codec.inverts target contents data encoded
  obtain ⟨mineAlone, noneSpilled⟩ := starts.split
  obtain ⟨free, wellFormed⟩ := starts.formed.anonymous
  have pre := wellFormed_iff_sound.mp wellFormed
  have held := starts.holds.held
  have others : ∀ j ≠ i, (upgraded stored i new data.length target).page j = heap.page j :=
    fun j apart => (upgraded_other new data.length target apart).trans (pages j apart)
  have page := @upgraded_page stored i new data.length target
  generalize later : upgraded stored i new data.length target = final at *
  have anonymousAfter : final.anonymous = stored.anonymous := later ▸ upgraded_anonymous ..
  have spillAfter : final.spill = stored.spill := later ▸ upgraded_spill ..
  clear later
  have finish : ∀ blob : Blob, blob.data = data →
      pageBlobs (releaseOld final i old.ptr old.allocSize k.pageSize k.refill) i =
        [blob] →
      Records (releaseOld final i old.ptr old.allocSize k.pageSize k.refill) i
        blob →
      Left codec heap
        (releaseOld final i old.ptr old.allocSize k.pageSize k.refill) i blob := by
    intro blob bytes only records
    constructor
    · simp only [releaseOld, page]
    · simp only [releaseOld, page]
    · exact only
    · exact records
    · simp only [releaseOld, page, PageInfo.algorithm_set]
      rw [bytes, inverse, decoded]
    · exact others
  cases outcome with
  | spilled blob bytes mine anonymous live ok =>
    obtain ⟨first, ok⟩ := ok
    obtain ⟨spillFree, sound⟩ := ok.sound
    have listed : blob ∈ stored.spill.store.live := live ▸ mem_cons_self
    rw [← bytes] at page
    obtain ⟨size, alloc⟩ := record_sizes sound listed (stored.spill.mapBase + blob.ptr) target
    refine ⟨blob, bytes, finish blob bytes ?_ ?_⟩
    · simp only [pageBlobs, releaseOld, anonymousAfter, anonymous, spillAfter, live,
        eraseP_ptr pre held, filter_append, ← erase_filter, mineAlone]
      simp [mine, noneSpilled]
    · constructor
      · simpa only [releaseOld, page] using size
      · simpa only [releaseOld, page] using alloc
      · simp only [blobBytes, releaseOld, page, if_true, size, spillAfter]
        simp only [PageInfo.set, Nat.add_sub_cancel_left]
        exact sound.kept blob listed
      · simp only [releaseOld, page, if_true, spillAfter]
        exact ⟨listed, rfl⟩
  | anonymous blob bytes mine spill live sound =>
    obtain ⟨free', sound⟩ := sound
    have oldHeld : old ∈ stored.anonymous.live := live ▸ mem_cons_of_mem blob held
    have different : blob ≠ old := new_ne sound live held
    have erased : stored.anonymous.live.eraseP (fun j => j.ptr == old.ptr) =
        blob :: heap.anonymous.live.erase old := by
      rw [eraseP_ptr sound oldHeld, live, erase_cons_tail (by simpa using different)]
    obtain ⟨left, released⟩ := @Sound.release _ free' sound old k.pageSize k.refill oldHeld
    rw [← eraseP_ptr sound oldHeld, erased] at released
    have listed : blob ∈ stored.anonymous.live := live ▸ mem_cons_self
    rw [← bytes] at page
    obtain ⟨size, alloc⟩ := record_sizes sound listed blob.ptr target
    refine ⟨blob, bytes, finish blob bytes ?_ ?_⟩
    · simp only [pageBlobs, releaseOld, anonymousAfter, erased, spillAfter, spill,
        cons_append, filter_cons, filter_append, ← erase_filter, mineAlone,
        noneSpilled]
      simp [mine]
    · constructor
      · simpa only [releaseOld, page] using size
      · simpa only [releaseOld, page] using alloc
      · simp only [blobBytes, releaseOld, page, size, anonymousAfter]
        exact released.kept blob mem_cons_self
      · simp only [releaseOld, page, anonymousAfter, erased]
        exact ⟨mem_cons_self, rfl⟩

/-- The call has ended and left the page with one blob. If that is a new one, the old blob was
released once and the new one has at most four fifths of its size; else nothing was released. -/
def Settles (codec : Codec) (heap : Heap) (i : Nat) (old : Blob)
    (r : Option (Bool × Heap)) : Prop :=
  ∃ replaced s' blob, r = some (replaced, s') ∧ Left codec heap s' i blob ∧
    (replaced = false → blob = old ∧ s'.released = heap.released) ∧
    (replaced = true →
      s'.released = heap.released ++ [(old.ptr, old.allocSize, i)] ∧
      blob.data.length * 5 ≤ old.data.length * 4)

theorem Starts.settles (starts : Starts settings heap i old) {page : Page} {s' : Heap}
    (entry : s'.page = Function.update heap.page i page)
    (anonymous : s'.anonymous = heap.anonymous)
    (spill : s'.spill.store = heap.spill.store) (released : s'.released = heap.released)
    (s : page.state = .compressed) (unlocked : page.locked = false)
    (resident : page.tier ≠ .spilled) (info : page.info = (heap.page i).info) :
    Settles codec heap i old (some (false, s')) := by
  have here : s'.page i = page := by
    rw [entry, Function.update_self]
  refine ⟨false, s', old, rfl, ?_, fun _ => ⟨rfl, released⟩, nofun⟩
  apply starts.kept
  · exact here ▸ s
  · exact here ▸ unlocked
  · exact here ▸ resident
  · exact here ▸ info
  · intro j apart
    rw [entry, Function.update_of_ne apart]
  · exact anonymous
  · exact spill

theorem alter_alter (first second : Page → Page) : alter (alter heap i first) i second =
      alter heap i fun page => second (first page) := by
  simp [alter]

/-- The call leaves the page compressed and unlocked with one blob of the same contents, whatever
the codec, the spill store and the anonymous store answer. -/
theorem recompress_keeps_contents (codec : Codec) (settings : Settings) (k : Kernel)
    (heap : Heap) (i : Nat) (old : Blob) (target : CompressAlgo)
    (starts : Starts settings heap i old) (fresh : Fresh heap.anonymous k.mmap) :
    Settles codec heap i old (recompressPage codec settings k heap i target) := by
  obtain ⟨free, wellFormed⟩ := starts.formed.anonymous
  obtain ⟨nonnull, small⟩ := blob_small (wellFormed_iff_sound.mp wellFormed) (by decide)
    starts.holds.held
  have unlocked := starts.unlocked
  have resident := starts.resident
  have present : ¬ (heap.page i).info.data = 0 := by
    rw [starts.holds.data]
    exact nonnull
  have bytes : blobBytes (setState (setLocked heap i true) i .compressing)
      (heap.page i) = blobBytes heap (heap.page i) := rfl
  rw [recompressPage]
  dsimp only
  rw [if_neg (by simp [unlocked]), if_neg (by simp [starts.state]), if_neg present]
  by_cases reached : (heap.page i).info.algorithm = target ∧ target ≠ .zstdDict
  · rw [if_pos reached]
    simp only [setLocked, setTier, alter_alter]
    exact starts.settles rfl rfl rfl rfl starts.state rfl (by simp) rfl
  rw [if_neg reached, bytes]
  cases decoded : codec.decompress (heap.page i).info.algorithm
      (blobBytes heap (heap.page i)) with
  | none =>
    simp only [setLocked, setState, alter_alter]
    exact starts.settles rfl rfl rfl rfl rfl rfl resident rfl
  | some contents =>
    dsimp only
    by_cases gate : ((codec.compress target contents).getD []).length = 0 ∨
        (heap.page i).info.compressedSize * 4 / 5 <
          ((codec.compress target contents).getD []).length
    · rw [if_pos gate]
      simp only [setLocked, setState, setTier, alter_alter]
      exact starts.settles rfl rfl rfl rfl rfl rfl (by simp) rfl
    rw [if_neg gate]
    -- Past the gate the codec has returned something.
    obtain ⟨some, within⟩ := not_or.mp gate
    obtain ⟨data, encoded⟩ : ∃ data, codec.compress target contents = Option.some data := by
      cases encoded : codec.compress target contents with
      | none => simp [encoded] at some
      | some data => exact ⟨data, rfl⟩
    rw [encoded, Option.getD_some] at within ⊢
    rw [starts.holds.size] at within
    have fits : data.length ≤ kRegionSize - CompressStore.kDataStart := by
      simp only [kRegionSize, CompressStore.kDataStart, SpillStore.kDataStart] at small ⊢
      omega
    obtain ⟨stored, r, called, pages, released, outcome⟩ := @storeNew_spec settings k
        (setState (setLocked heap i true) i .compressing) i data
        ⟨starts.formed.anonymous, starts.formed.spill⟩ fresh fits
    rw [called]
    cases r with
    | none =>
      dsimp only
      cases outcome with
      | nowhere anonymous spill =>
        have entry : (setLocked (setState stored i .compressed) i false).page =
            Function.update heap.page i
              { heap.page i with state := .compressed, locked := false } := by
          simp [setLocked, setState, alter, pages]
        exact starts.settles entry anonymous spill released rfl rfl resident rfl
    | some new =>
      dsimp only
      rw [starts.holds.data, starts.holds.alloc]
      have others : ∀ j ≠ i, stored.page j = heap.page j := by
        intro j apart
        rw [pages]
        simp [setLocked, setState, alter, apart]
      obtain ⟨blob, same, left⟩ := starts.replaced outcome others decoded encoded
      refine ⟨true, _, blob, rfl, left, (by simp), fun _ => ⟨?_, ?_⟩⟩
      · have logged : (upgraded stored i new data.length target).released =
            heap.released := (upgraded_released ..).trans released
        exact congrArg (· ++ [(old.ptr, old.allocSize, i)]) logged
      · rw [same]
        omega

end Upgrade

def onePageCodec : Codec where
  compress := fun algo contents => if algo = .zstd ∧ contents = [5] then some [9, 9] else none
  decompress := fun algo data =>
    if algo = .zstd ∧ data = [9, 9] ∨ algo = .lz4 ∧ data = [1, 2, 3] then some [5] else none
  inverts := by
    intro algo contents data encoded
    split at encoded
    next h =>
      cases encoded
      rw [if_pos (.inl ⟨h.1, rfl⟩), h.2]
    next => cases encoded

/-- A cold page in the fast tier is upgraded into the spill file. -/
theorem recompress_keeps_contents_cold :
    let settings : Settings := ⟨true, 20, true⟩
    let k : Kernel := ⟨4096, none, fun _ => false, fun _ => 0⟩
    let r := recompressPage onePageCodec settings k (coldHeap .fast) 0 .zstd
    r.map (·.1) = some true ∧
      Settles onePageCodec (coldHeap .fast) 0 coldBlob r := by
  intro settings k r
  have ready := coldHeap_ready .fast
  have starts : Starts settings (coldHeap .fast) 0 coldBlob := by
    constructor
    · rfl
    · rfl
    · exact nofun
    · exact coldHeap_holds .fast
    · decide +kernel
    · exact ⟨ready.anonymous, fun _ _ => ⟨ready.spill, rfl⟩⟩
  exact ⟨by decide +kernel,
    recompress_keeps_contents onePageCodec settings k (coldHeap .fast) 0 coldBlob .zstd starts
      nofun⟩

end Smash.Recompress
