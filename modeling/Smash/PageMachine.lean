import Smash.Program

/-! The tables the compressor shares with the application: page states, page locks, the
protection and contents of every arena page, the compressed-page table with its tiers, and
the blobs stored for each page. One call of `CellOp`, `RangeOp` or `Op` is one step of the
source that another thread can observe. Sizes, statistics and cold counts only feed
decisions; such a decision is a free answer of `ask`, `number`, `profile` or `bounds`.
A blob is an identity, not an address: `CompressStore` never hands out one slot twice while
it is live, and the codec is assumed to return what was compressed. -/
namespace Smash.PageMachine

open Program Function

def kPageSize : Nat := 4096

abbrev Thread := Nat
abbrev Offset := Fin kPageSize
abbrev Contents := Offset → UInt8

/-- The byte position `position` of a page, counted modulo its size. -/
def offsetOf (position : Nat) : Offset := ⟨position % kPageSize, Nat.mod_lt _ (by decide)⟩

def allBelow (test : Offset → Bool) : Nat → Bool
  | 0 => true
  | bound + 1 => test (offsetOf bound) && allBelow test bound

def samePage (left right : Contents) : Bool :=
  allBelow (fun offset => left offset == right offset) kPageSize

def pageIsAllZero (buf : Contents) : Bool := allBelow (fun offset => buf offset == 0) kPageSize

inductive PageState where
  | empty
  | active
  | compressed
  | compressing
  | activeMonitoring
  | compressedShadow
  deriving DecidableEq, Repr

inductive Prot where
  | none
  | read
  | readWrite
  deriving DecidableEq, Repr

inductive CompressAlgo where
  | none
  | lz4
  | zstd
  | zstdDict
  deriving DecidableEq, Repr

inductive Tier where
  | none
  | fast
  | deep
  | fastTried
  | spilled
  deriving DecidableEq, Repr

/-- The store a blob lies in: `CompressStore` or the file-backed `SpillStore`. -/
inductive Place where
  | anonymous
  | spill
  deriving DecidableEq, Repr

/-- A stored blob, identified by the page it was stored for and its serial number there. -/
structure Blob where
  place : Place
  serial : Nat
  deriving DecidableEq, Repr

/-- `CompressedPageInfo`; the default value is both `{}` and the zero-page sentinel. -/
structure CompressedPageInfo where
  data : Option Blob := none
  algo : CompressAlgo := .none
  deriving DecidableEq, Repr

/-- What `zeroFreeSlots` reads of the span a page belongs to. -/
structure Span where
  pageOff : Nat
  objectSize : Nat
  objectCount : Nat
  isLarge : Bool
  deriving DecidableEq, Repr

/-- Who may change whether a page belongs to a span: nobody while the span is in service,
the allocator thread that retires or serves it, or nobody while it is out of use. -/
inductive Owner where
  | service
  | moving (tid : Thread)
  | idle
  deriving DecidableEq, Repr

structure Cell where
  state : PageState
  prot : Prot
  memory : Contents
  lock : Option Thread
  info : CompressedPageInfo
  tier : Tier
  pending : Bool
  blobs : List (Blob × Contents)
  nextBlob : Nat
  span : Option Span
  free : Nat → Bool
  -- From here on the fields are history: no operation of the source reads them.
  held : List Nat
  app : Offset → Option UInt8
  owner : Owner
  worker : Option Thread
  reopened : Bool
  drops : List Prot
  damaged : Bool

def slotAt (span : Span) (offset : Offset) : Nat :=
  (span.pageOff + offset) / span.objectSize

namespace Cell

/-- The byte belongs to a slot the application holds. -/
def Live (c : Cell) (offset : Offset) : Prop :=
  ∃ span, c.span = some span ∧ slotAt span offset ∈ c.held

instance (c : Cell) (offset : Offset) : Decidable (c.Live offset) :=
  match same : c.span with
  | none => isFalse (by rintro ⟨span, found, -⟩; rw [same] at found; cases found)
  | some span =>
    if mem : slotAt span offset ∈ c.held then isTrue ⟨span, same, mem⟩
    else isFalse (by
      rintro ⟨j, found, holds⟩
      rw [same] at found
      cases found
      exact mem holds)

/-- The bytes hold the last value stored to every live byte that was stored to. -/
def Agrees (c : Cell) (bytes : Contents) : Prop :=
  ∀ offset v, c.app offset = some v → bytes offset = v

/-- What an application load finds; on an inaccessible page it faults first. -/
def load (c : Cell) (offset : Offset) : Option UInt8 :=
  if c.prot = .none then none else some (c.memory offset)

def lookup (c : Cell) (blob : Blob) : Option Contents :=
  (c.blobs.find? fun entry => entry.1 = blob).map Prod.snd

def content (c : Cell) : Option Contents :=
  match c.info.algo, c.info.data with
  | .none, _ => some fun _ => 0
  | _, some blob => c.lookup blob
  | _, none => none

end Cell

structure Choice where
  flag : Bool := true
  number : Nat := 0
  upper : Nat := 0
  algo : CompressAlgo := .zstd
  bytes : Contents := fun _ => 0

inductive CellOp where
  | lock
  | tryLock
  | unlock
  | heldByThisThread
  | getState
  | setState (state : PageState)
  | transition (expected desired : PageState)
  | protect (prot : Prot)
  | remap (prot : Prot)
  | commit
  | populate (bytes : Contents)
  | write (bytes : Contents)
  | copy
  | drop
  | getSpan
  | slotFree (slot : Nat)
  | getInfo
  | setInfo (info : CompressedPageInfo)
  | getTier
  | setTier (tier : Tier)
  | getPending
  | exchangePending (value : Bool)
  | decompress (info : CompressedPageInfo)
  | store (place : Place) (bytes : Contents)
  | release (place : Place) (blob : Blob)
  | finish
  | handOver (owner : Owner)

abbrev CellAnswer : CellOp → Type
  | .tryLock | .heldByThisThread | .transition .. | .protect _ | .remap _ | .commit
  | .populate _ | .slotFree _ | .getPending | .exchangePending _ => Bool
  | .getState => PageState
  | .copy | .decompress _ => Contents
  | .getSpan => Option Span
  | .getInfo => CompressedPageInfo
  | .getTier => Tier
  | .store .. => Option Blob
  | _ => Unit

/-- A call that touches one page. `mprotect`, `mmap`, `pwrite` and a store may fail; a load
or store by the compressor itself blocks on a protected page, as its own fault is fatal. -/
def cellStep (t : Thread) : (op : CellOp) → Choice → Cell → Option (CellAnswer op × Cell)
  | .lock, _, c =>
    if c.lock = none then some ((), { c with lock := some t }) else none
  | .tryLock, _, c =>
    if c.lock = none then some (true, { c with lock := some t })
    else some (false, c)
  | .unlock, _, c => some ((), { c with lock := none })
  | .heldByThisThread, _, c => some (decide (c.lock = some t), c)
  | .getState, _, c => some (c.state, c)
  | .setState s, _, c => some ((), { c with state := s, reopened := false })
  | .transition expected desired, _, c =>
    if c.state = expected then
      some (true, { c with state := desired, reopened := false })
    else some (false, c)
  | .protect prot, ch, c =>
    if ch.flag then some (true, { c with prot := prot }) else some (false, c)
  | .remap prot, ch, c =>
    if ch.flag then some (true, { c with prot := prot, memory := fun _ => 0 })
    else some (false, c)
  | .commit, ch, c =>
    if ch.flag then some (true, { c with prot := .readWrite, reopened := true })
    else some (false, c)
  | .populate bytes, ch, c =>
    if ch.flag then some (true, { c with memory := bytes }) else some (false, c)
  | .write bytes, _, c =>
    if c.prot = .readWrite then some ((), { c with memory := bytes }) else none
  | .copy, _, c => if c.prot = .none then none else some (c.memory, c)
  | .drop, _, c =>
    some ((), { c with memory := fun _ => 0, drops := c.prot :: c.drops })
  | .getSpan, ch, c =>
    -- The page map entry is cleared before a span retires and set after it is served.
    some (if ch.flag then c.span else none, c)
  | .slotFree slot, _, c => some (c.free slot, c)
  | .getInfo, _, c => some (c.info, c)
  | .setInfo info, _, c => some ((), { c with info := info })
  | .getTier, _, c => some (c.tier, c)
  | .setTier tier, _, c => some ((), { c with tier := tier })
  | .getPending, _, c => some (c.pending, c)
  | .exchangePending v, _, c => some (c.pending, { c with pending := v })
  | .decompress info, ch, c =>
    some ((Cell.content { c with info := info }).getD ch.bytes, c)
  | .store place bytes, ch, c =>
    if ch.flag then
      some (some ⟨place, c.nextBlob⟩,
        { c with
          blobs := (⟨place, c.nextBlob⟩, bytes) :: c.blobs
          nextBlob := c.nextBlob + 1 })
    else some (none, c)
  | .release place blob, _, c =>
    if blob.place = place ∧ blob ∈ c.blobs.map Prod.fst then
      some ((), { c with blobs := c.blobs.filter fun entry => entry.1 ≠ blob })
    else some ((), { c with damaged := true })
  | .finish, _, c => some ((), { c with worker := none })
  | .handOver owner, _, c => some ((), { c with owner := owner })

inductive RangeOp where
  | protect (prot : Prot)
  | remap (prot : Prot)
  | drop

def rangeStep (op : RangeOp) (ch : Choice) (c : Cell) : Cell :=
  match op with
  | .protect prot => if ch.flag then { c with prot := prot } else c
  | .remap prot =>
    if ch.flag then { c with prot := prot, memory := fun _ => 0 } else c
  | .drop => { c with memory := fun _ => 0, drops := c.prot :: c.drops }

inductive Question where
  | shouldCompress
  | ratioGate
  | savingsGate
  | sameAlgorithm
  | faultSlot
  | nearCap
  | runFound
  | wholeVma
  | outOfMemory
  | sameSpan
  | aged
  | spillReady
  | vmaBudget
  deriving DecidableEq, Repr

inductive Op where
  | page (idx : Nat) (op : CellOp)
  | range (first count : Nat) (op : RangeOp)
  | addSpilled (delta : Int)
  | ask (question : Question)
  | committedPages
  | profile
  | bounds (idx : Nat)

abbrev Answer : Op → Type
  | .page _ op => CellAnswer op
  | .range .. | .ask _ => Bool
  | .addSpilled _ => Unit
  | .committedPages => Nat
  | .profile => Option (CompressAlgo × Bool)
  | .bounds _ => Nat × Nat

structure Shared where
  pages : Nat
  page : Nat → Cell
  spilledCount : Int

namespace Shared

def set (s : Shared) (i : Nat) (c : Cell) : Shared :=
  { s with page := update s.page i c }

def setRange (s : Shared) (first count : Nat) (change : Cell → Cell) : Shared :=
  { s with
    page := fun i =>
      if first ≤ i ∧ i < first + count then change (s.page i)
      else s.page i }

end Shared

def perform (t : Thread) : (op : Op) → Choice → Shared → Option (Answer op × Shared)
  | .page i op, ch, s =>
    if i < s.pages then
      (cellStep t op ch (s.page i)).map
        fun r => (r.1, s.set i r.2)
    else none
  | .range first count op, ch, s =>
    if first + count ≤ s.pages then
      some (ch.flag, s.setRange first count (rangeStep op ch))
    else none
  | .addSpilled delta, _, s =>
    some ((), { s with spilledCount := s.spilledCount + delta })
  | .ask _, ch, s => some (ch.flag, s)
  | .committedPages, ch, s =>
    if ch.number ≤ s.pages then some (ch.number, s) else none
  | .profile, ch, s =>
    if ch.number = 0 ∨ ch.algo = .none then some (none, s)
    else some (some (ch.algo, ch.flag), s)
  | .bounds i, ch, s =>
    if ch.number ≤ i ∧ i < ch.upper ∧ ch.upper ≤ s.pages then
      some ((ch.number, ch.upper), s)
    else none

def CellSucceeds : CellOp → Choice → Prop
  | .protect _, ch | .remap _, ch | .commit, ch | .populate _, ch =>
    ch.flag = true
  | _, _ => True

def KernelSucceeds : Op → Choice → Prop
  | .page _ op, ch => CellSucceeds op ch
  | .range _ _ _, ch => ch.flag = true
  | _, _ => True

instance (op : CellOp) (ch : Choice) : Decidable (CellSucceeds op ch) := by
  unfold CellSucceeds
  split <;> infer_instance

instance (op : Op) (ch : Choice) : Decidable (KernelSucceeds op ch) := by
  unfold KernelSucceeds
  split <;> infer_instance

/-- What the application and the allocator do between the compressor's calls. -/
inductive Event where
  | store (idx : Nat) (offset : Offset) (value : UInt8)
  | handOut (idx : Nat) (slot : Nat)
  | takeBack (idx : Nat) (slot : Nat)
  | mark (idx : Nat) (slot : Nat)
  | unmark (idx : Nat) (slot : Nat)

def forgetSlot (c : Cell) (slot : Nat) : Offset → Option UInt8 := fun offset =>
  match c.span with
  | none => c.app offset
  | some span => if slotAt span offset = slot then none else c.app offset

/-- A store takes effect on a writable page only; on any other page it faults. A slot is
handed out when its bitmap bit is taken, and its old bytes then mean nothing. -/
def cellEvent : Event → Cell → Option Cell
  | .store _ offset v, c =>
    if c.Live offset ∧ c.prot = .readWrite then
      some { c with
        memory := update c.memory offset v
        app := update c.app offset (some v) }
    else none
  | .handOut _ slot, c =>
    if c.owner = .service ∧ c.free slot = false ∧ slot ∉ c.held then
      some { c with held := slot :: c.held, app := forgetSlot c slot }
    else none
  | .takeBack _ slot, c =>
    if slot ∈ c.held then
      some { c with
        held := c.held.filter fun j => j ≠ slot
        app := forgetSlot c slot }
    else none
  | .mark _ slot, c =>
    some { c with free := update c.free slot false }
  | .unmark _ slot, c =>
    if slot ∈ c.held then none
    else some { c with free := update c.free slot true }

def Event.index : Event → Nat
  | .store i .. | .handOut i _ | .takeBack i _ | .mark i _
  | .unmark i _ => i

def environment (event : Event) (s : Shared) : Option Shared :=
  if event.index < s.pages then
    (cellEvent event (s.page event.index)).map (s.set event.index)
  else none

section Lemmas

theorem offsetOf_val (offset : Offset) : offsetOf offset.val = offset :=
  Fin.ext (Nat.mod_eq_of_lt offset.isLt)

theorem allBelow_iff (test : Offset → Bool) {bound : Nat} (fits : bound ≤ kPageSize) :
    allBelow test bound = true ↔ ∀ offset : Offset, offset.val < bound → test offset = true := by
  induction bound with
  | zero => simp [allBelow]
  | succ bound ih =>
    have last : (offsetOf bound).val = bound := Nat.mod_eq_of_lt fits
    simp only [allBelow, Bool.and_eq_true, ih (Nat.le_of_succ_le fits)]
    constructor
    · rintro ⟨here, earlier⟩ offset below
      rcases Nat.lt_succ_iff_lt_or_eq.mp below with smaller | same
      · exact earlier offset smaller
      · rw [← offsetOf_val offset, same]
        exact here
    · intro every
      exact ⟨every _ (by omega), fun offset below => every offset (Nat.lt_succ_of_lt below)⟩

@[simp] theorem samePage_iff {left right : Contents} :
    samePage left right = true ↔ left = right := by
  rw [samePage, allBelow_iff _ (Nat.le_refl _), funext_iff]
  exact ⟨fun every offset => by simpa using every offset offset.isLt,
    fun every offset _ => by simp [every offset]⟩

@[simp] theorem pageIsAllZero_iff {buf : Contents} :
    pageIsAllZero buf = true ↔ buf = fun _ => 0 := by
  rw [pageIsAllZero, allBelow_iff _ (Nat.le_refl _), funext_iff]
  exact ⟨fun every offset => by simpa using every offset offset.isLt,
    fun every offset _ => by simp [every offset]⟩

namespace Shared

variable (s : Shared) (i : Nat) (c : Cell)

@[simp] theorem set_pages : (s.set i c).pages = s.pages := rfl

@[simp] theorem set_page : (s.set i c).page = update s.page i c :=
  rfl

@[simp] theorem set_set (later : Cell) : (s.set i c).set i later = s.set i later := by
  simp [set]

end Shared

theorem perform_page {t : Thread} {i : Nat} {op : CellOp} {ch : Choice}
    {pre s' : Shared} {ans : CellAnswer op} : perform t (.page i op) ch pre = some (ans, s') ↔
      i < pre.pages ∧ ∃ c, cellStep t op ch (pre.page i) = some (ans, c) ∧ s' = pre.set i c := by
  simp only [perform]
  by_cases inside : i < pre.pages
  · simp only [inside, if_true, true_and, Option.map_eq_some_iff, Prod.exists, Prod.mk.injEq]
    constructor
    · rintro ⟨reply, c, stepped, rfl, rfl⟩
      exact ⟨c, stepped, rfl⟩
    · rintro ⟨c, stepped, rfl⟩
      exact ⟨ans, c, stepped, rfl, rfl⟩
  · simp [inside]

end Lemmas

end Smash.PageMachine
