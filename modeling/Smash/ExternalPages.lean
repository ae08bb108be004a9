import Smash.MachineWord
import Smash.PageMachine

/-! The application's own mappings under the `mmap`, `munmap` and `mremap` interposers. Beside the
kernel's pages the state keeps what the application would see without the interposers: both sides
get the same kernel outcomes and the same stores. Pages are numbered, and the bytes of a page are
one value. A call of an interposer is taken apart into its system call and the pages it registers
or deregisters one by one; compressor workers and fault handlers run in between. Aliases of one
page at two addresses are not modelled. -/
namespace Smash.ExternalPages

open MachineWord Transition Function
open PageMachine (kPageSize)

structure Page (Bytes : Type) where
  contents : Bytes
  /-- The compressor has made the page inaccessible. -/
  closed : Bool
  deriving DecidableEq

/-- The table entries of a tracked page. While it is `busy` a worker has its lock. -/
inductive Mark (Bytes : Type) where
  | active
  | busy (snapshot : Option Bytes)
  | shadow (blob : Bytes)
  | packed (blob : Bytes)
  deriving DecidableEq

/-- What is left of an interposer call: pages to deregister, `munmap`'s own system call with its
outcome, pages to register. -/
structure Call where
  untrack : List Nat
  unmap : Option (Nat × Nat × Bool)
  track : List Nat
  deriving DecidableEq

structure Space (Bytes : Type) where
  /-- The mapped pages without the interposers. -/
  ideal : Nat → Option Bytes
  real : Nat → Option (Page Bytes)
  mark : Nat → Option (Mark Bytes)
  /-- `external_slot_next_`. -/
  slotNext : Nat
  call : Option Call
  -- History: pages of mappings that were registered, and whether a worker has faulted.
  owned : Nat → Bool
  crashed : Bool

structure Config where
  trackExternal : Bool
  /-- `kTrackMaxPages`. -/
  slotCapacity : Nat
  deferred : Bool
  arenaFirst : Nat
  arenaPages : Nat

variable {Bytes : Type} [DecidableEq Bytes]

section Ranges

/-- The number of pages a length takes. -/
def pageCount (len : Nat) : Nat := (len + (kPageSize - 1)) % wordSize / kPageSize

/-- The loop of `registerLinuxExternalRange` and `deregisterLinuxExternalRange`, whose bounds are
rounded outwards. -/
def pageRange (base len : Nat) : List Nat :=
  if base = 0 ∨ len = 0 then []
  else
    let first := base / kPageSize
    let last := (base + len + (kPageSize - 1)) % wordSize / kPageSize
    List.range' first (last - first)

def registered (cfg : Config) (skip : Bool) (base len : Nat) : List Nat :=
  if cfg.trackExternal = false ∨ skip = true ∨ cfg.slotCapacity < pageCount len then []
  else pageRange base len

def deregistered (cfg : Config) (base len : Nat) : List Nat :=
  if cfg.trackExternal then pageRange base len else []

/-- A table with other entries for `count` pages from `first` on. -/
def overlay {Entry : Type} (first count : Nat) (new old : Nat → Entry) : Nat → Entry := fun page =>
  if first ≤ page ∧ page < first + count then new page else old page

/-- A table after `oldCount` pages have moved to `target`, where there are now `newCount` pages:
entries of pages that moved along, added pages, and what is left behind. -/
def relocate {Entry : Type} (source target oldCount newCount : Nat) (added left : Nat → Entry)
    (table : Nat → Entry) : Nat → Entry := fun page =>
  if target ≤ page ∧ page < target + newCount then
    if page - target < oldCount then table (source + (page - target)) else added page
  else if source ≤ page ∧ page < source + oldCount then left page
  else table page

end Ranges

section Calls

variable (cfg : Config) (space : Space Bytes)

/-- `trackExternalPage` and, unless it returns 0, the page's state set to ACTIVE. A page that is
tracked already is found; a worker that has its lock sees the changed state and gives up. -/
def registerPage (page : Nat) : Space Bytes :=
  if cfg.slotCapacity ≤ space.slotNext ∨ page = 0 ∨
      (cfg.arenaFirst ≤ page ∧ page < cfg.arenaFirst + cfg.arenaPages) then space
  else
    { space with
      mark := update space.mark page (some .active)
      slotNext := if space.mark page = none then space.slotNext + 1 else space.slotNext
      owned := update space.owned page true }

/-- `untrackExternalPageLocked` waits for the page's lock; the blob of the page is forgotten. -/
def untrackPage (page : Nat) : Option (Space Bytes) :=
  match space.mark page with
  | some (.busy _) => none
  | _ => some { space with mark := update space.mark page none }

def Placed (base len : Nat) : Prop :=
  base % kPageSize = 0 ∧ base ≠ 0 ∧ len ≠ 0 ∧ base + len + kPageSize ≤ wordSize ∧
    (base / kPageSize + pageCount len ≤ cfg.arenaFirst ∨
      cfg.arenaFirst + cfg.arenaPages ≤ base / kPageSize)

instance (base len : Nat) : Decidable (Placed cfg base len) := by
  unfold Placed
  infer_instance

def unmappedAt (first count : Nat) : Bool :=
  (List.range' first count).all fun page => (space.real page).isNone

def mappedAt (first count : Nat) : Bool :=
  (List.range' first count).all fun page => (space.real page).isSome

structure MmapArgs (Bytes : Type) where
  ret : Nat
  len : Nat
  anon : Bool
  writable : Bool
  fixed : Bool
  skip : Bool
  /-- What the new pages hold. -/
  fill : Nat → Bytes
  ok : Bool

def mmap (args : MmapArgs Bytes) : Option (Space Bytes) :=
  let first := args.ret / kPageSize
  let count := pageCount args.len
  if args.ok = false then some space
  else if Placed cfg args.ret args.len ∧ (args.fixed ∨ unmappedAt space first count) then
    some { space with
      ideal := overlay first count (fun page => some (args.fill page)) space.ideal
      real := overlay first count (fun page => some ⟨args.fill page, false⟩) space.real
      owned := overlay first count (fun _ => false) space.owned
      call := if args.anon ∧ args.writable then
          some ⟨[], none, registered cfg args.skip args.ret args.len⟩ else none }
  else none

/-- The pages are deregistered before the system call is made. -/
def munmap (base len : Nat) (ok : Bool) : Option (Space Bytes) :=
  if ok = false ∨ Placed cfg base len then
    some { space with
      call := some ⟨deregistered cfg base len,
        some (base / kPageSize, pageCount len, ok), []⟩ }
  else none

structure MremapArgs (Bytes : Type) where
  old : Nat
  oldSize : Nat
  newSize : Nat
  ret : Nat
  dontUnmap : Bool
  skip : Bool
  fill : Nat → Bytes
  ok : Bool

/-- What the kernel accepts: a mapped range that is resized in place or moved to another range. -/
def Remaps (args : MremapArgs Bytes) : Prop :=
  let source := args.old / kPageSize
  let oldCount := pageCount args.oldSize
  let newCount := pageCount args.newSize
  let target := args.ret / kPageSize
  args.old % kPageSize = 0 ∧ args.old ≠ 0 ∧ args.old + args.oldSize + kPageSize ≤ wordSize ∧
    Placed cfg args.ret args.newSize ∧ mappedAt space source oldCount ∧
    (if args.ret = args.old then
      args.dontUnmap = false ∧ unmappedAt space (source + oldCount) (newCount - oldCount)
    else source + oldCount ≤ target ∨ target + newCount ≤ source)

instance (args : MremapArgs Bytes) : Decidable (Remaps cfg space args) := by
  unfold Remaps
  infer_instance

/-- What the interposer does with the tables once the system call has succeeded. -/
def mremapCall (args : MremapArgs Bytes) : Call :=
  if cfg.trackExternal = false then ⟨[], none, []⟩
  else if args.ret ≠ args.old then
    ⟨deregistered cfg args.old args.oldSize, none,
      registered cfg args.skip args.ret args.newSize⟩
  else if args.oldSize < args.newSize then
    ⟨[], none,
      registered cfg args.skip (args.ret + args.oldSize) (args.newSize - args.oldSize)⟩
  else if args.newSize < args.oldSize then
    ⟨deregistered cfg (args.ret + args.newSize) (args.oldSize - args.newSize), none, []⟩
  else ⟨[], none, []⟩

def remapped (args : MremapArgs Bytes) : Space Bytes :=
  let move {Entry : Type} := @relocate Entry (args.old / kPageSize) (args.ret / kPageSize)
    (pageCount args.oldSize) (pageCount args.newSize)
  { space with
    ideal := move (fun page => some (args.fill page))
      (fun page => if args.dontUnmap then some (args.fill page) else none) space.ideal
    real := move (fun page => some ⟨args.fill page, false⟩)
      (fun page => if args.dontUnmap then some ⟨args.fill page, false⟩ else none) space.real
    owned := move (fun _ => false) (fun page => args.dontUnmap && space.owned page) space.owned
    call := some (mremapCall cfg args) }

def mremap (args : MremapArgs Bytes) : Option (Space Bytes) :=
  if args.ok = false then some space
  else if Remaps cfg space args then some (remapped cfg space args)
  else none

def advance (call : Call) : Option (Space Bytes) :=
  match call with
  | ⟨page :: rest, unmap, track⟩ =>
    (untrackPage space page).map fun next => { next with call := some ⟨rest, unmap, track⟩ }
  | ⟨[], some (first, count, true), track⟩ =>
    some { space with
      ideal := overlay first count (fun _ => none) space.ideal
      real := overlay first count (fun _ => none) space.real
      owned := overlay first count (fun _ => false) space.owned
      call := some ⟨[], none, track⟩ }
  | ⟨[], some (_, _, false), track⟩ => some { space with call := some ⟨[], none, track⟩ }
  | ⟨[], none, page :: rest⟩ =>
    some { registerPage cfg space page with call := some ⟨[], none, rest⟩ }
  | ⟨[], none, []⟩ => some { space with call := none }

end Calls

section Workers

variable (cfg : Config) (space : Space Bytes) (page : Nat)

def setMark (mark : Mark Bytes) : Space Bytes :=
  { space with mark := update space.mark page (some mark) }

def closePage (junk : Bytes) : Space Bytes :=
  { space with
    real := update space.real page ((space.real page).map fun _ => ⟨junk, true⟩) }

def claim : Option (Space Bytes) :=
  match space.mark page with
  | some .active => some (setMark space page (.busy none))
  | _ => none

/-- The snapshot; on an unmapped page the worker itself faults. -/
def copy : Option (Space Bytes) :=
  match space.mark page, space.real page with
  | some (.busy none), none => some { space with crashed := true }
  | some (.busy none), some found => some (setMark space page (.busy (some found.contents)))
  | _, _ => none

def abort : Option (Space Bytes) :=
  match space.mark page with
  | some (.busy _) => some (setMark space page .active)
  | _ => none

def finish (junk : Bytes) : Option (Space Bytes) :=
  match space.mark page with
  | some (.busy (some snapshot)) =>
    if cfg.deferred then some (setMark space page (.shadow snapshot))
    else some (closePage (setMark space page (.packed snapshot)) page junk)
  | _ => none

/-- Phase B compares the page with its blob. -/
def reclaim (junk : Bytes) : Option (Space Bytes) :=
  match space.mark page, space.real page with
  | some (.shadow _), none => some { space with crashed := true }
  | some (.shadow blob), some found =>
    if found.contents = blob then
      some (closePage (setMark space page (.packed blob)) page junk)
    else some (setMark space page .active)
  | _, _ => none

/-- A fault on the page, or its restore on account of a neighbour's fault. -/
def fault : Option (Space Bytes) :=
  match space.mark page with
  | some (.packed blob) =>
    match space.real page with
    | none => some space
    | some _ => some
        { setMark space page .active with
          real := update space.real page (some ⟨blob, false⟩) }
  | some .active | some (.shadow _) =>
    some { setMark space page .active with
      real := update space.real page
        ((space.real page).map fun found => { found with closed := false }) }
  | some (.busy _) | none => none

/-- Outside deferred mode a page is write protected from its snapshot on. -/
def writable : Bool :=
  match space.mark page with
  | some (.busy (some _)) => cfg.deferred
  | _ => true

def store (bytes : Bytes) : Option (Space Bytes) :=
  match space.real page with
  | some ⟨_, false⟩ =>
    if writable cfg space page then
      some { space with
        ideal := update space.ideal page (some bytes)
        real := update space.real page (some ⟨bytes, false⟩) }
    else none
  | _ => none

end Workers

section System

inductive Event (Bytes : Type) where
  | mmap (args : MmapArgs Bytes)
  | munmap (base len : Nat) (ok : Bool)
  | mremap (args : MremapArgs Bytes)
  | advance
  | claim (page : Nat)
  | copy (page : Nat)
  | abort (page : Nat)
  | finish (page : Nat) (junk : Bytes)
  | reclaim (page : Nat) (junk : Bytes)
  | fault (page : Nat)
  | store (page : Nat) (bytes : Bytes)

/-- One interposer call at a time; the others may run at any time. -/
def step (cfg : Config) (space : Space Bytes) : Event Bytes → Option (Space Bytes)
  | .mmap args => if space.call = none then mmap cfg space args else none
  | .munmap base len ok => if space.call = none then munmap cfg space base len ok else none
  | .mremap args => if space.call = none then mremap cfg space args else none
  | .advance =>
    match space.call with
    | none => none
    | some call => advance cfg space call
  | .claim page => claim space page
  | .copy page => copy space page
  | .abort page => abort space page
  | .finish page junk => finish cfg space page junk
  | .reclaim page junk => reclaim space page junk
  | .fault page => fault space page
  | .store page bytes => store cfg space page bytes

def boot (mapped : Nat → Option Bytes) : Space Bytes where
  ideal := mapped
  real := fun page => (mapped page).map fun bytes => ⟨bytes, false⟩
  mark := fun _ => none
  slotNext := 0
  call := none
  owned := fun _ => false
  crashed := false

/-- What a load finds, after the fault it may cause: a fault on a closed page is handled if the
page is tracked. -/
def load (space : Space Bytes) (page : Nat) : Option Bytes :=
  match space.real page with
  | none => none
  | some found =>
    if found.closed then
      match space.mark page with
      | some (.packed blob) => some blob
      | some _ => some found.contents
      | none => none
    else some found.contents

def leaving (space : Space Bytes) (page : Nat) : Prop :=
  ∃ call first count, space.call = some call ∧ call.unmap = some (first, count, true) ∧
    first ≤ page ∧ page < first + count

end System

section Conditions

def engaged : Option (Mark Bytes) → Bool
  | some (.busy _) | some (.packed _) => true
  | _ => false

variable (cfg : Config) (space : Space Bytes)

/-- Whether a resized or moved range can be followed in the tables. Shrinking in place must not
cut through a tracked page. A move must not take along pages that are engaged, nor hit such, and
if it takes along tracked pages there must be slots for all pages of the new range. -/
def Follows (args : MremapArgs Bytes) : Prop :=
  let source := args.old / kPageSize
  let oldCount := pageCount args.oldSize
  let newCount := pageCount args.newSize
  let target := args.ret / kPageSize
  if args.ret = args.old then
    args.newSize < args.oldSize → args.newSize % kPageSize = 0 ∨
      space.mark ((args.ret + args.newSize) / kPageSize) = none
  else
    (∀ i < min oldCount newCount, engaged (space.mark (source + i)) = false) ∧
      (∀ i < newCount, engaged (space.mark (target + i)) = false) ∧
      ((∀ i < oldCount, space.mark (source + i) = none) ∨
        (args.dontUnmap = false ∧ args.skip = false ∧
          space.slotNext + newCount ≤ cfg.slotCapacity))

instance (args : MremapArgs Bytes) : Decidable (Follows cfg space args) := by
  unfold Follows
  infer_instance

def registersNext : Option Nat :=
  match space.call with
  | some ⟨[], none, page :: _⟩ => some page
  | _ => none

def Allowed : Event Bytes → Prop
  | .mmap args => args.ok = true → ∀ i < pageCount args.len,
      engaged (space.mark (args.ret / kPageSize + i)) = false
  | .munmap base len ok => ok = true ∨ ∀ page ∈ pageRange base len, space.mark page = none
  | .mremap args => args.ok = true → Follows cfg space args
  | .advance => ∀ page ∈ registersNext space, engaged (space.mark page) = false
  | .copy page | .reclaim page _ => (space.real page).isSome
  | _ => True

instance (event : Event Bytes) : Decidable (Allowed cfg space event) := by
  cases event <;> unfold Allowed <;> infer_instance

end Conditions

end Smash.ExternalPages
