import Smash.SpanSlots
import Mathlib.Algebra.BigOperators.Group.Finset.Basic

/-! `Slab`: the spans of one size class on three lists, the stack of deferred frees and the depot
of magazines. A function here is the body of one section under the slab lock. What the section
reads from outside (page classes, the cap callback, whether the region still has pages) is
answered by `Env`; the byte counter and the tick are shared by all slabs, and another thread may
have moved the counter, so its loads are answered by `Resident.loads` first. -/
namespace Smash.Slabs

open SpanSlots Transition Function

abbrev SpanId := Nat

structure Object where
  span : SpanId
  slot : Nat
  deriving DecidableEq, Repr

/-- One entry of a batch: the pointer, and whether the freeing thread found a span for it. -/
structure Entry where
  object : Object
  resolved : Bool
  deriving DecidableEq, Repr

def slotsIn (objects : List Object) (id : SpanId) : List Nat :=
  (objects.filter (·.span = id)).map Object.slot

structure Slab where
  sizeClass : SizeClass
  maxSlotsPerPage : Nat
  /-- `cap_fn_` is installed. -/
  capFn : Bool
  spans : SpanId → Span
  nextSpan : SpanId
  /-- The spans with page map entries. -/
  mapped : Finset SpanId
  partials : List SpanId
  full : List SpanId
  empty : List SpanId
  residentEmptyCount : Nat
  pending : List (List Entry)
  magazines : List (List Entry)

/-- The counters all slabs share, and what racing loads of `resident_empty_bytes_` return. -/
structure Resident where
  maxBytes : Nat
  bytes : Nat
  tick : Nat
  loads : List Nat := []

structure View where
  slab : Slab
  resident : Resident

/-- The answers a section gets from outside, indexed by the objects allocated so far. -/
structure Env where
  classify : Nat → SpanId → Nat → SlotPageClass
  cap : Nat → SpanId → Nat
  newCap : Nat → Nat
  pages : Nat → Bool

def kPendingNodeCap : Nat := 64
def kMaxMagazines : Nat := 64
def kResidentEmptyTicks : Nat := 2

def init (sizeClass : SizeClass) (maxSlotsPerPage : Nat) (capFn : Bool) : Slab :=
  { sizeClass := sizeClass, maxSlotsPerPage := maxSlotsPerPage, capFn := capFn,
    spans := fun _ => SpanSlots.init 0 sizeClass 0, nextSpan := 0, mapped := ∅,
    partials := [], full := [], empty := [], residentEmptyCount := 0,
    pending := [], magazines := [] }

section Spans

def View.span (view : View) (id : SpanId) : Span := view.slab.spans id

def View.setSpan (view : View) (id : SpanId) (span : Span) : View :=
  { view with slab := { view.slab with spans := update view.slab.spans id span } }

@[simp] theorem setSpan_span (view : View) (id : SpanId) (span : Span) :
    (view.setSpan id span).span id = span := update_self ..

def Span.bytes (span : Span) : Nat := span.pageCount * kPageSize

def Resident.load (resident : Resident) : Nat × Resident :=
  match resident.loads with
  | [] => (resident.bytes, resident)
  | seen :: rest => (seen, { resident with loads := rest })

/-- Flag the span and count it, unless the cap on resident bytes is reached: then its pages are
given back at once and nothing is recorded. -/
def retireEmptySpan (id : SpanId) (view : View) : View :=
  let bytes := Span.bytes (view.span id)
  let (seen, resident) := view.resident.load
  if resident.maxBytes < seen + bytes then { view with resident := resident }
  else
    { slab :=
        { view.slab with
          spans := update view.slab.spans id
            { view.span id with residentEmpty := true, emptyTick := resident.tick }
          residentEmptyCount := view.slab.residentEmptyCount + 1 }
      resident := { resident with bytes := resident.bytes + bytes } }

def clearResident (id : SpanId) (view : View) : View :=
  if (view.span id).residentEmpty then
    { slab :=
        { view.slab with
          spans := update view.slab.spans id { view.span id with residentEmpty := false }
          residentEmptyCount := view.slab.residentEmptyCount - 1 }
      resident :=
        { view.resident with bytes := view.resident.bytes - Span.bytes (view.span id) } }
  else view

def recommitEmptySpan (id : SpanId) (view : View) : View := clearResident id view

def currentCap (env : Env) (allocated : Nat) (slab : Slab) : Nat :=
  if slab.capFn then env.newCap allocated else slab.maxSlotsPerPage

def allocateNewSpan (env : Env) (allocated : Nat) (view : View) : Option (SpanId × View) :=
  if env.pages allocated then
    let slab := view.slab
    let id := slab.nextSpan
    let span := SpanSlots.init (classPages slab.sizeClass) slab.sizeClass
      (currentCap env allocated slab)
    some (id,
      { view with
        slab :=
          { slab with
            spans := update slab.spans id span
            nextSpan := id + 1
            mapped := insert id slab.mapped } })
  else none

def releaseSpan (id : SpanId) (view : View) : View :=
  let view := clearResident id view
  { view with slab := { view.slab with mapped := view.slab.mapped.erase id } }

def maybeWiden (env : Env) (allocated : Nat) (id : SpanId) (view : View) : View :=
  view.setSpan id (SpanSlots.maybeWiden
    (if view.slab.capFn then some (env.cap allocated id) else none) (view.span id))

end Spans

section Free

def deallocateOne (object : Object) (view : View) : View :=
  let span := view.span object.span
  let s' := SpanSlots.deallocate (object.slot * span.objectSize) span
  let view := view.setSpan object.span s'
  let slab := view.slab
  if span.full then
    { view with
      slab :=
        { slab with
          full := slab.full.erase object.span, partials := object.span :: slab.partials } }
  else if s'.empty then
    let view := retireEmptySpan object.span
      { view with slab := { slab with partials := slab.partials.erase object.span } }
    { view with slab := { view.slab with empty := object.span :: view.slab.empty } }
  else view

/-- The single free of `Slab::deallocate`: no pending frees are applied, and a span that becomes
empty is not flagged as resident. -/
def deallocate (object : Object) (view : View) : View :=
  let span := view.span object.span
  let s' := SpanSlots.deallocate (object.slot * span.objectSize) span
  let view := view.setSpan object.span s'
  let slab := view.slab
  if span.full then
    { view with
      slab :=
        { slab with
          full := slab.full.erase object.span, partials := object.span :: slab.partials } }
  else if s'.empty then
    { view with
      slab :=
        { slab with
          partials := slab.partials.erase object.span, empty := object.span :: slab.empty } }
  else view

/-- The loops over a resolved batch; entries without a span are skipped. -/
def deallocateEntries (entries : List Entry) (view : View) : View :=
  entries.foldl
    (fun view entry => if entry.resolved then deallocateOne entry.object view else view) view

def drainPending (view : View) : View :=
  view.slab.pending.foldl (fun view entries => deallocateEntries entries view)
    { view with slab := { view.slab with pending := [] } }

/-- The lookup a freeing thread makes for each pointer. -/
def resolve (slab : Slab) (object : Object) : Entry := ⟨object, object.span ∈ slab.mapped⟩

/-- Each span is looked up when its turn comes, under the lock. -/
def deallocateBatch (objects : List Object) (view : View) : View :=
  objects.foldl
    (fun view object =>
      if (resolve view.slab object).resolved then deallocateOne object view else view) view

def deallocateBatchResolved (entries : List Entry) (view : View) : View :=
  deallocateEntries entries (drainPending view)

def pushPending (entries : List Entry) (view : View) : View :=
  { view with slab := { view.slab with pending := entries :: view.slab.pending } }

def deallocateBatchDeferred (entries : List Entry) (tryLock : Bool) (view : View) : View :=
  if entries = [] then view
  else if view.slab.pending.length < kPendingNodeCap then
    if tryLock then deallocateEntries entries (drainPending view) else pushPending entries view
  else deallocateEntries entries (drainPending view)

def magazinePush (entries : List Entry) (view : View) : Bool × View :=
  if kMaxMagazines ≤ view.slab.magazines.length then (false, view)
  else
    (true,
      { view with slab := { view.slab with magazines := entries :: view.slab.magazines } })

def magazinePop (view : View) : List Object × View :=
  match view.slab.magazines with
  | [] => ([], view)
  | entries :: rest =>
    (entries.map Entry.object, { view with slab := { view.slab with magazines := rest } })

def drainMagazines (view : View) : View :=
  view.slab.magazines.foldl (fun view entries => deallocateEntries entries view)
    { view with slab := { view.slab with magazines := [] } }

/-- Decommit the spans that have been empty for `kResidentEmptyTicks` ticks at `now`, the tick
that was loaded before the lock was taken. -/
def purgeResidentEmpty (now : Nat) (view : View) : View :=
  if view.slab.residentEmptyCount = 0 then view
  else
    view.slab.empty.foldl
      (fun view id =>
        if (view.span id).residentEmpty ∧
            kResidentEmptyTicks ≤ (now + word32 - (view.span id).emptyTick) % word32 then
          clearResident id view
        else view) view

/-- `while (Span* span = empty_.popFront()) releaseSpan(span)` for the list given. -/
def releaseEmpties : List SpanId → View → View
  | [], view => view
  | id :: rest, view =>
    releaseEmpties rest
      (releaseSpan id { view with slab := { view.slab with empty := rest } })

def scavenge (magazineEnabled : Bool) (view : View) : View :=
  let view := drainPending view
  let view := if magazineEnabled then drainMagazines view else view
  releaseEmpties view.slab.empty view

def advanceTick (resident : Resident) : Resident :=
  { resident with tick := (resident.tick + 1) % word32 }

end Free

section Allocate

def promote (id : SpanId) (rest : List SpanId) (view : View) : View :=
  let view := recommitEmptySpan id { view with slab := { view.slab with empty := rest } }
  { view with slab := { view.slab with partials := id :: view.slab.partials } }

def rotate (id : SpanId) (view : View) : View :=
  { view with slab := { view.slab with partials := view.slab.partials.erase id ++ [id] } }

/-- The span has been taken from: it moves to `full_` if that was its last slot. -/
def settle (id : SpanId) (view : View) : View :=
  if (view.span id).full then
    { view with
      slab :=
        { view.slab with
          partials := view.slab.partials.erase id, full := id :: view.slab.full } }
  else view

/-- `span->allocate()` -/
def allocateFrom (env : Env) (allocated : Nat) (id : SpanId) (view : View) : Option Object × View :=
  match SpanSlots.allocate (env.classify allocated id) (view.span id) with
  | (slot, span) => (slot.map (⟨id, ·⟩), view.setSpan id span)

/-- `span->consumeFallback(fb)` -/
def consumeFrom (fallback : AllocFallback) (id : SpanId) (view : View) : Option Object × View :=
  match SpanSlots.consumeFallback fallback (view.span id) with
  | (slot, span) => (slot.map (⟨id, ·⟩), view.setSpan id span)

/-- `Slab::allocate` when `partial_` has a front: if it has no warm slot, an empty span is used in
its place. -/
def allocatePartial (env : Env) (id : SpanId) (view : View) : Option Object × View :=
  let view := maybeWiden env 0 id view
  match allocateWarm (env.classify 0 id) (view.span id) with
  | (some slot, _, span) => (some ⟨id, slot⟩, settle id (view.setSpan id span))
  | (none, fallback, _) =>
    if fallback.any then
      match view.slab.empty with
      | spare :: rest =>
        let (object, view) := allocateFrom env 0 spare (promote spare rest (rotate id view))
        (object, settle spare view)
      | [] =>
        let (object, view) := consumeFrom fallback id view
        (object, settle id view)
    else (none, settle id view)

def allocate (env : Env) (view : View) : Option Object × View :=
  let view := drainPending view
  match view.slab.partials with
  | id :: _ => allocatePartial env id view
  | [] =>
    let found := match view.slab.empty with
      | spare :: rest =>
        some (spare,
          recommitEmptySpan spare { view with slab := { view.slab with empty := rest } })
      | [] => allocateNewSpan env 0 view
    match found with
    | none => (none, view)
    | some (id, view) =>
      let (object, view) := allocateFrom env 0 id view
      if (view.span id).full then
        (object, { view with slab := { view.slab with full := id :: view.slab.full } })
      else
        (object,
          { view with slab := { view.slab with partials := id :: view.slab.partials } })

structure Filling where
  out : List Object := []
  redirected : Bool := false
  view : View

/-- The inner loop of `allocateBatch`: take up to `need` slots of the span. -/
def fill (env : Env) (id : SpanId) : Nat → Filling → Filling
  | 0, filling => filling
  | need + 1, filling =>
    let view := filling.view
    match allocateWarm (env.classify filling.out.length id) (view.span id) with
    | (some slot, _, span) =>
      fill env id need
        { filling with out := filling.out ++ [⟨id, slot⟩], view := view.setSpan id span }
    | (none, fallback, _) =>
      if fallback.any then
        match filling.redirected, view.slab.empty with
        | false, spare :: rest =>
          { filling with redirected := true, view := promote spare rest (rotate id view) }
        | _, _ =>
          match consumeFrom fallback id view with
          | (some object, view) =>
            fill env id need { filling with out := filling.out ++ [object], view := view }
          | (none, _) => filling
      else filling

def frontSpan (env : Env) (allocated : Nat) (view : View) : Option (SpanId × View) :=
  match view.slab.partials, view.slab.empty with
  | id :: _, _ => some (id, view)
  | [], spare :: rest => some (spare, promote spare rest view)
  | [], [] =>
    match allocateNewSpan env allocated view with
    | none => none
    | some (id, view) =>
      some (id, { view with slab := { view.slab with partials := id :: view.slab.partials } })

/-- The outer loop of `allocateBatch`; `none` when the rounds do not suffice. -/
def fillAll (env : Env) (count : Nat) : Nat → Filling → Option Filling
  | 0, filling => if filling.out.length < count then none else some filling
  | rounds + 1, filling =>
    if filling.out.length < count then
      match frontSpan env filling.out.length filling.view with
      | none => some filling
      | some (id, view) =>
        let filled := fill env id (count - filling.out.length)
          { filling with view := maybeWiden env filling.out.length id view }
        fillAll env count rounds { filled with view := settle id filled.view }
    else some filling

/-- Each round but the redirected one yields an object, so `count + 1` rounds are enough. -/
def allocateBatch (env : Env) (count : Nat) (view : View) : Option (List Object × View) :=
  (fillAll env count (count + 1) { view := drainPending view }).map fun fill =>
    (fill.out, fill.view)

end Allocate

end Smash.Slabs
