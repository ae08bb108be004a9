import Smash.Popcount
import Smash.Transition

/-! One small-object span: its bitmap (a set bit is a free slot), the per-page cap that keeps
slots back, and the 16-bit counters. A slot is named by its index; its address is the span's
base plus the index times the object size. Which pages are warm, cooling or compressed is read
without synchronisation, so an allocation may find any classification. -/
namespace Smash.SpanSlots

open Popcount Transition Function

def kPageSize : Nat := 4096
def kTargetObjectsPerSpan : Nat := 64
def kMaxSpanPages : Nat := 8

section SizeClasses

def kClassSizes : List Nat :=
  [16, 32, 48, 64, 80, 96, 112, 128, 160, 192, 224, 256, 320, 384, 448, 512, 640, 768, 896, 1024,
    1280, 1536, 1792, 2048, 2560, 3072, 3584, 4096, 5120, 6144, 7168, 8192, 10240, 12288, 14336,
    16384]

abbrev SizeClass := Fin kClassSizes.length

def classSize (sc : SizeClass) : Nat := kClassSizes.get sc

def classPages (sc : SizeClass) : Nat :=
  min (max ((kTargetObjectsPerSpan * classSize sc + kPageSize - 1) / kPageSize) 1)
    kMaxSpanPages

end SizeClasses

def word16 : Nat := 2 ^ 16
def word32 : Nat := 2 ^ 32

structure Span where
  pageCount : Nat
  objectSize : Nat
  fullCapacity : Nat
  objectCount : Nat
  allocatedCount : Nat
  freeHintWord : Nat
  currentCap : Nat
  bitmap : Bits
  residentEmpty : Bool
  emptyTick : Nat

namespace Span

def numWords (span : Span) : Nat := (span.fullCapacity + 63) / 64

def full (span : Span) : Bool := span.allocatedCount == span.objectCount

def empty (span : Span) : Bool := span.allocatedCount == 0

end Span

section Caps

def firstSlot (size page : Nat) : Nat := (page * kPageSize + size - 1) / size

def available (size capacity page : Nat) : Nat :=
  min (firstSlot size (page + 1)) capacity - firstSlot size page

structure Marked where
  bits : Bits
  count : Nat

def markRange (first count : Nat) (marked : Marked) : Marked :=
  (List.range count).foldl
    (fun marked i => ⟨update marked.bits (first + i) true, marked.count + 1⟩) marked

def unlockRange (first start stop : Nat) (marked : Marked) : Marked :=
  (List.range' start (stop - start)).foldl
    (fun marked i =>
      if marked.bits (first + i) then marked
      else ⟨update marked.bits (first + i) true, marked.count + 1⟩) marked

def init (pages : Nat) (sc : SizeClass) (maxSlotsPerPage : Nat) : Span :=
  let size := classSize sc
  let capacity := (pages * kPageSize / size) % word32
  let blank : Span :=
    { pageCount := pages, objectSize := size, fullCapacity := capacity,
      objectCount := capacity % word16, allocatedCount := 0, freeHintWord := 0, currentCap := 0,
      bitmap := fun slot => decide (slot < capacity), residentEmpty := false, emptyTick := 0 }
  if 0 < maxSlotsPerPage ∧ size < kPageSize then
    let marked := (List.range pages).foldl
      (fun marked page =>
        markRange (firstSlot size page) (min (available size capacity page) maxSlotsPerPage)
          marked)
      ⟨fun _ => false, 0⟩
    let marked := if marked.count = 0 then ⟨update marked.bits 0 true, 1⟩ else marked
    { blank with
      objectCount := marked.count % word16
      currentCap := maxSlotsPerPage % word16
      bitmap := marked.bits }
  else blank

/-- What `widenCap` adds: the slots from the stored cap up to the new one on each page. -/
def unlock (span : Span) (newCap : Nat) : Marked :=
  (List.range span.pageCount).foldl
    (fun marked page =>
      let avail := available span.objectSize span.fullCapacity page
      unlockRange (firstSlot span.objectSize page) (min avail span.currentCap)
        (if newCap = 0 then avail else min avail newCap) marked)
    ⟨span.bitmap, 0⟩

def widenCap (span : Span) (newCap : Nat) : Span :=
  if span.objectSize = 0 ∨ kPageSize ≤ span.objectSize ∨ span.currentCap = 0 ∨
      newCap ≠ 0 ∧ newCap ≤ span.currentCap then span
  else
    let marked := unlock span newCap
    let widened := { span with bitmap := marked.bits, currentCap := newCap % word16 }
    if marked.count = 0 then widened
    else
      { widened with
        objectCount := min (min (span.objectCount + marked.count) span.fullCapacity) (word16 - 1)
        freeHintWord := 0 }

/-- `Slab::maybeWiden`, given what the cap callback returns if there is one. -/
def maybeWiden (cap : Option Nat) (span : Span) : Span :=
  match cap with
  | none => span
  | some cap =>
    if span.currentCap = 0 then span
    else if cap = 0 ∨ span.currentCap < cap then widenCap span cap
    else span

end Caps

section Slots

inductive SlotPageClass where
  | warm
  | cooling
  | compressed
  deriving DecidableEq, Repr

/-- The first free slots seen on a cooling and on a compressed page. -/
structure AllocFallback where
  cool : Option Nat := none
  comp : Option Nat := none
  deriving DecidableEq, Repr

def AllocFallback.any (fallback : AllocFallback) : Bool :=
  fallback.cool.isSome || fallback.comp.isSome

/-- `pickActiveBit` over the words in turn: the first free slot on a warm page. -/
def scan (bitmap : Bits) (classify : Nat → SlotPageClass) :
    List Nat → AllocFallback → Option Nat × AllocFallback
  | [], fallback => (none, fallback)
  | slot :: rest, fallback =>
    if bitmap slot then
      match classify slot with
      | .warm => (some slot, fallback)
      | .cooling =>
        scan bitmap classify rest { fallback with cool := fallback.cool.or (some slot) }
      | .compressed =>
        scan bitmap classify rest { fallback with comp := fallback.comp.or (some slot) }
    else scan bitmap classify rest fallback

/-- All words of the bitmap, starting with the hinted one. -/
def scanOrder (span : Span) : List Nat :=
  List.range' (span.freeHintWord * 64) ((span.numWords - span.freeHintWord) * 64) ++
    List.range (span.freeHintWord * 64)

def takeSlot (span : Span) (slot : Nat) : Span :=
  { span with
    bitmap := update span.bitmap slot false
    allocatedCount := (span.allocatedCount + 1) % word16
    freeHintWord := (slot / 64) % word16 }

def allocateWarm (classify : Nat → SlotPageClass) (span : Span) :
    Option Nat × AllocFallback × Span :=
  match scan span.bitmap classify (scanOrder span) {} with
  | (some slot, fallback) => (some slot, fallback, takeSlot span slot)
  | (none, fallback) => (none, fallback, span)

def consumeFallback (fallback : AllocFallback) (span : Span) : Option Nat × Span :=
  match fallback.cool, fallback.comp with
  | some slot, _ => (some slot, takeSlot span slot)
  | none, some slot => (some slot, takeSlot span slot)
  | none, none => (none, span)

def allocate (classify : Nat → SlotPageClass) (span : Span) : Option Nat × Span :=
  match allocateWarm classify span with
  | (some slot, _, s') => (some slot, s')
  | (none, fallback, s') => consumeFallback fallback s'

/-- `ceil(2^40 / object_size)` -/
def divMagic (size : Nat) : Nat := (2 ^ 40 + size - 1) / size

/-- `offset / object_size` by a 64-bit multiplication and a shift. -/
def slotOf (size offset : Nat) : Nat := (offset * divMagic size) % 2 ^ 64 / 2 ^ 40

def deallocate (offset : Nat) (span : Span) : Span :=
  let slot := slotOf span.objectSize offset
  { span with
    bitmap := update span.bitmap slot true
    allocatedCount := (span.allocatedCount + (word16 - 1)) % word16
    freeHintWord := if slot / 64 < span.freeHintWord then (slot / 64) % word16
      else span.freeHintWord }

/-- The fields that neither allocation nor deallocation touches. -/
structure SameShape (span after : Span) : Prop where
  pageCount : after.pageCount = span.pageCount
  objectSize : after.objectSize = span.objectSize
  objectCount : after.objectCount = span.objectCount
  residentEmpty : after.residentEmpty = span.residentEmpty

theorem takeSlot_shape (span : Span) (slot : Nat) : SameShape span (takeSlot span slot) := by
  cases span
  exact ⟨rfl, rfl, rfl, rfl⟩

theorem deallocate_shape (offset : Nat) (span : Span) :
    SameShape span (deallocate offset span) := by
  cases span
  exact ⟨rfl, rfl, rfl, rfl⟩

end Slots

end Smash.SpanSlots
