import Smash.ByteMemory
import Smash.ShadowVerify
import Smash.SpanSlots

/-! `zeroFreeSlots` at the level of bytes: which bytes of the snapshot of a page, and of what lies
behind it, the stores of `ntZeroMemory` reach. The span is one that `init` and `widenCap` have
formed; its bitmap may hold anything. -/
namespace Smash.ZeroSlots

open ByteMemory Extents
open Compressor
open Popcount (Bits)
open SpanSlots (SizeClass classSize init widenCap kPageSize)

section Stores

def storeZero (address : Nat) (mem : Memory) : Memory :=
  overwrite mem ⟨address, 8⟩ fun _ => 0

/-- The stores go in pairs: the loop counts words by two. -/
def ntZeroMemory (dst size : Nat) (mem : Memory) : Memory :=
  (List.range ((size / 8 + 1) / 2)).foldl
    (fun mem k => storeZero (dst + 8 * (2 * k + 1)) (storeZero (dst + 8 * (2 * k)) mem))
    mem

end Stores

section Zeroing

/-- The overlap of the slot with the page is zeroed; offsets are from the base of the span. -/
def zeroOverlap (size page slot : Nat) (buf : Memory) : Memory :=
  let pageOff := page * kPageSize
  let zeroStart := max (slot * size) pageOff
  let zeroEnd := min (slot * size + size) (pageOff + kPageSize)
  if zeroEnd ≤ zeroStart then buf
  else ntZeroMemory (zeroStart - pageOff) (zeroEnd - zeroStart) buf

def zeroFrom (size page : Nat) (bitmap : Bits) : Nat → Nat → Memory → Memory
  | 0, _, buf => buf
  | fuel + 1, slot, buf =>
    if page * kPageSize + kPageSize ≤ slot * size then buf
    else
      zeroFrom size page bitmap fuel (slot + 1)
        (if bitmap slot then zeroOverlap size page slot buf else buf)

structure Mapped where
  isLarge : Bool
  span : SpanSlots.Span

/-- `page` is the page's index within the span. -/
def zeroFreeSlots (mapped : Option Mapped) (page : Nat) (buf : Memory) : Memory :=
  match mapped with
  | none => buf
  | some ⟨isLarge, span⟩ =>
    if isLarge ∨ span.objectSize = 0 then buf
    else
      let firstSlot := page * kPageSize / span.objectSize
      zeroFrom span.objectSize page span.bitmap (span.objectCount - firstSlot) firstSlot buf

end Zeroing

/-- A span as `init` makes it, widened any number of times, with any bits in its bitmap. -/
def formed (pages : Nat) (sc : SizeClass) (cap : Nat) (widenings : List Nat)
    (bits : Bits) : SpanSlots.Span :=
  let span := widenings.foldl widenCap (init pages sc cap)
  { span with bitmap := fun slot => decide (slot < span.fullCapacity) && bits slot }

def slotOf (size page point : Nat) : Nat := (page * kPageSize + point) / size

section Exact

theorem storeZero_apply (address point : Nat) (mem : Memory) :
    storeZero address mem point =
      if address ≤ point ∧ point < address + 8 then 0 else mem point := rfl

theorem pairs_zeroed (dst count point : Nat) (mem : Memory) :
    (List.range count).foldl
      (fun mem k => storeZero (dst + 8 * (2 * k + 1)) (storeZero (dst + 8 * (2 * k)) mem))
      mem point =
    if dst ≤ point ∧ point < dst + 16 * count then 0 else mem point := by
  induction count with
  | zero =>
    rw [if_neg (by omega)]
    rfl
  | succ count ih =>
    rw [List.range_succ, List.foldl_concat, storeZero_apply, storeZero_apply, ih]
    by_cases second : dst + 8 * (2 * count + 1) ≤ point ∧ point < dst + 8 * (2 * count + 1) + 8
    · rw [if_pos second, if_pos (by omega)]
    rw [if_neg second]
    by_cases first : dst + 8 * (2 * count) ≤ point ∧ point < dst + 8 * (2 * count) + 8
    · rw [if_pos first, if_pos (by omega)]
    rw [if_neg first]
    exact if_congr (by omega) rfl rfl

theorem ntZeroMemory_apply {dst size point : Nat} {mem : Memory} (aligned : 16 ∣ size) :
    ntZeroMemory dst size mem point =
      if dst ≤ point ∧ point < dst + size then 0 else mem point := by
  obtain ⟨count, rfl⟩ := aligned
  have rounds : (16 * count / 8 + 1) / 2 = count := by omega
  rw [ntZeroMemory, pairs_zeroed, rounds]

theorem classSize_aligned (sc : SizeClass) : 16 ∣ classSize sc ∧ classSize sc ≠ 0 := by
  revert sc
  decide

variable {size page slot point : Nat} {bitmap : Bits} {buf : Memory}

/-- Slots and pages start at multiples of 16, so no store reaches past the overlap. -/
theorem zeroOverlap_apply (aligned : 16 ∣ size) :
    zeroOverlap size page slot buf point =
      if point < kPageSize ∧ slot * size ≤ page * kPageSize + point ∧
        page * kPageSize + point < slot * size + size then 0 else buf point := by
  have start : 16 ∣ slot * size := Dvd.dvd.mul_left aligned slot
  have base : 16 ∣ page * kPageSize := Dvd.dvd.mul_left (by decide) page
  have whole : kPageSize = 4096 := rfl
  rw [zeroOverlap]
  split
  next none => exact (if_neg (by omega)).symm
  next =>
    rw [ntZeroMemory_apply (by omega)]
    exact if_congr (by omega) rfl rfl

theorem zeroFrom_behind (aligned : 16 ∣ size) (behind : kPageSize ≤ point) (fuel : Nat) :
    ∀ slot buf, zeroFrom size page bitmap fuel slot buf point = buf point := by
  induction fuel with
  | zero => exact fun _ _ => rfl
  | succ fuel ih =>
    intro slot buf
    rw [zeroFrom]
    split
    · rfl
    · rw [ih]
      split
      · rw [zeroOverlap_apply aligned, if_neg (by omega)]
      · rfl

theorem zeroFrom_page (page : Nat) (bitmap : Bits) (aligned : 16 ∣ size) (count : Nat)
    (offset : PageMachine.Offset) (fuel : Nat) :
    ∀ slot buf, zeroFrom size page bitmap fuel slot buf offset =
      zeroSlots ⟨page * kPageSize, size, count, false⟩ bitmap fuel slot
        (fun offset => buf offset) offset := by
  induction fuel with
  | zero => exact fun _ _ => rfl
  | succ fuel ih =>
    intro slot buf
    have step : (fun j : PageMachine.Offset =>
        (if bitmap slot then zeroOverlap size page slot buf else buf) j) =
        if bitmap slot then
          zeroSlot ⟨page * kPageSize, size, count, false⟩ slot fun j => buf j
        else fun j => buf j := by
      funext j
      split
      · rw [zeroOverlap_apply aligned]
        exact if_congr (and_iff_right j.isLt) rfl rfl
      · rfl
    by_cases past : page * kPageSize + kPageSize ≤ slot * size
    · rw [zeroFrom, if_pos past, zeroSlots]
      split
      · rfl
      next short => exact absurd past short
    · rw [zeroFrom, if_neg past, ih, step, zeroSlots]
      exact (congrFun (if_neg past) offset).symm

theorem widenCap_objectSize (span : SpanSlots.Span) (newCap : Nat) :
    (widenCap span newCap).objectSize = span.objectSize := by
  unfold widenCap
  split
  · rfl
  · dsimp only
    split
    · rfl
    · rfl

theorem init_objectSize (pages : Nat) (sizeClass : SizeClass) (cap : Nat) :
    (init pages sizeClass cap).objectSize = classSize sizeClass := by
  unfold init
  dsimp only
  split
  · rfl
  · rfl

theorem formed_objectSize (pages : Nat) (sizeClass : SizeClass) (cap : Nat)
    (widenings : List Nat) (bits : Bits) :
    (formed pages sizeClass cap widenings bits).objectSize = classSize sizeClass := by
  have widened : ∀ span : SpanSlots.Span,
      (widenings.foldl widenCap span).objectSize = span.objectSize := by
    induction widenings with
    | nil => exact fun _ => rfl
    | cons cap rest ih => exact fun span => (ih _).trans (widenCap_objectSize span cap)
  exact (widened _).trans (init_objectSize pages sizeClass cap)

theorem zeroFreeSlots_apply {span : SpanSlots.Span} (aligned : 16 ∣ span.objectSize)
    (sized : span.objectSize ≠ 0) :
    zeroFreeSlots (some ⟨false, span⟩) page buf point =
      if point < kPageSize ∧ slotOf span.objectSize page point < span.objectCount ∧
        span.bitmap (slotOf span.objectSize page point) = true then 0 else buf point := by
  have small : ¬ (false = true ∨ span.objectSize = 0) := by simp [sized]
  rw [zeroFreeSlots, if_neg small]
  by_cases inside : point < kPageSize
  · have later : page * kPageSize / span.objectSize ≤ slotOf span.objectSize page point :=
      Nat.div_le_div_right (Nat.le_add_right _ _)
    have exact := zeroFrom_page page span.bitmap aligned span.objectCount ⟨point, inside⟩
      (span.objectCount - page * kPageSize / span.objectSize)
      (page * kPageSize / span.objectSize) buf
    rw [zeroSlots_eq sized] at exact
    refine exact.trans (if_congr ?_ rfl rfl)
    change _ ≤ slotOf span.objectSize page point ∧ slotOf span.objectSize page point < _ ∧
      span.bitmap (slotOf span.objectSize page point) = true ↔ _
    constructor
    · rintro ⟨-, below, free⟩
      exact ⟨inside, by omega, free⟩
    · rintro ⟨-, below, free⟩
      exact ⟨later, by omega, free⟩
  · rw [zeroFrom_behind aligned (Nat.le_of_not_lt inside), if_neg fun both => inside both.1]

end Exact

section Main

/-- The bytes of the free slots are zeroed and no other byte changes, exactly when the bytes of the
free slots from `object_count` on are zero already. -/
theorem zero_free_slots_iff (pages : Nat) (sizeClass : SizeClass) (cap : Nat)
    (widenings : List Nat) (bits : Bits) (page : Nat) (buf : Memory) :
    let span := formed pages sizeClass cap widenings bits
    (∀ point, zeroFreeSlots (some ⟨false, span⟩) page buf point =
      if point < kPageSize ∧ span.bitmap (slotOf span.objectSize page point) = true then 0
      else buf point) ↔
    ∀ point < kPageSize, span.objectCount ≤ slotOf span.objectSize page point →
      span.bitmap (slotOf span.objectSize page point) = true → buf point = 0 := by
  intro span
  have size : span.objectSize = classSize sizeClass := formed_objectSize ..
  obtain ⟨aligned, sized⟩ := classSize_aligned sizeClass
  rw [← size] at aligned sized
  constructor
  · intro exact point inside beyond free
    have left := exact point
    rw [zeroFreeSlots_apply aligned sized, if_neg fun both => Nat.not_lt.mpr beyond both.2.1,
      if_pos ⟨inside, free⟩] at left
    exact left
  · intro zero point
    rw [zeroFreeSlots_apply aligned sized]
    by_cases free : point < kPageSize ∧ span.bitmap (slotOf span.objectSize page point) = true
    · rw [if_pos free]
      split
      · rfl
      next kept =>
        apply zero point free.1 _ free.2
        exact Nat.le_of_not_lt fun below => kept ⟨free.1, below, free.2⟩
    · rw [if_neg free, if_neg fun both => free ⟨both.1, both.2.2⟩]

-- Two pages of 128-byte objects, one slot a page: slots 0 and 32 are usable, both are free, and
-- `object_count` is 2, so the loop over the second page never starts.
theorem capped_slot_kept :
    let span := formed 2 ⟨7, by decide⟩ 1 [] fun slot => decide (slot = 0 ∨ slot = 32)
    slotOf span.objectSize 1 0 = 32 ∧ span.bitmap 32 = true ∧
      (init 2 ⟨7, by decide⟩ 1).bitmap 32 = true ∧
      zeroFreeSlots (some ⟨false, span⟩) 1 (fun _ => 7) 0 = 7 := by
  decide +kernel

end Main

end Smash.ZeroSlots
