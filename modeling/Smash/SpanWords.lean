import Smash.BitScan
import Smash.PageMachine
import Smash.SlotSafety

/-! A span's descriptor with its bitmap in 64-bit words, and the search for a free slot as the
allocator runs it: word by word from the hinted one, each word from its lowest set bit. The
page states and cold counts belong to the compressor; they steer the search only. The slot-level
span is a view of the descriptor, and the word-level operations are the slot-level ones seen
through it. The count of re-heated pages is left out. -/
namespace Smash.SpanWords

open BitScan Popcount SpanSlots PageMachine Function List

section Source

structure Descriptor where
  base : Nat
  pageCount : Nat
  objectSize : Nat
  fullCapacity : Nat
  objectCount : UInt16
  allocatedCount : UInt16
  freeHintWord : UInt16
  currentCap : UInt16
  residentEmpty : Bool
  emptyTick : Nat
  bitmap : Nat → Word
  pageStates : Option (Nat → PageState)
  firstPageVmIdx : Nat
  coldCounts : Option (Nat → UInt8)

/-- `g_any_page_compressed` and the value of `getCoolingCloseTicks`. -/
structure Globals where
  anyPageCompressed : Bool
  coolingCloseTicks : Int

namespace Descriptor

def numWords (span : Descriptor) : Nat := (span.fullCapacity + 63) / 64

def full (span : Descriptor) : Bool := span.allocatedCount == span.objectCount

def contains (span : Descriptor) (pointer : Nat) : Bool :=
  decide (span.base ≤ pointer) &&
    decide (pointer < span.base + span.pageCount * SpanSlots.kPageSize)

end Descriptor

def classifySlotPage (globals : Globals) (span : Descriptor) (offset : Nat) : SlotPageClass :=
  match span.pageStates with
  | none => .warm
  | some states =>
    if globals.anyPageCompressed then
      let page := span.firstPageVmIdx + offset / SpanSlots.kPageSize
      match states page with
      | .compressed => .compressed
      -- a decommitted page has nothing live on it to protect
      | .empty => .warm
      -- a page in the middle of its snapshot is about to be compressed
      | .compressing => .cooling
      | .active | .activeMonitoring | .compressedShadow =>
        match span.coldCounts with
        | none => .warm
        | some counts =>
          if 0 < globals.coolingCloseTicks ∧
              globals.coolingCloseTicks ≤ (counts page).toNat then .cooling
          else .warm
    else .warm

structure Fallback where
  cool : Option (Nat × Fin 64) := none
  comp : Option (Nat × Fin 64) := none

def pickActiveBit (globals : Globals) (span : Descriptor) (i : Nat) (word : Word)
    (fallback : Fallback) : Option (Fin 64) × Fallback :=
  if zero : word = 0#64 then (none, fallback)
  else
    let bit : Fin 64 := ⟨word.ctz.toNat, ctz_lt zero⟩
    match classifySlotPage globals span ((i * 64 + bit) * span.objectSize) with
    | .warm => (some bit, fallback)
    | .cooling =>
      pickActiveBit globals span i (word &&& (word - 1#64))
        { fallback with cool := fallback.cool.or (some (i, bit)) }
    | .compressed =>
      pickActiveBit globals span i (word &&& (word - 1#64))
        { fallback with comp := fallback.comp.or (some (i, bit)) }
termination_by word.toNat
decreasing_by all_goals exact drop_lt zero

/-- The body both loops of `allocateWarm` share, over the words they visit. -/
def scanWords (globals : Globals) (span : Descriptor) :
    List Nat → Fallback → Option (Nat × Fin 64) × Fallback
  | [], fallback => (none, fallback)
  | i :: rest, fallback =>
    if span.bitmap i = 0#64 then scanWords globals span rest fallback
    else
      match pickActiveBit globals span i (span.bitmap i) fallback with
      | (some bit, fallback) => (some (i, bit), fallback)
      | (none, fallback) => scanWords globals span rest fallback

def wordOrder (span : Descriptor) : List Nat :=
  List.range' span.freeHintWord.toNat (span.numWords - span.freeHintWord.toNat) ++
    List.range span.freeHintWord.toNat

def resetColdCountForSlot (offset : Nat) (span : Descriptor) : Descriptor :=
  { span with
    coldCounts := span.coldCounts.map fun counts =>
      update counts (span.firstPageVmIdx + offset / SpanSlots.kPageSize) 0 }

def takeSlot (i : Nat) (bit : Fin 64) (resetCold : Bool) (span : Descriptor) : Nat × Descriptor :=
  let offset := (i * 64 + bit) * span.objectSize
  let taken :=
    { span with
      bitmap := unmark span.bitmap i bit
      allocatedCount := span.allocatedCount + 1
      freeHintWord := UInt16.ofNat i }
  (span.base + offset, if resetCold then resetColdCountForSlot offset taken else taken)

def allocateWarm (globals : Globals) (span : Descriptor) : Option Nat × Fallback × Descriptor :=
  match scanWords globals span (wordOrder span) {} with
  | (some (i, bit), fallback) =>
    let (pointer, s') := takeSlot i bit true span
    (some pointer, fallback, s')
  | (none, fallback) => (none, fallback, span)

def consumeFallback (fallback : Fallback) (span : Descriptor) : Option Nat × Descriptor :=
  match fallback.cool, fallback.comp with
  | some (i, bit), _ =>
    let (pointer, s') := takeSlot i bit true span
    (some pointer, s')
  | none, some (i, bit) =>
    -- the access that will fault resets the cold count of a compressed page
    let (pointer, s') := takeSlot i bit false span
    (some pointer, s')
  | none, none => (none, span)

def allocate (globals : Globals) (span : Descriptor) : Option Nat × Descriptor :=
  match allocateWarm globals span with
  | (some pointer, _, s') => (some pointer, s')
  | (none, fallback, s') => consumeFallback fallback s'

def deallocate (pointer : Nat) (span : Descriptor) : Descriptor :=
  let slot := slotOf span.objectSize (pointer - span.base)
  { span with
    bitmap := mark span.bitmap (slot / 64) (slot % 64)
    allocatedCount := span.allocatedCount - 1
    freeHintWord := if slot / 64 < span.freeHintWord.toNat then UInt16.ofNat (slot / 64)
      else span.freeHintWord }

end Source

section View

variable {globals : Globals} {span : Descriptor}

def view (span : Descriptor) : SpanSlots.Span where
  pageCount := span.pageCount
  objectSize := span.objectSize
  fullCapacity := span.fullCapacity
  objectCount := span.objectCount.toNat
  allocatedCount := span.allocatedCount.toNat
  freeHintWord := span.freeHintWord.toNat
  currentCap := span.currentCap.toNat
  bitmap := bits span.bitmap
  residentEmpty := span.residentEmpty
  emptyTick := span.emptyTick

def slotClass (globals : Globals) (span : Descriptor) (slot : Nat) : SlotPageClass :=
  classifySlotPage globals span (slot * span.objectSize)

def slotAt (place : Nat × Fin 64) : Nat := place.1 * 64 + place.2.val

def Fallback.slots (fallback : Fallback) : AllocFallback :=
  ⟨fallback.cool.map slotAt, fallback.comp.map slotAt⟩

theorem Fallback.slots_cool (fallback : Fallback) (place : Nat × Fin 64) :
    Fallback.slots { fallback with cool := fallback.cool.or (some place) } =
      { fallback.slots with cool := fallback.slots.cool.or (some (slotAt place)) } := by
  cases fallback with
  | mk cool comp => cases cool <;> rfl

theorem Fallback.slots_comp (fallback : Fallback) (place : Nat × Fin 64) :
    Fallback.slots { fallback with comp := fallback.comp.or (some place) } =
      { fallback.slots with comp := fallback.slots.comp.or (some (slotAt place)) } := by
  cases fallback with
  | mk cool comp => cases comp <;> rfl

theorem scan_append (taken : Bits) (classify : Nat → SlotPageClass) (slots more : List Nat)
    (fallback : AllocFallback) :
    scan taken classify (slots ++ more) fallback =
      match scan taken classify slots fallback with
      | (some slot, s') => (some slot, s')
      | (none, s') => scan taken classify more s' := by
  induction slots generalizing fallback with
  | nil => rfl
  | cons slot rest ih =>
    simp only [cons_append, scan]
    split_ifs with set
    · cases classify slot with
      | warm => rfl
      | cooling => exact ih _
      | compressed => exact ih _
    · exact ih _

theorem scan_filter (taken : Bits) (classify : Nat → SlotPageClass) (slots : List Nat)
    (fallback : AllocFallback) :
    scan taken classify (slots.filter taken) fallback = scan taken classify slots fallback := by
  induction slots generalizing fallback with
  | nil => rfl
  | cons slot rest ih =>
    by_cases set : taken slot = true
    · simp only [filter_cons_of_pos set, scan, ih]
    · simp only [filter_cons_of_neg set, scan, ih, set]
      rfl

theorem pickActiveBit_scan (i : Nat) (word : Word) (fallback : Fallback)
    (free : ∀ bit ∈ setBits word, bits span.bitmap (i * 64 + bit) = true) :
    scan (bits span.bitmap) (slotClass globals span) ((setBits word).map (i * 64 + ·))
        fallback.slots =
      ((pickActiveBit globals span i word fallback).1.map (fun bit => i * 64 + bit.val),
        (pickActiveBit globals span i word fallback).2.slots) := by
  fun_induction pickActiveBit globals span i word fallback with
  | case1 fallback =>
    rw [setBits_zero]
    rfl
  | case2 word fallback nonzero bit warm =>
    rw [setBits_eq_cons nonzero] at free ⊢
    have here : slotClass globals span (i * 64 + bit.val) = .warm := warm
    simp only [map_cons, scan, free _ mem_cons_self]
    rw [here]
    rfl
  | case3 word fallback nonzero bit cooling ih =>
    rw [setBits_eq_cons nonzero] at free ⊢
    have here : slotClass globals span (i * 64 + bit.val) = .cooling := cooling
    have later := ih fun j mem => free j (mem_cons_of_mem _ mem)
    rw [Fallback.slots_cool] at later
    simp only [map_cons, scan, free _ mem_cons_self, if_true]
    rw [here]
    exact later
  | case4 word fallback nonzero bit compressed ih =>
    rw [setBits_eq_cons nonzero] at free ⊢
    have here : slotClass globals span (i * 64 + bit.val) = .compressed := compressed
    have later := ih fun j mem => free j (mem_cons_of_mem _ mem)
    rw [Fallback.slots_comp] at later
    simp only [map_cons, scan, free _ mem_cons_self, if_true]
    rw [here]
    exact later

theorem scanWords_scan (indices : List Nat) (fallback : Fallback) :
    scan (bits span.bitmap) (slotClass globals span)
        (indices.flatMap fun i => List.range' (i * 64) 64) fallback.slots =
      ((scanWords globals span indices fallback).1.map slotAt,
        (scanWords globals span indices fallback).2.slots) := by
  induction indices generalizing fallback with
  | nil => rfl
  | cons i rest ih =>
    have free : ∀ bit ∈ setBits (span.bitmap i), bits span.bitmap (i * 64 + bit) = true := by
      intro bit mem
      obtain ⟨small, set⟩ := mem_filter.mp mem
      rw [bits_at (mem_range.mp small), set]
    have word := @pickActiveBit_scan globals span i (span.bitmap i) fallback free
    rw [← filter_word, scan_filter] at word
    rw [flatMap_cons, scan_append, word, scanWords]
    split_ifs with zero
    · rw [zero, pickActiveBit, dif_pos rfl]
      exact ih fallback
    · rcases pickActiveBit globals span i (span.bitmap i) fallback with ⟨_ | bit, s'⟩
      · exact ih s'
      · rfl

theorem range'_words (start count : Nat) : List.range' (start * 64) (count * 64) =
      (List.range' start count).flatMap fun i => List.range' (i * 64) 64 := by
  induction count generalizing start with
  | zero => simp
  | succ count ih =>
    have next := ih (start + 1)
    rw [Nat.add_mul] at next
    rw [List.range'_succ, flatMap_cons, ← next, List.range'_append_1]
    congr 1
    omega

theorem scanOrder_view (span : Descriptor) : scanOrder (view span) =
      (wordOrder span).flatMap fun i => List.range' (i * 64) 64 := by
  have early := range'_words 0 span.freeHintWord.toNat
  rw [Nat.zero_mul, ← range_eq_range', ← range_eq_range'] at early
  rw [wordOrder, flatMap_append, ← range'_words, ← early]
  rfl

theorem takeSlot_view (i : Nat) (bit : Fin 64) (resetCold : Bool) (span : Descriptor) :
    view (takeSlot i bit resetCold span).2 = SpanSlots.takeSlot (view span) (slotAt (i, bit)) := by
  have marks := @bits_unmark span.bitmap i bit bit.isLt
  have word : slotAt (i, bit) / 64 = i := by
    have := bit.isLt
    unfold slotAt
    dsimp only
    omega
  have same : ∀ taken : Descriptor, view (resetColdCountForSlot
      ((i * 64 + bit) * span.objectSize) taken) = view taken := fun _ => rfl
  unfold takeSlot SpanSlots.takeSlot
  rw [word]
  dsimp only
  split_ifs
  · rw [same]
    simp only [view, marks, slotAt, word16, UInt16.toNat_add, UInt16.toNat_ofNat']
    rfl
  · simp only [view, marks, slotAt, word16, UInt16.toNat_add, UInt16.toNat_ofNat']
    rfl

def addressOf (span : Descriptor) (slot : Nat) : Nat := span.base + slot * span.objectSize

theorem allocate_view (globals : Globals) (span : Descriptor) :
    ∃ slot, SpanSlots.allocate (slotClass globals span) (view span) =
        (slot, view (allocate globals span).2) ∧
      (allocate globals span).1 = slot.map (addressOf span) := by
  have scanned : scan (view span).bitmap (slotClass globals span) (scanOrder (view span)) {} = _ :=
    scanOrder_view span ▸ @scanWords_scan globals span (wordOrder span) {}
  unfold allocate SpanSlots.allocate allocateWarm SpanSlots.allocateWarm
  rw [scanned]
  rcases scanWords globals span (wordOrder span) {} with ⟨_ | place, ⟨_ | cool, _ | comp⟩⟩
  · exact ⟨none, rfl, rfl⟩
  · exact ⟨some (slotAt comp), congrArg _ (takeSlot_view comp.1 comp.2 false span).symm, rfl⟩
  · exact ⟨some (slotAt cool), congrArg _ (takeSlot_view cool.1 cool.2 true span).symm, rfl⟩
  · exact ⟨some (slotAt cool), congrArg _ (takeSlot_view cool.1 cool.2 true span).symm, rfl⟩
  all_goals
    exact ⟨some (slotAt place), congrArg _ (takeSlot_view place.1 place.2 true span).symm, rfl⟩

end View

section Allocation

variable {globals : Globals} {span : Descriptor}

/-- A span as `init` lays it out, with any of its slots free: objects of a size class, as many as
the pages hold, and no span as large as 64 MiB. -/
structure Laid (span : Descriptor) : Prop where
  sized : ∃ sizeClass, span.objectSize = classSize sizeClass
  capacity : span.fullCapacity = span.pageCount * SpanSlots.kPageSize / span.objectSize
  small : span.pageCount * SpanSlots.kPageSize ≤ 2 ^ 26
  marks : ∀ slot, bits span.bitmap slot = true → slot < span.fullCapacity

theorem Laid.size_bounds (laid : Laid span) : 16 ≤ span.objectSize ∧ span.objectSize ≤ 2 ^ 14 := by
  obtain ⟨sc, size⟩ := laid.sized
  have bounds : ∀ sc, 16 ≤ classSize sc ∧ classSize sc ≤ 2 ^ 14 := by decide
  rw [size]
  exact bounds sc

theorem Laid.slot_end (laid : Laid span) {slot : Nat} (below : slot < span.fullCapacity) :
    slot * span.objectSize + span.objectSize ≤ span.pageCount * SpanSlots.kPageSize := by
  have whole := Nat.div_mul_le_self (span.pageCount * SpanSlots.kPageSize) span.objectSize
  rw [← laid.capacity] at whole
  rw [← Nat.succ_mul]
  exact Nat.le_trans (Nat.mul_le_mul_right _ below) whole

theorem Laid.slotOf (laid : Laid span) {slot : Nat} (below : slot < span.fullCapacity) :
    slotOf span.objectSize (slot * span.objectSize) = slot := by
  have size := laid.size_bounds
  have last := laid.slot_end below
  have small := laid.small
  have least := Nat.mul_le_mul_left slot size.1
  exact slotOf_start ⟨by omega, size.2⟩ (by omega)

/-- What the caller of `allocate` gets: the slot was free, lies inside the span and is the only one
marked; it is on a page of the best class that has a free slot, the first such slot of the walk;
and giving it back undoes the allocation. -/
structure HandsOut (globals : Globals) (span after : Descriptor) (pointer slot : Nat) : Prop where
  free : bits span.bitmap slot = true
  address : pointer = addressOf span slot
  inside : span.contains pointer = true ∧
    pointer + span.objectSize ≤ span.base + span.pageCount * SpanSlots.kPageSize
  marked : bits after.bitmap = update (bits span.bitmap) slot false
  counted : after.allocatedCount.toNat = span.allocatedCount.toNat + 1
  best : Best (slotClass globals span) (view span) slot
  restored : (deallocate pointer after).bitmap = span.bitmap
  recounted : (deallocate pointer after).allocatedCount = span.allocatedCount

theorem wordOrder_within (hinted : span.freeHintWord.toNat ≤ span.numWords) :
    ∀ i ∈ wordOrder span, i < span.numWords := by
  intro i mem
  rcases mem_append.mp mem with late | early
  · have := mem_range'_1.mp late
    omega
  · exact Nat.lt_of_lt_of_le (mem_range.mp early) hinted

theorem takeSlot_geometry (i : Nat) (bit : Fin 64) (resetCold : Bool) (span : Descriptor) :
    (takeSlot i bit resetCold span).2.base = span.base ∧
      (takeSlot i bit resetCold span).2.objectSize = span.objectSize ∧
      (takeSlot i bit resetCold span).2.allocatedCount = span.allocatedCount + 1 := by
  cases resetCold <;> exact ⟨rfl, rfl, rfl⟩

theorem allocate_geometry (globals : Globals) (span : Descriptor) {pointer : Nat}
    (handed : (allocate globals span).1 = some pointer) :
    (allocate globals span).2.base = span.base ∧
      (allocate globals span).2.objectSize = span.objectSize ∧
      (allocate globals span).2.allocatedCount = span.allocatedCount + 1 := by
  unfold allocate allocateWarm consumeFallback at handed ⊢
  revert handed
  rcases scanWords globals span (wordOrder span) {} with ⟨_ | place, ⟨_ | cool, _ | comp⟩⟩ <;>
    intro handed
  · cases handed
  · exact takeSlot_geometry comp.1 comp.2 false span
  · exact takeSlot_geometry cool.1 cool.2 true span
  · exact takeSlot_geometry cool.1 cool.2 true span
  all_goals exact takeSlot_geometry place.1 place.2 true span

theorem deallocate_slot (laid : Laid span) {s' : Descriptor} {slot : Nat}
    (below : slot < span.fullCapacity) (base : s'.base = span.base)
    (size : s'.objectSize = span.objectSize)
    (marked : bits s'.bitmap = update (bits span.bitmap) slot false)
    (free : bits span.bitmap slot = true) :
    (deallocate (addressOf span slot) s').bitmap = span.bitmap := by
  have offset : addressOf span slot - s'.base = slot * span.objectSize := by
    rw [addressOf, base, Nat.add_sub_cancel_left]
  have whole : slot / 64 * 64 + slot % 64 = slot := Nat.div_add_mod' slot 64
  apply words_ext
  change bits (mark s'.bitmap _ _) = _
  rw [offset, size, laid.slotOf below, bits_mark (Nat.mod_lt slot (by decide)), whole, marked,
    update_idem, ← free, update_eq_self]

theorem allocate_hands_out_best (globals : Globals) (laid : Laid span)
    (counted : popcount (bits span.bitmap) (span.numWords * 64) + span.allocatedCount.toNat =
      span.objectCount.toNat) (hinted : span.freeHintWord.toNat ≤ span.numWords) :
    (∀ i ∈ wordOrder span, i < span.numWords) ∧
      ((allocate globals span).1 = none ↔ ∀ slot, bits span.bitmap slot = false) ∧
      ∀ pointer, (allocate globals span).1 = some pointer →
        ∃ slot, HandsOut globals span (allocate globals span).2 pointer slot := by
  obtain ⟨found, viewed, address⟩ := allocate_view globals span
  have spec := allocate_spec (slotClass globals span) (view span)
  rw [viewed] at spec
  refine ⟨wordOrder_within hinted, ⟨fun null slot => ?_, fun clear => ?_⟩, fun pointer handed => ?_⟩
  · -- nothing was found, so every word was clear
    obtain rfl : found = none := Option.map_eq_none_iff.mp (address.symm.trans null)
    by_contra set
    have free : bits span.bitmap slot = true := by simpa using set
    have below : slot < span.numWords * 64 :=
      Nat.lt_of_lt_of_le (laid.marks slot free) (@capacity_le_numWords (view span))
    exact set (spec.2 slot below)
  · cases found with
    | none => exact address
    | some slot => cases (clear slot).symm.trans spec.1
  · obtain ⟨slot, rfl, rfl⟩ := Option.map_eq_some_iff.mp (address.symm.trans handed)
    obtain ⟨free, best⟩ := allocate_best (congrArg Prod.fst viewed)
    obtain ⟨base, size, count⟩ := allocate_geometry globals span handed
    have below : slot < span.fullCapacity := laid.marks slot free
    have marked : bits (allocate globals span).2.bitmap = update (bits span.bitmap) slot false :=
      congrArg SpanSlots.Span.bitmap spec.2
    have last := laid.slot_end below
    have sized := laid.size_bounds
    have one : span.allocatedCount.toNat + 1 < 2 ^ 16 := by
      have some := popcount_clear (Nat.lt_of_lt_of_le below
        (@capacity_le_numWords (view span))) free
      have most := span.objectCount.toNat_lt
      change _ = popcount (bits span.bitmap) (span.numWords * 64) at some
      omega
    refine ⟨slot, free, rfl, ⟨?_, ?_⟩, marked, ?_, best,
      deallocate_slot laid below base size marked free, ?_⟩
    · unfold addressOf
      exact Bool.and_eq_true_iff.mpr ⟨decide_eq_true (by omega), decide_eq_true (by omega)⟩
    · unfold addressOf
      omega
    · rw [count, UInt16.toNat_add]
      exact Nat.mod_eq_of_lt one
    · change (allocate globals span).2.allocatedCount - 1 = span.allocatedCount
      rw [count, UInt16.add_sub_cancel]

/-- Sixteen slots of 2 KiB on eight pages, with slots 1, 4 and 9 free: the first on a compressed
page, the second on one that has been cold for five ticks, the third on a warm page. -/
def mixedSpan : Descriptor where
  base := 2 ^ 20
  pageCount := 8
  objectSize := 2048
  fullCapacity := 16
  objectCount := 16
  allocatedCount := 13
  freeHintWord := 0
  currentCap := 0
  residentEmpty := false
  emptyTick := 0
  bitmap := fun i => if i = 0 then 0x212#64 else 0#64
  pageStates := some fun page => if page = 100 then .compressed else .active
  firstPageVmIdx := 100
  coldCounts := some fun page => if page = 102 then 5 else 0

theorem mixedSpan_laid : Laid mixedSpan where
  sized := ⟨⟨23, by decide⟩, rfl⟩
  capacity := rfl
  small := by decide
  marks slot free := by
    by_contra beyond
    by_cases first : slot / 64 = 0
    · have narrow : ∀ bit < 64, 16 ≤ bit → (0x212#64).getLsbD bit = false := by decide
      have clear := narrow (slot % 64) (Nat.mod_lt slot (by decide)) (by
        have : ¬ slot < 16 := beyond
        omega)
      simp [bits, mixedSpan, first] at free
      cases free.symm.trans clear
    · simp [bits, mixedSpan, first] at free

theorem mixedSpan_hands_out :
    ∃ pointer slot, HandsOut ⟨true, 3⟩ mixedSpan (allocate ⟨true, 3⟩ mixedSpan).2 pointer slot := by
  obtain ⟨-, null, handed⟩ := allocate_hands_out_best ⟨true, 3⟩ mixedSpan_laid
    (by decide +kernel) (by decide)
  cases found : (allocate ⟨true, 3⟩ mixedSpan).1 with
  | none => exact absurd (null.mp found 1) (by decide)
  | some pointer => exact ⟨pointer, handed pointer found⟩

end Allocation

end Smash.SpanWords
