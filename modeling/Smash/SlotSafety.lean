import Smash.SpanSlots

/-! The bitmap and the counters of a span agree with what has been handed out, as long as the
16 bits kept of a per-page cap say which slots it unlocked. -/
namespace Smash.SpanSlots

open Popcount Transition Function List

section Loops

variable {size : Nat} {marked middle after : Marked} {range more : Nat → Prop}

/-- The bits of `range` are set as well, and those that were not before are counted. -/
structure Adds (size : Nat) (range : Nat → Prop) (marked after : Marked) : Prop where
  bits : ∀ slot, after.bits slot = true ↔ marked.bits slot = true ∨ range slot
  count : popcount after.bits size + marked.count = popcount marked.bits size + after.count

theorem Adds.none (empty : ∀ slot, ¬ range slot) : Adds size range marked marked where
  bits := fun slot => by simp [empty slot]
  count := rfl

theorem Adds.trans (first : Adds size range marked middle) (second : Adds size more middle after) :
    Adds size (fun slot => range slot ∨ more slot) marked after where
  bits := fun slot => by rw [second.bits, first.bits, or_assoc]
  count := by
    have := first.count
    have := second.count
    omega

theorem Adds.congr (adds : Adds size range marked after)
    (same : ∀ slot, more slot ↔ range slot) : Adds size more marked after where
  bits := fun slot => by rw [adds.bits, same]
  count := adds.count

theorem adds_one {slot : Nat} (below : slot < size) :
    Adds size (· = slot) marked
      (if marked.bits slot then marked
      else ⟨update marked.bits slot true, marked.count + 1⟩) := by
  split_ifs with already
  · exact ⟨fun j => by constructor <;> [exact .inl; rintro (set | rfl)] <;> assumption, rfl⟩
  · refine ⟨fun j => ?_, ?_⟩
    · by_cases here : j = slot
      · subst here
        simp
      · simp [here]
    · rw [popcount_set below (by simpa using already)]
      dsimp only
      omega

theorem unlockRange_adds {first start stop : Nat}
    (within : ∀ slot, first + start ≤ slot → slot < first + stop → slot < size) :
    Adds size (fun slot => first + start ≤ slot ∧ slot < first + stop) marked
      (unlockRange first start stop marked) := by
  unfold unlockRange
  by_cases empty : stop ≤ start
  · rw [Nat.sub_eq_zero_of_le empty]
    exact Adds.none fun slot => by omega
  · obtain ⟨count, rfl⟩ := Nat.exists_eq_add_of_le (Nat.le_of_not_le empty)
    rw [Nat.add_sub_cancel_left]
    clear empty
    induction count with
    | zero => exact Adds.none fun slot => by omega
    | succ count ih =>
      rw [List.range'_1_concat, foldl_append]
      have pre := ih fun slot lower upper => within slot lower (by omega)
      have last : first + (start + count) < size := within _ (by omega) (by omega)
      exact (pre.trans (adds_one last)).congr fun slot => by omega

theorem markRange_eq {first count : Nat} (clear : ∀ i < count, marked.bits (first + i) = false) :
    markRange first count marked = unlockRange first 0 count marked := by
  induction count with
  | zero => rfl
  | succ count ih =>
    have marks : markRange first (count + 1) marked =
        ⟨update (markRange first count marked).bits (first + count) true,
          (markRange first count marked).count + 1⟩ := by
      simp [markRange, range_succ]
    have unlocks : unlockRange first 0 (count + 1) marked =
        if (unlockRange first 0 count marked).bits (first + count) then
          unlockRange first 0 count marked
        else ⟨update (unlockRange first 0 count marked).bits (first + count) true,
          (unlockRange first 0 count marked).count + 1⟩ := by
      simp [unlockRange, ← range_eq_range', range_succ]
    have within : ∀ slot, first + 0 ≤ slot → slot < first + count → slot < first + count :=
      fun slot _ upper => upper
    have untouched : ¬ (unlockRange first 0 count marked).bits (first + count) = true := by
      rw [(unlockRange_adds within).bits, clear count (Nat.lt_succ_self count)]
      simp
    rw [marks, unlocks, if_neg untouched, ih fun i below => clear i (Nat.lt_succ_of_lt below)]

theorem foldl_adds {step : Nat → Marked → Marked} {ranges : Nat → Nat → Prop}
    (adds : ∀ page marked, Adds size (ranges page) marked (step page marked)) (pages : Nat)
    (marked : Marked) : Adds size (fun slot => ∃ page < pages, ranges page slot) marked
      ((List.range pages).foldl (fun marked page => step page marked) marked) := by
  induction pages with
  | zero => exact Adds.none fun slot => by simp
  | succ pages ih =>
    rw [range_succ, foldl_append]
    refine (ih.trans (adds pages _)).congr fun slot => ?_
    simp only [Nat.lt_succ_iff_lt_or_eq, or_and_right, exists_or, exists_eq_left]

end Loops

section Geometry

variable {size capacity page slot cap : Nat}

def pageOf (size slot : Nat) : Nat := slot * size / kPageSize

theorem firstSlot_le_iff (sized : 0 < size) (page slot : Nat) :
    firstSlot size page ≤ slot ↔ page ≤ pageOf size slot := by
  have pages : 0 < kPageSize := by decide
  rw [firstSlot, pageOf, Nat.le_div_iff_mul_le pages, ← Nat.lt_succ_iff,
    Nat.div_lt_iff_lt_mul sized, Nat.succ_mul]
  omega

theorem lt_firstSlot_iff (sized : 0 < size) (page slot : Nat) :
    slot < firstSlot size page ↔ pageOf size slot < page := by
  rw [← not_le, firstSlot_le_iff sized page slot, not_le]

theorem onPage_iff (sized : 0 < size) (below : slot < capacity) {bound : Nat} :
    firstSlot size page ≤ slot ∧
        slot < firstSlot size page + min (available size capacity page) bound ↔
      page = pageOf size slot ∧ slot < firstSlot size page + bound := by
  have lower := firstSlot_le_iff sized page slot
  have upper := lt_firstSlot_iff sized (page + 1) slot
  unfold available
  omega

def slotsPerPage (size : Nat) : Nat := (kPageSize + size - 1) / size

theorem slot_near_first (slot : Nat) (sized : 0 < size) :
    slot < firstSlot size (pageOf size slot) + slotsPerPage size := by
  have covers : kPageSize ≤ slotsPerPage size * size := by
    have split := Nat.div_add_mod (kPageSize + size - 1) size
    have small := Nat.mod_lt (kPageSize + size - 1) sized
    rw [slotsPerPage, Nat.mul_comm]
    omega
  have starts : pageOf size slot * kPageSize ≤ firstSlot size (pageOf size slot) * size :=
    (Nat.le_div_iff_mul_le (by decide)).mp ((firstSlot_le_iff sized _ _).mp (Nat.le_refl _))
  by_contra far
  have beyond := Nat.mul_le_mul_right size (Nat.le_of_not_lt far)
  rw [Nat.add_mul] at beyond
  have page := Nat.div_add_mod (slot * size) kPageSize
  have rest := Nat.mod_lt (slot * size) (show 0 < kPageSize by decide)
  rw [Nat.mul_comm] at page
  unfold pageOf at *
  omega

/-- The slots a stored cap stands for; a stored cap of 0 means all. -/
def Usable (size capacity stored slot : Nat) : Prop :=
  slot < capacity ∧ (stored = 0 ∨ slot < firstSlot size (pageOf size slot) + stored)

instance (size capacity stored : Nat) : DecidablePred (Usable size capacity stored) :=
  fun slot => by
  unfold Usable
  infer_instance

/-- The 16 bits kept of the cap still say which slots it unlocks. -/
def Fits (size cap : Nat) : Prop :=
  cap < word16 ∨ cap % word16 = 0 ∨ slotsPerPage size ≤ cap % word16

instance (size cap : Nat) : Decidable (Fits size cap) := by
  unfold Fits
  infer_instance

theorem slotsPerPage_le (sized : 0 < size) : slotsPerPage size ≤ kPageSize := by
  rw [slotsPerPage, ← Nat.lt_succ_iff, Nat.div_lt_iff_lt_mul sized, Nat.succ_mul]
  have := Nat.le_mul_of_pos_right kPageSize sized
  omega

theorem stored_cap (sized : 0 < size) (fits : Fits size cap) (positive : cap ≠ 0) :
    slot < firstSlot size (pageOf size slot) + cap ↔
      cap % word16 = 0 ∨ slot < firstSlot size (pageOf size slot) + cap % word16 := by
  have near := slot_near_first slot sized
  have few := slotsPerPage_le sized
  simp only [Fits, word16, kPageSize] at few fits ⊢
  rcases fits with low | none | many
  · omega
  · omega
  · omega

end Geometry

section Counters

/-- The bitmap, the counters and the slots that are out agree. -/
structure Balanced (span : Span) (held : List Nat) : Prop where
  sized : 0 < span.objectSize ∧ span.objectSize ≤ 2 ^ 14
  narrow : span.fullCapacity < word16
  pages : span.fullCapacity * span.objectSize ≤ span.pageCount * kPageSize
  marks : ∀ slot, span.bitmap slot = true ↔
    Usable span.objectSize span.fullCapacity span.currentCap slot ∧ slot ∉ held
  usable : ∀ slot ∈ held, Usable span.objectSize span.fullCapacity span.currentCap slot
  single : held.Nodup
  allocated : span.allocatedCount = held.length
  counted : popcount span.bitmap (span.numWords * 64) + span.allocatedCount = span.objectCount

variable {span : Span} {held : List Nat} {slot : Nat}

theorem capacity_le_numWords : span.fullCapacity ≤ span.numWords * 64 := by
  unfold Span.numWords
  omega

theorem lt_numWords (below : slot < span.fullCapacity) : slot < span.numWords * 64 :=
  Nat.lt_of_lt_of_le below capacity_le_numWords

theorem free_add_held_le {size capacity stored bound : Nat} {bits : Bits}
    (marks : ∀ slot, bits slot = true ↔ Usable size capacity stored slot ∧ slot ∉ held)
    (usable : ∀ slot ∈ held, Usable size capacity stored slot) (single : held.Nodup)
    (within : capacity ≤ bound) : popcount bits bound + held.length ≤ capacity := by
  rw [popcount_add_length marks single fun slot mem =>
    ⟨usable slot mem, Nat.lt_of_lt_of_le (usable slot mem).1 within⟩]
  refine (Finset.card_le_card fun slot mem => ?_).trans (Finset.card_range _).le
  exact Finset.mem_range.mpr (Finset.mem_filter.mp mem).2.1

theorem Balanced.objectCount_le (bal : Balanced span held) :
    span.objectCount ≤ span.fullCapacity := by
  have most := free_add_held_le bal.marks bal.usable bal.single capacity_le_numWords
  have := bal.counted
  have := bal.allocated
  omega

theorem Balanced.perm {j : List Nat} (bal : Balanced span held) (same : held.Perm j) :
    Balanced span j :=
  { bal with
    marks := fun slot => by rw [bal.marks, same.mem_iff]
    usable := fun slot mem => bal.usable slot (same.mem_iff.mpr mem)
    single := same.nodup_iff.mp bal.single
    allocated := bal.allocated.trans same.length_eq }

theorem Balanced.exists_free (bal : Balanced span held) (room : span.full = false) :
    ∃ slot < span.numWords * 64, span.bitmap slot = true := by
  by_contra none
  have empty : popcount span.bitmap (span.numWords * 64) = 0 := by
    rw [popcount_eq_zero]
    intro slot below
    by_contra free
    exact none ⟨slot, below, by simpa using free⟩
  have := bal.counted
  simp only [Span.full, beq_eq_false_iff_ne, ne_eq] at room
  omega

theorem Balanced.not_full (bal : Balanced span held) (free : span.bitmap slot = true) :
    span.full = false := by
  have usable := ((bal.marks slot).mp free).1
  have some : popcount span.bitmap (span.numWords * 64) ≠ 0 := by
    rw [ne_eq, popcount_eq_zero]
    intro none
    cases free.symm.trans (none slot (lt_numWords usable.1))
  have counted := bal.counted
  exact beq_eq_false_iff_ne.mpr (by omega)

/-- The slots both loops visit: on every page those between two bounds. -/
theorem visited_iff (lower upper slot : Nat) {pages size capacity : Nat} (sized : 0 < size)
    (paged : capacity * size ≤ pages * kPageSize) :
    (∃ page < pages, firstSlot size page + min (available size capacity page) lower ≤ slot ∧
        slot < firstSlot size page + min (available size capacity page) upper) ↔
      slot < capacity ∧ firstSlot size (pageOf size slot) + lower ≤ slot ∧
        slot < firstSlot size (pageOf size slot) + upper := by
  constructor
  · rintro ⟨page, -, above, below⟩
    have inside : slot < capacity := by
      unfold available at below above
      omega
    have started : firstSlot size page ≤ slot := by omega
    obtain ⟨rfl, bounded⟩ := (onPage_iff sized inside).mp ⟨started, below⟩
    refine ⟨inside, ?_, bounded⟩
    by_contra near
    have early := ((onPage_iff sized inside).mpr ⟨rfl, Nat.lt_of_not_le near⟩).2
    omega
  · rintro ⟨inside, above, below⟩
    have page : pageOf size slot < pages := by
      rw [pageOf, Nat.div_lt_iff_lt_mul (by decide)]
      exact Nat.lt_of_lt_of_le (Nat.mul_lt_mul_of_pos_right inside sized) paged
    refine ⟨pageOf size slot, page, ?_, ((onPage_iff sized inside).mpr ⟨rfl, below⟩).2⟩
    omega

theorem classSize_bounds (sc : SizeClass) : 0 < classSize sc ∧ classSize sc ≤ 2 ^ 14 := by
  revert sc
  decide

/-- The slots the sparse bitmap of `init` marks before a page are all below it, so its loop is
the unlocking loop on clear bits. -/
theorem capLoop_adds (pages cap : Nat) {size capacity bound : Nat} (sized : 0 < size)
    (within : capacity ≤ bound) :
    Adds bound (fun slot => ∃ page < pages, firstSlot size page ≤ slot ∧
        slot < firstSlot size page + min (available size capacity page) cap) ⟨fun _ => false, 0⟩
      ((List.range pages).foldl (fun marked page =>
          markRange (firstSlot size page) (min (available size capacity page) cap) marked)
        ⟨fun _ => false, 0⟩) := by
  induction pages with
  | zero => exact Adds.none fun slot => by simp
  | succ pages ih =>
    rw [range_succ, foldl_append, foldl_cons, foldl_nil, markRange_eq]
    · have inside : ∀ slot, firstSlot size pages + 0 ≤ slot →
          slot < firstSlot size pages + min (available size capacity pages) cap →
          slot < bound := by
        intro slot above below
        unfold available at below
        omega
      refine (ih.trans (unlockRange_adds inside)).congr fun slot => ?_
      simp only [Nat.lt_succ_iff_lt_or_eq, or_and_right, exists_or, exists_eq_left, Nat.add_zero]
    · intro i _
      rw [Bool.eq_false_iff, ne_eq, ih.bits]
      rintro (clear | ⟨page, earlier, above, below⟩)
      · cases clear
      · have here := (firstSlot_le_iff sized _ _).mp (Nat.le_add_right (firstSlot size pages) i)
        have there : firstSlot size pages + i < firstSlot size (page + 1) := by
          unfold available at below
          omega
        have := (lt_firstSlot_iff sized _ _).mp there
        omega

theorem init_balanced {pages cap : Nat} {sizeClass : SizeClass}
    (narrow : pages * kPageSize / classSize sizeClass < word16)
    (fits : Fits (classSize sizeClass) cap)
    (paged : pages ≠ 0 ∨ cap = 0 ∨ kPageSize ≤ classSize sizeClass) :
    Balanced (init pages sizeClass cap) [] := by
  have bounds := classSize_bounds sizeClass
  have word : pages * kPageSize / classSize sizeClass % word32 =
      pages * kPageSize / classSize sizeClass :=
    Nat.mod_eq_of_lt (Nat.lt_trans narrow (by decide))
  have half : pages * kPageSize / classSize sizeClass % word16 =
      pages * kPageSize / classSize sizeClass := Nat.mod_eq_of_lt narrow
  have spread : pages * kPageSize / classSize sizeClass * classSize sizeClass ≤
      pages * kPageSize := Nat.div_mul_le_self _ _
  unfold init
  dsimp only
  rw [word, half]
  generalize classSize sizeClass = size at *
  generalize total : pages * kPageSize / size = capacity at *
  have within : capacity ≤ (capacity + 63) / 64 * 64 := by omega
  by_cases active : 0 < cap ∧ size < kPageSize
  · have some : pages ≠ 0 := paged.resolve_right (by omega)
    have adds := capLoop_adds pages cap bounds.1 within
    generalize (List.range pages).foldl _ _ = marked at adds ⊢
    have marks : ∀ slot, marked.bits slot = true ↔
        Usable size capacity (cap % word16) slot ∧ slot ∉ ([] : List Nat) := by
      intro slot
      have visited := visited_iff 0 cap slot bounds.1 spread
      simp only [Nat.min_zero, Nat.add_zero] at visited
      rw [adds.bits, visited, Usable, ← stored_cap bounds.1 fits (by omega)]
      simp only [Bool.false_eq_true, false_or, not_mem_nil, not_false_iff, and_true]
      refine and_congr_right fun _ => and_iff_right_of_imp fun _ => ?_
      exact (firstSlot_le_iff bounds.1 _ _).mpr (Nat.le_refl _)
    have counted : popcount marked.bits ((capacity + 63) / 64 * 64) = marked.count := by
      have clear : popcount (fun _ => false) ((capacity + 63) / 64 * 64) = 0 := by
        simp [popcount_eq_zero]
      simpa [clear] using adds.count
    have most := free_add_held_le marks nofun nodup_nil within
    -- The first slot is always usable, so the loop has marked something.
    have nonempty : marked.count ≠ 0 := by
      have room : 0 < capacity := by
        rw [← total]
        exact Nat.div_pos (by simp only [kPageSize] at active ⊢; omega) bounds.1
      have first : marked.bits 0 = true := (marks 0).mpr ⟨⟨room, by omega⟩, nofun⟩
      intro zero
      rw [zero, popcount_eq_zero] at counted
      rw [counted 0 (by omega)] at first
      cases first
    rw [if_pos active, if_neg nonempty]
    refine ⟨bounds, narrow, spread, marks, nofun, nodup_nil, rfl, ?_⟩
    change popcount marked.bits ((capacity + 63) / 64 * 64) + 0 = marked.count % word16
    rw [counted, Nat.mod_eq_of_lt (by simp only [length_nil] at most; omega)]
    rfl
  · have marks : ∀ slot, decide (slot < capacity) = true ↔
        Usable size capacity 0 slot ∧ slot ∉ ([] : List Nat) := by
      simp [Usable]
    rw [if_neg active]
    refine ⟨bounds, narrow, spread, marks, nofun, nodup_nil, rfl, ?_⟩
    exact popcount_below within

theorem takeSlot_balanced (bal : Balanced span held) (free : span.bitmap slot = true) :
    Balanced (takeSlot span slot) (slot :: held) := by
  obtain ⟨usable, absent⟩ := (bal.marks slot).mp free
  have one := popcount_clear (lt_numWords usable.1) free
  have counted := bal.counted
  have most := bal.objectCount_le
  have narrow := bal.narrow
  have wrap : (span.allocatedCount + 1) % word16 = span.allocatedCount + 1 :=
    Nat.mod_eq_of_lt (by omega)
  refine ⟨bal.sized, narrow, bal.pages, fun j => ?_, ?_, ?_, ?_, ?_⟩
  · by_cases here : j = slot
    · subst here
      simp [takeSlot]
    · simpa [takeSlot, here] using bal.marks j
  · intro j mem
    rcases mem_cons.mp mem with rfl | old
    · exact usable
    · exact bal.usable j old
  · exact nodup_cons.mpr ⟨absent, bal.single⟩
  · exact wrap.trans (congrArg (· + 1) bal.allocated)
  · change popcount (update span.bitmap slot false) (span.numWords * 64) +
      (span.allocatedCount + 1) % word16 = span.objectCount
    rw [wrap]
    omega

/-- The magic number is too large by less than one part in the object size. -/
theorem divMagic_mul {size : Nat} (sized : 0 < size ∧ size ≤ 2 ^ 14) :
    ∃ excess < 2 ^ 14, size * divMagic size = 2 ^ 40 + excess := by
  have split := Nat.div_add_mod (2 ^ 40 + size - 1) size
  have small := Nat.mod_lt (2 ^ 40 + size - 1) sized.1
  refine ⟨size - 1 - (2 ^ 40 + size - 1) % size, by omega, ?_⟩
  unfold divMagic
  omega

theorem slotOf_start {size slot : Nat} (sized : 0 < size ∧ size ≤ 2 ^ 14)
    (narrow : slot < 2 ^ 24) : slotOf size (slot * size) = slot := by
  obtain ⟨excess, few, magic⟩ := divMagic_mul sized
  have error : slot * excess ≤ 2 ^ 24 * 2 ^ 14 :=
    Nat.mul_le_mul (Nat.le_of_lt narrow) (Nat.le_of_lt few)
  have product : slot * size * divMagic size = slot * 2 ^ 40 + slot * excess := by
    rw [Nat.mul_assoc, magic, Nat.mul_add]
  unfold slotOf
  rw [product]
  omega

theorem mul_divMagic_lt {d n : Nat} (low : 16 ≤ d) (high : d ≤ 2 ^ 14) (small : n < 2 ^ 26) :
    n * divMagic d < 2 ^ 64 := by
  obtain ⟨excess, few, magic⟩ := divMagic_mul ⟨by omega, high⟩
  have least := Nat.mul_le_mul_right (divMagic d) low
  have bound : n * divMagic d ≤ 2 ^ 26 * 2 ^ 37 := Nat.mul_le_mul (by omega) (by omega)
  omega

/-- Exact as long as the offset times the excess stays below `2 ^ 40`. -/
theorem mul_divMagic_div {d n : Nat} (sized : 0 < d ∧ d ≤ 2 ^ 14) (small : n < 2 ^ 26) :
    n * divMagic d / 2 ^ 40 = n / d := by
  obtain ⟨excess, few, magic⟩ := divMagic_mul sized
  have error : n * excess < 2 ^ 26 * 2 ^ 14 := Nat.mul_lt_mul'' small few
  have whole : n * divMagic d * d / 2 ^ 40 = n := by
    rw [Nat.mul_assoc, Nat.mul_comm _ d, magic, Nat.mul_add]
    omega
  calc n * divMagic d / 2 ^ 40
      = n * divMagic d * d / (2 ^ 40 * d) := (Nat.mul_div_mul_right _ _ sized.1).symm
    _ = n * divMagic d * d / 2 ^ 40 / d := (Nat.div_div_eq_div_mul ..).symm
    _ = n / d := by rw [whole]

/-- The reciprocal is exact, and so is the slot of every byte of every span a slab makes. -/
theorem slotOf_exact : (∀ d n : Nat, 16 ≤ d → d ≤ 2 ^ 14 → n < 2 ^ 26 →
      (n * divMagic d) >>> 40 = n / d ∧ n * divMagic d < 2 ^ 64) ∧
    ∀ (sc : SizeClass) (maxSlotsPerPage offset : Nat), offset < classPages sc * kPageSize →
      slotOf (init (classPages sc) sc maxSlotsPerPage).objectSize offset =
        offset / classSize sc := by
  constructor
  · intro d n low high small
    rw [Nat.shiftRight_eq_div_pow]
    exact ⟨mul_divMagic_div ⟨by omega, high⟩ small, mul_divMagic_lt low high small⟩
  · intro sc maxSlotsPerPage offset inside
    have class_bounds : ∀ sc : SizeClass, 16 ≤ classSize sc ∧ classSize sc ≤ 2 ^ 14 ∧
        classPages sc * kPageSize < 2 ^ 26 := by decide
    obtain ⟨low, high, short⟩ := class_bounds sc
    have small := Nat.lt_trans inside short
    have size : (init (classPages sc) sc maxSlotsPerPage).objectSize = classSize sc := by
      simp only [init]
      split_ifs <;> rfl
    rw [size, slotOf, Nat.mod_eq_of_lt (mul_divMagic_lt low high small),
      mul_divMagic_div ⟨by omega, high⟩ small]

theorem deallocate_balanced (bal : Balanced span held) (out : slot ∈ held) :
    Balanced (deallocate (slot * span.objectSize) span) (held.erase slot) := by
  have usable := bal.usable slot out
  have start : slotOf span.objectSize (slot * span.objectSize) = slot := slotOf_start bal.sized
      (Nat.lt_trans (Nat.lt_trans usable.1 bal.narrow) (by decide))
  have clear : span.bitmap slot = false := by
    by_contra free
    exact ((bal.marks slot).mp (by simpa using free)).2 out
  have one := popcount_set (lt_numWords usable.1) clear
  have counted := bal.counted
  have most := bal.objectCount_le
  have narrow := bal.narrow
  have some := length_pos_of_mem out
  have allocated := bal.allocated
  have wrap : (span.allocatedCount + (word16 - 1)) % word16 = span.allocatedCount - 1 := by
    have bound := narrow
    simp only [word16] at bound ⊢
    omega
  rw [deallocate, start, wrap]
  refine ⟨bal.sized, narrow, bal.pages, fun j => ?_, fun j mem => ?_, ?_, ?_, ?_⟩
  · by_cases here : j = slot
    · subst here
      simpa [bal.single.not_mem_erase] using usable
    · simp only [update_of_ne here, bal.marks, mem_erase_of_ne here]
  · exact bal.usable j (mem_of_mem_erase mem)
  · exact bal.single.erase slot
  · rw [length_erase_of_mem out, allocated]
  · change popcount (update span.bitmap slot true) (span.numWords * 64) +
      (span.allocatedCount - 1) = span.objectCount
    omega

theorem unlock_adds (bal : Balanced span held) (newCap : Nat) : Adds (span.numWords * 64)
      (fun slot => slot < span.fullCapacity ∧
        firstSlot span.objectSize (pageOf span.objectSize slot) + span.currentCap ≤ slot ∧
        (newCap = 0 ∨ slot < firstSlot span.objectSize (pageOf span.objectSize slot) + newCap))
      ⟨span.bitmap, 0⟩ (unlock span newCap) := by
  have sized := bal.sized.1
  have upper : ∀ page, (if newCap = 0 then available span.objectSize span.fullCapacity page
      else min (available span.objectSize span.fullCapacity page) newCap) =
      min (available span.objectSize span.fullCapacity page)
        (if newCap = 0 then span.fullCapacity else newCap) := by
    intro page
    unfold available
    split_ifs <;> omega
  have inside : ∀ page slot, firstSlot span.objectSize page +
        min (available span.objectSize span.fullCapacity page) span.currentCap ≤ slot →
      slot < firstSlot span.objectSize page + min (available span.objectSize span.fullCapacity page)
        (if newCap = 0 then span.fullCapacity else newCap) → slot < span.numWords * 64 := by
    intro page slot above below
    refine lt_numWords ?_
    unfold available at above below
    omega
  unfold unlock
  simp only [upper]
  refine (foldl_adds (fun page marked => unlockRange_adds (inside page)) _ _).congr fun slot => ?_
  rw [visited_iff _ _ slot sized bal.pages]
  split_ifs with dense
  · simp only [dense, true_or, and_true]
    constructor
    · rintro ⟨below, above⟩
      exact ⟨below, above, by omega⟩
    · rintro ⟨below, above, -⟩
      exact ⟨below, above⟩
  · simp only [dense, false_or]

theorem widenCap_balanced (bal : Balanced span held) {newCap : Nat}
    (fits : Fits span.objectSize newCap) (wider : newCap = 0 ∨ span.currentCap < newCap) :
    Balanced (widenCap span newCap) held := by
  have sized := bal.sized.1
  have adds := unlock_adds bal newCap
  by_cases unchanged : span.objectSize = 0 ∨ kPageSize ≤ span.objectSize ∨ span.currentCap = 0 ∨
      newCap ≠ 0 ∧ newCap ≤ span.currentCap
  · rw [widenCap, if_pos unchanged]
    exact bal
  · have capped : span.currentCap ≠ 0 := fun zero => unchanged (.inr (.inr (.inl zero)))
    -- The stored cap says which slots are usable now, and the visited slots are the others.
    have now : ∀ slot, Usable span.objectSize span.fullCapacity (newCap % word16) slot ↔
        slot < span.fullCapacity ∧
          (newCap = 0 ∨ slot < firstSlot span.objectSize (pageOf span.objectSize slot) + newCap) := by
      intro slot
      refine and_congr_right fun _ => ?_
      by_cases dense : newCap = 0
      · simp [dense]
      · simp only [dense, false_or]
        exact (stored_cap sized fits dense).symm
    have pre : ∀ slot, Usable span.objectSize span.fullCapacity span.currentCap slot ↔
        slot < span.fullCapacity ∧
          slot < firstSlot span.objectSize (pageOf span.objectSize slot) + span.currentCap :=
      fun slot => by simp [Usable, capped]
    have kept : ∀ slot ∈ held, Usable span.objectSize span.fullCapacity (newCap % word16) slot := by
      intro slot mem
      have usable := (pre slot).mp (bal.usable slot mem)
      exact (now slot).mpr ⟨usable.1, wider.imp_right fun more => by omega⟩
    have marks : ∀ slot, (unlock span newCap).bits slot = true ↔
        Usable span.objectSize span.fullCapacity (newCap % word16) slot ∧ slot ∉ held := by
      intro slot
      rw [adds.bits, bal.marks, now, pre]
      constructor
      · rintro (⟨⟨below, near⟩, free⟩ | ⟨below, far, reach⟩)
        · exact ⟨⟨below, wider.imp_right fun more => by omega⟩, free⟩
        · refine ⟨⟨below, reach⟩, fun mem => ?_⟩
          have near := ((pre slot).mp (bal.usable slot mem)).2
          omega
      · rintro ⟨⟨below, reach⟩, free⟩
        by_cases near : slot <
            firstSlot span.objectSize (pageOf span.objectSize slot) + span.currentCap
        · exact .inl ⟨⟨below, near⟩, free⟩
        · exact .inr ⟨below, Nat.le_of_not_lt near, reach⟩
    have most := free_add_held_le marks kept bal.single capacity_le_numWords
    have counted := bal.counted
    have allocated := bal.allocated
    have added := adds.count
    have narrow := bal.narrow
    dsimp only at added
    rw [widenCap, if_neg unchanged]
    dsimp only
    split_ifs with nothing
    · refine ⟨bal.sized, narrow, bal.pages, marks, kept, bal.single, allocated, ?_⟩
      change popcount (unlock span newCap).bits (span.numWords * 64) + span.allocatedCount =
        span.objectCount
      omega
    · refine ⟨bal.sized, narrow, bal.pages, marks, kept, bal.single, allocated, ?_⟩
      change popcount (unlock span newCap).bits (span.numWords * 64) + span.allocatedCount =
        min (min (span.objectCount + (unlock span newCap).count) span.fullCapacity) (word16 - 1)
      omega

end Counters

section Allocate

variable {bits : Bits} {fallback : AllocFallback} {span : Span}
variable {classify : Nat → SlotPageClass} {slot : Nat}

/-- The recorded fallback slots are free. -/
def AllocFallback.Free (bits : Bits) (fallback : AllocFallback) : Prop :=
  ∀ slot, fallback.cool = some slot ∨ fallback.comp = some slot → bits slot = true

def freeOn (bits : Bits) (classify : Nat → SlotPageClass) (pageClass : SlotPageClass)
    (slot : Nat) : Bool :=
  bits slot && decide (classify slot = pageClass)

theorem freeOn_iff {pageClass : SlotPageClass} :
    freeOn bits classify pageClass slot = true ↔ bits slot = true ∧ classify slot = pageClass := by
  simp [freeOn]

theorem scan_fst (classify : Nat → SlotPageClass) (slots : List Nat) (fallback : AllocFallback) :
    (scan bits classify slots fallback).1 = slots.find? (freeOn bits classify .warm) := by
  induction slots generalizing fallback with
  | nil => rfl
  | cons slot rest ih =>
    unfold scan
    by_cases set : bits slot = true
    · cases here : classify slot with
      | warm => simp [freeOn, set, here]
      | cooling => simp [freeOn, set, here, ih]
      | compressed => simp [freeOn, set, here, ih]
    · simp [freeOn, set, ih]

/-- A scan past no warm slot records the first free slot of either other class, unless one is
recorded already. -/
theorem scan_snd (classify : Nat → SlotPageClass) (slots : List Nat) (fallback : AllocFallback)
    (cold : slots.find? (freeOn bits classify .warm) = none) :
    (scan bits classify slots fallback).2 =
      ⟨fallback.cool.or (slots.find? (freeOn bits classify .cooling)),
        fallback.comp.or (slots.find? (freeOn bits classify .compressed))⟩ := by
  induction slots generalizing fallback with
  | nil => simp [scan]
  | cons slot rest ih =>
    rw [List.find?_cons] at cold
    split at cold
    · cases cold
    · rename_i notWarm
      unfold scan
      by_cases set : bits slot = true
      · cases here : classify slot with
        | warm => simp [freeOn, set, here] at notWarm
        | cooling =>
          have cools : freeOn bits classify .cooling slot = true := freeOn_iff.mpr ⟨set, here⟩
          have j : freeOn bits classify .compressed slot = false := by simp [freeOn, here]
          simp [cools, j, set, ih _ cold]
        | compressed =>
          have j : freeOn bits classify .cooling slot = false := by simp [freeOn, here]
          have compresses : freeOn bits classify .compressed slot = true :=
            freeOn_iff.mpr ⟨set, here⟩
          simp [compresses, j, set, ih _ cold]
      · have none : ∀ pageClass, freeOn bits classify pageClass slot = false := by
          simp [freeOn, set]
        simp [none, set, ih fallback cold]

/-- Where in the walk a slot is met: from the hinted word to the end, then from the start. -/
def scanPosition (span : Span) (slot : Nat) : Nat :=
  if span.freeHintWord * 64 ≤ slot then slot - span.freeHintWord * 64
  else slot + (span.numWords - span.freeHintWord) * 64

theorem scanOrder_sorted (span : Span) : (scanOrder span).Pairwise
      fun slot j => scanPosition span slot < scanPosition span j := by
  unfold scanOrder scanPosition
  rw [pairwise_append]
  refine ⟨?_, ?_, ?_⟩
  · refine (pairwise_lt_range' _ (Nat.lt_succ_self 0)).imp_of_mem fun {slot j} mem later less => ?_
    have := mem_range'_1.mp mem
    have := mem_range'_1.mp later
    rw [if_pos (by omega), if_pos (by omega)]
    omega
  · refine pairwise_lt_range.imp_of_mem fun {slot j} mem later less => ?_
    have := mem_range.mp mem
    have := mem_range.mp later
    rw [if_neg (by omega), if_neg (by omega)]
    omega
  · intro slot mem j later
    have := mem_range'_1.mp mem
    have := mem_range.mp later
    rw [if_pos (by omega), if_neg (by omega)]
    omega

theorem find_first {order : List Nat} {position : Nat → Nat} {test : Nat → Bool} {slot j : Nat}
    (sorted : order.Pairwise fun slot j => position slot < position j)
    (found : order.find? test = some slot) (mem : j ∈ order) (passes : test j = true) :
    position slot ≤ position j := by
  obtain ⟨-, pre, s', rfl, rejected⟩ := List.find?_eq_some_iff_append.mp found
  rcases mem_append.mp mem with early | late
  · have fails := rejected j early
    simp [passes] at fails
  · rcases mem_cons.mp late with rfl | late
    · exact Nat.le_refl _
    · have tail := (pairwise_append.mp sorted).2.1
      exact Nat.le_of_lt ((pairwise_cons.mp tail).1 j late)

def SlotPageClass.rank : SlotPageClass → Nat
  | .warm => 0
  | .cooling => 1
  | .compressed => 2

/-- No free slot is on a page of a better class, and none of the same class is met earlier. -/
def Best (classify : Nat → SlotPageClass) (span : Span) (slot : Nat) : Prop :=
  ∀ j < span.numWords * 64, span.bitmap j = true →
    (classify slot).rank < (classify j).rank ∨
      classify slot = classify j ∧ scanPosition span slot ≤ scanPosition span j

theorem mem_scanOrder (below : slot < span.numWords * 64) : slot ∈ scanOrder span := by
  simp only [scanOrder, mem_append, mem_range'_1, mem_range]
  omega

theorem skipped {pageClass : SlotPageClass}
    (none : (scanOrder span).find? (freeOn span.bitmap classify pageClass) = none)
    (below : slot < span.numWords * 64) (free : span.bitmap slot = true) :
    classify slot ≠ pageClass :=
  fun here => find?_eq_none.mp none slot (mem_scanOrder below) (freeOn_iff.mpr ⟨free, here⟩)

/-- The search takes the first free slot on a warm page, or records the first of either other
class. -/
theorem allocateWarm_search (classify : Nat → SlotPageClass) (span : Span) :
    match allocateWarm classify span with
    | (some slot, _, s') =>
      (scanOrder span).find? (freeOn span.bitmap classify .warm) = some slot ∧
        s' = takeSlot span slot
    | (none, fallback, s') => s' = span ∧
      fallback = ⟨(scanOrder span).find? (freeOn span.bitmap classify .cooling),
        (scanOrder span).find? (freeOn span.bitmap classify .compressed)⟩ ∧
      (scanOrder span).find? (freeOn span.bitmap classify .warm) = none := by
  have first : (scan span.bitmap classify (scanOrder span) {}).1 = _ :=
    scan_fst classify (scanOrder span) {}
  have second := @scan_snd span.bitmap classify (scanOrder span) {}
  unfold allocateWarm
  generalize scan span.bitmap classify (scanOrder span) {} = r at first second
  obtain ⟨_ | slot, fallback⟩ := r
  · exact ⟨rfl, second first.symm, first.symm⟩
  · exact ⟨first.symm, rfl⟩

/-- What the two-phase search of `Slab::allocate` relies on: a slot handed out is free, and a
search that comes back with neither a slot nor a fallback has seen every word clear. -/
theorem allocateWarm_spec (classify : Nat → SlotPageClass) (span : Span) :
    match allocateWarm classify span with
    | (some slot, _, s') => span.bitmap slot = true ∧ s' = takeSlot span slot
    | (none, fallback, s') => s' = span ∧ fallback.Free span.bitmap ∧
        (fallback.any = false → ∀ slot < span.numWords * 64, span.bitmap slot = false) := by
  have search := allocateWarm_search classify span
  generalize allocateWarm classify span = r at search
  obtain ⟨_ | slot, fallback, s'⟩ := r
  · obtain ⟨rfl, rfl, noWarm⟩ := search
    refine ⟨rfl, ?_, fun empty slot below => ?_⟩
    · rintro slot (cool | comp)
      · exact (freeOn_iff.mp (find?_some cool)).1
      · exact (freeOn_iff.mp (find?_some comp)).1
    · simp only [AllocFallback.any, Bool.or_eq_false_iff, Option.isSome_eq_false_iff,
        Option.isNone_iff_eq_none] at empty
      refine Bool.eq_false_iff.mpr fun free => ?_
      cases here : classify slot with
      | warm => exact skipped noWarm below free here
      | cooling => exact skipped empty.1 below free here
      | compressed => exact skipped empty.2 below free here
  · exact ⟨(freeOn_iff.mp (find?_some search.1)).1, search.2⟩

theorem consumeFallback_spec (free : fallback.Free span.bitmap) :
    match consumeFallback fallback span with
    | (some slot, s') => span.bitmap slot = true ∧ s' = takeSlot span slot
    | (none, s') => s' = span ∧ fallback.any = false := by
  rcases fallback with ⟨_ | cool, _ | comp⟩
  · exact ⟨rfl, rfl⟩
  · exact ⟨free comp (.inr rfl), rfl⟩
  · exact ⟨free cool (.inl rfl), rfl⟩
  · exact ⟨free cool (.inl rfl), rfl⟩

theorem allocate_spec (classify : Nat → SlotPageClass) (span : Span) :
    match allocate classify span with
    | (some slot, s') => span.bitmap slot = true ∧ s' = takeSlot span slot
    | (none, s') => s' = span ∧ ∀ slot < span.numWords * 64, span.bitmap slot = false := by
  have warm := allocateWarm_spec classify span
  unfold allocate
  revert warm
  rcases allocateWarm classify span with ⟨_ | slot, fallback, s'⟩
  · rintro ⟨rfl, free, nothing⟩
    have taken := consumeFallback_spec free
    dsimp only
    revert taken
    rcases consumeFallback fallback s' with ⟨_ | slot, _⟩
    · rintro ⟨rfl, empty⟩
      exact ⟨rfl, nothing empty⟩
    · exact id
  · exact id

theorem allocate_fst (classify : Nat → SlotPageClass) (span : Span) : (allocate classify span).1 =
      (((scanOrder span).find? (freeOn span.bitmap classify .warm)).or
        ((scanOrder span).find? (freeOn span.bitmap classify .cooling))).or
        ((scanOrder span).find? (freeOn span.bitmap classify .compressed)) := by
  have search := allocateWarm_search classify span
  unfold allocate
  generalize allocateWarm classify span = r at search
  obtain ⟨_ | slot, fallback, s'⟩ := r
  · obtain ⟨-, rfl, noWarm⟩ := search
    rw [noWarm]
    dsimp only
    unfold consumeFallback
    cases (scanOrder span).find? (freeOn span.bitmap classify .cooling) with
    | some slot => rfl
    | none =>
      cases (scanOrder span).find? (freeOn span.bitmap classify .compressed) with
      | some slot => rfl
      | none => rfl
  · rw [search.1]
    rfl

theorem allocate_best (taken : (allocate classify span).1 = some slot) :
    span.bitmap slot = true ∧ Best classify span slot := by
  rw [allocate_fst] at taken
  have sorted := scanOrder_sorted span
  have passed : ∀ pageClass,
      (scanOrder span).find? (freeOn span.bitmap classify pageClass) = some slot →
        span.bitmap slot = true ∧ classify slot = pageClass :=
    fun pageClass found => freeOn_iff.mp (List.find?_some found)
  have earliest : ∀ pageClass,
      (scanOrder span).find? (freeOn span.bitmap classify pageClass) = some slot →
        ∀ j < span.numWords * 64, span.bitmap j = true → classify j = pageClass →
          scanPosition span slot ≤ scanPosition span j := by
    intro pageClass found j below free here
    exact find_first sorted found (mem_scanOrder below) (freeOn_iff.mpr ⟨free, here⟩)
  rcases Option.or_eq_some_iff.mp taken with better | ⟨none, compressed⟩
  · rcases Option.or_eq_some_iff.mp better with warm | ⟨noWarm, cooling⟩
    · obtain ⟨free, here⟩ := passed .warm warm
      refine ⟨free, fun j below set => ?_⟩
      cases there : classify j with
      | warm => exact .inr ⟨here, earliest .warm warm j below set there⟩
      | cooling => simp [here, SlotPageClass.rank]
      | compressed => simp [here, SlotPageClass.rank]
    · obtain ⟨free, here⟩ := passed .cooling cooling
      refine ⟨free, fun j below set => ?_⟩
      cases there : classify j with
      | warm => exact absurd there (skipped noWarm below set)
      | cooling => exact .inr ⟨here, earliest .cooling cooling j below set there⟩
      | compressed => simp [here, SlotPageClass.rank]
  · obtain ⟨noWarm, noCooling⟩ := Option.or_eq_none_iff.mp none
    obtain ⟨free, here⟩ := passed .compressed compressed
    refine ⟨free, fun j below set => ?_⟩
    cases there : classify j with
    | warm => exact absurd there (skipped noWarm below set)
    | cooling => exact absurd there (skipped noCooling below set)
    | compressed => exact .inr ⟨here, earliest .compressed compressed j below set there⟩

theorem Balanced.allocate_some {held : List Nat} (bal : Balanced span held)
    (room : span.full = false) (classify : Nat → SlotPageClass) : ∃ slot, span.bitmap slot = true ∧
      allocate classify span = (some slot, takeSlot span slot) := by
  obtain ⟨slot, below, set⟩ := bal.exists_free room
  have spec := allocate_spec classify span
  generalize allocate classify span = r at spec
  rcases r with ⟨_ | found, s'⟩
  · cases set.symm.trans (spec.2 slot below)
  · obtain ⟨free, rfl⟩ := spec
    exact ⟨found, free, rfl⟩

end Allocate

section Runs

structure Served where
  span : Span
  held : List Nat

inductive Call where
  | allocate (classify : Nat → SlotPageClass)
  | deallocate (slot : Nat)
  | widen (cap : UInt32)

/-- One call under the slab lock. Callers free only what they hold, by its start address. -/
def serve (served : Served) : Call → Option Served
  | .allocate classify =>
    match allocate classify served.span with
    | (some slot, span) => some ⟨span, slot :: served.held⟩
    | (none, span) => some ⟨span, served.held⟩
  | .deallocate slot =>
    if slot ∈ served.held then
      some ⟨deallocate (slot * served.span.objectSize) served.span, served.held.erase slot⟩
    else none
  | .widen cap => some ⟨maybeWiden (some cap.toNat) served.span, served.held⟩

def fresh (pages : UInt32) (sc : SizeClass) (cap : UInt32) : Served :=
  ⟨init pages.toNat sc cap.toNat, []⟩

/-- The counters balance, no slot that is out is marked free, and none is out twice. -/
structure Consistent (served : Served) : Prop where
  counted : popcount served.span.bitmap (served.span.numWords * 64) +
    served.span.allocatedCount = served.span.objectCount
  unmarked : ∀ slot ∈ served.held, served.span.bitmap slot = false
  single : served.held.Nodup

/-- The span's slots can be counted in 16 bits, its bitmap has a word for the slot that is always
usable, and the 16 bits kept of the cap do not change what it means. -/
def InitFits (pages : UInt32) (sc : SizeClass) (cap : UInt32) : Prop :=
  pages.toNat * kPageSize / classSize sc < word16 ∧
    (pages ≠ 0 ∨ cap = 0 ∨ kPageSize ≤ classSize sc) ∧
    Fits (classSize sc) cap.toNat

instance (pages : UInt32) (sc : SizeClass) (cap : UInt32) : Decidable (InitFits pages sc cap) := by
  unfold InitFits
  infer_instance

/-- A cap the span is widened to means the same once it is kept in 16 bits. -/
def CapFits (served : Served) : Call → Prop
  | .widen cap => Fits served.span.objectSize cap.toNat
  | .allocate _ | .deallocate _ => True

instance (served : Served) (call : Call) : Decidable (CapFits served call) := by
  unfold CapFits
  split <;> infer_instance

variable {span : Span} {held : List Nat}

theorem Balanced.consistent (bal : Balanced span held) : Consistent ⟨span, held⟩ where
  counted := bal.counted
  unmarked slot out := Bool.eq_false_iff.mpr fun free => ((bal.marks slot).mp free).2 out
  single := bal.single

theorem maybeWiden_balanced (bal : Balanced span held) {cap : Nat}
    (fits : Fits span.objectSize cap) : Balanced (maybeWiden (some cap) span) held := by
  unfold maybeWiden
  dsimp only
  split_ifs with dense wider
  · exact bal
  · exact widenCap_balanced bal fits wider
  · exact bal

theorem allocate_balanced (bal : Balanced span held) (classify : Nat → SlotPageClass) :
    match allocate classify span with
    | (some slot, s') => Balanced s' (slot :: held)
    | (none, s') => Balanced s' held := by
  have found := allocate_spec classify span
  revert found
  rcases allocate classify span with ⟨_ | slot, s'⟩
  · rintro ⟨rfl, -⟩
    exact bal
  · rintro ⟨free, rfl⟩
    exact takeSlot_balanced bal free

theorem serve_balanced {served next : Served} {call : Call}
    (bal : Balanced served.span served.held) (fits : CapFits served call)
    (moved : serve served call = some next) : Balanced next.span next.held := by
  cases call with
  | allocate classify =>
    have s' := allocate_balanced bal classify
    unfold serve at moved
    dsimp only at moved
    revert s' moved
    rcases allocate classify served.span with ⟨_ | slot, span⟩
    · intro moved s'
      cases moved
      exact s'
    · intro moved s'
      cases moved
      exact s'
  | deallocate slot =>
    unfold serve at moved
    dsimp only at moved
    split_ifs at moved with out
    cases moved
    exact deallocate_balanced bal out
  | widen cap =>
    cases moved
    exact maybeWiden_balanced bal fits

theorem slots_served_once {pages cap : UInt32} {sizeClass : SizeClass} {calls : List Call}
    {served : Served} (fits : InitFits pages sizeClass cap)
    (capped : Along serve CapFits (fresh pages sizeClass cap) calls)
    (ran : exec serve (fresh pages sizeClass cap) calls = some served) : Consistent served := by
  obtain ⟨narrow, paged, capFits⟩ := fits
  have paged : pages.toNat ≠ 0 ∨ cap.toNat = 0 ∨ kPageSize ≤ classSize sizeClass :=
    paged.imp (mt fun zero => UInt32.toNat_inj.mp zero)
      (Or.imp_left fun zero => congrArg UInt32.toNat zero)
  have start := init_balanced narrow capFits paged
  have bal : Balanced served.span served.held := invariant_of_along serve_balanced start capped ran
  exact bal.consistent

/-- Two 3072-byte slots of a three-page span, under a cap of one slot a page that is lifted. -/
theorem slots_served_once_after_lift :
    let calls := [.allocate fun _ => .warm, .allocate fun _ => .cooling, .widen 0, .deallocate 0]
    ∃ served, exec serve (fresh 3 ⟨25, by decide⟩ 1) calls = some served ∧
      served.held = [2] ∧ Consistent served := by
  intro calls
  have shown : (exec serve (fresh 3 ⟨25, by decide⟩ 1) calls).map Served.held = some [2] := by
    decide +kernel
  obtain ⟨served, ran, held⟩ := Option.map_eq_some_iff.mp shown
  exact ⟨served, ran, held, slots_served_once (by decide +kernel) (by decide +kernel) ran⟩

/-- A cap of 65537 unlocks every slot and is kept as 1, so widening it to 2 frees slot 1 of the
page, and the next call hands it out again. -/
theorem narrowed_cap_serves_twice :
    let warm := .allocate fun _ => .warm
    ∃ served, exec serve (fresh 1 ⟨0, by decide⟩ 65537) [warm, warm, .widen 2, warm] =
        some served ∧
      served.held = [1, 1, 0] ∧ ¬ Consistent served := by
  intro warm
  have shown : (exec serve (fresh 1 ⟨0, by decide⟩ 65537) [warm, warm, .widen 2, warm]).map
      Served.held = some [1, 1, 0] := by
    decide +kernel
  obtain ⟨served, ran, held⟩ := Option.map_eq_some_iff.mp shown
  refine ⟨served, ran, held, fun consistent => ?_⟩
  have single := consistent.single
  rw [held] at single
  exact absurd single (by decide)

end Runs

end Smash.SpanSlots
