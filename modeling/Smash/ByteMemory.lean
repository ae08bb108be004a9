import Smash.Extents

/-! Byte-addressed memory with little-endian 32-bit words, and singly linked lists of
`size`/`next` nodes threaded through the memory they describe. Links are offsets from a
base address and 0 ends a list. -/
namespace Smash.ByteMemory

open Extents List

abbrev Memory := Nat → UInt8

def AgreeOn (pre s' : Memory) (extent : Extent) : Prop :=
  ∀ address, Covers extent address → s' address = pre address

theorem AgreeOn.refl (mem : Memory) (extent : Extent) : AgreeOn mem mem extent :=
  fun _ _ => rfl

theorem AgreeOn.trans {first second third : Memory} {extent : Extent}
    (front : AgreeOn first second extent) (back : AgreeOn second third extent) :
    AgreeOn first third extent :=
  fun address covered => (back address covered).trans (front address covered)

theorem AgreeOn.within {pre s' : Memory} {inner outer : Extent}
    (agree : AgreeOn pre s' outer) (inside : Within inner outer) : AgreeOn pre s' inner := by
  intro address covered
  refine agree address ?_
  simp only [Covers, Within] at *
  omega

def overwrite (mem : Memory) (extent : Extent) (contents : Memory) : Memory :=
  fun address => if Covers extent address then contents address else mem address

theorem overwrite_apart {mem contents : Memory} {extent j : Extent}
    (apart : Apart extent j) : AgreeOn mem (overwrite mem extent contents) j := by
  intro address covered
  have outside : ¬ Covers extent address := fun inside => apart address ⟨inside, covered⟩
  simp [overwrite, outside]

def writeBytes (mem : Memory) (start : Nat) (bytes : List UInt8) : Memory :=
  overwrite mem ⟨start, bytes.length⟩ fun address => bytes.getD (address - start) 0

def readBytes (mem : Memory) (start count : Nat) : List UInt8 :=
  (List.range count).map fun i => mem (start + i)

theorem readBytes_writeBytes (mem : Memory) (start : Nat) (bytes : List UInt8) :
    readBytes (writeBytes mem start bytes) start bytes.length = bytes := by
  refine ext_getElem (by simp [readBytes]) fun i _ inside => ?_
  have covered : Covers ⟨start, bytes.length⟩ (start + i) := by
    simp only [Covers]
    omega
  simp [readBytes, writeBytes, overwrite, covered, inside]

theorem writeBytes_apart {mem : Memory} {start : Nat} {bytes : List UInt8} {j : Extent}
    (apart : Apart ⟨start, bytes.length⟩ j) :
    AgreeOn mem (writeBytes mem start bytes) j :=
  overwrite_apart apart

theorem readBytes_congr {pre s' : Memory} {start count : Nat}
    (agree : AgreeOn pre s' ⟨start, count⟩) :
    readBytes s' start count = readBytes pre start count := by
  refine map_congr_left fun i mem => agree (start + i) ?_
  have below : i < count := mem_range.mp mem
  simp only [Covers]
  omega

def byteOf (v i : Nat) : UInt8 := UInt8.ofNat (v / 256 ^ i)

def writeU32 (mem : Memory) (address v : Nat) : Memory :=
  writeBytes mem address [byteOf v 0, byteOf v 1, byteOf v 2, byteOf v 3]

def readU32 (mem : Memory) (address : Nat) : Nat :=
  (mem address).toNat + 256 * (mem (address + 1)).toNat +
    65536 * (mem (address + 2)).toNat + 16777216 * (mem (address + 3)).toNat

theorem readU32_writeU32 (mem : Memory) (address v : Nat) :
    readU32 (writeU32 mem address v) address = v % 2 ^ 32 := by
  simp only [readU32, writeU32, writeBytes, overwrite, Covers, byteOf]
  simp [UInt8.toNat_ofNat']
  omega

theorem readU32_lt (mem : Memory) (address : Nat) : readU32 mem address < 2 ^ 32 := by
  have first := (mem address).toNat_lt
  have second := (mem (address + 1)).toNat_lt
  have third := (mem (address + 2)).toNat_lt
  have fourth := (mem (address + 3)).toNat_lt
  simp only [readU32]
  omega

theorem readU32_writeU32_of_lt {mem : Memory} {address v : Nat} (small : v < 2 ^ 32) :
    readU32 (writeU32 mem address v) address = v := by
  rw [readU32_writeU32, Nat.mod_eq_of_lt small]

theorem readU32_congr {pre s' : Memory} {address : Nat}
    (agree : AgreeOn pre s' ⟨address, 4⟩) : readU32 s' address = readU32 pre address := by
  have same : ∀ i, i < 4 → s' (address + i) = pre (address + i) := by
    intro i below
    refine agree (address + i) ?_
    simp only [Covers]
    omega
  simp only [readU32]
  rw [show s' address = pre address from same 0 (by omega), same 1 (by omega),
    same 2 (by omega), same 3 (by omega)]

theorem writeU32_apart {mem : Memory} {address v : Nat} {j : Extent}
    (apart : Apart ⟨address, 4⟩ j) : AgreeOn mem (writeU32 mem address v) j :=
  writeBytes_apart apart

/-- Bytes of a node: its slot's size, then the link. -/
def nodeSize : Nat := 8

/-- The nodes from offset `head` on describe `slots` and the last link is `tail`. -/
def Segment (mem : Memory) (base : Nat) : Nat → List Extent → Nat → Prop
  | head, [], tail => head = tail
  | head, slot :: rest, tail =>
    head ≠ 0 ∧ slot.start = base + head ∧ nodeSize ≤ slot.size ∧
      readU32 mem slot.start = slot.size ∧
      Segment mem base (readU32 mem (slot.start + 4)) rest tail

theorem segment_append {mem : Memory} {base head tail : Nat} {front back : List Extent} :
    Segment mem base head (front ++ back) tail ↔
      ∃ middle, Segment mem base head front middle ∧ Segment mem base middle back tail := by
  induction front generalizing head with
  | nil => simp [Segment]
  | cons slot rest ih => simp [Segment, ih, and_assoc]

theorem Segment.nodeSize_le {memory : Memory} {base head tail : Nat} {slots : List Extent}
    (linked : Segment memory base head slots tail) : ∀ slot ∈ slots, nodeSize ≤ slot.size := by
  induction slots generalizing head with
  | nil => simp
  | cons slot rest ih =>
    obtain ⟨_, _, room, _, further⟩ := linked
    intro j mem
    rcases mem_cons.mp mem with same | later
    · exact same ▸ room
    · exact ih further j later

theorem Segment.base_lt {memory : Memory} {base head tail : Nat} {slots : List Extent}
    (linked : Segment memory base head slots tail) : ∀ slot ∈ slots, base < slot.start := by
  induction slots generalizing head with
  | nil => simp
  | cons slot rest ih =>
    obtain ⟨nonzero, place, _, _, further⟩ := linked
    intro j mem
    rcases mem_cons.mp mem with same | later
    · subst same
      omega
    · exact ih further j later

/-- A list survives every change of memory outside the nodes it runs through. -/
theorem Segment.frame {pre s' : Memory} {base head tail : Nat} {slots : List Extent}
    (linked : Segment pre base head slots tail)
    (agree : ∀ slot ∈ slots, AgreeOn pre s' ⟨slot.start, nodeSize⟩) :
    Segment s' base head slots tail := by
  induction slots generalizing head with
  | nil => exact linked
  | cons slot rest ih =>
    obtain ⟨nonzero, place, room, size, further⟩ := linked
    have here := agree slot mem_cons_self
    have sizeSame : readU32 s' slot.start = readU32 pre slot.start :=
      readU32_congr (here.within (by simp [Within, nodeSize]))
    have linkSame : readU32 s' (slot.start + 4) = readU32 pre (slot.start + 4) :=
      readU32_congr (here.within (by simp [Within, nodeSize]))
    refine ⟨nonzero, place, room, sizeSame.trans size, ?_⟩
    rw [linkSame]
    exact ih further fun j mem => agree j (mem_cons_of_mem slot mem)

theorem Segment.push {memory : Memory} {base head tail offset size : Nat} {slots : List Extent}
    (linked : Segment memory base head slots tail) (nonzero : offset ≠ 0)
    (room : nodeSize ≤ size) (smallSize : size < 2 ^ 32) (smallHead : head < 2 ^ 32)
    (apart : ∀ slot ∈ slots, Apart ⟨base + offset, nodeSize⟩ ⟨slot.start, nodeSize⟩) :
    Segment (writeU32 (writeU32 memory (base + offset) size) (base + offset + 4) head) base offset
      (⟨base + offset, size⟩ :: slots) tail := by
  refine ⟨nonzero, rfl, room, ?_, ?_⟩
  · have kept : AgreeOn (writeU32 memory (base + offset) size)
        (writeU32 (writeU32 memory (base + offset) size) (base + offset + 4) head)
        ⟨base + offset, 4⟩ :=
      writeU32_apart (apart_comm.mp (apart_of_le (Nat.le_refl _)))
    exact (readU32_congr kept).trans (readU32_writeU32_of_lt smallSize)
  · rw [readU32_writeU32_of_lt smallHead]
    refine linked.frame fun slot mem => ?_
    have separate := apart slot mem
    refine AgreeOn.trans (writeU32_apart (separate.within ?_ ?_))
      (writeU32_apart (separate.within ?_ ?_)) <;> simp [Within, nodeSize]

theorem Segment.relink {memory : Memory} {base head tail target : Nat} {front : List Extent}
    {last : Extent} (linked : Segment memory base head (front ++ [last]) tail)
    (apart : ∀ slot ∈ front, Apart ⟨last.start + 4, 4⟩ ⟨slot.start, nodeSize⟩)
    (small : target < 2 ^ 32) :
    Segment (writeU32 memory (last.start + 4) target) base head (front ++ [last]) target := by
  obtain ⟨middle, pre, nonzero, place, room, size, _⟩ := segment_append.mp linked
  refine segment_append.mpr ⟨middle, ?_, nonzero, place, room, ?_, ?_⟩
  · exact pre.frame fun slot mem => writeU32_apart (apart slot mem)
  · rw [← size]
    exact readU32_congr (writeU32_apart (apart_comm.mp (apart_of_le (Nat.le_refl _))))
  · exact readU32_writeU32_of_lt small

end Smash.ByteMemory
