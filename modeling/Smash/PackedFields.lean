import Mathlib.Algebra.Order.Ring.Nat
import Mathlib.Data.List.Basic

/-! Streams of small fields packed into 32-bit words: appending a field to cleared words with
`|=` and reading a field back with a shift and a mask. Memory is a function from word indices;
a stream starts at a base and owns a number of words there. -/
namespace Smash.PackedFields

open Function List

abbrev Word := BitVec 32
abbrev Memory := Nat → Word

section Memory

def clear (mem : Memory) (start count : Nat) : Memory := fun i =>
  if start ≤ i ∧ i < start + count then 0#32 else mem i

/-- `memcpy` between buffers that do not overlap. -/
def copy (mem : Memory) (start : Nat) (source : Memory) (first count : Nat) : Memory :=
  fun i =>
    if start ≤ i ∧ i < start + count then source (first + (i - start))
    else mem i

variable {mem source : Memory} {start first count i : Nat}

theorem clear_inside (within : i < count) : clear mem start count (start + i) = 0#32 :=
  if_pos ⟨Nat.le_add_right start i, Nat.add_lt_add_left within start⟩

theorem copy_inside (within : i < count) :
    copy mem start source first count (start + i) = source (first + i) := by
  unfold copy
  rw [if_pos ⟨Nat.le_add_right start i, Nat.add_lt_add_left within start⟩, Nat.add_sub_cancel_left]

theorem copy_below (below : i < start) : copy mem start source first count i = mem i :=
  if_neg fun inside => Nat.not_le_of_lt below inside.1

/-- The words from `base` on are those of the list. -/
def Stores (mem : Memory) (base : Nat) (words : List Word) : Prop :=
  ∀ i (below : i < words.length), mem (base + i) = words[i]

theorem Stores.transfer {j : Memory} {base : Nat} {words : List Word}
    (stores : Stores mem base words)
    (same : ∀ i < words.length, j (base + i) = mem (base + i)) : Stores j base words :=
  fun i below => (same i below).trans (stores i below)

theorem Stores.push {base : Nat} {words : List Word} (stores : Stores mem base words)
    (word : Word) : Stores (update mem (base + words.length) word) base (words ++ [word]) := by
  intro i below
  rw [length_append, length_singleton] at below
  by_cases last : i = words.length
  · subst last
    simp
  · have early : i < words.length := by omega
    rw [update_of_ne (by omega), stores i early, getElem_append_left early]

end Memory

/-- Fields of `width` bits, `perWord` to a word. -/
structure Format where
  width : Nat
  perWord : Nat
  positive : 0 < perWord
  fits : perWord * width ≤ 32

namespace Format

variable (format : Format)

def mask : Word := BitVec.ofNat 32 (2 ^ format.width - 1)

def shift (i : Nat) : Nat := i % format.perWord * format.width

def get (mem : Memory) (base i : Nat) : Word :=
  (mem (base + i / format.perWord) >>> format.shift i) &&& format.mask

def put (mem : Memory) (base i : Nat) (v : Word) : Memory :=
  update mem (base + i / format.perWord)
    (mem (base + i / format.perWord) ||| v <<< format.shift i)

def wordsFor (count : Nat) : Nat := (count + (format.perWord - 1)) / format.perWord

def Small (v : Word) : Prop := v &&& format.mask = v

variable {format} {memory j : Memory} {base idx count : Nat} {v : Word}

theorem word_lt_wordsFor (below : idx < count) : idx / format.perWord < format.wordsFor count := by
  have positive := format.positive
  unfold wordsFor
  rw [Nat.div_lt_iff_lt_mul positive]
  have split := Nat.div_add_mod (count + (format.perWord - 1)) format.perWord
  have rest := Nat.mod_lt (count + (format.perWord - 1)) positive
  rw [Nat.mul_comm]
  omega

theorem shift_add_width_le (idx : Nat) : format.shift idx + format.width ≤ 32 := by
  have slot := Nat.mod_lt idx format.positive
  calc format.shift idx + format.width = (idx % format.perWord + 1) * format.width :=
        (Nat.succ_mul _ _).symm
    _ ≤ format.perWord * format.width := Nat.mul_le_mul_right _ slot
    _ ≤ 32 := format.fits

theorem shift_apart {first second : Nat}
    (lower : first % format.perWord < second % format.perWord) :
    format.shift first + format.width ≤ format.shift second := by
  calc format.shift first + format.width = (first % format.perWord + 1) * format.width :=
        (Nat.succ_mul _ _).symm
    _ ≤ format.shift second := Nat.mul_le_mul_right _ lower

theorem getLsbD_mask {bit : Nat} (below : bit < 32) :
    format.mask.getLsbD bit = decide (bit < format.width) := by
  unfold mask
  rw [BitVec.getLsbD_ofNat, Nat.testBit_two_pow_sub_one, decide_eq_true below, Bool.true_and]

theorem getLsbD_get {bit : Nat} (below : bit < 32) : (format.get memory base idx).getLsbD bit =
      ((memory (base + idx / format.perWord)).getLsbD (format.shift idx + bit) &&
        decide (bit < format.width)) := by
  unfold get
  rw [BitVec.getLsbD_and, getLsbD_mask below, BitVec.getLsbD_ushiftRight]

theorem Small.high {bit : Nat} (small : format.Small v) (beyond : format.width ≤ bit) :
    v.getLsbD bit = false := by
  by_cases below : bit < 32
  · rw [← small, BitVec.getLsbD_and, getLsbD_mask below, decide_eq_false (Nat.not_lt.mpr beyond),
      Bool.and_false]
  · exact BitVec.getLsbD_of_ge v bit (Nat.le_of_not_lt below)

theorem get_congr (same : j (base + idx / format.perWord) =
    memory (base + idx / format.perWord)) :
    format.get j base idx = format.get memory base idx := by
  rw [get, same, get]

theorem get_put_self (blank : format.get memory base idx = 0#32) (small : format.Small v) :
    format.get (format.put memory base idx v) base idx = v := by
  apply BitVec.eq_of_getLsbD_eq
  intro bit below
  have clear := congrArg (BitVec.getLsbD · bit) blank
  simp only [getLsbD_get below, BitVec.getLsbD_zero] at clear
  rw [getLsbD_get below, put, update_self, BitVec.getLsbD_or, BitVec.getLsbD_shiftLeft]
  have room := format.shift_add_width_le idx
  by_cases inside : bit < format.width
  · rw [decide_eq_true inside, Bool.and_true] at clear
    have position : format.shift idx + bit < 32 := by omega
    have s' : ¬ format.shift idx + bit < format.shift idx := by omega
    rw [clear, decide_eq_true position, decide_eq_false s', decide_eq_true inside,
      Nat.add_sub_cancel_left]
    simp
  · rw [small.high (Nat.le_of_not_lt inside), decide_eq_false inside, Bool.and_false]

theorem get_put_other {position : Nat} (apart : position ≠ idx) (small : format.Small v) :
    format.get (format.put memory base idx v) base position =
      format.get memory base position := by
  by_cases word : position / format.perWord = idx / format.perWord
  · apply BitVec.eq_of_getLsbD_eq
    intro bit below
    rw [getLsbD_get below, getLsbD_get below, put, word, update_self, BitVec.getLsbD_or,
      BitVec.getLsbD_shiftLeft]
    by_cases inside : bit < format.width
    · have slots : position % format.perWord ≠ idx % format.perWord := by
        intro same
        apply apart
        rw [← Nat.div_add_mod position format.perWord, word, same, Nat.div_add_mod]
      rcases Nat.lt_or_gt_of_ne slots with lower | higher
      · -- the field read lies below the one written
        have gap := format.shift_apart lower
        have pre : format.shift position + bit < format.shift idx := by omega
        simp [pre]
      · have gap := format.shift_apart higher
        have beyond : format.width ≤ format.shift position + bit - format.shift idx := by omega
        rw [small.high beyond, Bool.and_false, Bool.or_false]
    · rw [decide_eq_false inside, Bool.and_false, Bool.and_false]
  · apply get_congr
    unfold put
    rw [update_of_ne (by omega)]

section Streams

variable {fields : List Word} {room : Nat}

def Reads (format : Format) (memory : Memory) (base : Nat) (fields : List Word) : Prop :=
  ∀ idx (below : idx < fields.length), format.get memory base idx = fields[idx]

theorem Reads.transfer {place : Nat} (reads : format.Reads memory base fields)
    (same : ∀ word < format.wordsFor fields.length, j (place + word) = memory (base + word)) :
    format.Reads j place fields := by
  intro idx below
  rw [← reads idx below, get, get, same _ (word_lt_wordsFor below)]

/-- A stream being written: what was appended can be read and the rest of its words is clear. -/
structure Holds (format : Format) (memory : Memory) (base room : Nat) (fields : List Word) :
    Prop where
  reads : format.Reads memory base fields
  blank : ∀ idx, fields.length ≤ idx → idx / format.perWord < room →
    format.get memory base idx = 0#32

theorem holds_clear (format : Format) (memory : Memory) (base room : Nat) :
    format.Holds (clear memory base room) base room [] where
  reads := nofun
  blank idx _ inside := by
    rw [get, clear_inside inside, BitVec.zero_ushiftRight, BitVec.zero_and]

theorem Holds.transfer (holds : format.Holds memory base room fields)
    (inside : format.wordsFor fields.length ≤ room)
    (same : ∀ word < room, j (base + word) = memory (base + word)) :
    format.Holds j base room fields where
  reads := holds.reads.transfer fun word below => same word (Nat.lt_of_lt_of_le below inside)
  blank idx later within := by
    rw [get_congr (same _ within), holds.blank idx later within]

theorem Holds.put (holds : format.Holds memory base room fields)
    (space : fields.length / format.perWord < room) (small : format.Small v) :
    format.Holds (format.put memory base fields.length v) base room (fields ++ [v]) where
  reads := by
    intro idx below
    rw [length_append, length_singleton] at below
    by_cases last : idx = fields.length
    · subst last
      rw [get_put_self (holds.blank _ (Nat.le_refl _) space) small]
      simp
    · have early : idx < fields.length := by omega
      rw [get_put_other last small, holds.reads idx early, getElem_append_left early]
  blank := by
    intro idx later within
    rw [length_append, length_singleton] at later
    rw [get_put_other (by omega) small, holds.blank idx (by omega) within]

theorem put_outside {position : Nat} (apart : position ≠ base + idx / format.perWord) :
    format.put memory base idx v position = memory position :=
  update_of_ne apart _ _

end Streams

end Format

end Smash.PackedFields
