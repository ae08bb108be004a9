import Smash.ColdFloor
import Smash.ProfileFile

/-! The sliding window of compression ratios in the statistics of a bucket. The ring buffer is
seen as the list of its samples; what the running sum holds after any number of samples follows,
for statistics that start empty and for those loaded from a profile. -/
namespace Smash.ProfileFile.SizeClassStats

open List

section Window

variable {stats : SizeClassStats}

/-- The samples in the ring buffer, the one to be overwritten next first. -/
def window (stats : SizeClassStats) : List UInt8 :=
  (List.range 64).map fun back => stats.ratios ((stats.head.toNat + back) % 64)

def sumOf (ratios : List UInt8) : Nat := (ratios.map UInt8.toNat).sum

def ratiosOf (samples : List (UInt64 × UInt64)) : List UInt8 :=
  samples.map fun sample => ratio sample.1 sample.2

theorem recordAll_eq (samples : List (UInt64 × UInt64)) :
    stats.recordAll samples = (ratiosOf samples).foldl push stats := by
  rw [ratiosOf, foldl_map]
  rfl

def lately (ratios : List UInt8) : List UInt8 := ratios.drop (ratios.length - 64)

structure Ring (stats : SizeClassStats) : Prop where
  head : stats.head.toNat < 64
  count : stats.count.toNat ≤ 64

@[simp] theorem window_length : stats.window.length = 64 := by simp [window]

theorem sumOf_append (front back : List UInt8) :
    sumOf (front ++ back) = sumOf front + sumOf back := by
  simp [sumOf]

theorem sumOf_replicate (count : Nat) (r : UInt8) :
    sumOf (List.replicate count r) = count * r.toNat := by
  induction count with
  | zero => simp [sumOf]
  | succ count ih =>
    rw [replicate_succ', sumOf_append, ih, Nat.succ_mul]
    simp [sumOf]

theorem sumOf_le (ratios : List UInt8) : sumOf ratios ≤ 255 * ratios.length := by
  induction ratios with
  | nil => simp [sumOf]
  | cons r rest ih =>
    have small := r.toNat_lt
    simp only [sumOf, map_cons, sum_cons, length_cons] at ih ⊢
    omega

theorem push_head (stats : SizeClassStats) (r : UInt8) :
    (stats.push r).head.toNat = (stats.head.toNat + 1) % 64 := by
  show ((stats.head + 1) % kWindow).toNat = _
  simp only [UInt8.toNat_mod, UInt8.toNat_add, kWindow, UInt8.reduceToNat]
  omega

theorem push_ring (ring : Ring stats) (r : UInt8) : Ring (stats.push r) where
  head := by rw [push_head]; omega
  count := by rw [push_count ring.count]; omega

theorem window_cons (ring : Ring stats) :
    stats.window = stats.ratios stats.head.toNat :: stats.window.tail := by
  have here : stats.head.toNat % 64 = stats.head.toNat := Nat.mod_eq_of_lt ring.head
  simp [window, range_succ_eq_map, here]

theorem window_push (ring : Ring stats) (r : UInt8) :
    (stats.push r).window = stats.window.tail ++ [r] := by
  have inside := ring.head
  have tail : stats.window.tail =
      (List.range 63).map fun back => stats.ratios ((stats.head.toNat + (back + 1)) % 64) := by
    simp [window, range_succ_eq_map]
  rw [tail, window, range_succ, map_append, push_head]
  congr 1
  · refine map_congr_left fun back mem => ?_
    have below := mem_range.mp mem
    have apart : ((stats.head.toNat + 1) % 64 + back) % 64 ≠ stats.head.toNat := by omega
    rw [show (stats.head.toNat + (back + 1)) % 64 = ((stats.head.toNat + 1) % 64 + back) % 64 by
      omega]
    exact Function.update_of_ne apart _ _
  · have last : (stats.head.toNat + 1 + 63) % 64 = stats.head.toNat := by omega
    simp [push, last]

theorem sum_push (ring : Ring stats) (r : UInt8) :
    ((stats.push r).sum.toNat +
      (if stats.count.toNat = 64 then sumOf (stats.window.take 1) else 0)) % 65536 =
      (stats.sum.toNat + r.toNat) % 65536 := by
  have first : sumOf (stats.window.take 1) = (stats.ratios stats.head.toNat).toNat := by
    rw [window_cons ring]
    simp [sumOf]
  have old := (stats.ratios stats.head.toNat).toNat_lt
  have held := stats.sum.toNat_lt
  rw [first]
  simp only [push, full_iff]
  split_ifs <;> simp only [UInt16.toNat_add, UInt16.toNat_sub, UInt8.toNat_toUInt16] <;> omega

variable (ring : Ring stats) (rs : List UInt8)
include ring

theorem pushes_ring : Ring (rs.foldl push stats) := by
  induction rs generalizing stats with
  | nil => exact ring
  | cons r rest ih => exact ih (push_ring ring r)

theorem count_pushes :
    (rs.foldl push stats).count.toNat = min 64 (stats.count.toNat + rs.length) := by
  have most := ring.count
  induction rs generalizing stats with
  | nil => simp; omega
  | cons r rest ih =>
    rw [foldl_cons, ih (push_ring ring r) (push_ring ring r).count, push_count ring.count,
      length_cons]
    omega

/-- What the running sum has lost: the samples overwritten once the count had reached 64. -/
theorem sum_pushes : ((rs.foldl push stats).sum.toNat +
    sumOf (((stats.window ++ rs).take rs.length).drop (64 - stats.count.toNat))) % 65536 =
      (stats.sum.toNat + sumOf rs) % 65536 := by
  induction rs generalizing stats with
  | nil => simp [sumOf]
  | cons r rest ih =>
    have most := ring.count
    have later := ih (push_ring ring r)
    have now := sum_push ring r
    rw [window_push ring, push_count ring.count, append_assoc] at later
    have lost : sumOf (((stats.window ++ r :: rest).take (r :: rest).length).drop
        (64 - stats.count.toNat)) =
        (if stats.count.toNat = 64 then sumOf (stats.window.take 1) else 0) +
          sumOf (((stats.window.tail ++ ([r] ++ rest)).take rest.length).drop
            (64 - min 64 (stats.count.toNat + 1))) := by
      rw [window_cons ring]
      split_ifs with full
      · rw [full]
        simp [sumOf]
      · obtain ⟨left, more⟩ : ∃ left, 64 - stats.count.toNat = left + 1 :=
          ⟨63 - stats.count.toNat, by omega⟩
        rw [more, show 64 - min 64 (stats.count.toNat + 1) = left by omega]
        simp
    have sum : sumOf (r :: rest) = r.toNat + sumOf rest := by simp [sumOf]
    rw [foldl_cons, lost, sum]
    omega

/-- After at least 64 samples the sum is that of the last 64, but for what the count did not
cover at the start. -/
theorem sum_pushes_full (enough : 64 ≤ rs.length) : ((rs.foldl push stats).sum.toNat +
    sumOf (stats.window.drop (64 - stats.count.toNat))) % 65536 =
      (stats.sum.toNat + sumOf (lately rs)) % 65536 := by
  have sum := sum_pushes ring rs
  have split : sumOf rs = sumOf (rs.take (rs.length - 64)) + sumOf (lately rs) := by
    rw [lately, ← sumOf_append, take_append_drop]
  have lost : ((stats.window ++ rs).take rs.length).drop (64 - stats.count.toNat) =
      stats.window.drop (64 - stats.count.toNat) ++ rs.take (rs.length - 64) := by
    rw [take_append, take_of_length_le (by simpa using enough), window_length,
      drop_append_of_le_length (by simp)]
  rw [lost, sumOf_append, split] at sum
  omega

theorem sum_pushes_blank (counted : stats.count = 0) (summed : stats.sum = 0) :
    (rs.foldl push stats).sum.toNat = sumOf (lately rs) := by
  have sum := sum_pushes ring rs
  have split : sumOf rs = sumOf (rs.take (rs.length - 64)) + sumOf (lately rs) := by
    rw [lately, ← sumOf_append, take_append_drop]
  have few := sumOf_le (lately rs)
  have small := (rs.foldl push stats).sum.toNat_lt
  rw [counted, summed, drop_take, drop_append_of_le_length (by simp),
    drop_eq_nil_of_le (by simp)] at sum
  simp only [UInt8.toNat_zero, UInt16.toNat_zero, nil_append, Nat.sub_zero, split, lately,
    length_drop] at sum few ⊢
  omega

end Window

section Loaded

variable (stats : SizeClassStats) (p : Persist)

theorem deserialize_count : (stats.deserialize p).count.toNat =
    if 64 < p.count.toNat then 64 else p.count.toNat / 2 := by
  show (if kWindow < p.count then kWindow else p.count / 2).toNat = _
  simp only [show kWindow < p.count ↔ 64 < p.count.toNat from UInt8.lt_iff_toNat_lt]
  split_ifs
  · rfl
  · exact UInt8.toNat_div _ _

theorem deserialize_sum : (stats.deserialize p).sum.toNat =
    p.sum.toNat * (stats.deserialize p).count.toNat / p.count.toNat := by
  have few : (stats.deserialize p).count.toNat ≤ p.count.toNat ∧
      (stats.deserialize p).count.toNat ≤ 64 := by
    rw [deserialize_count]
    split_ifs <;> omega
  have held := p.sum.toNat_lt
  have product : p.sum.toNat * (stats.deserialize p).count.toNat ≤
      p.sum.toNat * 64 := Nat.mul_le_mul_left _ few.2
  have quotient : p.sum.toNat * (stats.deserialize p).count.toNat / p.count.toNat ≤ p.sum.toNat :=
    Nat.div_le_of_le_mul (by rw [Nat.mul_comm]; exact Nat.mul_le_mul_right _ few.1)
  have divisor : p.sum.toNat * (stats.deserialize p).count.toNat /
      (max p.count 1).toNat = p.sum.toNat *
        (stats.deserialize p).count.toNat / p.count.toNat := by
    rcases Nat.eq_zero_or_pos p.count.toNat with none | some
    · simp [Nat.le_zero.mp (none ▸ few.1)]
    · congr 2
      show (if p.count ≤ 1 then 1 else p.count) = _
      split_ifs with least
      · exact UInt8.le_antisymm (UInt8.le_iff_toNat_le.mpr some) least
      · rfl
  have wide : p.sum.toNat * (stats.deserialize p).count.toNat % 2 ^ 32 =
      p.sum.toNat * (stats.deserialize p).count.toNat :=
    Nat.mod_eq_of_lt (by omega)
  show (p.sum.toUInt32 * (stats.deserialize p).count.toUInt32 /
    (max p.count 1).toUInt32).toUInt16.toNat = _
  rw [UInt32.toNat_toUInt16, UInt32.toNat_div, UInt32.toNat_mul, UInt16.toNat_toUInt32,
    UInt8.toNat_toUInt32, UInt8.toNat_toUInt32, wide, divisor, Nat.mod_eq_of_lt (by omega)]

theorem deserialize_ring : Ring (stats.deserialize p) where
  head := show (0 : UInt8).toNat < 64 by decide
  count := by
    rw [deserialize_count]
    split_ifs <;> omega

/-- The samples that a full window still has to give up after a load: ratios the array held
before, or the loaded mean where the record claims more than 64 samples. -/
theorem deserialize_rest :
    sumOf ((stats.deserialize p).window.drop
      (64 - (stats.deserialize p).count.toNat)) =
    if 64 < p.count.toNat then
      64 * ((stats.deserialize p).sum.toNat / 64 % 256)
    else sumOf ((List.range' (64 - p.count.toNat / 2) (p.count.toNat / 2)).map
      stats.ratios) := by
  have counted := deserialize_count stats p
  have start : (stats.deserialize p).window = (List.range 64).map (stats.deserialize p).ratios := by
    refine map_congr_left fun back mem => ?_
    rw [show ((stats.deserialize p).head.toNat + back) % 64 = back from by
      have below := mem_range.mp mem
      simp only [deserialize, UInt8.toNat_zero]
      omega]
  rw [start, ← map_drop, range_eq_range', drop_range']
  split_ifs at counted ⊢ with many
  · let mean := ((stats.deserialize p).sum /
      (stats.deserialize p).count.toUInt16).toUInt8
    have level : ∀ back ∈ List.range' 0 64, (stats.deserialize p).ratios back = mean :=
      fun back mem => if_pos (counted.symm ▸ (mem_range'_1.mp mem).2)
    have v : mean.toNat = (stats.deserialize p).sum.toNat / 64 % 256 := by
      rw [UInt16.toNat_toUInt8, UInt16.toNat_div, UInt8.toNat_toUInt16, counted]
    rw [counted, Nat.sub_self, Nat.zero_mul, Nat.add_zero, Nat.sub_zero, map_congr_left level,
      map_const', length_range', sumOf_replicate, v]
  · rw [counted, Nat.zero_add, Nat.mul_one,
      show 64 - (64 - p.count.toNat / 2) = p.count.toNat / 2 by omega]
    congr 1
    refine map_congr_left fun back mem => if_neg ?_
    have above := mem_range'_1.mp mem
    intro below
    have : back < (stats.deserialize p).count.toNat := below
    omega

/-- The sum a record stands for is what the window gives up of its own accord. For the zeroed
statistics of a new process it has to be zero. -/
def Fades : Prop :=
  if 64 < p.count.toNat then
    p.sum.toNat * 64 / p.count.toNat % 64 = 0 ∧
      p.sum.toNat * 64 / p.count.toNat < 64 * 256
  else p.sum.toNat * (p.count.toNat / 2) / p.count.toNat =
    sumOf ((List.range' (64 - p.count.toNat / 2) (p.count.toNat / 2)).map
      stats.ratios)

instance : Decidable (Fades stats p) := by
  unfold Fades
  infer_instance

theorem fades_iff : Fades stats p ↔ (stats.deserialize p).sum.toNat =
    sumOf ((stats.deserialize p).window.drop (64 - (stats.deserialize p).count.toNat)) := by
  rw [deserialize_rest, deserialize_sum, deserialize_count, Fades]
  split_ifs
  · generalize p.sum.toNat * 64 / p.count.toNat = sum
    omega
  · rfl

theorem loaded_history_fades_iff (samples : List (UInt64 × UInt64)) (enough : 64 ≤ samples.length) :
    (let after := (stats.deserialize p).recordAll samples
    (after.sum.toNat = sumOf (lately (ratiosOf samples)) ∧
      after.sum.toNat / after.count.toNat ≤ 255) ↔ Fades stats p) := by
  intro after
  have many : 64 ≤ (ratiosOf samples).length := by simpa [ratiosOf] using enough
  have ring := deserialize_ring stats p
  have sum := sum_pushes_full ring (ratiosOf samples) many
  have counted : after.count.toNat = 64 := by
    rw [show after = _ from recordAll_eq samples, count_pushes ring]
    omega
  have few := sumOf_le (lately (ratiosOf samples))
  have rest := sumOf_le ((stats.deserialize p).window.drop (64 - (stats.deserialize p).count.toNat))
  have small := after.sum.toNat_lt
  have loaded := (stats.deserialize p).sum.toNat_lt
  simp only [lately, length_drop, window_length] at few rest sum ⊢
  rw [← recordAll_eq, show recordAll _ samples = after from rfl] at sum
  rw [fades_iff, counted]
  omega

def fullRecord : Persist := ⟨64, 0, 64 * 255, 0, 0, 0, 0, 0, 0, 0, 0, 0⟩

/-- The mean is 382 of 255. -/
theorem loaded_history_stays :
    let s' := (deserialize default fullRecord).recordAll (List.replicate 64 (0, 4096))
    s'.sum = 64 * 255 + 32 * 255 ∧ s'.sum.toNat / s'.count.toNat = 382 := by
  decide +kernel

theorem loaded_history_fades_empty :
    let s' := (deserialize default { fullRecord with sum := 0 }).recordAll
      (List.replicate 64 (2048, 4096))
    s'.sum.toNat = 64 * 127 := by
  have faded := (loaded_history_fades_iff default { fullRecord with sum := 0 }
    (List.replicate 64 (2048, 4096)) (by decide)).mpr (by decide +kernel)
  exact faded.1.trans (by decide +kernel)

end Loaded

section AlwaysSkip

variable {stats : SizeClassStats}

theorem decisionHint_eq_one (ring : Ring stats) (enough : 8 ≤ stats.count.toNat)
    (small : stats.sum.toNat ≤ 255 * stats.count.toNat) :
    stats.decisionHint = 1 ↔ 256 * stats.sum.toNat < 13 * stats.count.toNat := by
  have most := ring.count
  have counted : ¬ stats.count < 8 := UInt8.not_lt.mpr (UInt8.le_iff_toNat_le.mpr enough)
  have quotient : stats.sum.toNat * 256 / stats.count.toNat ≤ 255 * 256 :=
    Nat.div_le_of_le_mul (by omega)
  have mean : (stats.sum.toUInt32 * 256 / stats.count.toUInt32).toUInt16 < 13 ↔
      256 * stats.sum.toNat < 13 * stats.count.toNat := by
    rw [UInt16.lt_iff_toNat_lt, UInt32.toNat_toUInt16, UInt32.toNat_div, UInt32.toNat_mul,
      UInt16.toNat_toUInt32, UInt8.toNat_toUInt32, show (256 : UInt32).toNat = 256 from rfl,
      Nat.mod_eq_of_lt (by omega : stats.sum.toNat * 256 < 2 ^ 32), Nat.mod_eq_of_lt (by omega),
      show (13 : UInt16).toNat = 13 from rfl, Nat.div_lt_iff_lt_mul (by omega)]
    omega
  simp only [decisionHint, if_neg counted, mean]
  split_ifs <;> simp_all

def gated (stats : SizeClassStats) : ColdFloor.Bucket :=
  ⟨false, stats.persistHint.toNat, stats.profileStableCold ≠ 0, stats.profileThrashRate.toNat⟩

/-- Less than 5 percent saved on average, the ratios being 255ths. -/
def SavesLittle (ratios : List UInt8) : Prop := 100 * sumOf ratios < 5 * (255 * ratios.length)

instance (ratios : List UInt8) : Decidable (SavesLittle ratios) := by
  unfold SavesLittle
  infer_instance

theorem always_skip_iff (stats : SizeClassStats) (blank : stats.head = 0 ∧ stats.count = 0 ∧
    stats.sum = 0) (samples : List (UInt64 × UInt64)) (enough : 8 ≤ samples.length) :
    let window := lately (ratiosOf samples)
    let saved := (stats.recordAll samples).serialize
    ((saved.decisionHint = 1 ↔ SavesLittle window) ∧ ∀ workers worker counts,
      ColdFloor.skipped (.bucket (gated (CompressorThread.loadRecord saved.encode workers worker)))
        counts = true ↔ SavesLittle window) ↔
      256 * sumOf window < 13 * window.length ∨ 255 * window.length ≤ 20 * sumOf window := by
  intro window saved
  have start : Ring stats := ⟨by rw [blank.1]; decide, by rw [blank.2.1]; decide⟩
  have counted := count_pushes start (ratiosOf samples)
  have summed : _ = sumOf window := sum_pushes_blank start (ratiosOf samples) blank.2.1 blank.2.2
  have length : window.length = min 64 samples.length := by
    simp only [window, lately, ratiosOf, length_drop, length_map]
    omega
  have few := sumOf_le window
  rw [blank.2.1, UInt8.toNat_zero, Nat.zero_add, ratiosOf, length_map, ← length] at counted
  have hint : saved.decisionHint = 1 ↔ 256 * sumOf window < 13 * window.length := by
    show (stats.recordAll samples).decisionHint = 1 ↔ _
    rw [recordAll_eq, decisionHint_eq_one (pushes_ring start _) ?_ ?_, summed, ratiosOf, counted]
    · rw [ratiosOf, counted]
      omega
    · rw [summed, ratiosOf, counted]
      omega
  have skips : ∀ workers worker counts,
      ColdFloor.skipped (.bucket (gated (CompressorThread.loadRecord saved.encode workers worker)))
        counts = true ↔ saved.decisionHint = 1 := fun workers worker counts => by
    rw [← UInt8.toNat_inj]
    simp [ColdFloor.skipped, gated, CompressorThread.loadRecord, Persist.decode_encode]
  constructor
  · intro exact
    have agrees := hint.symm.trans exact.1
    rw [SavesLittle] at agrees
    omega
  · intro apart
    have agrees : saved.decisionHint = 1 ↔ SavesLittle window := by
      rw [hint, SavesLittle]
      omega
    exact ⟨agrees, fun workers worker counts => (skips workers worker counts).trans agrees⟩

/-- Eight pages that shrink by 96 of 4096 bytes, 2.3 percent, do not get the hint. -/
theorem always_skip_missed :
    (recordAll default (List.replicate 8 (4000, 4096))).serialize.decisionHint = 0 ∧
      SavesLittle (lately (ratiosOf (List.replicate 8 (4000, 4096)))) := by
  decide +kernel

theorem always_skip_half :
    (recordAll default (List.replicate 8 (2048, 4096))).serialize.decisionHint ≠ 1 := by
  have exact := (always_skip_iff default ⟨rfl, rfl, rfl⟩ (List.replicate 8 (2048, 4096))
    (by decide)).mpr (by decide +kernel)
  exact fun hinted => absurd (exact.1.mp hinted) (by decide +kernel)

end AlwaysSkip

end Smash.ProfileFile.SizeClassStats
