import Smash.ProfileFile

/-! How often the pages of a bucket come back: the counters behind the thrash rate of a profile.
A worker counts the pages it stores; faults are counted in worker 0, whoever stored the page; the
save looks at the worker with the fullest window only. -/
namespace Smash.ThrashRate

open ProfileFile Transition Function
open PageMachine (kPageSize)

abbrev Workers := Fin kMaxCompressorWorkers → SizeClassStats

def first : Fin kMaxCompressorWorkers := ⟨0, workers_pos⟩

structure State where
  workers : Workers
  compressions : Nat
  decompressions : Nat

inductive Label where
  /-- `compressPage` stores the page in this many bytes. -/
  | stored (worker : Fin kMaxCompressorWorkers) (compSize : UInt64)
  /-- The ratio is too poor, or a stored page is compressed again. -/
  | sampled (worker : Fin kMaxCompressorWorkers) (compSize : UInt64)
  /-- A page of zeros needs no blob and is not counted. -/
  | zeroPage (worker : Fin kMaxCompressorWorkers)
  | faulted

def step (s : State) : Label → Option State
  | .stored worker compSize =>
    let stats := (s.workers worker).record compSize (.ofNat kPageSize)
    some { s with
      workers := update s.workers worker
        { stats with compressCount := stats.compressCount + 1 }
      compressions := s.compressions + 1 }
  | .sampled worker compSize =>
    let stats := (s.workers worker).record compSize (.ofNat kPageSize)
    some { s with workers := update s.workers worker stats }
  | .zeroPage _ => some s
  | .faulted =>
    let stats := s.workers first
    some { s with
      workers := update s.workers first
        { stats with decompressCount := stats.decompressCount + 1 }
      decompressions := s.decompressions + 1 }

/-- Only worker 0 compresses, and the counters do not overflow. -/
def OneWorker (s : State) (label : Label) : Prop :=
  (match label with
    | .stored worker _ | .sampled worker _ => worker = first
    | .zeroPage _ | .faulted => True) ∧
  s.compressions + 1 < 2 ^ 32 ∧ 255 * (s.decompressions + 1) < 2 ^ 32

/-- Before the first page: nothing is counted, and all windows are equally full, be they empty or
loaded from a profile. -/
structure Fresh (workers : Workers) : Prop where
  none_stored : (workers first).compressCount = 0
  none_back : (workers first).decompressCount = 0
  windows : ∀ worker, (workers worker).count = (workers first).count
  short : (workers first).count.toNat ≤ 64

structure Counted (state : State) : Prop where
  stored : (state.workers first).compressCount.toNat = state.compressions
  back : (state.workers first).decompressCount.toNat = state.decompressions
  fits : 255 * state.decompressions < 2 ^ 32
  windows : ∀ worker, (state.workers worker).count ≤ (state.workers first).count
  short : (state.workers first).count.toNat ≤ 64

theorem Fresh.counted {workers : Workers} (fresh : Fresh workers) : Counted ⟨workers, 0, 0⟩ where
  stored := congrArg UInt32.toNat fresh.none_stored
  back := congrArg UInt32.toNat fresh.none_back
  fits := by simp
  windows := fun worker => UInt8.le_of_eq (fresh.windows worker)
  short := fresh.short

theorem windows_update {workers : Workers} {stats : SizeClassStats}
    (windows : ∀ worker, (workers worker).count ≤ (workers first).count)
    (longer : (workers first).count ≤ stats.count) (worker : Fin kMaxCompressorWorkers) :
    (update workers first stats worker).count ≤ (update workers first stats first).count := by
  rw [update_self]
  by_cases same : worker = first
  · rw [same, update_self]
    exact UInt8.le_refl _
  · rw [update_of_ne same]
    exact UInt8.le_trans (windows worker) longer

theorem record_count {stats : SizeClassStats} (short : stats.count.toNat ≤ 64) (size : UInt64) :
    (stats.record size (.ofNat kPageSize)).count.toNat ≤ 64 ∧
      stats.count ≤ (stats.record size (.ofNat kPageSize)).count := by
  rw [UInt8.le_iff_toNat_le, SizeClassStats.record, SizeClassStats.push_count short]
  omega

theorem Counted.step {s next : State} {label : Label} (counted : Counted s)
    (alone : OneWorker s label) (moved : step s label = some next) : Counted next := by
  obtain ⟨mine, room, back⟩ := alone
  cases label with
  | stored worker size =>
    cases mine
    cases moved
    obtain ⟨short, longer⟩ := record_count counted.short size
    refine ⟨?_, ?_, counted.fits, windows_update counted.windows longer, ?_⟩
    · have now := counted.stored
      simp only [update_self, SizeClassStats.record, SizeClassStats.push, UInt32.toNat_add,
        UInt32.toNat_one, now]
      omega
    · simpa [SizeClassStats.record, SizeClassStats.push] using counted.back
    · simpa using short
  | sampled worker size =>
    cases mine
    cases moved
    obtain ⟨short, longer⟩ := record_count counted.short size
    refine ⟨?_, ?_, counted.fits, windows_update counted.windows longer, ?_⟩
    · simpa [SizeClassStats.record, SizeClassStats.push] using counted.stored
    · simpa [SizeClassStats.record, SizeClassStats.push] using counted.back
    · simpa using short
  | zeroPage worker =>
    cases moved
    exact counted
  | faulted =>
    cases moved
    refine ⟨?_, ?_, back, windows_update counted.windows (UInt8.le_refl _), ?_⟩
    · simpa using counted.stored
    · have now := counted.back
      simp only [update_self, UInt32.toNat_add, UInt32.toNat_one, now]
      omega
    · simpa using counted.short

theorem thrashRate_eq {stats : SizeClassStats} (fits : 255 * stats.decompressCount.toNat < 2 ^ 32) :
    stats.thrashRate.toNat =
      min 255 (255 * stats.decompressCount.toNat / stats.compressCount.toNat) := by
  have rate : (stats.decompressCount * 255 / stats.compressCount).toNat =
      255 * stats.decompressCount.toNat / stats.compressCount.toNat := by
    rw [UInt32.toNat_div, UInt32.toNat_mul, Nat.mul_comm, Nat.mod_eq_of_lt]
    · rfl
    · exact Nat.mul_comm 255 _ ▸ fits
  unfold SizeClassStats.thrashRate
  split
  · show (if _ then _ else _ : UInt32).toUInt8.toNat = _
    rw [UInt32.toNat_toUInt8, ← rate]
    split
    next most =>
      rw [UInt32.le_iff_toNat_le] at most
      exact (Nat.min_eq_left most).symm
    next less =>
      rw [UInt32.le_iff_toNat_le, Nat.not_le] at less
      exact (Nat.mod_eq_of_lt (Nat.lt_succ_of_lt less)).trans (Nat.min_eq_right less.le).symm
  next none =>
    rw [UInt32.lt_iff_toNat_lt, Nat.not_lt] at none
    rw [Nat.le_zero.mp none, Nat.div_zero]
    rfl

variable {builds : ByteStream.Bytes → Bool}

theorem bestWorker_first {thread : CompressorThread builds} {bucket : Nat}
    (windows : ∀ worker, (thread.scStats bucket worker).count ≤
      (thread.scStats bucket first).count) : thread.bestWorker bucket = first := by
  unfold CompressorThread.bestWorker
  change List.foldl _ first _ = first
  generalize (List.finRange kMaxCompressorWorkers).tail = others
  induction others with
  | nil => rfl
  | cons worker rest ih =>
    rw [List.foldl_cons, if_neg (UInt8.not_lt.mpr (windows worker))]
    exact ih

/-- As long as worker 0 does all the work, the saved rate is that of the bucket. -/
theorem saved_rate_of_one_worker {workers : Workers} {final : State} {labels : List Label}
    (fresh : Fresh workers) (alone : Along step OneWorker ⟨workers, 0, 0⟩ labels)
    (ran : exec step ⟨workers, 0, 0⟩ labels = some final)
    (thread : CompressorThread builds) (bucket : Nat)
    (current : thread.scStats bucket = final.workers) : (thread.mine bucket).thrashRate.toNat =
      min 255 (255 * final.decompressions / final.compressions) := by
  have counted : Counted final := invariant_of_along Counted.step fresh.counted alone ran
  have best : thread.bestWorker bucket = first := bestWorker_first (current ▸ counted.windows)
  rw [CompressorThread.mine, best, current, SizeClassStats.serialize, thrashRate_eq, counted.back,
    counted.stored]
  exact counted.back ▸ counted.fits

def unused : Workers := fun _ =>
  { (default : SizeClassStats) with count := 0, compressCount := 0, decompressCount := 0 }

def threadOf (workers : Workers) : CompressorThread fun _ => true :=
  { (default : CompressorThread fun _ => true) with scStats := fun _ => workers }

theorem saved_rate_of_fault :
    ∃ final, exec step ⟨unused, 0, 0⟩ [.stored first 100, .faulted] = some final ∧
      ((threadOf final.workers).mine 0).thrashRate.toNat = min 255 (255 * 1 / 1) :=
  ⟨_, rfl, @saved_rate_of_one_worker _ unused _ [.stored first 100, .faulted]
    ⟨rfl, rfl, fun _ => rfl, by decide⟩ (by simp [Along, OneWorker, step]) rfl _ 0 rfl⟩

/-- A page that worker 1 stores and a fault brings back: worker 1 is saved, and knows of no
fault. -/
theorem fault_not_in_saved_rate :
    ∃ final, exec step ⟨unused, 0, 0⟩ [.stored ⟨1, by decide⟩ 100, .faulted] = some final ∧
      255 * final.decompressions / final.compressions = 255 ∧
      ((threadOf final.workers).mine 0).thrashRate = 0 :=
  ⟨_, rfl, rfl, by decide +kernel⟩

end Smash.ThrashRate
