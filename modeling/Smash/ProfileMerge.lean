import Smash.ProfileFile

/-! Saves of many processes into one profile file. -/
namespace Smash.ProfileFile

open ByteStream List

variable {builds : Bytes → Bool}

/-- The record of a bucket and the flags that a reader finds in a file. -/
def diskRecord (disk : Option Bytes) (bucket : Nat) : Option Persist :=
  (disk.bind readHeader).bind fun (_, body) => (recordAt 16 body bucket).map Persist.decode

def diskFlags (disk : Option Bytes) : Option UInt32 :=
  (disk.bind readHeader).map fun (header, _) => header.flags

def afterSaves (disk : Option Bytes) (saves : List (CompressorThread builds)) : Option Bytes :=
  saves.foldl (fun disk thread => thread.saveProfileFile disk) disk

def CompressorThread.records (thread : CompressorThread builds) (bucket : Nat) : List Persist :=
  (List.finRange kMaxCompressorWorkers).map fun worker =>
    (thread.scStats bucket worker).serialize

/-- What went into a file for a bucket: the record of the file the saves began with, and those of
the threads that save. -/
def contributed (disk : Option Bytes) (saves : List (CompressorThread builds)) (bucket : Nat) :
    List Persist :=
  (diskRecord disk bucket).toList ++
    (saves.filter fun thread => thread.shouldSaveProfile).flatMap fun thread =>
      thread.records bucket

theorem contributed_append (disk : Option Bytes) (saves more : List (CompressorThread builds))
    (bucket : Nat) : contributed disk (saves ++ more) bucket = contributed disk saves bucket ++
      (more.filter fun thread => thread.shouldSaveProfile).flatMap fun thread =>
        thread.records bucket := by
  rw [contributed, filter_append, flatMap_append, ← append_assoc, contributed]

/-- The record is one of `records` with the most samples; there is none only for want of any. -/
def Best (records : List Persist) : Option Persist → Prop
  | none => records = []
  | some record => record ∈ records ∧ ∀ j ∈ records, j.count ≤ record.count

namespace CompressorThread

variable (thread : CompressorThread builds) (disk : Option Bytes)

theorem count_le_scan {Worker : Type} (count : Worker → UInt8) (workers : List Worker)
    (first : Worker) :
    ∀ worker ∈ first :: workers, count worker ≤ count (workers.foldl
      (fun best worker => if count best < count worker then worker else best) first) := by
  induction workers generalizing first with
  | nil => simp
  | cons next workers ih =>
    have kept := ih (if count first < count next then next else first)
    have start := kept _ mem_cons_self
    intro worker mem
    rw [foldl_cons]
    rcases mem_cons.mp mem with rfl | mem
    · exact UInt8.le_trans (by split <;> grind) start
    rcases mem_cons.mp mem with rfl | mem
    · exact UInt8.le_trans (by split <;> grind) start
    · exact kept worker (mem_cons_of_mem _ mem)

theorem count_le_mine (bucket : Nat) (worker : Fin kMaxCompressorWorkers) :
    (thread.scStats bucket worker).count ≤ (thread.mine bucket).count :=
  count_le_scan (fun worker => (thread.scStats bucket worker).count) _ _ worker
    (mem_finRange worker)

theorem merge_record (bucket : Fin total) :
    (thread.merge disk).1 bucket = match diskRecord disk bucket with
      | none => thread.mine bucket
      | some old => if (thread.mine bucket).count < old.count then old else thread.mine bucket := by
  rw [merge, diskRecord]
  cases disk.bind readHeader with
  | none => rfl
  | some found =>
    dsimp only [Option.bind_some]
    rw [readInto_table, if_pos ⟨Nat.zero_le _, by omega⟩, Nat.sub_zero]
    cases recordAt 16 found.2 bucket <;> rfl

variable {thread}

theorem saved_record (saves : thread.shouldSaveProfile) (bucket : Fin total) :
    diskRecord (thread.saveProfileFile disk) bucket = some ((thread.merge disk).1 bucket) := by
  have listed : bucket.1 < ((List.range total).map (thread.merge disk).1).length := by simp
  have read := recordAt_flatMap Persist.encode Persist.encode_length
    ((List.range total).map (thread.merge disk).1)
    (thread.engine.elim [] CompressEngine.section ++ leBytes 1 kDictSectionEnd) ⟨bucket, listed⟩
  rw [diskRecord, saveProfileFile, if_pos saves, Option.bind_some, readHeader_encode,
    Option.bind_some]
  dsimp only
  rw [read, Option.map_some, Persist.decode_encode]
  simp

theorem saved_flags (saves : thread.shouldSaveProfile) :
    diskFlags (thread.saveProfileFile disk) = some (thread.merge disk).2 := by
  rw [diskFlags, saveProfileFile, if_pos saves, Option.bind_some, readHeader_encode]
  rfl

theorem save_best {records : List Persist} {bucket : Fin total}
    (best : Best records (diskRecord disk bucket)) (saves : thread.shouldSaveProfile) :
    Best (records ++ thread.records bucket) (diskRecord (thread.saveProfileFile disk) bucket) := by
  have own : thread.mine bucket ∈ thread.records bucket := mem_map.mpr ⟨_, mem_finRange _, rfl⟩
  have most : ∀ j ∈ thread.records bucket, j.count ≤ (thread.mine bucket).count := by
    intro j mem
    obtain ⟨worker, _, rfl⟩ := mem_map.mp mem
    exact thread.count_le_mine bucket worker
  rw [saved_record disk saves, merge_record]
  cases found : diskRecord disk bucket with
  | none =>
    rw [found] at best
    rw [show records = [] from best]
    exact ⟨own, most⟩
  | some old =>
    rw [found] at best
    obtain ⟨h, highest⟩ := best
    dsimp only
    split
    case isTrue more =>
      refine ⟨mem_append_left _ h, fun j mem => ?_⟩
      rcases mem_append.mp mem with earlier | mine
      · exact highest j earlier
      · exact UInt8.le_trans (most j mine) (UInt8.le_of_lt more)
    case isFalse fewer =>
      refine ⟨mem_append_right _ own, fun j mem => ?_⟩
      rcases mem_append.mp mem with earlier | mine
      · exact UInt8.le_trans (highest j earlier) (UInt8.not_lt.mp fewer)
      · exact most j mine

theorem save_flags {old : UInt32} (found : diskFlags disk = some old) :
    ∃ new, diskFlags (thread.saveProfileFile disk) = some new ∧ old &&& new = old := by
  by_cases saves : thread.shouldSaveProfile
  · refine ⟨_, saved_flags disk saves, ?_⟩
    obtain ⟨parts, read, rfl⟩ := Option.map_eq_some_iff.mp found
    rw [merge, read, ← UInt32.toBitVec_inj]
    ext bit
    simpa using Or.inr
  · rw [saveProfileFile, if_neg saves]
    exact ⟨old, found, UInt32.and_self⟩

end CompressorThread

theorem best_afterSaves (disk : Option Bytes) (saves : List (CompressorThread builds))
    (bucket : Fin total) :
    Best (contributed disk saves bucket) (diskRecord (afterSaves disk saves) bucket) := by
  induction saves using List.reverseRecOn with
  | nil =>
    rw [contributed, afterSaves, filter_nil, flatMap_nil, append_nil, foldl_nil]
    cases diskRecord disk bucket <;> simp [Best]
  | append_singleton saves thread ih =>
    rw [afterSaves, foldl_append, contributed_append]
    by_cases writes : thread.shouldSaveProfile
    · simpa [writes, afterSaves] using CompressorThread.save_best _ ih writes
    · rw [filter_cons_of_neg writes, filter_nil, flatMap_nil, append_nil,
        foldl_cons, foldl_nil, CompressorThread.saveProfileFile, if_neg writes]
      exact ih

theorem flags_afterSaves {disk : Option Bytes} {old : UInt32} (found : diskFlags disk = some old)
    (saves : List (CompressorThread builds)) :
    ∃ new, diskFlags (afterSaves disk saves) = some new ∧ old &&& new = old := by
  induction saves using List.reverseRecOn with
  | nil => exact ⟨old, found, UInt32.and_self⟩
  | append_singleton saves thread ih =>
    obtain ⟨middle, h, gained⟩ := ih
    obtain ⟨new, written, kept⟩ := thread.save_flags _ h
    rw [afterSaves, foldl_append]
    exact ⟨new, written, by rw [← gained, UInt32.and_assoc, kept]⟩

/-- The record of every bucket is one of those contributed with the most samples, its count never
falls, and no flag is lost. -/
theorem saves_keep_best (disk : Option Bytes) (saves more : List (CompressorThread builds))
    (bucket : Fin total) :
    Best (contributed disk saves bucket) (diskRecord (afterSaves disk saves) bucket) ∧
      (∀ old, diskRecord (afterSaves disk saves) bucket = some old →
        ∃ new, diskRecord (afterSaves disk (saves ++ more)) bucket = some new ∧
          old.count ≤ new.count) ∧ ∀ old, diskFlags (afterSaves disk saves) = some old →
        ∃ new, diskFlags (afterSaves disk (saves ++ more)) = some new ∧ old &&& new = old := by
  have now := best_afterSaves disk saves bucket
  refine ⟨now, fun old found => ?_, fun old found => ?_⟩
  · rw [found] at now
    have kept : old ∈ contributed disk (saves ++ more) bucket := by
      rw [contributed_append]
      exact mem_append_left _ now.1
    have later := best_afterSaves disk (saves ++ more) bucket
    cases written : diskRecord (afterSaves disk (saves ++ more)) bucket with
    | none =>
      rw [written] at later
      rw [show contributed disk (saves ++ more) bucket = [] from later] at kept
      cases kept
    | some new =>
      rw [written] at later
      exact ⟨new, rfl, later.2 old kept⟩
  · rw [afterSaves, foldl_append]
    exact flags_afterSaves found more

end Smash.ProfileFile
