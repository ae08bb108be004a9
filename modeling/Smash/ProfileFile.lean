import Mathlib.Data.Fin.VecNotation
import Mathlib.Data.List.FinRange
import Smash.ByteStream
import Smash.PageMap

/-! The profile file, in which a process leaves its compression statistics and dictionaries for
later runs. Numbers keep the widths of the source and wrap as they do there. The file lock orders
the saves of all processes, so a save is one step from the old file to the new one; `none` stands
for no file. `SMASH_PROFILE_FILE` is set and file operations succeed. -/
namespace Smash.ProfileFile

open ByteStream
open PageMap (kNumClasses)

def kProfileMagic : UInt32 := 0x53503031
def kProfileVersion : UInt32 := 6
def kNumArenas : Nat := 128
def kTotalBucketsPerArena : Nat := kNumClasses + 8
def kMaxCompressorWorkers : Nat := 8

theorem workers_pos : 0 < kMaxCompressorWorkers := by decide
def kWindow : UInt8 := 64
def kDictCapacity : Nat := 16 * 1024
def kMaxDictBytes : Nat := 64 * 1024
def kDictSectionEnd : Nat := 255
def kProfileFlagExternalHot : UInt32 := 1

def total : Nat := kNumArenas * kTotalBucketsPerArena

section Records

@[ext] structure Persist where
  count : UInt8
  decisionHint : UInt8
  sum : UInt16
  costEmaX16T0 : UInt16
  costEmaX16T1 : UInt16
  costCountT0 : UInt8
  costCountT1 : UInt8
  efficiencyX256 : UInt16
  thrashRate : UInt8
  bestTier : UInt8
  stableCold : UInt8
  pad : UInt8
  deriving DecidableEq, Repr

def Persist.encode (record : Persist) : Bytes :=
  leBytes 1 record.count.toNat ++ leBytes 1 record.decisionHint.toNat ++
    leBytes 2 record.sum.toNat ++ leBytes 2 record.costEmaX16T0.toNat ++
    leBytes 2 record.costEmaX16T1.toNat ++ leBytes 1 record.costCountT0.toNat ++
    leBytes 1 record.costCountT1.toNat ++ leBytes 2 record.efficiencyX256.toNat ++
    leBytes 1 record.thrashRate.toNat ++ leBytes 1 record.bestTier.toNat ++
    leBytes 1 record.stableCold.toNat ++ leBytes 1 record.pad.toNat

def Persist.decode (raw : Bytes) : Persist where
  count := .ofNat (field raw 0 1)
  decisionHint := .ofNat (field raw 1 1)
  sum := .ofNat (field raw 2 2)
  costEmaX16T0 := .ofNat (field raw 4 2)
  costEmaX16T1 := .ofNat (field raw 6 2)
  costCountT0 := .ofNat (field raw 8 1)
  costCountT1 := .ofNat (field raw 9 1)
  efficiencyX256 := .ofNat (field raw 10 2)
  thrashRate := .ofNat (field raw 12 1)
  bestTier := .ofNat (field raw 13 1)
  stableCold := .ofNat (field raw 14 1)
  pad := .ofNat (field raw 15 1)

/-- The statistics of a bucket that are saved or loaded; tier 0 is the fast one, tier 1 the deep
one. -/
structure SizeClassStats where
  ratios : Nat → UInt8
  head : UInt8
  count : UInt8
  sum : UInt16
  costEmaX16 : Fin 2 → UInt32
  costCount : Fin 2 → UInt8
  armPulls : Fin 2 → UInt32
  persistHint : UInt8
  efficiencyX256 : UInt16
  compressCount : UInt32
  decompressCount : UInt32
  profileStableCold : UInt8
  profileBestTier : UInt8
  profileThrashRate : UInt8
  deriving Inhabited

scoped instance neZeroTwo : NeZero 2 := ⟨by decide⟩

namespace SizeClassStats

def decisionHint (stats : SizeClassStats) : UInt8 :=
  let mean := (stats.sum.toUInt32 * 256 / stats.count.toUInt32).toUInt16
  if stats.count < 8 then 0
  else if mean < 13 then 1
  else if 4 ≤ stats.costCount 0 ∧ 4 ≤ stats.costCount 1 ∧
      4 * stats.costEmaX16 0 ≤ stats.costEmaX16 1 ∧ mean < 64 then 2
  else 0

def saturated (ema : UInt32) : UInt16 := if 65535 < ema then 65535 else ema.toUInt16

def thrashRate (stats : SizeClassStats) : UInt8 :=
  if 0 < stats.compressCount then
    (min 255 (stats.decompressCount * 255 / stats.compressCount)).toUInt8
  else 0

def bestTier (stats : SizeClassStats) : UInt8 :=
  if 2 * stats.armPulls 1 + 4 < stats.armPulls 0 then 0
  else if 2 * stats.armPulls 0 + 4 < stats.armPulls 1 then 1
  else 255

def serialize (stats : SizeClassStats) : Persist where
  count := stats.count
  decisionHint := stats.decisionHint
  sum := stats.sum
  costEmaX16T0 := saturated (stats.costEmaX16 0)
  costEmaX16T1 := saturated (stats.costEmaX16 1)
  costCountT0 := stats.costCount 0
  costCountT1 := stats.costCount 1
  efficiencyX256 := stats.efficiencyX256
  thrashRate := stats.thrashRate
  bestTier := stats.bestTier
  stableCold := if 8 ≤ stats.compressCount ∧ stats.thrashRate < 26 then 1 else 0
  pad := 0

def deserialize (stats : SizeClassStats) (record : Persist) : SizeClassStats :=
  let count := if kWindow < record.count then kWindow else record.count / 2
  -- Where `count` is 0, so are the product below and the quotient by it.
  let sum := (record.sum.toUInt32 * count.toUInt32 / (max record.count 1).toUInt32).toUInt16
  let mean := (sum / count.toUInt16).toUInt8
  { stats with
    count, sum
    head := 0
    ratios := fun i => if i < count.toNat then mean else stats.ratios i
    costEmaX16 := ![record.costEmaX16T0.toUInt32, record.costEmaX16T1.toUInt32]
    costCount := ![record.costCountT0 / 2, record.costCountT1 / 2]
    efficiencyX256 := record.efficiencyX256
    profileStableCold := record.stableCold
    profileBestTier := record.bestTier
    profileThrashRate := record.thrashRate }

def ratio (compSize origSize : UInt64) : UInt8 :=
  if 0 < origSize ∧ compSize < origSize then
    (255 * (origSize - compSize) / origSize).toUInt8
  else 0

def push (stats : SizeClassStats) (r : UInt8) : SizeClassStats :=
  { stats with
    count := if stats.count = kWindow then stats.count else stats.count + 1
    ratios := Function.update stats.ratios stats.head.toNat r
    sum := (if stats.count = kWindow then stats.sum - (stats.ratios stats.head.toNat).toUInt16
      else stats.sum) + r.toUInt16
    head := (stats.head + 1) % kWindow }

def record (stats : SizeClassStats) (compSize origSize : UInt64) : SizeClassStats :=
  stats.push (ratio compSize origSize)

/-- Samples are compressed and original sizes, in the order they are recorded. -/
def recordAll (stats : SizeClassStats) (samples : List (UInt64 × UInt64)) : SizeClassStats :=
  samples.foldl (fun stats sample => stats.record sample.1 sample.2) stats

theorem full_iff {stats : SizeClassStats} : stats.count = kWindow ↔ stats.count.toNat = 64 :=
  UInt8.toNat_inj.symm

theorem push_count {stats : SizeClassStats} (most : stats.count.toNat ≤ 64) (r : UInt8) :
    (stats.push r).count.toNat = min 64 (stats.count.toNat + 1) := by
  simp only [push, full_iff]
  split
  · omega
  · rw [UInt8.toNat_add, UInt8.toNat_one]
    omega

end SizeClassStats

@[ext] structure ProfileHeader where
  magic : UInt32
  version : UInt32
  numArenas : UInt16
  numClasses : UInt16
  flags : UInt32
  deriving DecidableEq, Repr

def ProfileHeader.encode (header : ProfileHeader) : Bytes :=
  leBytes 4 header.magic.toNat ++ leBytes 4 header.version.toNat ++
    leBytes 2 header.numArenas.toNat ++ leBytes 2 header.numClasses.toNat ++
    leBytes 4 header.flags.toNat

def ProfileHeader.decode (raw : Bytes) : ProfileHeader where
  magic := .ofNat (field raw 0 4)
  version := .ofNat (field raw 4 4)
  numArenas := .ofNat (field raw 8 2)
  numClasses := .ofNat (field raw 10 2)
  flags := .ofNat (field raw 12 4)

def profileHeader (flags : UInt32) : ProfileHeader :=
  ⟨kProfileMagic, kProfileVersion, .ofNat kNumArenas, .ofNat kTotalBucketsPerArena, flags⟩

/-- The header of a file this version accepts, and the bytes after it. -/
def readHeader (file : Bytes) : Option (ProfileHeader × Bytes) :=
  match fread 16 file with
  | none => none
  | some (raw, body) =>
    let header := ProfileHeader.decode raw
    if header.magic = kProfileMagic ∧ header.version = kProfileVersion ∧
        header.numArenas.toNat = kNumArenas ∧
        header.numClasses.toNat = kTotalBucketsPerArena then
      some (header, body)
    else none

@[simp] theorem Persist.encode_length (record : Persist) : record.encode.length = 16 := rfl

@[simp] theorem ProfileHeader.encode_length (header : ProfileHeader) :
    header.encode.length = 16 := rfl

theorem ofLe_byte (v : UInt8) : .ofNat (ofLe (leBytes 1 v.toNat)) = v := by
  rw [ofLe_leBytes_of_lt v.toNat_lt, UInt8.ofNat_toNat]

theorem ofLe_half (v : UInt16) : .ofNat (ofLe (leBytes 2 v.toNat)) = v := by
  rw [ofLe_leBytes_of_lt v.toNat_lt, UInt16.ofNat_toNat]

theorem ofLe_word (v : UInt32) : .ofNat (ofLe (leBytes 4 v.toNat)) = v := by
  rw [ofLe_leBytes_of_lt v.toNat_lt, UInt32.ofNat_toNat]

theorem Persist.decode_encode (record : Persist) : decode record.encode = record := by
  apply Persist.ext <;> first | exact ofLe_byte _ | exact ofLe_half _

theorem ProfileHeader.decode_encode (header : ProfileHeader) : decode header.encode = header := by
  apply ProfileHeader.ext <;> first | exact ofLe_half _ | exact ofLe_word _

theorem readHeader_encode (flags : UInt32) (body : Bytes) :
    readHeader ((profileHeader flags).encode ++ body) = some (profileHeader flags, body) := by
  rw [readHeader, fread_append (ProfileHeader.encode_length _)]
  dsimp only
  rw [ProfileHeader.decode_encode]
  exact if_pos ⟨rfl, rfl, rfl, rfl⟩

end Records

section Dictionaries

variable (builds : Bytes → Bool)

/-- A dictionary the engine holds. `builds` tells of which bytes zstd makes its two objects;
`trainDictionary` trains into a buffer of `kDictCapacity` bytes. -/
structure Dictionary where
  bytes : Bytes
  nonempty : 0 < bytes.length
  fits : bytes.length ≤ kDictCapacity
  built : builds bytes = true

structure CompressEngine where
  dicts : Fin kNumClasses → Option (Dictionary builds)

variable {builds}

def dictRecord (sc : Fin kNumClasses) (bytes : Bytes) : Bytes :=
  leBytes 1 sc ++ leBytes 4 bytes.length ++ bytes

/-- The dictionary section; the engine's dictionaries are never empty. -/
def CompressEngine.section (engine : CompressEngine builds) : Bytes :=
  (List.finRange kNumClasses).flatMap fun sc =>
    match engine.dicts sc with
    | none => []
    | some dict =>
      if dict.bytes.length ≤ kMaxDictBytes then dictRecord sc dict.bytes else []

end Dictionaries

section Thread

variable (builds : Bytes → Bool)

/-- What loading and saving a profile read and write. A bucket has its statistics in every
worker; `trained` is the mark of `dict_train_`. -/
structure CompressorThread where
  scStats : Nat → Fin kMaxCompressorWorkers → SizeClassStats
  externalPagesHot : Bool
  externalPagesHotFromProfile : Bool
  skipExternalTracking : Bool
  engine : Option (CompressEngine builds)
  trained : Fin kNumClasses → Bool
  shouldSaveProfile : Bool
  deriving Inhabited

namespace CompressorThread

variable {builds} (thread : CompressorThread builds)

def loadRecord (raw : Bytes) (stats : Fin kMaxCompressorWorkers → SizeClassStats) :
    Fin kMaxCompressorWorkers → SizeClassStats := fun worker =>
  let record := Persist.decode raw
  { (stats worker).deserialize record with persistHint := record.decisionHint }

/-- The worker with the most samples of a bucket, the first of several. -/
def bestWorker (bucket : Nat) : Fin kMaxCompressorWorkers :=
  (List.finRange kMaxCompressorWorkers).tail.foldl (fun best worker =>
    if (thread.scStats bucket best).count < (thread.scStats bucket worker).count then worker
    else best) ⟨0, workers_pos⟩

def mine (bucket : Nat) : Persist :=
  (thread.scStats bucket (thread.bestWorker bucket)).serialize

def myFlags : UInt32 := if thread.externalPagesHot then kProfileFlagExternalHot else 0

def keepMore (raw : Bytes) (mine : Persist) : Persist :=
  let disk := Persist.decode raw
  if mine.count < disk.count then disk else mine

/-- The records and flags to write, with those of the old file merged in. -/
def merge (disk : Option Bytes) : (Nat → Persist) × UInt32 :=
  match disk.bind readHeader with
  | none => (thread.mine, thread.myFlags)
  | some (header, body) =>
    ((readInto 16 keepMore total 0 body thread.mine).1, thread.myFlags ||| header.flags)

def saveProfileFile (disk : Option Bytes) : Option Bytes :=
  if thread.shouldSaveProfile then
    let (records, flags) := thread.merge disk
    some ((profileHeader flags).encode ++ (((List.range total).map records).flatMap
      Persist.encode ++ ((thread.engine.elim [] CompressEngine.section) ++
        leBytes 1 kDictSectionEnd)))
  else disk

end CompressorThread

end Thread

end Smash.ProfileFile
