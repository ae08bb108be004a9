import Mathlib.Data.List.Induction
import Smash.ColdFloor
import Smash.QuarterMean

/-! The average of recompression counts that the fault handler keeps for each bucket. Phase 2
makes fresh pages of a bucket wait longer while it is at least `kBucketRcBiasThreshold`. -/
namespace Smash.RecompressBias

open QuarterMean List

structure Bias where
  ema : UInt16
  count : UInt8
  deriving DecidableEq, Repr

def sampleX256 (prevRc : UInt8) : UInt16 := (prevRc.toUInt16 + 1) * 256

def fault (bias : Bias) (prevRc : UInt8) : Bias where
  ema :=
    if bias.count = 0 then sampleX256 prevRc
    else .ofNat (toward bias.ema.toNat (sampleX256 prevRc).toNat % 65536).toNat
  count := if bias.count < 64 then bias.count + 1 else bias.count

def faults (counts : List UInt8) : Bias := counts.foldl fault ⟨0, 0⟩

def worth (prevRc : UInt8) : Nat := 256 * (prevRc.toNat + 1)

def biased (bias : Bias) : Bool := decide (ColdFloor.kBucketRcBiasThreshold ≤ bias.ema.toNat)

/-- After every fault the average lies between two of the samples so far, and none of the faults
would have led to a higher average, or to a bias, with a smaller count. -/
structure Steady (counts : List UInt8) : Prop where
  above : ∀ front, front ≠ [] → front <+: counts →
    ∃ prevRc ∈ front, worth prevRc ≤ (faults front).ema.toNat
  below : ∀ front, front ≠ [] → front <+: counts →
    ∃ prevRc ∈ front, (faults front).ema.toNat ≤ worth prevRc
  mono : ∀ before prevRc back less, before ++ prevRc :: back <+: counts → less ≤ prevRc →
    (faults (before ++ less :: back)).ema ≤ (faults (before ++ prevRc :: back)).ema ∧
      (biased (faults (before ++ less :: back)) = true →
        biased (faults (before ++ prevRc :: back)) = true)

theorem sampleX256_toNat (prevRc : UInt8) :
    (sampleX256 prevRc).toNat = if prevRc = 255 then 0 else worth prevRc := by
  have small := prevRc.toNat_lt
  have top : prevRc = 255 ↔ prevRc.toNat = 255 := UInt8.toNat_inj.symm
  simp only [sampleX256, worth, top, UInt16.toNat_mul, UInt16.toNat_add, UInt8.toNat_toUInt16,
    UInt16.reduceToNat]
  split_ifs <;> omega

theorem fault_ema (bias : Bias) (prevRc : UInt8) : ((fault bias prevRc).ema.toNat : Int) =
    if bias.count = 0 then ((sampleX256 prevRc).toNat : Int)
    else toward bias.ema.toNat (sampleX256 prevRc).toNat := by
  show ((if bias.count = 0 then _ else _ : UInt16).toNat : Int) = _
  split_ifs
  · rfl
  · have old := bias.ema.toNat_lt
    have new := (sampleX256 prevRc).toNat_lt
    have least : 0 ≤ toward bias.ema.toNat (sampleX256 prevRc).toNat :=
      le_toward (by omega) (by omega)
    have most : toward bias.ema.toNat (sampleX256 prevRc).toNat ≤ 65535 :=
      toward_le (by omega) (by omega)
    rw [UInt16.toNat_ofNat']
    omega

theorem faults_count {counts : List UInt8} (some : counts ≠ []) : (faults counts).count ≠ 0 := by
  obtain ⟨front, last, rfl⟩ := (eq_nil_or_concat counts).resolve_left some
  rw [faults, concat_eq_append, foldl_append]
  simp only [foldl_cons, foldl_nil, fault]
  intro none
  have zero := congrArg UInt8.toNat none
  split at zero
  next few =>
    have small := UInt8.lt_iff_toNat_lt.mp few
    simp only [UInt8.toNat_add, UInt8.reduceToNat] at zero small
    omega
  next many => exact many (UInt8.lt_iff_toNat_lt.mpr (zero ▸ by decide))

theorem faults_concat (front : List UInt8) (prevRc : UInt8) :
    faults (front ++ [prevRc]) = fault (faults front) prevRc := by
  simp [faults]

/-- The average stays on the same side of every bound that all samples are on. -/
theorem faults_between {counts : List UInt8} (some : counts ≠ [])
    (counted : ∀ prevRc ∈ counts, prevRc ≠ 255) :
    (∃ prevRc ∈ counts, worth prevRc ≤ (faults counts).ema.toNat) ∧
      ∃ prevRc ∈ counts, (faults counts).ema.toNat ≤ worth prevRc := by
  induction counts using List.reverseRecOn with
  | nil => exact (some rfl).elim
  | append_singleton front last ih =>
    have sample := sampleX256_toNat last
    rw [if_neg (counted last (by simp))] at sample
    have ema := fault_ema (faults front) last
    rw [← faults_concat, sample] at ema
    by_cases first : front = []
    · subst first
      have same : (faults [last]).ema.toNat = worth last := Int.ofNat.inj ema
      exact ⟨⟨last, by simp, same.ge⟩, last, by simp, same.le⟩
    rw [if_neg (faults_count first)] at ema
    obtain ⟨⟨low, lowIn, least⟩, high, highIn, most⟩ :=
      ih first fun prevRc mem => counted prevRc (mem_append_left _ mem)
    constructor
    · rcases le_total (worth low) (worth last) with less | less
      · exact ⟨low, by simp [lowIn], by
          have := @le_toward _ (worth last) (worth low) (Int.ofNat_le.mpr least) (by omega)
          omega⟩
      · exact ⟨last, by simp, by
          have := @le_toward (faults front).ema.toNat (worth last) (worth last) (by omega) le_rfl
          omega⟩
    · rcases le_total (worth last) (worth high) with less | less
      · exact ⟨high, by simp [highIn], by
          have := @toward_le _ (worth last) (worth high) (Int.ofNat_le.mpr most) (by omega)
          omega⟩
      · exact ⟨last, by simp, by
          have := @toward_le (faults front).ema.toNat (worth last) (worth last) (by omega) le_rfl
          omega⟩

theorem fault_mono {lower upper : Bias} {less more : UInt8} (counts : lower.count = upper.count)
    (means : lower.ema.toNat ≤ upper.ema.toNat)
    (samples : (sampleX256 less).toNat ≤ (sampleX256 more).toNat) :
    (fault lower less).count = (fault upper more).count ∧
      (fault lower less).ema.toNat ≤ (fault upper more).ema.toNat := by
  refine ⟨by simp only [fault, counts], ?_⟩
  have first := fault_ema lower less
  have second := fault_ema upper more
  have moved := toward_mono (Int.ofNat_le.mpr means) (Int.ofNat_le.mpr samples)
  rw [counts] at first
  split_ifs at first second <;> omega

theorem foldl_fault_mono {lower upper : Bias} (back : List UInt8)
    (counts : lower.count = upper.count) (means : lower.ema.toNat ≤ upper.ema.toNat) :
    (back.foldl fault lower).ema.toNat ≤ (back.foldl fault upper).ema.toNat := by
  induction back generalizing lower upper with
  | nil => exact means
  | cons prevRc rest ih =>
    obtain ⟨counts, means⟩ := fault_mono counts means (le_refl (sampleX256 prevRc).toNat)
    exact ih counts means

theorem average_steady_iff (counts : List UInt8) :
    Steady counts ↔ ∀ prevRc ∈ counts, prevRc ≠ 255 := by
  constructor
  · rintro steady prevRc mem rfl
    obtain ⟨pre, back, rfl⟩ := append_of_mem mem
    have lowered := (steady.mono pre 255 [] 254 ⟨back, by simp⟩ (by decide)).1
    rw [UInt16.le_iff_toNat_le, faults_concat, faults_concat] at lowered
    have first := fault_ema (faults pre) 254
    have second := fault_ema (faults pre) 255
    have low := toward_cases (faults pre).ema.toNat 65280
    have high := toward_cases (faults pre).ema.toNat 0
    have old := (faults pre).ema.toNat_lt
    rw [show ((sampleX256 254).toNat : Int) = 65280 from rfl] at first
    rw [show ((sampleX256 255).toNat : Int) = 0 from rfl] at second
    split_ifs at first second <;> omega
  · intro counted
    refine ⟨fun front some pre => (faults_between some fun prevRc mem =>
      counted prevRc (pre.subset mem)).1, fun front some pre =>
      (faults_between some fun prevRc mem => counted prevRc (pre.subset mem)).2, ?_⟩
    intro pre prevRc back less within smaller
    have top := counted prevRc (within.subset (by simp))
    have small : less.toNat ≤ prevRc.toNat := UInt8.le_iff_toNat_le.mp smaller
    have samples : (sampleX256 less).toNat ≤ (sampleX256 prevRc).toNat := by
      have below := prevRc.toNat_lt
      have under : prevRc.toNat ≠ 255 := fun same => top (UInt8.toNat_inj.mp same)
      rw [sampleX256_toNat, sampleX256_toNat, if_neg top, if_neg, worth, worth]
      · omega
      · rintro rfl
        rw [show (255 : UInt8).toNat = 255 from rfl] at small
        omega
    obtain ⟨counts, means⟩ := fault_mono (rfl : (faults pre).count = _) le_rfl samples
    have ordered := foldl_fault_mono back counts means
    rw [← foldl_cons, ← foldl_cons, faults, ← foldl_append, ← foldl_append] at ordered
    refine ⟨UInt16.le_iff_toNat_le.mpr ordered, fun held => ?_⟩
    simp only [biased, decide_eq_true_eq] at held ⊢
    exact held.trans ordered

/-- The 256th recompression of a page takes the bias off its bucket. -/
theorem average_falls : biased (faults [0]) = true ∧ biased (faults [0, 255]) = false ∧
    biased (faults [0, 254]) = true := by
  decide

end Smash.RecompressBias
