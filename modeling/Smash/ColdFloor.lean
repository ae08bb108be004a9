import Mathlib.Algebra.Order.Ring.Nat
import Mathlib.Order.Lattice
import Smash.PageMachine

/-! How long a page has to stay idle before it is compressed: the counters phase 1 keeps for a
page and the tests phase 2 makes on them. The counters are 8-bit numbers, the floors 32-bit
numbers. A page is named by what phase 2 reads about it; the upkeep of pages that are compressed
already is `phase2Compressed` in `Smash.CompressorTick`. -/
namespace Smash.ColdFloor

open PageMachine (PageState)

def kMaxEffectiveFloorTicks : Nat := 200
def kMaxBackoffShift : Nat := 6
def kRcDecayColdTicks : Nat := 8
def kBucketRcBiasThreshold : Nat := 256

section Code

/-- The fields of `ROIConfig` that phase 2 reads, and the switch of the thrash back-off. -/
structure Settings where
  coldTicksFloor : Nat
  recompressBackoff : Bool
  profileThrashBackoff : Bool
  deriving DecidableEq, Repr

structure Bucket where
  budgetSkip : Bool
  persistHint : Nat
  profileStableCold : Bool
  profileThrashRate : Nat
  deriving DecidableEq, Repr

inductive Home where
  /-- There is no page map; is the page outside the arena, and did the profile call such pages
  hot. -/
  | unmapped (outside hot : Bool)
  /-- The page map has no span for the page, or none with a bucket. -/
  | spanless
  | bucket (stats : Bucket)
  deriving DecidableEq, Repr

structure Counts where
  coldCount : Nat
  recompressCount : Nat
  compressFailCount : Nat
  deriving DecidableEq, Repr

def decayRecompressCount (counts : Counts) : Counts :=
  if counts.coldCount = 255 then { counts with recompressCount := 0 }
  else if kRcDecayColdTicks ≤ counts.coldCount ∧ counts.coldCount % kRcDecayColdTicks = 0 ∧
      0 < counts.recompressCount then
    { counts with recompressCount := counts.recompressCount - 1 }
  else counts

/-- Another tick without an access. -/
def cooler (counts : Counts) : Counts :=
  decayRecompressCount
    (if counts.coldCount < 255 then { counts with coldCount := counts.coldCount + 1 } else counts)

def phase1 (s : PageState) (accessed : Bool) (counts : Counts) : Counts :=
  match s with
  | .active | .activeMonitoring =>
    if accessed then { counts with coldCount := 0, compressFailCount := 0 } else cooler counts
  | .compressed => cooler counts
  | .empty | .compressing | .compressedShadow => counts

/-- The skips before any floor beyond the first is looked at. -/
def skipped (home : Home) (counts : Counts) : Bool :=
  match home with
  | .unmapped outside hot => outside && (hot || decide (0 < counts.recompressCount))
  | .spanless => false
  | .bucket stats => stats.budgetSkip || stats.persistHint == 1

def thrashMultiplier (rate : Nat) : Nat :=
  if 128 ≤ rate then 8 else if 64 ≤ rate then 4 else if 31 ≤ rate then 2 else 1

/-- The floor adjusted by what the profile of an earlier run says of the bucket. -/
def profileFloor (settings : Settings) (home : Home) : Nat :=
  let floor := settings.coldTicksFloor
  match home with
  | .bucket stats =>
    if stats.profileStableCold then max 1 (floor / 4)
    else if settings.profileThrashBackoff then
      let mult := thrashMultiplier stats.profileThrashRate
      if 1 < mult then min (floor * mult) kMaxEffectiveFloorTicks else floor
    else floor
  | .unmapped .. | .spanless => floor

def bucketBias (home : Home) (rcEma : Nat) : Nat :=
  match home with
  | .bucket _ => if kBucketRcBiasThreshold ≤ rcEma then 1 else 0
  | .unmapped .. | .spanless => 0

/-- The floor doubled for every recompression, for a biased bucket and for every failure. -/
def effFloor (settings : Settings) (home : Home) (rcEma : Nat) (counts : Counts) : Nat :=
  if settings.recompressBackoff then
    let shift := counts.recompressCount + bucketBias home rcEma + counts.compressFailCount
    min (profileFloor settings home * 2 ^ min shift kMaxBackoffShift) kMaxEffectiveFloorTicks
  else profileFloor settings home

inductive Action where
  | skip
  /-- The page is compressed already: its tier is looked after. -/
  | upkeep
  /-- `escalateToDeepMonitoring` -/
  | escalate
  /-- The branch that counts the page as eligible and calls `compressPage`. -/
  | eligible
  deriving DecidableEq, Repr

/-- What phase 2 does with a page. -/
def phase2 (settings : Settings) (environ : Bool) (home : Home) (rcEma : Nat) (s : PageState)
    (counts : Counts) : Action :=
  if counts.coldCount < settings.coldTicksFloor then .skip
  else if environ then .skip
  else
    match s with
    | .compressed => .upkeep
    | .empty | .compressing | .compressedShadow => .skip
    | .active | .activeMonitoring =>
      if skipped home counts then .skip
      else if counts.coldCount = profileFloor settings home ∧ s = .activeMonitoring then
        .escalate
      else if profileFloor settings home < counts.coldCount ∧
          effFloor settings home rcEma counts ≤ counts.coldCount then .eligible
      else .skip

/-- What `compressPage` asks the return-on-investment gate with. -/
structure Gate where
  coldTicksOverridden : Bool
  statsCount : Nat
  redirtyDiscount : Nat
  /-- The computed return reaches the threshold. -/
  pays : Bool
  deriving DecidableEq, Repr

def shouldCompress (settings : Settings) (gate : Gate) (coldCount : Nat) : Bool :=
  if coldCount < settings.coldTicksFloor then false
  else if gate.coldTicksOverridden then true
  else if gate.statsCount < 8 ∧ 256 ≤ gate.redirtyDiscount then true
  else gate.pays

end Code

section Idle

/-- The counters after `n` ticks without an access. -/
def idle (n : Nat) (counts : Counts) : Counts := cooler^[n] counts

theorem idle_succ (n : Nat) (counts : Counts) : idle (n + 1) counts = cooler (idle n counts) :=
  Function.iterate_succ_apply' ..

theorem phase1_idle {s : PageState} (live : s = .active ∨ s = .activeMonitoring)
    (counts : Counts) : phase1 s false counts = cooler counts := by
  rcases live with rfl | rfl <;> rfl

theorem decay_coldCount (counts : Counts) :
    (decayRecompressCount counts).coldCount = counts.coldCount := by
  unfold decayRecompressCount
  split
  · rfl
  · split <;> rfl

theorem cooler_coldCount (counts : Counts) :
    (cooler counts).coldCount =
      if counts.coldCount < 255 then counts.coldCount + 1 else counts.coldCount := by
  rw [cooler, decay_coldCount]
  split <;> rfl

theorem cooler_failCount (counts : Counts) :
    (cooler counts).compressFailCount = counts.compressFailCount := by
  unfold cooler decayRecompressCount
  split_ifs <;> rfl

theorem cooler_recompressCount_le (counts : Counts) :
    (cooler counts).recompressCount ≤ counts.recompressCount := by
  unfold cooler decayRecompressCount
  split_ifs <;> simp

theorem cooler_saturated {counts : Counts} (top : (cooler counts).coldCount = 255) :
    (cooler counts).recompressCount = 0 := by
  rw [cooler, decay_coldCount] at top
  rw [cooler, decayRecompressCount, if_pos top]

variable {counts : Counts}

theorem idle_coldCount (byte : counts.coldCount ≤ 255) (n : Nat) :
    (idle n counts).coldCount = min 255 (counts.coldCount + n) := by
  induction n with
  | zero => simp [idle, byte]
  | succ n ih =>
    rw [idle_succ, cooler_coldCount, ih]
    split <;> omega

theorem idle_failCount (n : Nat) :
    (idle n counts).compressFailCount = counts.compressFailCount := by
  induction n with
  | zero => rfl
  | succ n ih => rw [idle_succ, cooler_failCount, ih]

theorem idle_recompressCount_le (n : Nat) :
    (idle n counts).recompressCount ≤ counts.recompressCount := by
  induction n with
  | zero => exact le_rfl
  | succ n ih =>
    rw [idle_succ]
    exact (cooler_recompressCount_le _).trans ih

theorem idle_saturated (byte : counts.coldCount ≤ 255) :
    (idle 255 counts).coldCount = 255 ∧ (idle 255 counts).recompressCount = 0 := by
  have top : (idle 255 counts).coldCount = 255 := by
    rw [idle_coldCount byte]
    omega
  refine ⟨top, ?_⟩
  rw [show (255 : Nat) = 254 + 1 by rfl, idle_succ] at top ⊢
  exact cooler_saturated top

end Idle

section Floors

variable {settings : Settings} {home : Home} {rcEma : Nat} {counts : Counts}

/-- The profile makes the page wait less than the floor, or caps what it has to wait. -/
def Lowered (settings : Settings) : Home → Prop
  | .bucket stats => stats.profileStableCold = true ∨
      (settings.profileThrashBackoff = true ∧ 31 ≤ stats.profileThrashRate)
  | .unmapped .. | .spanless => False

instance (settings : Settings) (home : Home) : Decidable (Lowered settings home) := by
  cases home <;> unfold Lowered <;> infer_instance

theorem thrashMultiplier_gt_one (rate : Nat) : 1 < thrashMultiplier rate ↔ 31 ≤ rate := by
  unfold thrashMultiplier
  split_ifs <;> omega

theorem profileFloor_of_not_lowered (plain : ¬ Lowered settings home) :
    profileFloor settings home = settings.coldTicksFloor := by
  cases home with
  | unmapped outside hot => rfl
  | spanless => rfl
  | bucket stats =>
    simp only [Lowered, not_or, not_and] at plain
    simp only [profileFloor]
    rw [if_neg plain.1]
    by_cases enabled : settings.profileThrashBackoff = true
    · rw [if_pos enabled, if_neg (mt (thrashMultiplier_gt_one _).mp (plain.2 enabled))]
    · rw [if_neg enabled]

theorem profileFloor_of_lowered (lowered : Lowered settings home)
    (small : settings.coldTicksFloor ≤ 255) : profileFloor settings home < 255 := by
  cases home with
  | unmapped outside hot => exact lowered.elim
  | spanless => exact lowered.elim
  | bucket stats =>
    simp only [profileFloor]
    by_cases stable : stats.profileStableCold = true
    · rw [if_pos stable]
      omega
    · obtain ⟨enabled, rate⟩ := lowered.resolve_left stable
      rw [if_neg stable, if_pos enabled, if_pos ((thrashMultiplier_gt_one _).mpr rate)]
      exact lt_of_le_of_lt (Nat.min_le_right _ _) (by decide)

theorem effFloor_le (counts : Counts) (rcEma : Nat) :
    effFloor settings home rcEma counts ≤ max (profileFloor settings home)
      kMaxEffectiveFloorTicks := by
  unfold effFloor
  split
  · exact (Nat.min_le_right _ _).trans (Nat.le_max_right _ _)
  · exact Nat.le_max_left _ _

theorem effFloor_no_history (fresh : counts.recompressCount = 0)
    (unfailed : counts.compressFailCount = 0) (unbiased : rcEma < kBucketRcBiasThreshold) :
    effFloor settings home rcEma counts ≤ profileFloor settings home := by
  have bias : bucketBias home rcEma = 0 := by
    cases home <;> simp [bucketBias, unbiased]
  unfold effFloor
  split
  · simp [fresh, unfailed, bias]
  · exact le_rfl

variable {environ : Bool} {s : PageState}

theorem phase2_eligible_iff (live : s = .active ∨ s = .activeMonitoring) :
    phase2 settings environ home rcEma s counts = .eligible ↔
      settings.coldTicksFloor ≤ counts.coldCount ∧ environ = false ∧
        skipped home counts = false ∧ profileFloor settings home < counts.coldCount ∧
        effFloor settings home rcEma counts ≤ counts.coldCount := by
  unfold phase2
  rcases live with rfl | rfl <;> split_ifs <;> simp_all

end Floors

section Reach

variable {settings : Settings} {home : Home} {counts : Counts}

def Unhinted : Home → Prop
  | .unmapped _ hot => hot = false
  | .spanless => True
  | .bucket stats => stats.budgetSkip = false ∧ stats.persistHint ≠ 1

instance (home : Home) : Decidable (Unhinted home) := by
  cases home <;> unfold Unhinted <;> infer_instance

theorem skipped_of_unhinted (unhinted : Unhinted home) (forgotten : counts.recompressCount = 0) :
    skipped home counts = false := by
  cases home with
  | unmapped outside hot => simp [skipped, show hot = false from unhinted, forgotten]
  | spanless => rfl
  | bucket stats => simp [skipped, unhinted.1, unhinted.2]

/-- An idle page reaches the eligible branch for exactly the floors an 8-bit count can pass:
those up to 254, and 255 if the profile lowers or caps the bucket's own floor. -/
theorem idle_page_eligible_iff (settings : Settings) (home : Home) (counts : Counts)
    (states : Nat → PageState) (rcEma : Nat → Nat) (unhinted : Unhinted home)
    (byte : counts.coldCount ≤ 255)
    (live : ∀ n, states n = .active ∨ states n = .activeMonitoring) :
    (∃ n, phase2 settings false home (rcEma n) (states n) (idle n counts) = .eligible) ↔
      settings.coldTicksFloor ≤ 254 ∨ (settings.coldTicksFloor = 255 ∧ Lowered settings home) := by
  constructor
  · rintro ⟨n, eligible⟩
    obtain ⟨floor, -, -, above, -⟩ := (phase2_eligible_iff (live n)).mp eligible
    rw [idle_coldCount byte] at floor above
    by_cases small : settings.coldTicksFloor ≤ 254
    · exact Or.inl small
    · refine Or.inr ⟨by omega, ?_⟩
      by_contra plain
      rw [profileFloor_of_not_lowered plain] at above
      omega
  · intro reachable
    obtain ⟨top, forgotten⟩ := idle_saturated byte
    have small : settings.coldTicksFloor ≤ 255 := by omega
    have profile : profileFloor settings home < 255 := by
      by_cases lowered : Lowered settings home
      · exact profileFloor_of_lowered lowered small
      · rw [profileFloor_of_not_lowered lowered]
        rcases reachable with below | ⟨-, lower⟩
        · omega
        · exact absurd lower lowered
    have cap : kMaxEffectiveFloorTicks = 200 := rfl
    refine ⟨255, (phase2_eligible_iff (live 255)).mpr ⟨?_, rfl, ?_, ?_, ?_⟩⟩
    · rw [top]
      exact small
    · exact skipped_of_unhinted unhinted forgotten
    · rw [top]
      exact profile
    · rw [top]
      exact (effFloor_le _ _).trans (by omega)

/-- A page that has thrashed, with the default floor of ten ticks. -/
theorem idle_page_eligible_default :
    ∃ n, phase2 ⟨10, true, true⟩ false .spanless 0 .active (idle n ⟨0, 255, 255⟩) = .eligible :=
  (idle_page_eligible_iff ⟨10, true, true⟩ .spanless ⟨0, 255, 255⟩ (fun _ => .active) (fun _ => 0)
    trivial (by decide) (fun _ => Or.inl rfl)).mpr (Or.inl (by decide))

/-- With a floor of five minutes at one tick a second the branch is never reached. -/
theorem idle_page_never_eligible :
    ¬ ∃ n, phase2 ⟨300, true, true⟩ false .spanless 0 .active (idle n ⟨0, 0, 0⟩) = .eligible := by
  rintro ⟨n, eligible⟩
  obtain ⟨floor, -⟩ := (phase2_eligible_iff (Or.inl rfl)).mp eligible
  rw [idle_coldCount (by decide)] at floor
  simp only at floor
  omega

end Reach

section StableCold

variable {settings : Settings} {counts : Counts}

/-- The page is eligible, and the gate's own floor lets it pass, at the first tick at which its
cold count exceeds a quarter of the floor. -/
def EligibleAtQuarter (settings : Settings) (gate : Gate) (environ : Bool) (stats : Bucket)
    (rcEma : Nat → Nat) (states : Nat → PageState) (counts : Counts) : Prop :=
  ∀ n, max 1 (settings.coldTicksFloor / 4) < (idle n counts).coldCount →
    (∀ m < n, (idle m counts).coldCount ≤ max 1 (settings.coldTicksFloor / 4)) →
    phase2 settings environ (.bucket stats) (rcEma n) (states n) (idle n counts) = .eligible ∧
      shouldCompress settings gate (idle n counts).coldCount = true

theorem first_above {quarter : Nat} (below : counts.coldCount ≤ quarter) (reached : quarter < 255) :
    (idle (quarter + 1 - counts.coldCount) counts).coldCount = quarter + 1 ∧
      ∀ m < quarter + 1 - counts.coldCount, (idle m counts).coldCount ≤ quarter := by
  have byte : counts.coldCount ≤ 255 := by omega
  constructor
  · rw [idle_coldCount byte]
    omega
  · intro m early
    rw [idle_coldCount byte]
    omega

/-- For a page of a bucket the profile calls stably cold, with no back-off of its own, this holds
exactly if the floor is at most 2 and nothing excludes the page, or if the count can never exceed
a quarter of the floor: the first test of phase 2 uses the unadjusted floor. -/
theorem stable_cold_eligible_iff (settings : Settings) (gate : Gate) (environ : Bool)
    (stats : Bucket) (rcEma : Nat → Nat) (states : Nat → PageState) (counts : Counts)
    (stable : stats.profileStableCold = true) (fresh : counts.recompressCount = 0)
    (unfailed : counts.compressFailCount = 0) (unbiased : ∀ n, rcEma n < kBucketRcBiasThreshold)
    (live : ∀ n, states n = .active ∨ states n = .activeMonitoring)
    (below : counts.coldCount ≤ max 1 (settings.coldTicksFloor / 4)) (byte : counts.coldCount ≤ 255)
    (pays : gate.pays = true) : EligibleAtQuarter settings gate environ stats rcEma states counts ↔
      (settings.coldTicksFloor ≤ 2 ∧ environ = false ∧ stats.budgetSkip = false ∧
        stats.persistHint ≠ 1) ∨ 1020 ≤ settings.coldTicksFloor := by
  have profile : profileFloor settings (.bucket stats) = max 1 (settings.coldTicksFloor / 4) := by
    simp [profileFloor, stable]
  constructor
  · intro holds
    by_cases large : 1020 ≤ settings.coldTicksFloor
    · exact Or.inr large
    obtain ⟨reached, pre⟩ := @first_above counts (max 1 (settings.coldTicksFloor / 4)) below
      (by omega)
    obtain ⟨eligible, -⟩ := holds _ (by omega) pre
    obtain ⟨floor, outside, unskipped, -⟩ := (phase2_eligible_iff (live _)).mp eligible
    rw [reached] at floor
    simp only [skipped, Bool.or_eq_false_iff, beq_eq_false_iff_ne, ne_eq] at unskipped
    exact Or.inl ⟨by omega, outside, unskipped⟩
  · rintro (⟨small, outside, budget, hint⟩ | large) n above -
    · have cold : settings.coldTicksFloor ≤ (idle n counts).coldCount := by omega
      have history : (idle n counts).recompressCount = 0 :=
        Nat.le_zero.mp ((idle_recompressCount_le n).trans fresh.le)
      have failures : (idle n counts).compressFailCount = 0 := (idle_failCount n).trans unfailed
      have noHistory := @effFloor_no_history settings (.bucket stats) (rcEma n) (idle n counts)
        history failures (unbiased n)
      refine ⟨(phase2_eligible_iff (live n)).mpr ⟨cold, outside, ?_, ?_, ?_⟩, ?_⟩
      · simp [skipped, budget, hint]
      · rw [profile]
        exact above
      · rw [profile] at noHistory
        omega
      · unfold shouldCompress
        rw [if_neg (by omega)]
        split_ifs <;> simp [pays]
    · rw [idle_coldCount byte] at above
      omega

/-- With the default floor of ten ticks, a fresh page of a stably cold bucket is not eligible when
its count exceeds two. -/
theorem stable_cold_waits_for_floor : (idle 3 ⟨0, 0, 0⟩).coldCount = 3 ∧ max 1 (10 / 4) = 2 ∧
      phase2 ⟨10, true, true⟩ false (.bucket ⟨false, 0, true, 0⟩) 0 .active (idle 3 ⟨0, 0, 0⟩) =
        .skip ∧ ¬ EligibleAtQuarter ⟨10, true, true⟩ ⟨true, 0, 256, true⟩ false ⟨false, 0, true, 0⟩
        (fun _ => 0) (fun _ => .active) ⟨0, 0, 0⟩ := by
  refine ⟨by decide, by decide, by decide, fun holds => ?_⟩
  have eligible := (holds 3 (by decide) (by decide)).1
  exact absurd eligible (by decide)

/-- A floor of two ticks. -/
theorem stable_cold_eligible_two :
    EligibleAtQuarter ⟨2, true, true⟩ ⟨true, 0, 256, true⟩ false ⟨false, 0, true, 0⟩
      (fun _ => 0) (fun _ => .active) ⟨0, 0, 0⟩ :=
  (stable_cold_eligible_iff ⟨2, true, true⟩ ⟨true, 0, 256, true⟩ false ⟨false, 0, true, 0⟩
    (fun _ => 0) (fun _ => .active) ⟨0, 0, 0⟩ rfl rfl rfl (fun _ => by decide)
    (fun _ => Or.inl rfl) (by decide) (by decide) rfl).mpr (Or.inl (by decide))

end StableCold

end Smash.ColdFloor
