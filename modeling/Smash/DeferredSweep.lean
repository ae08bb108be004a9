import Smash.PageTracking

/-! `sweepDeferredMadvise` with the addresses of the pages: which byte ranges it protects and
drops, which locks it takes, and how far its estimate of the mappings is off. Other threads act
before each of its reads, as long as they leave its locks alone. -/
namespace Smash.DeferredSweep

open Function List

open MachineWord (wordSize)
open PageMachine (PageState kPageSize)

def kSweepCoalesceMax : Nat := 512
def kVmaResyncRuns : Nat := 256

section Tables

/-- The addresses of the pages, arena and external ones; no page is at 0 or beyond the last
address. -/
structure Addresses where
  address : Nat → Option Nat
  nonzero : ∀ i a, address i = some a → a ≠ 0
  fits : ∀ i a, address i = some a → a + kPageSize ≤ wordSize

section Tracker

variable {tracker : PageTracking.Tracker}

theorem tracked_nonzero (mapped : tracker.arena.base ≠ 0) :
    ∀ i a, PageTracking.pageAddress tracker i = some a → a ≠ 0 := by
  intro i a h
  rw [PageTracking.pageAddress] at h
  split at h
  · cases h
    omega
  · split at h
    · cases h
    · split at h
      · cases h
      next registered =>
        cases h
        exact registered

theorem tracked_fits (external : ∀ serial, tracker.reverse serial + kPageSize ≤ wordSize) :
    ∀ i a, PageTracking.pageAddress tracker i = some a → a + kPageSize ≤ wordSize := by
  intro i a h
  rw [PageTracking.pageAddress] at h
  split at h
  next inside =>
    cases h
    have room : i * kPageSize + kPageSize ≤ tracker.arena.contigPages * kPageSize := by
      rw [← Nat.succ_mul]
      exact Nat.mul_le_mul_right _ inside
    have ends := tracker.arena.inside
    omega
  · split at h
    · cases h
    · split at h
      · cases h
      · cases h
        exact external _

end Tracker

/-- The addresses of full mode: the arena, and behind it the external pages in the order in which
they were registered. -/
def Addresses.ofTracker (tracker : PageTracking.Tracker) (mapped : tracker.arena.base ≠ 0)
    (external : ∀ serial, tracker.reverse serial + kPageSize ≤ wordSize) : Addresses where
  address := PageTracking.pageAddress tracker
  nonzero := tracked_nonzero mapped
  fits := tracked_fits external

inductive Holder where
  | free
  | sweep
  | other
  deriving DecidableEq, Repr

structure Tables where
  pending : Nat → Bool
  queueTick : Nat → UInt32
  states : Nat → PageState
  lock : Nat → Holder

/-- What the other threads do before the sweep's `n`th read. -/
structure Others where
  act : Nat → Tables → Tables
  respects : ∀ n tables i, (act n tables).lock i = .sweep ↔ tables.lock i = .sweep

end Tables

/-- A page as the sweep found it: before it tried the lock, and under the lock. -/
structure Examined where
  page : Nat
  before : Tables
  locked : Tables

/-- A run: its range was protected, or mapped anew when that failed, and dropped. -/
structure Dropped where
  first : Nat
  count : Nat
  base : Nat
  remapped : Bool
  deriving DecidableEq, Repr

structure Sweep where
  tables : Tables
  reads : Nat
  vmaNow : Int
  sinceResync : Nat
  dropped : List Dropped
  examined : List Examined

/-- What the sweep does not change: `vmas` is the number of mappings after the given runs, the
last one first. -/
structure Setting where
  addresses : Addresses
  others : Others
  now : UInt32
  ttl : UInt32
  total : Nat
  cap : Int
  protects : Nat → Bool
  vmas : List Dropped → Int

namespace Sweep

variable (setting : Setting) (sweep : Sweep)

def interleave : Sweep :=
  { sweep with
    tables := setting.others.act sweep.reads sweep.tables
    reads := sweep.reads + 1 }

def setPending (i : Nat) (pending : Bool) : Sweep :=
  { sweep with
    tables := { sweep.tables with pending := update sweep.tables.pending i pending } }

def setLock (i : Nat) (holder : Holder) : Sweep :=
  { sweep with
    tables := { sweep.tables with lock := update sweep.tables.lock i holder } }

end Sweep

section Code

variable (setting : Setting)

def Tables.eligible (tables : Tables) (i : Nat) : Bool :=
  tables.pending i && !decide (setting.now - tables.queueTick i < setting.ttl)

/-- The inner loop: the first page after the run. `expect` is the address that continues it. -/
def collectRun : Nat → Nat → Option Nat → Sweep → Nat × Sweep
  | 0, j, _, sweep => (j, sweep)
  | room + 1, j, expect, sweep =>
    if setting.total ≤ j then (j, sweep)
    else
      let sweep := sweep.interleave setting
      if sweep.tables.eligible setting j = false then (j, sweep)
      else
        match setting.addresses.address j with
        | none => (j, sweep)
        | some address =>
          if expect.any (· ≠ address) then (j, sweep)
          else
            let pre := sweep.tables
            let sweep := sweep.interleave setting
            if sweep.tables.lock j ≠ .free then (j, sweep)
            else
              let sweep := (sweep.setLock j .sweep).interleave setting
              if sweep.tables.pending j = false ∨ sweep.tables.states j ≠ .compressed then
                (j, (sweep.setPending j false).setLock j .free)
              else
                collectRun room (j + 1) (some ((address + kPageSize) % wordSize))
                  { sweep with examined := ⟨j, pre, sweep.tables⟩ :: sweep.examined }

def dropRun (first count : Nat) (sweep : Sweep) : Sweep :=
  match setting.addresses.address first with
  | none => sweep
  | some base =>
    let dropped := ⟨first, count, base, !setting.protects base⟩ :: sweep.dropped
    if kVmaResyncRuns ≤ sweep.sinceResync + 1 then
      { sweep with dropped := dropped, vmaNow := setting.vmas dropped, sinceResync := 0 }
    else
      { sweep with
        dropped := dropped
        vmaNow := sweep.vmaNow + 2
        sinceResync := sweep.sinceResync + 1 }

def flushRun (first count : Nat) (sweep : Sweep) : Sweep :=
  let pages := List.range' first count
  let sweep := pages.foldl (fun sweep k => sweep.setPending k false) sweep
  let sweep := dropRun setting first count sweep
  pages.foldl (fun sweep k => sweep.setLock k .free) sweep

/-- The outer loop; the result has the page it stopped at. -/
def sweepFrom : Nat → Nat → Sweep → Nat × Sweep
  | 0, i, sweep => (i, sweep)
  | fuel + 1, i, sweep =>
    if setting.total ≤ i then (i, sweep)
    else if 0 < setting.cap ∧ setting.cap ≤ sweep.vmaNow then (i, sweep)
    else
      let sweep := sweep.interleave setting
      if sweep.tables.eligible setting i = false then sweepFrom fuel (i + 1) sweep
      else
        let (j, sweep) := collectRun setting kSweepCoalesceMax i none sweep
        if j = i then sweepFrom fuel (i + 1) sweep
        else sweepFrom fuel j (flushRun setting i (j - i) sweep)

/-- Deferred mode is on and its tables exist. -/
def sweepDeferredMadvise (tables : Tables) : Nat × Sweep :=
  sweepFrom setting setting.total 0 ⟨tables, 0, setting.vmas [], 0, [], []⟩

end Code

section Locks

variable {setting : Setting} {sweep : Sweep} {first j : Nat}

def Holds (sweep : Sweep) (first j : Nat) : Prop :=
  ∀ k, sweep.tables.lock k = .sweep ↔ first ≤ k ∧ k < j

theorem Holds.interleave (holds : Holds sweep first j) : Holds (sweep.interleave setting) first j :=
  fun k => (setting.others.respects _ _ k).trans (holds k)

theorem Holds.lock (holds : Holds sweep first j) (order : first ≤ j) :
    Holds (sweep.setLock j .sweep) first (j + 1) := by
  intro k
  by_cases here : k = j
  · rw [here]
    simp [Sweep.setLock, order]
  · simp only [Sweep.setLock, update_of_ne here]
    rw [holds k]
    omega

theorem Holds.unlock (holds : Holds sweep first (j + 1)) :
    Holds (sweep.setLock j .free) first j := by
  intro k
  by_cases here : k = j
  · rw [here]
    simp [Sweep.setLock]
  · simp only [Sweep.setLock, update_of_ne here]
    rw [holds k]
    omega

theorem unlock_all (pages : List Nat) :
    ∀ sweep : Sweep, pages.foldl (fun sweep k => sweep.setLock k .free) sweep =
      { sweep with
        tables := { sweep.tables with
          lock := fun k => if k ∈ pages then .free else sweep.tables.lock k } } := by
  induction pages with
  | nil => simp
  | cons page rest ih =>
    intro sweep
    rw [foldl_cons, ih]
    simp only [Sweep.setLock, Sweep.mk.injEq, Tables.mk.injEq, and_true, true_and]
    funext k
    by_cases here : k = page
    · simp [here]
    · simp [here]

theorem clear_all (pages : List Nat) : ∀ sweep : Sweep, ∃ pending,
      pages.foldl (fun sweep k => sweep.setPending k false) sweep =
        { sweep with tables := { sweep.tables with pending := pending } } := by
  induction pages with
  | nil => exact fun sweep => ⟨_, rfl⟩
  | cons page rest ih =>
    intro sweep
    obtain ⟨pending, same⟩ := ih (sweep.setPending page false)
    exact ⟨pending, same⟩

end Locks

section Collecting

variable {setting : Setting} {sweep start : Sweep} {first j : Nat}

def Consecutive (addresses : Addresses) (first count base : Nat) : Prop :=
  ∀ k < count, addresses.address (first + k) = some (base + k * kPageSize)

/-- The page was pending and due when the sweep looked, and pending and compressed under its
lock. -/
def Found (setting : Setting) (examined : List Examined) (page : Nat) : Prop :=
  ∃ found ∈ examined, found.page = page ∧ found.before.eligible setting page = true ∧
    found.locked.lock page = .sweep ∧ found.locked.pending page = true ∧
    found.locked.states page = .compressed

/-- Halfway through a run that began at `first`, out of the state `start`. -/
structure Collecting (setting : Setting) (start : Sweep) (first j : Nat) (sweep : Sweep) :
    Prop where
  order : first ≤ j
  holds : Holds sweep first j
  found : ∀ k, first ≤ k → k < j → k < setting.total ∧ Found setting sweep.examined k
  grows : ∀ found ∈ start.examined, found ∈ sweep.examined
  dropped : sweep.dropped = start.dropped
  vmaNow : sweep.vmaNow = start.vmaNow
  sinceResync : sweep.sinceResync = start.sinceResync

theorem Collecting.interleave (h : Collecting setting start first j sweep) :
    Collecting setting start first j (sweep.interleave setting) :=
  { h with holds := h.holds.interleave }

theorem Collecting.record (h : Collecting setting start first j sweep) {pre : Tables}
    (below : j < setting.total) (due : pre.eligible setting j = true)
    (pending : ((sweep.setLock j .sweep).interleave setting).tables.pending j = true)
    (packed : ((sweep.setLock j .sweep).interleave setting).tables.states j = .compressed) :
    let locked := (sweep.setLock j .sweep).interleave setting
    Collecting setting start first (j + 1)
      { locked with examined := ⟨j, pre, locked.tables⟩ :: locked.examined } := by
  intro locked
  have held : Holds locked first (j + 1) := (h.holds.lock h.order).interleave
  have order := h.order
  constructor
  · exact Nat.le_succ_of_le order
  · exact held
  · intro k lower upper
    by_cases here : k = j
    · subst here
      have mine : locked.tables.lock k = .sweep := (held k).mpr ⟨lower, upper⟩
      exact ⟨below, _, mem_cons_self, rfl, due, mine, pending, packed⟩
    · obtain ⟨inside, found, mem, facts⟩ := h.found k lower (by omega)
      exact ⟨inside, found, mem_cons_of_mem _ mem, facts⟩
  · exact fun found mem => mem_cons_of_mem _ (h.grows found mem)
  · exact h.dropped
  · exact h.vmaNow
  · exact h.sinceResync

/-- What `expect_addr` says of the run so far. -/
def Expected (setting : Setting) (first j : Nat) : Option Nat → Prop
  | none => j = first
  | some address => first < j ∧ ∃ base, Consecutive setting.addresses first (j - first) base ∧
      address = (base + (j - first) * kPageSize) % wordSize

theorem Expected.consecutive {expect : Option Nat} (expected : Expected setting first j expect) :
    ∃ base, Consecutive setting.addresses first (j - first) base := by
  cases expect with
  | none =>
    refine ⟨0, fun k below => ?_⟩
    have same : j = first := expected
    omega
  | some address =>
    obtain ⟨-, base, consecutive, -⟩ := expected
    exact ⟨base, consecutive⟩

/-- The page at the expected address continues the run. The sum does not wrap around: the page
before ends in the address space, and no page is at 0. -/
theorem Expected.extend {expect : Option Nat} {address : Nat}
    (expected : Expected setting first j expect) (here : setting.addresses.address j = some address)
    (continues : expect.any (· ≠ address) = false) :
    Expected setting first (j + 1) (some ((address + kPageSize) % wordSize)) := by
  cases expect with
  | none =>
    have same : j = first := expected
    refine ⟨by omega, address, ?_, ?_⟩
    · intro k below
      have zero : k = 0 := by omega
      rw [zero, Nat.add_zero, Nat.zero_mul, Nat.add_zero, ← same]
      exact here
    · have one : j + 1 - first = 1 := by omega
      rw [one, Nat.one_mul]
  | some wanted =>
    obtain ⟨order, base, consecutive, wrapped⟩ := expected
    have at_wanted : wanted = address := by simpa using continues
    have count : first + (j - first - 1) = j - 1 := by omega
    have ends := setting.addresses.fits _ _ (consecutive (j - first - 1) (by omega))
    have product : (j - first) * kPageSize = (j - first - 1) * kPageSize + kPageSize := by
      rw [← Nat.succ_mul]
      congr 1
      omega
    have placed : address = base + (j - first) * kPageSize := by
      have nonzero := setting.addresses.nonzero _ _ here
      rcases Nat.lt_or_eq_of_le (show base + (j - first) * kPageSize ≤ wordSize by omega)
        with inside | top
      · rw [← at_wanted, wrapped, Nat.mod_eq_of_lt inside]
      · rw [top, Nat.mod_self] at wrapped
        omega
    have next : (j + 1 - first) * kPageSize = (j - first) * kPageSize + kPageSize := by
      rw [← Nat.succ_mul]
      congr 1
      omega
    refine ⟨by omega, base, ?_, ?_⟩
    · intro k below
      by_cases last : k = j - first
      · have i : first + k = j := by omega
        rw [i, here, placed, last]
      · exact consecutive k (by omega)
    · rw [placed, next, Nat.add_assoc]

theorem collectRun_spec (room : Nat) :
    ∀ {j expect sweep}, Collecting setting start first j sweep →
      Expected setting first j expect →
      let r := collectRun setting room j expect sweep
      Collecting setting start first r.1 r.2 ∧ r.1 ≤ j + room ∧
        ∃ base, Consecutive setting.addresses first (r.1 - first) base := by
  induction room with
  | zero =>
    intro j expect sweep h expected
    exact ⟨h, Nat.le_refl _, expected.consecutive⟩
  | succ room ih =>
    intro j expect sweep h expected
    have stops : ∀ sweep, Collecting setting start first j sweep →
        Collecting setting start first j sweep ∧ j ≤ j + (room + 1) ∧
          ∃ base, Consecutive setting.addresses first (j - first) base :=
      fun sweep h => ⟨h, Nat.le_add_right _ _, expected.consecutive⟩
    have looked := @Collecting.interleave _ _ _ _ _ h
    rw [collectRun]
    by_cases done : setting.total ≤ j
    · rw [if_pos done]
      exact stops _ h
    rw [if_neg done]
    dsimp only
    by_cases due : (sweep.interleave setting).tables.eligible setting j = false
    · rw [if_pos due]
      exact stops _ looked
    rw [if_neg due]
    cases here : setting.addresses.address j with
    | none => exact stops _ looked
    | some address =>
      dsimp only
      by_cases gap : expect.any (· ≠ address) = true
      · rw [if_pos gap]
        exact stops _ looked
      rw [if_neg gap]
      have tried := @Collecting.interleave _ _ _ _ _ looked
      generalize (sweep.interleave setting).interleave setting = sweep' at *
      by_cases taken : sweep'.tables.lock j ≠ .free
      · rw [if_pos taken]
        exact stops _ tried
      rw [if_neg taken]
      have held : Holds ((sweep'.setLock j .sweep).interleave setting) first (j + 1) :=
        (tried.holds.lock tried.order).interleave
      by_cases stale : ((sweep'.setLock j .sweep).interleave setting).tables.pending j = false ∨
          ((sweep'.setLock j .sweep).interleave setting).tables.states j ≠ .compressed
      · rw [if_pos stale]
        exact stops _ { tried with holds := held.unlock }
      rw [if_neg stale]
      rw [not_or, not_not, Bool.not_eq_false] at stale
      have recorded := tried.record (Nat.lt_of_not_le done) (by simpa using due) stale.1 stale.2
      obtain ⟨final, short, consecutive⟩ := ih recorded (expected.extend here (by simpa using gap))
      exact ⟨final, by omega, consecutive⟩

end Collecting

section Runs

variable {setting : Setting} {sweep : Sweep} {i first count base : Nat}

/-- A dropped range consists of pages found as they have to be. -/
structure Exact (setting : Setting) (examined : List Examined) (run : Dropped) : Prop where
  nonempty : 0 < run.count
  short : run.count ≤ kSweepCoalesceMax
  consecutive : Consecutive setting.addresses run.first run.count run.base
  found : ∀ k, run.first ≤ k → k < run.first + run.count →
    k < setting.total ∧ Found setting examined k

theorem Exact.more {examined later : List Examined} {run : Dropped}
    (exact : Exact setting examined run) (grows : ∀ found ∈ examined, found ∈ later) :
    Exact setting later run :=
  { exact with
    found := fun k lower upper => by
      obtain ⟨inside, found, mem, facts⟩ := exact.found k lower upper
      exact ⟨inside, found, grows found mem, facts⟩ }

theorem Consecutive.covers {addresses : Addresses}
    (consecutive : Consecutive addresses first count base) (byte : Nat) :
    base ≤ byte ∧ byte < base + count * kPageSize ↔
      ∃ page address, first ≤ page ∧ page < first + count ∧
        addresses.address page = some address ∧ address ≤ byte ∧ byte < address + kPageSize := by
  have page : 0 < kPageSize := by decide
  constructor
  · rintro ⟨lower, upper⟩
    have split := Nat.div_add_mod (byte - base) kPageSize
    have rest := Nat.mod_lt (byte - base) page
    have p : (byte - base) / kPageSize < count := by
      rw [Nat.div_lt_iff_lt_mul page]
      omega
    rw [Nat.mul_comm] at split
    generalize (byte - base) / kPageSize = k at p split
    exact ⟨first + k, _, by omega, by omega, consecutive k p, by omega, by omega⟩
  · rintro ⟨k, address, lower, upper, here, above, below⟩
    obtain ⟨offset, rfl⟩ := Nat.exists_eq_add_of_le lower
    have inside : offset < count := by omega
    have same := (consecutive offset inside).symm.trans here
    have placed : base + offset * kPageSize = address := Option.some.inj same
    have room : offset * kPageSize + kPageSize ≤ count * kPageSize := by
      rw [← Nat.succ_mul]
      exact Nat.mul_le_mul_right _ inside
    omega

structure Swept (setting : Setting) (i : Nat) (sweep : Sweep) : Prop where
  idle : ∀ k, sweep.tables.lock k ≠ .sweep
  exact : ∀ run ∈ sweep.dropped, Exact setting sweep.examined run
  passed : ∀ run ∈ sweep.dropped, run.first + run.count ≤ i
  apart : sweep.dropped.Pairwise fun later earlier => earlier.first + earlier.count ≤ later.first

theorem Swept.interleave (swept : Swept setting i sweep) :
    Swept setting i (sweep.interleave setting) :=
  { swept with idle := fun k => (setting.others.respects _ _ k).not.mpr (swept.idle k) }

theorem Swept.skip {later : Nat} (swept : Swept setting i sweep) (order : i ≤ later) :
    Swept setting later sweep :=
  { swept with passed := fun run mem => Nat.le_trans (swept.passed run mem) order }

theorem Swept.collecting (swept : Swept setting i sweep) : Collecting setting sweep i i sweep where
  order := Nat.le_refl i
  holds := fun k => ⟨fun mine => absurd mine (swept.idle k), fun both => by omega⟩
  found := fun k lower upper => by omega
  grows := fun _ mem => mem
  dropped := rfl
  vmaNow := rfl
  sinceResync := rfl

theorem Swept.gave_up {s' : Sweep} (swept : Swept setting i sweep)
    (nothing : Collecting setting sweep i i s') : Swept setting i s' where
  idle := fun k mine => by
    have held := (nothing.holds k).mp mine
    omega
  exact := fun run mem => (swept.exact run (nothing.dropped ▸ mem)).more nothing.grows
  passed := fun run mem => swept.passed run (nothing.dropped ▸ mem)
  apart := nothing.dropped ▸ swept.apart

theorem flushRun_spec (here : setting.addresses.address first = some base) :
    let run : Dropped := ⟨first, count, base, !setting.protects base⟩
    let r := flushRun setting first count sweep
    r.dropped = run :: sweep.dropped ∧ r.examined = sweep.examined ∧
      (∀ k, r.tables.lock k =
        if k ∈ List.range' first count then .free else sweep.tables.lock k) ∧
      (r.vmaNow = setting.vmas r.dropped ∨ r.vmaNow = sweep.vmaNow + 2) := by
  obtain ⟨pending, cleared⟩ := clear_all (List.range' first count) sweep
  intro run r
  have flushed : r = flushRun setting first count sweep := rfl
  rw [flushRun, cleared, unlock_all, dropRun, here] at flushed
  dsimp only at flushed
  by_cases resync : kVmaResyncRuns ≤ sweep.sinceResync + 1
  · rw [if_pos resync] at flushed
    rw [flushed]
    exact ⟨rfl, rfl, fun _ => rfl, .inl rfl⟩
  · rw [if_neg resync] at flushed
    rw [flushed]
    exact ⟨rfl, rfl, fun _ => rfl, .inr rfl⟩

theorem Swept.flush {j : Nat} {start : Sweep} (swept : Swept setting i start)
    (collected : Collecting setting start i j sweep) (some : i < j)
    (short : j ≤ i + kSweepCoalesceMax)
    (consecutive : Consecutive setting.addresses i (j - i) base) :
    Swept setting j (flushRun setting i (j - i) sweep) := by
  have here : setting.addresses.address i = Option.some base := by
    simpa using consecutive 0 (by omega)
  obtain ⟨dropped, examined, locks, -⟩ := @flushRun_spec setting sweep i (j - i) base here
  constructor
  · intro k mine
    rw [locks] at mine
    split at mine
    · cases mine
    next outside =>
      have held := (collected.holds k).mp mine
      apply outside
      rw [mem_range'_1]
      omega
  · rw [dropped, examined]
    intro run mem
    rcases mem_cons.mp mem with same | earlier
    · rw [same]
      refine ⟨show 0 < j - i by omega, show j - i ≤ kSweepCoalesceMax by omega, consecutive, ?_⟩
      intro k lower upper
      have below : k < i + (j - i) := upper
      exact collected.found k lower (by omega)
    · rw [collected.dropped] at earlier
      exact (swept.exact run earlier).more collected.grows
  · rw [dropped]
    intro run mem
    rcases mem_cons.mp mem with same | earlier
    · rw [same]
      exact show i + (j - i) ≤ j by omega
    · rw [collected.dropped] at earlier
      exact Nat.le_trans (swept.passed run earlier) (Nat.le_of_lt some)
  · rw [dropped, collected.dropped]
    exact pairwise_cons.mpr ⟨swept.passed, swept.apart⟩

end Runs

section Budget

variable {setting : Setting} {sweep : Sweep} {i first count base : Nat}

/-- The estimate is not below the count, and the count has stayed near the cap. -/
structure Within (setting : Setting) (sweep : Sweep) : Prop where
  close : setting.vmas sweep.dropped ≤ sweep.vmaNow
  bounded : ∀ past, past <:+ sweep.dropped → setting.vmas past ≤ setting.cap + 1

theorem Within.congr {s' : Sweep} (within : Within setting sweep)
    (dropped : s'.dropped = sweep.dropped) (vmaNow : s'.vmaNow = sweep.vmaNow) :
    Within setting s' where
  close := by
    rw [dropped, vmaNow]
    exact within.close
  bounded := dropped ▸ within.bounded

theorem Within.flush (within : Within setting sweep) (left : sweep.vmaNow < setting.cap)
    (two : ∀ past run, setting.vmas (run :: past) ≤ setting.vmas past + 2)
    (here : setting.addresses.address first = some base) :
    Within setting (flushRun setting first count sweep) := by
  obtain ⟨dropped, -, -, charged⟩ := @flushRun_spec setting sweep first count base here
  have close := within.close
  have more := two sweep.dropped ⟨first, count, base, !setting.protects base⟩
  constructor
  · rcases charged with exact | estimate
    · exact exact ▸ Int.le_refl _
    · rw [estimate, dropped]
      omega
  · rw [dropped]
    intro past suffix
    rcases suffix_cons_iff.mp suffix with whole | earlier
    · rw [whole]
      omega
    · exact within.bounded past earlier

end Budget

section Main

variable {setting : Setting} {sweep : Sweep} {i : Nat}

def Setting.AddsTwo (setting : Setting) : Prop :=
  ∀ past run, setting.vmas (run :: past) ≤ setting.vmas past + 2

theorem sweepFrom_round (fuel : Nat) (swept : Swept setting i sweep)
    (more : ¬ setting.total ≤ i) (left : ¬ (0 < setting.cap ∧ setting.cap ≤ sweep.vmaNow)) :
    ∃ j s', i < j ∧ sweepFrom setting (fuel + 1) i sweep = sweepFrom setting fuel j s' ∧
      Swept setting j s' ∧
      (0 < setting.cap → setting.AddsTwo → Within setting sweep → Within setting s') := by
  have looked := @Swept.interleave _ _ _ swept
  rw [sweepFrom, if_neg more, if_neg left]
  dsimp only
  by_cases due : (sweep.interleave setting).tables.eligible setting i = false
  · rw [if_pos due]
    exact ⟨i + 1, _, Nat.lt_succ_self i, rfl, looked.skip (Nat.le_succ i),
      fun _ _ within => within.congr rfl rfl⟩
  rw [if_neg due]
  obtain ⟨collected, short, base, consecutive⟩ :=
    @collectRun_spec setting (sweep.interleave setting) i kSweepCoalesceMax i none _
      looked.collecting rfl
  generalize collectRun setting kSweepCoalesceMax i none (sweep.interleave setting) = outcome at *
  obtain ⟨j, s'⟩ := outcome
  dsimp only at collected short consecutive ⊢
  by_cases nothing : j = i
  · subst nothing
    rw [if_pos rfl]
    exact ⟨j + 1, s', Nat.lt_succ_self j, rfl, (looked.gave_up collected).skip (Nat.le_succ j),
      fun _ _ within => within.congr collected.dropped collected.vmaNow⟩
  · rw [if_neg nothing]
    have some : i < j := by
      have := collected.order
      omega
    have here : setting.addresses.address i = Option.some base := by
      simpa using consecutive 0 (by omega)
    refine ⟨j, _, some, rfl, looked.flush collected some short consecutive, ?_⟩
    intro positive two within
    have same : s'.vmaNow = sweep.vmaNow := collected.vmaNow
    apply (within.congr collected.dropped collected.vmaNow).flush _ two here
    omega

theorem sweepFrom_spec (fuel : Nat) :
    ∀ {i sweep}, Swept setting i sweep → setting.total ≤ i + fuel →
      let r := sweepFrom setting fuel i sweep
      (setting.total ≤ r.1 ∨ 0 < setting.cap ∧ setting.cap ≤ r.2.vmaNow) ∧
        Swept setting r.1 r.2 ∧
        (0 < setting.cap → setting.AddsTwo → Within setting sweep → Within setting r.2) := by
  induction fuel with
  | zero =>
    intro i sweep swept enough
    exact ⟨.inl enough, swept, fun _ _ within => within⟩
  | succ fuel ih =>
    intro i sweep swept enough
    by_cases done : setting.total ≤ i
    · rw [sweepFrom, if_pos done]
      exact ⟨.inl done, swept, fun _ _ within => within⟩
    by_cases exhausted : 0 < setting.cap ∧ setting.cap ≤ sweep.vmaNow
    · rw [sweepFrom, if_neg done, if_pos exhausted]
      exact ⟨.inr exhausted, swept, fun _ _ within => within⟩
    obtain ⟨j, s', further, same, next, budget⟩ := sweepFrom_round fuel swept done exhausted
    obtain ⟨ends, final, kept⟩ := ih next (by omega)
    rw [same]
    exact ⟨ends, final, fun positive two within => kept positive two (budget positive two within)⟩

theorem pages_nodup {runs : List Dropped}
    (apart : runs.Pairwise fun later earlier => earlier.first + earlier.count ≤ later.first) :
    (runs.flatMap fun run => List.range' run.first run.count).Nodup := by
  rw [nodup_flatMap]
  constructor
  · exact fun run _ => nodup_range'
  · apply apart.imp
    intro later earlier order page above below
    rw [mem_range'_1] at above below
    omega

/-- The sweep ends, at the last page or for want of mappings. Each range it drops consists of the
bytes of consecutive pages that were due, and pending and compressed under their locks; it keeps
no lock, drops no page twice, and exceeds the cap by one mapping at most. -/
theorem sweep_ranges_exact (setting : Setting) (tables : Tables)
    (idle : ∀ k, tables.lock k ≠ .sweep) :
    let r := sweepDeferredMadvise setting tables
    (setting.total ≤ r.1 ∨ 0 < setting.cap ∧ setting.cap ≤ r.2.vmaNow) ∧
      (∀ run ∈ r.2.dropped,
        (∀ byte, run.base ≤ byte ∧ byte < run.base + run.count * kPageSize ↔
          ∃ page address, run.first ≤ page ∧ page < run.first + run.count ∧
            setting.addresses.address page = some address ∧
            address ≤ byte ∧ byte < address + kPageSize) ∧
        (∀ k < run.count,
          setting.addresses.address (run.first + k) = some (run.base + k * kPageSize)) ∧
        ∀ page, run.first ≤ page → page < run.first + run.count →
          Found setting r.2.examined page) ∧
      (∀ k, r.2.tables.lock k ≠ .sweep) ∧
      (r.2.dropped.flatMap fun run => List.range' run.first run.count).Nodup ∧
      (0 < setting.cap → setting.vmas [] < setting.cap → setting.AddsTwo →
        ∀ past, past <:+ r.2.dropped → setting.vmas past ≤ setting.cap + 1) := by
  intro r
  have fresh : Swept setting 0 ⟨tables, 0, setting.vmas [], 0, [], []⟩ :=
    ⟨idle, nofun, nofun, List.Pairwise.nil⟩
  obtain ⟨ends, swept, budget⟩ := sweepFrom_spec setting.total fresh (Nat.le_add_left _ _)
  refine ⟨ends, ?_, swept.idle, pages_nodup swept.apart, ?_⟩
  · intro run mem
    have exact := swept.exact run mem
    exact ⟨exact.consecutive.covers, exact.consecutive,
      fun page lower upper => (exact.found page lower upper).2⟩
  · intro positive starts two
    have within : Within setting ⟨tables, 0, setting.vmas [], 0, [], []⟩ := by
      constructor
      · exact Int.le_refl _
      · intro past suffix
        rw [suffix_nil.mp suffix]
        omega
    exact (budget positive two within).bounded

def mixedPages : PageTracking.Tracker where
  arena := ⟨65536, 4, by decide, by decide⟩
  key := fun _ => 0
  idx := fun _ => 0
  reverse := fun serial => if serial = 0 then 81920 else if serial = 1 then 122880 else 0
  slotNext := 2
  externalCount := 2
  states := fun _ => .compressed

def mixedSetting : Setting where
  addresses := .ofTracker mixedPages (by decide) fun serial => by
    simp only [mixedPages, kPageSize, wordSize]
    split
    · decide
    · split
      · decide
      · decide
  others := ⟨fun _ tables => tables, fun _ _ _ => Iff.rfl⟩
  now := 9
  ttl := 3
  total := 6
  cap := 65530 - 1000
  protects := fun _ => true
  vmas := fun past => 10 + past.length

/-- All six pages are due: the first five are dropped as one range. -/
theorem sweep_ranges_mixed :
    let tables : Tables := ⟨fun _ => true, fun _ => 2, fun _ => .compressed, fun _ => .free⟩
    let r := sweepDeferredMadvise mixedSetting tables
    r.2.dropped = [⟨5, 1, 122880, false⟩, ⟨0, 5, 65536, false⟩] ∧
      (∀ k, r.2.tables.lock k ≠ .sweep) ∧
      ∀ past, past <:+ r.2.dropped → mixedSetting.vmas past ≤ mixedSetting.cap + 1 := by
  intro tables r
  have swept := sweep_ranges_exact mixedSetting tables fun _ => nofun
  have two : mixedSetting.AddsTwo := by
    intro past run
    simp only [mixedSetting, length_cons]
    omega
  exact ⟨by decide +kernel, swept.2.2.1, swept.2.2.2.2 (by decide) (by decide) two⟩

end Main

end Smash.DeferredSweep
