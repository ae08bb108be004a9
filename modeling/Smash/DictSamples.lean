import Mathlib.Algebra.Order.Ring.Nat
import Mathlib.Data.List.Nodup
import Mathlib.Data.List.Range

/-! How workers claim the sample slots of one size class for dictionary training. The counter is
16 bits wide and goes on counting after the last slot. -/
namespace Smash.DictSamples

open List

def kDictTrainSamples : Int := 0
def kDictTrainSamplesMax : Int := 256

/-- `env` is what `SMASH_DICT_TRAIN_SAMPLES` parses to. -/
def getDictTrainSamples : Option Int → Int
  | none => kDictTrainSamples
  | some n => if n < 0 then 0 else if kDictTrainSamplesMax < n then kDictTrainSamplesMax else n

def word16 : Nat := 2 ^ 16

inductive Stage where
  | idle
  /-- `trained` was read as false. -/
  | untrained
  /-- The engine has no dictionary for the class and room for one. -/
  | wanted
  /-- The sample buffers exist. -/
  | claiming
  deriving DecidableEq

structure State where
  numSamples : Nat
  trained : Bool
  allocated : Bool
  stage : Nat → Stage
  /-- How often the counter was incremented. -/
  fetches : Nat
  /-- The slots that calls went on to fill. -/
  claimed : List Nat

def initial : State := ⟨0, false, false, fun _ => .idle, 0, []⟩

/-- What the engine and the bootstrap allocator answer. -/
structure Answers where
  hasDictionary : Bool
  dictsFull : Bool
  allocates : Bool

/-- The next step of a worker; `alloc_lock` makes the allocation one step. -/
def collectDictSample (target : Int) (worker : Nat) (answers : Answers) (dt : State) : State :=
  let goes (stage : Stage) (dt : State) : State :=
    { dt with stage := Function.update dt.stage worker stage }
  match dt.stage worker with
  | .idle => if target ≤ 0 ∨ dt.trained then dt else goes .untrained dt
  | .untrained =>
    if answers.hasDictionary then goes .idle { dt with trained := true }
    else if answers.dictsFull then goes .idle dt
    else goes .wanted dt
  | .wanted =>
    if dt.allocated then goes .claiming dt
    else if answers.allocates then goes .claiming { dt with allocated := true }
    else goes .idle { dt with trained := true }
  | .claiming =>
    let slot := dt.numSamples
    let dt := { dt with numSamples := (slot + 1) % word16, fetches := dt.fetches + 1 }
    if target.toNat % word16 ≤ slot then goes .idle dt
    else goes .idle { dt with claimed := dt.claimed ++ [slot] }

/-- What a training pass does with the class. -/
def trainDictionaries (target : Int) (dictsFull : Bool) (dt : State) : State :=
  if target ≤ 0 ∨ dictsFull ∨ dt.trained ∨ dt.numSamples < target.toNat % word16 then dt
  else { dt with trained := true }

inductive Label where
  | collect (worker : Nat) (answers : Answers)
  | train (dictsFull : Bool)

def step (target : Int) (dt : State) : Label → State
  | .collect worker answers => collectDictSample target worker answers dt
  | .train dictsFull => trainDictionaries target dictsFull dt

def run (target : Int) (labels : List Label) : State := labels.foldl (step target) initial

/-- No slot is claimed twice, and no slot past the buffers. -/
def Spread (target : Int) (dt : State) : Prop :=
  dt.claimed.Nodup ∧ ∀ slot ∈ dt.claimed, (slot : Int) < target

/-- The claimed slots follow from the number of increments alone. -/
structure Counted (target : Int) (dt : State) : Prop where
  count : dt.numSamples = dt.fetches % word16
  slots : dt.claimed =
    ((range dt.fetches).map (· % word16)).filter (· < target.toNat % word16)
  busy : ∀ worker, dt.stage worker ≠ .idle → 0 < target
  used : 0 < dt.fetches → 0 < target

section Runs

variable {target : Int} {dt : State}

theorem collect_counted (worker : Nat) (answers : Answers) (h : Counted target dt) :
    Counted target (collectDictSample target worker answers dt) := by
  have moves : ∀ j : State, j.numSamples = dt.numSamples → j.fetches = dt.fetches →
      j.claimed = dt.claimed → 0 < target → Counted target j := by
    intro j count fetched claimed positive
    exact ⟨by rw [count, fetched, h.count], by rw [claimed, fetched, h.slots],
      fun _ _ => positive, fun _ => positive⟩
  unfold collectDictSample
  dsimp only
  split
  · split_ifs with stops
    · exact h
    · exact moves _ rfl rfl rfl (by omega)
  all_goals have positive := h.busy worker (by simp [*])
  · split_ifs <;> exact moves _ rfl rfl rfl positive
  · split_ifs <;> exact moves _ rfl rfl rfl positive
  · have wraps : (dt.numSamples + 1) % word16 = (dt.fetches + 1) % word16 := by
      rw [h.count, Nat.mod_add_mod]
    split_ifs with full
    · refine ⟨wraps, ?_, fun _ _ => positive, fun _ => positive⟩
      rw [h.count] at full
      simpa [range_succ, full] using h.slots
    · refine ⟨wraps, ?_, fun _ _ => positive, fun _ => positive⟩
      rw [h.count] at full
      simp [range_succ, Nat.lt_of_not_le full, h.slots, h.count]

theorem step_counted (label : Label) (h : Counted target dt) :
    Counted target (step target dt label) := by
  cases label with
  | collect worker answers => exact collect_counted worker answers h
  | train dictsFull =>
    simp only [step, trainDictionaries]
    split_ifs
    · exact h
    · exact { h with }

theorem run_counted (target : Int) (labels : List Label) : Counted target (run target labels) := by
  have start : Counted target initial :=
    ⟨rfl, rfl, fun _ busy => absurd rfl busy, fun used => absurd used (by decide)⟩
  unfold run
  generalize initial = dt at start
  induction labels generalizing dt with
  | nil => exact start
  | cons label rest ih => exact ih _ (step_counted label start)

theorem Counted.spread_iff (h : Counted target dt) (most : target ≤ kDictTrainSamplesMax) :
    Spread target dt ↔ dt.fetches ≤ word16 := by
  have narrow : target.toNat % word16 = target.toNat :=
    Nat.mod_eq_of_lt (by simp only [kDictTrainSamplesMax, word16] at *; omega)
  constructor
  · intro spread
    by_contra many
    -- The first call and the one 65536 later both claim slot 0.
    have positive := h.used (by omega)
    have twice : [0, word16] <+ range dt.fetches := by
      rw [show dt.fetches = word16 + (dt.fetches - word16) by omega, range_add]
      exact (singleton_sublist.mpr (mem_range.mpr (by decide))).append
        (singleton_sublist.mpr (mem_map.mpr ⟨0, mem_range.mpr (by omega), rfl⟩))
    have claims := (twice.map (· % word16)).filter fun slot => decide (slot < target.toNat % word16)
    rw [← h.slots] at claims
    have zeros := claims.nodup spread.1
    rw [narrow] at zeros
    simp [positive] at zeros
  · intro few
    have same : (range dt.fetches).map (· % word16) = range dt.fetches :=
      (map_congr_left fun i mem => Nat.mod_eq_of_lt (by
        have := mem_range.mp mem
        omega)).trans (map_id _)
    rw [Spread, h.slots, same]
    refine ⟨nodup_range.filter _, fun slot mem => ?_⟩
    have below := (mem_filter.mp mem).2
    rw [narrow, decide_eq_true_eq] at below
    omega

end Runs

theorem getDictTrainSamples_le (env : Option Int) :
    getDictTrainSamples env ≤ kDictTrainSamplesMax := by
  unfold getDictTrainSamples
  split
  · decide
  · split_ifs with negative large
    · decide
    · exact Int.le_refl _
    · omega

/-- The slots of a class stay apart and inside the buffers exactly as long as the counter has not
come round. -/
theorem samples_spread_iff (env : Option Int) (labels : List Label) :
    Spread (getDictTrainSamples env) (run (getDictTrainSamples env) labels) ↔
      (run (getDictTrainSamples env) labels).fetches ≤ word16 :=
  (run_counted _ labels).spread_iff (getDictTrainSamples_le env)

section Wrap

def oneCall : List Label := replicate 4 (.collect 0 ⟨false, false, true⟩)

theorem oneCall_fetches {dt : State} (idle : dt.stage 0 = .idle) (untrained : dt.trained = false) :
    (oneCall.foldl (step 1) dt).stage 0 = .idle ∧ (oneCall.foldl (step 1) dt).trained = false ∧
      (oneCall.foldl (step 1) dt).fetches = dt.fetches + 1 := by
  simp only [oneCall, replicate, foldl_cons, foldl_nil, step]
  cases allocated : dt.allocated <;> by_cases full : 1 % word16 ≤ dt.numSamples <;>
    simp [collectDictSample, idle, untrained, allocated, full]

theorem calls_fetches (n : Nat) :
    ∃ labels, (run 1 labels).stage 0 = .idle ∧ (run 1 labels).trained = false ∧
      (run 1 labels).fetches = n := by
  induction n with
  | zero => exact ⟨[], rfl, rfl, rfl⟩
  | succ n ih =>
    obtain ⟨labels, idle, untrained, count⟩ := ih
    refine ⟨labels ++ oneCall, ?_⟩
    rw [run, foldl_append, ← count]
    exact oneCall_fetches idle untrained

end Wrap

/-- After 65537 calls before a training pass the first slot is claimed a second time. -/
theorem slot_claimed_twice : ∃ labels,
      ¬ Spread (getDictTrainSamples (some 1)) (run (getDictTrainSamples (some 1)) labels) := by
  obtain ⟨labels, -, -, count⟩ := calls_fetches (word16 + 1)
  refine ⟨labels, fun spread => ?_⟩
  have few := ((run_counted 1 labels).spread_iff (by decide)).mp spread
  omega

end Smash.DictSamples
