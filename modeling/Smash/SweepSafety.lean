import Smash.BlobLedger
import Smash.DropSafety

/-! The deferred-madvise sweep, run by run, and the exact conditions under which the three
places that drop pages never drop an accessible one. -/
namespace Smash.Compressor

open Program PageMachine Transition
open Prog (done_bind call_bind act pure_eq bind_assoc)

section Sweep

variable {k : Op → Bool} {t : Thread} {s origin after : Shared} {Result : Type}
variable {aged : Nat → Bool} {total first count idx : Nat}

def sweepable (aged : Nat → Bool) (total : Nat) (s : Shared) (idx : Nat) : Bool :=
  decide (idx < total) && (s.page idx).pending && aged idx &&
    decide ((s.page idx).lock = none) && decide ((s.page idx).state = .compressed)

def runLength (aged : Nat → Bool) (total : Nat) (s : Shared) : Nat → Nat → Nat
  | 0, _ => 0
  | fuel + 1, idx =>
    if sweepable aged total s idx then runLength aged total s fuel (idx + 1) + 1
    else 0

def sweepRuns (aged : Nat → Bool) (total : Nat) (s : Shared) : Nat → Nat → List (Nat × Nat)
  | 0, _ => []
  | fuel + 1, idx =>
    match runLength aged total s kSweepCoalesceMax idx with
    | 0 => sweepRuns aged total s fuel (idx + 1)
    | more + 1 =>
      (idx, more + 1) :: sweepRuns aged total s fuel (idx + (more + 1))

/-- One of the two calls that close the run succeeds, or all of it is inaccessible already. -/
def Closable (k : Op → Bool) (s : Shared) (run : Nat × Nat) : Prop :=
  k (.range run.1 run.2 (.protect .none)) = true ∨
    k (.range run.1 run.2 (.remap .none)) = true ∨
    ∀ idx, run.1 ≤ idx → idx < run.1 + run.2 → (s.page idx).prot = .none

/-- From page `limit` on the two states look alike to a sweep. -/
structure Ahead (aged : Nat → Bool) (total limit : Nat) (before after : Shared) : Prop where
  pages : after.pages = before.pages
  prot : ∀ idx, limit ≤ idx → (after.page idx).prot = (before.page idx).prot
  same : ∀ idx, limit ≤ idx →
    sweepable aged total after idx = sweepable aged total before idx

def Unmoved (pre after : Shared) : Prop :=
  ∀ idx, (after.page idx).prot = (pre.page idx).prot ∧
    (after.page idx).drops = (pre.page idx).drops

theorem Unmoved.closed (held : Unmoved s after) (closed : DropsClosed origin s) :
    DropsClosed origin after := fun j => by
  rw [← closed j, openDrops, (held j).2]
  rfl

theorem runLength_congr {limit : Nat} (ahead : Ahead aged total limit s after)
    (fuel : Nat) {idx : Nat} (above : limit ≤ idx) :
    runLength aged total after fuel idx = runLength aged total s fuel idx := by
  induction fuel generalizing idx with
  | zero => rfl
  | succ fuel ih =>
    simp only [runLength, ahead.same idx above, ih (Nat.le_succ_of_le above)]

theorem sweepRuns_congr {limit : Nat} (ahead : Ahead aged total limit s after)
    (fuel : Nat) {idx : Nat} (above : limit ≤ idx) :
    sweepRuns aged total after fuel idx = sweepRuns aged total s fuel idx := by
  induction fuel generalizing idx with
  | zero => rfl
  | succ fuel ih =>
    simp only [sweepRuns, runLength_congr ahead _ above]
    split
    · exact ih (Nat.le_succ_of_le above)
    · rw [ih (Nat.le_add_right_of_le above)]

theorem sweepRuns_above (fuel : Nat) {run : Nat × Nat}
    (mem : run ∈ sweepRuns aged total s fuel idx) : idx ≤ run.1 := by
  induction fuel generalizing idx with
  | zero => cases mem
  | succ fuel ih =>
    simp only [sweepRuns] at mem
    split at mem
    · exact Nat.le_of_succ_le (ih mem)
    · rcases List.mem_cons.mp mem with same | later
      · exact Nat.le_of_eq (congrArg Prod.fst same).symm
      · exact Nat.le_trans (Nat.le_add_right _ _) (ih later)

theorem runLength_le (fuel : Nat) (within : idx ≤ total) :
    idx + runLength aged total s fuel idx ≤ total := by
  induction fuel generalizing idx with
  | zero => exact within
  | succ fuel ih =>
    simp only [runLength]
    split_ifs with sweeps
    · have below : idx < total := by
        simp only [sweepable, Bool.and_eq_true, decide_eq_true_eq] at sweeps
        exact sweeps.1.1.1.1
      have rest : idx + 1 + runLength aged total s fuel (idx + 1) ≤ total := ih below
      omega
    · exact within

theorem sweepRuns_beyond (fuel : Nat) (beyond : total ≤ idx) :
    sweepRuns aged total s fuel idx = [] := by
  induction fuel generalizing idx with
  | zero => rfl
  | succ fuel ih =>
    have none_ : runLength aged total s kSweepCoalesceMax idx = 0 := by
      simp [kSweepCoalesceMax, runLength, sweepable, Nat.not_lt.mpr beyond]
    simp only [sweepRuns, none_]
    exact ih (Nat.le_succ_of_le beyond)

theorem closable_congr {limit : Nat} (ahead : Ahead aged total limit s after)
    {run : Nat × Nat} (above : limit ≤ run.1) : Closable k after run ↔ Closable k s run := by
  unfold Closable
  refine or_congr Iff.rfl (or_congr Iff.rfl (forall_congr' fun idx => ?_))
  refine forall_congr' fun lower => ?_
  rw [ahead.prot idx (Nat.le_trans above lower)]

section Ranges

theorem setRange_succ (change : Cell → Cell) :
    (s.set first (change (s.page first))).setRange (first + 1) count change =
      s.setRange first (count + 1) change := by
  simp only [Shared.set, Shared.setRange, Shared.mk.injEq, and_true, true_and]
  funext j
  by_cases here : j = first
  · subst here
    have skipped : ¬ (j + 1 ≤ j ∧ j < j + 1 + count) := by omega
    have first : j ≤ j ∧ j < j + (count + 1) := by omega
    simp only [if_neg skipped, Function.update_self, if_pos first]
  · have bounds : (first + 1 ≤ j ∧ j < first + 1 + count) ↔
        (first ≤ j ∧ j < first + (count + 1)) := by omega
    simp only [bounds, Function.update_of_ne here]

theorem setRange_setRange (inner outer : Cell → Cell) :
    (s.setRange first count inner).setRange first count outer =
      s.setRange first count (fun c => outer (inner c)) := by
  simp only [Shared.setRange, Shared.mk.injEq, and_true, true_and]
  funext j
  split_ifs <;> rfl

theorem setRange_zero (change : Cell → Cell) : s.setRange first 0 change = s := by
  have never : ∀ j, ¬ (first ≤ j ∧ j < first + 0) := by omega
  simp only [Shared.setRange, never, if_false]

theorem ahead_setRange (change : Cell → Cell) :
    Ahead aged total (first + count) s (s.setRange first count change) where
  pages := rfl
  prot := fun j above => by
    have outside : ¬ (first ≤ j ∧ j < first + count) := by omega
    simp [Shared.setRange, outside]
  same := fun j above => by
    have outside : ¬ (first ≤ j ∧ j < first + count) := by omega
    simp [sweepable, Shared.setRange, outside]

theorem safely_forPages {op : CellOp} {change : Cell → Cell}
    (fixed : determined op = true) (harmless : ∀ idx, quiet (.page idx op) = true)
    {body : Nat → Code Unit} (shape : ∀ idx, body idx = .call (.page idx op) fun _ => .done ())
    (steps : ∀ idx c, ∃ ans, cellStep t op { flag := k (.page idx op) } c = some (ans, change c))
    {rest : Unit → Code Result} (inside : first + count ≤ s.pages) :
    Safely k t origin (forPages (List.range' first count) body >>= rest) s ↔
      Safely k t origin (rest ()) (s.setRange first count change) := by
  induction count generalizing first s with
  | zero =>
    rw [setRange_zero]
    rfl
  | succ count ih =>
    have here : first < s.pages := by omega
    obtain ⟨ans, stepped⟩ := steps first (s.page first)
    have head : Safely k t origin (forPages (List.range' first (count + 1)) body >>= rest) s ↔
        Safely k t origin (forPages (List.range' (first + 1) count) body >>= rest)
          (s.set first (change (s.page first))) := by
      rw [← set_self s first]
      simp only [List.range'_succ, forPages, shape, call_bind, done_bind]
      refine (goes_at here fixed (harmless first)).trans ?_
      rw [stepped]
      simp
    rw [head, ih (by simpa using (by omega : first + 1 + count ≤ s.pages)), setRange_succ]

end Ranges

end Sweep

section Runs

variable {k : Op → Bool} {t : Thread} {s origin : Shared} {Result : Type}
variable {aged : Nat → Bool} {total first count i : Nat}
variable {change : Cell → Cell} {middle s' : Shared} {next : Bool → Code Result}
variable {rest : Unit → Code Result}

/-- Symbolic execution of a range call; what was done to the range so far is kept apart. -/
theorem safely_range {op : RangeOp}
    (ours : decided (.range first count op) = true) (inside : first + count ≤ s.pages) :
    Safely k t origin (.call (.range first count op) next) (s.setRange first count change) ↔
      Safely k t origin (next (k (.range first count op))) (s.setRange first count fun c =>
          rangeStep op { flag := k (.range first count op) } (change c)) := by
  have harmless : quiet (.range first count op) = true := by
    cases op <;> first
      | rfl
      | cases ours
  have fixedStep : ∀ ch, Outcome k (.range first count op) ch →
      perform t (.range first count op) ch (s.setRange first count change) =
        some (k (.range first count op), s.setRange first count fun c =>
          rangeStep op { flag := k (.range first count op) } (change c)) := by
    intro ch permitted
    have same : ch.flag = k (.range first count op) := permitted ours
    have step : rangeStep op ch = rangeStep op { flag := k (.range first count op) } := by
      funext c
      cases op <;> simp only [rangeStep, same]
    have within : first + count ≤ (s.setRange first count change).pages := inside
    simp only [perform, within, if_true, same, step, setRange_setRange]
  have h := fixedStep { flag := k (.range first count op) } fun _ => rfl
  exact meets_call ⟨{ flag := k (.range first count op) }, fun _ => rfl⟩ fixedStep
    (Steady.same harmless h).mp

theorem safely_dropRange {rest : Code Result} (inside : first + count ≤ s.pages)
    (calm : DropsClosed origin (s.setRange first count change)) :
    Safely k t origin (.call (.range first count .drop) fun _ => rest)
        (s.setRange first count change) ↔ Safely k t origin rest
        (s.setRange first count fun c => rangeStep .drop {} (change c)) := by
  have step : ∀ ch : Choice, perform t (.range first count .drop) ch
      (s.setRange first count change) =
        some (ch.flag,
          s.setRange first count fun c => rangeStep .drop {} (change c)) := by
    intro ch
    have within : first + count ≤ (s.setRange first count change).pages := inside
    simp only [perform, within, if_true, setRange_setRange]
    rfl
  constructor
  · rintro ⟨-, safe⟩
    exact safe {} true _ (by rintro ⟨⟩) (step {})
  · intro safe
    refine ⟨calm, fun ch ans s' _ ran => ?_⟩
    rw [step] at ran
    cases ran
    exact safe

theorem clearPending_at (inside : first + count ≤ s.pages) :
    Safely k t origin (clearPending (List.range' first count) >>= rest) s ↔
      Safely k t origin (rest ()) (s.setRange first count fun c => { c with pending := false }) :=
  safely_forPages rfl (fun _ => rfl) (fun _ => rfl) (fun _ c => ⟨c.pending, rfl⟩) inside

theorem unlockAll_at (inside : first + count ≤ s.pages) :
    Safely k t origin (unlockAll (List.range' first count) >>= rest)
        (s.setRange first count change) ↔ Safely k t origin (rest ())
        (s.setRange first count fun c => { change c with lock := none }) := by
  have within : first + count ≤ (s.setRange first count change).pages := inside
  have loop : Safely k t origin (unlockAll (List.range' first count) >>= rest)
        (s.setRange first count change) ↔
      Safely k t origin (rest ())
        ((s.setRange first count change).setRange first count fun c =>
          { c with lock := none }) :=
    safely_forPages rfl (fun _ => rfl) (fun _ => rfl) (fun _ _ => ⟨(), rfl⟩) within
  rw [loop, setRange_setRange]

def closed (k : Op → Bool) (first count : Nat) (c : Cell) : Cell :=
  if k (.range first count (.protect .none)) then
    { c with pending := false, prot := .none }
  else if k (.range first count (.remap .none)) then
    { c with pending := false, prot := .none, memory := fun _ => 0 }
  else { c with pending := false }

def swept (k : Op → Bool) (first count : Nat) (c : Cell) : Cell :=
  { rangeStep .drop {} (closed k first count c) with lock := none }

theorem DropsClosed.setRange (calm : DropsClosed origin s)
    (kept : ∀ c, openDrops (change c) = openDrops c) :
    DropsClosed origin (s.setRange first count change) := by
  intro j
  rw [← calm j]
  simp only [Shared.setRange]
  split_ifs
  · exact kept _
  · rfl

theorem sweepRun_at (inside : first + count ≤ s.pages) (calm : DropsClosed origin s) :
    Safely k t origin (sweepRun first count >>= rest) s ↔ Safely k t origin (rest ())
        (s.setRange first count (swept k first count)) := by
  have finish : ∀ change : Cell → Cell, change = closed k first count → (Safely k t origin
          (.call (.range first count .drop) fun _ => unlockAll (List.range' first count) >>= rest)
          (s.setRange first count change) ↔
        Safely k t origin (rest ())
          (s.setRange first count (swept k first count))) := by
    rintro change rfl
    rw [safely_dropRange inside (calm.setRange fun c => by unfold closed; split_ifs <;> rfl),
      unlockAll_at inside]
    rfl
  simp only [sweepRun, closeRun, onRange, act, call_bind, done_bind,
    bind_assoc, clearPending_at inside]
  rw [safely_range rfl inside]
  cases closes : k (.range first count (.protect .none)) with
  | true =>
    simp only [if_true, pure_eq, done_bind]
    exact finish _ (funext fun c => by simp [closed, closes, rangeStep])
  | false =>
    simp only [Bool.false_eq_true, if_false, call_bind, done_bind]
    rw [safely_range rfl inside]
    exact finish _ (funext fun c => by
      cases remaps : k (.range first count (.remap .none)) <;>
        simp [closed, closes, remaps, rangeStep])

theorem swept_openDrops (c : Cell) : openDrops (swept k first count c) = openDrops c ↔
      (closed k first count c).prot = .none := by
  have kept : openDrops (closed k first count c) = openDrops c := by
    unfold closed
    split_ifs <;> rfl
  exact openDrops_cons kept rfl

theorem swept_closed (calm : DropsClosed origin s) :
    DropsClosed origin (s.setRange first count (swept k first count)) ↔
      Closable k s (first, count) := by
  have inRange : DropsClosed origin (s.setRange first count (swept k first count)) ↔
      ∀ i, first ≤ i → i < first + count →
        (closed k first count (s.page i)).prot = .none := by
    refine forall_congr' fun i => ?_
    rw [← calm i]
    simp only [Shared.setRange]
    split_ifs with within
    · rw [swept_openDrops]
      exact ⟨fun same _ _ => same, fun same => same within.1 within.2⟩
    · exact iff_of_true rfl fun lower upper => (within ⟨lower, upper⟩).elim
  rw [inRange]
  unfold Closable closed
  by_cases closes : k (.range first count (.protect .none)) = true
  · simp [closes]
  · by_cases remaps : k (.range first count (.remap .none)) = true
    · simp [closes, remaps]
    · simp [closes, remaps]

theorem ahead_refl (limit : Nat) : Ahead aged total limit s s :=
  ⟨rfl, fun _ _ => rfl, fun _ _ => rfl⟩

theorem ahead_set (c : Cell) : Ahead aged total (i + 1) s (s.set i c) where
  pages := rfl
  prot := fun j above => by simp [Function.update_of_ne (Nat.ne_of_gt above)]
  same := fun j above => by simp [sweepable, Function.update_of_ne (Nat.ne_of_gt above)]

theorem Ahead.trans {limit : Nat} (first : Ahead aged total limit s middle)
    (second : Ahead aged total limit middle s') : Ahead aged total limit s s' where
  pages := second.pages.trans first.pages
  prot := fun j above => (second.prot j above).trans (first.prot j above)
  same := fun j above => (second.same j above).trans (first.same j above)

theorem Ahead.mono {lower limit : Nat} {s' : Shared}
    (ahead : Ahead aged total lower s s') (above : lower ≤ limit) :
    Ahead aged total limit s s' where
  pages := ahead.pages
  prot := fun j beyond => ahead.prot j (Nat.le_trans above beyond)
  same := fun j beyond => ahead.same j (Nat.le_trans above beyond)

theorem unmoved_set {c : Cell} (prot : c.prot = (s.page i).prot)
    (drops : c.drops = (s.page i).drops) : Unmoved s (s.set i c) := by
  intro j
  by_cases here : j = i
  · subst here
    simpa using ⟨prot, drops⟩
  · simp [Function.update_of_ne here]

theorem Unmoved.trans (first : Unmoved s middle)
    (second : Unmoved middle s') : Unmoved s s' := fun j =>
  ⟨(second j).1.trans (first j).1, (second j).2.trans (first j).2⟩

theorem collectRun_at (k : Op → Bool) (t : Thread) (origin : Shared) (aged : Nat → Bool)
    (fuel i : Nat) (inside : total ≤ s.pages) (rest : Nat → Code Result) :
    ∃ s', Ahead aged total (i + runLength aged total s fuel i) s s' ∧ Unmoved s s' ∧
      (Safely k t origin (collectRun aged total fuel i >>= rest) s ↔
        Safely k t origin (rest (i + runLength aged total s fuel i)) s') := by
  induction fuel generalizing s i with
  | zero => exact ⟨s, ahead_refl _, fun _ => ⟨rfl, rfl⟩, Iff.rfl⟩
  | succ fuel ih =>
    -- A page that ends the run: nothing is collected and nothing changes.
    have ends : sweepable aged total s i = false →
        (Safely k t origin (collectRun aged total (fuel + 1) i >>= rest) s ↔
          Safely k t origin (rest i) s) →
        ∃ s', Ahead aged total (i + runLength aged total s (fuel + 1) i) s
            s' ∧ Unmoved s s' ∧
          (Safely k t origin (collectRun aged total (fuel + 1) i >>= rest)
              s ↔
            Safely k t origin
              (rest (i + runLength aged total s (fuel + 1) i)) s') := by
      intro stops same
      rw [runLength, stops]
      exact ⟨s, ahead_refl _, fun _ => ⟨rfl, rfl⟩, same⟩
    by_cases below : i < total
    · have here : i < s.pages := Nat.lt_of_lt_of_le below inside
      have start : Safely k t origin (collectRun aged total (fuel + 1) i >>= rest) s ↔
          Safely k t origin (collectRun aged total (fuel + 1) i >>= rest)
            (s.set i (s.page i)) := by rw [set_self]
      conv_rhs at start =>
        simp only [collectRun, below, if_true, on, act, call_bind, done_bind, at_getPending here]
      cases queued : (s.page i).pending && aged i with
      | false =>
        refine ends (by simp [sweepable, Bool.and_assoc, queued]) (start.trans ?_)
        simp only [queued, Bool.false_eq_true, if_false, pure_eq, done_bind, set_self]
      | true =>
        obtain ⟨pending, old⟩ := Bool.and_eq_true_iff.mp queued
        conv_rhs at start => simp only [queued, if_true, call_bind, at_tryLock here]
        by_cases free : (s.page i).lock = none
        · conv_rhs at start =>
            simp only [free, if_true, at_getPending here, at_getState here, pending, true_and]
          by_cases current : (s.page i).state = .compressed
          · have sweeps : sweepable aged total s i = true := by
              simp [sweepable, below, pending, old, free, current]
            conv_rhs at start => simp only [current, if_true]
            obtain ⟨c, locked, prot, drops⟩ : ∃ c : Cell, (Safely k t origin
                    (collectRun aged total (fuel + 1) i >>= rest) s ↔
                  Safely k t origin
                    (collectRun aged total fuel (i + 1) >>= rest)
                    (s.set i c)) ∧
                c.prot = (s.page i).prot ∧
                c.drops = (s.page i).drops := ⟨_, start, rfl, rfl⟩
            have ahead : Ahead aged total (i + 1) s (s.set i c) := ahead_set c
            obtain ⟨s', further, held, later⟩ := ih (i + 1) (ahead.pages.symm ▸ inside)
            have moved : i + (runLength aged total s fuel (i + 1) + 1) =
                i + 1 + runLength aged total (s.set i c) fuel (i + 1) := by
              rw [runLength_congr ahead fuel (Nat.le_refl _)]
              omega
            rw [runLength, if_pos sweeps, moved]
            exact ⟨s', (ahead.mono (Nat.le_add_right _ _)).trans further,
              (unmoved_set prot drops).trans held, locked.trans later⟩
          · have stops : sweepable aged total s i = false := by
              simp [sweepable, current]
            conv_rhs at start =>
              simp only [current, if_false, call_bind, done_bind,
                at_exchangePending here, at_unlock here, pure_eq]
            obtain ⟨c, same, prot, drops, unmarked⟩ : ∃ c : Cell, (Safely k t origin
                    (collectRun aged total (fuel + 1) i >>= rest) s ↔
                  Safely k t origin (rest i) (s.set i c)) ∧
                c.prot = (s.page i).prot ∧
                c.drops = (s.page i).drops ∧ c.pending = false :=
              ⟨_, start, rfl, rfl, rfl⟩
            rw [runLength, stops]
            refine ⟨s.set i c, ⟨rfl, fun j _ => (unmoved_set prot drops j).1,
              fun j above => ?_⟩, unmoved_set prot drops, same⟩
            by_cases itself : j = i
            · subst itself
              rw [stops]
              simp [sweepable, unmarked]
            · exact (ahead_set c).same j (Nat.lt_of_le_of_ne above fun same => itself same.symm)
        · refine ends (by simp [sweepable, free]) (start.trans ?_)
          simp only [free, Bool.false_eq_true, if_false, pure_eq, done_bind, set_self]
    · refine ends (by simp [sweepable, below]) ?_
      simp only [collectRun, below, if_false, pure_eq, done_bind]

theorem read_getPending (here : i < s.pages) :
    Safely k t origin (.call (.page i .getPending) next) s ↔
      Safely k t origin (next (s.page i).pending) s := by
  have h : Safely k t origin (.call (.page i .getPending) next)
        (s.set i (s.page i)) ↔ _ := at_getPending here
  rwa [set_self] at h

theorem sweepFrom_safely (fuel : Nat) (inside : total ≤ s.pages) (calm : DropsClosed origin s) :
    Safely k t origin (sweepFrom aged total fuel i) s ↔
      ∀ run ∈ sweepRuns aged total s fuel i, Closable k s run := by
  induction fuel generalizing s i with
  | zero => exact iff_of_true ⟨calm, trivial⟩ (by rintro run ⟨⟩)
  | succ fuel ih =>
    -- What is left of the sweep when nothing from `limit` on has changed.
    have further : ∀ {s' : Shared} {limit : Nat}, Ahead aged total limit s s' →
        DropsClosed origin s' →
        (Safely k t origin (sweepFrom aged total fuel limit) s' ↔
          ∀ run ∈ sweepRuns aged total s fuel limit, Closable k s run) := by
      intro s' limit ahead still
      rw [ih (ahead.pages.symm ▸ inside) still, sweepRuns_congr ahead fuel (Nat.le_refl _)]
      exact forall₂_congr fun run mem => closable_congr ahead (sweepRuns_above fuel mem)
    by_cases below : i < total
    · have here : i < s.pages := Nat.lt_of_lt_of_le below inside
      simp only [sweepFrom, below, if_true, ask, on, act, call_bind, done_bind,
        goes_ask, Bool.false_eq_true, if_false, pure_eq, meets_done, and_true, calm, and_true]
      refine (read_getPending here).trans ?_
      cases queued : (s.page i).pending && aged i with
      | false =>
        have stops : runLength aged total s kSweepCoalesceMax i = 0 := by
          simp [kSweepCoalesceMax, runLength, sweepable, Bool.and_assoc, queued]
        simp only [Bool.false_eq_true, if_false, sweepRuns, stops]
        exact further (ahead_refl _) calm
      | true =>
        simp only [if_true]
        have short : i + runLength aged total s kSweepCoalesceMax i ≤ total :=
          runLength_le _ (Nat.le_of_lt below)
        obtain ⟨s', ahead, held, same⟩ := collectRun_at k t origin aged
          kSweepCoalesceMax i inside fun last =>
            if i < last then do
              sweepRun i (last - i)
              sweepFrom aged total fuel last
            else sweepFrom aged total fuel (i + 1)
        rw [same]
        cases length : runLength aged total s kSweepCoalesceMax i with
        | zero =>
          rw [length] at ahead
          simp only [Nat.add_zero, Nat.lt_irrefl, if_false, sweepRuns, length]
          exact further (ahead.mono (Nat.le_succ _)) (held.closed calm)
        | succ more =>
          rw [length] at ahead short
          simp only [Nat.lt_add_of_pos_right (Nat.succ_pos more), if_true,
            Nat.add_sub_cancel_left, sweepRuns, length, List.forall_mem_cons]
          have fits : i + (more + 1) ≤ s'.pages := Nat.le_trans short (ahead.pages.symm ▸ inside)
          have open_ : Closable k s' (i, more + 1) ↔ Closable k s (i, more + 1) :=
            or_congr Iff.rfl (or_congr Iff.rfl (forall_congr' fun j => by
              rw [(held j).1]))
          rw [sweepRun_at fits (held.closed calm), ← open_, ← swept_closed (held.closed calm)]
          constructor
          · intro safe
            exact ⟨safe.now, (further (ahead.trans (ahead_setRange _)) safe.now).mp safe⟩
          · rintro ⟨still, rest⟩
            exact (further (ahead.trans (ahead_setRange _)) still).mpr rest
    · rw [sweepRuns_beyond _ (Nat.le_of_not_lt below)]
      simp only [sweepFrom, below, if_false, pure_eq, meets_done, and_true]
      exact iff_of_true calm (by rintro run ⟨⟩)

theorem sweepDeferredMadvise_safely (cfg : Config) :
    DropsSafely k t (sweepDeferredMadvise cfg aged) s ↔
      (cfg.deferMadvise = true → ∀ total ≤ s.pages,
        ∀ run ∈ sweepRuns aged total s total 0, Closable k s run) := by
  have calm : DropsClosed s s := fun _ => rfl
  unfold sweepDeferredMadvise DropsSafely
  split_ifs with enabled
  · simp only [committedPages, act, call_bind, done_bind]
    constructor
    · rintro ⟨-, safe⟩ - total below
      have counted := safe { number := total } total s (by rintro ⟨⟩) (by simp [perform, below])
      exact (sweepFrom_safely total below calm).mp counted
    · intro safe
      refine ⟨calm, fun ch ans s' _ ran => ?_⟩
      simp only [perform] at ran
      split_ifs at ran with below
      cases ran
      exact (sweepFrom_safely ch.number below calm).mpr (safe enabled ch.number below)
  · exact iff_of_true ⟨calm, trivial⟩ fun absurd => (enabled absurd).elim

end Runs

section Sites

theorem drops_safely_iff (cfg : Config) (k : Op → Bool) (t : Thread) (s : Shared) :
    (∀ i, DropsSafely k t (reclaimShadowPage cfg i) s ↔ (Reclaimable k s i →
        cfg.fixav = true ∧ k (.page i (.protect .none)) = true)) ∧
    (∀ aged, DropsSafely k t (sweepDeferredMadvise cfg aged) s ↔
      (cfg.deferMadvise = true → ∀ total ≤ s.pages,
        ∀ run ∈ sweepRuns aged total s total 0, Closable k s run)) ∧ ∀ i pendingCount,
      DropsSafely k t (compressPage cfg i pendingCount) s ↔
        (Compressible k s i → cfg.dropsFirst pendingCount = false) :=
  ⟨fun _ => reclaimShadowPage_safely cfg, fun _ => sweepDeferredMadvise_safely cfg,
    fun _ pendingCount => compressPage_safely cfg pendingCount⟩

/-- The page is compressed into shadow state; then Phase B finds it unchanged, but the
`mprotect(PROT_NONE)` call fails. -/
def reclaimWithoutProtection : List Turn :=
  [.serve 0, .write 0 fun offset => if offset.val = 4095 then 7 else 0, operate (.compress 0 0) 15,
    .operate 1 (.reclaim [0])
      (List.replicate 10 { flag := true } ++ { flag := false } :: List.replicate 3 { flag := true })]

theorem readable_page_dropped :
    (exec (turn tieredConfig) (boot 1) reclaimWithoutProtection).map
      (fun s => ((s.page 0).state, (s.page 0).drops,
        (s.page 0).load (offsetOf 4095),
        (s.page 0).content.map fun bytes => bytes (offsetOf 4095))) =
      some (.compressed, [.read], some 0, some 7) := by
  decide +kernel

end Sites

end Smash.Compressor
