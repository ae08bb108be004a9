import Smash.SystemSafety

/-! What the application finds in its pages, in every state of every run of the compressor
system: with FixAv in deferred mode, and in standard mode as long as no store falls between
the two steps that reopen a page. -/
namespace Smash.Compressor

open Program PageMachine Transition

abbrev Step := Move Thread Choice Entry Event

def KernelOk (pool : Threads) : Step → Prop
  | .advance t ch =>
    match pool.code t with
    | .done _ => True
    | .call op _ => KernelSucceeds op ch
  | _ => True

instance (pool : Threads) (move : Step) : Decidable (KernelOk pool move) := by
  unfold KernelOk
  split
  · split <;> infer_instance
  · infer_instance

/-- No store to a page that some thread is about to copy a snapshot back to. -/
def Unraced (pool : Threads) : Step → Prop
  | .event (.store i _ _) =>
    ∀ t, writesBack i (pool.code t).head? = false
  | _ => True

variable {cfg : Config} {pages : Nat} {moves : List Step} {pool : Threads}

theorem allows_of_kernelOk {move : Step} (ok : KernelOk pool move)
    (admitted : ∀ event, move = .event event → ∀ t, admits cfg event (pool.code t).head?) :
    Allows (contract cfg).allowed (contract cfg).admits pool move := by
  cases move with
  | advance t ch =>
    simp only [KernelOk] at ok
    simp only [Allows]
    cases running : pool.code t with
    | done => trivial
    | call op next =>
      rw [running] at ok
      exact ok
  | launch t entry => trivial
  | event event => exact admitted event rfl

section Deferred

/-- With FixAv the invariant of a page holds in every state of every deferred-mode run. -/
theorem deferred_page_valid (mode : cfg.deferred = true) (fixed : cfg.fixav = true)
    (k : Along (step (system cfg)) KernelOk (bootPool pages) moves)
    (ran : exec (step (system cfg)) (bootPool pages) moves = some pool) (i : Nat) :
    CellInv cfg.deferred (pool.shared.page i) := by
  have permitted : Along (step (system cfg))
      (Allows (contract cfg).allowed (contract cfg).admits) (bootPool pages) moves := by
    refine k.mono (fun _ _ _ => trivial) (fun _ ok => allows_of_kernelOk ok ?_) trivial
    rintro (_ | _ | _ | _ | _) - t
    · exact Or.inl mode
    all_goals trivial
  have valid := (boot_valid cfg pages).along (system_sound fun _ => fixed) permitted ran
  exact valid.inv i

theorem loads_return_last_store (mode : cfg.deferred = true) (fixed : cfg.fixav = true)
    (k : Along (step (system cfg)) KernelOk (bootPool pages) moves)
    (ran : exec (step (system cfg)) (bootPool pages) moves = some pool) (i : Nat) :
    (∀ offset v byte, (pool.shared.page i).app offset = some v →
      (pool.shared.page i).load offset = some byte → byte = v) ∧
    ((pool.shared.page i).held ≠ [] → (pool.shared.page i).state ≠ .empty) := by
  have c := deferred_page_valid mode fixed k ran i
  constructor
  · intro offset v byte stored loaded
    unfold Cell.load at loaded
    split_ifs at loaded with hidden
    cases loaded
    exact c.visible mode (Or.inr hidden) offset v stored
  · exact fun some => c.service (c.held some)

/-- Deferred mode with everything but FixAv at its default. -/
def deferredConfig (fixav : Bool) : Config where
  deferred := true
  fixav := fixav
  snapshotVerify := false
  p2Chunk := true
  deferMadvise := true
  deepTier := false
  spill := false
  prefetchWindow := 0

def advances (t : Thread) (count : Nat) : List Step :=
  List.replicate count (.advance t { number := 1 })

def lastByte : Offset := ⟨4095, by decide⟩

def storeSeven : List Step :=
  .launch 0 (.serve [(0, ⟨0, 4096, 1, false⟩)]) :: advances 0 2 ++
    [.event (.mark 0 0), .event (.handOut 0 0), .event (.store 0 lastByte 7)]

def compressDropFault : List Step :=
  storeSeven ++ .launch 1 (.compress 0 0) :: advances 1 17 ++
    .launch 1 (.reclaim 0) :: advances 1 15 ++
    .launch 2 (.fault 0) :: advances 2 6 ++ .advance 2 { flag := false } :: advances 2 2

theorem loads_return_last_store_after_fault :
    ∃ pool, exec (step (system (deferredConfig true))) (bootPool 1) compressDropFault = some pool ∧
      (pool.shared.page 0).app lastByte = some 7 ∧ (pool.shared.page 0).load lastByte = some 7 := by
  have k : Along (step (system (deferredConfig true))) KernelOk (bootPool 1)
      compressDropFault := by decide +kernel
  have shown : (exec (step (system (deferredConfig true))) (bootPool 1) compressDropFault).map
      (fun pool => ((pool.shared.page 0).app lastByte,
        (pool.shared.page 0).load lastByte |>.isSome)) = some (some 7, true) := by decide +kernel
  obtain ⟨pool, ran, seen⟩ := Option.map_eq_some_iff.mp shown
  have safe := loads_return_last_store rfl rfl k ran 0
  obtain ⟨stored, readable⟩ := Prod.mk.inj seen
  obtain ⟨byte, loaded⟩ := Option.isSome_iff_exists.mp readable
  exact ⟨pool, ran, stored, safe.1 _ _ _ stored loaded ▸ loaded⟩

def compressDrop : List Step :=
  storeSeven ++ .launch 1 (.compress 0 0) :: advances 1 16 ++
    .launch 1 (.reclaim 0) :: advances 1 11

-- Without FixAv the backing is dropped while the page is still readable.
theorem dropped_page_readable_without_fixav :
    Along (step (system (deferredConfig false))) KernelOk (bootPool 1) compressDrop ∧
    (exec (step (system (deferredConfig false))) (bootPool 1) compressDrop).map
      (fun pool => ((pool.shared.page 0).app lastByte, (pool.shared.page 0).load lastByte)) =
      some (some 7, some 0) := by
  constructor <;> decide +kernel

end Deferred

section Standard

theorem resident_pages_hold_last_stores (mode : cfg.deferred = false)
    (guarded : Along (step (system cfg)) (fun pool move => KernelOk pool move ∧ Unraced pool move)
      (bootPool pages) moves)
    (ran : exec (step (system cfg)) (bootPool pages) moves = some pool) (i : Nat)
    (packed : (pool.shared.page i).state ≠ .compressed)
    (busy : (pool.shared.page i).state ≠ .compressing) :
    ∀ offset v, (pool.shared.page i).app offset = some v →
      (pool.shared.page i).memory offset = v := by
  have permitted : Along (step (system cfg))
      (Allows (contract cfg).allowed (contract cfg).admits) (bootPool pages) moves := by
    refine guarded.mono (fun _ _ _ => trivial) (fun _ ok => allows_of_kernelOk ok.1 ?_) trivial
    rintro (_ | _ | _ | _ | _) rfl t
    · exact Or.inr (ok.2 t)
    all_goals trivial
  have standard : cfg.deferred = true → cfg.fixav = true := by simp [mode]
  have valid := (boot_valid cfg pages).along (system_sound standard) permitted ran
  exact (valid.inv i).resident packed busy

/-- Only threads below `bound` have a program. -/
def Confined (bound : Nat) (pool : Threads) : Prop :=
  ∀ t, bound ≤ t → (pool.code t).head? = none

/-- A guard on threads below `bound` that can be evaluated. -/
def UnracedBelow (bound : Nat) (pool : Threads) (move : Step) : Prop :=
  KernelOk pool move ∧
    match move with
    | .advance t _ | .launch t _ => t < bound
    | .event (.store i _ _) =>
      ∀ t < bound, writesBack i (pool.code t).head? = false
    | .event _ => True

instance (bound : Nat) (pool : Threads) (move : Step) :
    Decidable (UnracedBelow bound pool move) := by
  unfold UnracedBelow
  refine @instDecidableAnd _ _ _ ?_
  split <;> infer_instance

theorem Confined.step {bound : Nat} {next : Threads} {move : Step} (confined : Confined bound pool)
    (checked : UnracedBelow bound pool move)
    (moved : Program.step (system cfg) pool move = some next) : Confined bound next := by
  have keeps : ∀ {t : Thread} {prog : Code Unit} {s' : Shared}, t < bound →
      Confined bound ⟨s', Function.update pool.code t prog⟩ := by
    intro t prog s' below j above
    have apart : j ≠ t := by
      rintro rfl
      exact Nat.not_lt.mpr above below
    simpa [Function.update_of_ne apart] using confined j above
  cases moved_of_step moved with
  | advance running ran => exact keeps checked.2
  | launch resting launched => exact keeps checked.2
  | event happened => exact confined

theorem Confined.unraced {bound : Nat} {move : Step} (confined : Confined bound pool)
    (checked : UnracedBelow bound pool move) : KernelOk pool move ∧ Unraced pool move := by
  refine ⟨checked.1, ?_⟩
  unfold Unraced
  split
  next i offset v =>
    intro t
    by_cases below : t < bound
    · exact checked.2 t below
    · rw [confined t (Nat.le_of_not_lt below)]
      rfl
  next => trivial

def standardConfig : Config where
  deferred := false
  fixav := true
  snapshotVerify := false
  p2Chunk := true
  deferMadvise := true
  deepTier := false
  spill := false
  prefetchWindow := 0

/-- Compress the page up to the ratio gate, which fails, and make it writable again. -/
def reopenAfterGate : List Step :=
  storeSeven ++ .launch 1 (.compress 0 0) :: advances 1 14 ++
    .advance 1 { flag := false } :: advances 1 1

def storeAfterCopyBack : List Step :=
  reopenAfterGate ++ advances 1 2 ++ .event (.store 0 lastByte 9) :: advances 1 2

theorem resident_pages_hold_last_stores_after_gate :
    ∃ pool, exec (step (system standardConfig)) (bootPool 1) storeAfterCopyBack = some pool ∧
      (pool.shared.page 0).state = .active ∧ (pool.shared.page 0).memory lastByte = 9 := by
  have checked : Along (step (system standardConfig)) (UnracedBelow 2) (bootPool 1)
      storeAfterCopyBack := by decide +kernel
  have idle : Confined 2 (bootPool 1) := fun _ _ => rfl
  have guarded : Along (step (system standardConfig))
      (fun pool move => KernelOk pool move ∧ Unraced pool move) (bootPool 1) storeAfterCopyBack :=
    checked.mono Confined.step Confined.unraced idle
  have shown : (exec (step (system standardConfig)) (bootPool 1) storeAfterCopyBack).map
      (fun pool => ((pool.shared.page 0).state, (pool.shared.page 0).app lastByte)) =
        some (.active, some 9) := by decide +kernel
  obtain ⟨pool, ran, seen⟩ := Option.map_eq_some_iff.mp shown
  obtain ⟨active, stored⟩ := Prod.mk.inj seen
  exact ⟨pool, ran, active, resident_pages_hold_last_stores rfl guarded ran 0 (by simp [active])
    (by simp [active]) lastByte 9 stored⟩

/-- The store comes between the two steps that reopen the page. -/
def storeBeforeCopyBack : List Step :=
  reopenAfterGate ++ .event (.store 0 lastByte 9) :: advances 1 4

theorem copy_back_overwrites_store :
    Along (step (system standardConfig)) KernelOk (bootPool 1) storeBeforeCopyBack ∧
    (exec (step (system standardConfig)) (bootPool 1) storeBeforeCopyBack).map
      (fun pool => ((pool.shared.page 0).state, (pool.shared.page 0).app lastByte,
        (pool.shared.page 0).memory lastByte)) = some (.active, some 9, 7) := by
  constructor <;> decide +kernel

end Standard

end Smash.Compressor
