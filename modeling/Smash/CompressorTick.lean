import Smash.Compressor

/-! The rest of a compressor tick (tier upgrades, spilling, monitoring, the deferred-madvise
sweep), shutdown, the span code that takes pages in and out of service, and the system all
of them form. Phases are separated by the dispatch barrier and a phase hands each page to
one worker; the model keeps what this gives, that a page has at most one worker at a time,
and lets different pages be in different phases. -/
namespace Smash.Compressor

open Program PageMachine

section Tiers

def ensureSpillReady (cfg : Config) : Code Bool :=
  if cfg.spill then ask .spillReady else pure false

/-- The new blob goes to the spill file first, if that is configured and ready. -/
def storeUpgraded (cfg : Config) (i : Nat) (bytes : Contents) : Code (Option Blob) := do
  if ← ensureSpillReady cfg then
    match ← on i (.store .spill bytes) with
    | some blob => pure (some blob)
    | none => on i (.store .anonymous bytes)
  else on i (.store .anonymous bytes)

def tagUpgraded (i : Nat) (new : Blob) : Code Unit := do
  if new.place = .spill then
    on i (.setTier .spilled)
    addSpilled 1
  else on i (.setTier .deep)

def publishUpgraded (i : Nat) (old new : Blob) (target : CompressAlgo) : Code Bool := do
  on i (.setInfo ⟨some new, target⟩)
  tagUpgraded i new
  on i (.setState .compressed)
  on i .unlock
  on i (.release .anonymous old)
  pure true

def upgradeBlob (cfg : Config) (i : Nat) (info : CompressedPageInfo) (old : Blob)
    (target : CompressAlgo) : Code Bool := do
  on i (.setState .compressing)
  let bytes ← on i (.decompress info)
  if ← ask .savingsGate then
    match ← storeUpgraded cfg i bytes with
    | some new => publishUpgraded i old new target
    | none =>
      on i (.setState .compressed)
      on i .unlock
      pure false
  else
    on i (.setState .compressed)
    on i (.setTier .fastTried)
    on i .unlock
    pure false

def recompressPage (cfg : Config) (i : Nat) (target : CompressAlgo) : Code Bool := do
  on i .lock
  if (← on i .getState) = .compressed then
    let info ← on i .getInfo
    match info.data with
    | none =>
      on i (.setTier .deep)
      on i .unlock
      pure false
    | some old =>
      if info.algo = target ∧ target ≠ .zstdDict then
        on i (.setTier .deep)
        on i .unlock
        pure false
      else upgradeBlob cfg i info old target
  else
    on i .unlock
    pure false

def spillLocked (i : Nat) : Code Unit := do
  let info ← on i .getInfo
  match info.data with
  | none => on i .unlock
  | some old =>
    if old.place = .spill then on i .unlock
    else
      -- A plain copy of the blob: it decompresses to the same page.
      let bytes ← on i (.decompress info)
      match ← on i (.store .spill bytes) with
      | none => on i .unlock
      | some new =>
        on i (.setInfo ⟨some new, info.algo⟩)
        on i (.setTier .spilled)
        addSpilled 1
        on i .unlock
        on i (.release .anonymous old)

def maybeSpillPage (i : Nat) : Code Unit := do
  if ← ask .spillReady then
    if ← on i .tryLock then
      let s ← on i .getState
      let tier ← on i .getTier
      if s = .compressed ∧ (tier = .deep ∨ tier = .fastTried) then spillLocked i
      else on i .unlock
    else pure ()
  else pure ()

def upgradeIfFast (cfg : Config) (i : Nat) (target : CompressAlgo) (s : PageState)
    (tier : Tier) : Code Bool :=
  if cfg.deepTier ∧ s = .compressed ∧ tier = .fast then recompressPage cfg i target
  else pure false

/-- The part of `phase2Range` that looks after pages compressed already. The state is read
once, the tier again after a possible upgrade. -/
def phase2Compressed (cfg : Config) (i : Nat) (target : CompressAlgo) : Code Unit := do
  let s ← on i .getState
  let pre ← on i .getTier
  let _ ← upgradeIfFast cfg i target s pre
  let tier ← on i .getTier
  if cfg.spill ∧ s = .compressed ∧
      (tier = .deep ∨ tier = .fastTried ∨ (cfg.deepTier = false ∧ tier = .fast)) then
    maybeSpillPage i
  else pure ()

end Tiers

section Monitoring

def escalateToDeepMonitoring (i : Nat) : Code Unit := do
  on i .lock
  if (← on i .getState) = .activeMonitoring then
    let _ ← on i (.protect .none)
    on i .unlock
  else on i .unlock

def flushPendingPage (i : Nat) : Code Unit := do
  on i .lock
  if (← on i .getState) = .compressed then
    let _ ← on i (.exchangePending true)
    on i .unlock
  else on i .unlock

def revertMonitoring (i : Nat) : Code Unit := do
  on i .lock
  if (← on i .getState) = .activeMonitoring then abandon i else on i .unlock

/-- The state is checked under the lock, the protection is changed after it is given up. -/
def flushPhase3Page (i : Nat) : Code Unit := do
  if ← ask .vmaBudget then
    on i .lock
    if (← on i .getState) = .activeMonitoring then
      on i .unlock
      if ← on i (.protect .read) then pure () else revertMonitoring i
    else on i .unlock
  else revertMonitoring i

def phase3Page (i : Nat) : Code Unit := do
  if ← on i (.transition .active .activeMonitoring) then flushPhase3Page i else pure ()

end Monitoring

section Sweep

def kSweepCoalesceMax : Nat := 512

/-- Extend a run of queued pages from `idx` on while they are eligible and can be locked;
the result is the first page after the run. `aged` says which pages were queued long enough
ago, `total` is the number of committed pages. -/
def collectRun (aged : Nat → Bool) (total : Nat) : Nat → Nat → Code Nat
  | 0, i => pure i
  | fuel + 1, i =>
    if i < total then do
      let queued ← on i .getPending
      if queued && aged i then
        if ← on i .tryLock then
          let pending ← on i .getPending
          let s ← on i .getState
          if pending ∧ s = .compressed then collectRun aged total fuel (i + 1)
          else
            let _ ← on i (.exchangePending false)
            on i .unlock
            pure i
        else pure i
      else pure i
    else pure i

def clearPending (pages : List Nat) : Code Unit :=
  forPages pages fun i => do
    let _ ← on i (.exchangePending false)
    pure ()

def closeRun (first count : Nat) : Code Bool := do
  if ← onRange first count (.protect .none) then pure true
  else onRange first count (.remap .none)

/-- Drop the locked pages of one run; whether the run could be closed is not looked at. -/
def sweepRun (first count : Nat) : Code Unit := do
  clearPending (List.range' first count)
  let _ ← closeRun first count
  let _ ← onRange first count .drop
  unlockAll (List.range' first count)

/-- The sweep from `idx` on; every round moves on by a page at least. -/
def sweepFrom (aged : Nat → Bool) (total : Nat) : Nat → Nat → Code Unit
  | 0, _ => pure ()
  | fuel + 1, i =>
    if i < total then do
      if ← ask .vmaBudget then
        let queued ← on i .getPending
        if queued && aged i then
          let last ← collectRun aged total kSweepCoalesceMax i
          if i < last then
            sweepRun i (last - i)
            sweepFrom aged total fuel last
          else sweepFrom aged total fuel (i + 1)
        else sweepFrom aged total fuel (i + 1)
      else pure ()
    else pure ()

def sweepDeferredMadvise (cfg : Config) (aged : Nat → Bool) : Code Unit := do
  if cfg.deferMadvise then
    let total ← committedPages
    sweepFrom aged total total 0
  else pure ()

end Sweep

section Shutdown

def restoreDrained (i : Nat) (bytes : Contents) : Code Bool := do
  if ← restorePageContents i bytes then pure true else restoreWholeVma i (some bytes)

def drainCompressed (i : Nat) : Code Unit := do
  let info ← on i .getInfo
  let bytes ← on i (.decompress info)
  if ← restoreDrained i bytes then
    let _ ← on i (.exchangePending false)
    discardBlob i
    on i .unlock
  else on i .unlock

def drainPage (i : Nat) : Code Unit := do
  if ← on i .tryLock then
    let s ← on i .getState
    if s = .compressed ∨ s = .compressedShadow then drainCompressed i
    else if s = .activeMonitoring then
      if ← makeResidentPageWritable i then abandon i else on i .unlock
    else on i .unlock
  else pure ()

def drainAllForShutdown (committed : Nat) : Code Unit :=
  forPages (List.range committed) drainPage

end Shutdown

section Spans

def setRange (s : PageState) (pages : List Nat) : Code Unit :=
  forPages pages fun i => on i (.setState s)

def handOverAll (owner : Owner) (pages : List Nat) : Code Unit :=
  forPages pages fun i => on i (.handOver owner)

def decommitAll (pages : List Nat) : Code Unit := forPages pages fun i => on i .drop

/-- `retireEmptySpan`, or `decommitEmptySpan` when the backing is dropped at once. -/
def retireEmptySpan (decommit : Bool) (pages : List Nat) : Code Unit := do
  releaseCompressedPages pages
  decommitAll (if decommit then pages else [])
  setRange .empty pages
  handOverAll .idle pages

def purgeResidentEmpty (pages : List Nat) : Code Unit := do
  decommitAll pages
  handOverAll .idle pages

/-- `allocateNewSpan` and `recommitEmptySpan`. -/
def serveSpan (pages : List Nat) : Code Unit := do
  setRange .active pages
  handOverAll .service pages

end Spans

section System

inductive Entry where
  | compress (idx pendingCount : Nat)
  | reclaim (idx : Nat)
  | escalate (idx : Nat)
  | monitor (idx : Nat)
  | fault (idx : Nat)
  | retire (pages : List Nat) (decommit : Bool)
  | purge (pages : List Nat)
  | serve (pages : List (Nat × Span))

def assign (t : Thread) (i : Nat) (s : Shared) : Option Shared :=
  if (s.page i).worker = none then
    some (s.set i { s.page i with worker := some t })
  else none

def finishing (i : Nat) (code : Code Unit) : Code Unit := do
  code
  on i .finish

/-- Take pages for a move, each in its own way; all of them or none. -/
def claimAll : List (Nat × (Cell → Option Cell)) → Shared → Option Shared
  | [], s => some s
  | (i, take) :: rest, s =>
    match take (s.page i) with
    | none => none
    | some c => claimAll rest (s.set i c)

def takeInService (t : Thread) (c : Cell) : Option Cell :=
  if c.owner = .service ∧ c.held = [] then some { c with owner := .moving t }
  else none

def takeIdle (t : Thread) (c : Cell) : Option Cell :=
  if c.owner = .idle then some { c with owner := .moving t } else none

/-- A page of a new or reused span gets its geometry and an all-free bitmap. -/
def takeForSpan (t : Thread) (span : Span) (c : Cell) : Option Cell :=
  if c.owner = .idle then
    some { c with owner := .moving t, span := some span, free := fun _ => true }
  else none

/-- An application thread faults or moves spans when it pleases; a compressor worker takes
a page that no worker has. Phase B is dispatched in deferred mode only. -/
def launch (cfg : Config) (t : Thread) : Entry → Shared → Option (Shared × Code Unit)
  | .compress i pendingCount, s =>
    (assign t i s).map fun s' =>
      (s', finishing i do
        let _ ← compressPage cfg i pendingCount
        pure ())
  | .reclaim i, s =>
    if cfg.deferred then
      (assign t i s).map fun s' =>
        (s', finishing i (reclaimShadowPage cfg i))
    else none
  | .escalate i, s =>
    (assign t i s).map fun s' =>
      (s', finishing i (escalateToDeepMonitoring i))
  | .monitor i, s =>
    (assign t i s).map fun s' => (s', finishing i (phase3Page i))
  | .fault i, s =>
    some (s, do
      let _ ← handleFault cfg i
      pure ())
  | .retire pages decommit, s =>
    (claimAll (pages.map fun i => (i, takeInService t)) s).map fun s' =>
      (s', retireEmptySpan decommit pages)
  | .purge pages, s =>
    (claimAll (pages.map fun i => (i, takeIdle t)) s).map fun s' =>
      (s', purgeResidentEmpty pages)
  | .serve pages, s =>
    (claimAll (pages.map fun page => (page.1, takeForSpan t page.2)) s).map
      fun s' => (s', serveSpan (pages.map Prod.fst))

def system (cfg : Config) : System Op Answer Thread Choice Shared Entry Event where
  perform := perform
  launch := launch cfg
  environment := environment

abbrev Threads := Pool Op Answer Thread Shared

def freshCell : Cell where
  state := .empty
  prot := .readWrite
  memory := fun _ => 0
  lock := none
  info := {}
  tier := .none
  pending := false
  blobs := []
  nextBlob := 0
  span := none
  free := fun _ => true
  held := []
  app := fun _ => none
  owner := .idle
  worker := none
  reopened := false
  drops := []
  damaged := false

def boot (pages : Nat) : Shared where
  pages := pages
  page := fun _ => freshCell
  spilledCount := 0

def bootPool (pages : Nat) : Threads where
  shared := boot pages
  code := fun _ => .done ()

end System

end Smash.Compressor
