import Smash.PageMachine

/-! The compressor's functions as programs over `PageMachine`, under the source's names.
A loop over pages takes the list of pages it visits; a loop that spins for a fault slot is
left out, because it only waits. What the run searches of `restoreNearCap` and
`restoreWholeVma` find is a free answer, as they read other pages without a lock. -/
namespace Smash.Compressor

open Program PageMachine

abbrev Code := Prog Op Answer

/-- Build and environment settings that select code paths. -/
structure Config where
  deferred : Bool
  fixav : Bool
  snapshotVerify : Bool
  p2Chunk : Bool
  deferMadvise : Bool
  deepTier : Bool
  spill : Bool
  prefetchWindow : Nat

def kPendingProtCap : Nat := 256

def on (i : Nat) (op : CellOp) : Code (CellAnswer op) := Prog.act (Op.page i op)

def onRange (first count : Nat) (op : RangeOp) : Code Bool := Prog.act (Op.range first count op)

def ask (question : Question) : Code Bool := Prog.act (Op.ask question)

def addSpilled (delta : Int) : Code Unit := Prog.act (Op.addSpilled delta)

def committedPages : Code Nat := Prog.act Op.committedPages

def selectProfile : Code (Option (CompressAlgo × Bool)) := Prog.act Op.profile

def boundsAround (i : Nat) : Code (Nat × Nat) := Prog.act (Op.bounds i)

def forPages : List Nat → (Nat → Code Unit) → Code Unit
  | [], _ => pure ()
  | i :: rest, body => do
      body i
      forPages rest body

section Blobs

/-- The tier tag, not the pointer, decides which store a release goes to. -/
def releaseBlob (i : Nat) : Code Unit := do
  let info ← on i .getInfo
  match info.data with
  | none => pure ()
  | some blob =>
    let tier ← on i .getTier
    if tier = .spilled then
      on i (.release .spill blob)
      addSpilled (-1)
    else on i (.release .anonymous blob)

/-- The common end of a restore: the blob is gone and the page is plain memory again. -/
def discardBlob (i : Nat) : Code Unit := do
  releaseBlob i
  on i (.setInfo {})
  on i (.setTier .none)
  on i (.setState .active)

end Blobs

section Compress

def zeroSlot (span : Span) (slot : Nat) (buf : Contents) : Contents := fun offset =>
  if slot * span.objectSize ≤ span.pageOff + offset ∧
      span.pageOff + offset < slot * span.objectSize + span.objectSize then 0
  else buf offset

def zeroFrom (i : Nat) (span : Span) : Nat → Nat → Contents → Code Contents
  | 0, _, buf => pure buf
  | fuel + 1, slot, buf =>
    if span.pageOff + kPageSize ≤ slot * span.objectSize then pure buf
    else do
      let free ← on i (.slotFree slot)
      zeroFrom i span fuel (slot + 1) (if free then zeroSlot span slot buf else buf)

def zeroFreeSlots (i : Nat) (buf : Contents) : Code Contents := do
  match ← on i .getSpan with
  | none => pure buf
  | some span =>
    if span.isLarge ∨ span.objectSize = 0 then pure buf
    else
      let firstSlot := span.pageOff / span.objectSize
      zeroFrom i span (span.objectCount - firstSlot) firstSlot buf

def abandon (i : Nat) : Code Unit := do
  on i (.setState .active)
  on i .unlock

/-- The deferred-mode snapshot is taken while the application may still write. -/
def snapshotDeferred (cfg : Config) (i : Nat) : Code (Option Contents) := do
  let _ ← on i (.protect .readWrite)
  let buf ← on i .copy
  if cfg.fixav then
    let verify ← on i .copy
    if samePage verify buf then
      let zeroed ← zeroFreeSlots i buf
      pure (some zeroed)
    else
      abandon i
      pure none
  else
    let zeroed ← zeroFreeSlots i buf
    pure (some zeroed)

def checkStillCompressing (i : Nat) (buf : Contents) : Code (Option Contents) := do
  let zeroed ← zeroFreeSlots i buf
  let s ← on i .getState
  if s = .compressing then pure (some zeroed)
  else
    on i .unlock
    pure none

/-- The standard snapshot gives up the lock around `mprotect(PROT_READ)`. -/
def snapshotStandard (cfg : Config) (i : Nat) : Code (Option Contents) := do
  on i .unlock
  let _ ← on i (.protect .read)
  on i .lock
  let s ← on i .getState
  if s = .compressing then
    let buf ← on i .copy
    if cfg.snapshotVerify ∨ cfg.fixav then
      let verify ← on i .copy
      if samePage verify buf then checkStillCompressing i buf
      else
        let _ ← on i (.protect .readWrite)
        abandon i
        pure none
    else checkStillCompressing i buf
  else
    let _ ← on i (.protect .readWrite)
    on i .unlock
    pure none

def snapshot (cfg : Config) (i : Nat) : Code (Option Contents) :=
  if cfg.deferred then snapshotDeferred cfg i else snapshotStandard cfg i

def reopen (i : Nat) (buf : Contents) : Code Unit := do
  let writable ← on i (.protect .readWrite)
  if writable then on i (.write buf)
  else
    let _ ← on i (.remap .readWrite)
    on i (.write buf)

def giveUp (cfg : Config) (i : Nat) (buf : Contents) : Code Bool := do
  if cfg.deferred then
    abandon i
    pure false
  else
    reopen i buf
    abandon i
    pure false

/-- The codec and the ratio gate; a fast-tier failure may be retried with the deep codec. -/
def runCodec (cfg : Config) (algo : CompressAlgo) (fast : Bool) :
    Code (Option (CompressAlgo × Bool)) := do
  if ← ask .ratioGate then pure (some (algo, fast))
  else if cfg.deepTier ∧ fast then
    if ← ask .ratioGate then pure (some (.zstd, false)) else pure none
  else pure none

def protectOrRemap (i : Nat) (prot : Prot) : Code Bool := do
  if ← on i (.protect prot) then pure true else on i (.remap prot)

def keepCompressed (i : Nat) : Code Bool := do
  on i (.setState .compressed)
  on i .unlock
  pure true

/-- The standard-mode end of `compressPage`; `pendingCount` is the worker's list length. -/
def publish (cfg : Config) (i : Nat) (buf : Contents) (pendingCount : Nat) :
    Code Bool := do
  if cfg.p2Chunk then
    on i (.setState .compressed)
    if pendingCount < kPendingProtCap then
      on i .unlock
      pure true
    else
      on i .drop
      let _ ← protectOrRemap i .none
      on i .unlock
      pure true
  else if cfg.fixav then
    if ← protectOrRemap i .none then
      on i (.setState .compressed)
      on i .drop
      on i .unlock
      pure true
    else
      reopen i buf
      abandon i
      pure false
  else if cfg.deferMadvise then
    on i (.setState .compressed)
    let _ ← on i (.exchangePending true)
    on i .unlock
    if (← on i .getState) = .compressed then
      let _ ← protectOrRemap i .none
      pure true
    else pure true
  else
    on i .drop
    if ← protectOrRemap i .none then keepCompressed i
    else
      reopen i buf
      abandon i
      pure false

def record (cfg : Config) (i : Nat) (buf : Contents) (info : CompressedPageInfo)
    (fast : Bool) (pendingCount : Nat) : Code Bool := do
  on i (.setInfo info)
  on i (.setTier (if fast then .fast else .deep))
  if cfg.deferred then
    on i (.setState .compressedShadow)
    on i .unlock
    pure true
  else publish cfg i buf pendingCount

def compressSnapshot (cfg : Config) (i : Nat) (buf : Contents) (algo : CompressAlgo)
    (fast : Bool) (pendingCount : Nat) : Code Bool := do
  -- A zero page stores nothing: the sentinel says everything.
  if pageIsAllZero buf then record cfg i buf {} fast pendingCount
  else
    match ← runCodec cfg algo fast with
    | none => giveUp cfg i buf
    | some (algo, fast) =>
      match ← on i (.store .anonymous buf) with
      | none => giveUp cfg i buf
      | some blob => record cfg i buf ⟨some blob, algo⟩ fast pendingCount

def compressEligible (cfg : Config) (i : Nat) (pendingCount : Nat) : Code Bool := do
  on i (.setState .compressing)
  if ← ask .shouldCompress then
    match ← selectProfile with
    | none =>
      abandon i
      pure false
    | some (algo, fast) =>
      match ← snapshot cfg i with
      | none => pure false
      | some buf => compressSnapshot cfg i buf algo fast pendingCount
  else
    abandon i
    pure false

def compressLocked (cfg : Config) (i : Nat) (pendingCount : Nat) : Code Bool := do
  let s ← on i .getState
  if s = .active ∨ s = .activeMonitoring then
    compressEligible cfg i pendingCount
  else
    on i .unlock
    pure false

def compressPage (cfg : Config) (i : Nat) (pendingCount : Nat) : Code Bool := do
  if cfg.deferred then
    if ← on i .tryLock then compressLocked cfg i pendingCount else pure false
  else
    on i .lock
    compressLocked cfg i pendingCount

end Compress

section Restore

def populateThenOpen (i : Nat) (bytes : Contents) : Code Bool := do
  if ← on i (.populate bytes) then on i (.protect .readWrite) else pure false

def commitOrRemap (i : Nat) : Code Bool := do
  if ← on i .commit then pure true else on i (.remap .readWrite)

/-- Populate the backing while the page is inaccessible, then open it. The fallback opens
first and copies afterwards. -/
def restorePageContents (i : Nat) (bytes : Contents) : Code Bool := do
  if ← populateThenOpen i bytes then pure true
  else if ← commitOrRemap i then
    on i (.write bytes)
    pure true
  else pure false

def unlockAll (pages : List Nat) : Code Unit := forPages pages fun i => on i .unlock

def lockOthers (locked : List Nat) : List Nat → Code Bool
  | [] => pure true
  | i :: rest => do
      if ← on i .tryLock then
        let s ← on i .getState
        if s = .compressing ∨ s = .empty then
          on i .unlock
          unlockAll locked
          pure false
        else lockOthers (locked ++ [i]) rest
      else
        unlockAll locked
        pure false

def acquireFaultSlot (slot : Bool) : Code Bool :=
  if slot then pure true else ask .faultSlot

def populatePage (i : Nat) : Code Bool := do
  let info ← on i .getInfo
  let bytes ← on i (.decompress info)
  on i (.populate bytes)

def populateOthers (slot : Bool) : List Nat → Code Bool
  | [] => pure true
  | i :: rest => do
      if (← on i .getState) = .compressed then
        if ← acquireFaultSlot slot then
          if ← populatePage i then populateOthers true rest else pure false
        else pure false
      else populateOthers slot rest

def finalizeOther (i : Nat) : Code Unit := do
  let s ← on i .getState
  if s = .compressed ∨ s = .compressedShadow then
    let _ ← on i (.exchangePending false)
    discardBlob i
    on i .unlock
  else if s = .activeMonitoring then
    on i (.setState .active)
    on i .unlock
  else on i .unlock

/-- Every page of the range but `idx` itself; the caller finalizes that one. -/
def othersIn (i lo hi : Nat) : List Nat :=
  (List.range' lo (hi - lo)).filter fun j => j ≠ i

/-- No data: the page's own backing is correct already. -/
def populateOwn (i : Nat) : Option Contents → Code Bool
  | none => pure true
  | some bytes => on i (.populate bytes)

def populateRange (i : Nat) (data : Option Contents) (others : List Nat) : Code Bool := do
  if ← populateOwn i data then populateOthers false others else pure false

/-- Populate every compressed page of the range, then open all of it with one call. -/
def openRange (i : Nat) (data : Option Contents) (lo hi : Nat) : Code Bool := do
  if ← populateRange i data (othersIn i lo hi) then
    onRange lo (hi - lo) (.protect .readWrite)
  else pure false

def restoreRange (i : Nat) (data : Option Contents) (lo hi : Nat) : Code Bool := do
  if ← lockOthers [] (othersIn i lo hi) then
    if ← openRange i data lo hi then
      forPages (othersIn i lo hi) finalizeOther
      pure true
    else
      unlockAll (othersIn i lo hi)
      pure false
  else pure false

def restoreWholeVma (i : Nat) (data : Option Contents) : Code Bool := do
  if ← ask .wholeVma then
    let bounds ← boundsAround i
    restoreRange i data bounds.1 bounds.2
  else pure false

def restoreNearCap (i : Nat) (data : Option Contents) : Code Bool := do
  let s ← on i .getState
  if s = .compressed ∨ s = .activeMonitoring then
    if ← ask .runFound then
      let bounds ← boundsAround i
      if bounds.2 - bounds.1 < 2 then pure false
      else restoreRange i data bounds.1 bounds.2
    else pure false
  else pure false

def tryNearCap (i : Nat) (data : Option Contents) : Code Bool := do
  if ← ask .nearCap then restoreNearCap i data else pure false

def makeResidentPageWritable (i : Nat) : Code Bool := do
  if ← tryNearCap i none then pure true
  else if ← on i (.protect .readWrite) then pure true
  else if ← ask .outOfMemory then restoreWholeVma i none
  else on i (.remap .readWrite)

end Restore

section Fault

def prefetchPage (j : Nat) : Code Unit := do
  let committed ← committedPages
  if j < committed then
    if ← ask .sameSpan then
      if ← on j .tryLock then
        let s ← on j .getState
        let info ← on j .getInfo
        if s = .compressed ∧ info.data.isSome then
          if ← ask .faultSlot then
            let bytes ← on j (.decompress info)
            if ← restorePageContents j bytes then
              releaseBlob j
              on j (.setInfo {})
              -- The tier tag is left as it was.
              on j (.setState .active)
              on j .unlock
            else on j .unlock
          else on j .unlock
        else on j .unlock
      else pure ()
    else pure ()
  else pure ()

def neighbours (window i : Nat) : List Nat :=
  ((List.range window).reverse.filterMap fun back =>
    if back + 1 ≤ i then some (i - (back + 1)) else none) ++
    (List.range window).map fun ahead => i + (ahead + 1)

def prefetchAdjacent (cfg : Config) (i : Nat) : Code Unit :=
  forPages (neighbours cfg.prefetchWindow i) prefetchPage

def restoreFaulted (i : Nat) (bytes : Contents) : Code Bool := do
  if ← tryNearCap i (some bytes) then pure true
  else if ← restorePageContents i bytes then pure true
  else restoreWholeVma i (some bytes)

def faultCompressed (cfg : Config) (i : Nat) : Code Bool := do
  let wasPending ← on i (.exchangePending false)
  let info ← on i .getInfo
  let bytes ← on i (.decompress info)
  if ← restoreFaulted i bytes then
    discardBlob i
    on i .unlock
    prefetchAdjacent cfg i
    pure true
  else if wasPending then
    let _ ← on i (.exchangePending true)
    on i .unlock
    pure true
  else
    on i .unlock
    pure true

def faultCompressing (i : Nat) : Code Bool := do
  let _ ← commitOrRemap i
  abandon i
  pure true

def faultMonitoring (i : Nat) : Code Bool := do
  if ← makeResidentPageWritable i then
    abandon i
    pure true
  else
    on i .unlock
    pure true

def faultActive (i : Nat) : Code Bool := do
  let _ ← makeResidentPageWritable i
  on i .unlock
  pure true

def faultShadow (i : Nat) : Code Bool := do
  let _ ← on i (.protect .readWrite)
  discardBlob i
  on i .unlock
  pure true

def handleFault (cfg : Config) (i : Nat) : Code Bool := do
  if ← on i .heldByThisThread then pure false
  else
    on i .lock
    match ← on i .getState with
    | .compressed => faultCompressed cfg i
    | .compressing => faultCompressing i
    | .activeMonitoring => faultMonitoring i
    | .active => faultActive i
    | .compressedShadow => faultShadow i
    | .empty =>
      on i .unlock
      pure false

def releaseCompressedPage (i : Nat) : Code Unit := do
  on i .lock
  let _ ← on i (.exchangePending false)
  let s ← on i .getState
  let info ← on i .getInfo
  if (s = .compressed ∨ s = .compressedShadow) ∧ info.data.isSome then
    releaseBlob i
    on i (.setInfo {})
    on i (.setState .empty)
    on i .unlock
  else
    on i (.setState .empty)
    on i .unlock

def releaseCompressedPages (pages : List Nat) : Code Unit := forPages pages releaseCompressedPage

end Fault

section Reclaim

/-- The verified part of Phase B: the page is locked, in shadow state and readable. -/
def reclaimMatching (cfg : Config) (i : Nat) : Code Unit := do
  if cfg.fixav then
    let _ ← on i (.protect .none)
    on i (.setState .compressed)
    on i .drop
    on i .unlock
  else
    on i .drop
    let _ ← on i (.protect .none)
    on i (.setState .compressed)
    on i .unlock

def reclaimMismatch (i : Nat) : Code Unit := do
  releaseBlob i
  on i (.setInfo {})
  on i (.setTier .none)
  let _ ← on i (.protect .readWrite)
  on i (.setState .active)
  on i .unlock

def reclaimReadable (cfg : Config) (i : Nat) : Code Unit := do
  if ← ask .faultSlot then
    let info ← on i .getInfo
    let bytes ← on i (.decompress info)
    let mem ← on i .copy
    if samePage mem bytes then reclaimMatching cfg i else reclaimMismatch i
  else
    let _ ← on i (.protect .readWrite)
    on i .unlock

def reclaimLocked (cfg : Config) (i : Nat) : Code Unit := do
  if (← on i .getState) = .compressedShadow then
    let _ ← on i (.protect .read)
    if (← on i .getState) = .compressedShadow then reclaimReadable cfg i
    else
      let _ ← on i (.protect .readWrite)
      on i .unlock
  else on i .unlock

def reclaimShadowPage (cfg : Config) (i : Nat) : Code Unit := do
  if (← on i .getState) = .compressedShadow then
    if ← ask .aged then
      if ← on i .tryLock then reclaimLocked cfg i else pure ()
    else pure ()
  else pure ()

def reclaimShadowRange (cfg : Config) (pages : List Nat) : Code Unit :=
  forPages pages (reclaimShadowPage cfg)

end Reclaim

end Smash.Compressor
