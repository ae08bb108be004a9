import Smash.PageExact

/-! What `compressPage` leaves behind when it returns false, for every setting and every
outcome of the calls it makes. -/
namespace Smash.Compressor

open Program PageMachine
open Prog (done_bind call_bind act pure_eq bind_assoc)

section Exits

variable {algo : CompressAlgo} {buf : Contents} {cfg : Config} {fast : Bool} {pendingCount : Nat}

/-- The call came to nothing: no record, no blob more or less, no lock and no compressed
state. -/
structure CleanExit (idx : Nat) (before after : Shared) : Prop where
  unrecorded : (after.page idx).info.data = none
  stores : ∀ other, (after.page other).blobs = (before.page other).blobs
  unlocked : (after.page idx).lock = none
  notCompressed : (after.page idx).state ≠ .compressed
  notShadow : (after.page idx).state ≠ .compressedShadow
  notCompressing : (after.page idx).state ≠ .compressing

def Claimable (s : Shared) (i : Nat) : Prop :=
  i < s.pages ∧ (s.page i).lock = none ∧
    ((s.page i).state = .active ∨ (s.page i).state = .activeMonitoring)

/-- The settings whose last step can fail: the page is protected one by one, and not by the
deferred-madvise path. -/
def Config.failsLate (cfg : Config) : Bool :=
  !cfg.deferred && !cfg.p2Chunk && (cfg.fixav || !cfg.deferMadvise)

def snapshotProt (k : Op → Bool) (i : Nat) (prot : Prot) : Prot :=
  if k (.page i (.protect .read)) then .read else prot

def Writable (k : Op → Bool) (i : Nat) (prot : Prot) : Prop :=
  k (.page i (.protect .readWrite)) = true ∨
    k (.page i (.remap .readWrite)) = true ∨ prot = .readWrite

structure LateFailure (cfg : Config) (kernel : Op → Bool) (idx : Nat) (cell : Cell) :
    Prop where
  late : cfg.failsLate = true
  notProtected : kernel (.page idx (.protect .none)) = false
  notRemapped : kernel (.page idx (.remap .none)) = false
  readable : snapshotProt kernel idx cell.prot ≠ .none
  reopens : Writable kernel idx (snapshotProt kernel idx cell.prot)
  stored : zeroed (if kernel (.page idx .getSpan) then cell.span else none) cell.free
    cell.memory ≠ fun _ => 0

def Unstored (s : Shared) (i : Nat) (c : Cell) : Prop :=
  c.info.data = none ∧ c.blobs = (s.page i).blobs

variable {k : Op → Bool} {t : Thread} {sh : Shared} {i : Nat} {c : Cell}

abbrev Clears (k : Op → Bool) (t : Thread) (origin : Shared) (i : Nat)
    (prog : Code Bool) (sh : Shared) : Prop :=
  Goes k t (fun _ => True) prog
    (fun done s' => done = false → CleanExit i origin s') sh

theorem cleanExit_set (s : c.state = .active) (free : c.lock = none) :
    CleanExit i sh (sh.set i c) ↔ Unstored sh i c := by
  constructor
  · intro clean
    exact ⟨by simpa using clean.unrecorded, by simpa using clean.stores i⟩
  · rintro ⟨missing, same⟩
    refine ⟨by simpa using missing, fun j => ?_, by simpa using free, by simp [s],
      by simp [s], by simp [s]⟩
    by_cases here : j = i
    · subst here
      simpa using same
    · simp [Function.update_of_ne here]

theorem lateFailure_claim {s : PageState} {lock : Option Thread} {reopened : Bool} :
    LateFailure cfg k i { c with state := s, lock := lock, reopened := reopened } ↔
      LateFailure cfg k i c := by
  constructor <;>
    exact fun failure => ⟨failure.late, failure.notProtected, failure.notRemapped,
      failure.readable, failure.reopens, failure.stored⟩

variable (inside : i < sh.pages)
include inside

theorem abandon_clears :
    Clears k t sh i (do
        abandon i
        pure false) (sh.set i c) ↔ Unstored sh i c := by
  simp only [abandon, on, act, call_bind, done_bind, pure_eq,
    at_setState inside, at_unlock inside, meets_done, true_and,
    forall_const]
  exact cleanExit_set rfl rfl

theorem reopen_clears :
    Clears k t sh i (do
        reopen i buf
        abandon i
        pure false) (sh.set i c) ↔
      (Writable k i c.prot → Unstored sh i c) := by
  -- Whatever has been done to protection and memory, the record is still that of `cell`.
  have rest : ∀ {c' : Cell}, c'.info = c.info → c'.blobs = c.blobs → (Clears k t sh i (do
          abandon i
          pure false) (sh.set i c') ↔ Unstored sh i c) := by
    intro c' info blobs
    rw [abandon_clears inside, Unstored, Unstored, info, blobs]
  simp only [reopen, on, act, call_bind, done_bind, at_protect inside]
  cases opens : k (.page i (.protect .readWrite)) with
  | true =>
    simp only [if_true, call_bind, done_bind, at_write inside, Writable,
      opens, true_or, forall_const]
    exact rest rfl rfl
  | false =>
    simp only [Bool.false_eq_true, if_false, call_bind, done_bind,
      at_remap inside, at_write inside, Writable, opens, false_or]
    cases k (.page i (.remap .readWrite)) with
    | true =>
      simp only [if_true, true_or, forall_const]
      exact rest rfl rfl
    | false =>
      simp only [Bool.false_eq_true, if_false, false_or]
      split_ifs with writable
      · simp only [writable, forall_const]
        exact rest rfl rfl
      · exact iff_of_true trivial fun absurd => (writable absurd).elim

theorem giveUp_clears (unstored : Unstored sh i c) :
    Clears k t sh i (giveUp cfg i buf) (sh.set i c) := by
  unfold giveUp
  split_ifs
  · exact (abandon_clears inside).mpr unstored
  · exact (reopen_clears inside).mpr fun _ => unstored

theorem protectOrRemap_goes {next : Bool → Code Bool} {post : Bool → Shared → Prop} {prot : Prot} :
    Goes k t (fun _ => True) (protectOrRemap i prot >>= next) post
        (sh.set i c) ↔
      if k (.page i (.protect prot)) then
        Goes k t (fun _ => True) (next true) post
          (sh.set i { c with prot := prot })
      else if k (.page i (.remap prot)) then
        Goes k t (fun _ => True) (next true) post
          (sh.set i { c with prot := prot, memory := fun _ => 0 })
      else Goes k t (fun _ => True) (next false) post (sh.set i c) := by
  simp only [protectOrRemap, on, act, call_bind, done_bind, at_protect inside]
  cases k (.page i (.protect prot)) with
  | true => simp only [if_true, pure_eq, done_bind]
  | false =>
    simp only [Bool.false_eq_true, if_false, call_bind, done_bind, at_remap inside]
    cases k (.page i (.remap prot)) <;> rfl

theorem publish_clears (standard : cfg.deferred = false) :
    Clears k t sh i (publish cfg i buf pendingCount) (sh.set i c) ↔
      (cfg.failsLate = true → k (.page i (.protect .none)) = false →
        k (.page i (.remap .none)) = false → Writable k i c.prot → Unstored sh i c) := by
  unfold publish
  simp only [Config.failsLate, standard, Bool.not_false, Bool.true_and]
  split_ifs with chunked short fixav slow
  · refine iff_of_true ?_ (by simp [chunked])
    simp [on, act, at_setState inside, at_unlock inside]
  · refine iff_of_true ?_ (by simp [chunked])
    simp only [on, act, call_bind, done_bind, at_setState inside,
      at_drop inside, protectOrRemap_goes inside, at_unlock inside, pure_eq,
      meets_done, true_and]
    split_ifs <;> simp
  · -- Protection first: the failing exit finds the page as `publish` did.
    refine (protectOrRemap_goes inside).trans ?_
    simp only [fixav, if_true, Bool.false_eq_true, if_false, on, act, call_bind,
      done_bind, at_setState inside, at_drop inside,
      at_unlock inside, pure_eq, meets_done, true_and]
    cases k (.page i (.protect .none)) <;>
      cases k (.page i (.remap .none)) <;>
      simp [chunked]
    exact reopen_clears inside
  · refine iff_of_true ?_ (by simp [fixav, slow])
    simp only [on, act, call_bind, done_bind, at_setState inside,
      at_exchangePending inside, at_unlock inside,
      at_getState inside, if_true, protectOrRemap_goes inside, pure_eq,
      meets_done, true_and]
    split_ifs <;> simp
  · -- The page has been dropped by then, which does not touch the record.
    simp only [on, act, call_bind, done_bind, at_drop inside, true_and,
      protectOrRemap_goes inside, keepCompressed, at_setState inside,
      at_unlock inside, pure_eq, meets_done, if_true, Bool.false_eq_true,
      if_false]
    cases k (.page i (.protect .none)) <;>
      cases k (.page i (.remap .none)) <;>
      simp [chunked, fixav, slow]
    exact reopen_clears inside

theorem record_clears {info : CompressedPageInfo} :
    Clears k t sh i (record cfg i buf info fast pendingCount) (sh.set i c) ↔
      (cfg.failsLate = true → k (.page i (.protect .none)) = false →
        k (.page i (.remap .none)) = false → Writable k i c.prot →
        Unstored sh i { c with info := info }) := by
  simp only [record, on, act, call_bind, done_bind, at_setInfo inside, at_setTier inside]
  cases deferred : cfg.deferred with
  | true =>
    refine iff_of_true ?_ (by simp [Config.failsLate, deferred])
    simp [at_setState inside, at_unlock inside]
  | false =>
    simp only [Bool.false_eq_true, if_false]
    exact publish_clears inside deferred

/-- Once the snapshot is taken, the only exit that is not clean is the failure to protect a page
whose blob has been recorded. -/
theorem storeBlob_clears (unstored : Unstored sh i c) (nonzero : buf ≠ fun _ => 0) :
    Clears k t sh i (do
        match ← on i (.store .anonymous buf) with
        | none => giveUp cfg i buf
        | some blob => record cfg i buf ⟨some blob, algo⟩ fast pendingCount)
        (sh.set i c) ↔
      (cfg.failsLate = true → k (.page i (.protect .none)) = false →
        k (.page i (.remap .none)) = false → Writable k i c.prot → buf = fun _ => 0) := by
  refine (at_store inside).trans ?_
  refine (and_iff_right (giveUp_clears inside unstored)).trans ((record_clears inside).trans ?_)
  simp [Unstored, nonzero]

theorem compressSnapshot_clears (unstored : Unstored sh i c) : Clears k t sh i
        (compressSnapshot cfg i buf algo fast pendingCount) (sh.set i c) ↔
      (cfg.failsLate = true → k (.page i (.protect .none)) = false →
        k (.page i (.remap .none)) = false → Writable k i c.prot → buf = fun _ => 0) := by
  unfold compressSnapshot
  split_ifs with zero
  · refine (record_clears inside).trans (iff_of_true (fun _ _ _ _ => ?_) fun _ _ _ _ => ?_)
    · exact ⟨rfl, unstored.2⟩
    · exact pageIsAllZero_iff.mp zero
  · have nonzero : buf ≠ fun _ => 0 := fun all => zero (pageIsAllZero_iff.mpr all)
    have given : Clears k t sh i (giveUp cfg i buf) (sh.set i c) := giveUp_clears inside unstored
    simp only [runCodec, ask, act, call_bind, done_bind, goes_ask, if_true,
      Bool.false_eq_true, if_false, pure_eq]
    refine (and_congr (storeBlob_clears inside unstored nonzero) Iff.rfl).trans
      (and_iff_left_of_imp fun clears => ?_)
    split_ifs
    · simp only [call_bind, done_bind, goes_ask, if_true, Bool.false_eq_true, if_false]
      exact ⟨(storeBlob_clears inside unstored nonzero).mpr clears, given⟩
    · exact given

theorem checkStillCompressing_clears (compressing : c.state = .compressing)
    (unstored : Unstored sh i c) :
    Clears k t sh i (do
        match ← checkStillCompressing i buf with
        | none => pure false
        | some buf => compressSnapshot cfg i buf algo fast pendingCount)
        (sh.set i c) ↔
      (cfg.failsLate = true → k (.page i (.protect .none)) = false →
        k (.page i (.remap .none)) = false → Writable k i c.prot →
        zeroed (if k (.page i .getSpan) then c.span else none) c.free buf =
          fun _ => 0) := by
  simp only [checkStillCompressing, bind_assoc, at_zeroFreeSlots inside, on,
    act, call_bind, done_bind, at_getState inside, compressing,
    if_true, pure_eq]
  exact compressSnapshot_clears inside unstored

/-- The standard snapshot has tried to make the page read-only; a page it cannot read blocks it
for good. -/
theorem snapshotStandard_clears (compressing : c.state = .compressing)
    (unstored : Unstored sh i c) :
    Clears k t sh i (do
        match ← snapshotStandard cfg i with
        | none => pure false
        | some buf => compressSnapshot cfg i buf algo fast pendingCount)
        (sh.set i c) ↔ ¬ LateFailure cfg k i c := by
  have exits : ¬ LateFailure cfg k i c ↔ (snapshotProt k i c.prot ≠ .none → cfg.failsLate = true →
        k (.page i (.protect .none)) = false →
        k (.page i (.remap .none)) = false →
        Writable k i (snapshotProt k i c.prot) →
        zeroed (if k (.page i .getSpan) then c.span else none) c.free
          c.memory = fun _ => 0) := by
    constructor
    · intro clean readable late notProtected notRemapped reopens
      by_contra stored
      exact clean ⟨late, notProtected, notRemapped, readable, reopens, stored⟩
    · intro clean failure
      exact failure.stored (clean failure.readable failure.late failure.notProtected
        failure.notRemapped failure.reopens)
  rw [exits, snapshotProt]
  simp only [snapshotStandard, on, act, call_bind, done_bind,
    at_unlock inside, at_protect inside, at_lock inside,
    at_getState inside, compressing, if_true, at_copy inside]
  by_cases hidden : (if k (.page i (.protect .read)) then Prot.read else c.prot) =
      .none
  · simp only [hidden, if_true, ne_eq, not_true, false_implies]
  · simp only [hidden, if_false, ne_eq, not_false_iff, forall_const]
    by_cases verifies : cfg.snapshotVerify = true ∨ cfg.fixav = true
    · have unchanged : samePage c.memory c.memory = true := samePage_iff.mpr rfl
      simp only [verifies, if_true, call_bind, at_copy inside, hidden, if_false, unchanged]
      exact checkStillCompressing_clears inside rfl unstored
    · simp only [verifies, if_false]
      exact checkStillCompressing_clears inside rfl unstored

theorem snapshotDeferred_clears (deferred : cfg.deferred = true)
    (unstored : Unstored sh i c) :
    Clears k t sh i (do
        match ← snapshotDeferred cfg i with
        | none => pure false
        | some buf => compressSnapshot cfg i buf algo fast pendingCount)
        (sh.set i c) := by
  have never : ¬ cfg.failsLate = true := by simp [Config.failsLate, deferred]
  have snapped : ∀ {c' : Cell} {buf : Contents}, c'.info = c.info →
      c'.blobs = c.blobs → Clears k t sh i
        (compressSnapshot cfg i buf algo fast pendingCount)
        (sh.set i c') := by
    intro c' buf info blobs
    have still : Unstored sh i c' := by rwa [Unstored, info, blobs]
    exact (compressSnapshot_clears inside still).mpr fun late => absurd late never
  simp only [snapshotDeferred, on, act, call_bind, done_bind, at_protect inside, at_copy inside]
  generalize (if k (.page i (.protect .readWrite)) then Prot.readWrite else c.prot) =
    prot
  split_ifs with hidden verifies
  · have unchanged : samePage c.memory c.memory = true := samePage_iff.mpr rfl
    simp only [call_bind, at_copy inside, hidden, if_false, unchanged, if_true,
      bind_assoc, at_zeroFreeSlots inside, pure_eq, done_bind]
    exact snapped rfl rfl
  · simp only [bind_assoc, at_zeroFreeSlots inside, pure_eq, done_bind]
    exact snapped rfl rfl

theorem compressEligible_clears (same : c.blobs = (sh.page i).blobs) :
    Clears k t sh i (compressEligible cfg i pendingCount) (sh.set i c) ↔
      c.info.data = none ∧ ¬ LateFailure cfg k i c := by
  simp only [compressEligible, ask, on, selectProfile, act, call_bind, done_bind,
    at_setState inside, goes_ask, if_true, Bool.false_eq_true, if_false]
  have abandoned : Clears k t sh i (do
      abandon i
      pure false)
      (sh.set i { c with state := .compressing, reopened := false }) ↔
        c.info.data = none := (abandon_clears inside).trans (and_iff_left same)
  refine (and_congr_right' abandoned).trans ?_
  rw [and_comm]
  refine and_congr_right fun missing => ?_
  have snapped : ∀ algo fast, Clears k t sh i (do
        match ← snapshot cfg i with
        | none => pure false
        | some buf => compressSnapshot cfg i buf algo fast pendingCount)
      (sh.set i { c with state := .compressing, reopened := false }) ↔
        ¬ LateFailure cfg k i c := by
    intro algo fast
    unfold snapshot
    split_ifs with deferred
    · refine iff_of_true (snapshotDeferred_clears inside deferred ⟨missing, same⟩) ?_
      intro failure
      simpa [Config.failsLate, deferred] using failure.late
    · refine (snapshotStandard_clears inside ?_ ?_).trans (not_congr ?_)
      · rfl
      · exact ⟨missing, same⟩
      · exact lateFailure_claim
  refine goes_profile.trans ?_
  constructor
  · rintro ⟨-, some⟩
    exact (snapped .zstd true).mp (some .zstd true (by simp))
  · intro clean
    exact ⟨abandoned.mpr missing, fun algo fast _ => (snapped algo fast).mpr clean⟩

end Exits

/-- A call on a page it can claim, with every answer of the codec and of the stores, leaves no
trace when it returns false, unless an earlier failure left its record behind or this one does. -/
theorem compressPage_clears_iff {cfg : Config} {k : Op → Bool} {t : Thread}
    {s : Shared} {i pendingCount : Nat} (claimable : Claimable s i) :
    Ensures perform (Outcome k) t (compressPage cfg i pendingCount)
        (fun done s' => done = false → CleanExit i s s') s ↔ (s.page i).info.data = none ∧
        ¬ LateFailure cfg k i (s.page i) := by
  obtain ⟨inside, free, eligible⟩ := claimable
  have locked : Clears k t s i (compressLocked cfg i pendingCount)
      (s.set i { s.page i with lock := some t }) ↔
      (s.page i).info.data = none ∧
        ¬ LateFailure cfg k i (s.page i) := by
    simp only [compressLocked, on, act, call_bind, done_bind, at_getState inside, eligible, if_true]
    refine (compressEligible_clears inside ?_).trans (and_congr_right' (not_congr ?_))
    · rfl
    · exact lateFailure_claim
  refine ensures_iff_meets.trans ((goes_apart i).trans ?_)
  unfold compressPage
  split_ifs <;>
    simp only [on, act, call_bind, done_bind, at_tryLock inside, at_lock inside, free, if_true] <;>
    exact locked

def onePageConfig : Config where
  deferred := false
  fixav := true
  snapshotVerify := false
  p2Chunk := false
  deferMadvise := true
  deepTier := false
  spill := false
  prefetchWindow := 0

def dirtyPage : Shared :=
  (boot 1).set 0
    { freshCell with
      state := .active, memory := fun offset => if offset.val = 4095 then 7 else 0 }

theorem dirtyPage_clears : Claimable dirtyPage 0 ∧
      Ensures perform (Outcome fun _ => true) 1 (compressPage onePageConfig 0 0)
        (fun done s' => done = false → CleanExit 0 dirtyPage s') dirtyPage := by
  have claimable : Claimable dirtyPage 0 := by
    simp [Claimable, dirtyPage, boot, freshCell]
  refine ⟨claimable, (compressPage_clears_iff claimable).mpr ⟨?_, fun failure => ?_⟩⟩
  · simp [dirtyPage, freshCell]
  · exact absurd failure.notProtected (by simp)

/-- The blob is recorded, then both ways to make the page inaccessible fail. -/
def lateFailure : List Choice :=
  List.replicate 17 { number := 1 } ++ [{ flag := false }, { flag := false }] ++
    List.replicate 4 { flag := true }

theorem record_survives_late_failure :
    (runAlone perform 1 (compressPage onePageConfig 0 0) dirtyPage lateFailure).map
      (fun r => (r.1, (r.2.1.page 0).state, (r.2.1.page 0).info.data,
        (r.2.1.page 0).blobs.length, r.2.2.length)) =
      some (false, .active, some ⟨.anonymous, 0⟩, 1, 0) := by
  decide +kernel

end Smash.Compressor
