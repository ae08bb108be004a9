import Smash.InertCode
import Smash.PageExact

/-! When a page's backing is dropped, is the page inaccessible? For each place that drops
pages, the exact condition under which the answer is yes, for every outcome of the
`mprotect` and `mmap` calls. -/
namespace Smash.Compressor

open Program PageMachine
open Prog (done_bind call_bind act pure_eq bind_assoc)

section Drops

variable {ch : Choice} {op : CellOp}

def openDrops (c : Cell) : Nat := c.drops.countP fun prot => prot ≠ .none

def DropsClosed (pre s' : Shared) : Prop :=
  ∀ i, openDrops (s'.page i) = openDrops (pre.page i)

/-- In every state the program passes through, no accessible page has been dropped since
`origin`. -/
abbrev Safely (k : Op → Bool) (t : Thread) (origin : Shared) {Result : Type}
    (prog : Code Result) (s : Shared) : Prop :=
  Goes k t (DropsClosed origin) prog (fun _ _ => True) s

def DropsSafely (k : Op → Bool) (t : Thread) {Result : Type} (prog : Code Result)
    (s : Shared) : Prop :=
  Safely k t s prog s

variable {k : Op → Bool} {t : Thread} {s origin : Shared} {i : Nat}
variable {Result Final : Type}

theorem cellStep_drops {pre c' : Cell} {ans : CellAnswer op} (j : quiet (.page i op) = true)
    (stepped : cellStep t op ch pre = some (ans, c')) : c'.drops = pre.drops := by
  cases op <;> simp only [cellStep] at stepped <;> first
    | (cases stepped; rfl)
    | (split_ifs at stepped <;> cases stepped <;> rfl)
    | cases j

theorem rangeStep_drops {op : RangeOp} {first count : Nat} (c : Cell)
    (j : quiet (.range first count op) = true) : (rangeStep op ch c).drops = c.drops := by
  cases op <;> simp only [rangeStep] <;> first
    | (split_ifs <;> rfl)
    | cases j

theorem openDrops_quiet {op : Op} {ans : Answer op} {s' : Shared} (harmless : quiet op = true)
    (ran : perform t op ch s = some (ans, s')) (j : Nat) :
    openDrops (s'.page j) = openDrops (s.page j) := by
  unfold openDrops
  cases op with
  | page i op =>
    simp only [perform] at ran
    split_ifs at ran
    obtain ⟨⟨v, c⟩, stepped, same⟩ := Option.map_eq_some_iff.mp ran
    cases same
    by_cases here : j = i
    · subst here
      simp [cellStep_drops harmless stepped]
    · simp [Function.update_of_ne here]
  | range first count op =>
    simp only [perform] at ran
    split_ifs at ran
    cases ran
    simp only [Shared.setRange]
    split_ifs
    · rw [rangeStep_drops _ harmless]
    · rfl
  | addSpilled delta => cases ran; rfl
  | ask question => cases ran; rfl
  | committedPages | profile | bounds i =>
    simp only [perform] at ran
    split_ifs at ran <;> cases ran <;> rfl

instance : Steady (DropsClosed origin) where
  same := fun harmless ran => forall_congr' fun j => by
    rw [openDrops_quiet harmless ran j]

def Careful (k : Op → Bool) (t : Thread) (origin : Shared) (prog : Code Result) : Prop :=
  ∀ s, DropsClosed origin s → Safely k t origin prog s

theorem Careful.pure (r : Result) : Careful k t origin (pure r) :=
  fun _ closed => ⟨closed, trivial⟩

theorem Careful.bind {front : Code Result} {next : Result → Code Final}
    (first : Careful k t origin front) (further : ∀ r, Careful k t origin (next r)) :
    Careful k t origin (front >>= next) :=
  fun s closed => meets_bind.mpr <| (first s closed).mono
    fun r s' still _ => further r s' still

theorem Careful.act {op : Op} (harmless : quiet op = true) : Careful k t origin (act op) :=
  fun _ closed => ⟨closed, fun _ _ _ _ ran =>
    ⟨(Steady.same harmless ran).mpr closed, trivial⟩⟩

theorem Inert.careful {code : Code Result} (only : Inert code) : Careful k t origin code := by
  induction code with
  | done r => exact .pure r
  | call op next ih =>
    refine (Careful.act ?_).bind fun ans => ih ans (only.2 ans)
    have kind := only.1
    rcases op with ⟨_, _ | _⟩ | ⟨_, _, _ | _⟩ | _ <;> first | rfl | cases kind

theorem Careful.on (harmless : quiet (.page i op) = true) : Careful k t origin (on i op) :=
  .act harmless

theorem Careful.step {next : CellAnswer op → Code Final} (harmless : quiet (.page i op) = true)
    (further : ∀ ans, Careful k t origin (next ans)) :
    Careful k t origin (Compressor.on i op >>= next) :=
  (Careful.on harmless).bind further

theorem Careful.ask {question : Question} : Careful k t origin (ask question) :=
  .act rfl

end Drops

section Reclaim

variable {k : Op → Bool} {t : Thread} {s origin : Shared} {i : Nat}

theorem closed_set {c : Cell} : DropsClosed s (s.set i c) ↔ openDrops c = openDrops (s.page i) := by
  constructor
  · intro closed
    simpa using closed i
  · intro same j
    by_cases here : j = i
    · subst here
      simpa using same
    · simp [Function.update_of_ne here]

theorem DropsClosed.set {c : Cell} (closed : DropsClosed origin s)
    (same : openDrops c = openDrops (s.page i)) : DropsClosed origin (s.set i c) :=
  fun j => (closed_set.mpr same j).trans (closed j)

theorem dropsSafely_at (i : Nat) {Result : Type} {prog : Code Result} : DropsSafely k t prog s ↔
      Safely k t s prog (s.set i (s.page i)) :=
  goes_apart i

theorem openDrops_cons {pre c' : Cell} {prot : Prot} {count : Nat}
    (even : openDrops pre = count) (dropped : c'.drops = prot :: pre.drops) :
    openDrops c' = count ↔ prot = .none := by
  subst even
  by_cases closed : prot = .none <;> simp [openDrops, dropped, closed]

theorem releaseBlob_careful : Careful k t origin (releaseBlob i) := by
  refine .step rfl fun info => ?_
  split
  · exact .pure ()
  · refine .step rfl fun tier => ?_
    split_ifs
    · exact .step rfl fun _ => .act rfl
    · exact .on rfl

theorem reclaimMismatch_careful : Careful k t origin (reclaimMismatch i) := by
  refine releaseBlob_careful.bind fun _ => ?_
  refine .step rfl fun _ => ?_
  refine .step rfl fun _ => ?_
  refine .step rfl fun _ => ?_
  exact .step rfl fun _ => .on rfl

/-- Phase B gets as far as dropping the page: it can be locked, it stays readable and its
contents match what the recorded blob decompresses to. -/
def Reclaimable (k : Op → Bool) (s : Shared) (i : Nat) : Prop :=
  i < s.pages ∧ (s.page i).state = .compressedShadow ∧
    (s.page i).lock = none ∧
    (k (.page i (.protect .read)) = true ∨ (s.page i).prot ≠ .none) ∧
    ∀ bytes, (s.page i).content = some bytes → bytes = (s.page i).memory

section Locked

variable {c : Cell} (inside : i < s.pages) (even : openDrops c = openDrops (s.page i))
include inside even

theorem reclaimMatching_at (cfg : Config) (seen : c.prot ≠ .none) :
    Safely k t s (reclaimMatching cfg i) (s.set i c) ↔
      cfg.fixav = true ∧ k (.page i (.protect .none)) = true := by
  simp only [reclaimMatching, on, act, call_bind, done_bind]
  cases cfg.fixav with
  | false =>
    simp only [Bool.false_eq_true, if_false, false_and, iff_false, at_drop inside,
      at_protect inside, at_setState inside, at_unlock inside, meets_done, and_true, closed_set]
    rintro ⟨-, dropped⟩
    exact seen ((openDrops_cons even rfl).mp dropped)
  | true =>
    simp only [if_true, true_and, at_drop inside, at_protect inside, at_setState inside,
      at_unlock inside, meets_done, and_true, closed_set]
    constructor
    · rintro ⟨-, dropped⟩
      simpa [seen] using (openDrops_cons even rfl).mp dropped
    · intro closes
      exact ⟨even, (openDrops_cons even rfl).mpr (if_pos closes)⟩

theorem reclaimReadable_at (cfg : Config) :
    Safely k t s (reclaimReadable cfg i) (s.set i c) ↔
      (c.prot ≠ .none → (∀ bytes, c.content = some bytes → bytes = c.memory) →
        cfg.fixav = true ∧ k (.page i (.protect .none)) = true) := by
  have calm : DropsClosed s (s.set i c) := closed_set.mpr even
  simp only [reclaimReadable, on, ask, act, call_bind, done_bind, goes_ask,
    if_true, at_getInfo inside, at_decompress inside, at_copy inside, Bool.false_eq_true,
    if_false, at_protect inside, at_unlock inside, meets_done, and_true, closed_set]
  constructor
  · rintro ⟨safe, -⟩ seen matching
    have dropped := safe c.memory fun stored found => (matching stored found).symm
    rw [if_neg seen, if_pos (samePage_iff.mpr rfl)] at dropped
    exact (reclaimMatching_at inside even cfg seen).mp dropped
  · intro safe
    refine ⟨fun bytes agrees => ?_, even⟩
    split_ifs with hidden same
    · exact even
    · have equal := samePage_iff.mp same
      exact (reclaimMatching_at inside even cfg hidden).mpr
        (safe hidden fun stored found => (agrees stored found).symm.trans equal.symm)
    · exact reclaimMismatch_careful _ calm

theorem reclaimLocked_at (cfg : Config) (shadow : c.state = .compressedShadow) :
    Safely k t s (reclaimLocked cfg i) (s.set i c) ↔
      (k (.page i (.protect .read)) = true ∨ c.prot ≠ .none →
        (∀ bytes, c.content = some bytes → bytes = c.memory) →
        cfg.fixav = true ∧ k (.page i (.protect .none)) = true) := by
  simp only [reclaimLocked, on, act, call_bind, done_bind, at_getState inside,
    shadow, if_true, at_protect inside]
  refine (reclaimReadable_at inside ?_ cfg).trans ?_
  · exact even
  · cases k (.page i (.protect .read)) <;> simp [Cell.content, Cell.lookup]

end Locked

theorem reclaimShadowPage_safely (cfg : Config) : DropsSafely k t (reclaimShadowPage cfg i) s ↔
      (Reclaimable k s i → cfg.fixav = true ∧ k (.page i (.protect .none)) = true) := by
  by_cases inside : i < s.pages
  · have calm : DropsClosed s (s.set i (s.page i)) := closed_set.mpr rfl
    rw [dropsSafely_at i]
    simp only [reclaimShadowPage, on, ask, act, call_bind, done_bind, pure_eq, at_getState inside]
    split_ifs with shadow
    · simp only [goes_ask, if_true, Bool.false_eq_true, if_false, at_tryLock inside,
        meets_done, and_true, calm, and_true]
      split_ifs with free
      · refine (reclaimLocked_at inside ?_ cfg ?_).trans ?_
        · rfl
        · exact shadow
        · simp [Reclaimable, inside, shadow, free, Cell.content, Cell.lookup]
      · simp [Reclaimable, free]
    · simp [Reclaimable, shadow, calm]
  · exact iff_of_true ((goes_outside inside).mpr fun _ => rfl) fun reached =>
      (inside reached.1).elim

end Reclaim

section Compress

variable {k : Op → Bool} {t : Thread} {sh origin : Shared} {i : Nat}

/-- The settings and the list length for which `compressPage` drops a page first and makes it
inaccessible afterwards: the overflow of the pending list, and the path of
`SMASH_P2_CHUNK=0` without FixAv and deferred madvise. -/
def Config.dropsFirst (cfg : Config) (pendingCount : Nat) : Bool :=
  !cfg.deferred &&
    if cfg.p2Chunk then decide (kPendingProtCap ≤ pendingCount)
    else !cfg.fixav && !cfg.deferMadvise

/-- `compressPage` gets as far as its snapshot: the page can be locked, is in a state that is
compressed and stays readable. -/
def Compressible (k : Op → Bool) (sh : Shared) (i : Nat) : Prop :=
  i < sh.pages ∧ (sh.page i).lock = none ∧
    ((sh.page i).state = .active ∨ (sh.page i).state = .activeMonitoring) ∧
    (k (.page i (.protect .read)) = true ∨ (sh.page i).prot ≠ .none)

section Careful

theorem abandon_careful : Careful k t origin (abandon i) :=
  .step rfl fun _ => .on rfl

theorem checkStillCompressing_careful (buf : Contents) :
    Careful k t origin (checkStillCompressing i buf) := by
  refine (zeroFreeSlots_inert buf).careful.bind fun zeroed => ?_
  refine .step rfl fun s => ?_
  split_ifs
  · exact .pure _
  · exact .step rfl fun _ => .pure none

theorem snapshot_careful (cfg : Config) : Careful k t origin (snapshot cfg i) := by
  have gone : Careful k t origin (do
      abandon i
      pure (none : Option Contents)) := abandon_careful.bind fun _ => .pure none
  have zeroed : ∀ buf, Careful k t origin (do
      let zeroed ← zeroFreeSlots i buf
      pure (some zeroed)) := fun buf => (zeroFreeSlots_inert buf).careful.bind fun _ => .pure _
  unfold snapshot
  split_ifs
  · refine .step rfl fun _ => .step rfl fun buf => ?_
    split_ifs
    · refine .step rfl fun verify => ?_
      split_ifs
      · exact zeroed buf
      · exact gone
    · exact zeroed buf
  · refine .step rfl fun _ => .step rfl fun _ => ?_
    refine .step rfl fun _ => .step rfl fun s => ?_
    split_ifs
    · refine .step rfl fun buf => ?_
      refine .step rfl fun verify => ?_
      split_ifs
      · exact checkStillCompressing_careful buf
      · exact .step rfl fun _ => gone
    · exact .step rfl fun buf => checkStillCompressing_careful buf
    · exact .step rfl fun _ => .step rfl fun _ => .pure none

theorem reopenAndAbandon_careful (buf : Contents) :
    Careful k t origin (do
      reopen i buf
      abandon i
      pure false) :=
  (reopen_inert buf).careful.bind fun _ => abandon_careful.bind fun _ => .pure false

theorem giveUp_careful (cfg : Config) (buf : Contents) : Careful k t origin (giveUp cfg i buf) := by
  unfold giveUp
  split_ifs
  · exact abandon_careful.bind fun _ => .pure false
  · exact reopenAndAbandon_careful buf

theorem closeThenDrop_careful (buf : Contents) :
    Careful k t origin (do
      if ← protectOrRemap i .none then
        on i (.setState .compressed)
        on i .drop
        on i .unlock
        pure true
      else
        reopen i buf
        abandon i
        pure false) := by
  intro sh closed
  by_cases inside : i < sh.pages
  · rw [← set_self sh i]
    simp only [protectOrRemap, on, act, call_bind, done_bind, at_protect inside]
    cases k (.page i (.protect .none)) with
    | true =>
      simp only [if_true, pure_eq, done_bind, at_setState inside, at_drop inside,
        at_unlock inside, meets_done, and_true]
      exact ⟨closed.set rfl, closed.set ((openDrops_cons rfl rfl).mpr rfl)⟩
    | false =>
      simp only [Bool.false_eq_true, if_false, call_bind, done_bind, at_remap inside]
      cases k (.page i (.remap .none)) with
      | true =>
        simp only [if_true, at_setState inside, at_drop inside, at_unlock inside,
          pure_eq, meets_done, and_true]
        exact ⟨closed.set rfl, closed.set ((openDrops_cons rfl rfl).mpr rfl)⟩
      | false => exact reopenAndAbandon_careful buf _ (closed.set rfl)
  · exact (goes_outside inside).mpr closed

theorem publish_careful (cfg : Config) (standard : cfg.deferred = false) (buf : Contents)
    (pendingCount : Nat) (later : cfg.dropsFirst pendingCount = false) :
    Careful k t origin (publish cfg i buf pendingCount) := by
  unfold publish
  simp only [Config.dropsFirst, standard, Bool.not_false, Bool.true_and] at later
  split_ifs at later ⊢ with chunked below closed slow
  · exact .step rfl fun _ => .step rfl fun _ => .pure true
  · exact absurd (of_decide_eq_false later) (fun far => far (Nat.le_of_not_lt below))
  · exact closeThenDrop_careful buf
  · refine .step rfl fun _ => .step rfl fun _ => ?_
    refine .step rfl fun _ => .step rfl fun s => ?_
    split_ifs
    · exact (protectOrRemap_inert .none).careful.bind fun _ => .pure true
    · exact .pure true
  · simp [closed, slow] at later

theorem record_careful (cfg : Config) (buf : Contents) (info : CompressedPageInfo)
    (fast : Bool) (pendingCount : Nat) (later : cfg.dropsFirst pendingCount = false) :
    Careful k t origin (record cfg i buf info fast pendingCount) := by
  refine .step rfl fun _ => .step rfl fun _ => ?_
  split_ifs with deferred
  · exact .step rfl fun _ => .step rfl fun _ => .pure true
  · exact publish_careful cfg (Bool.eq_false_iff.mpr deferred) buf pendingCount later

theorem compressSnapshot_careful (cfg : Config) (buf : Contents) (algo : CompressAlgo)
    (fast : Bool) (pendingCount : Nat) (later : cfg.dropsFirst pendingCount = false) :
    Careful k t origin (compressSnapshot cfg i buf algo fast pendingCount) := by
  unfold compressSnapshot
  split_ifs
  · exact record_careful cfg buf {} fast pendingCount later
  · refine (runCodec_inert cfg algo fast).careful.bind fun outcome => ?_
    split
    · exact giveUp_careful cfg buf
    · refine .step rfl fun stored => ?_
      split
      · exact giveUp_careful cfg buf
      · exact record_careful cfg buf _ _ pendingCount later

theorem compressPage_careful (cfg : Config) (pendingCount : Nat)
    (later : cfg.dropsFirst pendingCount = false) :
    Careful k t origin (compressPage cfg i pendingCount) := by
  have abandoned : Careful k t origin (do
      abandon i
      pure false) := abandon_careful.bind fun _ => .pure false
  have locked : Careful k t origin (compressLocked cfg i pendingCount) := by
    refine .step rfl fun s => ?_
    split_ifs
    · refine .step rfl fun _ => .bind .ask fun wanted => ?_
      split_ifs
      · refine .bind (.act rfl) fun profile => ?_
        split
        · exact abandoned
        · refine (snapshot_careful cfg).bind fun taken => ?_
          split
          · exact .pure false
          · exact compressSnapshot_careful cfg _ _ _ pendingCount later
      · exact abandoned
    · exact .step rfl fun _ => .pure false
  unfold compressPage
  split_ifs
  · refine .step rfl fun taken => ?_
    split_ifs
    · exact locked
    · exact .pure false
  · exact .step rfl fun _ => locked

end Careful

section Unsafe

variable {c : Cell} {Result : Type} (inside : i < sh.pages)
  (even : openDrops c = openDrops (sh.page i))
variable {algo : CompressAlgo} {buf : Contents} {cfg : Config} {fast : Bool} {pendingCount : Nat}

include inside

include even

section

variable (early : cfg.dropsFirst pendingCount = true)
include early

theorem publish_unsafe (seen : c.prot ≠ .none) : ¬ Safely k t sh (publish cfg i buf pendingCount)
      (sh.set i c) := by
  -- Both ways the first drop finds the page as the snapshot left it.
  intro safe
  simp only [Config.dropsFirst, Bool.and_eq_true, Bool.not_eq_true'] at early
  simp only [publish, on, act, call_bind, done_bind] at safe
  split_ifs at early safe with chunked below fixav slow
  · simp [Nat.not_le.mpr below] at early
  · simp only [at_setState inside, at_drop inside] at safe
    have dropped := closed_set.mp safe.2.now
    exact seen ((openDrops_cons even rfl).mp dropped)
  · simp [fixav] at early
  · simp [slow] at early
  · simp only [at_drop inside] at safe
    have dropped := closed_set.mp safe.2.now
    exact seen ((openDrops_cons even rfl).mp dropped)

theorem record_unsafe {info : CompressedPageInfo} (seen : c.prot ≠ .none) :
    ¬ Safely k t sh (record cfg i buf info fast pendingCount) (sh.set i c) := by
  have standard : cfg.deferred = false := by
    simp only [Config.dropsFirst, Bool.and_eq_true, Bool.not_eq_true'] at early
    exact early.1
  intro safe
  simp only [record, on, act, call_bind, done_bind, at_setInfo inside,
    at_setTier inside, standard, Bool.false_eq_true, if_false] at safe
  refine publish_unsafe inside ?_ early ?_ safe
  · exact even
  · exact seen

theorem compressSnapshot_unsafe (seen : c.prot ≠ .none) :
    ¬ Safely k t sh (compressSnapshot cfg i buf algo fast pendingCount) (sh.set i c) := by
  intro safe
  unfold compressSnapshot at safe
  split_ifs at safe with zero
  · exact record_unsafe inside even early seen safe
  · simp only [runCodec, ask, on, act, call_bind, done_bind, goes_ask, if_true, pure_eq] at safe
    have stored := (at_store inside).mp safe.1
    refine record_unsafe inside ?_ early ?_ stored.2
    · exact even
    · exact seen

theorem checkStillCompressing_unsafe
    (compressing : c.state = .compressing) (seen : c.prot ≠ .none) :
    ¬ Safely k t sh (do
        match ← checkStillCompressing i buf with
        | none => pure false
        | some buf => compressSnapshot cfg i buf algo fast pendingCount)
      (sh.set i c) := by
  intro safe
  simp only [checkStillCompressing, bind_assoc, at_zeroFreeSlots inside, on,
    act, call_bind, done_bind, at_getState inside, compressing,
    if_true, pure_eq] at safe
  exact compressSnapshot_unsafe inside even early seen safe

theorem snapshotStandard_unsafe (compressing : c.state = .compressing)
    (seen : k (.page i (.protect .read)) = true ∨ c.prot ≠ .none) :
    ¬ Safely k t sh (do
        match ← snapshotStandard cfg i with
        | none => pure false
        | some buf => compressSnapshot cfg i buf algo fast pendingCount)
      (sh.set i c) := by
  intro safe
  have visible : (if k (.page i (.protect .read)) = true then Prot.read
      else c.prot) ≠ .none := by
    split_ifs with opens
    · simp
    · exact seen.resolve_left opens
  simp only [snapshotStandard, on, act, call_bind, done_bind, at_unlock inside,
    at_protect inside, at_lock inside, at_getState inside, compressing, if_true, at_copy inside,
    visible, if_false] at safe
  by_cases verifies : cfg.snapshotVerify = true ∨ cfg.fixav = true
  · have unchanged : samePage c.memory c.memory = true := samePage_iff.mpr rfl
    simp only [verifies, if_true, call_bind, at_copy inside, visible, if_false, unchanged] at safe
    refine checkStillCompressing_unsafe inside ?_ early ?_ ?_ safe
    · exact even
    · rfl
    · exact visible
  · simp only [verifies, if_false] at safe
    refine checkStillCompressing_unsafe inside ?_ early ?_ ?_ safe
    · exact even
    · rfl
    · exact visible

end

end Unsafe

theorem compressPage_unsafe {cfg : Config} {pendingCount : Nat}
    (early : cfg.dropsFirst pendingCount = true) (reached : Compressible k sh i) :
    ¬ DropsSafely k t (compressPage cfg i pendingCount) sh := by
  obtain ⟨inside, free, eligible, seen⟩ := reached
  have standard : cfg.deferred = false := by
    simp only [Config.dropsFirst, Bool.and_eq_true, Bool.not_eq_true'] at early
    exact early.1
  rw [dropsSafely_at i]
  intro safe
  simp only [compressPage, compressLocked, compressEligible, snapshot, standard,
    Bool.false_eq_true, if_false, on, ask, selectProfile, act, call_bind,
    done_bind, at_lock inside, free, if_true, at_getState inside, eligible, if_true,
    at_setState inside, goes_ask] at safe
  have chosen := (goes_profile.mp safe.1).2 .zstd true (by simp)
  refine snapshotStandard_unsafe inside ?_ early ?_ ?_ chosen
  · rfl
  · rfl
  · exact seen

theorem compressEligible_hidden {cfg : Config} (standard : cfg.deferred = false)
    {c : Cell} {pendingCount : Nat} (inside : i < sh.pages)
    (even : openDrops c = openDrops (sh.page i))
    (hidden : c.prot = .none) (stays : k (.page i (.protect .read)) = false) :
    Safely k t sh (compressEligible cfg i pendingCount) (sh.set i c) := by
  have calm : DropsClosed sh (sh.set i
      { c with state := .compressing, reopened := false }) := closed_set.mpr even
  simp only [compressEligible, snapshot, standard, Bool.false_eq_true, if_false, on, ask,
    selectProfile, act, call_bind, done_bind, at_setState inside, goes_ask,
    if_true]
  refine ⟨⟨calm, fun ch ans s' _ ran => ?_⟩, ?_⟩
  · simp only [perform] at ran
    split_ifs at ran
    · cases ran
      exact abandon_careful.bind (fun _ => .pure false) _ calm
    · cases ran
      simp only [snapshotStandard, on, act, call_bind, done_bind,
        at_unlock inside, at_protect inside, at_lock inside, at_getState inside, if_true,
        at_copy inside, stays, Bool.false_eq_true, if_false, hidden, closed_set]
      exact even
  · exact abandon_careful.bind (fun _ => .pure false) _ calm

theorem compressPage_safely (cfg : Config) (pendingCount : Nat) :
    DropsSafely k t (compressPage cfg i pendingCount) sh ↔
      (Compressible k sh i → cfg.dropsFirst pendingCount = false) := by
  constructor
  · intro safe reached
    exact Bool.eq_false_iff.mpr fun early => compressPage_unsafe early reached safe
  · intro safe
    by_cases later : cfg.dropsFirst pendingCount = false
    · exact compressPage_careful cfg pendingCount later sh fun _ => rfl
    · have early : cfg.dropsFirst pendingCount = true := by simpa using later
      have standard : cfg.deferred = false := by
        simp only [Config.dropsFirst, Bool.and_eq_true, Bool.not_eq_true'] at early
        exact early.1
      have unreached : ¬ Compressible k sh i := fun reached => later (safe reached)
      simp only [compressPage, standard, Bool.false_eq_true, if_false]
      by_cases inside : i < sh.pages
      · rw [dropsSafely_at i]
        by_cases free : (sh.page i).lock = none
        · simp only [on, act, call_bind, done_bind, at_lock inside, free, if_true,
            compressLocked, at_getState inside]
          split_ifs with eligible
          · have unseen : ¬ (k (.page i (.protect .read)) = true ∨ (sh.page i).prot ≠ .none) :=
              fun seen => unreached ⟨inside, free, eligible, seen⟩
            simp only [not_or, Bool.not_eq_true, not_not] at unseen
            refine compressEligible_hidden standard inside ?_ ?_ unseen.1
            · rfl
            · exact unseen.2
          · simp only [pure_eq, at_unlock inside, meets_done, and_true, closed_set]
            rfl
        · simp only [on, act, call_bind, done_bind]
          refine (at_lock inside).mpr ?_
          rw [if_neg free]
          exact closed_set.mpr rfl
      · exact (goes_outside inside).mpr fun _ => rfl

end Compress

end Smash.Compressor
