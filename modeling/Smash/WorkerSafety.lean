import Smash.FaultSafety

/-! The workers' programs under any interference: `compressPage` in both modes, Phase B
reclaim with FixAv, and write monitoring. A worker is the only one to engage its page. -/
namespace Smash.Compressor

open Program PageMachine
open Spec (stay unlocks protects sees weaken asked)

variable {cfg : Config} {t : Thread} {i : Nat}

section Facts

variable {cell : Cell} {quiet : Bool}

/-- The page is being compressed and its backing is untouched. -/
structure Busy (cell : Cell) : Prop where
  state : cell.state = .compressing
  agrees : cell.Agrees cell.memory
  closed : cell.reopened = false

/-- The snapshot still covers every store, as the page is not writable. -/
structure Snapped (buf : Contents) (cell : Cell) : Prop extends Busy cell where
  shut : cell.prot ≠ .readWrite
  covers : cell.Agrees buf

theorem Busy.engaged (busy : Busy cell) : engaged cell.state = true := by
  rw [busy.state]
  rfl

theorem lasting_busy : Lasting cfg quiet Busy :=
  fun _ _ _ _ drift busy => ⟨(drift.state busy.engaged).trans busy.state,
    drift.agrees busy.agrees, drift.reopened.trans busy.closed⟩

theorem lasting_snapped (buf : Contents) : Lasting cfg quiet (Snapped buf) :=
  fun _ _ ok later drift h => ⟨lasting_busy ok later drift h.toBusy,
    drift.shut h.engaged h.shut,
    drift.carries h.engaged (.inl h.shut) h.covers⟩

theorem Busy.settled (busy : Busy cell) : Settled cell where
  blob := fun same => by rw [busy.state] at same; cases same
  busy := fun _ => busy.agrees
  shadow := fun same => by rw [busy.state] at same; cases same
  closed := busy.closed

theorem Busy.occupied (busy : Busy cell) : cell.state ≠ .empty := by
  simp [busy.state]

def Snapshot (cfg : Config) (buf : Contents) (cell : Cell) : Prop :=
  if cfg.deferred = true then Busy cell else Snapped buf cell

theorem Snapshot.busy {buf : Contents} (h : Snapshot cfg buf cell) : Busy cell := by
  unfold Snapshot at h
  split_ifs at h
  · exact h
  · exact h.toBusy

theorem lasting_unengaged : Lasting cfg quiet fun cell => engaged cell.state = false :=
  fun _ _ _ _ drift rest => (drift.resting rest).1

theorem Seen.exact {s : PageState} (seen : Seen s cell)
    (busy : Compressor.engaged cell.state = true) : s = cell.state := by
  unfold Seen at seen
  split_ifs at seen
  · exact seen.symm
  · rw [busy] at seen
    cases seen.1

theorem cellStep_copy {ch : Choice} {pre c' : Cell} {bytes : Contents}
    (stepped : cellStep t .copy ch pre = some (bytes, c')) : c' = pre := by
  simp only [cellStep] at stepped
  split_ifs at stepped
  cases stepped
  rfl

/-- A state read without the lock tells a worker nothing that lasts. -/
theorem effect_peek : Effect cfg t .getState (Loose t True) fun _ => Loose t True :=
  effect_read fun _ _ _ _ _ loose stepped => by cases stepped; exact ⟨rfl, loose⟩

theorem lasting_snapshot (buf : Contents) : Lasting cfg quiet (Snapshot cfg buf) := by
  unfold Snapshot
  split_ifs
  · exact lasting_busy
  · exact lasting_snapped buf

end Facts

section Zeroing

variable {buf : Contents} {c : Cell} {slot : Nat} {span : Span}

theorem zeroSlot_apart {offset : Offset} (apart : slotAt span offset ≠ slot) :
    zeroSlot span slot buf offset = buf offset := by
  unfold zeroSlot
  rw [if_neg]
  rintro ⟨lower, upper⟩
  refine apart (Nat.div_eq_of_lt_le lower ?_)
  rw [Nat.succ_mul]
  exact upper

/-- Zeroing a slot whose bit says free hides no store: a held slot has its bit taken. -/
theorem Snapped.zeroed (ok : CellInv cfg.deferred c) (h : Snapped buf c)
    (mapped : c.span = some span) (free : c.free slot = true) :
    Snapped (zeroSlot span slot buf) c := by
  refine { h with covers := fun offset v stored => ?_ }
  obtain ⟨j, found, mem⟩ := ok.stored offset v stored
  rw [mapped] at found
  cases found
  rw [zeroSlot_apart, h.covers offset v stored]
  rintro rfl
  rw [ok.marked _ mem] at free
  cases free

theorem Snapshot.zeroed (ok : CellInv cfg.deferred c) (h : Snapshot cfg buf c)
    (mapped : c.span = some span) (free : c.free slot = true) :
    Snapshot cfg (zeroSlot span slot buf) c := by
  unfold Snapshot at h ⊢
  split_ifs at h ⊢
  · exact h
  · exact h.zeroed ok mapped free

theorem zeroFrom_spec (fuel slot : Nat) (buf : Contents) : Solo cfg t i
      (Mine t True fun c => Snapshot cfg buf c ∧ c.span = some span)
      (zeroFrom i span fuel slot buf) fun zeroed => Mine t True (Snapshot cfg zeroed) := by
  have lasting : ∀ buf, Lasting cfg false fun c =>
      Snapshot cfg buf c ∧ c.span = some span := fun buf _ _ ok later drift h =>
    ⟨lasting_snapshot buf ok later drift h.1,
      (drift.span h.1.busy.engaged).trans h.2⟩
  induction fuel generalizing slot buf with
  | zero => exact .done fun _ _ mine => mine.left
  | succ fuel ih =>
    unfold zeroFrom
    split_ifs
    · exact .done fun _ _ mine => mine.left
    · refine .step (effect_read ?_) (fun free => ?_)
        fun free => ih (slot + 1) (if free = true then zeroSlot span slot buf else buf)
      · rintro pre ch ans s' ok ⟨locked, worker, h, mapped⟩ stepped
        cases stepped
        refine ⟨rfl, locked, worker, ?_, mapped⟩
        split_ifs with free
        · exact h.zeroed ok mapped free
        · exact h
      · exact (lasting _).firm

theorem zeroFreeSlots_spec (buf : Contents) : Solo cfg t i (Mine t True (Snapshot cfg buf))
      (zeroFreeSlots i buf) fun zeroed => Mine t True (Snapshot cfg zeroed) := by
  have reads : Effect cfg t .getSpan (Mine t True (Snapshot cfg buf))
      fun span => Mine t True fun c =>
        Snapshot cfg buf c ∧ ∀ mapped, span = some mapped → c.span = some mapped := by
    refine effect_read ?_
    rintro pre ch ans s' ok ⟨locked, worker, h⟩ stepped
    cases stepped
    refine ⟨rfl, locked, worker, h, fun mapped found => ?_⟩
    split_ifs at found
    exact found
  refine .step reads (fun ans => Lasting.firm ?_) fun ans => ?_
  · intro pre s' ok later drift h
    exact ⟨lasting_snapshot buf ok later drift h.1,
      fun mapped found => (drift.span h.1.busy.engaged).trans (h.2 mapped found)⟩
  · cases ans with
    | none => exact .done fun _ _ mine => mine.left
    | some span =>
      simp only
      split_ifs
      · exact .done fun _ _ mine => mine.left
      · exact (zeroFrom_spec _ _ buf).weaken
          fun _ _ mine => ⟨mine.1, mine.2.1, mine.2.2.1, mine.2.2.2 span rfl⟩

end Zeroing

section Snapshots

variable {c : Cell} {quiet : Bool}

/-- What a worker knows of its page while it does not hold the lock. -/
def Assigned (t : Thread) (know : Cell → Prop) (c : Cell) : Prop :=
  c.worker = some t ∧ know c

theorem firm_assigned : Firm cfg t quiet (Assigned t fun _ => True) :=
  fun _ _ _ _ relied h => ⟨relied.worker h.1, trivial⟩

theorem firm_unpacked : Firm cfg t quiet (Assigned t Unpacked) :=
  fun _ _ _ _ relied h => ⟨relied.worker h.1, relied.unpacked h.1 h.2⟩

theorem firm_shut : Firm cfg t quiet (Assigned t fun c => Unpacked c ∧ Shut c) :=
  fun _ _ _ _ relied h => ⟨relied.worker h.1, relied.unpacked h.1 h.2.1,
    relied.unopened h.1 h.2.2⟩

/-- A worker may take access away from its page without the lock; in deferred mode only
while nobody has engaged the page. -/
theorem effect_tighten {prot : Prot} (tight : prot ≠ .readWrite) {know post : Cell → Prop}
    (each : ∀ c, CellInv cfg.deferred c → know c →
      (cfg.deferred = true → engaged c.state = false) ∧ post { c with prot := prot }) :
    Effect cfg t (.protect prot) (Assigned t know) fun succeeded c =>
      succeeded = true ∧ Assigned t post c := by
  rintro pre ch ans later ok ⟨worker, h⟩ may stepped
  have succeeds : ch.flag = true := may
  simp only [cellStep, succeeds, if_true] at stepped
  cases stepped
  obtain ⟨resting, told⟩ := each pre ok h
  refine ⟨{ ok with visible := fun mode _ => ?_, settled := fun free => ?_ },
    fun j quiet apart => ?_, rfl, worker, told⟩
  · exact (ok.unengaged (resting mode)).1
  · have settled := ok.settled free
    exact { settled with blob := fun same => ⟨tight, (settled.blob same).2⟩ }
  · have foreign : pre.worker ≠ some j := fun same =>
      apart (Option.some.inj (same.symm.trans worker))
    refine { CellRely.refl cfg.deferred quiet j pre with
      drift := fun _ => ?_, unopened := fun mine => (foreign mine).elim }
    exact { Drift.refl cfg.deferred quiet pre with
      shut := fun _ _ => tight
      closed := fun mode busy => by rw [resting mode] at busy; cases busy }

/-- What a snapshot leaves a worker with; without one the lock is given back. -/
def Obtained (cfg : Config) (t : Thread) : Option Contents → Cell → Prop
  | none => Loose t True
  | some buf => Mine t True (Snapshot cfg buf)

/-- A worker's code under the page's lock, with the lock given back at its end. -/
abbrev Works (cfg : Config) (t : Thread) (i : Nat) (know : Cell → Prop) {Result : Type}
    (prog : Code Result) : Prop :=
  Solo cfg t i (Mine t True know) prog fun _ => Loose t True

theorem abandonBusy_spec {Result : Type} (r : Result) :
    Works cfg t i Busy (abandon i >>= fun _ => pure r) :=
  (abandon_spec fun _ _ busy => ⟨busy.occupied, busy.agrees⟩).bind fun _ => stay

theorem snapshotDeferred_spec (mode : cfg.deferred = true) : Solo cfg t i (Mine t True Busy)
      (snapshotDeferred cfg i) (Obtained cfg t) := by
  have same : ∀ buf, Snapshot cfg buf = Busy := fun buf => by
    funext c
    simp [Snapshot, mode]
  have zeroes : ∀ buf, Solo cfg t i (Mine t True Busy)
      (zeroFreeSlots i buf >>= fun zeroed => pure (some zeroed))
      (Obtained cfg t) := fun buf =>
    ((zeroFreeSlots_spec buf).weaken fun c _ mine => by rw [same]; exact mine).bind
      fun _ => .done fun _ _ h => h
  refine protects lasting_busy ?_ ?_
  · exact fun c _ busy => ⟨fun _ _ => busy.agrees, .inl trivial, { busy with }⟩
  refine .keeps lasting_busy (fun _ _ _ _ => cellStep_copy) fun buf => ?_
  split_ifs
  · refine .keeps lasting_busy (fun _ _ _ _ => cellStep_copy) fun verify => ?_
    split_ifs
    · exact zeroes buf
    · exact (abandon_spec fun c _ busy => ⟨busy.occupied, busy.agrees⟩).bind
        fun _ => .done fun _ _ h => h
  · exact zeroes buf

theorem checkStillCompressing_spec (mode : cfg.deferred = false) (buf : Contents) :
    Solo cfg t i (Mine t True (Snapped buf)) (checkStillCompressing i buf) (Obtained cfg t) := by
  have same : ∀ buf, Snapshot cfg buf = Snapped buf := fun buf => by
    funext c
    simp [Snapshot, mode]
  refine ((zeroFreeSlots_spec buf).weaken fun c _ mine => by rw [same]; exact mine).bind
    fun zeroed => ?_
  refine sees (lasting_snapshot zeroed) fun s => ?_
  split_ifs with compressing
  · exact .done fun _ _ mine => mine.left
  · refine .impossible fun c _ mine => compressing ?_
    have busy := mine.2.2.1.busy
    exact (mine.2.2.2.exact busy.engaged).trans busy.state

theorem lasting_unpacked : Lasting cfg quiet Unpacked := by
  intro pre s' _ _ drift h
  cases rest : engaged pre.state with
  | true =>
    rw [Unpacked, drift.state rest]
    exact h
  | false =>
    have resting := (drift.resting rest).1
    constructor <;> intro same <;> rw [same] at resting <;> cases resting

theorem lasting_shut : Lasting cfg quiet Shut := by
  intro pre s' _ _ drift h s opened
  cases rest : engaged pre.state with
  | true =>
    have same := drift.state rest
    rw [drift.reopened]
    refine h (same.symm.trans s) ?_
    by_contra shut
    exact drift.shut rest shut opened
  | false =>
    have resting := (drift.resting rest).1
    rw [s] at resting
    cases resting

def Retaken (c : Cell) : Prop := Settled c ∧ Unpacked c ∧ Shut c

theorem Retaken.snapped (h : Retaken c) (s : c.state = .compressing) : Snapped c.memory c where
  state := s
  agrees := h.1.busy s
  closed := h.1.closed
  shut := fun opened => by
    have reopened := h.2.2 s opened
    rw [h.1.closed] at reopened
    cases reopened
  covers := h.1.busy s

theorem Retaken.resting (h : Retaken c) (s : c.state ≠ .compressing) : engaged c.state = false := by
  obtain ⟨-, ⟨one, two⟩, -⟩ := h
  cases same : c.state <;> simp_all [engaged]

theorem lasting_retaken : Lasting cfg quiet Retaken :=
  lasting_settled.and (lasting_unpacked.and lasting_shut)

theorem effect_release_busy :
    Effect cfg t .unlock (Mine t True Busy) fun _ => Assigned t Unpacked := by
  intro pre ch ans s' ok mine may stepped
  obtain ⟨kept, relied, loose⟩ := effect_unlock (fun _ _ busy => busy.settled)
      pre ch ans s' ok mine may stepped
  cases stepped
  exact ⟨kept, relied, loose trivial, by simp [mine.2.2.state], by simp [mine.2.2.state]⟩

theorem snapshotStandard_spec (mode : cfg.deferred = false) : Solo cfg t i (Mine t True Busy)
      (snapshotStandard cfg i) (Obtained cfg t) := by
  have standard : cfg.deferred ≠ true := by simp [mode]
  refine .step effect_release_busy (fun _ => firm_unpacked) fun _ => ?_
  have tightens : Effect cfg t (.protect .read) (Assigned t Unpacked)
      fun succeeded c => succeeded = true ∧
        Assigned t (fun c => Unpacked c ∧ Shut c) c :=
    effect_tighten (by simp) fun c _ h =>
      ⟨fun absurd => (standard absurd).elim, h, fun _ absurd => nomatch absurd⟩
  refine .step tightens (fun _ => firm_shut.given) fun succeeded => ?_
  have locks : Effect cfg t .lock (fun c => Loose t True c ∧ (Unpacked c ∧ Shut c)) _ :=
    effect_lock fun _ h => h
  refine weaken (.step locks (fun _ => lasting_retaken.firm) fun _ => ?_)
    fun c _ h => ⟨fun _ => h.2.1, h.2.2⟩
  refine sees lasting_retaken fun s => ?_
  by_cases compressing : s = .compressing
  · rw [if_pos compressing]
    -- Nobody has opened the page since it became read-only, so the copy is exact.
    have copies : Effect cfg t .copy (Mine t True fun c => Retaken c ∧ Seen s c) fun buf =>
          Mine t True (Snapped buf) := by
      intro pre ch buf s' ok mine may stepped
      obtain ⟨kept, relied, locked, worker, ⟨retaken, seen⟩, same⟩ :=
        effect_copy pre ch buf s' ok mine may stepped
      have snapped := retaken.snapped ((seen.engaged (by rw [compressing]; rfl)).trans compressing)
      rw [same] at snapped
      exact ⟨kept, relied, locked, worker, snapped⟩
    refine .step copies (fun buf => (lasting_snapped buf).firm) fun buf => ?_
    split_ifs
    · refine .keeps (lasting_snapped buf) (fun _ _ _ _ => cellStep_copy) fun verify => ?_
      split_ifs
      · exact checkStillCompressing_spec mode buf
      · refine protects lasting_busy ?_ ((abandon_spec fun c _ busy =>
          ⟨busy.occupied, busy.agrees⟩).bind fun _ => .done fun _ _ h => h)
        exact fun c _ h => ⟨fun _ _ => h.agrees, .inl trivial, { h.toBusy with }⟩
    · exact checkStillCompressing_spec mode buf
  · rw [if_neg compressing]
    have unengaged : ∀ c, Retaken c ∧ Seen s c → engaged c.state = false := by
      rintro c ⟨retaken, seen⟩
      refine retaken.resting fun same => compressing ?_
      exact (seen.exact (by rw [same]; rfl)).trans same
    refine protects (lasting_unengaged.quieter _) ?_ (unlocks
      (fun _ ok rest => unengaged_settled ok rest) (.done fun _ _ h => h))
    exact fun c ok h => ⟨fun absurd => (standard absurd).elim, .inl trivial, unengaged c h⟩

theorem snapshot_spec : Solo cfg t i (Mine t True Busy) (snapshot cfg i) (Obtained cfg t) := by
  unfold snapshot
  split_ifs with mode
  · exact snapshotDeferred_spec mode
  · exact snapshotStandard_spec (by simpa using mode)

end Snapshots

section GiveUp

/-- The page is open again and no store may come before the snapshot is back. -/
structure Reopening (buf : Contents) (cell : Cell) : Prop extends Busy cell where
  covers : cell.Agrees buf

theorem lasting_reopening (buf : Contents) : Lasting cfg true (Reopening buf) :=
  fun _ _ ok later drift h => ⟨lasting_busy ok later drift h.toBusy,
    drift.carries h.engaged (.inr rfl) h.covers⟩

theorem reopen_spec (mode : cfg.deferred = false) (buf : Contents) :
    Solo cfg t i (Mine t True (Snapped buf)) (reopen i buf) fun _ => Mine t True Busy := by
  -- The copy is the pending call while the page is open, so no store is admitted.
  have lasting : Lasting cfg (!cfg.deferred && writesBack i
      (some (.page i (.write buf)))) (Reopening buf) := by
    simp only [mode, writesBack, beq_self_eq_true, Bool.not_false, Bool.and_self]
    exact lasting_reopening buf
  refine protects lasting ?_ ?_
  · exact fun c _ h => ⟨fun _ _ => h.agrees, .inl trivial, { h.toBusy with covers := h.covers }⟩
  · refine .last (effect_write fun c _ h => ?_) fun _ => lasting_busy.firm
    exact ⟨h.covers, h.state, h.covers, h.closed⟩

theorem giveUp_spec (buf : Contents) : Works cfg t i (Snapshot cfg buf) (giveUp cfg i buf) := by
  unfold giveUp
  split_ifs with mode
  · exact (abandonBusy_spec false).weaken fun c _ mine => ⟨mine.1, mine.2.1, mine.2.2.busy⟩
  · refine ((reopen_spec (by simpa using mode) buf).weaken fun c _ mine => ?_).bind
      fun _ => abandonBusy_spec false
    have snapped := mine.2.2
    rw [Snapshot, if_neg mode] at snapped
    exact ⟨mine.1, mine.2.1, snapped⟩

end GiveUp

section Publish

variable {next : Unit → Code Final} {post : Final → Cell → Prop}

structure Packed (buf : Contents) (cell : Cell) : Prop where
  state : cell.state = .compressing
  shut : cell.prot ≠ .readWrite
  found : cell.content = some buf
  covers : cell.Agrees buf
  closed : cell.reopened = false

theorem lasting_packed {quiet : Bool} (buf : Contents) : Lasting cfg quiet (Packed buf) := by
  intro pre s' _ _ drift h
  have busy : engaged pre.state = true := by rw [h.state]; rfl
  exact ⟨(drift.state busy).trans h.state, drift.shut busy h.shut,
    drift.content.trans h.found, drift.carries busy (.inl h.shut) h.covers,
    drift.reopened.trans h.closed⟩

theorem Packed.compressed {buf : Contents} {c : Cell} (h : Packed buf c) :
    CompressedAs buf { c with state := .compressed, reopened := false } :=
  ⟨rfl, h.shut, h.found, h.covers, rfl⟩

theorem protectOrRemap_spec {prot : Prot} {know after : Cell → Prop} {works : Prop}
    (lasting : Lasting cfg false after) (each : ∀ c, CellInv cfg.deferred c → know c →
      (cfg.deferred = true → c.state ≠ .compressed ∨ prot ≠ .none → c.Agrees c.memory) ∧
      (works ∨ c.state ≠ .compressing ∨ prot ≠ .readWrite) ∧ after { c with prot := prot }) :
    Solo cfg t i (Mine t works know)
      (protectOrRemap i prot) fun succeeded c =>
        succeeded = true ∧ Mine t works after c :=
  protects (lasting.quieter _) each
    (.done fun _ _ mine => ⟨rfl, mine⟩)

variable (mode : cfg.deferred = false) (buf : Contents)
include mode

theorem setCompressed_spec
    (further : Solo cfg t i (Mine t True (CompressedAs buf)) (next ()) post) :
    Solo cfg t i (Mine t True (Packed buf)) (on i (.setState .compressed) >>= next) post := by
  refine .sets (lasting_compressedAs buf) (by simp) (.inl trivial) ?_ further
  exact fun c _ h => ⟨by simp [h.state], fun absurd => (absurd rfl).elim,
    fun absurd => by simp [mode] at absurd, h.compressed⟩

theorem closePacked_spec : Solo cfg t i (Mine t True (Packed buf))
      (protectOrRemap i .none) fun succeeded c => succeeded = true ∧ Mine t True (Packed buf) c :=
  protectOrRemap_spec (lasting_packed buf) fun c _ h =>
    ⟨fun absurd => by simp [mode] at absurd, .inl trivial, { h with shut := by simp }⟩

theorem closeCompressed_spec : Solo cfg t i (Mine t True (CompressedAs buf))
      (protectOrRemap i .none) fun succeeded c =>
        succeeded = true ∧ Mine t True (CompressedAs buf) c :=
  protectOrRemap_spec (lasting_compressedAs buf) fun c _ h =>
    ⟨fun absurd => by simp [mode] at absurd, .inl trivial, { h with shut := by simp }⟩

theorem dropCompressed_spec
    (further : Solo cfg t i (Mine t True (CompressedAs buf)) (next ()) post) :
    Solo cfg t i (Mine t True (CompressedAs buf)) (on i .drop >>= next) post :=
  .step (effect_drop fun c _ h =>
    ⟨.inl h.state, fun absurd => by simp [mode] at absurd, { h with }⟩)
    (fun _ => (lasting_compressedAs buf).firm) fun _ => further

theorem dropPacked_spec (further : Solo cfg t i (Mine t True (Packed buf)) (next ()) post) :
    Solo cfg t i (Mine t True (Packed buf)) (on i .drop >>= next) post :=
  .step (effect_drop fun c _ h =>
    ⟨.inr h.state, fun absurd => by simp [mode] at absurd, { h with }⟩)
    (fun _ => (lasting_packed buf).firm) fun _ => further

theorem publish_spec (pendingCount : Nat) :
    Works cfg t i (Packed buf) (publish cfg i buf pendingCount) := by
  have leaves : ∀ r : Bool, Works cfg t i (CompressedAs buf)
      (on i .unlock >>= fun _ => pure r) := fun r =>
    unlocks (fun _ _ h => h.settled) stay
  unfold publish
  by_cases chunked : cfg.p2Chunk = true
  · rw [if_pos chunked]
    refine setCompressed_spec mode buf ?_
    split_ifs
    · exact leaves true
    · exact dropCompressed_spec mode buf ((closeCompressed_spec mode buf).then (leaves true))
  rw [if_neg chunked]
  by_cases fixed : cfg.fixav = true
  · rw [if_pos fixed]
    exact (closePacked_spec mode buf).then
      (setCompressed_spec mode buf (dropCompressed_spec mode buf (leaves true)))
  rw [if_neg fixed]
  by_cases defers : cfg.deferMadvise = true
  · rw [if_pos defers]
    refine setCompressed_spec mode buf ?_
    refine .books (fun _ => lasting_compressedAs buf) ?_ fun _ => ?_
    · rintro pre ch ans s' - h stepped
      cases stepped
      exact ⟨rfl, { h with }⟩
    refine unlocks (fun _ _ h => h.settled) ?_
    -- From here on the page is not locked: anything may have happened to it.
    refine .step effect_peek (fun _ => firm_loose) fun s => ?_
    split_ifs
    · have tightens : Effect cfg t (.protect .none) (Assigned t fun _ => True)
          fun succeeded c => succeeded = true ∧ Assigned t (fun _ => True) c :=
        effect_tighten (by simp) fun _ _ _ => ⟨fun absurd => by simp [mode] at absurd, trivial⟩
      have closes : Solo cfg t i (Loose t True) (protectOrRemap i .none) fun succeeded c =>
            succeeded = true ∧ Loose t True c := by
        refine weaken (.step tightens (fun _ => firm_assigned.given)
          fun succeeded => ?_) fun c _ loose => ⟨loose trivial, trivial⟩
        cases succeeded with
        | true => exact .done fun _ _ h => ⟨rfl, fun _ => h.2.1⟩
        | false => exact .impossible fun _ _ h => nomatch h.1
      exact closes.then stay
    · exact stay
  rw [if_neg defers]
  refine dropPacked_spec mode buf ((closePacked_spec mode buf).then ?_)
  exact setCompressed_spec mode buf (leaves true)

end Publish

section Compress

variable {algo : CompressAlgo}

def Recorded (cfg : Config) (buf : Contents) (c : Cell) : Prop :=
  Snapshot cfg buf c ∧ c.content = some buf

theorem lasting_recorded {quiet : Bool} (buf : Contents) : Lasting cfg quiet (Recorded cfg buf) :=
  fun _ _ ok later drift h =>
    ⟨lasting_snapshot buf ok later drift h.1, drift.content.trans h.2⟩

theorem Snapshot.recorded {buf : Contents} {c : Cell} {info : CompressedPageInfo} {tier : Tier}
    (h : Snapshot cfg buf c) : Snapshot cfg buf { c with info := info, tier := tier } := by
  unfold Snapshot at h ⊢
  split_ifs at h ⊢
  · exact { h with }
  · exact { h with }

theorem record_spec (buf : Contents) (info : CompressedPageInfo) (fast : Bool)
    (pendingCount : Nat) : Solo cfg t i (Mine t True fun c =>
        Snapshot cfg buf c ∧ Cell.content { c with info := info } = some buf)
      (record cfg i buf info fast pendingCount) fun _ => Loose t True := by
  refine .books (fun _ => lasting_recorded buf) ?_ fun _ => ?_
  · rintro pre ch ans s' - ⟨h, found⟩ stepped
    cases stepped
    exact ⟨rfl, h.recorded, found⟩
  refine .books (fun _ => lasting_recorded buf) ?_ fun _ => ?_
  · rintro pre ch ans s' - ⟨h, found⟩ stepped
    cases stepped
    exact ⟨rfl, h.recorded, found⟩
  by_cases mode : cfg.deferred = true
  · rw [if_pos mode]
    refine .sets lasting_settled (by simp) (.inl trivial) ?_
      (unlocks (fun _ _ settled => settled) stay)
    rintro c - ⟨h, found⟩
    refine ⟨h.busy.occupied, fun _ _ => h.busy.agrees, fun _ _ => h.busy.agrees, ?_⟩
    exact ⟨nofun, nofun, fun _ => ⟨buf, found⟩, rfl⟩
  · rw [if_neg mode]
    refine (publish_spec (by simpa using mode) buf pendingCount).weaken ?_
    rintro c - ⟨locked, worker, h, found⟩
    rw [Snapshot, if_neg mode] at h
    exact ⟨locked, worker, h.state, h.shut, found, h.covers, h.closed⟩

theorem runCodec_spec {fast : Bool} (real : algo ≠ .none)
    {next : Option (CompressAlgo × Bool) → Code Final} {pre : Cell → Prop}
    {post : Final → Cell → Prop} (firm : Firm cfg t false pre)
    (failed : Solo cfg t i pre (next none) post) (passed : ∀ algo fast, algo ≠ .none →
      Solo cfg t i pre (next (some (algo, fast))) post) :
    Solo cfg t i pre (runCodec cfg algo fast >>= next) post := by
  have codec : Solo cfg t i pre (runCodec cfg algo fast)
      fun ans c => (∀ algo fast, ans = some (algo, fast) → algo ≠ .none) ∧ pre c := by
    refine asked firm fun passes => ?_
    split_ifs
    · exact .done fun _ _ h => ⟨fun _ _ same => by cases same; exact real, h⟩
    · refine asked firm fun again => ?_
      split_ifs
      · exact .done fun _ _ h => ⟨fun _ _ same => by cases same; simp, h⟩
      · exact .done fun _ _ h => ⟨nofun, h⟩
    · exact .done fun _ _ h => ⟨nofun, h⟩
  refine codec.bind fun ans => ?_
  rintro s ok ⟨⟨real, h⟩, apart⟩
  rcases ans with _ | ⟨algo, fast⟩
  · exact failed s ok ⟨h, apart⟩
  · exact passed algo fast (real algo fast rfl) s ok ⟨h, apart⟩

theorem compressSnapshot_spec (buf : Contents) (fast : Bool)
    (real : algo ≠ .none) (pendingCount : Nat) :
    Works cfg t i (Snapshot cfg buf) (compressSnapshot cfg i buf algo fast pendingCount) := by
  unfold compressSnapshot
  split_ifs with zero
  · refine (record_spec buf {} fast pendingCount).weaken fun c _ mine =>
      ⟨mine.1, mine.2.1, mine.2.2, ?_⟩
    rw [pageIsAllZero_iff.mp zero]
    rfl
  · refine runCodec_spec real (lasting_snapshot buf).firm (giveUp_spec buf) fun algo fast real => ?_
    have stores : ∀ pre ch ans s', CellInv cfg.deferred pre → Snapshot cfg buf pre →
        cellStep t (.store .anonymous buf) ch pre = some (ans, s') →
        s' = { pre with
          info := s'.info, tier := s'.tier, pending := s'.pending, blobs := s'.blobs,
          nextBlob := s'.nextBlob, damaged := s'.damaged } ∧
        Snapshot cfg buf s' ∧ ∀ blob, ans = some blob → s'.lookup blob = some buf := by
      intro pre ch ans s' _ h stepped
      simp only [cellStep] at stepped
      split_ifs at stepped
      · cases stepped
        refine ⟨rfl, ?_, fun blob same => ?_⟩
        · unfold Snapshot at h ⊢
          split_ifs at h ⊢ <;> exact { h with }
        · cases same
          simp [Cell.lookup]
      · cases stepped
        exact ⟨rfl, h, by rintro _ ⟨⟩⟩
    have lasting : ∀ ans : Option Blob, Lasting cfg false fun c =>
        Snapshot cfg buf c ∧ ∀ blob, ans = some blob → c.lookup blob = some buf := by
      intro ans pre s' ok later drift h
      refine ⟨lasting_snapshot buf ok later drift h.1, fun blob same => ?_⟩
      rw [Cell.lookup, drift.blobs]
      exact h.2 blob same
    refine .books lasting stores fun ans => ?_
    cases ans with
    | none => exact (giveUp_spec buf).weaken fun _ _ mine => mine.left
    | some blob =>
      refine (record_spec buf ⟨some blob, algo⟩ fast pendingCount).weaken fun c _ mine =>
        ⟨mine.1, mine.2.1, mine.2.2.1, ?_⟩
      have found := mine.2.2.2 blob rfl
      cases algo with
      | none => exact (real rfl).elim
      | lz4 | zstd | zstdDict => exact found

theorem compressEligible_spec (pendingCount : Nat) :
    Works cfg t i Resting (compressEligible cfg i pendingCount) := by
  refine .sets lasting_busy (by simp) (.inl trivial) ?_ ?_
  · intro c ok resting
    obtain ⟨agrees, -⟩ := resting.agrees ok
    exact ⟨resting.2, fun _ _ => agrees, fun _ _ => agrees, rfl, agrees, rfl⟩
  refine asked lasting_busy.firm fun worth => ?_
  split_ifs
  · refine .profiled lasting_busy.firm (abandonBusy_spec false) fun algo fast real => ?_
    refine snapshot_spec.bind fun taken => ?_
    cases taken with
    | none => exact stay
    | some buf => exact compressSnapshot_spec buf fast real pendingCount
  · exact abandonBusy_spec false

theorem compressLocked_spec (pendingCount : Nat) :
    Works cfg t i Settled (compressLocked cfg i pendingCount) := by
  refine sees lasting_settled fun s => ?_
  split_ifs with eligible
  · refine (compressEligible_spec pendingCount).weaken fun c _ mine =>
      ⟨mine.1, mine.2.1, mine.2.2.2.rests ?_ ?_⟩
    · rcases eligible with rfl | rfl <;> rfl
    · rcases eligible with rfl | rfl <;> simp
  · exact unlocks (fun _ _ h => h.1) stay

theorem compressPage_spec (pendingCount : Nat) : Solo cfg t i (Loose t True)
      (compressPage cfg i pendingCount) fun _ => Loose t True := by
  unfold compressPage
  split_ifs
  · exact .tries (compressLocked_spec pendingCount) stay
  · refine weaken (.locks (fun _ _ => trivial) (fun _ _ _ _ _ _ => trivial)
      ((compressLocked_spec pendingCount).weaken fun _ _ mine => mine.left))
      fun _ _ loose => ⟨loose, trivial⟩

end Compress

section Reclaim

variable {cell : Cell} {quiet : Bool}

/-- A locked shadow page: the blob on record is stored, the page is still the truth. -/
structure Shadowed (cell : Cell) : Prop where
  state : cell.state = .compressedShadow
  stored : ∃ bytes, cell.content = some bytes
  closed : cell.reopened = false

/-- A shadow page that cannot be written while its lock is held. -/
structure Held (bytes : Contents) (cell : Cell) : Prop extends Shadowed cell where
  shut : cell.prot ≠ .readWrite
  found : cell.content = some bytes

theorem Shadowed.engaged (h : Shadowed cell) : engaged cell.state = true := by
  rw [h.state]
  rfl

theorem Shadowed.settled (h : Shadowed cell) : Settled cell where
  blob := fun same => by rw [h.state] at same; cases same
  busy := fun same => by rw [h.state] at same; cases same
  shadow := fun _ => h.stored
  closed := h.closed

theorem Shadowed.agrees (h : Shadowed cell) (ok : CellInv cfg.deferred cell) :
    cell.Agrees cell.memory :=
  ok.resident (by simp [h.state]) (by simp [h.state])

theorem lasting_shadowed : Lasting cfg quiet Shadowed := by
  intro pre s' _ _ drift h
  obtain ⟨bytes, found⟩ := h.stored
  exact ⟨(drift.state h.engaged).trans h.state, ⟨bytes, drift.content.trans found⟩,
    drift.reopened.trans h.closed⟩

theorem lasting_sealed : Lasting cfg quiet fun cell => Shadowed cell ∧ cell.prot ≠ .readWrite :=
  fun _ _ ok later drift h => ⟨lasting_shadowed ok later drift h.1,
    drift.shut h.1.engaged h.2⟩

theorem lasting_held (bytes : Contents) : Lasting cfg quiet (Held bytes) :=
  fun _ _ ok later drift h => ⟨lasting_shadowed ok later drift h.toShadowed,
    drift.shut h.engaged h.shut, drift.content.trans h.found⟩

/-- The page was compared with its blob and cannot have changed since. -/
def Matched (bytes : Contents) (cell : Cell) : Prop := Held bytes cell ∧ cell.memory = bytes

theorem lasting_matched (bytes : Contents) : Lasting cfg quiet (Matched bytes) :=
  fun _ _ ok later drift h => ⟨lasting_held bytes ok later drift h.1,
    (drift.frozen h.1.engaged (.inl h.1.shut)).1.trans h.2⟩

theorem reclaimMismatch_spec : Works cfg t i Restored (reclaimMismatch i) := by
  refine (releaseBlob_spec recordless_restored).bind fun _ => ?_
  refine .records recordless_restored (by simp) fun _ => ?_
  refine .records recordless_restored (by simp) fun _ => ?_
  refine protects (lasting_restored.quieter _) ?_ ?_
  · exact fun cell _ h => ⟨fun _ _ => h.2, .inl trivial, h⟩
  · exact abandon_spec fun cell _ h => ⟨by rcases h.1 with same | same <;> simp [same], h.2⟩

variable (mode : cfg.deferred = true)
include mode

theorem lasting_hidden {know : Cell → Prop} (lasting : Lasting cfg false know)
    (busy : ∀ cell, know cell → engaged cell.state = true) :
    Lasting cfg false fun cell => know cell ∧ cell.prot = .none :=
  fun _ _ ok later drift h => ⟨lasting ok later drift h.1,
    drift.closed mode (busy _ h.1) h.2⟩

theorem reclaimMatching_spec (fixed : cfg.fixav = true) (bytes : Contents) :
    Works cfg t i (Matched bytes) (reclaimMatching cfg i) := by
  unfold reclaimMatching
  rw [if_pos fixed]
  -- Inaccessible first: the backing is dropped only where no load can see it.
  refine protects ((lasting_hidden mode (lasting_matched bytes)
    fun _ h => h.1.engaged).quieter _) ?_ ?_
  · exact fun cell ok h => ⟨fun _ _ => h.1.toShadowed.agrees ok, .inl trivial,
      ⟨{ h.1 with shut := by simp }, h.2⟩, rfl⟩
  have lasting : Lasting cfg false fun cell => CompressedAs bytes cell ∧ cell.prot = .none :=
    lasting_hidden mode (lasting_compressedAs bytes) fun _ h => by rw [h.state]; rfl
  refine .sets lasting (by simp) (.inl trivial) ?_ ?_
  · rintro cell ok ⟨⟨held, same⟩, hidden⟩
    have agrees := held.toShadowed.agrees ok
    refine ⟨by simp [held.state], fun absurd => (absurd rfl).elim, fun _ _ => agrees, ?_, hidden⟩
    rw [same] at agrees
    exact ⟨rfl, held.shut, held.found, agrees, rfl⟩
  refine .step (effect_drop fun cell _ h => ?_) (fun _ => lasting.firm) fun _ => ?_
  · exact ⟨.inl h.1.state, fun _ => ⟨h.1.state, h.2⟩, { h.1 with }, h.2⟩
  · exact (unlocks (fun _ _ h => h.1.settled) stay).tail

theorem reclaimReadable_spec (fixed : cfg.fixav = true) :
    Solo cfg t i (Mine t True fun cell => Shadowed cell ∧ cell.prot ≠ .readWrite)
      (reclaimReadable cfg i) fun _ => Loose t True := by
  refine asked lasting_sealed.firm fun slot => ?_
  split_ifs
  · refine .step effect_getInfo (fun _ => (lasting_sealed.and lasting_info).firm) fun info => ?_
    have decompresses : Effect cfg t (.decompress info) (Mine t True fun cell =>
        (Shadowed cell ∧ cell.prot ≠ .readWrite) ∧ cell.info = info) fun bytes =>
          Mine t True (Held bytes) := by
      intro pre ch bytes s' ok mine may stepped
      obtain ⟨kept, relied, locked, worker, ⟨⟨shadowed, shut⟩, -⟩, found⟩ :=
        effect_decompress (fun _ h => ⟨h.2, h.1.1.stored⟩)
          pre ch bytes s' ok mine may stepped
      exact ⟨kept, relied, locked, worker, shadowed, shut, found⟩
    refine .step decompresses (fun bytes => (lasting_held bytes).firm) fun bytes => ?_
    refine .step effect_copy (fun mem => Lasting.firm ?_) fun mem => ?_
    · exact fun _ _ ok later drift h => ⟨lasting_held bytes ok later drift h.1,
        (drift.frozen h.1.engaged (Or.inl h.1.shut)).1.trans h.2⟩
    · split_ifs with same
      · rw [samePage_iff] at same
        subst same
        exact reclaimMatching_spec mode fixed mem
      · refine reclaimMismatch_spec.weaken fun cell ok mine => ⟨mine.1, mine.2.1, ?_⟩
        exact ⟨.inr mine.2.2.1.state, mine.2.2.1.toShadowed.agrees ok⟩
  · refine protects (lasting_shadowed.quieter _) ?_ (unlocks (fun _ _ h => h.settled) stay).tail
    exact fun cell ok h => ⟨fun _ _ => h.1.agrees ok, .inl trivial, { h.1 with }⟩

theorem reclaimLocked_spec (fixed : cfg.fixav = true) :
    Works cfg t i Settled (reclaimLocked cfg i) := by
  refine sees lasting_settled fun s => ?_
  split_ifs with shadow
  · refine protects (lasting_sealed.quieter _) ?_ ?_
    · rintro cell ok ⟨settled, seen⟩
      have same := (seen.engaged (by rw [shadow]; rfl)).trans shadow
      have shadowed : Shadowed cell := ⟨same, settled.shadow same, settled.closed⟩
      exact ⟨fun _ _ => shadowed.agrees ok, .inl trivial, { shadowed with }, by simp⟩
    refine sees lasting_sealed fun again => ?_
    split_ifs with still
    · exact (reclaimReadable_spec mode fixed).weaken fun cell _ mine => mine.left
    · refine .impossible fun cell _ mine => still ?_
      have shadowed := mine.2.2.1.1
      exact (mine.2.2.2.exact shadowed.engaged).trans shadowed.state
  · exact (unlocks (fun _ _ h => h.1) stay).tail

theorem reclaimShadowPage_spec (fixed : cfg.fixav = true) : Solo cfg t i (Loose t True)
      (reclaimShadowPage cfg i) fun _ => Loose t True := by
  refine .step effect_peek (fun _ => firm_loose) fun s => ?_
  split_ifs
  · refine asked firm_loose fun aged => ?_
    split_ifs
    · exact .tries (reclaimLocked_spec mode fixed) stay
    · exact stay
  · exact stay

end Reclaim

section Monitor

theorem firm_unengaged {quiet : Bool} :
    Firm cfg t quiet (Assigned t fun c => engaged c.state = false) :=
  fun _ _ _ _ relied h => ⟨relied.worker h.1, relied.unengaged h.1 h.2⟩

theorem effect_transition : Effect cfg t (.transition .active .activeMonitoring) (Loose t True)
      fun changed c => (changed = true → engaged c.state = false) ∧ Loose t True c := by
  intro pre ch ans s' ok works _ stepped
  simp only [cellStep] at stepped
  split_ifs at stepped with active
  · cases stepped
    have busy : engaged pre.state = false := by rw [active]; rfl
    obtain ⟨agrees, idle⟩ := ok.unengaged busy
    have closed := ok.closed idle
    refine ⟨?_, fun j quiet apart => ?_, fun _ => rfl, works⟩
    · exact { ok with
        resident := fun _ _ => agrees, visible := fun _ _ => agrees
        settled := fun _ => ⟨by simp, by simp, by simp, rfl⟩
        service := fun _ => by simp
        idle := fun owner => by have := ok.idle owner; rw [active] at this; cases this
        reopened := by simp }
    · have foreign : pre.worker ≠ some j := fun same =>
        apart (Option.some.inj (same.symm.trans (works trivial)))
      refine { CellRely.refl cfg.deferred quiet j pre with
        drift := fun _ => ?_
        owner := fun moving => ⟨moving, by simp [active]⟩
        unopened := fun mine => (foreign mine).elim
        unpacked := fun mine => (foreign mine).elim
        unengaged := fun mine => (foreign mine).elim }
      exact { Drift.refl cfg.deferred quiet pre with
        reopened := closed.symm
        state := fun absurd => by rw [busy] at absurd; cases absurd
        resting := fun _ => ⟨rfl, by simp⟩ }
  · cases stepped
    exact ⟨ok, fun j quiet _ => .refl _ _ _ _, by simp, works⟩

theorem revertMonitoring_spec : Solo cfg t i (Loose t True) (revertMonitoring i)
      fun _ => Loose t True := by
  refine weaken (.locks (fun _ _ => trivial) (fun _ _ _ _ _ _ => trivial) ?_)
    fun _ _ loose => ⟨loose, trivial⟩
  refine weaken (sees lasting_settled fun s => ?_) fun _ _ mine => mine.left
  split_ifs with monitored
  · refine abandon_spec fun c ok h => ?_
    have resting : Resting c := h.2.rests (by rw [monitored]; rfl) (by simp [monitored])
    exact ⟨resting.2, (resting.agrees ok).1⟩
  · exact (unlocks (fun _ _ h => h.1) stay).tail

theorem flushPhase3Page_spec : Solo cfg t i
      (Assigned t fun c => engaged c.state = false) (flushPhase3Page i) fun _ => Loose t True := by
  refine asked firm_unengaged fun within => ?_
  split_ifs
  · refine weaken (.locks (fun _ h => h) lasting_unengaged ?_) fun c _ h =>
        (⟨fun _ => h.1, h.2⟩ : Loose t True c ∧ engaged c.state = false)
    refine sees (lasting_settled.and lasting_unengaged) fun s => ?_
    split_ifs
    · have unlocks : Effect cfg t .unlock (Mine t True fun c =>
          (Settled c ∧ engaged c.state = false) ∧ Seen s c) fun _ =>
            Assigned t fun c => engaged c.state = false := by
        intro pre ch ans s' ok mine may stepped
        obtain ⟨kept, relied, loose⟩ := effect_unlock (fun _ _ h => h.1.1)
          pre ch ans s' ok mine may stepped
        cases stepped
        exact ⟨kept, relied, loose trivial, mine.2.2.1.2⟩
      refine .step unlocks (fun _ => firm_unengaged) fun _ => ?_
      -- The lock is gone, but only this worker could have engaged the page meanwhile.
      refine .step (effect_tighten (by simp) fun c _ rest => ⟨fun _ => rest, rest⟩)
        (fun _ => firm_unengaged.given) fun succeeded => ?_
      split_ifs
      · exact .done fun _ _ h _ => h.2.1
      · exact revertMonitoring_spec.weaken fun _ _ h _ => h.2.1
    · exact (unlocks (fun _ _ h => h.1.1) stay).tail
  · exact revertMonitoring_spec.weaken fun _ _ h _ => h.1

theorem phase3Page_spec : Solo cfg t i (Loose t True) (phase3Page i) fun _ => Loose t True := by
  refine .step effect_transition (fun changed => ?_) fun changed => ?_
  · exact fun _ _ _ _ relied h => ⟨fun same => relied.unengaged (h.2 trivial) (h.1 same),
        fun _ => relied.worker (h.2 trivial)⟩
  · split_ifs with success
    · exact flushPhase3Page_spec.weaken fun _ _ h => ⟨h.2 trivial, h.1 success⟩
    · exact .done fun _ _ h => h.2

theorem escalateToDeepMonitoring_spec : Solo cfg t i (Loose t True)
      (escalateToDeepMonitoring i) fun _ => Loose t True := by
  refine weaken (.locks (fun _ _ => trivial) (fun _ _ _ _ _ _ => trivial) ?_)
    fun _ _ loose => ⟨loose, trivial⟩
  refine weaken (sees lasting_settled fun s => ?_) fun _ _ mine => mine.left
  split_ifs with monitored
  · refine protects (lasting_resting.quieter _) ?_ (unlocks
      (fun _ ok resting => resting.settled ok) stay).tail
    intro c ok h
    have resting : Resting c := h.2.rests (by rw [monitored]; rfl) (by simp [monitored])
    exact ⟨fun _ _ => (resting.agrees ok).1, .inl trivial, resting⟩
  · exact (unlocks (fun _ _ h => h.1) stay).tail

end Monitor

section Finish

theorem effect_finish : Effect cfg t .finish (Loose t True) fun _ _ => True := by
  intro pre ch ans s' ok works _ stepped
  cases stepped
  refine ⟨{ ok with settled := fun free => { ok.settled free with } },
    fun j quiet apart => ?_, trivial⟩
  have foreign : pre.worker ≠ some j := fun same =>
    apart (Option.some.inj (same.symm.trans (works trivial)))
  exact { CellRely.refl cfg.deferred quiet j pre with
    drift := fun _ => { Drift.refl cfg.deferred quiet pre with }
    worker := fun mine => (foreign mine).elim
    unopened := fun mine => (foreign mine).elim
    unpacked := fun mine => (foreign mine).elim
    unengaged := fun mine => (foreign mine).elim }

theorem finishing_spec {code : Code Unit}
    (spec : Solo cfg t i (Loose t True) code fun _ => Loose t True) :
    Solo cfg t i (Loose t True) (finishing i code) fun _ _ => True :=
  spec.bind fun _ => .last effect_finish fun _ _ _ _ _ _ _ => trivial

end Finish

end Smash.Compressor
