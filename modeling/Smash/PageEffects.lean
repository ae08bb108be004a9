import Smash.PageRules

/-! What a thread knows of a page whose lock it holds, and what each kind of call does to
that knowledge. -/
namespace Smash.Compressor

open Program PageMachine

variable {cfg : Config} {tid : Thread} {works : Prop}

/-- The thread holds the lock (and, if it works on the page, is its worker). -/
def Mine (tid : Thread) (works : Prop) (know : Cell → Prop) (c : Cell) : Prop :=
  c.lock = some tid ∧ (works → c.worker = some tid) ∧ know c

def Loose (tid : Thread) (works : Prop) (c : Cell) : Prop :=
  works → c.worker = some tid

section Firmness

variable {know : Cell → Prop} {quiet : Bool}

theorem Mine.left {c : Cell} {further : Cell → Prop}
    (mine : Mine tid works (fun c => know c ∧ further c) c) : Mine tid works know c :=
  ⟨mine.1, mine.2.1, mine.2.2.1⟩

theorem firm_loose : Firm cfg tid quiet (Loose tid works) :=
  fun _ _ _ _ relied h holds => relied.worker (h holds)

/-- The fact survives what others may do while the page is locked. -/
def Lasting (cfg : Config) (quiet : Bool) (know : Cell → Prop) : Prop :=
  ∀ ⦃pre s'⦄, CellInv cfg.deferred pre → CellInv cfg.deferred s' →
    Drift cfg.deferred quiet pre s' → know pre → know s'

theorem Lasting.and {one two : Cell → Prop} (first : Lasting cfg quiet one)
    (second : Lasting cfg quiet two) : Lasting cfg quiet fun c => one c ∧ two c :=
  fun _ _ ok later drift h =>
    ⟨first ok later drift h.1, second ok later drift h.2⟩

theorem Lasting.quieter (lasting : Lasting cfg false know) (quiet : Bool) :
    Lasting cfg quiet know :=
  fun _ _ ok later drift h => lasting ok later drift.loud h

theorem Lasting.firm (lasting : Lasting cfg quiet know) :
    Firm cfg tid quiet (Mine tid works know) :=
  fun _ _ ok later relied h =>
    ⟨relied.lock.mpr h.1, fun holds => relied.worker (h.2.1 holds),
      lasting ok later (relied.drift h.1) h.2.2⟩

theorem Firm.given {fact : Prop} (firm : Firm cfg tid quiet know) :
    Firm cfg tid quiet fun c => fact ∧ know c :=
  fun _ _ ok later relied h => ⟨h.1, firm ok later relied h.2⟩

end Firmness

section Facts

variable {deferred quiet : Bool} {pre s' : Cell} {bytes : Contents}

theorem Drift.content (drift : Drift deferred quiet pre s') : s'.content = pre.content := by
  unfold Cell.content Cell.lookup
  rw [drift.info, drift.blobs]

theorem Drift.carries (drift : Drift deferred quiet pre s')
    (busy : engaged pre.state = true) (still : pre.prot ≠ .readWrite ∨ quiet = true)
    (agrees : pre.Agrees bytes) : s'.Agrees bytes :=
  fun offset v seen => agrees offset v ((drift.frozen busy still).2 offset v seen)

theorem Settled.drift (drift : Drift deferred quiet pre s') (settled : Settled pre) :
    Settled s' := by
  have fixed : ∀ s, engaged s = true → s'.state = s → pre.state = s := by
    intro s busy same
    cases rest : engaged pre.state with
    | true => rw [← drift.state rest, same]
    | false =>
      have := (drift.resting rest).1
      rw [same, busy] at this
      cases this
  refine ⟨fun same => ?_, fun same => ?_, fun same => ?_, drift.reopened.trans settled.closed⟩
  · have compressed := fixed _ rfl same
    have busy : engaged pre.state = true := by rw [compressed]; rfl
    obtain ⟨shut, bytes, found, agrees⟩ := settled.blob compressed
    exact ⟨drift.shut busy shut, bytes, drift.content.trans found,
      drift.carries busy (.inl shut) agrees⟩
  · exact drift.agrees (settled.busy (fixed _ rfl same))
  · obtain ⟨bytes, found⟩ := settled.shadow (fixed _ rfl same)
    exact ⟨bytes, drift.content.trans found⟩

def Seen (s : PageState) (c : Cell) : Prop :=
  if engaged s then c.state = s
  else engaged c.state = false ∧ (s ≠ .empty → c.state ≠ .empty)

theorem Seen.drift {s : PageState} (drift : Drift deferred quiet pre s')
    (seen : Seen s pre) : Seen s s' := by
  unfold Seen at seen ⊢
  split_ifs at seen ⊢ with busy
  · rw [drift.state (by rw [seen]; exact busy), seen]
  · obtain ⟨resting, emptied⟩ := drift.resting seen.1
    exact ⟨resting, fun nonempty absurd => seen.2 nonempty (emptied absurd)⟩

theorem seen_self (c : Cell) : Seen c.state c := by
  unfold Seen
  split_ifs with busy
  · rfl
  · exact ⟨by simpa using busy, id⟩

/-- In service or being moved, and not the compressor's. -/
def Resting (c : Cell) : Prop := engaged c.state = false ∧ c.state ≠ .empty

theorem Resting.drift (drift : Drift deferred quiet pre s') (resting : Resting pre) :
    Resting s' :=
  ⟨(drift.resting resting.1).1, fun absurd => resting.2 ((drift.resting resting.1).2 absurd)⟩

theorem CellInv.closed (ok : CellInv deferred pre) (s : pre.state ≠ .compressing) :
    pre.reopened = false := by
  cases open_ : pre.reopened with
  | false => rfl
  | true => exact (s (ok.reopened open_)).elim

theorem Resting.settled (ok : CellInv deferred pre) (resting : Resting pre) : Settled pre where
  blob := fun same => by rw [Resting, same] at resting; cases resting.1
  busy := fun same => by rw [Resting, same] at resting; cases resting.1
  shadow := fun same => by rw [Resting, same] at resting; cases resting.1
  closed := ok.closed fun same => by rw [Resting, same] at resting; cases resting.1

end Facts

section Holder

/-- A step of the lock holder that leaves the application's and the allocator's side of the
page alone. -/
structure HolderStep (deferred : Bool) (tid : Thread) (before after : Cell) : Prop where
  locked : before.lock = some tid
  lock : after.lock = some tid
  app : after.app = before.app
  span : after.span = before.span
  held : after.held = before.held
  free : after.free = before.free
  owner : after.owner = before.owner
  worker : after.worker = before.worker
  emptied : after.state = .empty ↔ before.state = .empty
  reopened : after.reopened = true → after.state = .compressing
  resident : after.state ≠ .compressed → after.state ≠ .compressing → before.Agrees after.memory
  visible : deferred = true → after.state ≠ .compressed ∨ after.prot ≠ .none →
    before.Agrees after.memory
  unopened : before.worker ≠ some tid → Shut before → Shut after
  unpacked : before.worker ≠ some tid → Unpacked before → Unpacked after
  unengaged : before.worker ≠ some tid → engaged before.state = false →
    engaged after.state = false

variable {deferred quiet : Bool} {b s' : Cell}

theorem Cell.agrees_of_app (same : s'.app = b.app) {bytes : Contents} :
    s'.Agrees bytes ↔ b.Agrees bytes := by
  unfold Cell.Agrees
  rw [same]

theorem HolderStep.inv (step : HolderStep deferred tid b s')
    (ok : CellInv deferred b) : CellInv deferred s' where
  resident := fun one two => (Cell.agrees_of_app step.app).mpr (step.resident one two)
  visible := fun mode shown => (Cell.agrees_of_app step.app).mpr (step.visible mode shown)
  settled := fun free => by rw [step.lock] at free; cases free
  stored := by
    intro offset v seen
    rw [step.app] at seen
    obtain ⟨span, found, mem⟩ := ok.stored offset v seen
    exact ⟨span, step.span.trans found, by rw [step.held]; exact mem⟩
  held := fun some => by rw [step.owner]; exact ok.held (by rw [← step.held]; exact some)
  service := fun owned absurd =>
    ok.service (step.owner ▸ owned) (step.emptied.mp absurd)
  idle := fun owned => step.emptied.mpr (ok.idle (step.owner ▸ owned))
  marked := by
    intro slot mem
    rw [step.free]
    exact ok.marked slot (step.held ▸ mem)
  reopened := step.reopened

theorem HolderStep.rely (step : HolderStep deferred tid b s') {j : Thread}
    (apart : j ≠ tid) : CellRely deferred quiet j b s' where
  lock := by rw [step.lock, step.locked]
  drift := fun absurd => by
    rw [step.locked] at absurd
    exact (apart (Option.some.inj absurd).symm).elim
  owner := fun moving => ⟨step.owner.trans moving, step.emptied⟩
  worker := step.worker.trans
  unopened := fun works => step.unopened fun mine => apart (Option.some.inj (works.symm.trans mine))
  unpacked := fun works => step.unpacked fun mine => apart (Option.some.inj (works.symm.trans mine))
  unengaged := fun works =>
    step.unengaged fun mine => apart (Option.some.inj (works.symm.trans mine))

theorem Effect.holder {op : CellOp} {pre : Cell → Prop} {mid : CellAnswer op → Cell → Prop}
    (each : ∀ b ch ans s', CellInv cfg.deferred b → pre b →
      CellSucceeds op ch → cellStep tid op ch b = some (ans, s') →
      HolderStep cfg.deferred tid b s' ∧ mid ans s') : Effect cfg tid op pre mid := by
  intro b ch ans s' ok h may stepped
  obtain ⟨step, told⟩ := each b ch ans s' ok h may stepped
  exact ⟨step.inv ok, fun j quiet apart => step.rely apart, told⟩

theorem HolderStep.books (ok : CellInv deferred b) (locked : b.lock = some tid)
    (front : s' = { b with
      info := s'.info, tier := s'.tier, pending := s'.pending, blobs := s'.blobs,
      nextBlob := s'.nextBlob, damaged := s'.damaged }) :
    HolderStep deferred tid b s' := by
  rw [front]
  exact {
    locked := locked, lock := locked, app := rfl, span := rfl, held := rfl, free := rfl
    owner := rfl, worker := rfl, emptied := Iff.rfl, reopened := ok.reopened
    resident := ok.resident, visible := ok.visible, unopened := fun _ => id
    unpacked := fun _ => id, unengaged := fun _ => id }

end Holder

section Locks

theorem effect_unlock {know : Cell → Prop}
    (leaves : ∀ c, CellInv cfg.deferred c → know c → Settled c) :
    Effect cfg tid .unlock (Mine tid works know) fun _ => Loose tid works := by
  rintro pre ch ans s' ok ⟨locked, worker, h⟩ - stepped
  cases stepped
  have settled := leaves pre ok h
  refine ⟨{ ok with settled := fun _ => { settled with } }, fun j quiet apart => ?_, worker⟩
  refine { CellRely.refl cfg.deferred quiet j pre with lock := ?_, drift := ?_ }
  · simp only [locked, reduceCtorEq, Option.some.injEq, false_iff]
    exact fun same => apart same.symm
  · intro absurd
    exact (apart (Option.some.inj (locked.symm.trans absurd)).symm).elim

theorem taken_lock {c : Cell} (ok : CellInv cfg.deferred c) (free : c.lock = none) :
    CellInv cfg.deferred { c with lock := some tid } ∧
      (∀ j quiet, j ≠ tid →
        CellRely cfg.deferred quiet j c { c with lock := some tid }) ∧
      Settled { c with lock := some tid } := by
  have settled := ok.settled free
  refine ⟨{ ok with settled := fun absurd => nomatch absurd }, fun j quiet apart => ?_,
    { settled with }⟩
  refine { CellRely.refl cfg.deferred quiet j c with lock := ?_, drift := ?_ }
  · simp only [free, Option.some.injEq, reduceCtorEq, iff_false]
    exact fun same => apart same.symm
  · intro absurd
    rw [free] at absurd
    cases absurd

theorem effect_lock {extra : Cell → Prop}
    (kept : ∀ c, extra c → extra { c with lock := some tid }) :
    Effect cfg tid .lock (fun c => Loose tid works c ∧ extra c)
      fun _ => Mine tid works fun c => Settled c ∧ extra c := by
  rintro pre ch ans s' ok ⟨worker, h⟩ - stepped
  simp only [cellStep] at stepped
  split_ifs at stepped with free
  cases stepped
  obtain ⟨kept', relied, settled⟩ := taken_lock ok free
  exact ⟨kept', relied, rfl, worker, settled, kept pre h⟩

theorem effect_tryLock :
    Effect cfg tid .tryLock (Loose tid works) fun taken c =>
      if taken = true then Mine tid works Settled c else Loose tid works c := by
  intro pre ch ans s' ok worker _ stepped
  simp only [cellStep] at stepped
  split_ifs at stepped with free
  · cases stepped
    obtain ⟨kept, relied, settled⟩ := taken_lock ok free
    exact ⟨kept, relied, rfl, worker, settled⟩
  · cases stepped
    exact ⟨ok, fun j quiet _ => .refl _ _ _ _, worker⟩

end Locks

section Calls

variable {bytes : Contents} {know s' : Cell → Prop} {op : CellOp}
variable {mid : CellAnswer op → Cell → Prop}

theorem effect_read {pre : Cell → Prop}
    (reads : ∀ b ch ans s', CellInv cfg.deferred b → pre b →
      cellStep tid op ch b = some (ans, s') → s' = b ∧ mid ans b) :
    Effect cfg tid op pre mid := by
  intro b ch ans s' ok h _ stepped
  obtain ⟨rfl, told⟩ := reads b ch ans s' ok h stepped
  exact ⟨ok, fun j quiet _ => .refl _ _ _ _, told⟩

theorem effect_getState {know : Cell → Prop} :
    Effect cfg tid .getState (Mine tid works know) fun s =>
      Mine tid works fun c => know c ∧ Seen s c := by
  refine effect_read ?_
  rintro pre ch ans s' ok ⟨locked, worker, h⟩ stepped
  cases stepped
  exact ⟨rfl, locked, worker, h, seen_self pre⟩

theorem effect_copy {know : Cell → Prop} :
    Effect cfg tid .copy (Mine tid works know) fun bytes =>
      Mine tid works fun c => know c ∧ c.memory = bytes := by
  refine effect_read ?_
  rintro pre ch ans s' ok ⟨locked, worker, h⟩ stepped
  simp only [cellStep] at stepped
  split_ifs at stepped
  cases stepped
  exact ⟨rfl, locked, worker, h, rfl⟩

theorem effect_getInfo {know : Cell → Prop} :
    Effect cfg tid .getInfo (Mine tid works know) fun info =>
      Mine tid works fun c => know c ∧ c.info = info := by
  refine effect_read ?_
  rintro pre ch ans s' ok ⟨locked, worker, h⟩ stepped
  cases stepped
  exact ⟨rfl, locked, worker, h, rfl⟩

theorem effect_decompress {know : Cell → Prop} {info : CompressedPageInfo}
    (stored : ∀ c, know c → c.info = info ∧ ∃ bytes, c.content = some bytes) :
    Effect cfg tid (.decompress info) (Mine tid works know) fun bytes =>
      Mine tid works fun c => know c ∧ c.content = some bytes := by
  refine effect_read ?_
  rintro pre ch ans s' ok ⟨locked, worker, h⟩ stepped
  cases stepped
  obtain ⟨rfl, bytes, found⟩ := stored pre h
  exact ⟨rfl, locked, worker, h, by rw [found]; rfl⟩

theorem effect_books {know : Cell → Prop}
    (books : ∀ pre ch ans s', CellInv cfg.deferred pre → know pre →
      cellStep tid op ch pre = some (ans, s') →
      s' = { pre with
        info := s'.info, tier := s'.tier, pending := s'.pending, blobs := s'.blobs,
        nextBlob := s'.nextBlob, damaged := s'.damaged } ∧ mid ans s') :
    Effect cfg tid op (Mine tid works know) fun ans =>
      Mine tid works (mid ans) := by
  refine .holder ?_
  rintro pre ch ans s' ok ⟨locked, worker, h⟩ - stepped
  obtain ⟨front, told⟩ := books pre ch ans s' ok h stepped
  refine ⟨.books ok locked front, ?_, ?_, told⟩
  · rw [front]
    exact locked
  · rw [front]
    exact worker

theorem effect_setState {s : PageState} (occupied : s ≠ .empty)
    (may : works ∨ engaged s = false)
    (each : ∀ c, CellInv cfg.deferred c → know c → c.state ≠ .empty ∧
      (s ≠ .compressed → s ≠ .compressing → c.Agrees c.memory) ∧
      (cfg.deferred = true → s ≠ .compressed ∨ c.prot ≠ .none → c.Agrees c.memory) ∧
      s' { c with state := s, reopened := false }) :
    Effect cfg tid (.setState s) (Mine tid works know) fun _ =>
      Mine tid works s' := by
  refine .holder ?_
  rintro pre ch ans later ok ⟨locked, worker, h⟩ - stepped
  cases stepped
  obtain ⟨nonempty, resident, visible, told⟩ := each pre ok h
  have mine : pre.worker ≠ some tid → engaged s = false := fun foreign =>
    may.resolve_left fun holds => foreign (worker holds)
  exact ⟨{
    locked := locked, lock := locked, app := rfl, span := rfl, held := rfl, free := rfl
    owner := rfl, worker := rfl
    emptied := ⟨fun absurd => (occupied absurd).elim, fun absurd => (nonempty absurd).elim⟩
    reopened := fun absurd => nomatch absurd
    resident := resident, visible := visible
    unopened := fun foreign _ same => by
      have rest := mine foreign
      simp only at same
      rw [same] at rest
      cases rest
    unpacked := fun foreign _ => by
      have rest := mine foreign
      constructor <;> (simp only; rintro rfl; cases rest)
    unengaged := fun foreign _ => mine foreign }, locked, worker, told⟩

theorem effect_protect {prot : Prot} (each : ∀ c, CellInv cfg.deferred c → know c →
      (cfg.deferred = true → c.state ≠ .compressed ∨ prot ≠ .none → c.Agrees c.memory) ∧
      (works ∨ c.state ≠ .compressing ∨ prot ≠ .readWrite) ∧ s' { c with prot := prot }) :
    Effect cfg tid (.protect prot) (Mine tid works know) fun succeeded c =>
      succeeded = true ∧ Mine tid works s' c := by
  refine .holder ?_
  rintro pre ch ans later ok ⟨locked, worker, h⟩ may stepped
  have succeeds : ch.flag = true := may
  simp only [cellStep, succeeds, if_true] at stepped
  cases stepped
  obtain ⟨visible, shut, told⟩ := each pre ok h
  exact ⟨{
    locked := locked, lock := locked, app := rfl, span := rfl, held := rfl, free := rfl
    owner := rfl, worker := rfl, emptied := Iff.rfl, reopened := ok.reopened
    resident := ok.resident, visible := visible
    unopened := fun foreign _ same opened => by
      rcases shut with holds | j | closed
      · exact (foreign (worker holds)).elim
      · exact (j same).elim
      · exact (closed opened).elim
    unpacked := fun _ => id, unengaged := fun _ => id }, rfl, locked, worker, told⟩

theorem HolderStep.contents {deferred : Bool} {pre : Cell} {drops : List Prot}
    (ok : CellInv deferred pre) (locked : pre.lock = some tid)
    (resident : pre.state ≠ .compressed → pre.state ≠ .compressing → pre.Agrees bytes)
    (visible : deferred = true → pre.state ≠ .compressed ∨ pre.prot ≠ .none →
      pre.Agrees bytes) :
    HolderStep deferred tid pre { pre with memory := bytes, drops := drops } where
  locked := locked
  lock := locked
  app := rfl
  span := rfl
  held := rfl
  free := rfl
  owner := rfl
  worker := rfl
  emptied := Iff.rfl
  reopened := ok.reopened
  resident := resident
  visible := visible
  unopened := fun _ => id
  unpacked := fun _ => id
  unengaged := fun _ => id

theorem effect_populate
    (each : ∀ c, CellInv cfg.deferred c → know c →
      c.Agrees bytes ∧ s' { c with memory := bytes }) :
    Effect cfg tid (.populate bytes) (Mine tid works know) fun succeeded c =>
      succeeded = true ∧ Mine tid works s' c := by
  refine .holder ?_
  rintro pre ch ans later ok ⟨locked, worker, h⟩ may stepped
  have succeeds : ch.flag = true := may
  simp only [cellStep, succeeds, if_true] at stepped
  cases stepped
  obtain ⟨agrees, told⟩ := each pre ok h
  exact ⟨.contents ok locked (fun _ _ => agrees) fun _ _ => agrees, rfl, locked, worker, told⟩

theorem effect_write
    (each : ∀ c, CellInv cfg.deferred c → know c →
      c.Agrees bytes ∧ s' { c with memory := bytes }) :
    Effect cfg tid (.write bytes) (Mine tid works know) fun _ =>
      Mine tid works s' := by
  refine .holder ?_
  rintro pre ch ans later ok ⟨locked, worker, h⟩ - stepped
  simp only [cellStep] at stepped
  split_ifs at stepped
  cases stepped
  obtain ⟨agrees, told⟩ := each pre ok h
  exact ⟨.contents ok locked (fun _ _ => agrees) fun _ _ => agrees, locked, worker, told⟩

theorem effect_drop (each : ∀ c, CellInv cfg.deferred c → know c →
      (c.state = .compressed ∨ c.state = .compressing) ∧
      (cfg.deferred = true → c.state = .compressed ∧ c.prot = .none) ∧
      s' { c with memory := fun _ => 0, drops := c.prot :: c.drops }) :
    Effect cfg tid .drop (Mine tid works know) fun _ => Mine tid works s' := by
  refine .holder ?_
  rintro pre ch ans later ok ⟨locked, worker, h⟩ - stepped
  cases stepped
  obtain ⟨s, hidden, told⟩ := each pre ok h
  refine ⟨.contents ok locked (fun one two => ?_) fun mode shown => ?_, locked, worker, told⟩
  · exact (s.elim one two).elim
  · obtain ⟨compressed, closed⟩ := hidden mode
    exact (shown.elim (· compressed) (· closed)).elim

end Calls

section Steps

variable {frame : Nat → Cell → Prop} {i : Nat} {know s' : Cell → Prop} {Final : Type}
variable {post : Final → Cell → Prop}
variable [Framed cfg t frame]
variable {next : Unit → Code Final} {op : CellOp}


theorem Spec.unlocks (settled : ∀ c, CellInv cfg.deferred c → know c → Settled c)
    (further : Spec cfg t frame i (Loose t works) (next ()) post) :
    Spec cfg t frame i (Mine t works know) (on i .unlock >>= next) post :=
  .step (effect_unlock settled) (fun _ => firm_loose) fun _ => further

theorem Spec.tries {next : Bool → Code Final}
    (taken : Spec cfg t frame i (Mine t works Settled) (next true) post)
    (busy : Spec cfg t frame i (Loose t works) (next false) post) :
    Spec cfg t frame i (Loose t works) (on i .tryLock >>= next) post := by
  refine .step effect_tryLock (fun ans => ?_) fun ans => ?_
  · cases ans with
    | false => simpa using firm_loose
    | true =>
      simpa using Lasting.firm fun _ _ _ _ drift settled => .drift drift settled
  · cases ans with
    | false => simpa using busy
    | true => simpa using taken

theorem Spec.locks {extra : Cell → Prop} (kept : ∀ c, extra c → extra { c with lock := some t })
    (lasting : Lasting cfg false extra)
    (further : Spec cfg t frame i
      (Mine t works fun c => Settled c ∧ extra c) (next ()) post) :
    Spec cfg t frame i (fun c => Loose t works c ∧ extra c)
      (on i .lock >>= next) post :=
  .step (effect_lock kept)
    (fun _ => (Lasting.and (fun _ _ _ _ drift settled => .drift drift settled) lasting).firm)
    fun _ => further

theorem Spec.sees {next : PageState → Code Final} (lasting : Lasting cfg false know)
    (further : ∀ s, Spec cfg t frame i (Mine t works fun c => know c ∧ Seen s c) (next s) post) :
    Spec cfg t frame i (Mine t works know) (on i .getState >>= next) post :=
  .step effect_getState
    (fun _ => (lasting.and fun _ _ _ _ drift seen => .drift drift seen).firm) further

theorem Spec.keeps {next : CellAnswer op → Code Final} (lasting : Lasting cfg false know)
    (reads : ∀ pre ch ans s', cellStep t op ch pre = some (ans, s') → s' = pre)
    (further : ∀ ans, Spec cfg t frame i (Mine t works know) (next ans) post) :
    Spec cfg t frame i (Mine t works know) (on i op >>= next) post :=
  .step
    (effect_read fun pre ch ans later _ h stepped =>
      ⟨reads pre ch ans later stepped, h⟩)
    (fun _ => lasting.firm) further

theorem Spec.books {next : CellAnswer op → Code Final}
    {mid : CellAnswer op → Cell → Prop} (lasting : ∀ ans, Lasting cfg false (mid ans))
    (books : ∀ pre ch ans s', CellInv cfg.deferred pre → know pre →
      cellStep t op ch pre = some (ans, s') →
      s' = { pre with
        info := s'.info, tier := s'.tier, pending := s'.pending, blobs := s'.blobs,
        nextBlob := s'.nextBlob, damaged := s'.damaged } ∧ mid ans s')
    (further : ∀ ans, Spec cfg t frame i (Mine t works (mid ans))
      (next ans) post) :
    Spec cfg t frame i (Mine t works know) (on i op >>= next) post :=
  .step (effect_books books) (fun ans => (lasting ans).firm) further

theorem Spec.sets {s : PageState} (lasting : Lasting cfg false s') (occupied : s ≠ .empty)
    (may : works ∨ engaged s = false)
    (each : ∀ c, CellInv cfg.deferred c → know c → c.state ≠ .empty ∧
      (s ≠ .compressed → s ≠ .compressing → c.Agrees c.memory) ∧
      (cfg.deferred = true → s ≠ .compressed ∨ c.prot ≠ .none → c.Agrees c.memory) ∧
      s' { c with state := s, reopened := false })
    (further : Spec cfg t frame i (Mine t works s') (next ()) post) :
    Spec cfg t frame i (Mine t works know) (on i (.setState s) >>= next)
      post :=
  .step (effect_setState occupied may each) (fun _ => lasting.firm) fun _ => further

theorem Spec.protects {prot : Prot} {next : Bool → Code Final}
    (lasting : Lasting cfg (!cfg.deferred && writesBack i (next true).head?) s')
    (each : ∀ c, CellInv cfg.deferred c → know c →
      (cfg.deferred = true → c.state ≠ .compressed ∨ prot ≠ .none → c.Agrees c.memory) ∧
      (works ∨ c.state ≠ .compressing ∨ prot ≠ .readWrite) ∧ s' { c with prot := prot })
    (further : Spec cfg t frame i (Mine t works s') (next true) post) :
    Spec cfg t frame i (Mine t works know) (on i (.protect prot) >>= next)
      post := by
  refine .call (effect_protect each) (fun ans => ?_) fun ans => further.given
  by_cases succeeded : ans = true
  · rw [succeeded]
    exact lasting.firm.given
  · exact fun _ _ _ _ _ h => (succeeded h.1).elim

theorem Spec.populates {bytes : Contents} {next : Bool → Code Final}
    (lasting : Lasting cfg false s')
    (each : ∀ c, CellInv cfg.deferred c → know c →
      c.Agrees bytes ∧ s' { c with memory := bytes })
    (further : Spec cfg t frame i (Mine t works s') (next true) post) :
    Spec cfg t frame i (Mine t works know) (on i (.populate bytes) >>= next)
      post :=
  .step (effect_populate each) (fun _ => lasting.firm.given) fun _ => further.given

end Steps

end Smash.Compressor
