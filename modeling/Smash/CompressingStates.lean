import Smash.PageLocks

/-! Whom the fault handler can meet. In deferred-reclaim mode a page is COMPRESSING only while the
thread that marked it has its lock, so a handler that got the lock finds another state. The
standard snapshot gives the lock up around its `mprotect`, with the page marked. -/
namespace Smash.Compressor

open Program PageMachine Ledger Transition Function List

section Whole

/-- Everything a thread may start: an entry of the compressor system, tier upgrade and spill of a
page, the flush of a worker's pending page, the sweep, and the drain at shutdown. -/
inductive Task where
  | entry (entry : Entry)
  | upgrade (idx : Nat) (target : CompressAlgo)
  | flush (idx : Nat)
  | sweep (aged : Nat → Bool)
  | drain (committed : Nat)

def launchTask (cfg : Config) (t : Thread) : Task → Shared → Option (Shared × Code Unit)
  | .entry entry, s => launch cfg t entry s
  | .upgrade i target, s =>
    (assign t i s).map fun s' =>
      (s', finishing i (phase2Compressed cfg i target))
  | .flush i, s =>
    (assign t i s).map fun s' =>
      (s', finishing i (flushPendingPage i))
  | .sweep aged, s => some (s, sweepDeferredMadvise cfg aged)
  | .drain committed, s => some (s, drainAllForShutdown committed)

def wholeSystem (cfg : Config) : System Op Answer Thread Choice Shared Task Event where
  perform := perform
  launch := launchTask cfg
  environment := environment

/-- What the handler's thread has left to do once it has the page's lock: it looks at the state. -/
def faultRest (cfg : Config) (i : Nat) : Code Unit := do
  let _ ← faultLocked cfg i
  pure ()

end Whole

section Accounts

variable {cfg : Config} {pre s' : Shared} {accounts : Thread → Account} {tid : Thread}
variable {acc : Account} {c : Cell} {ch : Choice} {code prog : Code Unit} {idx : Nat}
variable {takes : List (Nat × (Cell → Option Cell))}

/-- The accounts tell who has which lock; where marks are watched, a COMPRESSING page is in the
hands of the thread that marked it. -/
structure LocksAgree (watched : Bool) (shared : Shared) (accounts : Thread → Account) : Prop where
  holder : ∀ tid idx, accounts tid idx ≠ .none ↔
    (shared.page idx).lock = some tid
  marked : watched = true → ∀ idx, (shared.page idx).state = .compressing →
    ∃ tid, accounts tid idx = .busy

variable {w : Bool}

def SameLocks (pre s' : Shared) : Prop :=
  ∀ idx, (s'.page idx).lock = (pre.page idx).lock ∧
    (s'.page idx).state = (pre.page idx).state

theorem LocksAgree.of_same (agreed : LocksAgree w pre accounts)
    (same : SameLocks pre s') : LocksAgree w s' accounts where
  holder := fun tid idx => by
    rw [(same idx).1]
    exact agreed.holder tid idx
  marked := fun watching idx compressing => by
    rw [(same idx).2] at compressing
    exact agreed.marked watching idx compressing

theorem LocksAgree.unique (agreed : LocksAgree w pre accounts)
    (held : accounts tid idx ≠ .none) {j : Thread}
    (also : accounts j idx ≠ .none) : j = tid := by
  have mine := (agreed.holder tid idx).mp held
  have theirs := (agreed.holder j idx).mp also
  exact Option.some.inj (theirs.symm.trans mine)

theorem LocksAgree.locked_state (agreed : LocksAgree true pre accounts)
    (held : accounts tid idx = .locked) : (pre.page idx).state ≠ .compressing := by
  intro compressing
  obtain ⟨j, busy⟩ := agreed.marked rfl idx compressing
  have same : j = tid := agreed.unique (by rw [held]; decide) (by rw [busy]; decide)
  subst same
  cases held.symm.trans busy

theorem same_set (lock : c.lock = (pre.page idx).lock) (s : c.state = (pre.page idx).state) :
    SameLocks pre (pre.set idx c) := by
  intro j
  by_cases here : j = idx
  · subst here
    simp [lock, s]
  · simp [update_of_ne here]

theorem plain_same {op : CellOp} {c next : Cell} {ans : CellAnswer op}
    (kind : plain op = true) (stepped : cellStep tid op ch c = some (ans, next)) :
    next.lock = c.lock ∧ next.state = c.state := by
  cases op <;> simp only [plain, Bool.false_eq_true] at kind <;>
    simp only [cellStep] at stepped <;> first
    | (cases stepped; exact ⟨rfl, rfl⟩)
    | (split_ifs at stepped <;> cases stepped <;> exact ⟨rfl, rfl⟩)

theorem environment_same {event : Event} (happened : environment event pre = some s') :
    SameLocks pre s' := by
  unfold environment at happened
  split at happened
  · obtain ⟨c, changed, rfl⟩ := Option.map_eq_some_iff.mp happened
    have kept : c.lock = (pre.page event.index).lock ∧ c.state = (pre.page event.index).state := by
      cases event <;> simp only [cellEvent] at changed <;> first
        | (cases changed; exact ⟨rfl, rfl⟩)
        | (split_ifs at changed; cases changed; exact ⟨rfl, rfl⟩)
    exact same_set kept.1 kept.2
  · cases happened

theorem assign_same (assigned : assign tid idx pre = some s') : SameLocks pre s' := by
  unfold assign at assigned
  split at assigned
  · cases assigned
    exact same_set rfl rfl
  · cases assigned

theorem claimAll_same (each : ∀ take ∈ takes, ∀ c next, take.2 c = some next →
      next.lock = c.lock ∧ next.state = c.state)
    (taken : claimAll takes pre = some s') : SameLocks pre s' := by
  induction takes generalizing pre with
  | nil =>
    cases taken
    exact fun _ => ⟨rfl, rfl⟩
  | cons take rest ih =>
    obtain ⟨idx, change⟩ := take
    unfold claimAll at taken
    split at taken
    · cases taken
    next c changed =>
      obtain ⟨lock, s⟩ := each _ mem_cons_self _ _ changed
      have later := ih (fun j mem => each j (mem_cons_of_mem _ mem)) taken
      intro j
      have first := same_set lock s j
      exact ⟨(later j).1.trans first.1, (later j).2.trans first.2⟩

section

variable (agreed : LocksAgree w pre accounts)
include agreed

theorem LocksAgree.change {idx : Nat} {c : Cell}
    {hold : Hold} (lock : ∀ j, (if j = tid then hold else accounts j idx) ≠ .none ↔
      c.lock = some j)
    (mark : w = true → c.state = .compressing →
      ∃ j, (if j = tid then hold else accounts j idx) = .busy) :
    LocksAgree w (pre.set idx c)
      (update accounts tid (update (accounts tid) idx hold)) := by
  have mine : ∀ j, update accounts tid (update (accounts tid) idx hold) j idx =
        if j = tid then hold else accounts j idx := by
    intro j
    by_cases same : j = tid
    · subst same
      simp
    · simp [same]
  have elsewhere : ∀ j place, place ≠ idx → update accounts tid
      (update (accounts tid) idx hold) j place = accounts j place := by
    intro j place apart
    by_cases same : j = tid
    · subst same
      simp [apart]
    · simp [same]
  refine ⟨fun j place => ?_, fun watching place compressing => ?_⟩
  · by_cases here : place = idx
    · subst here
      rw [mine, Shared.set_page, update_self]
      exact lock j
    · rw [elsewhere j place here, Shared.set_page, update_of_ne here]
      exact agreed.holder j place
  · by_cases here : place = idx
    · subst here
      rw [Shared.set_page, update_self] at compressing
      obtain ⟨j, busy⟩ := mark watching compressing
      exact ⟨j, by rw [mine, busy]⟩
    · rw [Shared.set_page, update_of_ne here] at compressing
      obtain ⟨j, busy⟩ := agreed.marked watching place compressing
      exact ⟨j, by rw [elsewhere j place here, busy]⟩

theorem LocksAgree.free (unlocked : (pre.page idx).lock = none) (j : Thread) :
    accounts j idx = .none := by
  by_contra held
  cases unlocked.symm.trans ((agreed.holder j idx).mp held)

theorem LocksAgree.take (unlocked : (pre.page idx).lock = none) :
    LocksAgree w (pre.set idx { pre.page idx with lock := some tid })
      (update accounts tid (update (accounts tid) idx .locked)) := by
  refine agreed.change (fun j => ?_) fun watching compressing => ?_
  · by_cases same : j = tid
    · simp [same]
    · simp [same, agreed.free unlocked j, Ne.symm same]
  · obtain ⟨j, busy⟩ := agreed.marked watching idx compressing
    cases busy.symm.trans (agreed.free unlocked j)

theorem LocksAgree.give {idx : Nat} (held : accounts tid idx = .locked) :
    LocksAgree w (pre.set idx { pre.page idx with lock := none })
      (update accounts tid (update (accounts tid) idx .none)) := by
  have others : ∀ j, j ≠ tid → accounts j idx = .none := by
    intro j apart
    by_contra also
    exact apart (agreed.unique (by rw [held]; decide) also)
  refine agreed.change (fun j => ?_) fun watching compressing => ?_
  · by_cases same : j = tid
    · simp [same]
    · simp [same, others j same]
  · subst watching
    exact absurd compressing (agreed.locked_state held)

theorem LocksAgree.setState {s : PageState}
    {reopened : Bool} (held : s = .compressing → accounts tid idx ≠ .none) :
    LocksAgree w (pre.set idx { pre.page idx with state := s, reopened })
      (update accounts tid (update (accounts tid) idx
        ((accounts tid idx).restate s))) := by
  refine agreed.change (fun j => ?_) fun _ compressing => ⟨tid, ?_⟩
  · by_cases same : j = tid
    · subst same
      rw [if_pos rfl, ← agreed.holder j idx]
      by_cases marks : s = .compressing
      · simp [Hold.restate, marks, held marks]
      · by_cases busy : accounts j idx = .busy
        · simp [Hold.restate, marks, busy]
        · simp [Hold.restate, marks, busy]
    · rw [if_neg same, ← agreed.holder j idx]
  · have marks : s = .compressing := compressing
    rw [if_pos rfl, Hold.restate, if_pos marks]

theorem LocksAgree.rest (lock : c.lock = (pre.page idx).lock)
    (rest : w = true → c.state ≠ .compressing) :
    LocksAgree w (pre.set idx c) accounts := by
  refine ⟨fun j place => ?_, fun watching place compressing => ?_⟩
  · by_cases here : place = idx
    · subst here
      rw [Shared.set_page, update_self, lock]
      exact agreed.holder j place
    · rw [Shared.set_page, update_of_ne here]
      exact agreed.holder j place
  · by_cases here : place = idx
    · subst here
      rw [Shared.set_page, update_self] at compressing
      exact absurd compressing (rest watching)
    · rw [Shared.set_page, update_of_ne here] at compressing
      exact agreed.marked watching place compressing

end

theorem apart_same {op : Op} {ans : Answer op} (kind : apart op = true)
    (ran : perform tid op ch pre = some (ans, s')) : SameLocks pre s' := by
  cases op with
  | page idx op => cases kind
  | range first count op =>
    simp only [perform] at ran
    split at ran <;> cases ran
    intro idx
    dsimp only [Shared.setRange]
    split
    · unfold rangeStep
      split
      · split <;> exact ⟨rfl, rfl⟩
      · split <;> exact ⟨rfl, rfl⟩
      · exact ⟨rfl, rfl⟩
    · exact ⟨rfl, rfl⟩
  | addSpilled delta =>
    cases ran
    exact fun _ => ⟨rfl, rfl⟩
  | ask question =>
    cases ran
    exact fun _ => ⟨rfl, rfl⟩
  | committedPages =>
    simp only [perform] at ran
    split at ran <;> cases ran
    exact fun _ => ⟨rfl, rfl⟩
  | profile =>
    simp only [perform] at ran
    split at ran <;> cases ran <;> exact fun _ => ⟨rfl, rfl⟩
  | bounds idx =>
    simp only [perform] at ran
    split at ran <;> cases ran
    exact fun _ => ⟨rfl, rfl⟩

theorem perform_honest {op : Op} {ans : Answer op} (agreed : LocksAgree w pre accounts)
    (may : (rulesFor w).may op (accounts tid))
    (ran : perform tid op ch pre = some (ans, s')) :
    (rulesFor w).possible op ans (accounts tid) ∧ LocksAgree w s'
      (update accounts tid ((rulesFor w).after op ans (accounts tid))) := by
  have still : ∀ {next}, SameLocks pre next → LocksAgree w next
      (update accounts tid (accounts tid)) := fun same => by
    rw [update_eq_self]
    exact agreed.of_same same
  have rested : ∀ {idx s}, (w = true → s ≠ .compressing) →
      LocksAgree w (pre.set idx { pre.page idx with state := s, reopened := false })
        (update accounts tid (accounts tid)) := fun rest => by
    rw [update_eq_self]
    exact agreed.rest rfl rest
  cases op with
  | page idx op =>
    obtain ⟨-, c, stepped, rfl⟩ := perform_page.mp ran
    by_cases kind : plain op = true
    · have ⟨lock, s⟩ := plain_same kind stepped
      have kept := still (same_set lock s)
      cases w <;> cases op <;> first
        | exact ⟨trivial, kept⟩
        | cases kind
    · cases op <;> first
        | exact absurd rfl kind
        | skip
      case lock =>
        simp only [cellStep] at stepped
        split at stepped <;> cases stepped
        next free => cases w <;> exact ⟨agreed.free free tid, agreed.take free⟩
      case tryLock =>
        simp only [cellStep] at stepped
        split at stepped <;> cases stepped
        next free => cases w <;> exact ⟨fun _ => agreed.free free tid, agreed.take free⟩
        next => cases w <;> exact ⟨nofun, still (same_set rfl rfl)⟩
      case unlock =>
        cases stepped
        cases w <;> exact ⟨trivial, agreed.give may⟩
      case getState =>
        cases stepped
        cases w with
        | true => exact ⟨agreed.locked_state, still (same_set rfl rfl)⟩
        | false => exact ⟨trivial, still (same_set rfl rfl)⟩
      case setState s =>
        cases stepped
        cases w with
        | true => exact ⟨trivial, agreed.setState may⟩
        | false => exact ⟨trivial, rested nofun⟩
      case transition expected desired =>
        simp only [cellStep] at stepped
        split at stepped <;> cases stepped <;> cases w
        · exact ⟨trivial, rested nofun⟩
        · exact ⟨trivial, rested fun _ => may⟩
        all_goals exact ⟨trivial, still (same_set rfl rfl)⟩
  | range _ _ _ | addSpilled _ | ask _ | committedPages | profile | bounds _ =>
    cases w <;> exact ⟨trivial, still (apart_same rfl ran)⟩

def Idle (acc : Account) : Prop := acc = fun _ => .none

theorem Neutral.idle {Result : Type} {code : Code Result} (neutral : Neutral w code)
    (idle : Idle acc) : Heeds w code (fun _ => Idle) acc :=
  (neutral acc).mono fun _ _ same => same ▸ idle

theorem finishing_neutral {code : Code Unit} (neutral : Neutral w code) :
    Neutral w (finishing idx code) :=
  neutral.then fun _ => neutral_on rfl

theorem spans_idle {acc : Account} (idle : Idle acc) (pages : List Nat) (decommit : Bool) :
    Heeds w (retireEmptySpan decommit pages) (fun _ => Idle) acc ∧
      Heeds w (serveSpan pages) (fun _ => Idle) acc := by
  have unmarked : ∀ idx, acc idx ≠ .busy := fun idx => by
    rw [idle]
    exact nofun
  have sets : ∀ s, s ≠ .compressing → ∀ owner, Heeds w
      (do setRange s pages; handOverAll owner pages) (fun _ => Idle) acc :=
    fun s rest owner => (setRange_yields rest unmarked pages).bind fun _ =>
      (handOverAll_neutral owner pages).idle idle
  refine ⟨?_, sets .active (by decide) .service⟩
  refine (forPages_neutral releaseCompressedPage_neutral pages).bind fun _ => ?_
  exact (decommitAll_neutral _).bind fun _ => sets .empty (by decide) .idle

theorem assigned_honest (idle : Idle (accounts tid)) (neutral : Neutral w code)
    (started : (assign tid idx pre).map (fun s' => (s', finishing idx code)) =
      some (s', prog)) :
    SameLocks pre s' ∧ Heeds w prog (fun _ => Idle) (accounts tid) := by
  obtain ⟨next, assigned, same⟩ := Option.map_eq_some_iff.mp started
  cases same
  exact ⟨assign_same assigned, (finishing_neutral neutral).idle idle⟩

theorem claimed_honest (each : ∀ take ∈ takes, ∀ c next, take.2 c = some next →
      next.lock = c.lock ∧ next.state = c.state)
    (follows : Heeds w code (fun _ => Idle) (accounts tid))
    (started : (claimAll takes pre).map (fun s' => (s', code)) = some (s', prog)) :
    SameLocks pre s' ∧ Heeds w prog (fun _ => Idle) (accounts tid) := by
  obtain ⟨next, taken, same⟩ := Option.map_eq_some_iff.mp started
  cases same
  exact ⟨claimAll_same each taken, follows⟩

theorem launch_honest (may : w = true → cfg.deferred = true) {entry : Entry}
    {prog : Code Unit} (idle : Idle (accounts tid))
    (launched : launch cfg tid entry pre = some (s', prog)) :
    SameLocks pre s' ∧ Heeds w prog (fun _ => Idle) (accounts tid) := by
  cases entry with
  | compress idx pendingCount =>
    exact assigned_honest idle
      ((compressPage_neutral may pendingCount).then fun _ => neutral_pure ()) launched
  | reclaim idx =>
    simp only [launch] at launched
    split at launched
    · exact assigned_honest idle reclaimShadowPage_neutral launched
    · cases launched
  | escalate idx => exact assigned_honest idle escalateToDeepMonitoring_neutral launched
  | monitor idx => exact assigned_honest idle phase3Page_neutral launched
  | fault idx =>
    cases launched
    exact ⟨fun _ => ⟨rfl, rfl⟩, (handleFault_neutral.then fun _ => neutral_pure ()).idle idle⟩
  | retire pages decommit =>
    refine claimed_honest (fun take mem c next taken => ?_)
      (spans_idle idle pages decommit).1 launched
    obtain ⟨idx, -, rfl⟩ := mem_map.mp mem
    simp only [takeInService] at taken
    split at taken <;> cases taken
    exact ⟨rfl, rfl⟩
  | purge pages =>
    refine claimed_honest (fun take mem c next taken => ?_)
      (((decommitAll_neutral pages).then fun _ => handOverAll_neutral _ pages).idle idle) launched
    obtain ⟨idx, -, rfl⟩ := mem_map.mp mem
    simp only [takeIdle] at taken
    split at taken <;> cases taken
    exact ⟨rfl, rfl⟩
  | serve pages =>
    refine claimed_honest (fun take mem c next taken => ?_) (spans_idle idle _ false).2 launched
    obtain ⟨page, -, rfl⟩ := mem_map.mp mem
    simp only [takeForSpan] at taken
    split at taken <;> cases taken
    exact ⟨rfl, rfl⟩

theorem launchTask_follows (may : w = true → cfg.deferred = true) {task : Task}
    {prog : Code Unit} (idle : Idle (accounts tid))
    (launched : launchTask cfg tid task pre = some (s', prog)) : SameLocks pre s' ∧
      Heeds w prog (fun _ => Idle) (accounts tid) := by
  cases task with
  | entry entry => exact launch_honest may idle launched
  | upgrade idx target => exact assigned_honest idle (phase2Compressed_neutral target) launched
  | flush idx => exact assigned_honest idle flushPendingPage_neutral launched
  | sweep aged =>
    cases launched
    exact ⟨fun _ => ⟨rfl, rfl⟩, (sweepDeferredMadvise_neutral cfg).idle idle⟩
  | drain committed =>
    cases launched
    exact ⟨fun _ => ⟨rfl, rfl⟩, (drainAllForShutdown_neutral committed).idle idle⟩

theorem lockRules_honest (deferred : cfg.deferred = true) :
    Honest (wholeSystem cfg) lockRules (LocksAgree true) Idle where
  performed := perform_honest
  launched := by
    intro s accounts tid task next prog agreed idle launched
    have outcome := @launchTask_follows cfg s next accounts tid true (fun _ => deferred)
      task prog idle launched
    exact ⟨agreed.of_same outcome.1, outcome.2⟩
  happened := fun agreed happened => agreed.of_same (environment_same happened)

theorem faultRest_locked (follows : Follows lockRules (faultRest cfg idx) (fun _ => Idle) acc) :
    acc idx = .locked := by
  have empty := follows.2 PageState.empty fun _ => PageState.noConfusion
  exact (@follows_unlock true acc idx _ _ _).mp empty |>.1

end Accounts

section Runs

variable {cfg : Config}

theorem boot_balanced (pages : Nat) :
    Balanced lockRules (LocksAgree true) Idle (bootPool pages) := by
  refine ⟨fun _ _ => .none, ⟨fun t i => ?_, fun _ i => nofun⟩, fun _ => rfl⟩
  exact iff_of_false (fun held => held rfl) nofun

/-- Page 0 is served; a worker claims it and gives the lock up for its snapshot; a handler takes
the lock. -/
def raceMoves : List (Move Thread Choice Task Event) :=
  [.launch 0 (.entry (.serve [(0, ⟨0, 4096, 1, false⟩)])), .advance 0 {}, .advance 0 {},
    .launch 1 (.entry (.compress 0 0)), .advance 1 {}, .advance 1 {}, .advance 1 {},
    .advance 1 {}, .advance 1 { number := 1 }, .advance 1 {},
    .launch 2 (.entry (.fault 0)), .advance 2 {}, .advance 2 {}]

theorem standard_race (standard : cfg.deferred = false) :
    ∃ pool, exec (Program.step (wholeSystem cfg)) (bootPool 1) raceMoves = some pool ∧
      pool.code 2 = faultRest cfg 0 ∧ (pool.shared.page 0).lock = some 2 ∧
      (pool.shared.page 0).state = .compressing := by
  have shown : (exec (Program.step (wholeSystem cfg)) (bootPool 1) raceMoves).map
      (fun pool => (pool.code 2, (pool.shared.page 0).lock, (pool.shared.page 0).state)) =
        some (faultRest cfg 0, some 2, .compressing) := by
    obtain ⟨deferred, fixav, snapshotVerify, p2Chunk, deferMadvise, deepTier, spill, window⟩ := cfg
    cases standard
    rfl
  obtain ⟨pool, ran, same⟩ := Option.map_eq_some_iff.mp shown
  simp only [Prod.mk.injEq] at same
  exact ⟨pool, ran, same⟩

/-- In every run a fault handler that has taken the page's lock finds the page in another state
than COMPRESSING, exactly in deferred-reclaim mode. -/
theorem fault_never_compressing_iff (cfg : Config) : (∀ pages moves pool t i,
      exec (Program.step (wholeSystem cfg)) (bootPool pages) moves = some pool →
      pool.code t = faultRest cfg i →
      (pool.shared.page i).state ≠ .compressing) ↔ cfg.deferred = true := by
  constructor
  · intro never
    by_contra standard
    obtain ⟨pool, ran, code, -, s⟩ := standard_race (Bool.eq_false_iff.mpr standard)
    exact never 1 raceMoves pool 2 0 ran code s
  · intro deferred pages moves pool t i ran code
    obtain ⟨accounts, agreed, follows⟩ := (boot_balanced pages).run (lockRules_honest deferred) ran
    have here := follows t
    rw [code] at here
    exact agreed.locked_state (faultRest_locked here)

def plainConfig : Config := ⟨false, false, false, false, false, true, false, 0⟩

theorem plain_fault_finds_compressing :
    ∃ pool, exec (Program.step (wholeSystem plainConfig)) (bootPool 1) raceMoves = some pool ∧
      pool.code 2 = faultRest plainConfig 0 ∧ (pool.shared.page 0).lock = some 2 ∧
      (pool.shared.page 0).state = .compressing :=
  standard_race rfl

end Runs

end Smash.Compressor
