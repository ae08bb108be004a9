import Smash.DispatchStop
import Smash.ForkLocks

/-! What each thread holds while it runs, kept as an account: no thread runs compressor code with a
page or shard lock unless a heap lock is around it or it has entered such code openly. When the
forking thread has all heap locks, the others can only hold something in open code, and a pause
that found the coordinator outside its tick keeps it there until the fork. -/
namespace Smash.ForkLocks

open Program PageMachine Compressor Ledger Transition List
open Function (update update_of_ne update_self update_idem update_eq_self)
open CompressStore (Shard shardOf)
open Dispatch (CoordPc HelperPc)

section Order

/-- `unlock` gives back what `lock` takes, almost in reverse: the buckets go in ascending order. -/
theorem unlockOrder_perm (mode : HeapMode) : (unlockOrder mode).Perm (heapLocks mode) := by
  have alloc : ((leafLocks mode).reverse ++ bucketLocks ++ [HeapLock.large] ++
      (slabLocks mode).reverse).Perm (allocLocks mode).reverse := by
    simp only [allocLocks, reverse_append, append_assoc, reverse_singleton]
    apply List.Perm.append_left
    exact (reverse_perm _).symm.append_right _
  have states : (stateLocks mode).reverse = stateLocks mode := by
    unfold stateLocks
    split <;> rfl
  have back : (unlockOrder mode).Perm (heapLocks mode).reverse := by
    simp only [unlockOrder, heapLocks, reverse_append, append_assoc, states]
    repeat apply List.Perm.append_left
    split
    · exact List.Perm.refl _
    · simpa only [append_assoc] using alloc
  exact back.trans (reverse_perm _)

end Order

section Rules

variable {lock : Lock}

inductive Stage where
  | away
  | paused
  | settled
  deriving DecidableEq

/-- What a thread has: page locks, other locks, and where it is. -/
structure Hand where
  pages : Account
  locks : Lock → Bool
  bare : Bool
  stage : Stage

def emptyHand : Hand where
  pages := fun _ => .none
  locks := fun _ => false
  bare := false
  stage := .away

structure Clean (hand : Hand) : Prop where
  pages : ∀ idx, hand.pages idx = .none
  shards : ∀ place shard, hand.locks (.shard place shard) = false

def Covered (hand : Hand) : Prop :=
  hand.bare = true ∨ ∃ lock, hand.locks (.heap lock) = true

def Shielded (hand : Hand) : Prop := Covered hand ∨ Clean hand

def handRules (mode : HeapMode) : Rules LockedOp LockedAnswer Hand where
  may
    | .code op, hand => Shielded hand ∧ pairRules.may op hand.pages
    | .acquire (.heap lock), hand => Shielded hand ∧ lock ∈ heapLocks mode
    | .acquire (.shard _ _), hand => Shielded hand
    | .release lock, hand => Shielded hand ∧ hand.locks lock = true
    | .enter, hand | .leave, hand | .pause, hand | .resume, hand => Clean hand
    | .readInTick, hand | .giveUp, hand => Clean hand ∧ hand.stage ≠ .away
    | .fork, hand =>
      Clean hand ∧ hand.stage = .settled ∧
        ∀ lock ∈ heapLocks mode, hand.locks (.heap lock) = true
    | .finish, hand => hand = emptyHand
  possible
    | .code op, ans, hand => pairRules.possible op ans hand.pages
    | .acquire lock, _, hand => hand.locks lock = false
    | _, _, _ => True
  after
    | .code op, ans, hand => { hand with pages := pairRules.after op ans hand.pages }
    | .acquire lock, _, hand => { hand with locks := update hand.locks lock true }
    | .release lock, _, hand => { hand with locks := update hand.locks lock false }
    | .enter, _, hand => { hand with bare := true }
    | .leave, _, hand => { hand with bare := false }
    | .pause, _, hand => { hand with stage := .paused }
    | .readInTick, inTick, hand => if inTick = true then hand else { hand with stage := .settled }
    | .giveUp, _, hand => { hand with stage := .settled }
    | .resume, _, hand => { hand with stage := .away }
    | .fork, _, hand | .finish, _, hand => hand

variable {mode : HeapMode} {hand : Hand} {Result Final : Type}
variable {post : Result → Hand → Prop}

theorem clean_empty : Clean emptyHand := ⟨fun _ => rfl, fun _ _ => rfl⟩

theorem Covered.acquire (covered : Covered hand) (lock : Lock) :
    Covered { hand with locks := update hand.locks lock true } := by
  rcases covered with bare | ⟨held, has⟩
  · exact .inl bare
  · right
    refine ⟨held, ?_⟩
    by_cases same : Lock.heap held = lock
    · rw [same]
      exact update_self ..
    · exact (update_of_ne same _ _).trans has

theorem shardLock_shard {op : Op} (guarded : shardLock op = some lock) :
    ∃ place shard, lock = .shard place shard := by
  unfold shardLock at guarded
  split at guarded <;> cases guarded
  · exact ⟨_, _, rfl⟩
  · exact ⟨_, _, rfl⟩

theorem update_release {locks : Lock → Bool} (missing : locks lock = false) :
    update (update locks lock true) lock false = locks := by
  rw [update_idem, ← missing, update_eq_self]

/-- Compressor code under cover, with the shard locks around its blob calls, does to the page locks
what it does by itself and leaves all else. -/
theorem bracket_follows {code : Code Result} {acc : Account} {ends : Result → Account → Prop}
    (covered : Covered hand) (follows : Follows pairRules code ends acc) :
    Follows (handRules mode) (bracket code)
      (fun r later => ∃ pages, ends r pages ∧ later = { hand with pages })
      { hand with pages := acc } := by
  induction code generalizing acc with
  | done r => exact ⟨acc, follows, rfl⟩
  | call op next ih =>
    have shield : ∀ {locks : Lock → Bool}, Covered { hand with locks } →
        Shielded { hand with pages := acc, locks } := fun h => .inl h
    unfold bracket
    cases guarded : shardLock op with
    | none =>
      refine ⟨⟨shield covered, follows.1⟩, fun ans possible => ?_⟩
      exact ih ans (follows.2 ans possible)
    | some lock =>
      have taken : Covered { hand with locks := update hand.locks lock true } :=
        covered.acquire lock
      have may : (handRules mode).may (.acquire lock) { hand with pages := acc } := by
        obtain ⟨place, shard, rfl⟩ := shardLock_shard guarded
        exact shield covered
      refine ⟨may, fun _ missing => ⟨⟨.inl taken, follows.1⟩, fun ans possible => ?_⟩⟩
      refine ⟨⟨.inl taken, update_self ..⟩, fun _ _ => ?_⟩
      have further := ih ans (follows.2 ans possible)
      have back : ({ hand with
          pages := pairRules.after op ans acc
          locks := update (update hand.locks lock true) lock false } : Hand) =
            { hand with pages := pairRules.after op ans acc } := by
        rw [update_release missing]
      rw [← back] at further
      exact further

end Rules

section Programs

variable {mode : HeapMode} {hand : Hand} {Result Final : Type}
variable {code : Code Unit}

def Leaves (mode : HeapMode) (pre : Hand) (code : Locked Result) (s' : Hand) : Prop :=
  Follows (handRules mode) code (fun _ later => later = s') pre

theorem Leaves.bind {pre middle s' : Hand} {front : Locked Result}
    {next : Result → Locked Final} (first : Leaves mode pre front middle)
    (further : ∀ r, Leaves mode middle (next r) s') :
    Leaves mode pre (front >>= next) s' :=
  first.andThen fun r _ same => same ▸ further r

theorem covered_leaves (covered : Covered hand) (clean : Clean hand)
    (follows : Follows pairRules code (fun _ => Idle) fun _ => .none) :
    Leaves mode hand (bracket code) hand := by
  have none : hand.pages = fun _ => .none := funext clean.pages
  have start : ({ hand with pages := fun _ => .none } : Hand) = hand := by rw [← none]
  have run := @bracket_follows mode hand Unit code _ _ covered follows
  rw [start] at run
  apply run.mono
  rintro - later ⟨pages, idle, rfl⟩
  rw [idle]
  exact start

theorem bare_leaves (follows : Follows pairRules code (fun _ => Idle) fun _ => .none) :
    Leaves mode emptyHand (bare code) emptyHand := by
  refine ⟨clean_empty, fun _ _ => ?_⟩
  have inside : Clean { emptyHand with bare := true } := ⟨fun _ => rfl, fun _ _ => rfl⟩
  refine (covered_leaves (.inl rfl) inside follows).bind fun _ => ?_
  exact ⟨inside, fun _ _ => rfl⟩

/-- Calls that neither take nor need a lock. -/
def calm : Op → Bool
  | .page _ (.setState _) | .page _ (.handOver _) => true
  | _ => false

def Calm : Code Result → Prop
  | .done _ => True
  | .call op next => calm op = true ∧ ∀ ans, Calm (next ans)

theorem Calm.bind {front : Code Result} {next : Result → Code Final} (first : Calm front)
    (further : ∀ r, Calm (next r)) : Calm (front >>= next) := by
  induction front with
  | done r => exact further r
  | call op rest ih => exact ⟨first.1, fun ans => ih ans (first.2 ans)⟩

theorem calm_forPages {body : Nat → Code Unit} (calls : ∀ i, Calm (body i))
    (pages : List Nat) : Calm (forPages pages body) := by
  induction pages with
  | nil => trivial
  | cons i rest ih => exact (calls i).bind fun _ => ih

theorem calm_serveSpan (pages : List Nat) : Calm (serveSpan pages) := by
  have sets : ∀ i, Calm (on i (.setState .active)) := fun _ => ⟨rfl, fun _ => trivial⟩
  have hands : ∀ i, Calm (on i (.handOver .service)) := fun _ => ⟨rfl, fun _ => trivial⟩
  exact (calm_forPages sets pages).bind fun _ => calm_forPages hands pages

theorem calm_leaves (clean : Clean hand) (quiet : Calm code) :
    Leaves mode hand (bracket code) hand := by
  induction code with
  | done r => exact rfl
  | call op next ih =>
    obtain ⟨kind, further⟩ := quiet
    unfold calm at kind
    split at kind
    · exact ⟨⟨.inr clean, trivial⟩, fun ans _ => ih ans (further ans)⟩
    · exact ⟨⟨.inr clean, trivial⟩, fun ans _ => ih ans (further ans)⟩
    · cases kind

theorem Clean.acquire (clean : Clean hand) (lock : HeapLock) :
    Clean { hand with locks := update hand.locks (.heap lock) true } :=
  ⟨clean.pages, clean.shards⟩

theorem bodyCode_leaves (body : Body) (clean : Clean hand)
    (shelter : Covered hand ∨ body.sheltered = true)
    (h : ∀ lock ∈ body.locks, lock ∈ heapLocks mode) : Leaves mode hand (bodyCode body) hand := by
  have idle : Idle fun _ => Hold.none := rfl
  induction body generalizing hand with
  | done => exact rfl
  | guard lock inner rest first second =>
    have mine : lock ∈ heapLocks mode := h lock mem_cons_self
    refine ⟨⟨.inr clean, mine⟩, fun _ missing => ?_⟩
    -- Inside the scope the new lock is the cover.
    have covered : Covered { hand with locks := update hand.locks (.heap lock) true } :=
      .inr ⟨lock, update_self ..⟩
    have ran := first (clean.acquire lock) (.inl covered) fun j mem =>
      h j (mem_cons_of_mem lock (mem_append_left _ mem))
    refine ran.bind fun _ => ⟨⟨.inl covered, update_self ..⟩, fun _ _ => ?_⟩
    have back : ({ hand with
        locks := update (update hand.locks (.heap lock) true) (.heap lock)
          false } : Hand) = hand := by
      rw [update_release missing]
    have further := second clean shelter fun j mem =>
      h j (mem_cons_of_mem lock (mem_append_right _ mem))
    rw [← back] at further
    exact further.mono fun _ _ same => same.trans back
  | retire pages decommit rest ih =>
    have covered : Covered hand := shelter.resolve_right Bool.false_ne_true
    have ran := (@spans_idle false _ idle pages decommit).1
    refine (covered_leaves covered clean ran).bind fun _ => ?_
    exact ih clean (.inl covered) h
  | serve pages rest ih =>
    exact (calm_leaves clean (calm_serveSpan pages)).bind fun _ => ih clean shelter h

theorem poll_leaves (count : Nat) (clean : Clean hand) (begun : hand.stage ≠ .away) :
    Leaves mode hand (poll count) { hand with stage := .settled } := by
  induction count with
  | zero => exact ⟨⟨clean, begun⟩, fun _ _ => rfl⟩
  | succ left ih =>
    refine ⟨⟨clean, begun⟩, fun inTick _ => ?_⟩
    cases inTick with
    | true => exact ih
    | false => exact rfl

def holdingAll (list : List HeapLock) : Lock → Bool
  | .heap lock => decide (lock ∈ list)
  | .shard _ _ => false

theorem holdingAll_congr {first second : List HeapLock}
    (same : ∀ lock, lock ∈ first ↔ lock ∈ second) : holdingAll first = holdingAll second := by
  funext lock
  cases lock with
  | shard place shard => rfl
  | heap lock => exact decide_eq_decide.mpr (same lock)

def forkHand (stage : Stage) (list : List HeapLock) : Hand where
  pages := fun _ => .none
  locks := holdingAll list
  bare := false
  stage

theorem clean_forkHand (stage : Stage) (list : List HeapLock) : Clean (forkHand stage list) :=
  ⟨fun _ => rfl, fun _ _ => rfl⟩

theorem forkHand_update {list : List HeapLock} (next : List HeapLock) {lock : HeapLock}
    {held : Bool} (mine : decide (lock ∈ next) = held)
    (others : ∀ j ≠ lock, j ∈ list ↔ j ∈ next) :
    ({ forkHand .settled list with
      locks := update (holdingAll list) (.heap lock) held } : Hand) =
      forkHand .settled next := by
  have locks : update (holdingAll list) (.heap lock) held = holdingAll next := by
    funext j
    by_cases same : j = .heap lock
    · subst same
      rw [update_self, holdingAll, mine]
    · rw [update_of_ne same]
      cases j with
      | shard place shard => rfl
      | heap j => exact decide_eq_decide.mpr (others j fun equal => same (equal ▸ rfl))
  rw [locks]
  rfl

/-- A lock that could be taken was not among those taken before, so the list has no lock twice. -/
theorem acquireAll_follows (rest : List HeapLock) {taken : List HeapLock}
    (distinct : taken.Nodup) (h : ∀ lock ∈ rest, lock ∈ heapLocks mode) :
    Follows (handRules mode) (acquireAll rest)
      (fun _ later => later = forkHand .settled (taken ++ rest) ∧ (taken ++ rest).Nodup)
      (forkHand .settled taken) := by
  induction rest generalizing taken with
  | nil =>
    rw [append_nil]
    exact ⟨rfl, distinct⟩
  | cons lock rest ih =>
    refine ⟨⟨.inr (clean_forkHand _ _), h lock mem_cons_self⟩, fun _ missing => ?_⟩
    have fresh : lock ∉ taken := of_decide_eq_false missing
    have longer : (taken ++ [lock]).Nodup := by
      simp [nodup_append, distinct]
      rintro j mem rfl
      exact fresh mem
    have further := ih longer fun j mem => h j (mem_cons_of_mem lock mem)
    rw [append_assoc, singleton_append] at further
    have next := @forkHand_update taken (taken ++ [lock]) lock true (by simp)
      fun j apart => by simp [apart]
    rw [← next] at further
    exact further

theorem releaseAll_leaves {list : List HeapLock} (distinct : list.Nodup) :
    Leaves mode (forkHand .settled list) (releaseAll list) (forkHand .settled []) := by
  induction list with
  | nil => exact rfl
  | cons lock rest ih =>
    obtain ⟨fresh, others⟩ := nodup_cons.mp distinct
    have held : holdingAll (lock :: rest) (.heap lock) = true := by simp [holdingAll]
    refine ⟨⟨.inr (clean_forkHand _ _), held⟩, fun _ _ => ?_⟩
    have next := @forkHand_update (lock :: rest) rest lock false (by simp [fresh])
      fun j apart => by simp [apart]
    have further := ih others
    rw [← next] at further
    exact further

theorem forkCode_leaves (mode : HeapMode) : Leaves mode emptyHand (forkCode mode) emptyHand := by
  have start : forkHand .away [] = emptyHand := by
    simp only [forkHand, emptyHand, Hand.mk.injEq, true_and, and_true]
    funext lock
    cases lock <;> rfl
  rw [← start]
  have waits : Leaves mode (forkHand .away []) pauseForFork (forkHand .settled []) :=
    ⟨clean_forkHand _ _, fun _ _ => poll_leaves 50 (clean_forkHand .paused []) nofun⟩
  refine waits.andThen fun _ later same => ?_
  subst same
  refine (acquireAll_follows (heapLocks mode) nodup_nil fun _ mem => mem).andThen ?_
  rintro - later ⟨rfl, distinct⟩
  rw [nil_append] at distinct ⊢
  refine ⟨⟨clean_forkHand _ _, rfl, fun lock mem => decide_eq_true mem⟩, fun _ _ => ?_⟩
  have order := unlockOrder_perm mode
  have same : forkHand .settled (heapLocks mode) = forkHand .settled (unlockOrder mode) := by
    unfold forkHand
    rw [holdingAll_congr fun lock => order.mem_iff.symm]
  change Leaves mode (forkHand .settled (heapLocks mode)) _ _
  rw [same]
  refine (releaseAll_leaves (order.nodup_iff.mpr distinct)).bind fun _ => ?_
  exact ⟨clean_forkHand _ _, fun _ _ => rfl⟩

end Programs

section Honest

variable {helpers : Nat} {mode : HeapMode} {cfg : Config} {pre s' : State helpers}
variable {hands : Thread → Hand} {tid : Thread}

structure Agrees (mode : HeapMode) (state : State helpers) (hands : Thread → Hand) : Prop where
  pages : LocksAgree false state.pages fun tid => (hands tid).pages
  locks : ∀ tid lock, (hands tid).locks lock = true ↔ state.owner lock = some tid
  known : ∀ lock, state.owner (.heap lock) ≠ none → lock ∈ heapLocks mode
  bare : ∀ tid, (hands tid).bare = true ↔ tid ∈ state.inside
  stage : ∀ tid, (hands tid).stage ≠ .away →
    tid = forkThread helpers ∧ state.dispatch.paused = true
  settled : ∀ tid, (hands tid).stage = .settled → state.settled = true
  rest : ∀ tid, state.running tid = false → hands tid = emptyHand

theorem Agrees.own (agreed : Agrees mode pre hands) {hand : Hand}
    (running : s'.running = pre.running) (runs : pre.running tid = true)
    (pages : LocksAgree false s'.pages
      (update (fun j => (hands j).pages) tid hand.pages))
    (locks : (∀ lock, hand.locks lock = true ↔ s'.owner lock = some tid) ∧
      ∀ j ≠ tid, ∀ lock, s'.owner lock = some j ↔ pre.owner lock = some j)
    (h : ∀ lock, s'.owner (.heap lock) ≠ none → lock ∈ heapLocks mode)
    (bare : (hand.bare = true ↔ tid ∈ s'.inside) ∧
      ∀ j ≠ tid, j ∈ s'.inside ↔ j ∈ pre.inside) (stage : (hand.stage ≠ .away →
        tid = forkThread helpers ∧ s'.dispatch.paused = true) ∧
      (hand.stage = .settled → s'.settled = true))
    (kept : ∀ j ≠ tid, j = forkThread helpers →
      (pre.dispatch.paused = true → s'.dispatch.paused = true) ∧
        (pre.settled = true → s'.settled = true)) :
    Agrees mode s' (update hands tid hand) where
  pages := by
    have changed := funext (Function.apply_update (fun _ has => has.pages) hands tid hand)
    rw [changed]
    exact pages
  locks := (Function.forall_update_iff hands fun j has =>
    ∀ lock, has.locks lock = true ↔ s'.owner lock = some j).mpr
      ⟨locks.1, fun j apart lock =>
        (agreed.locks j lock).trans (locks.2 j apart lock).symm⟩
  known := h
  bare := (Function.forall_update_iff hands fun j has =>
    has.bare = true ↔ j ∈ s'.inside).mpr
      ⟨bare.1, fun j apart => (agreed.bare j).trans (bare.2 j apart).symm⟩
  stage := (Function.forall_update_iff hands fun j has => has.stage ≠ .away →
    j = forkThread helpers ∧ s'.dispatch.paused = true).mpr
      ⟨stage.1, fun j apart begun =>
        have ⟨forker, paused⟩ := agreed.stage j begun
        ⟨forker, (kept j apart forker).1 paused⟩⟩
  settled := (Function.forall_update_iff hands fun j has => has.stage = .settled →
    s'.settled = true).mpr
      ⟨stage.2, fun j apart done =>
        have forker := (agreed.stage j (by rw [done]; exact nofun)).1
        (kept j apart forker).2 (agreed.settled j done)⟩
  rest := by
    intro j resting
    rw [running] at resting
    have apart : j ≠ tid := by
      rintro rfl
      exact Bool.false_ne_true (resting.symm.trans runs)
    rw [update_of_ne apart]
    exact agreed.rest j resting

theorem Agrees.same_pages (agreed : Agrees mode pre hands) : LocksAgree false pre.pages
      (update (fun j => (hands j).pages) tid (hands tid).pages) := by
  rw [update_eq_self]
  exact agreed.pages

theorem Agrees.same_locks (agreed : Agrees mode pre hands) :
    (∀ lock, (hands tid).locks lock = true ↔ pre.owner lock = some tid) ∧
      ∀ j ≠ tid, ∀ lock, pre.owner lock = some j ↔ pre.owner lock = some j :=
  ⟨agreed.locks tid, fun _ _ _ => Iff.rfl⟩

theorem Agrees.same_bare (agreed : Agrees mode pre hands) :
    ((hands tid).bare = true ↔ tid ∈ pre.inside) ∧
      ∀ j ≠ tid, j ∈ pre.inside ↔ j ∈ pre.inside :=
  ⟨agreed.bare tid, fun _ _ => Iff.rfl⟩

theorem Agrees.same_stage (agreed : Agrees mode pre hands) : ((hands tid).stage ≠ .away →
        tid = forkThread helpers ∧ pre.dispatch.paused = true) ∧
      ((hands tid).stage = .settled → pre.settled = true) :=
  ⟨agreed.stage tid, agreed.settled tid⟩

theorem Agrees.relock (agreed : Agrees mode pre hands) {lock : Lock} {owner : Option Thread}
    {held : Bool} (runs : pre.running tid = true) (mine : held = true ↔ owner = some tid)
    (others : ∀ j ≠ tid, owner ≠ some j ∧ pre.owner lock ≠ some j)
    (h : ∀ heap, lock = .heap heap → owner ≠ none → heap ∈ heapLocks mode) :
    Agrees mode { pre with owner := update pre.owner lock owner }
      (update hands tid
        { hands tid with locks := update (hands tid).locks lock held }) := by
  refine agreed.own rfl runs agreed.same_pages ⟨?_, ?_⟩ ?_ agreed.same_bare agreed.same_stage
    fun _ _ _ => ⟨id, id⟩
  · refine (Function.forall_update_iff _ fun j has => has = true ↔
      update pre.owner lock owner j = some tid).mpr ⟨?_, ?_⟩
    · rw [update_self]
      exact mine
    · intro j apart
      rw [update_of_ne apart]
      exact agreed.locks tid j
  · intro j apart
    refine (Function.forall_update_iff _ fun place owner => owner = some j ↔
      pre.owner place = some j).mpr ⟨?_, fun _ _ => Iff.rfl⟩
    exact iff_of_false (others j apart).1 (others j apart).2
  · intro heap taken
    by_cases same : Lock.heap heap = lock
    · exact h heap same.symm (by simpa [same] using taken)
    · exact agreed.known heap (by simpa [update_of_ne same] using taken)

theorem performed_honest {op : LockedOp} {ch : Choice} {ans : LockedAnswer op}
    (agreed : Agrees mode pre hands) (may : (handRules mode).may op (hands tid))
    (ran : performLocked tid op ch pre = some (ans, s')) :
    (handRules mode).possible op ans (hands tid) ∧ Agrees mode s'
        (update hands tid ((handRules mode).after op ans (hands tid))) := by
  unfold performLocked at ran
  split at ran
  next runs =>
    have other_forker : ∀ {changed : Prop}, tid = forkThread helpers →
        ∀ j ≠ tid, j = forkThread helpers → changed :=
      fun mine j apart forker => absurd (forker.trans mine.symm) apart
    cases op with
    | code op =>
      obtain ⟨⟨r, pages⟩, called, same⟩ := Option.map_eq_some_iff.mp ran
      cases same
      obtain ⟨possible, kept⟩ := perform_honest agreed.pages may.2 called
      exact ⟨possible, agreed.own rfl runs kept agreed.same_locks agreed.known
        agreed.same_bare agreed.same_stage fun _ _ _ => ⟨id, id⟩⟩
    | acquire lock =>
      simp only [performRunning] at ran
      split at ran <;> cases ran
      next free =>
      constructor
      · change (hands tid).locks lock = false
        rw [Bool.eq_false_iff]
        intro held
        cases free.symm.trans ((agreed.locks tid lock).mp held)
      · refine agreed.relock runs (iff_of_true rfl rfl) (fun j apart => ?_) ?_
        · exact ⟨fun same => apart (Option.some.inj same).symm, by simp [free]⟩
        · rintro heap rfl -
          exact may.2
    | release lock =>
      cases ran
      have mine := (agreed.locks tid lock).mp may.2
      refine ⟨trivial, agreed.relock runs (iff_of_false nofun nofun)
        (fun j apart => ⟨nofun, fun same => ?_⟩) fun _ _ taken => absurd rfl taken⟩
      exact apart (Option.some.inj (same.symm.trans mine))
    | enter =>
      cases ran
      refine ⟨trivial, agreed.own rfl runs agreed.same_pages agreed.same_locks agreed.known
        ⟨?_, ?_⟩ agreed.same_stage fun _ _ _ => ⟨id, id⟩⟩
      · exact iff_of_true rfl mem_cons_self
      · intro j apart
        simp [apart]
    | leave =>
      cases ran
      refine ⟨trivial, agreed.own rfl runs agreed.same_pages agreed.same_locks agreed.known
        ⟨?_, ?_⟩ agreed.same_stage fun _ _ _ => ⟨id, id⟩⟩
      · exact iff_of_false Bool.false_ne_true (by simp)
      · intro j apart
        simp [apart]
    | pause =>
      simp only [performRunning] at ran
      split at ran <;> cases ran
      next mine =>
      exact ⟨trivial, agreed.own rfl runs agreed.same_pages agreed.same_locks agreed.known
        agreed.same_bare ⟨fun _ => ⟨mine, rfl⟩, nofun⟩ (other_forker mine)⟩
    | readInTick =>
      simp only [performRunning] at ran
      split at ran <;> cases ran
      next mine =>
      refine ⟨trivial, ?_⟩
      have paused := (agreed.stage tid may.2).2
      cases reads : pre.dispatch.inTick with
      | true =>
        refine agreed.own rfl runs agreed.same_pages agreed.same_locks agreed.known
          agreed.same_bare ?_ (other_forker mine)
        refine ⟨fun _ => ⟨mine, paused⟩, fun done => ?_⟩
        simp [agreed.settled tid done]
      | false =>
        exact agreed.own rfl runs agreed.same_pages agreed.same_locks agreed.known
          agreed.same_bare ⟨fun _ => ⟨mine, paused⟩, fun _ => by simp⟩ (other_forker mine)
    | giveUp =>
      simp only [performRunning] at ran
      split at ran <;> cases ran
      next mine =>
      have paused := (agreed.stage tid may.2).2
      exact ⟨trivial, agreed.own rfl runs agreed.same_pages agreed.same_locks agreed.known
        agreed.same_bare ⟨fun _ => ⟨mine, paused⟩, fun _ => rfl⟩ (other_forker mine)⟩
    | fork =>
      cases ran
      exact ⟨trivial, agreed.own rfl runs agreed.same_pages agreed.same_locks agreed.known
        agreed.same_bare agreed.same_stage fun _ _ _ => ⟨id, id⟩⟩
    | resume =>
      simp only [performRunning] at ran
      split at ran <;> cases ran
      next mine =>
      exact ⟨trivial, agreed.own rfl runs agreed.same_pages agreed.same_locks agreed.known
        agreed.same_bare ⟨fun begun => absurd rfl begun, nofun⟩ (other_forker mine)⟩
    | finish =>
      cases ran
      refine ⟨trivial, ?_⟩
      change Agrees mode _ (update hands tid (hands tid))
      rw [update_eq_self]
      refine { agreed with rest := ?_ }
      intro j resting
      by_cases same : j = tid
      · subst same
        exact may
      · exact agreed.rest j (by simpa [update_of_ne same] using resting)
  next => cases ran

end Honest

section Handshake

variable {hs : Nat} {s next : Dispatch.State hs} {ch : Dispatch.Choice}

/-- A coordinator step as the fork handler sees it. The tick is entered only if `paused_` is not
set, and behind `in_tick_`. -/
theorem coordStep_seen (moved : Dispatch.coordStep s ch = some next) : next.paused = s.paused ∧
      (s.paused = true → ticks s.coord = false → ticks next.coord = false) ∧
      ((s.coord.ticking = true → s.inTick = true) →
        next.coord.ticking = true → next.inTick = true) := by
  cases located : s.coord <;>
    simp only [Dispatch.coordStep, Dispatch.dispatchStep, Dispatch.adaptStep, located,
      reduceCtorEq, Option.some.injEq] at moved
  case loop | awake =>
    subst moved
    refine ⟨rfl, fun _ _ => ?_, fun _ ticking => ?_⟩
    · cases s.running <;> rfl
    · cases running : s.running <;> rw [running] at ticking <;> cases ticking
  case enter =>
    subst moved
    exact ⟨rfl, fun _ _ => rfl, fun _ _ => rfl⟩
  case checkPaused =>
    split_ifs at moved with leaves
    · cases moved
      exact ⟨rfl, fun _ _ => rfl, fun h _ => h rfl⟩
    · cases moved
      exact ⟨rfl, fun paused => absurd (.inl paused) leaves, fun h _ => h rfl⟩
  case leave =>
    subst moved
    exact ⟨rfl, fun _ _ => rfl, fun _ ticking => (by cases ticking)⟩
  case readActive todo =>
    cases todo <;> cases moved <;> exact ⟨rfl, fun _ out => (by cases out), fun h _ => h rfl⟩
  case readRunning | await | create =>
    split_ifs at moved <;> cases moved <;> exact ⟨rfl, fun _ out => (by cases out), fun h _ => h rfl⟩
  all_goals
    subst moved
    exact ⟨rfl, fun _ out => (by cases out), fun h _ => h rfl⟩

theorem coordStep_helpers (moved : Dispatch.coordStep s ch = some next) :
    (next.helper = s.helper ∧ next.helpersCreated = s.helpersCreated) ∨
      ∃ below : s.helpersCreated < hs, ∃ helper : Dispatch.Helper, helper.pc = .test ∧
        next.helper = update s.helper ⟨s.helpersCreated, below⟩ helper ∧
        next.helpersCreated = s.helpersCreated + 1 := by
  cases located : s.coord <;>
    simp only [Dispatch.coordStep, Dispatch.dispatchStep, Dispatch.adaptStep, located,
      reduceCtorEq, Option.some.injEq] at moved
  case create wanted =>
    split_ifs at moved with new created
    · cases moved
      exact .inr ⟨new.2, _, rfl, rfl, rfl⟩
    · cases moved
      exact .inl ⟨rfl, rfl⟩
    · cases moved
      exact .inl ⟨rfl, rfl⟩
  case readActive todo => cases todo <;> cases moved <;> exact .inl ⟨rfl, rfl⟩
  case checkPaused | readRunning | await =>
    split_ifs at moved <;> cases moved <;> exact .inl ⟨rfl, rfl⟩
  all_goals
    subst moved
    exact .inl ⟨rfl, rfl⟩

end Handshake

section Runs

variable {helpers : Nat} {mode : HeapMode} {cfg : Config} {pre s' : State helpers}
variable {hands : Thread → Hand} {t : Thread} {pool next : Threads helpers}
variable {code : Locked Unit} {dispatch : Dispatch.State helpers} {event : Dispatch.Event helpers}
variable {job : Job} {op : LockedOp}

/-- A worker starts nothing outside its tick or phase, and every program leaves with empty
hands. -/
theorem jobCode_leaves {started : Shared × Locked Unit}
    (starts : jobCode cfg mode t pre job = some started) :
    (isWorker helpers t = true → works pre t = true) ∧
      SameLocks pre.pages started.1 ∧ Leaves mode emptyHand started.2 emptyHand := by
  have same : SameLocks pre.pages pre.pages := fun _ => ⟨rfl, rfl⟩
  have idle : Idle fun _ => Hold.none := rfl
  cases job with
  | task task =>
    simp only [jobCode] at starts
    split at starts
    next may =>
      obtain ⟨⟨pages, code⟩, launched, rfl⟩ := Option.map_eq_some_iff.mp starts
      obtain ⟨kept, follows⟩ := @launchTask_follows cfg pre.pages pages
        (fun _ _ => .none) t false nofun task code rfl launched
      exact ⟨fun _ => may.2, kept, bare_leaves follows⟩
    next => cases starts
  | fault i =>
    simp only [jobCode] at starts
    split at starts
    next => cases starts
    next app =>
      cases starts
      have neutral := (@handleFault_neutral false cfg i).then fun _ => neutral_pure ()
      exact ⟨fun worker => absurd worker app, same, bare_leaves (neutral.idle idle)⟩
  | discard pages =>
    simp only [jobCode] at starts
    split at starts
    next => cases starts
    next app =>
      cases starts
      have neutral := forPages_neutral (@releaseCompressedPage_neutral false) pages
      exact ⟨fun worker => absurd worker app, same, bare_leaves (neutral.idle idle)⟩
  | allocate body =>
    simp only [jobCode] at starts
    split at starts
    next may =>
      cases starts
      obtain ⟨works, sheltered, h⟩ := may
      exact ⟨works, same, bodyCode_leaves body clean_empty (.inr sheltered) h⟩
    next => cases starts
  | fork =>
    simp only [jobCode] at starts
    split at starts
    next mine =>
      cases starts
      refine ⟨fun worker => ?_, same, forkCode_leaves mode⟩
      have low := of_decide_eq_true worker
      rw [mine] at low
      exact absurd low (Nat.not_succ_le_self helpers)
    next => cases starts

theorem launched_honest (agreed : Agrees mode pre hands) (idle : hands t = emptyHand)
    (launched : launchJob cfg mode t job pre = some (s', code)) : Agrees mode s' hands ∧
      Follows (handRules mode) code (fun _ hand => hand = emptyHand) (hands t) := by
  obtain ⟨started, starts, same⟩ := Option.map_eq_some_iff.mp launched
  cases same
  obtain ⟨-, kept, leaves⟩ := jobCode_leaves starts
  constructor
  · refine { agreed with pages := agreed.pages.of_same kept, rest := ?_ }
    intro j resting
    by_cases same : j = t
    · rw [same]
      exact idle
    · exact agreed.rest j (by simpa [update_of_ne same] using resting)
  · rw [idle]
    exact leaves.bind fun _ => ⟨rfl, fun _ _ => rfl⟩

theorem outside_paused (proceeds : proceeds pre event = true)
    (moved : Dispatch.step pre.dispatch event = some dispatch) :
    dispatch.paused = pre.dispatch.paused := by
  cases event with
  | stop =>
    cases moved
    rfl
  | pause => cases proceeds
  | resume => cases proceeds
  | coord ch => exact (coordStep_seen moved).1
  | helper id =>
    obtain ⟨_, -, -, -, -, -, -, paused, -⟩ := Dispatch.helperStep_effect moved
    exact paused

theorem happened_honest {event : Outside helpers} (agreed : Agrees mode pre hands)
    (happened : outside event pre = some s') : Agrees mode s' hands := by
  cases event with
  | app event =>
    obtain ⟨pages, changed, rfl⟩ := Option.map_eq_some_iff.mp happened
    have same := environment_same changed
    exact { agreed with pages := agreed.pages.of_same same }
  | dispatch event =>
    simp only [outside] at happened
    split at happened
    next proceeds =>
      obtain ⟨dispatch, moved, rfl⟩ := Option.map_eq_some_iff.mp happened
      have paused := outside_paused proceeds moved
      refine { agreed with stage := fun t begun => ?_ }
      rw [paused]
      exact agreed.stage t begun
    next => cases happened

theorem handRules_honest (cfg : Config) (mode : HeapMode) (helpers : Nat) :
    Honest (forkSystem cfg mode helpers) (handRules mode) (Agrees mode)
      (fun hand => hand = emptyHand) where
  performed := performed_honest
  launched := launched_honest
  happened := happened_honest

/-- Workers run tasks only where they may, a tick is behind `in_tick_`, and once the wait has
ended the coordinator stays outside. -/
structure Ordered (state : State helpers) : Prop where
  coord : state.running coordThread = true → ticks state.dispatch.coord = true
  helper : ∀ id : Fin helpers, state.running (helperThread id) = true →
    executes (state.dispatch.helper id).pc = true
  tick : state.dispatch.coord.ticking = true → state.dispatch.inTick = true
  absent : ∀ id : Fin helpers, state.dispatch.helpersCreated ≤ id →
    (state.dispatch.helper id).pc = .absent
  quiet : state.settled = true →
    state.dispatch.paused = true ∧ ticks state.dispatch.coord = false
  heirs : ∀ child ∈ state.children, Inherits helpers child

theorem ticking_of_ticks {pc : CoordPc} (inside : ticks pc = true) : pc.ticking = true := by
  cases pc <;> first | rfl | cases inside

/-- Outside a tick `in_tick_` can be set only by a coordinator that is about to see the pause. -/
theorem Ordered.rests (ordered : Ordered pre) (clear : pre.dispatch.inTick = false) :
    ticks pre.dispatch.coord = false := by
  rw [Bool.eq_false_iff]
  intro inside
  have set := ordered.tick (ticking_of_ticks inside)
  exact Bool.false_ne_true (clear.symm.trans set)

theorem Ordered.performed (ordered : Ordered pre) {ch : Choice} {ans : LockedAnswer op}
    (paused : op = .readInTick ∨ op = .giveUp → pre.dispatch.paused = true)
    (waited : op = .giveUp → pre.dispatch.inTick = false)
    (heir : op = .fork → Inherits helpers (image pre))
    (ran : performLocked t op ch pre = some (ans, s')) : Ordered s' := by
  unfold performLocked at ran
  split at ran
  next runs =>
    cases op with
    | code op =>
      obtain ⟨r, _, same⟩ := Option.map_eq_some_iff.mp ran
      cases same
      exact { ordered with }
    | acquire lock =>
      simp only [performRunning] at ran
      split at ran <;> cases ran
      exact { ordered with }
    | release lock =>
      cases ran
      exact { ordered with }
    | enter =>
      cases ran
      exact { ordered with }
    | leave =>
      cases ran
      exact { ordered with }
    | pause =>
      simp only [performRunning] at ran
      split at ran <;> cases ran
      exact { ordered with quiet := fun settled => ⟨rfl, (ordered.quiet settled).2⟩ }
    | readInTick =>
      simp only [performRunning] at ran
      split at ran <;> cases ran
      refine { ordered with quiet := fun settled => ⟨paused (.inl rfl), ?_⟩ }
      rcases Bool.or_eq_true_iff.mp settled with earlier | now
      · exact (ordered.quiet earlier).2
      · exact ordered.rests (by simpa using now)
    | giveUp =>
      simp only [performRunning] at ran
      split at ran <;> cases ran
      exact { ordered with
        quiet := fun _ => ⟨paused (.inr rfl), ordered.rests (waited rfl)⟩ }
    | fork =>
      cases ran
      refine { ordered with heirs := fun child mem => ?_ }
      rcases mem_cons.mp mem with rfl | earlier
      · exact heir rfl
      · exact ordered.heirs child earlier
    | resume =>
      simp only [performRunning] at ran
      split at ran <;> cases ran
      exact { ordered with quiet := nofun }
    | finish =>
      cases ran
      have lower : ∀ j, update pre.running t false j = true →
          pre.running j = true := by
        intro j running
        by_cases same : j = t
        · rw [same]
          exact runs
        · rwa [update_of_ne same] at running
      exact { ordered with
        coord := fun running => ordered.coord (lower _ running)
        helper := fun id running => ordered.helper id (lower _ running) }
  next => cases ran

theorem works_coord (s : State helpers) : works s coordThread = ticks s.dispatch.coord := by
  simp [works]

theorem works_helper (s : State helpers) (id : Fin helpers) :
    works s (helperThread id) = executes (s.dispatch.helper id).pc := by
  simp [works, helperThread, coordThread]

theorem Ordered.launched (ordered : Ordered pre)
    (launched : launchJob cfg mode t job pre = some (s', code)) : Ordered s' := by
  obtain ⟨started, starts, same⟩ := Option.map_eq_some_iff.mp launched
  cases same
  have may := (jobCode_leaves starts).1
  have runs : ∀ j, isWorker helpers j = true →
      update pre.running t true j = true →
      pre.running j = true ∨ works pre j = true := by
    intro j worker running
    by_cases same : j = t
    · subst same
      exact .inr (may worker)
    · left
      rwa [update_of_ne same] at running
  refine { ordered with coord := fun running => ?_, helper := fun id running => ?_ }
  · rcases runs coordThread (decide_eq_true (Nat.zero_le helpers)) running with earlier | now
    · exact ordered.coord earlier
    · rwa [works_coord] at now
  · rcases runs (helperThread id) (decide_eq_true id.isLt) running with earlier | now
    · exact ordered.helper id earlier
    · rwa [works_helper] at now

theorem Ordered.dispatched (ordered : Ordered pre) (proceeds : proceeds pre event = true)
    (moved : Dispatch.step pre.dispatch event = some dispatch) : Ordered { pre with dispatch } := by
  cases event with
  | stop =>
    cases moved
    exact { ordered with }
  | pause => cases proceeds
  | resume => cases proceeds
  | coord ch =>
    obtain ⟨paused, stays, ticking⟩ := coordStep_seen moved
    have resting : pre.running coordThread ≠ true := by simpa [ForkLocks.proceeds] using proceeds
    refine
      { coord := fun running => absurd running resting, helper := ?_
        tick := ticking ordered.tick, absent := ?_, quiet := ?_, heirs := ordered.heirs }
    · intro id running
      have executing := ordered.helper id running
      rcases coordStep_helpers moved with ⟨same, -⟩ | ⟨below, helper, -, same, -⟩
      · rw [same]
        exact executing
      · -- A helper that is created now was absent, so it runs nothing.
        have apart : id ≠ ⟨pre.dispatch.helpersCreated, below⟩ := by
          rintro rfl
          rw [ordered.absent _ (Nat.le_refl _)] at executing
          cases executing
        rw [same, update_of_ne apart]
        exact executing
    · intro id uncreated
      rcases coordStep_helpers moved with ⟨same, count⟩ | ⟨below, helper, -, same, count⟩
      · rw [same]
        exact ordered.absent id (count ▸ uncreated)
      · have later : pre.dispatch.helpersCreated + 1 ≤ id := count ▸ uncreated
        have apart : id ≠ ⟨pre.dispatch.helpersCreated, below⟩ := by
          rintro rfl
          exact absurd later (Nat.not_succ_le_self _)
        rw [same, update_of_ne apart]
        exact ordered.absent id (Nat.le_of_succ_le later)
    · intro settled
      obtain ⟨waits, out⟩ := ordered.quiet settled
      exact ⟨paused.trans waits, stays waits out⟩
  | helper id =>
    obtain ⟨helper, -, coord, created, same, -, -, paused, inTick, present⟩ :=
      Dispatch.helperStep_effect moved
    have resting : pre.running (helperThread id) ≠ true := by
      simpa [ForkLocks.proceeds] using proceeds
    refine
      { coord := fun running => coord ▸ ordered.coord running, helper := ?_
        tick := fun ticking => inTick.trans (ordered.tick (coord ▸ ticking)), absent := ?_
        quiet := ?_, heirs := ordered.heirs }
    · intro j running
      have apart : j ≠ id := by
        rintro rfl
        exact resting running
      rw [same, update_of_ne apart]
      exact ordered.helper j running
    · intro j uncreated
      have pre := ordered.absent j (created ▸ uncreated)
      have apart : j ≠ id := by
        rintro rfl
        exact present pre
      rw [same, update_of_ne apart]
      exact pre
    · intro settled
      obtain ⟨waits, out⟩ := ordered.quiet settled
      exact ⟨paused.trans waits, coord ▸ out⟩

theorem Ordered.happened (ordered : Ordered pre) {event : Outside helpers}
    (happened : outside event pre = some s') : Ordered s' := by
  cases event with
  | app event =>
    obtain ⟨pages, _, rfl⟩ := Option.map_eq_some_iff.mp happened
    exact { ordered with }
  | dispatch event =>
    simp only [outside] at happened
    split at happened
    next proceeds =>
      obtain ⟨dispatch, moved, rfl⟩ := Option.map_eq_some_iff.mp happened
      exact ordered.dispatched proceeds moved
    next => cases happened

theorem shielded_of_may {hand : Hand} (may : (handRules mode).may op hand) : Shielded hand := by
  cases op with
  | code op => exact may.1
  | acquire lock =>
    cases lock with
    | shard place shard => exact may
    | heap lock => exact may.1
  | release lock => exact may.1
  | enter => exact .inr may
  | leave => exact .inr may
  | pause => exact .inr may
  | readInTick => exact .inr may.1
  | giveUp => exact .inr may.1
  | fork => exact .inr may.1
  | resume => exact .inr may
  | finish => exact .inr (may ▸ clean_empty)

theorem Ordered.worker_rests (ordered : Ordered pre) (settled : pre.settled = true)
    (quiesced : ∀ id, executes (pre.dispatch.helper id).pc = false)
    (worker : isWorker helpers t = true) : pre.running t = false := by
  rw [Bool.eq_false_iff]
  intro running
  have low := of_decide_eq_true worker
  cases t with
  | zero =>
    have inside := ordered.coord running
    exact Bool.false_ne_true ((ordered.quiet settled).2.symm.trans inside)
  | succ number =>
    have inside := ordered.helper ⟨number, low⟩ running
    exact Bool.false_ne_true ((quiesced _).symm.trans inside)

/-- Every thread's account is kept, and threads that rest have nothing. -/
abbrev Accounted (mode : HeapMode) (pool : Threads helpers) : Prop :=
  Balanced (handRules mode) (Agrees mode) (fun hand => hand = emptyHand) pool

/-- At the fork the forking thread has every heap lock, so any other thread is in open code, which
the condition excludes, or holds nothing. -/
theorem inherits_of_quiesced (ordered : Ordered pool.shared) (bal : Accounted mode pool)
    {rest : Unit → Locked Unit} (forks : pool.code t = .call .fork rest)
    (executing : ∀ id, executes (pool.shared.dispatch.helper id).pc = false)
    (open_code : ∀ j ∈ pool.shared.inside, isWorker helpers j = true) :
    Inherits helpers (image pool.shared) := by
  obtain ⟨hands, agreed, follows⟩ := bal
  have mine := follows t
  rw [forks] at mine
  obtain ⟨-, stage, all⟩ := mine.1
  obtain ⟨forker, -⟩ := agreed.stage t (by rw [stage]; exact nofun)
  have settled := agreed.settled t stage
  have heapless : ∀ j ≠ t, ∀ lock, (hands j).locks (.heap lock) ≠ true := by
    intro j apart lock held
    have owner := (agreed.locks j _).mp held
    have h := agreed.known lock (by rw [owner]; exact nofun)
    have also := (agreed.locks t _).mp (all lock h)
    exact apart (Option.some.inj (owner.symm.trans also))
  have clean : ∀ j ≠ t, Clean (hands j) := by
    intro j apart
    by_cases worker : isWorker helpers j = true
    · rw [agreed.rest j (ordered.worker_rests settled executing worker)]
      exact clean_empty
    · have bare : (hands j).bare ≠ true := fun bare =>
        worker (open_code j ((agreed.bare j).mp bare))
      have runs := follows j
      cases code : pool.code j with
      | done r =>
        rw [code] at runs
        have empty : hands j = emptyHand := runs
        rw [empty]
        exact clean_empty
      | call op further =>
        rw [code] at runs
        rcases shielded_of_may runs.1 with (open_now | ⟨lock, held⟩) | clean
        · exact absurd open_now bare
        · exact absurd held (heapless j apart lock)
        · exact clean
  constructor
  · intro i j taken
    by_contra apart
    have foreign : j ≠ t := fun same => apart (same.trans forker)
    exact (agreed.pages.holder j i).mpr taken ((clean j foreign).pages i)
  · intro lock j taken
    by_contra apart
    have foreign : j ≠ t := fun same => apart (same.trans forker)
    have held := (agreed.locks j lock).mpr taken
    cases lock with
    | shard place shard =>
      exact Bool.false_ne_true (((clean j foreign).shards place shard).symm.trans held)
    | heap lock => exact heapless j foreign lock held

theorem begun_ordered (helpers created workers pages : Nat) :
    Ordered (begun helpers created workers pages).shared where
  coord := nofun
  helper := nofun
  tick := nofun
  absent := by
    intro id uncreated
    exact if_neg (Nat.not_lt.mpr uncreated)
  quiet := nofun
  heirs := nofun

theorem begun_balanced (helpers created workers pages : Nat) :
    Accounted mode (begun helpers created workers pages) := by
  refine ⟨fun _ => emptyHand, ?_, fun _ => rfl⟩
  constructor
  · exact ⟨fun _ _ => iff_of_false (fun held => held rfl) nofun, nofun⟩
  · exact fun _ _ => iff_of_false nofun nofun
  · exact fun _ taken => absurd rfl taken
  · exact fun _ => iff_of_false nofun nofun
  · exact fun _ begun => absurd rfl begun
  · exact nofun
  · exact fun _ _ => rfl

theorem step_ordered {move : Move Thread Choice Job (Outside helpers)}
    (bal : Accounted mode pool) (ordered : Ordered pool.shared) (quiesced : Quiesced pool move)
    (moved : Program.step (forkSystem cfg mode helpers) pool move = some next) :
    Ordered next.shared := by
  cases moved_of_step moved with
  | @advance t _ op _ _ _ running ran =>
    simp only [Quiesced, running] at quiesced
    have begins : ∃ hands, Agrees mode pool.shared hands ∧
        (handRules mode).may op (hands t) := by
      obtain ⟨hands, agreed, follows⟩ := bal
      have here := follows t
      rw [running] at here
      exact ⟨hands, agreed, here.1⟩
    refine ordered.performed ?_ ?_ ?_ ran
    · obtain ⟨hands, agreed, may⟩ := begins
      rintro (rfl | rfl)
      · exact (agreed.stage t may.2).2
      · exact (agreed.stage t may.2).2
    · rintro rfl
      exact quiesced
    · rintro rfl
      exact inherits_of_quiesced ordered bal running quiesced.1 quiesced.2
  | launch _ launched => exact ordered.launched launched
  | event happened => exact ordered.happened happened

/-- In every run in which the wait does not run out in a tick and every fork meets no helper in a
phase and no application thread in open compressor code, a child finds no lock of a thread that
it does not have. -/
theorem fork_inherits_no_foreign_lock (cfg : Config) (mode : HeapMode)
    {created workers pages : Nat} {moves : List (Move Thread Choice Job (Outside helpers))}
    (may : Along (Program.step (forkSystem cfg mode helpers)) Quiesced
      (begun helpers created workers pages) moves)
    (ran : exec (Program.step (forkSystem cfg mode helpers))
      (begun helpers created workers pages) moves = some pool) :
    ∀ child ∈ pool.shared.children, Inherits helpers child := by
  have preserved : ∀ {pool next : Threads helpers}
      {move : Move Thread Choice Job (Outside helpers)},
      (Accounted mode pool ∧ Ordered pool.shared) → Quiesced pool move →
      Program.step (forkSystem cfg mode helpers) pool move = some next →
      (Accounted mode next ∧ Ordered next.shared) := fun h quiesced moved =>
    ⟨h.1.step (handRules_honest cfg mode helpers) moved,
      step_ordered h.1 h.2 quiesced moved⟩
  have both := invariant_of_along preserved
    ⟨begun_balanced helpers created workers pages, begun_ordered helpers created workers pages⟩
    may ran
  exact both.2.heirs

end Runs

section Examples

def compressOnly : HeapMode := ⟨true, 1, false⟩

abbrev Moves := List (Move Thread Choice Job (Outside 1))

def coordinate (count : Nat) : Moves := List.replicate count (.event (.dispatch (.coord {})))

def proceed (t : Thread) (count : Nat) : Moves := List.replicate count (.advance t {})

/-- A thread allocates and is done. The coordinator has published `in_tick_` when the forking thread
pauses it, sees the pause and leaves; the second poll finds `in_tick_` clear. -/
def politeMoves : Moves :=
  [.launch 3 (.allocate (.guard .bootstrap .done .done))] ++ proceed 3 3 ++
    coordinate 3 ++ [.launch 2 .fork] ++ proceed 2 2 ++ coordinate 2 ++
    proceed 2 (1 + (heapLocks compressOnly).length + 1)

theorem fork_inherits_polite :
    ∃ pool, exec (Program.step (forkSystem plainConfig compressOnly 1)) (begun 1 0 1 1) politeMoves =
        some pool ∧ pool.shared.children.length = 1 ∧
      ∀ child ∈ pool.shared.children, Inherits 1 child := by
  have shown : (exec (Program.step (forkSystem plainConfig compressOnly 1)) (begun 1 0 1 1)
      politeMoves).map (·.shared.children.length) = some 1 := by decide +kernel
  obtain ⟨pool, ran, count⟩ := Option.map_eq_some_iff.mp shown
  have may : Along (Program.step (forkSystem plainConfig compressOnly 1)) Quiesced
      (begun 1 0 1 1) politeMoves := by decide +kernel
  exact ⟨pool, ran, count, fork_inherits_no_foreign_lock plainConfig compressOnly may ran⟩

/-- Another thread is in the fault handler and has the page's lock; pause and heap locks do not
touch it. -/
def faultingMoves : Moves :=
  [.launch 3 (.fault 0)] ++ proceed 3 3 ++ [.launch 2 .fork] ++
    proceed 2 (2 + (heapLocks compressOnly).length + 1)

theorem child_inherits_page_lock :
    ∃ pool, exec (Program.step (forkSystem plainConfig compressOnly 1)) (begun 1 0 1 1)
        faultingMoves = some pool ∧
      ∃ child ∈ pool.shared.children, child.page 0 = some 3 ∧ ¬ Inherits 1 child := by
  have shown : (exec (Program.step (forkSystem plainConfig compressOnly 1)) (begun 1 0 1 1)
      faultingMoves).map (fun pool => pool.shared.children.map (·.page 0)) =
        some [some 3] := by decide +kernel
  obtain ⟨pool, ran, same⟩ := Option.map_eq_some_iff.mp shown
  have listed : some 3 ∈ pool.shared.children.map (·.page 0) := by simp [same]
  obtain ⟨child, mem, held⟩ := mem_map.mp listed
  refine ⟨pool, ran, child, mem, held, fun inherits => ?_⟩
  exact absurd (inherits.page 0 3 held) (by decide)

end Examples

end Smash.ForkLocks
