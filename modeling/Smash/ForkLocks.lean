import Smash.CompressStore
import Smash.CompressingStates
import Smash.Dispatch

/-! The locks a forked child inherits. Four kinds of threads share one state: the coordinator and
the helpers, which run the compressor's tasks while they are in a tick; application threads,
which fault and which allocate and free under the heap's locks; and the forking thread, whose
handlers pause the compressor, take every heap lock and fork. A page task is the program of the
compressor's model, with the shard lock of a blob store around each call of the store. -/
namespace Smash.ForkLocks

open Program PageMachine Compressor Function
open CompressStore (Shard shardOf)
open Dispatch (CoordPc HelperPc)

section Locks

/-- The heap's locks: of a slab, of the large-block allocator and its cache, of the slab's leaf
structures, of the page region, and of the single tables. -/
inductive HeapLock where
  | slab (idx : Nat)
  | large
  | bucket (idx : Nat)
  | magazine (idx : Nat)
  | pendingPool (idx : Nat)
  | freeShard (idx : Nat)
  | commit
  | decommitPool
  | pageMap
  | imageTable
  | threadStates
  | cachePool
  | bootstrap
  deriving DecidableEq

def kNumClasses : Nat := 36

def kNumFreeShards : Nat := 64

/-- `kUsedBuckets + 1`: eight page counts, and eight steps for each power of two up to 8 MiB. -/
def kBuckets : Nat := 73

structure HeapMode where
  compressOnly : Bool
  totalArenas : Nat
  /-- The build keeps thread states in a TSD slot. -/
  tsd : Bool

def HeapMode.slabs (mode : HeapMode) : List Nat := List.range (mode.totalArenas * kNumClasses)

def slabLocks (mode : HeapMode) : List HeapLock := mode.slabs.map .slab

def bucketLocks : List HeapLock := (List.range kBuckets).map .bucket

/-- `lockLeafForFork` of every slab. -/
def leafLocks (mode : HeapMode) : List HeapLock :=
  mode.slabs.flatMap fun i => [.magazine i, .pendingPool i]

def shardLocks : List HeapLock := (List.range kNumFreeShards).map .freeShard

def stateLocks (mode : HeapMode) : List HeapLock := if mode.tsd then [.threadStates] else []

def allocLocks (mode : HeapMode) : List HeapLock :=
  slabLocks mode ++ [.large] ++ bucketLocks ++ leafLocks mode

/-- The locks in the order in which `SmashHeap::lock` takes them. -/
def heapLocks (mode : HeapMode) : List HeapLock :=
  (if mode.compressOnly then [] else allocLocks mode) ++ shardLocks ++
    [.commit, .decommitPool, .pageMap, .imageTable] ++ stateLocks mode ++ [.cachePool, .bootstrap]

/-- The order in which `SmashHeap::unlock` gives them back. -/
def unlockOrder (mode : HeapMode) : List HeapLock :=
  [.bootstrap, .cachePool] ++ stateLocks mode ++
    [.imageTable, .pageMap, .decommitPool, .commit] ++ shardLocks.reverse ++
    if mode.compressOnly then []
    else (leafLocks mode).reverse ++ bucketLocks ++ [.large] ++ (slabLocks mode).reverse

inductive Lock where
  | shard (place : Place) (shard : Shard)
  | heap (lock : HeapLock)
  deriving DecidableEq

end Locks

section Calls

/-- A call of the compressor's model, of a lock, or of the fork handlers. `enter` and `leave` are
history: between them a thread runs compressor code without a heap lock around it. -/
inductive LockedOp where
  | code (op : Op)
  | acquire (lock : Lock)
  | release (lock : Lock)
  | enter
  | leave
  | pause
  | readInTick
  /-- The end of the bounded wait. -/
  | giveUp
  | fork
  | resume
  | finish

abbrev LockedAnswer : LockedOp → Type
  | .code op => Answer op
  | .readInTick => Bool
  | _ => Unit

abbrev Locked := Prog LockedOp LockedAnswer

def act (op : LockedOp) : Locked (LockedAnswer op) := .call op .done

/-- `store` and `release` of either blob store hold the lock of the page's shard. -/
def shardLock : Op → Option Lock
  | .page i (.store place _) | .page i (.release place _) =>
    some (.shard place (shardOf i))
  | _ => none

def bracket {Result : Type} : Code Result → Locked Result
  | .done r => .done r
  | .call op next =>
    match shardLock op with
    | none => .call (.code op) fun ans => bracket (next ans)
    | some lock =>
      .call (.acquire lock) fun _ =>
        .call (.code op) fun ans =>
          .call (.release lock) fun _ => bracket (next ans)

/-- Compressor code that no heap lock surrounds. -/
def bare (code : Code Unit) : Locked Unit := do
  act .enter
  bracket code
  act .leave

/-- What an allocator call does with locks: it holds a lock for a scope, and in a scope retires
an empty span, whose pages it takes from the compressor, or serves a new one. -/
inductive Body where
  | done
  | guard (lock : HeapLock) (inner rest : Body)
  | retire (pages : List Nat) (decommit : Bool) (rest : Body)
  | serve (pages : List Nat) (rest : Body)

def bodyCode : Body → Locked Unit
  | .done => .done ()
  | .guard lock inner rest => do
      act (.acquire (.heap lock))
      bodyCode inner
      act (.release (.heap lock))
      bodyCode rest
  | .retire pages decommit rest => do
      bracket (retireEmptySpan decommit pages)
      bodyCode rest
  | .serve pages rest => do
      bracket (serveSpan pages)
      bodyCode rest

/-- Slabs retire their spans under the slab's lock. -/
def Body.sheltered : Body → Bool
  | .done => true
  | .guard _ _ rest => rest.sheltered
  | .retire .. => false
  | .serve _ rest => rest.sheltered

def Body.locks : Body → List HeapLock
  | .done => []
  | .guard lock inner rest => lock :: inner.locks ++ rest.locks
  | .retire _ _ rest | .serve _ rest => rest.locks

/-- `for (i = 0; i < n && in_tick_.load(); ++i) usleep(1000);` -/
def poll : Nat → Locked Unit
  | 0 => act .giveUp
  | left + 1 => do
      if ← act .readInTick then poll left else pure ()

def acquireAll : List HeapLock → Locked Unit
  | [] => pure ()
  | lock :: rest => do
      act (.acquire (.heap lock))
      acquireAll rest

def releaseAll : List HeapLock → Locked Unit
  | [] => pure ()
  | lock :: rest => do
      act (.release (.heap lock))
      releaseAll rest

def pauseForFork : Locked Unit := do
  act .pause
  poll 50

/-- The handlers around `fork()` in the parent. -/
def forkCode (mode : HeapMode) : Locked Unit := do
  pauseForFork
  acquireAll (heapLocks mode)
  act .fork
  releaseAll (unlockOrder mode)
  act .resume

end Calls

section System

variable {helpers : Nat}

structure Image where
  page : Nat → Option Thread
  lock : Lock → Option Thread

structure State (helpers : Nat) where
  pages : Shared
  owner : Lock → Option Thread
  dispatch : Dispatch.State helpers
  children : List Image
  -- History: threads in bare compressor code, threads in a program, and that the wait has ended.
  inside : List Thread
  running : Thread → Bool
  settled : Bool

/-- The coordinator is thread 0, a helper comes right after its number, then the forking thread;
all further threads are the application's. -/
def coordThread : Thread := 0

def helperThread (id : Fin helpers) : Thread := id + 1

def forkThread (helpers : Nat) : Thread := helpers + 1

def image (s : State helpers) : Image where
  page := fun i => (s.pages.page i).lock
  lock := s.owner

def performRunning (t : Thread) :
    (op : LockedOp) → Choice → State helpers → Option (LockedAnswer op × State helpers)
  | .code op, ch, s =>
    (perform t op ch s.pages).map fun r =>
      (r.1, { s with pages := r.2 })
  | .acquire lock, _, s =>
    if s.owner lock = none then
      some ((), { s with owner := update s.owner lock (some t) })
    else none
  | .release lock, _, s =>
    some ((), { s with owner := update s.owner lock none })
  | .enter, _, s => some ((), { s with inside := t :: s.inside })
  | .leave, _, s =>
    some ((), { s with inside := s.inside.filter fun j => j ≠ t })
  | .pause, _, s =>
    if t = forkThread helpers then
      some ((), { s with dispatch := { s.dispatch with paused := true } })
    else none
  | .readInTick, _, s =>
    if t = forkThread helpers then
      some (s.dispatch.inTick,
        { s with settled := s.settled || !s.dispatch.inTick })
    else none
  | .giveUp, _, s =>
    if t = forkThread helpers then some ((), { s with settled := true }) else none
  | .fork, _, s => some ((), { s with children := image s :: s.children })
  | .resume, _, s =>
    if t = forkThread helpers then
      some ((), { s with
        dispatch := { s.dispatch with paused := false }
        settled := false })
    else none
  | .finish, _, s =>
    some ((), { s with running := update s.running t false })

def performLocked (t : Thread) (op : LockedOp) (ch : Choice) (s : State helpers) :
    Option (LockedAnswer op × State helpers) :=
  if s.running t then performRunning t op ch s else none

def ticks : CoordPc → Bool
  | .loop | .awake | .enter | .checkPaused | .leave | .exited => false
  | _ => true

def executes : HelperPc → Bool
  | .executing _ _ => true
  | _ => false

def works (s : State helpers) (t : Thread) : Bool :=
  if t = coordThread then ticks s.dispatch.coord
  else if below : t - 1 < helpers then executes (s.dispatch.helper ⟨t - 1, below⟩).pc
  else false

def isWorker (helpers : Nat) (t : Thread) : Bool := decide (t ≤ helpers)

inductive Job where
  | task (task : Task)
  | fault (idx : Nat)
  /-- The release hook of `LargeAlloc::deallocate`, which holds no lock. -/
  | discard (pages : List Nat)
  | allocate (body : Body)
  | fork

/-- The program of a job, if the thread may start it. -/
def jobCode (cfg : Config) (mode : HeapMode) (t : Thread) (s : State helpers) :
    Job → Option (Shared × Locked Unit)
  | .task task =>
    if isWorker helpers t ∧ works s t then
      (launchTask cfg t task s.pages).map fun started =>
        (started.1, bare started.2)
    else none
  | .fault i =>
    if isWorker helpers t then none
    else
      some (s.pages, bare do
        let _ ← handleFault cfg i
        pure ())
  | .discard pages =>
    if isWorker helpers t then none
    else some (s.pages, bare (releaseCompressedPages pages))
  | .allocate body =>
    if (isWorker helpers t → works s t) ∧ body.sheltered ∧
        ∀ lock ∈ body.locks, lock ∈ heapLocks mode then
      some (s.pages, bodyCode body)
    else none
  | .fork => if t = forkThread helpers then some (s.pages, forkCode mode) else none

def launchJob (cfg : Config) (mode : HeapMode) (t : Thread) (job : Job)
    (s : State helpers) : Option (State helpers × Locked Unit) :=
  (jobCode cfg mode t s job).map fun started =>
    ({ s with
        pages := started.1
        running := update s.running t true },
      do
        started.2
        act .finish)

inductive Outside (helpers : Nat) where
  | app (event : PageMachine.Event)
  | dispatch (event : Dispatch.Event helpers)

/-- A worker thread takes its next step outside its task once the task is finished. -/
def proceeds (s : State helpers) : Dispatch.Event helpers → Bool
  | .stop => true
  | .pause | .resume => false
  | .coord _ => !s.running coordThread
  | .helper id => !s.running (helperThread id)

def outside : Outside helpers → State helpers → Option (State helpers)
  | .app event, s =>
    (environment event s.pages).map fun pages => { s with pages }
  | .dispatch event, s =>
    if proceeds s event then
      (Dispatch.step s.dispatch event).map fun dispatch => { s with dispatch }
    else none

def forkSystem (cfg : Config) (mode : HeapMode) (helpers : Nat) :
    System LockedOp LockedAnswer Thread Choice (State helpers) Job (Outside helpers) where
  perform := performLocked
  launch := launchJob cfg mode
  environment := outside

abbrev Threads (helpers : Nat) := Pool LockedOp LockedAnswer Thread (State helpers)

def begun (helpers created workers pages : Nat) : Threads helpers where
  shared :=
    { pages := boot pages
      owner := fun _ => none
      dispatch := Dispatch.initial helpers created workers
      children := []
      inside := []
      running := fun _ => false
      settled := false }
  code := fun _ => .done ()

end System

section Statement

variable {helpers : Nat}

/-- Every lock the child finds taken is its own thread's. -/
structure Inherits (helpers : Nat) (child : Image) : Prop where
  page : ∀ idx tid, child.page idx = some tid → tid = forkThread helpers
  lock : ∀ lock tid, child.lock lock = some tid → tid = forkThread helpers

/-- The wait does not run out in a tick, and at the fork no helper is in a phase and no thread of
the application is in the fault handler or in a release hook without a lock. -/
def Quiesced (pool : Threads helpers) : Move Thread Choice Job (Outside helpers) → Prop
  | .advance t _ =>
    match pool.code t with
    | .call .giveUp _ => pool.shared.dispatch.inTick = false
    | .call .fork _ =>
      (∀ id, executes (pool.shared.dispatch.helper id).pc = false) ∧
        ∀ j ∈ pool.shared.inside, isWorker helpers j = true
    | _ => True
  | _ => True

instance (pool : Threads helpers) (move : Move Thread Choice Job (Outside helpers)) :
    Decidable (Quiesced pool move) := by
  unfold Quiesced
  split
  · split <;> infer_instance
  · infer_instance

end Statement

end Smash.ForkLocks
