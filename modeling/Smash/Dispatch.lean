import Mathlib.Data.Fintype.Basic
import Smash.MachineWord
import Smash.Transition

/-! The threads of the compressor: the coordinator with its ticks, `dispatch` and
`adaptWorkerCount`, the helpers, `stop` and the fork pause. Each load, store and atomic update
is one step of one thread. A phase is entered and left in two steps, so a helper is seen at
work. The waker only bounds how long a helper sleeps: a parked helper may wake at any time. -/
namespace Smash.Dispatch

open MachineWord Transition

inductive Phase where
  | access
  | compress
  | monitor
  | reclaim
  deriving DecidableEq, Repr

structure Job where
  gen : Nat
  phase : Phase
  workers : Nat
  deriving DecidableEq, Repr

inductive CoordPc where
  | loop
  | awake
  | enter
  | checkPaused
  | readActive (todo : List Phase)
  | readRunning (workers : Nat) (phase : Phase) (rest : List Phase)
  | alone (rest : List Phase)
  | storePhase (workers : Nat) (phase : Phase) (rest : List Phase)
  | bump (workers : Nat) (phase : Phase) (rest : List Phase)
  | ownPhase (job : Job) (rest : List Phase)
  | loadTarget (job : Job) (rest : List Phase)
  | await (job : Job) (target helper : Nat) (rest : List Phase)
  | adapt
  | create (wanted : Nat)
  | storeActive (wanted : Nat)
  | leave
  | exited
  deriving DecidableEq, Repr

inductive HelperPc where
  | absent
  | test
  | readGen
  | park
  | readActive (gen : Nat)
  | readPhase (gen : Nat)
  | executing (gen : Nat) (phase : Phase)
  | ack (gen : Nat)
  | exited
  deriving DecidableEq, Repr

structure Helper where
  pc : HelperPc
  lastGen : Nat
  doneGen : Nat
  deriving DecidableEq, Repr

structure Execution (helpers : Nat) where
  helper : Fin helpers
  gen : Nat
  phase : Phase
  deriving DecidableEq, Repr

structure State (helpers : Nat) where
  running : Bool
  paused : Bool
  inTick : Bool
  activeWorkers : Nat
  workGen : Nat
  currentPhase : Phase
  helpersCreated : Nat
  coord : CoordPc
  helper : Fin helpers → Helper
  -- History: the phases helpers have started, and the dispatches that have returned.
  log : List (Execution helpers)
  returned : List Job

structure Choice where
  committed : Bool := true
  deferPhases : Bool := false
  deferredReclaim : Bool := true
  monitor : Bool := true
  wanted : Nat := 1
  created : Bool := true
  deriving DecidableEq, Repr

scoped instance neZeroTwo : NeZero 2 := ⟨by decide⟩

inductive Event (helpers : Nat) where
  | stop
  | pause
  | resume
  | coord (choice : Choice)
  | helper (id : Fin helpers)
  deriving DecidableEq, Repr

variable {hs : Nat}

def tickPhases (ch : Choice) : List Phase :=
  [.access] ++ (if !ch.deferPhases && ch.deferredReclaim then [.reclaim] else []) ++
    (if !ch.deferPhases then [.compress] else []) ++
    (if !ch.deferPhases && ch.monitor then [.monitor] else [])

def State.setHelper (s : State hs) (id : Fin hs) (helper : Helper) : State hs :=
  { s with helper := Function.update s.helper id helper }

section Coordinator

/-- `dispatch`, from the read of `active_workers_` to its return. -/
def dispatchStep (s : State hs) : CoordPc → Option (State hs)
  | .readActive [] => some { s with coord := .adapt }
  | .readActive (phase :: rest) =>
    some { s with coord := .readRunning s.activeWorkers phase rest }
  | .readRunning workers phase rest =>
    if s.running = true ∧ 1 < workers then
      some { s with coord := .storePhase workers phase rest }
    else some { s with coord := .alone rest }
  | .alone rest => some { s with coord := .readActive rest }
  | .storePhase workers phase rest =>
    some { s with currentPhase := phase, coord := .bump workers phase rest }
  | .bump workers phase rest =>
    let gen := fetchAdd s.workGen 1
    some { s with workGen := gen, coord := .ownPhase ⟨gen, phase, workers⟩ rest }
  | .ownPhase job rest => some { s with coord := .loadTarget job rest }
  | .loadTarget job rest => some { s with coord := .await job s.workGen 0 rest }
  | .await job target helper rest =>
    if within : helper + 1 < job.workers ∧ helper < hs then
      if target ≤ (s.helper ⟨helper, within.2⟩).doneGen then
        some { s with coord := .await job target (helper + 1) rest }
      else some s
    else some { s with returned := job :: s.returned, coord := .readActive rest }
  | _ => none

/-- `adaptWorkerCount`: the wanted count is clamped, missing helpers are created while
`pthread_create` succeeds, then `active_workers_` is set. -/
def adaptStep (s : State hs) (ch : Choice) : CoordPc → Option (State hs)
  | .adapt => some { s with coord := .create (max 1 (min ch.wanted (hs + 1))) }
  | .create wanted =>
    if new : s.helpersCreated + 1 < wanted ∧ s.helpersCreated < hs then
      if ch.created then
        some { s.setHelper ⟨s.helpersCreated, new.2⟩ ⟨.test, 0,
            (s.helper ⟨s.helpersCreated, new.2⟩).doneGen⟩ with
          helpersCreated := s.helpersCreated + 1 }
      else some { s with coord := .storeActive (min wanted (s.helpersCreated + 1)) }
    else some { s with coord := .storeActive (min wanted (s.helpersCreated + 1)) }
  | .storeActive wanted => some { s with activeWorkers := wanted, coord := .leave }
  | _ => none

def coordStep (s : State hs) (ch : Choice) : Option (State hs) :=
  match s.coord with
  | .loop => some { s with coord := if s.running then .awake else .exited }
  | .awake => some { s with coord := if s.running then .enter else .exited }
  | .enter => some { s with inTick := true, coord := .checkPaused }
  | .checkPaused =>
    if s.paused ∨ ch.committed = false then some { s with coord := .leave }
    else some { s with coord := .readActive (tickPhases ch) }
  | .leave => some { s with inTick := false, coord := .loop }
  | .exited => none
  | .adapt => adaptStep s ch .adapt
  | .create wanted => adaptStep s ch (.create wanted)
  | .storeActive wanted => adaptStep s ch (.storeActive wanted)
  | pc => dispatchStep s pc

end Coordinator

/-- `helperEntry`; the worker index of helper `id` is `id + 1`. -/
def helperStep (s : State hs) (id : Fin hs) : Option (State hs) :=
  let helper := s.helper id
  match helper.pc with
  | .absent | .exited => none
  | .test =>
    some (s.setHelper id { helper with pc := if s.running then .readGen else .exited })
  | .readGen =>
    if s.workGen = helper.lastGen then some (s.setHelper id { helper with pc := .park })
    else
      some (s.setHelper id
        { helper with pc := .readActive s.workGen, lastGen := s.workGen })
  | .park => some (s.setHelper id { helper with pc := .test })
  | .readActive gen =>
    some (s.setHelper id
      { helper with pc := if id + 1 < s.activeWorkers then .readPhase gen else .ack gen })
  | .readPhase gen =>
    some { s.setHelper id { helper with pc := .executing gen s.currentPhase } with
      log := ⟨id, gen, s.currentPhase⟩ :: s.log }
  | .executing gen _ => some (s.setHelper id { helper with pc := .ack gen })
  | .ack gen => some (s.setHelper id { helper with pc := .test, doneGen := gen })

def step (s : State hs) : Event hs → Option (State hs)
  | .stop => some { s with running := false }
  | .pause => some { s with paused := true }
  | .resume => some { s with paused := false }
  | .coord ch => coordStep s ch
  | .helper id => helperStep s id

/-- After `start`, which may have been able to create only some of the helpers. -/
def initial (hs created workers : Nat) : State hs where
  running := true
  paused := false
  inTick := false
  activeWorkers := workers
  workGen := 0
  currentPhase := .access
  helpersCreated := created
  coord := .loop
  helper := fun id => ⟨if id.val < created then .test else .absent, 0, 0⟩
  log := []
  returned := []

end Smash.Dispatch
