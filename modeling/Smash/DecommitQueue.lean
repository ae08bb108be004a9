import Smash.VmRegion
import Smash.Waker

/-! The wake-up of the decommit thread. Any number of threads push released runs, and a push calls
`notifyAll` only if it found the queue empty; whoever drains takes the whole queue. An entry is
linked by its owner before it is pushed, so the queue is the list of its entries; their addresses,
which the compare-exchange looks at, may come back after a drain. -/
namespace Smash.DecommitQueue

open Function Transition

structure Node where
  addr : Nat
  entry : VmRegion.DecommitEntry
  deriving DecidableEq

inductive Pc where
  | idle
  -- In `queueForDecommit`, before loading the head and before a compare-exchange.
  | load (node : Node)
  | swap (node : Node) (head : Option Nat)
  -- Draining, with the rest of the batch.
  | exchange
  | drain (batch : List Node)
  deriving DecidableEq

structure Queue (Thread : Type) where
  region : VmRegion.Region
  nodes : List Node
  running : Bool
  pc : Thread → Pc

variable {Thread : Type} [DecidableEq Thread]

namespace Queue

def head (q : Queue Thread) : Option Nat := q.nodes.head?.map Node.addr

def goTo (q : Queue Thread) (t : Thread) (pc : Pc) : Queue Thread :=
  { q with pc := update q.pc t pc }

/-- What the decommit thread parks for. -/
def ready (q : Queue Thread) : Bool := q.head.isSome || !q.running

end Queue

abbrev State (Thread : Type) := Waker.State Thread (Queue Thread)

inductive Event (Thread : Type) where
  | queueForDecommit (t : Thread) (node : Node)
  -- An iteration of the decommit thread, or the drain of a stop, a failed start or a fork.
  | drain (t : Thread)
  | stop (t : Thread)
  | move (t : Thread) (spurious : Bool)
  | wake (t : Thread) (timedOut : Bool)

variable (drainer : Thread)

/-- One step of a thread outside the waker, as the steps of the waker it is made of. -/
def move (q : Queue Thread) (t : Thread) (spurious : Bool) :
    Pc → List (Waker.Label Thread (Queue Thread))
  | .idle => []
  | .load node => [.silent (q.goTo t (.swap node q.head))]
  | .swap node head =>
    if q.head = head ∧ spurious = false then
      let pushed := { q with nodes := node :: q.nodes }.goTo t .idle
      if head = none then [.change t pushed] else [.silent pushed]
    else [.silent (q.goTo t (.swap node q.head))]
  | .exchange =>
    if q.nodes = [] then .silent (q.goTo t .idle) :: if t = drainer then [.waitUntil t] else []
    else [.silent ({ q with nodes := [] }.goTo t (.drain q.nodes))]
  | .drain [] => [.silent (q.goTo t .idle)]
  | .drain (node :: batch) =>
    let region := VmRegion.processDecommitEntry q.region node.entry
    [.silent ({ q with region }.goTo t (.drain batch))]

/-- The thread is in no call. -/
def free (s : State Thread) (t : Thread) : Bool := s.stage t = .outside ∧ s.data.pc t = .idle

def labels (s : State Thread) : Event Thread → List (Waker.Label Thread (Queue Thread))
  | .queueForDecommit t node => if free s t then [.silent (s.data.goTo t (.load node))] else []
  | .drain t =>
    if free s t ∧ (t = drainer → s.data.running) then [.silent (s.data.goTo t .exchange)] else []
  | .stop t =>
    if free s t ∧ s.data.running then [.change t { s.data with running := false }] else []
  | .move t spurious =>
    if s.stage t = .outside then move drainer s.data t spurious (s.data.pc t) else [.move t]
  | .wake t timedOut => [.wake t timedOut]

def step (s : State Thread) (event : Event Thread) : Option (State Thread) :=
  exec (Waker.step fun _ => Queue.ready) s (labels drainer s event)

def initial (region : VmRegion.Region) : State Thread :=
  ⟨⟨region, [], true, fun _ => .idle⟩, none, fun _ => .outside⟩

variable {drainer} {s : State Thread} {event : Event Thread}

/-- Neither a drain nor a push on a queue that is not empty makes the predicate true. -/
theorem labels_announced : Along (Waker.step fun _ => Queue.ready)
    (Waker.Announced fun _ => Queue.ready) s (labels drainer s event) := by
  cases event with
  | queueForDecommit t node | drain t | stop t =>
    simp only [labels]
    split_ifs
    · exact along_one.mpr (by simp [Waker.Announced, Queue.ready, Queue.head, Queue.goTo])
    · trivial
  | wake t timedOut => exact along_one.mpr trivial
  | move t spurious =>
    simp only [labels]
    split_ifs
    case neg => exact along_one.mpr trivial
    cases s.data.pc t with
    | idle => trivial
    | load node => exact along_one.mpr fun _ now => now
    | swap node head =>
      simp only [move]
      split_ifs with swapped empty
      · exact along_one.mpr trivial
      · refine along_one.mpr fun _ _ => ?_
        simp [Queue.ready, swapped.1, Option.isSome_iff_ne_none.mpr empty]
      · exact along_one.mpr fun _ now => now
    | exchange =>
      simp only [move]
      split_ifs
      · exact ⟨fun _ now => now, along_one.mpr trivial⟩
      · exact along_one.mpr fun _ now => now
      · refine along_one.mpr fun _ stopped => ?_
        simp only [Queue.ready, Queue.head, Queue.goTo] at stopped ⊢
        exact Bool.or_eq_true_iff.mpr (.inr stopped)
    | drain batch => cases batch <;> exact along_one.mpr fun _ now => now

/-- While no `notifyAll` is under way, a parked decommit thread has nothing to do. -/
theorem parked_drainer_idle {region : VmRegion.Region} {events : List (Event Thread)} {t : Thread}
    (ran : exec (step drainer) (initial region) events = some s) (parked : s.stage t = .parked)
    (calm : ∀ j, (s.stage j).Notifies = false) : s.data.nodes = [] ∧ s.data.running = true := by
  have sound : Waker.Sound (fun _ => Queue.ready) s := by
    refine invariant (fun sound moved => ?_) Waker.sound_of_outside ran
    exact invariant_of_along Waker.step_sound sound labels_announced moved
  simpa [calm, Queue.ready, Queue.head] using sound.parked t parked

def parkAgain (entry : VmRegion.DecommitEntry) : List (Event Bool) :=
  let moves t n := List.replicate n (Event.move t false)
  [.drain true] ++ moves true 4 ++ [.queueForDecommit false ⟨7, entry⟩] ++ moves false 5 ++
    moves true 3 ++ [.drain true] ++ moves true 3 ++ [.drain true] ++ moves true 4

theorem parked_drainer_idle_again :
    ∃ s, exec (step true) (initial (VmRegion.init 8)) (parkAgain ⟨⟨0, 1⟩, 0⟩) = some s ∧
      s.data.region.freeList 0 = [⟨0, 1⟩] ∧ s.data.nodes = [] ∧ s.data.running = true := by
  obtain ⟨s, ran, found⟩ := Option.map_eq_some_iff.mp
    (show (exec (step true) (initial (VmRegion.init 8)) (parkAgain ⟨⟨0, 1⟩, 0⟩)).map
        (fun s => (s.stage true, s.stage false, s.data.region.freeList 0)) =
      some (.parked, .outside, [⟨0, 1⟩]) by decide +kernel)
  simp only [Prod.mk.injEq] at found
  obtain ⟨parked, out, freed⟩ := found
  refine ⟨s, ran, freed, parked_drainer_idle ran parked fun j => ?_⟩
  cases j <;> simp [parked, out, Waker.Stage.Notifies]

end Smash.DecommitQueue
