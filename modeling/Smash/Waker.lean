import Mathlib.Logic.Function.Basic
import Smash.Transition

/-! `Waker`, on which smash's background threads park, under any number of threads. Every mutex
operation, every evaluation of a predicate and every broadcast is one step; a wait may also end
by its timeout or without reason. -/
namespace Smash.Waker

open Function Transition

inductive Stage where
  | outside
  -- In `waitUntil`; the mutex is held while testing, parking and leaving.
  | entering
  | testing
  | parking
  | parked
  | woken (timedOut : Bool)
  | leaving
  -- From an announced change to the end of `notifyAll`.
  | changed
  | notifying
  | signalling
  deriving DecidableEq

structure State (Thread Data : Type) where
  data : Data
  mutex : Option Thread
  stage : Thread → Stage

inductive Label (Thread Data : Type) where
  | waitUntil (t : Thread)
  | change (t : Thread) (data : Data)
  -- A change that no `notifyAll` follows.
  | silent (data : Data)
  | wake (t : Thread) (timedOut : Bool)
  | move (t : Thread)

variable {Thread Data : Type} [DecidableEq Thread]

namespace State

def goTo (s : State Thread Data) (t : Thread) (stage : Stage) : State Thread Data :=
  { s with stage := update s.stage t stage }

def lock (s : State Thread Data) (t : Thread) (stage : Stage) : Option (State Thread Data) :=
  if s.mutex = none then some { s.goTo t stage with mutex := some t } else none

def unlock (s : State Thread Data) (t : Thread) (stage : Stage) : State Thread Data :=
  { s.goTo t stage with mutex := none }

def broadcast (s : State Thread Data) : State Thread Data :=
  { s with stage := fun t => if s.stage t = .parked then .woken false else s.stage t }

end State

variable (ready : Thread → Data → Bool)

def move (s : State Thread Data) (t : Thread) : Stage → Option (State Thread Data)
  | .outside | .parked => none
  | .entering => s.lock t .testing
  | .testing => some (s.goTo t (if ready t s.data then .leaving else .parking))
  | .parking => some (s.unlock t .parked)
  | .woken timedOut => s.lock t (if timedOut then .leaving else .testing)
  | .leaving => some (s.unlock t .outside)
  | .changed => s.lock t .notifying
  | .notifying => some (s.unlock t .signalling)
  | .signalling => some (s.broadcast.goTo t .outside)

def step (s : State Thread Data) : Label Thread Data → Option (State Thread Data)
  | .waitUntil t => if s.stage t = .outside then some (s.goTo t .entering) else none
  | .change t data =>
    if s.stage t = .outside then some ({ s with data }.goTo t .changed) else none
  | .silent data => some { s with data }
  | .wake t timedOut => if s.stage t = .parked then some (s.goTo t (.woken timedOut)) else none
  | .move t => move ready s t (s.stage t)

def Stage.Holds : Stage → Bool
  | .testing | .parking | .leaving | .notifying => true
  | _ => false

def Stage.Notifies : Stage → Bool
  | .changed | .notifying | .signalling => true
  | _ => false

/-- What `waitUntil` asks of its users: a change that makes a predicate true is announced. -/
def Announced (s : State Thread Data) : Label Thread Data → Prop
  | .silent data => ∀ t, ready t data = true → ready t s.data = true
  | _ => True

/-- A thread that found its predicate false and has not parked yet holds the mutex, so whoever
made it true since then still has to take it. -/
structure Sound (s : State Thread Data) : Prop where
  holder : ∀ t, (s.stage t).Holds = true ↔ s.mutex = some t
  parking : ∀ t, s.stage t = .parking → ready t s.data = true → ∃ j, s.stage j = .changed
  parked : ∀ t, s.stage t = .parked → ready t s.data = true → ∃ j, (s.stage j).Notifies = true

variable {ready} {s next : State Thread Data} {label : Label Thread Data}

theorem step_sound (sound : Sound ready s) (announced : Announced ready s label)
    (moved : step ready s label = some next) : Sound ready next := by
  obtain ⟨holder, parking, parked⟩ := sound
  cases label with
  | silent data =>
    cases moved
    exact ⟨holder, fun t here now => parking t here (announced t now),
      fun t here now => parked t here (announced t now)⟩
  | waitUntil t | change t data | wake t timedOut =>
    simp only [step] at moved
    split_ifs at moved with here
    cases moved
    constructor <;> simp only [State.goTo, update_apply] <;> grind [Stage.Holds, Stage.Notifies]
  | move t =>
    simp only [step] at moved
    cases located : s.stage t <;> simp only [move, located, State.lock, reduceCtorEq] at moved
    all_goals try split_ifs at moved
    -- `notifyAll` gets the mutex only while nobody is between its test and its wait.
    all_goals
      cases moved
      constructor <;> simp only [State.goTo, State.unlock, State.broadcast, update_apply] <;>
        grind [Stage.Holds, Stage.Notifies]

omit [DecidableEq Thread] in
theorem sound_of_outside {data : Data} : Sound ready ⟨data, none, fun _ => .outside⟩ :=
  ⟨by simp [Stage.Holds], by simp, by simp⟩

/-- No wake-up is lost: once every `notifyAll` is over, a thread is parked only if its predicate
is false. -/
theorem parked_not_ready {data : Data} {labels : List (Label Thread Data)} {t : Thread}
    (announced : Along (step ready) (Announced ready) ⟨data, none, fun _ => .outside⟩ labels)
    (ran : exec (step ready) ⟨data, none, fun _ => .outside⟩ labels = some s)
    (calm : ∀ j, (s.stage j).Notifies = false) (parked : s.stage t = .parked) :
    ready t s.data = false := by
  have sound := invariant_of_along step_sound sound_of_outside announced ran
  simpa [calm] using sound.parked t parked

def parkUnset : List (Label Bool Bool) :=
  [.waitUntil true, .silent false, .move true, .move true, .move true]

theorem parked_not_ready_unset : ∃ s, exec (step fun _ => id) ⟨true, none, fun _ => .outside⟩
      parkUnset = some s ∧ s.stage true = .parked ∧ s.data = false := by
  have announced : Along (step fun _ => id) (Announced fun _ => id)
      ⟨true, none, fun _ => .outside⟩ parkUnset :=
    ⟨trivial, by simp [Announced], trivial, trivial, trivial, trivial⟩
  exact ⟨_, rfl, rfl, parked_not_ready (t := true) announced rfl (by decide) rfl⟩

end Smash.Waker
