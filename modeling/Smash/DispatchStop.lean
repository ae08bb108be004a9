import Mathlib.Algebra.BigOperators.Fin
import Smash.DispatchSafety

/-! What `stop` does to a dispatch in progress. A helper leaves its loop as soon as it sees
`running_` cleared, also when a generation it has to acknowledge is already published. -/
namespace Smash.Dispatch

open MachineWord Transition Function

variable {helpers : Nat}

section Property

/-- The coordinator waits in `dispatch` for a helper that has left its loop. -/
def Abandoned (s : State helpers) : Prop :=
  ∃ job target rest, ∃ id : Fin helpers, s.coord = .await job target id rest ∧
    id + 1 < job.workers ∧ (s.helper id).doneGen < target ∧ (s.helper id).pc = .exited

def Joined (s : State helpers) : Prop :=
  s.coord = .exited ∧
    ∀ id, (s.helper id).pc = .exited ∨ (s.helper id).pc = .absent

def Event.ofThread : Event helpers → Bool
  | .coord _ | .helper _ => true
  | _ => false

/-- From here on the threads take a bounded number of steps, and when none of them can take
another one all have ended. -/
def Ends (s : State helpers) : Prop :=
  ∃ bound, ∀ events final, exec step s events = some final →
    events.countP Event.ofThread ≤ bound ∧
      ((∀ event : Event helpers, event.ofThread = true → step final event = none) → Joined final)

/-- Between its check of `running_` and its return, `dispatch` relies on the helpers. -/
def CoordPc.relying : CoordPc → Bool
  | .storePhase _ _ _ | .bump _ _ _ | .ownPhase _ _ | .loadTarget _ _ | .await _ _ _ _ => true
  | _ => false

/-- `stop` clears `running_` only while no dispatch relies on the helpers. -/
def StopsBetween (s : State helpers) : Event helpers → Prop
  | .stop => s.coord.relying = false
  | _ => True

instance (s : State helpers) : DecidablePred (StopsBetween s)
  | .stop => inferInstanceAs (Decidable (s.coord.relying = false))
  | .pause | .resume | .coord _ | .helper _ => isTrue trivial

end Property

section Running

variable {state next : State helpers}

/-- A dispatch that relies on helpers found `running_` set, and it still is; helpers leave only
once it is cleared. -/
structure Manned (state : State helpers) : Prop where
  running : state.coord.relying = true → state.running = true
  staying : ∀ id, (state.helper id).pc = .exited → state.running = false

theorem Manned.not_abandoned (manned : Manned state) : ¬ Abandoned state := by
  rintro ⟨job, target, rest, id, located, -, -, exited⟩
  have running := manned.running (by rw [located]; rfl)
  rw [manned.staying id exited] at running
  cases running

/-- A coordinator step that relies on the helpers afterwards did so before, or has just found
`running_` set; the helpers stay where they are, but for one that may be created. -/
theorem coordStep_effect {ch : Choice} (moved : coordStep state ch = some next) :
    next.running = state.running ∧
      (next.coord.relying = true → state.coord.relying = true ∨ state.running = true) ∧
      ∀ id, (next.helper id).pc = (state.helper id).pc ∨ (next.helper id).pc = .test := by
  cases located : state.coord <;>
    simp only [coordStep, dispatchStep, adaptStep, located, reduceCtorEq, Option.some.injEq]
      at moved
  case readActive todo => cases todo <;> cases moved <;> simp [CoordPc.relying]
  case create wanted =>
    split_ifs at moved with new created
    · cases moved
      refine ⟨rfl, by simp [State.setHelper, located, CoordPc.relying], fun id => ?_⟩
      by_cases same : id = ⟨state.helpersCreated, new.2⟩
      · simp [State.setHelper, same]
      · simp [State.setHelper, update_of_ne same]
    · cases moved
      simp [CoordPc.relying]
    · cases moved
      simp [CoordPc.relying]
  case loop =>
    subst moved
    exact ⟨rfl, by split_ifs <;> simp [CoordPc.relying], fun _ => .inl rfl⟩
  case awake =>
    subst moved
    exact ⟨rfl, by split_ifs <;> simp [CoordPc.relying], fun _ => .inl rfl⟩
  case readRunning workers phase rest =>
    split_ifs at moved with found
    · cases moved
      exact ⟨rfl, fun _ => .inr found.1, fun _ => .inl rfl⟩
    · cases moved
      simp [CoordPc.relying]
  case checkPaused =>
    split_ifs at moved <;> cases moved <;> simp [CoordPc.relying]
  case await job target helper rest =>
    split_ifs at moved <;> cases moved <;> simp [CoordPc.relying, located]
  all_goals
    cases moved
    simp [CoordPc.relying]

/-- How many steps are left for a helper once `running_` is cleared. -/
def helperWork : HelperPc → Nat
  | .absent | .exited => 0
  | .test => 1
  | .park | .ack _ => 2
  | .executing _ _ => 3
  | .readPhase _ => 4
  | .readActive _ => 5
  | .readGen => 6

/-- A helper's step changes the helper; once `running_` is cleared it comes closer to its end. -/
theorem helperStep_effect {id : Fin helpers} (moved : helperStep state id = some next) :
    ∃ helper, next.running = state.running ∧ next.coord = state.coord ∧
      next.helpersCreated = state.helpersCreated ∧ next.helper = update state.helper id helper ∧
      (helper.pc = .exited → state.running = false) ∧
      (state.running = false → helperWork helper.pc < helperWork (state.helper id).pc) ∧
      next.paused = state.paused ∧ next.inTick = state.inTick ∧ (state.helper id).pc ≠ .absent := by
  cases located : (state.helper id).pc <;>
    simp only [helperStep, located, reduceCtorEq, Option.some.injEq] at moved
  case readGen =>
    split_ifs at moved <;> cases moved <;>
      exact ⟨_, rfl, rfl, rfl, rfl, by simp, fun _ => by simp [helperWork], rfl, rfl, by simp⟩
  case test =>
    subst moved
    refine ⟨_, rfl, rfl, rfl, rfl, ?_, ?_, rfl, rfl, by simp⟩ <;>
      cases state.running <;> simp [helperWork]
  case readActive gen =>
    subst moved
    refine ⟨_, rfl, rfl, rfl, rfl, ?_, ?_, rfl, rfl, by simp⟩ <;> split_ifs <;> simp [helperWork]
  all_goals
    subst moved
    exact ⟨_, rfl, rfl, rfl, rfl, by simp, fun _ => by simp [helperWork], rfl, rfl, by simp⟩

theorem step_manned {event : Event helpers} (manned : Manned state)
    (between : StopsBetween state event) (moved : step state event = some next) : Manned next := by
  cases event with
  | stop =>
    cases moved
    exact ⟨fun relying => absurd relying (by simp [show state.coord.relying = false from between]),
      fun _ _ => rfl⟩
  | pause | resume =>
    cases moved
    exact ⟨manned.running, manned.staying⟩
  | coord ch =>
    obtain ⟨running, relying, helpers⟩ := coordStep_effect moved
    refine ⟨fun now => ?_, fun id exited => ?_⟩
    · rw [running]
      exact (relying now).elim manned.running fun found => found
    · rw [running]
      rcases helpers id with same | started
      · exact manned.staying id (same.symm.trans exited)
      · rw [started] at exited
        cases exited
  | helper id =>
    obtain ⟨helper, running, coord, -, changed, leaves, -⟩ := helperStep_effect moved
    refine ⟨fun now => ?_, fun j exited => ?_⟩
    · rw [running]
      exact manned.running (coord ▸ now)
    · rw [running]
      rw [changed] at exited
      by_cases same : j = id
      · subst same
        rw [update_self] at exited
        exact leaves exited
      · rw [update_of_ne same] at exited
        exact manned.staying j exited

end Running

section Ending

variable {state next : State helpers}

/-- How many steps are left for the coordinator once `running_` is cleared; a helper it creates
is paid for here. -/
def coordWork (helpers created : Nat) : CoordPc → Nat
  | .loop | .awake => 1
  | .leave => 2
  | .storeActive _ => 3
  | .create wanted => 4 + 2 * (wanted - 1 - created)
  | .adapt => 5 + 2 * helpers
  | .readActive todo => 6 + 2 * helpers + 3 * todo.length
  | .alone rest => 7 + 2 * helpers + 3 * rest.length
  | .readRunning _ _ rest => 8 + 2 * helpers + 3 * rest.length
  | .checkPaused => 19 + 2 * helpers
  | .enter => 20 + 2 * helpers
  | _ => 0

def remaining (state : State helpers) : Nat :=
  coordWork helpers state.helpersCreated state.coord +
    ∑ id, helperWork (state.helper id).pc

theorem sum_update (helper : Fin helpers → Helper) (id : Fin helpers) (new : Helper) :
    (∑ j, helperWork (update helper id new j).pc) + helperWork (helper id).pc =
      (∑ j, helperWork (helper j).pc) + helperWork new.pc := by
  have split := fun f : Fin helpers → Helper =>
    Finset.add_sum_erase Finset.univ (fun j => helperWork (f j).pc) (Finset.mem_univ id)
  have rest : ∑ j ∈ Finset.univ.erase id, helperWork (update helper id new j).pc =
      ∑ j ∈ Finset.univ.erase id, helperWork (helper j).pc :=
    Finset.sum_congr rfl fun j mem => by
      rw [update_of_ne (Finset.ne_of_mem_erase mem)]
  have pre := split helper
  have s' := split (update helper id new)
  rw [update_self, rest] at s'
  omega

theorem tickPhases_length (ch : Choice) : (tickPhases ch).length ≤ 4 := by
  unfold tickPhases
  split_ifs <;> simp

theorem coordStep_remaining {ch : Choice} (stopped : state.running = false)
    (free : state.coord.relying = false) (moved : coordStep state ch = some next) :
    remaining next < remaining state := by
  cases located : state.coord <;>
    simp only [coordStep, dispatchStep, adaptStep, located, reduceCtorEq, Option.some.injEq,
      stopped, Bool.false_eq_true, if_false, false_and, CoordPc.relying] at moved free
  case create wanted =>
    split_ifs at moved with new created
    · cases moved
      have paid := sum_update state.helper ⟨state.helpersCreated, new.2⟩ ⟨.test, 0,
        (state.helper ⟨state.helpersCreated, new.2⟩).doneGen⟩
      simp only [remaining, State.setHelper, located, coordWork, helperWork] at paid ⊢
      omega
    · cases moved
      simp only [remaining, located, coordWork]
      omega
    · cases moved
      simp only [remaining, located, coordWork]
      omega
  case checkPaused =>
    have short := tickPhases_length ch
    split_ifs at moved <;> cases moved <;> simp only [remaining, located, coordWork] <;> omega
  case readActive todo =>
    cases todo <;> cases moved <;>
      simp only [remaining, located, coordWork, List.length_cons, List.length_nil] <;> omega
  all_goals
    cases moved
    simp only [remaining, located, coordWork]
    omega

theorem helperStep_remaining {id : Fin helpers} (stopped : state.running = false)
    (moved : helperStep state id = some next) : remaining next < remaining state := by
  obtain ⟨helper, -, coord, created, changed, -, closer, -⟩ := helperStep_effect moved
  have less := closer stopped
  have paid := sum_update state.helper id helper
  unfold remaining
  rw [coord, created, changed]
  omega

/-- The shared flag stays cleared and the coordinator never relies on helpers again. -/
structure Stopped (state : State helpers) : Prop where
  stopped : state.running = false
  free : state.coord.relying = false

theorem step_stopped {event : Event helpers} (halted : Stopped state)
    (moved : step state event = some next) :
    Stopped next ∧ remaining next + (if event.ofThread then 1 else 0) ≤ remaining state := by
  cases event with
  | stop =>
    cases moved
    exact ⟨⟨rfl, halted.free⟩, Nat.le_refl _⟩
  | pause | resume =>
    cases moved
    exact ⟨⟨halted.stopped, halted.free⟩, Nat.le_refl _⟩
  | coord ch =>
    obtain ⟨running, relying, -⟩ := coordStep_effect moved
    refine ⟨⟨running.trans halted.stopped, ?_⟩,
      coordStep_remaining halted.stopped halted.free moved⟩
    by_contra relies
    rcases relying (by simpa using relies) with pre | pre
    · rw [halted.free] at pre
      cases pre
    · rw [halted.stopped] at pre
      cases pre
  | helper id =>
    obtain ⟨helper, running, coord, -⟩ := helperStep_effect moved
    exact ⟨⟨running.trans halted.stopped, coord ▸ halted.free⟩,
      helperStep_remaining halted.stopped moved⟩

theorem exec_stopped {events : List (Event helpers)} {final : State helpers}
    (halted : Stopped state) (ran : exec step state events = some final) :
    events.countP Event.ofThread + remaining final ≤ remaining state := by
  induction events generalizing state with
  | nil =>
    cases ran
    simp
  | cons event rest ih =>
    obtain ⟨middle, moved, tail⟩ := exec_cons.mp ran
    obtain ⟨still, less⟩ := step_stopped halted moved
    have further := ih still tail
    rw [List.countP_cons]
    omega

theorem joined_of_stuck
    (stuck : ∀ event : Event helpers, event.ofThread = true → step state event = none) :
    Joined state := by
  constructor
  · have blocked := stuck (.coord {}) rfl
    cases located : state.coord <;>
      simp only [step, coordStep, dispatchStep, adaptStep, located, reduceCtorEq] at blocked ⊢
    case readActive todo => cases todo <;> cases blocked
    all_goals
      split_ifs at blocked
  · intro id
    have blocked := stuck (.helper id) rfl
    cases located : (state.helper id).pc <;>
      simp only [step, helperStep, located, reduceCtorEq, or_false, or_true, or_self] at blocked ⊢
    split_ifs at blocked

theorem Stopped.ends (halted : Stopped state) : Ends state := by
  refine ⟨remaining state, fun events final ran => ⟨?_, joined_of_stuck⟩⟩
  have bounded := exec_stopped halted ran
  omega

end Ending

section Runs

theorem stop_joins {created workers : Nat} {events : List (Event helpers)} {s : State helpers}
    (between : Along step StopsBetween (initial helpers created workers) events)
    (ran : exec step (initial helpers created workers) events = some s) :
    ¬ Abandoned s ∧ (s.running = false → Ends s) := by
  have start : Manned (initial helpers created workers) := by
    refine ⟨nofun, fun id exited => ?_⟩
    simp only [initial] at exited
    split_ifs at exited
  have manned := invariant_of_along step_manned start between ran
  refine ⟨manned.not_abandoned, fun stopped => Stopped.ends ⟨stopped, ?_⟩⟩
  by_contra relies
  have running := manned.running (by simpa using relies)
  rw [stopped] at running
  cases running

def stopAfterDispatch : List (Event 2) := oneDispatch ++ [.stop]

theorem stop_joins_after_dispatch :
    ∃ s : State 2, exec step (initial 2 2 2) stopAfterDispatch = some s ∧
      ¬ Abandoned s ∧ Ends s := by
  have between : Along step StopsBetween (initial 2 2 2) stopAfterDispatch := by decide
  have shown : (exec step (initial 2 2 2) stopAfterDispatch).map State.running = some false := by
    decide
  obtain ⟨s, ran, stopped⟩ := Option.map_eq_some_iff.mp shown
  obtain ⟨present, ends⟩ := stop_joins between ran
  exact ⟨s, ran, present, ends stopped⟩

/-- `stop` clears the flag right after the bump; the helper leaves at its next loop test and the
coordinator spins on its acknowledgement. -/
def stopDuringDispatch : List (Event 2) :=
  openDispatch ++ [.stop, .helper 0, .coord {}, .coord {}, .coord {}, .coord {}]

theorem dispatch_abandoned : ∃ s : State 2, exec step (initial 2 2 2) stopDuringDispatch = some s ∧
      Abandoned s := by
  have shown : (exec step (initial 2 2 2) stopDuringDispatch).map (fun s => (s.coord, s.helper 0)) =
        some (.await ⟨1, .access, 2⟩ 1 0 [], ⟨.exited, 0, 0⟩) := by decide
  obtain ⟨s, ran, found⟩ := Option.map_eq_some_iff.mp shown
  obtain ⟨waiting, gone⟩ := Prod.mk.inj found
  refine ⟨s, ran, ⟨1, .access, 2⟩, 1, [], 0, waiting, by decide, ?_, ?_⟩
  · rw [gone]
    decide
  · rw [gone]

end Runs

end Smash.Dispatch
