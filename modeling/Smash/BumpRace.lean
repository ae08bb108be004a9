import Smash.VmRegion

/-! The bump path of `allocatePages` under any number of threads, with every free shard
empty. `fetch_add` on `next_page_` is one step and, for a call that overshot the arena,
the `fetch_sub` that rolls it back is another; any steps of other threads may come
between the two. -/
namespace Smash.BumpRace

open Extents MachineWord Transition

structure RollBack where
  thread : Nat
  numPages : Nat
  deriving DecidableEq, Repr

structure State where
  contigPages : Nat
  nextPage : Nat
  /-- Calls between their overshooting `fetch_add` and its `fetch_sub`. -/
  rollBacks : List RollBack
  /-- Ranges returned to calls so far, the latest first. -/
  returned : List Extent
  deriving DecidableEq, Repr

def initial (contigPages : Nat) : State := ⟨contigPages, 0, [], []⟩

inductive Event where
  | reserve (thread numPages : Nat)
  | rollBack (call : RollBack)
  deriving DecidableEq, Repr

def step (s : State) : Event → Option State
  | .reserve thread numPages =>
    if thread ∈ s.rollBacks.map (·.thread) then none
    else
      let start := s.nextPage
      let bumped := { s with nextPage := fetchAdd start numPages }
      if (start + numPages) % wordSize > s.contigPages then
        some { bumped with rollBacks := ⟨thread, numPages⟩ :: s.rollBacks }
      else some { bumped with returned := ⟨start, numPages⟩ :: s.returned }
  | .rollBack call =>
    if call ∈ s.rollBacks then
      some { s with
        nextPage := fetchSub s.nextPage call.numPages
        rollBacks := s.rollBacks.erase call }
    else none

/-- A reservation does not wrap the counter, and one that lands inside the arena is not
made while a roll-back of another call is outstanding. -/
def Settled (s : State) : Event → Prop
  | .reserve _ numPages =>
    s.nextPage + numPages < wordSize ∧
      (s.nextPage + numPages ≤ s.contigPages →
        ∀ call ∈ s.rollBacks, call.numPages = 0)
  | .rollBack _ => True

instance (s : State) (event : Event) : Decidable (Settled s event) := by
  cases event <;> unfold Settled <;> infer_instance

def owed (rollBacks : List RollBack) : Nat :=
  (rollBacks.map (·.numPages)).sum

@[simp] theorem owed_cons (call : RollBack) (rest : List RollBack) :
    owed (call :: rest) = call.numPages + owed rest := by
  simp [owed]

theorem owed_erase {call : RollBack} {rollBacks : List RollBack} (mem : call ∈ rollBacks) :
    call.numPages + owed (rollBacks.erase call) = owed rollBacks := by
  have same := ((List.perm_cons_erase mem).map (·.numPages)).sum_nat
  simpa [owed] using same.symm

theorem owed_eq_zero {rollBacks : List RollBack}
    (idle : ∀ call ∈ rollBacks, call.numPages = 0) : owed rollBacks = 0 := by
  induction rollBacks with
  | nil => rfl
  | cons call rest ih =>
    rw [owed_cons, idle call List.mem_cons_self,
      ih fun j mem => idle j (List.mem_cons_of_mem call mem)]

/-- The counter is the end of the ranges handed out plus what the pending roll-backs owe. -/
structure Accounted (state : State) : Prop where
  counter : ∃ mark, state.nextPage = mark + owed state.rollBacks ∧
    Tiles state.returned mark
  fits : state.nextPage < wordSize

theorem initial_accounted (contigPages : Nat) : Accounted (initial contigPages) where
  counter := ⟨0, rfl, fun page => by simp [initial]⟩
  fits := by simp [initial, wordSize]

theorem reserve_accounted {s next : State} {thread numPages : Nat}
    (h : Accounted s) (settled : Settled s (.reserve thread numPages))
    (moved : step s (.reserve thread numPages) = some next) : Accounted next := by
  obtain ⟨⟨mark, counter, tiles⟩, _⟩ := h
  obtain ⟨fits, exclusive⟩ := settled
  simp only [step, Nat.mod_eq_of_lt fits, fetchAdd_of_lt fits] at moved
  split at moved
  · cases moved
  split at moved
  · cases moved
    refine ⟨⟨mark, ?_, tiles⟩, fits⟩
    simp only [owed_cons]
    omega
  · cases moved
    -- with nothing owed the counter is the end of the ranges, so the new one starts there
    have nothing := owed_eq_zero (exclusive (by omega))
    refine ⟨⟨mark + numPages, by simp only; omega, fun page => ?_⟩, fits⟩
    have start : s.nextPage = mark := by omega
    rw [depth_cons, tiles page, start]
    exact covers_grow mark numPages page

theorem rollBack_accounted {s next : State} {call : RollBack} (h : Accounted s)
    (moved : step s (.rollBack call) = some next) : Accounted next := by
  obtain ⟨⟨mark, counter, tiles⟩, fits⟩ := h
  simp only [step] at moved
  split at moved
  next outstanding =>
    cases moved
    have share := owed_erase outstanding
    have undone : fetchSub s.nextPage call.numPages = s.nextPage - call.numPages :=
      fetchSub_of_le (by omega) fits
    refine ⟨⟨mark, ?_, tiles⟩, ?_⟩
    · simp only [undone]
      omega
    · simp only [undone]
      omega
  next => cases moved

theorem step_accounted {s next : State} {event : Event} (h : Accounted s)
    (settled : Settled s event) (moved : step s event = some next) : Accounted next := by
  cases event with
  | reserve thread numPages => exact reserve_accounted h settled moved
  | rollBack call => exact rollBack_accounted h moved

theorem returned_ranges_disjoint (contigPages : Nat) (events : List Event) (s : State)
    (settled : Along step Settled (initial contigPages) events)
    (ran : exec step (initial contigPages) events = some s) : s.returned.Pairwise Apart := by
  have accounted := invariant_of_along step_accounted (initial_accounted contigPages) settled ran
  obtain ⟨mark, _, tiles⟩ := accounted.counter
  exact tiles.pairwise

def overshootThenRetry : List Event :=
  [.reserve 1 8, .reserve 2 4, .rollBack ⟨2, 4⟩, .reserve 3 2]

theorem returned_ranges_disjoint_after_overshoot :
    Along step Settled (initial 10) overshootThenRetry ∧
      exec step (initial 10) overshootThenRetry = some ⟨10, 10, [], [⟨8, 2⟩, ⟨0, 8⟩]⟩ ∧
      [(⟨8, 2⟩ : Extent), ⟨0, 8⟩].Pairwise Apart := by
  have settled : Along step Settled (initial 10) overshootThenRetry := by decide
  exact ⟨settled, rfl, returned_ranges_disjoint 10 overshootThenRetry _ settled rfl⟩

-- Two calls overshoot; the larger rolls back first and a third call then fits below the
-- second's still pending page. When that page is taken back too, page 9 is handed out again.
theorem rollBack_race_returns_page_twice : exec step (initial 10)
        [.reserve 0 8, .reserve 1 4, .reserve 2 1, .rollBack ⟨1, 4⟩, .reserve 3 1,
          .rollBack ⟨2, 1⟩, .reserve 4 1] = some ⟨10, 10, [], [⟨9, 1⟩, ⟨9, 1⟩, ⟨0, 8⟩]⟩ ∧
    ¬ [(⟨9, 1⟩ : Extent), ⟨9, 1⟩, ⟨0, 8⟩].Pairwise Apart := by
  exact ⟨rfl, by decide⟩

end Smash.BumpRace
