import Smash.ByteMemory
import Smash.MachineWord
import Smash.PageMachine

/-! `warmPages`: the first byte of each page under a buffer is read and written back, so that a
protected page faults and is restored. Any number of calls run beside the stores of the
application; the calls `retryWithDecompress` makes are among them. A load, a write-back and a
store are one step each. What `VmRegion::contains` answers is a choice of the step, and a fault
gives back the bytes the page had. -/
namespace Smash.WarmPages

open ByteMemory MachineWord PageMachine Transition Function

inductive Stage where
  | looking
  | loading
  /-- The byte has been loaded and not been written back. -/
  | writing (byte : UInt8)
  | returned
  deriving DecidableEq, Repr

/-- The loop variable `p`, the end of the buffer and the place in the loop body. -/
structure Call where
  page : Nat
  stop : Nat
  stage : Stage
  deriving DecidableEq, Repr

def pageStart (addr : Nat) : Nat := addr / kPageSize * kPageSize

def warmPages (buf len : Nat) (vm : Bool) : Call :=
  { page := pageStart buf
    stop := fetchAdd buf len
    stage := if buf = 0 ∨ len = 0 ∨ vm = false then .returned else .looking }

def Call.nextPage (call : Call) : Call :=
  { call with page := fetchAdd call.page kPageSize, stage := .looking }

def Call.loaded (call : Call) : Option UInt8 :=
  match call.stage with
  | .writing byte => some byte
  | .looking | .loading | .returned => none

def Call.act (managed : Bool) (mem : Memory) (call : Call) : Option (Call × Memory) :=
  match call.stage with
  | .looking =>
    if call.page < call.stop then
      if managed then some ({ call with stage := .loading }, mem)
      else some (call.nextPage, mem)
    else some ({ call with stage := .returned }, mem)
  | .loading => some ({ call with stage := .writing (mem call.page) }, mem)
  | .writing byte => some (call.nextPage, update mem call.page byte)
  | .returned => none

structure State where
  memory : Memory
  calls : List Call

def initial (mem : Memory) : State := ⟨mem, []⟩

inductive Label where
  | store (addr : Nat) (value : UInt8)
  | enter (buf len : Nat) (vm : Bool)
  | act (call : Nat) (managed : Bool)
  deriving DecidableEq, Repr

def step (s : State) : Label → Option State
  | .store addr v => some { s with memory := update s.memory addr v }
  | .enter buf len vm => some { s with calls := s.calls ++ [warmPages buf len vm] }
  | .act i managed =>
    s.calls[i]?.bind fun call =>
      (call.act managed s.memory).map fun (s', mem) =>
        ⟨mem, s.calls.set i s'⟩

def applied (mem : Memory) : Label → Memory
  | .store addr v => update mem addr v
  | .enter .. | .act .. => mem

def lastStored (mem : Memory) (labels : List Label) : Memory := labels.foldl applied mem

/-- No store changes a byte that a call has loaded and will write back. -/
def Spared (s : State) : Label → Prop
  | .store addr v =>
    ∀ call ∈ s.calls, call.page = addr → ∀ byte ∈ call.loaded, byte = v
  | .enter .. | .act .. => True

instance (s : State) : DecidablePred (Spared s)
  | .store addr v => @List.decidableBAll Call
      (fun call => call.page = addr → ∀ byte ∈ call.loaded, byte = v)
      (fun call => @instDecidableForall _ _ _ (@Option.decidableForallMem _ _ _ call.loaded))
      s.calls
  | .enter .. | .act .. => isTrue trivial

section Steps

/-- A byte waiting to be written back is the one in memory. -/
def Current (mem : Memory) (call : Call) : Prop :=
  ∀ byte ∈ call.loaded, mem call.page = byte

theorem warmPages_loaded (buf len : Nat) (vm : Bool) : (warmPages buf len vm).loaded = none := by
  unfold Call.loaded warmPages
  split_ifs <;> rfl

theorem act_spec {managed : Bool} {mem left : Memory} {call s' : Call}
    (current : Current mem call) (moved : call.act managed mem = some (s', left)) :
    left = mem ∧ Current mem s' := by
  unfold Call.act at moved
  split at moved
  next =>
    have idle : left = mem ∧ s'.loaded = none := by
      split at moved
      · split at moved <;> obtain ⟨rfl, rfl⟩ := Prod.mk.inj (Option.some.inj moved) <;>
          exact ⟨rfl, rfl⟩
      · cases moved
        exact ⟨rfl, rfl⟩
    refine ⟨idle.1, fun byte held => ?_⟩
    rw [idle.2] at held
    cases held
  next =>
    cases moved
    refine ⟨rfl, fun byte held => ?_⟩
    cases held
    rfl
  next byte writing =>
    obtain ⟨rfl, rfl⟩ := Prod.mk.inj (Option.some.inj moved)
    have same : mem call.page = byte := current byte (by simp [Call.loaded, writing])
    refine ⟨?_, fun j held => by cases held⟩
    rw [← same]
    exact update_eq_self call.page mem
  next => cases moved

def AllCurrent (s : State) : Prop := ∀ call ∈ s.calls, Current s.memory call

theorem initial_current (memory : Memory) : AllCurrent (initial memory) := by
  intro call mem
  cases mem

theorem store_current {s next : State} {addr : Nat} {v : UInt8}
    (current : AllCurrent s) (spared : Spared s (.store addr v))
    (moved : step s (.store addr v) = some next) :
    AllCurrent next ∧ next.memory = applied s.memory (.store addr v) := by
  cases moved
  refine ⟨fun call mem byte held => ?_, rfl⟩
  by_cases same : call.page = addr
  · -- the guard lets only the loaded value itself be stored there
    have equal := spared call mem same byte held
    rw [same, equal]
    exact update_self ..
  · rw [← current call mem byte held]
    exact update_of_ne same ..

theorem act_current {s next : State} {i : Nat} {managed : Bool} (current : AllCurrent s)
    (moved : step s (.act i managed) = some next) : AllCurrent next ∧ next.memory = s.memory := by
  obtain ⟨call, found, acted⟩ := Option.bind_eq_some_iff.mp moved
  obtain ⟨⟨s', memory⟩, done, rfl⟩ := Option.map_eq_some_iff.mp acted
  obtain ⟨rfl, now⟩ := act_spec (current call (List.mem_of_getElem? found)) done
  refine ⟨fun j mem => ?_, rfl⟩
  rcases List.mem_or_eq_of_mem_set mem with old | rfl
  · exact current j old
  · exact now

theorem step_current {s next : State} {label : Label} (current : AllCurrent s)
    (spared : Spared s label) (moved : step s label = some next) :
    AllCurrent next ∧ next.memory = applied s.memory label := by
  cases label with
  | store addr v => exact store_current current spared moved
  | enter buf len vm =>
    cases moved
    refine ⟨fun call mem => ?_, rfl⟩
    rcases List.mem_append.mp mem with old | new
    · exact current call old
    · rw [List.mem_singleton.mp new]
      intro byte held
      rw [warmPages_loaded] at held
      cases held
  | act i managed => exact act_current current moved

end Steps

theorem memory_eq_lastStored {s final : State} {labels : List Label}
    (current : AllCurrent s) (spared : Along step Spared s labels)
    (ran : exec step s labels = some final) : final.memory = lastStored s.memory labels := by
  induction labels generalizing s with
  | nil =>
    cases ran
    rfl
  | cons label rest ih =>
    obtain ⟨next, moved, tail⟩ := exec_cons.mp ran
    obtain ⟨now, same⟩ := step_current current spared.1 moved
    have further : Along step Spared next rest := by simpa [moved] using spared.2
    rw [ih now further tail, same]
    rfl

/-- In a run that spares the bytes in flight, every byte is the last one the application stored,
while calls run and after they return. -/
theorem warmPages_loses_no_store (mem : Memory) (labels : List Label) (final : State)
    (spared : Along step Spared (initial mem) labels)
    (ran : exec step (initial mem) labels = some final) :
    final.memory = lastStored mem labels :=
  memory_eq_lastStored (initial_current mem) spared ran

section Examples

def zeros : Memory := fun _ => 0

/-- A call for 16 bytes at 0x1800, with a store to the page's first byte after the write-back. -/
def storeAfterWarm : List Label :=
  [.enter 0x1800 16 true, .act 0 true, .act 0 true, .act 0 true, .store 0x1000 1, .act 0 true]

theorem warmPages_keeps_later_store : Along step Spared (initial zeros) storeAfterWarm ∧
      ∃ final, exec step (initial zeros) storeAfterWarm = some final ∧
        final.calls = [⟨0x2000, 0x1810, .returned⟩] ∧
        final.memory = lastStored zeros storeAfterWarm := by
  have spared : Along step Spared (initial zeros) storeAfterWarm := by decide
  exact ⟨spared, _, rfl, rfl, warmPages_loses_no_store zeros storeAfterWarm _ spared rfl⟩

-- The byte at 0x1000 is no part of the buffer. Its new value arrives between the load and the
-- write-back and is gone when the call returns.
theorem warmPages_undoes_store :
    let labels : List Label :=
      [.enter 0x1800 16 true, .act 0 true, .act 0 true, .store 0x1000 1, .act 0 true, .act 0 true]
    ∃ final, exec step (initial zeros) labels = some final ∧
      final.calls = [⟨0x2000, 0x1810, .returned⟩] ∧
      final.memory 0x1000 = 0 ∧ lastStored zeros labels 0x1000 = 1 :=
  ⟨_, rfl, rfl, rfl, rfl⟩

end Examples

end Smash.WarmPages
