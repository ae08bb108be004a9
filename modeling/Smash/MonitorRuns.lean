import Smash.LivePages

/-! Phase 3 over a worker's range: the live pages that move to `ACTIVE_MONITORING` are collected in
runs, and each run is flushed when it breaks. What the worker reads of a page, and what the kernel
answers, is given for each page, so that other threads may change any page in between; its own
writes are in the state. -/
namespace Smash.MonitorRuns

open BitScan LivePages Function List
open PageMachine (PageState Prot)

def kProtectChunkPages : Nat := 16

/-- What phase 3 finds: the outcome of the transition, the budget for a run, whether the page is
still monitored when the flush looks at it and when it reverts it, and the outcome of `mprotect`. -/
structure Finds where
  moves : Nat → Bool
  budget : Nat × Nat → Bool
  monitored : Nat → Bool
  protects : Nat → Bool
  revertible : Nat → Bool

structure Monitor where
  states : Nat → PageState
  prots : Nat → Prot
  /-- `run_start` and `run_end`, when `run_start` is an index. -/
  run : Option (Nat × Nat)
  flushed : List (Nat × Nat)

section Phase3

variable (finds : Finds)

def Monitor.revert (monitor : Monitor) (k : Nat) : Monitor :=
  if finds.revertible k then
    { monitor with states := update monitor.states k .active }
  else monitor

def Monitor.protect (monitor : Monitor) (k : Nat) : Monitor :=
  if finds.monitored k then
    if finds.protects k then { monitor with prots := update monitor.prots k .read }
    else monitor.revert finds k
  else monitor

def flushPhase3Run (run : Nat × Nat) (monitor : Monitor) : Monitor :=
  if run.2 ≤ run.1 then monitor
  else
    let monitor := { monitor with flushed := monitor.flushed ++ [run] }
    if finds.budget run then (pagesOf run).foldl (Monitor.protect finds) monitor
    else (pagesOf run).foldl (Monitor.revert finds) monitor

/-- The flush of what was accumulated, when there is something. -/
def Monitor.breakRun (monitor : Monitor) : Monitor :=
  match monitor.run with
  | some run => { flushPhase3Run finds run monitor with run := none }
  | none => monitor

def monitorPage (contigPages : Nat) (environPage : Option Nat) (monitor : Monitor) (i : Nat) :
    Monitor :=
  if contigPages ≤ i then monitor
  else if environPage = some i then monitor.breakRun finds
  else if finds.moves i then
    let monitor :=
      { monitor with states := update monitor.states i .activeMonitoring }
    match monitor.run with
    | none => { monitor with run := some (i, i + 1) }
    | some run =>
      if i = run.2 ∧ run.2 - run.1 < kProtectChunkPages then
        { monitor with run := some (run.1, i + 1) }
      else { flushPhase3Run finds run monitor with run := some (i, i + 1) }
  else monitor.breakRun finds

end Phase3

section Flush

variable {finds : Finds} {monitor : Monitor} {run : Nat × Nat} {i : Nat}

/-- A step of the flush over `pages` changes neither the runs nor a page outside them. -/
structure Confined (pages : List Nat) (before after : Monitor) : Prop where
  run : after.run = before.run
  flushed : after.flushed = before.flushed
  frame : ∀ i, i ∉ pages → after.states i = before.states i ∧ after.prots i = before.prots i

theorem revert_confined (k : Nat) : Confined [k] monitor (monitor.revert finds k) := by
  rw [Monitor.revert]
  split
  · constructor
    · rfl
    · rfl
    · intro i j
      exact ⟨update_of_ne (ne_of_not_mem_cons j) _ _, rfl⟩
  · exact ⟨rfl, rfl, fun _ _ => ⟨rfl, rfl⟩⟩

theorem protect_confined (k : Nat) : Confined [k] monitor (monitor.protect finds k) := by
  rw [Monitor.protect]
  split
  · split
    · constructor
      · rfl
      · rfl
      · intro i j
        exact ⟨rfl, update_of_ne (ne_of_not_mem_cons j) _ _⟩
    · exact revert_confined k
  · exact ⟨rfl, rfl, fun _ _ => ⟨rfl, rfl⟩⟩

theorem foldl_confined {visit : Monitor → Nat → Monitor}
    (each : ∀ monitor k, Confined [k] monitor (visit monitor k)) (pages : List Nat) :
    ∀ monitor, Confined pages monitor (pages.foldl visit monitor) := by
  induction pages with
  | nil => exact fun monitor => ⟨rfl, rfl, fun _ _ => ⟨rfl, rfl⟩⟩
  | cons page rest ih =>
    intro monitor
    have first := each monitor page
    have later := ih (visit monitor page)
    constructor
    · exact later.run.trans first.run
    · exact later.flushed.trans first.flushed
    · intro i outside
      rw [mem_cons, not_or] at outside
      have kept := first.frame i (by simpa using outside.1)
      have s' := later.frame i outside.2
      exact ⟨s'.1.trans kept.1, s'.2.trans kept.2⟩

theorem flush_spec (nonempty : run.1 < run.2) :
    Confined (pagesOf run) { monitor with flushed := monitor.flushed ++ [run] }
      (flushPhase3Run finds run monitor) := by
  rw [flushPhase3Run, if_neg (Nat.not_le.mpr nonempty)]
  dsimp only
  split
  · exact foldl_confined (fun _ k => protect_confined k) _ _
  · exact foldl_confined (fun _ k => revert_confined k) _ _

end Flush

section Runs

variable {finds : Finds} {contigPages : Nat} {environPage : Option Nat} {monitor : Monitor}
  {states : Nat → PageState} {prots : Nat → Prot} {moved touched : List Nat} {i : Nat}

def Short (run : Nat × Nat) : Prop := run.1 < run.2 ∧ run.2 - run.1 ≤ kProtectChunkPages

/-- The flushed runs, followed by the open one, list the pages `moved`; only pages of `touched`
have been written to. The two differ between a transition and the update of the run. -/
structure Accounted (states : Nat → PageState) (prots : Nat → Prot) (moved touched : List Nat)
    (monitor : Monitor) : Prop where
  listed : (monitor.flushed ++ monitor.run.toList).flatMap pagesOf = moved
  short : ∀ run ∈ monitor.flushed ++ monitor.run.toList, Short run
  inside : ∀ i ∈ moved, i ∈ touched
  frame : ∀ i, i ∉ touched → monitor.states i = states i ∧ monitor.prots i = prots i

section

variable (h : Accounted states prots moved touched monitor)
include h

theorem Accounted.touch (s : PageState) : Accounted states prots moved (touched ++ [i])
      { monitor with states := update monitor.states i s } where
  listed := h.listed
  short := h.short
  inside := fun j mem => mem_append_left _ (h.inside j mem)
  frame := by
    intro j outside
    rw [mem_append, not_or] at outside
    have u : j ≠ i := by simpa using outside.2
    have kept := h.frame j outside.1
    exact ⟨(update_of_ne u _ _).trans kept.1, kept.2⟩

theorem Accounted.flush {run : Nat × Nat} (opened : monitor.run = some run) :
    Accounted states prots moved touched { flushPhase3Run finds run monitor with run := none } := by
  have runs : monitor.flushed ++ monitor.run.toList = monitor.flushed ++ [run] := by
    rw [opened, Option.toList_some]
  have length : Short run := h.short run (by simp [opened])
  have spec := @flush_spec finds monitor run length.1
  have within : ∀ i ∈ pagesOf run, i ∈ touched := by
    intro i mem
    apply h.inside
    rw [← h.listed, runs, flatMap_append]
    exact mem_append_right _ (by simpa using mem)
  constructor
  · rw [← h.listed, runs, spec.flushed]
    simp
  · intro j mem
    apply h.short
    rw [runs]
    simpa [spec.flushed] using mem
  · exact h.inside
  · intro i outside
    have kept := spec.frame i fun mem => outside (within i mem)
    have pre := h.frame i outside
    exact ⟨kept.1.trans pre.1, kept.2.trans pre.2⟩

theorem Accounted.breakRun : Accounted states prots moved touched (monitor.breakRun finds) := by
  rw [Monitor.breakRun]
  split
  next run opened => exact h.flush opened
  next => exact h

end

theorem pagesOf_one : pagesOf (i, i + 1) = [i] := by
  simp [pagesOf]

theorem pagesOf_snoc {first last : Nat} (order : first ≤ last) :
    pagesOf (first, last + 1) = pagesOf (first, last) ++ [last] := by
  have count : last + 1 - first = (last - first) + 1 := by omega
  have next : first + 1 * (last - first) = last := by omega
  simp only [pagesOf]
  rw [count, List.range'_concat, next]

section

variable (h : Accounted states prots moved (moved ++ [i]) monitor)
include h

theorem Accounted.reopen {run : Nat × Nat} (length : Short run)
    (listed : (monitor.flushed ++ [run]).flatMap pagesOf = moved ++ [i]) :
    Accounted states prots (moved ++ [i]) (moved ++ [i]) { monitor with run := some run } := by
  constructor
  · exact listed
  · intro j mem
    rcases mem_append.mp mem with earlier | last
    · exact h.short j (mem_append_left _ earlier)
    · have same : j = run := by simpa using last
      rw [same]
      exact length
  · exact fun _ mem => mem
  · exact h.frame

theorem Accounted.begin_run (closed : monitor.run = none) :
    Accounted states prots (moved ++ [i]) (moved ++ [i])
      { monitor with run := some (i, i + 1) } := by
  apply h.reopen
  · exact ⟨Nat.lt_succ_self i, by simp [kProtectChunkPages]⟩
  · rw [← h.listed, closed]
    simp [pagesOf_one]

theorem Accounted.extend_run {run : Nat × Nat} (opened : monitor.run = some run) (next : i = run.2)
    (room : run.2 - run.1 < kProtectChunkPages) :
    Accounted states prots (moved ++ [i]) (moved ++ [i])
      { monitor with run := some (run.1, i + 1) } := by
  have length : Short run := h.short run (by simp [opened])
  have lower := length.1
  have pages : pagesOf (run.1, i + 1) = pagesOf run ++ [i] := by
    rw [next]
    exact pagesOf_snoc (Nat.le_of_lt lower)
  apply h.reopen
  · exact ⟨show run.1 < i + 1 by omega, show i + 1 - run.1 ≤ kProtectChunkPages by omega⟩
  · rw [← h.listed, opened]
    simp [pages]

end

theorem Accounted.page (h : Accounted states prots moved moved monitor) (i : Nat) :
    let now := moved ++
      [i].filter fun i => decide (i < contigPages ∧ environPage ≠ some i ∧ finds.moves i = true)
    Accounted states prots now now (monitorPage finds contigPages environPage monitor i) := by
  intro now
  rw [monitorPage]
  by_cases external : contigPages ≤ i
  · have stays : now = moved := by simp [now, Nat.not_lt.mpr external]
    rw [if_pos external, stays]
    exact h
  rw [if_neg external]
  by_cases environ : environPage = some i
  · have stays : now = moved := by simp [now, environ]
    rw [if_pos environ, stays]
    exact h.breakRun
  rw [if_neg environ]
  by_cases moves : finds.moves i = true
  · have grows : now = moved ++ [i] := by
      simp [now, Nat.lt_of_not_le external, environ, moves]
    have touched := @Accounted.touch _ _ _ _ _ i h .activeMonitoring
    rw [if_pos moves, grows]
    dsimp only
    -- The run is looked at after the transition, which leaves it alone.
    cases opened : monitor.run with
    | none => exact touched.begin_run opened
    | some run =>
      rw [opened] at touched
      dsimp only
      by_cases joins : i = run.2 ∧ run.2 - run.1 < kProtectChunkPages
      · rw [if_pos joins]
        exact touched.extend_run rfl joins.1 joins.2
      · rw [if_neg joins]
        exact (touched.flush rfl).begin_run rfl
  · have stays : now = moved := by simp [now, moves]
    rw [if_neg moves, stays]
    exact h.breakRun

theorem Accounted.pages (pages : List Nat) :
    ∀ {moved monitor}, Accounted states prots moved moved monitor →
      let now := moved ++ pages.filter fun i =>
        decide (i < contigPages ∧ environPage ≠ some i ∧ finds.moves i = true)
      Accounted states prots now now
        (pages.foldl (monitorPage finds contigPages environPage) monitor) := by
  induction pages with
  | nil =>
    intro moved monitor h
    simpa using h
  | cons page rest ih =>
    intro moved monitor h
    have step := ih (@Accounted.page finds contigPages environPage _ _ _ _ h page)
    rw [append_assoc, ← filter_append, singleton_append] at step
    exact step

end Runs

section Main

end Main

end Smash.MonitorRuns
