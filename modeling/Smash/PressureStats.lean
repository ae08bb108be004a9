import Mathlib.Algebra.BigOperators.Group.Finset.Piecewise
import Mathlib.Data.BitVec
import Smash.PageMachine

/-! The residence accounting of the pressure log: a stamp for each page that is compressed, counters
of entries and of exits by kind, and a histogram of ages for each kind. -/
namespace Smash.PressureStats

open Function (update update_self update_of_ne)
open Finset (range)
open PageMachine (PageState)
open Transition

section Code

inductive Exit where
  | refaultRead | refaultWrite | shadowDiscard | prefetch | restored | freed
  deriving DecidableEq

instance : Fintype Exit where
  elems := {.refaultRead, .refaultWrite, .shadowDiscard, .prefetch, .restored, .freed}
  complete := fun kind => by cases kind <;> decide

def kHistBuckets : Nat := 24

structure Counters where
  entries : BitVec 64
  exits : Exit → BitVec 64
  exitAgeMs : Exit → BitVec 64
  hist : Exit → Fin kHistBuckets → BitVec 64

/-- `g_stamp` and `g`; the stamp 0 says that the page is not compressed. -/
structure Stats where
  stamp : Nat → Nat
  g : Counters

/-- `ms` is the time since `g_base_ns` in milliseconds. -/
def stampNow (ms : Nat) : Nat := (ms % 2 ^ 32 + 1) % 2 ^ 32

def ageBucket (ms : Nat) : Fin kHistBuckets :=
  if ms = 0 then ⟨0, by decide⟩ else ⟨min (Nat.log2 ms + 1) (kHistBuckets - 1), by
    simp only [kHistBuckets]
    omega⟩

def recordExit (kind : Exit) (stamp ms : Nat) (g : Counters) : Counters :=
  let age := if stamp < stampNow ms then stampNow ms - stamp else 0
  let ages := g.hist kind
  { g with
    exits := update g.exits kind (g.exits kind + 1)
    exitAgeMs := update g.exitAgeMs kind (g.exitAgeMs kind + age)
    hist := update g.hist kind (update ages (ageBucket age) (ages (ageBucket age) + 1)) }

def leave (page : Nat) (kind : Exit) (ms : Nat) (stats : Stats) : Stats :=
  ⟨update stats.stamp page 0, recordExit kind (stats.stamp page) ms stats.g⟩

def onExit (page : Nat) (kind : Exit) (ms : Nat) (stats : Stats) : Stats :=
  if stats.stamp page = 0 then stats else leave page kind ms stats

def onTransition (page : Nat) (compressedFamily compressing toEmpty : Bool) (ms : Nat)
    (stats : Stats) : Stats :=
  if compressedFamily then
    if stats.stamp page = 0 then
      ⟨update stats.stamp page (stampNow ms), { stats.g with entries := stats.g.entries + 1 }⟩
    else stats
  else if ¬ compressing ∧ stats.stamp page ≠ 0 then
    leave page (if toEmpty then .freed else .restored) ms stats
  else stats

def pstatsHook (page : Nat) (s : PageState) (ms : Nat) (stats : Stats) : Stats :=
  onTransition page (s = .compressed ∨ s = .compressedShadow) (s = .compressing)
    (s = .empty) ms stats

structure Table where
  states : Nat → PageState
  stats : Option Stats

def set (page : Nat) (s : PageState) (ms : Nat) (table : Table) : Table :=
  ⟨update table.states page s, table.stats.map (pstatsHook page s ms)⟩

/-- All hooks run before the first store; each reads the clock. -/
def setRange (first numPages : Nat) (s : PageState) (ms : Nat → Nat) (table : Table) : Table :=
  ⟨(List.range numPages).foldl (fun states i => update states (first + i) s) table.states,
    table.stats.map fun stats => (List.range numPages).foldl
      (fun stats i => pstatsHook (first + i) s (ms i) stats) stats⟩

inductive Call where
  | set (page : Nat) (state : PageState) (ms : Nat)
  | setRange (first count : Nat) (state : PageState) (ms : Nat → Nat)
  | onExit (page : Nat) (kind : Exit) (ms : Nat)

def step (numPages : Nat) (table : Table) : Call → Option Table
  | .set page s ms => if page < numPages then some (set page s ms table) else none
  | .setRange first count s ms =>
    if first + count ≤ numPages then some (setRange first count s ms table) else none
  | .onExit page kind ms =>
    if page < numPages then some { table with stats := table.stats.map (onExit page kind ms) }
    else none

def initial (states : Nat → PageState) (enabled : Bool) : Table :=
  ⟨states, if enabled then some ⟨fun _ => 0, ⟨0, 0, 0, 0⟩⟩ else none⟩

end Code

/-- The clock has not reached the value whose stamp would be 0. -/
def Early : Call → Prop
  | .set _ _ ms | .onExit _ _ ms => ms < 2 ^ 32 - 1
  | .setRange _ count _ ms => ∀ i < count, ms i < 2 ^ 32 - 1

def live (numPages : Nat) (stamp : Nat → Nat) : Nat :=
  ((range numPages).filter fun page => stamp page ≠ 0).card

structure Balanced (numPages : Nat) (states : Nat → PageState) (stats : Stats) : Prop where
  entries : stats.g.entries = (∑ kind, stats.g.exits kind) + (live numPages stats.stamp : Nat)
  stamped : ∀ page, stats.stamp page ≠ 0 → states page = .compressed ∨
    states page = .compressedShadow ∨ states page = .compressing
  hist : ∀ kind, ∑ bucket, stats.g.hist kind bucket = stats.g.exits kind

theorem stampNow_ne_zero {ms : Nat} (early : ms < 2 ^ 32 - 1) : stampNow ms ≠ 0 := by
  unfold stampNow
  omega

theorem sum_bump {Index : Type} [Fintype Index] [DecidableEq Index] (f : Index → BitVec 64)
    (i : Index) : ∑ j, update f i (f i + 1) j = (∑ j, f j) + 1 := by
  rw [Finset.sum_update_of_mem (Finset.mem_univ i), Finset.sdiff_singleton_eq_erase,
    ← Finset.add_sum_erase _ f (Finset.mem_univ i), add_right_comm]

theorem live_update {numPages page : Nat} {stamp : Nat → Nat} (inside : page < numPages)
    (v : Nat) :
    live numPages (update stamp page v) + (if stamp page ≠ 0 then 1 else 0) =
      live numPages stamp + (if v ≠ 0 then 1 else 0) := by
  have mem := Finset.mem_range.mpr inside
  have rest : ∑ j ∈ (range numPages).erase page, (if update stamp page v j ≠ 0 then 1 else 0) =
      ∑ j ∈ (range numPages).erase page, if stamp j ≠ 0 then 1 else 0 :=
    Finset.sum_congr rfl fun j mem => by rw [update_of_ne (Finset.ne_of_mem_erase mem)]
  simp only [live, Finset.card_filter]
  rw [← Finset.add_sum_erase _ _ mem, rest, ← Finset.add_sum_erase (range numPages) _ mem,
    update_self]
  omega

section Steps

variable {numPages page ms : Nat} {states s' : Nat → PageState} {stats : Stats}

theorem leave_balanced (h : Balanced numPages states stats) (inside : page < numPages)
    (stamped : stats.stamp page ≠ 0) (kind : Exit)
    (others : ∀ j ≠ page, s' j = states j) :
    Balanced numPages s' (leave page kind ms stats) where
  entries := by
    have fewer := @live_update numPages page stats.stamp inside 0
    rw [if_pos stamped, if_neg (not_not.mpr rfl), add_zero] at fewer
    simp only [leave, recordExit, sum_bump]
    rw [h.entries, ← fewer, Nat.cast_succ, add_right_comm, add_assoc]
  stamped := fun j live => by
    by_cases same : j = page
    · subst same
      exact absurd (update_self ..) live
    · rw [others j same]
      exact h.stamped j (update_of_ne same 0 stats.stamp ▸ live)
  hist := fun j => by
    by_cases same : j = kind
    · subst same
      simp only [leave, recordExit, update_self, sum_bump, h.hist]
    · simp only [leave, recordExit, update_of_ne same, h.hist]

theorem onExit_balanced (h : Balanced numPages states stats) (inside : page < numPages)
    (kind : Exit) : Balanced numPages states (onExit page kind ms stats) := by
  unfold onExit
  split_ifs with stamped
  · exact h
  · exact leave_balanced h inside stamped kind fun _ _ => rfl

theorem hook_balanced (h : Balanced numPages states stats) (inside : page < numPages)
    (early : ms < 2 ^ 32 - 1) (s : PageState) :
    Balanced numPages (update states page s) (pstatsHook page s ms stats) := by
  have others : ∀ j ≠ page, update states page s j = states j :=
    fun j apart => update_of_ne apart ..
  -- A page that keeps its stamp is in one of the three states after the store.
  have kept : (stats.stamp page ≠ 0 → s = .compressed ∨ s = .compressedShadow ∨
      s = .compressing) → Balanced numPages (update states page s) stats := fun fits =>
    { h with
      stamped := fun j live => by
        by_cases same : j = page
        · subst same
          rw [update_self]
          exact fits live
        · rw [others j same]
          exact h.stamped j live }
  unfold pstatsHook onTransition
  split
  case isTrue family =>
    have family : s = .compressed ∨ s = .compressedShadow := by simpa using family
    split
    case isTrue unstamped =>
      have more := @live_update numPages page stats.stamp inside (stampNow ms)
      rw [if_neg (not_not.mpr unstamped), if_pos (stampNow_ne_zero early), add_zero] at more
      refine ⟨?_, fun j live => ?_, h.hist⟩
      · rw [more, Nat.cast_succ, ← add_assoc, ← h.entries]
      · by_cases same : j = page
        · subst same
          rw [update_self]
          exact family.imp_right Or.inl
        · rw [others j same]
          exact h.stamped j (update_of_ne same _ stats.stamp ▸ live)
    case isFalse => exact kept fun _ => family.imp_right Or.inl
  case isFalse =>
    split
    case isTrue leaves => exact leave_balanced h inside leaves.2 _ others
    case isFalse stays =>
      refine kept fun stamped => Or.inr (Or.inr ?_)
      by_contra j
      exact stays ⟨by simpa using j, stamped⟩

end Steps

section Runs

variable {numPages : Nat} {table next : Table}

def Table.Balanced (numPages : Nat) (table : Table) : Prop :=
  ∀ stats, table.stats = some stats → PressureStats.Balanced numPages table.states stats

theorem set_balanced {page ms : Nat} (h : table.Balanced numPages) (inside : page < numPages)
    (early : ms < 2 ^ 32 - 1) (s : PageState) : (set page s ms table).Balanced numPages := by
  intro stats found
  obtain ⟨stats, held, rfl⟩ := Option.map_eq_some_iff.mp found
  exact hook_balanced (h stats held) inside early s

theorem setRange_eq (first count : Nat) (s : PageState) (ms : Nat → Nat) (table : Table) :
    setRange first count s ms table =
      (List.range count).foldl (fun table i => set (first + i) s (ms i) table) table := by
  induction count with
  | zero => simp [setRange]
  | succ count ih =>
    rw [List.range_succ, List.foldl_append, ← ih]
    simp [setRange, set, List.range_succ, Function.comp_def]

theorem setRange_balanced {first count : Nat} {ms : Nat → Nat} (h : table.Balanced numPages)
    (inside : first + count ≤ numPages) (early : ∀ i < count, ms i < 2 ^ 32 - 1)
    (s : PageState) : (setRange first count s ms table).Balanced numPages := by
  rw [setRange_eq]
  induction count with
  | zero => exact h
  | succ count ih =>
    rw [List.range_succ, List.foldl_append]
    exact set_balanced (ih (by omega) fun i below => early i (by omega)) (by omega)
      (early count (by omega)) s

theorem step_balanced {call : Call} (h : table.Balanced numPages) (early : Early call)
    (ran : step numPages table call = some next) : next.Balanced numPages := by
  cases call with
  | set page s ms =>
    obtain ⟨inside, ⟨⟩⟩ := Option.ite_none_right_eq_some.mp ran
    exact set_balanced h inside early s
  | setRange first count s ms =>
    obtain ⟨inside, ⟨⟩⟩ := Option.ite_none_right_eq_some.mp ran
    exact setRange_balanced h inside early s
  | onExit page kind ms =>
    obtain ⟨inside, ⟨⟩⟩ := Option.ite_none_right_eq_some.mp ran
    intro stats found
    obtain ⟨stats, held, rfl⟩ := Option.map_eq_some_iff.mp found
    exact onExit_balanced (h stats held) inside kind

end Runs

/-- Entries are exits plus live stamps, only compressed pages are stamped, and the histograms add
up, after every sequence of calls. -/
theorem entries_balance (numPages : Nat) (states : Nat → PageState) (enabled : Bool)
    (calls : List Call) (final : Table) (early : ∀ call ∈ calls, Early call)
    (ran : exec (step numPages) (initial states enabled) calls = some final) :
    final.Balanced numPages := by
  have start : (initial states enabled).Balanced numPages := by
    intro stats found
    obtain ⟨-, ⟨⟩⟩ := Option.ite_none_right_eq_some.mp found
    exact ⟨by simp [live], fun _ stamped => absurd rfl stamped, fun _ => by simp⟩
  generalize initial states enabled = table at start ran
  induction calls generalizing table with
  | nil =>
    cases ran
    exact start
  | cons call rest ih =>
    obtain ⟨next, moved, ran⟩ := exec_cons.mp ran
    exact ih (fun later mem => early later (List.mem_cons_of_mem _ mem)) _
      (step_balanced start (early call List.mem_cons_self) moved) ran

theorem entries_balance_freed : ∃ final, exec (step 1) (initial (fun _ => .active) true)
      [.set 0 .compressed 5, .set 0 .empty 9] = some final ∧ final.Balanced 1 :=
  ⟨_, rfl, entries_balance 1 (fun _ => .active) true [.set 0 .compressed 5, .set 0 .empty 9] _
    (by simp [Early]) rfl⟩

end Smash.PressureStats
