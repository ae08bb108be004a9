import Smash.ColdFloor
import Smash.LivePages
import Smash.PageTracking

/-! The page that phase 2 leaves alone because the `environ` array is on it. The array is looked
up anew every tick, by its first byte and with the arithmetic of the contiguous arena; it may lie
in an external page and reach over several pages. -/
namespace Smash.EnvironExclusion

open ColdFloor LivePages MachineWord PageTracking Transition List
open BitScan (Word bits)
open PageMachine (PageState kPageSize)

section Code

def contains (tracker : Tracker) (addr : Nat) : Bool :=
  decide (tracker.arena.contains addr) || lookupIdx tracker addr != 0

/-- Unsigned subtraction; callers are to have looked whether the address is in the arena. -/
def contigPageIndex (tracker : Tracker) (addr : Nat) : Nat :=
  fetchSub addr tracker.arena.base / kPageSize

/-- The new `environ_page_idx_`, or nothing for `kNoEnvironPage`. -/
def refreshEnvironExclusion (tracker : Tracker) (environ : Nat) : Option Nat :=
  if environ = 0 ∨ contains tracker environ = false then none
  else some (contigPageIndex tracker environ)

structure Tick where
  settings : Settings
  liveChunks : Nat → Word
  home : Nat → Home
  rcEma : Nat → Nat
  states : Nat → PageState
  counts : Nat → Counts

/-- What phase 2 does with the pages of a worker's range, the last page first. -/
def phase2Range (tick : Tick) (environPage : Option Nat) (range : Nat × Nat) :
    List (Nat × Action) :=
  forEachLivePage tick.liveChunks range.1 range.2 (fun done i =>
    (i, phase2 tick.settings (environPage == some i) (tick.home i) (tick.rcEma i) (tick.states i)
      (tick.counts i)) :: done) []

end Code

/-- Whatever the tick finds, no page that overlaps the `bytes` bytes at `environ` is compressed or
monitored. -/
def LeftAlone (tracker : Tracker) (environ bytes : Nat) : Prop :=
  ∀ (tick : Tick) (range : Nat × Nat) (i addr : Nat) (action : Action),
    (i, action) ∈ phase2Range tick (refreshEnvironExclusion tracker environ) range →
    pageAddress tracker i = some addr → addr < environ + bytes →
    environ < addr + kPageSize → action = .skip

section Walk

theorem mem_phase2Range {tick : Tick} {environPage : Option Nat} {range : Nat × Nat} {p : Nat}
    {action : Action} : (p, action) ∈ phase2Range tick environPage range ↔
      (range.1 ≤ p ∧ p < range.2 ∧ bits tick.liveChunks p = true) ∧
        phase2 tick.settings (environPage == some p) (tick.home p) (tick.rcEma p)
          (tick.states p) (tick.counts p) = action := by
  rw [phase2Range, forEachLivePage_eq, foldl_flip_cons_eq_append]
  simp only [append_nil, mem_reverse, mem_map, mem_filter, mem_range'_1, Prod.mk.injEq]
  constructor
  · rintro ⟨i, ⟨inside, live⟩, rfl, same⟩
    exact ⟨⟨inside.1, by omega, live⟩, same⟩
  · rintro ⟨⟨low, high, live⟩, same⟩
    exact ⟨p, ⟨⟨low, by omega⟩, live⟩, rfl, same⟩

def coldTick : Tick where
  settings := ⟨0, false, false⟩
  liveChunks := fun _ => BitVec.allOnes 64
  home := fun _ => .spanless
  rcEma := fun _ => 0
  states := fun _ => .active
  counts := fun _ => ⟨1, 0, 0⟩

theorem leftAlone_iff {tracker : Tracker} {environ bytes : Nat} :
    LeftAlone tracker environ bytes ↔
      ∀ i addr, pageAddress tracker i = some addr → addr < environ + bytes →
        environ < addr + kPageSize → refreshEnvironExclusion tracker environ = some i := by
  constructor
  · intro alone i addr h below above
    by_contra j
    have visited : (i, Action.eligible) ∈
        phase2Range coldTick (refreshEnvironExclusion tracker environ) (i, i + 1) := by
      refine mem_phase2Range.mpr ⟨⟨le_rfl, by simp, ?_⟩, ?_⟩
      · exact BitVec.getLsbD_allOnes.trans (decide_eq_true (Nat.mod_lt i (by decide)))
      · rw [beq_eq_false_iff_ne.mpr j]
        rfl
    cases alone coldTick (i, i + 1) i addr .eligible visited h below above
  · intro excluded tick range i addr action visited h below above
    obtain ⟨-, rfl⟩ := mem_phase2Range.mp visited
    rw [excluded i addr h below above, beq_self_eq_true]
    simp [phase2]

end Walk

section Pages

variable {run : Run} (sound : Sound run)
include sound

theorem exists_page {addr : Nat} (word : addr < wordSize)
    (managed : contains run.tracker addr = true) :
    ∃ i page, pageAddress run.tracker i = some page ∧ page ≤ addr ∧ addr < page + kPageSize := by
  by_cases inside : run.tracker.arena.contains addr
  · obtain ⟨low, high⟩ := inside
    refine ⟨(addr - run.tracker.arena.base) / kPageSize, _, if_pos ?_, ?_⟩ <;>
      simp only [kPageSize] at high ⊢ <;> omega
  -- Outside the arena the page is the one whose key the table found.
  · have found : lookupIdx run.tracker addr ≠ 0 := by simpa [contains, inside] using managed
    unfold lookupIdx at found
    split at found
    · exact absurd rfl found
    · rename_i nonzero
      split at found
      next slot place =>
        obtain ⟨within, key⟩ := ProbeTable.found_spec (by decide) place
        have isKey : IsKey (run.tracker.key slot) := by
          rw [key]
          refine ⟨nonzero, ?_⟩
          simp only [pageKey, tombstone, wordSize, kPageSize] at word ⊢
          omega
        obtain ⟨page, tracked, serial, below, same, -, back, -⟩ := sound.entry slot within isKey
        have external := sound.external page tracked
        refine ⟨_, page, (sound.pageAddress_serial below).trans ?_, ?_⟩
        · rw [back, if_neg external.nonzero.ne']
        · have aligned := external.aligned
          rw [key] at same
          simp only [pageKey, kPageSize] at same aligned ⊢
          omega
      all_goals exact absurd rfl found

variable (aligned : run.tracker.arena.base % kPageSize = 0) {i addr : Nat}
  (h : pageAddress run.tracker i = some addr)
include aligned h

theorem page_aligned : addr % kPageSize = 0 ∧ addr < wordSize := by
  by_cases arena : i < run.tracker.arena.contigPages
  · rw [pageAddress, if_pos arena] at h
    cases h
    have inside := run.tracker.arena.inside
    simp only [kPageSize] at aligned inside ⊢
    omega
  · have external := sound.external addr (sound.inverse (by omega) h).1
    exact ⟨external.aligned, external.word⟩

omit aligned in
theorem pageIndex_page : pageIndex run.tracker addr = i := by
  by_cases arena : i < run.tracker.arena.contigPages
  · rw [pageAddress, if_pos arena] at h
    cases h
    rw [pageIndex, if_pos] <;> simp only [Arena.contains, kPageSize] <;> omega
  · exact (sound.inverse (by omega) h).2

theorem contigPageIndex_eq_iff {environ : Nat} (low : addr ≤ environ)
    (high : environ < addr + kPageSize) : contigPageIndex run.tracker environ = i ↔
      fetchSub addr run.tracker.arena.base = i * kPageSize := by
  have page := page_aligned sound aligned h
  have inside := run.tracker.arena.inside
  simp only [contigPageIndex, fetchSub, kPageSize, wordSize] at *
  omega

end Pages

/-- Phase 2 leaves the array alone exactly if the array lies in one page and this page is as far
from the arena's base as its index says: a page of the arena, or by chance an external one. -/
theorem environ_left_alone_iff (arena : Arena) (states : Nat → PageState) (calls : List Call)
    (run : Run) (within : Along step WithinBudget (begin arena states) calls)
    (ran : exec step (begin arena states) calls = some run)
    (aligned : run.tracker.arena.base % kPageSize = 0) (environ bytes : Nat) (real : 0 < environ)
    (nonempty : 0 < bytes) (word : environ + bytes ≤ wordSize)
    (managed : ∀ addr, environ ≤ addr → addr < environ + bytes → contains run.tracker addr = true) :
    LeftAlone run.tracker environ bytes ↔
      ∃ i addr, pageAddress run.tracker i = some addr ∧
        fetchSub addr run.tracker.arena.base = i * kPageSize ∧
        addr ≤ environ ∧ environ + bytes ≤ addr + kPageSize := by
  have sound := invariant_of_along step_sound (begin_sound arena states) within ran
  have positive : 0 < kPageSize := by decide
  have excluded : refreshEnvironExclusion run.tracker environ =
      some (contigPageIndex run.tracker environ) := by
    have first := managed environ le_rfl (by omega)
    rw [refreshEnvironExclusion, if_neg (by simp [first]; omega)]
  rw [leftAlone_iff, excluded]
  constructor
  · intro alone
    obtain ⟨i, addr, h, low, high⟩ :=
      exists_page sound (by omega) (managed environ le_rfl (by omega))
    have here := Option.some.inj (alone i addr h (by omega) high)
    obtain ⟨last, final, also, pre, past⟩ :=
      @exists_page run sound (environ + bytes - 1) (by omega) (managed _ (by omega) (by omega))
    have there := Option.some.inj (alone last final also (by omega) (by omega))
    cases here.symm.trans there
    cases h.symm.trans also
    exact ⟨i, addr, h, (contigPageIndex_eq_iff sound aligned h low high).mp here, low, by omega⟩
  · rintro ⟨i, addr, h, placed, low, high⟩ j page also below above
    -- Both pages are aligned and meet the array, which lies in one page.
    have same : page = addr := by
      have first := (page_aligned sound aligned h).1
      have second := (page_aligned sound aligned also).1
      simp only [kPageSize] at *
      omega
    subst same
    rw [← pageIndex_page sound also, pageIndex_page sound h,
      (contigPageIndex_eq_iff sound aligned h low (by omega)).mpr placed]

def twoPages : Arena := ⟨2 ^ 40, 2, by decide, by decide⟩

theorem environ_left_alone_in_page :
    LeftAlone (begin twoPages fun _ => .active).tracker (2 ^ 40 + 8) 16 := by
  have managed : ∀ addr, 2 ^ 40 + 8 ≤ addr → addr < 2 ^ 40 + 8 + 16 →
      contains (begin twoPages fun _ => .active).tracker addr = true := by
    intro addr low high
    have inside : 2 ^ 40 ≤ addr ∧ addr < 2 ^ 40 + 2 * 4096 := by omega
    exact Bool.or_eq_true_iff.mpr (.inl (decide_eq_true inside))
  exact (environ_left_alone_iff twoPages (fun _ => .active) [] (begin twoPages fun _ => .active)
    trivial rfl (by decide) _ _ (by decide) (by decide) (by decide) managed).mpr
    ⟨0, 2 ^ 40, rfl, by decide, by decide, by decide⟩

/-- An array over the boundary of two arena pages, and one inside an external page. -/
theorem environ_array_compressed :
    ¬ LeftAlone (begin twoPages fun _ => .active).tracker (2 ^ 40 + 4088) 16 ∧
    ∃ run, exec step (begin smallArena fun _ => .active) [.track 8192] = some run ∧
      ¬ LeftAlone run.tracker 8200 16 := by
  constructor
  · intro alone
    have second := leftAlone_iff.mp alone 1 (2 ^ 40 + 4096) rfl (by decide) (by decide)
    revert second
    decide
  · obtain ⟨run, ran, same⟩ := Option.map_eq_some_iff.mp (show
      (exec step (begin smallArena fun _ => .active) [.track 8192]).map (fun run =>
        (pageAddress run.tracker 1, refreshEnvironExclusion run.tracker 8200 == some 1)) =
      some (some 8192, false) by decide +kernel)
    obtain ⟨h, missed⟩ := Prod.mk.inj same
    refine ⟨run, ran, fun alone => ?_⟩
    have found := leftAlone_iff.mp alone 1 8192 h (by decide) (by decide)
    exact absurd found (beq_eq_false_iff_ne.mp missed)

end Smash.EnvironExclusion
