import Smash.MachineWord
import Smash.PageMachine
import Smash.ProbeTable

/-! External pages of full mode: the open-addressing table from page number to page index,
the reverse table and the counters. Calls come one after another here; a page's lock is then
free, so taking and releasing it is not visible. The slot counter moves once for each table
slot taken, so it never comes near 2^64 and is kept as a plain number. -/
namespace Smash.PageTracking

open MachineWord PageMachine ProbeTable Transition Function List

def kTrackMaxPages : Nat := 128 * 1024

def kTrackHashCap : Nat := 256 * 1024

/-- The reserved address range; it holds at least one page and ends below 2^64. -/
structure Arena where
  base : Nat
  contigPages : Nat
  positive : 0 < contigPages
  inside : base + contigPages * kPageSize < wordSize

def Arena.contains (arena : Arena) (addr : Nat) : Prop :=
  arena.base ≤ addr ∧ addr < arena.base + arena.contigPages * kPageSize

instance (arena : Arena) (addr : Nat) : Decidable (arena.contains addr) :=
  inferInstanceAs (Decidable (_ ∧ _))

/-- `track_hash_` as its two columns, `track_reverse_`, the counters and the page states. -/
structure Tracker where
  arena : Arena
  key : Nat → Nat
  idx : Nat → Nat
  reverse : Nat → Nat
  slotNext : Nat
  externalCount : Nat
  states : Nat → PageState

def fresh (arena : Arena) (states : Nat → PageState) : Tracker :=
  ⟨arena, fun _ => 0, fun _ => 0, fun _ => 0, 0, 0, states⟩

section Code

def tombstone : Nat := wordSize - 1

def pageKey (addr : Nat) : Nat := addr / kPageSize

/-- Multiplicative hashing: the top 18 bits of the product. -/
def homeSlot (key : Nat) : Nat := key * 0x9E3779B97F4A7C15 % wordSize / 2 ^ 46

def Tracker.find (tracker : Tracker) (key : Nat) : Outcome :=
  search tracker.key 0 key kTrackHashCap (homeSlot key)

def lookupIdx (tracker : Tracker) (addr : Nat) : Nat :=
  if pageKey addr = 0 then 0
  else
    match tracker.find (pageKey addr) with
    | .found slot => tracker.idx slot
    | .vacant _ | .exhausted => 0

def pageIndex (tracker : Tracker) (addr : Nat) : Nat :=
  if tracker.arena.contains addr then (addr - tracker.arena.base) / kPageSize
  else lookupIdx tracker addr

def pageAddress (tracker : Tracker) (i : Nat) : Option Nat :=
  if i < tracker.arena.contigPages then some (tracker.arena.base + i * kPageSize)
  else if kTrackMaxPages ≤ i - tracker.arena.contigPages then none
  else if tracker.reverse (i - tracker.arena.contigPages) = 0 then none
  else some (tracker.reverse (i - tracker.arena.contigPages))

/-- The key is in the table before the slot budget is looked at a second time. -/
def claimSlot (tracker : Tracker) (addr slot : Nat) : Nat × Tracker :=
  let serial := tracker.slotNext
  let claimed := { tracker with
    key := update tracker.key slot (pageKey addr)
    slotNext := serial + 1 }
  if kTrackMaxPages ≤ serial then (0, claimed)
  else
    (tracker.arena.contigPages + serial,
      { claimed with
        reverse := update claimed.reverse serial addr
        idx := update claimed.idx slot (tracker.arena.contigPages + serial)
        externalCount := claimed.externalCount + 1 })

def trackExternalPage (tracker : Tracker) (addr : Nat) : Nat × Tracker :=
  if kTrackMaxPages ≤ tracker.slotNext then (0, tracker)
  else if tracker.arena.contains addr then (0, tracker)
  else if pageKey addr = 0 then (0, tracker)
  else
    match tracker.find (pageKey addr) with
    | .found slot => (tracker.idx slot, tracker)
    | .vacant slot => claimSlot tracker addr slot
    | .exhausted => (0, tracker)

def untrackExternalPage (tracker : Tracker) (addr : Nat) : Tracker :=
  if pageKey addr = 0 then tracker
  else
    match tracker.find (pageKey addr) with
    | .found slot => { tracker with key := update tracker.key slot tombstone }
    | .vacant _ | .exhausted => tracker

def clearReverse (tracker : Tracker) (i : Nat) : Tracker :=
  if tracker.arena.contigPages ≤ i ∧ i - tracker.arena.contigPages < kTrackMaxPages then
    { tracker with
      reverse := update tracker.reverse (i - tracker.arena.contigPages) 0 }
  else tracker

def untrackExternalPageLocked (tracker : Tracker) (addr : Nat) : Tracker :=
  let i := pageIndex tracker addr
  if i = 0 then tracker
  else
    let emptied := { tracker with states := update tracker.states i .empty }
    clearReverse (untrackExternalPage emptied addr) i

end Code

section Runs

inductive Call where
  | track (addr : Nat)
  | untrack (addr : Nat)
  deriving DecidableEq, Repr

def Call.addr : Call → Nat
  | .track addr | .untrack addr => addr

/-- The table with what its callers know: every index returned so far with the page it was
returned for, and the pages tracked and not untracked since. -/
structure Run where
  tracker : Tracker
  given : List (Nat × Nat)
  tracked : Finset Nat

def begin (arena : Arena) (states : Nat → PageState) : Run := ⟨fresh arena states, [], ∅⟩

def step (run : Run) : Call → Option Run
  | .track addr =>
    let r := trackExternalPage run.tracker addr
    some ⟨r.2, (r.1, addr) :: run.given, insert addr run.tracked⟩
  | .untrack addr =>
    some { run with
      tracker := untrackExternalPageLocked run.tracker addr
      tracked := run.tracked.erase addr }

structure External (arena : Arena) (addr : Nat) : Prop where
  aligned : addr % kPageSize = 0
  nonzero : 0 < addr
  word : addr < wordSize
  outside : ¬ arena.contains addr

/-- Calls are about external pages, and a page is tracked while slots are left. -/
structure WithinBudget (run : Run) (call : Call) : Prop where
  external : External run.tracker.arena call.addr
  slots : ∀ addr, call = .track addr → run.tracker.slotNext < kTrackMaxPages

end Runs

section Sound

def IsKey (word : Nat) : Prop := word ≠ 0 ∧ word ≠ tombstone

/-- What the table, the reverse table and the callers' records have to do with each other. -/
structure Sound (run : Run) : Prop where
  filed : Filed IsKey homeSlot run.tracker.key 0 kTrackHashCap
  occupied : occupied run.tracker.key 0 kTrackHashCap ≤ run.tracker.slotNext
  budget : run.tracker.slotNext ≤ kTrackMaxPages
  counted : run.tracker.externalCount = run.tracker.slotNext
  external : ∀ page ∈ run.tracked, External run.tracker.arena page
  listed : ∀ page ∈ run.tracked, ∃ slot < kTrackHashCap, run.tracker.key slot = pageKey page
  entry : ∀ slot < kTrackHashCap, IsKey (run.tracker.key slot) →
    ∃ page ∈ run.tracked, ∃ serial < run.tracker.slotNext, run.tracker.key slot = pageKey page ∧
      run.tracker.idx slot = run.tracker.arena.contigPages + serial ∧
      run.tracker.reverse serial = page ∧ (run.tracker.idx slot, page) ∈ run.given
  reverse : ∀ serial, run.tracker.reverse serial ≠ 0 →
    ∃ slot < kTrackHashCap, IsKey (run.tracker.key slot) ∧
      run.tracker.idx slot = run.tracker.arena.contigPages + serial
  older : ∀ entry ∈ run.given, entry.1 < run.tracker.arena.contigPages + run.tracker.slotNext
  single : ∀ first ∈ run.given, ∀ second ∈ run.given, first.1 = second.1 → first.2 = second.2

theorem begin_sound (arena : Arena) (states : Nat → PageState) : Sound (begin arena states) where
  filed := fun _ _ isKey => absurd rfl isKey.1
  occupied := by simp [begin, fresh, ProbeTable.occupied]
  budget := Nat.zero_le _
  counted := rfl
  external := by simp [begin]
  listed := by simp [begin]
  entry := fun _ _ isKey => absurd rfl isKey.1
  reverse := fun _ nonzero => absurd rfl nonzero
  older := by simp [begin]
  single := by simp [begin]

theorem External.isKey {arena : Arena} {addr : Nat} (external : External arena addr) :
    IsKey (pageKey addr) := by
  have page : kPageSize = 4096 := rfl
  have aligned := external.aligned
  have word := external.word
  have nonzero := external.nonzero
  have size : wordSize = 2 ^ 64 := rfl
  simp only [IsKey, pageKey, tombstone, page] at *
  omega

theorem External.pageKey_inj {arena : Arena} {addr j : Nat} (external : External arena addr)
    (also : External arena j) (same : pageKey addr = pageKey j) : addr = j := by
  have page : kPageSize = 4096 := rfl
  have first := external.aligned
  have second := also.aligned
  simp only [pageKey, page] at *
  omega

variable {run : Run} {addr : Nat}

section

variable (sound : Sound run)
include sound

theorem Sound.room : ∃ free < kTrackHashCap, run.tracker.key free = 0 := by
  have half : kTrackMaxPages < kTrackHashCap := by decide
  exact exists_vacant ((sound.occupied.trans sound.budget).trans_lt half)

theorem Sound.search_ends (key : Nat) : run.tracker.find key ≠ .exhausted := by
  obtain ⟨free, within, empty⟩ := sound.room
  exact ProbeTable.search_ends within empty

theorem Sound.find_tracked (mem : addr ∈ run.tracked) :
    ∃ slot < kTrackHashCap, run.tracker.key slot = pageKey addr ∧
      run.tracker.find (pageKey addr) = .found slot := by
  obtain ⟨slot, within, here⟩ := sound.listed addr mem
  exact ⟨slot, within, here, sound.filed.search_eq within (sound.external addr mem).isKey here⟩

theorem Sound.entry_of (mem : addr ∈ run.tracked) {slot : Nat}
    (within : slot < kTrackHashCap) (here : run.tracker.key slot = pageKey addr) :
    ∃ serial < run.tracker.slotNext, run.tracker.idx slot = run.tracker.arena.contigPages + serial ∧
        run.tracker.reverse serial = addr ∧ (run.tracker.idx slot, addr) ∈ run.given := by
  have external := sound.external addr mem
  obtain ⟨page, tracked, serial, below, key, i, back, given⟩ :=
    sound.entry slot within (here ▸ external.isKey)
  have same : page = addr :=
    (sound.external page tracked).pageKey_inj external (key.symm.trans here)
  subst same
  exact ⟨serial, below, i, back, given⟩

theorem Sound.absent (external : External run.tracker.arena addr)
    (missing : addr ∉ run.tracked) : ∀ slot < kTrackHashCap, run.tracker.key slot ≠ pageKey addr := by
  intro slot within here
  obtain ⟨page, tracked, -, -, key, -⟩ := sound.entry slot within (here ▸ external.isKey)
  have same : page = addr :=
    (sound.external page tracked).pageKey_inj external (key.symm.trans here)
  exact missing (same ▸ tracked)

theorem Sound.find_absent (external : External run.tracker.arena addr)
    (missing : addr ∉ run.tracked) : ∃ slot, run.tracker.find (pageKey addr) = .vacant slot :=
  search_absent (sound.absent external missing) sound.room _

theorem Sound.track_tracked (mem : addr ∈ run.tracked)
    (slots : run.tracker.slotNext < kTrackMaxPages) :
    trackExternalPage run.tracker addr = (pageIndex run.tracker addr, run.tracker) := by
  have external := sound.external addr mem
  obtain ⟨slot, -, -, found⟩ := sound.find_tracked mem
  rw [trackExternalPage, if_neg (Nat.not_le.mpr slots), if_neg external.outside,
    if_neg external.isKey.1, found, pageIndex, if_neg external.outside, lookupIdx,
    if_neg external.isKey.1, found]

theorem Sound.pageIndex_tracked (mem : addr ∈ run.tracked) : ∃ serial < run.tracker.slotNext,
      pageIndex run.tracker addr = run.tracker.arena.contigPages + serial ∧
        run.tracker.reverse serial = addr ∧ (pageIndex run.tracker addr, addr) ∈ run.given := by
  have external := sound.external addr mem
  obtain ⟨slot, within, here, found⟩ := sound.find_tracked mem
  rw [pageIndex, if_neg external.outside, lookupIdx, if_neg external.isKey.1, found]
  exact sound.entry_of mem within here

theorem Sound.pageIndex_untracked (external : External run.tracker.arena addr)
    (missing : addr ∉ run.tracked) : pageIndex run.tracker addr = 0 := by
  obtain ⟨slot, vacant⟩ := sound.find_absent external missing
  rw [pageIndex, if_neg external.outside, lookupIdx, if_neg external.isKey.1, vacant]

theorem Sound.again (mem : addr ∈ run.tracked) {i : Nat} (h : (i, addr) ∈ run.given) :
    Sound ⟨run.tracker, (i, addr) :: run.given, insert addr run.tracked⟩ := by
  have same : ∀ entry, entry ∈ (i, addr) :: run.given ↔ entry ∈ run.given := by
    intro entry
    rw [mem_cons]
    exact ⟨fun either => either.elim (fun same => same ▸ h) id, .inr⟩
  rw [Finset.insert_eq_of_mem mem]
  exact {
    filed := sound.filed
    occupied := sound.occupied
    budget := sound.budget
    counted := sound.counted
    external := sound.external
    listed := sound.listed
    entry := by
      intro slot within isKey
      obtain ⟨page, tracked, serial, below, key, i, back, given⟩ := sound.entry slot within isKey
      exact ⟨page, tracked, serial, below, key, i, back, (same _).mpr given⟩
    reverse := sound.reverse
    older := fun entry mem => sound.older entry ((same entry).mp mem)
    single := fun first one second two =>
      sound.single first ((same first).mp one) second ((same second).mp two) }

theorem Sound.claim (external : External run.tracker.arena addr)
    (missing : addr ∉ run.tracked) (slots : run.tracker.slotNext < kTrackMaxPages) {slot : Nat}
    (vacant : run.tracker.find (pageKey addr) = .vacant slot) :
    Sound ⟨(claimSlot run.tracker addr slot).2,
      ((claimSlot run.tracker addr slot).1, addr) :: run.given, insert addr run.tracked⟩ := by
  obtain ⟨k, below, place, -, free⟩ := vacant_spec vacant
  have within : slot < kTrackHashCap := place ▸ Nat.mod_lt _ (by decide)
  have absent := sound.absent external missing
  rw [claimSlot, if_neg (Nat.not_le.mpr slots)]
  refine {
    filed := sound.filed.insert (fun isKey => isKey.1 rfl) external.isKey absent vacant
    occupied := occupied_update_le.trans (Nat.succ_le_succ sound.occupied)
    budget := slots
    counted := congrArg Nat.succ sound.counted
    external := ?_
    listed := ?_
    entry := ?_
    reverse := ?_
    older := ?_
    single := ?_ }
  · intro page mem
    rcases Finset.mem_insert.mp mem with same | old
    · exact same ▸ external
    · exact sound.external page old
  · intro page mem
    rcases Finset.mem_insert.mp mem with same | old
    · exact ⟨slot, within, same ▸ update_self ..⟩
    · obtain ⟨j, inside, here⟩ := sound.listed page old
      have apart : j ≠ slot := by
        rintro rfl
        exact (sound.external page old).isKey.1 (here.symm.trans free)
      exact ⟨j, inside, (update_of_ne apart ..).trans here⟩
  · intro j inside isKey
    dsimp only at isKey ⊢
    rcases eq_or_ne j slot with same | apart
    · subst same
      refine ⟨addr, Finset.mem_insert_self .., run.tracker.slotNext, Nat.lt_succ_self _, ?_⟩
      rw [update_self, update_self, update_self]
      exact ⟨rfl, rfl, rfl, mem_cons_self⟩
    · rw [update_of_ne apart] at isKey
      obtain ⟨page, tracked, serial, less, key, i, back, given⟩ := sound.entry j inside isKey
      refine ⟨page, Finset.mem_insert_of_mem tracked, serial, Nat.lt_succ_of_lt less, ?_⟩
      rw [update_of_ne apart, update_of_ne apart, update_of_ne less.ne]
      exact ⟨key, i, back, mem_cons_of_mem _ given⟩
  · intro serial nonzero
    dsimp only at nonzero ⊢
    rcases eq_or_ne serial run.tracker.slotNext with same | apart
    · refine ⟨slot, within, ?_⟩
      rw [update_self, update_self, same]
      exact ⟨external.isKey, rfl⟩
    · rw [update_of_ne apart] at nonzero
      obtain ⟨j, inside, isKey, i⟩ := sound.reverse serial nonzero
      have apart : j ≠ slot := by
        rintro rfl
        exact isKey.1 free
      refine ⟨j, inside, ?_⟩
      rw [update_of_ne apart, update_of_ne apart]
      exact ⟨isKey, i⟩
  · intro entry mem
    rcases mem_cons.mp mem with same | old
    · subst same
      exact Nat.lt_succ_self _
    · exact Nat.lt_succ_of_lt (sound.older entry old)
  · -- The new index is above every index given before.
    intro first one second two same
    rcases mem_cons.mp one with new | old <;> rcases mem_cons.mp two with also | pre
    · rw [new, also]
    · have less := sound.older second pre
      rw [new] at same
      exact absurd same less.ne'
    · have less := sound.older first old
      rw [also] at same
      exact absurd same less.ne
    · exact sound.single first old second pre same

end

theorem untrack_eq {tracker : Tracker} {slot serial : Nat} (external : External tracker.arena addr)
    (found : tracker.find (pageKey addr) = .found slot)
    (i : tracker.idx slot = tracker.arena.contigPages + serial)
    (below : serial < kTrackMaxPages) :
    untrackExternalPageLocked tracker addr =
      { tracker with
        states := update tracker.states (tracker.arena.contigPages + serial) .empty
        key := update tracker.key slot tombstone
        reverse := update tracker.reverse serial 0 } := by
  have at_index : pageIndex tracker addr = tracker.arena.contigPages + serial := by
    rw [pageIndex, if_neg external.outside, lookupIdx, if_neg external.isKey.1, found, ← i]
  have positive := tracker.arena.positive
  have again : Tracker.find { tracker with
        states := update tracker.states (tracker.arena.contigPages + serial) .empty }
      (pageKey addr) = .found slot := found
  rw [untrackExternalPageLocked, at_index]
  dsimp only
  rw [if_neg (by omega), untrackExternalPage, if_neg external.isKey.1, again, clearReverse]
  simp [below]

theorem Sound.untrack_tracked (sound : Sound run) (mem : addr ∈ run.tracked) :
    Sound { run with
      tracker := untrackExternalPageLocked run.tracker addr
      tracked := run.tracked.erase addr } := by
  have external := sound.external addr mem
  obtain ⟨slot, within, here, found⟩ := sound.find_tracked mem
  obtain ⟨serial, below, i, back, given⟩ := sound.entry_of mem within here
  rw [untrack_eq external found i (below.trans_le sound.budget)]
  have isKey := external.isKey
  have noStone : ¬ IsKey tombstone := fun isKey => isKey.2 rfl
  refine {
    filed := sound.filed.erase noStone (by decide)
    occupied := (occupied_update_taken (here ▸ isKey.1)).trans sound.occupied
    budget := sound.budget
    counted := sound.counted
    external := fun page kept => sound.external page (Finset.mem_of_mem_erase kept)
    listed := ?_
    entry := ?_
    reverse := ?_
    older := sound.older
    single := sound.single }
  · intro page kept
    obtain ⟨apart, tracked⟩ := Finset.mem_erase.mp kept
    obtain ⟨j, inside, there⟩ := sound.listed page tracked
    have distinct : j ≠ slot := by
      rintro rfl
      exact apart ((sound.external page tracked).pageKey_inj external (there.symm.trans here))
    exact ⟨j, inside, (update_of_ne distinct ..).trans there⟩
  · intro j inside holds
    dsimp only at holds ⊢
    have distinct : j ≠ slot := by
      rintro rfl
      rw [update_self] at holds
      exact noStone holds
    rw [update_of_ne distinct] at holds
    obtain ⟨page, tracked, number, less, key, place, reverse, h⟩ := sound.entry j inside holds
    -- Two slots never share a page, so the other slot's page and index stay.
    have different : page ≠ addr := by
      rintro rfl
      refine distinct (sound.filed.unique within inside ?_ ?_)
      · rw [here]
        exact isKey
      · rw [here, key]
    have apart : number ≠ serial := by
      rintro rfl
      exact different (reverse.symm.trans back)
    refine ⟨page, Finset.mem_erase.mpr ⟨different, tracked⟩, number, less, ?_⟩
    rw [update_of_ne distinct, update_of_ne apart]
    exact ⟨key, place, reverse, h⟩
  · intro number nonzero
    dsimp only at nonzero ⊢
    have apart : number ≠ serial := by
      rintro rfl
      exact nonzero (update_self ..)
    rw [update_of_ne apart] at nonzero
    obtain ⟨j, inside, holds, place⟩ := sound.reverse number nonzero
    have distinct : j ≠ slot := by
      rintro rfl
      rw [i] at place
      omega
    refine ⟨j, inside, ?_⟩
    rw [update_of_ne distinct]
    exact ⟨holds, place⟩

theorem Sound.untrack_untracked (sound : Sound run) (external : External run.tracker.arena addr)
    (missing : addr ∉ run.tracked) :
    Sound { run with
      tracker := untrackExternalPageLocked run.tracker addr
      tracked := run.tracked.erase addr } := by
  have none := sound.pageIndex_untracked external missing
  rw [untrackExternalPageLocked, none, Finset.erase_eq_of_notMem missing]
  exact sound

theorem step_sound {next : Run} {call : Call} (sound : Sound run)
    (within : WithinBudget run call) (moved : step run call = some next) : Sound next := by
  cases call with
  | track addr =>
    have external : External run.tracker.arena addr := within.external
    have slots := within.slots addr rfl
    by_cases mem : addr ∈ run.tracked
    · obtain ⟨-, -, -, -, h⟩ := sound.pageIndex_tracked mem
      simp only [step, sound.track_tracked mem slots, Option.some.injEq] at moved
      subst moved
      exact sound.again mem h
    · obtain ⟨slot, vacant⟩ := sound.find_absent external mem
      have claimed : trackExternalPage run.tracker addr = claimSlot run.tracker addr slot := by
        rw [trackExternalPage, if_neg (Nat.not_le.mpr slots), if_neg external.outside,
          if_neg external.isKey.1, vacant]
      simp only [step, claimed, Option.some.injEq] at moved
      subst moved
      exact sound.claim external mem slots vacant
  | untrack addr =>
    cases moved
    by_cases mem : addr ∈ run.tracked
    · exact sound.untrack_tracked mem
    · exact sound.untrack_untracked within.external mem

end Sound

section Consistent

structure Consistent (run : Run) : Prop where
  found : ∀ page ∈ run.tracked, pageIndex run.tracker page ≠ 0 ∧
    pageAddress run.tracker (pageIndex run.tracker page) = some page
  inverse : ∀ idx page, run.tracker.arena.contigPages ≤ idx →
    pageAddress run.tracker idx = some page →
      page ∈ run.tracked ∧ pageIndex run.tracker page = idx
  again : ∀ page ∈ run.tracked, run.tracker.slotNext < kTrackMaxPages →
    trackExternalPage run.tracker page = (pageIndex run.tracker page, run.tracker)
  missing : ∀ page, External run.tracker.arena page → page ∉ run.tracked →
    pageIndex run.tracker page = 0
  single : ∀ first ∈ run.given, ∀ second ∈ run.given, first.1 = second.1 → first.2 = second.2
  vacancy : ∃ slot < kTrackHashCap, run.tracker.key slot = 0
  ends : ∀ key, run.tracker.find key ≠ .exhausted
  counted : run.tracker.externalCount = run.tracker.slotNext

theorem Sound.pageAddress_serial {run : Run} (sound : Sound run) {serial : Nat}
    (below : serial < run.tracker.slotNext) :
    pageAddress run.tracker (run.tracker.arena.contigPages + serial) =
      if run.tracker.reverse serial = 0 then none else some (run.tracker.reverse serial) := by
  have budget := sound.budget
  rw [pageAddress, if_neg (by omega), Nat.add_sub_cancel_left, if_neg (by omega)]

theorem Sound.inverse {run : Run} (sound : Sound run) {i page : Nat}
    (beyond : run.tracker.arena.contigPages ≤ i) (h : pageAddress run.tracker i = some page) :
    page ∈ run.tracked ∧ pageIndex run.tracker page = i := by
  rw [pageAddress, if_neg (by omega)] at h
  split at h
  · cases h
  · split at h
    · cases h
    · rename_i nonzero
      cases h
      obtain ⟨slot, within, isKey, place⟩ := sound.reverse _ nonzero
      obtain ⟨page, tracked, serial, below, key, i, back, -⟩ := sound.entry slot within isKey
      have same : serial = _ := Nat.add_left_cancel (i.symm.trans place)
      rw [← same, back]
      refine ⟨tracked, ?_⟩
      have external := sound.external page tracked
      rw [pageIndex, if_neg external.outside, lookupIdx, if_neg external.isKey.1, Tracker.find,
        sound.filed.search_eq within external.isKey key]
      dsimp only
      omega

theorem Sound.consistent {run : Run} (sound : Sound run) : Consistent run where
  found := by
    intro page mem
    obtain ⟨serial, below, i, back, -⟩ := sound.pageIndex_tracked mem
    have positive := run.tracker.arena.positive
    have nonzero := (sound.external page mem).nonzero
    refine ⟨by omega, ?_⟩
    rw [i, sound.pageAddress_serial below, back, if_neg (by omega)]
  inverse := fun _ _ beyond h => sound.inverse beyond h
  again := fun _ mem slots => sound.track_tracked mem slots
  missing := fun _ external missing => sound.pageIndex_untracked external missing
  single := sound.single
  vacancy := sound.room
  ends := sound.search_ends
  counted := sound.counted

/-- Any sequence of calls within the slot budget keeps the two tables inverse to each other. -/
theorem tracking_consistent (arena : Arena) (states : Nat → PageState) (calls : List Call)
    (run : Run) (within : Along step WithinBudget (begin arena states) calls)
    (ran : exec step (begin arena states) calls = some run) : Consistent run :=
  (invariant_of_along step_sound (begin_sound arena states) within ran).consistent

instance (arena : Arena) (addr : Nat) : Decidable (External arena addr) :=
  decidable_of_iff
    (addr % kPageSize = 0 ∧ 0 < addr ∧ addr < wordSize ∧ ¬ arena.contains addr)
    ⟨fun ⟨aligned, nonzero, word, outside⟩ => ⟨aligned, nonzero, word, outside⟩,
      fun external => ⟨external.aligned, external.nonzero, external.word, external.outside⟩⟩

instance (run : Run) : (call : Call) → Decidable (WithinBudget run call)
  | .track addr =>
    decidable_of_iff
      (External run.tracker.arena addr ∧ run.tracker.slotNext < kTrackMaxPages)
      ⟨fun ⟨external, slots⟩ => ⟨external, fun _ _ => slots⟩,
        fun within => ⟨within.external, within.slots addr rfl⟩⟩
  | .untrack addr =>
    decidable_of_iff (External run.tracker.arena addr)
      ⟨fun external => ⟨external, by simp⟩, fun within => within.external⟩

def smallArena : Arena := ⟨2 ^ 40, 1, by decide, by decide⟩

def trackAgain : List Call := [.track 4096, .track 8192, .untrack 4096, .track 4096]

theorem tracking_consistent_again :
    ∃ run, exec step (begin smallArena fun _ => .empty) trackAgain = some run ∧
      run.given = [(3, 4096), (2, 8192), (1, 4096)] ∧ Consistent run := by
  have shown : (exec step (begin smallArena fun _ => .empty) trackAgain).map Run.given =
      some [(3, 4096), (2, 8192), (1, 4096)] := by
    decide +kernel
  obtain ⟨run, ran, given⟩ := Option.map_eq_some_iff.mp shown
  exact ⟨run, ran, given, tracking_consistent smallArena _ trackAgain run (by decide +kernel) ran⟩

end Consistent

end Smash.PageTracking
