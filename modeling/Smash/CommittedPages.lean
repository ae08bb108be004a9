import Smash.PageTracking

/-! How many pages the compressor's tick runs over. The bump pointer, the slot counter and
the published count are moved by calls of any number of threads; each `fetch_add`, `fetch_sub`
and compare-exchange is one step. A slot that was passed while taken stays taken, so a search
of the table together with the compare-exchange that wins the first free slot is one step. -/
namespace Smash.CommittedPages

open MachineWord PageMachine PageTracking ProbeTable Transition Function List

inductive Mode where
  | full (arena : Arena)
  | compressOnly

/-- The counters of `VmRegion`, and the calls that are under way. -/
structure State where
  mode : Mode
  key : Nat → Nat
  nextPage : Nat
  slotNext : Nat
  externalCount : Nat
  /-- Page counts of `allocatePages` calls that overshot and have not rolled back. -/
  rollBacks : List Nat
  /-- Pages whose tracking call is past its first checks. -/
  entered : List Nat
  /-- Pages whose tracking call has taken a table slot. -/
  claimed : List Nat
  /-- Tracking calls that have a slot number and will publish it. -/
  numbered : Nat

def totalPages : Mode → Nat
  | .full arena => arena.contigPages + kTrackMaxPages
  | .compressOnly => kTrackMaxPages

/-- After `init`: index 0 is reserved in compress-only mode. -/
def start (mode : Mode) : State where
  mode := mode
  key := fun _ => 0
  nextPage := match mode with
    | .full _ => 0
    | .compressOnly => 1
  slotNext := 0
  externalCount := 0
  rollBacks := []
  entered := []
  claimed := []
  numbered := 0

def committedPages (s : State) : Nat :=
  match s.mode with
  | .compressOnly => s.nextPage
  | .full arena =>
    if s.externalCount = 0 then s.nextPage
    else arena.contigPages + s.externalCount

section Tick

def kChunkSize : Nat := 64

/-- The indices `rebuildChunkBitmap` reads the state of, chunk by chunk. -/
def rebuildChunkBitmap (committed : Nat) : List Nat :=
  (List.range ((committed + kChunkSize - 1) / kChunkSize)).flatMap fun c =>
    (List.range (min (c * kChunkSize + kChunkSize) committed - c * kChunkSize)).map
      fun i => c * kChunkSize + i

theorem rebuildChunkBitmap_lt {committed p : Nat}
    (visited : p ∈ rebuildChunkBitmap committed) : p < committed := by
  obtain ⟨c, -, inChunk⟩ := mem_flatMap.mp visited
  obtain ⟨i, below, rfl⟩ := mem_map.mp inChunk
  have small := mem_range.mp below
  omega

theorem rebuildChunkBitmap_last (committed : Nat) :
    committed ∈ rebuildChunkBitmap (committed + 1) := by
  have chunk : kChunkSize = 64 := rfl
  refine mem_flatMap.mpr ⟨committed / kChunkSize, mem_range.mpr ?_, ?_⟩
  · rw [chunk]
    omega
  · refine mem_map.mpr ⟨committed % kChunkSize, mem_range.mpr ?_, ?_⟩
    · rw [chunk]
      omega
    · rw [Nat.mul_comm]
      exact Nat.div_add_mod committed kChunkSize

end Tick

section Steps

inductive Event where
  | reserve (numPages : Nat)
  | rollBack (numPages : Nat)
  | enter (addr : Nat)
  | claim (addr : Nat)
  | number (addr : Nat)
  | publish
  deriving DecidableEq, Repr

/-- The bump of `allocatePages`: the count is added before it is checked. -/
def reserve (s : State) (arena : Arena) (numPages : Nat) : State :=
  { s with
    nextPage := fetchAdd s.nextPage numPages
    rollBacks :=
      if arena.contigPages < (s.nextPage + numPages) % wordSize then
        numPages :: s.rollBacks
      else s.rollBacks }

/-- The checks before the table is searched; `trackPage` has none for the budget. -/
def admits (s : State) (addr : Nat) : Bool :=
  match s.mode with
  | .full arena =>
    s.slotNext < kTrackMaxPages && !decide (arena.contains addr) && pageKey addr != 0
  | .compressOnly => pageKey addr != 0

def enter (s : State) (addr : Nat) : State :=
  if admits s addr then { s with entered := addr :: s.entered } else s

def claim (s : State) (addr : Nat) : State :=
  let searched := { s with entered := s.entered.erase addr }
  match search s.key 0 (pageKey addr) kTrackHashCap (homeSlot (pageKey addr)) with
  | .vacant slot =>
    { searched with
      key := update s.key slot (pageKey addr)
      claimed := addr :: s.claimed }
  | .found _ | .exhausted => searched

/-- The slot number is taken, then compared with the capacity. -/
def number (s : State) (addr : Nat) : State :=
  let counted := { s with claimed := s.claimed.erase addr }
  match s.mode with
  | .compressOnly => { counted with nextPage := fetchAdd s.nextPage 1 }
  | .full _ =>
    { counted with
      slotNext := s.slotNext + 1
      numbered := if kTrackMaxPages ≤ s.slotNext then s.numbered else s.numbered + 1 }

def step (s : State) : Event → Option State
  | .reserve numPages =>
    match s.mode with
    | .full arena => some (reserve s arena numPages)
    | .compressOnly => none
  | .rollBack numPages =>
    if numPages ∈ s.rollBacks then
      some { s with
        nextPage := fetchSub s.nextPage numPages
        rollBacks := s.rollBacks.erase numPages }
    else none
  | .enter addr => some (enter s addr)
  | .claim addr => if addr ∈ s.entered then some (claim s addr) else none
  | .number addr => if addr ∈ s.claimed then some (number s addr) else none
  | .publish =>
    if 0 < s.numbered then
      some { s with
        externalCount := s.externalCount + 1
        numbered := s.numbered - 1 }
    else none

end Steps

section Bounded

/-- A counter that bounds the tick is moved only as far as the capacity. -/
def Fits (s : State) : Event → Prop
  | .reserve numPages => s.nextPage + numPages ≤ totalPages s.mode
  | .number _ =>
    match s.mode with
    | .compressOnly => s.nextPage < totalPages s.mode
    | .full _ => True
  | _ => True

/-- Every roll-back that is due has been added, and every published slot has a number. -/
structure Bounded (state : State) : Prop where
  next : state.nextPage ≤ totalPages state.mode
  owed : state.rollBacks.sum ≤ state.nextPage
  slots : state.externalCount + state.numbered ≤ min state.slotNext kTrackMaxPages

theorem totalPages_lt (mode : Mode) : totalPages mode < wordSize := by
  have page : kPageSize = 4096 := rfl
  have word : wordSize = 2 ^ 64 := rfl
  have most : kTrackMaxPages = 131072 := rfl
  cases mode with
  | full arena =>
    have inside := arena.inside
    simp only [totalPages, page, word, most] at *
    omega
  | compressOnly =>
    simp only [totalPages, word, most]
    omega

theorem start_bounded (mode : Mode) : Bounded (start mode) where
  next := by cases mode <;> simp [start, totalPages, kTrackMaxPages]
  owed := by simp [start]
  slots := by simp [start]

variable {s next : State}

theorem reserve_bounded {arena : Arena} {numPages : Nat} (h : Bounded s)
    (fits : s.nextPage + numPages ≤ totalPages s.mode) : Bounded (reserve s arena numPages) := by
  have owed := h.owed
  have exact : fetchAdd s.nextPage numPages = s.nextPage + numPages :=
    fetchAdd_of_lt (fits.trans_lt (totalPages_lt _))
  refine ⟨?_, ?_, h.slots⟩
  · exact exact.trans_le fits
  · show List.sum (if _ then _ else _) ≤ fetchAdd s.nextPage numPages
    rw [exact]
    split
    · rw [sum_cons]
      omega
    · omega

theorem rollBack_bounded {numPages : Nat} (h : Bounded s)
    (mem : numPages ∈ s.rollBacks) :
    Bounded { s with
      nextPage := fetchSub s.nextPage numPages
      rollBacks := s.rollBacks.erase numPages } := by
  have owed := h.owed
  have total : s.rollBacks.sum = numPages + (s.rollBacks.erase numPages).sum := by
    rw [(perm_cons_erase mem).sum_nat, sum_cons]
  have bound := h.next
  have exact : fetchSub s.nextPage numPages = s.nextPage - numPages :=
    fetchSub_of_le (by omega) (bound.trans_lt (totalPages_lt _))
  refine ⟨?_, ?_, h.slots⟩
  · show fetchSub s.nextPage numPages ≤ totalPages s.mode
    omega
  · show (s.rollBacks.erase numPages).sum ≤ fetchSub s.nextPage numPages
    omega

theorem number_bounded {addr : Nat} (h : Bounded s) (fits : Fits s (.number addr)) :
    Bounded (number s addr) := by
  have owed := h.owed
  have slots := h.slots
  cases mode : s.mode with
  | compressOnly =>
    simp only [Fits, mode] at fits
    have exact : fetchAdd s.nextPage 1 = s.nextPage + 1 :=
      fetchAdd_of_lt (Nat.lt_of_le_of_lt fits (totalPages_lt _))
    simp only [number, mode]
    refine ⟨?_, ?_, slots⟩
    · rw [exact]
      exact fits
    · show s.rollBacks.sum ≤ fetchAdd s.nextPage 1
      omega
  | full arena =>
    simp only [number, mode]
    refine ⟨mode ▸ h.next, owed, ?_⟩
    dsimp only
    split <;> omega

theorem step_bounded {event : Event} (h : Bounded s) (fits : Fits s event)
    (moved : step s event = some next) : Bounded next := by
  cases event with
  | reserve numPages =>
    simp only [step] at moved
    split at moved
    · cases moved
      exact reserve_bounded h fits
    · cases moved
  | rollBack numPages =>
    simp only [step] at moved
    split at moved
    next mem =>
      cases moved
      exact rollBack_bounded h mem
    next => cases moved
  | enter addr =>
    simp only [step, enter, Option.some.injEq] at moved
    split at moved
    all_goals
      subst moved
      exact ⟨h.next, h.owed, h.slots⟩
  | claim addr =>
    simp only [step, claim] at moved
    split at moved
    · cases moved
      split
      all_goals exact ⟨h.next, h.owed, h.slots⟩
    · cases moved
  | number addr =>
    simp only [step] at moved
    split at moved
    · cases moved
      exact number_bounded h fits
    · cases moved
  | publish =>
    simp only [step] at moved
    split at moved
    next pending =>
      cases moved
      have slots := h.slots
      refine ⟨h.next, h.owed, ?_⟩
      show s.externalCount + 1 + (s.numbered - 1) ≤ min s.slotNext kTrackMaxPages
      omega
    next => cases moved

theorem Bounded.committed_le (h : Bounded s) : committedPages s ≤ totalPages s.mode := by
  have next := h.next
  have slots := h.slots
  unfold committedPages
  split
  next => exact next
  next arena mode =>
    split
    · exact next
    · rw [mode]
      show arena.contigPages + s.externalCount ≤ arena.contigPages + kTrackMaxPages
      omega

/-- In every run that adds to the bump pointer only what the capacity has room for, the tick
stays inside the per-page arrays. -/
theorem tick_within_arrays (mode : Mode) (events : List Event) (s : State)
    (fits : Along step Fits (start mode) events) (ran : exec step (start mode) events = some s) :
    committedPages s ≤ totalPages s.mode ∧
      ∀ i ∈ rebuildChunkBitmap (committedPages s), i < totalPages s.mode := by
  have h : Bounded s := invariant_of_along step_bounded (start_bounded mode) fits ran
  refine ⟨h.committed_le, fun i visited => ?_⟩
  exact (rebuildChunkBitmap_lt visited).trans_le h.committed_le

instance (s : State) : (event : Event) → Decidable (Fits s event)
  | .reserve numPages =>
    inferInstanceAs (Decidable (s.nextPage + numPages ≤ totalPages s.mode))
  | .number _ =>
    match mode : s.mode with
    | .compressOnly =>
      decidable_of_iff (s.nextPage < totalPages .compressOnly) (by simp [Fits, mode])
    | .full _ => isTrue (by simp [Fits, mode])
  | .rollBack _ | .enter _ | .claim _ | .publish => isTrue trivial

def overshootAndTrack : List Event :=
  [.reserve 1, .enter 4096, .claim 4096, .number 4096, .reserve 5, .publish, .rollBack 5]

theorem tick_within_arrays_overshoot :
    ∃ s, exec step (start (.full smallArena)) overshootAndTrack = some s ∧
      committedPages s = 2 ∧ committedPages s ≤ totalPages s.mode := by
  have shown : (exec step (start (.full smallArena)) overshootAndTrack).map committedPages =
      some 2 := by
    decide +kernel
  obtain ⟨s, ran, committed⟩ := Option.map_eq_some_iff.mp shown
  have within := tick_within_arrays (.full smallArena) overshootAndTrack s (by decide +kernel) ran
  exact ⟨s, ran, committed, within.1⟩

end Bounded

section Overrun

def trackPage (addr : Nat) : List Event := [.enter addr, .claim addr, .number addr]

/-- The state between calls of compress-only mode after `count` pages, the first `count`
pages of the address space without the page at 0. -/
structure Tracked (count : Nat) (state : State) : Prop where
  mode : state.mode = .compressOnly
  next : state.nextPage = count + 1
  room : occupied state.key 0 kTrackHashCap ≤ count
  keys : ∀ slot, state.key slot ≤ count
  idle : state.entered = [] ∧ state.claimed = []

theorem trackPage_next {count : Nat} {s : State} (tracked : Tracked count s)
    (below : count < kTrackHashCap) :
    ∃ next, exec step s (trackPage ((count + 1) * kPageSize)) = some next ∧
      Tracked (count + 1) next := by
  have key : pageKey ((count + 1) * kPageSize) = count + 1 := Nat.mul_div_cancel _ (by decide)
  have absent : ∀ slot < kTrackHashCap, s.key slot ≠ count + 1 := by
    intro slot _ same
    have bound := tracked.keys slot
    omega
  obtain ⟨slot, vacant⟩ := search_absent absent
    (exists_vacant (tracked.room.trans_lt below)) (homeSlot (count + 1))
  obtain ⟨noneEntered, noneClaimed⟩ := tracked.idle
  have cap : kTrackHashCap + 1 < wordSize := by decide
  have bumped : fetchAdd (count + 1) 1 = count + 1 + 1 := fetchAdd_of_lt (by omega)
  refine ⟨{ s with
    key := update s.key slot (count + 1)
    nextPage := count + 1 + 1 }, ?_, ?_⟩
  · simp [trackPage, exec, step, enter, admits, claim, number, tracked.mode, key, vacant,
      noneEntered, noneClaimed, tracked.next, bumped]
  · refine ⟨tracked.mode, rfl, ?_, ?_, tracked.idle⟩
    · exact occupied_update_le.trans (Nat.succ_le_succ tracked.room)
    · intro j
      dsimp only
      rcases eq_or_ne j slot with same | apart
      · rw [same, update_self]
      · rw [update_of_ne apart]
        exact (tracked.keys j).trans (Nat.le_succ _)

def trackPages : Nat → List Event
  | 0 => []
  | count + 1 => trackPages count ++ trackPage ((count + 1) * kPageSize)

theorem trackPages_run {count : Nat} (small : count ≤ kTrackHashCap) :
    ∃ s, exec step (start .compressOnly) (trackPages count) = some s ∧ Tracked count s := by
  induction count with
  | zero =>
    refine ⟨start .compressOnly, rfl, rfl, rfl, ?_, fun _ => le_rfl, rfl, rfl⟩
    simp [start, occupied]
  | succ count ih =>
    obtain ⟨middle, first, tracked⟩ := ih (by omega)
    obtain ⟨s, second, s'⟩ := trackPage_next tracked (by omega)
    exact ⟨s, exec_append.mpr ⟨middle, first, second⟩, s'⟩

/-- In compress-only mode the 131072nd page moves the count past the arrays for good: no
call is under way, and the next tick reads the state of a page that does not exist. -/
theorem trackPage_overruns :
    ∃ s, exec step (start .compressOnly) (trackPages kTrackMaxPages) = some s ∧
      s.entered = [] ∧ s.claimed = [] ∧ totalPages s.mode < committedPages s ∧
      totalPages s.mode ∈ rebuildChunkBitmap (committedPages s) := by
  have small : kTrackMaxPages ≤ kTrackHashCap := by decide
  obtain ⟨s, ran, tracked⟩ := trackPages_run small
  have total : totalPages s.mode = kTrackMaxPages := by rw [tracked.mode, totalPages]
  have committed : committedPages s = kTrackMaxPages + 1 := by
    rw [committedPages, tracked.mode]
    exact tracked.next
  refine ⟨s, ran, tracked.idle.1, tracked.idle.2, ?_, ?_⟩
  · omega
  · rw [total, committed]
    exact rebuildChunkBitmap_last kTrackMaxPages

end Overrun

end Smash.CommittedPages
