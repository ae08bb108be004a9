import Smash.Extents
import Smash.MachineWord
import Smash.Transition

/-! Page ranges of the contiguous arena: the sharded free lists, the two-phase release
through the decommit queue and the bump pointer. Pages are named by their index, so
`base_ + idx * kPageSize` and the kernel calls on the range (commit, decommit) are not
modelled here; `FreeRun` and `DecommitEntry` records are values, so their recycling pools
are not either. The runs the callers hold are kept beside the region's own fields. -/
namespace Smash.VmRegion

open Extents MachineWord Transition Function List

abbrev kNumFreeShards : Nat := 64

abbrev Shard := Fin kNumFreeShards

structure DecommitEntry where
  pages : Extent
  shardIdx : Shard
  deriving DecidableEq, Repr

structure Region where
  contigPages : Nat
  nextPage : Nat
  freeList : Shard → List Extent
  decommitQueue : List DecommitEntry
  /-- Runs returned by `allocatePages` and not released since. -/
  live : List Extent

def init (contigPages : Nat) : Region where
  contigPages := contigPages
  nextPage := 0
  freeList := fun _ => []
  decommitQueue := []
  live := []

/-- First fit over one shard's list: an exact run is unlinked, a larger one gives its
front pages and stays in place with the rest. -/
def takeFirstFit (numPages : Nat) : List Extent → Option (Nat × List Extent)
  | [] => none
  | run :: rest =>
    if numPages ≤ run.size then
      if run.size = numPages then some (run.start, rest)
      else some (run.start, ⟨run.start + numPages, run.size - numPages⟩ :: rest)
    else (takeFirstFit numPages rest).map fun (pageIdx, left) => (pageIdx, run :: left)

def probeOrder (myShard : Shard) : List Shard :=
  (List.range kNumFreeShards).map fun i => myShard + Fin.ofNat kNumFreeShards i

def takeFromShards (numPages : Nat) (freeList : Shard → List Extent) :
    List Shard → Option (Nat × (Shard → List Extent))
  | [] => none
  | shard :: others =>
    match takeFirstFit numPages (freeList shard) with
    | some (pageIdx, left) => some (pageIdx, update freeList shard left)
    | none => takeFromShards numPages freeList others

/-- The calling thread's own shard is locked; another shard whose lock is taken
(`contended`) is skipped. -/
def openShards (myShard : Shard) (contended : Shard → Bool) : List Shard :=
  (probeOrder myShard).filter fun shard => shard == myShard || !contended shard

/-- The lock-free tail of `allocatePages`; the sum in the test is a `size_t`. -/
def bumpPages (reg : Region) (numPages : Nat) : Option Nat × Region :=
  let start := reg.nextPage
  let bumped := { reg with nextPage := fetchAdd start numPages }
  if (start + numPages) % wordSize > reg.contigPages then
    (none, { bumped with nextPage := fetchSub bumped.nextPage numPages })
  else (some start, bumped)

def allocatePages (reg : Region) (myShard : Shard) (contended : Shard → Bool)
    (numPages : Nat) : Option Nat × Region :=
  match takeFromShards numPages reg.freeList (openShards myShard contended) with
  | some (pageIdx, freeList) => (some pageIdx, { reg with freeList })
  | none => bumpPages reg numPages

/-- Push on the decommit queue; the entry remembers the releasing thread's shard. -/
def releasePages (reg : Region) (myShard : Shard) (pages : Extent) : Region :=
  { reg with decommitQueue := ⟨pages, myShard⟩ :: reg.decommitQueue }

/-- The drained run goes to the head of the list of the shard the entry remembers. -/
def processDecommitEntry (reg : Region) (entry : DecommitEntry) : Region :=
  { reg with
    freeList := update reg.freeList entry.shardIdx
      (entry.pages :: reg.freeList entry.shardIdx) }

inductive Call where
  | allocate (myShard : Shard) (contended : Shard → Bool) (numPages : Nat)
  | release (myShard : Shard) (pages : Extent)
  | drain (entry : DecommitEntry)

/-- A caller releases a run it holds; the drainer takes any entry off the queue. -/
def step (reg : Region) : Call → Option Region
  | .allocate myShard contended numPages =>
    match allocatePages reg myShard contended numPages with
    | (some pageIdx, next) => some { next with live := ⟨pageIdx, numPages⟩ :: next.live }
    | (none, next) => some next
  | .release myShard pages =>
    if pages ∈ reg.live then
      some { releasePages reg myShard pages with live := reg.live.erase pages }
    else none
  | .drain entry =>
    if entry ∈ reg.decommitQueue then
      some (processDecommitEntry
        { reg with decommitQueue := reg.decommitQueue.erase entry } entry)
    else none

def freeRuns (reg : Region) : List Extent :=
  (List.finRange kNumFreeShards).flatMap reg.freeList

def queuedRuns (reg : Region) : List Extent :=
  reg.decommitQueue.map (·.pages)

def runs (reg : Region) : List Extent :=
  reg.live ++ queuedRuns reg ++ freeRuns reg

theorem takeFirstFit_depth {numPages pageIdx : Nat} {list left : List Extent}
    (taken : takeFirstFit numPages list = some (pageIdx, left)) (page : Nat) :
    depth left page + (if Covers ⟨pageIdx, numPages⟩ page then 1 else 0) = depth list page := by
  induction list generalizing left with
  | nil => simp [takeFirstFit] at taken
  | cons run rest ih =>
    obtain ⟨start, size⟩ := run
    simp only [takeFirstFit] at taken
    split at taken
    next fits =>
      split at taken
      next exact =>
        cases taken
        simp [exact]
      next larger =>
        cases taken
        have whole := covers_split pageIdx numPages (size - numPages) page
        rw [Nat.add_sub_cancel' fits] at whole
        rw [depth_cons, depth_cons]
        omega
    next small =>
      obtain ⟨⟨found, tail⟩, deeper, same⟩ := Option.map_eq_some_iff.mp taken
      simp only [Prod.mk.injEq] at same
      obtain ⟨rfl, rfl⟩ := same
      have rest := ih deeper
      simp only [depth_cons]
      omega

theorem takeFromShards_inv {numPages pageIdx : Nat} {freeList post : Shard → List Extent}
    {shards : List Shard}
    (taken : takeFromShards numPages freeList shards = some (pageIdx, post)) :
    ∃ shard left, takeFirstFit numPages (freeList shard) = some (pageIdx, left) ∧
      post = update freeList shard left := by
  induction shards with
  | nil => simp [takeFromShards] at taken
  | cons shard others ih =>
    unfold takeFromShards at taken
    split at taken
    next pageIdx left found =>
      cases taken
      exact ⟨shard, left, found, rfl⟩
    next => exact ih taken

theorem freeRuns_update_depth (reg : Region) (shard : Shard) (list : List Extent) (page : Nat) :
    depth (freeRuns { reg with freeList := update reg.freeList shard list }) page +
        depth (reg.freeList shard) page =
      depth (freeRuns reg) page + depth list page :=
  depth_flatMap_update _ _ _ (nodup_finRange _) (mem_finRange _) page

theorem runs_depth (reg : Region) (page : Nat) : depth (runs reg) page =
      depth reg.live page + depth (queuedRuns reg) page + depth (freeRuns reg) page := by
  simp [runs, Nat.add_assoc]

/-- The runs in the region's and the callers' hands tile the pages handed out so far. -/
structure Tiled (region : Region) : Prop where
  tiles : Tiles (runs region) region.nextPage
  bounded : region.nextPage ≤ region.contigPages

theorem init_tiled (contigPages : Nat) : Tiled (init contigPages) where
  tiles := fun page => by
    have empty : freeRuns (init contigPages) = [] := by simp [freeRuns, init]
    rw [runs_depth, empty]
    simp [init, queuedRuns]
  bounded := Nat.zero_le _

def NoWrap (reg : Region) : Call → Prop
  | .allocate _ _ numPages => reg.nextPage + numPages < wordSize
  | _ => True

theorem bumpPages_of_fits {reg : Region} {numPages : Nat}
    (fits : reg.nextPage + numPages < wordSize) :
    bumpPages reg numPages =
      if reg.contigPages < reg.nextPage + numPages then (none, reg)
      else (some reg.nextPage, { reg with nextPage := reg.nextPage + numPages }) := by
  have undone : fetchSub (reg.nextPage + numPages) numPages = reg.nextPage := by
    rw [fetchSub_of_le (Nat.le_add_left _ _) fits, Nat.add_sub_cancel]
  simp only [bumpPages, Nat.mod_eq_of_lt fits, fetchAdd_of_lt fits, undone, gt_iff_lt]

-- Either a free run gives its front, or fresh pages are appended, or the bump is undone.
theorem allocatePages_spec (reg : Region) (myShard : Shard) (contended : Shard → Bool)
    (numPages : Nat) (fits : reg.nextPage + numPages < wordSize) :
    (∃ pageIdx shard left, takeFirstFit numPages (reg.freeList shard) = some (pageIdx, left) ∧
      allocatePages reg myShard contended numPages = (some pageIdx,
        { reg with freeList := update reg.freeList shard left })) ∨
    (reg.nextPage + numPages ≤ reg.contigPages ∧
      allocatePages reg myShard contended numPages = (some reg.nextPage,
        { reg with nextPage := reg.nextPage + numPages })) ∨
    allocatePages reg myShard contended numPages = (none, reg) := by
  unfold allocatePages
  split
  next pageIdx s' taken =>
    obtain ⟨shard, left, found, same⟩ := takeFromShards_inv taken
    exact Or.inl ⟨pageIdx, shard, left, found, by rw [same]⟩
  next =>
    rw [bumpPages_of_fits fits]
    split
    next overshoot => exact Or.inr (Or.inr rfl)
    next inside => exact Or.inr (Or.inl ⟨by omega, rfl⟩)

instance (reg : Region) (call : Call) : Decidable (NoWrap reg call) := by
  cases call <;> unfold NoWrap <;> infer_instance

theorem step_tiled {reg next : Region} {call : Call} (h : Tiled reg)
    (fits : NoWrap reg call) (moved : step reg call = some next) : Tiled next := by
  obtain ⟨tiles, bounded⟩ := h
  have pre := fun page => (runs_depth reg page).symm.trans (tiles page)
  cases call with
  | allocate myShard contended numPages =>
    simp only [step] at moved
    rcases allocatePages_spec reg myShard contended numPages fits with
      ⟨pageIdx, shard, left, found, r⟩ | ⟨inside, r⟩ | r
    · simp only [r, Option.some.injEq] at moved
      subst moved
      refine ⟨fun page => ?_, bounded⟩
      have total := pre page
      have split := takeFirstFit_depth found page
      have moved := freeRuns_update_depth reg shard left page
      simp only [runs_depth, depth_cons, queuedRuns, freeRuns] at *
      omega
    · simp only [r, Option.some.injEq] at moved
      subst moved
      refine ⟨fun page => ?_, inside⟩
      have total := pre page
      have grown := covers_grow reg.nextPage numPages page
      simp only [runs_depth, depth_cons, queuedRuns, freeRuns] at *
      omega
    · simp only [r, Option.some.injEq] at moved
      subst moved
      exact ⟨tiles, bounded⟩
  | release myShard pages =>
    simp only [step] at moved
    split at moved
    next held =>
      cases moved
      refine ⟨fun page => ?_, bounded⟩
      change _ = if page < reg.nextPage then 1 else 0
      have total := pre page
      have taken := depth_erase held page
      simp only [runs_depth, releasePages, queuedRuns, freeRuns, map_cons, depth_cons] at *
      omega
    next => cases moved
  | drain entry =>
    simp only [step] at moved
    split at moved
    next queued =>
      cases moved
      refine ⟨fun page => ?_, bounded⟩
      change _ = if page < reg.nextPage then 1 else 0
      have total := pre page
      have taken := depth_perm ((perm_cons_erase queued).map (·.pages)) page
      have pushed := freeRuns_update_depth reg entry.shardIdx
        (entry.pages :: reg.freeList entry.shardIdx) page
      simp only [runs_depth, processDecommitEntry, queuedRuns, freeRuns, map_cons, depth_cons] at *
      omega
    next => cases moved

theorem runs_disjoint_and_cover (contigPages : Nat) (calls : List Call) (reg : Region)
    (fits : Along step NoWrap (init contigPages) calls)
    (ran : exec step (init contigPages) calls = some reg) : (runs reg).Pairwise Apart ∧
      (∀ page, (∃ run ∈ runs reg, Covers run page) ↔ page < reg.nextPage) ∧
      reg.nextPage ≤ reg.contigPages := by
  have tiled := invariant_of_along step_tiled (init_tiled contigPages) fits ran
  exact ⟨tiled.tiles.pairwise, tiled.tiles.covered_iff, tiled.bounded⟩

def idle : Shard → Bool := fun _ => false

def recycleCalls : List Call :=
  [.allocate 0 idle 8, .release 1 ⟨0, 8⟩, .drain ⟨⟨0, 8⟩, 1⟩, .allocate 2 idle 3]

theorem runs_disjoint_and_cover_recycled : Along step NoWrap (init 10) recycleCalls ∧
      ∃ reg, exec step (init 10) recycleCalls = some reg ∧
        reg.live = [⟨0, 3⟩] ∧ (runs reg).Pairwise Apart := by
  have fits : Along step NoWrap (init 10) recycleCalls := by decide
  exact ⟨fits, _, rfl, by decide, (runs_disjoint_and_cover 10 recycleCalls _ fits rfl).1⟩

-- The sum `next_page_ + num_pages` wraps to 0, passes the bound test and moves the bump
-- pointer back to page 0, so the next call gets a page of the first run.
theorem allocatePages_wrap_overlaps : ∃ reg, exec step (init 10)
        [.allocate 0 idle 8, .allocate 0 idle (2 ^ 64 - 8), .allocate 0 idle 1] = some reg ∧
      reg.live = [⟨0, 1⟩, ⟨8, 2 ^ 64 - 8⟩, ⟨0, 8⟩] ∧ reg.nextPage = 1 ∧
      ¬ (runs reg).Pairwise Apart := by
  exact ⟨_, rfl, by decide, by decide, by decide⟩

end Smash.VmRegion
