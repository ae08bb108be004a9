import Smash.LivePages
import Smash.MaximalRuns

/-! Phase B over a worker's range: `reclaimShadowRange` walks the chunks of the range, counted from
its length, and reclaims the shadow pages whose delay has elapsed while the budget of mappings
lasts. A mapping is a maximal run of frames of equal protection. The worker runs alone and its
`mprotect` calls succeed. -/
namespace Smash.ShadowRange

open BitScan LivePages MaximalRuns Function List
open PageMachine (PageState Prot)

def kVmaResyncReclaims : Nat := 256

section Walk

variable {σ : Type}

/-- The two loops of `reclaimShadowRange`; each tests the budget before it goes on. -/
def walkShadows (liveChunks : Nat → Word) (numChunks start stop : Nat) (exhausted : σ → Bool)
    (visit : Nat → σ → σ) (s : σ) : σ :=
  foldWhile
    (fun c s =>
      if exhausted s then (s, false)
      else
        let ci := start / kChunkSize + c
        if numChunks ≤ ci then (s, false)
        else if liveChunks ci = 0#64 then (s, true)
        else
          (walk
            (fun bit s =>
              if exhausted s then (s, false)
              else
                let i := ci * kChunkSize + bit
                if stop ≤ i then (s, false) else (visit i s, true))
            64 (liveChunks ci) s, true))
    (List.range ((stop - start + kChunkSize - 1) / kChunkSize)) s

/-- The pages Phase B looks at in a range while the budget lasts. -/
def visited (liveChunks : Nat → Word) (numChunks start stop : Nat) : List Nat :=
  walkShadows liveChunks numChunks start stop (fun _ => false) (fun i seen => seen ++ [i]) []

end Walk

section Reclaim

/-- Where the pages lie: each in a frame of its own, or nowhere any more. -/
structure Region where
  address : Nat → Option Nat
  distinct : ∀ i j frame, address i = some frame → address j = some frame → i = j

/-- The tick, and what the worker finds at each page: whether it gets the lock, whether the state
has changed under it, whether there is a fault slot, and whether the page equals its blob. -/
structure Finds where
  tick : UInt32
  shadowTick : Nat → UInt32
  delay : UInt32
  lockFree : Nat → Bool
  raced : Nat → Bool
  slotFree : Nat → Bool
  contentMatches : Nat → Bool

def Finds.elapsed (finds : Finds) (i : Nat) : Bool :=
  decide (finds.delay ≤ finds.tick - finds.shadowTick i)

structure PhaseB where
  states : Nat → PageState
  layout : Nat → Prot
  vmaNow : Int
  sinceResync : Nat
  /-- Every protection layout so far. -/
  passed : List (Nat → Prot)

def PhaseB.protect (phase : PhaseB) (frame : Nat) (prot : Prot) : PhaseB :=
  { phase with
    layout := update phase.layout frame prot
    passed := update phase.layout frame prot :: phase.passed }

def PhaseB.setState (phase : PhaseB) (i : Nat) (s : PageState) : PhaseB :=
  { phase with states := update phase.states i s }

/-- The reclaim is charged one mapping; the count is read again every 256 reclaims. -/
def PhaseB.charge (phase : PhaseB) (frames : Nat) : PhaseB :=
  if kVmaResyncReclaims ≤ phase.sinceResync + 1 then
    { phase with vmaNow := runs phase.layout frames, sinceResync := 0 }
  else { phase with vmaNow := phase.vmaNow + 1, sinceResync := phase.sinceResync + 1 }

def reclaimPage (reg : Region) (finds : Finds) (frames i : Nat) (phase : PhaseB) : PhaseB :=
  if phase.states i = .compressedShadow ∧ finds.elapsed i = true ∧ finds.lockFree i = true then
    match reg.address i with
    | none => phase.setState i .empty
    | some frame =>
      let phase := phase.protect frame .read
      if finds.raced i then phase.protect frame .readWrite
      else if finds.slotFree i = false then phase.protect frame .readWrite
      else if finds.contentMatches i then
        ((phase.protect frame .none).setState i .compressed).charge frames
      else (phase.protect frame .readWrite).setState i .active
  else phase

/-- `vma_cap > 0 && vma_now >= vma_cap` -/
def PhaseB.exhausted (cap : Int) (phase : PhaseB) : Bool := decide (0 < cap ∧ cap ≤ phase.vmaNow)

def reclaimShadowRange (reg : Region) (finds : Finds) (liveChunks : Nat → Word)
    (numChunks frames : Nat) (cap : Int) (start stop : Nat) (states : Nat → PageState)
    (layout : Nat → Prot) : PhaseB :=
  walkShadows liveChunks numChunks start stop (PhaseB.exhausted cap)
    (reclaimPage reg finds frames)
    { states := states, layout := layout, vmaNow := runs layout frames, sinceResync := 0,
      passed := [layout] }

end Reclaim

section Budget

variable {region : Region} {finds : Finds} {frames i : Nat} {cap : Int} {phase : PhaseB}

/-- The count is at most what the budget says and one more for each reclaim since it was read. -/
structure Within (region : Region) (frames : Nat) (cap : Int) (phase : PhaseB) : Prop where
  writable : ∀ i frame, phase.states i = .compressedShadow → region.address i = some frame →
    phase.layout frame = .readWrite
  close : (runs phase.layout frames : Int) ≤ phase.vmaNow + phase.sinceResync
  few : phase.sinceResync < kVmaResyncReclaims
  bounded : ∀ layout ∈ phase.passed, (runs layout frames : Int) ≤ cap + 256

section

variable (within : Within reg frames cap phase)
include within

theorem Within.protected (left : phase.vmaNow < cap) (frame : Nat) (prot : Prot) :
    ∀ layout ∈ (phase.protect frame prot).passed, (runs layout frames : Int) ≤ cap + 256 := by
  intro layout mem
  rcases mem_cons.mp mem with same | earlier
  · have more := @runs_update _ _ phase.layout frames frame prot
    have close := within.close
    have few : phase.sinceResync < 256 := within.few
    rw [same]
    omega
  · exact within.bounded layout earlier

theorem Within.setState {s : PageState}
    (u : s ≠ .compressedShadow) : Within reg frames cap (phase.setState i s) where
  writable j frame shadow located := by
    change update phase.states i s j = .compressedShadow at shadow
    by_cases here : j = i
    · subst here
      rw [update_self] at shadow
      exact absurd shadow u
    · rw [update_of_ne here] at shadow
      exact within.writable j frame shadow located
  close := within.close
  few := within.few
  bounded := within.bounded

theorem Within.reopen (left : phase.vmaNow < cap)
    {frame : Nat} (open_ : phase.layout frame = .readWrite) :
    Within reg frames cap ((phase.protect frame .read).protect frame .readWrite) := by
  have same : ((phase.protect frame .read).protect frame .readWrite).layout = phase.layout := by
    change update (update phase.layout frame .read) frame .readWrite = _
    rw [update_idem, ← open_, update_eq_self]
  constructor
  · rw [same]
    exact within.writable
  · rw [same]
    exact within.close
  · exact within.few
  · intro layout mem
    rcases mem_cons.mp mem with back | earlier
    · have few : phase.sinceResync < 256 := within.few
      have close := within.close
      rw [show layout = phase.layout from back.trans same]
      omega
    · exact within.protected left frame .read layout earlier

/-- A reclaimed page: two more mappings at most, one of them charged and one counted since the
last reading. -/
theorem Within.reclaim (left : phase.vmaNow < cap)
    {frame : Nat} (located : reg.address i = some frame) : Within reg frames cap
      ((((phase.protect frame .read).protect frame .none).setState i .compressed).charge
        frames) := by
  have s' : ((phase.protect frame .read).protect frame .none).layout =
      update phase.layout frame .none := by
    change update (update phase.layout frame .read) frame .none = _
    rw [update_idem]
  have passed : ∀ layout ∈ ((phase.protect frame .read).protect frame .none).passed,
      (runs layout frames : Int) ≤ cap + 256 := by
    intro layout mem
    rcases mem_cons.mp mem with last | earlier
    · rw [show layout = update phase.layout frame .none from last.trans s']
      exact within.protected left frame .none _ mem_cons_self
    · exact within.protected left frame .read layout earlier
  have writable : ∀ j u, update phase.states i .compressed j = .compressedShadow →
      reg.address j = some u →
      ((phase.protect frame .read).protect frame .none).layout u = .readWrite := by
    intro j u shadow found
    have apart : j ≠ i := by
      rintro rfl
      rw [update_self] at shadow
      cases shadow
    rw [update_of_ne apart] at shadow
    -- Another page lies in another frame, so its protection is untouched.
    have elsewhere : u ≠ frame := by
      rintro rfl
      exact apart (reg.distinct j i u found located)
    rw [s', update_of_ne elsewhere]
    exact within.writable j u shadow found
  have more : runs ((phase.protect frame .read).protect frame .none).layout frames ≤
      runs phase.layout frames + 2 := by
    rw [s']
    exact runs_update frame Prot.none
  have close := within.close
  have few : phase.sinceResync < 256 := within.few
  unfold PhaseB.charge
  split_ifs with due
  · exact ⟨writable, by simp [PhaseB.setState], (by decide : 0 < kVmaResyncReclaims), passed⟩
  · refine ⟨writable, ?_, Nat.lt_of_not_le due, passed⟩
    change (runs ((phase.protect frame .read).protect frame .none).layout frames : Int) ≤
      phase.vmaNow + 1 + (phase.sinceResync + 1 : Nat)
    omega

theorem reclaimPage_within (left : phase.vmaNow < cap) :
    Within reg frames cap (reclaimPage reg finds frames i phase) := by
  unfold reclaimPage
  by_cases candidate : phase.states i = .compressedShadow ∧ finds.elapsed i = true ∧
      finds.lockFree i = true
  · rw [if_pos candidate]
    cases located : reg.address i with
    | none => exact within.setState (by decide)
    | some frame =>
      have open_ := within.writable i frame candidate.1 located
      have reopened := within.reopen left open_
      dsimp only
      split_ifs
      · exact reopened
      · exact reopened
      · exact within.reclaim left located
      · exact reopened.setState (by decide)
  · rw [if_neg candidate]
    exact within

end

theorem walkShadows_invariant {σ : Type} {Inv : σ → Prop} {exhausted : σ → Bool}
    {visit : Nat → σ → σ} {liveChunks : Nat → Word} {numChunks start stop : Nat}
    (keeps : ∀ i s, Inv s → exhausted s = false → Inv (visit i s)) {s : σ} (holds : Inv s) :
    Inv (walkShadows liveChunks numChunks start stop exhausted visit s) := by
  apply foldWhile_invariant _ _ holds
  intro c s holds
  dsimp only
  split_ifs
  · exact holds
  · exact holds
  · exact holds
  · dsimp only
    rw [walk_eq_foldWhile (setBits_length _)]
    apply foldWhile_invariant _ _ holds
    intro bit s holds
    split_ifs with spent past
    · exact holds
    · exact holds
    · exact keeps _ s holds (Bool.eq_false_iff.mpr spent)

/-- Phase B of one worker that starts below the cap on mappings never has more than 256 mappings
above it. -/
theorem reclaim_vmas_bounded (region : Region) (finds : Finds) (liveChunks : Nat → Word)
    (numChunks frames start stop : Nat) (vmaMaxMapCount margin : Int) (states : Nat → PageState)
    (layout : Nat → Prot)
    (writable : ∀ i frame, states i = .compressedShadow → region.address i = some frame →
      layout frame = .readWrite) (below : (runs layout frames : Int) < vmaMaxMapCount - margin) :
    ∀ passed ∈ (reclaimShadowRange region finds liveChunks numChunks frames
        (vmaMaxMapCount - margin) start stop states layout).passed,
      (runs passed frames : Int) ≤ vmaMaxMapCount - margin + 256 := by
  have start : Within region frames (vmaMaxMapCount - margin)
      { states := states, layout := layout, vmaNow := runs layout frames, sinceResync := 0,
        passed := [layout] } := by
    constructor
    · exact writable
    · simp
    · exact (by decide : 0 < kVmaResyncReclaims)
    · intro passed mem
      rw [mem_singleton.mp mem]
      omega
  refine (walkShadows_invariant (fun i phase within spent => ?_) start).bounded
  refine reclaimPage_within within ?_
  have some : 0 < vmaMaxMapCount - margin := by omega
  simp only [PhaseB.exhausted, decide_eq_false_iff_not, not_and, not_le] at spent
  exact spent some

/-- Four writable pages, of which page 2 is a shadow that still equals its blob. -/
theorem reclaim_vmas_bounded_small :
    let region : Region := ⟨some, fun _ _ _ first second => by
      cases first
      cases second
      rfl⟩
    let finds : Finds := ⟨5, fun _ => 1, 3, fun _ => true, fun _ => false, fun _ => true,
      fun _ => true⟩
    let states : Nat → PageState := fun i => if i = 2 then .compressedShadow else .active
    let r := reclaimShadowRange region finds (fun _ => 0b1111#64) 1 4 (65530 - 1000) 0 4 states
      fun _ => .readWrite
    r.states 2 = .compressed ∧ r.passed.map (fun layout => runs layout 4) = [3, 3, 1] ∧
      ∀ passed ∈ r.passed, (runs passed 4 : Int) ≤ 65530 - 1000 + 256 := by
  intro region finds states r
  refine ⟨by decide +kernel, by decide +kernel, ?_⟩
  exact reclaim_vmas_bounded region finds (fun _ => 0b1111#64) 1 4 0 4 65530 1000 states
    (fun _ => .readWrite) (fun _ _ _ _ => rfl) (by decide +kernel)

end Budget

section Coverage

variable {liveChunks : Nat → Word} {numChunks start stop : Nat}

def chunkPages (liveChunks : Nat → Word) (stop ci : Nat) : List Nat :=
  ((setBits (liveChunks ci)).filter fun bit => decide (bit < stop - ci * 64)).map (ci * 64 + ·)

/-- While the budget lasts, the walk is a plain loop over the pages of its chunks. -/
theorem walkShadows_eq {σ : Type} (visit : Nat → σ → σ) (s : σ) :
    walkShadows liveChunks numChunks start stop (fun _ => false) visit s =
      (((List.range ((stop - start + 63) / 64)).filter
          fun c => decide (c < numChunks - start / 64)).flatMap
        fun c => chunkPages liveChunks stop (start / 64 + c)).foldl (fun s i => visit i s) s := by
  have chunk : ∀ (ci : Nat) (s : σ), (if liveChunks ci = 0#64 then s
        else walk (fun bit s => if stop ≤ ci * 64 + bit then (s, false)
          else (visit (ci * 64 + bit) s, true)) 64 (liveChunks ci) s) =
        (chunkPages liveChunks stop ci).foldl (fun s i => visit i s) s := by
    intro ci s
    unfold chunkPages
    split_ifs with zero
    · rw [zero, setBits_zero]
      rfl
    · have bound : ∀ bit, stop ≤ ci * 64 + bit ↔ stop - ci * 64 ≤ bit := by omega
      rw [walk_eq_foldWhile (setBits_length _)]
      simp only [bound]
      rw [@foldWhile_below _ (fun bit s => visit (ci * 64 + bit) s) _ _
        (setBits_sorted _), foldl_map]
  have round : (fun (c : Nat) (s : σ) => if numChunks ≤ start / 64 + c then (s, false)
      else if liveChunks (start / 64 + c) = 0#64 then (s, true)
      else (walk (fun bit s => if stop ≤ (start / 64 + c) * 64 + bit then (s, false)
        else (visit ((start / 64 + c) * 64 + bit) s, true)) 64 (liveChunks (start / 64 + c))
        s, true)) =
      fun c s => if numChunks - start / 64 ≤ c then (s, false)
        else ((chunkPages liveChunks stop (start / 64 + c)).foldl (fun s i => visit i s)
          s, true) := by
    funext c s
    have bound : numChunks ≤ start / 64 + c ↔ numChunks - start / 64 ≤ c := by omega
    simp only [bound, ← chunk]
    split_ifs <;> rfl
  unfold walkShadows
  dsimp only [kChunkSize]
  simp only [Bool.false_eq_true, if_false]
  rw [round, @foldWhile_below _ (fun c s =>
    (chunkPages liveChunks stop (start / 64 + c)).foldl (fun s i => visit i s) s) _ _
    pairwise_lt_range, foldl_flatMap]
  rfl

theorem visited_eq : visited liveChunks numChunks start stop =
      ((List.range ((stop - start + 63) / 64)).filter
          fun c => decide (c < numChunks - start / 64)).flatMap
        fun c => chunkPages liveChunks stop (start / 64 + c) := by
  have appended : ∀ (pages seen : List Nat),
      pages.foldl (fun seen i => seen ++ [i]) seen = seen ++ pages := by
    intro pages
    induction pages with
    | nil => simp
    | cons page rest ih =>
      intro seen
      rw [foldl_cons, ih, append_assoc, singleton_append]
  rw [visited, walkShadows_eq, appended, nil_append]

theorem mem_visited {i : Nat} : i ∈ visited liveChunks numChunks start stop ↔
      bits liveChunks i = true ∧ start / 64 ≤ i / 64 ∧
        i / 64 < start / 64 + (stop - start + 63) / 64 ∧ i / 64 < numChunks ∧ i < stop := by
  rw [visited_eq, mem_flatMap]
  constructor
  · rintro ⟨c, mem, inside⟩
    obtain ⟨bit, found, rfl⟩ := mem_map.mp inside
    obtain ⟨set, below⟩ := mem_filter.mp found
    obtain ⟨small, active⟩ := mem_filter.mp set
    obtain ⟨few, h⟩ := mem_filter.mp mem
    have small := mem_range.mp small
    have few := mem_range.mp few
    simp only [decide_eq_true_eq] at below h
    refine ⟨(bits_at small).trans active, ?_, ?_, ?_, ?_⟩
    all_goals omega
  · rintro ⟨active, lower, upper, h, below⟩
    have here : i / 64 * 64 + i % 64 = i := by omega
    have small : i % 64 < 64 := Nat.mod_lt i (by decide)
    refine ⟨i / 64 - start / 64, mem_filter.mpr ⟨mem_range.mpr ?_, ?_⟩, ?_⟩
    · omega
    · simp only [decide_eq_true_eq]
      omega
    · rw [Nat.add_sub_of_le lower]
      refine mem_map.mpr ⟨i % 64, mem_filter.mpr ⟨?_, ?_⟩, here⟩
      · exact mem_filter.mpr ⟨mem_range.mpr small, active⟩
      · simp only [decide_eq_true_eq]
        omega

def lastStart (committed workers : Nat) (running : Bool) : Nat :=
  if running ∧ 1 < workers then (workers - 1) * (committed / workers) else 0

def coveredEnd (committed workers : Nat) (running : Bool) : Nat :=
  let start := lastStart committed workers running
  kChunkSize * (start / kChunkSize + (committed - start + kChunkSize - 1) / kChunkSize)

/-- The chunk in which a range ends is the first chunk of the next one. -/
theorem share_or_next {first size next i : Nat} (lower : first ≤ i) (upper : i < first + size)
    (further : first + size < next) :
    (first / 64 ≤ i / 64 ∧ i / 64 < first / 64 + (first + size - first + 63) / 64) ∨
      ((first + size) / 64 ≤ i / 64 ∧
        i / 64 < (first + size) / 64 + (next - (first + size) + 63) / 64) := by
  by_cases within : i / 64 < first / 64 + (first + size - first + 63) / 64
  · exact .inl ⟨Nat.div_le_div_right lower, within⟩
  · refine .inr ⟨?_, ?_⟩ <;> omega

variable {committed workers : Nat} {running : Bool} {i : Nat}

theorem covered_iff (inside : i < committed) :
    (∃ range ∈ workerRanges committed workers running, range.1 / 64 ≤ i / 64 ∧
      i / 64 < range.1 / 64 + (range.2 - range.1 + 63) / 64 ∧ i < range.2) ↔
      i < coveredEnd committed workers running := by
  unfold coveredEnd lastStart workerRanges
  dsimp only [kChunkSize]
  by_cases hs : running = true ∧ 1 < workers
  · simp only [if_pos hs]
    obtain ⟨last, rfl⟩ : ∃ last, workers = last + 1 := ⟨workers - 1, by omega⟩
    rw [Nat.add_sub_cancel]
    have whole : (last + 1) * (committed / (last + 1)) ≤ committed := Nat.mul_div_le ..
    generalize committed / (last + 1) = size at whole ⊢
    rw [Nat.succ_mul] at whole
    constructor
    · rintro ⟨range, mem, lower, upper, below⟩
      obtain ⟨w, few, rfl⟩ := mem_map.mp mem
      have few := mem_range.mp few
      dsimp only at lower upper below
      by_cases final : w = last
      · rw [if_pos final, final] at upper
        omega
      · -- An earlier range ends where the last one starts, or before.
        have earlier : (w + 1) * size ≤ last * size := Nat.mul_le_mul_right size (by omega)
        rw [if_neg final] at below
        have some : 0 < size := Nat.pos_of_ne_zero fun zero => by simp [zero] at below
        omega
    · intro below
      have ranged : ∀ w ≤ last, (w * size, if w = last then committed else (w + 1) * size) ∈
          (List.range (last + 1)).map fun w =>
            (w * size, if w = last then committed else (w + 1) * size) :=
        fun w few => mem_map.mpr ⟨w, mem_range.mpr (Nat.lt_succ_of_le few), rfl⟩
      by_cases late : last * size ≤ i
      · refine ⟨_, ranged last (Nat.le_refl last), ?_, ?_, ?_⟩
        · exact Nat.div_le_div_right late
        · rw [if_pos rfl]
          omega
        · rw [if_pos rfl]
          exact inside
      · have some : 0 < size := Nat.pos_of_ne_zero fun zero => by simp [zero] at late
        have lower : i / size * size ≤ i := Nat.div_mul_le_self i size
        have upper : i < i / size * size + size := Nat.lt_div_mul_add some
        have few : i / size < last := (Nat.div_lt_iff_lt_mul some).mpr (Nat.lt_of_not_le late)
        generalize i / size = w at lower upper few
        have product : (w + 1) * size = w * size + size := Nat.succ_mul w size
        have next : w * size + size < if w + 1 = last then committed else (w + 1 + 1) * size := by
          rw [← product]
          split_ifs with final
          · rw [final]
            omega
          · exact Nat.mul_lt_mul_of_pos_right (Nat.lt_succ_self _) some
        rcases share_or_next lower upper next with ⟨pre, s'⟩ | ⟨pre, s'⟩
        · refine ⟨_, ranged w (Nat.le_of_lt few), pre, ?_, ?_⟩
          · rw [if_neg (Nat.ne_of_lt few), product]
            exact s'
          · rw [if_neg (Nat.ne_of_lt few), product]
            exact upper
        · rw [← product] at pre s' next upper
          exact ⟨_, ranged (w + 1) few, pre, s', Nat.lt_trans upper next⟩
  · simp only [if_neg hs]
    constructor
    · intro _
      omega
    · intro _
      exact ⟨(0, committed), mem_singleton.mpr rfl, by omega, by omega, inside⟩

/-- The shadow pages that Phase B of some worker looks at are those below the end of the last
worker's last chunk. -/
theorem shadows_visited_iff (states : Nat → PageState) (committed workers numChunks : Nat)
    (running : Bool) (stale : Nat → Word) (finds : Finds)
    (fits : committed ≤ numChunks * kChunkSize) :
    (∀ i < committed, states i = .compressedShadow → finds.elapsed i = true →
      ∃ range ∈ workerRanges committed workers running,
        i ∈ visited (rebuildChunkBitmap states committed stale) numChunks range.1 range.2) ↔
    ∀ i < committed, states i = .compressedShadow → finds.elapsed i = true →
      i < coveredEnd committed workers running := by
  refine forall_congr' fun i => forall_congr' fun inside => forall_congr' fun shadow =>
    forall_congr' fun _ => ?_
  have live : bits (rebuildChunkBitmap states committed stale) i = true := by
    rw [rebuilt_bits stale inside, shadow]
    rfl
  have h : i / 64 < numChunks := by
    dsimp only [kChunkSize] at fits
    omega
  rw [← covered_iff inside]
  constructor
  · rintro ⟨range, mem, seen⟩
    obtain ⟨-, lower, upper, -, below⟩ := mem_visited.mp seen
    exact ⟨range, mem, lower, upper, below⟩
  · rintro ⟨range, mem, lower, upper, below⟩
    exact ⟨range, mem, mem_visited.mpr ⟨live, lower, upper, h, below⟩⟩

def due : Finds :=
  ⟨5, fun _ => 1, 3, fun _ => true, fun _ => false, fun _ => true, fun _ => true⟩

/-- Two workers and 128 pages: both ranges are whole chunks. -/
theorem shadows_visited_whole_chunks : workerRanges 128 2 true = [(0, 64), (64, 128)] ∧
      ∀ i < 128, ∃ range ∈ workerRanges 128 2 true,
        i ∈ visited (rebuildChunkBitmap (fun _ => .compressedShadow) 128 fun _ => 0#64) 2
          range.1 range.2 := by
  have all := (shadows_visited_iff (fun _ => .compressedShadow) 128 2 2 true (fun _ => 0#64) due
    (by decide)).mpr fun i inside _ _ => inside
  have overdue : due.elapsed 0 = true := by decide
  exact ⟨by decide, fun i inside => all i inside rfl overdue⟩

-- With 100 pages the second worker's 50 pages count as one chunk, and that is chunk 0.
theorem last_shadow_unvisited : (∀ range ∈ workerRanges 100 2 true,
      99 ∉ visited (rebuildChunkBitmap (fun _ => .compressedShadow) 100 fun _ => 0#64) 2
        range.1 range.2) ∧ due.elapsed 99 = true := by
  decide +kernel

end Coverage

end Smash.ShadowRange
