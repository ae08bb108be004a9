import Smash.BitScan
import Smash.PageMachine

/-! How a tick splits the committed pages among its workers, and how a worker walks the pages of
its range that are in use: 64 pages a chunk, one word of `live_chunks_` a chunk. -/
namespace Smash.LivePages

open BitScan List
open PageMachine (PageState)

def kChunkSize : Nat := 64

section Bitmap

variable (states : Nat → PageState)

/-- The inner loop of `rebuildChunkBitmap`. -/
def chunkMask (committed chunk : Nat) : Word :=
  let base := chunk * kChunkSize
  let stop := min (base + kChunkSize) committed
  (List.range' base (stop - base)).foldl
    (fun mask i => if states i ≠ .empty then mask ||| 1#64 <<< (i - base) else mask) 0#64

/-- Words past the last chunk keep what they held. -/
def rebuildChunkBitmap (committed : Nat) (liveChunks : Nat → Word) : Nat → Word :=
  (List.range ((committed + kChunkSize - 1) / kChunkSize)).foldl
    (fun chunks c => Function.update chunks c (chunkMask states committed c)) liveChunks

end Bitmap

section Walks

variable {σ : Type}

def forEachLivePage (liveChunks : Nat → Word) (start stop : Nat) (fn : σ → Nat → σ) (s : σ) : σ :=
  let startChunk := start / kChunkSize
  let endChunk := (stop + kChunkSize - 1) / kChunkSize
  (List.range' startChunk (endChunk - startChunk)).foldl
    (fun s c =>
      if liveChunks c = 0#64 then s
      else
        walk (fun bit s =>
          let i := c * kChunkSize + bit
          (if start ≤ i ∧ i < stop then fn s i else s, true)) 64 (liveChunks c) s)
    s

/-- The variant with `SMASH_ABLATION_NO_CHUNK_BITMAP`. -/
def forEachLivePageLinear (states : Nat → PageState) (start stop : Nat) (fn : σ → Nat → σ)
    (s : σ) : σ :=
  (List.range' start (stop - start)).foldl
    (fun s i => if states i ≠ .empty then fn s i else s) s

end Walks

/-- The ranges `tick` gives to its workers; `running` is read once, and without helpers worker 0
takes everything. -/
def workerRanges (committed workers : Nat) (running : Bool) : List (Nat × Nat) :=
  if running ∧ 1 < workers then
    let perWorker := committed / workers
    (List.range workers).map fun w =>
      (w * perWorker, if w = workers - 1 then committed else (w + 1) * perWorker)
  else [(0, committed)]

def pagesOf (range : Nat × Nat) : List Nat := List.range' range.1 (range.2 - range.1)

section Mask

variable {states : Nat → PageState} {committed chunk : Nat}

theorem fold_mask {base bit : Nat} (pages : List Nat)
    (inside : ∀ i ∈ pages, base ≤ i ∧ i < base + 64) (mask : Word) (small : bit < 64) :
    (pages.foldl (fun mask i => if states i ≠ .empty then mask ||| 1#64 <<< (i - base) else mask)
      mask).getLsbD bit =
      (mask.getLsbD bit || decide (base + bit ∈ pages ∧ states (base + bit) ≠ .empty)) := by
  induction pages generalizing mask with
  | nil => simp
  | cons i rest ih =>
    have here := inside i mem_cons_self
    have shown : (if states i ≠ .empty then mask ||| 1#64 <<< (i - base) else mask).getLsbD bit =
        (mask.getLsbD bit || decide (base + bit = i ∧ states i ≠ .empty)) := by
      split_ifs with live
      · rw [BitVec.getLsbD_or, getLsbD_one_shift small]
        congr 1
        rw [decide_eq_decide, and_iff_left live]
        omega
      · simp [live]
    rw [foldl_cons, ih (fun j mem => inside j (mem_cons_of_mem i mem)), shown, Bool.or_assoc]
    congr 1
    rw [← Bool.decide_or, decide_eq_decide, mem_cons]
    constructor
    · rintro (⟨rfl, live⟩ | ⟨mem, live⟩)
      · exact ⟨.inl rfl, live⟩
      · exact ⟨.inr mem, live⟩
    · rintro ⟨rfl | mem, live⟩
      · exact .inl ⟨rfl, live⟩
      · exact .inr ⟨mem, live⟩

theorem chunkMask_bit {bit : Nat} (small : bit < 64) :
    (chunkMask states committed chunk).getLsbD bit =
      decide (chunk * 64 + bit < committed ∧ states (chunk * 64 + bit) ≠ .empty) := by
  unfold chunkMask
  dsimp only [kChunkSize]
  rw [fold_mask _ (fun i mem => ?_) _ small]
  · rw [BitVec.getLsbD_zero, Bool.false_or, decide_eq_decide, mem_range'_1]
    refine and_congr ?_ Iff.rfl
    omega
  · have := mem_range'_1.mp mem
    omega

theorem rebuildChunkBitmap_apply (stale : Nat → Word)
    (within : chunk < (committed + kChunkSize - 1) / kChunkSize) :
    rebuildChunkBitmap states committed stale chunk = chunkMask states committed chunk := by
  have general : ∀ (todo : List Nat) (chunks : Nat → Word),
      todo.foldl (fun chunks c => Function.update chunks c (chunkMask states committed c)) chunks
        chunk = if chunk ∈ todo then chunkMask states committed chunk else chunks chunk := by
    intro todo
    induction todo with
    | nil => simp
    | cons c rest ih =>
      intro chunks
      rw [foldl_cons, ih]
      by_cases same : chunk = c
      · subst same
        simp
      · simp [same]
  unfold rebuildChunkBitmap
  rw [general, if_pos (mem_range.mpr within)]

end Mask

section Lists

theorem flatMap_blocks (test : Nat → Bool) (first count : Nat) :
    (List.range' first count).flatMap (fun c => (List.range' (c * 64) 64).filter test) =
      (List.range' (first * 64) (count * 64)).filter test := by
  induction count generalizing first with
  | zero => simp
  | succ count ih =>
    have split : List.range' (first * 64) ((count + 1) * 64) =
        List.range' (first * 64) 64 ++ List.range' ((first + 1) * 64) (count * 64) := by
      rw [Nat.add_mul, Nat.one_mul, Nat.add_comm, ← List.range'_append_1, Nat.add_mul, Nat.one_mul]
    rw [List.range'_succ, flatMap_cons, ih, split, filter_append]

theorem filter_window (test : Nat → Bool) {first count start stop : Nat} (below : first ≤ start)
    (above : stop ≤ first + count) :
    (List.range' first count).filter (fun i => decide (start ≤ i ∧ i < stop) && test i) =
      (List.range' start (stop - start)).filter test := by
  by_cases some : start ≤ stop
  · have split : List.range' first count = List.range' first (start - first) ++
        (List.range' start (stop - start) ++ List.range' stop (first + count - stop)) := by
      have inner : List.range' start (stop - start) ++ List.range' stop (first + count - stop) =
          List.range' start (first + count - start) := by
        have joined := @List.range'_append_1 start (stop - start) (first + count - stop)
        rw [Nat.add_sub_of_le some] at joined
        rw [joined]
        congr 1
        omega
      have joined := @List.range'_append_1 first (start - first) (first + count - start)
      rw [Nat.add_sub_of_le below] at joined
      rw [inner, joined]
      congr 1
      omega
    have early : (List.range' first (start - first)).filter
        (fun i => decide (start ≤ i ∧ i < stop) && test i) = [] := by
      rw [filter_eq_nil_iff]
      intro i mem
      have := mem_range'_1.mp mem
      simp only [Bool.and_eq_true, decide_eq_true_eq]
      omega
    have late : (List.range' stop (first + count - stop)).filter
        (fun i => decide (start ≤ i ∧ i < stop) && test i) = [] := by
      rw [filter_eq_nil_iff]
      intro i mem
      have := mem_range'_1.mp mem
      simp only [Bool.and_eq_true, decide_eq_true_eq]
      omega
    rw [split, filter_append, filter_append, early, late, nil_append, append_nil]
    refine filter_congr fun i mem => ?_
    have := mem_range'_1.mp mem
    simp only [Bool.and_eq_right_iff_imp, decide_eq_true_eq]
    omega
  · have none : stop - start = 0 := by omega
    rw [none, List.range'_zero, filter_nil, filter_eq_nil_iff]
    intro i _
    simp only [Bool.and_eq_true, decide_eq_true_eq]
    omega

end Lists

section Live

variable {σ : Type} {states : Nat → PageState} {committed start stop : Nat}

theorem setBits_pages (liveChunks : Nat → Word) (c : Nat) :
    (setBits (liveChunks c)).map (c * 64 + ·) =
      (List.range' (c * 64) 64).filter (bits liveChunks) := by
  have shifted : List.range' (c * 64) 64 = (List.range 64).map (c * 64 + ·) := by
    rw [List.range'_eq_map_range]
  rw [shifted, filter_map, setBits]
  congr 1
  refine filter_congr fun bit mem => ?_
  exact (bits_at (mem_range.mp mem)).symm

/-- Whatever the bitmap holds, the walk calls its function on the pages of the range whose bit is
set, in increasing order. -/
theorem forEachLivePage_eq (liveChunks : Nat → Word) (start stop : Nat) (fn : σ → Nat → σ)
    (st : σ) : forEachLivePage liveChunks start stop fn st =
      ((List.range' start (stop - start)).filter (bits liveChunks)).foldl fn st := by
  have chunk : ∀ (st : σ) (c : Nat), (if liveChunks c = 0#64 then st
        else walk (fun bit st =>
          let p := c * 64 + bit
          (if start ≤ p ∧ p < stop then fn st p else st, true)) 64
          (liveChunks c) st) =
        (((List.range' (c * 64) 64).filter (bits liveChunks)).filter
          (fun i => decide (start ≤ i ∧ i < stop))).foldl fn st := by
    intro st c
    rw [← setBits_pages]
    split_ifs with zero
    · rw [zero, setBits_zero]
      rfl
    · rw [walk_eq_foldWhile (setBits_length _), foldWhile_eq_foldl (fun _ _ => rfl),
        foldl_filter, foldl_map]
      simp only [decide_eq_true_eq]
  have pages : ((List.range' (start / 64) ((stop + 63) / 64 - start / 64)).flatMap fun c =>
      ((List.range' (c * 64) 64).filter (bits liveChunks)).filter
        (fun i => decide (start ≤ i ∧ i < stop))) =
      (List.range' start (stop - start)).filter (bits liveChunks) := by
    simp only [filter_filter]
    rw [flatMap_blocks, filter_window]
    · omega
    · omega
  unfold forEachLivePage
  dsimp only [kChunkSize]
  rw [← pages, foldl_flatMap]
  exact congrArg (fun body => List.foldl body st _) (funext fun s => funext fun c => chunk s c)

theorem rebuilt_bits (stale : Nat → Word) {i : Nat} (within : i < committed) :
    bits (rebuildChunkBitmap states committed stale) i = decide (states i ≠ .empty) := by
  have chunk : i / 64 < (committed + kChunkSize - 1) / kChunkSize := by
    dsimp only [kChunkSize]
    omega
  have here : i / 64 * 64 + i % 64 = i := by omega
  rw [bits, rebuildChunkBitmap_apply stale chunk, chunkMask_bit (Nat.mod_lt i (by decide)), here]
  simp [within]

theorem forEachLivePage_rebuilt (stale : Nat → Word) (fn : σ → Nat → σ) (s : σ)
    (within : stop ≤ committed) :
    forEachLivePage (rebuildChunkBitmap states committed stale) start stop fn s =
      ((List.range' start (stop - start)).filter (fun i => states i ≠ .empty)).foldl fn s := by
  rw [forEachLivePage_eq]
  congr 1
  refine filter_congr fun i mem => ?_
  have := mem_range'_1.mp mem
  exact rebuilt_bits stale (by omega)

end Live

section Ranges

variable {committed workers : Nat} {running : Bool}

theorem flatMap_shares (size count : Nat) :
    (List.range count).flatMap (fun w => List.range' (w * size) size) =
      List.range (count * size) := by
  induction count with
  | zero => simp
  | succ count ih =>
    rw [range_succ, flatMap_append, ih, flatMap_singleton, Nat.succ_mul,
      range_add, List.range'_eq_map_range]

/-- The ranges follow each other from page 0 to the last committed page. -/
theorem workerRanges_cover (committed workers : Nat) (running : Bool) :
    (workerRanges committed workers running).flatMap pagesOf = List.range committed := by
  unfold workerRanges
  split_ifs with hs
  · obtain ⟨last, rfl⟩ : ∃ last, workers = last + 1 := ⟨workers - 1, by omega⟩
    have share : last * (committed / (last + 1)) ≤ committed := by
      have whole := Nat.div_mul_le_self committed (last + 1)
      have less : last * (committed / (last + 1)) ≤ committed / (last + 1) * (last + 1) := by
        rw [Nat.mul_comm]
        exact Nat.mul_le_mul_left _ (Nat.le_succ last)
      omega
    have early : ∀ w ∈ List.range last, pagesOf (w * (committed / (last + 1)),
          if w = last then committed else (w + 1) * (committed / (last + 1))) =
        List.range' (w * (committed / (last + 1))) (committed / (last + 1)) := by
      intro w mem
      have j : w ≠ last := Nat.ne_of_lt (mem_range.mp mem)
      rw [if_neg j, pagesOf, Nat.succ_mul, Nat.add_sub_cancel_left]
    rw [flatMap_map, range_succ, flatMap_append, flatMap_singleton,
      Nat.add_sub_cancel, flatMap_congr early, flatMap_shares, if_pos rfl, pagesOf]
    have joined := @List.range'_append_1 0 (last * (committed / (last + 1)))
      (committed - last * (committed / (last + 1)))
    rw [Nat.zero_add, Nat.add_sub_of_le share] at joined
    rw [range_eq_range', range_eq_range']
    exact joined
  · simp [pagesOf, range_eq_range']

theorem workerRanges_within {range : Nat × Nat}
    (mem : range ∈ workerRanges committed workers running) : range.2 ≤ committed := by
  unfold workerRanges at mem
  split_ifs at mem with hs
  · obtain ⟨w, below, rfl⟩ := mem_map.mp mem
    dsimp only
    split_ifs with last
    · exact Nat.le_refl committed
    · have small := mem_range.mp below
      have next : w + 1 ≤ workers := by omega
      exact Nat.le_trans (Nat.mul_le_mul_right _ next) (Nat.mul_div_le committed workers)
  · cases mem_singleton.mp mem
    exact Nat.le_refl committed

/-- The workers' ranges together are the committed pages, each once and in order, and a walk over
one of them with the rebuilt bitmap is the linear scan. -/
theorem live_pages_visited_once (states : Nat → PageState) (committed workers : Nat)
    (running : Bool) (stale : Nat → Word) :
    (workerRanges committed workers running).flatMap pagesOf = List.range committed ∧
    ∀ range ∈ workerRanges committed workers running, ∀ (σ : Type) (fn : σ → Nat → σ) (s : σ),
      forEachLivePage (rebuildChunkBitmap states committed stale) range.1 range.2 fn s =
        ((pagesOf range).filter fun i => states i ≠ .empty).foldl fn s ∧
      forEachLivePage (rebuildChunkBitmap states committed stale) range.1 range.2 fn s =
        forEachLivePageLinear states range.1 range.2 fn s := by
  refine ⟨workerRanges_cover committed workers running, fun range mem σ fn s => ?_⟩
  have walked := @forEachLivePage_rebuilt σ states committed range.1 range.2 stale fn s
    (workerRanges_within mem)
  refine ⟨walked, walked.trans ?_⟩
  rw [foldl_filter, forEachLivePageLinear]
  simp only [decide_eq_true_eq]

end Ranges

end Smash.LivePages
