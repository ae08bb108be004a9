import Smash.LargeCache

/-! Runs of `LargeAlloc`: every block is live, cached or given back and never two of these, and
the byte counter follows the cache. A running call has the span it moves in its hands. -/
namespace Smash.LargeCache

open Extents LargeAlloc MachineWord PageMachine Transition Function List

section Invariant

variable (cfg : Config)

/-- Every bucket holds spans of its own page count, not too many, and only the buckets that
`purgeIdle` visits hold any. -/
structure Shelves (spans : Nat → Span) (blocks : Int → List Nat) : Prop where
  outside : ∀ bucket, bucket ∉ usedBuckets → blocks bucket = []
  sizes : ∀ k < kUsedBuckets, ∀ id ∈ blocks k, (spans id).pageCount = rung k
  depth : ∀ bucket, (blocks bucket).length ≤ kDepth

theorem Shelves.update {spans : Nat → Span} {blocks : Int → List Nat}
    (h : Shelves spans blocks) {k : Nat} (small : k < kUsedBuckets) {items : List Nat}
    (sizes : ∀ id ∈ items, (spans id).pageCount = rung k) (few : items.length ≤ kDepth) :
    Shelves spans (update blocks k items) where
  outside := by
    intro bucket u
    have apart : bucket ≠ k := fun same => u (mem_usedBuckets.mpr ⟨k, small, same⟩)
    rw [update_of_ne apart]
    exact h.outside bucket u
  sizes := by
    intro j inside id mem
    by_cases same : j = k
    · subst same
      rw [update_self] at mem
      exact sizes id mem
    · have apart : (j : Int) ≠ k := fun cast => same (Int.ofNat.inj cast)
      rw [update_of_ne apart] at mem
      exact h.sizes j inside id mem
  depth := by
    intro bucket
    by_cases same : bucket = k
    · subst same
      rw [update_self]
      exact few
    · rw [update_of_ne same]
      exact h.depth bucket

def State.bytesOf (s : State) (id : Nat) : Nat := (s.spans id).pageCount * kPageSize

/-- Every span is in one place: in the hands of a running call, live, cached or recycled. -/
structure Sound (hand : List Nat) (state : State) : Prop where
  places : (hand ++ state.live ++ state.cached ++ state.recycled).Perm
    (List.range state.nextSpan)
  logged : state.disposed.map Disposal.span = state.recycled
  shelves : Shelves state.spans state.cache.blocks
  bytes : state.cache.bytes = (state.cached.map state.bytesOf).sum
  cap : state.cache.bytes ≤ cfg.maxBytes
  requests : ∀ id ∈ state.live, 1 ≤ (state.spans id).pageCount ∧
    (state.spans id).largeSize ≤ (state.spans id).pageCount * kPageSize
  blocks : ∀ id ∈ hand ++ state.live ++ state.cached,
    state.obtained id = ⟨(state.spans id).base, (state.spans id).pageCount⟩
  disposals : ∀ disposal ∈ state.disposed, state.obtained disposal.span = disposal.pages ∧
    disposal.way = if inRegion cfg disposal.pages.start then .released else .unmapped

variable {cfg}

theorem initial_cached : initial.cached = [] := by
  simp [initial, State.cached, cachedIn, emptyCache]

theorem initial_sound : Sound cfg [] initial where
  places := by
    rw [initial_cached]
    exact List.Perm.nil
  logged := rfl
  shelves := ⟨fun _ _ => rfl, fun _ _ id mem => by simp [initial, emptyCache] at mem,
    fun _ => Nat.zero_le _⟩
  bytes := by
    rw [initial_cached]
    rfl
  cap := Nat.zero_le _
  requests := fun id mem => by simp [initial] at mem
  blocks := fun id mem => by
    rw [initial_cached] at mem
    cases mem
  disposals := fun disposal mem => by simp [initial] at mem

variable {hand : List Nat} {s : State}

theorem Sound.mem_cached (h : Sound cfg hand s) {id : Nat} (mem : id ∈ s.cached) :
    ∃ k < kUsedBuckets, id ∈ s.cache.blocks k ∧ (s.spans id).pageCount = rung k := by
  obtain ⟨bucket, used, inside⟩ := mem_flatMap.mp mem
  obtain ⟨k, small, rfl⟩ := mem_usedBuckets.mp used
  exact ⟨k, small, inside, h.shelves.sizes k small id inside⟩

theorem rung_le {k : Nat} (small : k < kUsedBuckets) : rung k ≤ 2048 := by
  rw [kUsedBuckets_eq] at small
  exact (rung_le_kMaxPages k).mpr small

theorem Sound.cached_length (h : Sound cfg hand s) : s.cached.length ≤ 72 * kDepth := by
  have count : usedBuckets.length = 72 := by
    rw [usedBuckets, length_map, length_range, kUsedBuckets_eq]
  have each := sum_le_card_nsmul (usedBuckets.map fun bucket =>
    (s.cache.blocks bucket).length) kDepth fun length mem => by
      obtain ⟨bucket, -, rfl⟩ := mem_map.mp mem
      exact h.shelves.depth bucket
  rw [length_map, count] at each
  rw [State.cached, cachedIn, length_flatMap]
  simpa using each

theorem Sound.bytes_small (h : Sound cfg hand s) : s.cache.bytes < 2 ^ 35 := by
  have each := sum_le_card_nsmul (s.cached.map s.bytesOf) (2048 * kPageSize) fun size mem => by
      obtain ⟨id, cached, rfl⟩ := mem_map.mp mem
      obtain ⟨k, small, -, count⟩ := h.mem_cached cached
      rw [State.bytesOf, count]
      exact Nat.mul_le_mul_right _ (rung_le small)
  have length := h.cached_length
  have total : 72 * kDepth * (2048 * kPageSize) < 2 ^ 35 := by decide
  rw [length_map, smul_eq_mul] at each
  rw [h.bytes]
  exact lt_of_le_of_lt (each.trans (Nat.mul_le_mul_right _ length)) total

end Invariant

section Moves

variable {cfg : Config} {hand : List Nat} {s : State} {id : Nat}
variable {left : LargeBlockCache}

theorem Sound.take (h : Sound cfg [] s) (mem : id ∈ s.live) :
    Sound cfg [id] { s with live := s.live.erase id } := by
  have moved := (perm_cons_erase mem).symm
  exact { h with
    places := ((moved.append_right _).append_right _).trans h.places
    requests := fun j present => h.requests j (mem_of_mem_erase present)
    blocks := fun j present => h.blocks j ((moved.append_right _).mem_iff.mp present) }

theorem Sound.rebucket {after : List Nat} (h : Sound cfg hand s) {k : Nat}
    (small : k < kUsedBuckets) {items : List Nat} {bytes : Nat} {lastUse : Int → Nat}
    (sizes : ∀ id ∈ items, (s.spans id).pageCount = rung k) (few : items.length ≤ kDepth)
    (moved : (after ++ items).Perm (hand ++ s.cache.blocks k))
    (counted : bytes + ((s.cache.blocks k).map s.bytesOf).sum =
      s.cache.bytes + (items.map s.bytesOf).sum)
    (cap : bytes ≤ cfg.maxBytes) :
    Sound cfg after { s with
      cache := ⟨update s.cache.blocks k items, bytes⟩, lastUse } := by
  obtain ⟨others, pre, now⟩ :=
    @cachedIn_update s.cache.blocks k (mem_usedBuckets.mpr ⟨k, small, rfl⟩) items
  -- what is in the hand or in the cache is the same as before
  have same : (after ++ cachedIn (update s.cache.blocks k items)).Perm (hand ++ s.cached) := by
    refine (now.append_left after).trans (List.Perm.trans ?_ (pre.append_left hand).symm)
    rw [← append_assoc, ← append_assoc]
    exact moved.append_right others
  have held : (after ++ s.live ++ cachedIn (update s.cache.blocks k items)).Perm
      (hand ++ s.live ++ s.cached) := by
    rw [append_assoc, append_assoc]
    exact (perm_append_comm_assoc ..).trans ((same.append_left _).trans (perm_append_comm_assoc ..))
  refine { h with
    places := (held.append_right _).trans h.places
    shelves := h.shelves.update small sizes few
    bytes := ?_
    cap := cap
    blocks := fun id present => h.blocks id (held.mem_iff.mp present) }
  · have old := (pre.map s.bytesOf).sum_nat
    have new := (now.map s.bytesOf).sum_nat
    rw [map_append, sum_append] at old new
    have total := h.bytes
    rw [State.cached, old] at total
    refine Eq.trans ?_ new.symm
    change bytes = _
    omega

theorem push_sound (h : Sound cfg (id :: hand) s) {k now : Nat} {next : State}
    (small : k < kUsedBuckets) (size : (s.spans id).pageCount = rung k)
    (pushed : push cfg id (rung k) now s = some next) : Sound cfg hand next := by
  have sum : fetchAdd s.cache.bytes (rung k * kPageSize) = s.cache.bytes + rung k * kPageSize := by
    have few := h.bytes_small
    have most := rung_le small
    have page : kPageSize = 4096 := rfl
    have word : wordSize = 2 ^ 64 := rfl
    apply fetchAdd_of_lt
    rw [page]
    omega
  simp only [push, bucketOf_rung, sum] at pushed
  split at pushed
  · cases pushed
  next room =>
  split at pushed
  · cases pushed
  next shallow =>
  cases pushed
  refine h.rebucket small ?_ ?_ ?_ ?_ (Nat.not_lt.mp room)
  · intro j mem
    rcases mem_cons.mp mem with rfl | old
    · exact size
    · exact h.shelves.sizes k small j old
  · rw [length_cons]
    omega
  · exact perm_middle
  · rw [map_cons, sum_cons, State.bytesOf, size]
    omega

theorem dispose_sound (h : Sound cfg (id :: hand) s) {way : Way} {pages : Nat}
    (size : (s.spans id).pageCount = pages)
    (right : way = if inRegion cfg (s.spans id).base then .released else .unmapped) :
    Sound cfg hand (dispose way id pages s) := by
  refine { h with
    places := perm_middle.trans h.places
    logged := by simp [dispose, h.logged]
    blocks := fun j present => h.blocks j (mem_cons_of_mem id present)
    disposals := fun disposal mem => ?_ }
  rcases mem_cons.mp mem with rfl | old
  · refine ⟨?_, right⟩
    rw [← size]
    exact h.blocks id (by simp)
  · exact h.disposals disposal old

theorem pop_sound (h : Sound cfg [] s) {k : Nat}
    (small : k < kUsedBuckets) (popped : s.cache.pop (rung k) = some (id, left)) :
    Sound cfg [id] { s with cache := left } ∧ (s.spans id).pageCount = rung k := by
  unfold LargeBlockCache.pop at popped
  rw [bucketOf_rung] at popped
  split at popped
  · cases popped
  next rest top =>
  cases popped
  have size : (s.spans id).pageCount = rung k :=
    h.shelves.sizes k small id (by rw [top]; exact mem_cons_self)
  have held : rung k * kPageSize ≤ s.cache.bytes := by
    have total := ((cachedIn_pop (mem_usedBuckets.mpr ⟨k, small, rfl⟩) top).map s.bytesOf).sum_nat
    rw [map_cons, sum_cons, ← State.cached, ← h.bytes, State.bytesOf, size] at total
    omega
  have less : fetchSub s.cache.bytes (rung k * kPageSize) = s.cache.bytes - rung k * kPageSize :=
    fetchSub_of_le held (h.bytes_small.trans (by decide))
  refine ⟨h.rebucket small ?_ ?_ ?_ ?_ ?_, size⟩
  · intro j mem
    exact h.shelves.sizes k small j (by rw [top]; exact mem_cons_of_mem id mem)
  · have few := h.shelves.depth k
    rw [top, length_cons] at few
    omega
  · rw [top]
    exact List.Perm.refl _
  · rw [top, map_cons, sum_cons, less, State.bytesOf, size]
    omega
  · rw [less]
    exact (Nat.sub_le _ _).trans h.cap

theorem popNear_sound (h : Sound cfg [] s) {tries j rounded : Nat} (small : j < kUsedBuckets)
    (popped : s.cache.popNear (rung j) tries = some (id, rounded, left)) :
    Sound cfg [id] { s with cache := left } ∧
      (s.spans id).pageCount = rounded ∧ rung j ≤ rounded ∧ rounded ≤ kMaxPages := by
  induction tries generalizing j with
  | zero =>
    simp only [LargeBlockCache.popNear, Option.map_eq_some_iff] at popped
    obtain ⟨⟨base, rest⟩, popped, same⟩ := popped
    cases same
    obtain ⟨sound, size⟩ := pop_sound h small popped
    exact ⟨sound, size, le_rfl, rung_le small⟩
  | succ tries ih =>
    simp only [LargeBlockCache.popNear] at popped
    split at popped
    next base rest found =>
      cases popped
      obtain ⟨sound, size⟩ := pop_sound h small found
      exact ⟨sound, size, le_rfl, rung_le small⟩
    next =>
      split at popped
      · cases popped
      next within =>
        rw [nextRounded_rung] at popped within
        have inside : j + 1 < kUsedBuckets := by
          rw [kUsedBuckets_eq]
          exact (rung_le_kMaxPages (j + 1)).mp (Nat.not_lt.mp within)
        obtain ⟨sound, size, more, most⟩ := ih inside popped
        exact ⟨sound, size, (rung_strictMono (Nat.lt_succ_self j)).le.trans more, most⟩

/-- The invariant reads two fields of the spans that are in use and nothing of the others. -/
theorem Sound.respan (h : Sound cfg hand s) {spans : Nat → Span} {obtained : Nat → Extent}
    (base : ∀ j ∈ hand ++ s.live ++ s.cached, (spans j).base = (s.spans j).base)
    (pageCount : ∀ j ∈ hand ++ s.live ++ s.cached,
      (spans j).pageCount = (s.spans j).pageCount)
    (kept : ∀ j ∈ hand ++ s.live ++ s.cached ++ s.recycled, obtained j = s.obtained j)
    (requests : ∀ j ∈ s.live, (spans j).largeSize = (s.spans j).largeSize) :
    Sound cfg hand { s with spans, obtained } := by
  refine { h with
    shelves := { h.shelves with sizes := fun k small j mem => ?_ }
    bytes := ?_
    requests := fun j live => ?_
    blocks := fun j present => ?_
    disposals := fun disposal mem => ?_ }
  · have cached : j ∈ s.cached := mem_flatMap.mpr ⟨k, mem_usedBuckets.mpr ⟨k, small, rfl⟩, mem⟩
    exact (pageCount j (mem_append_right _ cached)).trans (h.shelves.sizes k small j mem)
  · refine h.bytes.trans (congrArg List.sum (map_congr_left fun j cached => ?_))
    exact congrArg (· * kPageSize) (pageCount j (mem_append_right _ cached)).symm
  · dsimp only
    rw [pageCount j (mem_append_left _ (mem_append_right _ live)), requests j live]
    exact h.requests j live
  · dsimp only
    rw [kept j (mem_append_left _ present), base j present, pageCount j present]
    exact h.blocks j present
  · obtain ⟨pages, way⟩ := h.disposals disposal mem
    refine ⟨(kept disposal.span (mem_append_right _ ?_)).trans pages, way⟩
    rw [← h.logged]
    exact mem_map_of_mem mem

theorem Sound.obtain (h : Sound cfg [] s) (span : Span) :
    Sound cfg [s.nextSpan] { s with
      spans := update s.spans s.nextSpan span
      obtained := update s.obtained s.nextSpan ⟨span.base, span.pageCount⟩
      nextSpan := s.nextSpan + 1 } := by
  have fresh : ∀ j ∈ [] ++ s.live ++ s.cached ++ s.recycled, j ≠ s.nextSpan := by
    intro j present
    have small := mem_range.mp (h.places.mem_iff.mp present)
    exact Nat.ne_of_lt small
  have old := @Sound.respan cfg [] s h (update s.spans s.nextSpan span)
    (update s.obtained s.nextSpan ⟨span.base, span.pageCount⟩)
    (fun j present => by
      rw [update_of_ne (fresh j (mem_append_left _ present))])
    (fun j present => by
      rw [update_of_ne (fresh j (mem_append_left _ present))])
    (fun j present => update_of_ne (fresh j present) _ _)
    (fun j live => by
      rw [update_of_ne (fresh j (mem_append_left _ (mem_append_left _ live)))])
  refine { old with places := ?_, blocks := ?_ }
  · rw [range_succ]
    refine List.Perm.trans ?_ (perm_append_singleton _ _).symm
    exact h.places.cons s.nextSpan
  · intro j present
    rcases mem_cons.mp present with rfl | elsewhere
    · dsimp only
      rw [update_self, update_self]
    · exact old.blocks j elsewhere

theorem Sound.give (h : Sound cfg [id] s) {size : Nat}
    (positive : 1 ≤ (s.spans id).pageCount)
    (enough : size ≤ (s.spans id).pageCount * kPageSize) :
    Sound cfg [] { s with
      spans := update s.spans id { s.spans id with largeSize := size }
      live := id :: s.live } := by
  have apart : id ∉ s.live := by
    have distinct := h.places.nodup_iff.mpr nodup_range
    intro live
    exact (nodup_cons.mp distinct).1 (mem_append_left _ (mem_append_left _ live))
  have rest : ∀ j, (update s.spans id
      { s.spans id with largeSize := size } j).base = (s.spans j).base ∧
      (update s.spans id
        { s.spans id with largeSize := size } j).pageCount =
          (s.spans j).pageCount := by
    intro j
    by_cases same : j = id
    · subst same
      simp only [update_self, and_self]
    · simp only [update_of_ne same, and_self]
  have relabelled := @Sound.respan cfg [id] s h
    (update s.spans id { s.spans id with largeSize := size }) s.obtained
    (fun j _ => (rest j).1) (fun j _ => (rest j).2) (fun _ _ => rfl)
    (fun j live => by rw [update_of_ne (ne_of_mem_of_not_mem live apart)])
  refine { relabelled with requests := fun j present => ?_ }
  rcases mem_cons.mp present with rfl | live
  · dsimp only
    rw [update_self]
    exact ⟨positive, enough⟩
  · exact relabelled.requests j live

end Moves

section Calls

variable {cfg : Config} {hand : List Nat} {s : State} {id : Nat}
variable {block : Block} {next : State} {pages : Nat} {platform : Platform}

theorem exists_bucket (positive : 1 ≤ pages) (few : pages ≤ kMaxPages) :
    ∃ k < kUsedBuckets, roundPages pages = rung k := by
  obtain ⟨k, rounds⟩ := roundPages_mem positive
  have top : rung 71 = kMaxPages := by decide
  refine ⟨k, ?_, rounds⟩
  rw [kUsedBuckets_eq, ← rung_le_kMaxPages, ← rounds, ← top]
  exact roundPages_le_rung (few.trans top.ge)

theorem allocate_sound (h : Sound cfg [] s)
    {size requested : Nat} (positive : 1 ≤ size) (small : size ≤ 2 ^ 43) :
    Sound cfg [] (allocate platform size requested s) := by
  have fits := @size_le_numPages size (small.trans (by decide))
  unfold allocate
  dsimp only
  generalize narrow32 (roundUp size kPageSize / kPageSize) = numPages at fits
  generalize (if requested < kPageSize then kPageSize else requested) = alignment
  have some_page : 1 ≤ numPages := by
    by_contra none
    rw [show numPages = 0 by omega, Nat.zero_mul] at fits
    omega
  split
  next id rounded left popped =>
    split at popped
    next cacheable =>
      obtain ⟨j, inside, rounds⟩ := exists_bucket some_page (of_decide_eq_true cacheable).2
      rw [rounds] at popped
      obtain ⟨sound, count, more, most⟩ := popNear_sound h inside popped
      have above := le_roundPages numPages
      have narrow : narrow32 rounded = (s.spans id).pageCount := by
        have limit : kMaxPages = 2048 := by decide
        rw [count]
        exact Nat.mod_eq_of_lt (by omega)
      rw [narrow]
      apply sound.give
      · change 1 ≤ (s.spans id).pageCount
        omega
      · refine fits.trans (Nat.mul_le_mul_right _ ?_)
        change numPages ≤ (s.spans id).pageCount
        omega
    next => cases popped
  next =>
    split
    · exact h
    next block placed =>
      have count : numPages ≤ block.pageCount := by
        rcases (placeBlock_fields placed).1 with exact | ⟨cacheable, rounded⟩
        · exact exact.ge
        · rw [rounded]
          exact le_narrow32_roundPages (of_decide_eq_true cacheable).2
      have obtained := h.obtain ⟨block.base, block.pageCount, block.largeSize⟩
      have given := @Sound.give cfg _ s.nextSpan obtained size
        (by simpa using some_page.trans count)
        (by simpa using fits.trans (Nat.mul_le_mul_right _ count))
      rw [← (placeBlock_fields placed).2] at given
      simpa using given

theorem deallocate_cases (cfg : Config) (id : Nat) (s : State) :
    ((s.spans id).pageCount ≤ kMaxPages ∧
        roundPages (s.spans id).pageCount = (s.spans id).pageCount ∧
        push cfg id (s.spans id).pageCount s.tick
          { s with live := s.live.erase id } = some (deallocate cfg id s)) ∨
      deallocate cfg id s =
        dispose (if inRegion cfg (s.spans id).base then .released else .unmapped) id
          (s.spans id).pageCount { s with live := s.live.erase id } := by
  unfold deallocate
  dsimp only
  split
  next reg =>
    split
    next cached pushed =>
      split at pushed
      next room =>
        simp only [Bool.and_eq_true, decide_eq_true_eq] at room
        exact .inl ⟨room.1.1.1, room.1.1.2, pushed⟩
      next => cases pushed
    next =>
      exact .inr rfl
  next outside =>
    split
    next cached pushed =>
      split at pushed
      next cacheable =>
        have grid := of_decide_eq_true cacheable
        exact .inl ⟨grid.1, grid.2, pushed⟩
      next => cases pushed
    next =>
      exact .inr rfl

theorem deallocate_sound (h : Sound cfg [] s) (mem : id ∈ s.live) :
    Sound cfg [] (deallocate cfg id s) := by
  have taken := h.take mem
  rcases deallocate_cases cfg id s with ⟨few, grid, pushed⟩ | given
  · obtain ⟨k, small, size⟩ := exists_bucket (h.requests id mem).1 few
    rw [grid] at size
    rw [size] at pushed
    exact push_sound taken small size pushed
  · rw [given]
    exact dispose_sound taken rfl rfl

theorem push_caches {k now : Nat} (small : k < kUsedBuckets)
    (pushed : push cfg id (rung k) now s = some next) :
    id ∈ next.cached ∧ next.disposed = s.disposed ∧ next.recycled = s.recycled := by
  simp only [push, bucketOf_rung] at pushed
  split at pushed
  · cases pushed
  split at pushed
  · cases pushed
  cases pushed
  have grown := @cachedIn_push s.cache.blocks k (mem_usedBuckets.mpr ⟨k, small, rfl⟩) id
  exact ⟨grown.mem_iff.mpr mem_cons_self, rfl, rfl⟩

/-- A freed block ends in the cache with its descriptor, or is given back once and its
descriptor recycled. -/
theorem deallocate_once (h : Sound cfg [] s) (mem : id ∈ s.live) :
    let next := deallocate cfg id s
    (id ∈ next.cached ∧ next.disposed = s.disposed ∧ next.recycled = s.recycled) ∨
      (id ∉ next.cached ∧ next.recycled = id :: s.recycled ∧
        next.disposed =
          ⟨id, s.obtained id, if inRegion cfg (s.spans id).base then .released
            else .unmapped⟩ :: s.disposed) := by
  intro next
  rcases deallocate_cases cfg id s with ⟨few, grid, pushed⟩ | given
  · obtain ⟨k, small, size⟩ := exists_bucket (h.requests id mem).1 few
    rw [grid] at size
    rw [size] at pushed
    have kept := push_caches small pushed
    exact .inl kept
  · have block := h.blocks id (by simp [mem])
    refine .inr ⟨?_, ?_, ?_⟩
    · -- a live span is not in the cache, and giving it back caches nothing
      have distinct := h.places.nodup_iff.mpr nodup_range
      intro cached
      have pre : id ∈ s.cached := by
        simpa [next, given, dispose, State.cached] using cached
      exact (nodup_append.mp (nodup_append.mp distinct).1).2.2 id mem id pre rfl
    · simp [next, given, dispose]
    · simp [next, given, dispose, block]

theorem releaseAll_sound {ids : List Nat} (h : Sound cfg ids s)
    (sizes : ∀ id ∈ ids, (s.spans id).pageCount = pages) :
    Sound cfg [] (ids.foldl (releaseIdle cfg pages) s) := by
  induction ids generalizing s with
  | nil => exact h
  | cons id rest ih =>
    rw [foldl_cons]
    apply ih
    · exact dispose_sound h (sizes id mem_cons_self) rfl
    · exact fun j mem => sizes j (mem_cons_of_mem id mem)

theorem bytesOf_sum {ids : List Nat} {pages : Nat}
    (sizes : ∀ id ∈ ids, (s.spans id).pageCount = pages) :
    (ids.map s.bytesOf).sum = ids.length * pages * kPageSize := by
  have each := sum_eq_card_nsmul (ids.map s.bytesOf) (pages * kPageSize) fun size mem => by
      obtain ⟨id, present, rfl⟩ := mem_map.mp mem
      rw [State.bytesOf, sizes id present]
  rw [each, length_map, smul_eq_mul, Nat.mul_assoc]

theorem purgeBucket_sound (h : Sound cfg [] s) {k : Nat} (small : k < kUsedBuckets)
    (now : Nat) : Sound cfg [] (purgeBucket cfg now s (rung k)) := by
  have sizes := h.shelves.sizes k small
  have counted := @bytesOf_sum s (s.cache.blocks k) (rung k) sizes
  have held : (s.cache.blocks k).length * rung k * kPageSize ≤ s.cache.bytes := by
    have total := ((@cachedIn_clear s.cache.blocks k
      (mem_usedBuckets.mpr ⟨k, small, rfl⟩)).map s.bytesOf).sum_nat
    rw [map_append, sum_append, ← State.cached, ← h.bytes, counted] at total
    omega
  have less : fetchSub s.cache.bytes ((s.cache.blocks k).length * rung k * kPageSize) =
      s.cache.bytes - (s.cache.blocks k).length * rung k * kPageSize :=
    fetchSub_of_le held (h.bytes_small.trans (by decide))
  simp only [purgeBucket, bucketOf_rung, less]
  split
  · exact h
  split
  · exact h
  apply releaseAll_sound
  · refine h.rebucket small (by simp) (Nat.zero_le _) ?_ ?_ ?_
    · rw [append_nil]
      exact reverse_perm _
    · rw [counted, map_nil, sum_nil]
      omega
    · exact (Nat.sub_le _ _).trans h.cap
  · exact fun id mem => sizes id (mem_reverse.mp mem)

theorem purgeBuckets_sound {now : Nat} {ks : List Nat} (small : ∀ k ∈ ks, k < kUsedBuckets)
    (h : Sound cfg [] s) : Sound cfg [] ((ks.map rung).foldl (purgeBucket cfg now) s) := by
  induction ks generalizing s with
  | nil => exact h
  | cons k rest ih =>
    rw [map_cons, foldl_cons]
    apply ih
    · exact fun j mem => small j (mem_cons_of_mem k mem)
    · exact purgeBucket_sound h (small k mem_cons_self) now

theorem onTick_sound (h : Sound cfg [] s) : Sound cfg [] (onTick cfg s) := by
  have ticked : Sound cfg [] { s with tick := (s.tick + 1) % 2 ^ 32 } := { h with }
  unfold onTick purgeIdle
  dsimp only
  split
  · exact ticked
  · rw [purgeSizes_eq]
    apply purgeBuckets_sound _ ticked
    intro k mem
    rw [kUsedBuckets_eq]
    exact mem_range.mp mem

theorem step_sound {label : Label} (h : Sound cfg [] s)
    (moved : step cfg s label = some next) : Sound cfg [] next := by
  cases label with
  | allocate platform size alignment =>
    simp only [step] at moved
    split at moved
    next range =>
      cases moved
      exact allocate_sound h range.1 range.2
    next => cases moved
  | deallocate id =>
    simp only [step] at moved
    split at moved
    next mem =>
      cases moved
      exact deallocate_sound h mem
    next => cases moved
  | onTick =>
    cases moved
    exact onTick_sound h

end Calls

section Result

variable {cfg : Config} {s : State}

theorem popNear_enough (h : Sound cfg [] s) {n id rounded : Nat}
    {left : LargeBlockCache} (positive : 1 ≤ n) (few : n ≤ kMaxPages)
    (popped : s.cache.popNear (roundPages n) 2 = some (id, rounded, left)) :
    n ≤ (s.spans id).pageCount := by
  obtain ⟨j, inside, rounds⟩ := exists_bucket positive few
  have above := le_roundPages n
  rw [rounds] at popped above
  obtain ⟨-, count, more, -⟩ := popNear_sound h inside popped
  omega

/-- In every run: the blocks of a bucket have its page count, every block is live, cached or
given back and never two of these, the byte counter is the total of the cached blocks and within
the cap, the cache gives no block that is too small, and a freed block is cached or given back
once, its descriptor recycled in the second case only. -/
theorem cache_accounts_for_blocks (cfg : Config) (labels : List Label) (s : State)
    (ran : exec (step cfg) initial labels = some s) :
    (∀ k < kUsedBuckets, ∀ id ∈ s.cache.blocks k,
      (s.spans id).pageCount = nextRounded^[k] 1) ∧
    (∀ bucket, bucket ∉ usedBuckets → s.cache.blocks bucket = []) ∧
    (s.live ++ s.cached ++ s.recycled).Nodup ∧
    s.cache.bytes = (s.cached.map s.bytesOf).sum ∧
    s.cache.bytes ≤ cfg.maxBytes ∧
    (∀ n id rounded left, 1 ≤ n → n ≤ kMaxPages →
      s.cache.popNear (roundPages n) 2 = some (id, rounded, left) →
        n ≤ (s.spans id).pageCount) ∧
    (∀ id ∈ s.live, (s.spans id).largeSize ≤ s.bytesOf id) ∧
    (s.live ++ s.cached ++ s.disposed.map Disposal.span).Perm
      (List.range s.nextSpan) ∧
    s.disposed.map Disposal.span = s.recycled ∧
    (∀ disposal ∈ s.disposed, s.obtained disposal.span = disposal.pages ∧
      disposal.way = if inRegion cfg disposal.pages.start then .released else .unmapped) ∧
    (∀ id ∈ s.live,
      let next := deallocate cfg id s
      (id ∈ next.cached ∧ next.disposed = s.disposed ∧ next.recycled = s.recycled) ∨
        (id ∉ next.cached ∧ next.recycled = id :: s.recycled ∧
          next.disposed =
            ⟨id, s.obtained id, if inRegion cfg (s.spans id).base then .released
              else .unmapped⟩ :: s.disposed)) := by
  have h : Sound cfg [] s := invariant step_sound initial_sound ran
  refine ⟨?_, h.shelves.outside, ?_, h.bytes, h.cap, ?_, ?_, ?_, h.logged,
    h.disposals, fun id mem => deallocate_once h mem⟩
  · intro k small id mem
    rw [nextRounded_iterate]
    exact h.shelves.sizes k small id mem
  · exact h.places.nodup_iff.mpr nodup_range
  · intro n id rounded left positive few popped
    exact popNear_enough h positive few popped
  · exact fun id mem => (h.requests id mem).2
  · rw [h.logged]
    exact h.places

def mapsAt (addr : Nat) : Platform := ⟨false, fun _ => none, fun _ _ => some addr⟩

def plain : Config := ⟨32 * 2 ^ 20, false, fun _ => false, false⟩

def reuseAndPurge : List Label :=
  [.allocate (mapsAt 0x10000) 36000 16, .allocate (mapsAt 0x20000) 36000 16, .deallocate 0,
    .allocate (mapsAt 0x30000) 32768 16, .deallocate 0, .deallocate 1, .onTick, .onTick, .onTick]

theorem cache_accounts_for_reuse : ∃ s, exec (step plain) initial reuseAndPurge = some s ∧
      s.cached = [] ∧ s.recycled = [1, 0] ∧
      s.disposed = [⟨1, ⟨0x20000, 9⟩, .unmapped⟩, ⟨0, ⟨0x10000, 9⟩, .unmapped⟩] ∧
      (s.live ++ s.cached ++ s.recycled).Nodup := by
  obtain ⟨s, ran, same⟩ := Option.map_eq_some_iff.mp
    (show (exec (step plain) initial reuseAndPurge).map
        (fun s => (s.cached, s.recycled, s.disposed)) =
      some ([], [1, 0],
        [⟨1, ⟨0x20000, 9⟩, .unmapped⟩, ⟨0, ⟨0x10000, 9⟩, .unmapped⟩]) by decide +kernel)
  obtain ⟨cached, rest⟩ := Prod.mk.inj same
  obtain ⟨recycled, disposed⟩ := Prod.mk.inj rest
  exact ⟨s, ran, cached, recycled, disposed,
    (cache_accounts_for_blocks plain reuseAndPurge s ran).2.2.1⟩

end Result

section Addresses

variable {cfg : Config} {state : State}
variable {label : Label} {next : State}

def State.bytesAt (state : State) (id : Nat) : Extent :=
  ⟨(state.obtained id).start, (state.obtained id).size * kPageSize⟩

/-- A block obtained for the next span is apart from every block not given back. -/
def Fresh (cfg : Config) (state : State) (label : Label) : Prop :=
  ∀ next ∈ step cfg state label, state.nextSpan < next.nextSpan →
    ∀ id < state.nextSpan, id ∉ state.recycled →
      Apart (next.bytesAt state.nextSpan) (state.bytesAt id)

instance : Decidable (Fresh cfg state label) :=
  inferInstanceAs (Decidable (∀ next ∈ step cfg state label, _))

def Separate (state : State) : Prop :=
  ∀ i < state.nextSpan, ∀ j < state.nextSpan, i ≠ j → i ∉ state.recycled → j ∉ state.recycled →
    Apart (state.bytesAt i) (state.bytesAt j)

/-- What a call does to the blocks: nothing new and nothing forgotten, or one more block. -/
structure Grows (state next : State) : Prop where
  recycled : state.recycled ⊆ next.recycled
  blocks : (next.nextSpan = state.nextSpan ∧ next.obtained = state.obtained) ∨
    (next.nextSpan = state.nextSpan + 1 ∧
      ∀ id < state.nextSpan, next.obtained id = state.obtained id)

theorem Grows.refl (state : State) : Grows state state :=
  ⟨fun _ mem => mem, .inl ⟨rfl, rfl⟩⟩

theorem allocate_grows (platform : Platform) (size requested : Nat) (state : State) :
    Grows state (allocate platform size requested state) := by
  unfold allocate
  dsimp only
  split
  · exact ⟨fun _ mem => mem, .inl ⟨rfl, rfl⟩⟩
  · split
    · exact .refl state
    · refine ⟨fun _ mem => mem, .inr ⟨rfl, fun id small => ?_⟩⟩
      exact update_of_ne (Nat.ne_of_lt small) _ _

/-- What becomes of a block that is freed or idle obtains nothing. -/
structure Keeps (state next : State) : Prop where
  live : next.live = state.live
  spans : next.spans = state.spans
  recycled : state.recycled ⊆ next.recycled
  nextSpan : next.nextSpan = state.nextSpan
  obtained : next.obtained = state.obtained

theorem Keeps.refl (state : State) : Keeps state state :=
  ⟨rfl, rfl, fun _ mem => mem, rfl, rfl⟩

theorem Keeps.trans {first second third : State} (front : Keeps first second)
    (back : Keeps second third) : Keeps first third :=
  ⟨back.live.trans front.live, back.spans.trans front.spans,
    fun _ mem => back.recycled (front.recycled mem), back.nextSpan.trans front.nextSpan,
    back.obtained.trans front.obtained⟩

theorem dispose_keeps (way : Way) (id pages : Nat) (state : State) :
    Keeps state (dispose way id pages state) :=
  ⟨rfl, rfl, fun _ mem => mem_cons_of_mem id mem, rfl, rfl⟩

theorem push_keeps {id rounded now : Nat}
    (pushed : push cfg id rounded now state = some next) : Keeps state next := by
  unfold push at pushed
  dsimp only at pushed
  split at pushed
  · cases pushed
  split at pushed
  · cases pushed
  · cases pushed
    exact { Keeps.refl _ with }

theorem deallocate_keeps (id : Nat) :
    Keeps { state with live := state.live.erase id } (deallocate cfg id state) := by
  rcases deallocate_cases cfg id state with ⟨-, -, pushed⟩ | given
  · exact push_keeps pushed
  · rw [given]
    exact dispose_keeps ..

theorem foldl_keeps {Item : Type} {act : State → Item → State}
    (each : ∀ state item, Keeps state (act state item)) (items : List Item) (state : State) :
    Keeps state (items.foldl act state) := by
  induction items generalizing state with
  | nil => exact .refl state
  | cons item rest ih => exact (each state item).trans (ih (act state item))

theorem purgeBucket_keeps (now : Nat) (state : State) (rounded : Nat) :
    Keeps state (purgeBucket cfg now state rounded) := by
  unfold purgeBucket
  dsimp only
  split
  · exact .refl state
  split
  · exact .refl state
  · refine .trans ?_ (foldl_keeps (fun _ _ => dispose_keeps ..) _ _)
    exact { Keeps.refl _ with }

theorem onTick_keeps : Keeps state (onTick cfg state) := by
  have ticked : Keeps state { state with tick := (state.tick + 1) % 2 ^ 32 } :=
    { Keeps.refl _ with }
  unfold onTick purgeIdle
  dsimp only
  split
  · exact ticked
  · exact ticked.trans (foldl_keeps (purgeBucket_keeps _) _ _)

theorem Keeps.grows (keeps : Keeps state next) : Grows state next :=
  ⟨keeps.recycled, .inl ⟨keeps.nextSpan, keeps.obtained⟩⟩

theorem step_grows (moved : step cfg state label = some next) : Grows state next := by
  cases label with
  | allocate platform size alignment =>
    simp only [step] at moved
    split at moved <;> cases moved
    exact allocate_grows ..
  | deallocate id =>
    simp only [step] at moved
    split at moved <;> cases moved
    exact ⟨(deallocate_keeps id).recycled,
      .inl ⟨(deallocate_keeps id).nextSpan, (deallocate_keeps id).obtained⟩⟩
  | onTick =>
    cases moved
    exact onTick_keeps.grows

theorem step_separate (h : Separate state)
    (fresh : Fresh cfg state label) (moved : step cfg state label = some next) : Separate next := by
  obtain ⟨recycled, blocks⟩ := step_grows moved
  intro i below j under apart first second
  have first' : i ∉ state.recycled := fun mem => first (recycled mem)
  have second' : j ∉ state.recycled := fun mem => second (recycled mem)
  rcases blocks with ⟨count, same⟩ | ⟨count, same⟩
  · rw [count] at below under
    rw [State.bytesAt, State.bytesAt, same]
    exact h i below j under apart first' second'
  · have new := fresh next moved (by omega)
    rcases Nat.lt_or_ge i state.nextSpan with old | latest
    · rcases Nat.lt_or_ge j state.nextSpan with old' | latest'
      · rw [State.bytesAt, State.bytesAt, same i old, same j old']
        exact h i old j old' apart first' second'
      · obtain rfl : j = state.nextSpan := by omega
        rw [apart_comm, State.bytesAt.eq_def next i, same i old]
        exact new i old first'
    · obtain rfl : i = state.nextSpan := by omega
      rw [State.bytesAt.eq_def next j, same j (by omega)]
      exact new j (by omega) second'

theorem Sound.held_lt (h : Sound cfg [] state) {id : Nat}
    (held : id ∈ state.live ++ state.cached) : id < state.nextSpan :=
  mem_range.mp (h.places.mem_iff.mp (mem_append_left _ held))

/-- If memory is obtained only after it was given back, no two live or cached blocks overlap in
any run, and what the application asked for lies in its block. -/
theorem held_blocks_apart {labels : List Label}
    (fresh : Along (step cfg) (Fresh cfg) initial labels)
    (ran : exec (step cfg) initial labels = some state) :
    (∀ i ∈ state.live ++ state.cached, ∀ j ∈ state.live ++ state.cached, i ≠ j →
      Apart (state.bytesAt i) (state.bytesAt j)) ∧
    ∀ id ∈ state.live,
      Within ⟨(state.spans id).base, (state.spans id).largeSize⟩ (state.bytesAt id) := by
  have h : Sound cfg [] state := invariant step_sound initial_sound ran
  have separate : Separate state :=
    invariant_of_along step_separate (fun _ below => absurd below (Nat.not_lt_zero _)) fresh ran
  have distinct := h.places.nodup_iff.mpr nodup_range
  rw [nil_append, nodup_append] at distinct
  refine ⟨fun i first j second apart => ?_, fun id mem => ?_⟩
  · exact separate i (h.held_lt first) j (h.held_lt second) apart
      (fun mem => distinct.2.2 i first i mem rfl)
      (fun mem => distinct.2.2 j second j mem rfl)
  · rw [State.bytesAt, h.blocks id (by simp [mem])]
    exact ⟨Nat.le_refl _, Nat.add_le_add_left (h.requests id mem).2 _⟩

theorem held_blocks_apart_reused :
    ∃ s, exec (step plain) initial (reuseAndPurge.take 4) = some s ∧ s.live = [0, 1] ∧
      Apart (s.bytesAt 0) (s.bytesAt 1) := by
  obtain ⟨s, ran, live⟩ := Option.map_eq_some_iff.mp
    (show (exec (step plain) initial (reuseAndPurge.take 4)).map State.live = some [0, 1] by
      decide +kernel)
  have apart := (held_blocks_apart (by decide +kernel) ran).1
  exact ⟨s, ran, live, apart 0 (by simp [live]) 1 (by simp [live]) (by decide)⟩

end Addresses

end Smash.LargeCache
