import Smash.PageEffects

/-! The restore paths keep every page readable and up to date: `restorePageContents`,
`restoreRange`, `handleFault` and `prefetchAdjacent`, under any interference. -/
namespace Smash.Compressor

open Program PageMachine List

variable {cfg : Config} {tid : Thread} {works : Prop}

section Facts

variable {cell : Cell} {quiet : Bool} {state : PageState}

structure CompressedAs (bytes : Contents) (cell : Cell) : Prop where
  state : cell.state = .compressed
  shut : cell.prot ≠ .readWrite
  found : cell.content = some bytes
  agrees : cell.Agrees bytes
  closed : cell.reopened = false

theorem CompressedAs.settled {bytes : Contents} (h : CompressedAs bytes cell) :
    Settled cell where
  blob := fun _ => ⟨h.shut, bytes, h.found, h.agrees⟩
  busy := fun same => by rw [h.state] at same; cases same
  shadow := fun same => by rw [h.state] at same; cases same
  closed := h.closed

theorem lasting_compressedAs (bytes : Contents) : Lasting cfg quiet (CompressedAs bytes) := by
  intro pre s' _ _ drift h
  have busy : engaged pre.state = true := by rw [h.state]; rfl
  exact {
    state := (drift.state busy).trans h.state
    shut := drift.shut busy h.shut
    found := drift.content.trans h.found
    agrees := drift.carries busy (.inl h.shut) h.agrees
    closed := drift.reopened.trans h.closed }

def Populated (bytes : Contents) (cell : Cell) : Prop :=
  CompressedAs bytes cell ∧ cell.memory = bytes

theorem lasting_populated (bytes : Contents) : Lasting cfg quiet (Populated bytes) := by
  intro pre s' ok later drift h
  have busy : engaged pre.state = true := by rw [h.1.state]; rfl
  exact ⟨lasting_compressedAs bytes ok later drift h.1,
    (drift.frozen busy (.inl h.1.shut)).1.trans h.2⟩

def Restored (cell : Cell) : Prop :=
  (cell.state = .compressed ∨ cell.state = .compressedShadow) ∧ cell.Agrees cell.memory

theorem lasting_restored : Lasting cfg quiet Restored := by
  rintro pre s' - - drift ⟨state, agrees⟩
  have busy : engaged pre.state = true := by rcases state with same | same <;> rw [same] <;> rfl
  refine ⟨?_, drift.agrees agrees⟩
  rw [drift.state busy]
  exact state

theorem lasting_settled : Lasting cfg quiet Settled :=
  fun _ _ _ _ drift settled => settled.drift drift

theorem lasting_resting : Lasting cfg quiet Resting :=
  fun _ _ _ _ drift resting => resting.drift drift

theorem Seen.engaged (seen : Seen state cell)
    (busy : Compressor.engaged state = true) : cell.state = state := by
  unfold Seen at seen
  rwa [if_pos busy] at seen

theorem Seen.rests (seen : Seen state cell)
    (rest : Compressor.engaged state = false) (occupied : state ≠ .empty) : Resting cell := by
  unfold Seen at seen
  rw [if_neg (by simp [rest])] at seen
  exact ⟨seen.1, seen.2 occupied⟩

end Facts

section Blobs

variable {frame : Nat → Cell → Prop} {i : Nat}
variable [Framed cfg tid frame]
variable {know : Cell → Prop} {op : CellOp}

/-- What a lock holder knows of a page, whatever the blob records say. -/
structure Recordless (cfg : Config) (tid : Thread) (know : Cell → Prop) : Prop where
  firm : Firm cfg tid false know
  locked : ∀ cell, know cell → cell.lock = some tid
  kept : ∀ cell info tier pending blobs nextBlob damaged, know cell → know { cell with
    info := info, tier := tier, pending := pending, blobs := blobs, nextBlob := nextBlob,
    damaged := damaged }

theorem recordless_restored : Recordless cfg tid (Mine tid works Restored) where
  firm := lasting_restored.firm
  locked := fun _ h => h.1
  kept := fun _ _ _ _ _ _ _ h => h

theorem cellStep_records {ch : Choice} {pre c' : Cell}
    {ans : CellAnswer op}
    (kind : (∃ info, op = .setInfo info) ∨ (∃ tier, op = .setTier tier) ∨
      (∃ v, op = .exchangePending v) ∨ (∃ place blob, op = .release place blob))
    (stepped : cellStep tid op ch pre = some (ans, c')) :
    c' = { pre with
      info := c'.info, tier := c'.tier, pending := c'.pending, blobs := c'.blobs,
      nextBlob := c'.nextBlob, damaged := c'.damaged } := by
  rcases kind with ⟨info, rfl⟩ | ⟨tier, rfl⟩ | ⟨v, rfl⟩ | ⟨place, blob, rfl⟩
  · cases stepped
    rfl
  · cases stepped
    rfl
  · cases stepped
    rfl
  · simp only [cellStep] at stepped
    split_ifs at stepped <;> cases stepped <;> rfl


theorem Spec.records {next : CellAnswer op → Code Final}
    {post : Final → Cell → Prop} (recordless : Recordless cfg tid know)
    (kind : (∃ info, op = .setInfo info) ∨ (∃ tier, op = .setTier tier) ∨
      (∃ v, op = .exchangePending v) ∨ (∃ place blob, op = .release place blob))
    (further : ∀ ans, Spec cfg tid frame i know (next ans) post) :
    Spec cfg tid frame i know (on i op >>= next) post := by
  have changes : Effect cfg tid op know fun _ => know := by
    refine .holder fun pre ch ans s' ok h _ stepped => ?_
    have front := cellStep_records kind stepped
    refine ⟨.books ok (recordless.locked pre h) front, ?_⟩
    rw [front]
    exact recordless.kept _ _ _ _ _ _ _ h
  exact .step changes (fun _ => recordless.firm) further

theorem releaseBlob_spec (recordless : Recordless cfg tid know) :
    Spec cfg tid frame i know (releaseBlob i) fun _ => know := by
  have reads : Effect cfg tid .getInfo know fun _ => know :=
    effect_read fun _ _ _ _ _ h stepped => by cases stepped; exact ⟨rfl, h⟩
  have tells : Effect cfg tid .getTier know fun _ => know :=
    effect_read fun _ _ _ _ _ h stepped => by cases stepped; exact ⟨rfl, h⟩
  refine .step reads (fun _ => recordless.firm) fun info => ?_
  cases info.data with
  | none => exact .stay
  | some blob =>
    refine .step tells (fun _ => recordless.firm) fun tier => ?_
    by_cases spilled : tier = .spilled
    · simp only [spilled, if_true]
      refine .records recordless (by simp) fun _ => ?_
      exact (Spec.counted recordless.firm .stay).tail
    · simp only [spilled, if_false]
      refine (Spec.records recordless (by simp) fun _ => ?_).tail
      exact Spec.stay

theorem discardBlob_spec : Spec cfg tid frame i (Mine tid works Restored) (discardBlob i)
      fun _ => Mine tid works Resting := by
  refine (releaseBlob_spec recordless_restored).bind fun _ => ?_
  refine .records recordless_restored (by simp) fun _ => ?_
  refine .records recordless_restored (by simp) fun _ => ?_
  refine (Spec.sets lasting_resting (by simp) (.inr rfl) ?_ Spec.stay).tail
  rintro c - ⟨s, agrees⟩
  refine ⟨?_, fun _ _ => agrees, fun _ _ => agrees, rfl, by simp⟩
  rcases s with same | same <;> simp [same]

theorem abandon_spec (each : ∀ c, CellInv cfg.deferred c → know c →
      c.state ≠ .empty ∧ c.Agrees c.memory) : Spec cfg tid frame i (Mine tid works know) (abandon i)
      fun _ => Loose tid works := by
  refine .sets lasting_resting (by simp) (.inr rfl) ?_ ?_
  · intro c ok h
    obtain ⟨occupied, agrees⟩ := each c ok h
    exact ⟨occupied, fun _ _ => agrees, fun _ _ => agrees, rfl, by simp⟩
  · exact (Spec.unlocks (fun c ok resting => resting.settled ok) .stay).tail

theorem restorePageContents_spec (bytes : Contents) :
    Spec cfg tid frame i (Mine tid works (CompressedAs bytes))
      (restorePageContents i bytes) fun restored c =>
        restored = true ∧ Mine tid works Restored c := by
  have opens : Spec cfg tid frame i (Mine tid works (CompressedAs bytes))
      (populateThenOpen i bytes) fun opened c =>
        opened = true ∧ Mine tid works Restored c := by
    refine .populates (lasting_populated bytes) ?_ ?_
    · rintro c - h
      exact ⟨h.agrees, { h with }, rfl⟩
    · refine (Spec.protects lasting_restored ?_ (Spec.done fun _ _ h => ⟨rfl, h⟩)).tail
      rintro c - ⟨h, same⟩
      have agrees : c.Agrees c.memory := by rw [same]; exact h.agrees
      exact ⟨fun _ _ => agrees, .inr (.inl (by simp [h.state])), .inl h.state, agrees⟩
  exact opens.then (.done fun _ _ h => ⟨rfl, h⟩)

end Blobs

section Range

variable {idx : Nat} {own : Cell → Prop}
variable {pre s' : Cell} {cell : Cell} {frame : Nat → Cell → Prop} {info : CompressedPageInfo}
variable {know : Cell → Prop} {other : Nat} {page : Nat} {pages done : List Nat} {quiet : Bool}
variable {s : PageState}

/-- A page that `restoreRange` may take along. -/
def Parked (cell : Cell) : Prop :=
  Settled cell ∧ cell.state ≠ .compressing ∧ cell.state ≠ .empty

def Filled (cell : Cell) : Prop :=
  Parked cell ∧ (cell.state = .compressed → cell.Agrees cell.memory)

def Opened (cell : Cell) : Prop :=
  cell.state ≠ .compressing ∧ cell.state ≠ .empty ∧ cell.Agrees cell.memory

theorem Drift.occupied {deferred quiet : Bool}
    (drift : Drift deferred quiet pre s') (idle : pre.state ≠ .compressing)
    (occupied : pre.state ≠ .empty) : s'.state ≠ .compressing ∧ s'.state ≠ .empty := by
  cases rest : engaged pre.state with
  | true =>
    rw [drift.state rest]
    exact ⟨idle, occupied⟩
  | false =>
    obtain ⟨resting, emptied⟩ := drift.resting rest
    refine ⟨fun same => ?_, occupied ∘ emptied⟩
    rw [same] at resting
    cases resting

theorem lasting_parked : Lasting cfg quiet Parked :=
  fun _ _ _ _ drift h => ⟨h.1.drift drift, drift.occupied h.2.1 h.2.2⟩

theorem Drift.compressed {deferred quiet : Bool}
    (drift : Drift deferred quiet pre s') (same : s'.state = .compressed) :
    pre.state = .compressed := by
  cases rest : engaged pre.state with
  | true => rw [← drift.state rest, same]
  | false =>
    have resting := (drift.resting rest).1
    rw [same] at resting
    cases resting

theorem lasting_filled : Lasting cfg quiet Filled :=
  fun _ _ ok later drift h => ⟨lasting_parked ok later drift h.1,
    fun same => drift.agrees (h.2 (drift.compressed same))⟩

theorem lasting_opened : Lasting cfg quiet Opened :=
  fun _ _ _ _ drift h =>
    have occupied := drift.occupied h.1 h.2.1
    ⟨occupied.1, occupied.2, drift.agrees h.2.2⟩

def Taken (tid : Thread) (idx : Nat) (own : Cell → Prop) (pages : List Nat)
    (know : Cell → Prop) (other : Nat) (cell : Cell) : Prop :=
  (other = idx → own cell) ∧ (other ∈ pages → Mine tid False know cell)

theorem framed_taken (idx : Nat) (firm : Firm cfg tid false own)
    (lasting : Lasting cfg false know) (pages : List Nat) :
    Framed cfg tid (Taken tid idx own pages know) :=
  ⟨fun _ => firm.imp.and lasting.firm.imp⟩

theorem Taken.around {pages : List Nat} {know here : Cell → Prop} (apart : idx ≠ page)
    (fresh : page ∉ pages) (h : At page here (Taken tid idx own pages know) other cell) :
    Taken tid idx own pages know other cell :=
  ⟨fun same => (h.2 (same ▸ apart)).1 same,
    fun mem => (h.2 fun same => fresh (same ▸ mem)).2 mem⟩

theorem forPages_grid (firm : Firm cfg tid false own)
    (lasting : Lasting cfg false know) {body : Nat → Code Unit}
    (gives : ∀ (frame : Nat → Cell → Prop) page [Framed cfg tid frame],
      Spec cfg tid frame page (Mine tid False know) (body page) fun _ _ => True)
    (pages : List Nat) (distinct : pages.Nodup) (apart : idx ∉ pages) :
    Grid cfg tid (Taken tid idx own pages know) (forPages pages body)
      fun _ other cell => other = idx → own cell := by
  induction pages with
  | nil => exact .done fun other cell _ h => h.1
  | cons page rest ih =>
    obtain ⟨fresh, distinct⟩ := nodup_cons.mp distinct
    have different : idx ≠ page := fun same => apart (same ▸ mem_cons_self ..)
    have := framed_taken idx firm lasting rest
    refine ((Grid.at (@gives _ page this)).bind fun _ => ?_).weaken
      fun other cell _ h => ⟨fun same => h.2 (same ▸ mem_cons_self ..), fun _ =>
        ⟨h.1, fun mem => h.2 (mem_cons_of_mem _ mem)⟩⟩
    exact (ih distinct fun mem => apart (mem_cons_of_mem _ mem)).weaken
      fun other cell _ h => .around different fresh h

theorem unlock_spec [Framed cfg tid frame]
    (settled : ∀ cell, CellInv cfg.deferred cell → know cell → Settled cell) :
    Spec cfg tid frame page (Mine tid works know) (on page .unlock) fun _ => Loose tid works :=
  .last (effect_unlock settled) fun _ => firm_loose

theorem unlockAll_grid (firm : Firm cfg tid false own) (lasting : Lasting cfg false know)
    (settled : ∀ cell, CellInv cfg.deferred cell → know cell → Settled cell) (pages : List Nat)
    (distinct : pages.Nodup) (apart : idx ∉ pages) :
    Grid cfg tid (Taken tid idx own pages know) (unlockAll pages)
      fun _ other cell => other = idx → own cell :=
  forPages_grid firm lasting
    (fun _ _ => (unlock_spec settled).post fun _ _ _ _ => trivial)
    pages distinct apart

theorem Seen.parked (seen : Seen s cell)
    (settled : Settled cell) (idle : s ≠ .compressing) (occupied : s ≠ .empty) : Parked cell := by
  unfold Seen at seen
  split_ifs at seen with busy
  · rw [Parked, seen]
    exact ⟨settled, idle, occupied⟩
  · refine ⟨settled, fun same => ?_, seen.2 occupied⟩
    rw [same] at seen
    cases seen.1

theorem lockOthers_grid (firm : Firm cfg tid false own) (rest locked : List Nat)
    (distinct : (locked ++ rest).Nodup) (apart : idx ∉ locked ++ rest) :
    Grid cfg tid (Taken tid idx own locked Parked) (lockOthers locked rest)
      fun all other cell => if all = true then Taken tid idx own (locked ++ rest) Parked other cell
        else other = idx → own cell := by
  induction rest generalizing locked with
  | nil =>
    refine .done fun other cell _ h => ?_
    rw [if_pos rfl, append_nil]
    exact h
  | cons page rest ih =>
    have parts := nodup_append.mp distinct
    have fresh : page ∉ locked := fun mem => parts.2.2 page mem page (by simp) rfl
    have different : idx ≠ page := fun same => apart (by simp [same])
    have unlocked : Grid cfg tid (Taken tid idx own locked Parked)
        (unlockAll locked >>= fun _ => pure false)
        fun all other cell => if all = true
          then Taken tid idx own (locked ++ page :: rest) Parked other cell
          else other = idx → own cell := by
      refine (unlockAll_grid firm lasting_parked (fun _ _ h => h.1) locked parts.1
        fun mem => apart (by simp [mem])).bind fun _ => .done fun other cell _ h => ?_
      simpa using h
    have := framed_taken idx firm lasting_parked locked
    have tries : Effect cfg tid .tryLock (Loose tid False) _ := effect_tryLock
    refine (Grid.step tries ?_ fun taken => ?_).weaken fun other cell _ h =>
      ⟨fun _ never => never.elim, fun _ => h⟩
    · intro ans
      cases ans with
      | false => simpa using firm_loose
      | true => simpa using lasting_settled.firm
    · cases taken with
      | false => exact unlocked.weaken fun _ _ _ h => .around different fresh h
      | true =>
        simp only [if_true]
        refine .step effect_getState
          (fun _ => (lasting_settled.and fun _ _ _ _ drift seen => seen.drift drift).firm)
          fun s => ?_
        split_ifs with refused
        · refine .step (effect_unlock fun _ _ h => h.1) (fun _ => firm_loose) fun _ => ?_
          exact unlocked.weaken fun _ _ _ h => .around different fresh h
        · rw [not_or] at refused
          have wider : locked ++ page :: rest = locked ++ [page] ++ rest := by simp
          rw [wider] at distinct apart ⊢
          refine (ih (locked ++ [page]) distinct apart).weaken fun other cell _ h => ?_
          refine ⟨(Taken.around different fresh h).1, fun mem => ?_⟩
          rcases mem_append.mp mem with earlier | same
          · exact (Taken.around different fresh h).2 earlier
          · obtain ⟨mine, worker, settled, seen⟩ := h.1 (by simpa using same)
            exact ⟨mine, worker, seen.parked settled refused.1 refused.2⟩

/-- `Filled` where the copy has been made already, `Parked` everywhere. -/
def Filling (tid : Thread) (idx : Nat) (own : Cell → Prop) (pages done : List Nat)
    (other : Nat) (cell : Cell) : Prop :=
  Taken tid idx own pages Parked other cell ∧ Taken tid idx own done Filled other cell

theorem framed_filling (idx : Nat) (firm : Firm cfg tid false own) (pages done : List Nat) :
    Framed cfg tid (Filling tid idx own pages done) :=
  ⟨fun other => ((framed_taken idx firm lasting_parked pages).firm other).and
    ((framed_taken idx firm lasting_filled done).firm other)⟩

theorem acquireFaultSlot_grid {know : Nat → Cell → Prop} (slot : Bool) [Framed cfg tid know] :
    Grid cfg tid know (acquireFaultSlot slot) fun _ => know := by
  unfold acquireFaultSlot
  split_ifs
  · exact .stay
  · refine .tail (.asked fun _ => ?_)
    exact .stay

theorem effect_decompress_parked : Effect cfg tid (.decompress info)
      (Mine tid works fun cell => (Parked cell ∧ cell.state = .compressed) ∧ cell.info = info)
      fun bytes => Mine tid works (CompressedAs bytes) := by
  intro pre ch ans s' ok h may stepped
  obtain ⟨kept, relied, mine, worker, ⟨⟨parked, s⟩, -⟩, found⟩ :=
    effect_decompress (fun cell holds => ⟨holds.2, by
      obtain ⟨-, bytes, found, -⟩ := holds.1.1.1.blob holds.1.2
      exact ⟨bytes, found⟩⟩) pre ch ans s' ok h may stepped
  obtain ⟨shut, bytes, same, agrees⟩ := parked.1.blob s
  rw [found] at same
  cases same
  exact ⟨kept, relied, mine, worker, s, shut, found, agrees, parked.1.closed⟩

theorem lasting_state (busy : engaged s = true) : Lasting cfg quiet fun cell => cell.state = s := by
  rintro pre s' - - drift rfl
  exact drift.state busy

theorem lasting_info : Lasting cfg quiet fun cell => cell.info = info := by
  rintro pre s' - - drift rfl
  exact drift.info

theorem Populated.filled {bytes : Contents} (h : Populated bytes cell) :
    Filled cell := by
  refine ⟨⟨h.1.settled, by simp [h.1.state], by simp [h.1.state]⟩, fun _ => ?_⟩
  rw [h.2]
  exact h.1.agrees

theorem lasting_parked_compressed :
    Lasting cfg quiet fun cell => Parked cell ∧ cell.state = .compressed :=
  lasting_parked.and (lasting_state rfl)

theorem populatePage_spec [Framed cfg tid frame] : Spec cfg tid frame page
      (Mine tid works fun cell => Parked cell ∧ cell.state = .compressed) (populatePage page)
      fun populated cell => populated = true ∧ Mine tid works Filled cell := by
  refine .step effect_getInfo
    (fun _ => (lasting_parked_compressed.and lasting_info).firm) fun info => ?_
  refine .step effect_decompress_parked
    (fun bytes => (lasting_compressedAs bytes).firm) fun bytes => ?_
  refine (Spec.populates (lasting_populated bytes) ?_ ?_).tail
  · exact fun cell _ h => ⟨h.agrees, { h with }, rfl⟩
  · exact .done fun _ _ mine => ⟨rfl, mine.1, mine.2.1, mine.2.2.filled⟩

theorem Filling.around {page other : Nat} {here : Cell → Prop}
    (apart : idx ≠ page) (implied : here cell → Mine tid False Parked cell)
    (h : At page here (Filling tid idx own pages done) other cell) :
    Taken tid idx own pages Parked other cell := by
  by_cases same : other = page
  · subst same
    exact ⟨fun absurd => (apart absurd.symm).elim, fun _ => implied (h.1 rfl)⟩
  · exact (h.2 same).1

theorem Filling.extend {page other : Nat} (apart : idx ≠ page)
    (h : At page (Mine tid False Filled) (Filling tid idx own pages done) other cell) :
    Filling tid idx own pages (done ++ [page]) other cell := by
  refine ⟨Filling.around apart (fun mine => ⟨mine.1, mine.2.1, mine.2.2.1⟩) h,
    fun absurd => (h.2 (absurd ▸ apart)).1.1 absurd, fun mem => ?_⟩
  by_cases same : other = page
  · exact h.1 same
  · exact (h.2 same).2.2 (by simpa [same] using mem)

/-- The copies are made while the pages are inaccessible; a page copied so far stays filled. -/
theorem populateOthers_grid (firm : Firm cfg tid false own) (pages rest done : List Nat)
    (slot : Bool) (cover : ∀ page ∈ pages, page ∈ done ∨ page ∈ rest) (subset : rest ⊆ pages)
    (apart : idx ∉ pages) :
    Grid cfg tid (Filling tid idx own pages done) (populateOthers slot rest)
      fun all other cell => if all = true then Taken tid idx own pages Filled other cell
        else Taken tid idx own pages Parked other cell := by
  induction rest generalizing done slot with
  | nil =>
    refine .done fun other cell _ h => ?_
    rw [if_pos rfl]
    refine ⟨h.1.1, fun mem => h.2.2 ?_⟩
    simpa using cover other mem
  | cons page rest ih =>
    have mem : page ∈ pages := subset (mem_cons_self ..)
    have different : idx ≠ page := fun same => apart (same ▸ mem)
    have := framed_filling idx firm pages done
    have covered : ∀ other ∈ pages, other ∈ done ++ [page] ∨ other ∈ rest :=
      fun other h => by simpa [or_assoc] using cover other h
    have continues := fun slot =>
      (ih (done ++ [page]) slot covered (subset_of_cons_subset subset)).weaken
        fun other cell _ h => .extend different h
    have gives : Grid cfg tid (At page (Mine tid False Parked)
        (Filling tid idx own pages done)) (pure false)
        fun all other cell => if all = true then Taken tid idx own pages Filled other cell
          else Taken tid idx own pages Parked other cell :=
      .done fun other cell _ h => Filling.around different id h
    refine (Grid.step effect_getState (fun _ => (lasting_parked.and
      fun _ _ _ _ drift seen => seen.drift drift).firm) fun s => ?_).weaken
      fun other cell _ h => ⟨fun same => h.1.2 (same ▸ mem), fun _ => h⟩
    split_ifs with compressed
    · have sure : Firm cfg tid false (Mine tid False fun cell =>
          Parked cell ∧ cell.state = .compressed) := lasting_parked_compressed.firm
      have framed := @framed_at cfg tid _ _ page this sure
      refine ((@acquireFaultSlot_grid _ _ _ slot framed).bind fun acquired => ?_).weaken
        fun other cell _ h => ⟨fun same => ?_, h.2⟩
      · split_ifs
        · refine (Grid.at populatePage_spec).bind fun populated => ?_
          split_ifs with succeeded
          · exact (continues true).weaken fun other cell _ h => ⟨fun same => (h.1 same).2, h.2⟩
          · exact gives.weaken fun other cell _ h =>
              ⟨fun same => (succeeded (h.1 same).1).elim, h.2⟩
        · exact gives.weaken fun other cell _ h =>
            ⟨fun same => ⟨(h.1 same).1, (h.1 same).2.1, (h.1 same).2.2.1⟩, h.2⟩
      · obtain ⟨mine, worker, parked, seen⟩ := h.1 same
        exact ⟨mine, worker, parked, (seen.engaged (by rw [compressed]; rfl)).trans compressed⟩
    · refine (continues slot).weaken fun other cell _ h => ⟨fun same => ?_, h.2⟩
      obtain ⟨mine, worker, parked, seen⟩ := h.1 same
      refine ⟨mine, worker, parked, fun state' => (compressed ?_).elim⟩
      unfold Seen at seen
      split_ifs at seen with busy
      · exact seen.symm.trans state'
      · rw [state'] at seen
        cases seen.1

theorem finalizeOther_spec [Framed cfg tid frame] :
    Spec cfg tid frame page (Mine tid False Opened) (finalizeOther page)
      fun _ => Loose tid False := by
  refine .sees lasting_opened fun s => ?_
  have rests : ∀ cell, Opened cell ∧ Seen s cell → s ≠ .compressed →
      s ≠ .compressedShadow → Resting cell := by
    rintro cell ⟨opened, seen⟩ one two
    unfold Seen at seen
    split_ifs at seen with busy
    · cases s <;> simp_all [engaged, Opened]
    · exact ⟨seen.1, opened.2.1⟩
  split_ifs with packed monitored
  · have restores : ∀ cell, CellInv cfg.deferred cell →
        Mine tid False (fun cell => Opened cell ∧ Seen s cell) cell →
        Mine tid False Restored cell := by
      rintro cell - ⟨mine, worker, opened, seen⟩
      refine ⟨mine, worker, ?_, opened.2.2⟩
      rw [seen.engaged (by rcases packed with rfl | rfl <;> rfl)]
      exact packed
    refine .weaken (.records recordless_restored (by simp) fun _ => ?_) restores
    exact (discardBlob_spec).bind fun _ => unlock_spec fun cell ok resting => resting.settled ok
  · rw [not_or] at packed
    refine (abandon_spec ?_).weaken fun _ _ mine => mine
    intro cell ok h
    exact ⟨h.1.2.1, h.1.2.2⟩
  · rw [not_or] at packed
    exact unlock_spec fun cell ok h => (rests cell h packed.1 packed.2).settled ok

/-- How the faulting page itself goes through `restoreRange`. -/
structure Reopens (cfg : Config) (tid : Thread) (idx : Nat) (data : Option Contents)
    (shut filled opened : Cell → Prop) : Prop where
  lasting : Lasting cfg false shut ∧ Lasting cfg false filled ∧ Lasting cfg false opened
  fills : ∀ frame : Nat → Cell → Prop, (∀ other, Firm cfg tid false (frame other)) →
    Spec cfg tid frame idx (Mine tid False shut) (populateOwn idx data)
      fun populated cell => populated = true ∧ Mine tid False filled cell
  back : ∀ cell, filled cell → shut cell
  opens : ∀ cell, CellInv cfg.deferred cell → filled cell →
    cell.Agrees cell.memory ∧ cell.state ≠ .compressing ∧ opened { cell with prot := .readWrite }

variable {data : Option Contents} {shut filled opened : Cell → Prop} {lo hi : Nat}

theorem populateRange_grid (reopens : Reopens cfg tid idx data shut filled opened)
    (pages : List Nat) (apart : idx ∉ pages) :
    Grid cfg tid (Taken tid idx (Mine tid False shut) pages Parked)
      (populateRange idx data pages) fun ready other cell =>
        if ready = true then Taken tid idx (Mine tid False filled) pages Filled other cell
        else Taken tid idx (Mine tid False shut) pages Parked other cell := by
  have anything : Firm cfg tid false fun _ => True := fun _ _ _ _ _ _ => trivial
  refine ((Grid.at (reopens.fills _ (framed_taken idx anything lasting_parked pages).firm)).bind
    fun populated => ?_).weaken fun other cell _ h => ⟨h.1, fun _ => ⟨fun _ => trivial,
      h.2⟩⟩
  cases populated with
  | false => exact .impossible idx fun cell _ h => nomatch (h.1 rfl).1
  | true =>
    have sure : Firm cfg tid false (Mine tid False filled) := reopens.lasting.2.1.firm
    have grid := populateOthers_grid sure pages pages [] false (fun _ mem => .inr mem) (List.Subset.refl _) apart
    refine (grid.weaken fun other cell _ h => ?_).post fun ready other cell _ h => ?_
    · have taken : Taken tid idx (Mine tid False filled) pages Parked other cell := by
        refine ⟨fun same => (h.1 same).2, fun mem => ?_⟩
        exact (h.2 fun same => apart (same ▸ mem)).2 mem
      exact ⟨taken, taken.1, fun absurd => nomatch absurd⟩
    · split_ifs with succeeded
      · rwa [if_pos succeeded] at h
      · rw [if_neg succeeded] at h
        exact ⟨fun same => ⟨(h.1 same).1, (h.1 same).2.1, reopens.back cell (h.1 same).2.2⟩, h.2⟩

theorem mem_othersIn : other ∈ othersIn idx lo hi ↔ lo ≤ other ∧ other < hi ∧ other ≠ idx := by
  simp only [othersIn, mem_filter, mem_range'_1, decide_eq_true_eq]
  omega

theorem othersIn_nodup : (othersIn idx lo hi).Nodup :=
  List.Nodup.sublist filter_sublist nodup_range'

theorem opened_page (ok : CellInv cfg.deferred cell)
    (mine : Mine tid works (fun cell => cell.Agrees cell.memory ∧ cell.state ≠ .compressing) cell) :
    CellInv cfg.deferred { cell with prot := .readWrite } ∧
      ∀ other quiet, other ≠ tid →
        CellRely cfg.deferred quiet other cell { cell with prot := .readWrite } := by
  have effect : Effect cfg tid (.protect .readWrite)
      (Mine tid works fun cell => cell.Agrees cell.memory ∧ cell.state ≠ .compressing)
      fun succeeded cell => succeeded = true ∧ Mine tid works (fun _ => True) cell :=
    effect_protect fun cell _ h => ⟨fun _ _ => h.1, .inr (.inl h.2), trivial⟩
  obtain ⟨kept, relied, -⟩ := effect cell {} true _ ok mine rfl rfl
  exact ⟨kept, relied⟩

theorem Filled.agrees (ok : CellInv cfg.deferred cell) (h : Filled cell) :
    cell.Agrees cell.memory := by
  by_cases compressed : cell.state = .compressed
  · exact h.2 compressed
  · exact ok.resident compressed h.1.2.1

theorem openRange_grid (reopens : Reopens cfg tid idx data shut filled opened)
    (lower : lo ≤ idx) (upper : idx < hi) :
    Grid cfg tid (Taken tid idx (Mine tid False shut) (othersIn idx lo hi) Parked)
      (openRange idx data lo hi) fun done other cell =>
        if done = true
        then Taken tid idx (Mine tid False opened) (othersIn idx lo hi) Opened other cell
        else Taken tid idx (Mine tid False shut) (othersIn idx lo hi) Parked other cell := by
  have apart : idx ∉ othersIn idx lo hi := by simp [mem_othersIn]
  refine (populateRange_grid reopens _ apart).bind fun ready => ?_
  cases ready with
  | false => exact .done fun _ _ _ h => h
  | true =>
    simp only [if_true]
    refine (Grid.opens (framed_taken idx reopens.lasting.2.2.firm lasting_opened
      (othersIn idx lo hi)).firm ?_ ?_).post fun done other cell _ h => by
        rw [if_pos h.1]
        exact h.2
    · intro other s' pre cell ok h
      by_cases same : other = idx
      · subst same
        have mine := h.1 rfl
        obtain ⟨agrees, idle, told⟩ := reopens.opens cell ok mine.2.2
        obtain ⟨kept, relied⟩ := opened_page ok ⟨mine.1, mine.2.1, agrees, idle⟩
        exact ⟨kept, relied, fun _ => ⟨mine.1, mine.2.1, told⟩, fun mem => (apart mem).elim⟩
      · have mine := h.2 (mem_othersIn.mpr ⟨s', by omega, same⟩)
        have agrees := Filled.agrees ok mine.2.2
        obtain ⟨kept, relied⟩ := opened_page ok ⟨mine.1, mine.2.1, agrees, mine.2.2.1.2.1⟩
        exact ⟨kept, relied, fun absurd => (same absurd).elim,
          fun _ => ⟨mine.1, mine.2.1, mine.2.2.1.2.1, mine.2.2.1.2.2, agrees⟩⟩
    · intro other outside cell _ h
      refine ⟨fun same => (outside ?_).elim, fun mem => (outside ?_).elim⟩
      · omega
      · have := mem_othersIn.mp mem
        omega

/-- The whole of `restoreRange`, seen from the page whose lock the caller holds. -/
theorem restoreRange_spec (reopens : Reopens cfg tid idx data shut filled opened)
    (lower : lo ≤ idx) (upper : idx < hi) :
    Solo cfg tid idx (Mine tid False shut)
      (restoreRange idx data lo hi) fun restored cell =>
        if restored = true then Mine tid False opened cell else Mine tid False shut cell := by
  have apart : idx ∉ othersIn idx lo hi := by simp [mem_othersIn]
  have sure : Firm cfg tid false (Mine tid False shut) := reopens.lasting.1.firm
  refine Grid.spec (((lockOthers_grid sure (othersIn idx lo hi) [] othersIn_nodup apart).bind
    fun locked => ?_).weaken fun other cell _ h => ⟨h, fun absurd => nomatch absurd⟩)
  cases locked with
  | false => exact .done fun _ _ _ h => h
  | true =>
    simp only [if_true, nil_append]
    refine (openRange_grid reopens lower upper).bind fun done => ?_
    cases done with
    | false =>
      refine (unlockAll_grid sure lasting_parked (fun _ _ h => h.1) _ othersIn_nodup
        apart).bind fun _ => .done fun _ _ _ h => h
    | true =>
      simp only [if_true]
      refine (forPages_grid reopens.lasting.2.2.firm lasting_opened (fun _ _ =>
        finalizeOther_spec.post fun _ _ _ _ => trivial) _ othersIn_nodup apart).bind
        fun _ => .done fun _ _ _ h => h

end Range

section Fault

variable {i : Nat}
variable {c : Cell} {deferred : Bool}

theorem reopens_compressed (cfg : Config) (tid : Thread) (i : Nat) (bytes : Contents) :
    Reopens cfg tid i (some bytes) (CompressedAs bytes) (Populated bytes) Restored where
  lasting := ⟨lasting_compressedAs bytes, lasting_populated bytes, lasting_restored⟩
  fills := fun _ steady => have := Framed.mk steady; (Spec.populates (lasting_populated bytes)
    (fun _ _ h => ⟨h.agrees, { h with }, rfl⟩)
    (.done fun _ _ mine => ⟨rfl, mine⟩)).tail
  back := fun _ h => h.1
  opens := by
    rintro c - ⟨h, same⟩
    have agrees : c.Agrees c.memory := by rw [same]; exact h.agrees
    exact ⟨agrees, by simp [h.state], .inl h.state, agrees⟩

theorem CellInv.unengaged (ok : CellInv deferred c) (rest : engaged c.state = false) :
    c.Agrees c.memory ∧ c.state ≠ .compressing := by
  have apart : ∀ s, engaged s = true → c.state ≠ s := by
    rintro s busy rfl
    rw [rest] at busy
    cases busy
  exact ⟨ok.resident (apart _ rfl) (apart _ rfl), apart _ rfl⟩

theorem unengaged_settled (ok : CellInv cfg.deferred c)
    (rest : engaged c.state = false) : Settled c := by
  have idle := (ok.unengaged rest).2
  refine ⟨fun same => ?_, fun same => (idle same).elim, fun same => ?_, ok.closed idle⟩
  · rw [same] at rest
    cases rest
  · rw [same] at rest
    cases rest

theorem Resting.agrees (ok : CellInv deferred c)
    (resting : Resting c) : c.Agrees c.memory ∧ c.state ≠ .compressing :=
  ok.unengaged resting.1

theorem reopens_resting (cfg : Config) (tid : Thread) (i : Nat) :
    Reopens cfg tid i none Resting Resting Resting where
  lasting := ⟨lasting_resting, lasting_resting, lasting_resting⟩
  fills := fun _ _ => .done fun _ _ mine => ⟨rfl, mine⟩
  back := fun _ => id
  opens := fun _ ok resting => ⟨(resting.agrees ok).1, (resting.agrees ok).2, resting⟩

variable {data : Option Contents} {shut filled opened : Cell → Prop}

theorem restoreNearCap_spec (reopens : Reopens cfg tid i data shut filled opened) :
    Solo cfg tid i (Mine tid False shut)
      (restoreNearCap i data) fun restored c =>
        if restored = true then Mine tid False opened c else Mine tid False shut c := by
  refine .keeps reopens.lasting.1 (fun _ _ _ _ stepped => by cases stepped; rfl) fun s => ?_
  split_ifs
  · refine .asked reopens.lasting.1.firm fun found => ?_
    split_ifs
    · refine .bounded reopens.lasting.1.firm fun lo hi lower upper => ?_
      split_ifs
      · exact .done fun _ _ h => h
      · exact restoreRange_spec reopens lower upper
    · exact .done fun _ _ h => h
  · exact .done fun _ _ h => h

theorem tryNearCap_spec (reopens : Reopens cfg tid i data shut filled opened) :
    Solo cfg tid i (Mine tid False shut) (tryNearCap i data) fun restored c =>
        if restored = true then Mine tid False opened c else Mine tid False shut c := by
  refine .asked reopens.lasting.1.firm fun near => ?_
  split_ifs
  · exact restoreNearCap_spec reopens
  · exact .done fun _ _ h => h

theorem makeResidentPageWritable_spec : Solo cfg tid i (Mine tid False Resting)
      (makeResidentPageWritable i) fun _ => Mine tid False Resting := by
  refine (tryNearCap_spec (reopens_resting cfg tid i)).bind fun near => ?_
  cases near with
  | true => exact .stay
  | false =>
    refine .protects lasting_resting ?_ .stay
    intro c ok resting
    obtain ⟨agrees, idle⟩ := resting.agrees ok
    exact ⟨fun _ _ => agrees, .inr (.inl idle), resting⟩

theorem restoreFaulted_spec (bytes : Contents) :
    Solo cfg tid i (Mine tid False (CompressedAs bytes))
      (restoreFaulted i bytes) fun restored c =>
        restored = true ∧ Mine tid False Restored c := by
  refine (tryNearCap_spec (reopens_compressed cfg tid i bytes)).bind fun near => ?_
  cases near with
  | true => exact .done fun _ _ h => ⟨rfl, h⟩
  | false =>
    exact (restorePageContents_spec bytes).then
      (.done fun _ _ h => ⟨rfl, h⟩)

theorem prefetchPage_harmless (page : Nat) : Harmless cfg tid (prefetchPage page) := by
  have quits : ∀ {know : Cell → Prop}, (∀ c, CellInv cfg.deferred c → know c → Settled c) →
      Spec cfg tid (fun _ _ => True) page (Mine tid False know) (on page .unlock)
        fun _ _ => True := fun settled =>
    (unlock_spec settled).post fun _ _ _ _ => trivial
  refine @Spec.harmless cfg tid Unit page _ (fun _ _ => True) ?_
  refine .silent .committedPages (fun _ => True) ?_ (fun _ _ _ _ _ _ => trivial)
    fun committed _ => ?_
  · intro ch ans pre s' ran
    simp only [perform] at ran
    split_ifs at ran
    cases ran
    exact ⟨rfl, trivial⟩
  split_ifs
  · refine .asked (fun _ _ _ _ _ _ => trivial) fun same => ?_
    split_ifs
    · refine .weaken (.tries ?_ (.done fun _ _ _ => trivial))
        fun _ _ _ => (fun never => never.elim : Loose tid False _)
      refine .sees lasting_settled fun s => ?_
      refine .step effect_getInfo (fun _ => ((lasting_settled.and
        fun _ _ _ _ drift seen => seen.drift drift).and lasting_info).firm) fun info => ?_
      split_ifs with packed
      · have h : ∀ c, CellInv cfg.deferred c →
            Mine tid False (fun c => (Settled c ∧ Seen s c) ∧ c.info = info) c →
            Mine tid False (fun c => (Parked c ∧ c.state = .compressed) ∧
              c.info = info) c := by
          rintro c - ⟨mine, worker, ⟨settled, seen⟩, same⟩
          have compressed : c.state = .compressed := by
            rw [seen.engaged (by rw [packed.1]; rfl), packed.1]
          exact ⟨mine, worker, ⟨⟨settled, by simp [compressed], by simp [compressed]⟩, compressed⟩,
            same⟩
        refine .weaken (.asked (lasting_parked_compressed.and lasting_info).firm fun slot => ?_) h
        split_ifs
        · refine .step effect_decompress_parked
            (fun bytes => (lasting_compressedAs bytes).firm) fun bytes => ?_
          refine (restorePageContents_spec bytes).then ?_
          refine (releaseBlob_spec recordless_restored).bind fun _ => ?_
          refine .records recordless_restored (by simp) fun _ => ?_
          exact (abandon_spec fun c _ h =>
            ⟨by rcases h.1 with same | same <;> simp [same], h.2⟩).post
            fun _ _ _ _ => trivial
        · exact quits fun _ _ h => h.1.1.1
      · exact quits fun _ _ h => h.1.1
    · exact .done fun _ _ _ => trivial
  · exact .done fun _ _ _ => trivial

theorem prefetchAdjacent_harmless : Harmless cfg tid (prefetchAdjacent cfg i) :=
  forPages_harmless fun page _ => prefetchPage_harmless page

/-- The state a fault handler reads, together with what the lock guarantees. -/
def Faulted (s : PageState) (c : Cell) : Prop := Settled c ∧ Seen s c

theorem Faulted.compressed (h : Faulted .compressed c) : Parked c ∧ c.state = .compressed := by
  have same := h.2.engaged rfl
  exact ⟨⟨h.1, by simp [same], by simp [same]⟩, same⟩

theorem faultCompressed_spec : Solo cfg tid i (Mine tid False (Faulted .compressed))
      (faultCompressed cfg i) fun _ _ => True := by
  refine .weaken (.books (fun _ => lasting_parked_compressed) ?_ fun wasPending => ?_)
    fun c _ mine => ⟨mine.1, mine.2.1, mine.2.2.compressed⟩
  · rintro pre ch ans s' - h stepped
    cases stepped
    exact ⟨rfl, ⟨{ h.1.1 with }, h.1.2⟩, h.2⟩
  refine .step effect_getInfo
    (fun _ => (lasting_parked_compressed.and lasting_info).firm) fun info => ?_
  refine .step effect_decompress_parked
    (fun bytes => (lasting_compressedAs bytes).firm) fun bytes => ?_
  refine (restoreFaulted_spec bytes).then ?_
  refine (discardBlob_spec).bind fun _ => ?_
  refine .unlocks (fun c ok resting => resting.settled ok) ?_
  exact prefetchAdjacent_harmless.spec.bind fun _ => .done fun _ _ _ => trivial

theorem effect_commit :
    Effect cfg tid .commit (Mine tid works (Faulted .compressing)) fun succeeded c =>
      succeeded = true ∧ Mine tid works
        (fun c => c.state = .compressing ∧ c.Agrees c.memory) c := by
  refine .holder ?_
  rintro pre ch ans later ok ⟨locked, worker, settled, seen⟩ may stepped
  have succeeds : ch.flag = true := may
  simp only [cellStep, succeeds, if_true] at stepped
  cases stepped
  have s := seen.engaged rfl
  have agrees := settled.busy s
  exact ⟨{
    locked := locked, lock := locked, app := rfl, span := rfl, held := rfl, free := rfl
    owner := rfl, worker := rfl, emptied := Iff.rfl, reopened := fun _ => s
    resident := fun _ absurd => (absurd s).elim, visible := fun _ _ => agrees
    unopened := fun _ _ _ _ => rfl, unpacked := fun _ => id, unengaged := fun _ => id },
    rfl, locked, worker, s, agrees⟩

theorem lasting_compressing {quiet : Bool} :
    Lasting cfg quiet fun c => c.state = .compressing ∧ c.Agrees c.memory :=
  (lasting_state rfl).and fun _ _ _ _ drift agrees => drift.agrees agrees

theorem faultCompressing_spec : Solo cfg tid i (Mine tid False (Faulted .compressing))
      (faultCompressing i) fun _ _ => True := by
  have opens : Solo cfg tid i (Mine tid False (Faulted .compressing)) (commitOrRemap i) fun _ =>
        Mine tid False fun c => c.state = .compressing ∧ c.Agrees c.memory := by
    refine .step effect_commit (fun _ => lasting_compressing.firm.given) fun succeeded => ?_
    cases succeeded with
    | true => exact .done fun _ _ h => h.2
    | false => exact .impossible fun _ _ h => nomatch h.1
  refine opens.bind fun _ => (abandon_spec fun c _ h => ?_).bind fun _ => .done fun _ _ _ => trivial
  exact ⟨by simp [h.1], h.2⟩

theorem faultMonitoring_spec : Solo cfg tid i (Mine tid False Resting)
      (faultMonitoring i) fun _ _ => True := by
  refine makeResidentPageWritable_spec.bind fun writable => ?_
  split_ifs
  · exact (abandon_spec fun c ok resting =>
      ⟨resting.2, (resting.agrees ok).1⟩).bind fun _ => .done fun _ _ _ => trivial
  · exact .unlocks (fun c ok resting => resting.settled ok) (.done fun _ _ _ => trivial)

theorem faultActive_spec :
    Solo cfg tid i (Mine tid False Resting) (faultActive i) fun _ _ => True :=
  makeResidentPageWritable_spec.bind fun _ =>
    .unlocks (fun _ ok resting => resting.settled ok)
      (.done fun _ _ _ => trivial)

theorem faultShadow_spec : Solo cfg tid i (Mine tid False (Faulted .compressedShadow))
      (faultShadow i) fun _ _ => True := by
  refine .protects lasting_restored ?_ ((discardBlob_spec).bind fun _ =>
    .unlocks (fun _ ok resting => resting.settled ok)
      (.done fun _ _ _ => trivial))
  intro c ok h
  have s := h.2.engaged rfl
  have agrees : c.Agrees c.memory := ok.resident (by simp [s]) (by simp [s])
  exact ⟨fun _ _ => agrees, .inr (.inl (by simp [s])), .inr s, agrees⟩

theorem handleFault_harmless : Harmless cfg tid (handleFault cfg i) := by
  refine @Spec.harmless cfg tid Bool i _ (fun _ _ => True) ?_
  have reads : Effect cfg tid .heldByThisThread (fun _ => True) fun _ _ => True :=
    effect_read fun _ _ _ _ _ _ stepped => by cases stepped; exact ⟨rfl, trivial⟩
  refine .step reads (fun _ _ _ _ _ _ _ => trivial) fun reentered => ?_
  split_ifs
  · exact .done fun _ _ _ => trivial
  · have locks : Effect cfg tid .lock (fun c => Loose tid False c ∧ True) _ :=
      effect_lock fun _ _ => trivial
    refine .weaken (.step locks (fun _ => (lasting_settled.and
      fun _ _ _ _ _ _ => trivial).firm) fun _ => ?_)
      fun _ _ _ => ⟨(fun never => never.elim : Loose tid False _), trivial⟩
    refine .weaken (.sees lasting_settled fun s => ?_)
      fun _ _ mine => ⟨mine.1, mine.2.1, mine.2.2.1⟩
    cases s with
    | compressed => exact faultCompressed_spec
    | compressing => exact faultCompressing_spec
    | activeMonitoring =>
      exact faultMonitoring_spec.weaken fun _ _ mine =>
        ⟨mine.1, mine.2.1, mine.2.2.2.rests rfl (by simp)⟩
    | active =>
      exact faultActive_spec.weaken fun _ _ mine =>
        ⟨mine.1, mine.2.1, mine.2.2.2.rests rfl (by simp)⟩
    | compressedShadow => exact faultShadow_spec
    | empty => exact .unlocks (fun _ _ h => h.1) (.done fun _ _ _ => trivial)

end Fault

end Smash.Compressor
