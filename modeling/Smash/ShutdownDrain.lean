import Smash.RangeRestore
import Smash.LastStore

/-! What `drainAllForShutdown` leaves behind. `stop` calls it when the compressor threads are
joined, so it runs alone, and kernel calls succeed. A page in COMPRESSED_SHADOW is treated like a
compressed one: the bytes of its blob, taken before the application went on writing, replace what
the page holds. -/
namespace Smash.Compressor

open Program PageMachine Transition

section Calls

variable {allowed : Op → Choice → Prop} {t : Thread} {i : Nat} {s : Shared}
  {Result : Type} {post : Result → Shared → Prop}

/-- Each call can be answered, and kernel calls succeed. -/
structure Succeeding (allowed : Op → Choice → Prop) : Prop where
  possible : Possible allowed
  kernel : ∀ op choice, allowed op choice → KernelSucceeds op choice

theorem delivers_answer {question : Question} {next : Bool → Code Result}
    (possible : Possible allowed) (each : ∀ ch, allowed (.ask question) ch →
      Lands allowed t (next ch.flag) post s) : Lands allowed t (ask question >>= next) post s := by
  obtain ⟨some, permitted⟩ := possible (.ask question)
  refine ⟨⟨some, permitted, nofun⟩, fun ch ans s' permitted ran => ?_⟩
  cases ran
  exact each ch permitted

theorem delivers_bounds {next : Nat × Nat → Code Result} (some : ∃ ch, allowed (.bounds i) ch ∧
      ch.number ≤ i ∧ i < ch.upper ∧ ch.upper ≤ s.pages)
    (each : ∀ ch, allowed (.bounds i) ch → ch.number ≤ i → i < ch.upper → ch.upper ≤ s.pages →
      Lands allowed t (next (ch.number, ch.upper)) post s) :
    Lands allowed t (boundsAround i >>= next) post s := by
  obtain ⟨ch, permitted, within⟩ := some
  refine ⟨⟨ch, permitted, ?_⟩, fun ch ans s' permitted ran => ?_⟩
  · simp [perform, within]
  · simp only [perform] at ran
    split_ifs at ran with within
    cases ran
    exact each ch permitted within.1 within.2.1 within.2.2

theorem delivers_protect {prot : Prot} {next : Bool → Code Result} {c : Cell}
    (succeeding : Succeeding allowed) (inside : i < s.pages) :
    Lands allowed t (on i (.protect prot) >>= next) post (s.set i c) ↔
      Lands allowed t (next true) post (s.set i { c with prot := prot }) := by
  refine delivers_next succeeding.possible inside fun ch permitted => ?_
  have flag : ch.flag = true := succeeding.kernel _ _ permitted
  rw [cellStep, if_pos flag]

end Calls

section Pages

variable {allowed : Op → Choice → Prop} {tid : Thread} {idx : Nat} {s : Shared}

theorem releasedCell_app {c : Cell} : (releasedCell c).app = c.app := by
  rw [releasedCell]
  split
  · rfl
  · split <;> rfl

def refilledCell (c : Cell) (bytes : Contents) : Cell :=
  { discardedCell { c with memory := bytes, prot := .readWrite, pending := false } with
    lock := none }

def awakenedCell (c : Cell) : Cell :=
  { c with prot := .readWrite, state := .active, reopened := false, lock := none }

theorem drainCompressed_delivers (succeeding : Succeeding allowed) (inside : idx < s.pages) :
    Lands allowed tid (drainCompressed idx) (fun _ s' => s'.pages = s.pages ∧
        ∃ ch, allowed (.page idx (.decompress (s.page idx).info)) ch ∧
          s'.page = Function.update s.page idx (refilledCell (s.page idx)
            ((s.page idx).content.getD ch.bytes))) s := by
  have possible := succeeding.possible
  rw [drainCompressed]
  apply (delivers_read possible inside fun _ => rfl).mpr
  apply delivers_decompress possible inside
  intro ch permitted
  have filled : ∀ copied, allowed (.page idx (.populate
      ((s.page idx).content.getD ch.bytes))) copied → cellStep tid
        (.populate ((s.page idx).content.getD ch.bytes)) copied (s.page idx) =
      some (true, { s.page idx with
        memory := (s.page idx).content.getD ch.bytes }) := by
    intro copied permitted
    have flag : copied.flag = true := succeeding.kernel _ _ permitted
    rw [cellStep, if_pos flag]
  rw [restoreDrained, restorePageContents, populateThenOpen]
  simp only [Prog.bind_assoc]
  apply (delivers_at possible inside filled).mpr
  rw [if_pos rfl]
  apply (delivers_protect succeeding inside).mpr
  simp only [if_true]
  apply (delivers_next possible inside fun _ _ => rfl).mpr
  generalize refilling : ({ s.page idx with
    memory := (s.page idx).content.getD ch.bytes, prot := .readWrite,
    pending := false } : Cell) = c
  have here : idx < (s.set idx c).pages := inside
  have still : idx < (recount (s.set idx c) (refund ((s.set idx c).page idx))).pages := inside
  apply (discardBlob_delivers possible here).mpr
  apply (delivers_next possible still fun _ _ => rfl).mpr
  refine ⟨rfl, ch, permitted, ?_⟩
  rw [refilledCell, refilling]
  simp [Shared.set, recount]

/-- The page lies in a range that the restore near the cap has found around `idx`, and it was
opened with that range. -/
def OpenedNear (allowed : Op → Choice → Prop) (tid : Thread) (pages idx page : Nat)
    (pre c' : Cell) : Prop :=
  page < pages ∧ (∃ ch, allowed (.ask .nearCap) ch ∧ ch.flag = true) ∧
    (∃ ch, allowed (.bounds idx) ch ∧ ch.number ≤ page ∧ page < ch.upper) ∧
    Lockable pre ∧ c' = finalizedCell (openedCell tid pre pre.memory)

structure NearOutcome (allowed : Op → Choice → Prop) (tid : Thread) (idx : Nat)
    (before : Shared) (ok : Bool) (after : Shared) : Prop where
  pages : after.pages = before.pages
  own : after.page idx =
    if ok then { before.page idx with prot := .readWrite } else before.page idx
  others : ∀ page ≠ idx, after.page page = before.page page ∨
    OpenedNear allowed tid before.pages idx page (before.page page) (after.page page)

def Bounded (allowed : Op → Choice → Prop) (idx pages : Nat) : Prop :=
  (∃ ch, allowed (.ask .nearCap) ch ∧ ch.flag = true) →
    ∃ ch, allowed (.bounds idx) ch ∧
      ch.number ≤ idx ∧ idx < ch.upper ∧ ch.upper ≤ pages

def Plain (allowed : Op → Choice → Prop) (idx : Nat) (s : Shared) : Prop :=
  ∀ ch, allowed (.bounds idx) ch → ∀ page, ch.number ≤ page →
    page < ch.upper → (s.page page).state ≠ .compressed

/-- The page is open and unlocked again, and no page but those of a range has changed. -/
def Awakened (allowed : Op → Choice → Prop) (tid : Thread) (idx : Nat)
    (pre s' : Shared) : Prop :=
  s'.pages = pre.pages ∧ s'.page idx = awakenedCell (pre.page idx) ∧
    ∀ page ≠ idx, s'.page page = pre.page page ∨
      OpenedNear allowed tid pre.pages idx page (pre.page page) (s'.page page)

theorem nearOutcome_refused : NearOutcome allowed tid idx s false s :=
  ⟨rfl, rfl, fun _ _ => .inl rfl⟩

theorem Refilled.unchanged {lo hi : Nat} {filled : Nat → Contents}
    (refilled : Refilled s idx none (othersIn idx lo hi) filled)
    (plain : ∀ page, lo ≤ page → page < hi → (s.page page).state ≠ .compressed) :
    filled = bytesOf s := by
  funext page
  by_cases own : page = idx
  · subst own
    exact refilled.own.resolve_right nofun
  · rcases refilled.neighbours page own with kept | ⟨mem, packed, -⟩
    · exact kept
    · have within := mem_othersIn.mp mem
      exact absurd packed (plain page within.1 within.2.1)

theorem RangeOutcome.near {ch : Choice} {ok : Bool} {s' : Shared}
    (outcome : RangeOutcome allowed tid s idx none ch.number ch.upper ok s')
    (near : ∃ ch, allowed (.ask .nearCap) ch ∧ ch.flag = true)
    (permitted : allowed (.bounds idx) ch) (fits : ch.upper ≤ s.pages)
    (plain : ∀ page, ch.number ≤ page → page < ch.upper → (s.page page).state ≠ .compressed) :
    NearOutcome allowed tid idx s ok s' := by
  cases ok with
  | false =>
    obtain ⟨⟨filled, refilled, rfl⟩, -⟩ := outcome.refused rfl
    rw [refilled.unchanged plain, holding_nil]
    exact nearOutcome_refused
  | true =>
    obtain ⟨lockable, pages, filled, complete, final⟩ := outcome.restored rfl
    have same := complete.unchanged plain
    subst same
    have away : idx ∉ othersIn idx ch.number ch.upper := fun mem => (mem_othersIn.mp mem).2.2 rfl
    refine ⟨pages, ?_, fun page apart => ?_⟩
    · rw [final, if_neg away, if_pos rfl]
      rfl
    · by_cases mem : page ∈ othersIn idx ch.number ch.upper
      · have within := mem_othersIn.mp mem
        refine .inr ⟨Nat.lt_of_lt_of_le within.2.1 fits, near,
          ⟨ch, permitted, within.1, within.2.1⟩, lockable page mem, ?_⟩
        rw [final, if_pos mem]
        rfl
      · exact .inl (by rw [final, if_neg mem, if_neg apart])

theorem tryNearCap_delivers (succeeding : Succeeding allowed) (inside : idx < s.pages)
    (bounded : Bounded allowed idx s.pages) (plain : Plain allowed idx s) :
    Lands allowed tid (tryNearCap idx none) (NearOutcome allowed tid idx s) s := by
  have possible := succeeding.possible
  rw [tryNearCap]
  apply delivers_answer possible
  intro near permitted
  cases flag : near.flag with
  | false => exact nearOutcome_refused
  | true =>
    have near : ∃ ch, allowed (.ask .nearCap) ch ∧ ch.flag = true := ⟨near, permitted, flag⟩
    rw [if_pos rfl, restoreNearCap]
    apply (delivers_read possible inside fun _ => rfl).mpr
    by_cases asked : (s.page idx).state = .compressed ∨ (s.page idx).state = .activeMonitoring
    · rw [if_pos asked]
      apply delivers_answer possible
      intro found permitted
      cases found.flag with
      | false => exact nearOutcome_refused
      | true =>
        rw [if_pos rfl]
        apply delivers_bounds (bounded near)
        intro ch permitted below above fits
        dsimp only
        by_cases single : ch.upper - ch.number < 2
        · rw [if_pos single]
          exact nearOutcome_refused
        · rw [if_neg single]
          apply delivers_mono (restoreRange_delivers possible below above fits)
          intro ok s' outcome
          exact outcome.near near permitted fits (plain ch permitted)
    · rw [if_neg asked]
      exact nearOutcome_refused

theorem drainMonitored_delivers (succeeding : Succeeding allowed) (inside : idx < s.pages)
    (bounded : Bounded allowed idx s.pages)
    (plain : Plain allowed idx s) :
    Lands allowed tid
      (do if ← makeResidentPageWritable idx then abandon idx else on idx .unlock)
      (fun _ => Awakened allowed tid idx s) s := by
  have possible := succeeding.possible
  -- Whichever way the page was opened, it is marked ACTIVE and unlocked next.
  have close : ∀ post : Shared, NearOutcome allowed tid idx s true post →
      Lands allowed tid (abandon idx)
        (fun _ => Awakened allowed tid idx s) post := by
    intro post outcome
    have here : idx < post.pages := outcome.pages ▸ inside
    rw [abandon]
    apply (delivers_at possible here fun _ _ => rfl).mpr
    rw [← Prog.bind_pure (on idx CellOp.unlock)]
    apply (delivers_next possible here fun _ _ => rfl).mpr
    refine ⟨outcome.pages, ?_, fun page apart => ?_⟩
    · simp only [Shared.set_page, Function.update_self, outcome.own, if_true]
      rfl
    · simp only [Shared.set_page, Function.update_of_ne apart]
      exact outcome.others page apart
  rw [makeResidentPageWritable]
  simp only [Prog.bind_assoc]
  apply delivers_then (tryNearCap_delivers succeeding inside bounded plain)
  intro ok post outcome
  cases ok with
  | true => exact close post outcome
  | false =>
    have here : idx < post.pages := outcome.pages ▸ inside
    simp only [Bool.false_eq_true, if_false, Prog.bind_assoc]
    rw [← set_self post idx]
    apply (delivers_protect succeeding here).mpr
    apply close
    refine ⟨outcome.pages, ?_, fun page apart => ?_⟩
    · simp only [Shared.set_page, Function.update_self, outcome.own]
      rfl
    · simp only [Shared.set_page, Function.update_of_ne apart]
      exact outcome.others page apart

structure PageDrained (allowed : Op → Choice → Prop) (tid : Thread) (idx : Nat)
    (before after : Shared) : Prop where
  pages : after.pages = before.pages
  others : ∀ page ≠ idx, after.page page = before.page page ∨
    (before.page idx).state = .activeMonitoring ∧
      OpenedNear allowed tid before.pages idx page (before.page page) (after.page page)
  taken : (before.page idx).lock ≠ none → after.page idx = before.page idx
  packed : (before.page idx).lock = none →
    (before.page idx).state = .compressed ∨ (before.page idx).state = .compressedShadow →
    ∃ choice, allowed (.page idx (.decompress (before.page idx).info)) choice ∧
      after.page idx = refilledCell { before.page idx with lock := some tid }
        ((before.page idx).content.getD choice.bytes)
  monitored : (before.page idx).lock = none → (before.page idx).state = .activeMonitoring →
    after.page idx = awakenedCell (before.page idx)
  other : (before.page idx).state ≠ .compressed →
    (before.page idx).state ≠ .compressedShadow →
    (before.page idx).state ≠ .activeMonitoring → after.page idx = before.page idx

theorem drainPage_delivers (succeeding : Succeeding allowed) (inside : idx < s.pages)
    (bounded : (s.page idx).state = .activeMonitoring → Bounded allowed idx s.pages)
    (plain : (s.page idx).state = .activeMonitoring → Plain allowed idx s) :
    Lands allowed tid (drainPage idx) (fun _ s' => PageDrained allowed tid idx s s') s := by
  have possible := succeeding.possible
  rw [drainPage]
  by_cases free : (s.page idx).lock = none
  · apply (delivers_tryLock_free possible inside free).mpr
    rw [if_pos rfl]
    have here : idx < (s.set idx { s.page idx with lock := some tid }).pages := inside
    have own : (s.set idx { s.page idx with lock := some tid }).page idx =
        { s.page idx with lock := some tid } := Function.update_self ..
    have apart : ∀ page ≠ idx, (s.set idx
        { s.page idx with lock := some tid }).page page = s.page page :=
      fun page apart => Function.update_of_ne apart ..
    have back : { s.page idx with lock := none } = s.page idx := by
      rw [← free]
    apply (delivers_read possible here fun _ => rfl).mpr
    rw [own]
    by_cases packed : (s.page idx).state = .compressed ∨ (s.page idx).state = .compressedShadow
    · rw [if_pos packed]
      apply delivers_mono (drainCompressed_delivers succeeding here)
      rintro - s' ⟨pages, ch, permitted, page⟩
      rw [own] at permitted page
      refine ⟨pages, fun j away => .inl ?_, fun taken => absurd free taken,
        fun _ _ => ⟨ch, permitted, ?_⟩, fun _ monitored => ?_, fun dense shadow _ => ?_⟩
      · rw [page, Function.update_of_ne away, apart j away]
      · rw [page, Function.update_self]
        rfl
      · rcases packed with packed | packed <;> cases packed.symm.trans monitored
      · exact (packed.elim dense shadow).elim
    · rw [if_neg packed]
      by_cases monitored : (s.page idx).state = .activeMonitoring
      · rw [if_pos monitored]
        apply delivers_mono (drainMonitored_delivers succeeding here (bounded monitored) ?_)
        · rintro - s' ⟨pages, mine, others⟩
          refine ⟨pages, fun j away => ?_, fun taken => absurd free taken,
            fun _ full => absurd full packed, fun _ _ => ?_, fun _ _ awake => absurd monitored awake⟩
          · rw [← apart j away]
            exact (others j away).imp_right fun near => ⟨monitored, near⟩
          · rw [mine, own]
            rfl
        · intro ch permitted page lower upper
          by_cases same : page = idx
          · subst same
            rw [own]
            exact fun full => packed (.inl full)
          · rw [apart page same]
            exact plain monitored ch permitted page lower upper
      · rw [if_neg monitored, ← Prog.bind_pure (on idx CellOp.unlock)]
        apply (delivers_next possible inside fun _ _ => rfl).mpr
        have same : s.set idx { s.page idx with lock := none } = s := by
          rw [back, set_self]
        change PageDrained allowed tid idx s (s.set idx { s.page idx with lock := none })
        rw [same]
        exact ⟨rfl, fun _ _ => .inl rfl, fun _ => rfl, fun _ full => absurd full packed,
          fun _ awake => absurd awake monitored, fun _ _ _ => rfl⟩
  · apply (delivers_tryLock_taken possible inside free).mpr
    rw [if_neg Bool.false_ne_true]
    exact ⟨rfl, fun _ _ => .inl rfl, fun _ => rfl, fun none => absurd none free,
      fun none => absurd none free, fun _ _ _ => rfl⟩

end Pages

section Drain

variable {tid : Thread} {shared before after : Shared} {cell : Cell} {done i : Nat}

structure Recovered (cell : Cell) : Prop where
  agrees : cell.Agrees cell.memory
  unpacked : ¬ (cell.state = .compressed ∨ cell.state = .compressedShadow)
  awake : cell.state ≠ .activeMonitoring

/-- The drain can recover the page: nobody holds its lock, and what it will hold, its blob's bytes
if it is COMPRESSED or COMPRESSED_SHADOW and else its own, are the application's last stores. -/
structure Drainable (cell : Cell) : Prop where
  unlocked : cell.state = .compressed ∨ cell.state = .compressedShadow ∨
    cell.state = .activeMonitoring → cell.lock = none
  blob : cell.state = .compressed ∨ cell.state = .compressedShadow →
    ∀ bytes, cell.Agrees (cell.content.getD bytes)
  memory : ¬ (cell.state = .compressed ∨ cell.state = .compressedShadow) →
    cell.Agrees cell.memory

/-- The answers the drain of `shared` can get: kernel calls succeed, and the range around a
monitored page is one of monitored pages. -/
def DrainAnswers (shared : Shared) (op : Op) (ch : Choice) : Prop :=
  KernelSucceeds op ch ∧ ∀ i, op = .bounds i → ∀ page, ch.number ≤ page →
    page < ch.upper → (shared.page page).state = .activeMonitoring

theorem kernel_succeeds_flag {op : Op} {ch : Choice} (flag : ch.flag = true) :
    KernelSucceeds op ch := by
  cases op with
  | page i op => cases op <;> first | exact flag | trivial
  | range first count op => exact flag
  | _ => trivial

theorem drainAnswers_succeeding (shared : Shared) : Succeeding (DrainAnswers shared) := by
  refine ⟨fun op => ⟨{}, kernel_succeeds_flag rfl, ?_⟩, fun _ _ permitted => permitted.1⟩
  intro i _ page _ upper
  exact absurd upper (Nat.not_lt_zero page)

theorem drainAnswers_bounded {pages : Nat} (inside : i < pages)
    (monitored : (shared.page i).state = .activeMonitoring) :
    Bounded (DrainAnswers shared) i pages := by
  intro _
  refine ⟨{ number := i, upper := i + 1 }, ⟨trivial, ?_⟩, Nat.le_refl _, Nat.lt_succ_self _, inside⟩
  intro j _ page lower upper
  have same : page = i := Nat.le_antisymm (Nat.lt_succ_iff.mp upper) lower
  rw [same]
  exact monitored

theorem refilled_recovered {bytes : Contents} (agrees : cell.Agrees bytes) :
    Recovered (refilledCell { cell with lock := some tid } bytes) := by
  have mem : (refilledCell { cell with lock := some tid } bytes).memory = bytes :=
    releasedCell_memory
  have app : (refilledCell { cell with lock := some tid } bytes).app = cell.app := releasedCell_app
  refine ⟨?_, nofun, nofun⟩
  rw [Cell.Agrees, mem, app]
  exact agrees

theorem finalized_recovered (agrees : cell.Agrees cell.memory)
    (unpacked : ¬ (cell.state = .compressed ∨ cell.state = .compressedShadow)) :
    Recovered (finalizedCell (openedCell tid cell cell.memory)) := by
  have same : (openedCell tid cell cell.memory).state = cell.state := rfl
  rw [finalizedCell, same, if_neg unpacked]
  by_cases monitored : cell.state = .activeMonitoring
  · rw [if_pos monitored]
    exact ⟨agrees, by simp, by simp⟩
  · rw [if_neg monitored]
    exact ⟨agrees, unpacked, monitored⟩

/-- The pages below `done` are recovered; above, only monitored pages may have been opened. -/
structure DrainedTo (shared : Shared) (done : Nat) (after : Shared) : Prop where
  pages : after.pages = shared.pages
  behind : ∀ page < done, Recovered (after.page page)
  ahead : ∀ page, done ≤ page → after.page page = shared.page page ∨
    (shared.page page).state = .activeMonitoring ∧ Recovered (after.page page)

theorem DrainedTo.plain (reached : DrainedTo shared done after) {page : Nat}
    (monitored : (shared.page page).state = .activeMonitoring) :
    ¬ ((after.page page).state = .compressed ∨ (after.page page).state = .compressedShadow) := by
  rcases Nat.lt_or_ge page done with below | above
  · exact (reached.behind page below).unpacked
  · rcases reached.ahead page above with same | ⟨-, recovered⟩
    · rw [same, monitored]
      exact nofun
    · exact recovered.unpacked

theorem DrainedTo.agrees (reached : DrainedTo shared done after) {page : Nat}
    (drainable : Drainable (shared.page page))
    (monitored : (shared.page page).state = .activeMonitoring) :
    (after.page page).Agrees (after.page page).memory := by
  rcases Nat.lt_or_ge page done with below | above
  · exact (reached.behind page below).agrees
  · rcases reached.ahead page above with same | ⟨-, recovered⟩
    · rw [same]
      exact drainable.memory (by rw [monitored]; exact nofun)
    · exact recovered.agrees

theorem Drainable.drained {may : Op → Choice → Prop} (drainable : Drainable (shared.page i))
    (same : before.page i = shared.page i) (drained : PageDrained may tid i before after) :
    Recovered (after.page i) := by
  by_cases free : (before.page i).lock = none
  · by_cases packed : (before.page i).state = .compressed ∨
        (before.page i).state = .compressedShadow
    · obtain ⟨ch, -, final⟩ := drained.packed free packed
      rw [final]
      apply refilled_recovered
      rw [same] at packed ⊢
      exact drainable.blob packed ch.bytes
    · by_cases monitored : (before.page i).state = .activeMonitoring
      · rw [drained.monitored free monitored]
        refine ⟨?_, nofun, nofun⟩
        rw [same] at packed ⊢
        exact drainable.memory packed
      · have kept := drained.other (fun full => packed (.inl full))
          (fun full => packed (.inr full)) monitored
        rw [kept]
        refine ⟨?_, packed, monitored⟩
        rw [same] at packed ⊢
        exact drainable.memory packed
  · -- only pages the drain need not touch may be locked
    rw [drained.taken free]
    rw [same] at free ⊢
    have resting : ¬ ((shared.page i).state = .compressed ∨
        (shared.page i).state = .compressedShadow ∨
        (shared.page i).state = .activeMonitoring) := fun busy =>
      free (drainable.unlocked busy)
    have unpacked : ¬ ((shared.page i).state = .compressed ∨
        (shared.page i).state = .compressedShadow) := fun full =>
      resting (full.imp_right .inl)
    exact ⟨drainable.memory unpacked, unpacked, fun awake => resting (.inr (.inr awake))⟩

theorem drainPage_reaches (drainable : ∀ page < shared.pages, Drainable (shared.page page))
    (reached : DrainedTo shared i before) (inside : i < shared.pages) :
    Delivers perform (DrainAnswers shared) tid (drainPage i)
      (fun _ after => DrainedTo shared (i + 1) after) before := by
  have here : i < before.pages := reached.pages ▸ inside
  -- Every page of a range around `idx` was monitored at the start.
  have monitored : ∀ ch, DrainAnswers shared (.bounds i) ch → ∀ page,
      ch.number ≤ page → page < ch.upper →
        (shared.page page).state = .activeMonitoring :=
    fun ch permitted => permitted.2 i rfl
  have start : (before.page i).state = .activeMonitoring →
      (shared.page i).state = .activeMonitoring := by
    intro awake
    rcases reached.ahead i (Nat.le_refl _) with same | ⟨monitored, -⟩
    · rw [← same]
      exact awake
    · exact monitored
  apply delivers_mono (drainPage_delivers (drainAnswers_succeeding shared) here
    (fun awake => drainAnswers_bounded here (start awake))
    (fun _ ch permitted page lower upper full =>
      reached.plain (monitored ch permitted page lower upper) (.inl full)))
  rintro - after drained
  have others : ∀ page ≠ i, after.page page = before.page page ∨
      (shared.page page).state = .activeMonitoring ∧ Recovered (after.page page) := by
    intro page apart
    rcases drained.others page apart with
      same | ⟨-, inside, -, ⟨ch, permitted, lower, upper⟩, -, final⟩
    · exact .inl same
    · have awake := monitored ch permitted page lower upper
      rw [reached.pages] at inside
      refine .inr ⟨awake, ?_⟩
      rw [final]
      exact finalized_recovered (reached.agrees (drainable page inside) awake) (reached.plain awake)
  refine ⟨drained.pages.trans reached.pages, fun page below => ?_, fun page above => ?_⟩
  · by_cases own : page = i
    · subst own
      rcases reached.ahead page (Nat.le_refl _) with same | ⟨-, recovered⟩
      · exact (drainable page inside).drained same drained
      · have kept := drained.other (fun full => recovered.unpacked (.inl full))
          (fun full => recovered.unpacked (.inr full)) recovered.awake
        rw [kept]
        exact recovered
    · rcases others page own with same | ⟨-, recovered⟩
      · rw [same]
        exact reached.behind page (by omega)
      · exact recovered
  · have apart : page ≠ i := by omega
    rcases others page apart with same | opened
    · rw [same]
      exact reached.ahead page (by omega)
    · exact .inr opened

theorem drainFrom_reaches (drainable : ∀ page < shared.pages, Drainable (shared.page page))
    (count start : Nat) (reached : DrainedTo shared start before)
    (inside : start + count ≤ shared.pages) :
    Delivers perform (DrainAnswers shared) tid (forPages (List.range' start count) drainPage)
      (fun _ after => DrainedTo shared (start + count) after) before := by
  induction count generalizing start before with
  | zero => exact reached
  | succ count ih =>
    rw [List.range'_succ, forPages]
    apply delivers_then (drainPage_reaches drainable reached (by omega))
    rintro - after further
    apply delivers_mono (ih (start + 1) further (by omega))
    rintro - last final
    rw [Nat.add_right_comm] at final
    exact final

/-- One answer to each call: nothing is near the cap, and lost blobs decompress to `bytes`. -/
def plainAnswer (bytes : Contents) (op : Op) : Choice where
  flag := match op with
    | .ask .nearCap => false
    | _ => true
  bytes := bytes

theorem plainAnswer_succeeding (bytes : Contents) :
    Succeeding fun op ch => ch = plainAnswer bytes op := by
  refine ⟨fun op => ⟨_, rfl⟩, ?_⟩
  rintro op - rfl
  cases op with
  | ask question => trivial
  | _ => exact kernel_succeeds_flag rfl

theorem plainAnswer_allowed (shared : Shared) (bytes : Contents) (op : Op) (ch : Choice)
    (plain : ch = plainAnswer bytes op) : DrainAnswers shared op ch := by
  subst plain
  refine ⟨(plainAnswer_succeeding bytes).kernel op _ rfl, ?_⟩
  intro i _ page _ upper
  exact absurd upper (Nat.not_lt_zero page)

structure CellDrained (tid : Thread) (bytes : Contents) (before after : Cell) : Prop where
  taken : before.lock ≠ none → after = before
  packed : before.lock = none → before.state = .compressed ∨ before.state = .compressedShadow →
    after = refilledCell { before with lock := some tid } (before.content.getD bytes)
  monitored : before.lock = none → before.state = .activeMonitoring → after = awakenedCell before
  other : before.state ≠ .compressed → before.state ≠ .compressedShadow →
    before.state ≠ .activeMonitoring → after = before

theorem drainPage_exact (bytes : Contents) (inside : i < shared.pages) :
    Delivers perform (fun op ch => ch = plainAnswer bytes op) tid (drainPage i)
      (fun _ after => after.pages = shared.pages ∧
        CellDrained tid bytes (shared.page i) (after.page i) ∧
        ∀ page ≠ i, after.page page = shared.page page) shared := by
  have far : ¬ ∃ ch, ch = plainAnswer bytes (.ask .nearCap) ∧ ch.flag = true := by
    rintro ⟨_, rfl, near⟩
    cases near
  apply delivers_mono (drainPage_delivers (plainAnswer_succeeding bytes) inside
    (fun _ near => absurd near far) ?_)
  · rintro - after drained
    refine ⟨drained.pages, ⟨drained.taken, fun free packed => ?_, drained.monitored,
      drained.other⟩, fun page apart => ?_⟩
    · obtain ⟨ch, plain, final⟩ := drained.packed free packed
      rw [final, plain]
      rfl
    · rcases drained.others page apart with same | ⟨-, -, near, -⟩
      · exact same
      · exact absurd near far
  · rintro - ch plain page - upper
    rw [plain] at upper
    exact absurd upper (Nat.not_lt_zero page)

theorem drainFrom_exact (bytes : Contents) (count start : Nat)
    (inside : start + count ≤ shared.pages) :
    Delivers perform (fun op ch => ch = plainAnswer bytes op) tid
      (forPages (List.range' start count) drainPage)
      (fun _ after => (∀ page < start, after.page page = shared.page page) ∧
        ∀ page, start ≤ page → page < start + count →
          CellDrained tid bytes (shared.page page) (after.page page)) shared := by
  induction count generalizing start shared with
  | zero => exact ⟨fun _ _ => rfl, fun page lower upper => by omega⟩
  | succ count ih =>
    rw [List.range'_succ, forPages]
    apply delivers_then (drainPage_exact bytes (by omega))
    rintro - middle ⟨pages, own, others⟩
    apply delivers_mono (ih (start + 1) (by omega))
    rintro - after ⟨kept, drained⟩
    refine ⟨fun page below => ?_, fun page lower upper => ?_⟩
    · rw [kept page (by omega), others page (by omega)]
    · rcases Nat.eq_or_lt_of_le lower with first | later
      · subst first
        rw [kept start (by omega)]
        exact own
      · rw [← others page (by omega)]
        exact drained page later (by omega)

theorem drainable_of_recovered
    (each : ∀ bytes, ∃ after, CellDrained tid bytes cell after ∧ Recovered after) :
    Drainable cell := by
  have unlocked : cell.state = .compressed ∨ cell.state = .compressedShadow ∨
      cell.state = .activeMonitoring → cell.lock = none := by
    intro busy
    by_contra taken
    obtain ⟨after, drained, recovered⟩ := each fun _ => 0
    rw [drained.taken taken] at recovered
    rcases busy with full | shadow | awake
    · exact recovered.unpacked (.inl full)
    · exact recovered.unpacked (.inr shadow)
    · exact recovered.awake awake
  refine ⟨unlocked, fun packed bytes => ?_, fun unpacked => ?_⟩
  · obtain ⟨after, drained, recovered⟩ := each bytes
    have agrees := recovered.agrees
    rw [drained.packed (unlocked (packed.imp_right .inl)) packed, Cell.Agrees] at agrees
    have mem : (refilledCell { cell with lock := some tid }
        (cell.content.getD bytes)).memory = cell.content.getD bytes := releasedCell_memory
    have app : (refilledCell { cell with lock := some tid }
        (cell.content.getD bytes)).app = cell.app := releasedCell_app
    rw [mem, app] at agrees
    exact agrees
  · obtain ⟨after, drained, recovered⟩ := each fun _ => 0
    have agrees := recovered.agrees
    by_cases monitored : cell.state = .activeMonitoring
    · rw [drained.monitored (unlocked (.inr (.inr monitored))) monitored] at agrees
      exact agrees
    · rw [drained.other (fun full => unpacked (.inl full)) (fun full => unpacked (.inr full))
        monitored] at agrees
      exact agrees

/-- The drain gives every page back with the application's last stores exactly if it finds every
page drainable. -/
theorem drain_recovers_iff (tid : Thread) (shared : Shared) :
    Delivers perform (DrainAnswers shared) tid (drainAllForShutdown shared.pages)
        (fun _ after => ∀ page < shared.pages, Recovered (after.page page)) shared ↔
      ∀ page < shared.pages, Drainable (shared.page page) := by
  rw [drainAllForShutdown, List.range_eq_range']
  constructor
  · intro delivers page inside
    apply drainable_of_recovered
    intro bytes
    obtain ⟨-, after, recovered, -, drained⟩ := delivers.reaches
      (plainAnswer_allowed shared bytes) (drainFrom_exact bytes shared.pages 0 (by omega))
    exact ⟨after.page page, drained page (Nat.zero_le page) (by omega), recovered page inside⟩
  · intro drainable
    have start : DrainedTo shared 0 shared := ⟨rfl, nofun, fun _ _ => .inl rfl⟩
    apply delivers_mono (drainFrom_reaches drainable shared.pages 0 start (by omega))
    rintro - after reached page inside
    exact reached.behind page (by omega)

/-- In deferred mode with FixAv the drain loses a store only to a page that a thread has locked,
or to a shadow page that was written after its blob was taken. -/
theorem drainable_iff_of_run {cfg : Config} {pages : Nat} {moves : List Step} {pool : Threads}
    (mode : cfg.deferred = true) (fixed : cfg.fixav = true)
    (k : Along (step (system cfg)) KernelOk (bootPool pages) moves)
    (ran : exec (step (system cfg)) (bootPool pages) moves = some pool) (i : Nat) :
    Drainable (pool.shared.page i) ↔
      ((pool.shared.page i).state = .compressed ∨
          (pool.shared.page i).state = .compressedShadow ∨
          (pool.shared.page i).state = .activeMonitoring →
        (pool.shared.page i).lock = none) ∧
      ((pool.shared.page i).state = .compressedShadow →
        ∀ bytes, (pool.shared.page i).content = some bytes →
          (pool.shared.page i).Agrees bytes) := by
  have ok := deferred_page_valid mode fixed k ran i
  generalize pool.shared.page i = cell at ok ⊢
  constructor
  · intro drainable
    refine ⟨drainable.unlocked, fun shadow bytes content => ?_⟩
    have agrees := drainable.blob (.inr shadow) bytes
    rw [content] at agrees
    exact agrees
  · rintro ⟨unlocked, fresh⟩
    refine ⟨unlocked, ?_, fun unpacked => ?_⟩
    · rintro (full | shadow) bytes
      · have free := unlocked (.inl full)
        obtain ⟨-, stored, content, agrees⟩ := (ok.settled free).blob full
        rw [content]
        exact agrees
      · have free := unlocked (.inr (.inl shadow))
        obtain ⟨stored, content⟩ := (ok.settled free).shadow shadow
        have agrees := fresh shadow stored content
        rw [content]
        exact agrees
    · exact ok.visible mode (.inl fun full => unpacked (.inl full))

/-- Compress the page into COMPRESSED_SHADOW and store 9 to it while it is still writable. -/
def storeToShadow : List Step :=
  storeSeven ++ .launch 1 (.compress 0 0) :: advances 1 17 ++ [.event (.store 0 lastByte 9)]

/-- The drain copies the blob over the store. -/
theorem drain_overwrites_shadow_store :
    Along (step (system (deferredConfig true))) KernelOk (bootPool 1) storeToShadow ∧
    (exec (step (system (deferredConfig true))) (bootPool 1) storeToShadow).map
      (fun pool => ((pool.shared.page 0).state, (pool.shared.page 0).lock,
        (pool.shared.page 0).app lastByte, (pool.shared.page 0).memory lastByte)) =
      some (.compressedShadow, none, some 9, 9) ∧
    ((exec (step (system (deferredConfig true))) (bootPool 1) storeToShadow).bind fun pool =>
      runAlone perform 2 (drainAllForShutdown 1) pool.shared (List.replicate 14 {})).map
      (fun r => ((r.2.1.page 0).state, (r.2.1.page 0).app lastByte,
        (r.2.1.page 0).memory lastByte)) = some (.active, some 9, 7) := by
  refine ⟨?_, ?_, ?_⟩ <;> decide +kernel

theorem drainable_iff_stored : ∃ pool,
    exec (step (system (deferredConfig true))) (bootPool 1) storeToShadow = some pool ∧
      ¬ Drainable (pool.shared.page 0) := by
  obtain ⟨pool, ran, found⟩ := Option.map_eq_some_iff.mp
    (show (exec (step (system (deferredConfig true))) (bootPool 1) storeToShadow).map
        (fun pool => ((pool.shared.page 0).state, (pool.shared.page 0).app lastByte,
          (pool.shared.page 0).content.map (· lastByte))) =
      some (.compressedShadow, some 9, some 7) by decide +kernel)
  simp only [Prod.mk.injEq, Option.map_eq_some_iff] at found
  obtain ⟨shadow, stored, bytes, content, old⟩ := found
  refine ⟨pool, ran, fun drainable => ?_⟩
  have fresh := ((drainable_iff_of_run rfl rfl (by decide +kernel) ran 0).mp drainable).2
  simpa [old] using fresh shadow bytes content lastByte 9 stored

end Drain

end Smash.Compressor
