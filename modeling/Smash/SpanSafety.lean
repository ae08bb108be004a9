import Smash.FaultSafety

/-! The span code under any interference: retiring an empty span, dropping its resident
pages and serving a span again. The page states are set without the page lock here; that is
sound because a page that is being moved has no slot handed out and one mover. -/
namespace Smash.Compressor

open Program PageMachine List

variable {cfg : Config} {tid : Thread} {i : Nat}

section Facts

variable {c : Cell} {quiet : Bool}

def Claimed (tid : Thread) (c : Cell) : Prop := c.owner = .moving tid

def Vacated (tid : Thread) (c : Cell) : Prop :=
  c.owner = .moving tid ∧ c.state = .empty

def Occupied (tid : Thread) (c : Cell) : Prop :=
  c.owner = .moving tid ∧ c.state ≠ .empty

theorem firm_claimed : Firm cfg tid quiet (Claimed tid) :=
  fun _ _ _ _ relied h => (relied.owner h).1

theorem firm_vacated : Firm cfg tid quiet (Vacated tid) := by
  intro pre s' _ _ relied h
  obtain ⟨moving, emptied⟩ := relied.owner h.1
  exact ⟨moving, emptied.mpr h.2⟩

theorem firm_occupied : Firm cfg tid quiet (Occupied tid) := by
  intro pre s' _ _ relied h
  obtain ⟨moving, emptied⟩ := relied.owner h.1
  exact ⟨moving, fun absurd => h.2 (emptied.mp absurd)⟩

theorem CellInv.blank {deferred : Bool} (ok : CellInv deferred c)
    (unserved : c.owner ≠ .service) : c.held = [] ∧ ∀ offset, c.app offset = none := by
  have none : c.held = [] := by
    by_contra some
    exact unserved (ok.held some)
  refine ⟨none, fun offset => ?_⟩
  cases stored : c.app offset with
  | none => rfl
  | some v =>
    obtain ⟨span, -, mem⟩ := ok.stored offset v stored
    rw [none] at mem
    cases mem

theorem Cell.agrees_blank (blank : ∀ offset, c.app offset = none)
    (bytes : Contents) : c.Agrees bytes := by
  intro offset v stored
  rw [blank] at stored
  cases stored

end Facts

section Moves

variable {before after : Cell}

/-- A step of the mover that leaves the lock and the blob records alone, and the page
unengaged. -/
structure MoverStep (tid : Thread) (before after : Cell) : Prop where
  moving : before.owner = .moving tid
  resting : engaged before.state = false
  rests : engaged after.state = false
  keeps : after = { before with
    state := after.state, memory := after.memory, drops := after.drops }
  vacated : after.state = .empty → before.state = .empty

theorem unengaged_ne {s j : PageState} (rest : engaged s = false)
    (busy : engaged j = true) : s ≠ j := by
  rintro rfl
  rw [rest] at busy
  cases busy

theorem MoverStep.inv {deferred : Bool}
    (step : MoverStep tid before after) (ok : CellInv deferred before) :
    CellInv deferred after := by
  obtain ⟨moving, resting, rests, keeps, -⟩ := step
  obtain ⟨none, blank⟩ := ok.blank (by simp [moving])
  have closed := ok.closed (ok.unengaged resting).2
  rw [keeps] at rests ⊢
  exact {
    resident := fun _ _ => Cell.agrees_blank blank _
    visible := fun _ _ => Cell.agrees_blank blank _
    settled := fun _ => ⟨fun same => (unengaged_ne rests rfl same).elim,
      fun same => (unengaged_ne rests rfl same).elim,
      fun same => (unengaged_ne rests rfl same).elim, closed⟩
    stored := fun offset v stored => nomatch (blank offset).symm.trans stored
    held := ok.held
    service := fun served => nomatch moving.symm.trans served
    idle := fun idle => nomatch moving.symm.trans idle
    marked := ok.marked
    reopened := fun absurd => nomatch closed.symm.trans absurd }

theorem MoverStep.rely {deferred quiet : Bool}
    (step : MoverStep tid before after) (ok : CellInv deferred before) {j : Thread}
    (apart : j ≠ tid) : CellRely deferred quiet j before after := by
  obtain ⟨moving, resting, rests, keeps, vacated⟩ := step
  obtain ⟨none, blank⟩ := ok.blank (by simp [moving])
  have calm : engaged before.state ≠ true := by simp [resting]
  rw [keeps] at rests vacated ⊢
  exact {
    lock := Iff.rfl
    drift := fun _ => {
      info := rfl, blobs := rfl, reopened := rfl, span := fun _ => rfl
      state := fun busy => (calm busy).elim
      resting := fun _ => ⟨rests, vacated⟩
      shut := fun busy => (calm busy).elim
      closed := fun _ busy => (calm busy).elim
      agrees := fun _ => Cell.agrees_blank blank _
      frozen := fun busy => (calm busy).elim }
    owner := fun mine => (apart (Owner.moving.inj (mine.symm.trans moving))).elim
    worker := id
    unopened := fun _ _ same => (unengaged_ne rests rfl same).elim
    unpacked := fun _ _ => ⟨unengaged_ne rests rfl, unengaged_ne rests rfl⟩
    unengaged := fun _ _ => rests }

theorem Effect.mover {op : CellOp} {pre : Cell → Prop} {mid : CellAnswer op → Cell → Prop}
    (each : ∀ before ch ans after, CellInv cfg.deferred before → pre before →
      cellStep tid op ch before = some (ans, after) → MoverStep tid before after ∧ mid ans after) :
    Effect cfg tid op pre mid := by
  intro before ch ans after ok h _ stepped
  obtain ⟨step, told⟩ := each before ch ans after ok h stepped
  exact ⟨step.inv ok, fun j quiet apart => step.rely ok apart, told⟩

theorem effect_decommit : Effect cfg tid .drop (Vacated tid) fun _ => Vacated tid := by
  refine .mover ?_
  rintro before ch ans after - ⟨moving, empty⟩ stepped
  cases stepped
  have rest : engaged before.state = false := by rw [empty]; rfl
  exact ⟨⟨moving, rest, rest, rfl, id⟩, moving, empty⟩

/-- `setRange(EMPTY)` after `releaseCompressedPages` finds the pages empty already. -/
theorem effect_setEmpty : Effect cfg tid (.setState .empty) (Vacated tid) fun _ => Vacated tid := by
  refine .mover ?_
  rintro before ch ans after ok ⟨moving, empty⟩ stepped
  cases stepped
  have closed := ok.closed (by simp [empty])
  refine ⟨⟨moving, by rw [empty]; rfl, rfl, ?_, fun _ => empty⟩, moving, rfl⟩
  simp only [← closed]

theorem effect_setActive :
    Effect cfg tid (.setState .active) (Vacated tid) fun _ => Occupied tid := by
  refine .mover ?_
  rintro before ch ans after ok ⟨moving, empty⟩ stepped
  cases stepped
  have closed := ok.closed (by simp [empty])
  refine ⟨⟨moving, by rw [empty]; rfl, rfl, ?_, nofun⟩, moving, by simp⟩
  simp only [← closed]

theorem effect_handOver {owner : Owner} {know : Cell → Prop}
    (each : ∀ c, know c → c.owner = .moving tid ∧
      (owner = .service → c.state ≠ .empty) ∧ (owner = .idle → c.state = .empty)) :
    Effect cfg tid (.handOver owner) know fun _ _ => True := by
  intro before ch ans after ok h _ stepped
  cases stepped
  obtain ⟨moving, service, idle⟩ := each before h
  obtain ⟨none, -⟩ := ok.blank (by simp [moving])
  refine ⟨{ ok with
    settled := fun free => { ok.settled free with }
    held := fun some => (some none).elim, service := service, idle := idle },
    fun j quiet apart => ?_, trivial⟩
  exact { CellRely.refl cfg.deferred quiet j before with
    drift := fun _ => { Drift.refl cfg.deferred quiet before with }
    owner := fun mine => (apart (Owner.moving.inj (mine.symm.trans moving))).elim }

end Moves

section Release

def Leaving (tid : Thread) (know : Cell → Prop) (c : Cell) : Prop :=
  Mine tid False know c ∧ c.owner = .moving tid

theorem recordless_leaving : Recordless cfg tid (Leaving tid fun _ => True) where
  firm := fun _ _ _ _ relied h =>
    ⟨⟨relied.lock.mpr h.1.1, nofun, trivial⟩, (relied.owner h.2).1⟩
  locked := fun _ h => h.1.1
  kept := fun _ _ _ _ _ _ _ h => h

theorem effect_vacate : Effect cfg tid (.setState .empty) (Leaving tid fun _ => True) fun _ =>
      Leaving tid fun c => c.state = .empty := by
  rintro pre ch ans s' ok ⟨⟨locked, -, -⟩, moving⟩ - stepped
  cases stepped
  obtain ⟨none, blank⟩ := ok.blank (by simp [moving])
  refine ⟨?_, fun j quiet apart => ?_, ⟨locked, nofun, rfl⟩, moving⟩
  · exact { ok with
      resident := fun _ _ => Cell.agrees_blank blank _
      visible := fun _ _ => Cell.agrees_blank blank _
      settled := fun free => nomatch locked.symm.trans free
      service := fun served => nomatch moving.symm.trans served
      idle := fun _ => rfl
      reopened := nofun }
  · exact { CellRely.refl cfg.deferred quiet j pre with
      drift := fun held => (apart (Option.some.inj (held.symm.trans locked))).elim
      owner := fun mine => (apart (Owner.moving.inj (mine.symm.trans moving))).elim
      unopened := fun _ _ => nofun
      unpacked := fun _ _ => ⟨nofun, nofun⟩
      unengaged := fun _ _ => rfl }

theorem effect_unlock_vacated :
    Effect cfg tid .unlock (Leaving tid fun c => c.state = .empty) fun _ => Vacated tid := by
  rintro pre ch ans s' ok ⟨mine, moving⟩ may stepped
  have settled : ∀ c, CellInv cfg.deferred c → c.state = .empty → Settled c :=
    fun c ok empty => unengaged_settled ok (by rw [empty]; rfl)
  obtain ⟨kept, relied, -⟩ := effect_unlock settled pre ch ans s' ok mine may stepped
  cases stepped
  exact ⟨kept, relied, moving, mine.2.2⟩

variable {frame : Nat → Cell → Prop} [Framed cfg t frame]

theorem vacate_spec : Spec cfg t frame i (Leaving t fun _ => True)
      (on i (.setState .empty) >>= fun _ => on i .unlock) fun _ => Vacated t := by
  refine .step effect_vacate (fun _ => ?_) fun _ => ?_
  · intro pre s' _ _ relied h
    obtain ⟨moving, emptied⟩ := relied.owner h.2
    exact ⟨⟨relied.lock.mpr h.1.1, nofun, emptied.mpr h.1.2.2⟩, moving⟩
  · exact .last effect_unlock_vacated fun _ => firm_vacated

theorem releaseCompressedPage_spec : Spec cfg t frame i (Claimed t) (releaseCompressedPage i)
      fun _ => Vacated t := by
  have locks : Effect cfg t .lock (Claimed t) fun _ => Leaving t fun _ => True := by
    intro pre ch ans s' ok moving _ stepped
    simp only [cellStep] at stepped
    split_ifs at stepped with free
    cases stepped
    obtain ⟨kept, relied, -⟩ := taken_lock ok free
    exact ⟨kept, relied, ⟨rfl, by simp, trivial⟩, moving⟩
  have firm : Firm cfg t false (Leaving t fun _ => True) := recordless_leaving.firm
  refine .step locks (fun _ => firm) fun _ => ?_
  refine .records recordless_leaving (by simp) fun _ => ?_
  refine .step (effect_read fun _ _ _ _ _ h stepped => ?_) (fun _ => firm) fun s => ?_
  · cases stepped
    exact ⟨rfl, h⟩
  refine .step (effect_read fun _ _ _ _ _ h stepped => ?_) (fun _ => firm) fun info => ?_
  · cases stepped
    exact ⟨rfl, h⟩
  split_ifs
  · refine (releaseBlob_spec recordless_leaving).bind fun _ => ?_
    exact .records recordless_leaving (by simp) fun _ => vacate_spec
  · exact vacate_spec

end Release

section Loops

variable {pre s' : Cell → Prop} {body : Nat → Code Unit}

theorem forPages_stage (firm : Firm cfg tid false pre) (later : Firm cfg tid false s')
    (each : ∀ (frame : Nat → Cell → Prop) page [Framed cfg tid frame],
      Spec cfg tid frame page pre (body page) fun _ => s')
    (todo finished : List Nat) (distinct : todo.Nodup) (apart : ∀ page ∈ todo, page ∉ finished) :
    Grid cfg tid (fun j c => (j ∈ todo → pre c) ∧
      (j ∈ finished → s' c)) (forPages todo body)
      fun _ j c => j ∈ todo ∨ j ∈ finished → s' c := by
  induction todo generalizing finished with
  | nil =>
    refine .done fun j c _ h mem => h.2 ?_
    exact mem.resolve_left (by simp)
  | cons page rest ih =>
    obtain ⟨fresh, distinct⟩ := nodup_cons.mp distinct
    have : Framed cfg tid fun j c => (j ∈ rest → pre c) ∧ (j ∈ finished → s' c) :=
      ⟨fun _ => firm.imp.and later.imp⟩
    have further := ih (page :: finished) distinct fun j mem => by
      simp only [mem_cons, not_or]
      exact ⟨fun same => fresh (same ▸ mem), apart j (mem_cons_of_mem _ mem)⟩
    refine ((Grid.at (@each _ page this)).bind fun _ => further.weaken ?_ |>.post ?_).weaken ?_
    · rintro j c - h
      by_cases same : j = page
      · subst same
        exact ⟨fun mem => (fresh mem).elim, fun _ => h.1 rfl⟩
      · obtain ⟨todo, done⟩ := h.2 same
        exact ⟨todo, fun mem => done ((mem_cons.mp mem).resolve_left same)⟩
    · intro _ j c _ h mem
      refine h ?_
      simp only [mem_cons] at mem ⊢
      tauto
    · rintro j c - h
      exact ⟨fun same => h.1 (same ▸ mem_cons_self ..), fun _ =>
        ⟨fun mem => h.1 (mem_cons_of_mem _ mem), h.2⟩⟩

def Every (pages : List Nat) (know : Cell → Prop) (i : Nat) (c : Cell) : Prop :=
  i ∈ pages → know c

variable {pages : List Nat} (distinct : pages.Nodup)
include distinct

theorem forPages_every (firm : Firm cfg tid false pre) (later : Firm cfg tid false s')
    (each : ∀ (frame : Nat → Cell → Prop) page [Framed cfg tid frame],
      Spec cfg tid frame page pre (body page) fun _ => s') :
    Grid cfg tid (Every pages pre) (forPages pages body) fun _ => Every pages s' :=
  ((forPages_stage firm later each pages [] distinct (by simp)).weaken
    fun _ _ _ h => ⟨h, nofun⟩).post fun _ _ _ _ h mem => h (.inl mem)

theorem decommitAll_grid : Grid cfg tid (Every pages (Vacated tid)) (decommitAll pages)
      fun _ => Every pages (Vacated tid) :=
  forPages_every distinct firm_vacated firm_vacated fun _ _ =>
    .last effect_decommit fun _ => firm_vacated

theorem handOverAll_grid {owner : Owner} {know : Cell → Prop} (firm : Firm cfg tid false know)
    (each : ∀ c, know c → c.owner = .moving tid ∧
      (owner = .service → c.state ≠ .empty) ∧ (owner = .idle → c.state = .empty)) :
    Grid cfg tid (Every pages know) (handOverAll owner pages) fun _ _ _ => True :=
  (forPages_every distinct firm (fun _ _ _ _ _ h => h) fun _ _ =>
    .last (effect_handOver each) fun _ _ _ _ _ _ h => h).post
    fun _ _ _ _ _ => trivial

theorem purgeResidentEmpty_grid :
    Grid cfg tid (Every pages (Vacated tid)) (purgeResidentEmpty pages) fun _ _ _ => True :=
  (decommitAll_grid distinct).bind fun _ => handOverAll_grid distinct firm_vacated
    fun _ h => ⟨h.1, nofun, fun _ => h.2⟩

theorem retireEmptySpan_grid (decommit : Bool) :
    Grid cfg tid (Every pages (Claimed tid)) (retireEmptySpan decommit pages)
      fun _ _ _ => True := by
  refine (forPages_every distinct firm_claimed firm_vacated fun _ _ =>
    releaseCompressedPage_spec).bind fun _ => ?_
  have empties : Grid cfg tid (Every pages (Vacated tid)) (setRange .empty pages)
      fun _ => Every pages (Vacated tid) :=
    forPages_every distinct firm_vacated firm_vacated fun _ _ =>
      .last effect_setEmpty fun _ => firm_vacated
  have rest : Grid cfg tid (Every pages (Vacated tid))
      (setRange .empty pages >>= fun _ => handOverAll .idle pages) fun _ _ _ => True :=
    empties.bind fun _ => handOverAll_grid distinct firm_vacated
      fun _ h => ⟨h.1, nofun, fun _ => h.2⟩
  cases decommit with
  | true => exact (decommitAll_grid distinct).bind fun _ => rest
  | false => exact rest

theorem serveSpan_grid :
    Grid cfg tid (Every pages (Vacated tid)) (serveSpan pages) fun _ _ _ => True := by
  refine (forPages_every distinct firm_vacated firm_occupied fun _ _ =>
    .last effect_setActive fun _ => firm_occupied).bind fun _ => ?_
  exact handOverAll_grid distinct firm_occupied fun _ h => ⟨h.1, fun _ => h.2, nofun⟩

end Loops

end Smash.Compressor
