import Smash.SpanSafety
import Smash.WorkerSafety

/-! The compressor system as a whole: the application's and the allocator's events, the
programs threads start, and what holds in every state of every run. -/
namespace Smash.Compressor

open Program PageMachine Transition Function List

variable {cfg : Config} {tid : Thread} {i : Nat}

section Environment

variable {event : Event} {offset : Offset} {value : UInt8}

/-- What the application and the allocator can do to a page; `writes` for a store. -/
structure Outside (writes : Prop) (before after : Cell) : Prop where
  keeps : after = { before with
    memory := after.memory, app := after.app, held := after.held, free := after.free }
  agrees : before.Agrees before.memory → after.Agrees after.memory
  frozen : before.prot ≠ .readWrite ∨ ¬ writes → after.memory = before.memory ∧
    ∀ offset value, after.app offset = some value → before.app offset = some value
  stored : ∀ offset value, after.app offset = some value → after.Live offset
  held : after.held ≠ [] → before.owner = .service
  marked : ∀ slot ∈ after.held, after.free slot = false

variable {writes : Prop} {deferred quiet : Bool} {pre s' : Cell}

theorem Outside.inv (outside : Outside writes pre s') (ok : CellInv deferred pre) :
    CellInv deferred s' := by
  obtain ⟨keeps, agrees, frozen, stored, held, marked⟩ := outside
  rw [keeps] at agrees frozen stored held marked ⊢
  refine {
    resident := fun one two => agrees (ok.resident one two)
    visible := fun mode shown => agrees (ok.visible mode shown)
    settled := fun free => ?_
    stored := stored, held := held, service := ok.service, idle := ok.idle
    marked := marked, reopened := ok.reopened }
  have settled := ok.settled free
  refine ⟨fun same => ?_, fun same => agrees (settled.busy same), settled.shadow, settled.closed⟩
  obtain ⟨shut, bytes, found, covers⟩ := settled.blob same
  exact ⟨shut, bytes, found, fun offset value seen =>
    covers offset value ((frozen (.inl shut)).2 offset value seen)⟩

theorem Outside.rely (outside : Outside writes pre s') (still : quiet = true → ¬ writes) :
    CellRely deferred quiet tid pre s' := by
  obtain ⟨keeps, agrees, frozen, -, -, -⟩ := outside
  rw [keeps] at agrees frozen ⊢
  exact {
    lock := Iff.rfl
    drift := fun _ => {
      info := rfl, blobs := rfl, reopened := rfl, state := fun _ => rfl, span := fun _ => rfl
      resting := fun rest => ⟨rest, id⟩
      shut := fun _ => id
      closed := fun _ _ => id
      agrees := agrees
      frozen := fun _ calm => frozen (calm.imp_right still) }
    owner := fun moving => ⟨moving, Iff.rfl⟩
    worker := id
    unopened := fun _ => id
    unpacked := fun _ => id
    unengaged := fun _ => id }

theorem forgetSlot_some {c : Cell} {slot : Nat} (kept : forgetSlot c slot offset = some value) :
    c.app offset = some value ∧ ∀ span, c.span = some span → slotAt span offset ≠ slot := by
  unfold forgetSlot at kept
  split at kept
  next unmapped => exact ⟨kept, fun span mapped => nomatch unmapped.symm.trans mapped⟩
  next span mapped =>
    split_ifs at kept with same
    refine ⟨kept, fun j found => ?_⟩
    cases mapped.symm.trans found
    exact same

def isStore : Event → Bool
  | .store .. => true
  | _ => false

theorem store_outside (ok : CellInv deferred pre)
    (live : pre.Live offset) (writable : pre.prot = .readWrite) :
    Outside True pre { pre with
      memory := update pre.memory offset value
      app := update pre.app offset (some value) } where
  keeps := rfl
  agrees := by
    intro agrees j byte seen
    by_cases same : j = offset
    · subst same
      simpa using seen
    · simp only [update_of_ne same] at seen ⊢
      exact agrees j byte seen
  frozen := fun calm => (calm.elim (· writable) (· trivial)).elim
  stored := by
    intro j byte seen
    by_cases same : j = offset
    · exact same ▸ live
    · simp only [update_of_ne same] at seen
      exact ok.stored j byte seen
  held := ok.held
  marked := ok.marked

theorem cellEvent_outside (ok : CellInv deferred pre)
    (happened : cellEvent event pre = some s') : Outside (isStore event = true) pre s' := by
  cases event with
  | store page offset value =>
    simp only [cellEvent] at happened
    split_ifs at happened with able
    cases happened
    exact { store_outside ok able.1 able.2 with frozen := fun calm =>
      (calm.elim (· able.2) (· rfl)).elim }
  | handOut page slot =>
    simp only [cellEvent] at happened
    split_ifs at happened with able
    cases happened
    obtain ⟨served, taken, -⟩ := able
    refine ⟨rfl, fun agrees offset value seen => agrees offset value (forgetSlot_some seen).1,
      fun _ => ⟨rfl, fun offset value seen => (forgetSlot_some seen).1⟩, ?_, fun _ => served, ?_⟩
    · intro offset value seen
      obtain ⟨span, mapped, mem⟩ := ok.stored offset value (forgetSlot_some seen).1
      exact ⟨span, mapped, mem_cons_of_mem _ mem⟩
    · intro j mem
      rcases mem_cons.mp mem with rfl | earlier
      · exact taken
      · exact ok.marked j earlier
  | takeBack page slot =>
    simp only [cellEvent] at happened
    split_ifs at happened with able
    cases happened
    refine ⟨rfl, fun agrees offset value seen => agrees offset value (forgetSlot_some seen).1,
      fun _ => ⟨rfl, fun offset value seen => (forgetSlot_some seen).1⟩, ?_, ?_, ?_⟩
    · intro offset value seen
      obtain ⟨stored, apart⟩ := forgetSlot_some seen
      obtain ⟨span, mapped, mem⟩ := ok.stored offset value stored
      exact ⟨span, mapped, mem_filter.mpr ⟨mem, by simpa using apart span mapped⟩⟩
    · exact fun _ => ok.held fun none => by rw [none] at able; cases able
    · exact fun j mem => ok.marked j (mem_filter.mp mem).1
  | mark page slot =>
    cases happened
    refine ⟨rfl, id, fun _ => ⟨rfl, fun _ _ => id⟩, ok.stored, ok.held, ?_⟩
    intro j mem
    by_cases same : j = slot
    · simp [same]
    · simpa [update_of_ne same] using ok.marked j mem
  | unmark page slot =>
    simp only [cellEvent] at happened
    split_ifs at happened with able
    cases happened
    refine ⟨rfl, id, fun _ => ⟨rfl, fun _ _ => id⟩, ok.stored, ok.held, ?_⟩
    intro j mem
    have same : j ≠ slot := fun same => able (same ▸ mem)
    simpa [update_of_ne same] using ok.marked j mem

theorem environment_sound {first second : Shared}
    (ok : (contract cfg).inv first) (happened : environment event first = some second) :
    (contract cfg).inv second ∧ ∀ tid pending, (contract cfg).admits event pending →
      (contract cfg).rely tid pending first second := by
  simp only [environment] at happened
  split_ifs at happened with inside
  obtain ⟨c, changed, rfl⟩ := Option.map_eq_some_iff.mp happened
  have outside := cellEvent_outside (ok event.index) changed
  refine ⟨fun page => ?_, fun tid pending admitted page => ?_⟩
  · by_cases same : page = event.index
    · subst same
      simpa using outside.inv (ok event.index)
    · simpa [update_of_ne same] using ok page
  · by_cases same : page = event.index
    · subst same
      simp only [Shared.set_page, update_self]
      refine outside.rely fun quiet writes => ?_
      cases event with
      | store page offset value =>
        rcases admitted with deferred | free
        · simp [deferred] at quiet
        · simp [Event.index, free] at quiet
      | handOut | takeBack | mark | unmark => cases writes
    · simpa [update_of_ne same] using .refl _ _ tid (first.page page)

end Environment

section Launch

variable {Result : Type}
variable {claims : List (Nat × (Cell → Option Cell))} {code : Code Unit} {first second : Shared}
variable {know : Cell → Prop} {prog : Code Unit} {s : Shared}

theorem Grid.stable {know : Nat → Cell → Prop} {post : Unit → Nat → Cell → Prop}
    (grid : Grid cfg tid know prog post) (firm : ∀ page, Firm cfg tid false (know page))
    (ok : (contract cfg).inv s) (h : All know s) :
    Stable perform (contract cfg) tid prog (fun _ _ => True) s :=
  fun later relied holds => (grid later holds fun page =>
    firm page (ok page) (holds page) (relied page).loud (h page)).mono
    fun _ _ _ => trivial

theorem Spec.stable {pre : Cell → Prop} {post : Unit → Cell → Prop}
    (spec : Solo cfg tid i pre prog post) (firm : Firm cfg tid false pre)
    (ok : (contract cfg).inv s) (h : pre (s.page i)) :
    Stable perform (contract cfg) tid prog (fun _ _ => True) s :=
  fun later relied holds => (spec later holds
    ⟨firm (ok i) (holds i) (relied i).loud h, fun _ _ => trivial⟩).mono
    fun _ _ _ => trivial

theorem set_sound {c : Cell} (ok : (contract cfg).inv s) (kept : CellInv cfg.deferred c)
    (relied : ∀ j quiet, j ≠ tid → CellRely cfg.deferred quiet j (s.page i) c) :
    (contract cfg).inv (s.set i c) ∧ (contract cfg).guar tid s (s.set i c) := by
  refine ⟨fun page => ?_, fun j pending apart page => ?_⟩
  · by_cases same : page = i
    · subst same
      simpa using kept
    · simpa [update_of_ne same] using ok page
  · by_cases same : page = i
    · subst same
      simpa using relied j _ apart
    · simpa [update_of_ne same] using .refl _ _ j (s.page page)

theorem assign_sound (ok : (contract cfg).inv first)
    (assigned : assign tid i first = some second) :
    (contract cfg).inv second ∧ (contract cfg).guar tid first second ∧
      Loose tid True (second.page i) := by
  simp only [assign] at assigned
  split_ifs at assigned with free
  cases assigned
  have foreign : ∀ j, (first.page i).worker ≠ some j := by simp [free]
  have here := ok i
  have kept : CellInv cfg.deferred { first.page i with worker := some tid } :=
    { here with settled := fun free => { here.settled free with } }
  have relied : ∀ j quiet, j ≠ tid → CellRely cfg.deferred quiet j
      (first.page i) { first.page i with worker := some tid } := fun j quiet _ =>
    { CellRely.refl cfg.deferred quiet j (first.page i) with
      drift := fun _ => { Drift.refl cfg.deferred quiet (first.page i) with }
      worker := fun mine => (foreign j mine).elim
      unopened := fun mine => (foreign j mine).elim
      unpacked := fun mine => (foreign j mine).elim
      unengaged := fun mine => (foreign j mine).elim }
  obtain ⟨holds, promised⟩ := set_sound ok kept relied
  exact ⟨holds, promised, fun _ => by simp⟩

/-- A way to take a page that makes it the mover's own. -/
structure Takes (cfg : Config) (tid : Thread) (know : Cell → Prop)
    (take : Cell → Option Cell) : Prop where
  owned : ∀ cell, know cell → take cell = none
  each : ∀ before after, CellInv cfg.deferred before → take before = some after →
    CellInv cfg.deferred after ∧
      (∀ other quiet, CellRely cfg.deferred quiet other before after) ∧ know after

theorem claimAll_sound (takes : ∀ claim ∈ claims, Takes cfg tid know claim.2)
    (ok : (contract cfg).inv first) (claimed : claimAll claims first = some second) :
    (contract cfg).inv second ∧ (contract cfg).guar tid first second ∧ (claims.map Prod.fst).Nodup ∧
      (∀ page ∈ claims.map Prod.fst, know (second.page page)) ∧
      ∀ page, know (first.page page) → know (second.page page) ∧ page ∉ claims.map Prod.fst := by
  induction claims generalizing first with
  | nil =>
    cases claimed
    exact ⟨ok, fun j pending _ page => .refl _ _ j _, nodup_nil, nofun, fun page h => ⟨h, nofun⟩⟩
  | cons claim rest ih =>
    obtain ⟨i, take⟩ := claim
    simp only [claimAll] at claimed
    have here := takes _ (mem_cons_self ..)
    cases took : take (first.page i) with
    | none =>
      rw [took] at claimed
      cases claimed
    | some c =>
      rw [took] at claimed
      obtain ⟨kept, relied, h⟩ := here.each _ _ (ok i) took
      have promises : ∀ j quiet, j ≠ tid → CellRely cfg.deferred quiet j
          (first.page i) c := fun j quiet _ => relied j quiet
      obtain ⟨validMid, promisedMid⟩ := set_sound ok kept promises
      obtain ⟨validEnd, promised, distinct, all, still⟩ :=
        ih (fun claim mem => takes claim (mem_cons_of_mem _ mem)) validMid claimed
      obtain ⟨knownEnd, fresh⟩ := still i (by simpa using h)
      refine ⟨validEnd, fun j pending apart page =>
        (promisedMid j pending apart page).trans (promised j pending apart page),
        nodup_cons.mpr ⟨fresh, distinct⟩, ?_, ?_⟩
      · intro page mem
        rcases mem_cons.mp mem with rfl | later
        · exact knownEnd
        · exact all page later
      · intro page knownPage
        have different : page ≠ i := by
          rintro rfl
          exact nomatch (here.owned _ knownPage).symm.trans took
        obtain ⟨knownLater, absent⟩ :=
          still page (by simpa [update_of_ne different] using knownPage)
        exact ⟨knownLater, fun mem => absent ((mem_cons.mp mem).resolve_left different)⟩

theorem takes_inService : Takes cfg tid (Claimed tid) (takeInService tid) where
  owned := fun c moving => by simp [takeInService, show c.owner = .moving tid from moving]
  each := by
    intro pre s' ok took
    simp only [takeInService] at took
    split_ifs at took with able
    cases took
    refine ⟨{ ok with
      settled := fun free => { ok.settled free with }
      held := fun some => (some able.2).elim, service := nofun, idle := nofun },
      fun j quiet => ?_, rfl⟩
    exact { CellRely.refl cfg.deferred quiet j pre with
      drift := fun _ => { Drift.refl cfg.deferred quiet pre with }
      owner := fun mine => nomatch able.1.symm.trans mine }

theorem takes_idle {span : Option Span} {free : Nat → Bool} {pre : Cell}
    (ok : CellInv cfg.deferred pre) (idle : pre.owner = .idle) :
    let c' : Cell := { pre with owner := .moving tid, span := span, free := free }
    CellInv cfg.deferred c' ∧
      (∀ j quiet, CellRely cfg.deferred quiet j pre c') ∧
      Vacated tid c' := by
  obtain ⟨none, blank⟩ := ok.blank (by simp [idle])
  have empty := ok.idle idle
  refine ⟨{ ok with
    settled := fun free => { ok.settled free with }
    stored := fun offset v stored => nomatch (blank offset).symm.trans stored
    held := fun some => (some none).elim, service := nofun, idle := nofun
    marked := fun slot mem => by
      rw [show ({ pre with owner := .moving tid, span := span, free := free } : Cell).held =
        pre.held from rfl, none] at mem
      cases mem },
    fun j quiet => ?_, rfl, empty⟩
  exact { CellRely.refl cfg.deferred quiet j pre with
    drift := fun _ => { Drift.refl cfg.deferred quiet pre with
      span := fun busy => by rw [empty] at busy; cases busy }
    owner := fun mine => nomatch idle.symm.trans mine }

theorem takes_takeIdle : Takes cfg tid (Vacated tid) (takeIdle tid) where
  owned := fun c h => by simp [takeIdle, h.1]
  each := by
    intro pre s' ok took
    simp only [takeIdle] at took
    split_ifs at took with idle
    cases took
    exact takes_idle ok idle

theorem takes_takeForSpan (span : Span) : Takes cfg tid (Vacated tid) (takeForSpan tid span) where
  owned := fun c h => by simp [takeForSpan, h.1]
  each := by
    intro pre s' ok took
    simp only [takeForSpan] at took
    split_ifs at took with idle
    cases took
    exact takes_idle ok idle

theorem worker_sound (spec : Solo cfg tid i (Loose tid True) code fun _ => Loose tid True)
    (ok : (contract cfg).inv first)
    (launched : (assign tid i first).map (fun s' => (s', finishing i code)) =
      some (second, prog)) : (contract cfg).inv second ∧ (contract cfg).guar tid first second ∧
      Stable perform (contract cfg) tid prog (fun _ _ => True) second := by
  obtain ⟨s', assigned, same⟩ := Option.map_eq_some_iff.mp launched
  cases same
  obtain ⟨holds, promised, loose⟩ := assign_sound ok assigned
  exact ⟨holds, promised, (finishing_spec spec).stable firm_loose holds loose⟩

theorem mover_sound {pages : List Nat} (takes : ∀ claim ∈ claims, Takes cfg tid know claim.2)
    (same : claims.map Prod.fst = pages) (firm : Firm cfg tid false know)
    (grid : pages.Nodup → Grid cfg tid (Every pages know) code fun _ _ _ => True)
    (ok : (contract cfg).inv first)
    (launched : (claimAll claims first).map (fun s' => (s', code)) = some (second, prog)) :
    (contract cfg).inv second ∧ (contract cfg).guar tid first second ∧
      Stable perform (contract cfg) tid prog (fun _ _ => True) second := by
  obtain ⟨s', claimed, paired⟩ := Option.map_eq_some_iff.mp launched
  cases paired
  obtain ⟨holds, promised, distinct, h, -⟩ := claimAll_sound takes ok claimed
  rw [same] at distinct h
  exact ⟨holds, promised, (grid distinct).stable (fun _ => firm.imp) holds h⟩

theorem launch_sound {entry : Entry}
    (fixed : cfg.deferred = true → cfg.fixav = true) (ok : (contract cfg).inv first)
    (launched : launch cfg tid entry first = some (second, prog)) :
    (contract cfg).inv second ∧ (contract cfg).guar tid first second ∧
      Stable perform (contract cfg) tid prog (fun _ _ => True) second := by
  cases entry with
  | compress i pendingCount =>
    exact worker_sound ((compressPage_spec pendingCount).bind fun _ => .stay) ok launched
  | reclaim i =>
    simp only [launch] at launched
    split_ifs at launched with mode
    exact worker_sound (reclaimShadowPage_spec mode (fixed mode)) ok launched
  | escalate i => exact worker_sound escalateToDeepMonitoring_spec ok launched
  | monitor i => exact worker_sound phase3Page_spec ok launched
  | fault i =>
    cases launched
    refine ⟨ok, fun j pending _ page => .refl _ _ j _, ?_⟩
    exact fun later _ holds => .bind ((handleFault_harmless later holds).mono fun _ _ _ => trivial)
  | retire pages decommit =>
    refine mover_sound ?_ (by simp [Function.comp_def]) firm_claimed
      (fun distinct => retireEmptySpan_grid distinct decommit) ok launched
    intro claim mem
    obtain ⟨page, -, rfl⟩ := mem_map.mp mem
    exact takes_inService
  | purge pages =>
    refine mover_sound ?_ (by simp [Function.comp_def]) firm_vacated
      (fun distinct => purgeResidentEmpty_grid distinct) ok launched
    intro claim mem
    obtain ⟨page, -, rfl⟩ := mem_map.mp mem
    exact takes_takeIdle
  | serve pages =>
    refine mover_sound ?_ (by simp [Function.comp_def]) firm_vacated
      (fun distinct => serveSpan_grid distinct) ok launched
    intro claim mem
    obtain ⟨page, -, rfl⟩ := mem_map.mp mem
    exact takes_takeForSpan page.2

end Launch

section Runs

theorem system_sound (fixed : cfg.deferred = true → cfg.fixav = true) :
    Sound (system cfg) (contract cfg) fun _ _ => True where
  rely_refl := fun tid _ s page => .refl _ _ tid (s.page page)
  rely_trans := fun one two page => (one page).trans (two page)
  environment := environment_sound
  launch := fun ok _ launched => launch_sound fixed ok launched

theorem freshCell_inv (deferred : Bool) : CellInv deferred freshCell where
  resident := fun _ _ => nofun
  visible := fun _ _ => nofun
  settled := fun _ => ⟨nofun, nofun, nofun, rfl⟩
  stored := nofun
  held := fun some => (some rfl).elim
  service := nofun
  idle := fun _ => rfl
  marked := nofun
  reopened := nofun

theorem boot_valid (cfg : Config) (pages : Nat) :
    Valid (system cfg) (contract cfg) (fun _ _ => True) (bootPool pages) where
  inv := fun _ => freshCell_inv cfg.deferred
  safe := fun _ _ _ _ => trivial

end Runs

end Smash.Compressor
