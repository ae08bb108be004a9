import Smash.SlabRuns

/-! What `allocateBatch` does to the bitmaps. Every span the slab had keeps the slots its cap
unlocks and may get more by widening; apart from that a bit changes only where a pending free is
applied or an object of the batch is taken. -/
namespace Smash.Slabs

open SpanSlots Function List

section Unlocked

variable {installed : Bool} {span middle after : Span}

def Unlocked (span : Span) (slot : Nat) : Prop :=
  Usable span.objectSize span.fullCapacity span.currentCap slot

instance (span : Span) : DecidablePred (Unlocked span) := fun slot => by
  unfold Unlocked
  infer_instance

/-- No slot is locked again, and none is unlocked without a cap callback. -/
structure Wider (installed : Bool) (span after : Span) : Prop where
  kept : ∀ slot, Unlocked span slot → Unlocked after slot
  fixed : installed = false → ∀ slot, Unlocked after slot → Unlocked span slot

theorem Wider.refl : Wider installed span span := ⟨fun _ open_ => open_, fun _ _ open_ => open_⟩

theorem Wider.trans (first : Wider installed span middle) (second : Wider installed middle after) :
    Wider installed span after :=
  ⟨fun slot open_ => second.kept slot (first.kept slot open_),
    fun none slot open_ => first.fixed none slot (second.fixed none slot open_)⟩

theorem Wider.of_same (size : after.objectSize = span.objectSize)
    (capacity : after.fullCapacity = span.fullCapacity) (cap : after.currentCap = span.currentCap) :
    Wider installed span after := by
  constructor
  · intro slot open_
    rw [Unlocked, size, capacity, cap]
    exact open_
  · intro _ slot open_
    rw [Unlocked, size, capacity, cap] at open_
    exact open_

theorem takeSlot_wider (slot : Nat) : Wider installed span (takeSlot span slot) :=
  .of_same rfl rfl rfl

theorem deallocate_wider (offset : Nat) :
    Wider installed span (SpanSlots.deallocate offset span) := by
  cases span
  exact .of_same rfl rfl rfl

theorem widenCap_kept {cap slot : Nat} (below : cap < word16)
    (wider : cap = 0 ∨ span.currentCap < cap) (open_ : Unlocked span slot) :
    Unlocked (widenCap span cap) slot := by
  unfold widenCap
  split_ifs with unchanged
  · exact open_
  · have capped : span.currentCap ≠ 0 := fun zero => unchanged (.inr (.inr (.inl zero)))
    have more : Usable span.objectSize span.fullCapacity (cap % word16) slot := by
      rw [Nat.mod_eq_of_lt below]
      refine ⟨open_.1, wider.imp_right fun larger => ?_⟩
      have near := open_.2.resolve_left capped
      omega
    dsimp only
    split_ifs
    · exact more
    · exact more

theorem maybeWiden_wider {cap : Option Nat} (below : ∀ ans ∈ cap, ans < word16)
    (asked : installed = false → cap = none) :
    Wider installed span (SpanSlots.maybeWiden cap span) := by
  cases cap with
  | none => exact .refl
  | some cap =>
    refine ⟨fun slot open_ => ?_, fun none => nomatch asked none⟩
    unfold SpanSlots.maybeWiden
    dsimp only
    split_ifs with dense wider
    · exact open_
    · exact widenCap_kept (below cap rfl) wider open_
    · exact open_

end Unlocked

section Keep

variable {env : Env} {view middle after : View} {id : SpanId}

def Known (view : View) : Prop := ∀ id ∈ view.slab.mapped, id < view.slab.nextSpan

/-- Every span stays with the slab, with the slots it had at least. -/
structure Keeps (view after : View) : Prop where
  capFn : after.slab.capFn = view.slab.capFn
  mapped : ∀ id ∈ view.slab.mapped, id ∈ after.slab.mapped
  known : Known view → Known after
  wider : Known view → ∀ id ∈ view.slab.mapped,
    Wider view.slab.capFn (view.span id) (after.span id)

theorem Keeps.trans (first : Keeps view middle) (second : Keeps middle after) :
    Keeps view after := by
  constructor
  · exact second.capFn.trans first.capFn
  · exact fun id mem => second.mapped id (first.mapped id mem)
  · exact fun h => second.known (first.known h)
  · intro h id mem
    have further := second.wider (first.known h) id (first.mapped id mem)
    rw [first.capFn] at further
    exact (first.wider h id mem).trans further

theorem keeps_of_spans (capFn : after.slab.capFn = view.slab.capFn)
    (mapped : after.slab.mapped = view.slab.mapped)
    (next : after.slab.nextSpan = view.slab.nextSpan)
    (wider : ∀ id, Wider view.slab.capFn (view.span id) (after.span id)) : Keeps view after := by
  refine ⟨capFn, fun id mem => mapped ▸ mem, fun h id mem => ?_, fun _ id _ => wider id⟩
  rw [mapped] at mem
  rw [next]
  exact h id mem

theorem keeps_refl (view : View) : Keeps view view :=
  keeps_of_spans rfl rfl rfl fun _ => .refl

theorem keeps_of_update {span : Span} (capFn : after.slab.capFn = view.slab.capFn)
    (mapped : after.slab.mapped = view.slab.mapped)
    (next : after.slab.nextSpan = view.slab.nextSpan)
    (spans : after.slab.spans = update view.slab.spans id span)
    (wider : Wider view.slab.capFn (view.span id) span) : Keeps view after := by
  apply keeps_of_spans capFn mapped next
  intro j
  rw [View.span, View.span, spans]
  by_cases own : j = id
  · subst own
    rw [update_self]
    exact wider
  · rw [update_of_ne own]
    exact .refl

theorem setSpan_keeps {span : Span} (wider : Wider view.slab.capFn (view.span id) span) :
    Keeps view (view.setSpan id span) :=
  keeps_of_update rfl rfl rfl rfl wider

theorem retireEmptySpan_keeps (id : SpanId) (view : View) : Keeps view (retireEmptySpan id view) := by
  unfold retireEmptySpan
  dsimp only
  split_ifs
  · exact keeps_of_spans rfl rfl rfl fun _ => .refl
  · exact keeps_of_update rfl rfl rfl rfl (.of_same rfl rfl rfl)

theorem deallocateOne_keeps (object : Object) (view : View) :
    Keeps view (deallocateOne object view) := by
  have freed : Keeps view (view.setSpan object.span
      (SpanSlots.deallocate (object.slot * (view.span object.span).objectSize)
        (view.span object.span))) := setSpan_keeps (deallocate_wider _)
  unfold deallocateOne
  dsimp only
  generalize view.setSpan object.span _ = given at freed ⊢
  split_ifs
  · exact freed.trans (keeps_of_spans rfl rfl rfl fun _ => .refl)
  · -- the span has no object out any more: it leaves `partial_`, is retired and listed as empty
    have removed : Keeps given { given with
          slab := { given.slab with partials := given.slab.partials.erase object.span } } :=
      keeps_of_spans rfl rfl rfl fun _ => .refl
    have retired := removed.trans (retireEmptySpan_keeps object.span _)
    exact freed.trans (retired.trans (keeps_of_spans rfl rfl rfl fun _ => .refl))
  · exact freed

theorem foldl_keeps {α : Type} {step : View → α → View}
    (each : ∀ view item, Keeps view (step view item)) (items : List α) (view : View) :
    Keeps view (items.foldl step view) := by
  induction items generalizing view with
  | nil => exact keeps_refl view
  | cons item rest ih => exact (each view item).trans (ih _)

theorem drainPending_keeps (view : View) : Keeps view (drainPending view) := by
  have entries : ∀ view (entries : List Entry), Keeps view (deallocateEntries entries view) := by
    intro view entries
    apply foldl_keeps
    intro view entry
    split_ifs
    · exact deallocateOne_keeps entry.object view
    · exact keeps_refl view
  unfold drainPending
  refine .trans ?_ (foldl_keeps entries view.slab.pending _)
  exact keeps_of_spans rfl rfl rfl fun _ => .refl

theorem settle_keeps (id : SpanId) (view : View) : Keeps view (settle id view) := by
  unfold settle
  split_ifs
  · exact keeps_of_spans rfl rfl rfl fun _ => .refl
  · exact keeps_refl view

theorem promote_keeps (id : SpanId) (rest : List SpanId) (view : View) :
    Keeps view (promote id rest view) := by
  rw [promote_eq]
  exact keeps_of_update rfl rfl rfl rfl (.of_same rfl rfl rfl)

theorem maybeWiden_keeps (below : view.slab.capFn = true → env.CapsBelow) (allocated : Nat)
    (id : SpanId) : Keeps view (maybeWiden env allocated id view) := by
  apply setSpan_keeps
  apply maybeWiden_wider
  · intro ans asked
    split_ifs at asked with installed
    · cases asked
      exact (below installed).2 allocated id
    · cases asked
  · intro none
    rw [none]
    rfl

theorem allocateNewSpan_keeps {allocated : Nat}
    (found : allocateNewSpan env allocated view = some (id, after)) :
    Keeps view { after with slab := { after.slab with partials := id :: after.slab.partials } } := by
  unfold allocateNewSpan at found
  dsimp only at found
  split_ifs at found
  cases found
  refine ⟨rfl, fun j mem => Finset.mem_insert_of_mem mem, fun h j mem => ?_, fun h j mem => ?_⟩
  · rcases Finset.mem_insert.mp mem with fresh | old
    · exact fresh ▸ Nat.lt_succ_self _
    · exact Nat.lt_succ_of_lt (h j old)
  · have apart : j ≠ view.slab.nextSpan := (h j mem).ne
    rw [View.span, View.span]
    dsimp only
    rw [update_of_ne apart]
    exact .refl

theorem frontSpan_keeps {allocated : Nat} (found : frontSpan env allocated view = some (id, after)) :
    Keeps view after := by
  unfold frontSpan at found
  split at found
  next =>
    cases found
    exact keeps_refl view
  next =>
    cases found
    exact promote_keeps ..
  next =>
    split at found
    next => cases found
    next new =>
      cases found
      exact allocateNewSpan_keeps new

end Keep

section Loops

variable {env j : Env} {count : Nat} {id : SpanId} {filling r : Filling} {view : View}

inductive Pass where
  | took (next : Filling)
  | turned (next : Filling)
  | stopped

/-- The loop takes the fallback it remembered. -/
def consumePass (id : SpanId) (fallback : AllocFallback) (filling : Filling) : Pass :=
  match consumeFallback fallback (filling.view.span id) with
  | (some slot, _) => .took (filling.add id slot)
  | (none, _) => .stopped

def pass (env : Env) (id : SpanId) (filling : Filling) : Pass :=
  match allocateWarm (env.classify filling.out.length id) (filling.view.span id) with
  | (some slot, _, _) => .took (filling.add id slot)
  | (none, fallback, _) =>
    if fallback.any then
      match filling.redirected, filling.view.slab.empty with
      | false, spare :: rest =>
        .turned { filling with
          redirected := true, view := promote spare rest (rotate id filling.view) }
      | _, _ => consumePass id fallback filling
    else .stopped

def resume (env : Env) (id : SpanId) (need : Nat) (filling : Filling) : Pass → Filling
  | .took next => fill env id need next
  | .turned next => next
  | .stopped => filling

theorem resume_consume {need : Nat} {fallback : AllocFallback}
    (free : fallback.Free (filling.view.span id).bitmap) :
    (match consumeFrom fallback id filling.view with
      | (some object, view) =>
        fill env id need { filling with out := filling.out ++ [object], view := view }
      | (none, _) => filling) =
      resume env id need filling (consumePass id fallback filling) := by
  have consumed := consumeFallback_spec free
  rw [consumeFrom, consumePass]
  generalize consumeFallback fallback (filling.view.span id) = taken at consumed
  rcases taken with ⟨_ | slot, span⟩
  · rfl
  · obtain ⟨-, rfl⟩ := consumed
    rfl

theorem fill_succ (need : Nat) (filling : Filling) :
    fill env id (need + 1) filling = resume env id need filling (pass env id filling) := by
  have warm := allocateWarm_spec (env.classify filling.out.length id) (filling.view.span id)
  rw [fill, pass]
  generalize allocateWarm (env.classify filling.out.length id) (filling.view.span id) =
    found at warm
  rcases found with ⟨_ | slot, fallback, span⟩
  · dsimp only
    by_cases any : fallback.any = true
    · rw [if_pos any, if_pos any]
      have consumed := @resume_consume env id filling need fallback warm.2.1
      obtain ⟨out, redirected, view⟩ := filling
      cases redirected with
      | true => exact consumed
      | false =>
        cases view.slab.empty with
        | nil => exact consumed
        | cons spare rest => rfl
    · rw [if_neg any, if_neg any]
      rfl
  · obtain ⟨-, rfl⟩ := warm
    rfl

theorem pass_cases (env : Env) (id : SpanId) (filling : Filling) :
    (∃ slot, pass env id filling = .took (filling.add id slot)) ∨
      (∃ spare rest, filling.redirected = false ∧
        pass env id filling = .turned { filling with
          redirected := true, view := promote spare rest (rotate id filling.view) }) ∨
      pass env id filling = .stopped := by
  unfold pass
  split
  next slot _ _ _ => exact .inl ⟨slot, rfl⟩
  next fallback _ _ =>
    split_ifs
    · split
      next spare rest may _ => exact .inr (.inl ⟨spare, rest, may, rfl⟩)
      next =>
        rw [consumePass]
        split
        next slot _ _ => exact .inl ⟨slot, rfl⟩
        next => exact .inr (.inr rfl)
    · exact .inr (.inr rfl)

theorem fill_keeps (need : Nat) (filling : Filling) :
    Keeps filling.view (fill env id need filling).view := by
  induction need generalizing filling with
  | zero => exact keeps_refl _
  | succ need ih =>
    rw [fill_succ]
    rcases pass_cases env id filling with ⟨slot, took⟩ | ⟨spare, rest, -, turned⟩ | stopped
    · rw [took]
      have taken : Keeps filling.view (filling.add id slot).view :=
        setSpan_keeps (takeSlot_wider slot)
      exact taken.trans (ih _)
    · rw [turned]
      have rotated : Keeps filling.view (rotate id filling.view) :=
        keeps_of_spans rfl rfl rfl fun _ => .refl
      exact rotated.trans (promote_keeps ..)
    · rw [stopped]
      exact keeps_refl _

def fillRedirects (env : Env) (id : SpanId) : Nat → Filling → Nat
  | 0, _ => 0
  | need + 1, filling =>
    match pass env id filling with
    | .took next => fillRedirects env id need next
    | .turned _ => 1
    | .stopped => 0

def redirects (env : Env) (count : Nat) : Nat → Filling → Nat
  | 0, _ => 0
  | rounds + 1, filling =>
    if filling.out.length < count then
      match frontSpan env filling.out.length filling.view with
      | none => 0
      | some (id, view) =>
        let need := count - filling.out.length
        fillRedirects env id need (filling.widen env id view) +
          redirects env count rounds ((fill env id need (filling.widen env id view)).settle id)
    else 0

def batchRedirects (env : Env) (count : Nat) (view : View) : Nat :=
  redirects env count (count + 1) { view := drainPending view }

theorem fillRedirects_spec (need : Nat) (filling : Filling) : (filling.redirected = true →
      fillRedirects env id need filling = 0 ∧ (fill env id need filling).redirected = true) ∧
    fillRedirects env id need filling ≤ 1 ∧
    (fillRedirects env id need filling = 1 → (fill env id need filling).redirected = true) := by
  induction need generalizing filling with
  | zero => exact ⟨fun pre => ⟨rfl, pre⟩, Nat.zero_le 1, nofun⟩
  | succ need ih =>
    rw [fill_succ, fillRedirects]
    rcases pass_cases env id filling with ⟨slot, took⟩ | ⟨spare, rest, may, turned⟩ | stopped
    · rw [took]
      exact ih (filling.add id slot)
    · rw [turned]
      refine ⟨fun pre => ?_, Nat.le_refl 1, fun _ => rfl⟩
      cases may.symm.trans pre
    · rw [stopped]
      exact ⟨fun pre => ⟨rfl, pre⟩, Nat.zero_le 1, nofun⟩

theorem redirects_le (rounds : Nat) (filling : Filling) :
    redirects env count rounds filling ≤ if filling.redirected then 0 else 1 := by
  induction rounds generalizing filling with
  | zero => exact Nat.zero_le _
  | succ rounds ih =>
    rw [redirects]
    by_cases short : filling.out.length < count
    · rw [if_pos short]
      cases frontSpan env filling.out.length filling.view with
      | none => exact Nat.zero_le _
      | some front =>
        obtain ⟨id, view⟩ := front
        dsimp only
        obtain ⟨later, once, marked⟩ := @fillRedirects_spec env id
          (count - filling.out.length) (filling.widen env id view)
        have rest := ih ((fill env id (count - filling.out.length)
          (filling.widen env id view)).settle id)
        generalize fill env id _ (filling.widen env id view) = filled at *
        generalize fillRedirects env id _ (filling.widen env id view) = here at *
        change _ ≤ if filled.redirected then 0 else 1 at rest
        change filling.redirected = true → here = 0 ∧ filled.redirected = true at later
        cases pre : filling.redirected with
        | true =>
          obtain ⟨none, still⟩ := later pre
          rw [still] at rest
          simp only [if_true] at rest ⊢
          omega
        | false =>
          cases now : filled.redirected with
          | true =>
            rw [now] at rest
            simp only [if_true, Bool.false_eq_true, if_false] at rest ⊢
            omega
          | false =>
            have none : here ≠ 1 := fun one => nomatch now.symm.trans (marked one)
            rw [now] at rest
            simp only [Bool.false_eq_true, if_false] at rest ⊢
            omega
    · rw [if_neg short]
      exact Nat.zero_le _

theorem fill_congr (same : env.classify = j.classify) (need : Nat) (filling : Filling) :
    fill env id need filling = fill j id need filling := by
  induction need generalizing filling with
  | zero => rfl
  | succ need ih =>
    have passes : pass env id filling = pass j id filling := by
      rw [pass, pass, same]
    rw [fill_succ, fill_succ, passes]
    cases pass j id filling with
    | took next => exact ih next
    | turned next => rfl
    | stopped => rfl

theorem round_keeps (below : filling.view.slab.capFn = true → env.CapsBelow) (need : Nat)
    (found : frontSpan env filling.out.length filling.view = some (id, view)) :
    Keeps filling.view ((fill env id need (filling.widen env id view)).settle id).view := by
  have front := frontSpan_keeps found
  rw [← front.capFn] at below
  exact front.trans ((maybeWiden_keeps below filling.out.length id).trans
    ((fill_keeps need (filling.widen env id view)).trans (settle_keeps id _)))

theorem fillAll_congr (classify : env.classify = j.classify) (pages : env.pages = j.pages)
    (rounds : Nat) (none : filling.view.slab.capFn = false) :
    fillAll env count rounds filling = fillAll j count rounds filling := by
  induction rounds generalizing filling with
  | zero => rfl
  | succ rounds ih =>
    have caps : currentCap env filling.out.length filling.view.slab =
        currentCap j filling.out.length filling.view.slab := by
      rw [currentCap, currentCap, none]
      rfl
    have news : allocateNewSpan env filling.out.length filling.view =
        allocateNewSpan j filling.out.length filling.view := by
      simp only [allocateNewSpan, caps, pages]
    have fronts : frontSpan env filling.out.length filling.view =
        frontSpan j filling.out.length filling.view := by
      rw [frontSpan, frontSpan, news]
    rw [fillAll, fillAll, fronts]
    cases found : frontSpan j filling.out.length filling.view with
    | none => rfl
    | some front =>
      obtain ⟨id, view⟩ := front
      have plain : view.slab.capFn = false := (frontSpan_keeps found).capFn.trans none
      have widened : maybeWiden env filling.out.length id view =
          maybeWiden j filling.out.length id view := by
        unfold maybeWiden
        rw [plain]
        rfl
      dsimp only
      rw [widened, fill_congr classify]
      have below : filling.view.slab.capFn = true → j.CapsBelow := fun installed =>
        nomatch none.symm.trans installed
      have kept := round_keeps below (count - filling.out.length) found
      split_ifs
      · exact ih (kept.capFn.trans none)
      · rfl

theorem fillAll_keeps {rounds : Nat} (below : filling.view.slab.capFn = true → env.CapsBelow)
    (ran : fillAll env count rounds filling = some r) : Keeps filling.view r.view := by
  induction rounds generalizing filling with
  | zero =>
    rw [fillAll] at ran
    split_ifs at ran
    cases ran
    exact keeps_refl _
  | succ rounds ih =>
    rw [fillAll] at ran
    split_ifs at ran
    · cases found : frontSpan env filling.out.length filling.view with
      | none =>
        rw [found] at ran
        cases ran
        exact keeps_refl _
      | some front =>
        obtain ⟨id, view⟩ := front
        rw [found] at ran
        have kept := round_keeps below (count - filling.out.length) found
        rw [← kept.capFn] at below
        exact kept.trans (ih below ran)
    · cases ran
      exact keeps_refl _

theorem frontSpan_none {allocated : Nat} (found : frontSpan env allocated view = none) :
    view.slab.partials = [] ∧ view.slab.empty = [] ∧ env.pages allocated = false := by
  unfold frontSpan at found
  split at found
  next => cases found
  next => cases found
  next partials empty =>
    split at found
    next refused =>
      refine ⟨partials, empty, ?_⟩
      unfold allocateNewSpan at refused
      split_ifs at refused with granted
      exact Bool.eq_false_iff.mpr granted
    next => cases found

/-- The loop gives up only when no list has a span and the region has no pages. -/
theorem fillAll_short {rounds : Nat} (ran : fillAll env count rounds filling = some r)
    (short : r.out.length < count) :
    r.view.slab.partials = [] ∧ r.view.slab.empty = [] ∧
      env.pages r.out.length = false := by
  induction rounds generalizing filling with
  | zero =>
    rw [fillAll] at ran
    split_ifs at ran with more
    cases ran
    exact absurd short more
  | succ rounds ih =>
    rw [fillAll] at ran
    split_ifs at ran with more
    · cases found : frontSpan env filling.out.length filling.view with
      | none =>
        rw [found] at ran
        cases ran
        exact frontSpan_none found
      | some front =>
        rw [found] at ran
        exact ih ran
    · cases ran
      exact absurd short more

end Loops

section Batch

variable {terms : Terms} {env : Env} {count : Nat} {view after : View}
variable {out objects rest held : List Object} {id : SpanId} {slot : Nat}

theorem nodup_of_slotsIn (each : ∀ id, (slotsIn out id).Nodup) : out.Nodup := by
  induction out with
  | nil => exact nodup_nil
  | cons object rest ih =>
    refine nodup_cons.mpr ⟨fun mem => ?_, ih fun id => ?_⟩
    · have own := each object.span
      rw [slotsIn_cons, if_pos rfl] at own
      exact (nodup_cons.mp own).1 (mem_slotsIn.mpr mem)
    · have more := each id
      rw [slotsIn_cons] at more
      split_ifs at more
      · exact (nodup_cons.mp more).2
      · exact more

theorem Sound.nodup (sound : Sound terms none view out) : out.Nodup := by
  apply nodup_of_slotsIn
  intro id
  by_cases mem : id ∈ view.slab.mapped
  · exact (sound.kept id mem).balanced.single
  · have none_out : slotsIn out id = [] := eq_nil_iff_forall_not_mem.mpr fun slot held =>
        mem (sound.mapped _ (mem_slotsIn.mp held))
    rw [none_out]
    exact nodup_nil

/-- The slot was free for the batch to take: its bit was set, or a pending free sets it, or the
cap is widened over it; every slot of a new span that its cap unlocks is free. -/
def WasFree (view after : View) (object : Object) : Prop :=
  if object.span ∈ view.slab.mapped then
    (view.span object.span).bitmap object.slot = true ∨ object ∈ queued view.slab.pending ∨
      view.slab.capFn = true ∧ Unlocked (after.span object.span) object.slot ∧
        ¬ Unlocked (view.span object.span) object.slot
  else Unlocked (after.span object.span) object.slot

theorem Sound.bit_iff (sound : Sound terms none view out) (mem : id ∈ view.slab.mapped) :
    (view.span id).bitmap slot = true ↔ Unlocked (view.span id) slot ∧ ⟨id, slot⟩ ∉ out := by
  rw [← mem_slotsIn]
  exact (sound.kept id mem).balanced.marks slot

theorem Sound.unlocked (sound : Sound terms none view out) (taken : ⟨id, slot⟩ ∈ out) :
    Unlocked (view.span id) slot :=
  (sound.kept id (sound.mapped _ taken)).balanced.usable slot (mem_slotsIn.mpr taken)

theorem wasFree_iff (pre : Sound terms none view (queued view.slab.pending ++ rest))
    (keeps : Keeps view after) :
    WasFree view after ⟨id, slot⟩ ↔ Unlocked (after.span id) slot ∧ ⟨id, slot⟩ ∉ rest := by
  have h : Known view := fun id mem => (pre.kept id mem).known
  rw [WasFree]
  dsimp only
  by_cases old : id ∈ view.slab.mapped
  · have wider := keeps.wider h id old
    rw [if_pos old, pre.bit_iff old]
    constructor
    · rintro (⟨open_, free⟩ | pending | ⟨-, open_, locked⟩)
      · exact ⟨wider.kept slot open_, fun j => free (mem_append_right _ j)⟩
      · have apart := (nodup_append.mp pre.nodup).2.2
        refine ⟨wider.kept slot (pre.unlocked (mem_append_left _ pending)), fun j => ?_⟩
        exact apart _ pending _ j rfl
      · exact ⟨open_, fun j => locked (pre.unlocked (mem_append_right _ j))⟩
    · rintro ⟨open_, free⟩
      by_cases before_open : Unlocked (view.span id) slot
      · by_cases pending : (⟨id, slot⟩ : Object) ∈ queued view.slab.pending
        · exact .inr (.inl pending)
        · refine .inl ⟨before_open, fun taken => ?_⟩
          rcases mem_append.mp taken with queued | j
          · exact pending queued
          · exact free j
      · refine .inr (.inr ⟨?_, open_, before_open⟩)
        by_contra none
        exact before_open (wider.fixed (Bool.eq_false_iff.mpr none) slot open_)
  · rw [if_neg old]
    refine (and_iff_left fun j => old ?_).symm
    exact pre.mapped ⟨id, slot⟩ (mem_append_right _ j)

structure BatchExact (env : Env) (count : Nat) (view : View) (objects : List Object)
    (after : View) : Prop where
  distinct : objects.Nodup
  most : objects.length ≤ count
  free : ∀ object ∈ objects, object.span ∈ after.slab.mapped ∧ WasFree view after object
  kept : ∀ id ∈ view.slab.mapped, id ∈ after.slab.mapped
  bits : ∀ id ∈ after.slab.mapped, ∀ slot, (after.span id).bitmap slot = true ↔
    WasFree view after ⟨id, slot⟩ ∧ ⟨id, slot⟩ ∉ objects
  redirects : batchRedirects env count view ≤ 1
  short : objects.length < count →
    after.slab.partials = [] ∧ after.slab.empty = [] ∧ env.pages objects.length = false

/-- The invariants of the lists, for the objects that callers hold: each span is on one list, the
one its counters call for, and the counters agree with the bitmap and with what is flagged. -/
def Listed (view : View) (held : List Object) : Prop :=
  ∃ foreign, Stocked ⟨foreign, view.resident.maxBytes, False, 1, Nat.le_refl 1⟩ view held

def Env.uncapped (env : Env) : Env := { env with cap := fun _ _ => 0, newCap := fun _ => 0 }

theorem Env.uncapped_below (env : Env) : env.uncapped.CapsBelow :=
  have zero : 0 < word16 := by decide
  ⟨fun _ => zero, fun _ _ => zero⟩

theorem exists_capsBelow (env : Env) (count : Nat)
    (below : view.slab.capFn = true → env.CapsBelow) : ∃ answers : Env, answers.CapsBelow ∧
      allocateBatch env count view = allocateBatch answers count view := by
  by_cases installed : view.slab.capFn = true
  · exact ⟨env, below installed, rfl⟩
  · have plain : (drainPending view).slab.capFn = false :=
      (drainPending_keeps view).capFn.trans (Bool.eq_false_iff.mpr installed)
    refine ⟨env.uncapped, env.uncapped_below, ?_⟩
    have same := @fillAll_congr env env.uncapped count { view := drainPending view } rfl rfl
      (count + 1) plain
    rw [allocateBatch, allocateBatch, same]

theorem batchExact_of_sound (pre : Sound terms none view (queued view.slab.pending ++ rest))
    (below : view.slab.capFn = true → env.CapsBelow)
    (ran : allocateBatch env count view = some (objects, after))
    (now : Sound terms none after (objects ++ rest)) (most : objects.length ≤ count) :
    BatchExact env count view objects after := by
  obtain ⟨fill, filled, r⟩ := Option.map_eq_some_iff.mp ran
  cases r
  have drained := drainPending_keeps view
  rw [← drained.capFn] at below
  have keeps : Keeps view fill.view := drained.trans (fillAll_keeps below filled)
  have distinct := nodup_append.mp now.nodup
  constructor
  · exact distinct.1
  · exact most
  · intro object mem
    have out := mem_append_left rest mem
    refine ⟨now.mapped object out, (wasFree_iff pre keeps).mpr ⟨now.unlocked out, ?_⟩⟩
    exact fun j => distinct.2.2 object mem object j rfl
  · exact keeps.mapped
  · intro id mem slot
    rw [now.bit_iff mem, wasFree_iff pre keeps, mem_append, not_or, and_assoc,
      and_comm (a := ⟨id, slot⟩ ∉ rest)]
  · exact redirects_le (count + 1) _
  · exact fillAll_short filled

/-- A batch comes to an end with different objects that were free, changes no other bit, turns to
an empty span once at most, and is short only if the region has no pages left. -/
theorem allocate_batch_exact (listed : Listed view held) (env : Env) (count : Nat)
    (below : view.slab.capFn = true → env.CapsBelow) :
    ∃ objects after, allocateBatch env count view = some (objects, after) ∧
      BatchExact env count view objects after ∧ Listed after (objects ++ held) := by
  obtain ⟨foreign, stocked⟩ := listed
  obtain ⟨answers, capped, same⟩ := exists_capsBelow env count below
  have cold : Terms.Warm ⟨foreign, view.resident.maxBytes, False, 1, Nat.le_refl 1⟩ answers
      (drainPending view) := fun two => absurd two (Nat.not_succ_le_self 1)
  obtain ⟨objects, after, ran, sound, grows, most⟩ := @allocateBatch_sound _ answers view count _
    stocked.pending stocked.sound (capped.answers rfl view.slab.sizeClass) cold
  have ran := same.trans ran
  refine ⟨objects, after, ran, batchExact_of_sound stocked.sound below ran sound most, ?_⟩
  have bytes : after.resident.maxBytes = view.resident.maxBytes :=
    grows.maxBytes.trans (drainPending_frames view).maxBytes
  refine ⟨foreign, ?_⟩
  rw [bytes]
  exact stocked.of_drained grows.toFrames (sound.perm (perm_append_comm_assoc ..))

/-- Three objects of the largest class from a slab without a span, whose region has pages for one
span of two slots. -/
theorem allocate_batch_fresh :
    let view : View := ⟨init ⟨35, by decide⟩ 0 false, ⟨65536, 0, 0, []⟩⟩
    let env : Env := ⟨fun _ _ _ => .warm, fun _ _ => 0, fun _ => 0, fun allocated => allocated == 0⟩
    Listed view [] ∧ ∃ objects after, allocateBatch env 3 view = some (objects, after) ∧
      BatchExact env 3 view objects after ∧ Listed after (objects ++ []) := by
  intro view env
  let terms : Terms := ⟨0, 65536, False, 1, Nat.le_refl 1⟩
  have capped : ∀ sc, terms.Caps sc 0 := fun _ => caps_below rfl (by decide)
  have ordered := @start_ordered Unit _ _ terms (fun _ => ⟨35, by decide⟩) (fun _ => 0)
    (fun _ => false) (fun _ => capped _)
  have listed : Listed view [] := ⟨_, ordered ()⟩
  exact ⟨listed, allocate_batch_exact listed env 3 nofun⟩

end Batch

end Smash.Slabs
