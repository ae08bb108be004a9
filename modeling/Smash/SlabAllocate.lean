import Smash.SlabSafety

/-! The sections that take spans into use and give them back to the region. A span that is taken
into use holds nothing yet, and stays the focus of the invariant until a slot of it is out. -/
namespace Smash.Slabs

open SpanSlots Popcount Transition Function List

section Reclaim

variable {terms : Terms} {view : View} {out : List Object} {id : SpanId} {rest : List SpanId}
variable {ids : List SpanId}

theorem Sound.empty_span (sound : Sound terms none view out) (listed : id ∈ view.slab.empty) :
    (view.span id).allocatedCount = 0 ∧ slotsIn out id = [] ∧ (view.span id).full = false := by
  have kept := sound.kept id (sound.listed_mapped .empty listed)
  have zero : (view.span id).allocatedCount = 0 :=
    beq_iff_eq.mp (sound.fits .empty id listed nofun)
  have none := kept.balanced.allocated
  have some := terms.positive.trans kept.served
  refine ⟨zero, length_eq_zero_iff.mp (none.symm.trans zero), beq_eq_false_iff_ne.mpr ?_⟩
  change 1 ≤ (view.span id).objectCount at some
  omega

theorem clearResident_sound (sound : Sound terms none view out) (listed : id ∈ view.slab.empty) :
    Sound terms none (clearResident id view) out := by
  have mem := sound.listed_mapped .empty listed
  have once := sound.listed_once .empty listed
  have some := count_pos_iff.mpr listed
  have relists : Relists view id view.slab.partials view.slab.full view.slab.empty :=
    ⟨fun _ _ => rfl, fun _ _ => rfl, fun _ _ => rfl, once⟩
  rw [clearResident_eq]
  refine sound.unflag mem relists nofun (fun _ => ⟨fun again => ?_, fun again => ?_, fun _ => ?_⟩)
    nofun
  · have := count_pos_iff.mpr again
    omega
  · have := count_pos_iff.mpr again
    omega
  · exact sound.fits .empty id listed nofun

theorem clearResident_lists (id : SpanId) (view : View) :
    (clearResident id view).slab.partials = view.slab.partials ∧
      (clearResident id view).slab.full = view.slab.full ∧
      (clearResident id view).slab.empty = view.slab.empty := by
  rw [clearResident_eq]
  exact ⟨rfl, rfl, rfl⟩

theorem purge_sound {due : View → SpanId → Prop} [∀ view id, Decidable (due view id)]
    (sound : Sound terms none view out) (listed : ∀ id ∈ ids, id ∈ view.slab.empty) :
    Sound terms none
      (ids.foldl (fun view id => if due view id then clearResident id view else view) view)
      out := by
  induction ids generalizing view with
  | nil => exact sound
  | cons id rest ih =>
    rw [foldl_cons]
    have later := fun j mem => listed j (mem_cons_of_mem id mem)
    split_ifs
    · refine ih (clearResident_sound sound (listed id mem_cons_self)) ?_
      rw [(clearResident_lists id view).2.2]
      exact later
    · exact ih sound later

theorem purgeResidentEmpty_sound (sound : Sound terms none view out) (now : Nat) :
    Sound terms none (purgeResidentEmpty now view) out := by
  unfold purgeResidentEmpty
  split_ifs
  · exact sound
  · exact purge_sound sound fun _ mem => mem

def View.revive (view : View) (id : SpanId) (partials rest : List SpanId) : View :=
  view.put id { view.span id with residentEmpty := false } partials view.slab.full rest
    (view.slab.residentEmptyCount - flag (view.span id))
    { view.resident with bytes := view.resident.bytes - flaggedBytes (view.span id) }

theorem releaseSpan_eq (view : View) (id : SpanId) (rest : List SpanId) :
    releaseSpan id { view with slab := { view.slab with empty := rest } } =
      { view.revive id view.slab.partials rest with
        slab := { (view.revive id view.slab.partials rest).slab with
          mapped := view.slab.mapped.erase id } } := by
  unfold releaseSpan
  rw [clearResident_eq]
  rfl

theorem promote_eq (view : View) (id : SpanId) (rest : List SpanId) :
    promote id rest view = view.revive id (id :: view.slab.partials) rest := by
  unfold promote recommitEmptySpan
  rw [clearResident_eq]
  rfl

theorem releaseSpan_sound (sound : Sound terms none view out) (front : view.slab.empty = id :: rest) :
    Sound terms none (releaseSpan id { view with slab := { view.slab with empty := rest } })
      out := by
  have listed : id ∈ view.slab.empty := front ▸ mem_cons_self
  have mem := sound.listed_mapped .empty listed
  have once := sound.listed_once .empty listed
  have count : view.slab.empty.count id = rest.count id + 1 := by rw [front, count_cons_self]
  obtain ⟨-, none_out, -⟩ := sound.empty_span listed
  have counted := Slab.le_total flag mem
  have bytes := Slab.le_total flaggedBytes mem
  rw [← sound.count] at counted
  have bytes : flaggedBytes (view.slab.spans id) ≤ view.resident.bytes := by
    rw [sound.bytes]
    exact Nat.le_add_left_of_le bytes
  rw [releaseSpan_eq]
  refine sound.touch (by simp)
    { sizeClass := rfl, maxSlotsPerPage := rfl, nextSpan := le_rfl
      spans := fun j apart => update_of_ne apart ..
      mapped := fun j apart => ?_
      lists := fun place j apart => ?_
      slots := fun _ _ => rfl } ?_
  · exact Finset.mem_erase.trans (and_iff_right apart)
  · cases place with
    | partials => rfl
    | full => rfl
    | empty =>
      simp only [Slab.list]
      rw [front, count_cons_of_ne apart.symm]
      rfl
  · have gone : id ∉ view.slab.mapped.erase id := Finset.notMem_erase id _
    constructor
    · dsimp only
      rw [if_neg gone]
      change view.slab.partials.count id + view.slab.full.count id + rest.count id = 0
      omega
    · intro place again
      have again := count_pos_iff.mpr again
      cases place with
      | partials =>
        change 0 < view.slab.partials.count id at again
        omega
      | full =>
        change 0 < view.slab.full.count id at again
        omega
      | empty =>
        change 0 < rest.count id at again
        omega
    · simp
    · simp
    · exact fun stays => absurd stays gone
    · exact fun some => absurd none_out some
    · dsimp only [Slab.own]
      rw [if_pos mem, if_neg gone, Nat.add_zero]
      exact Nat.sub_add_cancel counted
    · dsimp only [Slab.own]
      rw [if_pos mem, if_neg gone, Nat.add_zero]
      exact Nat.sub_add_cancel bytes
    · exact fun _ serial below => ⟨serial, (Nat.sub_le _ _).trans below⟩

theorem releaseSpan_empty (id : SpanId) (view : View) :
    (releaseSpan id view).slab.empty = view.slab.empty := by
  unfold releaseSpan
  exact (clearResident_lists id view).2.2

theorem releaseEmpties_sound (sound : Sound terms none view out) (all : view.slab.empty = ids) :
    Sound terms none (releaseEmpties ids view) out ∧ (releaseEmpties ids view).slab.empty = [] := by
  induction ids generalizing view with
  | nil => exact ⟨sound, all⟩
  | cons id rest ih => exact ih (releaseSpan_sound sound all) (releaseSpan_empty id _)

theorem releaseSpan_frames (id : SpanId) (view : View) : Frames view (releaseSpan id view) := by
  have frames := clearResident_frames id view
  exact ⟨frames.sizeClass, frames.maxSlotsPerPage, frames.capFn, frames.pending, frames.magazines,
    frames.maxBytes⟩

theorem releaseEmpties_frames (ids : List SpanId) (view : View) :
    Frames view (releaseEmpties ids view) := by
  induction ids generalizing view with
  | nil => exact .refl view
  | cons id rest ih =>
    refine .trans ?_ ((releaseSpan_frames id _).trans (ih _))
    exact ⟨rfl, rfl, rfl, rfl, rfl, rfl⟩

theorem purgeResidentEmpty_frames (now : Nat) (view : View) :
    Frames view (purgeResidentEmpty now view) := by
  unfold purgeResidentEmpty
  split_ifs
  · exact .refl view
  · refine foldl_frames (fun view id => ?_) _ view
    split_ifs
    · exact clearResident_frames id view
    · exact .refl view

end Reclaim

section Promote

variable {terms : Terms} {view s' : View} {out : List Object} {id : SpanId} {rest : List SpanId}

/-- The span at the front of `partial_` is ready to be taken from: it has a free slot. -/
structure Ready (terms : Terms) (id : SpanId) (view : View) (out : List Object) : Prop where
  sound : Sound terms (some id) view out
  free : (view.span id).full = false

theorem promote_ready (sound : Sound terms none view out) (front : view.slab.empty = id :: rest) :
    Ready terms id (promote id rest view) out := by
  have listed : id ∈ view.slab.empty := front ▸ mem_cons_self
  have mem := sound.listed_mapped .empty listed
  have once := sound.listed_once .empty listed
  have count : view.slab.empty.count id = rest.count id + 1 := by rw [front, count_cons_self]
  have relists : Relists view id (id :: view.slab.partials) view.slab.full rest := by
    refine ⟨fun j apart => ?_, fun _ _ => rfl, fun j apart => ?_, ?_⟩
    · exact count_cons_of_ne apart.symm
    · rw [front, count_cons_of_ne apart.symm]
    · rw [count_cons_self]
      omega
  have alone : ∀ j, some id = some j → j = id := fun _ same =>
    (Option.some.inj same).symm
  rw [promote_eq]
  constructor
  · exact sound.unflag mem relists alone nofun fun _ => mem_cons_self
  · rw [View.revive, put_span]
    exact (sound.empty_span listed).2.2

/-- What the callback answers keeps the counters right and enough slots usable. -/
structure Terms.Answers (terms : Terms) (env : Env) (sizeClass : SizeClass) : Prop where
  newCap : ∀ allocated, terms.Caps sizeClass (env.newCap allocated)
  cap : ∀ allocated id, Fits (classSize sizeClass) (env.cap allocated id)

theorem classCapacity_lt (sc : SizeClass) :
    classPages sc * kPageSize / classSize sc < word16 ∧ classPages sc ≠ 0 := by
  revert sc
  decide

theorem newSpan_balanced {sc : SizeClass} {cap : Nat} (fits : Fits (classSize sc) cap) :
    Balanced (SpanSlots.init (classPages sc) sc cap) [] :=
  init_balanced (classCapacity_lt sc).1 fits (.inl (classCapacity_lt sc).2)

theorem init_fields (pages : Nat) (sc : SizeClass) (cap : Nat) :
    (SpanSlots.init pages sc cap).objectSize = classSize sc ∧
      (SpanSlots.init pages sc cap).residentEmpty = false ∧
      (SpanSlots.init pages sc cap).pageCount = pages := by
  unfold SpanSlots.init
  dsimp only
  by_cases active : 0 < cap ∧ classSize sc < kPageSize
  · rw [if_pos active]
    exact ⟨rfl, rfl, rfl⟩
  · rw [if_neg active]
    exact ⟨rfl, rfl, rfl⟩

theorem Terms.Answers.current {env : Env} (answers : terms.Answers env view.slab.sizeClass)
    {focus : Option SpanId} (sound : Sound terms focus view out) (allocated : Nat) :
    terms.Caps view.slab.sizeClass (currentCap env allocated view.slab) := by
  unfold currentCap
  split_ifs
  · exact answers.newCap allocated
  · exact sound.capped

def View.enlist (view : View) (span : Span) : View :=
  { view with
    slab :=
      { view.slab with
        spans := update view.slab.spans view.slab.nextSpan span
        nextSpan := view.slab.nextSpan + 1
        mapped := insert view.slab.nextSpan view.slab.mapped
        partials := view.slab.nextSpan :: view.slab.partials } }

theorem Sound.enlist {span : Span} (sound : Sound terms none view out) (bal : Balanced span [])
    (served : terms.least ≤ span.objectCount)
    (sized : span.objectSize = classSize view.slab.sizeClass)
    (unflagged : span.residentEmpty = false) :
    Ready terms view.slab.nextSpan (view.enlist span) out := by
  have absent : view.slab.nextSpan ∉ view.slab.mapped := fun mem =>
    Nat.lt_irrefl _ (sound.kept _ mem).known
  have nowhere := sound.single view.slab.nextSpan
  rw [if_neg absent, Slab.places] at nowhere
  have none_out : slotsIn out view.slab.nextSpan = [] := by
    refine eq_nil_iff_forall_not_mem.mpr fun slot mem => ?_
    exact absent (sound.mapped _ (mem_slotsIn.mp mem))
  have here : (view.enlist span).slab.spans view.slab.nextSpan = span := update_self ..
  have mem : view.slab.nextSpan ∈ (view.enlist span).slab.mapped := Finset.mem_insert_self ..
  have fresh : span.allocatedCount = 0 := bal.allocated
  have touches : Touches view.slab.nextSpan view (view.enlist span) out out := by
    refine ⟨rfl, rfl, Nat.le_succ _, fun j apart => update_of_ne apart ..,
      fun j apart => ?_, fun place j apart => ?_, fun _ _ => rfl⟩
    · exact Finset.mem_insert.trans (or_iff_right apart)
    · cases place with
      | partials => exact count_cons_of_ne apart.symm
      | full => rfl
      | empty => rfl
  refine ⟨sound.touch (by simp) touches ?_, ?_⟩
  · constructor
    · rw [if_pos mem]
      change (view.slab.nextSpan :: view.slab.partials).count _ + view.slab.full.count _ +
        view.slab.empty.count _ = 1
      rw [count_cons_self]
      omega
    · exact fun _ _ unfocused => absurd rfl unfocused
    · exact fun _ => ⟨mem_cons_self, by rw [View.span, here]; exact unflagged⟩
    · exact fun _ same => (Option.some.inj same).symm
    · intro _
      refine ⟨?_, ?_, ?_, Nat.lt_succ_self _⟩
      · rw [here, none_out]
        exact bal
      · rw [here]
        exact served
      · rw [here]
        exact sized
    · exact fun some => absurd none_out some
    · rw [Slab.own, Slab.own, if_neg absent, if_pos mem, here, flag, if_neg (by simp [unflagged])]
      rfl
    · rw [Slab.own, Slab.own, if_neg absent, if_pos mem, here, flaggedBytes,
        if_neg (by simp [unflagged])]
      rfl
    · exact fun _ serial below => ⟨serial, below⟩
  · rw [View.span, here]
    have positive := terms.positive.trans served
    exact beq_eq_false_iff_ne.mpr (by omega)

theorem allocateNewSpan_ready {env : Env} {allocated : Nat} (sound : Sound terms none view out)
    (answers : terms.Answers env view.slab.sizeClass)
    (found : allocateNewSpan env allocated view = some (id, s')) : Ready terms id
      { s' with slab := { s'.slab with partials := id :: s'.slab.partials } } out := by
  have caps := answers.current sound allocated
  have bal := newSpan_balanced caps.fits
  have served := caps.enough
  obtain ⟨sized, unflagged, -⟩ := init_fields (classPages view.slab.sizeClass) view.slab.sizeClass
    (currentCap env allocated view.slab)
  unfold allocateNewSpan at found
  dsimp only at found
  generalize SpanSlots.init _ _ _ = span at *
  split_ifs at found
  cases found
  exact sound.enlist bal served sized unflagged

end Promote

section Take

variable {terms : Terms} {view : View} {out : List Object} {id : SpanId} {slot : Nat}

theorem maybeWiden_shape (cap : Option Nat) {span : Span} {held : List Nat}
    (bal : Balanced span held) : (SpanSlots.maybeWiden cap span).objectSize = span.objectSize ∧
      (SpanSlots.maybeWiden cap span).residentEmpty = span.residentEmpty ∧
      (SpanSlots.maybeWiden cap span).allocatedCount = span.allocatedCount ∧
      span.objectCount ≤ (SpanSlots.maybeWiden cap span).objectCount := by
  have most := bal.objectCount_le
  have narrow := bal.narrow
  cases cap with
  | none => exact ⟨rfl, rfl, rfl, le_rfl⟩
  | some cap =>
    unfold SpanSlots.maybeWiden widenCap
    dsimp only
    split_ifs
    all_goals try exact ⟨rfl, rfl, rfl, le_rfl⟩
    refine ⟨rfl, rfl, rfl, ?_⟩
    dsimp only
    omega

theorem Sound.perm {focus : Option SpanId} {j : List Object} (sound : Sound terms focus view out)
    (same : out.Perm j) : Sound terms focus view j :=
  { sound with
    kept := fun id mem =>
      { sound.kept id mem with
        balanced := (sound.kept id mem).balanced.perm (slotsIn_perm same id) }
    mapped := fun object mem => sound.mapped object (same.mem_iff.mpr mem) }

theorem maybeWiden_ready {env : Env} (ready : Ready terms id view out)
    (answers : terms.Answers env view.slab.sizeClass) (allocated : Nat) :
    Ready terms id (maybeWiden env allocated id view) out := by
  obtain ⟨listed, unflagged⟩ := ready.sound.focused id rfl
  have kept := ready.sound.kept id (ready.sound.listed_mapped .partials listed)
  have free : (view.span id).allocatedCount ≠ (view.span id).objectCount :=
    beq_eq_false_iff_ne.mp ready.free
  have most : (view.span id).allocatedCount ≤ (view.span id).objectCount := by
    have counted := kept.balanced.counted
    exact Nat.le.intro ((Nat.add_comm _ _).trans counted)
  have bal := ready.sound.focus_balanced
  have sized : (view.span id).objectSize = classSize view.slab.sizeClass := kept.sized
  unfold maybeWiden
  generalize query : (if view.slab.capFn = true then some (env.cap allocated id) else none) = cap
  have widened : Balanced (SpanSlots.maybeWiden cap (view.span id)) (slotsIn out id) := by
    cases cap with
    | none => exact bal
    | some cap =>
      refine maybeWiden_balanced bal ?_
      rw [sized]
      split_ifs at query
      cases query
      exact answers.cap allocated id
  obtain ⟨size, resident, same, more⟩ := maybeWiden_shape cap bal
  constructor
  · exact ready.sound.setSpan (fun _ _ => rfl) widened more size (resident.trans unflagged)
  · rw [setSpan_span]
    exact beq_eq_false_iff_ne.mpr (by omega)

theorem Sound.take (sound : Sound terms (some id) view out)
    (free : (view.span id).bitmap slot = true) :
    Sound terms (some id) (view.setSpan id (takeSlot (view.span id) slot)) (⟨id, slot⟩ :: out) ∧
      ((view.setSpan id (takeSlot (view.span id) slot)).span id).empty = false := by
  obtain ⟨listed, unflagged⟩ := sound.focused id rfl
  have bal := sound.focus_balanced
  have s' := takeSlot_balanced bal free
  have shape := takeSlot_shape (view.span id) slot
  have own : slotsIn (⟨id, slot⟩ :: out) id = slot :: slotsIn out id := by
    rw [slotsIn_cons, if_pos rfl]
  have plain := shape.residentEmpty.trans unflagged
  constructor
  · refine sound.setSpan (fun j apart => (slotsIn_other out j apart).symm) ?_
      shape.objectCount.ge shape.objectSize plain
    rw [own]
    exact s'
  · rw [setSpan_span, Span.empty, s'.allocated]
    rfl

end Take

section Grow

variable {terms : Terms} {view after final : View} {env : Env} {id : SpanId}

/-- While a section allocates, no span becomes empty or is given back. -/
structure Grows (view after : View) : Prop extends Frames view after where
  empty : ∀ id ∈ after.slab.empty, id ∈ view.slab.empty
  mapped : view.slab.mapped ⊆ after.slab.mapped

theorem Grows.refl (view : View) : Grows view view :=
  ⟨.refl view, fun _ mem => mem, Finset.Subset.refl _⟩

theorem Grows.trans (first : Grows view after) (second : Grows after final) : Grows view final :=
  ⟨first.toFrames.trans second.toFrames, fun id mem => first.empty id (second.empty id mem),
    first.mapped.trans second.mapped⟩

theorem setSpan_grows (view : View) (id : SpanId) (span : Span) :
    Grows view (view.setSpan id span) :=
  ⟨⟨rfl, rfl, rfl, rfl, rfl, rfl⟩, fun _ mem => mem, Finset.Subset.refl _⟩

theorem rotate_grows (id : SpanId) (view : View) : Grows view (rotate id view) :=
  ⟨⟨rfl, rfl, rfl, rfl, rfl, rfl⟩, fun _ mem => mem, Finset.Subset.refl _⟩

theorem settle_grows (id : SpanId) (view : View) : Grows view (settle id view) := by
  unfold settle
  split_ifs
  · exact ⟨⟨rfl, rfl, rfl, rfl, rfl, rfl⟩, fun _ mem => mem, Finset.Subset.refl _⟩
  · exact .refl view

theorem promote_grows {rest : List SpanId} (front : view.slab.empty = id :: rest) :
    Grows view (promote id rest view) := by
  rw [promote_eq]
  refine ⟨⟨rfl, rfl, rfl, rfl, rfl, rfl⟩, fun j mem => ?_, Finset.Subset.refl _⟩
  rw [front]
  exact mem_cons_of_mem id mem

/-- Spans that hold nothing are warm while the section runs: the compressor has not looked at
them since they were taken into use. This matters only where each span has two slots. -/
def Terms.Warm (terms : Terms) (env : Env) (view : View) : Prop :=
  2 ≤ terms.least → ∀ id, id ∈ view.slab.empty ∨ id ∉ view.slab.mapped →
    ∀ allocated slot, env.classify allocated id slot = .warm

theorem Grows.warm (grows : Grows view after) (warm : terms.Warm env view) :
    terms.Warm env after := by
  intro two id idle
  exact warm two id (idle.imp (grows.empty id) (mt fun mem => grows.mapped mem))

end Grow

section Fill

variable {terms : Terms} {env : Env} {view : View} {out rest : List Object} {id : SpanId}
variable {classify : Nat → SlotPageClass} {fallback : AllocFallback} {filling : Filling}
variable {more : List SpanId} {spare : SpanId}

theorem allocateWarm_none {span : Span} {held : List Nat}
    {s' : Span} (bal : Balanced span held)
    (free : span.full = false) (found : allocateWarm classify span = (none, fallback, s')) :
    fallback.any = true := by
  have spec := allocateWarm_spec classify span
  rw [found] at spec
  obtain ⟨slot, below, set⟩ := bal.exists_free free
  by_contra nothing
  cases set.symm.trans (spec.2.2 (Bool.eq_false_iff.mpr nothing) slot below)

theorem allocateWarm_warm {span s' : Span} (warm : ∀ slot, classify slot = .warm)
    (found : allocateWarm classify span = (none, fallback, s')) : fallback.any = false := by
  have cold : ∀ pageClass ≠ .warm,
      (scanOrder span).find? (freeOn span.bitmap classify pageClass) = none := fun _ j =>
    find?_eq_none.mpr fun slot _ free => j ((freeOn_iff.mp free).2.symm.trans (warm slot))
  have search := allocateWarm_search classify span
  rw [found] at search
  rw [search.2.1, cold .cooling nofun, cold .compressed nofun]
  rfl

/-- What one run of the inner loop does: the span is filled further, or the loop has turned to an
empty span, which is then at the front of `partial_`. -/
inductive Filled (terms : Terms) (id : SpanId) (rest : List Object) (before after : Filling) :
    Prop where
  | more (grown : before.out.length ≤ after.out.length)
      (kept : after.redirected = before.redirected)
      (sound : Sound terms (some id) after.view (after.out ++ rest))
      (used : (before.view.span id).empty = false ∨ before.out.length < after.out.length →
        (after.view.span id).empty = false)
  | turned (grown : before.out.length ≤ after.out.length)
      (once : before.redirected = false ∧ after.redirected = true)
      (spare : SpanId) (idle : spare ∈ before.view.slab.empty)
      (front : after.view.slab.partials.head? = some spare)
      (ready : Ready terms spare after.view (after.out ++ rest))
      (behind : (after.view.span id).full = false)

/-- The span being filled has objects out, or all its pages are warm. -/
def Terms.Steady (terms : Terms) (env : Env) (id : SpanId) (view : View) : Prop :=
  2 ≤ terms.least → (view.span id).empty = false ∨
    ∀ allocated slot, env.classify allocated id slot = .warm

theorem revive_full (view : View) (spare : SpanId) (partials more : List SpanId) (id : SpanId) :
    ((view.revive spare partials more).span id).full = (view.span id).full := by
  by_cases own : id = spare
  · subst own
    rw [View.revive, put_span]
    rfl
  · rw [View.revive, put_span_of_ne _ _ _ _ _ _ _ own]

theorem append_perm (object : Object) (taken : List Object) :
    (object :: (taken ++ rest)).Perm (taken ++ [object] ++ rest) := by
  rw [append_assoc]
  exact perm_middle.symm

theorem redirect_ready (sound : Sound terms (some id) view out) (free : (view.span id).full = false)
    (used : 2 ≤ terms.least → (view.span id).empty = false)
    (front : view.slab.empty = spare :: more) :
    Ready terms spare (promote spare more (rotate id view)) out ∧
      ((promote spare more (rotate id view)).span id).full = false ∧
      (promote spare more (rotate id view)).slab.partials.head? = some spare := by
  have rotated : Sound terms none (rotate id view) out :=
    sound.rotate.unfocus ⟨free, (sound.focused id rfl).2, used⟩
  refine ⟨promote_ready rotated front, ?_, ?_⟩
  · rw [promote_eq, revive_full]
    exact free
  · rw [promote_eq]
    rfl

def Filling.add (filling : Filling) (id : SpanId) (slot : Nat) : Filling :=
  { filling with
    out := filling.out ++ [⟨id, slot⟩]
    view := filling.view.setSpan id (takeSlot (filling.view.span id) slot) }

theorem Filling.add_sound {slot : Nat}
    (sound : Sound terms (some id) filling.view (filling.out ++ rest))
    (free : (filling.view.span id).bitmap slot = true) :
    Sound terms (some id) (filling.add id slot).view ((filling.add id slot).out ++ rest) ∧
      ((filling.add id slot).view.span id).empty = false :=
  ⟨(sound.take free).1.perm (append_perm _ _), (sound.take free).2⟩

structure FillRun (terms : Terms) (id : SpanId) (rest : List Object) (need : Nat)
    (before after : Filling) : Prop where
  filled : Filled terms id rest before after
  grows : Grows before.view after.view
  most : after.out.length ≤ before.out.length + need
  progress : (before.view.span id).full = false → need ≠ 0 →
    before.out.length < after.out.length ∨ after.redirected ≠ before.redirected
  short : after.redirected ≠ before.redirected → after.out.length < before.out.length + need

theorem FillRun.stop {need : Nat} (sound : Sound terms (some id) filling.view (filling.out ++ rest))
    (nothing : need = 0 ∨ (filling.view.span id).full = true) :
    FillRun terms id rest need filling filling where
  filled := .more le_rfl rfl sound fun used => used.resolve_right (Nat.lt_irrefl _)
  grows := .refl _
  most := Nat.le_add_right ..
  progress free some := by
    rcases nothing with none | full
    · exact absurd none some
    · cases free.symm.trans full
  short turned := absurd rfl turned

theorem FillRun.add {filling s' : Filling} {need slot : Nat}
    (sound : Sound terms (some id) filling.view (filling.out ++ rest))
    (free : (filling.view.span id).bitmap slot = true)
    (run : FillRun terms id rest need (filling.add id slot) s') :
    FillRun terms id rest (need + 1) filling s' := by
  have longer : (filling.add id slot).out.length = filling.out.length + 1 :=
    length_append.trans rfl
  have grown : filling.out.length < s'.out.length := by
    have further : (filling.add id slot).out.length ≤ s'.out.length := by
      cases run.filled with
      | more grown => exact grown
      | turned grown => exact grown
    omega
  refine ⟨?_, (setSpan_grows ..).trans run.grows, ?_, fun _ _ => .inl grown, fun turned => ?_⟩
  · cases run.filled with
    | more _ kept after_sound used =>
      exact .more grown.le kept after_sound fun _ => used (.inl (sound.take free).2)
    | turned _ once spare idle front ready behind =>
      exact .turned grown.le once spare idle front ready behind
  · have most := run.most
    omega
  · have short := run.short turned
    omega

theorem exists_fallback (any : fallback.any = true) :
    ∃ slot, fallback.cool = some slot ∨ fallback.comp = some slot := by
  rcases fallback with ⟨_ | cool, _ | comp⟩
  · cases any
  · exact ⟨comp, .inr rfl⟩
  · exact ⟨cool, .inl rfl⟩
  · exact ⟨cool, .inl rfl⟩

theorem FillRun.turn (need : Nat) (sound : Sound terms (some id) filling.view (filling.out ++ rest))
    (free : (filling.view.span id).full = false)
    (used : 2 ≤ terms.least → (filling.view.span id).empty = false)
    (may : filling.redirected = false) (front : filling.view.slab.empty = spare :: more) :
    FillRun terms id rest (need + 1) filling
      { filling with
        redirected := true, view := promote spare more (rotate id filling.view) } := by
  obtain ⟨ready, behind, first⟩ := redirect_ready sound free used front
  have idle : spare ∈ filling.view.slab.empty := front ▸ mem_cons_self
  refine ⟨.turned le_rfl ⟨may, rfl⟩ spare idle first ready behind, ?_, Nat.le_add_right .., ?_,
    fun _ => Nat.lt_add_of_pos_right (Nat.succ_pos need)⟩
  · exact (rotate_grows id filling.view).trans (promote_grows front)
  · intro _ _
    rw [may]
    exact .inr nofun

theorem fill_run (need : Nat) (sound : Sound terms (some id) filling.view (filling.out ++ rest))
    (steady : terms.Steady env id filling.view) :
    FillRun terms id rest need filling (fill env id need filling) := by
  induction need generalizing filling with
  | zero => exact .stop sound (.inl rfl)
  | succ need ih =>
    have take : ∀ slot, (filling.view.span id).bitmap slot = true →
        FillRun terms id rest (need + 1) filling (fill env id need (filling.add id slot)) :=
      fun slot free => .add sound free
        (ih (Filling.add_sound sound free).1 fun _ => .inl (Filling.add_sound sound free).2)
    have spec := allocateWarm_spec (env.classify filling.out.length id) (filling.view.span id)
    unfold fill
    dsimp only
    generalize found : allocateWarm (env.classify filling.out.length id) (filling.view.span id) =
      r at spec
    rcases r with ⟨_ | slot, fallback, span⟩
    · obtain ⟨-, free, -⟩ := spec
      have bal := sound.focus_balanced
      dsimp only
      split_ifs with any
      · obtain ⟨slot, recorded⟩ := exists_fallback any
        have room := bal.not_full (free slot recorded)
        have used : 2 ≤ terms.least → (filling.view.span id).empty = false := fun two =>
          (steady two).resolve_right fun warm => by
            cases any.symm.trans (allocateWarm_warm (warm filling.out.length) found)
        split
        next may front => exact .turn need sound room used may front
        next =>
          have consumed := consumeFallback_spec free
          unfold consumeFrom
          generalize consumeFallback fallback (filling.view.span id) = r at consumed
          rcases r with ⟨_ | slot, span⟩
          · cases any.symm.trans consumed.2
          · obtain ⟨set, rfl⟩ := consumed
            exact take slot set
      · refine .stop sound (.inr ?_)
        by_contra room
        exact any (allocateWarm_none bal (Bool.eq_false_iff.mpr room) found)
    · obtain ⟨free, rfl⟩ := spec
      exact take slot free

end Fill

section Rounds

variable {terms : Terms} {env : Env} {view s' : View} {out rest : List Object} {id : SpanId}
variable {count : Nat} {filling : Filling}
variable {allocated : Nat}

theorem allocateNewSpan_grows (found : allocateNewSpan env allocated view = some (id, s')) :
    id = view.slab.nextSpan ∧
      Grows view { s' with slab := { s'.slab with partials := id :: s'.slab.partials } } := by
  unfold allocateNewSpan at found
  dsimp only at found
  split_ifs at found
  cases found
  exact ⟨rfl, ⟨rfl, rfl, rfl, rfl, rfl, rfl⟩, fun _ mem => mem, Finset.subset_insert ..⟩

theorem frontSpan_ready (sound : Sound terms none view out)
    (answers : terms.Answers env view.slab.sizeClass) (warm : terms.Warm env view)
    (found : frontSpan env allocated view = some (id, s')) :
    Ready terms id s' out ∧ Grows view s' ∧ terms.Steady env id s' := by
  unfold frontSpan at found
  split at found
  next first _ _ front =>
    cases found
    have listed : id ∈ view.slab.partials := front ▸ mem_cons_self
    have fits := sound.fits .partials id listed nofun
    exact ⟨⟨sound.focusOn listed, fits.1⟩, .refl _, fun two => .inl (fits.2.2 two)⟩
  next spare more _ front =>
    cases found
    have idle : id ∈ view.slab.empty := front ▸ mem_cons_self
    exact ⟨promote_ready sound front, promote_grows front, fun two => .inr (warm two id (.inl idle))⟩
  next =>
    split at found
    next => cases found
    next fresh admitted new =>
      cases found
      obtain ⟨unborn, grows⟩ := allocateNewSpan_grows new
      refine ⟨allocateNewSpan_ready sound answers new, grows, fun two => .inr (warm two _ (.inr ?_))⟩
      intro mem
      exact Nat.lt_irrefl _ (unborn ▸ (sound.kept _ mem).known)

/-- Between two rounds of the outer loop: nothing is half done, or the loop has turned to an empty
span and will take from it next. -/
inductive Between (terms : Terms) (env : Env) (count : Nat) (rest : List Object)
    (filling : Filling) : Prop where
  | settled (sound : Sound terms none filling.view (filling.out ++ rest))
  | turned (short : filling.out.length < count) (spare : SpanId)
      (front : filling.view.slab.partials.head? = some spare)
      (ready : Ready terms spare filling.view (filling.out ++ rest))
      (steady : terms.Steady env spare filling.view)

theorem Between.front (between : Between terms env count rest filling)
    (answers : terms.Answers env filling.view.slab.sizeClass) (warm : terms.Warm env filling.view)
    (found : frontSpan env allocated filling.view = some (id, s')) :
    Ready terms id s' (filling.out ++ rest) ∧ Grows filling.view s' ∧
      terms.Steady env id s' := by
  cases between with
  | settled sound => exact frontSpan_ready sound answers warm found
  | turned _ spare front ready steady =>
    obtain ⟨others, partials⟩ : ∃ others, filling.view.slab.partials = spare :: others :=
      List.head?_eq_some_iff.mp front
    unfold frontSpan at found
    rw [partials] at found
    cases found
    exact ⟨ready, .refl _, steady⟩

theorem Between.no_front (between : Between terms env count rest filling)
    (found : frontSpan env allocated filling.view = none) :
    Sound terms none filling.view (filling.out ++ rest) := by
  cases between with
  | settled sound => exact sound
  | turned _ spare front =>
    obtain ⟨others, partials⟩ : ∃ others, filling.view.slab.partials = spare :: others :=
      List.head?_eq_some_iff.mp front
    unfold frontSpan at found
    rw [partials] at found
    cases found

theorem maybeWiden_grows (env : Env) (allocated : Nat) (id : SpanId) (view : View) :
    Grows view (maybeWiden env allocated id view) := setSpan_grows ..

theorem maybeWiden_empty (sound : Sound terms (some id) view out) :
    ((maybeWiden env allocated id view).span id).empty = (view.span id).empty := by
  rw [maybeWiden, setSpan_span, Span.empty, (maybeWiden_shape _ sound.focus_balanced).2.2.1]
  rfl

theorem maybeWiden_steady (ready : Ready terms id view out) (steady : terms.Steady env id view) :
    terms.Steady env id (maybeWiden env allocated id view) := by
  intro two
  exact (steady two).imp_left (maybeWiden_empty ready.sound).trans

def Filling.widen (filling : Filling) (env : Env) (id : SpanId) (view : View) : Filling :=
  { filling with view := maybeWiden env filling.out.length id view }

def Filling.settle (filling : Filling) (id : SpanId) : Filling :=
  { filling with view := Slabs.settle id filling.view }

theorem round_between (between : Between terms env count rest filling)
    (answers : terms.Answers env filling.view.slab.sizeClass)
    (warm : terms.Warm env filling.view) (short : filling.out.length < count)
    (found : frontSpan env filling.out.length filling.view = some (id, view)) :
    let next := (fill env id (count - filling.out.length) (filling.widen env id view)).settle id
    Between terms env count rest next ∧ Grows filling.view next.view ∧
      next.out.length ≤ count ∧ filling.out.length ≤ next.out.length ∧
      (filling.out.length < next.out.length ∧ next.redirected = filling.redirected ∨
        filling.redirected = false ∧ next.redirected = true) := by
  obtain ⟨ready, grows, steady⟩ := between.front answers warm found
  rw [← grows.sizeClass] at answers
  have widened : Ready terms id (filling.widen env id view).view (filling.out ++ rest) :=
    maybeWiden_ready ready answers filling.out.length
  have run : FillRun terms id rest (count - filling.out.length) (filling.widen env id view)
      (fill env id (count - filling.out.length) (filling.widen env id view)) :=
    fill_run _ widened.sound (maybeWiden_steady ready steady)
  have progress := run.progress widened.free (Nat.sub_ne_zero_of_lt short)
  generalize fill env id (count - filling.out.length) (filling.widen env id view) = filled at *
  have grown : Grows filling.view (filled.settle id).view :=
    grows.trans ((maybeWiden_grows ..).trans (run.grows.trans (settle_grows ..)))
  have most : filled.out.length ≤ count := by
    have most : filled.out.length ≤ filling.out.length + (count - filling.out.length) := run.most
    omega
  cases run.filled with
  | more longer kept sound used =>
    have longer := progress.resolve_right fun turned => turned kept
    have sound := sound.settle fun _ => used (.inr longer)
    exact ⟨.settled sound, grown, most, longer.le, .inl ⟨longer, kept⟩⟩
  | turned longer once spare idle front ready behind =>
    have same : filled.settle id = filled := by
      rw [Filling.settle, Slabs.settle, behind]
      rfl
    have still : filled.out.length < filling.out.length + (count - filling.out.length) :=
      run.short (by rw [once.1, once.2]; exact nofun)
    have steady : terms.Steady env spare filled.view := fun two =>
      .inr ((grows.trans (maybeWiden_grows env _ id view)).warm warm two spare (.inl idle))
    rw [same] at grown ⊢
    exact ⟨.turned (by omega) spare front ready steady, grown, most, longer, .inr once⟩

/-- The loop ends within one round for each object still to get and one for the redirect. -/
theorem fillAll_sound {rounds : Nat} (between : Between terms env count rest filling)
    (answers : terms.Answers env filling.view.slab.sizeClass)
    (warm : terms.Warm env filling.view) (within : filling.out.length ≤ count)
    (enough : count - filling.out.length + (if filling.redirected then 0 else 1) ≤ rounds) :
    ∃ r, fillAll env count rounds filling = some r ∧
      Sound terms none r.view (r.out ++ rest) ∧ Grows filling.view r.view ∧
      r.out.length ≤ count := by
  induction rounds generalizing filling with
  | zero =>
    have done : ¬ filling.out.length < count := by omega
    cases between with
    | settled sound => exact ⟨filling, if_neg done, sound, .refl _, within⟩
    | turned short => exact absurd short done
  | succ rounds ih =>
    unfold fillAll
    by_cases short : filling.out.length < count
    · rw [if_pos short]
      cases found : frontSpan env filling.out.length filling.view with
      | none => exact ⟨filling, rfl, between.no_front found, .refl _, within⟩
      | some front =>
        obtain ⟨id, view⟩ := front
        obtain ⟨next, grows, most, longer, progress⟩ :=
          round_between between answers warm short found
        generalize moved : (fill env id (count - filling.out.length)
          (filling.widen env id view)).settle id = s' at next grows most longer progress
        have fewer : count - s'.out.length + (if s'.redirected then 0 else 1) ≤ rounds := by
          rcases progress with ⟨further, same⟩ | ⟨pre, now⟩
          · rw [same]
            omega
          · rw [pre] at enough
            rw [now]
            simp only [if_true, if_false, Bool.false_eq_true] at enough ⊢
            omega
        rw [← grows.sizeClass] at answers
        obtain ⟨r, ran, sound, further, few⟩ :=
          ih next answers (grows.warm warm) most fewer
        refine ⟨r, ?_, sound, grows.trans further, few⟩
        rw [← ran, ← moved]
        rfl
    · rw [if_neg short]
      cases between with
      | settled sound => exact ⟨filling, rfl, sound, .refl _, within⟩
      | turned still => exact absurd still short

theorem allocateBatch_sound {rest : List Object}
    (resolved : ∀ entries ∈ view.slab.pending, ∀ entry ∈ entries, entry.resolved = true)
    (sound : Sound terms none view (view.slab.pending.flatten.map Entry.object ++ rest))
    (answers : terms.Answers env view.slab.sizeClass) (warm : terms.Warm env (drainPending view)) :
    ∃ objects s', allocateBatch env count view = some (objects, s') ∧
      Sound terms none s' (objects ++ rest) ∧ Grows (drainPending view) s' ∧
      objects.length ≤ count := by
  have drained := drainPending_sound resolved sound
  have frames := drainPending_frames view
  have answers : terms.Answers env (drainPending view).slab.sizeClass := by
    rw [frames.sizeClass]
    exact answers
  have between : Between terms env count rest { view := drainPending view } := .settled drained
  obtain ⟨r, ran, s', grows, few⟩ :=
    fillAll_sound between answers warm (Nat.zero_le count) le_rfl
  refine ⟨r.out, r.view, ?_, s', grows, few⟩
  unfold allocateBatch
  exact congrArg (Option.map _) ran

end Rounds

section Single

variable {terms : Terms} {env : Env} {view s' : View} {out rest : List Object} {id : SpanId}

structure Served (terms : Terms) (rest : List Object) (view : View)
    (result : Option Object × View) : Prop where
  sound : Sound terms none result.2 (result.1.toList ++ rest)
  grows : Grows view result.2

theorem Ready.serve {slot : Nat} (ready : Ready terms id view out)
    (free : (view.span id).bitmap slot = true) : Served terms out view
      (some ⟨id, slot⟩, settle id (view.setSpan id (takeSlot (view.span id) slot))) where
  sound := (ready.sound.take free).1.settle fun _ => (ready.sound.take free).2
  grows := (setSpan_grows ..).trans (settle_grows ..)

theorem allocatePartial_served {others : List SpanId} (sound : Sound terms none view rest)
    (answers : terms.Answers env view.slab.sizeClass) (front : view.slab.partials = id :: others) :
    Served terms rest view (allocatePartial env id view) := by
  have listed : id ∈ view.slab.partials := front ▸ mem_cons_self
  have fits := sound.fits .partials id listed nofun
  have start : Ready terms id view rest := ⟨sound.focusOn listed, fits.1⟩
  have ready := maybeWiden_ready start answers 0
  have used : 2 ≤ terms.least → ((maybeWiden env 0 id view).span id).empty = false := fun two =>
    (maybeWiden_empty start.sound).trans (fits.2.2 two)
  have grows := maybeWiden_grows env 0 id view
  unfold allocatePartial
  dsimp only
  generalize maybeWiden env 0 id view = wide at *
  have spec := allocateWarm_spec (env.classify 0 id) (wide.span id)
  generalize found : allocateWarm (env.classify 0 id) (wide.span id) = r at spec
  rcases r with ⟨_ | slot, fallback, span⟩
  · obtain ⟨-, free, -⟩ := spec
    have any := allocateWarm_none ready.sound.focus_balanced ready.free found
    dsimp only
    rw [if_pos any]
    split
    next spare more idle =>
      obtain ⟨turned, -, -⟩ := redirect_ready ready.sound ready.free used idle
      obtain ⟨slot, set, taken⟩ := turned.sound.focus_balanced.allocate_some turned.free
        (env.classify 0 spare)
      unfold allocateFrom
      rw [taken]
      have further := grows.trans ((rotate_grows id wide).trans (promote_grows idle))
      exact ⟨(turned.serve set).sound, further.trans (turned.serve set).grows⟩
    next =>
      have consumed := consumeFallback_spec free
      unfold consumeFrom
      generalize consumeFallback fallback (wide.span id) = r at consumed
      rcases r with ⟨_ | slot, span⟩
      · cases any.symm.trans consumed.2
      · obtain ⟨set, rfl⟩ := consumed
        exact ⟨(ready.serve set).sound, grows.trans (ready.serve set).grows⟩
  · obtain ⟨free, rfl⟩ := spec
    exact ⟨(ready.serve free).sound, grows.trans (ready.serve free).grows⟩

def View.pushFront (view : View) (id : SpanId) : View :=
  { view with slab := { view.slab with partials := id :: view.slab.partials } }

/-- Pushing the span on the list it belongs to after the slot is taken comes to the same as
pushing it on `partial_` first. -/
theorem settle_pushFront (span : Span) (no_partials : view.slab.partials = []) :
    settle id ((view.pushFront id).setSpan id span) =
      if span.full then
        { view.setSpan id span with
          slab := { (view.setSpan id span).slab with full := id :: view.slab.full } }
      else (view.setSpan id span).pushFront id := by
  unfold settle
  rw [setSpan_span]
  split_ifs
  · simp only [View.setSpan, View.pushFront, no_partials, erase_cons_head]
  · rfl

theorem allocateFrom_pushFront (env : Env) (ready : Ready terms id (view.pushFront id) rest)
    (no_partials : view.slab.partials = []) :
    Served terms rest (view.pushFront id)
      (let (object, s') := allocateFrom env 0 id view
      if (s'.span id).full then
        (object, { s' with slab := { s'.slab with full := id :: s'.slab.full } })
      else (object, s'.pushFront id)) := by
  obtain ⟨slot, set, taken⟩ := ready.sound.focus_balanced.allocate_some ready.free
    (env.classify 0 id)
  have served := ready.serve set
  change SpanSlots.allocate (env.classify 0 id) (view.span id) =
    (some slot, takeSlot (view.span id) slot) at taken
  change Served terms rest (view.pushFront id) (some ⟨id, slot⟩,
    settle id ((view.pushFront id).setSpan id (takeSlot (view.span id) slot))) at served
  rw [settle_pushFront _ no_partials] at served
  unfold allocateFrom
  rw [taken]
  dsimp only
  rw [setSpan_span]
  split_ifs at served ⊢
  · exact served
  · exact served

theorem allocate_served
    (resolved : ∀ entries ∈ view.slab.pending, ∀ entry ∈ entries, entry.resolved = true)
    (sound : Sound terms none view (view.slab.pending.flatten.map Entry.object ++ rest))
    (answers : terms.Answers env view.slab.sizeClass) :
    Served terms rest (drainPending view) (allocate env view) := by
  have drained := drainPending_sound resolved sound
  have answers : terms.Answers env (drainPending view).slab.sizeClass := by
    rw [(drainPending_frames view).sizeClass]
    exact answers
  unfold allocate
  dsimp only
  generalize drainPending view = view at *
  split
  next front => exact allocatePartial_served drained answers front
  next no_partials =>
    cases idle : view.slab.empty with
    | nil =>
      dsimp only
      cases new : allocateNewSpan env 0 view with
      | none => exact ⟨drained, .refl view⟩
      | some found =>
        obtain ⟨id, s'⟩ := found
        have lists : s'.slab.partials = [] := by
          unfold allocateNewSpan at new
          dsimp only at new
          split_ifs at new
          cases new
          exact no_partials
        have served := allocateFrom_pushFront env
          (allocateNewSpan_ready drained answers new) lists
        exact ⟨served.sound, (allocateNewSpan_grows new).2.trans served.grows⟩
    | cons spare more =>
      have lists := (clearResident_lists spare
        { view with slab := { view.slab with empty := more } }).1.trans no_partials
      have served := allocateFrom_pushFront env (promote_ready drained idle) lists
      exact ⟨served.sound, (promote_grows idle).trans served.grows⟩

end Single

end Smash.Slabs
