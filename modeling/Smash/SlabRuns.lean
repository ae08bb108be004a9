import Smash.SlabAllocate
import Mathlib.Data.Fintype.Basic

/-! Any number of slabs that share the counters, and any sequence of calls on them. The objects a
slab has handed out are with its callers, in its queue of deferred frees or in its magazines. -/
namespace Smash.Slabs

open SpanSlots Transition Function List

section Model

variable {ι : Type} [DecidableEq ι]

structure Heap (ι : Type) where
  slabs : ι → Slab
  resident : Resident
  held : ι → List Object

inductive Op where
  | allocate (env : Env)
  | allocateBatch (env : Env) (count : Nat)
  | deallocate (object : Object)
  | deallocateBatch (objects : List Object)
  | deallocateBatchResolved (objects : List Object)
  | deallocateBatchDeferred (objects : List Object) (tryLock : Bool)
  | drainPending
  | allocateBatchMag
  | deallocateBatchMag (objects : List Object)
  | drainMagazines
  | purgeResidentEmpty (now : Nat)
  | scavenge (magazineEnabled : Bool)

def giveUp (objects held : List Object) (view : View) : Option (View × List Object) :=
  if objects.Subperm held then some (view, held.diff objects) else none

def act (view : View) (held : List Object) : Op → Option (View × List Object)
  | .allocate env =>
    let (object, s') := allocate env view
    some (s', object.toList ++ held)
  | .allocateBatch env count =>
    (allocateBatch env count view).map fun (objects, s') => (s', objects ++ held)
  | .deallocate object => giveUp [object] held (deallocate object view)
  | .deallocateBatch objects => giveUp objects held (deallocateBatch objects view)
  | .deallocateBatchResolved objects =>
    giveUp objects held (deallocateBatchResolved (objects.map (resolve view.slab)) view)
  | .deallocateBatchDeferred objects tryLock =>
    giveUp objects held
      (deallocateBatchDeferred (objects.map (resolve view.slab)) tryLock view)
  | .drainPending => some (drainPending view, held)
  | .allocateBatchMag =>
    let (objects, s') := magazinePop view
    some (s', objects ++ held)
  | .deallocateBatchMag objects =>
    match magazinePush (objects.map (resolve view.slab)) view with
    | (true, s') => giveUp objects held s'
    | (false, s') => some (s', held)
  | .drainMagazines => some (drainMagazines view, held)
  | .purgeResidentEmpty now => some (purgeResidentEmpty now view, held)
  | .scavenge magazineEnabled => some (scavenge magazineEnabled view, held)

inductive Label (ι : Type) where
  /-- A call, with what its loads of the shared byte counter return if another slab's call races
  with it. -/
  | call (slab : ι) (op : Op) (loads : List Nat)
  | advanceTick

def step (heap : Heap ι) : Label ι → Option (Heap ι)
  | .call i op loads =>
    (act ⟨heap.slabs i, { heap.resident with loads := loads }⟩ (heap.held i) op).map
      fun (s', held) =>
        { slabs := update heap.slabs i s'.slab
          resident := { s'.resident with loads := [] }
          held := update heap.held i held }
  | .advanceTick => some { heap with resident := advanceTick heap.resident }

/-- Slabs without spans, of any classes and with any settings. -/
def start (classes : ι → SizeClass) (caps : ι → Nat) (capFns : ι → Bool) (maxBytes : Nat) :
    Heap ι :=
  { slabs := fun i => init (classes i) (caps i) (capFns i)
    resident := { maxBytes := maxBytes, bytes := 0, tick := 0 }
    held := fun _ => [] }

end Model

section Stock

variable {terms : Terms} {view s' : View} {held : List Object}

def queued (queue : List (List Entry)) : List Object := queue.flatten.map Entry.object

/-- The slab is sound for the objects its callers and its queues hold. -/
structure Stocked (terms : Terms) (view : View) (held : List Object) : Prop where
  sound : Sound terms none view
    (queued view.slab.pending ++ (queued view.slab.magazines ++ held))
  pending : ∀ entries ∈ view.slab.pending, ∀ entry ∈ entries, entry.resolved = true
  magazines : ∀ entries ∈ view.slab.magazines, ∀ entry ∈ entries, entry.resolved = true
  limit : view.resident.maxBytes = terms.limit

/-- The answers a call is given allow what the invariant needs. -/
def Terms.Allows (terms : Terms) (view : View) : Op → Prop
  | .allocate env => terms.Answers env view.slab.sizeClass
  | .allocateBatch env _ =>
    terms.Answers env view.slab.sizeClass ∧ terms.Warm env (drainPending view)
  | _ => True

theorem queued_cons (entries : List Entry) (queue : List (List Entry)) :
    queued (entries :: queue) = entries.map Entry.object ++ queued queue := by
  rw [queued, flatten_cons, map_append]
  rfl

theorem Stocked.of_drained {left : List Object} (stocked : Stocked terms view held)
    (frames : Frames (drainPending view) s')
    (sound : Sound terms none s' (queued view.slab.magazines ++ left)) :
    Stocked terms s' left := by
  have drained := drainPending_frames view
  have pending : s'.slab.pending = [] := frames.pending.trans drained.pending
  have magazines : s'.slab.magazines = view.slab.magazines :=
    frames.magazines.trans drained.magazines
  constructor
  · rw [pending, magazines]
    exact sound
  · rw [pending]
    exact nofun
  · rw [magazines]
    exact stocked.magazines
  · exact (frames.maxBytes.trans drained.maxBytes).trans stocked.limit

theorem Stocked.of_frames {left : List Object} (stocked : Stocked terms view held)
    (frames : Frames view s') (sound : Sound terms none s'
      (queued view.slab.pending ++ (queued view.slab.magazines ++ left))) :
    Stocked terms s' left := by
  constructor
  · rw [frames.pending, frames.magazines]
    exact sound
  · rw [frames.pending]
    exact stocked.pending
  · rw [frames.magazines]
    exact stocked.magazines
  · exact frames.maxBytes.trans stocked.limit

variable {objects left : List Object}

theorem giveUp_spec {r : View × List Object}
    (given : giveUp objects held s' = some r) :
    r.1 = s' ∧ (objects ++ r.2).Perm held := by
  unfold giveUp at given
  split_ifs at given with owned
  cases given
  exact ⟨rfl, subperm_append_diff_self_of_count_le fun object _ => owned.count_le object⟩

theorem Stocked.isolate (stocked : Stocked terms view held) (owned : (objects ++ left).Perm held) :
    Sound terms none view
      (objects ++ (queued view.slab.pending ++ (queued view.slab.magazines ++ left))) := by
  refine stocked.sound.perm ?_
  have moved := (owned.symm.append_left (queued view.slab.magazines)).append_left
    (queued view.slab.pending)
  refine moved.trans ?_
  refine (List.Perm.append_left _ (perm_append_comm_assoc _ objects left)).trans ?_
  exact perm_append_comm_assoc ..

theorem Stocked.resolved (stocked : Stocked terms view held) (owned : (objects ++ left).Perm held) :
    ∀ entry ∈ objects.map (resolve view.slab), entry.resolved = true := by
  intro entry mem
  obtain ⟨object, listed, rfl⟩ := mem_map.mp mem
  have out := (stocked.isolate owned).mapped object (mem_append_left _ listed)
  exact decide_eq_true out

theorem map_resolve (slab : Slab) (objects : List Object) :
    (objects.map (resolve slab)).map Entry.object = objects := by
  rw [map_map]
  exact map_id objects

theorem deallocate_frames (object : Object) (view : View) :
    Frames view (deallocate object view) := by
  unfold deallocate
  dsimp only
  split_ifs <;> exact ⟨rfl, rfl, rfl, rfl, rfl, rfl⟩

theorem deallocateBatch_frames (objects : List Object) (view : View) :
    Frames view (deallocateBatch objects view) := by
  refine foldl_frames (fun view object => ?_) objects view
  split_ifs
  · exact deallocateOne_frames object view
  · exact .refl view

section

variable (stocked : Stocked terms view held)
include stocked

theorem Stocked.drained :
    Sound terms none (drainPending view) (queued view.slab.magazines ++ held) :=
  drainPending_sound stocked.pending stocked.sound

theorem Stocked.applied (owned : (objects ++ left).Perm held) :
    Stocked terms (deallocateBatchResolved (objects.map (resolve view.slab)) view) left := by
  refine stocked.of_drained (deallocateEntries_frames _ _) ?_
  refine deallocateEntries_sound (stocked.resolved owned) ?_
  rw [map_resolve]
  refine stocked.drained.perm ?_
  refine (owned.symm.append_left _).trans ?_
  exact perm_append_comm_assoc ..

theorem Stocked.pushed (owned : (objects ++ left).Perm held) :
    Stocked terms (pushPending (objects.map (resolve view.slab)) view) left := by
  refine ⟨?_, ?_, stocked.magazines, stocked.limit⟩
  · have sound := (stocked.isolate owned).requeue
      (objects.map (resolve view.slab) :: view.slab.pending) view.slab.magazines
    change Sound terms none _ (queued (objects.map (resolve view.slab) :: view.slab.pending) ++ _)
    rw [queued_cons, map_resolve, append_assoc]
    exact sound
  · exact forall_mem_cons.mpr ⟨stocked.resolved owned, stocked.pending⟩

theorem Stocked.stashed (owned : (objects ++ left).Perm held) {magazines : List (List Entry)}
    (pushed : magazines = objects.map (resolve view.slab) :: view.slab.magazines) :
    Stocked terms { view with slab := { view.slab with magazines := magazines } } left := by
  subst pushed
  refine ⟨?_, stocked.pending, ?_, stocked.limit⟩
  · have sound := stocked.sound.requeue view.slab.pending
      (objects.map (resolve view.slab) :: view.slab.magazines)
    change Sound terms none _
      (_ ++ (queued (objects.map (resolve view.slab) :: view.slab.magazines) ++ left))
    rw [queued_cons, map_resolve, append_assoc]
    refine sound.perm ((List.Perm.append_left _ ?_))
    refine (owned.symm.append_left _).trans ?_
    exact perm_append_comm_assoc ..
  · exact forall_mem_cons.mpr ⟨stocked.resolved owned, stocked.magazines⟩

theorem Stocked.popped : Stocked terms (magazinePop view).2 ((magazinePop view).1 ++ held) := by
  unfold magazinePop
  split
  next => exact stocked
  next entries rest full =>
    have sound := stocked.sound.requeue view.slab.pending rest
    have resolved := stocked.magazines
    rw [full] at sound resolved
    rw [queued_cons, append_assoc] at sound
    refine ⟨?_, stocked.pending, (forall_mem_cons.mp resolved).2, stocked.limit⟩
    exact sound.perm (List.Perm.append_left _ (perm_append_comm_assoc ..))

theorem Stocked.emptied : Stocked terms (drainMagazines view) held := by
  have frames := drainMagazines_frames view
  have none_left : (drainMagazines view).slab.magazines = [] := frames.magazines
  have pending : (drainMagazines view).slab.pending = view.slab.pending := frames.pending
  refine ⟨?_, ?_, ?_, frames.maxBytes.trans stocked.limit⟩
  · rw [none_left, pending]
    refine drainMagazines_sound stocked.magazines ?_
    exact stocked.sound.perm (perm_append_comm_assoc ..)
  · rw [pending]
    exact stocked.pending
  · rw [none_left]
    exact nofun

theorem Stocked.drain : Stocked terms (drainPending view) held :=
  stocked.of_drained (.refl _) stocked.drained

theorem Stocked.released : Stocked terms (releaseEmpties view.slab.empty view) held :=
  stocked.of_frames (releaseEmpties_frames _ _) (releaseEmpties_sound stocked.sound rfl).1

theorem Stocked.scavenged (magazineEnabled : Bool) :
    Stocked terms (scavenge magazineEnabled view) held := by
  unfold scavenge
  dsimp only
  split_ifs
  · exact stocked.drain.emptied.released
  · exact stocked.drain.released

theorem Stocked.allocated {env : Env} (answers : terms.Answers env view.slab.sizeClass) :
    Stocked terms (allocate env view).2 ((allocate env view).1.toList ++ held) := by
  have served := allocate_served stocked.pending stocked.sound answers
  refine stocked.of_drained served.grows.toFrames ?_
  exact served.sound.perm (perm_append_comm_assoc ..)

theorem Stocked.allocatedBatch {env : Env} (count : Nat)
    (answers : terms.Answers env view.slab.sizeClass) (warm : terms.Warm env (drainPending view)) :
    ∃ objects s', allocateBatch env count view = some (objects, s') ∧
      Stocked terms s' (objects ++ held) := by
  obtain ⟨objects, s', ran, sound, grows, -⟩ :=
    allocateBatch_sound stocked.pending stocked.sound answers warm
  refine ⟨objects, s', ran, stocked.of_drained grows.toFrames ?_⟩
  exact sound.perm (perm_append_comm_assoc ..)

theorem act_stocked {op : Op} {r : View × List Object}
    (allows : terms.Allows view op) (acted : act view held op = some r) :
    Stocked terms r.1 r.2 := by
  obtain ⟨s', left⟩ := r
  cases op with
  | allocate env =>
    cases acted
    exact stocked.allocated allows
  | allocateBatch env count =>
    obtain ⟨objects, s', ran, stocked⟩ := stocked.allocatedBatch count allows.1 allows.2
    rw [act, ran] at acted
    cases acted
    exact stocked
  | deallocate object =>
    obtain ⟨rfl, owned⟩ := giveUp_spec acted
    exact stocked.of_frames (deallocate_frames ..) (deallocate_sound (stocked.isolate owned))
  | deallocateBatch objects =>
    obtain ⟨rfl, owned⟩ := giveUp_spec acted
    exact stocked.of_frames (deallocateBatch_frames ..)
      (deallocateBatch_sound (stocked.isolate owned))
  | deallocateBatchResolved objects =>
    obtain ⟨rfl, owned⟩ := giveUp_spec acted
    exact stocked.applied owned
  | deallocateBatchDeferred objects tryLock =>
    obtain ⟨same, owned⟩ := giveUp_spec acted
    change s' = _ at same
    rw [same]
    unfold deallocateBatchDeferred
    split_ifs with nothing short locked
    · rw [map_eq_nil_iff] at nothing
      subst nothing
      exact stocked.of_frames (.refl _) (stocked.isolate owned)
    · exact stocked.applied owned
    · exact stocked.pushed owned
    · exact stocked.applied owned
  | drainPending =>
    cases acted
    exact stocked.drain
  | allocateBatchMag =>
    cases acted
    exact stocked.popped
  | deallocateBatchMag objects =>
    unfold act magazinePush at acted
    split_ifs at acted
    · cases acted
      exact stocked
    · obtain ⟨rfl, owned⟩ := giveUp_spec acted
      exact stocked.stashed owned rfl
  | drainMagazines =>
    cases acted
    exact stocked.emptied
  | purgeResidentEmpty now =>
    cases acted
    exact stocked.of_frames (purgeResidentEmpty_frames ..)
      (purgeResidentEmpty_sound stocked.sound now)
  | scavenge magazineEnabled =>
    cases acted
    exact stocked.scavenged magazineEnabled

end

theorem Stocked.refit {slab : Slab} {resident j : Resident} {foreign : Nat}
    (stocked : Stocked terms ⟨slab, resident⟩ held)
    (bytes : j.bytes = foreign + slab.total flaggedBytes)
    (bounded : terms.serial → j.loads = [] ∧ j.bytes ≤ j.maxBytes)
    (limit : j.maxBytes = terms.limit) :
    Stocked { terms with foreign := foreign } ⟨slab, j⟩ held where
  sound :=
    { single := stocked.sound.single, fits := stocked.sound.fits, focused := nofun
      kept := fun id mem =>
        ⟨(stocked.sound.kept id mem).balanced, (stocked.sound.kept id mem).served,
          (stocked.sound.kept id mem).sized, (stocked.sound.kept id mem).known⟩
      mapped := stocked.sound.mapped
      capped := ⟨stocked.sound.capped.fits, stocked.sound.capped.enough⟩
      count := stocked.sound.count, bytes := bytes, bounded := bounded }
  pending := stocked.pending
  magazines := stocked.magazines
  limit := limit

theorem Terms.Allows.refit {op : Op} (allows : terms.Allows view op) (foreign : Nat) :
    Terms.Allows { terms with foreign := foreign } view op := by
  have answers : ∀ {env : Env}, terms.Answers env view.slab.sizeClass →
      Terms.Answers { terms with foreign := foreign } env view.slab.sizeClass := fun answers =>
    ⟨fun allocated => ⟨(answers.newCap allocated).fits, (answers.newCap allocated).enough⟩,
      answers.cap⟩
  cases op with
  | allocate env => exact answers allows
  | allocateBatch env count => exact ⟨answers allows.1, allows.2⟩
  | _ => trivial

end Stock

section Runs

variable {ι : Type} [DecidableEq ι] [Fintype ι]

def Heap.foreign (heap : Heap ι) (i : ι) : Nat :=
  ∑ j ∈ Finset.univ.erase i, (heap.slabs j).total flaggedBytes

theorem Heap.total_eq (heap : Heap ι) (i : ι) : ∑ j, (heap.slabs j).total flaggedBytes =
      heap.foreign i + (heap.slabs i).total flaggedBytes :=
  (Finset.sum_erase_add _ _ (Finset.mem_univ i)).symm

variable {terms : Terms} {heap next : Heap ι}

def Ordered (terms : Terms) (heap : Heap ι) : Prop :=
  ∀ i, Stocked { terms with foreign := heap.foreign i } ⟨heap.slabs i, heap.resident⟩ (heap.held i)

def Permitted (terms : Terms) (heap : Heap ι) : Label ι → Prop
  | .call i op loads =>
    (terms.serial → loads = []) ∧
      terms.Allows ⟨heap.slabs i, { heap.resident with loads := loads }⟩ op
  | .advanceTick => True

def Heap.put (heap : Heap ι) (i : ι) (s' : View) (left : List Object) : Heap ι :=
  { slabs := update heap.slabs i s'.slab
    resident := { s'.resident with loads := [] }
    held := update heap.held i left }

theorem Heap.put_foreign (heap : Heap ι) (i : ι) (s' : View) (left : List Object) :
    (heap.put i s' left).foreign i = heap.foreign i := by
  refine Finset.sum_congr rfl fun j mem => ?_
  have same : (heap.put i s' left).slabs j = heap.slabs j :=
    update_of_ne (Finset.ne_of_mem_erase mem) ..
  rw [same]

theorem Ordered.call {i : ι} {s' : View} {left : List Object} (ordered : Ordered terms heap)
    (stocked : Stocked { terms with foreign := heap.foreign i } s' left) :
    Ordered terms (heap.put i s' left) := by
  have here : (heap.put i s' left).slabs i = s'.slab := update_self ..
  have bytes : s'.resident.bytes = ∑ j, ((heap.put i s' left).slabs j).total flaggedBytes := by
    rw [(heap.put i s' left).total_eq i, heap.put_foreign, here]
    exact stocked.sound.bytes
  have bounded : terms.serial → ([] : List Nat) = [] ∧
      s'.resident.bytes ≤ s'.resident.maxBytes := fun serial =>
    ⟨rfl, (stocked.sound.bounded serial).2⟩
  intro j
  by_cases own : j = i
  · subst own
    have left_here : (heap.put j s' left).held j = left := update_self ..
    rw [here, left_here, heap.put_foreign]
    exact stocked.refit stocked.sound.bytes bounded stocked.limit
  · have same : (heap.put i s' left).slabs j = heap.slabs j := update_of_ne own ..
    have held : (heap.put i s' left).held j = heap.held j := update_of_ne own ..
    rw [same, held]
    refine (ordered j).refit ?_ bounded stocked.limit
    rw [← same, ← (heap.put i s' left).total_eq j]
    exact bytes

theorem step_ordered {label : Label ι} (ordered : Ordered terms heap)
    (permitted : Permitted terms heap label) (moved : step heap label = some next) :
    Ordered terms next := by
  cases label with
  | advanceTick =>
    cases moved
    intro i
    exact (ordered i).refit (ordered i).sound.bytes (ordered i).sound.bounded (ordered i).limit
  | call i op loads =>
    obtain ⟨serial, allows⟩ := permitted
    obtain ⟨⟨s', left⟩, acted, rfl⟩ := Option.map_eq_some_iff.mp moved
    have pre : Stocked { terms with foreign := heap.foreign i }
        ⟨heap.slabs i, { heap.resident with loads := loads }⟩ (heap.held i) :=
      (ordered i).refit (ordered i).sound.bytes
        (fun alone => ⟨serial alone, ((ordered i).sound.bounded alone).2⟩) (ordered i).limit
    have stocked := act_stocked pre (allows.refit _) acted
    exact .call ordered stocked

theorem start_ordered {classes : ι → SizeClass} {caps : ι → Nat} {capFns : ι → Bool}
    (limited : ∀ i, terms.Caps (classes i) (caps i)) :
    Ordered terms (start classes caps capFns terms.limit) := by
  intro i
  have nothing : ∀ j, ((start classes caps capFns terms.limit).slabs j).total flaggedBytes = 0 :=
    fun _ => rfl
  refine ⟨⟨fun _ => rfl, fun place => ?_, nofun, nofun, nofun, ⟨(limited i).fits, (limited i).enough⟩,
    rfl, ?_, fun _ => ⟨rfl, Nat.zero_le _⟩⟩, nofun, nofun, rfl⟩
  · cases place <;> exact nofun
  · rw [nothing, Nat.add_zero]
    exact (Finset.sum_eq_zero fun j _ => nothing j).symm

end Runs

section Order

def Slab.flagged (slab : Slab) : Finset SpanId :=
  slab.mapped.filter fun id => (slab.spans id).residentEmpty

/-- Each span is on one list, the one its counters call for, and what is flagged is counted;
`out` are the objects handed out and not yet given back. -/
structure InOrder (slab : Slab) (out : List Object) : Prop where
  single : ∀ id, slab.places id = if id ∈ slab.mapped then 1 else 0
  full : ∀ id ∈ slab.mapped,
    id ∈ slab.full ↔ (slab.spans id).allocatedCount = (slab.spans id).objectCount
  partials : ∀ id ∈ slab.partials,
    ∃ slot < (slab.spans id).numWords * 64, (slab.spans id).bitmap slot = true
  empty : ∀ id ∈ slab.empty,
    (slab.spans id).allocatedCount = 0 ∧ ∀ object ∈ out, object.span ≠ id
  flagged : ∀ id ∈ slab.flagged, id ∈ slab.empty
  count : slab.residentEmptyCount = slab.flagged.card

variable {terms : Terms} {view : View} {out : List Object}

theorem total_flag (slab : Slab) : slab.total flag = slab.flagged.card :=
  ((Finset.card_eq_sum_ones _).trans (Finset.sum_filter _ _)).symm

theorem total_flaggedBytes (slab : Slab) :
    slab.total flaggedBytes = ∑ id ∈ slab.flagged, Span.bytes (slab.spans id) :=
  (Finset.sum_filter _ _).symm

theorem Sound.exists_place {id : SpanId} (sound : Sound terms none view out)
    (mem : id ∈ view.slab.mapped) : ∃ place, id ∈ view.slab.list place := by
  by_contra nowhere
  have absent : ∀ place, (view.slab.list place).count id = 0 := fun place =>
    count_eq_zero.mpr fun listed => nowhere ⟨place, listed⟩
  have single := sound.single id
  have partials := absent .partials
  have full := absent .full
  have empty := absent .empty
  rw [if_pos mem, Slab.places] at single
  simp only [Slab.list] at partials full empty
  omega

theorem Sound.inOrder (sound : Sound terms none view out) : InOrder view.slab out where
  single := sound.single
  full id mem := by
    constructor
    · exact fun listed => beq_iff_eq.mp (sound.fits .full id listed nofun).1
    · intro all
      have filled : (view.span id).full = true := beq_iff_eq.mpr all
      obtain ⟨place, listed⟩ := sound.exists_place mem
      cases place with
      | partials => cases filled.symm.trans (sound.fits .partials id listed nofun).1
      | full => exact listed
      | empty => cases filled.symm.trans (sound.empty_span listed).2.2
  partials id listed := by
    have kept := sound.kept id (sound.listed_mapped .partials listed)
    exact kept.balanced.exists_free (sound.fits .partials id listed nofun).1
  empty id listed := by
    obtain ⟨zero, none_out, -⟩ := sound.empty_span listed
    refine ⟨zero, fun object mem own => ?_⟩
    subst own
    have slot : object.slot ∈ slotsIn out object.span := mem_slotsIn.mpr mem
    rw [none_out] at slot
    cases slot
  flagged id mem := by
    obtain ⟨mapped, flagged⟩ := Finset.mem_filter.mp mem
    have flagged : (view.span id).residentEmpty = true := flagged
    obtain ⟨place, listed⟩ := sound.exists_place mapped
    cases place with
    | partials => cases flagged.symm.trans (sound.fits .partials id listed nofun).2.1
    | full => cases flagged.symm.trans (sound.fits .full id listed nofun).2
    | empty => exact listed
  count := sound.count.trans (total_flag _)

variable {ι : Type} [DecidableEq ι] [Fintype ι] {heap : Heap ι}

/-- What is handed out and not yet given back: with callers, queued or in magazines. -/
def Heap.handedOut (heap : Heap ι) (i : ι) : List Object :=
  queued (heap.slabs i).pending ++ (queued (heap.slabs i).magazines ++ heap.held i)

def Env.CapsBelow (env : Env) : Prop :=
  (∀ allocated, env.newCap allocated < word16) ∧ ∀ allocated id, env.cap allocated id < word16

def CapsBelow : Label ι → Prop
  | .call _ (.allocate env) _ | .call _ (.allocateBatch env _) _ => env.CapsBelow
  | _ => True

/-- No other call changes the byte counter while this one runs. -/
def Serialised : Label ι → Prop
  | .call _ _ loads => loads = []
  | .advanceTick => True

theorem init_capacity (pages : Nat) (sc : SizeClass) (cap : Nat) :
    (SpanSlots.init pages sc cap).fullCapacity = pages * kPageSize / classSize sc % word32 := by
  unfold SpanSlots.init
  dsimp only
  by_cases active : 0 < cap ∧ classSize sc < kPageSize
  · rw [if_pos active]
  · rw [if_neg active]

theorem classCapacity_pos (sc : SizeClass) :
    0 < classPages sc * kPageSize / classSize sc % word32 := by
  revert sc
  decide

theorem caps_below {sc : SizeClass} {cap : Nat} (one : terms.least = 1)
    (below : cap < word16) : terms.Caps sc cap := by
  have fits : Fits (classSize sc) cap := .inl below
  refine ⟨fits, ?_⟩
  have bal := newSpan_balanced fits
  have capacity := init_capacity (classPages sc) sc cap
  have some := classCapacity_pos sc
  have first : (SpanSlots.init (classPages sc) sc cap).bitmap 0 = true := by
    refine (bal.marks 0).mpr ⟨⟨capacity ▸ some, ?_⟩, not_mem_nil⟩
    omega
  have room : (SpanSlots.init (classPages sc) sc cap).allocatedCount ≠
      (SpanSlots.init (classPages sc) sc cap).objectCount :=
    beq_eq_false_iff_ne.mp (bal.not_full first)
  have fresh : (SpanSlots.init (classPages sc) sc cap).allocatedCount = 0 := bal.allocated
  omega

theorem Env.CapsBelow.answers {env : Env} (below : env.CapsBelow) (one : terms.least = 1)
    (sizeClass : SizeClass) : terms.Answers env sizeClass :=
  ⟨fun allocated => caps_below one (below.1 allocated), fun allocated id => .inl (below.2 allocated id)⟩

omit [DecidableEq ι] [Fintype ι] in
theorem CapsBelow.permitted {label : Label ι} (below : CapsBelow label) (one : terms.least = 1)
    (serial : terms.serial → Serialised label) (heap : Heap ι) : Permitted terms heap label := by
  have cold : ∀ env view, terms.Warm env view := fun _ _ two => absurd two (by omega)
  cases label with
  | advanceTick => trivial
  | call i op loads =>
    refine ⟨serial, ?_⟩
    cases op with
    | allocate env => exact Env.CapsBelow.answers below one _
    | allocateBatch env count => exact ⟨Env.CapsBelow.answers below one _, cold _ _⟩
    | _ => trivial

/-- In every state any calls lead to, each span is on the list its counters call for, what is
flagged is counted in bytes and in number, calls one at a time stay below the cap on resident
bytes, and a further batch allocation comes to an end. -/
theorem slabs_in_order [Nonempty ι] {classes : ι → SizeClass} {caps : ι → Nat} {capFns : ι → Bool}
    {maxBytes : Nat} {labels : List (Label ι)} {heap : Heap ι} (below : ∀ i, caps i < word16)
    (capped : ∀ label ∈ labels, CapsBelow label)
    (ran : exec step (start classes caps capFns maxBytes) labels = some heap) :
    (∀ i, InOrder (heap.slabs i) (heap.handedOut i)) ∧ heap.resident.bytes =
        ∑ i, ∑ id ∈ (heap.slabs i).flagged, Span.bytes ((heap.slabs i).spans id) ∧
      ((∀ label ∈ labels, Serialised label) → heap.resident.bytes ≤ maxBytes) ∧
      ∀ i env count, env.CapsBelow →
        (allocateBatch env count ⟨heap.slabs i, heap.resident⟩).isSome := by
  let terms : Terms := ⟨0, maxBytes, ∀ label ∈ labels, Serialised label, 1, le_rfl⟩
  have permitted : Along step (Permitted terms) (start classes caps capFns maxBytes) labels :=
    along_of_forall fun label mem heap =>
      (capped label mem).permitted rfl
        (fun serial : ∀ label ∈ labels, Serialised label => serial label mem) heap
  have ordered : Ordered terms heap :=
    invariant_of_along step_ordered (start_ordered fun i => caps_below rfl (below i)) permitted ran
  refine ⟨fun i => (ordered i).sound.inOrder, ?_, fun serial => ?_, fun i env count below => ?_⟩
  · obtain ⟨i⟩ : Nonempty ι := inferInstance
    rw [(ordered i).sound.bytes]
    exact (heap.total_eq i).symm.trans (Finset.sum_congr rfl fun j _ => total_flaggedBytes _)
  · obtain ⟨i⟩ : Nonempty ι := inferInstance
    exact ((ordered i).sound.bounded serial).2.trans_eq (ordered i).limit
  · have answers : Terms.Answers { terms with foreign := heap.foreign i } env
        (heap.slabs i).sizeClass := Env.CapsBelow.answers below rfl _
    have warm : ∀ view, Terms.Warm { terms with foreign := heap.foreign i } env view := fun _ two =>
      absurd two (Nat.not_succ_le_self 1)
    obtain ⟨objects, s', ran, -⟩ := (ordered i).allocatedBatch count answers (warm _)
    rw [ran]
    rfl

/-- Three objects of the largest class, two of which come back in a batch. -/
theorem slabs_in_order_after_batch :
    let env : Env := ⟨fun _ _ _ => .warm, fun _ _ => 0, fun _ => 0, fun _ => true⟩
    let labels : List (Label Unit) :=
      [.call () (.allocateBatch env 3) [],
        .call () (.deallocateBatchResolved [⟨0, 1⟩, ⟨0, 0⟩]) [], .advanceTick]
    ∃ heap, exec step (start (fun _ => ⟨35, by decide⟩) (fun _ => 0) (fun _ => false) 65536)
        labels = some heap ∧
      InOrder (heap.slabs ()) (heap.handedOut ()) ∧ heap.resident.bytes = 32768 := by
  intro env labels
  have shown : (exec step (start (fun _ => ⟨35, by decide⟩) (fun _ => 0) (fun _ => false) 65536)
      labels).map (fun heap => heap.resident.bytes) = some 32768 := by
    decide +kernel
  obtain ⟨heap, ran, bytes⟩ := Option.map_eq_some_iff.mp shown
  have zero : 0 < word16 := by decide
  have below : ∀ label ∈ labels, CapsBelow label := by
    simp only [labels, forall_mem_cons]
    exact ⟨⟨fun _ => zero, fun _ _ => zero⟩, trivial, trivial, nofun⟩
  exact ⟨heap, ran, (slabs_in_order (fun _ => zero) below ran).1 (), bytes⟩

end Order

end Smash.Slabs
