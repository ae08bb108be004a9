import Smash.SlabRuns

/-! `scavenge` gives back the spans on `empty_` only. A span gets there when its last object is
freed while it is on `partial_`, so a span with one usable slot never does: it goes from `full_`
to `partial_` and stays there. -/
namespace Smash.Slabs

open SpanSlots Popcount Transition List

section TwoSlots

variable {cap : Nat} {sizeClass : SizeClass}

/-- The cap means the same once it is kept in 16 bits, and a new span of the class has two usable
slots. -/
def Roomy (sizeClass : SizeClass) (cap : Nat) : Prop :=
  Fits (classSize sizeClass) cap ∧ (cap = 1 → 64 < classSize sizeClass)

def Env.Roomy (env : Env) (sizeClass : SizeClass) : Prop :=
  (∀ allocated, Slabs.Roomy sizeClass (env.newCap allocated)) ∧
    ∀ allocated id, Fits (classSize sizeClass) (env.cap allocated id)

theorem init_currentCap (pages : Nat) (sizeClass : SizeClass) (cap : Nat) :
    (SpanSlots.init pages sizeClass cap).currentCap =
      if 0 < cap ∧ classSize sizeClass < kPageSize then cap % word16 else 0 := by
  unfold SpanSlots.init
  dsimp only
  by_cases active : 0 < cap ∧ classSize sizeClass < kPageSize
  · rw [if_pos active, if_pos active]
  · rw [if_neg active, if_neg active]

theorem classCapacity_two (sizeClass : SizeClass) :
    1 < classPages sizeClass * kPageSize / classSize sizeClass % word32 := by
  revert sizeClass
  decide

/-- Capped at one slot a page, spans of two and more pages have two. -/
theorem one_per_page (sizeClass : SizeClass) (large : 64 < classSize sizeClass) :
    2 ≤ (SpanSlots.init (classPages sizeClass) sizeClass 1).objectCount := by
  revert sizeClass
  decide +kernel

theorem two_le_slotsPerPage {size : Nat} (sized : 0 < size) (small : size < kPageSize) :
    2 ≤ slotsPerPage size := by
  rw [slotsPerPage, Nat.le_div_iff_mul_le sized]
  omega

theorem first_two (fits : Fits (classSize sizeClass) cap)
    (j : cap ≠ 1) {slot : Nat} (small : slot < 2) :
    (SpanSlots.init (classPages sizeClass) sizeClass cap).bitmap slot = true := by
  have bal := newSpan_balanced fits
  have capacity := init_capacity (classPages sizeClass) sizeClass cap
  have two := classCapacity_two sizeClass
  have stored := init_currentCap (classPages sizeClass) sizeClass cap
  have positive := (classSize_bounds sizeClass).1
  refine (bal.marks slot).mpr ⟨⟨by omega, ?_⟩, not_mem_nil⟩
  rw [stored]
  split_ifs with active
  · have two := two_le_slotsPerPage positive active.2
    rcases fits with low | none | many
    · rw [Nat.mod_eq_of_lt low]
      omega
    · exact .inl none
    · omega
  · exact .inl rfl

theorem Roomy.two_usable (roomy : Roomy sizeClass cap) :
    2 ≤ (SpanSlots.init (classPages sizeClass) sizeClass cap).objectCount := by
  by_cases one : cap = 1
  · subst one
    exact one_per_page sizeClass (roomy.2 rfl)
  · have bal := newSpan_balanced roomy.1
    have first := first_two roomy.1 one (show 0 < 2 by decide)
    have second := first_two roomy.1 one (show 1 < 2 by decide)
    generalize SpanSlots.init _ _ _ = span at bal first second ⊢
    -- taking slot 0 leaves a free slot
    have taken := takeSlot_balanced bal first
    have left : (takeSlot span 0).bitmap 1 = true :=
      (Function.update_of_ne Nat.one_ne_zero false span.bitmap).trans second
    have room : (takeSlot span 0).allocatedCount ≠ (takeSlot span 0).objectCount :=
      beq_eq_false_iff_ne.mp (taken.not_full left)
    have some := taken.counted
    have counted := taken.allocated
    rw [(takeSlot_shape span 0).objectCount] at room some
    rw [length_singleton] at counted
    omega

variable {terms : Terms}

theorem Roomy.caps (roomy : Roomy sizeClass cap)
    (two : terms.least = 2) : terms.Caps sizeClass cap :=
  ⟨roomy.1, two ▸ roomy.two_usable⟩

theorem Env.Roomy.answers {env : Env} (roomy : env.Roomy sizeClass)
    (two : terms.least = 2) : terms.Answers env sizeClass :=
  ⟨fun allocated => (roomy.1 allocated).caps two, roomy.2⟩

end TwoSlots

section Scavenge

variable {ι : Type} [DecidableEq ι] [Fintype ι] {terms : Terms} {heap : Heap ι}
variable {view : View}

structure Reclaimed (slab : Slab) : Prop where
  mapped : slab.mapped = ∅
  partials : slab.partials = []
  full : slab.full = []
  empty : slab.empty = []

/-- New spans have two usable slots, and while a batch is allocated, the pages of spans none of
whose objects is with a caller or in a magazine are classified warm. -/
def KeepsTwo (heap : Heap ι) : Label ι → Prop
  | .call i (.allocate env) _ => env.Roomy (heap.slabs i).sizeClass
  | .call i (.allocateBatch env _) _ => env.Roomy (heap.slabs i).sizeClass ∧
      ∀ id, (∀ object ∈ queued (heap.slabs i).magazines ++ heap.held i, object.span ≠ id) →
        ∀ allocated slot, env.classify allocated id slot = .warm
  | _ => True

theorem Sound.none_out {out : List Object} {id : SpanId} (sound : Sound terms none view out)
    (idle : id ∈ view.slab.empty ∨ id ∉ view.slab.mapped) : ∀ object ∈ out, object.span ≠ id := by
  intro object mem own
  subst own
  rcases idle with listed | absent
  · have slot : object.slot ∈ slotsIn out object.span := mem_slotsIn.mpr mem
    rw [(sound.empty_span listed).2.1] at slot
    cases slot
  · exact absent (sound.mapped object mem)

theorem KeepsTwo.permitted {label : Label ι} (ordered : Ordered terms heap)
    (keeps : KeepsTwo heap label) (two : terms.least = 2) (racing : ¬ terms.serial) :
    Permitted terms heap label := by
  cases label with
  | advanceTick => trivial
  | call i op loads =>
    refine ⟨fun serial => absurd serial racing, ?_⟩
    cases op with
    | allocate env => exact Env.Roomy.answers keeps two
    | allocateBatch env count =>
      have stocked : Stocked { terms with foreign := heap.foreign i }
          ⟨heap.slabs i, { heap.resident with loads := loads }⟩ (heap.held i) :=
        (ordered i).refit (ordered i).sound.bytes (fun serial => absurd serial racing)
          (ordered i).limit
      refine ⟨Env.Roomy.answers keeps.1 two, fun _ id idle => ?_⟩
      exact keeps.2 id (stocked.drained.none_out idle)
    | _ => trivial

theorem Sound.all_empty (sound : Sound terms none view []) (two : terms.least = 2) :
    view.slab.partials = [] ∧ view.slab.full = [] := by
  have unused : ∀ place, ∀ id ∈ view.slab.list place, (view.span id).allocatedCount = 0 ∧
      2 ≤ (view.span id).objectCount := by
    intro place id listed
    have kept := sound.kept id (sound.listed_mapped place listed)
    exact ⟨kept.balanced.allocated, two ▸ kept.served⟩
  constructor
  · refine eq_nil_iff_forall_not_mem.mpr fun id listed => ?_
    have fits := (sound.fits .partials id listed nofun).2.2 two.ge
    exact beq_eq_false_iff_ne.mp fits (unused .partials id listed).1
  · refine eq_nil_iff_forall_not_mem.mpr fun id listed => ?_
    have filled := beq_iff_eq.mp (sound.fits .full id listed nofun).1
    have counts := unused .full id listed
    omega

theorem Sound.reclaimed (sound : Sound terms none view []) (two : terms.least = 2)
    (released : view.slab.empty = []) : Reclaimed view.slab := by
  obtain ⟨partials, full⟩ := sound.all_empty two
  refine ⟨Finset.eq_empty_of_forall_notMem fun id mem => ?_, partials, full, released⟩
  obtain ⟨place, listed⟩ := sound.exists_place mem
  cases place with
  | partials =>
    rw [Slab.list, partials] at listed
    cases listed
  | full =>
    rw [Slab.list, full] at listed
    cases listed
  | empty =>
    rw [Slab.list, released] at listed
    cases listed

theorem Stocked.scavenge_sound (stocked : Stocked terms view []) {magazineEnabled : Bool}
    (drained : magazineEnabled = true ∨ queued view.slab.magazines = []) :
    Sound terms none (scavenge magazineEnabled view) [] ∧
      (scavenge magazineEnabled view).slab.empty = [] := by
  have pending : (drainPending view).slab.pending = [] := (drainPending_frames view).pending
  have magazines : (drainPending view).slab.magazines = view.slab.magazines :=
    (drainPending_frames view).magazines
  unfold scavenge
  dsimp only
  split_ifs with enabled
  · have sound := stocked.drain.emptied.sound
    have frames := drainMagazines_frames (drainPending view)
    have still : (drainMagazines (drainPending view)).slab.pending = [] :=
      frames.pending.trans pending
    have gone : (drainMagazines (drainPending view)).slab.magazines = [] := frames.magazines
    rw [still, gone] at sound
    exact releaseEmpties_sound sound rfl
  · have sound := stocked.drain.sound
    rw [pending, magazines, drained.resolve_left enabled] at sound
    exact releaseEmpties_sound sound rfl

/-- The run may use any caps for which new spans have two usable slots. Once its callers hold
nothing, and what the magazines hold is drained, `scavenge` gives every span back. -/
theorem scavenge_reclaims {classes : ι → SizeClass} {caps : ι → Nat} {capFns : ι → Bool}
    {maxBytes : Nat} {labels : List (Label ι)} {heap : Heap ι}
    (roomy : ∀ i, Roomy (classes i) (caps i))
    (keeps : Along step KeepsTwo (start classes caps capFns maxBytes) labels)
    (ran : exec step (start classes caps capFns maxBytes) labels = some heap) (i : ι)
    (magazineEnabled : Bool) (freed : heap.held i = [])
    (drained : magazineEnabled = true ∨ queued (heap.slabs i).magazines = []) :
    Reclaimed (scavenge magazineEnabled ⟨heap.slabs i, heap.resident⟩).slab := by
  let terms : Terms := ⟨0, maxBytes, False, 2, by decide⟩
  have ordered : Ordered terms heap := by
    refine invariant_of_along (fun ordered keeps moved => ?_)
      (start_ordered fun i => (roomy i).caps rfl) keeps ran
    exact step_ordered ordered (KeepsTwo.permitted ordered keeps rfl id) moved
  have stocked := ordered i
  rw [freed] at stocked
  obtain ⟨sound, released⟩ := stocked.scavenge_sound drained
  exact sound.reclaimed rfl released

/-- At two slots a page, two of three 16-byte objects come back one by one, the third, of another
span, in a magazine. -/
theorem scavenge_reclaims_after_churn :
    let env : Env := ⟨fun _ _ _ => .warm, fun _ _ => 0, fun _ => 0, fun _ => true⟩
    let labels : List (Label Unit) :=
      [.call () (.allocateBatch env 2) [], .call () (.allocate env) [],
        .call () (.deallocate ⟨0, 1⟩) [], .call () (.deallocateBatch [⟨0, 0⟩]) [],
        .call () (.deallocateBatchMag [⟨1, 0⟩]) []]
    ∃ heap, exec step (start (fun _ => ⟨0, by decide⟩) (fun _ => 2) (fun _ => false) 65536)
        labels = some heap ∧
      (heap.slabs ()).mapped = {0, 1} ∧
      Reclaimed (scavenge true ⟨heap.slabs (), heap.resident⟩).slab := by
  intro env labels
  have shown : (exec step (start (fun _ => ⟨0, by decide⟩) (fun _ => 2) (fun _ => false) 65536)
      labels).map (fun heap => (heap.held (), (heap.slabs ()).mapped)) = some ([], {0, 1}) := by
    decide +kernel
  obtain ⟨heap, ran, same⟩ := Option.map_eq_some_iff.mp shown
  have zero : 0 < word16 := by decide
  have roomy : ∀ sizeClass, env.Roomy sizeClass := fun _ =>
    ⟨fun _ => ⟨.inl zero, nofun⟩, fun _ _ => .inl zero⟩
  have keeps : ∀ label ∈ labels, ∀ heap, KeepsTwo heap label := by
    simp only [labels, forall_mem_cons]
    exact ⟨fun _ => ⟨roomy _, fun _ _ _ _ => rfl⟩, fun _ => roomy _, fun _ => trivial,
      fun _ => trivial, fun _ => trivial, nofun⟩
  have two : Roomy ⟨0, by decide⟩ 2 := ⟨.inl (by decide), fun one => absurd one (by decide)⟩
  have reclaimed := scavenge_reclaims (fun _ => two) (along_of_forall keeps) ran () true
    (congrArg Prod.fst same) (.inl rfl)
  exact ⟨heap, ran, congrArg Prod.snd same, reclaimed⟩

/-- Under a cap of one slot a page, the one object of a 16-byte span is allocated and freed; the
span stays on `partial_`. -/
theorem one_slot_span_stays :
    let env : Env := ⟨fun _ _ _ => .warm, fun _ _ => 0, fun _ => 0, fun _ => true⟩
    let labels : List (Label Unit) :=
      [.call () (.allocate env) [], .call () (.deallocateBatchResolved [⟨0, 0⟩]) []]
    ∃ heap, exec step (start (fun _ => ⟨0, by decide⟩) (fun _ => 1) (fun _ => false) 65536)
        labels = some heap ∧
      heap.handedOut () = [] ∧
      (scavenge true ⟨heap.slabs (), heap.resident⟩).slab.partials = [0] := by
  intro env labels
  have shown : (exec step (start (fun _ => ⟨0, by decide⟩) (fun _ => 1) (fun _ => false) 65536)
      labels).map (fun heap => (heap.handedOut (),
        (scavenge true ⟨heap.slabs (), heap.resident⟩).slab.partials)) = some ([], [0]) := by
    decide +kernel
  obtain ⟨heap, ran, same⟩ := Option.map_eq_some_iff.mp shown
  exact ⟨heap, ran, congrArg Prod.fst same, congrArg Prod.snd same⟩

end Scavenge

end Smash.Slabs
