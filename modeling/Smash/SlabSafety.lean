import Smash.Slabs
import Smash.SlotSafety

/-! Every section of a slab keeps its spans on the right lists and its counters equal to what they
count. A section works on one span after the other, so the invariant is carried from one span
that is touched to the next; the span that is being filled may be full before it is moved, and is
the focus of the invariant until then. -/
namespace Smash.Slabs

open SpanSlots Popcount Transition Function List

section Invariant

inductive Place where
  | partials
  | full
  | empty
  deriving DecidableEq, Repr

def Slab.list (slab : Slab) : Place → List SpanId
  | .partials => slab.partials
  | .full => slab.full
  | .empty => slab.empty

def Slab.places (slab : Slab) (id : SpanId) : Nat :=
  slab.partials.count id + slab.full.count id + slab.empty.count id

def Slab.total (slab : Slab) (weight : Span → Nat) : Nat :=
  ∑ id ∈ slab.mapped, weight (slab.spans id)

def flag (span : Span) : Nat := if span.residentEmpty then 1 else 0

def flaggedBytes (span : Span) : Nat := if span.residentEmpty then Span.bytes span else 0

/-- What is fixed while a section runs: the bytes other slabs have flagged, the cap on flagged
bytes, whether sections are run one at a time, and how many usable slots each span has at least. -/
structure Terms where
  foreign : Nat
  limit : Nat
  serial : Prop
  least : Nat
  positive : 1 ≤ least

/-- A span with two usable slots is on `partial_` only while one of them is out. -/
def Terms.Fitting (terms : Terms) : Place → Span → Prop
  | .partials, span => span.full = false ∧ span.residentEmpty = false ∧
      (2 ≤ terms.least → span.empty = false)
  | .full, span => span.full = true ∧ span.residentEmpty = false
  | .empty, span => span.empty = true

/-- A cap under which the counters of a new span are right and enough of its slots usable. -/
structure Terms.Caps (terms : Terms) (sizeClass : SizeClass) (cap : Nat) : Prop where
  fits : Fits (classSize sizeClass) cap
  enough : terms.least ≤ (SpanSlots.init (classPages sizeClass) sizeClass cap).objectCount

/-- The span belongs to the slab and its counters agree with the objects that are out. -/
structure Terms.Kept (terms : Terms) (slab : Slab) (id : SpanId) (out : List Object) : Prop where
  balanced : Balanced (slab.spans id) (slotsIn out id)
  served : terms.least ≤ (slab.spans id).objectCount
  sized : (slab.spans id).objectSize = classSize slab.sizeClass
  known : id < slab.nextSpan

structure Sound (terms : Terms) (focus : Option SpanId) (view : View) (out : List Object) :
    Prop where
  single : ∀ id, view.slab.places id = if id ∈ view.slab.mapped then 1 else 0
  fits : ∀ place, ∀ id ∈ view.slab.list place, focus ≠ some id → terms.Fitting place (view.span id)
  focused : ∀ id, focus = some id → id ∈ view.slab.partials ∧ (view.span id).residentEmpty = false
  kept : ∀ id ∈ view.slab.mapped, terms.Kept view.slab id out
  mapped : ∀ object ∈ out, object.span ∈ view.slab.mapped
  capped : terms.Caps view.slab.sizeClass view.slab.maxSlotsPerPage
  count : view.slab.residentEmptyCount = view.slab.total flag
  bytes : view.resident.bytes = terms.foreign + view.slab.total flaggedBytes
  bounded : terms.serial →
    view.resident.loads = [] ∧ view.resident.bytes ≤ view.resident.maxBytes

end Invariant

section Touch

variable {terms : Terms} {focus later : Option SpanId} {view after : View}
variable {out left : List Object} {id other : SpanId} {object : Object}

theorem slotsIn_cons (object : Object) (out : List Object) (id : SpanId) :
    slotsIn (object :: out) id =
      if object.span = id then object.slot :: slotsIn out id else slotsIn out id := by
  by_cases own : object.span = id <;> simp [slotsIn, own]

theorem slotsIn_perm (same : out.Perm left) (id : SpanId) :
    (slotsIn out id).Perm (slotsIn left id) :=
  (same.filter _).map _

theorem mem_slotsIn {slot : Nat} : slot ∈ slotsIn out id ↔ ⟨id, slot⟩ ∈ out := by
  simp only [slotsIn, mem_map, mem_filter, decide_eq_true_eq]
  constructor
  · rintro ⟨object, ⟨mem, rfl⟩, rfl⟩
    exact mem
  · intro mem
    exact ⟨_, ⟨mem, rfl⟩, rfl⟩

structure Touches (id : SpanId) (view after : View) (out left : List Object) : Prop where
  sizeClass : after.slab.sizeClass = view.slab.sizeClass
  maxSlotsPerPage : after.slab.maxSlotsPerPage = view.slab.maxSlotsPerPage
  nextSpan : view.slab.nextSpan ≤ after.slab.nextSpan
  spans : ∀ other ≠ id, after.slab.spans other = view.slab.spans other
  mapped : ∀ other ≠ id, other ∈ after.slab.mapped ↔ other ∈ view.slab.mapped
  lists : ∀ place, ∀ other ≠ id,
    (after.slab.list place).count other = (view.slab.list place).count other
  slots : ∀ other ≠ id, slotsIn left other = slotsIn out other

def Slab.own (slab : Slab) (weight : Span → Nat) (id : SpanId) : Nat :=
  if id ∈ slab.mapped then weight (slab.spans id) else 0

theorem Slab.total_eq (slab : Slab) (weight : Span → Nat) (id : SpanId) :
    slab.total weight = slab.own weight id + ∑ other ∈ slab.mapped.erase id,
      weight (slab.spans other) := by
  unfold total own
  split_ifs with mem
  · exact (Finset.add_sum_erase _ _ mem).symm
  · rw [Finset.erase_eq_of_notMem mem, Nat.zero_add]

theorem Slab.le_total {slab : Slab} (weight : Span → Nat) (mem : id ∈ slab.mapped) :
    weight (slab.spans id) ≤ slab.total weight := by
  rw [slab.total_eq weight id, own, if_pos mem]
  exact Nat.le_add_right ..

theorem Touches.total (touches : Touches id view after out left) (weight : Span → Nat) :
    after.slab.total weight + view.slab.own weight id =
      view.slab.total weight + after.slab.own weight id := by
  have same : after.slab.mapped.erase id = view.slab.mapped.erase id := by
    ext other
    simp only [Finset.mem_erase]
    exact and_congr_right (touches.mapped other)
  have rest : ∑ other ∈ after.slab.mapped.erase id, weight (after.slab.spans other) =
      ∑ other ∈ view.slab.mapped.erase id, weight (view.slab.spans other) := by
    rw [same]
    refine Finset.sum_congr rfl fun other mem => ?_
    rw [touches.spans other (Finset.ne_of_mem_erase mem)]
  rw [after.slab.total_eq weight id, view.slab.total_eq weight id, rest]
  omega

theorem Touches.mem_list (touches : Touches id view after out left) {place : Place}
    (apart : other ≠ id) : other ∈ after.slab.list place ↔ other ∈ view.slab.list place := by
  rw [← count_pos_iff, ← count_pos_iff, touches.lists place other apart]

theorem Touches.places (touches : Touches id view after out left) (apart : other ≠ id) :
    after.slab.places other = view.slab.places other := by
  have partials := touches.lists .partials other apart
  have full := touches.lists .full other apart
  have empty := touches.lists .empty other apart
  simp only [Slab.list] at partials full empty
  rw [Slab.places, Slab.places, partials, full, empty]

structure Terms.Touched (terms : Terms) (focus : Option SpanId) (id : SpanId) (view after : View)
    (left : List Object) : Prop where
  single : after.slab.places id = if id ∈ after.slab.mapped then 1 else 0
  fits : ∀ place, id ∈ after.slab.list place → focus ≠ some id →
    terms.Fitting place (after.span id)
  focused : focus = some id → id ∈ after.slab.partials ∧ (after.span id).residentEmpty = false
  alone : ∀ other, focus = some other → other = id
  kept : id ∈ after.slab.mapped → terms.Kept after.slab id left
  mapped : slotsIn left id ≠ [] → id ∈ after.slab.mapped
  count : after.slab.residentEmptyCount + view.slab.own flag id =
    view.slab.residentEmptyCount + after.slab.own flag id
  bytes : after.resident.bytes + view.slab.own flaggedBytes id =
    view.resident.bytes + after.slab.own flaggedBytes id
  bounded : terms.serial →
    view.resident.loads = [] → view.resident.bytes ≤ view.resident.maxBytes →
    after.resident.loads = [] ∧ after.resident.bytes ≤ after.resident.maxBytes

theorem Sound.touch (sound : Sound terms focus view out)
    (alone : ∀ other, focus = some other → other = id) (touches : Touches id view after out left)
    (touched : terms.Touched later id view after left) : Sound terms later after left where
  single other := by
    by_cases own : other = id
    · rw [own]
      exact touched.single
    · rw [touches.places own, sound.single]
      simp only [touches.mapped other own]
  fits place other mem unfocused := by
    by_cases own : other = id
    · subst own
      exact touched.fits place mem unfocused
    · rw [View.span, touches.spans other own]
      exact sound.fits place other ((touches.mem_list own).mp mem) fun focused =>
        own (alone other focused)
  focused other focused := by
    have own := touched.alone other focused
    subst own
    exact touched.focused focused
  kept other mem := by
    by_cases own : other = id
    · subst own
      exact touched.kept mem
    · have pre := sound.kept other ((touches.mapped other own).mp mem)
      constructor
      · rw [touches.spans other own, touches.slots other own]
        exact pre.balanced
      · rw [touches.spans other own]
        exact pre.served
      · rw [touches.spans other own, touches.sizeClass]
        exact pre.sized
      · exact pre.known.trans_le touches.nextSpan
  mapped object mem := by
    have slot : object.slot ∈ slotsIn left object.span := mem_slotsIn.mpr mem
    by_cases own : object.span = id
    · rw [own] at slot ⊢
      exact touched.mapped (ne_nil_of_mem slot)
    · rw [touches.slots _ own] at slot
      exact (touches.mapped _ own).mpr (sound.mapped _ (mem_slotsIn.mp slot))
  capped := by
    rw [touches.sizeClass, touches.maxSlotsPerPage]
    exact sound.capped
  count := by
    have total := touches.total flag
    have count := sound.count
    have own := touched.count
    omega
  bytes := by
    have total := touches.total flaggedBytes
    have bytes := sound.bytes
    have own := touched.bytes
    omega
  bounded serial :=
    touched.bounded serial (sound.bounded serial).1 (sound.bounded serial).2

def View.put (view : View) (id : SpanId) (span : Span) (partials full empty : List SpanId)
    (count : Nat) (resident : Resident) : View :=
  { slab :=
      { view.slab with
        spans := update view.slab.spans id span, partials := partials, full := full,
        empty := empty, residentEmptyCount := count }
    resident := resident }

@[simp] theorem put_span (view : View) (id : SpanId) (span : Span)
    (partials full empty : List SpanId) (count : Nat) (resident : Resident) :
    (view.put id span partials full empty count resident).span id = span :=
  update_self ..

theorem put_span_of_ne (view : View) (span : Span) (partials full empty : List SpanId) (count : Nat)
    (resident : Resident) (apart : other ≠ id) :
    (view.put id span partials full empty count resident).span other = view.span other :=
  update_of_ne apart ..

/-- The lists agree on every span but `id`, which is on one of them. -/
structure Relists (view : View) (id : SpanId) (partials full empty : List SpanId) : Prop where
  same_partials : ∀ other ≠ id, partials.count other = view.slab.partials.count other
  same_full : ∀ other ≠ id, full.count other = view.slab.full.count other
  same_empty : ∀ other ≠ id, empty.count other = view.slab.empty.count other
  single : partials.count id + full.count id + empty.count id = 1

variable {span : Span} {partials full empty : List SpanId} {count : Nat} {resident : Resident}

theorem Sound.put (sound : Sound terms focus view out)
    (alone : ∀ other, focus = some other → other = id) (mem : id ∈ view.slab.mapped)
    (relists : Relists view id partials full empty)
    (slots : ∀ other ≠ id, slotsIn left other = slotsIn out other)
    (later_alone : ∀ other, later = some other → other = id)
    (fits : later = none → (id ∈ partials → terms.Fitting .partials span) ∧
      (id ∈ full → terms.Fitting .full span) ∧ (id ∈ empty → terms.Fitting .empty span))
    (focused : later = some id → id ∈ partials ∧ span.residentEmpty = false)
    (bal : Balanced span (slotsIn left id)) (served : terms.least ≤ span.objectCount)
    (sized : span.objectSize = (view.span id).objectSize)
    (counted : count + flag (view.span id) = view.slab.residentEmptyCount + flag span)
    (bytes : resident.bytes + flaggedBytes (view.span id) = view.resident.bytes + flaggedBytes span)
    (bounded : terms.serial →
      view.resident.loads = [] → view.resident.bytes ≤ view.resident.maxBytes →
      resident.loads = [] ∧ resident.bytes ≤ resident.maxBytes) :
    Sound terms later (view.put id span partials full empty count resident) left := by
  have touches : Touches id view (view.put id span partials full empty count resident) out left :=
    { sizeClass := rfl, maxSlotsPerPage := rfl, nextSpan := le_rfl
      spans := fun other apart => update_of_ne apart ..
      mapped := fun _ _ => Iff.rfl
      lists := fun place other apart => by
        cases place with
        | partials => exact relists.same_partials other apart
        | full => exact relists.same_full other apart
        | empty => exact relists.same_empty other apart
      slots := slots }
  refine sound.touch alone touches ?_
  have here : (view.put id span partials full empty count resident).slab.spans id = span :=
    update_self ..
  have stays : id ∈ (view.put id span partials full empty count resident).slab.mapped := mem
  constructor
  · rw [if_pos stays]
    exact relists.single
  · intro place listed unfocused
    rw [put_span]
    have none : later = none := by
      cases later with
      | none => rfl
      | some other => exact absurd (congrArg some (later_alone other rfl)) unfocused
    cases place with
    | partials => exact (fits none).1 listed
    | full => exact (fits none).2.1 listed
    | empty => exact (fits none).2.2 listed
  · rw [put_span]
    exact focused
  · exact later_alone
  · intro _
    constructor
    · rw [here]
      exact bal
    · rw [here]
      exact served
    · rw [here, sized]
      exact (sound.kept id mem).sized
    · exact (sound.kept id mem).known
  · exact fun _ => mem
  · rw [Slab.own, Slab.own, if_pos mem, if_pos stays, here]
    exact counted
  · rw [Slab.own, Slab.own, if_pos mem, if_pos stays, here]
    exact bytes
  · exact bounded

end Touch

section Free

variable {terms : Terms} {view : View} {out : List Object} {id : SpanId} {slot : Nat}

theorem Sound.located (sound : Sound terms none view (⟨id, slot⟩ :: out)) :
    (view.span id).residentEmpty = false ∧ view.slab.empty.count id = 0 ∧
      if (view.span id).full then
        view.slab.partials.count id = 0 ∧ view.slab.full.count id = 1
      else view.slab.partials.count id = 1 ∧ view.slab.full.count id = 0 := by
  have mem : id ∈ view.slab.mapped := sound.mapped ⟨id, slot⟩ mem_cons_self
  have one := sound.single id
  rw [if_pos mem, Slab.places] at one
  have used : (view.span id).empty = false := by
    have allocated := (sound.kept id mem).balanced.allocated
    rw [slotsIn_cons, if_pos rfl, length_cons] at allocated
    exact beq_eq_false_iff_ne.mpr (by rw [View.span, allocated]; omega)
  have empty : view.slab.empty.count id = 0 := count_eq_zero.mpr fun listed => by
    have fits := sound.fits .empty id listed nofun
    rw [Terms.Fitting, used] at fits
    cases fits
  by_cases full : (view.span id).full = true
  · have absent : view.slab.partials.count id = 0 := count_eq_zero.mpr fun listed => by
      have fits := sound.fits .partials id listed nofun
      cases full.symm.trans fits.1
    have listed : id ∈ view.slab.full := count_pos_iff.mp (by omega)
    refine ⟨(sound.fits .full id listed nofun).2, empty, ?_⟩
    rw [if_pos full]
    omega
  · have absent : view.slab.full.count id = 0 := count_eq_zero.mpr fun listed =>
      full (sound.fits .full id listed nofun).1
    have listed : id ∈ view.slab.partials := count_pos_iff.mp (by omega)
    refine ⟨(sound.fits .partials id listed nofun).2.1, empty, ?_⟩
    rw [if_neg full]
    omega

/-- `after` is span `id` with one slot given back, and `out` is what is out then. -/
structure Returned (view : View) (id : SpanId) (out : List Object) (after : Span) : Prop where
  balanced : Balanced after (slotsIn out id)
  objectCount : after.objectCount = (view.span id).objectCount
  objectSize : after.objectSize = (view.span id).objectSize
  unflagged : after.residentEmpty = false
  fewer : after.allocatedCount + 1 = (view.span id).allocatedCount

theorem Sound.returned (sound : Sound terms none view (⟨id, slot⟩ :: out)) : Returned view id out
      (SpanSlots.deallocate (slot * (view.span id).objectSize) (view.span id)) := by
  have mem : id ∈ view.slab.mapped := sound.mapped ⟨id, slot⟩ mem_cons_self
  have bal : Balanced (view.span id) (slotsIn (⟨id, slot⟩ :: out) id) :=
    (sound.kept id mem).balanced
  rw [slotsIn_cons, if_pos rfl] at bal
  have s' := deallocate_balanced bal mem_cons_self
  rw [erase_cons_head] at s'
  have shape := deallocate_shape (slot * (view.span id).objectSize) (view.span id)
  refine ⟨s', shape.objectCount, shape.objectSize, ?_, ?_⟩
  · rw [shape.residentEmpty]
    exact sound.located.1
  · rw [s'.allocated, bal.allocated, length_cons]

theorem slotsIn_other (out : List Object) (j : SpanId) (apart : j ≠ id) :
    slotsIn out j = slotsIn (⟨id, slot⟩ :: out) j := by
  rw [slotsIn_cons, if_neg fun same => apart same.symm]

theorem Resident.load_spec (resident : Resident) :
    resident.load.2.bytes = resident.bytes ∧ resident.load.2.maxBytes = resident.maxBytes ∧
      (resident.loads = [] → resident.load.1 = resident.bytes ∧ resident.load.2.loads = []) := by
  unfold load
  cases loads : resident.loads with
  | nil => exact ⟨rfl, rfl, fun _ => ⟨rfl, loads⟩⟩
  | cons seen rest => exact ⟨rfl, rfl, nofun⟩

theorem balanced_flagged {span : Span} {held : List Nat} (bal : Balanced span held)
    (resident : Bool) (tick : Nat) :
    Balanced { span with residentEmpty := resident, emptyTick := tick } held :=
  ⟨bal.sized, bal.narrow, bal.pages, bal.marks, bal.usable,
    bal.single, bal.allocated, bal.counted⟩

section Cases

variable {s' : Span} {partials full empty : List SpanId} {count : Nat} {counters : Resident}

theorem Sound.giveBack (sound : Sound terms none view (⟨id, slot⟩ :: out))
    (returned : Returned view id out s') (resident : Bool) (tick : Nat)
    (relists : Relists view id partials full empty)
    (fits : (id ∈ partials → terms.Fitting .partials s' ∧ resident = false) ∧
      (id ∈ full → terms.Fitting .full s' ∧ resident = false) ∧
      (id ∈ empty → s'.empty = true))
    (counted : count = view.slab.residentEmptyCount + if resident then 1 else 0)
    (bytes : counters.bytes = view.resident.bytes + if resident then Span.bytes s' else 0)
    (bounded : terms.serial →
      view.resident.loads = [] → view.resident.bytes ≤ view.resident.maxBytes →
      counters.loads = [] ∧ counters.bytes ≤ counters.maxBytes) :
    Sound terms none
      (view.put id { s' with residentEmpty := resident, emptyTick := tick } partials full empty
        count counters) out := by
  have mem : id ∈ view.slab.mapped := sound.mapped ⟨id, slot⟩ mem_cons_self
  have unflagged := sound.located.1
  have plain : flag (view.span id) = 0 ∧ flaggedBytes (view.span id) = 0 := by
    simp [flag, flaggedBytes, unflagged]
  refine sound.put nofun mem relists (slotsIn_other out) nofun (fun _ => ⟨?_, ?_, ?_⟩) nofun
    (balanced_flagged returned.balanced resident tick) ?_ returned.objectSize ?_ ?_ bounded
  · intro listed
    obtain ⟨fitting, plain⟩ := fits.1 listed
    exact ⟨fitting.1, plain, fitting.2.2⟩
  · intro listed
    obtain ⟨fitting, plain⟩ := fits.2.1 listed
    exact ⟨fitting.1, plain⟩
  · exact fits.2.2
  · exact (sound.kept id mem).served.trans_eq returned.objectCount.symm
  · rw [plain.1, counted, Nat.add_zero]
    rfl
  · rw [plain.2, bytes, Nat.add_zero]
    rfl

theorem Returned.eta (returned : Returned view id out s') :
    { s' with residentEmpty := false, emptyTick := s'.emptyTick } = s' := by
  have unflagged := returned.unflagged
  cases s'
  cases unflagged
  rfl

section

variable (sound : Sound terms none view (⟨id, slot⟩ :: out))
include sound

theorem Sound.giveBack_first
    (returned : Returned view id out s') (was_full : (view.span id).full = true) :
    Sound terms none
      (view.put id s' (id :: view.slab.partials) (view.slab.full.erase id) view.slab.empty
        view.slab.residentEmptyCount view.resident) out := by
  have mem : id ∈ view.slab.mapped := sound.mapped ⟨id, slot⟩ mem_cons_self
  have served := (sound.kept id mem).served
  have fewer := returned.fewer
  have positive := terms.positive
  obtain ⟨-, empty, located⟩ := sound.located
  rw [if_pos was_full] at located
  have all : (view.span id).allocatedCount = (view.span id).objectCount := beq_iff_eq.mp was_full
  have gone : (view.slab.full.erase id).count id = 0 := by
    rw [count_erase_self, located.2]
  have relists : Relists view id (id :: view.slab.partials) (view.slab.full.erase id)
      view.slab.empty := by
    refine ⟨fun j apart => ?_, fun j apart => ?_, fun _ _ => rfl, ?_⟩
    · exact count_cons_of_ne apart.symm
    · exact count_erase_of_ne apart
    · rw [count_cons_self, located.1, gone, empty]
  have fitting : terms.Fitting .partials s' := by
    refine ⟨beq_eq_false_iff_ne.mpr ?_, returned.unflagged, fun two => beq_eq_false_iff_ne.mpr ?_⟩
    · rw [returned.objectCount]
      omega
    · change terms.least ≤ (view.span id).objectCount at served
      omega
  rw [← returned.eta]
  refine sound.giveBack returned false s'.emptyTick relists ⟨fun _ => ⟨fitting, rfl⟩, ?_, ?_⟩
    rfl rfl fun _ serial below => ⟨serial, below⟩
  · exact fun listed => absurd listed (count_eq_zero.mp gone)
  · exact fun listed => absurd listed (count_eq_zero.mp empty)

theorem Sound.giveBack_other (returned : Returned view id out s')
    (was_full : (view.span id).full = false) (used : s'.empty = false) : Sound terms none
      (view.put id s' view.slab.partials view.slab.full view.slab.empty
        view.slab.residentEmptyCount view.resident) out := by
  have mem : id ∈ view.slab.mapped := sound.mapped ⟨id, slot⟩ mem_cons_self
  have fewer := returned.fewer
  obtain ⟨-, empty, located⟩ := sound.located
  rw [was_full] at located
  have relists : Relists view id view.slab.partials view.slab.full view.slab.empty :=
    ⟨fun _ _ => rfl, fun _ _ => rfl, fun _ _ => rfl, by rw [located.1, located.2, empty]⟩
  have fitting : terms.Fitting .partials s' := by
    refine ⟨beq_eq_false_iff_ne.mpr ?_, returned.unflagged, fun _ => used⟩
    have within := returned.balanced.counted
    have pre := (sound.kept id mem).balanced.counted
    change _ + (view.span id).allocatedCount = (view.span id).objectCount at pre
    rw [returned.objectCount]
    omega
  rw [← returned.eta]
  refine sound.giveBack returned false s'.emptyTick relists ⟨fun _ => ⟨fitting, rfl⟩, ?_, ?_⟩
    rfl rfl fun _ serial below => ⟨serial, below⟩
  · exact fun listed => absurd listed (count_eq_zero.mp located.2)
  · exact fun listed => absurd listed (count_eq_zero.mp empty)

theorem Sound.giveBack_last
    (returned : Returned view id out s') (was_full : (view.span id).full = false)
    (last : s'.empty = true) (resident : Bool) (tick : Nat)
    (counted : count = view.slab.residentEmptyCount + if resident then 1 else 0)
    (bytes : counters.bytes = view.resident.bytes + if resident then Span.bytes s' else 0)
    (bounded : terms.serial →
      view.resident.loads = [] → view.resident.bytes ≤ view.resident.maxBytes →
      counters.loads = [] ∧ counters.bytes ≤ counters.maxBytes) :
    Sound terms none
      (view.put id { s' with residentEmpty := resident, emptyTick := tick }
        (view.slab.partials.erase id) view.slab.full (id :: view.slab.empty) count counters)
      out := by
  obtain ⟨-, empty, located⟩ := sound.located
  rw [was_full] at located
  have gone : (view.slab.partials.erase id).count id = 0 := by
    rw [count_erase_self, located.1]
  have relists : Relists view id (view.slab.partials.erase id) view.slab.full
      (id :: view.slab.empty) := by
    refine ⟨fun j apart => ?_, fun _ _ => rfl, fun j apart => ?_, ?_⟩
    · exact count_erase_of_ne apart
    · exact count_cons_of_ne apart.symm
    · rw [gone, located.2, count_cons_self, empty]
  refine sound.giveBack returned resident tick relists ⟨?_, ?_, fun _ => last⟩ counted bytes bounded
  · exact fun listed => absurd listed (count_eq_zero.mp gone)
  · exact fun listed => absurd listed (count_eq_zero.mp located.2)

end

end Cases

theorem retireEmptySpan_put (s' : Span) (partials full empty : List SpanId) (count : Nat)
    (counters : Resident) :
    retireEmptySpan id (view.put id s' partials full empty count counters) =
      if counters.load.2.maxBytes < counters.load.1 + Span.bytes s' then
        view.put id s' partials full empty count counters.load.2
      else
        view.put id { s' with residentEmpty := true, emptyTick := counters.load.2.tick }
          partials full empty (count + 1)
          { counters.load.2 with bytes := counters.load.2.bytes + Span.bytes s' } := by
  unfold retireEmptySpan
  rw [put_span]
  simp only [View.put, update_idem]

theorem deallocateOne_sound (sound : Sound terms none view (⟨id, slot⟩ :: out)) :
    Sound terms none (deallocateOne ⟨id, slot⟩ view) out := by
  have returned := sound.returned
  unfold deallocateOne
  dsimp only
  generalize SpanSlots.deallocate _ (view.span id) = s' at *
  split_ifs with was_full last
  · exact sound.giveBack_first returned was_full
  · have was_full := Bool.eq_false_iff.mpr was_full
    obtain ⟨same, limit, exact_load⟩ := view.resident.load_spec
    generalize retired : retireEmptySpan id _ = r
    have result_eq := (retireEmptySpan_put s' (view.slab.partials.erase id) view.slab.full
      view.slab.empty view.slab.residentEmptyCount view.resident).symm.trans retired
    split_ifs at result_eq with beyond
    · subst result_eq
      rw [← returned.eta]
      exact sound.giveBack_last returned was_full last false s'.emptyTick rfl same
        fun _ serial below => ⟨(exact_load serial).2, (same.trans_le below).trans limit.ge⟩
    · subst result_eq
      refine sound.giveBack_last returned was_full last true _ rfl ?_ fun _ serial _ => ?_
      · exact congrArg (· + Span.bytes s') same
      · obtain ⟨seen, emptied⟩ := exact_load serial
        rw [seen, Nat.not_lt] at beyond
        exact ⟨emptied, (congrArg (· + Span.bytes s') same).trans_le beyond⟩
  · exact sound.giveBack_other returned (Bool.eq_false_iff.mpr was_full)
      (Bool.eq_false_iff.mpr last)

theorem deallocate_sound (sound : Sound terms none view (⟨id, slot⟩ :: out)) :
    Sound terms none (deallocate ⟨id, slot⟩ view) out := by
  have returned := sound.returned
  unfold deallocate
  dsimp only
  generalize SpanSlots.deallocate _ (view.span id) = s' at *
  split_ifs with was_full last
  · exact sound.giveBack_first returned was_full
  · rw [← returned.eta]
    exact sound.giveBack_last returned (Bool.eq_false_iff.mpr was_full) last false s'.emptyTick
      rfl rfl fun _ serial below => ⟨serial, below⟩
  · exact sound.giveBack_other returned (Bool.eq_false_iff.mpr was_full)
      (Bool.eq_false_iff.mpr last)

end Free

section Queues

variable {terms : Terms} {focus : Option SpanId} {view after final : View} {out : List Object}
variable {id : SpanId} {object : Object}

/-- The settings of the slab and its queues of freed objects are as before. -/
structure Frames (view after : View) : Prop where
  sizeClass : after.slab.sizeClass = view.slab.sizeClass
  maxSlotsPerPage : after.slab.maxSlotsPerPage = view.slab.maxSlotsPerPage
  capFn : after.slab.capFn = view.slab.capFn
  pending : after.slab.pending = view.slab.pending
  magazines : after.slab.magazines = view.slab.magazines
  maxBytes : after.resident.maxBytes = view.resident.maxBytes

theorem Frames.refl (view : View) : Frames view view := ⟨rfl, rfl, rfl, rfl, rfl, rfl⟩

theorem Frames.trans (first : Frames view after) (second : Frames after final) :
    Frames view final where
  sizeClass := second.sizeClass.trans first.sizeClass
  maxSlotsPerPage := second.maxSlotsPerPage.trans first.maxSlotsPerPage
  capFn := second.capFn.trans first.capFn
  pending := second.pending.trans first.pending
  magazines := second.magazines.trans first.magazines
  maxBytes := second.maxBytes.trans first.maxBytes

theorem Frames.setEmpty (frames : Frames view after) (empty : List SpanId) :
    Frames view { after with slab := { after.slab with empty := empty } } :=
  ⟨frames.sizeClass, frames.maxSlotsPerPage, frames.capFn, frames.pending, frames.magazines,
    frames.maxBytes⟩

theorem foldl_frames {α : Type} {step : View → α → View}
    (frames : ∀ view item, Frames view (step view item)) (items : List α) (view : View) :
    Frames view (items.foldl step view) := by
  induction items generalizing view with
  | nil => exact .refl view
  | cons item rest ih => exact (frames view item).trans (ih _)

theorem retireEmptySpan_frames (id : SpanId) (view : View) :
    Frames view (retireEmptySpan id view) := by
  have limit := view.resident.load_spec.2.1
  unfold retireEmptySpan
  dsimp only
  split_ifs
  · exact ⟨rfl, rfl, rfl, rfl, rfl, limit⟩
  · exact ⟨rfl, rfl, rfl, rfl, rfl, limit⟩

theorem clearResident_frames (id : SpanId) (view : View) : Frames view (clearResident id view) := by
  unfold clearResident
  split_ifs
  · exact ⟨rfl, rfl, rfl, rfl, rfl, rfl⟩
  · exact .refl view

theorem deallocateOne_frames (object : Object) (view : View) :
    Frames view (deallocateOne object view) := by
  unfold deallocateOne
  dsimp only
  split_ifs
  · exact ⟨rfl, rfl, rfl, rfl, rfl, rfl⟩
  · refine .setEmpty (.trans ?_ (retireEmptySpan_frames object.span _)) _
    exact ⟨rfl, rfl, rfl, rfl, rfl, rfl⟩
  · exact ⟨rfl, rfl, rfl, rfl, rfl, rfl⟩

theorem deallocateEntries_frames (entries : List Entry) (view : View) :
    Frames view (deallocateEntries entries view) := by
  refine foldl_frames (fun view entry => ?_) entries view
  split_ifs
  · exact deallocateOne_frames entry.object view
  · exact .refl view

theorem Sound.requeue (sound : Sound terms focus view out) (pending magazines : List (List Entry)) :
    Sound terms focus
      { view with slab := { view.slab with pending := pending, magazines := magazines } } out :=
  ⟨sound.single, sound.fits, sound.focused,
    fun id mem => ⟨(sound.kept id mem).balanced, (sound.kept id mem).served,
      (sound.kept id mem).sized, (sound.kept id mem).known⟩,
    sound.mapped, sound.capped, sound.count, sound.bytes, sound.bounded⟩

theorem deallocateEntries_sound {entries : List Entry}
    (resolved : ∀ entry ∈ entries, entry.resolved = true)
    (sound : Sound terms none view (entries.map Entry.object ++ out)) :
    Sound terms none (deallocateEntries entries view) out := by
  induction entries generalizing view with
  | nil => exact sound
  | cons entry rest ih =>
    rw [deallocateEntries, foldl_cons, if_pos (resolved entry mem_cons_self)]
    refine ih (fun j mem => resolved j (mem_cons_of_mem _ mem)) ?_
    exact deallocateOne_sound sound

theorem deallocateBatch_sound {objects : List Object}
    (sound : Sound terms none view (objects ++ out)) :
    Sound terms none (deallocateBatch objects view) out := by
  induction objects generalizing view with
  | nil => exact sound
  | cons object rest ih =>
    have found : (resolve view.slab object).resolved = true :=
      decide_eq_true (sound.mapped object mem_cons_self)
    rw [deallocateBatch, foldl_cons, if_pos found]
    exact ih (deallocateOne_sound sound)

theorem deallocateQueue_sound {queue : List (List Entry)}
    (resolved : ∀ entries ∈ queue, ∀ entry ∈ entries, entry.resolved = true)
    (sound : Sound terms none view (queue.flatten.map Entry.object ++ out)) :
    Sound terms none (queue.foldl (fun view entries => deallocateEntries entries view) view)
      out := by
  induction queue generalizing view with
  | nil => exact sound
  | cons entries rest ih =>
    rw [foldl_cons]
    refine ih (fun j mem => resolved j (mem_cons_of_mem _ mem)) ?_
    refine deallocateEntries_sound (resolved entries mem_cons_self) ?_
    rw [flatten_cons, map_append, append_assoc] at sound
    exact sound

theorem drainPending_sound
    (resolved : ∀ entries ∈ view.slab.pending, ∀ entry ∈ entries, entry.resolved = true)
    (sound : Sound terms none view (view.slab.pending.flatten.map Entry.object ++ out)) :
    Sound terms none (drainPending view) out :=
  deallocateQueue_sound resolved (sound.requeue [] view.slab.magazines)

theorem drainMagazines_sound
    (resolved : ∀ entries ∈ view.slab.magazines, ∀ entry ∈ entries, entry.resolved = true)
    (sound : Sound terms none view (view.slab.magazines.flatten.map Entry.object ++ out)) :
    Sound terms none (drainMagazines view) out :=
  deallocateQueue_sound resolved (sound.requeue view.slab.pending [])

theorem drainPending_frames (view : View) :
    Frames { view with slab := { view.slab with pending := [] } } (drainPending view) :=
  foldl_frames (fun view entries => deallocateEntries_frames entries view) _ _

theorem drainMagazines_frames (view : View) :
    Frames { view with slab := { view.slab with magazines := [] } } (drainMagazines view) :=
  foldl_frames (fun view entries => deallocateEntries_frames entries view) _ _

end Queues

section Focus

variable {terms : Terms} {focus later : Option SpanId} {view : View} {out left : List Object}
variable {id : SpanId} {slot : Nat} {span : Span} {partials full empty : List SpanId}

theorem Sound.listed_mapped (sound : Sound terms focus view out) (place : Place)
    (listed : id ∈ view.slab.list place) : id ∈ view.slab.mapped := by
  by_contra absent
  have single := sound.single id
  rw [if_neg absent, Slab.places] at single
  have some := count_pos_iff.mpr listed
  cases place with
  | partials => simp only [Slab.list] at some; omega
  | full => simp only [Slab.list] at some; omega
  | empty => simp only [Slab.list] at some; omega

theorem Sound.listed_once (sound : Sound terms focus view out) (place : Place)
    (listed : id ∈ view.slab.list place) :
    view.slab.partials.count id + view.slab.full.count id + view.slab.empty.count id = 1 := by
  have single := sound.single id
  rwa [if_pos (sound.listed_mapped place listed)] at single

theorem Sound.focusOn (sound : Sound terms none view out) (listed : id ∈ view.slab.partials) :
    Sound terms (some id) view out :=
  { sound with
    fits := fun place j mem _ => sound.fits place j mem nofun
    focused := fun j same => by
      cases same
      exact ⟨listed, (sound.fits .partials id listed nofun).2.1⟩ }

theorem Sound.focus_balanced (sound : Sound terms (some id) view out) :
    Balanced (view.span id) (slotsIn out id) :=
  (sound.kept id (sound.listed_mapped .partials (sound.focused id rfl).1)).balanced

theorem Sound.unfocus (sound : Sound terms (some id) view out)
    (fitting : terms.Fitting .partials (view.span id)) : Sound terms none view out where
  single := sound.single
  fits place j mem _ := by
    by_cases own : j = id
    · subst own
      have listed := (sound.focused j rfl).1
      have once := sound.listed_once .partials listed
      have some := count_pos_iff.mpr listed
      have again := count_pos_iff.mpr mem
      cases place with
      | partials => exact fitting
      | full => simp only [Slab.list] at again; omega
      | empty => simp only [Slab.list] at again; omega
    · exact sound.fits place j mem fun same => own (Option.some.inj same).symm
  focused := nofun
  kept := sound.kept
  mapped := sound.mapped
  capped := sound.capped
  count := sound.count
  bytes := sound.bytes
  bounded := sound.bounded

theorem View.put_self (view : View) (id : SpanId) (partials full empty : List SpanId) :
    view.put id (view.span id) partials full empty view.slab.residentEmptyCount view.resident =
      { view with
        slab := { view.slab with partials := partials, full := full, empty := empty } } := by
  unfold View.put View.span
  rw [update_eq_self]

theorem Sound.setSpan (sound : Sound terms (some id) view out)
    (slots : ∀ j ≠ id, slotsIn left j = slotsIn out j)
    (bal : Balanced span (slotsIn left id))
    (more : (view.span id).objectCount ≤ span.objectCount)
    (sized : span.objectSize = (view.span id).objectSize) (plain : span.residentEmpty = false) :
    Sound terms (some id) (view.setSpan id span) left := by
  obtain ⟨listed, unflagged⟩ := sound.focused id rfl
  have mem := sound.listed_mapped .partials listed
  have alone : ∀ j, some id = some j → j = id := fun _ same => (Option.some.inj same).symm
  have relists : Relists view id view.slab.partials view.slab.full view.slab.empty :=
    ⟨fun _ _ => rfl, fun _ _ => rfl, fun _ _ => rfl, sound.listed_once .partials listed⟩
  have zero : flag (view.span id) = flag span ∧ flaggedBytes (view.span id) = flaggedBytes span := by
    simp [flag, flaggedBytes, unflagged, plain]
  refine sound.put alone mem relists slots alone nofun (fun _ => ⟨listed, plain⟩) bal
    ((sound.kept id mem).served.trans more) sized ?_ ?_ fun _ serial below => ⟨serial, below⟩
  · rw [zero.1]
  · rw [zero.2]

theorem Sound.settle (sound : Sound terms (some id) view out)
    (used : 2 ≤ terms.least → (view.span id).empty = false) :
    Sound terms none (settle id view) out := by
  obtain ⟨listed, unflagged⟩ := sound.focused id rfl
  unfold Slabs.settle
  split_ifs with filled
  · have mem := sound.listed_mapped .partials listed
    have once := sound.listed_once .partials listed
    have some := count_pos_iff.mpr listed
    have gone : (view.slab.partials.erase id).count id = 0 := by
      rw [count_erase_self]
      omega
    have relists : Relists view id (view.slab.partials.erase id) (id :: view.slab.full)
        view.slab.empty := by
      refine ⟨fun j apart => ?_, fun j apart => ?_, fun _ _ => rfl, ?_⟩
      · exact count_erase_of_ne apart
      · exact count_cons_of_ne apart.symm
      · rw [gone, count_cons_self]
        omega
    have absent : id ∉ view.slab.empty := count_eq_zero.mp (by omega)
    rw [← View.put_self]
    refine sound.put (fun _ same => (Option.some.inj same).symm) mem relists (fun _ _ => rfl)
      nofun (fun _ => ⟨?_, fun _ => ⟨filled, unflagged⟩, ?_⟩) nofun
      (sound.kept id mem).balanced (sound.kept id mem).served rfl rfl rfl
      fun _ serial below => ⟨serial, below⟩
    · exact fun listed => absurd listed (count_eq_zero.mp gone)
    · exact fun listed => absurd listed absent
  · exact sound.unfocus ⟨Bool.eq_false_iff.mpr filled, unflagged, used⟩

theorem Sound.rotate (sound : Sound terms (some id) view out) :
    Sound terms (some id) (rotate id view) out := by
  obtain ⟨listed, unflagged⟩ := sound.focused id rfl
  have mem := sound.listed_mapped .partials listed
  have once := sound.listed_once .partials listed
  have some := count_pos_iff.mpr listed
  have alone : ∀ j, Option.some id = Option.some j → j = id := fun _ same =>
    (Option.some.inj same).symm
  have relists : Relists view id (view.slab.partials.erase id ++ [id]) view.slab.full
      view.slab.empty := by
    refine ⟨fun j apart => ?_, fun _ _ => rfl, fun _ _ => rfl, ?_⟩
    · rw [count_append, count_erase_of_ne apart, count_singleton,
        if_neg (by simpa using apart.symm), Nat.add_zero]
    · rw [count_append, count_erase_self, count_singleton_self]
      omega
  unfold Slabs.rotate
  rw [← View.put_self]
  exact sound.put alone mem relists (fun _ _ => rfl) alone nofun
    (fun _ => ⟨mem_append_right _ mem_cons_self, unflagged⟩)
    (sound.kept id mem).balanced (sound.kept id mem).served rfl rfl rfl
    fun _ serial below => ⟨serial, below⟩

theorem clearResident_eq (id : SpanId) (view : View) : clearResident id view =
      view.put id { view.span id with residentEmpty := false } view.slab.partials view.slab.full
        view.slab.empty (view.slab.residentEmptyCount - flag (view.span id))
        { view.resident with
          bytes := view.resident.bytes - flaggedBytes (view.span id) } := by
  unfold clearResident
  split_ifs with flagged
  · simp [View.put, flag, flaggedBytes, flagged]
  · have plain : { view.span id with residentEmpty := false } = view.span id := by
      rw [← Bool.eq_false_iff.mpr flagged]
    rw [plain, flag, flaggedBytes, if_neg flagged, if_neg flagged, View.put, View.span,
      update_eq_self]
    rfl

theorem Sound.unflag (sound : Sound terms none view out) (mem : id ∈ view.slab.mapped)
    (relists : Relists view id partials full empty)
    (later_alone : ∀ j, later = some j → j = id) (fits : later = none →
      (id ∈ partials → terms.Fitting .partials { view.span id with residentEmpty := false }) ∧
      (id ∈ full → terms.Fitting .full { view.span id with residentEmpty := false }) ∧
      (id ∈ empty → terms.Fitting .empty { view.span id with residentEmpty := false }))
    (focused : later = some id → id ∈ partials) :
    Sound terms later
      (view.put id { view.span id with residentEmpty := false } partials full empty
        (view.slab.residentEmptyCount - flag (view.span id))
        { view.resident with
          bytes := view.resident.bytes - flaggedBytes (view.span id) }) out := by
  have kept := sound.kept id mem
  have counted : flag (view.span id) ≤ view.slab.residentEmptyCount := by
    rw [sound.count]
    exact Slab.le_total flag mem
  have bytes : flaggedBytes (view.span id) ≤ view.resident.bytes := by
    rw [sound.bytes]
    exact Nat.le_add_left_of_le (Slab.le_total flaggedBytes mem)
  refine sound.put nofun mem relists (fun _ _ => rfl) later_alone fits
    (fun same => ⟨focused same, rfl⟩) (balanced_flagged kept.balanced false _) kept.served rfl
    (Nat.sub_add_cancel counted) (Nat.sub_add_cancel bytes) fun _ serial below => ?_
  exact ⟨serial, (Nat.sub_le _ _).trans below⟩

end Focus

end Smash.Slabs
