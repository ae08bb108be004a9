import Smash.PageTracking
import Smash.RadixTable

/-! Which span a page belongs to, kept three times: in the radix tree by page number, in the
region's flat table by page index, and as a 16-bit tag that names the thread-cache lane. A span
is its descriptor's identity with the three fields the tag is made of. The radix tree covers
48-bit addresses; its first level is a function of the row. -/
namespace Smash.PageMap

open PageMachine PageTracking RadixTable Function List

def kNumClasses : Nat := 36

def kPageMapL2Size : Nat := 2 ^ 16

instance : NeZero kPageMapL2Size := ⟨by decide⟩

structure Span where
  id : Nat
  isLarge : Bool
  arenaId : UInt8
  sizeClass : Fin kNumClasses
  deriving DecidableEq

section Tags

def kPageTagSmall : UInt16 := 0x8000

def pageTag : Option Span → UInt16
  | none => 0
  | some span =>
    if span.isLarge then 0
    else kPageTagSmall ||| (span.arenaId.toUInt16 <<< 6) ||| UInt16.ofNat span.sizeClass

/-- What `free` and `realloc` read off a tag: the lane, if the small bit is set. -/
def laneOf (tag : UInt16) : Option (UInt8 × UInt8) :=
  if tag &&& kPageTagSmall = 0 then none else some ((tag >>> 6).toUInt8, (tag &&& 63).toUInt8)

end Tags

/-- A page-aligned arena with its external pages, and the three representations. -/
structure Tables where
  region : Tracker
  aligned : region.arena.base % kPageSize = 0
  level1 : Table kPageMapL2Size Span
  span : Nat → Option Span
  tag : Nat → UInt16

def init (reg : Tracker) (aligned : reg.arena.base % kPageSize = 0) : Tables :=
  ⟨reg, aligned, fun _ => none, fun _ => none, fun _ => 0⟩

section Code

def totalPages (reg : Tracker) : Nat := reg.arena.contigPages + kTrackMaxPages

def contains (reg : Tracker) (addr : Nat) : Prop :=
  reg.arena.contains addr ∨ lookupIdx reg addr ≠ 0

instance (reg : Tracker) (addr : Nat) : Decidable (contains reg addr) :=
  inferInstanceAs (Decidable (_ ∨ _))

def setSpan (map : Tables) (i : Nat) (span : Option Span) (tag : UInt16) : Tables :=
  if totalPages map.region ≤ i then map
  else
    { map with
      span := update map.span i span
      tag := update map.tag i (if span.isSome then tag else 0) }

def storeRun {Value : Type} (table : Nat → Value) (first count : Nat) (v : Value) :
    Nat → Value :=
  (List.range count).foldl (fun table i => update table (first + i) v) table

def setSpanRange (map : Tables) (first count : Nat) (span : Option Span) (tag : UInt16) : Tables :=
  if totalPages map.region < first + count then map
  else
    { map with
      span := storeRun map.span first count span
      tag := storeRun map.tag first count (if span.isSome then tag else 0) }

def mirrorFlat (map : Tables) (addr : Nat) (span : Option Span) : Tables :=
  if contains map.region addr then setSpan map (pageIndex map.region addr) span (pageTag span)
  else map

def set (map : Tables) (addr : Nat) (span : Option Span) : Tables :=
  mirrorFlat { map with level1 := store map.level1 (addr / kPageSize) span } addr span

def get (map : Tables) (addr : Nat) : Option Span := lookup map.level1 (addr / kPageSize)

def setRange (map : Tables) (addr count : Nat) (span : Option Span) : Tables :=
  if count = 0 then map
  else
    let first := addr / kPageSize
    let filled := { map with level1 := fill map.level1 span first (first + count - 1) }
    if contains map.region addr then
      setSpanRange filled (pageIndex map.region addr) count span (pageTag span)
    else filled

def clearRange (map : Tables) (addr count : Nat) : Tables := setRange map addr count none

/-- What the comment at `setRange` compares it with. -/
def setEach (map : Tables) (addr count : Nat) (span : Option Span) : Tables :=
  (List.range count).foldl (fun map i => set map (addr + i * kPageSize) span) map

end Code

section Calls

inductive Call where
  | set (addr : Nat) (span : Option Span)
  | setRange (addr count : Nat) (span : Option Span)
  | clearRange (addr count : Nat)

def Call.addr : Call → Nat
  | .set addr _ | .setRange addr _ _ | .clearRange addr _ => addr

def Call.count : Call → Nat
  | .set _ _ => 1
  | .setRange _ count _ | .clearRange _ count => count

def Call.span : Call → Option Span
  | .set _ span | .setRange _ _ span => span
  | .clearRange _ _ => none

def apply (map : Tables) : Call → Tables
  | .set addr span => set map addr span
  | .setRange addr count span => setRange map addr count span
  | .clearRange addr count => clearRange map addr count

def InArena (arena : Arena) (addr count : Nat) : Prop :=
  arena.base ≤ addr ∧
    addr / kPageSize + count ≤ arena.base / kPageSize + arena.contigPages

def Covers (arena : Arena) (addr count i : Nat) : Prop :=
  addr / kPageSize ≤ arena.base / kPageSize + i ∧
    arena.base / kPageSize + i < addr / kPageSize + count

instance (arena : Arena) (addr count i : Nat) : Decidable (Covers arena addr count i) :=
  inferInstanceAs (Decidable (_ ∧ _))

def lastSpan (arena : Arena) (calls : List Call) (i : Nat) : Option Span :=
  calls.foldl
    (fun span call => if Covers arena call.addr call.count i then call.span else span) none

end Calls

section Effects

theorem storeRun_apply {Value : Type} (table : Nat → Value) (first count : Nat) (v : Value)
    (i : Nat) :
    storeRun table first count v i =
      if first ≤ i ∧ i < first + count then v else table i := by
  induction count with
  | zero =>
    rw [if_neg (by omega)]
    rfl
  | succ count ih =>
    rw [storeRun, range_succ, foldl_append]
    simp only [foldl_cons, foldl_nil]
    rcases eq_or_ne i (first + count) with same | apart
    · rw [same, update_self, if_pos (by omega)]
    · rw [update_of_ne apart]
      refine ih.trans ?_
      split_ifs <;> first | rfl | omega

/-- What a call has done: the three representations changed on its run and nowhere else. -/
structure Effect (map next : Tables) (addr count : Nat) (span : Option Span) : Prop where
  region : next.region = map.region
  values : ∀ page, lookup next.level1 page =
    if addr / kPageSize ≤ page ∧ page < addr / kPageSize + count then span
    else lookup map.level1 page
  parts : ∀ row, (next.level1 row).isSome ↔
    (∃ page, addr / kPageSize ≤ page ∧ page < addr / kPageSize + count ∧
      row = page / kPageMapL2Size) ∨ (map.level1 row).isSome
  spans : ∀ idx, next.span idx =
    if Covers map.region.arena addr count idx then span else map.span idx
  tags : ∀ idx, next.tag idx =
    if Covers map.region.arena addr count idx then pageTag span else map.tag idx

variable {map next j : Tables} {addr count : Nat} {span : Option Span}

theorem Effect.unique (first : Effect map next addr count span)
    (second : Effect map j addr count span) : next = j := by
  have reg : next.region = j.region := first.region.trans second.region.symm
  have level1 : next.level1 = j.level1 :=
    table_ext (fun row => Bool.eq_iff_iff.mpr ((first.parts row).trans (second.parts row).symm))
      fun page => (first.values page).trans (second.values page).symm
  have spans : next.span = j.span := funext fun i => (first.spans i).trans (second.spans i).symm
  have tags : next.tag = j.tag := funext fun i => (first.tags i).trans (second.tags i).symm
  cases next
  cases j
  simp only at reg level1 spans tags
  subst reg level1 spans tags
  rfl

theorem pageTag_isSome (span : Option Span) :
    (if span.isSome then pageTag span else 0) = pageTag span := by
  cases span <;> rfl

theorem arena_of_run (inside : InArena map.region.arena addr count) (some : 0 < count) :
    map.region.arena.contains addr ∧
      pageIndex map.region addr = addr / kPageSize - map.region.arena.base / kPageSize ∧
      map.region.arena.base / kPageSize ≤ addr / kPageSize := by
  have aligned := map.aligned
  obtain ⟨low, high⟩ := inside
  have page : kPageSize = 4096 := rfl
  have within : map.region.arena.contains addr := by
    refine ⟨low, ?_⟩
    simp only [page] at aligned high ⊢
    omega
  refine ⟨within, ?_, Nat.div_le_div_right low⟩
  rw [pageIndex, if_pos within]
  simp only [page] at aligned ⊢
  omega

theorem covers_iff (order : map.region.arena.base / kPageSize ≤ addr / kPageSize) (i : Nat) :
    (addr / kPageSize - map.region.arena.base / kPageSize ≤ i ∧
        i < addr / kPageSize - map.region.arena.base / kPageSize + count) ↔
      Covers map.region.arena addr count i := by
  unfold Covers
  omega

theorem set_eq (inside : InArena map.region.arena addr 1) :
    set map addr span =
      { map with
        level1 := store map.level1 (addr / kPageSize) span
        span := storeRun map.span (addr / kPageSize - map.region.arena.base / kPageSize) 1 span
        tag := storeRun map.tag (addr / kPageSize - map.region.arena.base / kPageSize) 1
          (pageTag span) } := by
  obtain ⟨within, i, order⟩ := arena_of_run inside Nat.one_pos
  have here : contains map.region addr := .inl within
  have high := inside.2
  rw [set, mirrorFlat, if_pos here, setSpan, if_neg, pageTag_isSome]
  · simp only [i]
    rfl
  · show ¬ totalPages map.region ≤ pageIndex map.region addr
    rw [totalPages, i]
    omega

theorem setRange_eq (inside : InArena map.region.arena addr count) (some : 0 < count) :
    setRange map addr count span =
      { map with
        level1 := fill map.level1 span (addr / kPageSize) (addr / kPageSize + count - 1)
        span := storeRun map.span (addr / kPageSize - map.region.arena.base / kPageSize) count span
        tag := storeRun map.tag (addr / kPageSize - map.region.arena.base / kPageSize) count
          (pageTag span) } := by
  obtain ⟨within, i, order⟩ := arena_of_run inside some
  have here : contains map.region addr := .inl within
  have high := inside.2
  rw [setRange, if_neg some.ne']
  dsimp only
  rw [if_pos here, setSpanRange, if_neg, pageTag_isSome, i]
  show ¬ totalPages map.region < pageIndex map.region addr + count
  rw [totalPages, i]
  omega

theorem set_effect (inside : InArena map.region.arena addr 1) :
    Effect map (set map addr span) addr 1 span := by
  obtain ⟨-, -, order⟩ := arena_of_run inside Nat.one_pos
  rw [set_eq inside]
  refine ⟨rfl, fun page => ?_, fun row => ?_, fun i => ?_, fun i => ?_⟩
  · rw [lookup_store]
    have single : (page = addr / kPageSize) ↔
        addr / kPageSize ≤ page ∧ page < addr / kPageSize + 1 := by omega
    simp only [single]
  · rw [store_isSome]
    refine or_congr ⟨fun same => ⟨addr / kPageSize, le_rfl, by omega, same⟩, ?_⟩ Iff.rfl
    rintro ⟨page, low, high, same⟩
    rw [same, show page = addr / kPageSize by omega]
  · simp only [storeRun_apply, covers_iff order]
  · simp only [storeRun_apply, covers_iff order]

theorem Effect.nothing (map : Tables) (addr : Nat) (span : Option Span) :
    Effect map map addr 0 span := by
  have nowhere : ∀ i, ¬ Covers map.region.arena addr 0 i := by
    intro i covered
    unfold Covers at covered
    omega
  refine ⟨rfl, fun page => (if_neg (by omega)).symm, fun row => ⟨.inr, ?_⟩,
    fun i => (if_neg (nowhere i)).symm, fun i => (if_neg (nowhere i)).symm⟩
  rintro (⟨page, low, high, -⟩ | made)
  · omega
  · exact made

theorem setRange_effect (inside : InArena map.region.arena addr count) :
    Effect map (setRange map addr count span) addr count span := by
  rcases Nat.eq_zero_or_pos count with none | some
  · subst none
    rw [setRange, if_pos rfl]
    exact Effect.nothing map addr span
  · obtain ⟨-, -, order⟩ := arena_of_run inside some
    rw [setRange_eq inside some]
    have ends : ∀ page, page ≤ addr / kPageSize + count - 1 ↔ page < addr / kPageSize + count :=
      fun page => Nat.le_sub_one_iff_lt (Nat.add_pos_right _ some)
    refine ⟨rfl, fun page => ?_, fun row => ?_, fun i => ?_, fun i => ?_⟩
    · rw [lookup_fill]
      simp only [ends]
    · rw [fill_isSome]
      simp only [ends]
    · simp only [storeRun_apply, covers_iff order]
    · simp only [storeRun_apply, covers_iff order]

theorem Effect.append {middle : Tables} (first : Effect map middle addr count span)
    (second : Effect middle next (addr + count * kPageSize) 1 span) :
    Effect map next addr (count + 1) span := by
  have page : (addr + count * kPageSize) / kPageSize = addr / kPageSize + count :=
    Nat.add_mul_div_right _ _ (by decide)
  have covers : ∀ i, Covers map.region.arena addr (count + 1) i ↔
      Covers map.region.arena (addr + count * kPageSize) 1 i ∨
        Covers map.region.arena addr count i := by
    intro i
    unfold Covers
    rw [page]
    omega
  refine ⟨second.region.trans first.region, fun page => ?_, fun row => ?_, fun i => ?_, fun i => ?_⟩
  · rw [second.values, first.values]
    split_ifs <;> first | rfl | omega
  · rw [second.parts, first.parts, ← or_assoc, page]
    refine or_congr ⟨?_, ?_⟩ Iff.rfl
    · rintro (⟨i, low, high, same⟩ | ⟨i, low, high, same⟩)
      · exact ⟨i, by omega, by omega, same⟩
      · exact ⟨i, low, by omega, same⟩
    · rintro ⟨i, low, high, same⟩
      rcases Nat.lt_or_ge i (addr / kPageSize + count) with pre | last
      · exact .inr ⟨i, low, pre, same⟩
      · exact .inl ⟨i, last, by omega, same⟩
  · rw [second.spans, first.spans, first.region]
    simp only [covers]
    split_ifs <;> first | rfl | tauto
  · rw [second.tags, first.tags, first.region]
    simp only [covers]
    split_ifs <;> first | rfl | tauto

theorem setEach_effect (inside : InArena map.region.arena addr count) :
    Effect map (setEach map addr count span) addr count span := by
  induction count with
  | zero => exact Effect.nothing map addr span
  | succ count ih =>
    have pre : Effect map (setEach map addr count span) addr count span := by
      refine ih ⟨inside.1, ?_⟩
      have high := inside.2
      omega
    have next : setEach map addr (count + 1) span =
        set (setEach map addr count span) (addr + count * kPageSize) span := by
      rw [setEach, range_succ, foldl_append]
      rfl
    rw [next]
    refine pre.append (set_effect ?_)
    rw [pre.region]
    have page : (addr + count * kPageSize) / kPageSize = addr / kPageSize + count :=
      Nat.add_mul_div_right _ _ (by decide)
    exact ⟨inside.1.trans (Nat.le_add_right _ _), by rw [page]; exact inside.2⟩

end Effects

section Fields

theorem or_and (a b c : UInt16) : (a ||| b) &&& c = (a &&& c) ||| (b &&& c) := by
  apply UInt16.toNat_inj.mp
  simp only [UInt16.toNat_and, UInt16.toNat_or, Nat.and_or_distrib_right]

theorem arena_bits : ∀ arena : Fin 256,
    (((UInt8.ofNat arena).toUInt16 <<< 6) >>> 6).toUInt8 = UInt8.ofNat arena ∧
      ((UInt8.ofNat arena).toUInt16 <<< 6) &&& 63 = 0 ∧
      ((UInt8.ofNat arena).toUInt16 <<< 6) &&& kPageTagSmall = 0 := by
  decide +kernel

theorem class_bits : ∀ sc : Fin kNumClasses, UInt16.ofNat sc >>> 6 = 0 ∧
      (UInt16.ofNat sc &&& 63).toUInt8 = UInt8.ofNat sc ∧
      UInt16.ofNat sc &&& kPageTagSmall = 0 := by
  decide +kernel

/-- Arena and size class come back out of the tag: the three fields do not overlap. -/
theorem laneOf_small (arena : UInt8) (sc : Fin kNumClasses) :
    laneOf (kPageTagSmall ||| (arena.toUInt16 <<< 6) ||| UInt16.ofNat sc) =
      some (arena, UInt8.ofNat sc) := by
  obtain ⟨arenaBits, arenaClass, arenaFlag⟩ := arena_bits ⟨arena.toNat, arena.toNat_lt⟩
  obtain ⟨classBits, classClass, classFlag⟩ := class_bits sc
  simp only [UInt8.ofNat_toNat] at arenaBits arenaClass arenaFlag
  rw [laneOf, if_neg]
  · have flagBits : (kPageTagSmall >>> 6).toUInt8 = 0 := by decide
    have flagClass : (kPageTagSmall &&& 63).toUInt8 = 0 := by decide
    simp only [UInt16.shiftRight_or, UInt16.toUInt8_or, or_and, arenaBits, arenaClass, classBits,
      classClass, flagBits, flagClass]
    simp
  · simp only [or_and, arenaFlag, classFlag]
    decide

def lane : Option Span → Option (UInt8 × UInt8)
  | none => none
  | some span => if span.isLarge then none else some (span.arenaId, UInt8.ofNat span.sizeClass)

theorem laneOf_pageTag (span : Option Span) : laneOf (pageTag span) = lane span := by
  cases span with
  | none => decide
  | some span =>
    cases large : span.isLarge
    · simp [pageTag, lane, large, laneOf_small]
    · simp [pageTag, lane, large, laneOf]

end Fields

section Agreement

def run (map : Tables) (calls : List Call) : Tables := calls.foldl apply map

def CallInArena (arena : Arena) (call : Call) : Prop := InArena arena call.addr call.count

theorem apply_effect {map : Tables} {call : Call} (inside : CallInArena map.region.arena call) :
    Effect map (apply map call) call.addr call.count call.span := by
  cases call with
  | set addr span => exact set_effect inside
  | setRange addr count span => exact setRange_effect inside
  | clearRange addr count => exact setRange_effect inside

/-- The three representations of the arena pages say the same. -/
structure Agrees (map : Tables) (spans : Nat → Option Span) : Prop where
  radix : ∀ idx, lookup map.level1 (map.region.arena.base / kPageSize + idx) = spans idx
  flat : ∀ idx, map.span idx = spans idx
  tag : ∀ idx, map.tag idx = pageTag (spans idx)

theorem Agrees.step {map next : Tables} {spans : Nat → Option Span} {addr count : Nat}
    {span : Option Span} (agrees : Agrees map spans) (effect : Effect map next addr count span) :
    Agrees next fun i =>
      if Covers map.region.arena addr count i then span else spans i := by
  refine ⟨fun i => ?_, fun i => ?_, fun i => ?_⟩
  · rw [effect.region, effect.values, agrees.radix]
    rfl
  · rw [effect.spans, agrees.flat]
  · rw [effect.tags, agrees.tag]
    split <;> rfl

theorem run_agrees {map : Tables} {spans : Nat → Option Span} (agrees : Agrees map spans)
    {calls : List Call} (inside : ∀ call ∈ calls, CallInArena map.region.arena call) :
    (run map calls).region = map.region ∧
      Agrees (run map calls) fun i => calls.foldl
        (fun span call =>
          if Covers map.region.arena call.addr call.count i then call.span else span)
        (spans i) := by
  induction calls generalizing map spans with
  | nil => exact ⟨rfl, agrees⟩
  | cons call rest ih =>
    have effect := apply_effect (inside call mem_cons_self)
    have further := ih (agrees.step effect) fun j mem => by
      rw [effect.region]
      exact inside j (mem_cons_of_mem _ mem)
    rw [effect.region] at further
    exact further

/-- After any calls on runs inside the arena, at every address of every arena page the radix
tree, the flat table and the tag name the span of the last call that covers the page, and
`setRange` does what setting page by page does. -/
theorem representations_agree (reg : Tracker) (aligned : reg.arena.base % kPageSize = 0)
    (calls : List Call) (inside : ∀ call ∈ calls, CallInArena reg.arena call) :
    (∀ addr, reg.arena.contains addr →
      let i := pageIndex reg addr
      let map := run (init reg aligned) calls
      get map addr = lastSpan reg.arena calls i ∧
        map.span i = lastSpan reg.arena calls i ∧
        map.tag i = pageTag (lastSpan reg.arena calls i) ∧
        laneOf (map.tag i) = lane (lastSpan reg.arena calls i)) ∧
      ∀ addr count span, InArena reg.arena addr count →
        setRange (run (init reg aligned) calls) addr count span =
          setEach (run (init reg aligned) calls) addr count span := by
  have fresh : Agrees (init reg aligned) fun _ => none := ⟨fun _ => rfl, fun _ => rfl, fun _ => rfl⟩
  obtain ⟨same, agrees⟩ := run_agrees fresh inside
  constructor
  · intro addr within
    have place : addr / kPageSize = reg.arena.base / kPageSize + pageIndex reg addr := by
      rw [pageIndex, if_pos within]
      obtain ⟨low, -⟩ := within
      have page : kPageSize = 4096 := rfl
      simp only [page] at aligned ⊢
      omega
    have radix := agrees.radix (pageIndex reg addr)
    rw [same] at radix
    refine ⟨?_, agrees.flat _, agrees.tag _, ?_⟩
    · rw [get, place]
      exact radix
    · rw [agrees.tag, laneOf_pageTag]
      rfl
  · intro addr count span within
    have there : InArena (PageMap.run (init reg aligned) calls).region.arena addr count := by
      rw [same]
      exact within
    exact (setRange_effect there).unique (setEach_effect there)

def boundaryRegion : Tracker :=
  PageTracking.fresh ⟨2 ^ 28 - 4096, 2, Nat.two_pos, by decide⟩ fun _ => .empty

def boundarySpan : Span := ⟨7, false, 3, ⟨5, by decide⟩⟩

def boundaryCalls : List Call :=
  [.setRange (2 ^ 28 - 4096) 2 (some boundarySpan), .clearRange (2 ^ 28 - 4096) 1]

theorem representations_agree_at_boundary :
    let map := run (init boundaryRegion (by decide)) boundaryCalls
    get map (2 ^ 28 + 16) = some boundarySpan ∧ map.span 1 = some boundarySpan ∧
      laneOf (map.tag 1) = some (3, 5) ∧ map.span 0 = none := by
  have inside : ∀ call ∈ boundaryCalls, CallInArena boundaryRegion.arena call := by
    simp only [boundaryCalls, forall_mem_cons]
    refine ⟨⟨by decide, by decide⟩, ⟨by decide, by decide⟩, by simp⟩
  have agree := (representations_agree boundaryRegion (by decide) boundaryCalls inside).1
  have second := agree (2 ^ 28 + 16) (by decide)
  have first := agree (2 ^ 28 - 4096) (by decide)
  have i : pageIndex boundaryRegion (2 ^ 28 + 16) = 1 := by decide
  have start : pageIndex boundaryRegion (2 ^ 28 - 4096) = 0 := by decide
  have last : lastSpan boundaryRegion.arena boundaryCalls 1 = some boundarySpan := by decide
  have cleared : lastSpan boundaryRegion.arena boundaryCalls 0 = none := by decide
  simp only [i, last] at second
  simp only [start, cleared] at first
  exact ⟨second.1, second.2.1, second.2.2.2.trans (by decide), first.2.1⟩

end Agreement

end Smash.PageMap
