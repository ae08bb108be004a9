import Smash.MachineWord
import Smash.Transition

/-! The bootstrap allocator: a lock-free bump in each region, a commit watermark that is raised
under a lock, and regions added under the same lock while other threads scan the list and ask
`owns`. Every atomic load, store and compare-exchange is one step. -/
namespace Smash.BootstrapAlloc

open Function (update update_self update_of_ne)
open MachineWord Transition

section Code

def kBootstrapInitialSize : Nat := 64 * 1024 * 1024
def kBootstrapExpandSize : Nat := 16 * 1024 * 1024
def kBootstrapMaxRegions : Nat := 64

/-- `(off + align - 1) & ~(align - 1)` in 64 bits. -/
def alignedOffset (off align : Nat) : Nat :=
  let word := fetchSub (off + align) 1
  word - (word &&& fetchSub align 1)

/-- Who called `tryAllocFrom`: the loop of `allocate` with so many regions left, or one of the two
calls of `expandAndAllocate`, which hold the lock. -/
inductive Site where
  | scan (left : Nat)
  | recheck
  | fresh

def Site.lockHeld : Site → Bool
  | .scan _ => false
  | .recheck | .fresh => true

/-- A request and the region it is at; `off` is the offset read, later the one handed out. -/
structure Call where
  size : Nat
  align : Nat
  site : Site
  idx : Nat
  off : Nat

/-- `end` in `tryAllocFrom` -/
def Call.stop (call : Call) : Nat := fetchAdd call.off call.size

/-- Where a thread is; each constructor is named after the step that comes next. -/
inductive Stage where
  | idle
  | load (call : Call)
  | bump (call : Call)
  | check (call : Call)
  | lockCommit (call : Call)
  | commit (call : Call)
  | protect (call : Call) (cur target : Nat)
  | store (call : Call) (target : Nat)
  | finish (call : Call) (locked : Bool)
  | lockExpand (call : Call)
  | recheck (call : Call)
  | map (call : Call)
  | lower (call : Call) (seen : Option Nat)
  | raise (call : Call) (seen : Option Nat)
  | reload (call : Call)
  | fail
  | ownsLo (ptr : Nat) (before : List Call)
  | ownsHi (ptr : Nat) (before : List Call)
  | ownsCount (ptr : Nat) (before : List Call)

/-- The answer of an `owns` call, with what had been returned when it began. -/
structure Answer where
  ptr : Nat
  before : List Call
  owned : Bool

/-- The fields of `regions_[i]` are `base i`, `capacity i`, `offset i` and `committed i`. -/
structure State where
  base : Nat → Nat
  capacity : Nat → Nat
  offset : Nat → Nat
  committed : Nat → Nat
  numRegions : Nat
  boundsLo : Nat
  boundsHi : Nat
  expandLock : Option Nat
  stage : Nat → Stage
  /-- What `commitPages` was called on: addresses and lengths. -/
  pages : List (Nat × Nat)
  /-- How many regions the bounds cover for certain. -/
  covered : Nat
  returned : List Call
  answers : List Answer

/-- What is outside the program: the page size, as `sysconf` gives it. -/
structure Machine where
  pageShift : Nat
  small : pageShift ≤ 62

def Machine.pageSize (m : Machine) : Nat := 2 ^ m.pageShift

/-- A failed compare-exchange that should succeed, and where `mmap` puts a region. -/
structure Choice where
  spurious : Bool
  mapped : Option Nat

/-- `mmap` returns whole pages that nothing else is mapped to. -/
def Admissible (m : Machine) (s : State) (base size : Nat) : Prop :=
  base % m.pageSize = 0 ∧ base + size < wordSize ∧
    ∀ i < s.numRegions, s.base i + s.capacity i ≤ base ∨ base + size ≤ s.base i

instance (m : Machine) (s : State) (base size : Nat) : Decidable (Admissible m s base size) :=
  instDecidableAnd

def noRoom (call : Call) : Stage :=
  match call.site with
  | .scan 0 => .lockExpand call
  | .scan (left + 1) => .load { call with site := .scan left, idx := left }
  | .recheck => .map call
  | .fresh => .fail

def expandSize (call : Call) : Nat := max kBootstrapExpandSize (fetchAdd call.size call.align)

def commitTarget (m : Machine) (s : State) (call : Call) : Nat :=
  min (alignedOffset call.stop m.pageSize) (s.capacity call.idx)

/-- The fields of the new region are written before it is counted, so nobody sees them change. -/
def addRegion (s : State) (base size : Nat) : State :=
  { s with
    base := update s.base s.numRegions base, capacity := update s.capacity s.numRegions size,
    offset := update s.offset s.numRegions 0, committed := update s.committed s.numRegions 0,
    numRegions := s.numRegions + 1 }

def owned (s : State) (ptr : Nat) : Bool :=
  (List.range s.numRegions).any fun i => decide (s.base i ≤ ptr ∧ ptr < s.base i + s.capacity i)

def act (m : Machine) (s : State) (t : Nat) (ch : Choice) : Option State :=
  let goes (stage : Stage) (s : State) : Option State :=
    some { s with stage := update s.stage t stage }
  let answers (ptr : Nat) (pre : List Call) (owned : Bool) : Option State :=
    goes .idle { s with answers := ⟨ptr, pre, owned⟩ :: s.answers }
  match s.stage t with
  | .idle => none
  | .load call => goes (.bump { call with off := s.offset call.idx }) s
  | .bump call =>
    let taken := { call with off := alignedOffset call.off call.align }
    if s.capacity call.idx < taken.stop then goes (noRoom call) s
    else if s.offset call.idx = call.off ∧ ¬ ch.spurious then
      goes (.check taken) { s with offset := update s.offset call.idx taken.stop }
    else goes (.bump { call with off := s.offset call.idx }) s
  | .check call =>
    if call.stop ≤ s.committed call.idx then goes (.finish call call.site.lockHeld) s
    else goes (if call.site.lockHeld then .commit call else .lockCommit call) s
  | .lockCommit call =>
    if s.expandLock = none then goes (.commit call) { s with expandLock := some t } else none
  | .commit call =>
    let cur := s.committed call.idx
    let target := commitTarget m s call
    goes (if target ≤ cur then .finish call true else .protect call cur target) s
  | .protect call cur target =>
    goes (.store call target) { s with pages := (s.base call.idx + cur, target - cur) :: s.pages }
  | .store call target =>
    goes (.finish call true) { s with committed := update s.committed call.idx target }
  | .finish call locked =>
    goes .idle { s with
      expandLock := if locked then none else s.expandLock, returned := call :: s.returned }
  | .lockExpand call =>
    if s.expandLock = none then goes (.recheck call) { s with expandLock := some t } else none
  | .recheck call =>
    goes (if s.numRegions = 0 then .map call
      else .load { call with site := .recheck, idx := s.numRegions - 1 }) s
  | .map call =>
    match ch.mapped with
    | none => goes .fail s
    | some base =>
      if Admissible m s base (expandSize call) then
        if kBootstrapMaxRegions ≤ s.numRegions then goes .fail s
        else goes (.lower { call with idx := s.numRegions } none)
          (addRegion s base (expandSize call))
      else none
  | .lower call seen =>
    match seen with
    | none => goes (.lower call (some s.boundsLo)) s
    | some lo =>
      if lo ≤ s.base call.idx then goes (.raise call none) s
      else if s.boundsLo = lo ∧ ¬ ch.spurious then
        goes (.raise call none) { s with boundsLo := s.base call.idx }
      else goes (.lower call (some s.boundsLo)) s
  | .raise call seen =>
    let stop := s.base call.idx + s.capacity call.idx
    match seen with
    | none => goes (.raise call (some s.boundsHi)) s
    | some hi =>
      if stop ≤ hi then goes (.reload call) { s with covered := call.idx + 1 }
      else if s.boundsHi = hi ∧ ¬ ch.spurious then
        goes (.reload call) { s with boundsHi := stop, covered := call.idx + 1 }
      else goes (.raise call (some s.boundsHi)) s
  | .reload call => goes (.load { call with site := .fresh, idx := s.numRegions - 1 }) s
  | .fail => goes .idle { s with expandLock := none }
  | .ownsLo ptr pre =>
    if ptr < s.boundsLo then answers ptr pre false else goes (.ownsHi ptr pre) s
  | .ownsHi ptr pre =>
    if s.boundsHi ≤ ptr then answers ptr pre false else goes (.ownsCount ptr pre) s
  | .ownsCount ptr pre => answers ptr pre (owned s ptr)

inductive Label where
  | allocate (tid size align : Nat)
  | owns (tid ptr : Nat)
  | act (tid : Nat) (choice : Choice)

def step (m : Machine) (s : State) : Label → Option State
  | .allocate t size align =>
    match s.stage t with
    | .idle =>
      let call : Call := ⟨if size = 0 then 1 else size, align, .scan s.numRegions, 0, 0⟩
      some { s with stage := update s.stage t (noRoom call) }
    | _ => none
  | .owns t ptr =>
    match s.stage t with
    | .idle => some { s with stage := update s.stage t (.ownsLo ptr s.returned) }
    | _ => none
  | .act t ch => act m s t ch

def blank : State :=
  ⟨fun _ => 0, fun _ => 0, fun _ => 0, fun _ => 0, 0, wordSize - 1, 0, none, fun _ => .idle, [], 0,
    [], []⟩

/-- The constructor adds the first region, if there is memory for it. -/
def initial : Option Nat → State
  | none => blank
  | some base =>
    { addRegion blank base kBootstrapInitialSize with
      boundsLo := min (wordSize - 1) base, boundsHi := base + kBootstrapInitialSize, covered := 1 }

end Code

section Invariant

theorem alignedOffset_spec {off align : Nat} (positive : 0 < align)
    (fits : off + align < wordSize) :
    off ≤ alignedOffset off align ∧ alignedOffset off align < off + align ∧
      ∀ k, align = 2 ^ k → alignedOffset off align % align = 0 := by
  have word : fetchSub (off + align) 1 = off + align - 1 := fetchSub_of_le (by omega) fits
  have mask : fetchSub align 1 = align - 1 := fetchSub_of_le positive (by omega)
  have most : off + align - 1 &&& align - 1 ≤ align - 1 := Nat.and_le_right
  simp only [alignedOffset, word, mask]
  refine ⟨by omega, by omega, ?_⟩
  rintro k rfl
  rw [Nat.and_two_pow_sub_one_eq_mod]
  exact Nat.mod_eq_zero_of_dvd (Nat.dvd_sub_mod _)

/-- The requests for which no sum wraps around. -/
def Call.Fit (call : Call) : Prop :=
  0 < call.size ∧ call.size < 2 ^ 62 ∧ 0 < call.align ∧ call.align ≤ 2 ^ 62

/-- The range of a call that has moved the offset. -/
structure Claimed (s : State) (call : Call) : Prop where
  fit : call.Fit
  published : call.idx < s.numRegions
  below : call.off + call.size ≤ s.offset call.idx
  aligned : ∀ k, call.align = 2 ^ k → call.off % call.align = 0

def Done (s : State) (call : Call) : Prop :=
  Claimed s call ∧ call.off + call.size ≤ s.committed call.idx

def Apart (first second : Call) : Prop :=
  first.idx ≠ second.idx ∨ first.off + first.size ≤ second.off ∨
    second.off + second.size ≤ first.off

def Committed (s : State) (addr : Nat) : Prop :=
  ∃ page ∈ s.pages, page.1 ≤ addr ∧ addr < page.1 + page.2

def Stage.locked : Stage → Bool
  | .load call | .bump call | .check call => call.site.lockHeld
  | .finish _ locked => locked
  | .commit _ | .protect .. | .store .. | .recheck _ | .map _ | .lower .. | .raise .. | .reload _
  | .fail => true
  | .idle | .lockCommit _ | .lockExpand _ | .ownsLo .. | .ownsHi .. | .ownsCount .. => false

/-- The bounds do not cover the newest region yet. -/
def Stage.pending : Stage → Bool
  | .lower .. | .raise .. => true
  | _ => false

def Stage.claim : Stage → Option Call
  | .check call | .lockCommit call | .commit call | .protect call _ _ | .store call _
  | .finish call _ => some call
  | _ => none

def StageSound (s : State) : Stage → Prop
  | .idle | .fail => True
  | .load call | .bump call => call.Fit ∧ call.idx < s.numRegions ∧
      ∀ left, call.site = .scan left → left ≤ s.numRegions
  | .check call | .lockCommit call | .commit call => Claimed s call
  | .protect call cur target => Claimed s call ∧ call.off + call.size ≤ target ∧
      target ≤ s.capacity call.idx ∧ s.committed call.idx = cur ∧ cur ≤ target
  | .store call target => Claimed s call ∧ call.off + call.size ≤ target ∧
      target ≤ s.capacity call.idx ∧ s.committed call.idx ≤ target ∧
      ∀ b < target, Committed s (s.base call.idx + b)
  | .finish call _ => Done s call
  | .lockExpand call | .recheck call | .map call => call.Fit
  | .lower call seen => call.Fit ∧ call.idx + 1 = s.numRegions ∧ s.covered = call.idx ∧
      ∀ lo ∈ seen, s.boundsLo ≤ lo
  | .raise call seen => call.Fit ∧ call.idx + 1 = s.numRegions ∧ s.covered = call.idx ∧
      s.boundsLo ≤ s.base call.idx ∧ ∀ hi ∈ seen, hi ≤ s.boundsHi
  | .reload call => call.Fit ∧ 0 < s.numRegions
  | .ownsLo _ pre | .ownsHi _ pre | .ownsCount _ pre => pre ⊆ s.returned

structure Layout (m : Machine) (s : State) : Prop where
  pageAligned : ∀ i < s.numRegions, s.base i % m.pageSize = 0
  mapped : ∀ i < s.numRegions, s.base i + s.capacity i < wordSize ∧ s.capacity i < 2 ^ 63
  apart : ∀ i j, i < j → j < s.numRegions →
    s.base i + s.capacity i ≤ s.base j ∨ s.base j + s.capacity j ≤ s.base i
  offset : ∀ i < s.numRegions, s.offset i ≤ s.capacity i
  committed : ∀ i < s.numRegions, s.committed i ≤ s.capacity i
  pages : ∀ i < s.numRegions, ∀ b < s.committed i, Committed s (s.base i + b)
  most : s.covered ≤ s.numRegions
  covered : ∀ i < s.covered, s.boundsLo ≤ s.base i ∧ s.base i + s.capacity i ≤ s.boundsHi
  uncovered : ∀ i, s.covered ≤ i → i < s.numRegions → s.committed i = 0

/-- A thread that asks for an address of a range returned before is told that it is owned, and
nothing outside the regions is. -/
structure AnswerSound (s : State) (answer : Answer) : Prop where
  before : answer.before ⊆ s.returned
  owned : ∀ call ∈ answer.before, s.base call.idx + call.off ≤ answer.ptr →
    answer.ptr < s.base call.idx + call.off + call.size → answer.owned = true
  inside : answer.owned = true → ∃ i < s.numRegions, s.base i ≤ answer.ptr ∧
    answer.ptr < s.base i + s.capacity i

structure Sound (m : Machine) (s : State) : Prop extends Layout m s where
  lock : ∀ tid, (s.stage tid).locked = true ↔ s.expandLock = some tid
  settled : (∀ tid, (s.stage tid).pending = false) → s.covered = s.numRegions
  stages : ∀ tid, StageSound s (s.stage tid)
  inFlight : ∀ t u, t ≠ u → ∀ c ∈ (s.stage t).claim, ∀ d ∈ (s.stage u).claim, Apart c d
  fresh : ∀ t, ∀ c ∈ (s.stage t).claim, ∀ d ∈ s.returned, Apart c d
  disjoint : s.returned.Pairwise Apart
  returned : ∀ call ∈ s.returned, Done s call
  answers : ∀ answer ∈ s.answers, AnswerSound s answer

/-- What a step of any thread does to the shared data. -/
structure Grows (s next : State) : Prop where
  count : s.numRegions ≤ next.numRegions
  base : ∀ i < s.numRegions, next.base i = s.base i
  capacity : ∀ i < s.numRegions, next.capacity i = s.capacity i
  offset : ∀ i < s.numRegions, s.offset i ≤ next.offset i
  committed : ∀ i < s.numRegions, s.committed i ≤ next.committed i
  pages : s.pages ⊆ next.pages
  returned : s.returned ⊆ next.returned
  lo : next.boundsLo ≤ s.boundsLo
  hi : s.boundsHi ≤ next.boundsHi

structure Still (s next : State) : Prop where
  count : next.numRegions = s.numRegions
  covered : next.covered = s.covered
  committed : ∀ i < s.numRegions, next.committed i = s.committed i

end Invariant

section Stability

variable {m : Machine} {s next : State} {call : Call}

theorem Committed.mono {addr : Nat} (h : Committed s addr) (grows : Grows s next) :
    Committed next addr := by
  obtain ⟨page, mem, within⟩ := h
  exact ⟨page, grows.pages mem, within⟩

theorem Claimed.mono (h : Claimed s call) (grows : Grows s next) : Claimed next call :=
  { h with
    published := Nat.lt_of_lt_of_le h.published grows.count
    below := Nat.le_trans h.below (grows.offset _ h.published) }

theorem Done.mono (h : Done s call) (grows : Grows s next) : Done next call :=
  ⟨h.1.mono grows, Nat.le_trans h.2 (grows.committed _ h.1.published)⟩

theorem StageSound.mono {stage : Stage} (h : StageSound s stage) (grows : Grows s next)
    (still : stage.locked = true → Still s next) : StageSound next stage := by
  cases stage with
  | idle | fail => trivial
  | load call | bump call =>
    obtain ⟨fit, published, left⟩ := h
    exact ⟨fit, Nat.lt_of_lt_of_le published grows.count,
      fun k site => Nat.le_trans (left k site) grows.count⟩
  | check call | lockCommit call | commit call => exact Claimed.mono h grows
  | protect call cur target =>
    obtain ⟨claimed, low, high, same, order⟩ := h
    rw [← grows.capacity _ claimed.published] at high
    rw [← (still rfl).committed _ claimed.published] at same
    exact ⟨claimed.mono grows, low, high, same, order⟩
  | store call target =>
    obtain ⟨claimed, low, high, order, filled⟩ := h
    rw [← grows.capacity _ claimed.published] at high
    rw [← (still rfl).committed _ claimed.published] at order
    refine ⟨claimed.mono grows, low, high, order, fun b below => ?_⟩
    rw [grows.base _ claimed.published]
    exact (filled b below).mono grows
  | finish call locked => exact Done.mono h grows
  | lockExpand call | recheck call | map call => exact h
  | lower call seen =>
    rw [StageSound, (still rfl).count, (still rfl).covered]
    obtain ⟨fit, last, covered, lo⟩ := h
    exact ⟨fit, last, covered, fun v mem => Nat.le_trans grows.lo (lo v mem)⟩
  | raise call seen =>
    obtain ⟨fit, last, covered, lo, hi⟩ := h
    rw [StageSound, (still rfl).count, (still rfl).covered, grows.base _ (by omega)]
    exact ⟨fit, last, covered, Nat.le_trans grows.lo lo,
      fun v mem => Nat.le_trans (hi v mem) grows.hi⟩
  | reload call => exact ⟨h.1, Nat.lt_of_lt_of_le h.2 grows.count⟩
  | ownsLo ptr pre | ownsHi ptr pre | ownsCount ptr pre =>
    exact List.Subset.trans h grows.returned

theorem AnswerSound.mono {ans : Answer} (h : AnswerSound s ans)
    (returned : ∀ call ∈ s.returned, Done s call) (grows : Grows s next) :
    AnswerSound next ans where
  before := List.Subset.trans h.before grows.returned
  owned := fun call mem => by
    rw [grows.base _ (returned call (h.before mem)).1.published]
    exact h.owned call mem
  inside := fun owned => by
    obtain ⟨i, below, within⟩ := h.inside owned
    refine ⟨i, Nat.lt_of_lt_of_le below grows.count, ?_⟩
    rwa [grows.base i below, grows.capacity i below]

end Stability

section Steps

variable {m : Machine} {s next : State} {th : Nat} {stage pre : Stage} {call : Call}

theorem Apart.symm {first second : Call} (apart : Apart first second) : Apart second first := by
  unfold Apart at *
  omega

theorem Grows.refl (s : State) : Grows s s :=
  ⟨Nat.le_refl _, fun _ _ => rfl, fun _ _ => rfl, fun _ _ => Nat.le_refl _,
    fun _ _ => Nat.le_refl _, fun _ => id, fun _ => id, Nat.le_refl _, Nat.le_refl _⟩

/-- A step of one thread: what it does to the shared data is fit for the others, and what it knows
itself is true afterwards. -/
theorem Sound.advance (h : Sound m s) (at_ : s.stage th = pre)
    (here : next.stage = update s.stage th stage) (still : pre.locked = true ∨ Still s next)
    (theirs : ∀ u ≠ th, next.expandLock = some u ↔ s.expandLock = some u)
    (mine : stage.locked = true ↔ next.expandLock = some th)
    (settled : stage.pending = true ∨ next.covered = next.numRegions ∨
      pre.pending = false ∧ Still s next) (claims : ∀ c ∈ stage.claim, c ∈ pre.claim ∨
      (∀ u ≠ th, ∀ d ∈ (s.stage u).claim, Apart c d) ∧ ∀ d ∈ s.returned, Apart c d)
    (returned : next.returned = s.returned ∨ stage.claim = none ∧
      ∃ c ∈ pre.claim, Done next c ∧ next.returned = c :: s.returned)
    (answers : ∀ ans ∈ next.answers, ans ∈ s.answers ∨ AnswerSound next ans)
    (grows : Grows s next) (layout : Layout m next) (own : StageSound next stage) :
    Sound m next := by
  have self : next.stage th = stage := by rw [here, update_self]
  have others : ∀ u ≠ th, next.stage u = s.stage u := fun u j => by
    rw [here, update_of_ne j]
  have apart : ∀ c ∈ stage.claim, (∀ u ≠ th, ∀ d ∈ (s.stage u).claim, Apart c d) ∧
      ∀ d ∈ s.returned, Apart c d := fun c mem => (claims c mem).elim
    (fun held => ⟨fun u j => h.inFlight th u j.symm c (at_ ▸ held),
      h.fresh th c (at_ ▸ held)⟩) id
  refine ⟨layout, fun u => ?_, fun idle => ?_, fun u => ?_,
    fun t u different c first d second => ?_, fun t c mem d done => ?_, ?_, fun c mem => ?_,
    fun ans mem => ?_⟩
  · by_cases same : u = th
    · rw [same, self]
      exact mine
    · rw [others u same, theirs u same]
      exact h.lock u
  · rcases settled with pending | done | ⟨quiet, same⟩
    · rw [← self, idle th] at pending
      cases pending
    · exact done
    · rw [same.covered, same.count]
      refine h.settled fun u => ?_
      by_cases here : u = th
      · rw [here, at_]
        exact quiet
      · rw [← others u here]
        exact idle u
  · by_cases same : u = th
    · rw [same, self]
      exact own
    · rw [others u same]
      refine (h.stages u).mono grows fun locked => still.resolve_left fun held => same ?_
      have holder := (h.lock u).mp locked
      rw [(h.lock th).mp (at_ ▸ held)] at holder
      exact (Option.some.inj holder).symm
  · by_cases here : t = th
    · subst here
      rw [self] at first
      rw [others u different.symm] at second
      exact (apart c first).1 u different.symm d second
    · rw [others t here] at first
      by_cases there : u = th
      · subst there
        rw [self] at second
        exact ((apart d second).1 t here c first).symm
      · rw [others u there] at second
        exact h.inFlight t u different c first d second
  · by_cases here : t = th
    · subst here
      rw [self] at mem
      rcases returned with same | ⟨none, -⟩
      · rw [same] at done
        exact (apart c mem).2 d done
      · rw [none] at mem
        cases mem
    · rw [others t here] at mem
      rcases returned with same | ⟨-, new, held, -, same⟩ <;> rw [same] at done
      · exact h.fresh t c mem d done
      · rcases List.mem_cons.mp done with rfl | done
        · exact h.inFlight t th here c mem d (at_ ▸ held)
        · exact h.fresh t c mem d done
  · rcases returned with same | ⟨-, new, held, -, same⟩ <;> rw [same]
    · exact h.disjoint
    · exact List.pairwise_cons.mpr ⟨h.fresh th new (at_ ▸ held), h.disjoint⟩
  · rcases returned with same | ⟨-, new, -, done, same⟩ <;> rw [same] at mem
    · exact (h.returned c mem).mono grows
    · rcases List.mem_cons.mp mem with rfl | mem
      · exact done
      · exact (h.returned c mem).mono grows
  · rcases answers ans mem with old | sound
    · exact (h.answers ans old).mono h.returned grows
    · exact sound

/-- Steps that touch nothing but the thread's own stage and the lock. -/
theorem Sound.move (h : Sound m s) (at_ : s.stage th = pre) {holder : Option Nat}
    (mine : stage.locked = true ↔ holder = some th)
    (theirs : ∀ u ≠ th, holder = some u ↔ s.expandLock = some u)
    (pending : pre.pending = true → stage.pending = true)
    (claim : ∀ c ∈ stage.claim, c ∈ pre.claim) (own : StageSound s stage) :
    Sound m { s with expandLock := holder, stage := update s.stage th stage } := by
  have still : Still s { s with expandLock := holder, stage := update s.stage th stage } :=
    ⟨rfl, rfl, fun _ _ => rfl⟩
  refine h.advance at_ rfl (Or.inr still) theirs mine ?_ (fun c mem => Or.inl (claim c mem))
    (Or.inl rfl) (fun _ => Or.inl) { Grows.refl s with } { h.toLayout with }
    (own.mono { Grows.refl s with } fun _ => still)
  cases quiet : pre.pending with
  | true => exact Or.inl (pending quiet)
  | false => exact Or.inr (Or.inr ⟨rfl, still⟩)

theorem Sound.turn (h : Sound m s) (at_ : s.stage th = pre) (locked : stage.locked = pre.locked)
    (pending : pre.pending = true → stage.pending = true)
    (claim : ∀ c ∈ stage.claim, c ∈ pre.claim) (own : StageSound s stage) :
    Sound m { s with stage := update s.stage th stage } := by
  refine h.move at_ ?_ (fun _ _ => Iff.rfl) pending claim own
  rw [locked, ← at_]
  exact h.lock th

theorem Sound.acquire (h : Sound m s) (at_ : s.stage th = pre) (free : s.expandLock = none)
    (locked : stage.locked = true) (quiet : pre.pending = false)
    (claim : ∀ c ∈ stage.claim, c ∈ pre.claim) (own : StageSound s stage) :
    Sound m { s with expandLock := some th, stage := update s.stage th stage } :=
  h.move at_ (iff_of_true locked rfl) (fun u j => by simpa [free] using j.symm)
    (fun pending => absurd pending (by simp [quiet])) claim own

/-- Steps of the lock's holder. -/
theorem Sound.hold (h : Sound m s) (at_ : s.stage th = pre)
    (locked : pre.locked = true) (here : next.stage = update s.stage th stage)
    (kept : next.expandLock = s.expandLock ∧ next.returned = s.returned ∧ next.answers = s.answers)
    (holds : stage.locked = true) (settled : stage.pending = true ∨ next.covered = next.numRegions)
    (claim : ∀ c ∈ stage.claim, c ∈ pre.claim) (grows : Grows s next)
    (layout : Grows s next → Layout m next) (own : Grows s next → StageSound next stage) :
    Sound m next := by
  obtain ⟨lock, returned, answers⟩ := kept
  refine h.advance at_ here (Or.inl locked) (fun u _ => by rw [lock]) (iff_of_true holds ?_)
    (settled.imp_right Or.inl) (fun c mem => Or.inl (claim c mem)) (Or.inl returned)
    (fun ans mem => Or.inl (answers ▸ mem)) grows (layout grows) (own grows)
  rw [lock]
  exact (h.lock th).mp (at_ ▸ locked)

theorem Sound.claimed (h : Sound m s) (held : call ∈ (s.stage th).claim) : Claimed s call := by
  have own := h.stages th
  cases at_ : s.stage th <;> rw [at_] at own held <;> cases held <;>
    first | exact own | exact own.1

theorem Claimed.stop_eq (h : Claimed s call) (layout : Layout m s) :
    call.stop = call.off + call.size := by
  have below := Nat.le_trans h.below (layout.offset _ h.published)
  have capacity := (layout.mapped _ h.published).2
  exact fetchAdd_of_lt (by unfold wordSize; omega)

theorem Sound.covered_all (h : Sound m s) (at_ : s.stage th = pre)
    (locked : pre.locked = true) (quiet : pre.pending = false) : s.covered = s.numRegions := by
  refine h.settled fun u => ?_
  by_cases same : u = th
  · rw [same, at_]
    exact quiet
  · by_contra pending
    have held : (s.stage u).locked = true := by
      cases place : s.stage u <;> simp_all [Stage.pending, Stage.locked]
    have holder := (h.lock u).mp held
    rw [(h.lock th).mp (at_ ▸ locked)] at holder
    exact same (Option.some.inj holder).symm

theorem update_cases {f : Nat → Nat} {p v i : Nat} {P : Nat → Prop}
    (here : i = p → P v) (there : P (f i)) : P (update f p v i) := by
  by_cases same : i = p
  · rw [same, update_self]
    exact here same
  · rwa [update_of_ne same]

theorem le_update {f : Nat → Nat} {p v : Nat} (rises : f p ≤ v) (i : Nat) :
    f i ≤ update f p v i :=
  update_cases (P := (f i ≤ ·)) (fun same => same ▸ rises) (Nat.le_refl _)

theorem bump_sound (h : Sound m s) (at_ : s.stage th = .bump call)
    (same : s.offset call.idx = call.off) {taken : Call}
    (moved : taken = { call with off := alignedOffset call.off call.align })
    (room : taken.stop ≤ s.capacity call.idx) :
    Sound m { s with
      offset := update s.offset call.idx taken.stop
      stage := update s.stage th (.check taken) } := by
  obtain ⟨⟨some, size, positive, align⟩, published, -⟩ := at_ ▸ h.stages th
  have below := h.offset _ published
  have capacity := (h.mapped _ published).2
  obtain ⟨low, high, aligned⟩ := @alignedOffset_spec call.off call.align positive
    (by unfold wordSize; omega)
  have stop : taken.stop = taken.off + call.size := by
    subst moved
    exact fetchAdd_of_lt (by unfold wordSize; dsimp only; omega)
  have start : call.off ≤ taken.off ∧ taken.idx = call.idx ∧ taken.site = call.site := by
    subst moved
    exact ⟨low, rfl, rfl⟩
  -- Every range in the region ends at or below the old offset.
  have apart : ∀ d, Claimed s d → Apart taken d := fun d j => by
    by_cases there : taken.idx = d.idx
    · have stops := j.below
      rw [← there, start.2.1] at stops
      exact Or.inr (Or.inr (by omega))
    · exact Or.inl there
  refine h.advance at_ rfl (Or.inr ⟨rfl, rfl, fun _ _ => rfl⟩) (fun _ _ => Iff.rfl) ?_
    (Or.inr (Or.inr ⟨rfl, rfl, rfl, fun _ _ => rfl⟩)) (fun c mem => ?_) (Or.inl rfl)
    (fun _ => Or.inl) { Grows.refl s with offset := fun i _ => le_update (by omega) i }
    { h.toLayout with offset := fun i less => ?_ } ?_
  · have lock := h.lock th
    rw [at_] at lock
    simpa [Stage.locked, start.2.2] using lock
  · cases mem
    exact Or.inr ⟨fun u _ d mem => apart d (h.claimed mem),
      fun d mem => apart d (h.returned d mem).1⟩
  · exact update_cases (P := (· ≤ s.capacity i)) (· ▸ room) (h.offset i less)
  · subst moved
    exact ⟨⟨some, size, positive, align⟩, published, by simp [stop], aligned⟩

theorem store_sound {target : Nat} (h : Sound m s) (at_ : s.stage th = .store call target) :
    Sound m { s with
      committed := update s.committed call.idx target
      stage := update s.stage th (.finish call true) } := by
  obtain ⟨claimed, low, high, rises, filled⟩ := at_ ▸ h.stages th
  have all := h.covered_all at_ rfl rfl
  refine h.hold at_ rfl rfl ⟨rfl, rfl, rfl⟩ rfl (Or.inr all) (fun _ => id)
    { Grows.refl s with committed := fun i _ => le_update rises i }
    (fun grows => { h.toLayout with
      committed := fun i less => ?_, pages := fun i less b below => Committed.mono ?_ grows
      uncovered := fun i above less => absurd all (by dsimp only at *; omega) })
    fun grows => ⟨claimed.mono grows, by simpa using low⟩
  · exact update_cases (P := (· ≤ s.capacity i)) (· ▸ high) (h.committed i less)
  · exact update_cases (P := fun mark => b < mark → Committed s (s.base i + b))
      (fun same => same ▸ filled b) (h.pages i less b) below

theorem protect_sound {cur target : Nat} (h : Sound m s)
    (at_ : s.stage th = .protect call cur target) :
    Sound m { s with
      pages := (s.base call.idx + cur, target - cur) :: s.pages
      stage := update s.stage th (.store call target) } := by
  obtain ⟨claimed, low, high, rfl, rises⟩ := at_ ▸ h.stages th
  refine h.hold at_ rfl rfl ⟨rfl, rfl, rfl⟩ rfl (Or.inr (h.covered_all at_ rfl rfl))
    (fun _ => id) { Grows.refl s with pages := List.subset_cons_self _ _ }
    (fun grows => { h.toLayout with
      pages := fun i less b below => (h.pages i less b below).mono grows })
    fun grows => ⟨claimed.mono grows, low, high, rises, fun b below => ?_⟩
  by_cases old : b < s.committed call.idx
  · exact (h.pages _ claimed.published b old).mono grows
  · exact ⟨_, List.mem_cons_self, by dsimp only; omega, by dsimp only; omega⟩

theorem finish_sound {locked : Bool} (h : Sound m s) (at_ : s.stage th = .finish call locked) :
    Sound m { s with
      expandLock := if locked then none else s.expandLock
      returned := call :: s.returned
      stage := update s.stage th .idle } := by
  have own := h.stages th
  have lock := h.lock th
  rw [at_] at own lock
  refine h.advance at_ rfl (Or.inr ⟨rfl, rfl, fun _ _ => rfl⟩) (fun u j => ?_) ?_
    (Or.inr (Or.inr ⟨rfl, rfl, rfl, fun _ _ => rfl⟩)) nofun
    (Or.inr ⟨rfl, call, rfl, ⟨{ own.1 with }, own.2⟩, rfl⟩) (fun _ => Or.inl)
    { Grows.refl s with returned := List.subset_cons_self _ _ } { h.toLayout with } trivial
  · cases locked with
    | false => exact Iff.rfl
    | true =>
      rw [lock.mp rfl]
      simpa using j.symm
  · cases locked <;> simp_all [Stage.locked]

theorem map_sound {base : Nat} (h : Sound m s) (at_ : s.stage th = .map call)
    (admissible : Admissible m s base (expandSize call)) :
    Sound m { addRegion s base (expandSize call) with
      stage := update s.stage th (.lower { call with idx := s.numRegions } none) } := by
  have own := h.stages th
  rw [at_] at own
  have all := h.covered_all at_ rfl rfl
  obtain ⟨page, fits, apart⟩ := admissible
  have short : expandSize call < 2 ^ 63 := by
    obtain ⟨-, size, -, align⟩ := own
    rw [expandSize, fetchAdd_of_lt (by unfold wordSize; omega), kBootstrapExpandSize]
    omega
  have old : ∀ {i}, i < s.numRegions → ∀ (f : Nat → Nat) v,
      update f s.numRegions v i = f i := fun less f v => update_of_ne (by omega) ..
  refine h.hold at_ rfl rfl ⟨rfl, rfl, rfl⟩ rfl (Or.inl rfl) nofun { Grows.refl s with
      count := Nat.le_succ _
      base := fun _ less => old less .., capacity := fun _ less => old less ..
      offset := fun _ less => (old less ..).ge, committed := fun _ less => (old less ..).ge }
    (fun grows => ?_) fun _ => ⟨own, rfl, all, nofun⟩
  have each : ∀ {P : Nat → Prop}, P s.numRegions → (∀ i < s.numRegions, P i) →
      ∀ i < s.numRegions + 1, P i := fun last rest i less =>
    (Nat.lt_succ_iff_lt_or_eq.mp less).elim (rest i) (· ▸ last)
  constructor <;> simp only [addRegion]
  case pageAligned =>
    exact each (by simpa using page) fun i less => by
      simpa [old less] using h.pageAligned i less
  case mapped =>
    exact each (by simpa using ⟨fits, short⟩) fun i less => by
      simpa [old less] using h.mapped i less
  case apart =>
    intro i j less last
    rcases Nat.lt_succ_iff_lt_or_eq.mp last with last | rfl
    · simpa [old last, old (less.trans last)] using h.apart i j less last
    · simpa [old less] using apart i less
  case offset =>
    exact each (by simp) fun i less => by simpa [old less] using h.offset i less
  case committed =>
    exact each (by simp) fun i less => by
      simpa [old less] using h.committed i less
  case pages =>
    exact each (by simp) fun i less => by
      simp only [old less]
      exact h.pages i less
  case most => exact Nat.le_succ_of_le h.most
  case covered =>
    intro i less
    simpa [old (all ▸ less)] using h.covered i less
  case uncovered =>
    intro i above below
    obtain rfl : i = s.numRegions := by omega
    exact update_self ..

theorem lower_sound {lo : Nat} (h : Sound m s) (at_ : s.stage th = .lower call (some lo))
    (above : s.base call.idx < lo) (same : s.boundsLo = lo) :
    Sound m { s with
      boundsLo := s.base call.idx
      stage := update s.stage th (.raise call none) } := by
  obtain ⟨fit, last, covered, -⟩ := at_ ▸ h.stages th
  refine h.hold at_ rfl rfl ⟨rfl, rfl, rfl⟩ rfl (Or.inl rfl) nofun
    { Grows.refl s with lo := by dsimp only; omega } (fun grows => { h.toLayout with
      covered := fun i less => ⟨Nat.le_trans grows.lo (h.covered i less).1, ?_⟩ })
    fun _ => ⟨fit, last, covered, Nat.le_refl _, nofun⟩
  exact (h.covered i less).2

theorem raise_sound {seen : Option Nat} {hi : Nat} (h : Sound m s)
    (at_ : s.stage th = .raise call seen) (rises : s.boundsHi ≤ hi)
    (high : s.base call.idx + s.capacity call.idx ≤ hi) :
    Sound m { s with
      boundsHi := hi
      covered := call.idx + 1
      stage := update s.stage th (.reload call) } := by
  obtain ⟨fit, last, covered, low, -⟩ := at_ ▸ h.stages th
  refine h.hold at_ rfl rfl ⟨rfl, rfl, rfl⟩ rfl (Or.inr last) nofun
    { Grows.refl s with hi := rises } (fun _ => { h.toLayout with
      most := last.le
      covered := fun i less => ?_
      uncovered := fun i above below => by dsimp only at *; omega })
    fun _ => ⟨fit, by dsimp only; omega⟩
  rcases Nat.lt_succ_iff_lt_or_eq.mp less with older | rfl
  · have bounds := h.covered i (covered ▸ older)
    exact ⟨bounds.1, Nat.le_trans bounds.2 rises⟩
  · exact ⟨low, high⟩

theorem answer_sound {ptr : Nat} {earlier : List Call} {reply : Bool} (h : Sound m s)
    (at_ : s.stage th = pre) (free : pre.locked = false) (quiet : pre.pending = false)
    (ans : AnswerSound s ⟨ptr, earlier, reply⟩) :
    Sound m { s with
      answers := ⟨ptr, earlier, reply⟩ :: s.answers
      stage := update s.stage th .idle } := by
  have lock := h.lock th
  rw [at_, free] at lock
  refine h.advance at_ rfl (Or.inr ⟨rfl, rfl, fun _ _ => rfl⟩) (fun _ _ => Iff.rfl) lock
    (Or.inr (Or.inr ⟨quiet, rfl, rfl, fun _ _ => rfl⟩)) nofun (Or.inl rfl) (fun a mem => ?_)
    { Grows.refl s with } { h.toLayout with } trivial
  rcases List.mem_cons.mp mem with rfl | old
  · exact Or.inr { ans with }
  · exact Or.inl old

/-- A region some call has got memory from is covered: it has committed bytes. -/
theorem Sound.within (h : Sound m s) {c : Call} {ptr : Nat} (mem : c ∈ s.returned)
    (low : s.base c.idx + c.off ≤ ptr) (high : ptr < s.base c.idx + c.off + c.size) :
    s.boundsLo ≤ ptr ∧ ptr < s.boundsHi ∧ owned s ptr = true := by
  obtain ⟨claimed, done⟩ := h.returned c mem
  have positive := claimed.fit.1
  have capacity := h.committed _ claimed.published
  have covered : c.idx < s.covered := by
    by_contra above
    have zero := h.uncovered _ (by omega) claimed.published
    omega
  have bounds := h.covered _ covered
  refine ⟨by omega, by omega, List.any_eq_true.mpr ⟨c.idx, ?_, decide_eq_true (by omega)⟩⟩
  exact List.mem_range.mpr claimed.published

theorem noRoom_spec (fit : call.Fit) (left : ∀ left, call.site = .scan left → left ≤ s.numRegions) :
    (noRoom call).locked = call.site.lockHeld ∧ (noRoom call).claim = none ∧
      StageSound s (noRoom call) := by
  unfold noRoom
  split
  next site => exact ⟨by rw [site]; rfl, rfl, fit⟩
  next rest site =>
    refine ⟨by rw [site]; rfl, rfl, fit, left _ site, ?_⟩
    rintro k ⟨⟩
    exact Nat.le_of_succ_le (left _ site)
  next site => exact ⟨by rw [site]; rfl, rfl, fit⟩
  next site => exact ⟨by rw [site]; rfl, rfl, trivial⟩

theorem commitTarget_spec (claimed : Claimed s call) (layout : Layout m s) :
    call.off + call.size ≤ commitTarget m s call ∧ commitTarget m s call ≤ s.capacity call.idx := by
  have stop := claimed.stop_eq layout
  have below := Nat.le_trans claimed.below (layout.offset _ claimed.published)
  have capacity := (layout.mapped _ claimed.published).2
  have page : m.pageSize ≤ 2 ^ 62 := Nat.pow_le_pow_right (by decide) m.small
  have rounded := (@alignedOffset_spec call.stop m.pageSize (Nat.two_pow_pos _)
    (by unfold wordSize; omega)).1
  exact ⟨Nat.le_min.mpr ⟨by omega, below⟩, Nat.min_le_right ..⟩

theorem act_sound {ch : Choice} (h : Sound m s) (ran : act m s th ch = some next) :
    Sound m next := by
  have own := h.stages th
  unfold act at ran
  cases at_ : s.stage th <;> simp only [at_] at ran own
  case idle => cases ran
  case load call =>
    cases ran
    exact h.turn at_ rfl nofun nofun own
  case bump call =>
    split at ran
    · cases ran
      obtain ⟨locked, claim, room⟩ := noRoom_spec own.1 own.2.2
      exact h.turn at_ locked nofun (by simp [claim]) room
    · rename_i room
      split at ran <;> cases ran
      · rename_i same
        exact bump_sound h at_ same.1 rfl (Nat.le_of_not_lt room)
      · exact h.turn at_ rfl nofun nofun own
  case check call =>
    split at ran <;> cases ran
    · rename_i enough
      rw [Claimed.stop_eq own h.toLayout] at enough
      exact h.turn at_ rfl nofun (fun _ => id) ⟨own, enough⟩
    · cases site : call.site.lockHeld <;>
        exact h.turn at_ (by simp [Stage.locked, site]) nofun (fun _ => id) own
  case lockCommit call =>
    obtain ⟨free, ⟨⟩⟩ := Option.ite_none_right_eq_some.mp ran
    exact h.acquire at_ free rfl rfl (fun _ => id) own
  case commit call =>
    obtain ⟨low, high⟩ := commitTarget_spec own h.toLayout
    split at ran <;> cases ran
    · exact h.turn at_ rfl nofun (fun _ => id) ⟨own, by omega⟩
    · exact h.turn at_ rfl nofun (fun _ => id) ⟨own, low, high, rfl, by omega⟩
  case protect call cur target =>
    cases ran
    exact protect_sound h at_
  case store call target =>
    cases ran
    exact store_sound h at_
  case finish call locked =>
    cases ran
    exact finish_sound h at_
  case lockExpand call =>
    obtain ⟨free, ⟨⟩⟩ := Option.ite_none_right_eq_some.mp ran
    exact h.acquire at_ free rfl rfl nofun own
  case recheck call =>
    split at ran <;> cases ran
    · exact h.turn at_ rfl nofun nofun own
    · exact h.turn at_ rfl nofun nofun ⟨own, by dsimp only; omega, nofun⟩
  case map call =>
    split at ran
    · cases ran
      exact h.turn at_ rfl nofun nofun trivial
    · obtain ⟨admissible, ran⟩ := Option.ite_none_right_eq_some.mp ran
      split at ran <;> cases ran
      · exact h.turn at_ rfl nofun nofun trivial
      · exact map_sound h at_ admissible
  case lower call seen =>
    obtain ⟨fit, last, covered, lo⟩ := own
    have again : StageSound s (.lower call (some s.boundsLo)) := ⟨fit, last, covered, by simp⟩
    split at ran
    · cases ran
      exact h.turn at_ rfl (fun _ => rfl) nofun again
    · split at ran
      · cases ran
        refine h.turn at_ rfl (fun _ => rfl) nofun ⟨fit, last, covered, ?_, nofun⟩
        exact Nat.le_trans (lo _ rfl) ‹_›
      · split at ran <;> cases ran
        · exact lower_sound h at_ (by omega) (by tauto)
        · exact h.turn at_ rfl (fun _ => rfl) nofun again
  case raise call seen =>
    obtain ⟨fit, last, covered, lo, hi⟩ := own
    have again : StageSound s (.raise call (some s.boundsHi)) := ⟨fit, last, covered, lo, by simp⟩
    split at ran
    · cases ran
      exact h.turn at_ rfl (fun _ => rfl) nofun again
    · split at ran
      · cases ran
        exact raise_sound h at_ (Nat.le_refl _) (Nat.le_trans ‹_› (hi _ rfl))
      · split at ran <;> cases ran
        · exact raise_sound h at_ (by omega) (Nat.le_refl _)
        · exact h.turn at_ rfl (fun _ => rfl) nofun again
  case reload call =>
    cases ran
    exact h.turn at_ rfl nofun nofun ⟨own.1, by have := own.2; dsimp only; omega, nofun⟩
  case fail =>
    cases ran
    have lock := (h.lock th).mp (at_ ▸ rfl)
    exact h.move at_ (by simp [Stage.locked]) (fun u j => by simpa [lock] using j.symm)
      nofun nofun trivial
  case ownsLo ptr earlier =>
    split at ran <;> cases ran
    · exact answer_sound h at_ rfl rfl ⟨own, fun c mem low high => by
        have := h.within (own mem) low high
        dsimp only at *
        omega, nofun⟩
    · exact h.turn at_ rfl nofun nofun own
  case ownsHi ptr earlier =>
    split at ran <;> cases ran
    · exact answer_sound h at_ rfl rfl ⟨own, fun c mem low high => by
        have := h.within (own mem) low high
        dsimp only at *
        omega, nofun⟩
    · exact h.turn at_ rfl nofun nofun own
  case ownsCount ptr earlier =>
    cases ran
    refine answer_sound h at_ rfl rfl ⟨own, fun c mem low high =>
      (h.within (own mem) low high).2.2, fun yes => ?_⟩
    obtain ⟨i, mem, within⟩ := List.any_eq_true.mp yes
    exact ⟨i, List.mem_range.mp mem, of_decide_eq_true within⟩

end Steps

section Runs

variable {m : Machine} {s next final : State} {ker : Option Nat} {labels : List Label}

/-- The requests of a run are below `2 ^ 62` in size and alignment. -/
def Fits : Label → Prop
  | .allocate _ size align => size < 2 ^ 62 ∧ 0 < align ∧ align ≤ 2 ^ 62
  | _ => True

instance : DecidablePred Fits
  | .allocate .. => instDecidableAnd
  | .owns .. | .act .. => isTrue trivial

theorem step_sound {label : Label} (h : Sound m s) (fits : Fits label)
    (ran : step m s label = some next) : Sound m next := by
  cases label with
  | act t ch => exact act_sound h ran
  | owns t ptr =>
    simp only [step] at ran
    split at ran <;> cases ran
    rename_i at_
    exact h.turn at_ rfl nofun nofun (List.Subset.refl _)
  | allocate t size align =>
    simp only [step] at ran
    split at ran <;> cases ran
    rename_i at_
    obtain ⟨small, positive, align⟩ := fits
    obtain ⟨locked, claim, own⟩ := @noRoom_spec s
      ⟨if size = 0 then 1 else size, _, .scan s.numRegions, 0, 0⟩
      ⟨by dsimp only; split <;> omega, by dsimp only; split <;> omega, positive, align⟩
      (by rintro left ⟨⟩; exact Nat.le_refl _)
    exact h.turn at_ locked nofun (by simp [claim]) own

theorem blank_sound : Sound m blank := by
  constructor <;> simp [blank, Stage.locked, StageSound, Stage.claim]
  constructor <;> simp

theorem initial_sound (mapped : ∀ base ∈ ker, Admissible m blank base kBootstrapInitialSize) :
    Sound m (initial ker) := by
  cases ker with
  | none => exact blank_sound
  | some base =>
    obtain ⟨page, fits, -⟩ := mapped base rfl
    constructor <;> simp_all [initial, addRegion, blank, Stage.locked, StageSound, Stage.claim]
    constructor <;> simp_all [kBootstrapInitialSize]
    omega

def Call.addr (s : State) (call : Call) : Nat := s.base call.idx + call.off

structure Handed (m : Machine) (s : State) (call : Call) : Prop where
  published : call.idx < s.numRegions
  inside : call.off + call.size ≤ s.capacity call.idx
  aligned : ∀ k ≤ m.pageShift, call.align = 2 ^ k → call.addr s % call.align = 0
  committed : ∀ b < call.size, Committed s (call.addr s + b)

theorem Sound.handed {call : Call} (h : Sound m s) (mem : call ∈ s.returned) : Handed m s call := by
  obtain ⟨claimed, done⟩ := h.returned call mem
  have capacity := h.committed _ claimed.published
  refine ⟨claimed.published, by omega, fun k small power => ?_, fun b below => ?_⟩
  · have page := Nat.dvd_of_mod_eq_zero (h.pageAligned _ claimed.published)
    have divides : call.align ∣ m.pageSize := power ▸ pow_dvd_pow 2 small
    exact Nat.mod_eq_zero_of_dvd
      (Nat.dvd_add (divides.trans page) (Nat.dvd_of_mod_eq_zero (claimed.aligned k power)))
  · have filled := h.pages _ claimed.published (call.off + b) (by omega)
    rwa [← Nat.add_assoc] at filled

theorem Sound.addr_apart {c d : Call} (h : Sound m s) (first : c ∈ s.returned)
    (second : d ∈ s.returned) (apart : Apart c d) :
    c.addr s + c.size ≤ d.addr s ∨ d.addr s + d.size ≤ c.addr s := by
  have one := (h.handed first).inside
  have two := (h.handed second).inside
  unfold Apart Call.addr at *
  rcases Nat.lt_trichotomy c.idx d.idx with less | same | more
  · have regions := h.apart _ _ less (h.handed second).published
    omega
  · rw [same]
    omega
  · have regions := h.apart _ _ more (h.handed first).published
    omega

variable (mapped : ∀ base ∈ ker, Admissible m blank base kBootstrapInitialSize)
  (fits : Along (step m) (fun _ => Fits) (initial ker) labels)
  (ran : exec (step m) (initial ker) labels = some final)

include mapped fits ran

theorem run_sound : Sound m final :=
  invariant_of_along step_sound (initial_sound mapped) fits ran

theorem returned_ranges : (∀ c ∈ final.returned, Handed m final c) ∧
    final.returned.Pairwise fun c d =>
      c.addr final + c.size ≤ d.addr final ∨ d.addr final + d.size ≤ c.addr final := by
  have h := run_sound mapped fits ran
  exact ⟨fun c => h.handed, h.disjoint.imp_of_mem h.addr_apart⟩

theorem owns_right : ∀ ans ∈ final.answers, AnswerSound final ans :=
  (run_sound mapped fits ran).answers

end Runs

section Instances

def page4K : Machine := ⟨12, by decide⟩

def acts (t count : Nat) : List Label := List.replicate count (.act t ⟨false, some (2 ^ 30)⟩)

/-- Two threads allocate in turns, and the first asks for its first byte. -/
def turns : List Label :=
  .allocate 0 24 16 :: .allocate 1 40 32 :: acts 0 1 ++ acts 1 2 ++ acts 0 2 ++ acts 1 6 ++ acts 0 2
    ++ .owns 0 (2 ^ 20) :: acts 0 3

theorem turns_mapped (base : Nat) (mem : base ∈ some (2 ^ 20)) :
    Admissible page4K blank base kBootstrapInitialSize := by
  cases mem
  decide

theorem turns_ran : (exec (step page4K) (initial (some (2 ^ 20))) turns).map (fun s =>
    (s.returned.map (·.off), s.answers.map (·.owned))) = some ([48, 0], [true]) := by
  decide +kernel

theorem returned_ranges_turns : ∃ final,
    exec (step page4K) (initial (some (2 ^ 20))) turns = some final ∧
      final.returned.length = 2 ∧ (∀ c ∈ final.returned, Handed page4K final c) ∧
        final.returned.Pairwise fun c d =>
          c.addr final + c.size ≤ d.addr final ∨ d.addr final + d.size ≤ c.addr final := by
  obtain ⟨final, ran, same⟩ := Option.map_eq_some_iff.mp turns_ran
  refine ⟨final, ran, ?_, returned_ranges turns_mapped (by decide) ran⟩
  simpa using congrArg (·.1.length) same

theorem owns_right_turns : ∃ final,
    exec (step page4K) (initial (some (2 ^ 20))) turns = some final ∧
      final.answers.map (·.owned) = [true] ∧ ∀ ans ∈ final.answers, AnswerSound final ans := by
  obtain ⟨final, ran, same⟩ := Option.map_eq_some_iff.mp turns_ran
  exact ⟨final, ran, congrArg Prod.snd same, owns_right turns_mapped (by decide) ran⟩

/-- The end of the second request wraps to the start of the region. -/
def wraps : List Label :=
  .allocate 0 16 16 :: acts 0 8 ++ .allocate 0 (2 ^ 64 - 16) 16 :: acts 0 4 ++
    .owns 0 (2 ^ 20 + 2 ^ 26) :: acts 0 2

theorem owns_denies_returned : (exec (step page4K) (initial (some (2 ^ 20))) wraps).map (fun s =>
    decide (∃ ans ∈ s.answers, ans.owned = false ∧ ∃ c ∈ ans.before,
      c.addr s ≤ ans.ptr ∧ ans.ptr < c.addr s + c.size)) = some true := by
  decide +kernel

end Instances

end Smash.BootstrapAlloc
