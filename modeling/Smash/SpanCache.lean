import Mathlib.Algebra.Order.Ring.Nat
import Mathlib.Data.Fintype.Basic
import Smash.Transition

/-! The lock-free cache of `Span` descriptors, `newSpanDescriptor` and `recycleSpanDescriptor`,
under any number of threads. Each load, each store of `next_free` and each compare-exchange is
one step; a weak compare-exchange may fail without reason. Descriptors are numbered in the order
in which the bootstrap allocator hands them out. -/
namespace Smash.SpanCache

open Transition Function List

/-- Where a thread is inside `newSpanDescriptor` (pop) or `recycleSpanDescriptor` (push), with
the values of its local variables. -/
inductive Pc where
  | idle
  | popLoad
  | popNext (span : Nat)
  | popSwap (span : Nat) (next : Option Nat)
  | popZero (span : Nat)
  | carve
  | pushLoad (span : Nat)
  | pushStore (span : Nat) (head : Option Nat)
  | pushSwap (span : Nat) (head : Option Nat)
  deriving DecidableEq, Repr

structure State (threads : Nat) where
  /-- `spanFreeList()` -/
  head : Option Nat
  nextFree : Nat → Option Nat
  /-- Descriptors taken from the bootstrap allocator so far. -/
  carved : Nat
  pc : Fin threads → Pc
  -- History: who owns which descriptor.
  owned : List (Fin threads × Nat)

inductive Event (threads : Nat) where
  | newSpanDescriptor (tid : Fin threads)
  | recycleSpanDescriptor (tid : Fin threads) (span : Nat)
  -- An owner may initialise its descriptor, which clears `next_free`, and pass it on.
  | init (tid : Fin threads) (span : Nat)
  | pass (tid other : Fin threads) (span : Nat)
  | move (tid : Fin threads) (spurious : Bool)
  deriving DecidableEq, Repr

variable {threads : Nat}

def initial (threads : Nat) : State threads := ⟨none, fun _ => none, 0, fun _ => .idle, []⟩

namespace State

def goTo (s : State threads) (t : Fin threads) (pc : Pc) : State threads :=
  { s with pc := update s.pc t pc }

def setNext (s : State threads) (span : Nat) (next : Option Nat) : State threads :=
  { s with nextFree := update s.nextFree span next }

/-- The loop test of `newSpanDescriptor` on the head just loaded. -/
def testHead (s : State threads) (t : Fin threads) : State threads :=
  match s.head with
  | none => s.goTo t .carve
  | some span => s.goTo t (.popNext span)

end State

def move (s : State threads) (t : Fin threads) (spurious : Bool) : Pc → Option (State threads)
  | .idle => none
  | .popLoad => some (s.testHead t)
  | .popNext span => some (s.goTo t (.popSwap span (s.nextFree span)))
  | .popSwap span next =>
    if s.head = some span ∧ spurious = false then
      some ({ s with head := next, owned := (t, span) :: s.owned }.goTo t
        (.popZero span))
    else some (s.testHead t)
  | .popZero span => some ((s.setNext span none).goTo t .idle)
  | .carve =>
    some ({ s.setNext s.carved none with
      carved := s.carved + 1
      owned := (t, s.carved) :: s.owned }.goTo t .idle)
  | .pushLoad span => some (s.goTo t (.pushStore span s.head))
  | .pushStore span head =>
    some ((s.setNext span head).goTo t (.pushSwap span head))
  | .pushSwap span head =>
    if s.head = head ∧ spurious = false then
      some ({ s with
        head := some span
        owned := s.owned.erase (t, span) }.goTo t .idle)
    else some (s.goTo t (.pushStore span s.head))

def step (s : State threads) : Event threads → Option (State threads)
  | .newSpanDescriptor t =>
    if s.pc t = .idle then some (s.goTo t .popLoad) else none
  | .recycleSpanDescriptor t span =>
    if s.pc t = .idle ∧ (t, span) ∈ s.owned then
      some (s.goTo t (.pushLoad span))
    else none
  | .init t span =>
    if s.pc t = .idle ∧ (t, span) ∈ s.owned then
      some (s.setNext span none)
    else none
  | .pass t j span =>
    if s.pc t = .idle ∧ (t, span) ∈ s.owned then
      some { s with owned := (j, span) :: s.owned.erase (t, span) }
    else none
  | .move t spurious => move s t spurious (s.pc t)

/-- The descriptors reached from a head through `next_free`. -/
inductive Linked (nextFree : Nat → Option Nat) : Option Nat → Nat → Prop where
  | here (span : Nat) : Linked nextFree (some span) span
  | later {span other : Nat} (rest : Linked nextFree (nextFree span) other) :
      Linked nextFree (some span) other

/-- No descriptor has two owners, and none on the free stack has one. -/
structure Exclusive (state : State threads) : Prop where
  single : (state.owned.map Prod.snd).Nodup
  unowned : ∀ span, Linked state.nextFree state.head span → span ∉ state.owned.map Prod.snd

/-- The thread has loaded the descriptor as head and not yet tried to swap it out. -/
def Pc.Loaded (span : Nat) : Pc → Bool
  | .popNext loaded | .popSwap loaded _ => loaded == span
  | _ => false

/-- A descriptor is pushed back only while no pop has it loaded as head. -/
def NoStalePop (s : State threads) : Event threads → Prop
  | .move t spurious =>
    match s.pc t with
    | .pushSwap span head =>
      s.head = head → spurious = false →
        ∀ j, (s.pc j).Loaded span = false
    | _ => True
  | _ => True

instance (s : State threads) (event : Event threads) : Decidable (NoStalePop s event) := by
  unfold NoStalePop
  split
  · split <;> infer_instance
  · infer_instance

section Chain

def Chain (nextFree : Nat → Option Nat) : Option Nat → List Nat → Prop
  | none, [] => True
  | some span, top :: rest => span = top ∧ Chain nextFree (nextFree span) rest
  | _, _ => False

variable {nextFree j : Nat → Option Nat} {head : Option Nat} {stack : List Nat}

theorem Chain.mem (chain : Chain nextFree head stack) {span : Nat}
    (linked : Linked nextFree head span) : span ∈ stack := by
  induction linked generalizing stack with
  | here span =>
    cases stack with
    | nil => exact chain.elim
    | cons top rest =>
      rw [chain.1]
      exact mem_cons_self
  | later _ ih =>
    cases stack with
    | nil => exact chain.elim
    | cons top rest => exact mem_cons_of_mem top (ih chain.2)

theorem Chain.congr (chain : Chain nextFree head stack)
    (same : ∀ span ∈ stack, j span = nextFree span) : Chain j head stack := by
  induction stack generalizing head with
  | nil =>
    cases head with
    | none => trivial
    | some span => exact chain.elim
  | cons top rest ih =>
    cases head with
    | none => exact chain
    | some span =>
      obtain ⟨rfl, tail⟩ := chain
      refine ⟨rfl, ?_⟩
      rw [same span mem_cons_self]
      exact ih tail fun below mem => same below (mem_cons_of_mem span mem)

theorem Chain.cases_some {span : Nat} (chain : Chain nextFree (some span) stack) :
    ∃ rest, stack = span :: rest ∧ Chain nextFree (nextFree span) rest := by
  cases stack with
  | nil => exact chain.elim
  | cons top rest =>
    obtain ⟨rfl, tail⟩ := chain
    exact ⟨rest, rfl, tail⟩

end Chain

section Soundness

def Relies (nextFree : Nat → Option Nat) (owned : List (Fin threads × Nat)) (stack : List Nat)
    (t : Fin threads) : Pc → Prop
  | .popSwap span next => span ∈ stack → nextFree span = next
  | .popZero span | .pushLoad span | .pushStore span _ => (t, span) ∈ owned
  | .pushSwap span head => (t, span) ∈ owned ∧ nextFree span = head
  | _ => True

structure Sound (state : State threads) (stack : List Nat) : Prop where
  chain : Chain state.nextFree state.head stack
  distinct : (stack ++ state.owned.map Prod.snd).Nodup
  carved : ∀ span ∈ stack ++ state.owned.map Prod.snd, span < state.carved
  relies : ∀ tid, Relies state.nextFree state.owned stack tid (state.pc tid)

variable {s next : State threads} {stack : List Nat} {t : Fin threads} {span : Nat}

section

variable (sound : Sound s stack)
include sound

theorem Sound.exclusive : Exclusive s where
  single := (nodup_append.mp sound.distinct).2.1
  unowned := fun span linked owned =>
    (nodup_append.mp sound.distinct).2.2 span (sound.chain.mem linked) span owned rfl

theorem Sound.off_stack (owns : (t, span) ∈ s.owned) : span ∉ stack := fun mem =>
  (nodup_append.mp sound.distinct).2.2 span mem span
    (mem_map.mpr ⟨_, owns, rfl⟩) rfl

theorem Sound.owner_unique {j : Fin threads}
    (owns : (t, span) ∈ s.owned) (claims : (j, span) ∈ s.owned) : j = t := by
  have single := sound.exclusive.single
  have same := inj_on_of_nodup_map single claims owns rfl
  exact congrArg Prod.fst same

theorem Sound.goTo {pc : Pc} (relies : Relies s.nextFree s.owned stack t pc) :
    Sound (s.goTo t pc) stack where
  chain := sound.chain
  distinct := sound.distinct
  carved := sound.carved
  relies := by
    intro j
    by_cases same : j = t
    · subst same
      simpa [State.goTo] using relies
    · simpa [State.goTo, update_of_ne same] using sound.relies j

theorem Sound.testHead : Sound (s.testHead t) stack := by
  unfold State.testHead
  split
  · exact sound.goTo trivial
  · exact sound.goTo trivial

/-- Only the owner writes `next_free`, so nobody on the stack or in a pop notices. -/
theorem Sound.setNext (owns : (t, span) ∈ s.owned)
    (calm : ∀ head, s.pc t ≠ .pushSwap span head) (next : Option Nat) :
    Sound (s.setNext span next) stack := by
  have apart : ∀ below ∈ stack, below ≠ span := by
    rintro below mem rfl
    exact sound.off_stack owns mem
  refine ⟨sound.chain.congr fun below mem => ?_, sound.distinct, sound.carved, ?_⟩
  · exact update_of_ne (apart below mem) _ _
  · intro j
    have pre := sound.relies j
    cases located : s.pc j <;> simp only [State.setNext, located, Relies] at pre ⊢
    case popSwap loaded s' =>
      intro mem
      rw [update_of_ne (apart loaded mem), pre mem]
    case pushSwap pushed head =>
      refine ⟨pre.1, ?_⟩
      by_cases same : pushed = span
      · subst same
        have itself := sound.owner_unique owns pre.1
        subst itself
        exact absurd located (calm head)
      · rw [update_of_ne same, pre.2]
    all_goals exact pre

theorem Sound.pop (t : Fin threads) (top : s.head = some span) :
    ∃ rest, Sound { s with
      head := s.nextFree span, owned := (t, span) :: s.owned } rest := by
  obtain ⟨rest, rfl, tail⟩ := Chain.cases_some (top ▸ sound.chain)
  have moved : (rest ++ span :: s.owned.map Prod.snd).Perm
      (span :: rest ++ s.owned.map Prod.snd) := perm_middle
  refine ⟨rest, tail, moved.nodup_iff.mpr sound.distinct, fun below mem => ?_, ?_⟩
  · exact sound.carved below (moved.mem_iff.mp mem)
  · intro j
    have pre := sound.relies j
    cases located : s.pc j <;> simp only [located, Relies] at pre ⊢
    case popSwap loaded s' => exact fun mem => pre (mem_cons_of_mem span mem)
    case pushSwap pushed head => exact ⟨mem_cons_of_mem _ pre.1, pre.2⟩
    all_goals exact mem_cons_of_mem _ pre

theorem Sound.carve :
    Sound { s.setNext s.carved none with
      carved := s.carved + 1, owned := (t, s.carved) :: s.owned } stack := by
  have fresh : s.carved ∉ stack ++ s.owned.map Prod.snd := fun mem =>
    Nat.lt_irrefl _ (sound.carved _ mem)
  have apart : ∀ below ∈ stack ++ s.owned.map Prod.snd, below ≠ s.carved := by
    rintro below mem rfl
    exact fresh mem
  have moved : (stack ++ s.carved :: s.owned.map Prod.snd).Perm
      (s.carved :: (stack ++ s.owned.map Prod.snd)) := perm_middle
  refine ⟨sound.chain.congr fun below mem => ?_, ?_, fun below mem => ?_, ?_⟩
  · exact update_of_ne (apart below (mem_append_left _ mem)) _ _
  · exact moved.nodup_iff.mpr (nodup_cons.mpr ⟨fresh, sound.distinct⟩)
  · rcases mem_cons.mp (moved.mem_iff.mp mem) with rfl | old
    · exact Nat.lt_succ_self _
    · exact Nat.lt_succ_of_lt (sound.carved below old)
  · intro j
    have pre := sound.relies j
    cases located : s.pc j <;> simp only [State.setNext, located, Relies] at pre ⊢
    case popSwap loaded s' =>
      intro mem
      rw [update_of_ne (apart loaded (mem_append_left _ mem)), pre mem]
    case pushSwap pushed head =>
      have h : pushed ∈ s.owned.map Prod.snd := mem_map.mpr ⟨_, pre.1, rfl⟩
      refine ⟨mem_cons_of_mem _ pre.1, ?_⟩
      rw [update_of_ne (apart pushed (mem_append_right _ h)), pre.2]
    all_goals exact mem_cons_of_mem _ pre

end

theorem owned_erase_perm {owned : List (Fin threads × Nat)} (owns : (t, span) ∈ owned) :
    (owned.map Prod.snd).Perm (span :: (owned.erase (t, span)).map Prod.snd) :=
  (perm_cons_erase owns).map Prod.snd

/-- An idle thread that gives a descriptor away takes no token from a busy one. -/
theorem token_kept {j : Fin threads} {held : Nat} (idle : s.pc t = .idle)
    (busy : s.pc j ≠ .idle) (owned : (j, held) ∈ s.owned) :
    (j, held) ∈ s.owned.erase (t, span) := by
  refine (mem_erase_of_ne fun same => ?_).mpr owned
  cases same
  exact busy idle

theorem Sound.push (sound : Sound s stack) (owns : (t, span) ∈ s.owned)
    (idle : s.pc t = .idle) (linked : s.nextFree span = s.head)
    (unseen : ∀ j, (s.pc j).Loaded span = false) :
    Sound { s with
      head := some span, owned := s.owned.erase (t, span) } (span :: stack) := by
  have moved : (span :: stack ++ (s.owned.erase (t, span)).map Prod.snd).Perm
      (stack ++ s.owned.map Prod.snd) :=
    perm_middle.symm.trans ((owned_erase_perm owns).symm.append_left stack)
  refine ⟨⟨rfl, ?_⟩, moved.nodup_iff.mpr sound.distinct, fun below mem => ?_, ?_⟩
  · rw [linked]
    exact sound.chain
  · exact sound.carved below (moved.mem_iff.mp mem)
  · intro j
    have pre := sound.relies j
    have seen := unseen j
    cases located : s.pc j <;>
      simp only [located, Relies, Pc.Loaded, beq_eq_false_iff_ne] at pre seen ⊢
    case popSwap loaded s' =>
      intro mem
      exact pre ((mem_cons.mp mem).resolve_left seen)
    case pushSwap pushed head =>
      exact ⟨token_kept idle (by simp [located]) pre.1, pre.2⟩
    all_goals exact token_kept idle (by simp [located]) pre

theorem Sound.pass (sound : Sound s stack) (owns : (t, span) ∈ s.owned)
    (idle : s.pc t = .idle) (receiver : Fin threads) :
    Sound { s with
      owned := (receiver, span) :: s.owned.erase (t, span) } stack := by
  have moved : (stack ++ span :: (s.owned.erase (t, span)).map Prod.snd).Perm
      (stack ++ s.owned.map Prod.snd) := (owned_erase_perm owns).symm.append_left stack
  refine ⟨sound.chain, moved.nodup_iff.mpr sound.distinct, fun below mem => ?_, ?_⟩
  · exact sound.carved below (moved.mem_iff.mp mem)
  · intro j
    have pre := sound.relies j
    cases located : s.pc j <;> simp only [located, Relies] at pre ⊢
    case popSwap loaded s' => exact pre
    case pushSwap pushed head =>
      exact ⟨mem_cons_of_mem _ (token_kept idle (by simp [located]) pre.1), pre.2⟩
    all_goals exact mem_cons_of_mem _ (token_kept idle (by simp [located]) pre)

theorem move_sound (sound : Sound s stack) {spurious : Bool}
    (quiet : NoStalePop s (.move t spurious))
    (moved : step s (.move t spurious) = some next) : ∃ rest, Sound next rest := by
  have relies := sound.relies t
  cases located : s.pc t <;>
    simp only [step, move, located, Relies, NoStalePop, Option.some.injEq, reduceCtorEq]
      at moved relies quiet
  case popLoad =>
    subst moved
    exact ⟨stack, sound.testHead⟩
  case popNext span =>
    subst moved
    exact ⟨stack, sound.goTo fun _ => rfl⟩
  case popSwap span s' =>
    split_ifs at moved with swapped
    · cases moved
      -- The head is on the stack, so what was read as its successor still is.
      obtain ⟨rest, rfl, -⟩ := Chain.cases_some (swapped.1 ▸ sound.chain)
      obtain ⟨rest, popped⟩ := sound.pop t swapped.1
      rw [relies mem_cons_self] at popped
      exact ⟨rest, popped.goTo mem_cons_self⟩
    · cases moved
      exact ⟨stack, sound.testHead⟩
  case popZero span =>
    subst moved
    exact ⟨stack, (sound.setNext relies (by simp [located]) none).goTo trivial⟩
  case carve =>
    subst moved
    exact ⟨stack, sound.carve.goTo trivial⟩
  case pushLoad span =>
    subst moved
    exact ⟨stack, sound.goTo relies⟩
  case pushStore span head =>
    subst moved
    refine ⟨stack, (sound.setNext relies (by simp [located]) head).goTo ⟨relies, ?_⟩⟩
    exact update_self _ _ _
  case pushSwap span head =>
    split_ifs at moved with swapped
    · cases moved
      have unseen := quiet swapped.1 swapped.2
      have parked : Sound (s.goTo t .idle) stack := sound.goTo trivial
      refine ⟨span :: stack, parked.push relies.1 ?_ ?_ fun j => ?_⟩
      · exact update_self _ _ _
      · exact relies.2.trans swapped.1.symm
      · by_cases same : j = t
        · subst same
          simp [State.goTo, Pc.Loaded]
        · simpa [State.goTo, update_of_ne same] using unseen j
    · cases moved
      exact ⟨stack, sound.goTo relies.1⟩

theorem step_sound {event : Event threads} (sound : ∃ stack, Sound s stack)
    (quiet : NoStalePop s event) (moved : step s event = some next) :
    ∃ stack, Sound next stack := by
  obtain ⟨stack, sound⟩ := sound
  cases event with
  | move t spurious => exact move_sound sound quiet moved
  | newSpanDescriptor t =>
    simp only [step] at moved
    split_ifs at moved
    cases moved
    exact ⟨stack, sound.goTo trivial⟩
  | recycleSpanDescriptor t span =>
    simp only [step] at moved
    split_ifs at moved with owner
    cases moved
    exact ⟨stack, sound.goTo owner.2⟩
  | init t span =>
    simp only [step] at moved
    split_ifs at moved with owner
    cases moved
    exact ⟨stack, sound.setNext owner.2 (by simp [owner.1]) none⟩
  | pass t j span =>
    simp only [step] at moved
    split_ifs at moved with owner
    cases moved
    exact ⟨stack, sound.pass owner.2 owner.1 j⟩

theorem initial_sound : Sound (initial threads) [] where
  chain := trivial
  distinct := nodup_nil
  carved := by simp [initial]
  relies := fun _ => trivial

theorem descriptors_exclusive {events : List (Event threads)}
    (quiet : Along step NoStalePop (initial threads) events)
    (ran : exec step (initial threads) events = some s) : Exclusive s := by
  obtain ⟨stack, sound⟩ := invariant_of_along step_sound ⟨[], initial_sound⟩ quiet ran
  exact sound.exclusive

end Soundness

section Runs

scoped instance neZeroTwo : NeZero 2 := ⟨by decide⟩

def moves (t : Fin threads) (count : Nat) : List (Event threads) :=
  List.replicate count (.move t false)

def popOf (t : Fin threads) : List (Event threads) :=
  .newSpanDescriptor t :: moves t 4

def carveOf (t : Fin threads) : List (Event threads) :=
  .newSpanDescriptor t :: moves t 2

def pushOf (t : Fin threads) (span : Nat) : List (Event threads) :=
  .recycleSpanDescriptor t span :: moves t 3

theorem descriptors_exclusive_after_reuse :
    ∃ s : State 2, exec step (initial 2) (carveOf 0 ++ pushOf 0 0 ++ popOf 1) = some s ∧
      s.owned = [(1, 0)] ∧ Exclusive s := by
  have quiet : Along step NoStalePop (initial 2) (carveOf 0 ++ pushOf 0 0 ++ popOf 1) := by decide
  have shown : (exec step (initial 2) (carveOf 0 ++ pushOf 0 0 ++ popOf 1)).map State.owned =
      some [(1, 0)] := by decide
  obtain ⟨s, ran, owned⟩ := Option.map_eq_some_iff.mp shown
  exact ⟨s, ran, owned, descriptors_exclusive quiet ran⟩

/-- While thread 1 holds descriptor 0 as head and 1 as its successor, thread 0 takes both and
puts 0 back; thread 1 then swaps in 1, which thread 0 still owns, and takes it as well. -/
def staleSuccessor : List (Event 2) :=
  carveOf 0 ++ carveOf 0 ++ pushOf 0 1 ++ pushOf 0 0 ++
    .newSpanDescriptor 1 :: moves 1 2 ++ popOf 0 ++ popOf 0 ++ pushOf 0 0 ++ moves 1 2 ++ popOf 1

theorem stale_successor_owned_twice : (exec step (initial 2) staleSuccessor).map State.owned =
      some [(1, 1), (1, 0), (0, 1)] := by
  decide

end Runs

end Smash.SpanCache
