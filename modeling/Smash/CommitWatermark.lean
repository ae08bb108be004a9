import Smash.Extents
import Smash.MachineWord
import Smash.PageMachine

/-! The bump path of `allocatePages` with the commit watermark behind it, under any number of
threads. A load, a store, a lock operation and a kernel call are one step each, and so are the
`fetch_add` of a call and the `fetch_sub` of one that overshot the arena. `commitPages` succeeds;
the ranges it was called with are kept beside the region's fields. -/
namespace Smash.CommitWatermark

open Extents MachineWord PageMachine Transition List

def kCommitChunkPages : Nat := 0

/-- The argument is what `atol` reads from `SMASH_COMMIT_CHUNK_KIB`, if that is set. -/
def commitChunkPages : Option Int → Nat
  | none => kCommitChunkPages
  | some kib =>
    if kib < 0 then kCommitChunkPages else kib.toNat * 1024 % wordSize / kPageSize

/-- The arena and the setting. The arena's size in bytes is a `size_t`. -/
structure Region where
  contigPages : Nat
  chunkKib : Option Int
  fits : contigPages * kPageSize < wordSize

/-- Where a call commits to when the watermark stands at `already`. -/
def Region.target (reg : Region) (already endPage : Nat) : Nat :=
  let chunk := commitChunkPages reg.chunkKib
  let target := if chunk = 0 then endPage else fetchAdd already chunk
  let target :=
    if target < endPage then (endPage + chunk - 1) % wordSize / chunk * chunk % wordSize
    else target
  if reg.contigPages < target then reg.contigPages else target

inductive Stage where
  /-- Past the `fetch_add`, beyond the end of the arena. -/
  | overshot
  /-- Past the `fetch_add`, before the first look at the watermark. -/
  | reserved
  | waiting
  /-- The lock is taken; the watermark is to be looked at again. -/
  | checking
  | committing (already target : Nat)
  | storing (target : Nat)
  | leaving
  | returned
  | failed
  deriving DecidableEq, Repr

def Stage.inside : Stage → Bool
  | .checking | .committing .. | .storing .. | .leaving => true
  | .overshot | .reserved | .waiting | .returned | .failed => false

structure Call where
  start : Nat
  numPages : Nat
  stage : Stage
  deriving DecidableEq, Repr

def Call.endPage (call : Call) : Nat := (call.start + call.numPages) % wordSize

/-- The fields the calls share. The lock is held by the call of this number. -/
structure Shared where
  nextPage : Nat
  committed : Nat
  holder : Option Nat
  commits : List Extent
  deriving DecidableEq, Repr

structure State where
  shared : Shared
  calls : List Call
  deriving DecidableEq, Repr

def initial : State := ⟨⟨0, 0, none, []⟩, []⟩

def Call.act (reg : Region) (i : Nat) (call : Call) (s : Shared) : Option (Stage × Shared) :=
  match call.stage with
  | .overshot =>
    some (.failed, { s with nextPage := fetchSub s.nextPage call.numPages })
  | .reserved =>
    some (if call.endPage ≤ s.committed then .returned else .waiting, s)
  | .waiting =>
    if s.holder = none then some (.checking, { s with holder := some i }) else none
  | .checking =>
    let already := s.committed
    if call.endPage ≤ already then some (.leaving, s)
    else some (.committing already (reg.target already call.endPage), s)
  | .committing already target =>
    some (.storing target,
      { s with commits := ⟨already, fetchSub target already⟩ :: s.commits })
  | .storing target => some (.leaving, { s with committed := target })
  | .leaving => some (.returned, { s with holder := none })
  | .returned | .failed => none

inductive Label where
  | reserve (numPages : Nat)
  | act (call : Nat)
  deriving DecidableEq, Repr

def step (reg : Region) (s : State) : Label → Option State
  | .reserve numPages =>
    let start := s.shared.nextPage
    let stage : Stage :=
      if reg.contigPages < (start + numPages) % wordSize then .overshot else .reserved
    some
      { shared := { s.shared with nextPage := fetchAdd start numPages }
        calls := s.calls ++ [⟨start, numPages, stage⟩] }
  | .act i =>
    s.calls[i]?.bind fun call =>
      (call.act reg i s.shared).map fun (stage, sh) =>
        ⟨sh, s.calls.set i { call with stage }⟩

/-- A range ends in the arena, or beyond it without wrapping round. -/
def Unwrapped (s : State) : Label → Prop
  | .reserve numPages => s.shared.nextPage + numPages < wordSize
  | .act _ => True

instance (s : State) (label : Label) : Decidable (Unwrapped s label) := by
  cases label <;> unfold Unwrapped <;> infer_instance

section Target

theorem chunk_small (setting : Option Int) : commitChunkPages setting < 2 ^ 52 := by
  unfold commitChunkPages
  split
  · decide
  · split
    · decide
    · rename_i kib _
      have small := Nat.mod_lt (kib.toNat * 1024) (show 0 < wordSize by decide)
      have size : kPageSize = 4096 := rfl
      have word : wordSize = 2 ^ 64 := rfl
      rw [size]
      omega

theorem contigPages_small (reg : Region) : reg.contigPages < 2 ^ 52 := by
  have fits := reg.fits
  have size : kPageSize = 4096 := rfl
  have word : wordSize = 2 ^ 64 := rfl
  rw [size] at fits
  omega

/-- The rounding step and both clamps keep the target between the end of the call's range and
the end of the arena, for every chunk size. -/
theorem target_spec {reg : Region} {already endPage : Nat} (below : already < endPage)
    (inside : endPage ≤ reg.contigPages) : endPage ≤ reg.target already endPage ∧
      reg.target already endPage ≤ reg.contigPages := by
  have small := chunk_small reg.chunkKib
  have arena := contigPages_small reg
  have word : wordSize = 2 ^ 64 := rfl
  unfold Region.target
  generalize commitChunkPages reg.chunkKib = chunk at small
  by_cases none : chunk = 0
  · simp only [none, if_true, lt_irrefl, if_false, Nat.not_lt.mpr inside]
    exact ⟨le_rfl, inside⟩
  have forward : fetchAdd already chunk = already + chunk := fetchAdd_of_lt (by omega)
  have sum : (endPage + chunk - 1) % wordSize = endPage + chunk - 1 := Nat.mod_eq_of_lt (by omega)
  have up := @le_alignUp endPage chunk (by omega)
  have near := @alignUp_lt_add endPage chunk (by omega)
  have rounded : (endPage + chunk - 1) / chunk * chunk % wordSize = alignUp endPage chunk :=
    Nat.mod_eq_of_lt (lt_of_lt_of_le near (by omega))
  simp only [none, if_false, forward, sum, rounded]
  split_ifs <;> omega

end Target

section Invariant

variable {region : Region}

/-- A call past its kernel call and before the store has committed up to its target. -/
def Stage.mark (committed : Nat) : Stage → Nat
  | .storing target => target
  | .overshot | .reserved | .waiting | .checking | .committing .. | .leaving | .returned
  | .failed => committed

/-- How far the pages are committed: the holder of the lock may be ahead of the watermark. -/
def State.mark (s : State) : Nat :=
  match s.shared.holder.bind fun i => s.calls[i]? with
  | some call => call.stage.mark s.shared.committed
  | none => s.shared.committed

theorem mark_free {s : State} (free : s.shared.holder = none) : s.mark = s.shared.committed := by
  simp [State.mark, free]

theorem mark_held {s : State} {i : Nat} {call : Call} (held : s.shared.holder = some i)
    (found : s.calls[i]? = some call) : s.mark = call.stage.mark s.shared.committed := by
  simp [State.mark, held, found]

structure CallSound (region : Region) (shared : Shared) (i : Nat) (call : Call) : Prop where
  holds : call.stage.inside = true ↔ shared.holder = some i
  arena : call.stage ≠ .overshot → call.stage ≠ .failed →
    call.endPage = call.start + call.numPages ∧ call.endPage ≤ region.contigPages
  stands : match call.stage with
    | .committing already target =>
      already = shared.committed ∧ already < target ∧ call.endPage ≤ target ∧
        target ≤ region.contigPages
    | .storing target =>
      shared.committed ≤ target ∧ call.endPage ≤ target ∧ target ≤ region.contigPages
    | .leaving | .returned => call.endPage ≤ shared.committed
    | .overshot | .reserved | .waiting | .checking | .failed => True

structure Sound (region : Region) (state : State) : Prop where
  watermark : state.shared.committed ≤ region.contigPages
  tiles : Tiles state.shared.commits state.mark
  calls : ∀ i call, state.calls[i]? = some call → CallSound region state.shared i call
  present : ∀ i, state.shared.holder = some i → i < state.calls.length

theorem initial_sound : Sound region initial where
  watermark := Nat.zero_le _
  tiles := fun point => by simp [initial, State.mark]
  calls := fun i call found => by simp [initial] at found
  present := fun i held => by simp [initial] at held

variable {s s' : Shared} {i : Nat} {call : Call}

theorem CallSound.same (h : CallSound region s i call)
    (holder : s'.holder = s.holder) (committed : s'.committed = s.committed) :
    CallSound region s' i call where
  holds := by rw [holder]; exact h.holds
  arena := h.arena
  stands := by rw [committed]; exact h.stands

theorem CallSound.not_holder (h : CallSound region s i call)
    (out : call.stage.inside = false) : s.holder ≠ some i := by
  intro held
  have inside := h.holds.mpr held
  rw [out] at inside
  cases inside

theorem CallSound.outside (h : CallSound region s i call)
    (out : call.stage.inside = false) (j : s'.holder ≠ some i)
    (grows : s.committed ≤ s'.committed) : CallSound region s' i call where
  holds := by simp [out, j]
  arena := h.arena
  stands := by
    have stands := h.stands
    cases stage : call.stage with
    | committing already target => simp [stage, Stage.inside] at out
    | storing target => simp [stage, Stage.inside] at out
    | leaving => simp [stage, Stage.inside] at out
    | returned => exact le_trans (by simpa [stage] using stands) grows
    | overshot | reserved | waiting | checking | failed => trivial

end Invariant

section Steps

variable {reg : Region} {s : State} {i : Nat} {call : Call}

theorem mark_inside (found : s.calls[i]? = some call) {stage : Stage} {sh : Shared}
    (held : sh.holder = some i) :
    State.mark ⟨sh, s.calls.set i { call with stage }⟩ = stage.mark sh.committed := by
  have length := (List.getElem?_eq_some_iff.mp found).1
  have still : (s.calls.set i { call with stage })[i]? = some { call with stage } :=
    List.getElem?_set_self length
  exact @mark_held ⟨sh, _⟩ i _ held still

theorem outside_of_ne (h : Sound reg s) (held : s.shared.holder = some i)
    {j : Nat} {u : Call} (apart : j ≠ i) (found : s.calls[j]? = some u) :
    u.stage.inside = false := by
  by_contra inside
  have mine := (h.calls j u found).holds.mp (by simpa using inside)
  rw [held] at mine
  exact apart (Option.some.inj mine).symm

section OneCall

variable (h : Sound reg s) (found : s.calls[i]? = some call)
variable {sh : Shared} {stage : Stage}

include h found

theorem inside_facts (inside : call.stage.inside = true) : s.shared.holder = some i ∧
      (call.endPage = call.start + call.numPages ∧ call.endPage ≤ reg.contigPages) ∧
      Tiles s.shared.commits (call.stage.mark s.shared.committed) := by
  have mine := h.calls i call found
  have held := mine.holds.mp inside
  refine ⟨held, mine.arena ?_ ?_, ?_⟩
  · intro stage
    simp [stage, Stage.inside] at inside
  · intro stage
    simp [stage, Stage.inside] at inside
  · rw [← mark_held held found]
    exact h.tiles

/-- The parts of the invariant one call's step has to establish again; `others` says how the
remaining calls fare with the new fields. -/
theorem Sound.act (watermark : sh.committed ≤ reg.contigPages)
    (tiles : Tiles sh.commits (State.mark ⟨sh, s.calls.set i { call with stage }⟩))
    (mine : CallSound reg sh i { call with stage })
    (others : ∀ j u, j ≠ i → s.calls[j]? = some u → CallSound reg sh j u)
    (present : ∀ j, sh.holder = some j → j = i ∨ s.shared.holder = some j) :
    Sound reg ⟨sh, s.calls.set i { call with stage }⟩ where
  watermark := watermark
  tiles := tiles
  calls := by
    intro j u at_j
    by_cases same : j = i
    · subst same
      have length := (List.getElem?_eq_some_iff.mp found).1
      rw [List.getElem?_set_self length] at at_j
      cases at_j
      exact mine
    · rw [List.getElem?_set_ne (Ne.symm same)] at at_j
      exact others j u same at_j
  present := by
    intro j held
    rw [length_set]
    rcases present j held with rfl | pre
    · exact (List.getElem?_eq_some_iff.mp found).1
    · exact h.present j pre

theorem mark_outside (out : call.stage.inside = false) (holder : sh.holder = s.shared.holder)
    (committed : sh.committed = s.shared.committed) :
    State.mark ⟨sh, s.calls.set i { call with stage }⟩ = s.mark := by
  cases held : s.shared.holder with
  | none => rw [mark_free held, mark_free (holder.trans held), committed]
  | some j =>
    have u : j ≠ i := by
      rintro rfl
      exact (h.calls j call found).not_holder out held
    obtain ⟨owner, at_j⟩ : ∃ owner, s.calls[j]? = some owner :=
      ⟨_, List.getElem?_eq_getElem (h.present j held)⟩
    have still : (s.calls.set i { call with stage })[j]? = some owner := by
      rw [List.getElem?_set_ne (Ne.symm u)]
      exact at_j
    rw [mark_held held at_j, mark_held (holder.trans held) still, committed]

theorem act_outside (out : call.stage.inside = false) (holder : sh.holder = s.shared.holder)
    (committed : sh.committed = s.shared.committed) (commits : sh.commits = s.shared.commits)
    (mine : CallSound reg sh i { call with stage }) :
    Sound reg ⟨sh, s.calls.set i { call with stage }⟩ := by
  refine h.act found ?_ ?_ mine ?_ ?_
  · rw [committed]
    exact h.watermark
  · rw [mark_outside h found out holder committed, commits]
    exact h.tiles
  · exact fun j u _ at_j => (h.calls j u at_j).same holder committed
  · intro j held
    rw [holder] at held
    exact Or.inr held

theorem overshot_sound (stage : call.stage = .overshot) (nextPage : Nat) :
    Sound reg ⟨{ s.shared with nextPage }, s.calls.set i { call with stage := .failed }⟩ := by
  have mine := h.calls i call found
  have idle := mine.not_holder (by simp [stage, Stage.inside])
  refine act_outside h found (by simp [stage, Stage.inside]) rfl rfl rfl ⟨?_, ?_, trivial⟩
  · simp [Stage.inside, idle]
  · exact fun _ failed => absurd rfl failed

theorem reserved_sound (stage : call.stage = .reserved) :
    Sound reg ⟨s.shared, s.calls.set i { call with
      stage := if call.endPage ≤ s.shared.committed then .returned else .waiting }⟩ := by
  have mine := h.calls i call found
  have idle := mine.not_holder (by simp [stage, Stage.inside])
  have arena := mine.arena (by simp [stage]) (by simp [stage])
  refine act_outside h found (by simp [stage, Stage.inside]) rfl rfl rfl ?_
  split
  next covered => exact ⟨by simp [Stage.inside, idle], fun _ _ => arena, covered⟩
  next => exact ⟨by simp [Stage.inside, idle], fun _ _ => arena, trivial⟩

theorem waiting_sound (stage : call.stage = .waiting) (free : s.shared.holder = none) :
    Sound reg ⟨{ s.shared with holder := some i },
      s.calls.set i { call with stage := .checking }⟩ := by
  have arena := (h.calls i call found).arena (by simp [stage]) (by simp [stage])
  refine h.act found h.watermark ?_ ⟨by simp [Stage.inside], fun _ _ => arena, trivial⟩ ?_ ?_
  · rw [mark_inside found rfl]
    simpa [Stage.mark, mark_free free] using h.tiles
  · intro j u apart at_j
    have old := h.calls j u at_j
    have out : u.stage.inside = false := by
      by_contra inside
      have held := old.holds.mp (by simpa using inside)
      rw [free] at held
      cases held
    exact old.outside out (fun held => apart (Option.some.inj held).symm) le_rfl
  · exact fun j held => Or.inl (Option.some.inj held).symm

theorem act_inside (held : s.shared.holder = some i) (holder : sh.holder = s.shared.holder)
    (committed : sh.committed = s.shared.committed)
    (tiles : Tiles sh.commits (stage.mark sh.committed))
    (mine : CallSound reg sh i { call with stage }) :
    Sound reg ⟨sh, s.calls.set i { call with stage }⟩ := by
  refine h.act found ?_ ?_ mine ?_ ?_
  · rw [committed]
    exact h.watermark
  · rw [mark_inside found (holder.trans held)]
    exact tiles
  · exact fun j u _ at_j => (h.calls j u at_j).same holder committed
  · intro j now
    rw [holder] at now
    exact Or.inr now

theorem checking_sound (stage : call.stage = .checking) {next : Stage}
    (checked : next = if call.endPage ≤ s.shared.committed then .leaving
      else .committing s.shared.committed
        (reg.target s.shared.committed call.endPage)) :
    Sound reg ⟨s.shared, s.calls.set i { call with stage := next }⟩ := by
  obtain ⟨held, arena, tiles⟩ := inside_facts h found (by rw [stage]; rfl)
  simp only [stage, Stage.mark] at tiles
  split at checked
  next covered =>
    subst checked
    exact act_inside h found held rfl rfl tiles
      ⟨by simp [Stage.inside, held], fun _ _ => arena, covered⟩
  next behind =>
    subst checked
    have ahead := target_spec (Nat.lt_of_not_le behind) arena.2
    refine act_inside h found held rfl rfl tiles
      ⟨by simp [Stage.inside, held], fun _ _ => arena, rfl, ?_, ahead.1, ahead.2⟩
    exact lt_of_lt_of_le (Nat.lt_of_not_le behind) ahead.1

theorem committing_sound {already target : Nat} (stage : call.stage = .committing already target) :
    Sound reg
      ⟨{ s.shared with commits := ⟨already, fetchSub target already⟩ :: s.shared.commits },
        s.calls.set i { call with stage := .storing target }⟩ := by
  obtain ⟨held, arena, tiles⟩ := inside_facts h found (by rw [stage]; rfl)
  have stands := (h.calls i call found).stands
  simp only [stage, Stage.mark] at stands tiles
  obtain ⟨rfl, behind, covered, inside⟩ := stands
  have size : fetchSub target s.shared.committed = target - s.shared.committed :=
    fetchSub_of_le behind.le ((inside.trans_lt (contigPages_small reg)).trans (by decide))
  refine act_inside h found held rfl rfl ?_
    ⟨by simp [Stage.inside, held], fun _ _ => arena, behind.le, covered, inside⟩
  -- the new range starts where the committed pages end
  intro page
  have grown := covers_grow s.shared.committed (target - s.shared.committed) page
  rw [Nat.add_sub_cancel' behind.le] at grown
  rw [depth_cons, tiles page, size]
  exact grown

theorem storing_sound {target : Nat} (stage : call.stage = .storing target) :
    Sound reg ⟨{ s.shared with committed := target },
      s.calls.set i { call with stage := .leaving }⟩ := by
  obtain ⟨held, arena, tiles⟩ := inside_facts h found (by rw [stage]; rfl)
  have stands := (h.calls i call found).stands
  simp only [stage, Stage.mark] at stands tiles
  obtain ⟨grows, covered, inside⟩ := stands
  refine h.act found inside ?_ ⟨by simp [Stage.inside, held], fun _ _ => arena, covered⟩ ?_
    fun j now => Or.inr now
  · have mark := @mark_inside s i call found .leaving { s.shared with committed := target } held
    rw [mark]
    exact tiles
  · intro j u apart at_j
    have out := outside_of_ne h held apart at_j
    have old := h.calls j u at_j
    exact old.outside out (old.not_holder out) grows

theorem leaving_sound (stage : call.stage = .leaving) :
    Sound reg ⟨{ s.shared with holder := none },
      s.calls.set i { call with stage := .returned }⟩ := by
  obtain ⟨held, arena, tiles⟩ := inside_facts h found (by rw [stage]; rfl)
  have covered := (h.calls i call found).stands
  simp only [stage, Stage.mark] at covered tiles
  refine h.act found h.watermark ?_ ?_ ?_ ?_
  · rw [mark_free rfl]
    exact tiles
  · exact ⟨by simp [Stage.inside], fun _ _ => arena, covered⟩
  · intro j u apart at_j
    have out := outside_of_ne h held apart at_j
    exact (h.calls j u at_j).outside out (by simp) le_rfl
  · intro j now
    cases now

end OneCall

theorem act_sound (h : Sound reg s) {next : State}
    (moved : step reg s (.act i) = some next) : Sound reg next := by
  obtain ⟨call, found, acted⟩ := Option.bind_eq_some_iff.mp moved
  obtain ⟨⟨stage, sh⟩, done, rfl⟩ := Option.map_eq_some_iff.mp acted
  cases at_stage : call.stage <;> simp only [Call.act, at_stage] at done
  case overshot =>
    cases done
    exact overshot_sound h found at_stage _
  case reserved =>
    cases done
    exact reserved_sound h found at_stage
  case waiting =>
    split at done
    next free =>
      cases done
      exact waiting_sound h found at_stage free
    next => cases done
  case checking =>
    split at done <;> cases done <;> apply checking_sound h found at_stage
    next covered => rw [if_pos covered]
    next behind => rw [if_neg behind]
  case committing already target =>
    cases done
    exact committing_sound h found at_stage
  case storing target =>
    cases done
    exact storing_sound h found at_stage
  case leaving =>
    cases done
    exact leaving_sound h found at_stage
  case returned => cases done
  case failed => cases done

theorem reserved_call {numPages j : Nat} (unwrapped : s.shared.nextPage + numPages < wordSize)
    (h : Sound reg s) (later : s.calls.length ≤ j) (nextPage : Nat) :
    CallSound reg { s.shared with nextPage } j
      ⟨s.shared.nextPage, numPages,
        if reg.contigPages < (s.shared.nextPage + numPages) % wordSize then .overshot
        else .reserved⟩ := by
  have idle : s.shared.holder ≠ some j := fun held => Nat.not_lt.mpr later (h.present j held)
  have sum : (s.shared.nextPage + numPages) % wordSize = s.shared.nextPage + numPages :=
    Nat.mod_eq_of_lt unwrapped
  split
  next =>
    exact ⟨by simp [Stage.inside, idle], fun overshot => absurd rfl overshot, trivial⟩
  next inside =>
    exact ⟨by simp [Stage.inside, idle], fun _ _ => ⟨sum, Nat.not_lt.mp inside⟩, trivial⟩

theorem reserve_sound (h : Sound reg s) {numPages : Nat} {next : State}
    (unwrapped : Unwrapped s (.reserve numPages))
    (moved : step reg s (.reserve numPages) = some next) : Sound reg next := by
  simp only [step, Option.some.injEq] at moved
  subst moved
  refine ⟨h.watermark, ?_, ?_, ?_⟩
  · -- the holder, if there is one, is an earlier call
    cases held : s.shared.holder with
    | none => simpa [State.mark, held] using h.tiles
    | some j =>
      have old := h.present j held
      simpa [State.mark, held, List.getElem?_append_left old] using h.tiles
  · intro j u found
    rcases Nat.lt_or_ge j s.calls.length with old | new
    · rw [List.getElem?_append_left old] at found
      exact (h.calls j u found).same rfl rfl
    · rw [List.getElem?_append_right new] at found
      rw [mem_singleton.mp (mem_of_getElem? found)]
      exact reserved_call unwrapped h new _
  · intro j held
    rw [length_append]
    exact Nat.lt_of_lt_of_le (h.present j held) (Nat.le_add_right _ _)

theorem step_sound {next : State} {label : Label} (h : Sound reg s)
    (unwrapped : Unwrapped s label) (moved : step reg s label = some next) :
    Sound reg next := by
  cases label with
  | reserve numPages => exact reserve_sound h unwrapped moved
  | act i => exact act_sound h moved

theorem step_grows {next : State} {label : Label} (h : Sound reg s)
    (moved : step reg s label = some next) : s.shared.committed ≤ next.shared.committed := by
  cases label with
  | reserve numPages =>
    simp only [step, Option.some.injEq] at moved
    subst moved
    exact le_rfl
  | act i =>
    obtain ⟨call, found, acted⟩ := Option.bind_eq_some_iff.mp moved
    obtain ⟨⟨stage, sh⟩, done, rfl⟩ := Option.map_eq_some_iff.mp acted
    have stands := (h.calls i call found).stands
    cases at_stage : call.stage <;> simp only [Call.act, at_stage] at done stands
    case storing target =>
      cases done
      exact stands.1
    case waiting =>
      split at done <;> cases done
      exact le_rfl
    case checking =>
      split at done <;> cases done <;> exact le_rfl
    all_goals cases done
    all_goals exact le_rfl

theorem run_grows {labels : List Label} {final : State} (h : Sound reg s)
    (unwrapped : Along (step reg) Unwrapped s labels)
    (ran : exec (step reg) s labels = some final) :
    s.shared.committed ≤ final.shared.committed := by
  induction labels generalizing s with
  | nil =>
    cases ran
    exact le_rfl
  | cons label rest ih =>
    obtain ⟨next, moved, tail⟩ := exec_cons.mp ran
    have further : Along (step reg) Unwrapped next rest := by
      simpa [moved] using unwrapped.2
    exact (step_grows h moved).trans (ih (step_sound h unwrapped.1 moved) further tail)

end Steps

section Result

variable {reg : Region} {s : State}

theorem Sound.covers_returned (h : Sound reg s) {call : Call}
    (mem : call ∈ s.calls) (returned : call.stage = .returned) {page : Nat}
    (covered : Covers ⟨call.start, call.numPages⟩ page) :
    ∃ range ∈ s.shared.commits, Covers range page := by
  obtain ⟨i, found⟩ := mem_iff_getElem?.mp mem
  have mine := h.calls i call found
  obtain ⟨ends, _⟩ := mine.arena (by simp [returned]) (by simp [returned])
  have reached : call.endPage ≤ s.shared.committed := by
    simpa [returned] using mine.stands
  have ahead : s.shared.committed ≤ s.mark := by
    cases held : s.shared.holder with
    | none => exact (mark_free held).ge
    | some j =>
      obtain ⟨owner, at_j⟩ : ∃ owner, s.calls[j]? = some owner :=
        ⟨_, List.getElem?_eq_getElem (h.present j held)⟩
      have stands := (h.calls j owner at_j).stands
      rw [mark_held held at_j]
      cases stage : owner.stage <;> simp only [stage] at stands <;> simp [Stage.mark]
      exact stands.1
  have inside : page < s.mark := by
    simp only [Covers] at covered
    omega
  exact (h.tiles.covered_iff page).mpr inside

/-- In every interleaving each page is committed at most once, the pages of a range are committed
when the range is returned, and the watermark never falls and stays within the arena. -/
theorem bump_commits_pages (reg : Region) (labels : List Label) (s : State)
    (unwrapped : Along (step reg) Unwrapped initial labels)
    (ran : exec (step reg) initial labels = some s) : (∀ page, depth s.shared.commits page ≤ 1) ∧
    (∀ call ∈ s.calls, call.stage = .returned → ∀ page, Covers ⟨call.start, call.numPages⟩ page →
        ∃ range ∈ s.shared.commits, Covers range page) ∧ s.shared.committed ≤ reg.contigPages ∧
    (∀ earlier later between, labels = earlier ++ later →
      exec (step reg) initial earlier = some between →
      between.shared.committed ≤ s.shared.committed) := by
  have h := invariant_of_along step_sound initial_sound unwrapped ran
  refine ⟨fun page => ?_, fun call mem returned page covered => ?_, h.watermark, ?_⟩
  · rw [h.tiles page]
    split <;> omega
  · exact h.covers_returned mem returned covered
  · rintro earlier later between rfl reached
    obtain ⟨front, back⟩ := unwrapped.split reached
    have pre := invariant_of_along step_sound initial_sound front reached
    obtain ⟨same, first, second⟩ := exec_append.mp ran
    rw [reached] at first
    cases first
    exact run_grows pre back second

/-- Two calls on an arena of ten pages without chunking: the second range is committed first, and
with it the pages of the first. -/
def laterRangeFirst : List Label :=
  [.reserve 3, .reserve 4, .act 1, .act 1, .act 0, .act 1, .act 1, .act 1, .act 1, .act 0, .act 0,
    .act 0]

def tenPages : Region := ⟨10, none, by decide⟩

theorem bump_commits_pages_out_of_order : Along (step tenPages) Unwrapped initial laterRangeFirst ∧
      ∃ s, exec (step tenPages) initial laterRangeFirst = some s ∧
        s.calls = [⟨0, 3, .returned⟩, ⟨3, 4, .returned⟩] ∧ s.shared.commits = [⟨0, 7⟩] ∧
        (∀ page, depth s.shared.commits page ≤ 1) := by
  have unwrapped : Along (step tenPages) Unwrapped initial laterRangeFirst := by decide +kernel
  obtain ⟨s, ran, same⟩ := Option.map_eq_some_iff.mp
    (show (exec (step tenPages) initial laterRangeFirst).map
        (fun s => (s.calls, s.shared.commits)) =
      some ([⟨0, 3, .returned⟩, ⟨3, 4, .returned⟩], [⟨0, 7⟩]) by decide +kernel)
  obtain ⟨calls, commits⟩ := Prod.mk.inj same
  exact ⟨unwrapped, s, ran, calls, commits,
    (bump_commits_pages tenPages laterRangeFirst s unwrapped ran).1⟩

end Result

end Smash.CommitWatermark
