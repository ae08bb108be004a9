import Mathlib.Data.List.Basic

/-! Labelled transition systems given by a partial step function. A label carries
every choice the step does not make itself (the thread that moves, the outcome of a
kernel call, the argument of an entry point), so a run is determined by its list of
labels and can be evaluated. -/
namespace Smash.Transition
variable {State Label : Type}

/-- The state a list of labels leads to; `none` when some step is not enabled. -/
def exec (step : State → Label → Option State) : State → List Label → Option State
  | s, [] => some s
  | s, label :: rest =>
    match step s label with
    | none => none
    | some next => exec step next rest

/-- Every step taken by the run meets `guard` in the state it is taken from. -/
def Along (step : State → Label → Option State) (guard : State → Label → Prop) :
    State → List Label → Prop
  | _, [] => True
  | s, label :: rest =>
    guard s label ∧
      match step s label with
      | none => True
      | some next => Along step guard next rest

instance decidableAlong (step : State → Label → Option State) (guard : State → Label → Prop)
    [∀ s label, Decidable (guard s label)] (s : State) :
    (labels : List Label) → Decidable (Along step guard s labels)
  | [] => isTrue trivial
  | label :: rest =>
    @instDecidableAnd _ _ _ (match step s label with
      | none => isTrue trivial
      | some next => decidableAlong step guard next rest)

variable {step : State → Label → Option State}

@[simp] theorem exec_nil (s : State) : exec step s [] = some s := rfl

theorem exec_cons {s final : State} {label : Label} {rest : List Label} :
    exec step s (label :: rest) = some final ↔
      ∃ next, step s label = some next ∧ exec step next rest = some final := by
  cases moved : step s label <;> simp [exec, moved]

theorem exec_append {s final : State} {first second : List Label} :
    exec step s (first ++ second) = some final ↔
      ∃ middle, exec step s first = some middle ∧ exec step middle second = some final := by
  induction first generalizing s with
  | nil => simp
  | cons label rest ih =>
    cases moved : step s label with
    | none => simp [exec, moved]
    | some next => simpa [exec, moved] using ih

/-- A guarded run splits where one of its states is reached. -/
theorem Along.split {guard : State → Label → Prop} {start middle : State}
    {first second : List Label} (guarded : Along step guard start (first ++ second))
    (reached : exec step start first = some middle) :
    Along step guard start first ∧ Along step guard middle second := by
  induction first generalizing start with
  | nil =>
    cases reached
    exact ⟨trivial, guarded⟩
  | cons label rest ih =>
    obtain ⟨next, moved, tail⟩ := exec_cons.mp reached
    obtain ⟨here, further⟩ := guarded
    rw [moved] at further
    obtain ⟨front, back⟩ := ih further tail
    refine ⟨⟨here, ?_⟩, back⟩
    rw [moved]
    exact front

/-- Guards may be weakened, also by what an invariant of the run knows. -/
theorem Along.mono {guard weaker : State → Label → Prop} {Inv : State → Prop}
    (preserved : ∀ {s next : State} {label : Label},
      Inv s → guard s label → step s label = some next → Inv next)
    (implied : ∀ {s : State} {label : Label}, Inv s → guard s label → weaker s label)
    {start : State} {labels : List Label} (holds : Inv start)
    (guarded : Along step guard start labels) : Along step weaker start labels := by
  induction labels generalizing start with
  | nil => trivial
  | cons label rest ih =>
    refine ⟨implied holds guarded.1, ?_⟩
    have further := guarded.2
    split at further
    next => trivial
    next next moved => exact ih (preserved holds guarded.1 moved) further

section Invariant

variable {guard : State → Label → Prop} {Inv : State → Prop}

/-- What one guarded step preserves holds after every run of guarded steps. -/
theorem invariant_of_along (preserved : ∀ {s next : State} {label : Label},
      Inv s → guard s label → step s label = some next → Inv next)
    {start final : State} {labels : List Label}
    (holds : Inv start) (guarded : Along step guard start labels)
    (ran : exec step start labels = some final) : Inv final := by
  induction labels generalizing start with
  | nil =>
    cases ran
    exact holds
  | cons label rest ih =>
    obtain ⟨next, moved, tail⟩ := exec_cons.mp ran
    have further : Along step guard next rest := by simpa [moved] using guarded.2
    exact ih (preserved holds guarded.1 moved) further tail

/-- A guard that only looks at the labels can be checked label by label. -/
theorem along_of_forall {start : State} {labels : List Label}
    (all : ∀ label ∈ labels, ∀ s, guard s label) : Along step guard start labels := by
  induction labels generalizing start with
  | nil => trivial
  | cons label rest ih =>
    refine ⟨all label List.mem_cons_self start, ?_⟩
    split
    · trivial
    · exact ih fun j mem => all j (List.mem_cons_of_mem label mem)

theorem along_one {s : State} {label : Label} : Along step guard s [label] ↔ guard s label := by
  refine and_iff_left ?_
  split <;> trivial

theorem along_true {start : State} {labels : List Label} :
    Along step (fun _ _ => True) start labels := by
  induction labels generalizing start with
  | nil => trivial
  | cons label rest ih =>
    refine ⟨trivial, ?_⟩
    split
    · trivial
    · exact ih

theorem invariant (preserved : ∀ {s next : State} {label : Label},
      Inv s → step s label = some next → Inv next) {start final : State} {labels : List Label}
    (holds : Inv start) (ran : exec step start labels = some final) : Inv final :=
  invariant_of_along (fun h _ moved => preserved h moved) holds along_true ran

end Invariant

end Smash.Transition
