import Mathlib.Data.Finset.Card

/-! Maximal runs of a table over `0, ..., size - 1`: runs of equal values, counted by the places
where one begins, and runs of marked places. -/
namespace Smash.MaximalRuns

section Values

variable {α : Type} [DecidableEq α] {table : Nat → α} {size : Nat}

def breaks (table : Nat → α) (size : Nat) : Finset Nat :=
  (Finset.range size).filter fun i => i = 0 ∨ table (i - 1) ≠ table i

def runs (table : Nat → α) (size : Nat) : Nat := (breaks table size).card

/-- One changed place makes at most two more runs. -/
theorem runs_update (place : Nat) (v : α) :
    runs (Function.update table place v) size ≤ runs table size + 2 := by
  have inside : breaks (Function.update table place v) size ⊆
      breaks table size ∪ {place, place + 1} := by
    intro i mem
    obtain ⟨below, begins⟩ := Finset.mem_filter.mp mem
    simp only [Finset.mem_union, Finset.mem_insert, Finset.mem_singleton]
    by_cases here : i = place
    · exact .inr (.inl here)
    · by_cases next : i = place + 1
      · exact .inr (.inr next)
      · refine .inl (Finset.mem_filter.mpr ⟨below, ?_⟩)
        rcases begins with zero | differs
        · exact .inl zero
        · by_cases zero : i = 0
          · exact .inl zero
          · have pre : i - 1 ≠ place := by omega
            rw [Function.update_of_ne here, Function.update_of_ne pre] at differs
            exact .inr differs
  calc runs (Function.update table place v) size
      ≤ (breaks table size ∪ {place, place + 1}).card := Finset.card_le_card inside
    _ ≤ (breaks table size).card + ({place, place + 1} : Finset Nat).card :=
        Finset.card_union_le ..
    _ ≤ runs table size + 2 := Nat.add_le_add_left Finset.card_le_two _

end Values

section Marks

variable {mark : Nat → Bool} {size place : Nat}

/-- `[first, last)` is the maximal run of marked places around `place`. -/
structure Around (mark : Nat → Bool) (size first last place : Nat) : Prop where
  lower : first ≤ place
  upper : place < last
  within : last ≤ size
  marked : ∀ i, first ≤ i → i < last → mark i = true
  left : first = 0 ∨ mark (first - 1) = false
  right : last = size ∨ mark last = false

theorem exists_left (place : Nat) (here : mark place = true) :
    ∃ first ≤ place, (∀ i, first ≤ i → i ≤ place → mark i = true) ∧
      (first = 0 ∨ mark (first - 1) = false) := by
  induction place with
  | zero =>
    refine ⟨0, Nat.le_refl 0, fun i _ above => ?_, .inl rfl⟩
    rw [Nat.le_zero.mp above]
    exact here
  | succ place ih =>
    cases pre : mark place with
    | false =>
      refine ⟨place + 1, Nat.le_refl _, fun i lower upper => ?_, .inr pre⟩
      rw [Nat.le_antisymm upper lower]
      exact here
    | true =>
      obtain ⟨first, lower, marked, left⟩ := ih pre
      refine ⟨first, Nat.le_succ_of_le lower, fun i above below => ?_, left⟩
      rcases Nat.lt_or_eq_of_le below with earlier | same
      · exact marked i above (Nat.le_of_lt_succ earlier)
      · rw [same]
        exact here

theorem exists_right (place rest : Nat) (here : mark place = true) :
    ∃ last, place < last ∧ last ≤ place + 1 + rest ∧ (∀ i, place ≤ i → i < last → mark i = true) ∧
      (last = place + 1 + rest ∨ mark last = false) := by
  induction rest with
  | zero =>
    refine ⟨place + 1, Nat.lt_succ_self place, Nat.le_refl _, fun i lower upper => ?_, .inl rfl⟩
    rw [Nat.le_antisymm (Nat.le_of_lt_succ upper) lower]
    exact here
  | succ rest ih =>
    obtain ⟨last, above, below, marked, right⟩ := ih
    rcases right with whole | stopped
    · cases next : mark last with
      | false => exact ⟨last, above, by omega, marked, .inr next⟩
      | true =>
        refine ⟨last + 1, by omega, by omega, fun i lower upper => ?_, .inl (by omega)⟩
        rcases Nat.lt_or_eq_of_le (Nat.le_of_lt_succ upper) with earlier | same
        · exact marked i lower earlier
        · rw [same]
          exact next
    · exact ⟨last, above, by omega, marked, .inr stopped⟩

theorem exists_around (here : mark place = true) (below : place < size) :
    ∃ first last, Around mark size first last place := by
  obtain ⟨first, lower, pre, left⟩ := exists_left place here
  obtain ⟨last, upper, within, s', right⟩ := exists_right place (size - (place + 1)) here
  have whole : place + 1 + (size - (place + 1)) = size := by omega
  rw [whole] at within right
  refine ⟨first, last, lower, upper, within, fun i above under => ?_, left, right⟩
  rcases Nat.le_total i place with early | late
  · exact pre i above early
  · exact s' i late under

def begins (mark : Nat → Bool) (size : Nat) : Finset Nat :=
  (Finset.range size).filter fun i => mark i = true ∧ (i = 0 ∨ mark (i - 1) = false)

def markedRuns (mark : Nat → Bool) (size : Nat) : Nat := (begins mark size).card

def unmark (mark : Nat → Bool) (lo hi : Nat) (i : Nat) : Bool :=
  if lo ≤ i ∧ i < hi then false else mark i

/-- Taking the marks off a piece of a run that reaches one of its ends makes no more runs. -/
theorem markedRuns_unmark {first last lo hi : Nat} (run : Around mark size first last place)
    (above : first ≤ lo) (below : hi ≤ last) (some : lo < hi) (ends : lo = first ∨ hi = last) :
    markedRuns (unmark mark lo hi) size ≤ markedRuns mark size := by
  -- A run can only begin anew right after the piece; then the piece began a run itself.
  have fresh : ∀ i ∈ begins (unmark mark lo hi) size, i ≠ hi → i ∈ (begins mark size).erase lo := by
    intro i mem j
    obtain ⟨within, on, start⟩ := Finset.mem_filter.mp mem
    have outside : ¬ (lo ≤ i ∧ i < hi) := fun inside => by simp [unmark, inside] at on
    have kept : mark i = true := by simpa [unmark, outside] using on
    refine Finset.mem_erase.mpr ⟨fun same => outside ⟨same.ge, same ▸ some⟩, ?_⟩
    refine Finset.mem_filter.mpr ⟨within, kept, start.imp_right fun off => ?_⟩
    have pre : ¬ (lo ≤ i - 1 ∧ i - 1 < hi) := by omega
    simpa [unmark, pre] using off
  by_cases again : hi ∈ begins (unmark mark lo hi) size
  · have open_ : mark hi = true := by
      have on := (Finset.mem_filter.mp again).2.1
      simpa [unmark] using on
    have start : lo = first := by
      refine ends.resolve_right fun same => ?_
      have within := Finset.mem_range.mp (Finset.mem_filter.mp again).1
      rcases run.right with whole | stopped
      · omega
      · rw [← same, open_] at stopped
        cases stopped
    have began : lo ∈ begins mark size := by
      have inside : lo < size := by
        have := run.within
        omega
      refine Finset.mem_filter.mpr ⟨Finset.mem_range.mpr inside, ?_, ?_⟩
      · exact run.marked lo above (by omega)
      · rw [start]
        exact run.left
    have all : begins (unmark mark lo hi) size ⊆ insert hi ((begins mark size).erase lo) := by
      intro i mem
      by_cases same : i = hi
      · exact Finset.mem_insert.mpr (.inl same)
      · exact Finset.mem_insert_of_mem (fresh i mem same)
    calc markedRuns (unmark mark lo hi) size
        ≤ (insert hi ((begins mark size).erase lo)).card := Finset.card_le_card all
      _ ≤ ((begins mark size).erase lo).card + 1 := Finset.card_insert_le ..
      _ = markedRuns mark size := Finset.card_erase_add_one began
  · refine Finset.card_le_card fun i mem => ?_
    have j : i ≠ hi := fun same => again (same ▸ mem)
    exact Finset.mem_of_mem_erase (fresh i mem j)

end Marks

end Smash.MaximalRuns
