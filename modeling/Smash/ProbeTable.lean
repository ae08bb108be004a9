import Mathlib.Data.Finset.Card

/-! Open addressing with linear probing. A table is a function from slots to words; one word
marks a free slot, words that are no keys (tombstones) may stand in a slot, and a key has a
home slot from which it is searched for. -/
namespace Smash.ProbeTable

open Function

variable {Word : Type} [DecidableEq Word]

inductive Outcome where
  | found (slot : Nat)
  | vacant (slot : Nat)
  | exhausted
  deriving DecidableEq, Repr

/-- Look at up to `left` slots, starting `i` places after `start`. -/
def probe (cells : Nat → Word) (vacancy key : Word) (cap start : Nat) : (left i : Nat) → Outcome
  | 0, _ => .exhausted
  | left + 1, i =>
    let slot := (start + i) % cap
    if cells slot = key then .found slot
    else if cells slot = vacancy then .vacant slot
    else probe cells vacancy key cap start left (i + 1)

def search (cells : Nat → Word) (vacancy key : Word) (cap start : Nat) : Outcome :=
  probe cells vacancy key cap start cap 0

/-- The first `i` slots a key is searched in hold other words. -/
def Passed (cells : Nat → Word) (vacancy key : Word) (cap start i : Nat) : Prop :=
  ∀ j < i, cells ((start + j) % cap) ≠ key ∧ cells ((start + j) % cap) ≠ vacancy

def occupied (cells : Nat → Word) (vacancy : Word) (cap : Nat) : Nat :=
  ((Finset.range cap).filter fun slot => cells slot ≠ vacancy).card

section Search

variable {cells : Nat → Word} {vacancy key : Word} {cap start : Nat}

omit [DecidableEq Word] in
theorem Passed.succ {i : Nat} (passed : Passed cells vacancy key cap start i)
    (u : cells ((start + i) % cap) ≠ key) (taken : cells ((start + i) % cap) ≠ vacancy) :
    Passed cells vacancy key cap start (i + 1) := by
  intro j below
  rcases Nat.lt_succ_iff_lt_or_eq.mp below with earlier | same
  · exact passed j earlier
  · exact same ▸ ⟨u, taken⟩

theorem probe_cases (left i : Nat) (passed : Passed cells vacancy key cap start i) :
    (∃ k, i ≤ k ∧ k < i + left ∧ Passed cells vacancy key cap start k ∧
        cells ((start + k) % cap) = key ∧
        probe cells vacancy key cap start left i = .found ((start + k) % cap)) ∨
      (∃ k, i ≤ k ∧ k < i + left ∧ Passed cells vacancy key cap start k ∧
        cells ((start + k) % cap) ≠ key ∧ cells ((start + k) % cap) = vacancy ∧
        probe cells vacancy key cap start left i = .vacant ((start + k) % cap)) ∨
      (Passed cells vacancy key cap start (i + left) ∧
        probe cells vacancy key cap start left i = .exhausted) := by
  induction left generalizing i with
  | zero => exact .inr (.inr ⟨passed, rfl⟩)
  | succ left ih =>
    simp only [probe]
    by_cases here : cells ((start + i) % cap) = key
    · rw [if_pos here]
      exact .inl ⟨i, le_rfl, by omega, passed, here, rfl⟩
    · rw [if_neg here]
      by_cases free : cells ((start + i) % cap) = vacancy
      · rw [if_pos free]
        exact .inr (.inl ⟨i, le_rfl, by omega, passed, here, free, rfl⟩)
      · rw [if_neg free]
        rw [show i + (left + 1) = i + 1 + left by omega]
        rcases ih (i + 1) (passed.succ here free) with
          ⟨k, low, high, rest⟩ | ⟨k, low, high, rest⟩ | further
        · exact .inl ⟨k, by omega, high, rest⟩
        · exact .inr (.inl ⟨k, by omega, high, rest⟩)
        · exact .inr (.inr further)

theorem search_cases (cells : Nat → Word) (vacancy key : Word) (cap start : Nat) :
    (∃ k < cap, Passed cells vacancy key cap start k ∧ cells ((start + k) % cap) = key ∧
        search cells vacancy key cap start = .found ((start + k) % cap)) ∨
      (∃ k < cap, Passed cells vacancy key cap start k ∧ cells ((start + k) % cap) ≠ key ∧
        cells ((start + k) % cap) = vacancy ∧
        search cells vacancy key cap start = .vacant ((start + k) % cap)) ∨
      (Passed cells vacancy key cap start cap ∧
        search cells vacancy key cap start = .exhausted) := by
  have nothing : Passed cells vacancy key cap start 0 := fun j below => absurd below (by omega)
  simpa [search] using probe_cases cap 0 nothing

theorem search_of_passed {k : Nat} (within : k < cap)
    (passed : Passed cells vacancy key cap start k) (here : cells ((start + k) % cap) = key) :
    search cells vacancy key cap start = .found ((start + k) % cap) := by
  rcases search_cases cells vacancy key cap start with
    ⟨i, -, earlier, there, found⟩ | ⟨i, -, pre, j, free, -⟩ | ⟨all, -⟩
  · rcases Nat.lt_trichotomy i k with less | same | more
    · exact absurd there (passed i less).1
    · rw [found, same]
    · exact absurd here (earlier k more).1
  · rcases Nat.lt_trichotomy i k with less | same | more
    · exact absurd free (passed i less).2
    · exact absurd (same ▸ here) j
    · exact absurd here (pre k more).1
  · exact absurd here (all k within).1

theorem exists_offset {slot : Nat} (within : slot < cap) : ∃ k < cap, (start + k) % cap = slot := by
  have positive : 0 < cap := by omega
  have small := Nat.mod_lt start positive
  refine ⟨(slot + (cap - start % cap)) % cap, Nat.mod_lt _ positive, ?_⟩
  rw [Nat.add_mod, Nat.mod_mod, ← Nat.add_mod]
  have whole : start + (slot + (cap - start % cap)) = slot + cap * (start / cap + 1) := by
    have split := Nat.div_add_mod start cap
    rw [Nat.mul_add, Nat.mul_one]
    omega
  rw [whole, Nat.add_mul_mod_self_left, Nat.mod_eq_of_lt within]

theorem search_ends {slot : Nat} (within : slot < cap) (free : cells slot = vacancy) :
    search cells vacancy key cap start ≠ .exhausted := by
  intro exhausted
  rcases search_cases cells vacancy key cap start with
    ⟨_, _, _, _, found⟩ | ⟨_, _, _, _, _, vacant⟩ | ⟨all, -⟩
  · rw [found] at exhausted
    cases exhausted
  · rw [vacant] at exhausted
    cases exhausted
  · obtain ⟨k, below, place⟩ := exists_offset within
    exact (all k below).2 (place.symm ▸ free)

theorem found_spec {slot : Nat} (positive : 0 < cap)
    (found : search cells vacancy key cap start = .found slot) : slot < cap ∧ cells slot = key := by
  rcases search_cases cells vacancy key cap start with
    ⟨k, _, _, here, there⟩ | ⟨_, _, _, _, _, vacant⟩ | ⟨-, exhausted⟩
  · rw [there] at found
    cases found
    exact ⟨Nat.mod_lt _ positive, here⟩
  · rw [vacant] at found
    cases found
  · rw [exhausted] at found
    cases found

theorem vacant_spec {slot : Nat} (vacant : search cells vacancy key cap start = .vacant slot) :
    ∃ k < cap, (start + k) % cap = slot ∧ Passed cells vacancy key cap start k ∧
      cells slot = vacancy := by
  rcases search_cases cells vacancy key cap start with
    ⟨k, _, _, here, there⟩ | ⟨k, below, passed, _, free, there⟩ | ⟨-, exhausted⟩
  · rw [there] at vacant
    cases vacant
  · rw [there] at vacant
    cases vacant
    exact ⟨k, below, rfl, passed, free⟩
  · rw [exhausted] at vacant
    cases vacant

end Search

section Filed

/-- Every key in the table can be found: it stands on its own search path, before any free
slot and before any other copy of itself. -/
def Filed (IsKey : Word → Prop) (home : Word → Nat) (cells : Nat → Word) (vacancy : Word)
    (cap : Nat) : Prop :=
  ∀ slot < cap, IsKey (cells slot) →
    ∃ k < cap, (home (cells slot) + k) % cap = slot ∧
      Passed cells vacancy (cells slot) cap (home (cells slot)) k

variable {IsKey : Word → Prop} {home : Word → Nat} {cells : Nat → Word} {vacancy key : Word}
  {cap slot : Nat}

theorem Filed.search_eq (filed : Filed IsKey home cells vacancy cap) (within : slot < cap)
    (isKey : IsKey key) (here : cells slot = key) :
    search cells vacancy key cap (home key) = .found slot := by
  subst here
  obtain ⟨k, below, place, passed⟩ := filed slot within isKey
  have found := search_of_passed below passed (by rw [place])
  rwa [place] at found

theorem Filed.unique (filed : Filed IsKey home cells vacancy cap) {j : Nat}
    (within : slot < cap) (also : j < cap) (isKey : IsKey (cells slot))
    (same : cells j = cells slot) : j = slot := by
  have first := filed.search_eq within isKey rfl
  have second := filed.search_eq also isKey same
  rw [first] at second
  exact (Outcome.found.inj second).symm

theorem search_absent (absent : ∀ j < cap, cells j ≠ key)
    (room : ∃ free < cap, cells free = vacancy) (start : Nat) :
    ∃ vacant, search cells vacancy key cap start = .vacant vacant := by
  obtain ⟨free, within, empty⟩ := room
  cases r : search cells vacancy key cap start with
  | found place =>
    obtain ⟨inside, here⟩ := found_spec (by omega) r
    exact absurd here (absent place inside)
  | vacant place => exact ⟨place, rfl⟩
  | exhausted => exact absurd r (search_ends within empty)

omit [DecidableEq Word] in
/-- Filling a free slot, or replacing one word by another that the search does not look for,
does not shorten a path. -/
theorem Passed.update {start k : Nat} {word : Word} (passed : Passed cells vacancy key cap start k)
    (u : word ≠ key) (taken : word ≠ vacancy) :
    Passed (update cells slot word) vacancy key cap start k := by
  intro j below
  rcases eq_or_ne ((start + j) % cap) slot with same | apart
  · rw [same, update_self]
    exact ⟨u, taken⟩
  · rw [update_of_ne apart]
    exact passed j below

theorem Filed.insert (filed : Filed IsKey home cells vacancy cap)
    (proper : ¬ IsKey vacancy) (isKey : IsKey key) (absent : ∀ u < cap, cells u ≠ key)
    (vacant : search cells vacancy key cap (home key) = .vacant slot) :
    Filed IsKey home (update cells slot key) vacancy cap := by
  have taken : key ≠ vacancy := fun same => proper (same ▸ isKey)
  obtain ⟨k, below, place, passed, free⟩ := vacant_spec vacant
  intro u within holds
  rcases eq_or_ne u slot with same | apart
  · subst same
    rw [update_self] at holds ⊢
    refine ⟨k, below, place, fun j earlier => ?_⟩
    -- The path to the slot is the one the search has passed; the slot itself is not on it.
    have apart : (home key + j) % cap ≠ u := by
      intro same
      exact (passed j earlier).2 (same ▸ free)
    rw [update_of_ne apart]
    exact passed j earlier
  · rw [update_of_ne apart] at holds ⊢
    obtain ⟨i, near, there, clear⟩ := filed u within holds
    exact ⟨i, near, there, clear.update (fun same => absent u within same.symm) taken⟩

omit [DecidableEq Word] in
theorem Filed.erase (filed : Filed IsKey home cells vacancy cap) {stone : Word}
    (noKey : ¬ IsKey stone) (taken : stone ≠ vacancy) :
    Filed IsKey home (update cells slot stone) vacancy cap := by
  intro j within holds
  rcases eq_or_ne j slot with same | apart
  · subst same
    rw [update_self] at holds
    exact absurd holds noKey
  · rw [update_of_ne apart] at holds ⊢
    obtain ⟨i, near, there, clear⟩ := filed j within holds
    exact ⟨i, near, there, clear.update (fun same => noKey (same ▸ holds)) taken⟩

end Filed

section Occupied

variable {cells : Nat → Word} {vacancy word : Word} {cap slot : Nat}

theorem exists_vacant (less : occupied cells vacancy cap < cap) :
    ∃ free < cap, cells free = vacancy := by
  by_contra full
  push Not at full
  have all : (Finset.range cap).filter (fun slot => cells slot ≠ vacancy) = Finset.range cap :=
    Finset.filter_true_of_mem fun slot mem => full slot (Finset.mem_range.mp mem)
  rw [occupied, all, Finset.card_range] at less
  exact lt_irrefl cap less

theorem occupied_update_le :
    occupied (update cells slot word) vacancy cap ≤ occupied cells vacancy cap + 1 := by
  refine (Finset.card_le_card ?_).trans (Finset.card_insert_le slot _)
  intro j mem
  rw [Finset.mem_insert]
  rcases eq_or_ne j slot with same | apart
  · exact .inl same
  · rw [Finset.mem_filter, update_of_ne apart] at mem
    exact .inr (Finset.mem_filter.mpr mem)

theorem occupied_update_taken (taken : cells slot ≠ vacancy) :
    occupied (update cells slot word) vacancy cap ≤ occupied cells vacancy cap := by
  refine Finset.card_le_card fun j mem => ?_
  rw [Finset.mem_filter] at mem ⊢
  refine ⟨mem.1, ?_⟩
  rcases eq_or_ne j slot with same | apart
  · exact same ▸ taken
  · rw [update_of_ne apart] at mem
    exact mem.2

end Occupied

end Smash.ProbeTable
