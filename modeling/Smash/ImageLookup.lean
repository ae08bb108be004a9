import Mathlib.Data.List.Perm.Basic

/-! The table that maps a return address to the base of its image: an in-place insertion sort of
the loaded images' ranges, and a binary search for the last range that starts at or below the
address. -/
namespace Smash.ImageLookup

open Function (update update_self update_of_ne)

structure ImageRange where
  lo : Nat
  hi : Nat
  base : Nat

structure ImageTable where
  n : Nat
  r : Nat → ImageRange

/-- The inner loop of `sortRanges`: everything above `x` moves up one place. -/
def insert (x : ImageRange) : Nat → (Nat → ImageRange) → Nat → ImageRange
  | 0, r => update r 0 x
  | j + 1, r =>
    if x.lo < (r j).lo then insert x j (update r (j + 1) (r j)) else update r (j + 1) x

/-- The first `i` rounds of the outer loop, which starts at 1. -/
def sortFirst (r : Nat → ImageRange) : Nat → Nat → ImageRange
  | 0 => r
  | i + 1 => insert (sortFirst r i (i + 1)) (i + 1) (sortFirst r i)

def sortRanges (r : Nat → ImageRange) (n : Nat) : Nat → ImageRange := sortFirst r (n - 1)

def search (r : Nat → ImageRange) (ra lo hi : Nat) : Nat :=
  if lo < hi then
    let mid := (lo + hi) / 2
    if (r mid).lo ≤ ra then search r ra (mid + 1) hi else search r ra lo mid
  else lo
  termination_by hi - lo

def findImageBase (t : Option ImageTable) (ra : Nat) : Nat :=
  match t with
  | none => 0
  | some t =>
    let lo := search t.r ra 0 t.n
    if lo = 0 then 0 else if ra < (t.r (lo - 1)).hi then (t.r (lo - 1)).base else 0

section Sorting

variable {r : Nat → ImageRange} {x : ImageRange} {j : Nat}

def listed (r : Nat → ImageRange) (n : Nat) : List ImageRange := (List.range n).map r

def Sorted (r : Nat → ImageRange) (n : Nat) : Prop :=
  ∀ i j, i < j → j < n → (r i).lo ≤ (r j).lo

theorem listed_succ (r : Nat → ImageRange) (n : Nat) : listed r (n + 1) = listed r n ++ [r n] := by
  simp [listed, List.range_succ]

theorem mem_listed {n : Nat} : x ∈ listed r n ↔ ∃ i < n, r i = x := by
  simp [listed]

theorem listed_update {k n : Nat} (outside : n ≤ k) : listed (update r k x) n = listed r n := by
  refine List.map_congr_left fun i mem => update_of_ne ?_ _ _
  have := List.mem_range.mp mem
  omega

theorem insert_above {k : Nat} (above : j < k) : insert x j r k = r k := by
  induction j generalizing r with
  | zero => exact update_of_ne (by omega) _ _
  | succ j ih =>
    unfold insert
    split_ifs
    · rw [ih (by omega), update_of_ne (by omega)]
    · exact update_of_ne (by omega) _ _

theorem insert_perm : (listed (insert x j r) (j + 1)).Perm (x :: listed r j) := by
  induction j generalizing r with
  | zero => simp [listed, insert]
  | succ j ih =>
    rw [listed_succ]
    unfold insert
    split_ifs
    · -- The last range moved up; below it the induction hypothesis applies.
      rw [insert_above (by omega), update_self, listed_succ r]
      refine (ih.append_right _).trans ?_
      rw [listed_update (by omega), List.cons_append]
    · rw [listed_update (by omega), update_self]
      exact List.perm_append_singleton _ _

theorem insert_sorted (sorted : Sorted r j) : Sorted (insert x j r) (j + 1) := by
  induction j generalizing r with
  | zero => exact fun i k less below => absurd less (by omega)
  | succ j ih =>
    have prefixed : Sorted r j := fun i k less below => sorted i k less (by omega)
    intro i k less below
    unfold insert
    split_ifs with smaller
    · have moved : Sorted (update r (j + 1) (r j)) j := fun a b first last => by
        rw [update_of_ne (by omega), update_of_ne (by omega)]
        exact prefixed a b first last
      rcases Nat.lt_succ_iff_lt_or_eq.mp below with inner | rfl
      · exact ih moved i k less inner
      rw [insert_above (by omega : j < j + 1), update_self]
      -- Whatever is below the moved range is the new one or was below it before.
      have found := insert_perm.mem_iff.mp
        (mem_listed.mpr ⟨i, less, rfl⟩ : insert x j (update r (j + 1) (r j)) i ∈ _)
      rw [listed_update (by omega)] at found
      rcases List.mem_cons.mp found with same | earlier
      · rw [same]
        exact Nat.le_of_lt smaller
      · obtain ⟨a, pre, same⟩ := mem_listed.mp earlier
        rw [← same]
        exact sorted a j pre (by omega)
    · rcases Nat.lt_succ_iff_lt_or_eq.mp below with inner | rfl
      · rw [update_of_ne (by omega), update_of_ne (by omega)]
        exact sorted i k less inner
      · rw [update_self, update_of_ne (by omega)]
        have last : (r i).lo ≤ (r j).lo := by
          rcases Nat.lt_succ_iff_lt_or_eq.mp less with lower | rfl
          · exact sorted i j lower (by omega)
          · exact Nat.le_refl _
        omega

theorem sortFirst_spec (r : Nat → ImageRange) (i : Nat) :
    Sorted (sortFirst r i) (i + 1) ∧ (listed (sortFirst r i) (i + 1)).Perm (listed r (i + 1)) ∧
      ∀ k > i, sortFirst r i k = r k := by
  induction i with
  | zero => exact ⟨fun i j less below => absurd less (by omega), .refl _, fun _ _ => rfl⟩
  | succ i ih =>
    obtain ⟨sorted, same, rest⟩ := ih
    refine ⟨insert_sorted sorted, insert_perm.trans ?_, fun k above => ?_⟩
    · rw [listed_succ r, rest (i + 1) (by omega)]
      exact (same.cons _).trans (List.perm_append_singleton _ _).symm
    · exact (insert_above above).trans (rest k (by omega))

theorem sortRanges_spec (r : Nat → ImageRange) (n : Nat) :
    Sorted (sortRanges r n) n ∧ (listed (sortRanges r n) n).Perm (listed r n) := by
  cases n with
  | zero => exact ⟨fun i j _ below => absurd below (by omega), .refl _⟩
  | succ n => exact ⟨(sortFirst_spec r n).1, (sortFirst_spec r n).2.1⟩

end Sorting

/-- The bounds close in on the first range that starts above the address. -/
theorem search_spec {r : Nat → ImageRange} {ra n : Nat} (sorted : Sorted r n) (lo hi : Nat)
    (order : lo ≤ hi) (inside : hi ≤ n) (below : ∀ i < lo, (r i).lo ≤ ra)
    (above : ∀ i, hi ≤ i → i < n → ra < (r i).lo) :
    search r ra lo hi ≤ n ∧ (∀ i < search r ra lo hi, (r i).lo ≤ ra) ∧
      ∀ i, search r ra lo hi ≤ i → i < n → ra < (r i).lo := by
  have weak : ∀ i j, i ≤ j → j < n → (r i).lo ≤ (r j).lo := fun i j le last => by
    rcases Nat.lt_or_eq_of_le le with less | rfl
    · exact sorted i j less last
    · exact Nat.le_refl _
  induction lo, hi using search.induct r ra with
  | case1 lo hi less mid starts ih =>
    rw [search, if_pos less, if_pos starts]
    refine ih (by omega) inside (fun i earlier => ?_) above
    exact Nat.le_trans (weak i mid (by omega) (by omega)) starts
  | case2 lo hi less mid starts ih =>
    rw [search, if_pos less, if_neg starts]
    refine ih (by omega) (by omega) below fun i later last => ?_
    exact Nat.lt_of_lt_of_le (Nat.lt_of_not_le starts) (weak mid i later last)
  | case3 lo hi met =>
    rw [search, if_neg met]
    exact ⟨by omega, below, fun i later => above i (by omega)⟩

def Covers (range : ImageRange) (ra : Nat) : Prop := range.lo ≤ ra ∧ ra < range.hi

def Disjoint (first second : ImageRange) : Prop := first.hi ≤ second.lo ∨ second.hi ≤ first.lo

theorem findImageBase_spec {r : Nat → ImageRange} {n : Nat} (sorted : Sorted r n)
    (nonempty : ∀ i < n, (r i).lo < (r i).hi)
    (apart : ∀ i j, i < j → j < n → Disjoint (r i) (r j)) (ra : Nat) :
    (∀ i < n, Covers (r i) ra → findImageBase (some ⟨n, r⟩) ra = (r i).base) ∧
    ((∀ i < n, ¬ Covers (r i) ra) → findImageBase (some ⟨n, r⟩) ra = 0) := by
  obtain ⟨most, below, above⟩ := @search_spec r ra n sorted 0 n (by omega) (Nat.le_refl n)
    (fun i less => absurd less (by omega)) (fun i later last => absurd last (by omega))
  constructor
  · rintro i inside ⟨starts, ends⟩
    have passed : i < search r ra 0 n := by
      by_contra later
      exact absurd (above i (by omega) inside) (by omega)
    have met : search r ra 0 n = i + 1 := by
      by_contra further
      -- The next range starts at or below the address too, so it lies inside this one.
      have next := below (i + 1) (by omega)
      have wide := nonempty (i + 1) (by omega)
      have order := sorted i (i + 1) (by omega) (by omega)
      rcases apart i (i + 1) (by omega) (by omega) with pre | s' <;> omega
    simp [findImageBase, met, ends]
  · intro uncovered
    simp only [findImageBase]
    split_ifs with first reached
    · rfl
    · exact absurd ⟨below _ (by omega), reached⟩ (uncovered _ (by omega))
    · rfl

/-- After `sortRanges` the search finds the image of every address, and 0 where there is none. -/
theorem findImageBase_sorted (n : Nat) (r : Nat → ImageRange)
    (nonempty : ∀ i < n, (r i).lo < (r i).hi)
    (apart : ∀ i j, i < j → j < n → Disjoint (r i) (r j)) (ra : Nat) :
    (∀ i < n, Covers (r i) ra → findImageBase (some ⟨n, sortRanges r n⟩) ra = (r i).base) ∧
    ((∀ i < n, ¬ Covers (r i) ra) → findImageBase (some ⟨n, sortRanges r n⟩) ra = 0) := by
  obtain ⟨sorted, perm⟩ := sortRanges_spec r n
  have origin : ∀ i < n, ∃ j < n, r j = sortRanges r n i := fun i inside =>
    mem_listed.mp (perm.mem_iff.mp (mem_listed.mpr ⟨i, inside, rfl⟩))
  have pairs : (listed r n).Pairwise Disjoint := List.pairwise_map.mpr
    (List.pairwise_lt_range.imp_of_mem fun _ last less => apart _ _ less (List.mem_range.mp last))
  have moved := List.pairwise_map.mp ((List.Perm.pairwise_iff Or.symm perm).mpr pairs)
  obtain ⟨hit, miss⟩ := findImageBase_spec sorted (fun i inside => by
      obtain ⟨j, last, same⟩ := origin i inside
      rw [← same]
      exact nonempty j last)
    (fun i j less last => by
      have pair := List.pairwise_iff_getElem.mp moved i j (by simp; omega) (by simpa) less
      simpa [Disjoint] using pair) ra
  constructor
  · intro i inside covers
    obtain ⟨k, place, same⟩ := mem_listed.mp (perm.mem_iff.mpr (mem_listed.mpr ⟨i, inside, rfl⟩))
    rw [← same] at covers ⊢
    exact hit k place covers
  · refine fun uncovered => miss fun i inside => ?_
    obtain ⟨j, last, same⟩ := origin i inside
    rw [← same]
    exact uncovered j last

def twoImages : Nat → ImageRange
  | 0 => ⟨50, 60, 7⟩
  | _ => ⟨10, 20, 3⟩

theorem findImageBase_second : findImageBase (some ⟨2, sortRanges twoImages 2⟩) 15 = 3 :=
  (findImageBase_sorted 2 twoImages (by decide)
    (fun i j less last => by
      obtain rfl : i = 0 := by omega
      obtain rfl : j = 1 := by omega
      exact Or.inr (by decide)) 15).1 1 (by decide) ⟨by decide, by decide⟩

end Smash.ImageLookup
