import Smash.MaximalRuns
import Smash.PageMachine

/-! The range `restoreNearCap` restores around a faulting page: a piece of the run of pages in the
page's state that reaches an end of the run, found by two scans of bounded length. -/
namespace Smash.NearCapRange

open MaximalRuns
open PageMachine (PageState)

def kNearCapVmaPages : Nat := 64
def kNearCapVmaPagesMid : Nat := 512
def kNearCapVmaPagesMax : Nat := 4096

/-- How far to look, by the headroom below the cap on mappings. -/
def nearCapVmaLimit (vmaMax vmaEstimate margin : Int) : Nat :=
  if margin.tdiv 2 < vmaMax - vmaEstimate then kNearCapVmaPages
  else if margin.tdiv 4 < vmaMax - vmaEstimate then kNearCapVmaPagesMid
  else kNearCapVmaPagesMax

structure Region where
  contigPages : Nat
  committedPages : Nat
  numPages : Nat

def Region.arenaEnd (reg : Region) : Nat :=
  min (min reg.committedPages reg.contigPages) reg.numPages

section Scans

variable (states : Nat → PageState) (cls : PageState) (page limit : Nat)

/-- `while (l > 0 && page_idx - l < limit && states_->get(l - 1) == cls) --l;` -/
def scanLeft : Nat → Nat
  | 0 => 0
  | l + 1 => if page - (l + 1) < limit ∧ states l = cls then scanLeft l else l + 1

/-- `while (r < end && r - page_idx - 1 < limit && states_->get(r) == cls) ++r;` with at most
`fuel` rounds. -/
def scanRight (stop : Nat) : Nat → Nat → Nat
  | 0, r => r
  | fuel + 1, r =>
    if r < stop ∧ r - page - 1 < limit ∧ states r = cls then scanRight stop fuel (r + 1) else r

end Scans

/-- The whole run if it is seen and short enough, else the piece up to the nearer end seen. -/
def chooseRange (page limit l r : Nat) (leftEnd rightEnd : Bool) : Option (Nat × Nat) :=
  if leftEnd ∧ rightEnd ∧ r - l - 1 ≤ limit then some (l, r)
  else if leftEnd ∧ (rightEnd = false ∨ page - l ≤ r - 1 - page) then some (l, page + 1)
  else if rightEnd then some (page, r)
  else none

/-- The range to restore around the page when the scans go `limit` pages far. -/
def nearCapRange (reg : Region) (states : Nat → PageState) (limit page : Nat) :
    Option (Nat × Nat) :=
  if reg.contigPages ≤ page then none
  else
    let stop := reg.arenaEnd
    if stop ≤ page then none
    else
      let cls := states page
      if cls ≠ .compressed ∧ cls ≠ .activeMonitoring then none
      else
        let l := scanLeft states cls page limit page
        let r := scanRight states cls page limit stop (stop - (page + 1)) (page + 1)
        let leftEnd := decide (l = 0 ∨ states (l - 1) ≠ cls)
        let rightEnd := decide (r = stop ∨ states r ≠ cls)
        match chooseRange page limit l r leftEnd rightEnd with
        | none => none
        | some (lo, hi) => if hi - lo < 2 then none else some (lo, hi)

/-- The range `restoreNearCap` passes to `restoreRange`, if it does not give up. -/
def restoreNearCap (reg : Region) (states : Nat → PageState) (vmaMax vmaEstimate margin : Int)
    (page : Nat) : Option (Nat × Nat) :=
  nearCapRange reg states (nearCapVmaLimit vmaMax vmaEstimate margin) page

section Spec

variable {states : Nat → PageState} {page limit stop first last : Nat}

def same (states : Nat → PageState) (page i : Nat) : Bool := decide (states i = states page)

section

variable (run : Around (same states page) stop first last page)
include run

theorem scanLeft_eq (l : Nat) (passed : max first (page - limit) ≤ l) (left : l ≤ page) :
    scanLeft states (states page) page limit l = max first (page - limit) := by
  induction l with
  | zero => exact (Nat.le_zero.mp passed).symm
  | succ l ih =>
    unfold scanLeft
    by_cases further : max first (page - limit) ≤ l
    · have marked : states l = states page := by
        have on := run.marked l (by omega) (by have := run.upper; omega)
        simpa [same] using on
      rw [if_pos ⟨by omega, marked⟩]
      exact ih further (by omega)
    · have here : max first (page - limit) = l + 1 := by omega
      rw [if_neg, here]
      rintro ⟨near, marked⟩
      -- The scan would only go on if the run did not begin here.
      have begins : first = l + 1 := by omega
      rcases run.left with zero | off
      · omega
      · simp [begins, same, marked] at off

theorem scanRight_eq (fuel r : Nat)
    (enough : stop ≤ r + fuel) (passed : r ≤ min last (page + 1 + limit)) (right : page < r) :
    scanRight states (states page) page limit stop fuel r = min last (page + 1 + limit) := by
  induction fuel generalizing r with
  | zero =>
    have := run.within
    rw [scanRight]
    omega
  | succ fuel ih =>
    unfold scanRight
    by_cases further : r < min last (page + 1 + limit)
    · have marked : states r = states page := by
        have on := run.marked r (by have := run.lower; omega) (by omega)
        simpa [same] using on
      have inside : r < stop := by
        have := run.within
        omega
      rw [if_pos ⟨inside, by omega, marked⟩]
      exact ih (r + 1) (by omega) (by omega) (by omega)
    · have here : min last (page + 1 + limit) = r := by omega
      rw [if_neg, here]
      rintro ⟨inside, near, marked⟩
      have stops : last = r := by omega
      rcases run.right with whole | off
      · omega
      · simp [stops, same, marked] at off

theorem leftEnd_iff : (max first (page - limit) = 0 ∨
      states (max first (page - limit) - 1) ≠ states page) ↔ page - first ≤ limit := by
  constructor
  · rintro seen
    by_contra far
    have cut : max first (page - limit) = page - limit := by omega
    rw [cut] at seen
    rcases seen with zero | off
    · omega
    · have on := run.marked (page - limit - 1) (by omega) (by have := run.upper; omega)
      exact off (by simpa [same] using on)
  · intro near
    have whole : max first (page - limit) = first := by
      have := run.lower
      omega
    rw [whole]
    exact run.left.imp_right fun off => by simpa [same] using off

theorem rightEnd_iff : (min last (page + 1 + limit) = stop ∨
      states (min last (page + 1 + limit)) ≠ states page) ↔ last - 1 - page ≤ limit := by
  have upper := run.upper
  constructor
  · rintro seen
    by_contra far
    have cut : min last (page + 1 + limit) = page + 1 + limit := by omega
    rw [cut] at seen
    rcases seen with whole | off
    · have := run.within
      omega
    · have on := run.marked (page + 1 + limit) (by have := run.lower; omega) (by omega)
      exact off (by simpa [same] using on)
  · intro near
    have whole : min last (page + 1 + limit) = last := by omega
    rw [whole]
    exact run.right.imp_right fun off => by simpa [same] using off

end

structure Chosen (limit page first last lo hi : Nat) : Prop where
  around : lo ≤ page ∧ page < hi
  inside : first ≤ lo ∧ hi ≤ last
  few : 2 ≤ hi - lo ∧ hi - lo ≤ limit + 1
  whole : last - first ≤ limit + 1 → lo = first ∧ hi = last
  piece : limit + 1 < last - first →
    (lo = first ∧ hi = page + 1 ∧ page - first ≤ limit ∧
      (last - 1 - page ≤ limit → page - first ≤ last - 1 - page)) ∨
    (lo = page ∧ hi = last ∧ last - 1 - page ≤ limit ∧
      (page - first ≤ limit → last - 1 - page < page - first))

theorem Chosen.ends {lo hi : Nat} (chosen : Chosen limit page first last lo hi) :
    lo = first ∨ hi = last := by
  by_cases fits : last - first ≤ limit + 1
  · exact .inl (chosen.whole fits).1
  · rcases chosen.piece (Nat.lt_of_not_le fits) with left | right
    · exact .inl left.1
    · exact .inr right.2.1

theorem chooseRange_eq {leftEnd rightEnd : Bool} (lower : first ≤ page) (upper : page < last)
    (seenLeft : leftEnd = true ↔ page - first ≤ limit)
    (seenRight : rightEnd = true ↔ last - 1 - page ≤ limit) :
    chooseRange page limit (max first (page - limit)) (min last (page + 1 + limit)) leftEnd
        rightEnd =
      if last - first ≤ limit + 1 then some (first, last)
      else if page - first ≤ limit ∧ (last - 1 - page ≤ limit → page - first ≤ last - 1 - page)
      then some (first, page + 1)
      else if last - 1 - page ≤ limit then some (page, last)
      else none := by
  have atLeft : page - first ≤ limit → max first (page - limit) = first := by omega
  have atRight : last - 1 - page ≤ limit → min last (page + 1 + limit) = last := by omega
  have unseen : rightEnd = false ↔ ¬ last - 1 - page ≤ limit := by
    rw [← seenRight, Bool.not_eq_true]
  unfold chooseRange
  simp only [seenLeft, seenRight, unseen]
  by_cases nearLeft : page - first ≤ limit
  · rw [atLeft nearLeft]
    by_cases nearRight : last - 1 - page ≤ limit
    · have fits : last - first - 1 ≤ limit ↔ last - first ≤ limit + 1 := by omega
      rw [atRight nearRight]
      simp only [nearLeft, nearRight, true_and, not_true_eq_false, false_or, true_imp_iff, fits,
        if_true]
    · have long : ¬ last - first ≤ limit + 1 := by omega
      simp only [nearLeft, nearRight, long, false_and, and_false, if_false, not_false_eq_true,
        true_or, and_true, false_imp_iff, if_true]
  · have long : ¬ last - first ≤ limit + 1 := by omega
    simp only [nearLeft, long, false_and, if_false]
    by_cases nearRight : last - 1 - page ≤ limit
    · rw [atRight nearRight]
    · simp only [nearRight, if_false]

def Reaches (states : Nat → PageState) (limit stop page first last : Nat) :
    Option (Nat × Nat) → Prop
  | some (lo, hi) =>
    Chosen limit page first last lo hi ∧
      markedRuns (unmark (same states page) lo hi) stop ≤ markedRuns (same states page) stop
  | none => (limit < page - first ∧ limit < last - 1 - page) ∨ page = first ∨ page + 1 = last

theorem nearCapRange_reaches {reg : Region} (inside : page < reg.arenaEnd)
    (hidden : states page = .compressed ∨ states page = .activeMonitoring)
    (run : Around (same states page) reg.arenaEnd first last page) :
    Reaches states limit reg.arenaEnd page first last
      (nearCapRange reg states limit page) := by
  have lower := run.lower
  have upper := run.upper
  have arena : ¬ reg.contigPages ≤ page := by
    have : reg.arenaEnd ≤ reg.contigPages := by
      unfold Region.arenaEnd
      omega
    omega
  have s : ¬ (states page ≠ .compressed ∧ states page ≠ .activeMonitoring) := by
    rintro ⟨packed, w⟩
    exact hidden.elim packed w
  have chosen := @chooseRange_eq page limit first last _ _ lower upper
    (decide_eq_true_iff.trans (leftEnd_iff run)) (decide_eq_true_iff.trans (rightEnd_iff run))
  have finish : ∀ lo hi, (2 ≤ hi - lo → Chosen limit page first last lo hi) →
      (hi - lo < 2 → page = first ∨ page + 1 = last) →
      Reaches states limit reg.arenaEnd page first last
        (if hi - lo < 2 then none else some (lo, hi)) := by
    intro lo hi range nothing
    split_ifs with single
    · exact .inr (nothing single)
    · have good := range (Nat.le_of_not_lt single)
      refine ⟨good, ?_⟩
      exact markedRuns_unmark run good.inside.1 good.inside.2 (by omega) good.ends
  unfold nearCapRange
  rw [if_neg arena]
  dsimp only
  rw [if_neg (Nat.not_le.mpr inside), if_neg s, scanLeft_eq run page (by omega) (Nat.le_refl _),
    scanRight_eq run _ _ (by omega) (by omega) (Nat.lt_succ_self page), chosen]
  clear chosen
  split_ifs with fits left right
  · exact finish first last
      (fun many => ⟨⟨lower, upper⟩, ⟨Nat.le_refl _, Nat.le_refl _⟩, ⟨many, fits⟩, fun _ => ⟨rfl, rfl⟩,
        fun long => absurd fits (Nat.not_le.mpr long)⟩)
      (by omega)
  · exact finish first (page + 1)
      (fun many => ⟨⟨lower, Nat.lt_succ_self page⟩, ⟨Nat.le_refl _, upper⟩, ⟨many, by omega⟩,
        fun short => absurd short fits, fun _ => .inl ⟨rfl, rfl, left⟩⟩)
      (by omega)
  · exact finish page last
      (fun many => ⟨⟨Nat.le_refl _, upper⟩, ⟨lower, Nat.le_refl _⟩, ⟨many, by omega⟩,
        fun short => absurd short fits, fun _ => .inr ⟨rfl, rfl, right, by omega⟩⟩)
      (by omega)
  · exact .inl (by omega)

/-- The range is one of those the compressor's programs allow for the page. -/
theorem nearCapRange_bounds {reg : Region} {s : PageMachine.Shared} {lo hi : Nat}
    (t : PageMachine.Thread) (within : reg.arenaEnd ≤ s.pages) (inside : page < reg.arenaEnd)
    (hidden : states page = .compressed ∨ states page = .activeMonitoring)
    (found : nearCapRange reg states limit page = some (lo, hi)) :
    PageMachine.perform t (.bounds page) { number := lo, upper := hi } s =
      some ((lo, hi), s) := by
  obtain ⟨first, last, run⟩ :=
    @exists_around (same states page) reg.arenaEnd page (by simp [same]) inside
  have reaches := @nearCapRange_reaches _ _ limit _ _ _ inside hidden run
  rw [found] at reaches
  obtain ⟨⟨lower, upper⟩, ⟨-, below⟩, -⟩ := reaches.1
  exact if_pos ⟨lower, upper, Nat.le_trans below (Nat.le_trans run.within within)⟩

/-- Near the cap on mappings the compressor restores a piece of the maximal run around the page
that reaches the run's end, or gives up because none is near or the page is the end itself. -/
theorem near_cap_range_reaches_end (reg : Region) (states : Nat → PageState) (limit page : Nat)
    (inside : page < reg.arenaEnd)
    (hidden : states page = .compressed ∨ states page = .activeMonitoring) :
    ∃ first last, Around (same states page) reg.arenaEnd first last page ∧
      Reaches states limit reg.arenaEnd page first last
        (nearCapRange reg states limit page) := by
  obtain ⟨first, last, run⟩ :=
    @exists_around (same states page) reg.arenaEnd page (by simp [same]) inside
  exact ⟨first, last, run, nearCapRange_reaches inside hidden run⟩

/-- Pages 2 to 5 are compressed and page 4 faults: all of them are restored. -/
theorem near_cap_range_whole_run :
    let states : Nat → PageState := fun i => if 2 ≤ i ∧ i < 6 then .compressed else .active
    restoreNearCap ⟨8, 8, 8⟩ states 65530 60000 2000 4 = some (2, 6) ∧
      ∃ first last, Around (same states 4) 8 first last 4 ∧
        Reaches states kNearCapVmaPages 8 4 first last (some (2, 6)) := by
  intro states
  have found : restoreNearCap ⟨8, 8, 8⟩ states 65530 60000 2000 4 = some (2, 6) := by
    decide +kernel
  have reaches := near_cap_range_reaches_end ⟨8, 8, 8⟩ states kNearCapVmaPages 4 (by decide)
    (.inl rfl)
  have same : nearCapRange ⟨8, 8, 8⟩ states kNearCapVmaPages 4 = some (2, 6) := found
  rw [same] at reaches
  exact ⟨found, reaches⟩

end Spec

end Smash.NearCapRange
