import Mathlib.Order.Defs.PartialOrder

/-! The moving average `mean += (sample - mean) / 4` with C's division, which cuts towards zero. -/
namespace Smash.QuarterMean

def toward (mean sample : Int) : Int := mean + (sample - mean).tdiv 4

variable {mean sample mean' sample' : Int}

theorem toward_cases (mean sample : Int) :
    (mean ≤ sample ∧ toward mean sample = mean + (sample - mean) / 4) ∨
      (sample < mean ∧ toward mean sample = mean - (mean - sample) / 4) := by
  rcases Int.lt_or_le sample mean with below | above
  · refine .inr ⟨below, ?_⟩
    rw [toward, ← Int.neg_sub mean sample, Int.neg_tdiv, Int.tdiv_eq_ediv_of_nonneg (by omega)]
    exact Int.sub_eq_add_neg.symm
  · exact .inl ⟨above, by rw [toward, Int.tdiv_eq_ediv_of_nonneg (by omega)]⟩

theorem le_toward {least : Int} (first : least ≤ mean) (second : least ≤ sample) :
    least ≤ toward mean sample := by
  have cases := toward_cases mean sample
  omega

theorem toward_le {most : Int} (first : mean ≤ most) (second : sample ≤ most) :
    toward mean sample ≤ most := by
  have cases := toward_cases mean sample
  omega

theorem toward_mono (means : mean ≤ mean') (samples : sample ≤ sample') :
    toward mean sample ≤ toward mean' sample' := by
  have cases := toward_cases mean sample
  have cases' := toward_cases mean' sample'
  omega

end Smash.QuarterMean
