import Mathlib.Algebra.Order.Ring.Nat
import Mathlib.Data.List.Basic

/-! Bitmaps kept in 64-bit words: walking a word from its lowest set bit up, setting a bit and
clearing one. -/
namespace Smash.BitScan

open Function List

abbrev Word := BitVec 64

section Lowest

variable {word : Word}

theorem ctz_lt (nonzero : word ≠ 0#64) : word.ctz.toNat < 64 := by
  have set := BitVec.getLsbD_true_ctz_of_ne_zero nonzero
  exact BitVec.lt_of_getLsbD set

/-- A word that is not zero is its lowest set bit and a multiple of the next power of two. -/
theorem toNat_eq_lowest (nonzero : word ≠ 0#64) :
    word.toNat = 2 ^ (word.ctz.toNat + 1) * (word.toNat / 2 ^ (word.ctz.toNat + 1)) +
      2 ^ word.ctz.toNat := by
  have set : word.toNat.testBit word.ctz.toNat = true := BitVec.getLsbD_true_ctz_of_ne_zero nonzero
  have low : word.toNat % 2 ^ (word.ctz.toNat + 1) = 2 ^ word.ctz.toNat := by
    apply Nat.eq_of_testBit_eq
    intro i
    rw [Nat.testBit_mod_two_pow, Nat.testBit_two_pow]
    rcases Nat.lt_trichotomy i word.ctz.toNat with below | here | above
    · have clear : word.toNat.testBit i = false := BitVec.getLsbD_false_of_lt_ctz below
      simp [clear, Nat.ne_of_gt below]
    · simp [here, set]
    · simp [Nat.not_lt.mpr above, Nat.ne_of_lt above]
  have split := Nat.div_add_mod word.toNat (2 ^ (word.ctz.toNat + 1))
  rw [low] at split
  exact split.symm

/-- `word & (word - 1)` drops the lowest set bit. -/
theorem getLsbD_drop (nonzero : word ≠ 0#64) (i : Nat) :
    (word &&& (word - 1#64)).getLsbD i = (word.getLsbD i && decide (i ≠ word.ctz.toNat)) := by
  have shape := toNat_eq_lowest nonzero
  have below := word.isLt
  generalize word.ctz.toNat = t at *
  generalize word.toNat / 2 ^ (t + 1) = high at shape
  have power : 0 < 2 ^ t := Nat.two_pow_pos t
  have double : 2 ^ t < 2 ^ (t + 1) := Nat.pow_lt_pow_right (by decide) (Nat.lt_succ_self t)
  have less : (word - 1#64).toNat = 2 ^ (t + 1) * high + (2 ^ t - 1) := by
    rw [BitVec.toNat_sub, shape]
    simp only [BitVec.toNat_ofNat]
    omega
  rw [BitVec.getLsbD_and]
  simp only [BitVec.getLsbD]
  rw [less, shape, Nat.testBit_two_pow_mul_add _ double, Nat.testBit_two_pow_mul_add _ (by omega)]
  split_ifs with small
  · rw [Nat.testBit_two_pow, Nat.testBit_two_pow_sub_one]
    by_cases here : t = i
    · simp [here]
    · simp [here]
  · have apart : i ≠ t := by omega
    simp [apart]

theorem drop_lt (nonzero : word ≠ 0#64) : (word &&& (word - 1#64)).toNat < word.toNat := by
  have positive : 0 < word.toNat :=
    Nat.pos_of_ne_zero fun zero => nonzero (BitVec.eq_of_toNat_eq zero)
  have less : (word - 1#64).toNat < word.toNat := by
    rw [BitVec.toNat_sub]
    have below := word.isLt
    simp only [BitVec.toNat_ofNat]
    omega
  rw [BitVec.toNat_and]
  exact Nat.lt_of_le_of_lt Nat.and_le_right less

/-- The set bits of a word, lowest first. -/
def setBits (word : Word) : List Nat := (List.range 64).filter word.getLsbD

theorem setBits_zero : setBits 0#64 = [] := by
  simp [setBits]

theorem setBits_eq_cons (nonzero : word ≠ 0#64) :
    setBits word = word.ctz.toNat :: setBits (word &&& (word - 1#64)) := by
  have within := ctz_lt nonzero
  have split : List.range 64 = List.range word.ctz.toNat ++
      word.ctz.toNat :: List.range' (word.ctz.toNat + 1) (63 - word.ctz.toNat) := by
    have rest : List.range' word.ctz.toNat (64 - word.ctz.toNat) =
        word.ctz.toNat :: List.range' (word.ctz.toNat + 1) (63 - word.ctz.toNat) := by
      rw [← List.range'_succ]
      congr 1
      omega
    have joined := @List.range'_append_1 0 word.ctz.toNat (64 - word.ctz.toNat)
    rw [Nat.zero_add, Nat.add_sub_of_le (Nat.le_of_lt within), rest] at joined
    rw [range_eq_range', range_eq_range', joined]
  have early : ∀ i ∈ List.range word.ctz.toNat, ¬ word.getLsbD i = true := by
    intro i mem
    simp [BitVec.getLsbD_false_of_lt_ctz (mem_range.mp mem)]
  have late : ∀ i ∈ List.range' (word.ctz.toNat + 1) (63 - word.ctz.toNat),
      (word &&& (word - 1#64)).getLsbD i = word.getLsbD i := by
    intro i mem
    rw [getLsbD_drop nonzero]
    have := mem_range'_1.mp mem
    simp only [ne_eq, decide_eq_true (show ¬ i = word.ctz.toNat by omega), Bool.and_true]
  have dropped : ∀ i ∈ List.range word.ctz.toNat, ¬ (word &&& (word - 1#64)).getLsbD i = true := by
    intro i mem
    rw [getLsbD_drop nonzero, Bool.and_eq_true]
    exact fun both => early i mem both.1
  have gone : ¬ (word &&& (word - 1#64)).getLsbD word.ctz.toNat = true := by
    simp [getLsbD_drop nonzero]
  have set : word.getLsbD word.ctz.toNat = true := BitVec.getLsbD_true_ctz_of_ne_zero nonzero
  unfold setBits
  rw [split, filter_append, filter_append, filter_cons_of_pos set,
    filter_cons_of_neg gone, filter_congr late, filter_eq_nil_iff.mpr early,
    filter_eq_nil_iff.mpr dropped, nil_append, nil_append]

end Lowest

section Walk

variable {σ : Type}
variable {body : Nat → σ → σ × Bool}

/-- A loop over a list whose body says whether to go on. -/
def foldWhile (body : Nat → σ → σ × Bool) : List Nat → σ → σ
  | [], s => s
  | item :: rest, s =>
    match body item s with
    | (next, true) => foldWhile body rest next
    | (next, false) => next

/-- `while (word) { bit = ctz(word); word &= word - 1; ... }` with the body's own `break`. -/
def walk (body : Nat → σ → σ × Bool) : Nat → Word → σ → σ
  | 0, _, s => s
  | fuel + 1, word, s =>
    if word = 0#64 then s
    else
      match body word.ctz.toNat s with
      | (next, true) => walk body fuel (word &&& (word - 1#64)) next
      | (next, false) => next

theorem walk_eq_foldWhile {fuel : Nat} {word : Word} {s : σ}
    (enough : (setBits word).length ≤ fuel) :
    walk body fuel word s = foldWhile body (setBits word) s := by
  induction fuel generalizing word s with
  | zero =>
    have none : setBits word = [] := eq_nil_of_length_eq_zero (Nat.le_zero.mp enough)
    rw [none]
    rfl
  | succ fuel ih =>
    unfold walk
    split_ifs with zero
    · rw [zero, setBits_zero]
      rfl
    · rw [setBits_eq_cons zero, length_cons] at enough
      rw [setBits_eq_cons zero, foldWhile]
      cases stepped : body word.ctz.toNat s with
      | mk next more =>
        cases more with
        | true => exact ih (Nat.le_of_succ_le_succ enough)
        | false => rfl

theorem setBits_length (word : Word) : (setBits word).length ≤ 64 := by
  have most := length_filter_le word.getLsbD (List.range 64)
  rwa [length_range] at most

theorem foldWhile_eq_foldl {visit : σ → Nat → σ}
    (all : ∀ item s, body item s = (visit s item, true)) (items : List Nat)
    (s : σ) : foldWhile body items s = items.foldl visit s := by
  induction items generalizing s with
  | nil => rfl
  | cons item rest ih =>
    rw [foldWhile, all]
    exact ih _

theorem foldWhile_invariant {Inv : σ → Prop}
    (keeps : ∀ item s, Inv s → Inv (body item s).1) (items : List Nat) {s : σ}
    (holds : Inv s) : Inv (foldWhile body items s) := by
  induction items generalizing s with
  | nil => exact holds
  | cons item rest ih =>
    have next := keeps item s holds
    rw [foldWhile]
    cases stepped : body item s with
    | mk s' more =>
      rw [stepped] at next
      cases more with
      | true => exact ih next
      | false => exact next

theorem takeWhile_lt {items : List Nat} (sorted : items.Pairwise (· < ·)) (bound : Nat) :
    items.takeWhile (fun item => decide (item < bound)) =
      items.filter fun item => decide (item < bound) := by
  induction items with
  | nil => rfl
  | cons item rest ih =>
    obtain ⟨least, sorted⟩ := pairwise_cons.mp sorted
    by_cases below : item < bound
    · rw [takeWhile_cons_of_pos (by simpa using below), ih sorted,
        filter_cons_of_pos (by simpa using below)]
    · rw [takeWhile_cons_of_neg (by simpa using below), filter_cons_of_neg (by simpa using below)]
      refine (filter_eq_nil_iff.mpr fun j mem => ?_).symm
      have := least j mem
      simp only [decide_eq_true_eq]
      omega

theorem foldWhile_below {visit : Nat → σ → σ} {bound : Nat} {items : List Nat}
    (sorted : items.Pairwise (· < ·)) (s : σ) :
    foldWhile (fun item s => if bound ≤ item then (s, false) else (visit item s, true))
        items s =
      (items.filter fun item => decide (item < bound)).foldl (fun s item => visit item s)
        s := by
  rw [← takeWhile_lt sorted]
  clear sorted
  induction items generalizing s with
  | nil => rfl
  | cons item rest ih =>
    rw [foldWhile]
    by_cases past : bound ≤ item
    · have stop : ¬ item < bound := Nat.not_lt.mpr past
      rw [if_pos past, takeWhile_cons_of_neg (by simpa using stop)]
      rfl
    · rw [if_neg past, takeWhile_cons_of_pos (by simpa using past)]
      exact ih _

theorem setBits_sorted (word : Word) : (setBits word).Pairwise (· < ·) :=
  pairwise_lt_range.filter _

end Walk

section Words

variable {words : Nat → Word} {p bit slot : Nat}

def bits (words : Nat → Word) (slot : Nat) : Bool := (words (slot / 64)).getLsbD (slot % 64)

def mark (words : Nat → Word) (p bit : Nat) : Nat → Word :=
  update words p (words p ||| 1#64 <<< bit)

def unmark (words : Nat → Word) (p bit : Nat) : Nat → Word :=
  update words p (words p &&& ~~~(1#64 <<< bit))

theorem bits_at (small : bit < 64) : bits words (p * 64 + bit) = (words p).getLsbD bit := by
  unfold bits
  congr 2 <;> omega

theorem getLsbD_one_shift {i : Nat} (small : i < 64) :
    (1#64 <<< bit).getLsbD i = decide (i = bit) := by
  rw [BitVec.getLsbD_shiftLeft, BitVec.getLsbD_one]
  by_cases here : i = bit
  · subst here
    simp [small]
  · by_cases below : i < bit
    · simp [here, below]
    · simp [here]
      omega

theorem bits_update {word : Word} {v : Bool} (small : bit < 64)
    (changed : ∀ j < 64, word.getLsbD j =
      if j = bit then v else (words p).getLsbD j) :
    bits (update words p word) =
      update (bits words) (p * 64 + bit) v := by
  funext slot
  unfold bits
  by_cases here : slot / 64 = p
  · rw [here, update_self, changed _ (Nat.mod_lt slot (by decide))]
    split_ifs with same
    · obtain rfl : slot = p * 64 + bit := by omega
      rw [update_self]
    · rw [update_of_ne (by omega), here]
  · rw [update_of_ne here, update_of_ne (by omega)]

theorem bits_mark (small : bit < 64) :
    bits (mark words p bit) = update (bits words) (p * 64 + bit) true := by
  refine bits_update small fun j below => ?_
  rw [BitVec.getLsbD_or, getLsbD_one_shift below]
  by_cases here : j = bit <;> simp [here]

theorem bits_unmark (small : bit < 64) :
    bits (unmark words p bit) = update (bits words) (p * 64 + bit) false := by
  refine bits_update small fun j below => ?_
  rw [BitVec.getLsbD_and, BitVec.getLsbD_not, getLsbD_one_shift below]
  by_cases here : j = bit <;> simp [here, below]

theorem words_ext {j : Nat → Word} (same : bits words = bits j) : words = j := by
  funext p
  apply BitVec.eq_of_getLsbD_eq
  intro i small
  rw [← bits_at small, ← bits_at small, same]

theorem filter_word (p : Nat) : (List.range' (p * 64) 64).filter (bits words) =
      (setBits (words p)).map (p * 64 + ·) := by
  have shifted : List.range' (p * 64) 64 = (List.range 64).map (p * 64 + ·) := by
    rw [range_eq_range', map_add_range', Nat.add_zero]
  have same : ∀ i ∈ List.range 64, (bits words ∘ (p * 64 + ·)) i = (words p).getLsbD i :=
    fun i mem => bits_at (mem_range.mp mem)
  rw [shifted, filter_map, filter_congr same, setBits]

end Words

end Smash.BitScan
