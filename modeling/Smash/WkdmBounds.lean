import Smash.Wkdm

/-! Which words of its buffers the WKdm encoder writes. An incompressible page is only recognised
after it has been written out, and then takes more room than the page. -/
namespace Smash.Wkdm

open PackedFields Function

def encodedWords (page : List Word) : Nat :=
  let tokens := tokenize (fun _ => 0#32) page
  headerAndTags page.length + (tokens.filterMap Token.full).length +
    ((tokens.filterMap Token.index).length + 7) / 8 + ((tokens.filterMap Token.low).length + 2) / 3

def encoder (page : List Word) (dst scratch : Memory) : Encoder :=
  encodeWords (qMaxWords page.length) 0 page (startEncoder page.length dst scratch)

theorem encoder_lowEnd (page : List Word) (dst scratch : Memory) :
    (encoder page dst scratch).lowEnd = encodedWords page := by
  have encoded : Encoded page.length (encoder page dst scratch) _ :=
    @encodeWords_encoded page.length _ [] page (startEncoder_written page.length dst scratch)
      (Nat.le_of_eq (Nat.zero_add _))
  rw [Encoder.lowEnd, Encoder.lowStart, encoded.fullPtr, encoded.qCount, encoded.lowCount]
  rfl

/-- Where the encoder has written: what stands there does not depend on what stood there before
(`other` is the output of a run into another buffer), and everything else is left alone. -/
structure Confined (numWords queue low : Nat) (dst scratch other : Memory) (state : Encoder) :
    Prop where
  start : headerAndTags numWords ≤ state.fullPtr
  inside : ∀ idx, kTags ≤ idx → idx < state.fullPtr → other idx = state.out idx
  outside : ∀ idx, state.fullPtr ≤ idx → state.out idx = dst idx
  unused : ∀ idx, qMaxWords numWords + lowMaxWords numWords ≤ idx →
    state.scratch idx = scratch idx
  qCount : state.qCount ≤ queue
  lowCount : state.lowCount ≤ low

variable {numWords queue low : Nat} {dst scratch j : Memory} {s : Encoder}

theorem startEncoder_confined (numWords : Nat) (dst another scratch : Memory) :
    Confined numWords 0 0 dst scratch (startEncoder numWords another scratch).out
      (startEncoder numWords dst scratch) where
  start := Nat.le_refl _
  inside := by
    intro i least most
    exact (if_pos ⟨least, most⟩).trans (if_pos ⟨least, most⟩).symm
  outside := fun i least => if_neg (Nat.not_lt.mpr least ∘ And.right)
  unused := by
    intro i least
    exact (if_neg (by omega)).trans (if_neg (by omega))
  qCount := Nat.le_refl _
  lowCount := Nat.le_refl _

section Steps

variable (confined : Confined numWords queue low dst scratch j s)
include confined

theorem Confined.mono {queue' low' : Nat} (more : queue ≤ queue') (moreLow : low ≤ low') :
    Confined numWords queue' low' dst scratch j s :=
  { confined with
    qCount := Nat.le_trans confined.qCount more
    lowCount := Nat.le_trans confined.lowCount moreLow }

theorem Confined.setDict (i : Nat) (word : Word) :
    Confined numWords queue low dst scratch j (s.setDict i word) :=
  { confined with }

theorem Confined.putTag {i : Nat} (space : i < numWords) (tag : Word) :
    Confined numWords queue low dst scratch (tagFormat.put j kTags i tag) (s.putTag i tag) := by
  have start := confined.start
  have within : kTags + i / 16 < s.fullPtr := by
    rw [headerAndTags] at start
    omega
  refine { confined with inside := fun p least most => ?_, outside := fun p least => ?_ }
  · change update j _ _ _ = update s.out _ _ _
    rw [confined.inside (kTags + i / tagFormat.perWord) (Nat.le_add_right ..) within]
    by_cases here : p = kTags + i / tagFormat.perWord
    · rw [here, update_self, update_self]
    · rw [update_of_ne here, update_of_ne here]
      exact confined.inside p least most
  · have apart : p ≠ kTags + i / 16 := Nat.ne_of_gt (Nat.lt_of_lt_of_le within least)
    exact (Format.put_outside apart).trans (confined.outside p least)

theorem Confined.pushFull (word : Word) :
    Confined numWords queue low dst scratch (update j s.fullPtr word) (s.pushFull word) :=
  { confined with
    start := Nat.le_succ_of_le confined.start
    inside := by
      intro i least most
      change update j _ _ _ = update s.out _ _ _
      by_cases here : i = s.fullPtr
      · rw [here, update_self, update_self]
      · rw [update_of_ne here, update_of_ne here]
        exact confined.inside i least (Nat.lt_of_le_of_ne (Nat.le_of_lt_succ most) here)
    outside := by
      intro i (least : s.fullPtr + 1 ≤ i)
      exact (update_of_ne (by omega) ..).trans (confined.outside i (by omega)) }

theorem Confined.pushQueue (i : Nat) (few : queue ≤ numWords) :
    Confined numWords (queue + 1) low dst scratch j (s.pushQueue i) :=
  { confined with
    unused := by
      intro position least
      refine (Format.put_outside ?_).trans (confined.unused position least)
      have := confined.qCount
      change position ≠ 0 + s.qCount / 8
      rw [qMaxWords] at least
      omega
    qCount := Nat.succ_le_succ confined.qCount }

theorem Confined.pushLow (bits : Word) (few : low ≤ numWords) :
    Confined numWords queue (low + 1) dst scratch j (s.pushLow (qMaxWords numWords) bits) :=
  { confined with
    unused := by
      intro position least
      refine (Format.put_outside ?_).trans (confined.unused position least)
      have := confined.lowCount
      change position ≠ qMaxWords numWords + s.lowCount / 3
      rw [lowMaxWords] at least
      omega
    lowCount := Nat.succ_le_succ confined.lowCount }

end Steps

theorem Confined.encodeWord {i : Nat} (confined : Confined numWords i i dst scratch j s)
    (space : i < numWords) (word : Word) :
    ∃ next, encodeWord (qMaxWords numWords) i word { s with out := j } =
        { encodeWord (qMaxWords numWords) i word s with out := next } ∧
      Confined numWords (i + 1) (i + 1) dst scratch next
        (encodeWord (qMaxWords numWords) i word s) := by
  have few := Nat.le_of_lt space
  have later := Nat.le_succ i
  unfold Wkdm.encodeWord
  dsimp only
  split_ifs
  · exact ⟨_, rfl, (confined.putTag space _).mono later later⟩
  · exact ⟨_, rfl, ((confined.pushQueue _ few).putTag space _).mono (Nat.le_refl _) later⟩
  · exact ⟨_, rfl, (((confined.setDict _ _).pushQueue _ few).pushLow _ few).putTag space _⟩
  · exact ⟨_, rfl, (((confined.setDict _ _).pushFull _).putTag space _).mono later later⟩

theorem Confined.encodeWords {i : Nat} {words : List Word}
    (confined : Confined numWords i i dst scratch j s) (space : i + words.length ≤ numWords) :
    ∃ next, encodeWords (qMaxWords numWords) i words { s with out := j } =
        { encodeWords (qMaxWords numWords) i words s with out := next } ∧
      Confined numWords (i + words.length) (i + words.length) dst scratch next
        (encodeWords (qMaxWords numWords) i words s) := by
  induction words generalizing i s j with
  | nil => exact ⟨j, rfl, confined⟩
  | cons word rest ih =>
    rw [List.length_cons] at space ⊢
    obtain ⟨next, same, stepped⟩ := confined.encodeWord (by omega) word
    obtain ⟨last, agrees, final⟩ := ih stepped (by omega)
    refine ⟨last, ?_, ?_⟩
    · rw [Wkdm.encodeWords, same, agrees]
      rfl
    · rwa [Nat.add_right_comm, Nat.add_assoc] at final

theorem writeHeader_below (out j : Memory) (queueStart lowStart lowEnd : Nat) {i : Nat}
    (below : i < kTags) : writeHeader out queueStart lowStart lowEnd i =
      writeHeader j queueStart lowStart lowEnd i :=
  match i, below with
  | 0, _ | 1, _ | 2, _ | 3, _ => rfl

theorem Confined.pack (confined : Confined numWords queue low dst scratch j s)
    (lowScratch i : Nat) : (i < s.lowEnd →
      { s with out := j }.pack lowScratch i = s.pack lowScratch i) ∧
    (s.lowEnd ≤ i → s.pack lowScratch i = dst i) := by
  have start : kTags ≤ s.fullPtr := Nat.le_trans (Nat.le_add_right ..) confined.start
  by_cases below : i < kTags
  · refine ⟨fun _ => writeHeader_below _ _ _ _ _ below, fun least => ?_⟩
    rw [Encoder.lowEnd, Encoder.lowStart] at least
    omega
  · have above := Nat.not_lt.mp below
    unfold Encoder.pack
    dsimp only
    rw [writeHeader_above _ _ _ _ above, writeHeader_above _ _ _ _ above]
    constructor
    · intro most
      refine ite_congr rfl (fun _ => rfl) fun notLow => ?_
      refine ite_congr rfl (fun _ => rfl) fun notQueue => confined.inside i above ?_
      simp only [Encoder.lowEnd, Encoder.lowStart] at *
      omega
    · intro least
      simp only [Encoder.lowEnd, Encoder.lowStart] at least
      refine (if_neg ?_).trans ((if_neg ?_).trans (confined.outside i ?_))
      · rw [Encoder.lowStart]
        omega
      · omega
      · omega

/-- Into its own buffers, which have the size of the page, `compress` writes no more than that
exactly if the encoded page is no larger. -/
theorem compress_in_bounds_iff (page : List Word) (tail : Fin 4) (dstCapacity : Nat) :
    (∀ dst scratch i, 4 * page.length + tail < 4 * i + 4 →
      (compress page dst dstCapacity scratch).2 i = dst i ∧
      (encoder page dst scratch).scratch i = scratch i) ↔
    4 * encodedWords page ≤ 4 * page.length + tail := by
  have final (dst another scratch : Memory) := (startEncoder_confined page.length dst another
    scratch).encodeWords (Nat.le_of_eq (Nat.zero_add page.length))
  have size (dst scratch : Memory) := encoder_lowEnd page dst scratch
  have small : encodedWords page ≤ page.length → qMaxWords page.length +
      lowMaxWords page.length ≤ page.length := by
    unfold encodedWords headerAndTags kTags qMaxWords lowMaxWords
    dsimp only
    omega
  constructor
  · -- the first word behind the page cannot be what it was both in a buffer of zeros and of ones
    intro bounded
    by_contra large
    have written : page.length < encodedWords page := by omega
    obtain ⟨last, same, confined⟩ := final (fun _ => 0#32) (fun _ => 1#32) (fun _ => 0#32)
    have run : encoder page (fun _ => 1#32) (fun _ => 0#32) =
      { encoder page (fun _ => 0#32) (fun _ => 0#32) with out := last } := same
    have agree := (confined.pack (qMaxWords page.length) page.length).1
      (Nat.lt_of_lt_of_eq written (size _ _).symm)
    have zero := (bounded (fun _ => 0#32) (fun _ => 0#32) page.length (by omega)).1
    have one := (bounded (fun _ => 1#32) (fun _ => 0#32) page.length (by omega)).1
    have read := congrArg (·.pack (qMaxWords page.length) page.length) run
    exact absurd (one.symm.trans (read.trans (agree.trans zero))) (by decide)
  · intro fits dst scratch i above
    obtain ⟨last, -, confined⟩ := final dst dst scratch
    refine ⟨(confined.pack (qMaxWords page.length) i).2 ?_, confined.unused i ?_⟩
    · exact Nat.le_trans (Nat.le_of_eq (size _ _)) (by omega)
    · have := small (by omega)
      omega

/-- Sixteen words that all miss: the encoder writes 21. -/
def missPage : List Word := (List.range 16).map fun i => BitVec.ofNat 32 (i + 1) <<< 10

theorem missPage_out_of_bounds :
    (compress missPage (fun _ => 0#32) 64 (fun _ => 0#32)).2 16 ≠ 0#32 := by
  decide +kernel

end Smash.Wkdm
