import Smash.CompressExits

/-! Phase B compares the page with its blob; Phase A compressed a copy of the page in which the
free slots had been zeroed. -/
namespace Smash.Compressor

open Program PageMachine
open Prog (done_bind call_bind act pure_eq bind_assoc)

section Evaluate

variable {c s' : Cell}

/-- Kernel calls end as `kernel` says and every question is answered as `answers` says. -/
def Resolved (k : Op → Bool) (answers : Question → Bool) : Op → Choice → Prop
  | .ask question, ch => ch.flag = answers question
  | op, ch => Outcome k op ch

def settle (k : Op → Bool) (t : Thread) (i : Nat) (c : Cell) :
    (op : CellOp) → Option (CellAnswer op × Cell)
  | .decompress info => (Cell.content { c with info := info }).map fun bytes => (bytes, c)
  | op =>
    if determined op then cellStep t op { flag := k (.page i op) } c else none

/-- What a program does to the one page it touches, when nothing is left open. -/
def evaluate (k : Op → Bool) (answers : Question → Bool) (t : Thread) (i : Nat)
    {Result : Type} : Code Result → Cell → Option (Result × Cell)
  | .done r, c => some (r, c)
  | .call (.ask question) next, c =>
    evaluate k answers t i (next (answers question)) c
  | .call (.page j op) next, c =>
    if j = i then
      match settle k t i c op with
      | some (ans, s') => evaluate k answers t i (next ans) s'
      | none => none
    else none
  | .call _ _, _ => none

variable {k : Op → Bool} {answers : Question → Bool} {t : Thread} {i : Nat}

theorem settle_spec {op : CellOp} {ans : CellAnswer op}
    (settled : settle k t i c op = some (ans, s')) {ch : Choice}
    (permitted : Outcome k (.page i op) ch) : cellStep t op ch c = some (ans, s') := by
  cases op with
  | decompress info =>
    obtain ⟨bytes, found, same⟩ := Option.map_eq_some_iff.mp settled
    cases same
    simp [cellStep, found]
  | commit | populate | store => cases settled
  | _ => exact (cellStep_determined rfl permitted c).trans settled

theorem delivers_evaluate {Result : Type} {post : Result → Shared → Prop} {s : Shared}
    (inside : i < s.pages) {prog : Code Result} {r : Result}
    (ran : evaluate k answers t i prog c = some (r, s')) :
    Delivers perform (Resolved k answers) t prog post (s.set i c) ↔
      post r (s.set i s') := by
  induction prog generalizing c with
  | done found =>
    cases ran
    exact Iff.rfl
  | call op next ih =>
    cases op with
    | ask question =>
      have possible : ∃ ch : Choice, Resolved k answers (.ask question) ch :=
        ⟨{ flag := answers question }, rfl⟩
      refine (delivers_call possible ?_).trans (ih (answers question) ran)
      rintro ch answered
      rw [perform, ← answered]
    | page j op =>
      simp only [evaluate] at ran
      split_ifs at ran with same
      subst same
      cases settled : settle k t j c op with
      | none => simp [settled] at ran
      | some outcome =>
        obtain ⟨ans, reached⟩ := outcome
        rw [settled] at ran
        have possible : ∃ ch : Choice, Resolved k answers (.page j op) ch :=
          ⟨{ flag := k (.page j op) }, fun _ => rfl⟩
        refine (delivers_call possible fun ch permitted => ?_).trans (ih ans ran)
        simp [perform, inside, settle_spec settled permitted]
    | _ => simp [evaluate] at ran

end Evaluate

section Zeroed

variable {span : Span} {free : Nat → Bool} {offset : Offset}

theorem zeroSlot_eq (sized : span.objectSize ≠ 0) {slot : Nat} {buf : Contents} :
    zeroSlot span slot buf offset = if slotAt span offset = slot then 0 else buf offset := by
  refine if_congr ?_ rfl rfl
  rw [slotAt, Nat.div_eq_iff (Nat.pos_of_ne_zero sized)]
  omega

/-- The early end of the loop is right: no later slot reaches into the page. -/
theorem zeroSlots_eq (sized : span.objectSize ≠ 0) (fuel slot : Nat) (buf : Contents) :
    zeroSlots span free fuel slot buf offset =
      if slot ≤ slotAt span offset ∧ slotAt span offset < slot + fuel ∧
        free (slotAt span offset) = true then 0 else buf offset := by
  induction fuel generalizing slot buf with
  | zero =>
    rw [if_neg (by omega)]
    rfl
  | succ fuel ih =>
    have overlap : slotAt span offset * span.objectSize ≤ span.pageOff + offset :=
      Nat.div_mul_le_self _ _
    by_cases beyond : span.pageOff + kPageSize ≤ slot * span.objectSize
    · have earlier : slotAt span offset < slot := by
        refine Nat.lt_of_mul_lt_mul_right (a := span.objectSize) ?_
        have := offset.isLt
        omega
      rw [zeroSlots, if_pos beyond, if_neg (by omega)]
    · rw [zeroSlots, if_neg beyond, ih]
      by_cases here : slotAt span offset = slot
      · subst here
        cases taken : free (slotAt span offset) <;> simp [zeroSlot_eq sized]
      · have apart : (if free slot then zeroSlot span slot buf else buf) offset = buf offset := by
          split_ifs
          · rw [zeroSlot_eq sized, if_neg here]
          · rfl
        rw [apart]
        refine if_congr ?_ rfl rfl
        constructor
        · rintro ⟨lower, upper, taken⟩
          exact ⟨by omega, by omega, taken⟩
        · rintro ⟨lower, upper, taken⟩
          exact ⟨by omega, by omega, taken⟩

def FreeBytesZero (span : Option Span) (free : Nat → Bool) (mem : Contents) : Prop :=
  ∀ small, span = some small → small.isLarge = false → small.objectSize ≠ 0 →
    ∀ offset, slotAt small offset < small.objectCount → free (slotAt small offset) = true →
      mem offset = 0

theorem eq_zeroed_iff {span : Option Span} {mem : Contents} :
    mem = zeroed span free mem ↔ FreeBytesZero span free mem := by
  cases span with
  | none => simp [zeroed, FreeBytesZero]
  | some span =>
    by_cases whole : span.isLarge = true ∨ span.objectSize = 0
    · rw [zeroed, if_pos whole]
      refine iff_of_true rfl ?_
      rintro small ⟨⟩ object sized
      exact (whole.elim (by simp [object]) sized).elim
    · obtain ⟨object, sized⟩ := not_or.mp whole
      have later : ∀ offset : Offset, span.pageOff / span.objectSize ≤ slotAt span offset :=
        fun offset => Nat.div_le_div_right (Nat.le_add_right _ _)
      rw [zeroed, if_neg whole, funext_iff]
      simp only [zeroSlots_eq sized]
      constructor
      · rintro same small ⟨⟩ - - offset below taken
        rw [same offset, if_pos ⟨later offset, by have := later offset; omega, taken⟩]
      · intro zero offset
        split_ifs with inFree
        · obtain ⟨above, below, taken⟩ := inFree
          exact zero span rfl (by simpa using object) sized offset (by omega) taken
        · rfl

end Zeroed

section Verify

variable {algo : CompressAlgo} {buf : Contents} {bytes : Contents} {fast : Bool}
variable {pendingCount : Nat}

/-- Since the snapshot nobody wrote to the page, took its lock or closed it, and its blob still
decompresses to what it did. -/
structure Undisturbed (idx : Nat) (taken later : Shared) : Prop where
  pages : later.pages = taken.pages
  state : (later.page idx).state = (taken.page idx).state
  memory : (later.page idx).memory = (taken.page idx).memory
  content : (later.page idx).content = (taken.page idx).content
  unlocked : (later.page idx).lock = none
  readable : (later.page idx).prot ≠ .none

/-- Once the delay is over, a worker with a fault slot turns the undisturbed page compressed. -/
def Reclaims (cfg : Config) (i : Nat) (taken : Shared) : Prop :=
  ∀ k worker later, Undisturbed i taken later →
    Delivers perform (Resolved k fun _ => true) worker (reclaimShadowPage cfg i)
      (fun _ s' => (s'.page i).state = .compressed) later

variable {cfg : Config} {k : Op → Bool} {t : Thread} {i : Nat} {c : Cell}

theorem evaluate_compare (shadow : c.state = .compressedShadow) (free : c.lock = none)
    (readable : c.prot ≠ .none) (stored : c.content = some bytes) :
    evaluate k (fun _ => true) t i (reclaimShadowPage cfg i) c =
      evaluate k (fun _ => true) t i
        (if samePage c.memory bytes then reclaimMatching cfg i
          else reclaimMismatch i)
        { c with
          lock := some t
          prot := if k (.page i (.protect .read)) then .read else c.prot } := by
  simp only [Cell.content, Cell.lookup] at stored
  cases opens : k (.page i (.protect .read)) <;>
    simp [reclaimShadowPage, reclaimLocked, reclaimReadable, on, ask, act, evaluate, settle,
      determined, cellStep, shadow, free, opens, Cell.content, Cell.lookup, stored, readable]

theorem evaluate_match (cfg : Config) (k : Op → Bool) (t : Thread) (i : Nat)
    (shadow : c.state = .compressedShadow) (free : c.lock = none)
    (readable : c.prot ≠ .none) (stored : c.content = some c.memory) :
    ∃ s', evaluate k (fun _ => true) t i (reclaimShadowPage cfg i) c =
      some ((), s') ∧ s'.state = .compressed := by
  rw [evaluate_compare shadow free readable stored, if_pos (samePage_iff.mpr rfl), reclaimMatching]
  cases cfg.fixav <;> cases closes : k (.page i (.protect .none)) <;>
    simp [on, act, evaluate, settle, determined, cellStep, closes]

theorem evaluate_mismatch (cfg : Config) (k : Op → Bool) (t : Thread)
    (i : Nat) (shadow : c.state = .compressedShadow) (free : c.lock = none)
    (readable : c.prot ≠ .none) (anonymous : c.tier ≠ .spilled)
    (stored : c.content = some bytes) (differs : c.memory ≠ bytes) :
    ∃ s', evaluate k (fun _ => true) t i (reclaimShadowPage cfg i) c =
      some ((), s') ∧ s'.state = .active := by
  rw [evaluate_compare shadow free readable stored, if_neg (mt samePage_iff.mp differs),
    reclaimMismatch, releaseBlob]
  cases opens : k (.page i (.protect .readWrite)) <;>
    cases recorded : c.info.data <;>
    simp [on, act, evaluate, settle, determined, cellStep, opens, recorded, anonymous] <;>
    split_ifs <;>
    simp

variable {sh : Shared} (inside : i < sh.pages)
include inside

theorem reclaims_iff (shadow : c.state = .compressedShadow) (free : c.lock = none)
    (readable : c.prot ≠ .none) (anonymous : c.tier ≠ .spilled)
    (stored : c.content = some bytes) :
    Reclaims cfg i (sh.set i c) ↔ c.memory = bytes := by
  constructor
  · intro reclaims
    by_contra differs
    obtain ⟨s', ran, active⟩ := evaluate_mismatch cfg (fun _ => true) 0 i shadow
      free readable anonymous stored differs
    have delivered := reclaims (fun _ => true) 0 (sh.set i c)
      ⟨rfl, rfl, rfl, rfl, by simpa using free, by simpa using readable⟩
    have ended := (delivers_evaluate inside ran).mp delivered
    simp [active] at ended
  · rintro rfl k worker later ⟨pages, s, mem, content, unlocked, visible⟩
    simp only [Shared.set_page, Function.update_self] at s mem content
    have h : (later.page i).content = some (later.page i).memory := by
      rw [content, mem, stored]
    obtain ⟨s', ran, compressed⟩ := evaluate_match cfg k worker i
      (s.trans shadow) unlocked visible h
    rw [← set_self later i]
    have within : i < later.pages := by rw [pages]; exact inside
    exact (delivers_evaluate within ran).mpr (by simpa using compressed)

abbrev Lasts (cfg : Config) (k : Op → Bool) (t : Thread) (i : Nat)
    (prog : Code Bool) (sh : Shared) : Prop :=
  Goes k t (fun _ => True) prog
    (fun done taken => done = true → Reclaims cfg i taken) sh

section

variable (deferred : cfg.deferred = true)
include deferred

theorem record_lasts {info : CompressedPageInfo}
    (readable : c.prot ≠ .none) (stored : Cell.content { c with info := info } = some buf) :
    Lasts cfg k t i (record cfg i buf info fast pendingCount)
      (sh.set i c) ↔ c.memory = buf := by
  simp only [record, deferred, if_true, on, act, call_bind, done_bind,
    at_setInfo inside, at_setTier inside, at_setState inside,
    at_unlock inside, pure_eq, meets_done, true_and, forall_const]
  refine reclaims_iff inside ?_ ?_ ?_ ?_ ?_
  · rfl
  · rfl
  · exact readable
  · cases fast <;> simp
  · exact stored

theorem giveUp_lasts : Lasts cfg k t i (giveUp cfg i buf) (sh.set i c) := by
  simp [giveUp, deferred, abandon, on, act, at_setState inside, at_unlock inside]

theorem storeBlob_lasts (real : algo ≠ .none) (readable : c.prot ≠ .none) :
    Lasts cfg k t i (do
        match ← on i (.store .anonymous buf) with
        | none => giveUp cfg i buf
        | some blob => record cfg i buf ⟨some blob, algo⟩ fast pendingCount)
        (sh.set i c) ↔ c.memory = buf := by
  refine (at_store inside).trans ((and_iff_right (giveUp_lasts inside deferred)).trans ?_)
  refine record_lasts inside deferred ?_ ?_
  · exact readable
  · cases algo <;> simp [Cell.content, Cell.lookup] at real ⊢

theorem compressSnapshot_lasts (real : algo ≠ .none) (readable : c.prot ≠ .none) : Lasts cfg k t i
        (compressSnapshot cfg i buf algo fast pendingCount) (sh.set i c) ↔ c.memory = buf := by
  unfold compressSnapshot
  split_ifs with zero
  · refine record_lasts inside deferred readable ?_
    rw [pageIsAllZero_iff.mp zero]
    rfl
  · simp only [runCodec, ask, act, call_bind, done_bind, goes_ask, if_true,
      Bool.false_eq_true, if_false, pure_eq]
    refine (and_congr (storeBlob_lasts inside deferred real readable) Iff.rfl).trans
      (and_iff_left_of_imp fun same => ?_)
    split_ifs
    · simp only [call_bind, done_bind, goes_ask, if_true, Bool.false_eq_true, if_false]
      have deep : CompressAlgo.zstd ≠ .none := by decide
      exact ⟨(storeBlob_lasts inside deferred deep readable).mpr same,
        giveUp_lasts inside deferred⟩
    · exact giveUp_lasts inside deferred

theorem snapshotDeferred_lasts (real : algo ≠ .none) :
    Lasts cfg k t i (do
        match ← snapshotDeferred cfg i with
        | none => pure false
        | some buf => compressSnapshot cfg i buf algo fast pendingCount)
        (sh.set i c) ↔
      (k (.page i (.protect .readWrite)) = true ∨ c.prot ≠ .none →
        c.memory =
          zeroed (if k (.page i .getSpan) then c.span else none) c.free
            c.memory) := by
  have opened : ((if k (.page i (.protect .readWrite)) then Prot.readWrite
      else c.prot) ≠ .none) ↔
      (k (.page i (.protect .readWrite)) = true ∨ c.prot ≠ .none) := by
    cases k (.page i (.protect .readWrite)) <;> simp
  rw [← opened]
  simp only [snapshotDeferred, on, act, call_bind, done_bind, at_protect inside, at_copy inside]
  generalize (if k (.page i (.protect .readWrite)) then Prot.readWrite else c.prot) =
    prot
  by_cases hidden : prot = .none
  · simp only [hidden, if_true, ne_eq, not_true, false_implies]
  · have unchanged : samePage c.memory c.memory = true := samePage_iff.mpr rfl
    by_cases verifies : cfg.fixav = true
    · simp only [hidden, if_false, verifies, if_true, call_bind, done_bind,
        at_copy inside, unchanged, bind_assoc,
        at_zeroFreeSlots inside, pure_eq, ne_eq, not_false_iff, forall_const]
      refine compressSnapshot_lasts inside deferred real ?_
      exact hidden
    · simp only [hidden, if_false, verifies, Bool.false_eq_true, done_bind, bind_assoc,
        at_zeroFreeSlots inside, pure_eq, ne_eq, not_false_iff, forall_const]
      refine compressSnapshot_lasts inside deferred real ?_
      exact hidden

end

omit inside in
theorem compressPage_lasts (deferred : cfg.deferred = true)
    (claimable : Claimable sh i) :
    Lasts cfg k t i (compressPage cfg i pendingCount) sh ↔
      (k (.page i (.protect .readWrite)) = true ∨ (sh.page i).prot ≠ .none →
        (sh.page i).memory =
          zeroed (if k (.page i .getSpan) then (sh.page i).span else none)
            (sh.page i).free (sh.page i).memory) := by
  obtain ⟨inside, free, eligible⟩ := claimable
  refine (goes_apart i).trans ?_
  simp only [compressPage, compressLocked, compressEligible, snapshot, deferred, if_true, on, ask,
    selectProfile, act, call_bind, done_bind, at_tryLock inside, free,
    at_getState inside, eligible, at_setState inside, goes_ask,
    Bool.false_eq_true, if_false]
  have abandoned : ∀ {c : Cell}, Lasts cfg k t i (do
      abandon i
      pure false) (sh.set i c) := by
    simp [abandon, on, act, at_setState inside, at_unlock inside]
  refine (and_iff_left abandoned).trans (goes_profile.trans ((and_iff_right abandoned).trans ?_))
  constructor
  · intro lasts
    have real : CompressAlgo.zstd ≠ .none := by decide
    refine Iff.mp ?_ (lasts .zstd true real)
    exact snapshotDeferred_lasts inside deferred real
  · intro zero algo fast real
    refine Iff.mpr ?_ zero
    exact snapshotDeferred_lasts inside deferred real

end Verify

/-- Whether the page can be read at all is the only other thing the snapshot depends on; the
kernel calls of Phase B may end as they like. -/
theorem shadow_page_reclaimed_iff {cfg : Config} (deferred : cfg.deferred = true)
    {k : Op → Bool} {t : Thread} {s : Shared} {i pendingCount : Nat}
    (claimable : Claimable s i) :
    Ensures perform (Outcome k) t (compressPage cfg i pendingCount)
        (fun done taken => done = true → Reclaims cfg i taken) s ↔
      (k (.page i (.protect .readWrite)) = true ∨ (s.page i).prot ≠ .none →
        FreeBytesZero (if k (.page i .getSpan) then (s.page i).span else none)
          (s.page i).free (s.page i).memory) := by
  rw [← eq_zeroed_iff]
  exact ensures_iff_meets.trans (compressPage_lasts deferred claimable)

def shadowConfig : Config where
  deferred := true
  fixav := true
  snapshotVerify := false
  p2Chunk := true
  deferMadvise := true
  deepTier := false
  spill := false
  prefetchWindow := 0

def halfFreePage (mem : Contents) : Shared :=
  (boot 1).set 0
    { freshCell with
      state := .active
      memory := mem
      span := some ⟨0, 2048, 2, false⟩
      free := fun slot => slot == 1 }

theorem clean_page_reclaimed :
    Claimable (halfFreePage fun offset => if offset.val < 2048 then 7 else 0) 0 ∧
      Ensures perform (Outcome fun _ => true) 1 (compressPage shadowConfig 0 0)
        (fun done taken => done = true → Reclaims shadowConfig 0 taken)
        (halfFreePage fun offset => if offset.val < 2048 then 7 else 0) := by
  have claimable : Claimable (halfFreePage fun offset => if offset.val < 2048 then 7 else 0) 0 := by
    simp [Claimable, halfFreePage, boot, freshCell]
  refine ⟨claimable, (shadow_page_reclaimed_iff rfl claimable).mpr fun _ => ?_⟩
  intro small found
  simp only [halfFreePage, if_true, Shared.set_page, Function.update_self,
    Option.some.injEq] at found
  subst found
  intro _ _ offset _ taken
  simp [halfFreePage, slotAt] at taken ⊢
  omega

/-- The freed slot still holds a byte: nobody touches the page, and Phase B discards the blob. -/
theorem stale_free_byte_rejected :
    ((runAlone perform 1 (compressPage shadowConfig 0 0)
        (halfFreePage fun offset => if offset.val = 0 ∨ offset.val = 4095 then 7 else 0)
        (List.replicate 17 { number := 1 })).bind fun taken =>
      (runAlone perform 1 (reclaimShadowPage shadowConfig 0) taken.2.1
        (List.replicate 18 { flag := true })).map fun s' =>
        (taken.1, (taken.2.1.page 0).state, (s'.2.1.page 0).state)) =
      some (true, .compressedShadow, .active) := by
  decide +kernel

end Smash.Compressor
