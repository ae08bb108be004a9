import Smash.CompressorTick

/-! Symbolic execution of programs that run alone on one page, exact in both directions: a
call is replaced by what it does to the page. Which `mprotect` and `mmap` calls succeed and
whether the page map knows the page is fixed in advance; everything else is free. -/
namespace Smash.Compressor

open Program PageMachine

section Outcome

def decided : Op → Bool
  | .page _ (.protect _) | .page _ (.remap _) | .page _ .getSpan => true
  | .range _ _ (.protect _) | .range _ _ (.remap _) => true
  | _ => false

/-- Every `mprotect` and `mmap` call and page-map lookup ends as `kernel` says. -/
def Outcome (k : Op → Bool) (op : Op) (ch : Choice) : Prop :=
  decided op = true → ch.flag = k op

/-- The page calls whose effect the state and the fixed outcome determine. -/
def determined : CellOp → Bool
  | .commit | .populate _ | .decompress _ | .store _ _ => false
  | _ => true

def quiet : Op → Bool
  | .page _ .drop | .range _ _ .drop => false
  | _ => true

abbrev Goes (k : Op → Bool) (t : Thread) (always : Shared → Prop) {Result : Type}
    (prog : Code Result) (post : Result → Shared → Prop) (s : Shared) : Prop :=
  Meets perform (Outcome k) t always prog post s

/-- An assertion that no call but a drop can tell apart. -/
class Steady (always : Shared → Prop) : Prop where
  same : ∀ {t : Thread} {op : Op} {ch : Choice} {ans : Answer op}
    {pre s' : Shared}, quiet op = true →
    perform t op ch pre = some (ans, s') → (always s' ↔ always pre)

instance : Steady fun _ => True := ⟨fun _ _ => Iff.rfl⟩

variable {k : Op → Bool} {t : Thread} {i : Nat}

theorem cellStep_determined {op : CellOp} {ch : Choice} (fixed : determined op = true)
    (permitted : Outcome k (.page i op) ch) (c : Cell) : cellStep t op ch c =
      cellStep t op { flag := k (.page i op) } c := by
  cases op <;> simp only [determined, Bool.false_eq_true] at fixed <;> first
    | rfl
    | (have same : ch.flag = k _ := permitted rfl
       simp only [cellStep, same])

theorem set_self (s : Shared) (i : Nat) : s.set i (s.page i) = s := by
  simp [Shared.set]

end Outcome

section Calls

variable {k : Op → Bool} {t : Thread} {always : Shared → Prop} {sh : Shared}
variable {i : Nat} {Result : Type} {post : Result → Shared → Prop} {c : Cell}
variable {bytes : Contents} {info : CompressedPageInfo} {next : Bool → Code Result} {op : CellOp}
variable {prot : Prot}

theorem goes_apart (i : Nat) {prog : Code Result} : Goes k t always prog post sh ↔
      Goes k t always prog post (sh.set i (sh.page i)) := by
  rw [set_self]

theorem goes_ask {question : Question} : Goes k t always (.call (.ask question) next) post sh ↔
      Goes k t always (next true) post sh ∧ Goes k t always (next false) post sh := by
  constructor
  · rintro ⟨-, goes⟩
    exact ⟨goes { flag := true } true sh nofun rfl, goes { flag := false } false sh nofun rfl⟩
  · rintro ⟨yes, no⟩
    refine ⟨yes.now, fun ch ans s' _ ran => ?_⟩
    cases ran
    cases ch.flag with
    | true => exact yes
    | false => exact no

theorem goes_profile {next : Option (CompressAlgo × Bool) → Code Result} :
    Goes k t always (.call .profile next) post sh ↔ Goes k t always (next none) post sh ∧
        ∀ algo fast, algo ≠ .none → Goes k t always (next (some (algo, fast))) post sh := by
  constructor
  · rintro ⟨-, goes⟩
    refine ⟨goes { number := 0 } none sh nofun rfl, fun algo fast real => ?_⟩
    exact goes { number := 1, algo := algo, flag := fast } _ sh nofun (by simp [perform, real])
  · rintro ⟨nothing, something⟩
    refine ⟨nothing.now, fun ch ans s' _ ran => ?_⟩
    simp only [perform] at ran
    split_ifs at ran with missing
    · cases ran
      exact nothing
    · cases ran
      exact something _ _ (not_or.mp missing).2

theorem goes_outside {next : CellAnswer op → Code Result} (outside : ¬ i < sh.pages) :
    Goes k t always (.call (.page i op) next) post sh ↔ always sh := by
  refine ⟨fun goes => goes.1, fun holds => ⟨holds, fun ch ans s' _ ran => ?_⟩⟩
  simp [perform, outside] at ran

variable [Steady always] (inside : i < sh.pages)

include inside in
theorem perform_at {ch : Choice} (fixed : determined op = true)
    (permitted : Outcome k (.page i op) ch) : perform t (.page i op) ch (sh.set i c) =
      (cellStep t op { flag := k (.page i op) } c).map
        fun r => (r.1, sh.set i r.2) := by
  simp [perform, inside, cellStep_determined fixed permitted]

include inside

theorem goes_at {next : CellAnswer op → Code Result}
    (fixed : determined op = true) (harmless : quiet (.page i op) = true) :
    Goes k t always (.call (.page i op) next) post (sh.set i c) ↔
      match cellStep t op { flag := k (.page i op) } c with
      | none => always (sh.set i c)
      | some (ans, s') =>
        Goes k t always (next ans) post (sh.set i s') := by
  split
  next blocked =>
    refine ⟨fun goes => goes.1, fun holds => ⟨holds, fun ch ans s' permitted => ?_⟩⟩
    rw [perform_at inside fixed permitted, blocked]
    nofun
  next ans s' stepped =>
    have fixedStep : ∀ ch, Outcome k (.page i op) ch → perform t (.page i op) ch (sh.set i c) =
          some (ans, sh.set i s') := fun ch permitted => by
      rw [perform_at inside fixed permitted, stepped]
      rfl
    have h := fixedStep { flag := k (.page i op) } fun _ => rfl
    exact meets_call ⟨{ flag := k (.page i op) }, fun _ => rfl⟩ fixedStep
      (Steady.same harmless h).mp

theorem at_getState {next : PageState → Code Result} :
    Goes k t always (.call (.page i .getState) next) post (sh.set i c) ↔
      Goes k t always (next c.state) post (sh.set i c) :=
  goes_at inside rfl rfl

theorem at_getInfo {next : CompressedPageInfo → Code Result} :
    Goes k t always (.call (.page i .getInfo) next) post (sh.set i c) ↔
      Goes k t always (next c.info) post (sh.set i c) :=
  goes_at inside rfl rfl

theorem at_getPending : Goes k t always (.call (.page i .getPending) next) post (sh.set i c) ↔
      Goes k t always (next c.pending) post (sh.set i c) :=
  goes_at inside rfl rfl

theorem at_slotFree {slot : Nat} : Goes k t always (.call (.page i (.slotFree slot)) next) post
        (sh.set i c) ↔ Goes k t always (next (c.free slot)) post (sh.set i c) :=
  goes_at inside rfl rfl

theorem at_getSpan {next : Option Span → Code Result} :
    Goes k t always (.call (.page i .getSpan) next) post (sh.set i c) ↔
      Goes k t always
        (next (if k (.page i .getSpan) then c.span else none)) post
        (sh.set i c) :=
  goes_at inside rfl rfl

theorem at_unlock {next : Unit → Code Result} :
    Goes k t always (.call (.page i .unlock) next) post (sh.set i c) ↔
      Goes k t always (next ()) post (sh.set i { c with lock := none }) :=
  goes_at inside rfl rfl

theorem at_setInfo {next : Unit → Code Result} :
    Goes k t always (.call (.page i (.setInfo info)) next) post (sh.set i c) ↔
      Goes k t always (next ()) post (sh.set i { c with info := info }) :=
  goes_at inside rfl rfl

theorem at_setTier {tier : Tier} {next : Unit → Code Result} :
    Goes k t always (.call (.page i (.setTier tier)) next) post (sh.set i c) ↔
      Goes k t always (next ()) post (sh.set i { c with tier := tier }) :=
  goes_at inside rfl rfl

theorem at_exchangePending {v : Bool} :
    Goes k t always (.call (.page i (.exchangePending v)) next) post (sh.set i c) ↔
      Goes k t always (next c.pending) post (sh.set i { c with pending := v }) :=
  goes_at inside rfl rfl

theorem at_setState {s : PageState} {next : Unit → Code Result} :
    Goes k t always (.call (.page i (.setState s)) next) post (sh.set i c) ↔
      Goes k t always (next ()) post (sh.set i { c with state := s, reopened := false }) :=
  goes_at inside rfl rfl

theorem at_lock {next : Unit → Code Result} :
    Goes k t always (.call (.page i .lock) next) post (sh.set i c) ↔
      if c.lock = none then
        Goes k t always (next ()) post
          (sh.set i { c with lock := some t })
      else always (sh.set i c) := by
  rw [goes_at inside rfl rfl]
  simp only [cellStep]
  split_ifs <;> rfl

theorem at_tryLock :
    Goes k t always (.call (.page i .tryLock) next) post (sh.set i c) ↔
      if c.lock = none then
        Goes k t always (next true) post
          (sh.set i { c with lock := some t })
      else Goes k t always (next false) post (sh.set i c) := by
  rw [goes_at inside rfl rfl]
  simp only [cellStep]
  split_ifs <;> rfl

theorem at_protect :
    Goes k t always (.call (.page i (.protect prot)) next) post
        (sh.set i c) ↔
      Goes k t always (next (k (.page i (.protect prot)))) post
        (sh.set i
          { c with
            prot := if k (.page i (.protect prot)) then prot else c.prot }) := by
  rw [goes_at inside rfl rfl]
  simp only [cellStep]
  split_ifs with closes
  · rw [closes]
  · rw [Bool.eq_false_iff.mpr closes]

theorem at_remap :
    Goes k t always (.call (.page i (.remap prot)) next) post
        (sh.set i c) ↔
      Goes k t always (next (k (.page i (.remap prot)))) post
        (sh.set i
          (if k (.page i (.remap prot)) then
            { c with prot := prot, memory := fun _ => 0 } else c)) := by
  rw [goes_at inside rfl rfl]
  simp only [cellStep]
  split_ifs with closes
  · rw [closes]
  · rw [Bool.eq_false_iff.mpr closes]

theorem at_copy {next : Contents → Code Result} :
    Goes k t always (.call (.page i .copy) next) post (sh.set i c) ↔
      if c.prot = .none then always (sh.set i c)
      else Goes k t always (next c.memory) post (sh.set i c) := by
  rw [goes_at inside rfl rfl]
  simp only [cellStep]
  split_ifs <;> rfl

theorem at_write {next : Unit → Code Result} :
    Goes k t always (.call (.page i (.write bytes)) next) post
        (sh.set i c) ↔
      if c.prot = .readWrite then
        Goes k t always (next ()) post (sh.set i { c with memory := bytes })
      else always (sh.set i c) := by
  rw [goes_at inside rfl rfl]
  simp only [cellStep]
  split_ifs <;> rfl

omit [Steady always] in
theorem at_drop {next : Unit → Code Result} :
    Goes k t always (.call (.page i .drop) next) post (sh.set i c) ↔ always (sh.set i c) ∧
        Goes k t always (next ()) post (sh.set i
            { c with memory := fun _ => 0, drops := c.prot :: c.drops }) := by
  refine and_congr Iff.rfl ⟨fun goes => ?_, fun goes ch ans s' permitted => ?_⟩
  · exact goes { flag := k (.page i .drop) } () _ nofun (perform_at inside rfl fun _ => rfl)
  · rw [perform_at inside rfl permitted]
    intro ran
    cases ran
    exact goes

omit [Steady always] in
theorem at_decompress {next : Contents → Code Result} :
    Goes k t always (.call (.page i (.decompress info)) next) post
        (sh.set i c) ↔
      ∀ bytes, (∀ stored, Cell.content { c with info := info } = some stored →
          bytes = stored) →
        Goes k t always (next bytes) post (sh.set i c) := by
  have stays : ∀ ch : Choice, perform t (.page i (.decompress info)) ch (sh.set i c) =
        some ((Cell.content { c with info := info }).getD ch.bytes,
          sh.set i c) := by
    intro ch
    simp [perform, inside, cellStep]
  have possible : ∀ ch : Choice, ∀ stored, Cell.content { c with info := info } = some stored →
        (Cell.content { c with info := info }).getD ch.bytes = stored := by
    intro ch stored found
    rw [found]
    rfl
  constructor
  · rintro ⟨-, goes⟩ bytes agrees
    refine goes { bytes := bytes } bytes _ (by rintro ⟨⟩) ?_
    rw [stays]
    cases found : Cell.content { c with info := info } with
    | none => rfl
    | some stored => rw [agrees stored found]; rfl
  · intro goes
    refine ⟨(goes _ (possible {})).now, fun ch ans s' _ ran => ?_⟩
    rw [stays] at ran
    cases ran
    exact goes _ (possible ch)

omit [Steady always] in
theorem at_store {place : Place} {next : Option Blob → Code Result} :
    Goes k t always (.call (.page i (.store place bytes)) next) post
        (sh.set i c) ↔
      Goes k t always (next none) post (sh.set i c) ∧
        Goes k t always (next (some ⟨place, c.nextBlob⟩)) post
          (sh.set i
            { c with
              blobs := (⟨place, c.nextBlob⟩, bytes) :: c.blobs
              nextBlob := c.nextBlob + 1 }) := by
  constructor
  · rintro ⟨-, goes⟩
    exact ⟨goes { flag := false } none _ nofun (by simp [perform, inside, cellStep]),
      goes { flag := true } _ _ nofun (by simp [perform, inside, cellStep])⟩
  · rintro ⟨full, stored⟩
    refine ⟨full.now, fun ch ans s' _ ran => ?_⟩
    simp only [perform, Shared.set_pages, inside, if_true, Shared.set_page,
      Function.update_self, cellStep] at ran
    split_ifs at ran with room
    · cases ran
      simpa using stored
    · cases ran
      simpa using full

end Calls

section Zeroing

def zeroSlots (span : Span) (free : Nat → Bool) : Nat → Nat → Contents → Contents
  | 0, _, buf => buf
  | fuel + 1, slot, buf =>
    if span.pageOff + kPageSize ≤ slot * span.objectSize then buf
    else zeroSlots span free fuel (slot + 1) (if free slot then zeroSlot span slot buf else buf)

def zeroed (span : Option Span) (free : Nat → Bool) (buf : Contents) : Contents :=
  match span with
  | none => buf
  | some span =>
    if span.isLarge ∨ span.objectSize = 0 then buf
    else
      let firstSlot := span.pageOff / span.objectSize
      zeroSlots span free (span.objectCount - firstSlot) firstSlot buf

variable {k : Op → Bool} {t : Thread} {always : Shared → Prop} {s : Shared}
variable {i : Nat} {Result : Type} {post : Result → Shared → Prop} {c : Cell}
variable [Steady always] (inside : i < s.pages)
include inside

theorem at_zeroFrom {next : Contents → Code Result} (span : Span) (fuel slot : Nat)
    (buf : Contents) : Goes k t always (zeroFrom i span fuel slot buf >>= next) post (s.set i c) ↔
      Goes k t always (next (zeroSlots span c.free fuel slot buf)) post (s.set i c) := by
  induction fuel generalizing slot buf with
  | zero => rfl
  | succ fuel ih =>
    simp only [zeroFrom, zeroSlots]
    by_cases beyond : span.pageOff + kPageSize ≤ slot * span.objectSize
    · simp only [if_pos beyond, Prog.pure_eq, Prog.done_bind]
    · simp only [if_neg beyond, on, Prog.act, Prog.call_bind, Prog.done_bind, at_slotFree inside]
      rw [ih]

theorem at_zeroFreeSlots {next : Contents → Code Result} (buf : Contents) :
    Goes k t always (zeroFreeSlots i buf >>= next) post (s.set i c) ↔
      Goes k t always
        (next (zeroed (if k (.page i .getSpan) then c.span else none) c.free buf))
        post (s.set i c) := by
  simp only [zeroFreeSlots, on, Prog.act, Prog.call_bind, Prog.done_bind, at_getSpan inside]
  generalize (if k (.page i .getSpan) then c.span else none) = found
  cases found with
  | none => rfl
  | some span =>
    simp only [zeroed]
    by_cases whole : span.isLarge = true ∨ span.objectSize = 0
    · simp only [if_pos whole, Prog.pure_eq, Prog.done_bind]
    · simp only [if_neg whole]
      exact at_zeroFrom inside _ _ _ buf

end Zeroing

end Smash.Compressor
