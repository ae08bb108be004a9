import Smash.CompressorTick

/-! The functions of the compressor that only look at pages and change their protection or
contents: whatever they are told, they leave locks, states, records and blobs alone and drop
nothing. -/
namespace Smash.Compressor

open Program Prog PageMachine

def inert : Op → Bool
  | .page _ op =>
    match op with
    | .lock | .tryLock | .unlock | .setState _ | .transition _ _ | .drop | .setInfo _ | .setTier _
    | .store _ _ | .release _ _ => false
    | _ => true
  | .range _ _ .drop | .addSpilled _ => false
  | _ => true

def Inert {Result : Type} (code : Code Result) : Prop := Only inert code

variable {i : Nat}

theorem zeroFrom_inert (span : Span) (fuel slot : Nat) (buf : Contents) :
    Inert (zeroFrom i span fuel slot buf) := by
  induction fuel generalizing slot buf with
  | zero => exact .pure buf
  | succ fuel ih => exact .ite (.pure buf) ((Only.act rfl).bind fun _ => ih _ _)

theorem zeroFreeSlots_inert (buf : Contents) : Inert (zeroFreeSlots i buf) := by
  refine (Only.act rfl).bind fun span => ?_
  split
  · exact .pure buf
  · exact .ite (.pure buf) (zeroFrom_inert _ _ _ _)

theorem reopen_inert (buf : Contents) : Inert (reopen i buf) :=
  (Only.act rfl).bind fun _ => .ite (.act rfl) ((Only.act rfl).bind fun _ => .act rfl)

theorem runCodec_inert (cfg : Config) (algo : CompressAlgo) (fast : Bool) :
    Inert (runCodec cfg algo fast) := by
  refine (Only.act rfl).bind fun first => .ite (.pure _) (.ite ?_ (.pure _))
  exact (Only.act rfl).bind fun second => .ite (.pure _) (.pure _)

theorem protectOrRemap_inert (prot : Prot) : Inert (protectOrRemap i prot) :=
  (Only.act rfl).bind fun _ => .ite (.pure _) (.act rfl)

theorem commitOrRemap_inert : Inert (commitOrRemap i) :=
  (Only.act rfl).bind fun _ => .ite (.pure _) (.act rfl)

theorem restorePageContents_inert (bytes : Contents) : Inert (restorePageContents i bytes) := by
  have opens : Only inert (populateThenOpen i bytes) :=
    (Only.act rfl).bind fun _ => .ite (.act rfl) (.pure _)
  refine opens.bind fun opened => .ite (.pure _) ?_
  refine .bind commitOrRemap_inert fun fallback => .ite ?_ (.pure _)
  exact (Only.act rfl).bind fun _ => .pure _

theorem populatePage_inert : Inert (populatePage i) :=
  (Only.act rfl).bind fun _ => (Only.act rfl).bind fun _ => .act rfl

theorem populateOthers_inert (slot : Bool) (others : List Nat) :
    Inert (populateOthers slot others) := by
  induction others generalizing slot with
  | nil => exact .pure _
  | cons j rest ih =>
    have acquires : Only inert (acquireFaultSlot slot) := .ite (.pure _) (.act rfl)
    refine (Only.act rfl).bind fun s => .ite ?_ (ih slot)
    refine acquires.bind fun got => Only.ite ?_ (.pure _)
    exact .bind populatePage_inert fun done => .ite (ih true) (.pure _)

theorem openRange_inert (data : Option Contents) (lo hi : Nat) :
    Inert (openRange i data lo hi) := by
  have own : Only inert (populateOwn i data) := by
    cases data with
    | none => exact .pure _
    | some bytes => exact .act rfl
  have populates : Only inert (populateRange i data (othersIn i lo hi)) :=
    own.bind fun _ => .ite (populateOthers_inert _ _) (.pure _)
  exact populates.bind fun _ => .ite (.act rfl) (.pure _)

theorem ensureSpillReady_inert (cfg : Config) : Inert (ensureSpillReady cfg) :=
  .ite (.act rfl) (.pure _)

theorem closeRun_inert (first count : Nat) : Inert (closeRun first count) :=
  (Only.act rfl).bind fun _ => .ite (.pure _) (.act rfl)

end Smash.Compressor
