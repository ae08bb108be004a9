import Smash.Compressor
import Smash.EnvironExclusion

/-! The pages a worker has compressed and not yet protected. `compressPage` puts them on the list,
`phase2Range` empties it when it is half full and at the end of the range. -/
namespace Smash.PendingPages

open ColdFloor EnvironExclusion LivePages
open Compressor (Config kPendingProtCap)
open PageMachine (PageState)

/-- A worker's list, and what became of the pages. -/
structure Worker where
  pending : List Nat
  /-- Pages whose backing was dropped while they were still accessible. -/
  dropped : List Nat
  /-- Every page that was put on the list. -/
  queued : List Nat
  /-- The pages that a flush came to, and those it handed to `deferMadvise`. -/
  flushed : List Nat
  deferred : List Nat
  /-- The length of the list at each entry of `compressPage`. -/
  entered : List Nat

/-- One call of `phase2Range`, with the answers it gets for each page. -/
structure Range where
  tick : Tick
  environPage : Option Nat
  range : Nat × Nat
  vmaBudget : Nat → Bool
  compresses : Nat → Bool
  /-- The page is still compressed when the flush looks at it. -/
  stays : Nat → Bool

/-- What `compressPage` does with the list, and its return value. -/
def compressPage (cfg : Config) (compresses : Bool) (i : Nat) (w : Worker) : Bool × Worker :=
  let w := { w with entered := w.pending.length :: w.entered }
  if ¬ compresses then (false, w)
  else if cfg.deferred ∨ ¬ cfg.p2Chunk then (true, w)
  else if w.pending.length < kPendingProtCap then
    (true, { w with pending := w.pending ++ [i], queued := w.queued ++ [i] })
  else (true, { w with dropped := i :: w.dropped })

def flushPhase2PendingProt (stays : Nat → Bool) (w : Worker) : Worker :=
  if w.pending.length = 0 then w
  else { w with
    pending := [], flushed := w.flushed ++ w.pending,
    deferred := w.deferred ++ w.pending.filter stays }

def phase2Page (cfg : Config) (call : Range) (w : Worker) (i : Nat) : Worker :=
  let tick := call.tick
  match phase2 tick.settings (call.environPage == some i) (tick.home i) (tick.rcEma i)
    (tick.states i) (tick.counts i) with
  | .eligible =>
    if (tick.states i = .activeMonitoring ∨ ¬ cfg.deferred) ∧ ¬ call.vmaBudget i then w
    else
      let (done, w) := compressPage cfg (call.compresses i) i w
      if done ∧ kPendingProtCap / 2 ≤ w.pending.length then flushPhase2PendingProt call.stays w
      else w
  | .skip | .upkeep | .escalate => w

def phase2Range (cfg : Config) (w : Worker) (call : Range) : Worker :=
  flushPhase2PendingProt call.stays
    (forEachLivePage call.tick.liveChunks call.range.1 call.range.2 (phase2Page cfg call) w)

structure Kept (w : Worker) : Prop where
  entered : ∀ count ∈ w.entered, count ≤ kPendingProtCap / 2
  dropped : w.dropped = []
  all : w.flushed ++ w.pending = w.queued

structure Light (w : Worker) : Prop extends Kept w where
  short : w.pending.length < kPendingProtCap / 2

section Loop

variable {cfg : Config} {w : Worker} {call : Range}

theorem Kept.flush (h : Kept w) (stays : Nat → Bool) :
    Light (flushPhase2PendingProt stays w) ∧ (flushPhase2PendingProt stays w).pending = [] := by
  unfold flushPhase2PendingProt
  split_ifs with none
  · exact ⟨{ h with short := by simp [none, kPendingProtCap] }, List.length_eq_zero_iff.mp none⟩
  · exact ⟨⟨⟨h.entered, h.dropped, by simpa using h.all⟩, by simp [kPendingProtCap]⟩, rfl⟩

theorem compressPage_spec (h : Light w) (compresses : Bool) (i : Nat) :
    Kept (compressPage cfg compresses i w).2 ∧ ((compressPage cfg compresses i w).1 = false →
        (compressPage cfg compresses i w).2.pending = w.pending) := by
  have short := h.short
  have entered : ∀ count ∈ w.pending.length :: w.entered, count ≤ kPendingProtCap / 2 :=
    List.forall_mem_cons.mpr ⟨Nat.le_of_lt short, h.entered⟩
  have room : w.pending.length < kPendingProtCap := by
    simp only [kPendingProtCap] at short ⊢
    omega
  unfold compressPage
  dsimp only
  split_ifs
  · exact ⟨⟨entered, h.dropped, h.all⟩, fun _ => rfl⟩
  · refine ⟨⟨entered, h.dropped, ?_⟩, nofun⟩
    rw [← List.append_assoc, h.all]
  · exact ⟨⟨entered, h.dropped, h.all⟩, fun _ => rfl⟩

end Loop

end Smash.PendingPages
