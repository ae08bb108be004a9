import Smash.CompressorTick

/-! What every thread of the compressor system may rely on about one page. The state,
protection and blob of a page that is being compressed, compressed or shadowed change only
under its lock; the lock-free actors are the application (stores to a writable page), the
phase 3 monitor, the span code and the tightening `mprotect` calls of `compressPage`. -/
namespace Smash.Compressor

open Program PageMachine

/-- The states in which only the lock holder decides what happens to a page. -/
def engaged : PageState → Bool
  | .compressed | .compressing | .compressedShadow => true
  | .empty | .active | .activeMonitoring => false

/-- What the holder of a page lock finds, and has to leave behind. -/
structure Settled (cell : Cell) : Prop where
  blob : cell.state = .compressed →
    cell.prot ≠ .readWrite ∧ ∃ bytes, cell.content = some bytes ∧ cell.Agrees bytes
  busy : cell.state = .compressing → cell.Agrees cell.memory
  shadow : cell.state = .compressedShadow → ∃ bytes, cell.content = some bytes
  closed : cell.reopened = false

structure CellInv (deferred : Bool) (cell : Cell) : Prop where
  resident : cell.state ≠ .compressed → cell.state ≠ .compressing → cell.Agrees cell.memory
  visible : deferred = true → cell.state ≠ .compressed ∨ cell.prot ≠ .none →
    cell.Agrees cell.memory
  settled : cell.lock = none → Settled cell
  stored : ∀ offset value, cell.app offset = some value → cell.Live offset
  held : cell.held ≠ [] → cell.owner = .service
  service : cell.owner = .service → cell.state ≠ .empty
  idle : cell.owner = .idle → cell.state = .empty
  marked : ∀ slot ∈ cell.held, cell.free slot = false
  reopened : cell.reopened = true → cell.state = .compressing

/-- What others may do to a page while its lock is held; `quiet` while the lock holder's
next call writes the page back and no application store is admitted. -/
structure Drift (deferred quiet : Bool) (before after : Cell) : Prop where
  info : after.info = before.info
  blobs : after.blobs = before.blobs
  reopened : after.reopened = before.reopened
  state : engaged before.state = true → after.state = before.state
  resting : engaged before.state = false →
    engaged after.state = false ∧ (after.state = .empty → before.state = .empty)
  shut : engaged before.state = true → before.prot ≠ .readWrite → after.prot ≠ .readWrite
  closed : deferred = true → engaged before.state = true → before.prot = .none →
    after.prot = .none
  agrees : before.Agrees before.memory → after.Agrees after.memory
  frozen : engaged before.state = true → before.prot ≠ .readWrite ∨ quiet = true →
    after.memory = before.memory ∧
      ∀ offset value, after.app offset = some value → before.app offset = some value
  span : engaged before.state = true → after.span = before.span

/-- Nobody has opened the page for writing behind its worker's back. -/
def Shut (c : Cell) : Prop :=
  c.state = .compressing → c.prot = .readWrite → c.reopened = true

def Unpacked (c : Cell) : Prop :=
  c.state ≠ .compressed ∧ c.state ≠ .compressedShadow

structure CellRely (deferred quiet : Bool) (tid : Thread) (before after : Cell) : Prop where
  lock : after.lock = some tid ↔ before.lock = some tid
  drift : before.lock = some tid → Drift deferred quiet before after
  owner : before.owner = .moving tid →
    after.owner = .moving tid ∧ (after.state = .empty ↔ before.state = .empty)
  worker : before.worker = some tid → after.worker = some tid
  unopened : before.worker = some tid → Shut before → Shut after
  unpacked : before.worker = some tid → Unpacked before → Unpacked after
  unengaged : before.worker = some tid → engaged before.state = false →
    engaged after.state = false

section Relations

variable {deferred quiet : Bool} {t : Thread} {first second third : Cell}

theorem Drift.refl (deferred quiet : Bool) (c : Cell) : Drift deferred quiet c c where
  info := rfl
  blobs := rfl
  reopened := rfl
  state := fun _ => rfl
  resting := fun rest => ⟨rest, id⟩
  shut := fun _ => id
  closed := fun _ _ => id
  agrees := id
  frozen := fun _ _ => ⟨rfl, fun _ _ => id⟩
  span := fun _ => rfl

theorem Drift.trans (one : Drift deferred quiet first second)
    (two : Drift deferred quiet second third) : Drift deferred quiet first third where
  info := two.info.trans one.info
  blobs := two.blobs.trans one.blobs
  reopened := two.reopened.trans one.reopened
  state := by
    intro busy
    have same := one.state busy
    rw [two.state (by rw [same]; exact busy), same]
  resting := by
    intro rest
    obtain ⟨restful, emptied⟩ := one.resting rest
    obtain ⟨later, emptiedLater⟩ := two.resting restful
    exact ⟨later, emptied ∘ emptiedLater⟩
  shut := by
    intro busy shut
    exact two.shut (by rw [one.state busy]; exact busy) (one.shut busy shut)
  closed := by
    intro mode busy closed
    exact two.closed mode (by rw [one.state busy]; exact busy) (one.closed mode busy closed)
  agrees := two.agrees ∘ one.agrees
  frozen := by
    intro busy still
    obtain ⟨kept, fewer⟩ := one.frozen busy still
    have further := two.frozen (by rw [one.state busy]; exact busy) (still.imp_left (one.shut busy))
    exact ⟨further.1.trans kept, fun offset v seen => fewer _ _ (further.2 _ _ seen)⟩
  span := by
    intro busy
    rw [two.span (by rw [one.state busy]; exact busy), one.span busy]

theorem Drift.loud (drift : Drift deferred quiet first second) :
    Drift deferred false first second :=
  { drift with
    frozen := fun busy still => drift.frozen busy (still.imp_right fun never => nomatch never) }

theorem CellRely.refl (deferred quiet : Bool) (t : Thread) (c : Cell) :
    CellRely deferred quiet t c c where
  lock := Iff.rfl
  drift := fun _ => Drift.refl deferred quiet c
  owner := fun moving => ⟨moving, Iff.rfl⟩
  worker := id
  unopened := fun _ => id
  unpacked := fun _ => id
  unengaged := fun _ => id

theorem CellRely.trans (one : CellRely deferred quiet t first second)
    (two : CellRely deferred quiet t second third) : CellRely deferred quiet t first third where
  lock := two.lock.trans one.lock
  drift := fun locked => (one.drift locked).trans (two.drift (one.lock.mpr locked))
  owner := by
    intro moving
    obtain ⟨still, same⟩ := one.owner moving
    obtain ⟨later, sameLater⟩ := two.owner still
    exact ⟨later, sameLater.trans same⟩
  worker := two.worker ∘ one.worker
  unopened := fun works => two.unopened (one.worker works) ∘ one.unopened works
  unpacked := fun works => two.unpacked (one.worker works) ∘ one.unpacked works
  unengaged := fun works => two.unengaged (one.worker works) ∘ one.unengaged works

theorem CellRely.loud (relied : CellRely deferred quiet t first second) :
    CellRely deferred false t first second :=
  { relied with drift := fun locked => (relied.drift locked).loud }

end Relations

section Contract

/-- The pending call copies a snapshot back into this page. -/
def writesBack (i : Nat) : Option Op → Bool
  | some (.page j (.write _)) => j == i
  | _ => false

/-- In standard mode an application store must not fall between the `mprotect` that reopens
a page and the copy that writes its snapshot back. -/
def admits (cfg : Config) : Event → Option Op → Prop
  | .store i _ _, pending => cfg.deferred = true ∨ writesBack i pending = false
  | _, _ => True

def contract (cfg : Config) : Contract Op Thread Choice Shared Event where
  allowed := KernelSucceeds
  admits := admits cfg
  inv := fun s => ∀ i, CellInv cfg.deferred (s.page i)
  rely := fun t pending pre s' =>
    ∀ i, CellRely cfg.deferred (!cfg.deferred && writesBack i pending) t
      (pre.page i) (s'.page i)
  rely_idle := by
    intro t pending pre s' relied i
    simpa [writesBack] using (relied i).loud

end Contract

end Smash.Compressor
