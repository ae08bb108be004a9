import Smash.Dispatch

/-! Which helpers work on which generation. The barrier of `dispatch` covers the helpers that
were active when it read `active_workers_`; a helper that was not, and is still on its way to
that read, must not become active meanwhile. -/
namespace Smash.Dispatch

open MachineWord Transition

variable {helpers : Nat}

section Property

def CoordPc.job : CoordPc → Option Job
  | .ownPhase job _ | .loadTarget job _ | .await job _ _ _ => some job
  | _ => none

def runsOf (log : List (Execution helpers)) (id : Fin helpers) (gen : Nat) :
    List (Execution helpers) :=
  log.filter fun run => run.helper = id ∧ run.gen = gen

def expected (job : Job) (id : Fin helpers) : List (Execution helpers) :=
  if id + 1 < job.workers then [⟨id, job.gen, job.phase⟩] else []

/-- A helper at work works on the open dispatch, which counts it and lies in a tick; a dispatch
that has returned was carried out once by each helper it counts and by no other. -/
structure Disciplined (state : State helpers) : Prop where
  during : ∀ id gen phase, (state.helper id).pc = .executing gen phase →
    state.inTick = true ∧ ∃ job, state.coord.job = some job ∧ job.gen = gen ∧
      job.phase = phase ∧ id + 1 < job.workers
  once : ∀ job ∈ state.returned, ∀ id, runsOf state.log id job.gen = expected job id

/-- The helper has acknowledged the last generation it read. -/
def Helper.Resting (helper : Helper) : Bool :=
  match helper.pc with
  | .absent | .test | .readGen | .park | .exited => true
  | _ => false

/-- The helper will not take up the current generation any more. -/
def Helper.CaughtUp (helper : Helper) (gen : Nat) : Prop :=
  helper.pc = .exited ∨ helper.Resting = true ∧ helper.lastGen = gen

instance (helper : Helper) (gen : Nat) : Decidable (helper.CaughtUp gen) := by
  unfold Helper.CaughtUp
  infer_instance

/-- `active_workers_` is raised only over helpers that have caught up, and the generation
counter does not wrap. -/
def RaisesCaughtUp (s : State helpers) : Event helpers → Prop
  | .coord _ =>
    match s.coord with
    | .bump _ _ _ => s.workGen + 1 < wordSize
    | .storeActive wanted =>
      ∀ id : Fin helpers, s.activeWorkers ≤ id + 1 → id + 1 < wanted →
        (s.helper id).CaughtUp s.workGen
    | _ => True
  | _ => True

instance (s : State helpers) (event : Event helpers) : Decidable (RaisesCaughtUp s event) := by
  unfold RaisesCaughtUp
  split
  · split <;> infer_instance
  · infer_instance

end Property

section Invariant

structure Coherent (gen : Nat) (helper : Helper) : Prop where
  last : helper.lastGen ≤ gen
  progress : match helper.pc with
    | .readActive read | .readPhase read | .executing read _ | .ack read =>
      read = helper.lastGen ∧ helper.doneGen < helper.lastGen
    | _ => helper.doneGen = helper.lastGen

/-- How far a helper that counts has come with the open dispatch. -/
def Stage (job : Job) (runs : List (Execution helpers)) (id : Fin helpers) (helper : Helper) :
    Prop :=
  match helper.pc with
  | .readActive gen | .readPhase gen => gen = job.gen ∧ runs = []
  | .executing gen phase =>
    gen = job.gen ∧ phase = job.phase ∧ runs = [⟨id, job.gen, job.phase⟩]
  | .ack gen => gen = job.gen ∧ runs = [⟨id, job.gen, job.phase⟩]
  | _ =>
    helper.lastGen = job.gen ∧ runs = [⟨id, job.gen, job.phase⟩] ∨
      helper.lastGen < job.gen ∧ runs = []

def Helper.Working (helper : Helper) : Bool :=
  match helper.pc with
  | .readPhase _ | .executing _ _ => true
  | _ => false

def Tracks (job : Option Job) (active gen : Nat) (log : List (Execution helpers))
    (id : Fin helpers) (helper : Helper) : Prop :=
  if id + 1 < active then
    match job with
    | none => helper.CaughtUp gen
    | some job => Stage job (runsOf log id job.gen) id helper
  else helper.Working = false ∧ ∀ opened, job = some opened → runsOf log id opened.gen = []

def CoordPc.ticking : CoordPc → Bool
  | .loop | .awake | .enter | .exited => false
  | _ => true

/-- What the coordinator's locals say about the shared state. -/
def CoordOk (s : State helpers) : CoordPc → Prop
  | .readRunning workers _ _ | .storePhase workers _ _ => workers = s.activeWorkers
  | .bump workers phase _ => workers = s.activeWorkers ∧ phase = s.currentPhase
  | .ownPhase job _ | .loadTarget job _ =>
    job = ⟨s.workGen, s.currentPhase, s.activeWorkers⟩
  | .await job target helper _ =>
    job = ⟨s.workGen, s.currentPhase, s.activeWorkers⟩ ∧ target = s.workGen ∧
      ∀ id : Fin helpers, id < helper → target ≤ (s.helper id).doneGen
  | _ => True

structure Inv (state : State helpers) : Prop where
  tick : state.coord.ticking = true → state.inTick = true
  coord : CoordOk state state.coord
  coherent : ∀ id, Coherent state.workGen (state.helper id)
  tracks : ∀ id, Tracks state.coord.job state.activeWorkers state.workGen state.log id
    (state.helper id)
  absent : ∀ id : Fin helpers, state.helpersCreated ≤ id → state.helper id = ⟨.absent, 0, 0⟩
  logged : ∀ run ∈ state.log, run.gen ≤ state.workGen
  returned : ∀ job ∈ state.returned, job.gen ≤ state.workGen ∧
    (state.coord.job ≠ none → job.gen < state.workGen) ∧
    ∀ id, runsOf state.log id job.gen = expected job id

variable {s next : State hs} {id : Fin hs}

theorem Inv.job_eq (inv : Inv s) {job : Job} (found : s.coord.job = some job) :
    job = ⟨s.workGen, s.currentPhase, s.activeWorkers⟩ ∧ s.inTick = true := by
  have h := inv.coord
  have tick := inv.tick
  cases located : s.coord <;>
    simp only [located, CoordPc.job, reduceCtorEq, Option.some.injEq, CoordOk,
      CoordPc.ticking, forall_const] at found h tick
  case ownPhase => exact ⟨found ▸ h, tick⟩
  case loadTarget => exact ⟨found ▸ h, tick⟩
  case await => exact ⟨found ▸ h.1, tick⟩

theorem Inv.disciplined (inv : Inv s) : Disciplined s where
  during := by
    intro id gen phase executing
    have tracks := inv.tracks id
    unfold Tracks at tracks
    split_ifs at tracks with active
    · cases found : s.coord.job with
      | none => simp [found, Helper.CaughtUp, Helper.Resting, executing] at tracks
      | some job =>
        obtain ⟨same, tick⟩ := inv.job_eq found
        simp only [found, Stage, executing] at tracks
        refine ⟨tick, job, rfl, tracks.1.symm, tracks.2.1.symm, ?_⟩
        rw [same]
        exact active
    · simp [Helper.Working, executing] at tracks
  once := fun job mem => (inv.returned job mem).2.2

theorem Inv.proceed (inv : Inv s) (helper : next.helper = s.helper)
    (created : next.helpersCreated = s.helpersCreated) (log : next.log = s.log)
    (returned : next.returned = s.returned) (gen : next.workGen = s.workGen)
    (active : next.activeWorkers = s.activeWorkers) (job : next.coord.job = s.coord.job)
    (tick : next.coord.ticking = true → next.inTick = true) (coord : CoordOk next next.coord) :
    Inv next where
  tick := tick
  coord := coord
  coherent := by simpa only [helper, gen] using inv.coherent
  tracks := by simpa only [helper, gen, active, job, log] using inv.tracks
  absent := by simpa only [helper, created] using inv.absent
  logged := by simpa only [log, gen] using inv.logged
  returned := by simpa only [log, gen, returned, job] using inv.returned

theorem runsOf_eq_nil {log : List (Execution hs)} {gen : Nat}
    (below : ∀ run ∈ log, run.gen < gen) : runsOf log id gen = [] := by
  refine List.filter_eq_nil_iff.mpr fun run mem found => ?_
  simp only [decide_eq_true_eq] at found
  exact absurd (below run mem) (by omega)

theorem runsOf_cons {log : List (Execution hs)} {run : Execution hs} {gen : Nat} :
    runsOf (run :: log) id gen =
      if run.helper = id ∧ run.gen = gen then run :: runsOf log id gen else runsOf log id gen := by
  unfold runsOf
  rw [List.filter_cons]
  simp only [decide_eq_true_eq]

theorem stage_resting {job : Job} {runs : List (Execution hs)} {helper : Helper}
    (resting : helper.Resting = true) : Stage job runs id helper ↔
      helper.lastGen = job.gen ∧ runs = [⟨id, job.gen, job.phase⟩] ∨
        helper.lastGen < job.gen ∧ runs = [] := by
  obtain ⟨pc, last, done⟩ := helper
  cases pc <;> first | exact Iff.rfl | simp [Helper.Resting] at resting

theorem Helper.CaughtUp.resting {helper : Helper} {gen : Nat} (caught : helper.CaughtUp gen) :
    helper.Resting = true := by
  rcases caught with exited | ⟨resting, -⟩
  · simp [Helper.Resting, exited]
  · exact resting

theorem working_of_resting {helper : Helper} (resting : helper.Resting = true) :
    helper.Working = false := by
  obtain ⟨pc, last, done⟩ := helper
  cases pc <;> first | rfl | simp [Helper.Resting] at resting

theorem bump_inv (inv : Inv s) {workers : Nat} {phase : Phase} {rest : List Phase}
    (located : s.coord = .bump workers phase rest) (fits : s.workGen + 1 < wordSize) :
    Inv { s with
      workGen := fetchAdd s.workGen 1
      coord := .ownPhase ⟨fetchAdd s.workGen 1, phase, workers⟩ rest } := by
  have h := inv.coord
  rw [located] at h
  obtain ⟨rfl, rfl⟩ := h
  rw [fetchAdd_of_lt fits]
  have closed : s.coord.job = none := by rw [located]; rfl
  have fresh : ∀ id, runsOf s.log id (s.workGen + 1) = [] := fun id =>
    runsOf_eq_nil fun run mem => Nat.lt_succ_of_le (inv.logged run mem)
  refine ⟨fun _ => inv.tick (by rw [located]; rfl), rfl, fun id => ?_, fun id => ?_, inv.absent,
    fun run mem => Nat.le_succ_of_le (inv.logged run mem), fun job mem => ?_⟩
  · have coherent := inv.coherent id
    exact ⟨Nat.le_succ_of_le coherent.last, coherent.progress⟩
  · have tracks := inv.tracks id
    unfold Tracks at tracks ⊢
    rw [closed] at tracks
    split_ifs at tracks ⊢ with active
    · refine (stage_resting tracks.resting).mpr (.inr ⟨?_, fresh id⟩)
      exact Nat.lt_succ_of_le (inv.coherent id).last
    · refine ⟨tracks.1, ?_⟩
      rintro opened ⟨⟩
      exact fresh id
  · obtain ⟨below, -, done⟩ := inv.returned job mem
    exact ⟨Nat.le_succ_of_le below, fun _ => Nat.lt_succ_of_le below, done⟩

theorem Coherent.rests {gen : Nat} {helper : Helper} (coherent : Coherent gen helper)
    (acknowledged : gen ≤ helper.doneGen) : helper.Resting = true ∧ helper.lastGen = gen := by
  obtain ⟨last, progress⟩ := coherent
  obtain ⟨pc, lastGen, doneGen⟩ := helper
  cases pc <;> dsimp only at progress acknowledged last <;> first
    | exact ⟨rfl, by dsimp only; omega⟩
    | omega

theorem return_inv (inv : Inv s) {job : Job} {target helper : Nat} {rest : List Phase}
    (located : s.coord = .await job target helper rest)
    (last : ¬ (helper + 1 < job.workers ∧ helper < hs)) :
    Inv { s with returned := job :: s.returned, coord := .readActive rest } := by
  have h := inv.coord
  rw [located] at h
  obtain ⟨rfl, rfl, acknowledged⟩ := h
  have opened : s.coord.job =
      some ⟨s.workGen, s.currentPhase, s.activeWorkers⟩ := by rw [located]; rfl
  -- An acknowledged helper rests, with the current generation as its last one.
  have finished : ∀ id : Fin hs, id + 1 < s.activeWorkers →
      (s.helper id).Resting = true ∧ (s.helper id).lastGen = s.workGen ∧
        runsOf s.log id s.workGen = [⟨id, s.workGen, s.currentPhase⟩] := by
    intro id active
    have asked : id < helper := by
      by_contra later
      have := id.isLt
      exact last ⟨by dsimp only; omega, by omega⟩
    obtain ⟨resting, current⟩ := (inv.coherent id).rests (acknowledged id asked)
    have tracks := inv.tracks id
    unfold Tracks at tracks
    rw [if_pos active, opened] at tracks
    rcases (stage_resting resting).mp tracks with ⟨-, ran⟩ | ⟨behind, -⟩
    · exact ⟨resting, current, ran⟩
    · exact absurd current (Nat.ne_of_lt behind)
  have idle : ∀ id : Fin hs, ¬ id + 1 < s.activeWorkers →
      (s.helper id).Working = false ∧ runsOf s.log id s.workGen = [] := by
    intro id inactive
    have tracks := inv.tracks id
    unfold Tracks at tracks
    rw [if_neg inactive, opened] at tracks
    exact ⟨tracks.1, tracks.2 _ rfl⟩
  refine ⟨fun _ => inv.tick (by rw [located]; rfl), trivial, inv.coherent, fun id => ?_,
    inv.absent, inv.logged, fun job mem => ?_⟩
  · by_cases active : id + 1 < s.activeWorkers
    · obtain ⟨resting, current, -⟩ := finished id active
      exact (if_pos active).mpr (.inr ⟨resting, current⟩)
    · exact (if_neg active).mpr ⟨(idle id active).1, nofun⟩
  · rcases List.mem_cons.mp mem with rfl | earlier
    · refine ⟨Nat.le_refl _, fun absurd => (absurd rfl).elim, fun id => ?_⟩
      unfold expected
      split_ifs with active
      · exact (finished id active).2.2
      · exact (idle id active).2
    · obtain ⟨below, -, done⟩ := inv.returned job earlier
      exact ⟨below, fun absurd => (absurd rfl).elim, done⟩

theorem storeActive_inv (inv : Inv s) {wanted : Nat} (located : s.coord = .storeActive wanted)
    (caught : ∀ id : Fin hs, s.activeWorkers ≤ id + 1 → id + 1 < wanted →
      (s.helper id).CaughtUp s.workGen) :
    Inv { s with activeWorkers := wanted, coord := .leave } := by
  have closed : s.coord.job = none := by rw [located]; rfl
  refine ⟨fun _ => inv.tick (by rw [located]; rfl), trivial, inv.coherent, fun id => ?_,
    inv.absent, inv.logged, fun job mem => ?_⟩
  · have tracks := inv.tracks id
    unfold Tracks at tracks
    rw [closed] at tracks
    by_cases counted : id + 1 < s.activeWorkers
    · rw [if_pos counted] at tracks
      unfold Tracks
      split_ifs
      · exact tracks
      · exact ⟨working_of_resting tracks.resting, nofun⟩
    · rw [if_neg counted] at tracks
      unfold Tracks
      split_ifs with active
      · exact caught id (Nat.le_of_not_lt counted) active
      · exact ⟨tracks.1, nofun⟩
  · obtain ⟨below, -, done⟩ := inv.returned job mem
    exact ⟨below, fun absurd => (absurd rfl).elim, done⟩

theorem CoordOk.mono {pc : CoordPc} (h : CoordOk s pc)
    (gen : next.workGen = s.workGen) (phase : next.currentPhase = s.currentPhase)
    (active : next.activeWorkers = s.activeWorkers)
    (done : ∀ id, (s.helper id).doneGen ≤ (next.helper id).doneGen) : CoordOk next pc := by
  cases pc <;> simp only [CoordOk, gen, phase, active] at h ⊢
  case await job target helper rest =>
    obtain ⟨same, current, acknowledged⟩ := h
    exact ⟨same, current, fun id asked => Nat.le_trans (acknowledged id asked) (done id)⟩
  all_goals exact h

section Tracks

variable {job : Option Job} {active gen : Nat} {log : List (Execution hs)}
variable {old new : Helper}

section

variable (tracks : Tracks job active gen log id old)
include tracks

theorem Tracks.congr {j : List (Execution hs)}
    (same : ∀ gen, runsOf j id gen = runsOf log id gen) :
    Tracks job active gen j id old := by
  simpa only [Tracks, same] using tracks

theorem Tracks.rest (resting : old.Resting = true)
    (still : new.Resting = true) (last : new.lastGen = old.lastGen)
    (alive : old.pc ≠ .exited) : Tracks job active gen log id new := by
  unfold Tracks at tracks ⊢
  split_ifs at tracks ⊢
  · cases job with
    | none => exact .inr ⟨still, last.trans (tracks.resolve_left alive).2⟩
    | some job =>
      refine (stage_resting still).mpr ?_
      rw [last]
      exact (stage_resting resting).mp tracks
  · exact ⟨working_of_resting still, tracks.2⟩

theorem Tracks.busy (busy : old.Resting = false) (counted : id + 1 < active) :
    ∃ opened, job = some opened ∧ Stage opened (runsOf log id opened.gen) id old := by
  unfold Tracks at tracks
  rw [if_pos counted] at tracks
  cases job with
  | none =>
    have resting := tracks.resting
    rw [busy] at resting
    cases resting
  | some opened => exact ⟨opened, rfl, tracks⟩

/-- A busy helper moves on: it is enough to follow it inside an open dispatch, and to see that
a helper that does not count starts no phase. -/
theorem Tracks.follow (busy : old.Resting = false)
    (stage : id + 1 < active → ∀ opened, job = some opened →
      Stage opened (runsOf log id opened.gen) id old → Stage opened (runsOf log id opened.gen) id new)
    (idle : ¬ id + 1 < active → new.Working = false) : Tracks job active gen log id new := by
  by_cases counted : id + 1 < active
  · obtain ⟨opened, rfl, h⟩ := tracks.busy busy counted
    exact (if_pos counted).mpr (stage counted opened rfl h)
  · unfold Tracks at tracks
    rw [if_neg counted] at tracks
    exact (if_neg counted).mpr ⟨idle counted, tracks.2⟩

end

end Tracks

theorem Inv.advance (inv : Inv s) {helper : Helper} {created : Nat}
    {log : List (Execution hs)} (coherent : Coherent s.workGen helper)
    (tracks : Tracks s.coord.job s.activeWorkers s.workGen log id helper)
    (later : (s.helper id).doneGen ≤ helper.doneGen)
    (more : s.helpersCreated ≤ created) (there : id < created)
    (apart : ∀ j, j ≠ id → ∀ gen, runsOf log j gen = runsOf s.log j gen)
    (past : ∀ job ∈ s.returned, runsOf log id job.gen = runsOf s.log id job.gen)
    (logged : ∀ run ∈ log, run.gen ≤ s.workGen) :
    Inv { s.setHelper id helper with helpersCreated := created, log := log } := by
  have others : ∀ j, j ≠ id → (s.setHelper id helper).helper j = s.helper j :=
    fun j apart => Function.update_of_ne apart _ _
  have own : (s.setHelper id helper).helper id = helper := Function.update_self _ _ _
  refine ⟨inv.tick, ?_, fun j => ?_, fun j => ?_, fun j beyond => ?_, logged, fun job mem => ?_⟩
  · refine inv.coord.mono rfl rfl rfl fun j => ?_
    by_cases same : j = id
    · subst same
      exact Nat.le_trans later (Nat.le_of_eq (congrArg Helper.doneGen own.symm))
    · exact Nat.le_of_eq (congrArg Helper.doneGen (others j same).symm)
  · by_cases same : j = id
    · subst same
      rw [own]
      exact coherent
    · rw [others j same]
      exact inv.coherent j
  · by_cases same : j = id
    · subst same
      rw [own]
      exact tracks
    · rw [others j same]
      exact (inv.tracks j).congr (apart j same)
  · have different : j ≠ id := by
      rintro rfl
      exact Nat.lt_irrefl _ (Nat.lt_of_lt_of_le there beyond)
    rw [others j different]
    exact inv.absent j (Nat.le_trans more beyond)
  · obtain ⟨below, strictly, done⟩ := inv.returned job mem
    refine ⟨below, strictly, fun j => ?_⟩
    rw [← done j]
    by_cases same : j = id
    · subst same
      exact past job mem
    · exact apart j same job.gen

theorem Inv.setHelper (inv : Inv s) {helper : Helper} {created : Nat}
    (coherent : Coherent s.workGen helper)
    (tracks : Tracks s.coord.job s.activeWorkers s.workGen s.log id helper)
    (later : (s.helper id).doneGen ≤ helper.doneGen)
    (more : s.helpersCreated ≤ created) (there : id < created) :
    Inv { s.setHelper id helper with helpersCreated := created } :=
  inv.advance coherent tracks later more there (fun _ _ _ => rfl) (fun _ _ => rfl) inv.logged

theorem create_inv (inv : Inv s) {wanted : Nat} (located : s.coord = .create wanted)
    (room : s.helpersCreated < hs) :
    Inv { s.setHelper ⟨s.helpersCreated, room⟩ ⟨.test, 0,
        (s.helper ⟨s.helpersCreated, room⟩).doneGen⟩ with
      helpersCreated := s.helpersCreated + 1 } := by
  have missing := inv.absent ⟨s.helpersCreated, room⟩ (Nat.le_refl _)
  have closed : s.coord.job = none := by rw [located]; rfl
  have tracks := inv.tracks ⟨s.helpersCreated, room⟩
  rw [closed, missing] at tracks
  refine inv.setHelper ⟨Nat.zero_le _, ?_⟩ ?_ ?_ (Nat.le_succ _) (Nat.lt_succ_self _)
  · rw [missing]
  · rw [closed]
    unfold Tracks at tracks ⊢
    split_ifs at tracks ⊢ with active
    · rcases tracks with exited | ⟨-, current⟩
      · cases exited
      · exact .inr ⟨rfl, current⟩
    · exact ⟨rfl, nofun⟩
  · exact Nat.le_refl _

theorem Inv.goTo (inv : Inv s) {old pc : CoordPc} (located : s.coord = old)
    (ticking : old.ticking = true) (same : pc.job = old.job) (fact : CoordOk s pc) :
    Inv { s with coord := pc } := by
  subst located
  exact inv.proceed rfl rfl rfl rfl rfl rfl same (fun _ => inv.tick ticking)
    (fact.mono rfl rfl rfl fun _ => Nat.le_refl _)

theorem adaptStep_inv (inv : Inv s) {ch : Choice} (caught : RaisesCaughtUp s (.coord ch))
    (moved : adaptStep s ch s.coord = some next) : Inv next := by
  cases located : s.coord <;>
    simp only [adaptStep, located, reduceCtorEq, Option.some.injEq, RaisesCaughtUp] at moved caught
  case adapt =>
    subst moved
    exact inv.goTo located rfl rfl trivial
  case create wanted =>
    split_ifs at moved with new created
    · cases moved
      exact create_inv inv located new.2
    · cases moved
      exact inv.goTo located rfl rfl trivial
    · cases moved
      exact inv.goTo located rfl rfl trivial
  case storeActive wanted =>
    subst moved
    exact storeActive_inv inv located caught

theorem dispatchStep_inv (inv : Inv s) {ch : Choice} (caught : RaisesCaughtUp s (.coord ch))
    (moved : dispatchStep s s.coord = some next) : Inv next := by
  have h := inv.coord
  cases located : s.coord <;>
    simp only [dispatchStep, located, reduceCtorEq, Option.some.injEq, RaisesCaughtUp, CoordOk]
      at moved caught h
  case readActive todo =>
    cases todo with
    | nil =>
      cases moved
      exact inv.goTo located rfl rfl trivial
    | cons phase rest =>
      cases moved
      exact inv.goTo located rfl rfl rfl
  case readRunning workers phase rest =>
    split_ifs at moved
    · cases moved
      exact inv.goTo located rfl rfl h
    · cases moved
      exact inv.goTo located rfl rfl trivial
  case alone rest =>
    subst moved
    exact inv.goTo located rfl rfl trivial
  case storePhase workers phase rest =>
    subst moved
    refine inv.proceed rfl rfl rfl rfl rfl rfl (by rw [located]; rfl) ?_ ⟨h, rfl⟩
    exact fun _ => inv.tick (by rw [located]; rfl)
  case bump workers phase rest =>
    subst moved
    exact bump_inv inv located caught
  case ownPhase job rest =>
    subst moved
    exact inv.goTo located rfl rfl h
  case loadTarget job rest =>
    subst moved
    exact inv.goTo located rfl rfl ⟨h, rfl, fun id absurd => (Nat.not_lt_zero _ absurd).elim⟩
  case await job target helper rest =>
    split_ifs at moved with within acknowledged
    · cases moved
      refine inv.goTo located rfl rfl ⟨h.1, h.2.1, fun id asked => ?_⟩
      rcases Nat.lt_succ_iff_lt_or_eq.mp asked with earlier | same
      · exact h.2.2 id earlier
      · have here : id = ⟨helper, within.2⟩ := Fin.ext same
        rw [here]
        exact acknowledged
    · cases moved
      exact inv
    · cases moved
      exact return_inv inv located within

theorem Inv.around (inv : Inv s) {old pc : CoordPc} {inTick : Bool}
    (located : s.coord = old) (closed : old.job = none) (still : pc.job = none)
    (tick : pc.ticking = true → inTick = true) (fact : CoordOk s pc) :
    Inv { s with coord := pc, inTick := inTick } := by
  subst located
  exact inv.proceed rfl rfl rfl rfl rfl rfl (still.trans closed.symm) tick
    (fact.mono rfl rfl rfl fun _ => Nat.le_refl _)

theorem coordStep_inv (inv : Inv s) {ch : Choice}
    (caught : RaisesCaughtUp s (.coord ch)) (moved : coordStep s ch = some next) : Inv next := by
  have adapting : adaptStep s ch s.coord = some next → Inv next := adaptStep_inv inv caught
  have dispatching : dispatchStep s s.coord = some next → Inv next := dispatchStep_inv inv caught
  cases located : s.coord <;>
    simp only [coordStep, located, reduceCtorEq, Option.some.injEq] at moved adapting dispatching
  case loop =>
    subst moved
    refine inv.around located rfl ?_ ?_ ?_ <;> split <;> first | rfl | trivial | nofun
  case awake =>
    subst moved
    refine inv.around located rfl ?_ ?_ ?_ <;> split <;> first | rfl | trivial | nofun
  case enter =>
    subst moved
    exact inv.around located rfl rfl (fun _ => rfl) trivial
  case checkPaused =>
    split_ifs at moved
    · cases moved
      exact inv.goTo located rfl rfl trivial
    · cases moved
      exact inv.goTo located rfl rfl trivial
  case leave =>
    subst moved
    exact inv.around located rfl rfl nofun trivial
  all_goals first | exact adapting moved | exact dispatching moved

theorem readPhase_inv (inv : Inv s) {gen : Nat} (located : (s.helper id).pc = .readPhase gen)
    (there : id < s.helpersCreated) :
    Inv { s.setHelper id { s.helper id with
        pc := .executing gen s.currentPhase } with
      log := ⟨id, gen, s.currentPhase⟩ :: s.log } := by
  have tracks := inv.tracks id
  unfold Tracks at tracks
  split_ifs at tracks with active
  · cases found : s.coord.job with
    | none => simp [found, Helper.CaughtUp, Helper.Resting, located] at tracks
    | some job =>
      obtain ⟨rfl, -⟩ := inv.job_eq found
      simp only [found, Stage, located] at tracks
      obtain ⟨rfl, fresh⟩ := tracks
      have pre := inv.coherent id
      refine inv.advance ⟨pre.last, ?_⟩ ?_ (Nat.le_refl _) (Nat.le_refl _) there ?_ ?_ ?_
      · have progress := pre.progress
        simpa only [located] using progress
      · unfold Tracks
        rw [if_pos active, found]
        refine ⟨rfl, rfl, ?_⟩
        rw [runsOf_cons, if_pos ⟨rfl, rfl⟩, fresh]
      · intro j apart gen
        rw [runsOf_cons, if_neg fun same => apart same.1.symm]
      · intro job mem
        have earlier := (inv.returned job mem).2.1 (by simp [found])
        rw [runsOf_cons, if_neg fun same => Nat.ne_of_gt earlier same.2]
      · intro run mem
        rcases List.mem_cons.mp mem with rfl | old
        · exact Nat.le_refl _
        · exact inv.logged run old
  · simp [Helper.Working, located] at tracks

theorem helperStep_inv (inv : Inv s) (moved : helperStep s id = some next) : Inv next := by
  have there : id < s.helpersCreated := by
    by_contra beyond
    rw [helperStep, inv.absent id (Nat.le_of_not_lt beyond)] at moved
    cases moved
  have tracks := inv.tracks id
  obtain ⟨last, progress⟩ := inv.coherent id
  cases located : (s.helper id).pc <;>
    simp only [helperStep, located, reduceCtorEq, Option.some.injEq] at moved progress
  case readPhase gen =>
    subst moved
    exact readPhase_inv inv located there
  case test =>
    subst moved
    refine inv.setHelper ⟨last, ?_⟩ (tracks.rest ?_ ?_ rfl ?_) (Nat.le_refl _) (Nat.le_refl _) there
    · cases s.running <;> exact progress
    · simp [Helper.Resting, located]
    · cases s.running <;> rfl
    · simp [located]
  case park =>
    subst moved
    refine inv.setHelper ⟨last, progress⟩ (tracks.rest ?_ rfl rfl ?_) (Nat.le_refl _)
      (Nat.le_refl _) there
    · simp [Helper.Resting, located]
    · simp [located]
  case readGen =>
    have resting : (s.helper id).Resting = true := by simp [Helper.Resting, located]
    split_ifs at moved with current
    · cases moved
      refine inv.setHelper ⟨last, progress⟩ (tracks.rest resting rfl rfl ?_) (Nat.le_refl _)
        (Nat.le_refl _) there
      simp [located]
    · cases moved
      have behind : (s.helper id).lastGen < s.workGen := by omega
      refine inv.setHelper ⟨Nat.le_refl _, rfl, ?_⟩ ?_ (Nat.le_refl _) (Nat.le_refl _) there
      · dsimp only
        omega
      · -- Only an open dispatch has a generation the helper has not seen.
        unfold Tracks at tracks ⊢
        split_ifs at tracks ⊢ with active
        · cases found : s.coord.job with
          | none =>
            rw [found] at tracks
            rcases tracks with exited | ⟨-, same⟩
            · rw [located] at exited
              cases exited
            · exact absurd same (Nat.ne_of_lt behind)
          | some job =>
            obtain ⟨rfl, -⟩ := inv.job_eq found
            rw [found] at tracks
            rcases (stage_resting resting).mp tracks with ⟨same, -⟩ | ⟨-, fresh⟩
            · exact absurd same (Nat.ne_of_lt behind)
            · exact ⟨rfl, fresh⟩
        · exact ⟨rfl, tracks.2⟩
  case readActive gen =>
    subst moved
    refine inv.setHelper ⟨last, ?_⟩ (tracks.follow ?_ ?_ ?_) (Nat.le_refl _) (Nat.le_refl _) there
    · split_ifs <;> exact progress
    · simp [Helper.Resting, located]
    · intro counted job _ stage
      simpa only [Stage, located, counted, if_true] using stage
    · intro j
      simp [Helper.Working, j]
  case executing gen phase =>
    subst moved
    refine inv.setHelper ⟨last, progress⟩ (tracks.follow ?_ ?_ fun _ => rfl) (Nat.le_refl _)
      (Nat.le_refl _) there
    · simp [Helper.Resting, located]
    · intro _ job _ stage
      simp only [Stage, located] at stage ⊢
      exact ⟨stage.1, stage.2.2⟩
  case ack gen =>
    subst moved
    refine inv.setHelper ⟨last, progress.1⟩ (tracks.follow ?_ ?_ fun _ => rfl) ?_
      (Nat.le_refl _) there
    · simp [Helper.Resting, located]
    · intro _ job _ stage
      simp only [Stage, located] at stage ⊢
      exact .inl ⟨progress.1.symm.trans stage.1, stage.2⟩
    · dsimp only
      omega

theorem step_inv {event : Event hs} (inv : Inv s) (caught : RaisesCaughtUp s event)
    (moved : step s event = some next) : Inv next := by
  cases event with
  | stop | pause | resume =>
    cases moved
    exact ⟨inv.tick, inv.coord.mono rfl rfl rfl fun _ => Nat.le_refl _, inv.coherent, inv.tracks,
      inv.absent, inv.logged, inv.returned⟩
  | coord ch => exact coordStep_inv inv caught moved
  | helper id => exact helperStep_inv inv moved

theorem initial_inv (hs created workers : Nat) : Inv (initial hs created workers) := by
  have resting : ∀ id, ((initial hs created workers).helper id).Resting = true := by
    intro id
    simp only [initial, Helper.Resting]
    split_ifs <;> rfl
  refine ⟨nofun, trivial, fun id => ⟨Nat.le_refl _, ?_⟩, fun id => ?_, fun id beyond => ?_, nofun,
    nofun⟩
  · simp only [initial]
    split_ifs <;> trivial
  · unfold Tracks
    split_ifs
    · exact .inr ⟨resting id, rfl⟩
    · exact ⟨working_of_resting (resting id), nofun⟩
  · have missing : ¬ id.val < created := Nat.not_lt.mpr beyond
    simp [initial, missing]

end Invariant

section Runs

theorem phases_run_once {created workers : Nat} {events : List (Event helpers)} {s : State helpers}
    (caught : Along step RaisesCaughtUp (initial helpers created workers) events)
    (ran : exec step (initial helpers created workers) events = some s) : Disciplined s :=
  (invariant_of_along step_inv (initial_inv helpers created workers) caught ran).disciplined

def openDispatch : List (Event helpers) := List.replicate 8 (.coord { deferPhases := true })

def closeDispatch : List (Event helpers) := List.replicate 4 (.coord {})

def carryOut (id : Fin helpers) : List (Event helpers) := List.replicate 6 (.helper id)

def oneDispatch : List (Event 2) := openDispatch ++ carryOut 0 ++ closeDispatch

theorem phases_run_once_for_one_helper :
    ∃ s : State 2, exec step (initial 2 2 2) oneDispatch = some s ∧
      s.returned = [⟨1, .access, 2⟩] ∧ Disciplined s := by
  have caught : Along step RaisesCaughtUp (initial 2 2 2) oneDispatch := by decide
  have shown : (exec step (initial 2 2 2) oneDispatch).map State.returned =
      some [⟨1, .access, 2⟩] := by decide
  obtain ⟨s, ran, returned⟩ := Option.map_eq_some_iff.mp shown
  exact ⟨s, ran, returned, phases_run_once caught ran⟩

/-- Helper 1 does not count and has just read the generation when the tick ends and raises the
number of workers. -/
def raiseOverLaggard : List (Event 2) :=
  openDispatch ++ [.helper 1, .helper 1] ++ carryOut 0 ++ closeDispatch ++
    List.replicate 5 (.coord { wanted := 3 }) ++ [.helper 1, .helper 1]

theorem laggard_works_outside_tick : (exec step (initial 2 2 2) raiseOverLaggard).map
      (fun s => ((s.helper 1).pc, s.inTick, s.coord, s.returned)) =
      some (.executing 1 .access, false, .loop, [⟨1, .access, 2⟩]) := by
  decide

end Runs

end Smash.Dispatch
