import Smash.Transition

/-! Programs as trees of calls on a shared state, run alone or interleaved call by call.
A call is performed by a partial function of the thread, the call, a choice (every outcome
the state does not fix) and the state; a call that is not enabled blocks. Interleaved
programs are verified thread by thread: `Safe` says that every call of a program keeps the
invariant and the thread's guarantee, whatever the other threads do between two calls. -/
namespace Smash.Program

open Function

variable {Op : Type} {Answer : Op → Type}

inductive Prog (Op : Type) (Answer : Op → Type) (Result : Type) where
  | done (result : Result)
  | call (op : Op) (next : Answer op → Prog Op Answer Result)

namespace Prog

variable {Result Final : Type}

def bind (front : Prog Op Answer Result) (next : Result → Prog Op Answer Final) :
    Prog Op Answer Final :=
  match front with
  | .done r => next r
  | .call op rest => .call op fun ans => (rest ans).bind next

instance : Monad (Prog Op Answer) where
  pure := .done
  bind := bind

def act (op : Op) : Prog Op Answer (Answer op) := .call op .done

@[simp] theorem pure_eq (r : Result) :
    (pure r : Prog Op Answer Result) = .done r := rfl

@[simp] theorem done_bind (r : Result) (next : Result → Prog Op Answer Final) :
    ((.done r : Prog Op Answer Result) >>= next) = next r := rfl

@[simp] theorem call_bind (op : Op) (rest : Answer op → Prog Op Answer Result)
    (next : Result → Prog Op Answer Final) : ((.call op rest : Prog Op Answer Result) >>= next) =
      .call op fun ans => rest ans >>= next := rfl

@[simp] theorem act_bind (op : Op) (next : Answer op → Prog Op Answer Final) :
    (act op >>= next) = .call op next := rfl

theorem bind_pure (prog : Prog Op Answer Result) : (prog >>= pure) = prog := by
  induction prog with
  | done r => rfl
  | call op next ih => exact congrArg (Prog.call op) (funext ih)

theorem bind_assoc {Last : Type} (prog : Prog Op Answer Result)
    (middle : Result → Prog Op Answer Final) (last : Final → Prog Op Answer Last) :
    (prog >>= middle >>= last) = (prog >>= fun r => middle r >>= last) := by
  induction prog with
  | done r => rfl
  | call op next ih => exact congrArg (Prog.call op) (funext ih)

def head? : Prog Op Answer Result → Option Op
  | .done _ => none
  | .call op _ => some op

/-- Every call the program can make, whatever it is answered, is of one kind. -/
def Only (kind : Op → Bool) : Prog Op Answer Result → Prop
  | .done _ => True
  | .call op next => kind op = true ∧ ∀ ans, Only kind (next ans)

section Only

variable {kind wider : Op → Bool}

theorem Only.pure (r : Result) : Only kind (pure r : Prog Op Answer Result) := trivial

theorem Only.act {op : Op} (may : kind op = true) :
    Only kind (act op : Prog Op Answer (Answer op)) :=
  ⟨may, fun _ => trivial⟩

theorem Only.bind {front : Prog Op Answer Result} {next : Result → Prog Op Answer Final}
    (first : Only kind front) (further : ∀ r, Only kind (next r)) :
    Only kind (front >>= next) := by
  induction front with
  | done r => exact further r
  | call op rest ih => exact ⟨first.1, fun ans => ih ans (first.2 ans)⟩

theorem Only.ite {test : Prop} [Decidable test] {yes no : Prog Op Answer Result}
    (first : Only kind yes) (second : Only kind no) : Only kind (if test then yes else no) := by
  split
  · exact first
  · exact second

theorem Only.mono {prog : Prog Op Answer Result} (only : Only kind prog)
    (implied : ∀ op, kind op = true → wider op = true) : Only wider prog := by
  induction prog with
  | done r => trivial
  | call op next ih => exact ⟨implied op only.1, fun ans => ih ans (only.2 ans)⟩

end Only

end Prog

section Alone

variable {Thread Choice State Result Final : Type}
variable (perform : Thread → (op : Op) → Choice → State → Option (Answer op × State))

/-- Run a program without interruption, one choice for each call. -/
def runAlone (t : Thread) : Prog Op Answer Result → State → List Choice →
    Option (Result × State × List Choice)
  | .done r, s, choices => some (r, s, choices)
  | .call _ _, _, [] => none
  | .call op next, s, ch :: rest =>
    match perform t op ch s with
    | none => none
    | some (ans, s') => runAlone t (next ans) s' rest

/-- Every uninterrupted run with allowed choices ends in `post`. -/
def Ensures (may : Op → Choice → Prop) (t : Thread) :
    Prog Op Answer Result → (Result → State → Prop) → State → Prop
  | .done r, post, s => post r s
  | .call op next, post, s =>
    ∀ ch ans s', may op ch →
      perform t op ch s = some (ans, s') →
      Ensures may t (next ans) post s'

/-- Every uninterrupted run with allowed choices passes through states with `always` only,
whether it ends or blocks, and ends in `post`. -/
def Meets (may : Op → Choice → Prop) (t : Thread) (always : State → Prop) :
    Prog Op Answer Result → (Result → State → Prop) → State → Prop
  | .done r, post, s => always s ∧ post r s
  | .call op next, post, s =>
    always s ∧ ∀ ch ans s', may op ch →
      perform t op ch s = some (ans, s') →
      Meets may t always (next ans) post s'

/-- Every uninterrupted run with allowed choices goes on until it ends, and ends in `post`. -/
def Delivers (may : Op → Choice → Prop) (t : Thread) :
    Prog Op Answer Result → (Result → State → Prop) → State → Prop
  | .done r, post, s => post r s
  | .call op next, post, s =>
    (∃ ch, may op ch ∧ perform t op ch s ≠ none) ∧
      ∀ ch ans s', may op ch →
        perform t op ch s = some (ans, s') →
        Delivers may t (next ans) post s'

variable {perform} {may : Op → Choice → Prop} {t : Thread}

theorem delivers_call {op : Op} {next : Answer op → Prog Op Answer Result}
    {post : Result → State → Prop} {s s' : State} {ans : Answer op}
    (enabled : ∃ ch, may op ch)
    (fixed : ∀ ch, may op ch → perform t op ch s = some (ans, s')) :
    Delivers perform may t (.call op next) post s ↔
      Delivers perform may t (next ans) post s' := by
  obtain ⟨ch, permitted⟩ := enabled
  constructor
  · rintro ⟨-, delivers⟩
    exact delivers ch ans s' permitted (fixed ch permitted)
  · intro delivers
    refine ⟨⟨ch, permitted, by simp [fixed ch permitted]⟩, ?_⟩
    intro j reply reached possible ran
    rw [fixed j possible] at ran
    cases ran
    exact delivers

/-- A run with fewer choices that is sure to end reaches a state the others reach too. -/
theorem Delivers.reaches {fewer : Op → Choice → Prop} {prog : Prog Op Answer Result}
    {post sure : Result → State → Prop} {s : State}
    (delivers : Delivers perform may t prog post s)
    (subset : ∀ op ch, fewer op ch → may op ch) (ends : Delivers perform fewer t prog sure s) :
    ∃ r s', post r s' ∧ sure r s' := by
  induction prog generalizing s with
  | done r => exact ⟨r, s, delivers, ends⟩
  | call op next ih =>
    obtain ⟨⟨ch, permitted, performs⟩, each⟩ := ends
    obtain ⟨⟨ans, s'⟩, ran⟩ := Option.ne_none_iff_exists'.mp performs
    exact ih ans (delivers.2 ch ans s' (subset op ch permitted) ran) (each ch ans s' permitted ran)

theorem delivers_bind {front : Prog Op Answer Result} {next : Result → Prog Op Answer Final}
    {post : Final → State → Prop} {s : State} : Delivers perform may t (front >>= next) post s ↔
      Delivers perform may t front
        (fun r s' => Delivers perform may t (next r) post s') s := by
  induction front generalizing s with
  | done r => exact Iff.rfl
  | call op rest ih =>
    refine and_congr Iff.rfl (forall_congr' fun ch => forall_congr' fun ans => ?_)
    refine forall_congr' fun s' => forall_congr' fun _ => forall_congr' fun _ => ?_
    exact ih ans

section Meets

variable {always : State → Prop} {s : State}
variable {post : Result → State → Prop} {prog : Prog Op Answer Result}

@[simp] theorem meets_done {r : Result} :
    Meets perform may t always (.done r : Prog Op Answer Result) post s ↔
      always s ∧ post r s :=
  Iff.rfl

theorem Meets.now (meets : Meets perform may t always prog post s) : always s := by
  cases prog with
  | done r => exact meets.1
  | call op next => exact meets.1

theorem meets_bind {front : Prog Op Answer Result} {next : Result → Prog Op Answer Final}
    {post : Final → State → Prop} : Meets perform may t always (front >>= next) post s ↔
      Meets perform may t always front
        (fun r s' => Meets perform may t always (next r) post s') s := by
  induction front generalizing s with
  | done r => exact ⟨fun meets => ⟨meets.now, meets⟩, fun meets => meets.2⟩
  | call op rest ih =>
    refine and_congr Iff.rfl (forall_congr' fun ch => forall_congr' fun ans => ?_)
    refine forall_congr' fun s' => forall_congr' fun _ => forall_congr' fun _ => ?_
    exact ih ans

theorem Meets.mono {post weaker : Result → State → Prop}
    (meets : Meets perform may t always prog post s)
    (implied : ∀ r s', always s' → post r s' → weaker r s') :
    Meets perform may t always prog weaker s := by
  induction prog generalizing s with
  | done r => exact ⟨meets.1, implied r s meets.1 meets.2⟩
  | call op next ih =>
    exact ⟨meets.1, fun ch ans s' permitted ran => ih ans (meets.2 ch ans s' permitted ran)⟩

/-- A call that the state and the allowed choices fix and that keeps `always` as it is. -/
theorem meets_call {op : Op} {next : Answer op → Prog Op Answer Result} {s' : State}
    {ans : Answer op} (enabled : ∃ ch, may op ch)
    (fixed : ∀ ch, may op ch → perform t op ch s = some (ans, s'))
    (kept : always s' → always s) : Meets perform may t always (.call op next) post s ↔
      Meets perform may t always (next ans) post s' := by
  constructor
  · rintro ⟨-, meets⟩
    obtain ⟨ch, permitted⟩ := enabled
    exact meets ch ans s' permitted (fixed ch permitted)
  · intro meets
    refine ⟨kept meets.now, fun ch j reached permitted ran => ?_⟩
    rw [fixed ch permitted] at ran
    cases ran
    exact meets

theorem ensures_iff_meets : Ensures perform may t prog post s ↔
      Meets perform may t (fun _ => True) prog post s := by
  induction prog generalizing s with
  | done r => exact (and_iff_right trivial).symm
  | call op next ih =>
    refine Iff.trans ?_ (and_iff_right trivial).symm
    refine forall_congr' fun ch => forall_congr' fun ans => forall_congr' fun s' => ?_
    exact forall_congr' fun _ => forall_congr' fun _ => ih ans

end Meets

theorem Ensures.bind {front : Prog Op Answer Result} {next : Result → Prog Op Answer Final}
    {post : Final → State → Prop} {s : State} (holds : Ensures perform may t front
      (fun r s' => Ensures perform may t (next r) post s') s) :
    Ensures perform may t (front >>= next) post s := by
  induction front generalizing s with
  | done r => exact holds
  | call op rest ih =>
    intro ch ans s' permitted ran
    exact ih ans (holds ch ans s' permitted ran)

theorem Ensures.mono {prog : Prog Op Answer Result} {post weaker : Result → State → Prop}
    {s : State} (holds : Ensures perform may t prog post s)
    (implied : ∀ r s', post r s' → weaker r s') :
    Ensures perform may t prog weaker s := by
  induction prog generalizing s with
  | done r => exact implied r s holds
  | call op rest ih =>
    intro ch ans s' permitted ran
    exact ih ans (holds ch ans s' permitted ran)

def Permitted (perform : Thread → (op : Op) → Choice → State → Option (Answer op × State))
    (may : Op → Choice → Prop) (t : Thread) : Prog Op Answer Result → State → List Choice → Prop
  | .done _, _, _ => True
  | .call _ _, _, [] => True
  | .call op next, s, ch :: rest =>
    may op ch ∧
      match perform t op ch s with
      | none => True
      | some (ans, s') => Permitted perform may t (next ans) s' rest

instance decidablePermitted
    {perform : Thread → (op : Op) → Choice → State → Option (Answer op × State)}
    {may : Op → Choice → Prop} [∀ op ch, Decidable (may op ch)] {t : Thread} :
    (prog : Prog Op Answer Result) → (s : State) → (choices : List Choice) →
      Decidable (Permitted perform may t prog s choices)
  | .done _, _, _ => isTrue (by simp [Permitted])
  | .call _ _, _, [] => isTrue (by simp [Permitted])
  | .call op next, s, ch :: rest =>
    match ran : perform t op ch s with
    | none => decidable_of_iff (may op ch) (by simp [Permitted, ran])
    | some (ans, s') =>
      have : Decidable (Permitted perform may t (next ans) s' rest) :=
        decidablePermitted (next ans) s' rest
      decidable_of_iff (may op ch ∧
        Permitted perform may t (next ans) s' rest)
        (by simp [Permitted, ran])

theorem Ensures.run {prog : Prog Op Answer Result} {post : Result → State → Prop}
    {s final : State} {choices rest : List Choice} {r : Result}
    (holds : Ensures perform may t prog post s)
    (permitted : Permitted perform may t prog s choices)
    (ran : runAlone perform t prog s choices = some (r, final, rest)) : post r final := by
  induction prog generalizing s choices with
  | done v =>
    cases ran
    exact holds
  | call op next ih =>
    cases choices with
    | nil => cases ran
    | cons ch others =>
      simp only [Permitted] at permitted
      obtain ⟨allowedHere, later⟩ := permitted
      simp only [runAlone] at ran
      cases performed : perform t op ch s with
      | none =>
        rw [performed] at ran
        cases ran
      | some pair =>
        obtain ⟨ans, s'⟩ := pair
        simp only [performed] at ran later
        exact ih ans (holds ch ans s' allowedHere performed) later ran

end Alone

section Pool

variable (Op Answer) in
/-- Threads run programs on one shared state; a finished program is an idle thread. -/
structure Pool (Thread State : Type) where
  shared : State
  code : Thread → Prog Op Answer Unit

inductive Move (Thread Choice Entry Event : Type) where
  | advance (tid : Thread) (choice : Choice)
  | launch (tid : Thread) (entry : Entry)
  | event (event : Event)

variable {Thread Choice State Entry Event : Type} [DecidableEq Thread]

/-- A system: how calls are performed, which programs an idle thread may start in which
state, and what the environment may do without a program. -/
structure System (Op : Type) (Answer : Op → Type) (Thread Choice State Entry Event : Type) where
  perform : Thread → (op : Op) → Choice → State → Option (Answer op × State)
  launch : Thread → Entry → State → Option (State × Prog Op Answer Unit)
  environment : Event → State → Option State

def step (system : System Op Answer Thread Choice State Entry Event)
    (pool : Pool Op Answer Thread State) :
    Move Thread Choice Entry Event → Option (Pool Op Answer Thread State)
  | .advance t ch =>
    match pool.code t with
    | .done _ => none
    | .call op next =>
      match system.perform t op ch pool.shared with
      | none => none
      | some (ans, s') =>
        some ⟨s', update pool.code t (next ans)⟩
  | .launch t entry =>
    match pool.code t with
    | .call _ _ => none
    | .done _ =>
      match system.launch t entry pool.shared with
      | none => none
      | some (s', prog) => some ⟨s', update pool.code t prog⟩
  | .event event =>
    match system.environment event pool.shared with
    | none => none
    | some s' => some { pool with shared := s' }

inductive Moved (system : System Op Answer Thread Choice State Entry Event)
    (pool : Pool Op Answer Thread State) :
    Move Thread Choice Entry Event → Pool Op Answer Thread State → Prop
  | advance {tid choice op rest answer after} (running : pool.code tid = .call op rest)
      (performed : system.perform tid op choice pool.shared = some (answer, after)) :
      Moved system pool (.advance tid choice)
        ⟨after, update pool.code tid (rest answer)⟩
  | launch {tid entry result after prog} (resting : pool.code tid = .done result)
      (launched : system.launch tid entry pool.shared = some (after, prog)) :
      Moved system pool (.launch tid entry) ⟨after, update pool.code tid prog⟩
  | event {event after} (happened : system.environment event pool.shared = some after) :
      Moved system pool (.event event) { pool with shared := after }

theorem moved_of_step {system : System Op Answer Thread Choice State Entry Event}
    {pool next : Pool Op Answer Thread State} {move : Move Thread Choice Entry Event}
    (moved : step system pool move = some next) : Moved system pool move next := by
  unfold step at moved
  split at moved
  · split at moved
    · cases moved
    next running =>
      split at moved <;> cases moved
      next ran => exact .advance running ran
  · split at moved
    · cases moved
    next resting =>
      split at moved <;> cases moved
      next launched => exact .launch resting launched
  · split at moved <;> cases moved
    next happened => exact .event happened

/-- The choice of an advancing thread is allowed for the call it performs, and an event is
admitted whatever calls the threads are about to make. -/
def Allows (may : Op → Choice → Prop) (admits : Event → Option Op → Prop)
    (pool : Pool Op Answer Thread State) : Move Thread Choice Entry Event → Prop
  | .advance t ch =>
    match pool.code t with
    | .done _ => True
    | .call op _ => may op ch
  | .launch _ _ => True
  | .event event => ∀ t, admits event (pool.code t).head?

end Pool

section Rely

variable {Thread Choice State Event Result Final : Type}
variable {before after : State} {prog : Prog Op Answer Result}

/-- What the threads' proofs share: the choices and events considered, the invariant, and
what a thread relies on about all the others while a call of its own is pending. -/
structure Contract (Op Thread Choice State Event : Type) where
  allowed : Op → Choice → Prop
  admits : Event → Option Op → Prop
  inv : State → Prop
  rely : Thread → Option Op → State → State → Prop
  rely_idle : ∀ {tid pending before after},
    rely tid pending before after → rely tid none before after

/-- A thread owes to the others what they rely on. -/
def Contract.guar (contract : Contract Op Thread Choice State Event) (actor : Thread)
    (before after : State) : Prop :=
  ∀ j pending, j ≠ actor → contract.rely j pending before after

variable (perform : Thread → (op : Op) → Choice → State → Option (Answer op × State))
variable (contract : Contract Op Thread Choice State Event)

/-- Each allowed call from here on keeps the invariant and the guarantee, under any
interference the thread relies on, and the program ends in `post`. -/
def Safe (t : Thread) : Prog Op Answer Result → (Result → State → Prop) → State → Prop
  | .done r, post, s => post r s
  | .call op next, post, s =>
    ∀ ch ans after, contract.allowed op ch →
      perform t op ch s = some (ans, after) →
      contract.inv after ∧ contract.guar t s after ∧
        ∀ later, contract.rely t (next ans).head? after later → contract.inv later →
          Safe t (next ans) post later

/-- `Safe` after any interference. -/
def Stable (t : Thread) (prog : Prog Op Answer Result) (post : Result → State → Prop)
    (s : State) : Prop :=
  ∀ later, contract.rely t prog.head? s later → contract.inv later →
    Safe perform contract t prog post later

variable {perform contract} {tid : Thread}

theorem Safe.mono {post weaker : Result → State → Prop}
    {s : State} (safe : Safe perform contract tid prog post s)
    (implied : ∀ r after, post r after → weaker r after) :
    Safe perform contract tid prog weaker s := by
  induction prog generalizing s with
  | done r => exact implied r s safe
  | call op next ih =>
    intro ch ans after may ran
    obtain ⟨kept, promised, further⟩ := safe ch ans after may ran
    exact ⟨kept, promised, fun later relied holds => ih ans (further later relied holds)⟩

/-- Interference between two programs is the interference met by a finished front. -/
theorem Contract.rely_bind {front : Prog Op Answer Result} {next : Result → Prog Op Answer Final}
    (relied : contract.rely tid (front >>= next).head? before after) :
    contract.rely tid front.head? before after := by
  cases front with
  | done r => exact contract.rely_idle relied
  | call op rest => exact relied

theorem Safe.bind {front : Prog Op Answer Result} {next : Result → Prog Op Answer Final}
    {post : Final → State → Prop} {s : State} (safe : Safe perform contract tid front
      (fun r after => Safe perform contract tid (next r) post after) s) :
    Safe perform contract tid (front >>= next) post s := by
  induction front generalizing s with
  | done r => exact safe
  | call op rest ih =>
    intro ch ans after may ran
    obtain ⟨kept, promised, further⟩ := safe ch ans after may ran
    exact ⟨kept, promised, fun later relied holds =>
      ih ans (further later (contract.rely_bind relied) holds)⟩

variable {Entry : Type}

/-- The rules of a system against which its threads are verified one by one. -/
structure Sound (system : System Op Answer Thread Choice State Entry Event)
    (contract : Contract Op Thread Choice State Event) (idle : Thread → State → Prop) : Prop where
  rely_refl : ∀ tid pending state, contract.rely tid pending state state
  rely_trans : ∀ {tid pending first second third}, contract.rely tid pending first second →
    contract.rely tid pending second third → contract.rely tid pending first third
  environment : ∀ {event before after}, contract.inv before →
    system.environment event before = some after →
    contract.inv after ∧ ∀ tid pending, contract.admits event pending →
      contract.rely tid pending before after
  launch : ∀ {tid entry before after prog}, contract.inv before → idle tid before →
    system.launch tid entry before = some (after, prog) →
    contract.inv after ∧ contract.guar tid before after ∧
      Stable system.perform contract tid prog (fun _ state => idle tid state) after

/-- The shared state keeps the invariant and every thread is safe from here on. -/
structure Valid (system : System Op Answer Thread Choice State Entry Event)
    (contract : Contract Op Thread Choice State Event) (idle : Thread → State → Prop)
    (pool : Pool Op Answer Thread State) : Prop where
  inv : contract.inv pool.shared
  safe : ∀ tid, Stable system.perform contract tid (pool.code tid)
    (fun _ state => idle tid state) pool.shared

variable {system : System Op Answer Thread Choice State Entry Event}
variable {idle : Thread → State → Prop} {pool next : Pool Op Answer Thread State}

theorem Stable.shift (sound : Sound system contract idle) {post : Result → State → Prop}
    (stable : Stable system.perform contract tid prog post before)
    (relied : contract.rely tid prog.head? before after) :
    Stable system.perform contract tid prog post after :=
  fun later further holds => stable later (sound.rely_trans relied further) holds

theorem Valid.now (sound : Sound system contract idle) (ok : Valid system contract idle pool)
    (tid : Thread) : Safe system.perform contract tid (pool.code tid)
      (fun _ s => idle tid s) pool.shared :=
  ok.safe tid pool.shared (sound.rely_refl _ _ _) ok.inv

variable [DecidableEq Thread]

theorem Valid.replace (sound : Sound system contract idle) (ok : Valid system contract idle pool)
    {actor : Thread} {after : State} {prog : Prog Op Answer Unit} (kept : contract.inv after)
    (promised : contract.guar actor pool.shared after)
    (further : Stable system.perform contract actor prog (fun _ s => idle actor s) after) :
    Valid system contract idle ⟨after, update pool.code actor prog⟩ := by
  refine ⟨kept, fun tid => ?_⟩
  by_cases same : tid = actor
  · subst same
    simpa using further
  · simp only [update_of_ne same]
    exact (ok.safe tid).shift sound (promised tid _ same)

theorem Valid.step (sound : Sound system contract idle) {move : Move Thread Choice Entry Event}
    (ok : Valid system contract idle pool)
    (permitted : Allows contract.allowed contract.admits pool move)
    (moved : step system pool move = some next) : Valid system contract idle next := by
  cases moved_of_step moved with
  | @advance tid ch _ _ ans after running ran =>
    have here := ok.now sound tid
    simp only [Allows, running] at permitted here
    obtain ⟨kept, promised, further⟩ := here ch ans after permitted ran
    exact ok.replace sound kept promised further
  | @launch tid _ _ _ _ resting launched =>
    have here := ok.now sound tid
    simp only [resting] at here
    obtain ⟨kept, promised, further⟩ := sound.launch ok.inv here launched
    exact ok.replace sound kept promised further
  | event happened =>
    obtain ⟨kept, relied⟩ := sound.environment ok.inv happened
    exact ⟨kept, fun tid => (ok.safe tid).shift sound (relied tid _ (permitted tid))⟩

/-- Every state of an admitted run satisfies the invariant. -/
theorem Valid.along (sound : Sound system contract idle)
    {moves : List (Move Thread Choice Entry Event)} (ok : Valid system contract idle pool)
    (permitted : Transition.Along (Program.step system)
      (Allows contract.allowed contract.admits) pool moves)
    (ran : Transition.exec (Program.step system) pool moves = some next) :
    Valid system contract idle next :=
  Transition.invariant_of_along
    (fun holds allowedHere moved => holds.step sound allowedHere moved) ok permitted ran

end Rely

end Smash.Program
