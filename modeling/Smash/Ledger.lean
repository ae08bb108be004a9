import Smash.Program

/-! Accounts of what each thread of a pool holds. Rules say which calls a thread may make with
its account, which answers it can get and what its account is afterwards; `Follows` checks a
program against the rules by itself, without the shared state. When the rules are honest, that
is, when every performed call does to the shared state what it does to the accounts, state and
accounts agree in every run. -/
namespace Smash.Ledger

open Program Transition Function

structure Rules (Op : Type) (Answer : Op → Type) (Account : Type) where
  may : Op → Account → Prop
  possible : (op : Op) → Answer op → Account → Prop
  after : (op : Op) → Answer op → Account → Account

variable {Op : Type} {Answer : Op → Type} {Account Result Final : Type}

/-- The program makes no call it may not make, and ends with a result and an account in `post`. -/
def Follows (rules : Rules Op Answer Account) :
    Prog Op Answer Result → (Result → Account → Prop) → Account → Prop
  | .done r, post, acc => post r acc
  | .call op next, post, acc =>
    rules.may op acc ∧ ∀ ans, rules.possible op ans acc →
      Follows rules (next ans) post (rules.after op ans acc)

section Programs

variable {rules : Rules Op Answer Account} {acc : Account}
variable {front : Prog Op Answer Result} {next : Result → Prog Op Answer Final}
variable {post : Final → Account → Prop}

theorem Follows.mono {prog : Prog Op Answer Result} {post weaker : Result → Account → Prop}
    (follows : Follows rules prog post acc)
    (implied : ∀ r later, post r later → weaker r later) :
    Follows rules prog weaker acc := by
  induction prog generalizing acc with
  | done r => exact implied r acc follows
  | call op next ih =>
    exact ⟨follows.1, fun ans possible => ih ans (follows.2 ans possible)⟩

theorem follows_bind : Follows rules (front >>= next) post acc ↔
      Follows rules front (fun r later => Follows rules (next r) post later) acc := by
  induction front generalizing acc with
  | done r => exact Iff.rfl
  | call op rest ih =>
    refine and_congr Iff.rfl (forall_congr' fun ans => forall_congr' fun _ => ?_)
    exact ih ans

theorem Follows.andThen {middle : Result → Account → Prop}
    (first : Follows rules front middle acc)
    (further : ∀ r later, middle r later → Follows rules (next r) post later) :
    Follows rules (front >>= next) post acc :=
  follows_bind.mpr (first.mono further)

end Programs

section Runs

variable {Thread Choice State Entry Event : Type} [DecidableEq Thread]

/-- The rules say what the system does, for accounts that agree with the shared state; a thread
that starts or ends a program has an account in `idle`. -/
structure Honest (system : System Op Answer Thread Choice State Entry Event)
    (rules : Rules Op Answer Account) (agree : State → (Thread → Account) → Prop)
    (idle : Account → Prop) : Prop where
  performed : ∀ {state accounts tid op choice answer next}, agree state accounts →
    rules.may op (accounts tid) →
    system.perform tid op choice state = some (answer, next) →
    rules.possible op answer (accounts tid) ∧
      agree next (update accounts tid (rules.after op answer (accounts tid)))
  launched : ∀ {state accounts tid entry next prog}, agree state accounts →
    idle (accounts tid) → system.launch tid entry state = some (next, prog) →
    agree next accounts ∧ Follows rules prog (fun _ => idle) (accounts tid)
  happened : ∀ {state accounts event next}, agree state accounts →
    system.environment event state = some next → agree next accounts

/-- There are accounts the shared state agrees with and every thread follows the rules from. -/
def Balanced (rules : Rules Op Answer Account) (agree : State → (Thread → Account) → Prop)
    (idle : Account → Prop) (pool : Pool Op Answer Thread State) : Prop :=
  ∃ accounts, agree pool.shared accounts ∧
    ∀ t, Follows rules (pool.code t) (fun _ => idle) (accounts t)

variable {system : System Op Answer Thread Choice State Entry Event}
variable {rules : Rules Op Answer Account} {agree : State → (Thread → Account) → Prop}
variable {idle : Account → Prop} {pool next : Pool Op Answer Thread State}

theorem Balanced.replace {accounts : Thread → Account} {t : Thread} {acc : Account}
    {s' : State} {prog : Prog Op Answer Unit} (kept : agree s' (update accounts t acc))
    (follows : ∀ t, Follows rules (pool.code t) (fun _ => idle) (accounts t))
    (here : Follows rules prog (fun _ => idle) acc) :
    Balanced rules agree idle ⟨s', update pool.code t prog⟩ := by
  refine ⟨_, kept, fun j => ?_⟩
  by_cases same : j = t
  · subst same
    simpa using here
  · simpa [update_of_ne same] using follows j

theorem Balanced.step (honest : Honest system rules agree idle)
    {move : Move Thread Choice Entry Event} (bal : Balanced rules agree idle pool)
    (moved : step system pool move = some next) : Balanced rules agree idle next := by
  obtain ⟨accounts, agreed, follows⟩ := bal
  cases moved_of_step moved with
  | @advance t _ _ _ ans _ running ran =>
    have here := follows t
    rw [running] at here
    obtain ⟨possible, kept⟩ := honest.performed agreed here.1 ran
    exact Balanced.replace kept follows (here.2 ans possible)
  | @launch t _ _ _ _ resting launched =>
    have here := follows t
    rw [resting] at here
    obtain ⟨kept, started⟩ := honest.launched agreed here launched
    refine Balanced.replace ?_ follows started
    rw [update_eq_self]
    exact kept
  | event happened => exact ⟨accounts, honest.happened agreed happened, follows⟩

theorem Balanced.run (honest : Honest system rules agree idle)
    {moves : List (Move Thread Choice Entry Event)} (bal : Balanced rules agree idle pool)
    (ran : exec (Program.step system) pool moves = some next) : Balanced rules agree idle next :=
  invariant (fun h moved => h.step honest moved) bal ran

end Runs

end Smash.Ledger
