import Smash.InertCode
import Smash.Ledger

/-! Every function of the compressor gives back each page lock it takes, gives none back that it
does not hold, and marks a page COMPRESSING only under its lock. Outside standard mode's
snapshot it also never gives up the lock of a page it has marked. -/
namespace Smash.Compressor

open Program Prog PageMachine Ledger List
open Function (update update_self update_of_ne update_idem update_eq_self)

/-- What a thread has of a page: nothing, its lock, or its lock and the COMPRESSING mark. -/
inductive Hold where
  | none
  | locked
  | busy
  deriving DecidableEq

abbrev Account := Nat → Hold

def Hold.restate (s : PageState) (hold : Hold) : Hold :=
  if s = .compressing then .busy else if hold = .busy then .locked else hold

/-- A page marked COMPRESSING by its lock's holder is found so by the holder only. -/
def lockRules : Rules Op Answer Account where
  may
    | .page i .unlock, acc => acc i = .locked
    | .page i (.setState s), acc => s = .compressing → acc i ≠ .none
    | .page _ (.transition _ desired), _ => desired ≠ .compressing
    | _, _ => True
  possible
    | .page i .lock, _, acc => acc i = .none
    | .page i .tryLock, ans, acc => ans = true → acc i = .none
    | .page i .getState, ans, acc =>
      acc i = .locked → ans ≠ PageState.compressing
    | _, _, _ => True
  after
    | .page i .lock, _, acc => update acc i .locked
    | .page i .tryLock, true, acc => update acc i .locked
    | .page i .unlock, _, acc => update acc i .none
    | .page i (.setState s), _, acc =>
      update acc i ((acc i).restate s)
    | _, _, acc => acc

/-- The locks alone. Who has one may find the page in any state, and a mark leaves no trace, so a
marked page's lock may be given up, as standard mode's snapshot does. -/
def pairRules : Rules Op Answer Account where
  may
    | .page i .unlock, acc => acc i = .locked
    | _, _ => True
  possible
    | .page i .lock, _, acc => acc i = .none
    | .page i .tryLock, ans, acc => ans = true → acc i = .none
    | _, _, _ => True
  after
    | .page i .lock, _, acc => update acc i .locked
    | .page i .tryLock, true, acc => update acc i .locked
    | .page i .unlock, _, acc => update acc i .none
    | _, _, acc => acc

/-- Marks are watched or left out of the accounts. -/
def rulesFor : Bool → Rules Op Answer Account
  | true => lockRules
  | false => pairRules

abbrev Heeds {Result : Type} (w : Bool) (code : Code Result)
    (post : Result → Account → Prop) (acc : Account) : Prop :=
  Follows (rulesFor w) code post acc

def mark (w : Bool) : Hold := if w then .busy else .locked

def HeldBy (w : Bool) (hold : Hold) : Prop := hold = .locked ∨ hold = mark w

section Calls

variable {w : Bool} {acc later : Account} {i : Nat} {Result Final : Type}
variable {post : Final → Account → Prop}
variable {next : Bool → Code Final} {op : CellOp}

def plain : CellOp → Bool
  | .lock | .tryLock | .unlock | .getState | .setState _ | .transition _ _ => false
  | _ => true

theorem follows_plain {next : CellAnswer op → Code Final} (kind : plain op = true) :
    Heeds w (.call (.page i op) next) post acc ↔
      ∀ ans, Heeds w (next ans) post acc := by
  cases w <;> cases op <;> first
    | exact ⟨fun follows ans => follows.2 ans trivial,
        fun each => ⟨trivial, fun ans _ => each ans⟩⟩
    | cases kind

theorem follows_lock {next : Unit → Code Final} :
    Heeds w (.call (.page i .lock) next) post acc ↔ (acc i = .none →
        Heeds w (next ()) post (update acc i .locked)) := by
  cases w <;>
    exact ⟨fun follows missing => follows.2 () missing,
      fun each => ⟨trivial, fun _ missing => each missing⟩⟩

theorem follows_tryLock : Heeds w (.call (.page i .tryLock) next) post acc ↔
      (acc i = .none → Heeds w (next true) post (update acc i .locked)) ∧
      Heeds w (next false) post acc := by
  cases w <;>
  · constructor
    · exact fun follows => ⟨fun missing => follows.2 true fun _ => missing, follows.2 false nofun⟩
    · rintro ⟨taken, refused⟩
      refine ⟨trivial, fun ans possible => ?_⟩
      cases ans with
      | true => exact taken (possible rfl)
      | false => exact refused

theorem follows_unlock {next : Unit → Code Final} :
    Heeds w (.call (.page i .unlock) next) post acc ↔ acc i = .locked ∧
        Heeds w (next ()) post (update acc i .none) := by
  cases w <;>
    exact ⟨fun follows => ⟨follows.1, follows.2 () trivial⟩,
      fun both => ⟨both.1, fun _ _ => both.2⟩⟩

theorem follows_getState {next : PageState → Code Final}
    (each : ∀ s, Heeds w (next s) post acc) :
    Heeds w (.call (.page i .getState) next) post acc := by
  cases w <;> exact ⟨trivial, fun s _ => each s⟩

theorem follows_transition {expected desired : PageState} (rest : desired ≠ .compressing)
    (each : ∀ ans, Heeds w (next ans) post acc) :
    Heeds w (.call (.page i (.transition expected desired)) next) post acc := by
  cases w with
  | false => exact ⟨trivial, fun ans _ => each ans⟩
  | true => exact ⟨rest, fun ans _ => each ans⟩

def apart : Op → Bool
  | .page _ _ => false
  | _ => true

theorem follows_apart {op : Op} {next : Answer op → Code Final} (kind : apart op = true) :
    Heeds w (.call op next) post acc ↔ ∀ ans, Heeds w (next ans) post acc := by
  cases w <;> cases op <;> first
    | exact ⟨fun follows ans => follows.2 ans trivial,
        fun each => ⟨trivial, fun ans _ => each ans⟩⟩
    | cases kind

def Yields (w : Bool) (acc : Account) (code : Code Result) (later : Account) : Prop :=
  Heeds w code (fun _ reached => reached = later) acc

def Neutral (w : Bool) (code : Code Result) : Prop :=
  ∀ acc, Yields w acc code acc

theorem Yields.bind {front : Code Result} {next : Result → Code Final}
    (first : Yields w acc front later)
    (further : ∀ r, Heeds w (next r) post later) :
    Heeds w (front >>= next) post acc :=
  first.andThen fun r _ same => same ▸ further r

theorem Neutral.bind {front : Code Result} {next : Result → Code Final}
    (first : Neutral w front) (further : ∀ r, Heeds w (next r) post acc) :
    Heeds w (front >>= next) post acc :=
  (first acc).bind further

theorem Neutral.then {front : Code Result} {next : Result → Code Final}
    (first : Neutral w front)
    (further : ∀ r, Neutral w (next r)) : Neutral w (front >>= next) :=
  fun acc => first.bind fun r => further r acc

theorem neutral_pure (r : Result) : Neutral w (pure r) := fun _ => rfl

theorem neutral_on (kind : plain op = true) : Neutral w (on i op) :=
  fun _ => (follows_plain kind).mpr fun _ => rfl

theorem neutral_apart {op : Op} (kind : apart op = true) : Neutral w (Prog.act op : Code _) :=
  fun _ => (follows_apart kind).mpr fun _ => rfl

theorem neutral_ite {test : Prop} [Decidable test] {yes no : Code Result}
    (first : Neutral w yes) (second : Neutral w no) : Neutral w (if test then yes else no) := by
  split
  · exact first
  · exact second

theorem neutral_getState {next : PageState → Code Final} (further : ∀ s, Neutral w (next s)) :
    Neutral w (on i .getState >>= next) :=
  fun acc => follows_getState fun s => further s acc

theorem Inert.neutral {code : Code Result} (only : Inert code) : Neutral w code := by
  induction code with
  | done r => exact neutral_pure r
  | call op next ih =>
    have further : ∀ ans, Neutral w (next ans) := fun ans => ih ans (only.2 ans)
    cases op with
    | page i op =>
      by_cases looks : op = .getState
      · subst looks
        exact neutral_getState further
      · refine (neutral_on ?_).then further
        have kind := only.1
        cases op <;> first | rfl | (cases kind; done) | exact (looks rfl).elim
    | _ => exact (neutral_apart rfl).then further

end Calls

section Neutral

variable {w : Bool} {i : Nat}

theorem releaseBlob_neutral : Neutral w (releaseBlob i) := by
  refine (neutral_on rfl).then fun info => ?_
  split
  · exact neutral_pure ()
  · refine (neutral_on rfl).then fun tier => neutral_ite ?_ (neutral_on rfl)
    exact (neutral_on rfl).then fun _ => neutral_apart rfl

theorem storeUpgraded_neutral (cfg : Config) (bytes : Contents) :
    Neutral w (storeUpgraded cfg i bytes) := by
  refine (ensureSpillReady_inert cfg).neutral.then fun spill => neutral_ite ?_ (neutral_on rfl)
  refine (neutral_on rfl).then fun blob => ?_
  split
  · exact neutral_pure _
  · exact neutral_on rfl

theorem tagUpgraded_neutral (new : Blob) : Neutral w (tagUpgraded i new) :=
  neutral_ite ((neutral_on rfl).then fun _ => neutral_apart rfl) (neutral_on rfl)

theorem forPages_neutral {body : Nat → Code Unit} (each : ∀ i, Neutral w (body i))
    (pages : List Nat) : Neutral w (forPages pages body) := by
  induction pages with
  | nil => exact neutral_pure _
  | cons i rest ih => exact (each i).then fun _ => ih

end Neutral

section Marks

variable {w : Bool} {acc : Account} {i : Nat} {s : PageState}
variable {Result Final : Type}
variable {post : Final → Account → Prop}
variable {front : Code Result} {next : Result → Code Final} {yes no : Code Result}

def Releases (w : Bool) (i : Nat) (code : Code Result) : Prop :=
  ∀ acc : Account, acc i = .locked →
    Yields w acc code (update acc i .none)

theorem unlock_releases : Releases w i (on i .unlock) :=
  fun _ held => follows_unlock.mpr ⟨held, rfl⟩

theorem setState_same {next : Unit → Code Final} (rest : s ≠ .compressing)
    (unmarked : acc i ≠ .busy) (further : Heeds w (next ()) post acc) :
    Heeds w (on i (.setState s) >>= next) post acc := by
  cases w with
  | false => exact ⟨trivial, fun _ _ => further⟩
  | true =>
    have same : (acc i).restate s = acc i := by
      rw [Hold.restate, if_neg rest, if_neg unmarked]
    refine ⟨fun marks => absurd marks rest, fun _ _ => ?_⟩
    change Follows lockRules (next ()) post (update acc i ((acc i).restate s))
    rw [same, update_eq_self]
    exact further

theorem setState_unmarks {next : Unit → Code Final} (rest : s ≠ .compressing)
    (held : HeldBy w (acc i))
    (further : Heeds w (next ()) post (update acc i .locked)) :
    Heeds w (on i (.setState s) >>= next) post acc := by
  cases w with
  | false =>
    have locked : acc i = .locked := held.elim id id
    rw [← locked, update_eq_self] at further
    exact ⟨trivial, fun _ _ => further⟩
  | true =>
    have unmarked : (acc i).restate s = .locked := by
      rw [Hold.restate, if_neg rest]
      rcases held with locked | busy
      · rw [locked]
        rfl
      · rw [busy]
        rfl
    refine ⟨fun marks => absurd marks rest, fun _ _ => ?_⟩
    change Follows lockRules (next ()) post (update acc i ((acc i).restate s))
    rw [unmarked]
    exact further

theorem setState_marks {next : Unit → Code Final} (held : acc i = .locked)
    (further : Heeds w (next ()) post (update acc i (mark w))) :
    Heeds w (on i (.setState .compressing) >>= next) post acc := by
  cases w with
  | false =>
    rw [mark, if_neg Bool.false_ne_true, ← held, update_eq_self] at further
    exact ⟨trivial, fun _ _ => further⟩
  | true => exact ⟨fun _ => by rw [held]; decide, fun _ _ => further⟩

theorem held_mark : HeldBy w (update acc i (mark w) i) :=
  .inr (update_self ..)

theorem settle_yields (rest : s ≠ .compressing) (held : HeldBy w (acc i)) :
    Yields w acc (do on i (.setState s); on i .unlock)
      (update acc i .none) := by
  refine setState_unmarks rest held ?_
  refine follows_unlock.mpr ⟨update_self _ _ _, ?_⟩
  exact update_idem _ _ _

theorem abandon_yields (held : HeldBy w (acc i)) :
    Yields w acc (abandon i) (update acc i .none) :=
  settle_yields (by decide) held

theorem abandon_releases : Releases w i (abandon i) :=
  fun _ held => abandon_yields (.inl held)

theorem discardBlob_yields (held : acc i = .locked) :
    Yields w acc (discardBlob i) acc := by
  refine releaseBlob_neutral.bind fun _ => (neutral_on rfl).bind fun _ => ?_
  refine (neutral_on rfl).bind fun _ => ?_
  refine @setState_same w acc i .active Unit _ (fun r => .done r) (by decide) ?_ rfl
  rw [held]
  decide

theorem update_back (missing : acc i = .none) (hold : Hold) :
    update (update acc i hold) i .none = acc := by
  rw [update_idem, ← missing, update_eq_self]

theorem lock_neutral {code : Code Result} (releases : Releases w i code) :
    Neutral w (do on i .lock; code) := by
  intro acc
  refine follows_lock.mpr fun missing => ?_
  have ends := releases _ (update_self i .locked acc)
  rwa [update_back missing] at ends

theorem tryLock_neutral (releases : Releases w i yes) (refused : Neutral w no) :
    Neutral w (do if ← on i .tryLock then yes else no) := by
  intro acc
  refine follows_tryLock.mpr ⟨fun missing => ?_, refused acc⟩
  have ends := releases _ (update_self i .locked acc)
  rwa [update_back missing] at ends

theorem Neutral.releases
    (first : Neutral w front) (further : ∀ r, Releases w i (next r)) :
    Releases w i (front >>= next) :=
  fun acc held => first.bind fun r => further r acc held

theorem Releases.then
    (first : Releases w i front) (further : ∀ r, Neutral w (next r)) :
    Releases w i (front >>= next) :=
  fun acc held => (first acc held).bind fun r => further r _

theorem releases_ite {test : Prop} [Decidable test]
    (first : Releases w i yes) (second : Releases w i no) :
    Releases w i (if test then yes else no) := by
  split
  · exact first
  · exact second

theorem releases_getState {next : PageState → Code Result}
    (further : ∀ s, Releases w i (next s)) : Releases w i (on i .getState >>= next) :=
  fun acc held => follows_getState fun s => further s acc held

theorem unlock_then (r : Result) : Releases w i (do on i .unlock; pure r) :=
  unlock_releases.then fun _ => neutral_pure r

theorem abandon_then (r : Result) : Releases w i (do abandon i; pure r) :=
  abandon_releases.then fun _ => neutral_pure r

theorem discard_then (r : Result) :
    Releases w i (do discardBlob i; on i .unlock; pure r) :=
  fun acc held => (discardBlob_yields held).bind fun _ => unlock_then r acc held

end Marks

section Compress

variable {w : Bool} {cfg : Config} {acc : Account} {i : Nat}

/-- The deferred-mode snapshot keeps lock and mark, or gives both up. -/
theorem snapshotDeferred_follows (held : HeldBy w (acc i)) :
    Heeds w (snapshotDeferred cfg i)
      (fun r reached =>
        reached = if r.isSome then acc else update acc i .none)
      acc := by
  have zeroed : ∀ buf, Heeds w
      (do let zeroed ← zeroFreeSlots i buf; pure (some zeroed) : Code (Option Contents))
      (fun r reached =>
        reached = if r.isSome then acc else update acc i .none)
      acc := fun buf => (zeroFreeSlots_inert buf).neutral.bind fun _ => rfl
  refine (neutral_on rfl).bind fun _ => (neutral_on rfl).bind fun buf => ?_
  split
  · refine (neutral_on rfl).bind fun verify => ?_
    split
    · exact zeroed buf
    · exact (abandon_yields held).bind fun _ => rfl
  · exact zeroed buf

theorem checkStillCompressing_follows (locked : acc i = .locked) (buf : Contents) :
    Heeds w (checkStillCompressing i buf)
      (fun r reached =>
        reached = if r.isSome then acc else update acc i .none)
      acc := by
  refine (zeroFreeSlots_inert buf).neutral.bind fun zeroed => follows_getState fun s => ?_
  change Heeds w (if s = .compressing then pure (some zeroed) else (do
    on i .unlock
    pure none)) _ _
  split
  · exact rfl
  · exact (unlock_releases acc locked).bind fun _ => rfl

/-- The standard snapshot takes the lock again that it gives up, which only rules without marks
allow. -/
theorem snapshotStandard_follows (locked : acc i = .locked) :
    Heeds w (snapshotStandard cfg i)
      (fun r reached =>
        reached = if r.isSome then acc else update acc i .none)
      acc := by
  have again : update (update acc i .none) i .locked = acc := by
    rw [update_idem, ← locked, update_eq_self]
  have still := fun buf => @checkStillCompressing_follows w acc i locked buf
  refine follows_unlock.mpr ⟨locked, (neutral_on rfl).bind fun _ => ?_⟩
  refine follows_lock.mpr fun _ => ?_
  rw [again]
  refine follows_getState fun s => ?_
  change Heeds w (if s = .compressing then (do
    let buf ← on i .copy
    if cfg.snapshotVerify ∨ cfg.fixav then
      let verify ← on i .copy
      if samePage verify buf then checkStillCompressing i buf
      else
        let _ ← on i (.protect .readWrite)
        abandon i
        pure none
    else checkStillCompressing i buf) else (do
      let _ ← on i (.protect .readWrite)
      on i .unlock
      pure none)) _ _
  split
  · refine (neutral_on rfl).bind fun buf => ?_
    split
    · refine (neutral_on rfl).bind fun verify => ?_
      split
      · exact still buf
      · exact (neutral_on rfl).bind fun _ => (abandon_yields (.inl locked)).bind fun _ => rfl
    · exact still buf
  · exact (neutral_on rfl).bind fun _ => (unlock_releases acc locked).bind fun _ => rfl

theorem giveUp_yields (buf : Contents) (held : HeldBy w (acc i)) :
    Yields w acc (giveUp cfg i buf) (update acc i .none) := by
  unfold giveUp
  split
  · exact (abandon_yields held).bind fun _ => rfl
  · exact (reopen_inert buf).neutral.bind fun _ => (abandon_yields held).bind fun _ => rfl

theorem settled_yields {s : PageState} {rest : Code Bool} (j : s ≠ .compressing)
    (held : HeldBy w (acc i)) (releases : Releases w i rest) :
    Yields w acc (do on i (.setState s); rest)
      (update acc i .none) := by
  refine setState_unmarks j held ?_
  have ends := releases _ (update_self i .locked acc)
  rwa [update_idem] at ends

theorem publish_yields (buf : Contents) (pendingCount : Nat) (held : HeldBy w (acc i)) :
    Yields w acc (publish cfg i buf pendingCount) (update acc i .none) := by
  have fails : Yields w acc (do reopen i buf; abandon i; pure false : Code Bool)
      (update acc i .none) :=
    (reopen_inert buf).neutral.bind fun _ => (abandon_yields held).bind fun _ => rfl
  unfold publish
  split
  · refine settled_yields (by decide) held ?_
    refine releases_ite (unlock_then true) ((neutral_on rfl).releases fun _ => ?_)
    exact (protectOrRemap_inert .none).neutral.releases fun _ => unlock_then true
  · split
    · refine (protectOrRemap_inert .none).neutral.bind fun closed => ?_
      split
      · refine settled_yields (by decide) held ((neutral_on rfl).releases fun _ => ?_)
        exact unlock_then true
      · exact fails
    · split
      · refine settled_yields (by decide) held ((neutral_on rfl).releases fun _ => ?_)
        refine unlock_releases.then fun _ => neutral_getState fun s => ?_
        refine neutral_ite ?_ (neutral_pure true)
        exact (protectOrRemap_inert .none).neutral.then fun _ => neutral_pure true
      · refine (neutral_on rfl).bind fun _ => (protectOrRemap_inert .none).neutral.bind fun closed => ?_
        split
        · exact settled_yields (by decide) held (unlock_then true)
        · exact fails

theorem record_yields (buf : Contents) (info : CompressedPageInfo) (fast : Bool)
    (pendingCount : Nat) (held : HeldBy w (acc i)) :
    Yields w acc (record cfg i buf info fast pendingCount) (update acc i .none) := by
  unfold record
  refine (neutral_on rfl).bind fun _ => (neutral_on rfl).bind fun _ => ?_
  split
  · exact settled_yields (by decide) held (unlock_then true)
  · exact publish_yields buf pendingCount held

theorem compressSnapshot_yields (buf : Contents) (algo : CompressAlgo) (fast : Bool)
    (pendingCount : Nat) (held : HeldBy w (acc i)) :
    Yields w acc (compressSnapshot cfg i buf algo fast pendingCount)
      (update acc i .none) := by
  unfold compressSnapshot
  split
  · exact record_yields _ _ _ _ held
  · refine (runCodec_inert cfg algo fast).neutral.bind fun coded => ?_
    split
    · exact giveUp_yields buf held
    · refine (neutral_on rfl).bind fun stored => ?_
      split
      · exact giveUp_yields buf held
      · exact record_yields _ _ _ _ held

variable (may : w = true → cfg.deferred = true)

include may

theorem snapshot_follows (marked : acc i = mark w) :
    Heeds w (snapshot cfg i)
      (fun r reached =>
        reached = if r.isSome then acc else update acc i .none)
      acc := by
  unfold snapshot
  split
  · exact snapshotDeferred_follows (.inr marked)
  next standard =>
    apply snapshotStandard_follows
    cases w with
    | false => exact marked
    | true => exact absurd (may rfl) standard

theorem compressEligible_releases (pendingCount : Nat) :
    Releases w i (compressEligible cfg i pendingCount) := by
  intro acc locked
  refine setState_marks locked ?_
  have marked : update acc i (mark w) i = mark w := update_self _ _ _
  have closed : update (update acc i (mark w)) i .none = update acc i .none := update_idem _ _ _
  have gives : Yields w (update acc i (mark w))
      (do abandon i; pure false : Code Bool) (update acc i .none) :=
    (abandon_yields held_mark).bind fun _ => closed
  refine (neutral_apart rfl).bind fun wanted => ?_
  split
  · refine (neutral_apart rfl).bind fun profile => ?_
    split
    next => exact gives
    next algo fast =>
      refine (snapshot_follows may marked).andThen fun r reached same => ?_
      subst same
      cases r with
      | none => exact closed
      | some buf =>
        have ends := @compressSnapshot_yields w cfg _ i buf algo fast pendingCount
          (held_mark : HeldBy w (update acc i (mark w) i))
        rw [closed] at ends
        exact ends
  · exact gives

theorem compressPage_neutral (pendingCount : Nat) :
    Neutral w (compressPage cfg i pendingCount) := by
  have locked : Releases w i (compressLocked cfg i pendingCount) := releases_getState fun s =>
      releases_ite (compressEligible_releases may pendingCount) (unlock_then false)
  unfold compressPage
  split
  · exact tryLock_neutral locked (neutral_pure false)
  · exact lock_neutral locked

end Compress

section Ranges

variable {w : Bool} {account : Account} {idx : Nat}
variable {pages : List Nat} {rest : List Nat}

def lockedAll (account : Account) (pages : List Nat) : Account := fun idx =>
  if idx ∈ pages then .locked else account idx

/-- These pages are different ones, and the account has none of them. -/
structure Missing (account : Account) (pages : List Nat) : Prop where
  distinct : pages.Nodup
  none : ∀ idx ∈ pages, account idx = .none

theorem lockedAll_nil (account : Account) : lockedAll account [] = account := by
  funext idx
  simp [lockedAll]

theorem lockedAll_unlock (missing : Missing account (idx :: rest)) :
    update (lockedAll account (idx :: rest)) idx .none = lockedAll account rest := by
  have fresh := (nodup_cons.mp missing.distinct).1
  funext j
  by_cases same : j = idx
  · subst same
    simp [lockedAll, fresh, missing.none j mem_cons_self]
  · simp [lockedAll, same]

theorem lockedAll_lock (pages : List Nat) : update (lockedAll account pages) idx .locked =
      lockedAll account (pages ++ [idx]) := by
  funext j
  by_cases same : j = idx
  · subst same
    simp [lockedAll]
  · simp [lockedAll, same]

theorem Missing.tail (missing : Missing account (idx :: rest)) : Missing account rest :=
  ⟨(nodup_cons.mp missing.distinct).2,
    fun j mem => missing.none j (mem_cons_of_mem idx mem)⟩

theorem Missing.snoc (missing : Missing account pages)
    (free : lockedAll account pages idx = .none) : Missing account (pages ++ [idx]) := by
  have fresh : idx ∉ pages := fun mem => by simp [lockedAll, mem] at free
  have none : account idx = .none := by simpa [lockedAll, fresh] using free
  refine ⟨nodup_append.mpr ⟨missing.distinct, by simp, ?_⟩, ?_⟩
  · rintro first mem second same rfl
    rw [mem_singleton.mp same] at mem
    exact fresh mem
  · intro j mem
    rcases mem_append.mp mem with earlier | last
    · exact missing.none j earlier
    · rw [mem_singleton.mp last]
      exact none

theorem forPages_yields {body : Nat → Code Unit} (each : ∀ idx, Releases w idx (body idx))
    (missing : Missing account pages) :
    Yields w (lockedAll account pages) (forPages pages body) account := by
  induction pages with
  | nil => exact lockedAll_nil account
  | cons idx rest ih =>
    have first := each idx (lockedAll account (idx :: rest)) (by simp [lockedAll])
    rw [lockedAll_unlock missing] at first
    exact first.bind fun _ => ih missing.tail

theorem unlockAll_yields (missing : Missing account pages) :
    Yields w (lockedAll account pages) (unlockAll pages) account :=
  forPages_yields (fun _ => unlock_releases) missing

theorem lockOthers_follows (rest : List Nat) {locked : List Nat}
    (missing : Missing account locked) :
    Heeds w (lockOthers locked rest)
      (fun r reached =>
        if r then reached = lockedAll account (locked ++ rest) ∧
          Missing account (locked ++ rest)
        else reached = account)
      (lockedAll account locked) := by
  induction rest generalizing locked with
  | nil => exact ⟨by rw [append_nil], by rwa [append_nil]⟩
  | cons idx rest ih =>
    have back : Heeds w (do unlockAll locked; pure false : Code Bool) (fun r reached =>
          if r then reached = lockedAll account (locked ++ idx :: rest) ∧
            Missing account (locked ++ idx :: rest)
          else reached = account)
        (lockedAll account locked) :=
      (unlockAll_yields missing).bind fun _ => rfl
    refine follows_tryLock.mpr ⟨fun free => follows_getState fun s => ?_, back⟩
    change Heeds w (if s = .compressing ∨ s = .empty then
      (do on idx .unlock; unlockAll locked; pure false) else lockOthers (locked ++ [idx]) rest)
      _ _
    split
    · refine follows_unlock.mpr ⟨update_self _ _ _, ?_⟩
      rw [update_back free]
      exact back
    · rw [lockedAll_lock]
      have further := ih (missing.snoc free)
      rw [append_assoc, singleton_append] at further
      exact further

end Ranges

section Restore

variable {w : Bool} {cfg : Config} {i : Nat} {Result : Type}

theorem finalizeOther_releases (i : Nat) : Releases w i (finalizeOther i) := by
  refine releases_getState fun s => releases_ite ?_ (releases_ite ?_ unlock_releases)
  · refine (neutral_on rfl).releases fun _ acc held => ?_
    exact (discardBlob_yields held).bind fun _ => unlock_releases acc held
  · exact abandon_releases

theorem restoreRange_neutral (data : Option Contents) (lo hi : Nat) :
    Neutral w (restoreRange i data lo hi) := by
  intro acc
  have start : lockedAll acc [] = acc := lockedAll_nil acc
  have locks := @lockOthers_follows w acc (othersIn i lo hi) [] ⟨nodup_nil, nofun⟩
  rw [start] at locks
  refine locks.andThen fun r reached outcome => ?_
  cases r with
  | false => exact outcome
  | true =>
    obtain ⟨same, missing⟩ := outcome
    rw [nil_append] at same missing
    subst same
    change Heeds w (openRange i data lo hi >>= fun opened => if opened then
      (do forPages (othersIn i lo hi) finalizeOther; pure true) else
      (do unlockAll (othersIn i lo hi); pure false)) _ _
    refine (openRange_inert data lo hi).neutral.bind fun opened => ?_
    split
    · exact (forPages_yields finalizeOther_releases missing).bind fun _ => rfl
    · exact (unlockAll_yields missing).bind fun _ => rfl

theorem restoreWholeVma_neutral (data : Option Contents) :
    Neutral w (restoreWholeVma i data) := by
  refine (neutral_apart rfl).then fun whole => neutral_ite ?_ (neutral_pure _)
  exact (neutral_apart rfl).then fun bounds => restoreRange_neutral data _ _

theorem restoreNearCap_neutral (data : Option Contents) :
    Neutral w (restoreNearCap i data) := by
  refine neutral_getState fun s => neutral_ite ?_ (neutral_pure _)
  refine (neutral_apart rfl).then fun found => neutral_ite ?_ (neutral_pure _)
  refine (neutral_apart rfl).then fun bounds => neutral_ite (neutral_pure _) ?_
  exact restoreRange_neutral data _ _

theorem tryNearCap_neutral (data : Option Contents) : Neutral w (tryNearCap i data) :=
  (neutral_apart rfl).then fun _ => neutral_ite (restoreNearCap_neutral data) (neutral_pure _)

theorem makeResidentPageWritable_neutral : Neutral w (makeResidentPageWritable i) := by
  refine (tryNearCap_neutral none).then fun near => neutral_ite (neutral_pure _) ?_
  refine (neutral_on rfl).then fun opened => neutral_ite (neutral_pure _) ?_
  exact (neutral_apart rfl).then fun _ =>
    neutral_ite (restoreWholeVma_neutral none) (neutral_on rfl)

theorem restoreFaulted_neutral (bytes : Contents) : Neutral w (restoreFaulted i bytes) := by
  refine (tryNearCap_neutral _).then fun near => neutral_ite (neutral_pure _) ?_
  refine (restorePageContents_inert bytes).neutral.then fun restored =>
    neutral_ite (neutral_pure _) (restoreWholeVma_neutral _)

end Restore

section Fault

variable {w : Bool} {cfg : Config} {i : Nat}

theorem prefetchPage_neutral (j : Nat) : Neutral w (prefetchPage j) := by
  refine (neutral_apart rfl).then fun committed => neutral_ite ?_ (neutral_pure _)
  refine (neutral_apart rfl).then fun same => neutral_ite ?_ (neutral_pure _)
  refine tryLock_neutral ?_ (neutral_pure _)
  refine releases_getState fun s => (neutral_on rfl).releases fun info => ?_
  refine releases_ite ?_ unlock_releases
  refine (neutral_apart rfl).releases fun slot => releases_ite ?_ unlock_releases
  refine (neutral_on rfl).releases fun bytes => ?_
  refine (restorePageContents_inert bytes).neutral.releases fun restored => ?_
  refine releases_ite ?_ unlock_releases
  refine releaseBlob_neutral.releases fun _ => (neutral_on rfl).releases fun _ => ?_
  exact abandon_releases

theorem prefetchAdjacent_neutral : Neutral w (prefetchAdjacent cfg i) :=
  forPages_neutral prefetchPage_neutral _

theorem faultCompressed_releases : Releases w i (faultCompressed cfg i) := by
  refine (neutral_on rfl).releases fun pending => (neutral_on rfl).releases fun info => ?_
  refine (neutral_on rfl).releases fun bytes => ?_
  refine (restoreFaulted_neutral bytes).releases fun restored => releases_ite ?_ ?_
  · intro acc held
    refine (discardBlob_yields held).bind fun _ => ?_
    refine unlock_releases.then (fun _ => ?_) acc held
    exact prefetchAdjacent_neutral.then fun _ => neutral_pure true
  · exact releases_ite ((neutral_on rfl).releases fun _ => unlock_then true) (unlock_then true)

theorem faultCompressing_releases : Releases w i (faultCompressing i) :=
  commitOrRemap_inert.neutral.releases fun _ => abandon_then true

theorem faultMonitoring_releases : Releases w i (faultMonitoring i) :=
  makeResidentPageWritable_neutral.releases fun _ =>
    releases_ite (abandon_then true) (unlock_then true)

theorem faultActive_releases : Releases w i (faultActive i) :=
  makeResidentPageWritable_neutral.releases fun _ => unlock_then true

theorem faultShadow_releases : Releases w i (faultShadow i) :=
  (neutral_on rfl).releases fun _ => discard_then true

/-- The fault handler from the moment it has the page's lock on. -/
def faultLocked (cfg : Config) (i : Nat) : Code Bool := do
  match ← on i .getState with
  | .compressed => faultCompressed cfg i
  | .compressing => faultCompressing i
  | .activeMonitoring => faultMonitoring i
  | .active => faultActive i
  | .compressedShadow => faultShadow i
  | .empty =>
    on i .unlock
    pure false

theorem faultLocked_releases : Releases w i (faultLocked cfg i) := by
  refine releases_getState fun s => ?_
  cases s with
  | compressed => exact faultCompressed_releases
  | compressing => exact faultCompressing_releases
  | activeMonitoring => exact faultMonitoring_releases
  | active => exact faultActive_releases
  | compressedShadow => exact faultShadow_releases
  | empty => exact unlock_then false

theorem handleFault_neutral : Neutral w (handleFault cfg i) :=
  (neutral_on rfl).then fun _ => neutral_ite (neutral_pure _) (lock_neutral faultLocked_releases)

theorem releaseCompressedPage_neutral (i : Nat) : Neutral w (releaseCompressedPage i) := by
  refine lock_neutral ((neutral_on rfl).releases fun _ => releases_getState fun s => ?_)
  have empties : Releases w i (do on i (.setState .empty); on i .unlock) :=
    fun acc held => settle_yields (by decide) (.inl held)
  refine (neutral_on rfl).releases fun info => releases_ite ?_ empties
  exact releaseBlob_neutral.releases fun _ => (neutral_on rfl).releases fun _ => empties

end Fault

section Tick

variable {w : Bool} {cfg : Config} {i : Nat}

theorem reclaimMatching_releases : Releases w i (reclaimMatching cfg i) := by
  have settles : ∀ acc : Account, acc i = .locked → ∀ {post : Unit → Account → Prop}
      {next : Unit → Code Unit}, Heeds w (next ()) post acc →
      Heeds w (on i (.setState .compressed) >>= next) post acc :=
    fun acc held _ _ further => setState_same (by decide) (by rw [held]; decide) further
  refine releases_ite ?_ ?_
  · refine (neutral_on rfl).releases fun _ acc held => settles acc held ?_
    exact (neutral_on rfl).bind fun _ => unlock_releases acc held
  · refine (neutral_on rfl).releases fun _ => (neutral_on rfl).releases fun _ acc held => ?_
    exact settles acc held (unlock_releases acc held)

theorem reclaimMismatch_releases : Releases w i (reclaimMismatch i) := by
  refine releaseBlob_neutral.releases fun _ => (neutral_on rfl).releases fun _ => ?_
  refine (neutral_on rfl).releases fun _ => (neutral_on rfl).releases fun _ => ?_
  exact abandon_releases

theorem reclaimLocked_releases : Releases w i (reclaimLocked cfg i) := by
  have reopens : Releases w i (do let _ ← on i (.protect .readWrite); on i .unlock) :=
    (neutral_on rfl).releases fun _ => unlock_releases
  refine releases_getState fun s => releases_ite ?_ unlock_releases
  refine (neutral_on rfl).releases fun _ => releases_getState fun again => ?_
  refine releases_ite ?_ reopens
  refine (neutral_apart rfl).releases fun slot => releases_ite ?_ reopens
  refine (neutral_on rfl).releases fun info => (neutral_on rfl).releases fun bytes => ?_
  refine (neutral_on rfl).releases fun mem => ?_
  exact releases_ite reclaimMatching_releases reclaimMismatch_releases

theorem reclaimShadowPage_neutral : Neutral w (reclaimShadowPage cfg i) := by
  refine neutral_getState fun s => neutral_ite ?_ (neutral_pure _)
  refine (neutral_apart rfl).then fun aged => neutral_ite ?_ (neutral_pure _)
  exact tryLock_neutral reclaimLocked_releases (neutral_pure _)

theorem upgradeBlob_releases (info : CompressedPageInfo) (old : Blob) (target : CompressAlgo) :
    Releases w i (upgradeBlob cfg i info old target) := by
  intro acc locked
  refine setState_marks locked ?_
  have unmarked : ∀ {Final : Type} {post : Final → Account → Prop} {next : Unit → Code Final},
      Heeds w (next ()) post (update acc i .locked) →
      Heeds w (on i (.setState .compressed) >>= next) post
        (update acc i (mark w)) := fun further => by
    refine setState_unmarks (by decide) held_mark ?_
    rwa [update_idem]
  have closes : ∀ {Final : Type} {post : Final → Account → Prop} {next : Unit → Code Final},
      Heeds w (next ()) post (update acc i .none) →
      Heeds w (on i .unlock >>= next) post
        (update acc i .locked) := fun further => by
    refine follows_unlock.mpr ⟨update_self _ _ _, ?_⟩
    rwa [update_idem]
  refine (neutral_on rfl).bind fun bytes => (neutral_apart rfl).bind fun saves => ?_
  split
  · refine (storeUpgraded_neutral cfg bytes).bind fun stored => ?_
    split
    · refine (neutral_on rfl).bind fun _ => (tagUpgraded_neutral _).bind fun _ => unmarked ?_
      exact closes ((neutral_on rfl).bind fun _ => rfl)
    · exact unmarked (closes rfl)
  · exact unmarked ((neutral_on rfl).bind fun _ => closes rfl)

theorem recompressPage_neutral (target : CompressAlgo) :
    Neutral w (recompressPage cfg i target) := by
  have keeps : Releases w i (do on i (.setTier .deep); on i .unlock; pure false) :=
    (neutral_on rfl).releases fun _ => unlock_then false
  refine lock_neutral (releases_getState fun s => releases_ite ?_ (unlock_then false))
  refine (neutral_on rfl).releases fun info => ?_
  split
  · exact keeps
  · exact releases_ite keeps (upgradeBlob_releases info _ target)

theorem spillLocked_releases : Releases w i (spillLocked i) := by
  refine (neutral_on rfl).releases fun info => ?_
  split
  · exact unlock_releases
  · refine releases_ite unlock_releases ?_
    refine (neutral_on rfl).releases fun bytes => (neutral_on rfl).releases fun stored => ?_
    split
    · exact unlock_releases
    · refine (neutral_on rfl).releases fun _ => (neutral_on rfl).releases fun _ => ?_
      refine (neutral_apart rfl).releases fun _ => ?_
      exact unlock_releases.then fun _ => neutral_on rfl

theorem maybeSpillPage_neutral : Neutral w (maybeSpillPage i) := by
  refine (neutral_apart rfl).then fun ready => neutral_ite ?_ (neutral_pure _)
  refine tryLock_neutral ?_ (neutral_pure _)
  refine releases_getState fun s => (neutral_on rfl).releases fun tier => ?_
  exact releases_ite spillLocked_releases unlock_releases

theorem phase2Compressed_neutral (target : CompressAlgo) :
    Neutral w (phase2Compressed cfg i target) := by
  have upgrades : ∀ s tier, Neutral w (upgradeIfFast cfg i target s tier) :=
    fun _ _ => neutral_ite (recompressPage_neutral target) (neutral_pure _)
  refine neutral_getState fun s => (neutral_on rfl).then fun pre => ?_
  refine (upgrades s pre).then fun _ => (neutral_on rfl).then fun tier => ?_
  exact neutral_ite maybeSpillPage_neutral (neutral_pure _)

theorem escalateToDeepMonitoring_neutral : Neutral w (escalateToDeepMonitoring i) := by
  refine lock_neutral (releases_getState fun s => releases_ite ?_ unlock_releases)
  exact (neutral_on rfl).releases fun _ => unlock_releases

theorem flushPendingPage_neutral : Neutral w (flushPendingPage i) := by
  refine lock_neutral (releases_getState fun s => releases_ite ?_ unlock_releases)
  exact (neutral_on rfl).releases fun _ => unlock_releases

theorem revertMonitoring_neutral : Neutral w (revertMonitoring i) :=
  lock_neutral (releases_getState fun _ => releases_ite abandon_releases unlock_releases)

theorem phase3Page_neutral : Neutral w (phase3Page i) := by
  have flush : Neutral w (flushPhase3Page i) := by
    refine (neutral_apart rfl).then fun budget => neutral_ite ?_ revertMonitoring_neutral
    refine lock_neutral (releases_getState fun s => releases_ite ?_ unlock_releases)
    refine unlock_releases.then fun _ => (neutral_on rfl).then fun closed => ?_
    exact neutral_ite (neutral_pure _) revertMonitoring_neutral
  intro acc
  refine follows_transition (by decide) fun moved => ?_
  exact neutral_ite flush (neutral_pure _) acc

end Tick

section Sweep

variable {w : Bool} {acc : Account} {aged : Nat → Bool} {total first i : Nat}

theorem collectRun_follows (fuel : Nat) (ordered : first ≤ i)
    (missing : Missing acc (List.range' first (i - first))) :
    Heeds w (collectRun aged total fuel i) (fun last reached => first ≤ last ∧
        reached = lockedAll acc (List.range' first (last - first)) ∧
        Missing acc (List.range' first (last - first)))
      (lockedAll acc (List.range' first (i - first))) := by
  induction fuel generalizing i with
  | zero => exact ⟨ordered, rfl, missing⟩
  | succ fuel ih =>
    have stops : Heeds w (pure i : Code Nat) (fun last reached => first ≤ last ∧
          reached = lockedAll acc (List.range' first (last - first)) ∧
          Missing acc (List.range' first (last - first)))
        (lockedAll acc (List.range' first (i - first))) := ⟨ordered, rfl, missing⟩
    unfold collectRun
    split
    · refine (neutral_on rfl).bind fun queued => ?_
      split
      · refine follows_tryLock.mpr ⟨fun free => ?_, stops⟩
        have longer : List.range' first (i + 1 - first) = List.range' first (i - first) ++ [i] := by
          rw [Nat.succ_sub ordered, List.range'_concat, Nat.one_mul, Nat.add_sub_cancel' ordered]
        refine (neutral_on rfl).bind fun pending => follows_getState fun s => ?_
        change Heeds w (if pending ∧ s = .compressed then
          collectRun aged total fuel (i + 1) else (do
            let _ ← on i (.exchangePending false)
            on i .unlock
            pure i)) _ _
        split
        · rw [lockedAll_lock, ← longer]
          refine ih (Nat.le_succ_of_le ordered) ?_
          rw [longer]
          exact missing.snoc free
        · refine (neutral_on rfl).bind fun _ => ?_
          refine follows_unlock.mpr ⟨update_self _ _ _, ?_⟩
          rw [update_back free]
          exact stops
      · exact stops
    · exact stops

theorem sweepRun_yields (first count : Nat) (missing : Missing acc (List.range' first count)) :
    Yields w (lockedAll acc (List.range' first count)) (sweepRun first count) acc := by
  have clears : Neutral w (clearPending (List.range' first count)) :=
    forPages_neutral (fun _ => (neutral_on rfl).then fun _ => neutral_pure ()) _
  refine clears.bind fun _ => (closeRun_inert first count).neutral.bind fun _ => ?_
  exact (neutral_apart rfl).bind fun _ => unlockAll_yields missing

theorem sweepFrom_neutral (fuel i : Nat) : Neutral w (sweepFrom aged total fuel i) := by
  induction fuel generalizing i with
  | zero => exact neutral_pure _
  | succ fuel ih =>
    refine neutral_ite ?_ (neutral_pure _)
    refine (neutral_apart rfl).then fun budget => neutral_ite ?_ (neutral_pure _)
    refine (neutral_on rfl).then fun queued => neutral_ite ?_ (ih _)
    intro acc
    have collects := @collectRun_follows w acc aged total i i kSweepCoalesceMax
      (Nat.le_refl _) (by rw [Nat.sub_self]; exact ⟨nodup_nil, nofun⟩)
    rw [Nat.sub_self, List.range'_zero, lockedAll_nil] at collects
    refine collects.andThen fun last reached ⟨ordered, same, missing⟩ => ?_
    subst same
    split
    · exact (sweepRun_yields i _ missing).bind fun _ => ih last acc
    next stuck =>
      have none : last - i = 0 := by omega
      rw [none, List.range'_zero, lockedAll_nil]
      exact ih _ acc

theorem sweepDeferredMadvise_neutral (cfg : Config) :
    Neutral w (sweepDeferredMadvise cfg aged) :=
  neutral_ite ((neutral_apart rfl).then fun _ => sweepFrom_neutral _ _) (neutral_pure _)

end Sweep

section Spans

variable {w : Bool} {i : Nat}

theorem drainPage_neutral (i : Nat) : Neutral w (drainPage i) := by
  refine tryLock_neutral ?_ (neutral_pure _)
  refine releases_getState fun s => releases_ite ?_ (releases_ite ?_ unlock_releases)
  · have restores : ∀ bytes, Neutral w (restoreDrained i bytes) := fun bytes =>
      (restorePageContents_inert bytes).neutral.then fun _ =>
        neutral_ite (neutral_pure _) (restoreWholeVma_neutral _)
    refine (neutral_on rfl).releases fun info => (neutral_on rfl).releases fun bytes => ?_
    refine (restores bytes).releases fun restored => releases_ite ?_ unlock_releases
    refine (neutral_on rfl).releases fun _ acc held => ?_
    exact (discardBlob_yields held).bind fun _ => unlock_releases acc held
  · exact makeResidentPageWritable_neutral.releases fun _ =>
      releases_ite abandon_releases unlock_releases

theorem drainAllForShutdown_neutral (committed : Nat) : Neutral w (drainAllForShutdown committed) :=
  forPages_neutral drainPage_neutral _

/-- The span code sets page states without a lock; with no page marked it leaves no trace. -/
theorem setRange_yields {acc : Account} {s : PageState} (rest : s ≠ .compressing)
    (unmarked : ∀ i, acc i ≠ .busy) (pages : List Nat) :
    Yields w acc (setRange s pages) acc := by
  induction pages with
  | nil => exact rfl
  | cons i others ih => exact setState_same rest (unmarked i) ih

theorem handOverAll_neutral (owner : Owner) (pages : List Nat) :
    Neutral w (handOverAll owner pages) :=
  forPages_neutral (fun _ => neutral_on rfl) pages

theorem decommitAll_neutral (pages : List Nat) : Neutral w (decommitAll pages) :=
  forPages_neutral (fun _ => neutral_on rfl) pages

end Spans

end Smash.Compressor
