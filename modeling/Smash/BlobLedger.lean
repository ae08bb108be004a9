import Smash.InertCode
import Smash.PageAlone

/-! Who owns which blob: after every sequence of uninterrupted operations each stored blob is
the recorded blob of its page, and the spill counter counts the pages whose blob was spilled. -/
namespace Smash.Compressor

open Program Prog PageMachine Transition List

variable {tid : Thread} {idx : Nat} {sum : Int}
variable {Result Final : Type}

section Book

/-- The part of a page that blob ownership depends on. -/
structure Book where
  state : PageState
  info : CompressedPageInfo
  tier : Tier
  blobs : List Blob
  nextBlob : Nat
  damaged : Bool

def book (c : Cell) : Book where
  state := c.state
  info := c.info
  tier := c.tier
  blobs := c.blobs.map Prod.fst
  nextBlob := c.nextBlob
  damaged := c.damaged

def packed (s : PageState) : Prop := s = .compressed ∨ s = .compressedShadow

/-- The blobs stored for a page are exactly the one on record, which the tier tag describes. -/
structure Owned (book : Book) : Prop where
  recorded : book.info.data ≠ none → packed book.state
  stored : book.blobs = book.info.data.toList
  sentinel : book.info.data = none → book.info = {}
  tagged : ∀ blob, book.info.data = some blob → (blob.place = .spill ↔ book.tier = .spilled)
  numbered : ∀ blob ∈ book.blobs, blob.serial < book.nextBlob
  intact : book.damaged = false

structure Bare (book : Book) : Prop where
  info : book.info = {}
  blobs : book.blobs = []
  intact : book.damaged = false

variable {kept : Book}

theorem Bare.owned (bare : Bare kept) : Owned kept where
  recorded := fun absurd => (absurd (by rw [bare.info])).elim
  stored := by rw [bare.blobs, bare.info]; rfl
  sentinel := fun _ => bare.info
  tagged := fun blob found => by rw [bare.info] at found; cases found
  numbered := fun blob mem => by rw [bare.blobs] at mem; cases mem
  intact := bare.intact

theorem Owned.bare (owned : Owned kept) (missing : kept.info.data = none) : Bare kept where
  info := owned.sentinel missing
  blobs := by rw [owned.stored, missing]; rfl
  intact := owned.intact

theorem Owned.unpacked (owned : Owned kept) (loose : ¬ packed kept.state) : Bare kept :=
  owned.bare (Classical.byContradiction fun found => loose (owned.recorded found))

def share (info : CompressedPageInfo) : Int :=
  match info.data with
  | none => 0
  | some blob => if blob.place = .spill then 1 else 0

theorem spilledAt_share (c : Cell) : spilledAt c = share c.info := by
  unfold spilledAt isSpilled share
  cases c.info.data with
  | none => rfl
  | some blob => simp

def Keeps (sum : Int) (know : Book → Prop) (even : Int) (c : Cell) : Prop :=
  even = sum ∧ know (book c)

/-- A specification that says of every page what its book says. -/
abbrev Booked (tid : Thread) (frame : Nat → Book → Prop) (idx : Nat) (sum : Int)
    (know : Book → Prop) {Result : Type} :
    Code Result → (Result → Int → Cell → Prop) → Prop :=
  Alone KernelSucceeds tid (fun j c => frame j (book c)) idx (Keeps sum know)

end Book

variable {frame : Nat → Book → Prop}

section Calls

variable {know : Book → Prop} {post : Final → Int → Cell → Prop}
variable {next : Unit → Code Final} {op : CellOp}

def neutral : CellOp → Bool
  | .setState _ | .transition _ _ | .setInfo _ | .setTier _ | .store _ _ | .release _ _ => false
  | _ => true

theorem book_neutral {ch : Choice} {pre c' : Cell} {ans : CellAnswer op}
    (kind : neutral op = true) (stepped : cellStep tid op ch pre = some (ans, c')) :
    book c' = book pre := by
  cases op <;> simp only [neutral, Bool.false_eq_true] at kind <;>
    simp only [cellStep] at stepped <;> first
    | (cases stepped; rfl)
    | (split_ifs at stepped <;> cases stepped <;> rfl)

def bookless : Op → Bool
  | .page _ op => neutral op
  | .addSpilled _ => false
  | _ => true

theorem book_bookless {op : Op} {ch : Choice} {pre s' : Shared} {ans : Answer op}
    (kind : bookless op = true) (ran : perform tid op ch pre = some (ans, s')) :
    balance s' = balance pre ∧ ∀ idx, book (s'.page idx) = book (pre.page idx) := by
  suffices s'.pages = pre.pages ∧ s'.spilledCount = pre.spilledCount ∧
      ∀ idx, book (s'.page idx) = book (pre.page idx) from
    ⟨balance_info this.1 this.2.1 fun idx => congrArg Book.info (this.2.2 idx), this.2.2⟩
  cases op with
  | page idx op =>
    obtain ⟨inside, c, stepped, rfl⟩ := perform_page.mp ran
    refine ⟨rfl, rfl, fun j => ?_⟩
    by_cases here : j = idx
    · subst here
      simpa using book_neutral kind stepped
    · simp [Function.update_of_ne here]
  | range first count op =>
    simp only [perform] at ran
    split_ifs at ran
    cases ran
    refine ⟨rfl, rfl, fun j => ?_⟩
    simp only [Shared.setRange]
    cases op <;> simp only [rangeStep] <;> split_ifs <;> rfl
  | addSpilled delta => cases kind
  | ask question => cases ran; exact ⟨rfl, rfl, fun _ => rfl⟩
  | committedPages | profile | bounds idx =>
    simp only [perform] at ran
    split_ifs at ran <;> cases ran <;> exact ⟨rfl, rfl, fun _ => rfl⟩

theorem books_kept {may : Op → Choice → Prop} {prog : Code Result} (only : Only bookless prog)
    (s : Shared) : Ensures perform may tid prog (fun _ s' =>
      balance s' = balance s ∧ ∀ idx, book (s'.page idx) = book (s.page idx)) s := by
  induction prog generalizing s with
  | done r => exact ⟨rfl, fun _ => rfl⟩
  | call op next ih =>
    intro ch ans s' _ ran
    obtain ⟨even, same⟩ := book_bookless only.1 ran
    refine (ih ans (only.2 ans) s').mono fun _ last kept => ?_
    exact ⟨kept.1.trans even, fun idx => (kept.2 idx).trans (same idx)⟩

theorem Together.books {prog : Code Result} {know : Nat → Book → Prop} (only : Only bookless prog) :
    Together KernelSucceeds tid sum (fun j c => know j (book c)) prog
      fun _ j c => know j (book c) :=
  fun s even all => (books_kept only s).mono fun _ s' kept =>
    ⟨kept.1.trans even, fun j => by simpa only [kept.2 j] using all j⟩

theorem Alone.books {prog : Code Result} (only : Only bookless prog) :
    Booked tid frame idx sum know prog fun _ => Keeps sum know :=
  fun s apart h => (books_kept only s).mono fun _ s' kept =>
    ⟨fun j different => by simpa only [kept.2 j] using apart j different,
      kept.1.trans h.1, by rw [kept.2 idx]; exact h.2⟩

theorem Inert.bookless {prog : Code Result} (only : Inert prog) : Only bookless prog :=
  .mono only fun op kind => by
    rcases op with ⟨_, _ | _⟩ | _ | _ <;> first | rfl | cases kind

theorem Alone.neutral {next : CellAnswer op → Code Final} (kind : neutral op = true)
    (further : ∀ ans, Booked tid frame idx sum know (next ans) post) :
    Booked tid frame idx sum know (on idx op >>= next) post :=
  (Alone.books (.act (show bookless (.page idx op) = true from kind))).bind further

theorem Alone.asked {question : Question} {next : Bool → Code Final}
    (further : ∀ ans, Booked tid frame idx sum know (next ans) post) :
    Booked tid frame idx sum know (ask question >>= next) post :=
  (Alone.books (.act rfl)).bind further

theorem Alone.getState {next : PageState → Code Final}
    (further : ∀ s, Booked tid frame idx sum (fun kept => know kept ∧ kept.state = s)
      (next s) post) : Booked tid frame idx sum know (on idx .getState >>= next) post := by
  refine .step ?_ further
  rintro even pre ch ans s' ⟨same, h⟩ - stepped
  cases stepped
  exact ⟨rfl, same, h, rfl⟩

theorem Alone.getInfo {next : CompressedPageInfo → Code Final}
    (further : ∀ info, Booked tid frame idx sum (fun kept => know kept ∧ kept.info = info)
      (next info) post) : Booked tid frame idx sum know (on idx .getInfo >>= next) post := by
  refine .step ?_ further
  rintro even pre ch ans s' ⟨same, h⟩ - stepped
  cases stepped
  exact ⟨rfl, same, h, rfl⟩

theorem Alone.getTier {next : Tier → Code Final}
    (further : ∀ tier, Booked tid frame idx sum (fun kept => know kept ∧ kept.tier = tier)
      (next tier) post) : Booked tid frame idx sum know (on idx .getTier >>= next) post := by
  refine .step ?_ further
  rintro even pre ch ans s' ⟨same, h⟩ - stepped
  cases stepped
  exact ⟨rfl, same, h, rfl⟩

theorem Alone.setState (later : Book → Prop) {s : PageState}
    (changes : ∀ kept, know kept → later { kept with state := s })
    (further : Booked tid frame idx sum later (next ()) post) :
    Booked tid frame idx sum know (on idx (.setState s) >>= next) post := by
  refine .step ?_ fun _ => further
  rintro even pre ch ans s' ⟨same, h⟩ - stepped
  cases stepped
  exact ⟨rfl, same, changes _ h⟩

theorem Alone.setTier (later : Book → Prop) {tier : Tier}
    (changes : ∀ kept, know kept → later { kept with tier := tier })
    (further : Booked tid frame idx sum later (next ()) post) :
    Booked tid frame idx sum know (on idx (.setTier tier) >>= next) post := by
  refine .step ?_ fun _ => further
  rintro even pre ch ans s' ⟨same, h⟩ - stepped
  cases stepped
  exact ⟨rfl, same, changes _ h⟩

theorem Alone.setInfo (later : Book → Prop) (old : Int) {info : CompressedPageInfo}
    (shares : ∀ kept, know kept → share kept.info = old)
    (changes : ∀ kept, know kept → later { kept with info := info })
    (further : Booked tid frame idx (sum + old - share info) later (next ()) post) :
    Booked tid frame idx sum know (on idx (.setInfo info) >>= next) post := by
  refine .call ?_ fun _ => further
  rintro even pre ch ans s' ⟨same, h⟩ - stepped
  cases stepped
  refine ⟨?_, changes _ h⟩
  have before_share : share pre.info = old := shares _ h
  rw [spilledAt_share, spilledAt_share, before_share, same]

theorem Alone.counts {delta : Int}
    (further : Booked tid frame idx (sum + delta) know (next ()) post) :
    Booked tid frame idx sum know (addSpilled delta >>= next) post := by
  refine .counted (further.weaken ?_)
  rintro even c ⟨same, h⟩
  exact ⟨by omega, h⟩

theorem Alone.release (later : Book → Prop) {place : Place} {blob : Blob} {next : Unit → Code Final}
    (owns : ∀ kept, know kept → blob.place = place ∧ blob ∈ kept.blobs)
    (changes : ∀ kept, know kept → later { kept with blobs := kept.blobs.filter (· ≠ blob) })
    (further : Booked tid frame idx sum later (next ()) post) :
    Booked tid frame idx sum know (on idx (.release place blob) >>= next) post := by
  refine .step ?_ fun _ => further
  rintro even pre ch ans s' ⟨same, h⟩ - stepped
  have mine : blob.place = place ∧ blob ∈ pre.blobs.map Prod.fst := owns _ h
  simp only [cellStep] at stepped
  rw [if_pos mine] at stepped
  cases stepped
  refine ⟨rfl, same, ?_⟩
  have told := changes _ h
  simp only [book, filter_map, Function.comp_def] at told ⊢
  exact told

/-- The book after a store: unchanged, or with a new blob. -/
def Shelved (place : Place) (know : Book → Prop) : Option Blob → Book → Prop
  | none, kept => know kept
  | some new, kept => ∃ old, know old ∧ new = ⟨place, old.nextBlob⟩ ∧
      kept = { old with blobs := new :: old.blobs, nextBlob := old.nextBlob + 1 }

theorem Alone.store {place : Place} {bytes : Contents} {next : Option Blob → Code Final}
    (further : ∀ ans, Booked tid frame idx sum (Shelved place know ans) (next ans) post) :
    Booked tid frame idx sum know (on idx (.store place bytes) >>= next) post := by
  refine .step ?_ further
  rintro even pre ch ans s' ⟨same, h⟩ - stepped
  simp only [cellStep] at stepped
  split_ifs at stepped
  · cases stepped
    exact ⟨rfl, same, book pre, h, rfl, rfl⟩
  · cases stepped
    exact ⟨rfl, same, h⟩

end Calls

section Release

variable {post : Final → Int → Cell → Prop}

/-- The recorded blob is gone, and the counter is ahead of the record by its share. -/
def Drained (sum : Int) (even : Int) (c : Cell) : Prop :=
  even = sum - share c.info ∧ (book c).blobs = [] ∧ c.damaged = false

structure Spent (info : CompressedPageInfo) (kept : Book) : Prop where
  info : kept.info = info
  blobs : kept.blobs = []
  intact : kept.damaged = false

theorem Owned.spent {kept : Book} {blob : Blob} (owned : Owned kept)
    (found : kept.info.data = some blob) :
    blob ∈ kept.blobs ∧ Spent kept.info { kept with blobs := kept.blobs.filter (· ≠ blob) } := by
  have only : kept.blobs = [blob] := by rw [owned.stored, found]; rfl
  rw [only]
  exact ⟨mem_singleton_self blob, rfl, by simp, owned.intact⟩

theorem releaseBlob_ledger :
    Booked tid frame idx sum Owned (releaseBlob idx) fun _ => Drained sum := by
  refine .getInfo fun info => ?_
  cases found : info.data with
  | none =>
    refine .done ?_
    rintro even c ⟨same, owned, rfl⟩
    have bare := owned.bare found
    have nothing : share c.info = 0 := by rw [share, show c.info.data = none from found]
    exact ⟨by omega, bare.blobs, bare.intact⟩
  | some blob =>
    have s : share info = if blob.place = .spill then 1 else 0 := by rw [share, found]
    refine .getTier fun tier => .fact (blob.place = .spill ↔ tier = .spilled) ?_ fun tagged => ?_
    · rintro even c ⟨-, ⟨owned, rfl⟩, rfl⟩
      exact owned.tagged blob found
    by_cases spilled : tier = .spilled
    · rw [if_pos spilled]
      refine .release (Spent info) ?_ ?_ (.tail (.counts (.done ?_)))
      · rintro kept ⟨⟨owned, rfl⟩, -⟩
        exact ⟨tagged.mpr spilled, (owned.spent found).1⟩
      · rintro kept ⟨⟨owned, rfl⟩, -⟩
        exact (owned.spent found).2
      · rintro even c ⟨same, spent⟩
        rw [if_pos (tagged.mpr spilled), ← spent.info] at s
        have : share c.info = 1 := s
        exact ⟨by omega, spent.blobs, spent.intact⟩
    · rw [if_neg spilled]
      have place : blob.place ≠ .spill := fun same => spilled (tagged.mp same)
      refine .tail (.release (Spent info) ?_ ?_ (.done ?_))
      · rintro kept ⟨⟨owned, rfl⟩, -⟩
        exact ⟨by cases here : blob.place <;> simp_all, (owned.spent found).1⟩
      · rintro kept ⟨⟨owned, rfl⟩, -⟩
        exact (owned.spent found).2
      · rintro even c ⟨same, spent⟩
        rw [if_neg place, ← spent.info] at s
        have : share c.info = 0 := s
        exact ⟨by omega, spent.blobs, spent.intact⟩

theorem releaseRecord_ledger {next : Unit → Code Final}
    (further : Booked tid frame idx sum Bare (next ()) post) : Booked tid frame idx sum Owned
      (releaseBlob idx >>= fun _ => on idx (.setInfo {}) >>= next) post := by
  refine releaseBlob_ledger.bind fun _ => .call ?_ fun _ => further
  rintro even pre ch ans s' ⟨same, empty, intact⟩ - stepped
  cases stepped
  refine ⟨?_, rfl, empty, intact⟩
  rw [spilledAt_share, spilledAt_share, same]
  simp [share]

theorem discardBlob_ledger :
    Booked tid frame idx sum Owned (discardBlob idx) fun _ => Keeps sum Bare := by
  refine releaseRecord_ledger (.setTier Bare (fun kept bare => { bare with }) ?_)
  exact .tail (.setState Bare (fun kept bare => { bare with }) .stay)

theorem abandon_ledger : Booked tid frame idx sum Bare (abandon idx) fun _ => Keeps sum Owned :=
  .setState Bare (fun _ bare => { bare with }) (.tail (.neutral rfl fun _ =>
    .done fun _ _ h => ⟨h.1, h.2.owned⟩))

theorem unlock_ledger {know : Book → Prop} (keeps : ∀ kept, know kept → Owned kept)
    (r : Result) : Booked tid frame idx sum know
      (on idx .unlock >>= fun _ => pure r) fun _ => Keeps sum Owned :=
  .neutral rfl fun _ => .done fun _ _ h => ⟨h.1, keeps _ h.2⟩

end Release

section Compress

variable {cfg : Config}
variable {buf : Contents} {know : Book → Prop}

theorem snapshotDeferred_ledger :
    Booked tid frame idx sum Bare (snapshotDeferred cfg idx) fun taken => match taken with
        | none => Keeps sum Owned
        | some _ => Keeps sum Bare := by
  have zeroes : ∀ buf, Booked tid frame idx sum Bare
      (zeroFreeSlots idx buf >>= fun zeroed => pure (some zeroed)) fun taken => match taken with
        | none => Keeps sum Owned
        | some _ => Keeps sum Bare := fun buf =>
    (Alone.books (zeroFreeSlots_inert buf).bookless).bind fun _ => .done fun _ _ h => h
  refine .neutral rfl fun _ => .neutral rfl fun buf => ?_
  split_ifs
  · refine .neutral rfl fun verify => ?_
    split_ifs
    · exact zeroes buf
    · exact abandon_ledger.bind fun _ => .done fun _ _ h => h
  · exact zeroes buf

theorem record_ledger (mode : cfg.deferred = true) {info : CompressedPageInfo}
    {fast : Bool} {pendingCount : Nat} (blank : ∀ kept, know kept → share kept.info = 0)
    (fresh : share info = 0)
    (owns : ∀ kept, know kept → Owned { kept with
      state := .compressedShadow, info := info, tier := if fast then .fast else .deep }) :
    Booked tid frame idx sum know
      (record cfg idx buf info fast pendingCount) fun _ => Keeps sum Owned := by
  unfold record
  rw [if_pos mode]
  have even : sum + 0 - share info = sum := by omega
  refine .setInfo (fun kept => Owned { kept with
    state := .compressedShadow, tier := if fast then .fast else .deep }) 0 blank owns ?_
  rw [even]
  refine .setTier (fun kept => Owned { kept with state := .compressedShadow }) (fun _ h => h) ?_
  exact .setState Owned (fun _ h => h) (unlock_ledger (fun _ h => h) true)

theorem giveUp_ledger (mode : cfg.deferred = true) :
    Booked tid frame idx sum Bare (giveUp cfg idx buf) fun _ => Keeps sum Owned := by
  unfold giveUp
  rw [if_pos mode]
  exact abandon_ledger.bind fun _ => .stay

theorem compressSnapshot_ledger (mode : cfg.deferred = true) (buf : Contents)
    (algo : CompressAlgo) (fast : Bool) (pendingCount : Nat) : Booked tid frame idx sum Bare
      (compressSnapshot cfg idx buf algo fast pendingCount) fun _ => Keeps sum Owned := by
  unfold compressSnapshot
  split_ifs
  · exact record_ledger mode (fun _ bare => by rw [bare.info]; rfl) rfl fun _ bare =>
      Bare.owned ⟨rfl, bare.blobs, bare.intact⟩
  · refine (Alone.books (runCodec_inert cfg algo fast).bookless).bind fun coded => ?_
    rcases coded with _ | ⟨algo, fast⟩
    · exact giveUp_ledger mode
    · refine .store fun ans => ?_
      cases ans with
      | none => exact giveUp_ledger mode
      | some blob =>
        refine .fact (blob.place = .anonymous) ?_ fun place => ?_
        · rintro even c ⟨-, old, -, rfl, -⟩
          rfl
        refine record_ledger mode ?_ (by simp [share, place]) ?_
        · rintro kept ⟨old, bare, -, rfl⟩
          rw [bare.info]
          rfl
        · rintro kept ⟨old, bare, rfl, rfl⟩
          refine ⟨fun _ => .inr rfl, by simp [bare.blobs], nofun, ?_, ?_, bare.intact⟩
          · rintro blob same
            cases same
            cases fast <;> simp
          · rintro blob mem
            rw [show blob = ⟨.anonymous, old.nextBlob⟩ by simpa [bare.blobs] using mem]
            exact Nat.lt_succ_self _

theorem compressPage_ledger (mode : cfg.deferred = true) (pendingCount : Nat) :
    Booked tid frame idx sum Owned
      (compressPage cfg idx pendingCount) fun _ => Keeps sum Owned := by
  have quits : Booked tid frame idx sum Bare
      (abandon idx >>= fun _ => pure false) fun _ => Keeps sum Owned :=
    abandon_ledger.bind fun _ => .stay
  have eligible : Booked tid frame idx sum Bare
      (compressEligible cfg idx pendingCount) fun _ => Keeps sum Owned := by
    refine .setState Bare (fun _ bare => { bare with }) (.asked fun worth => ?_)
    split_ifs
    · refine (Alone.books (Only.act rfl)).bind fun profile => ?_
      rcases profile with _ | ⟨algo, fast⟩
      · exact quits
      · unfold snapshot
        simp only [mode, if_true]
        refine snapshotDeferred_ledger.bind fun taken => ?_
        cases taken with
        | none => exact .stay
        | some buf => exact compressSnapshot_ledger mode buf algo fast pendingCount
    · exact quits
  unfold compressPage
  rw [if_pos mode]
  refine .neutral rfl fun taken => ?_
  split_ifs
  · refine .getState fun s => ?_
    split_ifs with active
    · refine eligible.weaken fun even c h => ⟨h.1, h.2.1.unpacked ?_⟩
      rw [h.2.2]
      rcases active with rfl | rfl <;> simp [packed]
    · exact unlock_ledger (fun _ h => h.1) false
  · exact .stay

end Compress

section Reclaim

variable {cfg : Config}

theorem reclaimMatching_ledger : Booked tid frame idx sum Owned (reclaimMatching cfg idx)
      fun _ => Keeps sum Owned := by
  have recorded : ∀ kept, Owned kept → Owned { kept with state := .compressed } :=
    fun kept owned => { owned with recorded := fun _ => .inl rfl }
  have leaves : Booked tid frame idx sum Owned (on idx .unlock) fun _ => Keeps sum Owned :=
    .tail (unlock_ledger (fun _ h => h) ())
  unfold reclaimMatching
  split_ifs
  · exact .neutral rfl fun _ => .setState Owned recorded (.neutral rfl fun _ => leaves)
  · exact .neutral rfl fun _ => .neutral rfl fun _ => .setState Owned recorded leaves

theorem reclaimMismatch_ledger :
    Booked tid frame idx sum Owned (reclaimMismatch idx) fun _ => Keeps sum Owned := by
  refine releaseRecord_ledger (.setTier Bare (fun kept bare => { bare with }) ?_)
  exact .neutral rfl fun _ => abandon_ledger

theorem reclaimShadowPage_ledger : Booked tid frame idx sum Owned (reclaimShadowPage cfg idx)
      fun _ => Keeps sum Owned := by
  have leaves : Booked tid frame idx sum Owned (on idx .unlock) fun _ => Keeps sum Owned :=
    .tail (unlock_ledger (fun _ h => h) ())
  have stays : Booked tid frame idx sum Owned (pure ()) fun _ => Keeps sum Owned := .stay
  refine .neutral rfl fun s => ?_
  split_ifs
  swap; · exact stays
  refine .asked fun aged => ?_
  split_ifs
  swap; · exact stays
  refine .neutral rfl fun taken => ?_
  split_ifs
  swap; · exact stays
  refine .neutral rfl fun s => ?_
  split_ifs
  swap; · exact leaves
  refine .neutral rfl fun _ => .neutral rfl fun s => ?_
  split_ifs
  swap; · exact .neutral rfl fun _ => leaves
  refine .asked fun slot => ?_
  split_ifs
  swap; · exact .neutral rfl fun _ => leaves
  refine .neutral rfl fun info => .neutral rfl fun bytes => .neutral rfl fun mem => ?_
  split_ifs
  · exact reclaimMatching_ledger
  · exact reclaimMismatch_ledger

end Reclaim

section Fault

variable {cfg : Config}
variable {know : Book → Prop} {prog : Code Result}

def Orderly (c : Cell) : Prop := Owned (book c)

theorem finalizeOther_ledger :
    Booked tid frame idx sum Owned (finalizeOther idx) fun _ => Keeps sum Owned := by
  have leaves : ∀ {know : Book → Prop}, (∀ kept, know kept → Owned kept) →
      Booked tid frame idx sum know (on idx .unlock)
        fun _ => Keeps sum Owned := fun keeps => .tail (unlock_ledger keeps ())
  refine .getState fun s => ?_
  split_ifs with held monitored
  · refine .neutral rfl fun _ => ?_
    exact (discardBlob_ledger.weaken fun _ _ h => ⟨h.1, h.2.1⟩).bind fun _ =>
      leaves fun _ bare => bare.owned
  · refine .setState Bare (fun kept h => ?_) (leaves fun _ bare => bare.owned)
    have bare := h.1.unpacked (by rw [h.2, monitored]; simp [packed])
    exact { bare with }
  · exact leaves fun _ h => h.1

section Restore

/-- What is known of the page that faulted, and of every other page that its book is in order. -/
def Beside (idx : Nat) (know : Book → Prop) (j : Nat) (kept : Book) : Prop :=
  (j = idx → know kept) ∧ (j ≠ idx → Owned kept)

abbrev Restoring (tid : Thread) (sum : Int) (idx : Nat) (know : Book → Prop)
    (prog : Code Result) : Prop :=
  Together KernelSucceeds tid sum (fun j c => Beside idx know j (book c)) prog
    fun _ j c => Beside idx know j (book c)

theorem forPages_together {know : Nat → Cell → Prop} {pages : List Nat} {body : Nat → Code Unit}
    (each : ∀ page ∈ pages, Together KernelSucceeds tid sum know (body page) fun _ => know) :
    Together KernelSucceeds tid sum know (forPages pages body) fun _ => know := by
  induction pages with
  | nil => exact .stay
  | cons page rest ih =>
    exact (each page (mem_cons_self ..)).bind fun _ =>
      ih fun j mem => each j (mem_cons_of_mem _ mem)

theorem unlockAll_bookless (pages : List Nat) : Only bookless (unlockAll pages) := by
  induction pages with
  | nil => exact .pure ()
  | cons page rest ih => exact (Only.act rfl).bind fun _ => ih

theorem lockOthers_bookless (locked rest : List Nat) : Only bookless (lockOthers locked rest) := by
  have stops := (unlockAll_bookless locked).bind fun _ => .pure false
  induction rest generalizing locked with
  | nil => exact .pure true
  | cons page rest ih =>
    refine (Only.act rfl).bind fun taken => .ite ?_ stops
    refine (Only.act rfl).bind fun s => .ite ?_ (ih _ ?_)
    · exact (Only.act rfl).bind fun _ => stops
    · exact (unlockAll_bookless _).bind fun _ => .pure false

theorem restoreRange_ledger (data : Option Contents) (lo hi : Nat) :
    Restoring tid sum idx know (restoreRange idx data lo hi) := by
  refine (Together.books (lockOthers_bookless _ _)).bind fun locked => ?_
  split_ifs
  · refine (Together.books (openRange_inert data lo hi).bookless).bind fun opened => ?_
    split_ifs
    · refine (forPages_together fun page mem => ?_).bind fun _ => .stay
      have apart : page ≠ idx := by simpa using (mem_filter.mp mem).2
      refine .within (fun c => ⟨fun h => h.2 apart, fun owned => ?_⟩) finalizeOther_ledger
      exact ⟨fun same => (apart same).elim, fun _ => owned⟩
    · exact (Together.books (unlockAll_bookless _)).bind fun _ => .stay
  · exact .stay

theorem restoreWholeVma_ledger (data : Option Contents) :
    Restoring tid sum idx know (restoreWholeVma idx data) := by
  refine (Together.books (.act rfl)).bind fun found => ?_
  split_ifs
  · exact (Together.books (.act rfl)).bind fun bounds => restoreRange_ledger data _ _
  · exact .stay

theorem tryNearCap_ledger (data : Option Contents) :
    Restoring tid sum idx know (tryNearCap idx data) := by
  refine (Together.books (.act rfl)).bind fun near => ?_
  split_ifs
  swap; · exact .stay
  refine (Together.books (.act rfl)).bind fun s => ?_
  split_ifs
  swap; · exact .stay
  refine (Together.books (.act rfl)).bind fun found => ?_
  split_ifs
  swap; · exact .stay
  refine (Together.books (.act rfl)).bind fun bounds => ?_
  split_ifs
  · exact .stay
  · exact restoreRange_ledger data _ _

theorem Alone.restoring (spec : Restoring tid sum idx know prog) :
    Booked tid (fun _ => Owned) idx sum know prog fun _ => Keeps sum know :=
  Together.alone spec

end Restore

def InOrder (tid : Thread) (sum : Int) (prog : Code Result) : Prop :=
  Together KernelSucceeds tid sum (fun _ => Orderly) prog fun _ _ => Orderly

theorem InOrder.of_alone (idx : Nat)
    (spec : Booked tid (fun _ => Owned) idx sum Owned prog fun _ => Keeps sum Owned) :
    InOrder tid sum prog :=
  .within (fun _ => Iff.rfl) spec

theorem InOrder.alone (order : InOrder tid sum prog) :
    Booked tid (fun _ => Owned) idx sum Owned prog fun _ => Keeps sum Owned := by
  refine Together.alone ((order.weaken ?_).post ?_)
  · intro j c h
    by_cases same : j = idx
    · exact h.1 same
    · exact h.2 same
  · exact fun _ j c h => ⟨fun _ => h, fun _ => h⟩

theorem prefetchPage_inOrder (page : Nat) : InOrder tid sum (prefetchPage page) := by
  refine .of_alone page ?_
  have leaves : ∀ {know : Book → Prop}, (∀ kept, know kept → Owned kept) →
      Booked tid (fun _ => Owned) page sum know (on page .unlock)
        fun _ => Keeps sum Owned := fun keeps => .tail (unlock_ledger keeps ())
  have stays : Booked tid (fun _ => Owned) page sum Owned (pure ())
      fun _ => Keeps sum Owned := .stay
  refine (Alone.books (Only.act rfl)).bind fun committed => ?_
  split_ifs
  swap; · exact stays
  refine .asked fun same => ?_
  split_ifs
  swap; · exact stays
  refine .neutral rfl fun taken => ?_
  split_ifs
  swap; · exact stays
  refine .neutral rfl fun s => .neutral rfl fun info => ?_
  split_ifs
  swap; · exact leaves fun _ h => h
  refine .asked fun slot => ?_
  split_ifs
  swap; · exact leaves fun _ h => h
  refine .neutral rfl fun bytes =>
    (Alone.books (restorePageContents_inert bytes).bookless).bind fun restored => ?_
  split_ifs
  · exact releaseRecord_ledger (.setState Bare (fun _ bare => { bare with })
      (leaves fun _ bare => bare.owned))
  · exact leaves fun _ h => h

theorem prefetchAdjacent_inOrder : InOrder tid sum (prefetchAdjacent cfg idx) :=
  forPages_together fun page _ => prefetchPage_inOrder page

theorem restoreFaulted_ledger (bytes : Contents) : Booked tid (fun _ => Owned) idx sum know
      (restoreFaulted idx bytes) fun _ => Keeps sum know := by
  refine (Alone.restoring (tryNearCap_ledger _)).bind fun near => ?_
  split_ifs
  · exact .stay
  · refine (Alone.books (restorePageContents_inert bytes).bookless).bind fun restored => ?_
    split_ifs
    · exact .stay
    · exact .restoring (restoreWholeVma_ledger _)

theorem makeResidentPageWritable_ledger : Booked tid (fun _ => Owned) idx sum know
      (makeResidentPageWritable idx) fun _ => Keeps sum know := by
  refine (Alone.restoring (tryNearCap_ledger _)).bind fun near => ?_
  split_ifs
  · exact .stay
  · refine .neutral rfl fun opened => ?_
    split_ifs
    · exact .stay
    · refine .asked fun lacking => ?_
      split_ifs
      · exact .restoring (restoreWholeVma_ledger _)
      · exact .books (.act rfl)

theorem handleFault_inOrder : InOrder tid sum (handleFault cfg idx) := by
  refine .of_alone idx ?_
  have leaves : ∀ {know : Book → Prop} (r : Bool), (∀ kept, know kept → Owned kept) →
      Booked tid (fun _ => Owned) idx sum know
        (on idx .unlock >>= fun _ => pure r) fun _ => Keeps sum Owned :=
    fun r keeps => unlock_ledger keeps r
  have quits : Booked tid (fun _ => Owned) idx sum Bare
      (abandon idx >>= fun _ => pure true) fun _ => Keeps sum Owned :=
    abandon_ledger.bind fun _ => .stay
  have loose : ∀ {s : PageState}, ¬ packed s → ∀ even c,
      Keeps sum (fun kept => Owned kept ∧ kept.state = s) even c →
      Keeps sum Bare even c := fun unpacked even c h =>
    ⟨h.1, h.2.1.unpacked (by rw [h.2.2]; exact unpacked)⟩
  refine .neutral rfl fun reentered => ?_
  split_ifs
  · exact .stay
  refine .neutral rfl fun _ => .getState fun s => ?_
  cases s with
  | compressed =>
    refine .weaken (?_ : Alone KernelSucceeds tid _ idx (Keeps sum Owned) _ _)
      fun _ _ h => ⟨h.1, h.2.1⟩
    refine .neutral rfl fun wasPending => .neutral rfl fun info =>
      .neutral rfl fun bytes => (restoreFaulted_ledger bytes).bind fun restored => ?_
    split_ifs
    · exact discardBlob_ledger.bind fun _ => .neutral rfl fun _ =>
        (prefetchAdjacent_inOrder.alone.weaken fun _ _ h => ⟨h.1, h.2.owned⟩).bind
          fun _ => .stay
    · exact .neutral rfl fun _ => leaves true fun _ h => h
    · exact leaves true fun _ h => h
  | compressing =>
    have commits : Booked tid (fun _ => Owned) idx sum Bare (commitOrRemap idx)
        fun _ => Keeps sum Bare := .books commitOrRemap_inert.bookless
    exact (commits.bind fun _ => quits).weaken (loose (by simp [packed]))
  | activeMonitoring =>
    refine .weaken (?_ : Alone KernelSucceeds tid _ idx (Keeps sum Bare) _ _)
      (loose (by simp [packed]))
    refine makeResidentPageWritable_ledger.bind fun writable => ?_
    split_ifs
    · exact quits
    · exact leaves true fun _ bare => bare.owned
  | active =>
    refine .weaken (?_ : Alone KernelSucceeds tid _ idx (Keeps sum Bare) _ _)
      (loose (by simp [packed]))
    exact makeResidentPageWritable_ledger.bind fun _ => leaves true fun _ bare => bare.owned
  | compressedShadow =>
    refine .weaken (?_ : Alone KernelSucceeds tid _ idx (Keeps sum Owned) _ _)
      fun _ _ h => ⟨h.1, h.2.1⟩
    exact .neutral rfl fun _ => discardBlob_ledger.bind fun _ =>
      leaves true fun _ bare => bare.owned
  | empty => exact leaves false fun _ h => h.1

theorem releaseCompressedPage_inOrder (page : Nat) :
    InOrder tid sum (releaseCompressedPage page) := by
  refine .of_alone page ?_
  have leaves : Booked tid (fun _ => Owned) page sum Bare
      (on page (.setState .empty) >>= fun _ => on page .unlock) fun _ => Keeps sum Owned :=
    .setState Bare (fun _ bare => { bare with })
      (.tail (unlock_ledger (fun _ bare => bare.owned) ()))
  refine .neutral rfl fun _ => .neutral rfl fun _ => .getState fun s => .getInfo fun info => ?_
  split_ifs with held
  · exact (releaseRecord_ledger leaves).weaken fun _ _ h => ⟨h.1, h.2.1.1⟩
  · refine leaves.weaken ?_
    rintro even c ⟨same, ⟨owned, rfl⟩, rfl⟩
    refine ⟨same, owned.bare ?_⟩
    by_contra found
    exact held ⟨owned.recorded found, Option.isSome_iff_ne_none.mpr found⟩

end Fault

section Tiers

variable {cfg : Config}
variable {info : CompressedPageInfo} {kept : Book} {old new : Blob} {place : Place}
variable {target : CompressAlgo}

/-- Two blobs are stored: the new one, and the recorded one that it replaces. -/
structure Replaced (old new : Blob) (kept : Book) : Prop where
  blobs : kept.blobs = [new, old]
  apart : new ≠ old
  place : old.place = .anonymous
  numbered : new.serial < kept.nextBlob
  intact : kept.damaged = false

/-- The new blob is on record and tagged as what it is; the old one is still stored. -/
structure Swapped (old new : Blob) (kept : Book) : Prop extends Replaced old new kept where
  state : kept.state = .compressed
  recorded : kept.info.data = some new
  tagged : new.place = .spill ↔ kept.tier = .spilled

theorem Swapped.settle (swapped : Swapped old new kept) :
    Owned { kept with blobs := kept.blobs.filter (· ≠ old) } := by
  have left : kept.blobs.filter (· ≠ old) = [new] := by simp [swapped.blobs, swapped.apart]
  refine ⟨fun _ => .inl swapped.state, ?_, ?_, ?_, ?_, swapped.intact⟩
  · simp only [left, swapped.recorded]
    rfl
  · intro missing
    rw [swapped.recorded] at missing
    cases missing
  · intro blob same
    rw [swapped.recorded] at same
    cases same
    exact swapped.tagged
  · intro blob mem
    rw [left] at mem
    rw [mem_singleton.mp mem]
    exact swapped.numbered

theorem Owned.replaced {old : Blob} (owned : Owned kept)
    (found : kept.info.data = some old) (anonymous : old.place = .anonymous) (s : PageState) :
    Replaced old ⟨place, kept.nextBlob⟩ { kept with
      state := s
      blobs := ⟨place, kept.nextBlob⟩ :: kept.blobs
      nextBlob := kept.nextBlob + 1 } := by
  have only : kept.blobs = [old] := by rw [owned.stored, found]; rfl
  have older : old.serial < kept.nextBlob := owned.numbered old (by simp [only])
  refine ⟨by simp [only], ?_, anonymous, Nat.lt_succ_self _, owned.intact⟩
  rintro rfl
  exact Nat.lt_irrefl _ older

theorem share_some (blob : Blob) (algo : CompressAlgo) :
    share ⟨some blob, algo⟩ = if blob.place = .spill then 1 else 0 := rfl

def Pending (info : CompressedPageInfo) (old new : Blob) (kept : Book) : Prop :=
  Replaced old new kept ∧ kept.info = info

theorem releaseOld_ledger (old new : Blob) (r : Result) :
    Booked tid frame idx sum (Swapped old new)
      (on idx .unlock >>= fun _ => on idx (.release .anonymous old) >>= fun _ => pure r)
      fun _ => Keeps sum Owned := by
  refine .neutral rfl fun _ => .release Owned (fun kept swapped => ?_)
    (fun kept swapped => swapped.settle) .stay
  exact ⟨swapped.place, by simp [swapped.blobs]⟩

/-- The new blob is on record; the tier tag still describes the old one. -/
def Untagged (old new : Blob) (kept : Book) : Prop :=
  Replaced old new kept ∧ kept.info.data = some new

theorem tagUpgraded_ledger :
    Booked tid frame idx (sum + 0 - share ⟨some new, target⟩) (Untagged old new)
      (tagUpgraded idx new)
      fun _ => Keeps sum fun kept => Swapped old new { kept with state := .compressed } := by
  unfold tagUpgraded
  rw [share_some]
  split_ifs with place
  · refine .setTier (fun kept => Swapped old new { kept with state := .compressed }) ?_
      (.tail (.counts (.done ?_)))
    · rintro kept ⟨replaced, recorded⟩
      exact { replaced with state := rfl, recorded := recorded, tagged := by simp [place] }
    · rintro even c ⟨same, h⟩
      exact ⟨by omega, h⟩
  · refine .tail (.setTier (fun kept => Swapped old new
      { kept with state := .compressed }) ?_ (.done ?_))
    · rintro kept ⟨replaced, recorded⟩
      exact { replaced with state := rfl, recorded := recorded, tagged := by simp [place] }
    · rintro even c ⟨same, h⟩
      exact ⟨by omega, h⟩

theorem publishUpgraded_ledger (found : info.data = some old) (anonymous : old.place = .anonymous) :
    Booked tid frame idx sum (Pending info old new)
      (publishUpgraded idx old new target) fun _ => Keeps sum Owned := by
  have nothing : share info = 0 := by
    rw [share, found]
    simp [anonymous]
  refine .setInfo (Untagged old new) 0 (fun kept h => by rw [h.2]; exact nothing)
    (fun kept h => ⟨{ h.1 with }, rfl⟩) (tagUpgraded_ledger.bind fun _ => ?_)
  exact .setState (Swapped old new) (fun kept h => h) (releaseOld_ledger old new true)

/-- The page is marked `COMPRESSING` while its fast blob is still on record. -/
def Upgrading (info : CompressedPageInfo) (kept : Book) : Prop :=
  Owned { kept with state := .compressed } ∧ kept.tier = .fast ∧ kept.info = info

theorem Upgrading.stored (found : info.data = some old) (anonymous : old.place = .anonymous)
    (shelved : Shelved place (Upgrading info) (some new) kept) : Pending info old new kept := by
  obtain ⟨pre, ⟨owned, -, recorded⟩, rfl, rfl⟩ := shelved
  have here : pre.info.data = some old := by rw [recorded]; exact found
  exact ⟨{ owned.replaced here anonymous pre.state with }, recorded⟩

def Upgraded (sum : Int) (info : CompressedPageInfo) (old : Blob) : Option Blob → Int → Cell → Prop
  | none => Keeps sum (Upgrading info)
  | some new => Keeps sum (Pending info old new)

theorem storeUpgraded_ledger {old : Blob} (bytes : Contents)
    (found : info.data = some old) (anonymous : old.place = .anonymous) :
    Booked tid frame idx sum (Upgrading info)
      (storeUpgraded cfg idx bytes) (Upgraded sum info old) := by
  have stores : Booked tid frame idx sum (Upgrading info)
      (on idx (.store .anonymous bytes)) (Upgraded sum info old) := by
    refine .tail (.store fun ans => .done fun even c h => ?_)
    cases ans with
    | none => exact h
    | some new => exact ⟨h.1, Upgrading.stored found anonymous h.2⟩
  refine (Alone.books (ensureSpillReady_inert cfg).bookless).bind fun spill => ?_
  split_ifs
  · refine .store fun ans => ?_
    cases ans with
    | none => exact stores
    | some new =>
      exact .done fun _ _ h => ⟨h.1, Upgrading.stored found anonymous h.2⟩
  · exact stores

theorem upgradeBlob_ledger {old : Blob} (found : info.data = some old) : Booked tid frame idx sum
      (fun kept => Owned kept ∧ kept.tier = .fast ∧ kept.state = .compressed ∧ kept.info = info)
      (upgradeBlob cfg idx info old target) fun _ => Keeps sum Owned := by
  refine .fact (old.place = .anonymous) ?_ fun anonymous => ?_
  · rintro even c ⟨-, owned, tier, -, rfl⟩
    have tagged := owned.tagged old found
    rw [tier] at tagged
    cases place : old.place with
    | anonymous => rfl
    | spill => exact nomatch tagged.mp place
  have back : ∀ kept : Book, Upgrading info kept → Owned { kept with state := .compressed } :=
    fun kept h => h.1
  refine .setState (Upgrading info) ?_ ?_
  · rintro kept ⟨owned, tier, s, recorded⟩
    exact ⟨by rw [← s]; exact owned, tier, recorded⟩
  refine .neutral rfl fun bytes => .asked fun saves => ?_
  split_ifs
  · refine (storeUpgraded_ledger bytes found anonymous).bind fun stored => ?_
    cases stored with
    | none => exact .setState Owned back (unlock_ledger (fun _ h => h) false)
    | some new => exact publishUpgraded_ledger found anonymous
  · refine .setState (fun kept => Owned kept ∧ kept.tier = .fast) (fun kept h => ⟨h.1, h.2.1⟩) ?_
    refine .setTier Owned ?_ (unlock_ledger (fun _ h => h) false)
    rintro kept ⟨owned, tier⟩
    refine { owned with tagged := fun blob recorded => ?_ }
    rw [owned.tagged blob recorded, tier]
    simp

theorem recompressPage_ledger (target : CompressAlgo) :
    Booked tid frame idx sum (fun kept => Owned kept ∧ kept.tier = .fast)
      (recompressPage cfg idx target) fun _ => Keeps sum Owned := by
  have tags : ∀ info : CompressedPageInfo, Booked tid frame idx sum
      (fun kept => ((Owned kept ∧ kept.tier = .fast) ∧ kept.state = .compressed) ∧
        kept.info = info)
      (on idx (.setTier .deep) >>= fun _ => on idx .unlock >>= fun _ => pure false)
      fun _ => Keeps sum Owned := by
    intro info
    refine .setTier Owned ?_ (unlock_ledger (fun _ h => h) false)
    rintro kept ⟨⟨⟨owned, tier⟩, -⟩, -⟩
    refine { owned with tagged := fun blob recorded => ?_ }
    rw [owned.tagged blob recorded, tier]
    simp
  refine .neutral rfl fun _ => .getState fun s => ?_
  split_ifs with compressed
  · subst compressed
    refine .getInfo fun info => ?_
    cases found : info.data with
    | none => exact tags info
    | some old =>
      simp only
      split_ifs
      · exact tags info
      · refine (upgradeBlob_ledger found).weaken ?_
        rintro even c ⟨same, ⟨⟨owned, tier⟩, s⟩, recorded⟩
        exact ⟨same, owned, tier, s, recorded⟩
  · exact unlock_ledger (fun _ h => h.1.1) false

theorem spillLocked_ledger :
    Booked tid frame idx sum (fun kept => Owned kept ∧ kept.state = .compressed) (spillLocked idx)
      fun _ => Keeps sum Owned := by
  have leaves : ∀ info : CompressedPageInfo, Booked tid frame idx sum
      (fun kept => (Owned kept ∧ kept.state = .compressed) ∧ kept.info = info)
      (on idx .unlock) fun _ => Keeps sum Owned := fun info =>
    .tail (unlock_ledger (fun _ h => h.1.1) ())
  refine .getInfo fun info => ?_
  cases found : info.data with
  | none => exact leaves info
  | some old =>
    simp only
    split_ifs with place
    · exact leaves info
    · have anonymous : old.place = .anonymous := by cases here : old.place <;> simp_all
      have nothing : share info = 0 := by
        rw [share, found]
        simp [anonymous]
      refine .neutral rfl fun bytes => .store fun ans => ?_
      cases ans with
      | none => exact leaves info
      | some new =>
        refine .fact (new.place = .spill) ?_ fun spilled => ?_
        · rintro even c ⟨-, pre, -, rfl, -⟩
          rfl
        refine .setInfo (fun kept => Untagged old new kept ∧ kept.state = .compressed) 0 ?_ ?_ ?_
        · rintro kept ⟨pre, ⟨-, recorded⟩, -, rfl⟩
          rw [recorded]
          exact nothing
        · rintro kept ⟨pre, ⟨⟨owned, s⟩, rfl⟩, rfl, rfl⟩
          exact ⟨⟨{ owned.replaced found anonymous .compressed with }, rfl⟩, s⟩
        · rw [share_some, if_pos spilled]
          refine .setTier (Swapped old new) ?_ (.counts
            ((releaseOld_ledger old new ()).tail.weaken ?_))
          · rintro kept ⟨⟨replaced, recorded⟩, s⟩
            exact { replaced with
              state := s, recorded := recorded, tagged := by simp [spilled] }
          · rintro even c ⟨same, h⟩
            exact ⟨by omega, h⟩

theorem maybeSpillPage_ledger :
    Booked tid frame idx sum Owned (maybeSpillPage idx) fun _ => Keeps sum Owned := by
  refine .asked fun ready => ?_
  split_ifs
  · refine .neutral rfl fun taken => ?_
    split_ifs
    · refine .getState fun s => .neutral rfl fun tier => ?_
      split_ifs with selected
      · refine spillLocked_ledger.weaken fun _ _ h => ⟨h.1, h.2.1, ?_⟩
        exact h.2.2.trans selected.1
      · exact .tail (unlock_ledger (fun _ h => h.1) ())
    · exact .stay
  · exact .stay

theorem phase2Compressed_ledger (target : CompressAlgo) : Booked tid frame idx sum Owned
      (phase2Compressed cfg idx target) fun _ => Keeps sum Owned := by
  refine .neutral rfl fun s => .getTier fun pre => ?_
  have upgrades : Booked tid frame idx sum (fun kept => Owned kept ∧ kept.tier = pre)
      (upgradeIfFast cfg idx target s pre) fun _ => Keeps sum Owned := by
    unfold upgradeIfFast
    split_ifs with fast
    · exact (recompressPage_ledger target).weaken fun _ _ h => ⟨h.1, h.2.1, h.2.2.trans fast.2.2⟩
    · exact .done fun _ _ h => ⟨h.1, h.2.1⟩
  refine upgrades.bind fun _ => .neutral rfl fun tier => ?_
  split_ifs
  · exact maybeSpillPage_ledger
  · exact .stay

end Tiers

section Operations

/-- The lock-protected operations of a deferred-mode compressor. -/
inductive Operation where
  | compress (idx pendingCount : Nat)
  | reclaim (pages : List Nat)
  | fault (idx : Nat)
  | prefetch (idx : Nat)
  | restore (idx : Nat) (data : Option Contents)
  | release (pages : List Nat)
  | tiers (idx : Nat) (target : CompressAlgo)

def operation (cfg : Config) : Operation → Code Unit
  | .compress idx pendingCount => do
      let _ ← compressPage cfg idx pendingCount
      pure ()
  | .reclaim pages => reclaimShadowRange cfg pages
  | .fault idx => do
      let _ ← handleFault cfg idx
      pure ()
  | .prefetch idx => prefetchAdjacent cfg idx
  | .restore idx data => do
      let bounds ← boundsAround idx
      let _ ← restoreRange idx data bounds.1 bounds.2
      pure ()
  | .release pages => releaseCompressedPages pages
  | .tiers idx target => phase2Compressed cfg idx target

theorem operation_inOrder {cfg : Config} (mode : cfg.deferred = true) (op : Operation) :
    InOrder tid sum (operation cfg op) := by
  have ends : ∀ r : Bool, Together KernelSucceeds tid sum (fun _ => Orderly)
      ((fun _ => pure ()) r) fun _ _ => Orderly :=
    fun _ => .stay
  cases op with
  | compress idx pendingCount =>
    exact (InOrder.of_alone idx (compressPage_ledger mode pendingCount)).bind ends
  | reclaim pages =>
    exact forPages_together fun page _ => InOrder.of_alone page reclaimShadowPage_ledger
  | fault idx => exact handleFault_inOrder.bind ends
  | prefetch idx => exact prefetchAdjacent_inOrder
  | restore idx data =>
    have asks : InOrder tid sum (boundsAround idx) := .books (.act rfl)
    refine .bind asks fun bounds => ?_
    exact (InOrder.of_alone idx (.restoring (restoreRange_ledger data _ _))).bind ends
  | release pages => exact forPages_together fun page _ => releaseCompressedPage_inOrder page
  | tiers idx target => exact .of_alone idx (phase2Compressed_ledger target)

/-- One step of a sequential run: an operation from start to end, a page taken into service,
or application stores. -/
inductive Turn where
  | operate (tid : Thread) (op : Operation) (choices : List Choice)
  | serve (idx : Nat)
  | write (idx : Nat) (memory : Contents)

def turn (cfg : Config) (s : Shared) : Turn → Option Shared
  | .operate tid op choices =>
    match runAlone perform tid (operation cfg op) s choices with
    | some (_, s', []) => some s'
    | _ => none
  | .serve idx =>
    if idx < s.pages ∧ (s.page idx).state = .empty then
      some (s.set idx { s.page idx with state := .active })
    else none
  | .write idx mem =>
    if idx < s.pages then
      some (s.set idx { s.page idx with memory := mem })
    else none

def KernelWorks (cfg : Config) (s : Shared) : Turn → Prop
  | .operate tid op choices =>
    Permitted perform KernelSucceeds tid (operation cfg op) s choices
  | _ => True

instance (cfg : Config) (s : Shared) (label : Turn) : Decidable (KernelWorks cfg s label) := by
  unfold KernelWorks
  split <;> infer_instance

structure Ledger (shared : Shared) : Prop where
  recorded : ∀ idx, (shared.page idx).info.data ≠ none →
    (shared.page idx).state = .compressed ∨ (shared.page idx).state = .compressedShadow
  sentinel : ∀ idx, (shared.page idx).state = .compressed ∨
      (shared.page idx).state = .compressedShadow →
    (shared.page idx).info.data ≠ none ∨ (shared.page idx).info = {}
  stored : ∀ idx, (shared.page idx).blobs.map Prod.fst = (shared.page idx).info.data.toList
  intact : ∀ idx, (shared.page idx).damaged = false
  spilled : shared.spilledCount =
    ((List.range shared.pages).countP fun idx => isSpilled (shared.page idx) : Nat)

variable {cfg : Config} {s next : Shared}

theorem sum_spilledAt (page : Nat → Cell) (pages : Nat) :
    ∑ idx ∈ Finset.range pages, spilledAt (page idx) =
      ((List.range pages).countP fun idx => isSpilled (page idx) : Nat) := by
  induction pages with
  | zero => simp
  | succ pages ih =>
    rw [Finset.sum_range_succ, ih, range_succ, countP_append]
    cases spilled : isSpilled (page pages) <;> simp [spilledAt, spilled]

/-- What every turn keeps: the spill counter is balanced and every book is in order. -/
def Accounted (s : Shared) : Prop := balance s = 0 ∧ All (fun _ => Orderly) s

theorem Accounted.ledger (accounted : Accounted s) : Ledger s where
  recorded := fun idx => (accounted.2 idx).recorded
  sentinel := fun idx _ => by
    by_cases missing : (s.page idx).info.data = none
    · exact .inr ((accounted.2 idx).sentinel missing)
    · exact .inl missing
  stored := fun idx => (accounted.2 idx).stored
  intact := fun idx => (accounted.2 idx).intact
  spilled := by
    have even := accounted.1
    rw [balance, sum_spilledAt] at even
    omega

theorem Accounted.set {idx : Nat} {c : Cell} (accounted : Accounted s)
    (inside : idx < s.pages) (same : c.info = (s.page idx).info)
    (owned : Orderly c) : Accounted (s.set idx c) := by
  refine ⟨?_, fun j => ?_⟩
  · rw [balance_set inside, spilledAt_info same, accounted.1]
    omega
  · by_cases here : j = idx
    · subst here
      simpa using owned
    · simpa [Function.update_of_ne here] using accounted.2 j

theorem turn_accounted (mode : cfg.deferred = true) {label : Turn}
    (accounted : Accounted s) (works : KernelWorks cfg s label)
    (moved : turn cfg s label = some next) : Accounted next := by
  cases label with
  | operate tid op choices =>
    simp only [turn] at moved
    split at moved
    next r s' ran =>
      cases moved
      exact (operation_inOrder mode op s accounted.1 accounted.2).run works ran
    next => cases moved
  | serve idx =>
    simp only [turn] at moved
    split_ifs at moved with ready
    cases moved
    refine accounted.set ready.1 rfl ?_
    have bare := (accounted.2 idx).unpacked (by
      rw [show (book (s.page idx)).state = .empty from ready.2]
      simp [packed])
    exact Bare.owned { bare with }
  | write idx mem =>
    simp only [turn] at moved
    split_ifs at moved with inside
    cases moved
    exact accounted.set inside rfl (accounted.2 idx)

theorem boot_accounted (pages : Nat) : Accounted (boot pages) := by
  refine ⟨?_, fun _ => Bare.owned ⟨rfl, rfl, rfl⟩⟩
  rw [balance, sum_spilledAt]
  simp [boot, isSpilled, freshCell]

theorem blobs_accounted (mode : cfg.deferred = true) {pages : Nat} {turns : List Turn}
    (works : Along (turn cfg) (KernelWorks cfg) (boot pages) turns)
    (ran : exec (turn cfg) (boot pages) turns = some s) : Ledger s :=
  (invariant_of_along (fun h works moved => turn_accounted mode h works moved)
    (boot_accounted pages) works ran).ledger

def tieredConfig : Config where
  deferred := true
  fixav := true
  snapshotVerify := false
  p2Chunk := true
  deferMadvise := false
  deepTier := true
  spill := true
  prefetchWindow := 0

def operate (op : Operation) (calls : Nat) : Turn :=
  .operate 1 op (List.replicate calls { number := 1 })

def spillOnePage : List Turn :=
  [.serve 0, .write 0 fun offset => if offset.val = 4095 then 7 else 0, operate (.compress 0 0) 15,
    operate (.reclaim [0]) 14, operate (.tiers 0 .zstdDict) 17]

theorem blobs_accounted_after_spill : ∃ s, exec (turn tieredConfig) (boot 1) spillOnePage = some s ∧
      s.spilledCount = 1 ∧ Ledger s := by
  have works : Along (turn tieredConfig) (KernelWorks tieredConfig) (boot 1) spillOnePage := by
    decide +kernel
  have shown :
      (exec (turn tieredConfig) (boot 1) spillOnePage).map Shared.spilledCount = some 1 := by
    decide +kernel
  obtain ⟨s, ran, counted⟩ := Option.map_eq_some_iff.mp shown
  exact ⟨s, ran, counted, blobs_accounted rfl works ran⟩

end Operations

end Smash.Compressor
