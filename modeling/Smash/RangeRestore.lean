import Smash.FaultSafety
import Smash.PageExact

/-! `restoreRange` run without interruption, from any pages and with any outcome of its calls: it
restores the whole range or leaves the neighbours as they were. Each of its loops is described by
what it does to the pages. -/
namespace Smash.Compressor

open Program PageMachine List

section Calls

variable {may : Op → Choice → Prop} {t : Thread} {i : Nat} {s : Shared}
  {Result Final : Type} {post : Result → Shared → Prop}
variable {next : Bool → Code Result} {op : CellOp} {ans : CellAnswer op}

/-- Each call has an outcome that may happen. -/
def Possible (may : Op → Choice → Prop) : Prop := ∀ op, ∃ ch, may op ch

abbrev Lands (may : Op → Choice → Prop) (t : Thread) (code : Code Result)
    (post : Result → Shared → Prop) (s : Shared) : Prop :=
  Delivers perform may t code post s

def Faulty (may : Op → Choice → Prop) : Prop :=
  ∃ op ch, may op ch ∧ ch.flag = false

theorem delivers_mono {prog : Code Result} {weaker : Result → Shared → Prop}
    (delivers : Lands may t prog post s)
    (implied : ∀ r s', post r s' → weaker r s') :
    Lands may t prog weaker s := by
  induction prog generalizing s with
  | done r => exact implied r s delivers
  | call op next ih =>
    exact ⟨delivers.1, fun ch ans s' permitted ran => ih ans (delivers.2 ch ans s' permitted ran)⟩

theorem delivers_then {front : Code Result} {next : Result → Code Final}
    {mid : Result → Shared → Prop} {last : Final → Shared → Prop}
    (first : Lands may t front mid s) (second : ∀ r s', mid r s' →
      Lands may t (next r) last s') : Lands may t (front >>= next) last s :=
  delivers_bind.mpr (delivers_mono first second)

section

variable (possible : Possible may)
include possible

section

variable (inside : i < s.pages)
include inside

theorem delivers_at {next : CellAnswer op → Code Result} {c' : Cell}
    (effect : ∀ ch, may (.page i op) ch → cellStep t op ch (s.page i) = some (ans, c')) :
    Lands may t (on i op >>= next) post s ↔ Lands may t (next ans) post (s.set i c') :=
  delivers_call (possible _) fun ch permitted => by
    simp [perform, inside, effect ch permitted]

theorem delivers_next {next : CellAnswer op → Code Result} {c c' : Cell}
    (effect : ∀ ch, may (.page i op) ch → cellStep t op ch c = some (ans, c')) :
    Lands may t (on i op >>= next) post (s.set i c) ↔
      Lands may t (next ans) post (s.set i c') :=
  delivers_call (possible _) fun ch permitted => by
    simp [perform, inside, effect ch permitted]

theorem delivers_read {next : CellAnswer op → Code Result}
    (effect : ∀ ch, cellStep t op ch (s.page i) = some (ans, s.page i)) :
    Lands may t (on i op >>= next) post s ↔ Lands may t (next ans) post s := by
  rw [delivers_at possible inside fun ch _ => effect ch, set_self]

theorem delivers_tryLock_free (free : (s.page i).lock = none) :
    Lands may t (on i .tryLock >>= next) post s ↔ Lands may t (next true) post
        (s.set i { s.page i with lock := some t }) := by
  refine delivers_at possible inside fun ch _ => ?_
  rw [cellStep, if_pos free]

theorem delivers_tryLock_taken (taken : (s.page i).lock ≠ none) :
    Lands may t (on i .tryLock >>= next) post s ↔ Lands may t (next false) post s := by
  refine delivers_read possible inside fun ch => ?_
  rw [cellStep, if_neg taken]

end

theorem delivers_flag {op : Op} {next : Answer op → Code Result} {changed : Shared}
    {done failed : Answer op}
    (performs : ∀ ch, perform t op ch s =
      some (if ch.flag then (done, changed) else (failed, s)))
    (yes : Lands may t (next done) post changed)
    (no : Faulty may → Lands may t (next failed) post s) :
    Lands may t (.call op next) post s := by
  obtain ⟨some, permitted⟩ := possible op
  refine ⟨⟨some, permitted, ?_⟩, fun ch ans s' permitted ran => ?_⟩
  · rw [performs]
    exact nofun
  · rw [performs] at ran
    cases flag : ch.flag with
    | true =>
      rw [flag] at ran
      cases ran
      exact yes
    | false =>
      rw [flag] at ran
      cases ran
      exact no ⟨op, ch, permitted, flag⟩

theorem delivers_ask {question : Question} (yes : Lands may t (next true) post s)
    (no : Faulty may → Lands may t (next false) post s) :
    Lands may t (ask question >>= next) post s := by
  refine delivers_flag possible (fun ch => ?_) yes no
  cases flag : ch.flag <;> simp [perform, flag]

theorem delivers_populate {bytes : Contents}
    (inside : i < s.pages)
    (yes : Lands may t (next true) post
      (s.set i { s.page i with memory := bytes }))
    (no : Faulty may → Lands may t (next false) post s) :
    Lands may t (on i (.populate bytes) >>= next) post s := by
  refine delivers_flag possible (fun ch => ?_) yes no
  cases flag : ch.flag <;> simp [perform, inside, cellStep, flag, set_self]

theorem delivers_decompress {next : Contents → Code Result} (inside : i < s.pages)
    (each : ∀ ch, may (.page i (.decompress (s.page i).info)) ch →
      Lands may t (next ((s.page i).content.getD ch.bytes)) post s) :
    Lands may t (on i (.decompress (s.page i).info) >>= next) post s := by
  have performs : ∀ ch : Choice, perform t (.page i (.decompress (s.page i).info)) ch s =
        some ((s.page i).content.getD ch.bytes, s) := by
    intro ch
    simp [perform, inside, cellStep, set_self]
  obtain ⟨some, permitted⟩ := possible (.page i (.decompress (s.page i).info))
  refine ⟨⟨some, permitted, ?_⟩, fun ch ans s' permitted ran => ?_⟩
  · rw [performs]
    rintro ⟨⟩
  · rw [performs] at ran
    cases ran
    exact each ch permitted

theorem delivers_protect_range {first count : Nat} {prot : Prot} (inside : first + count ≤ s.pages)
    (yes : Lands may t (next true) post
      (s.setRange first count fun c => { c with prot := prot }))
    (no : Faulty may → Lands may t (next false) post s) :
    Lands may t (onRange first count (.protect prot) >>= next) post s := by
  refine delivers_flag possible (fun ch => ?_) yes no
  cases flag : ch.flag <;>
    simp [perform, inside, Shared.setRange, rangeStep.eq_def, flag]

end

end Calls

section Locks

variable {may : Op → Choice → Prop} {t : Thread} {s : Shared}
  {memory : Nat → Contents} {others : List Nat} {page : Nat}

def Lockable (c : Cell) : Prop :=
  c.lock = none ∧ c.state ≠ .compressing ∧ c.state ≠ .empty

/-- The thread has the locks of `others`, and the pages have new bytes. -/
def holding (t : Thread) (s : Shared) (others : List Nat) (memory : Nat → Contents) : Shared :=
  { s with
    page := fun page =>
      { s.page page with
        memory := memory page
        lock := if page ∈ others then some t else (s.page page).lock } }

def bytesOf (s : Shared) (page : Nat) : Contents := (s.page page).memory

@[simp] theorem holding_pages : (holding t s others memory).pages = s.pages := rfl

theorem holding_state : ((holding t s others memory).page page).state = (s.page page).state := rfl

theorem holding_nil : holding t s [] (bytesOf s) = s := by
  simp [holding, bytesOf]

theorem holding_congr {locked : List Nat} (same : ∀ page, page ∈ others ↔ page ∈ locked) :
    holding t s others memory = holding t s locked memory := by
  simp only [holding, same]

theorem holding_lock : (holding t s others memory).set page
        { (holding t s others memory).page page with lock := some t } =
      holding t s (page :: others) memory := by
  simp only [holding, Shared.set, Shared.mk.injEq, true_and, and_true]
  funext j
  by_cases same : j = page
  · subst same
    simp
  · simp [same]

theorem holding_unlock (fresh : page ∉ others) (free : (s.page page).lock = none) :
    (holding t s (page :: others) memory).set page
        { (holding t s (page :: others) memory).page page with lock := none } =
      holding t s others memory := by
  simp only [holding, Shared.set, Shared.mk.injEq, true_and, and_true]
  funext j
  by_cases same : j = page
  · subst same
    simp [fresh, free]
  · simp [same]

theorem holding_fill (bytes : Contents) :
    (holding t s others memory).set page
        { (holding t s others memory).page page with memory := bytes } =
      holding t s others (Function.update memory page bytes) := by
  simp only [holding, Shared.set, Shared.mk.injEq, true_and, and_true]
  funext j
  by_cases same : j = page
  · subst same
    simp
  · simp [same]

theorem unlockAll_delivers (possible : Possible may) (others : List Nat)
    (distinct : others.Nodup) (inside : ∀ page ∈ others, page < s.pages)
    (free : ∀ page ∈ others, (s.page page).lock = none) : Lands may t (unlockAll others)
      (fun _ s' => s' = holding t s [] memory) (holding t s others memory) := by
  induction others with
  | nil => exact rfl
  | cons page rest ih =>
    obtain ⟨fresh, distinct⟩ := nodup_cons.mp distinct
    have here : page < (holding t s (page :: rest) memory).pages := inside page mem_cons_self
    rw [unlockAll, forPages]
    apply (delivers_at possible here fun _ _ => rfl).mpr
    rw [holding_unlock fresh (free page mem_cons_self)]
    exact ih distinct (fun j mem => inside j (mem_cons_of_mem page mem))
      fun j mem => free j (mem_cons_of_mem page mem)

/-- All the locks and no page that is in the way, or everything as before. -/
def Locking (t : Thread) (s : Shared) (memory : Nat → Contents) (locked rest : List Nat)
    (taken : Bool) (s' : Shared) : Prop :=
  (taken = true → s' = holding t s (locked ++ rest) memory ∧
    ∀ page ∈ rest, Lockable (s.page page)) ∧
  (taken = false → s' = holding t s [] memory ∧
    ∃ page ∈ rest, ¬ Lockable (s.page page))

theorem lockOthers_delivers (possible : Possible may) (rest : List Nat) :
    ∀ {locked : List Nat}, (locked ++ rest).Nodup → (∀ page ∈ locked ++ rest, page < s.pages) →
      (∀ page ∈ locked, (s.page page).lock = none) → Lands may t (lockOthers locked rest)
        (Locking t s memory locked rest) (holding t s locked memory) := by
  induction rest with
  | nil =>
    intro locked _ _ _
    refine ⟨fun _ => ⟨?_, nofun⟩, nofun⟩
    rw [append_nil]
  | cons page rest ih =>
    intro locked distinct inside free
    have fresh : page ∉ locked := fun mem =>
      (nodup_append.mp distinct).2.2 page mem page mem_cons_self rfl
    have here : ∀ held, page < (holding t s held memory).pages :=
      fun _ => inside page (mem_append_right locked mem_cons_self)
    have back : ¬ Lockable (s.page page) → Lands may t (do unlockAll locked; pure false : Code Bool)
          (Locking t s memory locked (page :: rest))
          (holding t s locked memory) := by
      intro busy
      apply delivers_then (unlockAll_delivers possible locked (nodup_append.mp distinct).1
        (fun j mem => inside j (mem_append_left _ mem)) free)
      rintro - s' rfl
      exact ⟨nofun, fun _ => ⟨rfl, page, mem_cons_self, busy⟩⟩
    have lock : ((holding t s locked memory).page page).lock = (s.page page).lock := by
      simp [holding, fresh]
    rw [lockOthers]
    by_cases unlocked : (s.page page).lock = none
    · apply (delivers_tryLock_free possible (here _) (lock.trans unlocked)).mpr
      rw [holding_lock, if_pos rfl]
      apply (delivers_read possible (here (page :: locked)) fun _ => rfl).mpr
      rw [holding_state]
      by_cases busy : (s.page page).state = .compressing ∨ (s.page page).state = .empty
      · have refused : ¬ Lockable (s.page page) := fun lockable =>
          busy.elim lockable.2.1 lockable.2.2
        rw [if_pos busy]
        apply (delivers_at possible (here (page :: locked)) fun _ _ => rfl).mpr
        rw [holding_unlock fresh unlocked]
        exact back refused
      · obtain ⟨marked, unused⟩ := not_or.mp busy
        have grown : locked ++ page :: rest = (locked ++ [page]) ++ rest := by simp
        have last : ∀ j, j ∈ page :: locked ↔ j ∈ locked ++ [page] := by
          simp [or_comm]
        rw [if_neg busy, holding_congr last]
        rw [grown] at distinct inside
        have more : ∀ j ∈ locked ++ [page], (s.page j).lock = none := by
          intro j mem
          rcases mem_append.mp mem with earlier | here
          · exact free j earlier
          · rw [mem_singleton.mp here]
            exact unlocked
        apply delivers_mono (ih distinct inside more)
        rintro taken s' ⟨yes, no⟩
        constructor
        · intro all
          obtain ⟨same, lockable⟩ := yes all
          refine ⟨grown ▸ same, fun j mem => ?_⟩
          rcases mem_cons.mp mem with here | later
          · rw [here]
            exact ⟨unlocked, marked, unused⟩
          · exact lockable j later
        · intro failed
          obtain ⟨same, j, mem, refused⟩ := no failed
          exact ⟨same, j, mem_cons_of_mem page mem, refused⟩
    · have refused : ¬ Lockable (s.page page) := fun lockable => unlocked lockable.1
      apply (delivers_tryLock_taken possible (here _) (lock ▸ unlocked)).mpr
      exact back refused

end Locks

section Populate

variable {may : Op → Choice → Prop} {t : Thread} {shared : Shared}
  {others : List Nat} {idx lo hi : Nat} {data : Option Contents}

def Decoded (c : Cell) (bytes : Contents) : Prop :=
  ∃ anything, bytes = c.content.getD anything

/-- Only compressed pages of `rest` have new bytes, those of their blobs. -/
def Fills (shared : Shared) (rest : List Nat) (pre post : Nat → Contents) : Prop :=
  ∀ page, post page = pre page ∨
    page ∈ rest ∧ (shared.page page).state = .compressed ∧ Decoded (shared.page page) (post page)

theorem populatePage_delivers {page : Nat} {mem : Nat → Contents}
    (possible : Possible may) (inside : page < shared.pages) :
    Lands may t (populatePage page)
      (fun ok s' =>
        (ok = true → ∃ bytes, Decoded (shared.page page) bytes ∧
          s' = holding t shared others (Function.update mem page bytes)) ∧
        (ok = false → s' = holding t shared others mem ∧ Faulty may))
      (holding t shared others mem) := by
  have here : page < (holding t shared others mem).pages := inside
  rw [← Prog.bind_pure (populatePage page), populatePage]
  simp only [Prog.bind_assoc]
  apply (delivers_read possible here fun _ => rfl).mpr
  apply delivers_decompress possible here
  intro ch _
  apply delivers_populate possible here
  · rw [holding_fill]
    exact ⟨fun _ => ⟨_, ⟨ch.bytes, rfl⟩, rfl⟩, nofun⟩
  · exact fun faulty => ⟨nofun, fun _ => ⟨rfl, faulty⟩⟩

/-- The compressed pages of `rest` have the bytes of their blobs, or some call may fail. -/
def Populates (may : Op → Choice → Prop) (t : Thread) (shared : Shared)
    (others rest : List Nat) (mem : Nat → Contents) (ok : Bool) (s' : Shared) : Prop :=
  ∃ filled, s' = holding t shared others filled ∧ Fills shared rest mem filled ∧
    (ok = true → ∀ page ∈ rest, (shared.page page).state = .compressed →
      Decoded (shared.page page) (filled page)) ∧
    (ok = false → Faulty may)

theorem Populates.cons {page : Nat} {rest : List Nat} {memory next : Nat → Contents} {ok : Bool}
    {s' : Shared} (later : Populates may t shared others rest next ok s')
    (same : ∀ j ≠ page, next j = memory j)
    (own : (shared.page page).state = .compressed ∧ Decoded (shared.page page) (next page) ∨
      (shared.page page).state ≠ .compressed ∧ next page = memory page) :
    Populates may t shared others (page :: rest) memory ok s' := by
  obtain ⟨filled, rfl, fills, all, failed⟩ := later
  have first (packed : (shared.page page).state = .compressed) :
      Decoded (shared.page page) (filled page) := by
    rcases fills page with kept | ⟨-, -, again⟩
    · rw [kept]
      exact own.elim And.right fun j => absurd packed j.1
    · exact again
  refine ⟨filled, rfl, fun j => ?_, fun done => forall_mem_cons.mpr ⟨first, all done⟩, failed⟩
  rcases fills j with kept | ⟨mem, facts⟩
  · by_cases mine : j = page
    · subst mine
      rcases own with ⟨packed, -⟩ | ⟨-, unchanged⟩
      · exact .inr ⟨mem_cons_self, packed, first packed⟩
      · exact .inl (kept.trans unchanged)
    · exact .inl (kept.trans (same j mine))
  · exact .inr ⟨mem_cons_of_mem page mem, facts⟩

theorem populateOthers_delivers (possible : Possible may) (rest : List Nat) :
    ∀ {slot : Bool} {mem : Nat → Contents}, (∀ page ∈ rest, page < shared.pages) →
      Lands may t (populateOthers slot rest) (Populates may t shared others rest mem)
        (holding t shared others mem) := by
  induction rest with
  | nil =>
    intro slot mem _
    exact ⟨mem, rfl, fun _ => .inl rfl, fun _ => nofun, nofun⟩
  | cons page rest ih =>
    intro slot mem inside
    obtain ⟨below, later⟩ := forall_mem_cons.mp inside
    have here : page < (holding t shared others mem).pages := below
    have stops : Faulty may → Populates may t shared others (page :: rest) mem false
        (holding t shared others mem) :=
      fun faulty => ⟨mem, rfl, fun _ => .inl rfl, nofun, fun _ => faulty⟩
    rw [populateOthers]
    apply (delivers_read possible here fun _ => rfl).mpr
    rw [holding_state]
    by_cases packed : (shared.page page).state = .compressed
    · rw [if_pos packed]
      have fills : Lands may t (populatePage page >>= fun ok =>
            if ok then populateOthers true rest else pure false)
          (Populates may t shared others (page :: rest) mem)
          (holding t shared others mem) := by
        apply delivers_then (populatePage_delivers possible below)
        rintro ok s' ⟨yes, no⟩
        cases ok with
        | false =>
          obtain ⟨rfl, faulty⟩ := no rfl
          exact stops faulty
        | true =>
          obtain ⟨bytes, decoded, rfl⟩ := yes rfl
          rw [if_pos rfl]
          apply delivers_mono (ih later)
          intro ok s' rest
          refine rest.cons (fun j apart => Function.update_of_ne apart _ _) (.inl ⟨packed, ?_⟩)
          rw [Function.update_self]
          exact decoded
      cases slot with
      | true => exact fills
      | false =>
        apply delivers_ask possible
        · exact fills
        · exact stops
    · rw [if_neg packed]
      apply delivers_mono (ih later)
      exact fun ok s' rest => rest.cons (fun _ _ => rfl) (.inr ⟨packed, rfl⟩)

/-- The own page may have the given bytes by now, compressed neighbours those of their blobs. -/
structure Refilled (shared : Shared) (idx : Nat) (data : Option Contents) (others : List Nat)
    (filled : Nat → Contents) : Prop where
  own : filled idx = bytesOf shared idx ∨ data = some (filled idx)
  neighbours : ∀ page ≠ idx, filled page = bytesOf shared page ∨
    page ∈ others ∧ (shared.page page).state = .compressed ∧
      Decoded (shared.page page) (filled page)

structure Complete (shared : Shared) (idx : Nat) (data : Option Contents) (others : List Nat)
    (filled : Nat → Contents) : Prop extends Refilled shared idx data others filled where
  given : filled idx = data.getD (bytesOf shared idx)
  decoded : ∀ page ∈ others, (shared.page page).state = .compressed →
    Decoded (shared.page page) (filled page)

theorem populateOwn_delivers (possible : Possible may) (inside : idx < shared.pages) :
    Lands may t (populateOwn idx data)
      (fun ok s' => ∃ filled, s' = holding t shared others filled ∧
        Refilled shared idx data [] filled ∧
        (ok = true → filled idx = data.getD (bytesOf shared idx)) ∧ (ok = false → Faulty may))
      (holding t shared others (bytesOf shared)) := by
  have unchanged : Refilled shared idx data [] (bytesOf shared) := ⟨.inl rfl, fun _ _ => .inl rfl⟩
  cases given : data with
  | none => exact ⟨bytesOf shared, rfl, given ▸ unchanged, fun _ => rfl, nofun⟩
  | some bytes =>
    have here : idx < (holding t shared others (bytesOf shared)).pages := inside
    rw [← Prog.bind_pure (populateOwn idx (some bytes)), populateOwn]
    apply delivers_populate possible here
    · rw [holding_fill]
      refine ⟨_, rfl, ⟨.inr ?_, fun page apart => .inl ?_⟩, fun _ => ?_, nofun⟩
      · rw [Function.update_self]
      · rw [Function.update_of_ne apart]
      · rw [Function.update_self, Option.getD_some]
    · exact fun faulty => ⟨bytesOf shared, rfl, given ▸ unchanged, nofun, fun _ => faulty⟩

theorem openRange_delivers (possible : Possible may) (below : lo ≤ idx) (above : idx < hi)
    (fits : hi ≤ shared.pages) : Lands may t (openRange idx data lo hi)
      (fun ok s' => ∃ filled, (ok = true → Complete shared idx data (othersIn idx lo hi) filled ∧
          s' = (holding t shared (othersIn idx lo hi) filled).setRange lo (hi - lo)
            fun c => { c with prot := .readWrite }) ∧
        (ok = false → Refilled shared idx data (othersIn idx lo hi) filled ∧
          s' = holding t shared (othersIn idx lo hi) filled ∧ Faulty may))
      (holding t shared (othersIn idx lo hi) (bytesOf shared)) := by
  have missing : idx ∉ othersIn idx lo hi := by simp [mem_othersIn]
  have inside : ∀ page ∈ othersIn idx lo hi, page < shared.pages := by
    intro page mem
    have := mem_othersIn.mp mem
    omega
  have populates : Lands may t (populateRange idx data (othersIn idx lo hi)) (fun ok s' => ∃ filled,
        s' = holding t shared (othersIn idx lo hi) filled ∧
        Refilled shared idx data (othersIn idx lo hi) filled ∧
        (ok = true → Complete shared idx data (othersIn idx lo hi) filled) ∧
        (ok = false → Faulty may))
      (holding t shared (othersIn idx lo hi) (bytesOf shared)) := by
    rw [populateRange]
    apply delivers_then (populateOwn_delivers possible (Nat.lt_of_lt_of_le above fits))
    rintro ok s' ⟨first, rfl, own, given, failed⟩
    have pre : ∀ page ≠ idx, first page = bytesOf shared page := by
      intro page apart
      rcases own.neighbours page apart with kept | ⟨none, -⟩
      · exact kept
      · cases none
    cases ok with
    | false =>
      refine ⟨first, rfl, ⟨own.own, fun page apart => .inl (pre page apart)⟩, nofun, failed⟩
    | true =>
      rw [if_pos rfl]
      apply delivers_mono (populateOthers_delivers possible (othersIn idx lo hi) inside)
      rintro ok s' ⟨filled, rfl, fills, all, failed⟩
      have mine : filled idx = first idx := by
        rcases fills idx with kept | ⟨mem, -⟩
        · exact kept
        · exact absurd mem missing
      have refilled : Refilled shared idx data (othersIn idx lo hi) filled := by
        constructor
        · rw [mine]
          exact own.own
        · intro page apart
          rcases fills page with kept | changed
          · exact .inl (kept.trans (pre page apart))
          · exact .inr changed
      refine ⟨filled, rfl, refilled, fun done => ⟨refilled, ?_, all done⟩, failed⟩
      rw [mine]
      exact given rfl
  rw [openRange]
  apply delivers_then populates
  rintro ok s' ⟨filled, rfl, refilled, complete, failed⟩
  cases ok with
  | false => exact ⟨filled, nofun, fun _ => ⟨refilled, rfl, failed rfl⟩⟩
  | true =>
    have within : lo + (hi - lo) ≤ (holding t shared (othersIn idx lo hi) filled).pages := by
      rw [holding_pages]
      omega
    rw [if_pos rfl, ← Prog.bind_pure (onRange lo (hi - lo) (.protect .readWrite))]
    apply delivers_protect_range possible within
    · exact ⟨filled, fun _ => ⟨complete rfl, rfl⟩, nofun⟩
    · exact fun faulty => ⟨filled, nofun, fun _ => ⟨refilled, rfl, faulty⟩⟩

end Populate

section Release

variable {may : Op → Choice → Prop} {t : Thread} {i : Nat} {s : Shared}
  {Result : Type} {post : Result → Shared → Prop} {c : Cell}
variable {next : Unit → Code Result}

def storeOf (c : Cell) : Place := if c.tier = .spilled then .spill else .anonymous

def releasedCell (c : Cell) : Cell :=
  match c.info.data with
  | none => c
  | some blob =>
    if blob.place = storeOf c ∧ blob ∈ c.blobs.map Prod.fst then
      { c with blobs := c.blobs.filter fun entry => entry.1 ≠ blob }
    else { c with damaged := true }

theorem releasedCell_memory : (releasedCell c).memory = c.memory := by
  rw [releasedCell]
  split
  · rfl
  · split <;> rfl

theorem releasedCell_prot : (releasedCell c).prot = c.prot := by
  rw [releasedCell]
  split
  · rfl
  · split <;> rfl

theorem releasedCell_missing (missing : c.info.data = none) : releasedCell c = c := by
  rw [releasedCell, missing]

theorem releasedCell_stored {blob : Blob} (recorded : c.info.data = some blob)
    (place : blob.place = storeOf c) (stored : blob ∈ c.blobs.map Prod.fst) :
    (releasedCell c).blobs = c.blobs.filter (fun entry => entry.1 ≠ blob) ∧
      (releasedCell c).damaged = c.damaged := by
  rw [releasedCell, recorded]
  dsimp only
  rw [if_pos ⟨place, stored⟩]
  exact ⟨rfl, rfl⟩

def refund (c : Cell) : Int :=
  if c.info.data.isSome ∧ c.tier = .spilled then -1 else 0

def recount (s : Shared) (delta : Int) : Shared :=
  { s with spilledCount := s.spilledCount + delta }

def discardedCell (c : Cell) : Cell :=
  { releasedCell c with info := {}, tier := .none, state := .active, reopened := false }

theorem releaseBlob_delivers (possible : Possible may) (inside : i < s.pages) :
    Lands may t (releaseBlob i >>= next) post s ↔ Lands may t (next ()) post
        ((recount s (refund (s.page i))).set i (releasedCell (s.page i))) := by
  rw [releaseBlob, Prog.bind_assoc, delivers_read possible inside fun _ => rfl]
  cases data : (s.page i).info.data with
  | none =>
    have same : releasedCell (s.page i) = s.page i := releasedCell_missing data
    have zero : recount s (refund (s.page i)) = s := by
      simp [recount, refund, data]
    rw [same, zero, set_self]
    exact Iff.rfl
  | some blob =>
    have released : ∀ ch, cellStep t (.release (storeOf (s.page i)) blob) ch
          (s.page i) = some ((), releasedCell (s.page i)) := by
      intro ch
      by_cases stored : blob.place = storeOf (s.page i) ∧ blob ∈ (s.page i).blobs.map Prod.fst
      · simp only [cellStep, releasedCell, data, if_pos stored]
      · simp only [cellStep, releasedCell, data, if_neg stored]
    dsimp only
    rw [Prog.bind_assoc, delivers_read possible inside fun _ => rfl]
    by_cases spilled : (s.page i).tier = .spilled
    · have place : storeOf (s.page i) = .spill := if_pos spilled
      have minus : refund (s.page i) = -1 := by simp [refund, data, spilled]
      rw [place] at released
      rw [if_pos spilled, minus, Prog.bind_assoc,
        delivers_at possible inside fun ch _ => released ch]
      exact delivers_call (possible _) fun _ _ => rfl
    · have place : storeOf (s.page i) = .anonymous := if_neg spilled
      have zero : recount s (refund (s.page i)) = s := by
        simp [recount, refund, spilled]
      rw [place] at released
      rw [if_neg spilled, zero]
      exact delivers_at possible inside fun ch _ => released ch

theorem discardBlob_delivers (possible : Possible may) (inside : i < s.pages) :
    Lands may t (discardBlob i >>= next) post s ↔ Lands may t (next ()) post
        ((recount s (refund (s.page i))).set i (discardedCell (s.page i))) := by
  rw [discardBlob]
  simp only [Prog.bind_assoc]
  have still : i < (recount s (refund (s.page i))).pages := inside
  rw [releaseBlob_delivers possible inside, delivers_next possible still fun _ _ => rfl,
    delivers_next possible still fun _ _ => rfl, delivers_next possible still fun _ _ => rfl]
  exact Iff.rfl

def finalizedCell (c : Cell) : Cell :=
  if c.state = .compressed ∨ c.state = .compressedShadow then
    { discardedCell { c with pending := false } with lock := none }
  else if c.state = .activeMonitoring then
    { c with state := .active, reopened := false, lock := none }
  else { c with lock := none }

theorem finalizeOther_delivers (possible : Possible may) (inside : i < s.pages) :
    Lands may t (finalizeOther i) (fun _ s' => s'.pages = s.pages ∧
        s'.page = Function.update s.page i (finalizedCell (s.page i))) s := by
  rw [← Prog.bind_pure (finalizeOther i), finalizeOther]
  simp only [Prog.bind_assoc]
  apply (delivers_read possible inside fun _ => rfl).mpr
  rw [finalizedCell]
  by_cases packed : (s.page i).state = .compressed ∨ (s.page i).state = .compressedShadow
  · rw [if_pos packed, if_pos packed]
    simp only [Prog.bind_assoc]
    apply (delivers_at possible inside fun _ _ => rfl).mpr
    have cleared : i < (s.set i { s.page i with pending := false }).pages := inside
    have still : i < (recount (s.set i { s.page i with pending := false })
        (refund ((s.set i { s.page i with pending := false }).page i))).pages :=
      inside
    apply (discardBlob_delivers possible cleared).mpr
    apply (delivers_next possible still fun _ _ => rfl).mpr
    refine ⟨rfl, ?_⟩
    simp [Shared.set, recount]
  · rw [if_neg packed, if_neg packed]
    by_cases monitored : (s.page i).state = .activeMonitoring
    · rw [if_pos monitored, if_pos monitored]
      simp only [Prog.bind_assoc]
      apply (delivers_at possible inside fun _ _ => rfl).mpr
      apply (delivers_next possible inside fun _ _ => rfl).mpr
      exact ⟨rfl, rfl⟩
    · rw [if_neg monitored, if_neg monitored]
      apply (delivers_at possible inside fun _ _ => rfl).mpr
      exact ⟨rfl, rfl⟩

theorem finalizeAll_delivers (possible : Possible may) (pages : List Nat) :
    ∀ {s : Shared}, pages.Nodup → (∀ page ∈ pages, page < s.pages) →
      Lands may t (forPages pages finalizeOther)
        (fun _ s' => s'.pages = s.pages ∧ ∀ page, s'.page page =
          if page ∈ pages then finalizedCell (s.page page) else s.page page)
        s := by
  induction pages with
  | nil => exact fun _ _ => ⟨rfl, fun _ => rfl⟩
  | cons page rest ih =>
    intro s distinct inside
    obtain ⟨fresh, distinct⟩ := nodup_cons.mp distinct
    rw [forPages]
    apply delivers_then (finalizeOther_delivers possible (inside page mem_cons_self))
    rintro - s' ⟨count, changed⟩
    apply delivers_mono (ih distinct fun j mem => count ▸ inside j (mem_cons_of_mem page mem))
    rintro - last ⟨same, final⟩
    refine ⟨same.trans count, fun j => ?_⟩
    rw [final, changed]
    by_cases here : j = page
    · subst here
      simp [fresh]
    · simp [here]

end Release

section Range

variable {allowed : Op → Choice → Prop} {tid : Thread} {shared : Shared}
  {idx lo hi : Nat} {data : Option Contents}

/-- What a page of an opened range holds before the neighbours are finalized. -/
def openedCell (tid : Thread) (c : Cell) (bytes : Contents) : Cell :=
  { c with memory := bytes, lock := some tid, prot := .readWrite }

structure RangeOutcome (allowed : Op → Choice → Prop) (tid : Thread) (shared : Shared)
    (idx : Nat) (data : Option Contents) (lo hi : Nat) (ok : Bool) (after : Shared) : Prop where
  restored : ok = true → (∀ page ∈ othersIn idx lo hi, Lockable (shared.page page)) ∧
    after.pages = shared.pages ∧
    ∃ filled, Complete shared idx data (othersIn idx lo hi) filled ∧
      ∀ page, after.page page =
        if page ∈ othersIn idx lo hi then
          finalizedCell (openedCell tid (shared.page page) (filled page))
        else if page = idx then
          { shared.page idx with memory := filled idx, prot := .readWrite }
        else shared.page page
  refused : ok = false →
    (∃ filled, Refilled shared idx data (othersIn idx lo hi) filled ∧
      after = holding tid shared [] filled) ∧
    ((∃ page ∈ othersIn idx lo hi, ¬ Lockable (shared.page page)) ∨ Faulty allowed)

theorem restoreRange_delivers (possible : Possible allowed) (below : lo ≤ idx)
    (above : idx < hi) (fits : hi ≤ shared.pages) : Lands allowed tid (restoreRange idx data lo hi)
      (RangeOutcome allowed tid shared idx data lo hi) shared := by
  have distinct : (othersIn idx lo hi).Nodup := othersIn_nodup
  have inside : ∀ page ∈ othersIn idx lo hi, page < shared.pages := by
    intro page mem
    have := mem_othersIn.mp mem
    omega
  have locks := @lockOthers_delivers allowed tid shared (bytesOf shared) possible
    (othersIn idx lo hi) [] distinct inside nofun
  rw [holding_nil] at locks
  rw [restoreRange]
  apply delivers_then locks
  rintro taken s' ⟨all, busy⟩
  cases taken with
  | false =>
    obtain ⟨same, refused⟩ := busy rfl
    refine ⟨nofun, fun _ => ⟨⟨bytesOf shared, ?_, same.trans holding_nil.symm⟩, .inl refused⟩⟩
    exact ⟨.inl rfl, fun _ _ => .inl rfl⟩
  | true =>
    obtain ⟨rfl, lockable⟩ := all rfl
    rw [if_pos rfl]
    apply delivers_then (openRange_delivers possible below above fits)
    rintro opened s' ⟨filled, yes, no⟩
    cases opened with
    | false =>
      obtain ⟨refilled, rfl, faulty⟩ := no rfl
      apply delivers_then (unlockAll_delivers possible (othersIn idx lo hi) distinct inside
        fun page mem => (lockable page mem).1)
      rintro - s' rfl
      exact ⟨nofun, fun _ => ⟨⟨filled, refilled, rfl⟩, .inr faulty⟩⟩
    | true =>
      obtain ⟨complete, rfl⟩ := yes rfl
      rw [if_pos rfl]
      apply delivers_then (finalizeAll_delivers possible (othersIn idx lo hi) distinct
        (show ∀ page ∈ othersIn idx lo hi, page <
          ((holding tid shared (othersIn idx lo hi) filled).setRange lo (hi - lo)
            fun c => { c with prot := .readWrite }).pages from inside))
      rintro - s' ⟨count, final⟩
      refine ⟨fun _ => ⟨lockable, count, filled, complete, fun page => ?_⟩, nofun⟩
      rw [final]
      by_cases mem : page ∈ othersIn idx lo hi
      · have within := mem_othersIn.mp mem
        have ranged : lo ≤ page ∧ page < lo + (hi - lo) := by omega
        rw [if_pos mem, if_pos mem]
        simp only [Shared.setRange, if_pos ranged, holding, if_pos mem, openedCell]
      · rw [if_neg mem, if_neg mem]
        by_cases own : page = idx
        · subst own
          have ranged : lo ≤ page ∧ page < lo + (hi - lo) := by omega
          simp only [Shared.setRange, if_pos ranged, holding, if_neg mem, if_true]
        · have outside : ¬ (lo ≤ page ∧ page < lo + (hi - lo)) := fun ranged =>
            mem (mem_othersIn.mpr ⟨ranged.1, by omega, own⟩)
          have kept : filled page = bytesOf shared page := by
            rcases complete.neighbours page own with kept | ⟨listed, -⟩
            · exact kept
            · exact absurd listed mem
          simp only [Shared.setRange, if_neg outside, holding, if_neg mem, if_neg own, kept]
          rfl

structure BackInUse (before after : Cell) : Prop where
  state : after.state = .active
  unlocked : after.lock = none
  writable : after.prot = .readWrite
  contents : before.state = .compressed → ∀ bytes, before.content = some bytes →
    after.memory = bytes
  resident : before.state ≠ .compressed → after.memory = before.memory
  released : before.state = .compressed ∨ before.state = .compressedShadow →
    after.info = {} ∧ ∀ blob, before.info.data = some blob → blob.place = storeOf before →
      blob ∈ before.blobs.map Prod.fst →
      after.blobs = before.blobs.filter (fun entry => entry.1 ≠ blob) ∧
        after.damaged = before.damaged
  unreleased : ¬ (before.state = .compressed ∨ before.state = .compressedShadow) ∨
      before.info.data = none →
    after.blobs = before.blobs ∧ after.damaged = before.damaged

theorem finalized_backInUse {c : Cell} {bytes : Contents} (lockable : Lockable c)
    (decoded : c.state = .compressed → Decoded c bytes)
    (resident : c.state ≠ .compressed → bytes = c.memory) :
    BackInUse c (finalizedCell (openedCell tid c bytes)) := by
  obtain ⟨-, marked, unused⟩ := lockable
  by_cases packed : c.state = .compressed ∨ c.state = .compressedShadow
  · -- the blob goes back to its store and the page is ACTIVE again
    have opened : (openedCell tid c bytes).state = c.state := rfl
    rw [finalizedCell, opened, if_pos packed]
    constructor
    · rfl
    · rfl
    · exact releasedCell_prot
    · intro compressed found content
      obtain ⟨anything, same⟩ := decoded compressed
      apply releasedCell_memory.trans
      change bytes = found
      rw [same, content, Option.getD_some]
    · exact fun j => releasedCell_memory.trans (resident j)
    · intro _
      refine ⟨rfl, fun blob recorded place stored => ?_⟩
      exact @releasedCell_stored { openedCell tid c bytes with pending := false }
        blob recorded place stored
    · rintro (j | missing)
      · exact absurd packed j
      · have same := @releasedCell_missing { openedCell tid c bytes with pending := false } missing
        have blobs := congrArg Cell.blobs same
        have damaged := congrArg Cell.damaged same
        exact ⟨blobs, damaged⟩
  · have dense : c.state ≠ .compressed := fun compressed => packed (.inl compressed)
    have opened : (openedCell tid c bytes).state = c.state := rfl
    rw [finalizedCell, opened, if_neg packed]
    by_cases monitored : c.state = .activeMonitoring
    · rw [if_pos monitored]
      refine ⟨rfl, rfl, rfl, fun compressed => absurd compressed dense, fun _ => resident dense,
        fun j => absurd j packed, fun _ => ⟨rfl, rfl⟩⟩
    · rw [if_neg monitored]
      have active : c.state = .active := by
        cases h : c.state <;> simp_all
      refine ⟨active, rfl, rfl, fun compressed => absurd compressed dense, fun _ => resident dense,
        fun j => absurd j packed, fun _ => ⟨rfl, rfl⟩⟩

/-- What the caller finds after a range restore, for the faulting page, for its neighbours in
`[lo, hi)` and for every other page. -/
structure AllOrNothing (shared : Shared) (idx : Nat) (data : Option Contents) (lo hi : Nat)
    (ok : Bool) (after : Shared) : Prop where
  refused : ok = false → ∀ page,
    after.page page = { shared.page page with memory := (after.page page).memory } ∧
    (page ∉ othersIn idx lo hi → page ≠ idx → after.page page = shared.page page)
  own : ok = true → after.page idx =
    { shared.page idx with
      memory := data.getD (shared.page idx).memory, prot := .readWrite }
  neighbours : ok = true → ∀ page ∈ othersIn idx lo hi,
    BackInUse (shared.page page) (after.page page)
  outside : ok = true → ∀ page ∉ othersIn idx lo hi, page ≠ idx →
    after.page page = shared.page page

/-- The restore ends whatever the kernel answers, and it opens the whole range or nothing. -/
theorem restore_range_all_or_nothing (tid : Thread) (shared : Shared) (idx : Nat)
    (data : Option Contents) (lo hi : Nat) (below : lo ≤ idx) (above : idx < hi)
    (fits : hi ≤ shared.pages) :
    Delivers perform (fun _ _ => True) tid (restoreRange idx data lo hi)
      (AllOrNothing shared idx data lo hi) shared := by
  have possible : Possible fun _ _ => True := fun _ => ⟨{}, trivial⟩
  have away : idx ∉ othersIn idx lo hi := fun mem => (mem_othersIn.mp mem).2.2 rfl
  apply delivers_mono (restoreRange_delivers possible below above fits)
  intro ok s' outcome
  constructor
  · intro refused page
    obtain ⟨⟨filled, refilled, rfl⟩, -⟩ := outcome.refused refused
    refine ⟨rfl, fun outside apart => ?_⟩
    have kept : filled page = bytesOf shared page := by
      rcases refilled.neighbours page apart with kept | ⟨mem, -⟩
      · exact kept
      · exact absurd mem outside
    simp only [holding, kept]
    rfl
  · intro restored
    obtain ⟨-, -, filled, complete, final⟩ := outcome.restored restored
    rw [final, if_neg away, if_pos rfl, complete.given]
    rfl
  · intro restored page mem
    obtain ⟨lockable, -, filled, complete, final⟩ := outcome.restored restored
    rw [final, if_pos mem]
    apply finalized_backInUse (lockable page mem) (complete.decoded page mem)
    intro dense
    rcases complete.neighbours page (fun own => away (own ▸ mem)) with kept | ⟨-, packed, -⟩
    · exact kept
    · exact absurd packed dense
  · intro restored page outside apart
    obtain ⟨-, -, filled, complete, final⟩ := outcome.restored restored
    rw [final, if_neg outside, if_neg apart]

def packedNeighbours : Shared :=
  (((boot 3).set 0
      { freshCell with
        state := .compressed
        prot := .none
        info := ⟨some ⟨.anonymous, 0⟩, .zstd⟩
        tier := .fastTried
        blobs := [(⟨.anonymous, 0⟩, fun _ => 5)]
        nextBlob := 1 }).set 1
      { freshCell with state := .active, prot := .none, lock := some 1 }).set 2
      { freshCell with state := .activeMonitoring, prot := .none }

theorem restore_range_packed_neighbours : 3 ≤ packedNeighbours.pages ∧
      Delivers perform (fun _ _ => True) 1 (restoreRange 1 (some fun _ => 9) 0 3)
        (AllOrNothing packedNeighbours 1 (some fun _ => 9) 0 3) packedNeighbours :=
  ⟨Nat.le_refl 3, restore_range_all_or_nothing 1 packedNeighbours 1 (some fun _ => 9) 0 3
    (by decide) (by decide) (Nat.le_refl 3)⟩

end Range

end Smash.Compressor
