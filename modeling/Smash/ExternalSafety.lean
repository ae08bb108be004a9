import Smash.ExternalPages

/-! In every run whose steps meet the conditions, nothing is to be seen of the interposers. The
invariant says page by page where its bytes are, which pages are tracked, and what the call in
progress still has to do. -/
namespace Smash.ExternalPages

open MachineWord Transition Function List
open PageMachine (kPageSize)

variable {Bytes : Type} {cfg : Config} {space next : Space Bytes}

def Holds (cfg : Config) : Option (Mark Bytes) → Page Bytes → Bytes → Prop
  | some (.packed blob), found, bytes => found.closed = true ∧ blob = bytes
  | some (.busy (some snapshot)), found, bytes =>
    found.closed = false ∧ found.contents = bytes ∧ (cfg.deferred = false → snapshot = bytes)
  | _, found, bytes => found.closed = false ∧ found.contents = bytes

structure Pending (cfg : Config) (space : Space Bytes) (call : Call) : Prop where
  harmless : ∀ page ∈ call.untrack,
    leaving space page ∨ space.real page = none ∨ space.mark page = none
  released : ∀ page ∈ call.untrack, space.owned page = true → leaving space page
  cleared : ∀ page, leaving space page → (space.mark page).isSome → page ∈ call.untrack
  alone : call.unmap.isSome → call.track = []
  room : ∀ page ∈ call.track, space.owned page = true → space.mark page = none →
    space.slotNext + call.track.length ≤ cfg.slotCapacity
  present : ∀ page ∈ call.track, (space.real page).isSome
  outside : ∀ page ∈ call.track, page ≠ 0 ∧
    ¬ (cfg.arenaFirst ≤ page ∧ page < cfg.arenaFirst + cfg.arenaPages)
  enabled : call.track ≠ [] → cfg.trackExternal = true

structure Valid (cfg : Config) (space : Space Bytes) : Prop where
  alive : space.crashed = false
  mapped : ∀ page, (space.real page).isSome = (space.ideal page).isSome
  sound : ∀ page found bytes, ¬ leaving space page → space.real page = some found →
    space.ideal page = some bytes → Holds cfg (space.mark page) found bytes
  placed : ∀ page, (space.mark page).isSome → (space.real page).isSome ∨
    ∃ call, space.call = some call ∧ page ∈ call.untrack
  enabled : ∀ page, (space.mark page).isSome → cfg.trackExternal = true
  kept : ∀ page, space.owned page = true → (space.mark page).isSome ∨ leaving space page ∨
    ∃ call, space.call = some call ∧ page ∈ call.track
  pending : ∀ call, space.call = some call → Pending cfg space call

section Pages

theorem isSome_update {Entry : Type} {table : Nat → Option Entry} {page : Nat}
    {entry : Option Entry} (here : entry.isSome = (table page).isSome) (j : Nat) :
    (update table page entry j).isSome = (table j).isSome := by
  by_cases same : j = page
  · rw [same, update_self, here]
  · rw [update_of_ne same]

theorem update_none_iff {Entry : Type} {table : Nat → Option Entry} {page : Nat}
    {entry : Option Entry} (here : entry.isSome = (table page).isSome) (j : Nat) :
    update table page entry j = none ↔ table j = none := by
  rw [← Option.isNone_iff_eq_none, ← Option.isNone_iff_eq_none, ← Option.not_isSome,
    ← Option.not_isSome, isSome_update here]

def edit (space : Space Bytes) (page : Nat) (real : Option (Page Bytes)) (ideal : Option Bytes)
    (mark : Option (Mark Bytes)) : Space Bytes :=
  { space with
    real := update space.real page real
    ideal := update space.ideal page ideal
    mark := update space.mark page mark }

theorem Valid.change (ok : Valid cfg space) {page : Nat} {real : Option (Page Bytes)}
    {ideal : Option Bytes} {mark : Option (Mark Bytes)}
    (realHere : real.isSome = (space.real page).isSome)
    (idealHere : ideal.isSome = (space.ideal page).isSome)
    (markHere : mark.isSome = (space.mark page).isSome)
    (here : ¬ leaving space page → ∀ found bytes, real = some found →
      ideal = some bytes → Holds cfg mark found bytes) :
    Valid cfg (edit space page real ideal mark) := by
  refine ⟨ok.alive, fun j => ?_, fun j found bytes stays mapped shown => ?_,
    fun j => ?_, fun j => ?_, fun j => ?_, fun running here => ?_⟩
  · exact (isSome_update realHere j).trans
      ((ok.mapped j).trans (isSome_update idealHere j).symm)
  · by_cases same : j = page
    · subst same
      simp only [edit, update_self] at mapped shown ⊢
      exact here stays found bytes mapped shown
    · simp only [edit, update_of_ne same] at mapped shown ⊢
      exact ok.sound j found bytes stays mapped shown
  · unfold edit
    rw [isSome_update markHere, isSome_update realHere]
    exact ok.placed j
  · unfold edit
    rw [isSome_update markHere]
    exact ok.enabled j
  · unfold edit
    rw [isSome_update markHere]
    exact ok.kept j
  · have pre := ok.pending running here
    unfold edit
    refine ⟨fun j mem => ?_, pre.released, fun j => ?_, pre.alone,
      fun j mem => ?_, fun j mem => ?_, pre.outside, pre.enabled⟩
    · rw [update_none_iff realHere, update_none_iff markHere]
      exact pre.harmless j mem
    · rw [isSome_update markHere]
      exact pre.cleared j
    · rw [update_none_iff markHere]
      exact pre.room j mem
    · rw [isSome_update realHere]
      exact pre.present j mem

end Pages

section Workers

variable {page : Nat}

section

variable (ok : Valid cfg space)
include ok

theorem Valid.holds {mark : Option (Mark Bytes)} (marked : space.mark page = mark)
    (stays : ¬ leaving space page) (found : Page Bytes) (bytes : Bytes)
    (mapped : space.real page = some found) (shown : space.ideal page = some bytes) :
    Holds cfg mark found bytes :=
  marked ▸ ok.sound page found bytes stays mapped shown

theorem Valid.remark {mark : Mark Bytes}
    (tracked : (space.mark page).isSome)
    (here : ¬ leaving space page → ∀ found bytes, space.real page = some found →
      space.ideal page = some bytes → Holds cfg (some mark) found bytes) :
    Valid cfg (setMark space page mark) := by
  have changed := @Valid.change _ cfg space ok page _ _ (some mark) rfl rfl tracked.symm here
  unfold edit at changed
  rwa [update_eq_self, update_eq_self] at changed

theorem Valid.pack {blob junk : Bytes}
    (tracked : (space.mark page).isSome)
    (here : ¬ leaving space page → ∀ found bytes, space.real page = some found →
      space.ideal page = some bytes → blob = bytes) :
    Valid cfg (closePage (setMark space page (.packed blob)) page junk) := by
  have changed := @Valid.change _ cfg space ok page
    ((space.real page).map fun _ => ⟨junk, true⟩) _ (some (.packed blob)) Option.isSome_map rfl
    tracked.symm fun stays found bytes mapped shown => by
      obtain ⟨pre, present, rfl⟩ := Option.map_eq_some_iff.mp mapped
      exact ⟨rfl, here stays pre bytes present shown⟩
  unfold edit at changed
  rwa [update_eq_self] at changed

theorem claim_valid (moved : claim space page = some next) : Valid cfg next := by
  unfold claim at moved
  split at moved
  next active =>
    cases moved
    exact ok.remark (by simp [active]) fun stays => (ok.holds active stays :)
  next => cases moved

theorem copy_valid (mapped : (space.real page).isSome)
    (moved : copy space page = some next) : Valid cfg next := by
  unfold copy at moved
  split at moved
  next missing =>
    rw [missing] at mapped
    cases mapped
  next busy present =>
    cases moved
    refine ok.remark (by simp [busy]) fun stays found bytes here shown => ?_
    have pre := ok.holds busy stays found bytes here shown
    cases present.symm.trans here
    exact ⟨pre.1, pre.2, fun _ => pre.2⟩
  next => cases moved

theorem abort_valid (moved : abort space page = some next) : Valid cfg next := by
  unfold abort at moved
  split at moved
  next snapshot busy =>
    cases moved
    refine ok.remark (by simp [busy]) fun stays found bytes mapped shown => ?_
    have pre := ok.holds busy stays found bytes mapped shown
    cases snapshot with
    | none => exact pre
    | some _ => exact ⟨pre.1, pre.2.1⟩
  next => cases moved

theorem finish_valid {junk : Bytes}
    (moved : finish cfg space page junk = some next) : Valid cfg next := by
  unfold finish at moved
  split at moved
  next snapshot busy =>
    split at moved
    next deferred =>
      cases moved
      refine ok.remark (by simp [busy]) fun stays found bytes mapped shown => ?_
      have h := ok.holds busy stays found bytes mapped shown
      exact ⟨h.1, h.2.1⟩
    next standard =>
      cases moved
      refine ok.pack (by simp [busy]) fun stays found bytes mapped shown => ?_
      exact (ok.holds busy stays found bytes mapped shown).2.2 (by simpa using standard)
  next => cases moved

theorem reclaim_valid [DecidableEq Bytes] {junk : Bytes}
    (mapped : (space.real page).isSome) (moved : reclaim space page junk = some next) :
    Valid cfg next := by
  unfold reclaim at moved
  split at moved
  next missing =>
    rw [missing] at mapped
    cases mapped
  next blob present shadow mappedHere =>
    split at moved
    next same =>
      cases moved
      refine ok.pack (by simp [shadow]) fun stays found bytes here shown => ?_
      cases mappedHere.symm.trans here
      exact same ▸ (ok.holds shadow stays _ bytes here shown).2
    next =>
      cases moved
      exact ok.remark (by simp [shadow]) fun stays => (ok.holds shadow stays :)
  next => cases moved

theorem Valid.opens {real : Option (Page Bytes)} (tracked : (space.mark page).isSome)
    (same : real.isSome = (space.real page).isSome)
    (here : ¬ leaving space page → ∀ found bytes, real = some found →
      space.ideal page = some bytes → found.closed = false ∧ found.contents = bytes) :
    Valid cfg { setMark space page .active with real := update space.real page real } := by
  have changed := @Valid.change _ cfg space ok page real _ (some .active) same rfl
    tracked.symm here
  unfold edit at changed
  rwa [update_eq_self] at changed

theorem Valid.reopens {mark : Mark Bytes} (marked : space.mark page = some mark)
    (idle : ∀ found bytes, Holds cfg (some mark) found bytes → found.contents = bytes) :
    Valid cfg { setMark space page .active with
      real := update space.real page
        ((space.real page).map fun found => { found with closed := false }) } := by
  refine ok.opens (by simp [marked]) (by simp) fun stays found bytes mapped shown => ?_
  obtain ⟨pre, present, rfl⟩ := Option.map_eq_some_iff.mp mapped
  exact ⟨rfl, idle pre bytes (ok.holds marked stays pre bytes present shown)⟩

theorem fault_valid (moved : fault space page = some next) : Valid cfg next := by
  unfold fault at moved
  split at moved
  next blob packed =>
    split at moved
    next =>
      cases moved
      exact ok
    next pre mapped =>
      cases moved
      refine ok.opens (by simp [packed]) (by simp [mapped]) fun stays here bytes same shown => ?_
      cases same
      exact ⟨rfl, (ok.holds packed stays pre bytes mapped shown).2⟩
  next active =>
    cases moved
    exact ok.reopens active fun _ _ h => h.2
  next blob shadow =>
    cases moved
    exact ok.reopens shadow fun _ _ h => h.2
  next => cases moved
  next => cases moved

theorem store_valid {bytes : Bytes}
    (moved : store cfg space page bytes = some next) : Valid cfg next := by
  unfold store at moved
  split at moved
  next contents opened =>
    split at moved
    next writes =>
      cases moved
      have shown : (space.ideal page).isSome := by rw [← ok.mapped, opened]; rfl
      have changed := @Valid.change _ cfg space ok page (some ⟨bytes, false⟩) (some bytes)
        (space.mark page) (by simp [opened]) shown.symm rfl ?_
      · unfold edit at changed
        rwa [update_eq_self] at changed
      rintro stays found seen ⟨⟩ ⟨⟩
      obtain ⟨pre, present⟩ := Option.isSome_iff_exists.mp shown
      have h := ok.sound page _ pre stays opened present
      unfold writable at writes
      match tracked : space.mark page with
      | none | some .active | some (.shadow _) | some (.busy none) => exact ⟨rfl, rfl⟩
      | some (.packed _) =>
        rw [tracked] at h
        cases h.1
      | some (.busy (some _)) =>
        simp only [tracked] at writes
        exact ⟨rfl, rfl, fun standard => by simp [standard] at writes⟩
    next => cases moved
  next => cases moved

end

end Workers

section Advance

variable {unmap : Option (Nat × Nat × Bool)} {untrack track : List Nat} {page : Nat}

theorem leaving_iff {call : Call} (running : space.call = some call) (page : Nat) :
    leaving space page ↔ ∃ first count, call.unmap = some (first, count, true) ∧
      first ≤ page ∧ page < first + count := by
  unfold leaving
  simp [running]

theorem leaving_untrack (running : space.call = some ⟨page :: untrack, unmap, track⟩)
    (s' : next.call = some ⟨untrack, unmap, track⟩) (j : Nat) :
    leaving next j ↔ leaving space j := by
  rw [leaving_iff running, leaving_iff s']

theorem not_leaving {call : Call} (running : space.call = some call)
    (stays : ∀ first count, call.unmap ≠ some (first, count, true)) (page : Nat) :
    ¬ leaving space page := by
  rw [leaving_iff running]
  rintro ⟨first, count, here, _⟩
  exact stays first count here

theorem Valid.kept_in {call : Call} (ok : Valid cfg space) (running : space.call = some call)
    (owned : space.owned page = true) :
    (space.mark page).isSome ∨ leaving space page ∨ page ∈ call.track := by
  rcases ok.kept page owned with tracked | going | ⟨_, same, mem⟩
  · exact .inl tracked
  · exact .inr (.inl going)
  · cases running.symm.trans same
    exact .inr (.inr mem)

theorem Valid.kept_still {call : Call} (ok : Valid cfg space)
    (running : space.call = some call) (pre : ∀ page, ¬ leaving space page)
    (owned : space.owned page = true) : (space.mark page).isSome ∨ page ∈ call.track :=
  (ok.kept_in running owned).imp_right fun moves => moves.resolve_left (pre page)

theorem Valid.marked_in (ok : Valid cfg space) (running : space.call = some ⟨[], unmap, track⟩)
    (tracked : (space.mark page).isSome) : (space.real page).isSome := by
  rcases ok.placed page tracked with mapped | ⟨_, same, mem⟩
  · exact mapped
  · cases running.symm.trans same
    cases mem

/-- With nothing left to deregister or to unmap, the call goes on to `rest` and leaves the tables
alone. -/
theorem Valid.proceed {rest : Option Call} (ok : Valid cfg space)
    (running : space.call = some ⟨[], unmap, track⟩) (pre : ∀ page, ¬ leaving space page)
    (kept : ∀ page, space.owned page = true → (space.mark page).isSome ∨
      ∃ call, rest = some call ∧ page ∈ call.track)
    (pending : ∀ call, rest = some call → Pending cfg { space with call := rest } call) :
    Valid cfg { space with call := rest } where
  alive := ok.alive
  mapped := ok.mapped
  sound := fun page found bytes _ => ok.sound page found bytes (pre page)
  placed := fun _ tracked => .inl (ok.marked_in running tracked)
  enabled := ok.enabled
  kept := fun page owned => (kept page owned).imp_right .inr
  pending := pending

theorem Pending.quiet {call : Call} (running : space.call = some call) (unmaps : call.unmap = none)
    (gone : ∀ page ∈ call.untrack,
      (space.real page = none ∨ space.mark page = none) ∧ space.owned page = false)
    (room : ∀ page ∈ call.track, space.owned page = true → space.mark page = none →
      space.slotNext + call.track.length ≤ cfg.slotCapacity)
    (present : ∀ page ∈ call.track, (space.real page).isSome ∧ page ≠ 0 ∧
      ¬ (cfg.arenaFirst ≤ page ∧ page < cfg.arenaFirst + cfg.arenaPages))
    (enabled : call.track ≠ [] → cfg.trackExternal = true) : Pending cfg space call where
  harmless := fun page mem => .inr (gone page mem).1
  released := fun page mem owned => by
    rw [(gone page mem).2] at owned
    cases owned
  cleared := fun page going => absurd going (not_leaving running (by simp [unmaps]) page)
  alone := fun some => by
    rw [unmaps] at some
    cases some
  room := room
  present := fun page mem => (present page mem).1
  outside := fun page mem => (present page mem).2
  enabled := enabled

theorem pending_done (cfg : Config) (space : Space Bytes) :
    Pending cfg { space with call := some ⟨[], none, []⟩ } ⟨[], none, []⟩ :=
  .quiet rfl rfl nofun nofun nofun nofun

/-- A page is deregistered. Its bytes do not depend on its blob: it is unmapped or about to be,
or it was not tracked. -/
theorem untrack_valid (ok : Valid cfg space)
    (running : space.call = some ⟨page :: untrack, unmap, track⟩)
    (moved : advance cfg space ⟨page :: untrack, unmap, track⟩ = some next) : Valid cfg next := by
  have pending := ok.pending _ running
  obtain ⟨changed, untracked, rfl⟩ := Option.map_eq_some_iff.mp moved
  have same : changed = { space with mark := update space.mark page none } := by
    unfold untrackPage at untracked
    split at untracked
    · cases untracked
    · exact (Option.some.inj untracked).symm
  subst same
  have leaves := fun j => @leaving_untrack _ space
    { space with mark := update space.mark page none
                 call := some ⟨untrack, unmap, track⟩ } unmap untrack track page running rfl j
  have listed : ∀ j, j ≠ page → j ∈ page :: untrack → j ∈ untrack :=
    fun j apart mem => (mem_cons.mp mem).resolve_left apart
  refine ⟨ok.alive, ok.mapped, fun j found bytes stays mapped shown => ?_,
    fun j tracked => ?_, fun j tracked => ?_, fun j owned => ?_, fun call here => ?_⟩
  · rw [leaves] at stays
    have pre := ok.sound j found bytes stays mapped shown
    by_cases here : j = page
    · subst here
      rcases pending.harmless j mem_cons_self with going | gone | untracked
      · exact absurd going stays
      · cases gone.symm.trans mapped
      · rw [untracked] at pre
        simpa using pre
    · simpa [here] using pre
  · by_cases here : j = page
    · simp [here] at tracked
    · simp only [update_of_ne here] at tracked
      refine (ok.placed j tracked).imp_right ?_
      rintro ⟨call, same, mem⟩
      cases running.symm.trans same
      exact ⟨_, rfl, listed j here mem⟩
  · by_cases here : j = page
    · simp [here] at tracked
    · simp only [update_of_ne here] at tracked
      exact ok.enabled j tracked
  · rw [leaves]
    by_cases here : j = page
    · subst here
      exact .inr (.inl (pending.released j mem_cons_self owned))
    · rcases ok.kept_in running owned with tracked | going | mem
      · exact .inl (by simpa [here] using tracked)
      · exact .inr (.inl going)
      · exact .inr (.inr ⟨_, rfl, mem⟩)
  · cases here
    refine ⟨fun j mem => ?_, fun j mem owned => ?_, fun j going tracked => ?_,
      pending.alone, fun j mem owned missing => ?_, pending.present, pending.outside,
      pending.enabled⟩
    · rw [leaves]
      refine (pending.harmless j (mem_cons_of_mem page mem)).imp_right
        (Or.imp_right fun none => ?_)
      by_cases here : j = page <;> simp [here, none]
    · rw [leaves]
      exact pending.released j (mem_cons_of_mem page mem) owned
    · rw [leaves] at going
      by_cases here : j = page
      · simp [here] at tracked
      · exact listed j here (pending.cleared j going (by simpa [here] using tracked))
    · by_cases here : j = page
      · -- a page that goes away with `munmap` is not registered again by the same call
        subst here
        obtain ⟨first, count, unmaps, _⟩ :=
          (leaving_iff running j).mp (pending.released j mem_cons_self owned)
        have h : unmap = some (first, count, true) := unmaps
        have nothing : track = [] := pending.alone (by simp [h])
        have listed : j ∈ track := mem
        rw [nothing] at listed
        cases listed
      · exact pending.room j mem owned (by simpa [here] using missing)

theorem unmap_valid {first count : Nat} (ok : Valid cfg space)
    (running : space.call = some ⟨[], some (first, count, true), track⟩)
    (moved : advance cfg space ⟨[], some (first, count, true), track⟩ = some next) :
    Valid cfg next := by
  have pending := ok.pending _ running
  have nothing : track = [] := pending.alone rfl
  cases moved
  have leaves : ∀ page, leaving space page ↔ first ≤ page ∧ page < first + count := fun page => by
    rw [leaving_iff running]
    simp
  have untracked : ∀ page, first ≤ page ∧ page < first + count → space.mark page = none :=
    fun page inside => by
      by_contra tracked
      have mem := pending.cleared page ((leaves page).mpr inside)
        (Option.isSome_iff_ne_none.mpr tracked)
      cases mem
  have outside : ∀ page, (space.mark page).isSome → ¬ (first ≤ page ∧ page < first + count) :=
    fun page tracked inside => by
      rw [untracked page inside] at tracked
      cases tracked
  refine ⟨ok.alive, fun page => ?_, fun page found bytes _ mapped shown => ?_,
    fun page tracked => ?_, ok.enabled, fun page owned => ?_, fun call here => ?_⟩
  · simp only [overlay]
    split
    · rfl
    · exact ok.mapped page
  · simp only [overlay] at mapped shown
    split at mapped
    · cases mapped
    next inside =>
      rw [if_neg inside] at shown
      exact ok.sound page found bytes (fun going => inside ((leaves page).mp going)) mapped shown
  · simp only [overlay, if_neg (outside page tracked)]
    exact .inl (ok.marked_in running tracked)
  · simp only [overlay] at owned
    split at owned
    · cases owned
    next inside =>
      rcases ok.kept_in running owned with tracked | going | mem
      · exact .inl tracked
      · exact absurd ((leaves page).mp going) inside
      · exact .inr (.inr ⟨_, rfl, mem⟩)
  · cases here
    subst nothing
    exact pending_done cfg { space with
      ideal := overlay first count (fun _ => none) space.ideal
      real := overlay first count (fun _ => none) space.real
      owned := overlay first count (fun _ => false) space.owned }

theorem refused_valid {first count : Nat} (ok : Valid cfg space)
    (running : space.call = some ⟨[], some (first, count, false), track⟩)
    (moved : advance cfg space ⟨[], some (first, count, false), track⟩ = some next) :
    Valid cfg next := by
  have nothing : track = [] := (ok.pending _ running).alone rfl
  subst nothing
  cases moved
  have pre : ∀ page, ¬ leaving space page := not_leaving running fun _ _ same => by cases same
  refine ok.proceed running pre
    (fun page owned => .inl ((ok.kept_still running pre owned).resolve_right nofun))
    fun call here => ?_
  cases here
  exact pending_done cfg space

theorem return_valid (ok : Valid cfg space) (running : space.call = some ⟨[], none, []⟩)
    (moved : advance cfg space ⟨[], none, []⟩ = some next) : Valid cfg next := by
  cases moved
  have pre : ∀ page, ¬ leaving space page := not_leaving running nofun
  exact ok.proceed running pre
    (fun page owned => .inl ((ok.kept_still running pre owned).resolve_right nofun)) nofun

theorem holds_plain {mark : Option (Mark Bytes)} {found : Page Bytes} {bytes : Bytes}
    (idle : engaged mark = false) :
    Holds cfg mark found bytes ↔ found.closed = false ∧ found.contents = bytes := by
  cases mark with
  | none => exact Iff.rfl
  | some mark =>
    cases mark with
    | active => exact Iff.rfl
    | shadow blob => exact Iff.rfl
    | busy snapshot => cases idle
    | packed blob => cases idle

theorem register_valid (ok : Valid cfg space)
    (running : space.call = some ⟨[], none, page :: track⟩)
    (idle : engaged (space.mark page) = false)
    (moved : advance cfg space ⟨[], none, page :: track⟩ = some next) : Valid cfg next := by
  have pending := ok.pending _ running
  have pre : ∀ j, ¬ leaving space j := not_leaving running nofun
  have kept : ∀ j, space.owned j = true → (space.mark j).isSome ∨
      j = page ∨ j ∈ track := fun j owned =>
    (ok.kept_still running pre owned).imp_right mem_cons.mp
  have later : ∀ j ∈ track, j ∈ page :: track := fun _ => mem_cons_of_mem page
  have present : ∀ j ∈ track, (space.real j).isSome ∧ j ≠ 0 ∧
      ¬ (cfg.arenaFirst ≤ j ∧ j < cfg.arenaFirst + cfg.arenaPages) :=
    fun j mem =>
      ⟨pending.present j (later j mem), pending.outside j (later j mem)⟩
  unfold advance at moved
  cases moved
  unfold registerPage
  obtain ⟨nonzero, outside⟩ := pending.outside page mem_cons_self
  by_cases full : cfg.slotCapacity ≤ space.slotNext
  · rw [if_pos (.inl full)]
    refine ok.proceed running pre (fun j owned => ?_) fun call here => ?_
    · rcases kept j owned with tracked | rfl | mem
      · exact .inl tracked
      · -- the tracker is full, so this page was not waiting for a slot
        by_cases tracked : (space.mark j).isSome
        · exact .inl tracked
        · have missing : space.mark j = none := by simpa using tracked
          have room := pending.room j mem_cons_self owned missing
          simp only [length_cons] at room
          omega
      · exact .inr ⟨_, rfl, mem⟩
    · cases here
      refine .quiet rfl rfl nofun (fun j mem owned missing => ?_) present
        fun _ => pending.enabled (by simp)
      have room := pending.room j (later j mem) owned missing
      simp only [length_cons] at room
      omega
  · rw [if_neg (by simp only [full, nonzero, outside, or_self, not_false_eq_true])]
    refine ⟨ok.alive, ok.mapped, fun j found bytes _ mapped shown => ?_,
      fun j tracked => ?_, fun j tracked => ?_, fun j owned => ?_, fun call here => ?_⟩
    · have h := ok.sound j found bytes (pre j) mapped shown
      by_cases here : j = page
      · subst here
        simpa [Holds] using (holds_plain idle).mp h
      · simpa [here] using h
    · by_cases here : j = page
      · subst here
        exact .inl (pending.present j mem_cons_self)
      · exact .inl (ok.marked_in running (by simpa [here] using tracked))
    · by_cases here : j = page
      · exact pending.enabled (by simp)
      · exact ok.enabled j (by simpa [here] using tracked)
    · by_cases here : j = page
      · simp [here]
      · simp only [update_of_ne here] at owned ⊢
        rcases kept j owned with tracked | same | mem
        · exact .inl tracked
        · exact absurd same here
        · exact .inr (.inr ⟨_, rfl, mem⟩)
    · cases here
      refine .quiet rfl rfl nofun (fun j mem owned missing => ?_) present
        fun _ => pending.enabled (by simp)
      by_cases here : j = page
      · simp [here] at missing
      · have room := pending.room j (later j mem) (by simpa [here] using owned)
          (by simpa [here] using missing)
        simp only [length_cons] at room ⊢
        split <;> omega

theorem advance_valid {call : Call} (valid : Valid cfg space) (running : space.call = some call)
    (idle : ∀ page ∈ registersNext space, engaged (space.mark page) = false)
    (moved : advance cfg space call = some next) : Valid cfg next := by
  obtain ⟨untrack, unmap, track⟩ := call
  cases untrack with
  | cons page rest => exact untrack_valid valid running moved
  | nil =>
    cases unmap with
    | some k =>
      obtain ⟨first, count, ok⟩ := k
      cases ok with
      | true => exact unmap_valid valid running moved
      | false => exact refused_valid valid running moved
    | none =>
      cases track with
      | nil => exact return_valid valid running moved
      | cons page rest =>
        refine register_valid valid running (idle page ?_) moved
        simp [registersNext, running]

end Advance

section Ranges

variable {base len page : Nat}

abbrev Inside (base len page : Nat) : Prop :=
  base / kPageSize ≤ page ∧ page < base / kPageSize + pageCount len

theorem mem_pageRange : page ∈ pageRange base len ↔ base ≠ 0 ∧ len ≠ 0 ∧
    base / kPageSize ≤ page ∧ page < (base + len + (kPageSize - 1)) % wordSize / kPageSize := by
  unfold pageRange
  split
  next skipped =>
    refine iff_of_false not_mem_nil fun listed => ?_
    rcases skipped with zero | zero
    · exact listed.1 zero
    · exact listed.2.1 zero
  next taken =>
    rw [mem_range'_1]
    push Not at taken
    simp only [taken.1, taken.2, ne_eq, not_false_eq_true, true_and]
    omega

theorem mem_pageRange_aligned (aligned : base % kPageSize = 0) (nonzero : base ≠ 0)
    (fits : base + len + kPageSize ≤ wordSize) :
    page ∈ pageRange base len ↔ Inside base len page := by
  rw [mem_pageRange]
  simp only [Inside, pageCount, kPageSize, wordSize] at *
  omega

theorem length_pageRange (aligned : base % kPageSize = 0)
    (fits : base + len + kPageSize ≤ wordSize) : (pageRange base len).length ≤ pageCount len := by
  unfold pageRange
  split
  · exact Nat.zero_le _
  · simp only [length_range', pageCount, kPageSize, wordSize] at *
    omega

theorem mem_registered {skip : Bool} (listed : page ∈ registered cfg skip base len) :
    cfg.trackExternal = true ∧ page ∈ pageRange base len := by
  unfold registered at listed
  split at listed
  · cases listed
  next taken =>
    push Not at taken
    exact ⟨by simpa using taken.1, listed⟩

theorem registered_enabled {skip : Bool} (some : registered cfg skip base len ≠ []) :
    cfg.trackExternal = true := by
  obtain ⟨page, listed⟩ := exists_mem_of_ne_nil _ some
  exact (mem_registered listed).1

theorem Placed.outside (placed : Placed cfg base len) (inside : Inside base len page) : page ≠ 0 ∧
      ¬ (cfg.arenaFirst ≤ page ∧ page < cfg.arenaFirst + cfg.arenaPages) := by
  obtain ⟨aligned, nonzero, -, -, apart⟩ := placed
  simp only [Inside, kPageSize] at *
  omega

theorem Placed.mem_pageRange (placed : Placed cfg base len) :
    page ∈ pageRange base len ↔ Inside base len page :=
  mem_pageRange_aligned placed.1 placed.2.1 placed.2.2.2.1

end Ranges

section Relocation

variable {source target oldCount newCount : Nat}

theorem relocate_cases (page : Nat) : (∃ i, i < oldCount ∧ i < newCount ∧ page = target + i ∧
      ∀ {Entry : Type} (added left table : Nat → Entry),
        relocate source target oldCount newCount added left table page = table (source + i)) ∨
    (target + oldCount ≤ page ∧ page < target + newCount ∧
      ∀ {Entry : Type} (added left table : Nat → Entry),
        relocate source target oldCount newCount added left table page = added page) ∨
    (¬ (target ≤ page ∧ page < target + newCount) ∧ source ≤ page ∧ page < source + oldCount ∧
      ∀ {Entry : Type} (added left table : Nat → Entry),
        relocate source target oldCount newCount added left table page = left page) ∨
    (¬ (target ≤ page ∧ page < target + newCount) ∧ ¬ (source ≤ page ∧ page < source + oldCount) ∧
      ∀ {Entry : Type} (added left table : Nat → Entry),
        relocate source target oldCount newCount added left table page = table page) := by
  by_cases arrives : target ≤ page ∧ page < target + newCount
  · by_cases along : page - target < oldCount
    · refine .inl ⟨page - target, along, by omega, by omega, fun added left table => ?_⟩
      rw [relocate, if_pos arrives, if_pos along]
    · refine .inr (.inl ⟨by omega, arrives.2, fun added left table => ?_⟩)
      rw [relocate, if_pos arrives, if_neg along]
  · by_cases departs : source ≤ page ∧ page < source + oldCount
    · refine .inr (.inr (.inl ⟨arrives, departs.1, departs.2, fun added left table => ?_⟩))
      rw [relocate, if_neg arrives, if_pos departs]
    · refine .inr (.inr (.inr ⟨arrives, departs, fun added left table => ?_⟩))
      rw [relocate, if_neg arrives, if_neg departs]

end Relocation

section Starts

structure Rested (cfg : Config) (space : Space Bytes) : Prop extends Valid cfg space where
  free : space.call = none

namespace Rested

variable (rested : Rested cfg space) {page : Nat}

include rested

theorem stays (page : Nat) : ¬ leaving space page := by
  rintro ⟨call, first, count, running, _⟩
  cases rested.free.symm.trans running

theorem marked (tracked : (space.mark page).isSome) : (space.real page).isSome := by
  rcases rested.placed page tracked with mapped | ⟨call, running, _⟩
  · exact mapped
  · cases rested.free.symm.trans running

theorem owned (owned : space.owned page = true) : (space.mark page).isSome := by
  rcases rested.kept page owned with tracked | going | ⟨call, running, _⟩
  · exact tracked
  · exact absurd going (rested.stays page)
  · cases rested.free.symm.trans running

theorem unmarked (unmapped : space.real page = none) : space.mark page = none := by
  by_contra tracked
  have mapped := rested.marked (Option.isSome_iff_ne_none.mpr tracked)
  rw [unmapped] at mapped
  cases mapped

end Rested

theorem mmap_valid {args : MmapArgs Bytes} (rested : Rested cfg space)
    (may : args.ok = true → ∀ i < pageCount args.len,
      engaged (space.mark (args.ret / kPageSize + i)) = false)
    (moved : mmap cfg space args = some next) : Valid cfg next := by
  unfold mmap at moved
  dsimp only at moved
  split at moved
  next =>
    cases moved
    exact rested.toValid
  next ok =>
    have idle : ∀ page, Inside args.ret args.len page → engaged (space.mark page) = false :=
      fun page inside => by
        have h := may (by simpa using ok) (page - args.ret / kPageSize) (by omega)
        rwa [Nat.add_sub_cancel' inside.1] at h
    split at moved
    next fits =>
      obtain ⟨placed, -⟩ := fits
      cases moved
      refine ⟨rested.alive, fun page => ?_, fun page found bytes _ mapped shown => ?_,
        fun page tracked => .inl ?_, rested.enabled, fun page owned => .inl ?_, fun call here => ?_⟩
      · simp only [overlay]
        split
        · rfl
        · exact rested.mapped page
      · simp only [overlay] at mapped shown
        split at mapped
        next inside =>
          rw [if_pos inside] at shown
          cases mapped
          cases shown
          exact (holds_plain (idle page inside)).mpr ⟨rfl, rfl⟩
        next inside =>
          rw [if_neg inside] at shown
          exact rested.sound page found bytes (rested.stays page) mapped shown
      · simp only [overlay]
        split
        · rfl
        · exact rested.marked tracked
      · simp only [overlay] at owned
        split at owned
        · cases owned
        · exact rested.owned owned
      · dsimp only at here
        split at here
        next wanted =>
          cases here
          refine .quiet (if_pos wanted) rfl nofun (fun page mem owned => ?_)
            (fun page mem => ?_) registered_enabled
          · have inside := placed.mem_pageRange.mp (mem_registered mem).2
            simp only [overlay, if_pos inside] at owned
            cases owned
          · have inside := placed.mem_pageRange.mp (mem_registered mem).2
            simp only [overlay, if_pos inside]
            exact ⟨rfl, placed.outside inside⟩
        next => cases here
    next => cases moved

theorem munmap_valid {base len : Nat} {ok : Bool} (rested : Rested cfg space)
    (may : ok = true ∨ ∀ page ∈ pageRange base len, space.mark page = none)
    (moved : munmap cfg space base len ok = some next) : Valid cfg next := by
  unfold munmap at moved
  split at moved
  next accepted =>
    cases moved
    have listed : ∀ page ∈ deregistered cfg base len, page ∈ pageRange base len :=
      fun page mem => by
        unfold deregistered at mem
        split at mem
        · exact mem
        · cases mem
    have leaves : ∀ page, leaving { space with
        call := some ⟨deregistered cfg base len,
          some (base / kPageSize, pageCount len, ok), []⟩ } page ↔
        ok = true ∧ Inside base len page :=
      fun page => by
        rw [leaving_iff rfl]
        simp only [Option.some.injEq, Prod.mk.injEq]
        constructor
        · rintro ⟨first, count, ⟨rfl, rfl, succeeded⟩, inside⟩
          exact ⟨succeeded, inside⟩
        · rintro ⟨succeeded, inside⟩
          exact ⟨_, _, ⟨rfl, rfl, succeeded⟩, inside⟩
    have inside : ok = true → ∀ page, page ∈ pageRange base len ↔
        Inside base len page :=
      fun succeeded page => by
        rcases accepted with refused | placed
        · cases succeeded.symm.trans refused
        · exact placed.mem_pageRange
    have untracked : ok = false → ∀ page ∈ pageRange base len, space.mark page = none :=
      fun refused => may.resolve_left (by simp [refused])
    refine ⟨rested.alive, rested.mapped,
      fun page found bytes _ => rested.sound page found bytes (rested.stays page),
      fun page tracked => .inl (rested.marked tracked), rested.enabled,
      fun page owned => .inl (rested.owned owned), fun call here => ?_⟩
    cases here
    refine ⟨fun page mem => ?_, fun page mem owned => ?_, fun page going tracked => ?_,
      fun _ => rfl, nofun, nofun, nofun, fun some => absurd rfl some⟩
    · rw [leaves]
      cases ok with
      | true => exact .inl ⟨rfl, (inside rfl page).mp (listed page mem)⟩
      | false => exact .inr (.inr (untracked rfl page (listed page mem)))
    · rw [leaves]
      cases ok with
      | true => exact ⟨rfl, (inside rfl page).mp (listed page mem)⟩
      | false =>
        have tracked := rested.owned owned
        rw [untracked rfl page (listed page mem)] at tracked
        cases tracked
    · rw [leaves] at going
      simp only [deregistered, rested.enabled page tracked, if_true]
      exact (inside going.1 page).mpr going.2
  next => cases moved

structure Shifted (cfg : Config) (space : Space Bytes) (args : MremapArgs Bytes) : Prop where
  remaps : Remaps cfg space args
  follows : Follows cfg space args

namespace Shifted

variable {args : MremapArgs Bytes} (shifted : Shifted cfg space args) {page : Nat}

include shifted

theorem placed : Placed cfg args.ret args.newSize := shifted.remaps.2.2.2.1

theorem source_mapped {i : Nat} (below : i < pageCount args.oldSize) :
    (space.real (args.old / kPageSize + i)).isSome := by
  have mapped := shifted.remaps.2.2.2.2.1
  simp only [mappedAt, all_eq_true, mem_range'_1] at mapped
  exact mapped _ ⟨Nat.le_add_right _ _, Nat.add_lt_add_left below _⟩

theorem inPlace (same : args.ret = args.old) : args.dontUnmap = false ∧
    ∀ page, args.old / kPageSize + pageCount args.oldSize ≤ page →
      page < args.old / kPageSize + pageCount args.newSize → space.real page = none := by
  have checked := shifted.remaps.2.2.2.2.2
  simp only [if_pos same, unmappedAt, all_eq_true, mem_range'_1] at checked
  refine ⟨checked.1, fun page low high => ?_⟩
  exact Option.isNone_iff_eq_none.mp (checked.2 page ⟨low, by omega⟩)

theorem apart (moves : args.ret ≠ args.old) :
    args.old / kPageSize + pageCount args.oldSize ≤ args.ret / kPageSize ∨
      args.ret / kPageSize + pageCount args.newSize ≤ args.old / kPageSize := by
  have checked := shifted.remaps.2.2.2.2.2
  rwa [if_neg moves] at checked

theorem source_idle (moves : args.ret ≠ args.old) {i : Nat}
    (old : i < pageCount args.oldSize) (new : i < pageCount args.newSize) :
    engaged (space.mark (args.old / kPageSize + i)) = false := by
  have follows := shifted.follows
  unfold Follows at follows
  rw [if_neg moves] at follows
  exact follows.1 i (by omega)

theorem target_idle (moves : args.ret ≠ args.old) (low : args.ret / kPageSize ≤ page)
    (high : page < args.ret / kPageSize + pageCount args.newSize) :
    engaged (space.mark page) = false := by
  have follows := shifted.follows
  unfold Follows at follows
  rw [if_neg moves] at follows
  have h := follows.2.1 (page - args.ret / kPageSize) (by omega)
  rwa [Nat.add_sub_cancel' low] at h

theorem followed (moves : args.ret ≠ args.old) {i : Nat} (below : i < pageCount args.oldSize)
    (tracked : (space.mark (args.old / kPageSize + i)).isSome) :
    args.dontUnmap = false ∧ args.skip = false ∧
      space.slotNext + pageCount args.newSize ≤ cfg.slotCapacity := by
  have follows := shifted.follows
  unfold Follows at follows
  rw [if_neg moves] at follows
  refine follows.2.2.resolve_left fun none => ?_
  rw [none i below] at tracked
  cases tracked

theorem old_range : page ∈ pageRange args.old args.oldSize ↔ Inside args.old args.oldSize page :=
  mem_pageRange_aligned shifted.remaps.1 shifted.remaps.2.1 shifted.remaps.2.2.1

theorem left_behind (low : args.old / kPageSize ≤ page)
    (high : page < args.old / kPageSize + pageCount args.oldSize)
    (tracked : (space.mark page).isSome) : args.dontUnmap = false := by
  by_cases same : args.ret = args.old
  · exact (shifted.inPlace same).1
  · have here : args.old / kPageSize + (page - args.old / kPageSize) = page := by omega
    exact (shifted.followed same (by omega) (here.symm ▸ tracked)).1

theorem arrived (low : args.ret / kPageSize ≤ page)
    (high : page < args.ret / kPageSize + pageCount args.newSize) :
    ((remapped cfg space args).real page).isSome := by
  unfold remapped
  dsimp only
  rcases relocate_cases page with ⟨i, old, -, -, moved⟩ | ⟨-, -, moved⟩ | ⟨gone, -, -, -⟩ |
    ⟨gone, -, -⟩
  · rw [moved]
    exact shifted.source_mapped old
  · rw [moved]
    rfl
  · exact absurd ⟨low, high⟩ gone
  · exact absurd ⟨low, high⟩ gone

theorem track_inside (listed : page ∈ (mremapCall cfg args).track) :
    cfg.trackExternal = true ∧ Inside args.ret args.newSize page := by
  have placed := shifted.placed
  unfold mremapCall at listed
  split_ifs at listed with off moves grows shrinks
  · cases listed
  · exact ⟨(mem_registered listed).1, placed.mem_pageRange.mp (mem_registered listed).2⟩
  · obtain ⟨enabled, mem⟩ := mem_registered listed
    obtain ⟨aligned, _, _, fits, _⟩ := placed
    rw [mem_pageRange] at mem
    refine ⟨enabled, ?_⟩
    simp only [Inside, pageCount, kPageSize, wordSize] at *
    omega
  · cases listed
  · cases listed

/-- It deregisters pages of the old range that are gone, and when it shrinks a range in place by
a part of a page, the page it cuts through. -/
theorem untrack_inside (listed : page ∈ (mremapCall cfg args).untrack) :
    Inside args.old args.oldSize page ∧
      (args.ret = args.old → args.ret / kPageSize + pageCount args.newSize ≤ page ∨
        space.mark page = none) := by
  have placed := shifted.placed
  have follows := shifted.follows
  unfold mremapCall at listed
  split_ifs at listed with off moves grows shrinks
  · cases listed
  · rw [deregistered, if_pos (by simpa using off)] at listed
    have inside := shifted.old_range.mp listed
    exact ⟨inside, fun same => absurd same moves⟩
  · cases listed
  · rw [deregistered, if_pos (by simpa using off), mem_pageRange] at listed
    have same : args.ret = args.old := by simpa using moves
    unfold Follows at follows
    rw [if_pos same] at follows
    have cut := follows shrinks
    obtain ⟨aligned, _, _, fits, _⟩ := placed
    have oldFits := shifted.remaps.2.2.1
    rw [← same] at oldFits ⊢
    by_cases whole : args.newSize % kPageSize = 0
    · simp only [Inside, pageCount, kPageSize, wordSize] at *
      omega
    · have untracked := cut.resolve_left whole
      by_cases here : page = (args.ret + args.newSize) / kPageSize
      · subst here
        refine ⟨⟨?_, ?_⟩, fun _ => .inr untracked⟩ <;>
          simp only [pageCount, kPageSize, wordSize] at * <;> omega
      · simp only [Inside, pageCount, kPageSize, wordSize] at *
        omega
  · cases listed

end Shifted

section Remapped

variable {args : MremapArgs Bytes} (rested : Rested cfg space)
  (shifted : Shifted cfg space args) {page : Nat}

include rested shifted

omit shifted in
theorem remapped_mapped (page : Nat) : ((remapped cfg space args).real page).isSome =
    ((remapped cfg space args).ideal page).isSome := by
  unfold remapped
  dsimp only
  rcases relocate_cases page with ⟨i, -, -, -, moved⟩ | ⟨-, -, moved⟩ | ⟨-, -, -, moved⟩ |
    ⟨-, -, moved⟩ <;> rw [moved, moved]
  · exact rested.mapped _
  · rfl
  · split <;> rfl
  · exact rested.mapped page

theorem remapped_sound {found : Page Bytes} {bytes : Bytes}
    (mapped : (remapped cfg space args).real page = some found)
    (shown : (remapped cfg space args).ideal page = some bytes) :
    Holds cfg (space.mark page) found bytes := by
  unfold remapped at mapped shown
  dsimp only at mapped shown
  rcases relocate_cases page with ⟨i, old, new, here, moved⟩ | ⟨low, high, moved⟩ |
    ⟨-, low, high, moved⟩ | ⟨-, -, moved⟩ <;> rw [moved] at mapped shown
  · have pre := rested.sound _ found bytes (rested.stays _) mapped shown
    by_cases same : args.ret = args.old
    · rw [here, same]
      exact pre
    · have h := (holds_plain (shifted.source_idle same old new)).mp pre
      refine (holds_plain ?_).mpr h
      exact shifted.target_idle same (by omega) (by omega)
  · cases mapped
    cases shown
    refine (holds_plain ?_).mpr ⟨rfl, rfl⟩
    by_cases same : args.ret = args.old
    · rw [same] at low high
      rw [rested.unmarked ((shifted.inPlace same).2 page low high)]
      rfl
    · exact shifted.target_idle same (by omega) high
  · by_cases stays : args.dontUnmap = true
    · rw [if_pos stays] at mapped shown
      cases mapped
      cases shown
      have untracked : space.mark page = none := by
        by_contra tracked
        have gone := shifted.left_behind low high (Option.isSome_iff_ne_none.mpr tracked)
        cases stays.symm.trans gone
      rw [untracked]
      exact ⟨rfl, rfl⟩
    · rw [if_neg stays] at mapped
      cases mapped
  · exact rested.sound page found bytes (rested.stays page) mapped shown

theorem remapped_placed (tracked : (space.mark page).isSome) :
    ((remapped cfg space args).real page).isSome ∨ page ∈ (mremapCall cfg args).untrack := by
  have enabled := rested.enabled page tracked
  have pre := rested.marked tracked
  by_cases arrives : Inside args.ret args.newSize page
  · exact .inl (shifted.arrived arrives.1 arrives.2)
  · by_cases departs : Inside args.old args.oldSize page
    · right
      unfold mremapCall
      rw [if_neg (by simp [enabled])]
      split_ifs with moves grows shrinks
      · rw [deregistered, if_pos enabled]
        exact shifted.old_range.mpr departs
      · have same : args.ret = args.old := by simpa using moves
        have fits := shifted.placed.2.2.2.1
        have oldFits := shifted.remaps.2.2.1
        rw [same] at arrives fits
        simp only [Inside, pageCount, kPageSize, wordSize] at *
        omega
      · have same : args.ret = args.old := by simpa using moves
        have nonzero := shifted.remaps.2.1
        have fits := shifted.placed.2.2.2.1
        have oldFits := shifted.remaps.2.2.1
        have aligned := shifted.remaps.1
        rw [same] at arrives fits ⊢
        rw [deregistered, if_pos enabled, mem_pageRange]
        simp only [Inside, pageCount, kPageSize, wordSize] at *
        omega
      · have same : args.ret = args.old := by simpa using moves
        have equal : args.newSize = args.oldSize := by omega
        rw [same, equal] at arrives
        exact absurd departs arrives
    · left
      unfold remapped relocate
      dsimp only
      rw [if_neg arrives, if_neg departs]
      exact pre

theorem remapped_kept (owned : (remapped cfg space args).owned page = true) :
    (space.mark page).isSome ∨ (args.ret ≠ args.old ∧ page ∈ (mremapCall cfg args).track ∧
      space.slotNext + pageCount args.newSize ≤ cfg.slotCapacity) := by
  unfold remapped at owned
  dsimp only at owned
  rcases relocate_cases page with ⟨i, old, new, here, moved⟩ | ⟨-, -, moved⟩ |
    ⟨-, low, high, moved⟩ | ⟨-, -, moved⟩ <;> rw [moved] at owned
  · have tracked := rested.owned owned
    by_cases same : args.ret = args.old
    · rw [here, same]
      exact .inl tracked
    · obtain ⟨-, wanted, room⟩ := shifted.followed same old tracked
      refine .inr ⟨same, ?_, room⟩
      unfold mremapCall
      rw [if_neg (by simp [rested.enabled _ tracked]), if_pos same]
      unfold registered
      rw [if_neg (by simp [rested.enabled _ tracked, wanted]; omega)]
      exact shifted.placed.mem_pageRange.mpr (by omega)
  · cases owned
  · obtain ⟨stays, mine⟩ := Bool.and_eq_true_iff.mp owned
    exact .inl (rested.owned mine)
  · exact .inl (rested.owned owned)

theorem remapped_pending : Pending cfg (remapped cfg space args) (mremapCall cfg args) := by
  -- deregistered pages are unmapped by now, or were not tracked and not owned
  have gone : ∀ page ∈ (mremapCall cfg args).untrack,
      ((remapped cfg space args).real page = none ∨ space.mark page = none) ∧
        (remapped cfg space args).owned page = false := by
    intro page listed
    obtain ⟨⟨low, high⟩, cut⟩ := shifted.untrack_inside listed
    by_cases arrives : Inside args.ret args.newSize page
    · have same : args.ret = args.old := by
        by_contra moves
        have apart := shifted.apart moves
        omega
      have untracked := (cut same).resolve_left (by omega)
      refine ⟨.inr untracked, ?_⟩
      by_contra mine
      rcases remapped_kept rested shifted (by simpa using mine) with tracked | ⟨moves, -, -⟩
      · rw [untracked] at tracked
        cases tracked
      · exact moves same
    · have departs : Inside args.old args.oldSize page := ⟨low, high⟩
      unfold remapped relocate
      dsimp only
      rw [if_neg arrives, if_pos departs, if_neg arrives, if_pos departs]
      by_cases tracked : (space.mark page).isSome
      · simp [shifted.left_behind low high tracked]
      · have untracked : space.mark page = none := by simpa using tracked
        have mine : space.owned page = false := by
          by_contra owned
          exact tracked (rested.owned (by simpa using owned))
        exact ⟨.inr untracked, by simp [mine]⟩
  refine .quiet rfl ?_ gone (fun page listed owned missing => ?_) (fun page listed => ?_)
    fun some => ?_
  · unfold mremapCall
    split_ifs <;> rfl
  · rcases remapped_kept rested shifted owned with tracked | ⟨moves, -, room⟩
    · have untracked : space.mark page = none := missing
      rw [untracked] at tracked
      cases tracked
    · refine Nat.le_trans (Nat.add_le_add_left ?_ _) room
      obtain ⟨enabled, -⟩ := shifted.track_inside listed
      unfold mremapCall
      rw [if_neg (by simp [enabled]), if_pos moves]
      unfold registered
      split
      · exact Nat.zero_le _
      · exact length_pageRange shifted.placed.1 shifted.placed.2.2.2.1
  · obtain ⟨-, inside⟩ := shifted.track_inside listed
    exact ⟨shifted.arrived inside.1 inside.2, shifted.placed.outside inside⟩
  · obtain ⟨page, listed⟩ := exists_mem_of_ne_nil _ some
    exact (shifted.track_inside listed).1

theorem remapped_valid : Valid cfg (remapped cfg space args) where
  alive := rested.alive
  mapped := remapped_mapped rested
  sound := fun _ _ _ _ mapped shown => remapped_sound rested shifted mapped shown
  placed := fun _ tracked => (remapped_placed rested shifted tracked).imp_right
    fun listed => ⟨_, rfl, listed⟩
  enabled := rested.enabled
  kept := fun _ owned => (remapped_kept rested shifted owned).imp_right
    fun ⟨_, listed, _⟩ => .inr ⟨_, rfl, listed⟩
  pending := fun _ running => by
    cases running
    exact remapped_pending rested shifted

end Remapped

theorem mremap_valid {args : MremapArgs Bytes} (rested : Rested cfg space)
    (may : args.ok = true → Follows cfg space args)
    (moved : mremap cfg space args = some next) : Valid cfg next := by
  unfold mremap at moved
  split at moved
  next =>
    cases moved
    exact rested.toValid
  next ok =>
    split at moved
    next remaps =>
      cases moved
      exact remapped_valid rested ⟨remaps, may (by simpa using ok)⟩
    next => cases moved

end Starts

section Runs

variable [DecidableEq Bytes]

omit [DecidableEq Bytes] in
theorem boot_valid (mapped : Nat → Option Bytes) : Valid cfg (boot mapped) where
  alive := rfl
  mapped := fun page => by simp [boot]
  sound := fun page found bytes _ here shown => by
    obtain ⟨pre, present, rfl⟩ := Option.map_eq_some_iff.mp here
    cases present.symm.trans shown
    exact ⟨rfl, rfl⟩
  placed := nofun
  enabled := nofun
  kept := nofun
  pending := nofun

theorem step_valid {event : Event Bytes} (valid : Valid cfg space)
    (may : Allowed cfg space event) (moved : step cfg space event = some next) :
    Valid cfg next := by
  cases event with
  | mmap args =>
    simp only [step] at moved
    split at moved
    next free => exact mmap_valid ⟨valid, free⟩ may moved
    next => cases moved
  | munmap base len ok =>
    simp only [step] at moved
    split at moved
    next free => exact munmap_valid ⟨valid, free⟩ may moved
    next => cases moved
  | mremap args =>
    simp only [step] at moved
    split at moved
    next free => exact mremap_valid ⟨valid, free⟩ may moved
    next => cases moved
  | advance =>
    simp only [step] at moved
    split at moved
    next => cases moved
    next call running => exact advance_valid valid running may moved
  | claim page => exact claim_valid valid moved
  | copy page => exact copy_valid valid may moved
  | abort page => exact abort_valid valid moved
  | finish page junk => exact finish_valid valid moved
  | reclaim page junk => exact reclaim_valid valid may moved
  | fault page => exact fault_valid valid moved
  | store page bytes => exact store_valid valid moved

end Runs

section Inputs

end Inputs

end Smash.ExternalPages
