import Smash.PageContract

/-! Proof rules for programs that work on one page at a time. An assertion describes the
page in focus; a frame describes what the thread knows about the other pages meanwhile. -/
namespace Smash.Compressor

open Program PageMachine

variable {cfg : Config} {t : Thread}

def Firm (cfg : Config) (t : Thread) (quiet : Bool) (know : Cell → Prop) : Prop :=
  ∀ ⦃pre s'⦄, CellInv cfg.deferred pre → CellInv cfg.deferred s' →
    CellRely cfg.deferred quiet t pre s' → know pre → know s'

theorem Firm.quieter {know : Cell → Prop} (firm : Firm cfg t false know) (quiet : Bool) :
    Firm cfg t quiet know :=
  fun _ _ ok later relied holds => firm ok later relied.loud holds

theorem Firm.imp {quiet : Bool} {know : Cell → Prop} {fact : Prop} (firm : Firm cfg t quiet know) :
    Firm cfg t quiet fun c => fact → know c :=
  fun _ _ ok later relied h holds => firm ok later relied (h holds)

theorem Firm.and {quiet : Bool} {one two : Cell → Prop} (first : Firm cfg t quiet one)
    (second : Firm cfg t quiet two) : Firm cfg t quiet fun c => one c ∧ two c :=
  fun _ _ ok later relied h =>
    ⟨first ok later relied h.1, second ok later relied h.2⟩

/-- What the thread knows of the other pages survives whatever the others may do to them. -/
class Framed (cfg : Config) (t : Thread) (frame : Nat → Cell → Prop) : Prop where
  firm : ∀ j, Firm cfg t false (frame j)

instance : Framed cfg t fun _ _ => True := ⟨fun _ _ _ _ _ _ _ => trivial⟩

def Focus (frame : Nat → Cell → Prop) (i : Nat) (know : Cell → Prop) (s : Shared) : Prop :=
  know (s.page i) ∧ ∀ j, j ≠ i → frame j (s.page j)

/-- What one call does to its page, seen by the caller and by everybody else. -/
def Effect (cfg : Config) (t : Thread) (op : CellOp) (pre : Cell → Prop)
    (mid : CellAnswer op → Cell → Prop) : Prop :=
  ∀ b ch ans s', CellInv cfg.deferred b → pre b →
    CellSucceeds op ch → cellStep t op ch b = some (ans, s') →
    CellInv cfg.deferred s' ∧
      (∀ j quiet, j ≠ t → CellRely cfg.deferred quiet j b s') ∧
      mid ans s'

def Spec (cfg : Config) (t : Thread) (frame : Nat → Cell → Prop) (i : Nat)
    (pre : Cell → Prop) (prog : Code Result) (post : Result → Cell → Prop) : Prop :=
  ∀ s, (contract cfg).inv s → Focus frame i pre s →
    Safe perform (contract cfg) t prog
      (fun r s' => (contract cfg).inv s' ∧ Focus frame i (post r) s')
      s

abbrev Solo (cfg : Config) (t : Thread) (i : Nat) (pre : Cell → Prop)
    (prog : Code Result) (post : Result → Cell → Prop) : Prop :=
  Spec cfg t (fun _ _ => True) i pre prog post

section Rules

variable {frame : Nat → Cell → Prop} {i : Nat} {pre : Cell → Prop}
variable {Result Final : Type}
variable {op : CellOp} {mid : CellAnswer op → Cell → Prop} {next : CellAnswer op → Code Final}
variable {prog : Code Result}

theorem Focus.drift [Framed cfg t frame] {know : Cell → Prop} {pending : Option Op}
    {b s' : Shared} (firm : Firm cfg t (!cfg.deferred && writesBack i pending) know)
    (ok : (contract cfg).inv b) (later : (contract cfg).inv s')
    (relied : (contract cfg).rely t pending b s')
    (focus : Focus frame i know b) : Focus frame i know s' :=
  ⟨firm (ok i) (later i) (relied i) focus.1, fun j apart =>
    Framed.firm j (ok j) (later j) (relied j).loud (focus.2 j apart)⟩

theorem Spec.done {post : Result → Cell → Prop} {r : Result}
    (holds : ∀ c, CellInv cfg.deferred c → pre c → post r c) :
    Spec cfg t frame i pre (pure r) post :=
  fun _ ok focus => ⟨ok, holds _ (ok i) focus.1, focus.2⟩

theorem Spec.stay {r : Result} : Spec cfg t frame i pre (pure r) fun _ => pre :=
  .done fun _ _ h => h

theorem Spec.weaken {stronger : Cell → Prop} {post : Result → Cell → Prop}
    (spec : Spec cfg t frame i pre prog post)
    (implied : ∀ c, CellInv cfg.deferred c → stronger c → pre c) :
    Spec cfg t frame i stronger prog post :=
  fun s ok focus => spec s ok ⟨implied _ (ok i) focus.1, focus.2⟩

theorem Spec.impossible {post : Result → Cell → Prop}
    (never : ∀ c, CellInv cfg.deferred c → ¬ pre c) : Spec cfg t frame i pre prog post :=
  fun _ ok focus => (never _ (ok i) focus.1).elim

theorem Spec.bind {front : Code Result} {next : Result → Code Final} {mid : Result → Cell → Prop}
    {post : Final → Cell → Prop} (first : Spec cfg t frame i pre front mid)
    (second : ∀ r, Spec cfg t frame i (mid r) (next r) post) :
    Spec cfg t frame i pre (front >>= next) post :=
  fun s ok focus => .bind
    ((first s ok focus).mono fun r s' holds => second r s' holds.1 holds.2)

theorem Spec.post {mid post : Result → Cell → Prop} (spec : Spec cfg t frame i pre prog mid)
    (implied : ∀ r c, CellInv cfg.deferred c → mid r c → post r c) :
    Spec cfg t frame i pre prog post :=
  fun s ok focus => (spec s ok focus).mono fun r _ holds =>
    ⟨holds.1, implied r _ (holds.1 i) holds.2.1, holds.2.2⟩

theorem Spec.then {front : Code Result} {next : Result → Code Final} {v : Result}
    {mid : Cell → Prop} {post : Final → Cell → Prop}
    (first : Spec cfg t frame i pre front fun r c => r = v ∧ mid c)
    (second : Spec cfg t frame i mid (next v) post) :
    Spec cfg t frame i pre (front >>= next) post := by
  refine first.bind fun r => ?_
  rintro s ok ⟨⟨rfl, h⟩, apart⟩
  exact second s ok ⟨h, apart⟩

theorem Spec.tail {post : Result → Cell → Prop}
    (spec : Spec cfg t frame i pre (prog >>= pure) post) : Spec cfg t frame i pre prog post := by
  rw [Prog.bind_pure] at spec
  exact spec

theorem Spec.given {v ans : Result} {next : Result → Code Final} {post : Final → Cell → Prop}
    (spec : Spec cfg t frame i pre (next v) post) :
    Spec cfg t frame i (fun c => ans = v ∧ pre c) (next ans) post := by
  rintro s ok ⟨⟨rfl, h⟩, apart⟩
  exact spec s ok ⟨h, apart⟩

variable [Framed cfg t frame]

theorem Spec.call {post : Final → Cell → Prop} (effect : Effect cfg t op pre mid)
    (firm : ∀ ans, Firm cfg t (!cfg.deferred && writesBack i (next ans).head?) (mid ans))
    (further : ∀ ans, Spec cfg t frame i (mid ans) (next ans) post) :
    Spec cfg t frame i pre (on i op >>= next) post := by
  intro s ok focus ch ans s' may ran
  obtain ⟨inside, c, stepped, rfl⟩ := perform_page.mp ran
  obtain ⟨kept, promised, h⟩ := effect _ _ _ _ (ok i) focus.1 may stepped
  have holds : (contract cfg).inv (s.set i c) := by
    intro j
    by_cases same : j = i
    · subst same
      simpa using kept
    · simpa [Function.update_of_ne same] using ok j
  have here : Focus frame i (mid ans) (s.set i c) := by
    refine ⟨by simpa using h, fun j apart => ?_⟩
    simpa [Function.update_of_ne apart] using focus.2 j apart
  refine ⟨holds, ?_, fun later relied still => ?_⟩
  · intro j pending apart page
    by_cases same : page = i
    · subst same
      simpa using promised j _ apart
    · simpa [Function.update_of_ne same] using .refl _ _ j (s.page page)
  · exact further ans later still (here.drift (firm ans) holds still relied)

theorem Spec.step {post : Final → Cell → Prop} (effect : Effect cfg t op pre mid)
    (firm : ∀ ans, Firm cfg t false (mid ans))
    (further : ∀ ans, Spec cfg t frame i (mid ans) (next ans) post) :
    Spec cfg t frame i pre (on i op >>= next) post :=
  .call effect (fun ans => (firm ans).quieter _) further

theorem Spec.last {post : CellAnswer op → Cell → Prop} (effect : Effect cfg t op pre post)
    (firm : ∀ ans, Firm cfg t false (post ans)) : Spec cfg t frame i pre (on i op) post :=
  .step effect firm fun _ => .done fun _ _ holds => holds

theorem Spec.silent (op : Op) (told : Answer op → Prop) {next : Answer op → Code Final}
    {post : Final → Cell → Prop} (silent : ∀ ch ans b s',
      perform t op ch b = some (ans, s') → s'.page = b.page ∧ told ans)
    (firm : Firm cfg t false pre) (further : ∀ ans, told ans →
      Spec cfg t frame i pre (next ans) post) :
    Spec cfg t frame i pre (Prog.act op >>= next) post := by
  intro s ok focus ch ans s' may ran
  obtain ⟨same, h⟩ := silent _ _ _ _ ran
  have holds : (contract cfg).inv s' := by
    intro j
    rw [same]
    exact ok j
  have here : Focus frame i pre s' := by
    unfold Focus
    rw [same]
    exact focus
  refine ⟨holds, ?_, fun later relied still => ?_⟩
  · intro j pending apart page
    rw [same]
    exact .refl _ _ j (s.page page)
  · exact further ans h later still (here.drift (firm.quieter _) holds still relied)

section

variable (firm : Firm cfg t false pre)
include firm

theorem Spec.asked {question : Question} {next : Bool → Code Final} {post : Final → Cell → Prop}
    (further : ∀ ans, Spec cfg t frame i pre (next ans) post) :
    Spec cfg t frame i pre (ask question >>= next) post :=
  .silent (.ask question) (fun _ => True)
    (fun _ _ _ _ ran => by cases ran; exact ⟨rfl, trivial⟩) firm
    fun ans _ => further ans

theorem Spec.counted {delta : Int} {next : Unit → Code Final} {post : Final → Cell → Prop}
    (further : Spec cfg t frame i pre (next ()) post) :
    Spec cfg t frame i pre (addSpilled delta >>= next) post :=
  .silent (.addSpilled delta) (fun _ => True)
    (fun _ _ _ _ ran => by cases ran; exact ⟨rfl, trivial⟩) firm
    fun _ _ => further

theorem Spec.profiled {next : Option (CompressAlgo × Bool) → Code Final}
    {post : Final → Cell → Prop} (missing : Spec cfg t frame i pre (next none) post)
    (found : ∀ algo fast, algo ≠ .none → Spec cfg t frame i pre (next (some (algo, fast))) post) :
    Spec cfg t frame i pre (selectProfile >>= next) post := by
  refine .silent .profile
    (fun ans => ∀ algo fast, ans = some (algo, fast) → algo ≠ .none) ?_ firm ?_
  · intro ch ans b s' ran
    simp only [perform] at ran
    split_ifs at ran with none
    · cases ran
      exact ⟨rfl, by rintro algo fast ⟨⟩⟩
    · cases ran
      refine ⟨rfl, fun algo fast same => ?_⟩
      cases same
      exact fun absurd => none (.inr absurd)
  · rintro (_ | ⟨algo, fast⟩) h
    · exact missing
    · exact found algo fast (h algo fast rfl)

theorem Spec.bounded {next : Nat × Nat → Code Final} {post : Final → Cell → Prop}
    (further : ∀ lo hi, lo ≤ i → i < hi → Spec cfg t frame i pre (next (lo, hi)) post) :
    Spec cfg t frame i pre (boundsAround i >>= next) post := by
  refine .silent (.bounds i) (fun ans => ans.1 ≤ i ∧ i < ans.2)
    ?_ firm fun ans h => further ans.1 ans.2 h.1 h.2
  intro ch ans b s' ran
  simp only [perform] at ran
  split_ifs at ran with within
  cases ran
  exact ⟨rfl, within.1, within.2.1⟩

end

end Rules

section Alone

/-- A program that keeps the invariant, whatever it was told about the pages. -/
def Harmless (cfg : Config) (t : Thread) (prog : Code Result) : Prop :=
  ∀ s, (contract cfg).inv s →
    Safe perform (contract cfg) t prog (fun _ => (contract cfg).inv) s

variable {Result : Type}

theorem Spec.harmless {i : Nat} {prog : Code Result} {post : Result → Cell → Prop}
    (spec : Spec cfg t (fun _ _ => True) i (fun _ => True) prog post) : Harmless cfg t prog :=
  fun s ok => (spec s ok ⟨trivial, fun _ _ => trivial⟩).mono fun _ _ holds => holds.1

theorem Harmless.spec {i : Nat} {pre : Cell → Prop} {prog : Code Result}
    (harmless : Harmless cfg t prog) : Spec cfg t (fun _ _ => True) i pre prog fun _ _ => True :=
  fun s ok _ => (harmless s ok).mono fun _ _ holds =>
    ⟨holds, trivial, fun _ _ => trivial⟩

theorem forPages_harmless {pages : List Nat} {body : Nat → Code Unit}
    (each : ∀ page ∈ pages, Harmless cfg t (body page)) : Harmless cfg t (forPages pages body) := by
  induction pages with
  | nil => exact fun s ok => ok
  | cons page rest ih =>
    exact fun s ok => .bind ((each page (List.mem_cons_self ..) s ok).mono fun _ s' holds =>
        ih (fun j mem => each j (List.mem_cons_of_mem _ mem)) s' holds)

end Alone

section Grids

variable {know : Nat → Cell → Prop} {Result Final : Type}
variable {here : Cell → Prop} {page : Nat} {prog : Code Result}

def All (know : Nat → Cell → Prop) (s : Shared) : Prop :=
  ∀ i, know i (s.page i)

/-- A specification of a program that works on several pages. -/
def Grid (cfg : Config) (t : Thread) (know : Nat → Cell → Prop) (prog : Code Result)
    (post : Result → Nat → Cell → Prop) : Prop :=
  ∀ s, (contract cfg).inv s → All know s →
    Safe perform (contract cfg) t prog
      (fun r s' => (contract cfg).inv s' ∧ All (post r) s') s

theorem Grid.done {r : Result} {post : Result → Nat → Cell → Prop}
    (holds : ∀ i c, CellInv cfg.deferred c → know i c → post r i c) :
    Grid cfg t know (pure r) post :=
  fun _ ok all => ⟨ok, fun i => holds i _ (ok i) (all i)⟩

theorem Grid.stay {r : Result} : Grid cfg t know (pure r) fun _ => know :=
  .done fun _ _ _ h => h

theorem Grid.bind {front : Code Result} {next : Result → Code Final}
    {mid : Result → Nat → Cell → Prop} {post : Final → Nat → Cell → Prop}
    (first : Grid cfg t know front mid)
    (second : ∀ r, Grid cfg t (mid r) (next r) post) :
    Grid cfg t know (front >>= next) post :=
  fun s ok all => .bind
    ((first s ok all).mono fun r s' holds => second r s' holds.1 holds.2)

theorem Grid.weaken {stronger : Nat → Cell → Prop} {post : Result → Nat → Cell → Prop}
    (grid : Grid cfg t know prog post)
    (implied : ∀ i c, CellInv cfg.deferred c → stronger i c → know i c) :
    Grid cfg t stronger prog post :=
  fun s ok all =>
    grid s ok fun i => implied i _ (ok i) (all i)

theorem Grid.post {mid post : Result → Nat → Cell → Prop} (grid : Grid cfg t know prog mid)
    (implied : ∀ r i c, CellInv cfg.deferred c → mid r i c → post r i c) :
    Grid cfg t know prog post :=
  fun s ok all => (grid s ok all).mono fun r _ holds =>
    ⟨holds.1, fun i => implied r i _ (holds.1 i) (holds.2 i)⟩

theorem Grid.impossible (i : Nat) {post : Result → Nat → Cell → Prop}
    (never : ∀ c, CellInv cfg.deferred c → ¬ know i c) : Grid cfg t know prog post :=
  fun _ ok all => (never _ (ok i) (all i)).elim

theorem Grid.tail {post : Result → Nat → Cell → Prop}
    (grid : Grid cfg t know (prog >>= pure) post) : Grid cfg t know prog post := by
  rw [Prog.bind_pure] at grid
  exact grid

def At (page : Nat) (here : Cell → Prop) (know : Nat → Cell → Prop) (j : Nat) (c : Cell) :
    Prop :=
  (j = page → here c) ∧ (j ≠ page → know j c)

theorem framed_at [Framed cfg t know] (firm : Firm cfg t false here) :
    Framed cfg t (At page here know) :=
  ⟨fun j => firm.imp.and (Framed.firm j).imp⟩

theorem Grid.at {post : Result → Cell → Prop} (spec : Spec cfg t know page here prog post) :
    Grid cfg t (At page here know) prog fun r => At page (post r) know := by
  intro s ok all
  refine (spec s ok ⟨(all page).1 rfl, fun j apart => (all j).2 apart⟩).mono ?_
  intro ans s' holds
  refine ⟨holds.1, fun j => ⟨?_, fun apart => holds.2.2 j apart⟩⟩
  rintro rfl
  exact holds.2.1

theorem Grid.step [Framed cfg t know] {op : CellOp} {mid : CellAnswer op → Cell → Prop}
    {next : CellAnswer op → Code Final} {post : Final → Nat → Cell → Prop}
    (effect : Effect cfg t op here mid) (firm : ∀ ans, Firm cfg t false (mid ans))
    (further : ∀ ans, Grid cfg t (At page (mid ans) know) (next ans) post) :
    Grid cfg t (At page here know) (on page op >>= next) post :=
  .bind (.at (.last effect firm)) further

theorem Grid.spec {i : Nat} {pre : Cell → Prop} {post : Result → Cell → Prop}
    (grid : Grid cfg t (fun j c => j = i → pre c) prog
      fun r j c => j = i → post r c) :
    Spec cfg t (fun _ _ => True) i pre prog post := by
  intro s ok focus
  refine (grid s ok ?_).mono fun r s' holds => ?_
  · rintro j rfl
    exact focus.1
  · exact ⟨holds.1, holds.2 i rfl, fun _ _ => trivial⟩

theorem Grid.asked [Framed cfg t know] {question : Question} {next : Bool → Code Final}
    {post : Final → Nat → Cell → Prop} (further : ∀ ans, Grid cfg t know (next ans) post) :
    Grid cfg t know (ask question >>= next) post := by
  refine @Grid.bind cfg t know Bool Final _ next (fun _ => know) post ?_ further
  intro s ok all ch ans s' may ran
  cases ran
  refine ⟨ok, fun j pending _ page => .refl _ _ _ _, fun later relied still => ?_⟩
  exact ⟨still, fun i => Framed.firm i (ok i) (still i) (relied i).loud (all i)⟩

theorem Grid.opens {first count : Nat} {post : Nat → Cell → Prop}
    (firm : ∀ i, Firm cfg t false (post i)) (inside : ∀ i, first ≤ i → i < first + count →
      ∀ c, CellInv cfg.deferred c → know i c → CellInv cfg.deferred { c with prot := .readWrite } ∧
        (∀ j quiet, j ≠ t →
          CellRely cfg.deferred quiet j c { c with prot := .readWrite }) ∧
        post i { c with prot := .readWrite })
    (outside : ∀ i, ¬ (first ≤ i ∧ i < first + count) →
      ∀ c, CellInv cfg.deferred c → know i c → post i c) :
    Grid cfg t know (onRange first count (.protect .readWrite))
      fun opened i c => opened = true ∧ post i c := by
  intro s ok all ch ans s' may ran
  have succeeds : ch.flag = true := may
  simp only [perform] at ran
  split_ifs at ran with fits
  simp only [succeeds, Option.some.injEq, Prod.mk.injEq] at ran
  obtain ⟨rfl, rfl⟩ := ran
  have each : ∀ i, CellInv cfg.deferred ((s.setRange first count
        (rangeStep (.protect .readWrite) ch)).page i) ∧
      (∀ j quiet, j ≠ t → CellRely cfg.deferred quiet j (s.page i)
        ((s.setRange first count (rangeStep (.protect .readWrite) ch)).page i)) ∧
      post i ((s.setRange first count
        (rangeStep (.protect .readWrite) ch)).page i) := by
    intro i
    by_cases within : first ≤ i ∧ i < first + count
    · simp only [Shared.setRange, within, and_self, if_true, rangeStep, succeeds]
      exact inside i within.1 within.2 _ (ok i) (all i)
    · simp only [Shared.setRange, within, if_false]
      exact ⟨ok i, fun j quiet _ => .refl _ _ _ _, outside i within _ (ok i) (all i)⟩
  refine ⟨fun i => (each i).1, fun j pending apart i =>
    (each i).2.1 j _ apart, fun later relied still => ?_⟩
  exact ⟨still, fun i => ⟨rfl, firm i (each i).1 (still i) (relied i).loud (each i).2.2⟩⟩

end Grids

end Smash.Compressor
