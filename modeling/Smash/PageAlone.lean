import Mathlib.Algebra.BigOperators.Group.Finset.Piecewise
import Smash.PageRules

/-! Proof rules for a program that runs without interruption. An assertion describes the
page in focus and the balance of the spill counter: the counter minus the number of pages
whose recorded blob lies in the spill mapping. -/
namespace Smash.Compressor

open Program PageMachine

section Balance

def isSpilled (c : Cell) : Bool :=
  match c.info.data with
  | none => false
  | some blob => blob.place = .spill

def spilledAt (c : Cell) : Int := if isSpilled c then 1 else 0

def balance (s : Shared) : Int :=
  s.spilledCount - ∑ i ∈ Finset.range s.pages, spilledAt (s.page i)

theorem spilledAt_info {pre c' : Cell} (same : c'.info = pre.info) :
    spilledAt c' = spilledAt pre := by
  unfold spilledAt isSpilled
  rw [same]

theorem balance_info {pre s' : Shared} (pages : s'.pages = pre.pages)
    (count : s'.spilledCount = pre.spilledCount)
    (same : ∀ i, (s'.page i).info = (pre.page i).info) : balance s' = balance pre := by
  unfold balance
  rw [pages, count]
  exact congrArg _ (Finset.sum_congr rfl fun i _ => spilledAt_info (same i))

theorem balance_set {s : Shared} {i : Nat} (inside : i < s.pages) (c : Cell) : balance (s.set i c) =
      balance s + spilledAt (s.page i) - spilledAt c := by
  have mem : i ∈ Finset.range s.pages := Finset.mem_range.mpr inside
  have parts : ∀ page : Nat → Cell, ∑ j ∈ Finset.range s.pages, spilledAt (page j) =
      spilledAt (page i) +
        ∑ j ∈ (Finset.range s.pages).erase i, spilledAt (page j) := fun page =>
    (Finset.add_sum_erase _ (fun j => spilledAt (page j)) mem).symm
  have apart : ∑ j ∈ (Finset.range s.pages).erase i, spilledAt (Function.update s.page i c j) =
      ∑ j ∈ (Finset.range s.pages).erase i, spilledAt (s.page j) :=
    Finset.sum_congr rfl fun j inErase => by
      rw [Function.update_of_ne (Finset.ne_of_mem_erase inErase)]
  unfold balance
  simp only [Shared.set_page, Shared.set_pages, parts, apart, Function.update_self]
  simp only [Shared.set]
  omega

end Balance

variable {may : Op → Choice → Prop} {t : Thread}
variable {Result Final : Type}

section One

variable {op : CellOp} {mid : CellAnswer op → Int → Cell → Prop} {next : CellAnswer op → Code Final}
variable {post : Final → Int → Cell → Prop} {prog : Code Result}

/-- A specification of an uninterrupted program that works on one page. -/
def Alone (may : Op → Choice → Prop) (t : Thread) (frame : Nat → Cell → Prop)
    (i : Nat) (pre : Int → Cell → Prop) (prog : Code Result)
    (post : Result → Int → Cell → Prop) : Prop :=
  ∀ s, (∀ j, j ≠ i → frame j (s.page j)) →
    pre (balance s) (s.page i) →
    Ensures perform may t prog (fun r s' =>
      (∀ j, j ≠ i → frame j (s'.page j)) ∧
        post r (balance s') (s'.page i)) s

variable {frame : Nat → Cell → Prop} {i : Nat} {pre : Int → Cell → Prop}

theorem Alone.done {post : Result → Int → Cell → Prop} {r : Result}
    (holds : ∀ sum c, pre sum c → post r sum c) :
    Alone may t frame i pre (pure r) post :=
  fun _ apart h => ⟨apart, holds _ _ h⟩

theorem Alone.stay {r : Result} : Alone may t frame i pre (pure r) fun _ => pre :=
  Alone.done fun _ _ h => h

theorem Alone.bind {front : Code Result} {next : Result → Code Final}
    {mid : Result → Int → Cell → Prop} {post : Final → Int → Cell → Prop}
    (first : Alone may t frame i pre front mid)
    (second : ∀ r, Alone may t frame i (mid r) (next r) post) :
    Alone may t frame i pre (front >>= next) post :=
  fun s apart h => Ensures.bind ((first s apart h).mono
    fun r s' holds => second r s' holds.1 holds.2)

theorem Alone.weaken {stronger : Int → Cell → Prop}
    {post : Result → Int → Cell → Prop} (spec : Alone may t frame i pre prog post)
    (implied : ∀ sum c, stronger sum c → pre sum c) : Alone may t frame i stronger prog post :=
  fun s apart h => spec s apart (implied _ _ h)

theorem Alone.fact (fact : Prop) {post : Result → Int → Cell → Prop}
    (holds : ∀ sum c, pre sum c → fact) (spec : fact → Alone may t frame i pre prog post) :
    Alone may t frame i pre prog post :=
  fun s apart h => spec (holds _ _ h) s apart h

theorem Alone.tail {post : Result → Int → Cell → Prop}
    (spec : Alone may t frame i pre (prog >>= pure) post) :
    Alone may t frame i pre prog post := by
  rw [Prog.bind_pure] at spec
  exact spec

theorem Alone.call (effect : ∀ sum b ch ans s', pre sum b → may (.page i op) ch →
      cellStep t op ch b = some (ans, s') →
      mid ans (sum + spilledAt b - spilledAt s') s')
    (further : ∀ ans, Alone may t frame i (mid ans) (next ans) post) :
    Alone may t frame i pre (on i op >>= next) post := by
  intro s apart h ch ans s' permitted ran
  obtain ⟨inside, c, stepped, rfl⟩ := perform_page.mp ran
  refine further ans _ (fun j different => ?_) ?_
  · simpa [Function.update_of_ne different] using apart j different
  · rw [balance_set inside]
    simpa using effect _ _ _ _ _ h permitted stepped

theorem Alone.step (effect : ∀ sum b ch ans s', pre sum b → may (.page i op) ch →
      cellStep t op ch b = some (ans, s') → s'.info = b.info ∧ mid ans sum s')
    (further : ∀ ans, Alone may t frame i (mid ans) (next ans) post) :
    Alone may t frame i pre (on i op >>= next) post := by
  refine Alone.call (fun sum b ch ans s' h permitted stepped => ?_) further
  obtain ⟨same, told⟩ := effect sum b ch ans s' h permitted stepped
  rw [spilledAt_info same, Int.add_sub_cancel]
  exact told

theorem Alone.counted {delta : Int} {next : Unit → Code Final}
    (further : Alone may t frame i (fun sum c => pre (sum - delta) c) (next ()) post) :
    Alone may t frame i pre (addSpilled delta >>= next) post := by
  intro s apart h ch ans s' _ ran
  cases ran
  have same : balance { s with spilledCount := s.spilledCount + delta } - delta = balance s := by
    unfold balance
    simp only
    omega
  refine further _ apart ?_
  simp only [same]
  exact h

end One

section Many

/-- A specification of an uninterrupted program that works on several pages and leaves the
spill counter balanced as it was. -/
def Together (may : Op → Choice → Prop) (t : Thread) (sum : Int)
    (know : Nat → Cell → Prop) (prog : Code Result) (post : Result → Nat → Cell → Prop) : Prop :=
  ∀ s, balance s = sum → All know s →
    Ensures perform may t prog (fun r s' =>
      balance s' = sum ∧ All (post r) s') s

variable {sum : Int} {know : Nat → Cell → Prop}

theorem Together.done {r : Result} {post : Result → Nat → Cell → Prop}
    (holds : ∀ i c, know i c → post r i c) : Together may t sum know (pure r) post :=
  fun _ even all => ⟨even, fun i => holds i _ (all i)⟩

theorem Together.stay {r : Result} : Together may t sum know (pure r) fun _ => know :=
  Together.done fun _ _ h => h

theorem Together.bind {front : Code Result} {next : Result → Code Final}
    {mid : Result → Nat → Cell → Prop} {post : Final → Nat → Cell → Prop}
    (first : Together may t sum know front mid)
    (second : ∀ r, Together may t sum (mid r) (next r) post) :
    Together may t sum know (front >>= next) post :=
  fun s even all => Ensures.bind ((first s even all).mono
    fun r s' holds => second r s' holds.1 holds.2)

theorem Together.weaken {stronger : Nat → Cell → Prop} {prog : Code Result}
    {post : Result → Nat → Cell → Prop} (spec : Together may t sum know prog post)
    (implied : ∀ i c, stronger i c → know i c) : Together may t sum stronger prog post :=
  fun s even all => spec s even fun i => implied i _ (all i)

theorem Together.post {prog : Code Result} {mid post : Result → Nat → Cell → Prop}
    (spec : Together may t sum know prog mid)
    (implied : ∀ r i c, mid r i c → post r i c) :
    Together may t sum know prog post :=
  fun s even all => (spec s even all).mono
    fun r _ holds => ⟨holds.1, fun i => implied r i _ (holds.2 i)⟩

theorem Together.at {page : Nat} {here : Cell → Prop} {prog : Code Result}
    {post : Result → Cell → Prop}
    (spec : Alone may t know page (fun even c => even = sum ∧ here c) prog
      fun r even c => even = sum ∧ post r c) :
    Together may t sum (At page here know) prog fun r => At page (post r) know := by
  intro s even all
  refine (spec s (fun j apart => (all j).2 apart) ⟨even, (all page).1 rfl⟩).mono ?_
  rintro r s' ⟨apart, still, h⟩
  refine ⟨still, fun j => ⟨?_, apart j⟩⟩
  rintro rfl
  exact h

theorem Together.alone {frame : Nat → Cell → Prop} {i : Nat} {pre : Cell → Prop}
    {prog : Code Result} {post : Result → Cell → Prop}
    (spec : Together may t sum (At i pre frame) prog fun r => At i (post r) frame) :
    Alone may t frame i (fun even c => even = sum ∧ pre c) prog
      fun r even c => even = sum ∧ post r c := by
  rintro s apart ⟨even, h⟩
  refine (spec s even fun j => ⟨?_, apart j⟩).mono fun r s' holds => ?_
  · rintro rfl
    exact h
  · exact ⟨fun j different => (holds.2 j).2 different, holds.1, (holds.2 i).1 rfl⟩

theorem Together.within {page : Nat} {here : Cell → Prop} {prog : Code Result}
    (same : ∀ c, know page c ↔ here c)
    (spec : Alone may t know page (fun even c => even = sum ∧ here c) prog
      fun _ even c => even = sum ∧ here c) : Together may t sum know prog fun _ => know := by
  refine ((Together.at spec).weaken fun j c h => ⟨?_, fun _ => h⟩).post ?_
  · rintro rfl
    exact (same c).mp h
  · intro _ j c h
    by_cases here : j = page
    · subst here
      exact (same c).mpr (h.1 rfl)
    · exact h.2 here

end Many

end Smash.Compressor
