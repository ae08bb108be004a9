import Smash.PageTracking

/-! `findVma` reads `/proc/self/maps` in pieces and looks at one character at a time;
`restoreWholeVma` turns the mapping it finds into a range of pages. Each `read` returns a nonempty
piece of the text until the text ends. -/
namespace Smash.VmaScan

open MachineWord PageMachine PageTracking List

section Code

def dash : UInt8 := 0x2d
def space : UInt8 := 0x20
def newline : UInt8 := 0x0a

/-- `none` stands for -1. -/
def hexval (ch : UInt8) : Option Nat :=
  if 0x30 ≤ ch ∧ ch ≤ 0x39 then some (ch.toNat - 0x30)
  else if 0x61 ≤ ch ∧ ch ≤ 0x66 then some (ch.toNat - 0x61 + 10)
  else if 0x41 ≤ ch ∧ ch ≤ 0x46 then some (ch.toNat - 0x41 + 10)
  else none

inductive Field where
  | start
  | stop
  | rest
  deriving DecidableEq, Repr

structure Scan where
  s : Nat
  e : Nat
  field : Field
  found : Bool
  done : Bool
  deriving DecidableEq, Repr

def fresh : Scan := ⟨0, 0, .start, false, false⟩

def digit (v : Nat) (ch : UInt8) : Nat :=
  match hexval ch with
  | some d => (v * 16 + d) % wordSize
  | none => v

def scanChar (addr : Nat) (scan : Scan) (ch : UInt8) : Scan :=
  match scan.field with
  | .start => if ch = dash then { scan with field := .stop } else { scan with s := digit scan.s ch }
  | .stop =>
    if ch = space then
      if scan.s ≤ addr ∧ addr < scan.e then { scan with found := true, done := true }
      else if addr < scan.s then { scan with done := true }
      else { scan with field := .rest }
    else { scan with e := digit scan.e ch }
  | .rest => if ch = newline then { scan with s := 0, e := 0, field := .start } else scan

def scanChunk (addr : Nat) : Scan → List UInt8 → Scan
  | scan, [] => scan
  | scan, ch :: more => if scan.done then scan else scanChunk addr (scanChar addr scan ch) more

/-- The outer loop: it ends when the line is found, and at a `read` of nothing. -/
def scanReads (addr : Nat) : Scan → List (List UInt8) → Scan
  | scan, [] => scan
  | scan, chunk :: more =>
    if scan.done ∨ chunk = [] then scan else scanReads addr (scanChunk addr scan chunk) more

def findVma (addr : Nat) (reads : List (List UInt8)) : Option (Nat × Nat) :=
  let scan := scanReads addr fresh reads
  if scan.found then some (scan.s, scan.e) else none

def kMaxVmaRunPages : Nat := 2 ^ 16

/-- The states of the arena's pages and of the pages tracked outside it. -/
def numPages (arena : Arena) : Nat := arena.contigPages + kTrackMaxPages

/-- The pages of the mapping `[vlo, vhi)`, cut off at the arena and around the page. -/
def vmaRange (arena : Arena) (page vlo vhi : Nat) : Nat × Nat :=
  let half := kMaxVmaRunPages / 2
  let lo := if vlo ≤ arena.base then 0 else (vlo - arena.base) / kPageSize
  let hi := (fetchSub vhi arena.base + kPageSize - 1) % wordSize / kPageSize
  let hi := if arena.contigPages < hi then arena.contigPages else hi
  let hi := if numPages arena < hi then numPages arena else hi
  let lo := if half < fetchSub page lo then fetchSub page half else lo
  let hi := if half < fetchSub hi page then fetchAdd page half else hi
  (lo, hi)

/-- The range `restoreWholeVma` passes to `restoreRange`, if it does not give up. -/
def restoreWholeVma (arena : Arena) (selfMemFd : Bool) (page : Nat) (reads : List (List UInt8)) :
    Option (Nat × Nat) :=
  if selfMemFd = false ∨ arena.contigPages ≤ page then none
  else (findVma (arena.base + page * kPageSize) reads).map fun (vlo, vhi) =>
    vmaRange arena page vlo vhi

end Code

section Text

def numeral (digits : List UInt8) : Nat :=
  digits.foldl (fun v ch => v * 16 + (hexval ch).getD 0) 0

/-- One line: two numerals of any length and anything that is not a line break. -/
structure Line where
  startDigits : List UInt8
  stopDigits : List UInt8
  tail : List UInt8
  startHex : ∀ ch ∈ startDigits, (hexval ch).isSome
  stopHex : ∀ ch ∈ stopDigits, (hexval ch).isSome
  oneLine : newline ∉ tail
  ordered : numeral startDigits < numeral stopDigits
  word : numeral stopDigits < wordSize

def Line.start (line : Line) : Nat := numeral line.startDigits

def Line.stop (line : Line) : Nat := numeral line.stopDigits

def Line.text (line : Line) : List UInt8 :=
  line.startDigits ++ dash :: line.stopDigits ++ space :: line.tail ++ [newline]

/-- The mappings are listed from low to high addresses and do not overlap. -/
def Sorted (lines : List Line) : Prop := lines.Pairwise fun first second => first.stop ≤ second.start

def mapsText (lines : List Line) : List UInt8 := lines.flatMap Line.text

def Line.Holds (line : Line) (addr : Nat) : Prop := line.start ≤ addr ∧ addr < line.stop

instance (line : Line) (addr : Nat) : Decidable (line.Holds addr) :=
  inferInstanceAs (Decidable (_ ∧ _))

def vmaOf (lines : List Line) (addr : Nat) : Option (Nat × Nat) :=
  (lines.find? fun line => line.Holds addr).map fun line => (line.start, line.stop)

end Text

section Chunks

variable {addr : Nat}

theorem scanChunk_done {scan : Scan} (done : scan.done = true) (chars : List UInt8) :
    scanChunk addr scan chars = scan := by
  cases chars with
  | nil => rfl
  | cons ch more => simp [scanChunk, done]

theorem scanChunk_append (scan : Scan) (front back : List UInt8) :
    scanChunk addr scan (front ++ back) = scanChunk addr (scanChunk addr scan front) back := by
  induction front generalizing scan with
  | nil => rfl
  | cons ch more ih =>
    cases done : scan.done with
    | true => simp [scanChunk, done, scanChunk_done done]
    | false => simp [scanChunk, done, ih]

/-- However the text is cut, the result is that of the whole text. -/
theorem scanReads_eq (scan : Scan) {reads : List (List UInt8)}
    (pieces : ∀ chunk ∈ reads, chunk ≠ []) :
    scanReads addr scan reads = scanChunk addr scan reads.flatten := by
  induction reads generalizing scan with
  | nil => rfl
  | cons chunk more ih =>
    rw [flatten_cons, scanChunk_append, scanReads]
    have nonempty := pieces chunk mem_cons_self
    cases done : scan.done with
    | true => simp [scanChunk_done done]
    | false =>
      rw [if_neg (by simp [nonempty])]
      exact ih _ fun j mem => pieces j (mem_cons_of_mem chunk mem)

end Chunks

section Lines

variable {addr : Nat}

def continued (v : Nat) (digits : List UInt8) : Nat :=
  digits.foldl (fun v ch => v * 16 + (hexval ch).getD 0) v

theorem le_continued (v : Nat) (digits : List UInt8) : v ≤ continued v digits := by
  induction digits generalizing v with
  | nil => exact le_rfl
  | cons ch more ih =>
    calc v ≤ v * 16 + (hexval ch).getD 0 := by omega
      _ ≤ continued v (ch :: more) := ih _

theorem digit_eq {v : Nat} {ch : UInt8} {more : List UInt8} (hex : (hexval ch).isSome)
    (fits : continued v (ch :: more) < wordSize) :
    digit v ch = v * 16 + (hexval ch).getD 0 := by
  have small := lt_of_le_of_lt (le_continued (v * 16 + (hexval ch).getD 0) more) fits
  obtain ⟨d, digit_ch⟩ := Option.isSome_iff_exists.mp hex
  simp only [digit_ch, Option.getD_some] at small
  simp only [digit, digit_ch, Option.getD_some]
  exact Nat.mod_eq_of_lt small

theorem scan_digits {put : Nat → Scan} (running : ∀ v, (put v).done = false)
    (next : ∀ v ch, (hexval ch).isSome → scanChar addr (put v) ch = put (digit v ch))
    {digits : List UInt8} (hex : ∀ ch ∈ digits, (hexval ch).isSome) {v : Nat}
    (fits : continued v digits < wordSize) :
    scanChunk addr (put v) digits = put (continued v digits) := by
  induction digits generalizing v with
  | nil => rfl
  | cons ch more ih =>
    have isHex := hex ch mem_cons_self
    rw [scanChunk, if_neg (by simp [running]), next v ch isHex, digit_eq isHex fits]
    exact ih (fun j mem => hex j (mem_cons_of_mem ch mem)) fits

theorem scan_tail {tail : List UInt8} (oneLine : newline ∉ tail) {scan : Scan}
    (running : scan.done = false) (field : scan.field = .rest) (more : List UInt8) :
    scanChunk addr scan (tail ++ newline :: more) =
      scanChunk addr { scan with s := 0, e := 0, field := .start } more := by
  induction tail with
  | nil => simp [scanChunk, running, scanChar, field]
  | cons ch rest ih =>
    have notBreak : ch ≠ newline := fun same => oneLine (same ▸ mem_cons_self)
    have next : scanChar addr scan ch = scan := by simp [scanChar, field, notBreak]
    rw [cons_append, scanChunk, if_neg (by simp [running]), next]
    exact ih fun mem => oneLine (mem_cons_of_mem ch mem)

theorem scanChunk_line (line : Line) (more : List UInt8) :
    scanChunk addr fresh (line.text ++ more) =
      if line.Holds addr then ⟨line.start, line.stop, .stop, true, true⟩
      else if addr < line.start then ⟨line.start, line.stop, .stop, false, true⟩
      else scanChunk addr fresh more := by
  have startFits : continued 0 line.startDigits < wordSize := line.ordered.trans line.word
  have first := @scan_digits addr (fun s => ⟨s, 0, .start, false, false⟩) (fun _ => rfl)
    (fun _ ch isHex => by
      have notDash : ch ≠ dash := fun same => absurd isHex (by rw [same]; decide)
      simp [scanChar, notDash]) _ line.startHex _ startFits
  have second := @scan_digits addr (fun e => ⟨line.start, e, .stop, false, false⟩) (fun _ => rfl)
    (fun _ ch isHex => by
      have notSpace : ch ≠ space := fun same => absurd isHex (by rw [same]; decide)
      simp [scanChar, notSpace]) _ line.stopHex _ line.word
  have text : line.text ++ more = line.startDigits ++ ([dash] ++ (line.stopDigits ++
      ([space] ++ (line.tail ++ newline :: more)))) := by
    simp [Line.text]
  have dashed : scanChunk addr ⟨line.start, 0, .start, false, false⟩ [dash] =
      ⟨line.start, 0, .stop, false, false⟩ := by
    simp [scanChunk, scanChar]
  have spaced : scanChunk addr ⟨line.start, line.stop, .stop, false, false⟩ [space] =
      if line.Holds addr then ⟨line.start, line.stop, .stop, true, true⟩
      else if addr < line.start then ⟨line.start, line.stop, .stop, false, true⟩
      else ⟨line.start, line.stop, .rest, false, false⟩ := by
    simp only [scanChunk, scanChar, Bool.false_eq_true, if_true, if_false]
    rfl
  rw [text, scanChunk_append, fresh, first, scanChunk_append]
  change scanChunk addr (scanChunk addr ⟨line.start, 0, .start, false, false⟩ [dash]) _ = _
  rw [dashed, scanChunk_append, second, scanChunk_append]
  change scanChunk addr (scanChunk addr ⟨line.start, line.stop, .stop, false, false⟩ [space]) _ = _
  rw [spaced]
  split
  · exact scanChunk_done rfl _
  split
  · exact scanChunk_done rfl _
  · exact scan_tail line.oneLine rfl rfl more

theorem scan_lines {lines : List Line} (sorted : Sorted lines) :
    (let scan := scanChunk addr fresh (mapsText lines)
      if scan.found then some (scan.s, scan.e) else none) = vmaOf lines addr := by
  induction lines with
  | nil => rfl
  | cons line rest ih =>
    obtain ⟨ahead, sorted⟩ := pairwise_cons.mp sorted
    rw [mapsText, flatMap_cons, ← mapsText, scanChunk_line]
    by_cases holds : line.Holds addr
    · simp [holds, vmaOf]
    by_cases below : addr < line.start
    · -- every later mapping starts above this one
      have none_holds : ∀ j ∈ rest, ¬ j.Holds addr := by
        intro j mem inside
        have later := ahead j mem
        have order := line.ordered
        simp only [Line.Holds, Line.start, Line.stop] at *
        omega
      have absent : rest.find? (fun j => j.Holds addr) = none :=
        List.find?_eq_none.mpr fun j mem => by simpa using none_holds j mem
      simp [holds, below, vmaOf, absent]
    · have skipped : vmaOf (line :: rest) addr = vmaOf rest addr := by
        simp [vmaOf, holds]
      simp only [holds, below, if_false]
      rw [skipped]
      exact ih sorted

theorem findVma_eq {lines : List Line} (sorted : Sorted lines) {reads : List (List UInt8)}
    (pieces : ∀ chunk ∈ reads, chunk ≠ []) (text : reads.flatten = mapsText lines) :
    findVma addr reads = vmaOf lines addr := by
  rw [findVma, scanReads_eq fresh pieces, text]
  exact scan_lines sorted

end Lines

section Range

variable {arena : Arena} {page vlo vhi : Nat}

/-- Page-aligned bounds around the page give a range around it, inside the mapping and the arena
and of bounded length. -/
theorem vmaRange_spec (aligned : arena.base % kPageSize = 0) (inside : page < arena.contigPages)
    (below : vlo ≤ arena.base + page * kPageSize) (above : arena.base + page * kPageSize < vhi)
    (first : vlo % kPageSize = 0) (last : vhi % kPageSize = 0) (word : vhi < wordSize) :
    let (lo, hi) := vmaRange arena page vlo vhi
    lo ≤ page ∧ page < hi ∧ vlo ≤ arena.base + lo * kPageSize ∧
      arena.base + hi * kPageSize ≤ vhi ∧ hi ≤ arena.contigPages ∧
      hi - lo ≤ kMaxVmaRunPages := by
  have size : kPageSize = 4096 := rfl
  have words : wordSize = 2 ^ 64 := rfl
  have limit : kMaxVmaRunPages / 2 = 2 ^ 15 := rfl
  have run : kMaxVmaRunPages = 2 ^ 16 := rfl
  have tracked : kTrackMaxPages = 2 ^ 17 := rfl
  have bytes := arena.inside
  have span : fetchSub vhi arena.base = vhi - arena.base :=
    fetchSub_of_le (by rw [size] at above; omega) word
  simp only [vmaRange, span, size, limit, numPages, tracked] at *
  -- the first page of the mapping, or of the arena
  have low : (if vlo ≤ arena.base then 0 else (vlo - arena.base) / 4096) ≤ page ∧
      vlo ≤ arena.base + (if vlo ≤ arena.base then 0 else (vlo - arena.base) / 4096) * 4096 := by
    split <;> omega
  generalize (if vlo ≤ arena.base then 0 else (vlo - arena.base) / 4096) = lo at low
  -- the page after the last
  have up : (vhi - arena.base + 4096 - 1) % wordSize / 4096 = (vhi - arena.base) / 4096 := by
    rw [Nat.mod_eq_of_lt (by omega)]
    omega
  rw [up]
  have high : page < (vhi - arena.base) / 4096 ∧
      arena.base + (vhi - arena.base) / 4096 * 4096 ≤ vhi := by omega
  generalize (vhi - arena.base) / 4096 = hi at high
  have clamp : page < (if arena.contigPages < hi then arena.contigPages else hi) ∧
      (if arena.contigPages < hi then arena.contigPages else hi) ≤ arena.contigPages ∧
      (if arena.contigPages < hi then arena.contigPages else hi) ≤ hi := by
    split <;> omega
  generalize (if arena.contigPages < hi then arena.contigPages else hi) = top at clamp
  rw [if_neg (by omega : ¬ arena.contigPages + 2 ^ 17 < top)]
  have left : fetchSub page lo = page - lo := fetchSub_of_le low.1 (by omega)
  have right : fetchSub top page = top - page := fetchSub_of_le clamp.1.le (by omega)
  rw [left, right]
  -- each end is cut off at half the limit only if it lies further away
  have cutLow : (if 2 ^ 15 < page - lo then fetchSub page (2 ^ 15) else lo) ≤ page ∧
      lo ≤ (if 2 ^ 15 < page - lo then fetchSub page (2 ^ 15) else lo) ∧
      page - (if 2 ^ 15 < page - lo then fetchSub page (2 ^ 15) else lo) ≤ 2 ^ 15 := by
    split
    next far => rw [fetchSub_of_le (by omega) (by omega)]; omega
    next => omega
  have cutHigh : page < (if 2 ^ 15 < top - page then fetchAdd page (2 ^ 15) else top) ∧
      (if 2 ^ 15 < top - page then fetchAdd page (2 ^ 15) else top) ≤ top ∧
      (if 2 ^ 15 < top - page then fetchAdd page (2 ^ 15) else top) - page ≤ 2 ^ 15 := by
    split
    next far => rw [fetchAdd_of_lt (by omega)]; omega
    next => omega
  rw [run]
  omega

/-- For every sorted text and every way it is read, `findVma` gives the mapping around the
address, and the range taken from it lies around the page, in that mapping and in the arena, and
is no longer than the limit. -/
theorem findVma_and_range (arena : Arena) (aligned : arena.base % kPageSize = 0)
    (lines : List Line) (sorted : Sorted lines)
    (pageBounds : ∀ line ∈ lines, line.start % kPageSize = 0 ∧ line.stop % kPageSize = 0)
    (reads : List (List UInt8)) (pieces : ∀ chunk ∈ reads, chunk ≠ [])
    (text : reads.flatten = mapsText lines) : (∀ addr, findVma addr reads = vmaOf lines addr) ∧
    (∀ selfMemFd page lo hi, restoreWholeVma arena selfMemFd page reads = some (lo, hi) →
      ∃ vlo vhi, vmaOf lines (arena.base + page * kPageSize) = some (vlo, vhi) ∧
        lo ≤ page ∧ page < hi ∧ vlo ≤ arena.base + lo * kPageSize ∧
        arena.base + hi * kPageSize ≤ vhi ∧ hi ≤ arena.contigPages ∧
        hi - lo ≤ kMaxVmaRunPages) := by
  refine ⟨fun addr => findVma_eq sorted pieces text, ?_⟩
  intro selfMemFd page lo hi restored
  unfold restoreWholeVma at restored
  split at restored
  · cases restored
  next usable =>
  rw [findVma_eq sorted pieces text] at restored
  obtain ⟨⟨vlo, vhi⟩, found, same⟩ := Option.map_eq_some_iff.mp restored
  obtain ⟨line, held, bounds⟩ := Option.map_eq_some_iff.mp found
  cases bounds
  have holds : line.Holds (arena.base + page * kPageSize) := by
    simpa using List.find?_some held
  have pages := pageBounds line (mem_of_find?_eq_some held)
  have spec := @vmaRange_spec arena page line.start line.stop aligned
    (Nat.lt_of_not_le fun outside => usable (Or.inr outside)) holds.1 holds.2 pages.1 pages.2
    line.word
  change vmaRange arena page line.start line.stop = (lo, hi) at same
  rw [same] at spec
  exact ⟨line.start, line.stop, found, spec⟩

def twoLines : List Line :=
  [⟨[0x31, 0x30, 0x30, 0x30], [0x39, 0x30, 0x30, 0x30], [0x72],
      by simp [hexval], by simp [hexval], by decide, by decide, by decide⟩,
    ⟨[0x39, 0x30, 0x30, 0x30], [0x61, 0x30, 0x30, 0x30], [0x77],
      by simp [hexval], by simp [hexval], by decide, by decide, by decide⟩]

theorem fourPages_pos : 0 < 4 := by decide

def fourPages : Arena := ⟨0x3000, 4, fourPages_pos, by decide⟩

theorem findVma_and_range_two_lines :
    (∀ addr, findVma addr ((mapsText twoLines).map fun ch => [ch]) = vmaOf twoLines addr) ∧
      restoreWholeVma fourPages true 2 ((mapsText twoLines).map fun ch => [ch]) = some (0, 4) := by
  refine ⟨(findVma_and_range fourPages (by decide) twoLines (by unfold Sorted; decide) (by decide)
    ((mapsText twoLines).map fun ch => [ch]) (by decide) (by decide)).1, by decide +kernel⟩

end Range

end Smash.VmaScan
