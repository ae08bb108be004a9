import Smash.PackedFields

/-! The WKdm page codec. Each word of a page is zero, equal to the dictionary entry its high bits
select, equal to it in the high bits, or new; two-bit tags say which, and the indices, the low
bits and the new words go to three streams of their own. The encoder and the decoder are given
over word memory, in the order the source writes and reads; between them stand the tokens, which
is what the streams say. -/
namespace Smash.Wkdm

open PackedFields Function List

section Source

def kDictSize : Nat := 16
def kLowMask : Word := 1023#32
def kHighMask : Word := ~~~kLowMask
def kMagic : Word := 0x574B4431#32

abbrev Dict := Nat → Word

def dictIndex (word : Word) : Nat :=
  let high := word >>> 10
  ((high ^^^ (high >>> 6)) &&& BitVec.ofNat 32 (kDictSize - 1)).toNat

/-- Two bits a word, sixteen to a word. -/
def tagFormat : Format := ⟨2, 16, by decide, by decide⟩
/-- Four bits an index, eight to a word. -/
def queueFormat : Format := ⟨4, 8, by decide, by decide⟩
/-- Ten bits each, three to a word. -/
def lowFormat : Format := ⟨10, 3, by decide, by decide⟩

def kTags : Nat := 4

/-- Where the full words start, for a page of so many words. -/
def headerAndTags (numWords : Nat) : Nat := kTags + (numWords + 15) / 16

def qMaxWords (numWords : Nat) : Nat := numWords / 8 + 1

def lowMaxWords (numWords : Nat) : Nat := numWords / 3 + 1

structure Encoder where
  out : Memory
  scratch : Memory
  fullPtr : Nat
  qCount : Nat
  lowCount : Nat
  dict : Dict

namespace Encoder

def setDict (s : Encoder) (i : Nat) (word : Word) : Encoder :=
  { s with dict := update s.dict i word }

def pushQueue (s : Encoder) (i : Nat) : Encoder :=
  { s with
    scratch := queueFormat.put s.scratch 0 s.qCount (BitVec.ofNat 32 i)
    qCount := s.qCount + 1 }

def pushLow (s : Encoder) (lowScratch : Nat) (low : Word) : Encoder :=
  { s with
    scratch := lowFormat.put s.scratch lowScratch s.lowCount low
    lowCount := s.lowCount + 1 }

def pushFull (s : Encoder) (word : Word) : Encoder :=
  { s with out := update s.out s.fullPtr word, fullPtr := s.fullPtr + 1 }

def putTag (s : Encoder) (i : Nat) (tag : Word) : Encoder :=
  { s with out := tagFormat.put s.out kTags i tag }

end Encoder

def encodeWord (lowScratch i : Nat) (word : Word) (s : Encoder) : Encoder :=
  if word = 0#32 then s.putTag i 0#32
  else
    let p := dictIndex word
    if s.dict p = word then (s.pushQueue p).putTag i 1#32
    else if s.dict p &&& kHighMask = word &&& kHighMask then
      (((s.setDict p word).pushQueue p).pushLow lowScratch (word &&& kLowMask)).putTag
        i 2#32
    else ((s.setDict p word).pushFull word).putTag i 3#32

def encodeWords (lowScratch : Nat) : Nat → List Word → Encoder → Encoder
  | _, [], s => s
  | i, word :: rest, s =>
    encodeWords lowScratch (i + 1) rest (encodeWord lowScratch i word s)

/-- The encoder before the first word: the tags and both scratch areas are cleared. -/
def startEncoder (numWords : Nat) (dst scratch : Memory) : Encoder where
  out := clear dst kTags ((numWords + 15) / 16)
  scratch := clear (clear scratch 0 (qMaxWords numWords)) (qMaxWords numWords)
    (lowMaxWords numWords)
  fullPtr := headerAndTags numWords
  qCount := 0
  lowCount := 0
  dict := fun _ => 0#32

def writeHeader (out : Memory) (queueStart lowStart lowEnd : Nat) : Memory :=
  update (update (update (update out 0 kMagic)
    1 (BitVec.ofNat 32 queueStart)) 2 (BitVec.ofNat 32 lowStart)) 3 (BitVec.ofNat 32 lowEnd)

namespace Encoder

def lowStart (s : Encoder) : Nat := s.fullPtr + (s.qCount + 7) / 8

def lowEnd (s : Encoder) : Nat := s.lowStart + (s.lowCount + 2) / 3

/-- The indices and the low bits go behind the full words, then the header is filled. -/
def pack (s : Encoder) (lowScratch : Nat) : Memory :=
  let out := copy s.out s.fullPtr s.scratch 0 ((s.qCount + 7) / 8)
  let out := copy out s.lowStart s.scratch lowScratch ((s.lowCount + 2) / 3)
  writeHeader out s.fullPtr s.lowStart s.lowEnd

end Encoder

/-- `compress` of a page: the returned size, 0 for an incompressible page, and the output. -/
def compress (page : List Word) (dst : Memory) (dstCapacity : Nat) (scratch : Memory) :
    Nat × Memory :=
  let numWords := page.length
  let s := encodeWords (qMaxWords numWords) 0 page (startEncoder numWords dst scratch)
  let compressedBytes := s.lowEnd * 4
  (if numWords * 4 ≤ compressedBytes ∨ dstCapacity < compressedBytes then 0 else compressedBytes,
    s.pack (qMaxWords numWords))

structure Decoder where
  words : Memory
  fullIdx : Nat
  qIdx : Nat
  lowIdx : Nat
  dict : Dict

def decodeWord (input : Memory) (fullWords queuePos lowBits i : Nat) (s : Decoder) : Decoder :=
  let tag := tagFormat.get input kTags i
  if tag = 0#32 then { s with words := update s.words i 0#32 }
  else if tag = 1#32 then
    let p := (queueFormat.get input queuePos s.qIdx).toNat
    { s with
      qIdx := s.qIdx + 1
      words := update s.words i (s.dict p) }
  else if tag = 2#32 then
    let p := (queueFormat.get input queuePos s.qIdx).toNat
    let low := lowFormat.get input lowBits s.lowIdx
    let word := (s.dict p &&& kHighMask) ||| low
    { s with
      qIdx := s.qIdx + 1
      lowIdx := s.lowIdx + 1
      dict := update s.dict p word
      words := update s.words i word }
  else
    let word := input (fullWords + s.fullIdx)
    { s with
      fullIdx := s.fullIdx + 1
      dict := update s.dict (dictIndex word) word
      words := update s.words i word }

def decodeWords (input : Memory) (fullWords queuePos lowBits : Nat) : Nat → Nat → Decoder → Decoder
  | 0, _, s => s
  | count + 1, i, s =>
    decodeWords input fullWords queuePos lowBits count (i + 1)
      (decodeWord input fullWords queuePos lowBits i s)

/-- `decompress` into `dst`: the returned size, 0 on failure, and the page. -/
def decompress (input dst : Memory) (srcSize pageSize : Nat) : Nat × Memory :=
  let numWords := pageSize / 4
  if srcSize < 16 then (0, dst)
  else if input 0 ≠ kMagic then (0, dst)
  else
    let qOffset := (input 1).toNat
    let lowOffset := (input 2).toNat
    let endOffset := (input 3).toNat
    if srcSize < endOffset * 4 then (0, dst)
    else
      let s := decodeWords input (headerAndTags numWords) qOffset lowOffset numWords 0
        ⟨dst, 0, 0, 0, fun _ => 0#32⟩
      (pageSize, s.words)

end Source

section Tokens

inductive Token where
  | zero
  | same (idx : Nat)
  | near (idx : Nat) (low : Word)
  | miss (word : Word)

def classify (dict : Dict) (word : Word) : Token :=
  if word = 0#32 then .zero
  else
    let i := dictIndex word
    if dict i = word then .same i
    else if dict i &&& kHighMask = word &&& kHighMask then .near i (word &&& kLowMask)
    else .miss word

def learn (dict : Dict) (word : Word) : Token → Dict
  | .zero => dict
  | .same _ => dict
  | .near i _ => update dict i word
  | .miss word => update dict (dictIndex word) word

def expand (dict : Dict) : Token → Word
  | .zero => 0#32
  | .same i => dict i
  | .near i low => (dict i &&& kHighMask) ||| low
  | .miss word => word

theorem high_or_low (word : Word) : (word &&& kHighMask) ||| (word &&& kLowMask) = word := by
  rw [← BitVec.and_or_distrib_left, kHighMask, BitVec.or_comm, BitVec.or_not_self,
    BitVec.and_allOnes]

theorem expand_classify (dict : Dict) (word : Word) : expand dict (classify dict word) = word := by
  unfold classify
  dsimp only
  split_ifs with zero same near
  · exact zero.symm
  · exact same
  · rw [expand, near, high_or_low]
  · rfl

def tokenize (dict : Dict) : List Word → List Token
  | [] => []
  | word :: rest =>
    classify dict word :: tokenize (learn dict word (classify dict word)) rest

def Token.tag : Token → Word
  | .zero => 0#32
  | .same _ => 1#32
  | .near _ _ => 2#32
  | .miss _ => 3#32

def Token.index : Token → Option Word
  | .same i | .near i _ => some (BitVec.ofNat 32 i)
  | .zero | .miss _ => none

def Token.low : Token → Option Word
  | .near _ low => some low
  | .zero | .same _ | .miss _ => none

def Token.full : Token → Option Word
  | .miss word => some word
  | .zero | .same _ | .near _ _ => none

end Tokens

section Encoding

variable {numWords : Nat} {state : Encoder} {tags full queue low : List Word}

structure Written (numWords : Nat) (state : Encoder) (tags full queue low : List Word) : Prop where
  tagged : tagFormat.Holds state.out kTags ((numWords + 15) / 16) tags
  filled : Stores state.out (headerAndTags numWords) full
  queued : queueFormat.Holds state.scratch 0 (qMaxWords numWords) queue
  lowered : lowFormat.Holds state.scratch (qMaxWords numWords) (lowMaxWords numWords) low
  fullPtr : state.fullPtr = headerAndTags numWords + full.length
  qCount : state.qCount = queue.length
  lowCount : state.lowCount = low.length

theorem startEncoder_written (numWords : Nat) (dst scratch : Memory) :
    Written numWords (startEncoder numWords dst scratch) [] [] [] [] where
  tagged := Format.holds_clear tagFormat dst kTags _
  filled := nofun
  queued := by
    refine (Format.holds_clear queueFormat scratch 0 _).transfer (Nat.zero_le _)
      fun word below => ?_
    exact if_neg fun inside => by omega
  lowered := Format.holds_clear lowFormat _ _ _
  fullPtr := rfl
  qCount := rfl
  lowCount := rfl

section

variable (written : Written numWords s tags full queue low)
include written

theorem Written.setDict (i : Nat)
    (word : Word) : Written numWords (s.setDict i word) tags full queue low :=
  ⟨written.tagged, written.filled, written.queued, written.lowered, written.fullPtr, written.qCount,
    written.lowCount⟩

theorem Written.putTag {tag : Word} (space : tags.length < numWords) (small : tagFormat.Small tag) :
    Written numWords (s.putTag tags.length tag) (tags ++ [tag]) full queue low where
  tagged := written.tagged.put (show tags.length / 16 < _ by omega) small
  filled := by
    refine written.filled.transfer fun i below => Format.put_outside ?_
    change headerAndTags numWords + i ≠ kTags + tags.length / 16
    unfold headerAndTags
    omega
  queued := written.queued
  lowered := written.lowered
  fullPtr := written.fullPtr
  qCount := written.qCount
  lowCount := written.lowCount

theorem Written.pushFull (word : Word) (few : tags.length ≤ numWords) :
    Written numWords (s.pushFull word) tags (full ++ [word]) queue low where
  tagged := by
    refine written.tagged.transfer (show (tags.length + 15) / 16 ≤ _ by omega) fun word below => ?_
    refine update_of_ne ?_ _ _
    rw [written.fullPtr, headerAndTags]
    omega
  filled := by
    have pushed := written.filled.push word
    rw [← written.fullPtr] at pushed
    exact pushed
  queued := written.queued
  lowered := written.lowered
  fullPtr := by
    rw [length_append, length_singleton, ← Nat.add_assoc, ← written.fullPtr]
    rfl
  qCount := written.qCount
  lowCount := written.lowCount

theorem Written.pushQueue {i : Nat} (few : queue.length ≤ numWords)
    (fewLow : low.length ≤ numWords) (small : queueFormat.Small (BitVec.ofNat 32 i)) :
    Written numWords (s.pushQueue i) tags full (queue ++ [BitVec.ofNat 32 i]) low where
  tagged := written.tagged
  filled := written.filled
  queued := by
    have pushed := written.queued.put (show queue.length / 8 < numWords / 8 + 1 by omega) small
    rw [← written.qCount] at pushed
    exact pushed
  lowered := by
    refine written.lowered.transfer (show (low.length + 2) / 3 ≤ numWords / 3 + 1 by omega)
      fun word below => Format.put_outside ?_
    change qMaxWords numWords + word ≠ 0 + s.qCount / 8
    rw [written.qCount, qMaxWords]
    omega
  fullPtr := written.fullPtr
  qCount := by
    rw [length_append, length_singleton, ← written.qCount]
    rfl
  lowCount := written.lowCount

theorem Written.pushLow {bits : Word} (few : queue.length ≤ numWords)
    (fewLow : low.length ≤ numWords) (small : lowFormat.Small bits) :
    Written numWords (s.pushLow (qMaxWords numWords) bits) tags full queue (low ++ [bits]) where
  tagged := written.tagged
  filled := written.filled
  queued := by
    refine written.queued.transfer (show (queue.length + 7) / 8 ≤ numWords / 8 + 1 by omega)
      fun word below => Format.put_outside ?_
    change 0 + word ≠ qMaxWords numWords + s.lowCount / 3
    omega
  lowered := by
    have pushed := written.lowered.put (show low.length / 3 < numWords / 3 + 1 by omega) small
    rw [← written.lowCount] at pushed
    exact pushed
  fullPtr := written.fullPtr
  qCount := written.qCount
  lowCount := by
    rw [length_append, length_singleton, ← written.lowCount]
    rfl

end

theorem tag_small (token : Token) : tagFormat.Small token.tag := by
  cases token <;> simp [Format.Small, Format.mask, tagFormat, Token.tag]

theorem index_small (word : Word) : queueFormat.Small (BitVec.ofNat 32 (dictIndex word)) := by
  unfold Format.Small dictIndex
  rw [BitVec.ofNat_toNat, BitVec.setWidth_eq]
  change _ &&& 15#32 &&& 15#32 = _ &&& 15#32
  rw [BitVec.and_assoc, BitVec.and_self]

theorem low_small (word : Word) : lowFormat.Small (word &&& kLowMask) := by
  change word &&& 1023#32 &&& 1023#32 = word &&& 1023#32
  rw [BitVec.and_assoc, BitVec.and_self]

abbrev Encoded (numWords : Nat) (state : Encoder) (tokens : List Token) : Prop :=
  Written numWords state (tokens.map Token.tag) (tokens.filterMap Token.full)
    (tokens.filterMap Token.index) (tokens.filterMap Token.low)

theorem encodeWord_encoded {tokens : List Token} (encoded : Encoded numWords state tokens)
    (space : tokens.length < numWords) (word : Word) :
    Encoded numWords (encodeWord (qMaxWords numWords) tokens.length word state)
        (tokens ++ [classify state.dict word]) ∧
      (encodeWord (qMaxWords numWords) tokens.length word state).dict =
        learn state.dict word (classify state.dict word) := by
  have few : (tokens.filterMap Token.index).length < numWords :=
    Nat.lt_of_le_of_lt (length_filterMap_le _ _) space
  have fewLow : (tokens.filterMap Token.low).length < numWords :=
    Nat.lt_of_le_of_lt (length_filterMap_le _ _) space
  have count : (tokens.map Token.tag).length = tokens.length := length_map _
  rw [← count] at space
  unfold encodeWord classify Encoded
  rw [map_append, filterMap_append, filterMap_append, filterMap_append, ← count]
  dsimp only
  split_ifs with zero same near
  · have tagged := encoded.putTag space (tag_small .zero)
    refine ⟨?_, rfl⟩
    simpa [filterMap_cons, Token.tag, Token.full, Token.index, Token.low] using tagged
  · have queued := encoded.pushQueue (Nat.le_of_lt few) (Nat.le_of_lt fewLow) (index_small word)
    have tagged := queued.putTag space (tag_small (.same (dictIndex word)))
    refine ⟨?_, rfl⟩
    simpa [filterMap_cons, Token.tag, Token.full, Token.index, Token.low] using tagged
  · have queued := (encoded.setDict (dictIndex word) word).pushQueue (Nat.le_of_lt few)
      (Nat.le_of_lt fewLow) (index_small word)
    have lowered := queued.pushLow (by simpa using Nat.succ_le_of_lt few) (Nat.le_of_lt fewLow)
      (low_small word)
    have tagged := lowered.putTag space (tag_small (.near (dictIndex word) (word &&& kLowMask)))
    refine ⟨?_, rfl⟩
    simpa [filterMap_cons, Token.tag, Token.full, Token.index, Token.low] using tagged
  · have filled := (encoded.setDict (dictIndex word) word).pushFull word (Nat.le_of_lt space)
    have tagged := filled.putTag space (tag_small (.miss word))
    refine ⟨?_, rfl⟩
    simpa [filterMap_cons, Token.tag, Token.full, Token.index, Token.low] using tagged

theorem encodeWords_encoded {tokens : List Token} (words : List Word)
    (encoded : Encoded numWords state tokens) (space : tokens.length + words.length ≤ numWords) :
    Encoded numWords (encodeWords (qMaxWords numWords) tokens.length words state)
      (tokens ++ tokenize state.dict words) := by
  induction words generalizing state tokens with
  | nil =>
    rw [tokenize, append_nil]
    exact encoded
  | cons word rest ih =>
    rw [length_cons] at space
    obtain ⟨next, dict⟩ := encodeWord_encoded encoded (by omega) word
    have later := ih next (by
      rw [length_append, length_singleton]
      omega)
    rw [length_append, length_singleton, dict, append_assoc] at later
    exact later

end Encoding

section Decoding

variable {input words : Memory} {fullWords queuePos lowBits : Nat} {dict : Dict}
  {done rest tokens : List Token} {token : Token}

/-- The streams of the tokens, where the decoder reads them. -/
structure Readable (input : Memory) (fullWords queuePos lowBits : Nat) (tokens : List Token) :
    Prop where
  tags : tagFormat.Reads input kTags (tokens.map Token.tag)
  full : Stores input fullWords (tokens.filterMap Token.full)
  queue : queueFormat.Reads input queuePos (tokens.filterMap Token.index)
  low : lowFormat.Reads input lowBits (tokens.filterMap Token.low)

/-- The decoder between two words: its counters have passed the fields of the tokens done. -/
def decoderAt (done : List Token) (dict : Dict) (words : Memory) : Decoder where
  words := words
  fullIdx := (done.filterMap Token.full).length
  qIdx := (done.filterMap Token.index).length
  lowIdx := (done.filterMap Token.low).length
  dict := dict

theorem next_field {field : Token → Option Word} {v : Word} {read : Nat → Word}
    (reads : ∀ i (below : i < ((done ++ token :: rest).filterMap field).length),
      read i = ((done ++ token :: rest).filterMap field)[i])
    (has : field token = some v) : read (done.filterMap field).length = v := by
  have split : (done ++ token :: rest).filterMap field =
      done.filterMap field ++ v :: rest.filterMap field := by
    rw [filterMap_append, filterMap_cons_some has]
  have there :
      (done.filterMap field).length < ((done ++ token :: rest).filterMap field).length := by
    rw [split, length_append, length_cons]
    omega
  rw [reads _ there]
  simp only [split, getElem_append_right (Nat.le_refl _), Nat.sub_self, getElem_cons_zero]

theorem Readable.tag
    (readable : Readable input fullWords queuePos lowBits (done ++ token :: rest)) :
    tagFormat.get input kTags done.length = token.tag := by
  have there : done.length < ((done ++ token :: rest).map Token.tag).length := by
    rw [length_map, length_append, length_cons]
    omega
  rw [readable.tags done.length there, getElem_map, getElem_append_right (Nat.le_refl _)]
  simp only [Nat.sub_self, getElem_cons_zero]

theorem dictIndex_word (word : Word) :
    (BitVec.ofNat 32 (dictIndex word)).toNat = dictIndex word := by
  unfold dictIndex
  rw [BitVec.ofNat_toNat, BitVec.setWidth_eq]

theorem decodeWord_classify (word : Word)
    (readable : Readable input fullWords queuePos lowBits (done ++ classify dict word :: rest)) :
    decodeWord input fullWords queuePos lowBits done.length (decoderAt done dict words) =
      decoderAt (done ++ [classify dict word]) (learn dict word (classify dict word))
        (update words done.length word) := by
  have back := expand_classify dict word
  unfold classify at readable back ⊢
  dsimp only at readable back ⊢
  split_ifs at readable back ⊢ with zero same near
  · have tag : tagFormat.get input kTags done.length = 0#32 := readable.tag
    simp [decodeWord, decoderAt, tag, learn, zero, filterMap_cons, Token.full, Token.index,
      Token.low]
  · have tag : tagFormat.get input kTags done.length = 1#32 := readable.tag
    have i := congrArg BitVec.toNat (next_field readable.queue rfl)
    rw [dictIndex_word] at i
    simp [decodeWord, decoderAt, tag, i, learn, same, filterMap_cons,
      Token.full, Token.index, Token.low]
  · have tag : tagFormat.get input kTags done.length = 2#32 := readable.tag
    have i := congrArg BitVec.toNat (next_field readable.queue rfl)
    rw [dictIndex_word] at i
    have low := next_field readable.low rfl
    have joined : (dict (dictIndex word) &&& kHighMask) ||| (word &&& kLowMask) = word := back
    simp [decodeWord, decoderAt, tag, i, low, joined, learn,
      filterMap_cons, Token.full, Token.index, Token.low]
  · have tag : tagFormat.get input kTags done.length = 3#32 := readable.tag
    have full := @next_field done rest (.miss word) Token.full word
      (fun i => input (fullWords + i)) readable.full rfl
    simp [decodeWord, decoderAt, tag, full, learn, filterMap_cons, Token.full, Token.index,
      Token.low]

theorem decodeWord_frame {s : Decoder} {i p : Nat} (apart : p ≠ i) :
    (decodeWord input fullWords queuePos lowBits i s).words p = s.words p := by
  unfold decodeWord
  dsimp only
  split_ifs <;> exact update_of_ne apart _ _

theorem decodeWords_frame {s : Decoder} {i p : Nat} (count : Nat) (pre : p < i) :
    (decodeWords input fullWords queuePos lowBits count i s).words p = s.words p := by
  induction count generalizing i s with
  | zero => rfl
  | succ count ih =>
    rw [decodeWords, ih (Nat.lt_succ_of_lt pre), decodeWord_frame (Nat.ne_of_lt pre)]

theorem decodeWords_tokenize (page : List Word)
    (readable : Readable input fullWords queuePos lowBits (done ++ tokenize dict page)) :
    Stores (decodeWords input fullWords queuePos lowBits page.length done.length
      (decoderAt done dict words)).words done.length page := by
  induction page generalizing done dict words with
  | nil => exact nofun
  | cons word rest ih =>
    have step :=
      @decodeWord_classify input words fullWords queuePos lowBits dict done _ word readable
    rw [tokenize, append_cons] at readable
    have later := @ih (update words done.length word) _ _ readable
    rw [length_append, length_singleton] at later
    rw [length_cons, decodeWords, step]
    intro i below
    rcases i with _ | i
    · exact (decodeWords_frame _ (Nat.lt_succ_self _)).trans (update_self _ _ _)
    · rw [getElem_cons_succ, ← later i (Nat.lt_of_succ_lt_succ below), Nat.add_assoc,
        Nat.add_comm 1 i]

end Decoding

section RoundTrip

variable {numWords : Nat} {s : Encoder} {tokens : List Token}

theorem tokenize_length (dict : Dict) (page : List Word) :
    (tokenize dict page).length = page.length := by
  induction page generalizing dict with
  | nil => rfl
  | cons word rest ih => rw [tokenize, length_cons, ih, length_cons]

theorem writeHeader_above (out : Memory) (queueStart lowStart lowEnd : Nat) {i : Nat}
    (above : kTags ≤ i) : writeHeader out queueStart lowStart lowEnd i = out i := by
  unfold kTags at above
  unfold writeHeader
  rw [update_of_ne (by omega), update_of_ne (by omega),
    update_of_ne (by omega), update_of_ne (by omega)]

theorem Written.readable (encoded : Encoded numWords s tokens)
    (count : tokens.length = numWords) {input : Memory}
    (agree : ∀ i < s.lowEnd, input i = s.pack (qMaxWords numWords) i) :
    Readable input (headerAndTags numWords) s.fullPtr s.lowStart tokens := by
  have fullPtr := encoded.fullPtr
  have lowStart : s.lowStart = s.fullPtr + (s.qCount + 7) / 8 := rfl
  have lowEnd : s.lowEnd = s.lowStart + (s.lowCount + 2) / 3 := rfl
  have tagsEnd : headerAndTags numWords = kTags + (numWords + 15) / 16 := rfl
  have early : ∀ i, kTags ≤ i → i < s.fullPtr → input i = s.out i := by
    intro i above below
    rw [agree i (by omega), Encoder.pack, writeHeader_above _ _ _ _ above,
      copy_below (by omega), copy_below below]
  refine ⟨?_, ?_, ?_, ?_⟩
  · refine encoded.tagged.reads.transfer fun word below => early _ (Nat.le_add_right _ _) ?_
    have within : word < ((tokens.map Token.tag).length + 15) / 16 := below
    rw [length_map, count] at within
    omega
  · refine encoded.filled.transfer fun i below => early _ ?_ ?_
    · omega
    · omega
  · refine encoded.queued.reads.transfer fun word below => ?_
    have within : word < (s.qCount + 7) / 8 := by
      rw [encoded.qCount]
      exact below
    rw [agree _ (by omega), Encoder.pack, writeHeader_above _ _ _ _ (by omega),
      copy_below (by omega), copy_inside within]
  · refine encoded.lowered.reads.transfer fun word below => ?_
    have within : word < (s.lowCount + 2) / 3 := by
      rw [encoded.lowCount]
      exact below
    rw [agree _ (by omega), Encoder.pack, writeHeader_above _ _ _ _ (by omega), copy_inside within]

theorem decompress_compress (page : List Word) (dst scratch : Memory) (dstCapacity : Nat)
    (few : page.length ≤ 2 ^ 32) (fits : (compress page dst dstCapacity scratch).1 ≠ 0)
    {input : Memory} (agree : ∀ i < (compress page dst dstCapacity scratch).1 / 4,
      input i = (compress page dst dstCapacity scratch).2 i) (words : Memory) :
    (decompress input words (compress page dst dstCapacity scratch).1 (page.length * 4)).1 =
        page.length * 4 ∧ Stores (decompress input words (compress page dst dstCapacity scratch).1
        (page.length * 4)).2 0 page := by
  have blank : Encoded page.length (startEncoder page.length dst scratch) [] :=
    startEncoder_written page.length dst scratch
  have encoded := encodeWords_encoded page blank (Nat.le_of_eq (Nat.zero_add _))
  unfold compress at fits agree ⊢
  dsimp only [length_nil, nil_append] at encoded fits agree ⊢
  generalize encodeWords _ _ _ _ = s at *
  split_ifs at fits agree ⊢ with large
  · exact absurd rfl fits
  · obtain ⟨smaller, -⟩ := not_or.mp large
    rw [Nat.mul_div_cancel _ (by decide)] at agree
    have readable := encoded.readable (tokenize_length _ page) agree
    have start : kTags ≤ s.lowEnd := by
      have := encoded.fullPtr
      unfold Encoder.lowEnd Encoder.lowStart headerAndTags at *
      omega
    have order : s.fullPtr ≤ s.lowStart ∧ s.lowStart ≤ s.lowEnd :=
      ⟨Nat.le_add_right _ _, Nat.le_add_right _ _⟩
    unfold kTags at start
    have magic : input 0 = kMagic := agree 0 (by omega)
    have queueAt : (input 1).toNat = s.fullPtr := by
      rw [agree 1 (by omega)]
      exact (BitVec.toNat_ofNat _ _).trans (Nat.mod_eq_of_lt (by omega))
    have lowAt : (input 2).toNat = s.lowStart := by
      rw [agree 2 (by omega)]
      exact (BitVec.toNat_ofNat _ _).trans (Nat.mod_eq_of_lt (by omega))
    have endAt : (input 3).toNat = s.lowEnd := by
      rw [agree 3 (by omega)]
      exact (BitVec.toNat_ofNat _ _).trans (Nat.mod_eq_of_lt (by omega))
    have decoded := @decodeWords_tokenize input words _ _ _ _ [] page readable
    unfold decompress
    rw [if_neg (by omega), if_neg (by simp [magic]), queueAt, lowAt, endAt,
      if_neg (Nat.lt_irrefl _), Nat.mul_div_cancel _ (by decide)]
    exact ⟨rfl, decoded⟩

def blank : Memory := fun _ => 0#32

def equalPage : List Word := List.replicate 32 5#32

theorem equalPage_restored : (compress equalPage blank 128 blank).1 ≠ 0 ∧
      Stores (decompress (compress equalPage blank 128 blank).2 blank
        (compress equalPage blank 128 blank).1 (equalPage.length * 4)).2 0 equalPage :=
  have fits : (compress equalPage blank 128 blank).1 ≠ 0 := by decide +kernel
  ⟨fits, (decompress_compress equalPage blank blank 128 (by decide) fits (fun _ _ => rfl) blank).2⟩

end RoundTrip

section WidePage

/-! The header keeps word offsets in 32 bits. On a page of 2^36 words the tags alone take 2^32
words, and the offset of the indices is read back as 5: the decoder takes tags for indices. -/

theorem encodeWords_append (lowScratch i : Nat) (front back : List Word) (s : Encoder) :
    encodeWords lowScratch i (front ++ back) s =
      encodeWords lowScratch (i + front.length) back (encodeWords lowScratch i front s) := by
  induction front generalizing i s with
  | nil => rfl
  | cons word rest ih =>
    rw [cons_append, encodeWords, ih, encodeWords, length_cons, Nat.add_assoc,
      Nat.add_comm 1 rest.length]

theorem encodeWord_zero (lowScratch i : Nat) (s : Encoder) :
    encodeWord lowScratch i 0#32 s = s := by
  have same : tagFormat.put s.out kTags i 0#32 = s.out := by
    rw [Format.put, BitVec.zero_shiftLeft, BitVec.or_zero, update_eq_self]
  rw [encodeWord, if_pos rfl, Encoder.putTag, same]

theorem encodeWords_zeros (lowScratch i count : Nat) (s : Encoder) :
    encodeWords lowScratch i (List.replicate count 0#32) s = s := by
  induction count generalizing i with
  | zero => rfl
  | succ count ih => rw [replicate_succ, encodeWords, encodeWord_zero, ih]

def pairPage (zeros : Nat) : List Word := [1024#32, 1024#32] ++ List.replicate zeros 0#32

def pairState (zeros : Nat) : Encoder :=
  encodeWords (qMaxWords (zeros + 2)) 0 [1024#32, 1024#32] (startEncoder (zeros + 2) blank blank)

theorem pairPage_length (zeros : Nat) : (pairPage zeros).length = zeros + 2 := by
  rw [pairPage, length_append, length_replicate, Nat.add_comm]
  rfl

theorem pairPage_second (zeros : Nat) (within : 1 < (pairPage zeros).length) :
    (pairPage zeros)[1] = 1024#32 := rfl

theorem compress_pairPage (zeros dstCapacity : Nat) :
    compress (pairPage zeros) blank dstCapacity blank =
      (if (zeros + 2) * 4 ≤ (pairState zeros).lowEnd * 4 ∨
          dstCapacity < (pairState zeros).lowEnd * 4 then 0 else (pairState zeros).lowEnd * 4,
        (pairState zeros).pack (qMaxWords (zeros + 2))) := by
  have encoded : encodeWords (qMaxWords (zeros + 2)) 0 (pairPage zeros)
      (startEncoder (zeros + 2) blank blank) = pairState zeros := by
    rw [pairPage, encodeWords_append, encodeWords_zeros]
    rfl
  unfold compress
  rw [pairPage_length]
  dsimp only
  rw [encoded]

theorem decodeWords_second (input : Memory) (fullWords queuePos lowBits zeros : Nat) (s : Decoder) :
    (decodeWords input fullWords queuePos lowBits (zeros + 2) 0 s).words 1 =
      (decodeWord input fullWords queuePos lowBits 1
        (decodeWord input fullWords queuePos lowBits 0 s)).words 1 := by
  rw [decodeWords, decodeWords, decodeWords_frame _ (Nat.lt_succ_self 1)]

def wideZeros : Nat := 2 ^ 36 - 2

def widePacked : Memory := (pairState wideZeros).pack (qMaxWords (wideZeros + 2))

theorem widePacked_offsets : widePacked 0 = kMagic ∧ widePacked 1 = 5#32 ∧ widePacked 2 = 6#32 ∧
    widePacked 3 = 6#32 := by
  decide +kernel

theorem widePacked_second : (decodeWord widePacked (headerAndTags (wideZeros + 2)) 5 6 1
      (decodeWord widePacked (headerAndTags (wideZeros + 2)) 5 6 0
        ⟨blank, 0, 0, 0, fun _ => 0#32⟩)).words 1 = 0#32 := by
  decide +kernel

theorem compress_widePage :
    compress (pairPage wideZeros) blank (2 ^ 38) blank = ((2 ^ 32 + 6) * 4, widePacked) := by
  have lowEnd : (pairState wideZeros).lowEnd = 2 ^ 32 + 6 := by decide +kernel
  rw [compress_pairPage, lowEnd, if_neg (by decide), widePacked]

theorem decompress_widePacked :
    ∃ words, decompress widePacked blank ((2 ^ 32 + 6) * 4) (2 ^ 38) = (2 ^ 38, words) ∧
      words 1 = 0#32 := by
  obtain ⟨magic, queueAt, lowAt, endAt⟩ := widePacked_offsets
  have count : 2 ^ 38 / 4 = wideZeros + 2 := by decide
  have queueOffset : (5#32).toNat = 5 := rfl
  have lowOffset : (6#32).toNat = 6 := rfl
  have second := decodeWords_second widePacked (headerAndTags (wideZeros + 2)) 5 6 wideZeros
    ⟨blank, 0, 0, 0, fun _ => 0#32⟩
  rw [widePacked_second] at second
  unfold decompress
  rw [count, if_neg (by decide), if_neg (by simp [magic]), queueAt, lowAt, endAt, queueOffset,
    lowOffset, if_neg (by decide)]
  exact ⟨_, rfl, second⟩

theorem widePage_not_restored : (pairPage wideZeros).length = 2 ^ 36 ∧
      (compress (pairPage wideZeros) blank (2 ^ 38) blank).1 ≠ 0 ∧
      (decompress (compress (pairPage wideZeros) blank (2 ^ 38) blank).2 blank
        (compress (pairPage wideZeros) blank (2 ^ 38) blank).1 (2 ^ 38)).1 = 2 ^ 38 ∧
      ¬ Stores (decompress (compress (pairPage wideZeros) blank (2 ^ 38) blank).2 blank
        (compress (pairPage wideZeros) blank (2 ^ 38) blank).1 (2 ^ 38)).2 0
        (pairPage wideZeros) := by
  have count : wideZeros + 2 = 2 ^ 36 := by decide
  have within : 1 < (pairPage wideZeros).length := by
    rw [pairPage_length]
    omega
  obtain ⟨words, decoded, second⟩ := decompress_widePacked
  rw [compress_widePage]
  dsimp only
  rw [decoded]
  refine ⟨(pairPage_length wideZeros).trans count, by decide, rfl, fun stores => ?_⟩
  have differs := (second.symm.trans (stores 1 within)).trans (pairPage_second wideZeros within)
  exact absurd differs (by decide)

end WidePage

end Smash.Wkdm
