import Mathlib.Data.List.Basic
import Mathlib.Data.Nat.ModEq

/-! Files as lists of bytes: little-endian numbers, reads of a fixed number of bytes that fail at
the end of the file, and tables of records of one size. -/
namespace Smash.ByteStream

open List

abbrev Bytes := List UInt8

def leBytes : Nat → Nat → Bytes
  | 0, _ => []
  | width + 1, v => UInt8.ofNat v :: leBytes width (v / 256)

def ofLe : Bytes → Nat
  | [] => 0
  | byte :: rest => byte.toNat + 256 * ofLe rest

theorem ofLe_leBytes (width v : Nat) : ofLe (leBytes width v) = v % 256 ^ width := by
  induction width generalizing v with
  | zero => simp only [leBytes, ofLe, Nat.pow_zero, Nat.mod_one]
  | succ width ih =>
    have power : 256 ^ (width + 1) = 256 * 256 ^ width := Nat.pow_succ'
    rw [leBytes, ofLe, ih, UInt8.toNat_ofNat', power, Nat.mod_mul]

theorem ofLe_leBytes_of_lt {width v : Nat} (fits : v < 256 ^ width) :
    ofLe (leBytes width v) = v := by
  rw [ofLe_leBytes, Nat.mod_eq_of_lt fits]

def field (raw : Bytes) (offset width : Nat) : Nat := ofLe ((raw.drop offset).take width)

def fread (size : Nat) (stream : Bytes) : Option (Bytes × Bytes) :=
  if size ≤ stream.length then some (stream.take size, stream.drop size) else none

theorem fread_append {size : Nat} {raw : Bytes} (whole : raw.length = size) (rest : Bytes) :
    fread size (raw ++ rest) = some (raw, rest) := by
  subst whole
  rw [fread, if_pos (by simp), take_left, drop_left]

/-- The record at `idx`, of `size` bytes each, if the file has all of it. -/
def recordAt (size : Nat) (stream : Bytes) (i : Nat) : Option Bytes :=
  (fread size (stream.drop (size * i))).map Prod.fst

section Tables

variable {Entry : Type} (size : Nat) (place : Bytes → Entry → Entry)

/-- Reads a record into each of `count` entries of a table from `idx` on and stops at the end
of the file. The rest of the file is left when all of them were read. -/
def readInto : Nat → Nat → Bytes → (Nat → Entry) → (Nat → Entry) × Option Bytes
  | 0, _, stream, table => (table, some stream)
  | count + 1, i, stream, table =>
    match fread size stream with
    | none => (table, none)
    | some (raw, rest) =>
      readInto count (i + 1) rest
        (Function.update table i (place raw (table i)))

theorem recordAt_rest {size : Nat} {stream raw rest : Bytes}
    (read : fread size stream = some (raw, rest)) (i : Nat) :
    recordAt size rest i = recordAt size stream (i + 1) := by
  rw [fread] at read
  split at read
  case isTrue =>
    cases read
    rw [recordAt, recordAt, drop_drop, Nat.mul_succ, Nat.add_comm size]
  case isFalse => cases read

theorem recordAt_missing {size : Nat} {stream : Bytes} (missing : fread size stream = none)
    (i : Nat) : recordAt size stream i = none := by
  have short : stream.length < size := by
    rw [fread] at missing
    split at missing
    case isTrue => cases missing
    case isFalse short => omega
  rw [recordAt, fread, if_neg (by rw [length_drop]; omega), Option.map_none]

/-- Exactly the entries whose record is complete are read. -/
theorem readInto_table (count i : Nat) (stream : Bytes) (table : Nat → Entry) (slot : Nat) :
    (readInto size place count i stream table).1 slot =
      if i ≤ slot ∧ slot < i + count then
        ((recordAt size stream (slot - i)).map fun raw => place raw (table slot)).getD
          (table slot)
      else table slot := by
  induction count generalizing i stream table with
  | zero => rw [readInto, if_neg (by omega)]
  | succ count ih =>
    rw [readInto]
    cases read : fread size stream with
    | none => simp only [recordAt_missing read, Option.map_none, Option.getD_none, ite_self]
    | some parts =>
      obtain ⟨raw, rest⟩ := parts
      simp only [ih, recordAt_rest read]
      by_cases here : slot = i
      · subst here
        rw [if_neg (by omega), if_pos (by omega), Function.update_self, Nat.sub_self, recordAt,
          Nat.mul_zero, drop_zero, read]
        rfl
      · rw [Function.update_of_ne here]
        by_cases inside : i + 1 ≤ slot ∧ slot < i + 1 + count
        · rw [if_pos inside, if_pos (by omega), show slot - (i + 1) + 1 = slot - i by
            omega]
        · rw [if_neg inside, if_neg (by omega)]

end Tables

theorem recordAt_flatMap {Entry : Type} {size : Nat} (encode : Entry → Bytes)
    (whole : ∀ entry, (encode entry).length = size) (entries : List Entry) (rest : Bytes)
    (i : Fin entries.length) :
    recordAt size (entries.flatMap encode ++ rest) i = some (encode entries[i]) := by
  induction entries with
  | nil => exact i.elim0
  | cons entry entries ih =>
    rw [flatMap_cons, append_assoc]
    have first := fread_append (whole entry) (entries.flatMap encode ++ rest)
    cases i using Fin.cases with
    | zero => simp [recordAt, first]
    | succ i => exact (recordAt_rest first i).symm.trans (ih i)

end Smash.ByteStream
