import BdxReco.Lib.ByteStream
import BdxReco.Lib.LittleEndian
import Mathlib.Data.Vector.Basic
import Mathlib.Logic.Equiv.Basic

/-!
# `Lib.Layout` — records of a fixed size

A `Layout α` says how the values of `α` lie in memory: every value is a block of `size` bytes, and every block of that
size is a value. Layouts are built from words and put together field by field (`prod`, `vector`); `map` gives a
record the layout of the tuple of its fields.

`readFrom` copies a block of a stream over a record. `readFrom_encode` is the round trip, `readFrom_some` what is
known of the stream once it has succeeded.
-/

/-- A block of memory for every value, and a value for every block. -/
structure Layout (α : Type) where
  size : Nat
  encode : α → List UInt8
  decode : List UInt8 → α
  length_encode : ∀ a, (encode a).length = size
  decode_encode : ∀ a, decode (encode a) = a
  encode_decode : ∀ bs, bs.length = size → encode (decode bs) = bs

namespace LittleEndian

/-- The number with the given bytes, the lowest first. -/
def number : List UInt8 → Nat
  | [] => 0
  | b :: bs => b.toNat + 256 * number bs

theorem number_bytes {count n : Nat} (hn : n < 256 ^ count) : number (bytes count n) = n := by
  induction count generalizing n with
  | zero =>
      have hzero : n = 0 := by simpa using hn
      rw [hzero]
      rfl
  | succ count ih =>
      have hhigh : n / 256 < 256 ^ count := by
        rw [Nat.pow_succ] at hn
        exact Nat.div_lt_of_lt_mul (by omega)
      rw [bytes, number, ih hhigh, UInt8.toNat_ofNat']
      omega

theorem number_lt (bs : List UInt8) : number bs < 256 ^ bs.length := by
  induction bs with
  | nil => exact Nat.one_pos
  | cons b bs ih =>
      have hb := b.toNat_lt
      rw [number, List.length_cons, Nat.pow_succ]
      omega

theorem bytes_number (bs : List UInt8) : bytes bs.length (number bs) = bs := by
  induction bs with
  | nil => rfl
  | cons b bs ih =>
      have hb := b.toNat_lt
      have hlow : UInt8.ofNat (b.toNat + 256 * number bs) = b := by
        rw [← UInt8.toNat_inj, UInt8.toNat_ofNat']
        omega
      have hhigh : (b.toNat + 256 * number bs) / 256 = number bs := by omega
      rw [List.length_cons, number, bytes, hlow, hhigh, ih]

end LittleEndian

/-! ## Bit fields -/

namespace BitField

variable {a b start len : Nat}

/-- A field in the low part of a word. -/
theorem extractLsb'_append_low (x : BitVec a) (y : BitVec b) (h : start + len ≤ b) :
    (x ++ y).extractLsb' start len = y.extractLsb' start len := by
  ext i hi
  simp only [BitVec.getElem_extractLsb', BitVec.getLsbD_append]
  rw [if_pos (by omega)]

/-- A field above the low part. -/
theorem extractLsb'_append_high (x : BitVec a) (y : BitVec b) (h : b ≤ start) :
    (x ++ y).extractLsb' start len = x.extractLsb' (start - b) len := by
  ext i hi
  simp only [BitVec.getElem_extractLsb', BitVec.getLsbD_append]
  rw [if_neg (by omega)]
  congr 1
  omega

/-- Two fields next to each other. -/
theorem extractLsb'_append_extractLsb' {w : Nat} (x : BitVec w) (start a b : Nat) :
    x.extractLsb' (start + b) a ++ x.extractLsb' start b = x.extractLsb' start (a + b) := by
  ext i hi
  simp only [BitVec.getElem_extractLsb', BitVec.getElem_append]
  by_cases hlow : i < b
  · rw [dif_pos hlow]
  · rw [dif_neg hlow]
    congr 1
    omega

/-- A field in front of the others, as a digit. -/
theorem toNat_append (x : BitVec a) (y : BitVec b) : (x ++ y).toNat = x.toNat * 2 ^ b + y.toNat := by
  rw [BitVec.toNat_append, ← Nat.shiftLeft_add_eq_or_of_lt y.isLt, Nat.shiftLeft_eq]

end BitField

namespace Layout

open LittleEndian

variable {α β : Type}

/-- An unsigned word of `count` bytes. -/
def word (count : Nat) : Layout (BitVec (8 * count)) where
  size := count
  encode x := bytes count x.toNat
  decode bs := BitVec.ofNat (8 * count) (number bs)
  length_encode x := length_bytes count x.toNat
  decode_encode x := by
    have hlt : x.toNat < 256 ^ count := by
      have hpow : 256 ^ count = 2 ^ (8 * count) := by rw [Nat.pow_mul]
      rw [hpow]
      exact x.isLt
    apply BitVec.eq_of_toNat_eq
    rw [number_bytes hlt, BitVec.toNat_ofNat]
    exact Nat.mod_eq_of_lt x.isLt
  encode_decode bs hbs := by
    have hlt : number bs < 2 ^ (8 * count) := by
      have hpow : 256 ^ count = 2 ^ (8 * count) := by rw [Nat.pow_mul]
      rw [← hpow, ← hbs]
      exact number_lt bs
    rw [BitVec.toNat_ofNat, Nat.mod_eq_of_lt hlt, ← hbs]
    exact bytes_number bs

/-- One field after the other. -/
def prod (l : Layout α) (l' : Layout β) : Layout (α × β) where
  size := l.size + l'.size
  encode p := l.encode p.1 ++ l'.encode p.2
  decode bs := (l.decode (bs.take l.size), l'.decode (bs.drop l.size))
  length_encode p := by rw [List.length_append, l.length_encode, l'.length_encode]
  decode_encode p := by
    rw [List.take_left' (l.length_encode p.1), List.drop_left' (l.length_encode p.1), l.decode_encode,
      l'.decode_encode]
  encode_decode bs hbs := by
    rw [l.encode_decode _ (List.length_take_of_le (by omega)),
      l'.encode_decode _ (by rw [List.length_drop]; omega), List.take_append_drop]

/-- A record has the layout of the tuple of its fields. -/
def map (l : Layout α) (e : α ≃ β) : Layout β where
  size := l.size
  encode b := l.encode (e.symm b)
  decode bs := e (l.decode bs)
  length_encode b := l.length_encode _
  decode_encode b := by rw [l.decode_encode, e.apply_symm_apply]
  encode_decode bs hbs := by rw [e.symm_apply_apply, l.encode_decode bs hbs]

/-- The fields of an array, cut out of its block. -/
def decodeList (l : Layout α) : Nat → List UInt8 → List α
  | 0, _ => []
  | n + 1, bs => l.decode (bs.take l.size) :: decodeList l n (bs.drop l.size)

theorem length_decodeList (l : Layout α) (n : Nat) (bs : List UInt8) : (l.decodeList n bs).length = n := by
  induction n generalizing bs with
  | zero => rfl
  | succ n ih => rw [decodeList, List.length_cons, ih]

theorem length_flatMap_encode (l : Layout α) (as : List α) :
    (as.flatMap l.encode).length = as.length * l.size := by
  induction as with
  | nil => simp
  | cons a as ih =>
      rw [List.flatMap_cons, List.length_append, ih, l.length_encode, List.length_cons, Nat.succ_mul]
      omega

theorem decodeList_flatMap (l : Layout α) (as : List α) (bs : List UInt8) :
    l.decodeList as.length (as.flatMap l.encode ++ bs) = as := by
  induction as with
  | nil => rfl
  | cons a as ih =>
      rw [List.length_cons, decodeList, List.flatMap_cons, List.append_assoc, List.take_left' (l.length_encode a),
        List.drop_left' (l.length_encode a), l.decode_encode, ih]

theorem flatMap_decodeList (l : Layout α) {n : Nat} {bs : List UInt8} (hbs : bs.length = n * l.size) :
    (l.decodeList n bs).flatMap l.encode = bs := by
  induction n generalizing bs with
  | zero =>
      have hnil : bs = [] := List.length_eq_zero_iff.mp (by simpa using hbs)
      rw [hnil]
      rfl
  | succ n ih =>
      rw [Nat.succ_mul] at hbs
      rw [decodeList, List.flatMap_cons, l.encode_decode _ (List.length_take_of_le (by omega)),
        ih (by rw [List.length_drop]; omega), List.take_append_drop]

/-- An array of `n` fields. -/
def vector (l : Layout α) (n : Nat) : Layout (List.Vector α n) where
  size := n * l.size
  encode v := v.toList.flatMap l.encode
  decode bs := ⟨l.decodeList n bs, l.length_decodeList n bs⟩
  length_encode v := by rw [length_flatMap_encode, v.toList_length]
  decode_encode v := by
    apply List.Vector.eq
    have hlist := decodeList_flatMap l v.toList []
    rw [v.toList_length, List.append_nil] at hlist
    exact hlist
  encode_decode bs hbs := flatMap_decodeList l hbs

/-! ## Reading a record from a stream -/

open ByteStream

variable {s s' : ByteStream} {pre bs : List UInt8}

/-- The record in the next `size` bytes, `none` if there are not that many. -/
def readFrom (l : Layout α) (s : ByteStream) : Option (α × ByteStream) :=
  let (got, s') := s.read l.size
  if got.length = l.size then some (l.decode got, s') else none

/-- **A record that was written is read.** -/
theorem readFrom_encode (l : Layout α) {a : α} (h : At s pre (l.encode a ++ bs)) :
    ∃ s', l.readFrom s = some (a, s') ∧ At s' (pre ++ l.encode a) bs := by
  obtain ⟨s', hread, hat⟩ := h.read (l.length_encode a).symm
  refine ⟨s', ?_, hat⟩
  unfold readFrom
  rw [hread]
  simp only
  rw [if_pos (l.length_encode a), l.decode_encode]

/-- **A record that is read is there.** -/
theorem readFrom_some (l : Layout α) {a : α} (h : At s pre bs) (hread : l.readFrom s = some (a, s')) :
    ∃ later, bs = l.encode a ++ later ∧ At s' (pre ++ l.encode a) later := by
  unfold readFrom at hread
  cases hgot : s.read l.size with
  | mk got s'' =>
      rw [hgot] at hread
      simp only at hread
      by_cases hlen : got.length = l.size
      · rw [if_pos hlen] at hread
        obtain ⟨ha, hs⟩ := Prod.mk.inj (Option.some.inj hread)
        obtain ⟨later, hbs, hat⟩ := read_full h hgot hlen
        have hencode : l.encode a = got := by rw [← ha, l.encode_decode got hlen]
        exact ⟨later, by rw [hencode, hbs], by rw [hencode, ← hs]; exact hat⟩
      · rw [if_neg hlen] at hread
        exact absurd hread.symm (Option.some_ne_none _)

/-- Nothing is read from a stream that is not good. -/
theorem readFrom_of_not_good (l : Layout α) (hgood : s.good = false) (hsize : 0 < l.size) : l.readFrom s = none := by
  unfold readFrom
  rw [read_of_not_good hgood]
  exact if_neg (by simp only [List.length_nil]; omega)

end Layout
