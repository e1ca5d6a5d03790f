import BdxReco.Lib.Mem
import Mathlib.Algebra.Ring.Nat
import Mathlib.Data.List.Basic

/-!
# `Lib.LittleEndian` — numbers as bytes of a memory

A number is written as bytes with the low one first, and read back from the cells of a memory. `m.Holds offset bs` says
that `m` has the bytes `bs` from `offset` on; it splits over appended lists, so a reader can be followed along a list of
fields. Words of 32 bits are written in the same way, padded with zeros.
-/

namespace Mem

/-- The cells from `offset` on are `bs`. -/
def Holds (m : Mem UInt8) (offset : Nat) (bs : List UInt8) : Prop := ∀ k b, bs[k]? = some b → m (offset + k) = b

@[simp] theorem holds_nil (m : Mem UInt8) (offset : Nat) : m.Holds offset [] := by
  intro k b h
  simp at h

@[simp] theorem holds_cons {m : Mem UInt8} {offset : Nat} {b : UInt8} {bs : List UInt8} :
    m.Holds offset (b :: bs) ↔ m offset = b ∧ m.Holds (offset + 1) bs := by
  constructor
  · intro h
    refine ⟨h 0 b rfl, ?_⟩
    intro k b' hk
    have hcell := h (k + 1) b' (by simpa using hk)
    rwa [show offset + 1 + k = offset + (k + 1) by omega]
  · rintro ⟨hfirst, hrest⟩ k b' hk
    cases k with
    | zero =>
        obtain rfl : b = b' := by simpa using hk
        exact hfirst
    | succ k =>
        have hcell := hrest k b' (by simpa using hk)
        rwa [show offset + (k + 1) = offset + 1 + k by omega]

theorem holds_append {m : Mem UInt8} {offset : Nat} {bs bs' : List UInt8} :
    m.Holds offset (bs ++ bs') ↔ m.Holds offset bs ∧ m.Holds (offset + bs.length) bs' := by
  induction bs generalizing offset with
  | nil => simp
  | cons b bs ih =>
      rw [List.cons_append, holds_cons, holds_cons, ih, and_assoc, List.length_cons,
        show offset + 1 + bs.length = offset + (bs.length + 1) by omega]

/-- The bytes `bs`, and what lies beyond them. -/
def load (bs : List UInt8) (beyond : Mem UInt8) : Mem UInt8 := fun k => bs[k]?.getD (beyond k)

theorem load_holds (bs : List UInt8) (beyond : Mem UInt8) : (load bs beyond).Holds 0 bs := by
  intro k b hk
  simp [load, hk]

end Mem

namespace LittleEndian

/-- The `count` low bytes of `n`, the lowest first. -/
def bytes : Nat → Nat → List UInt8
  | 0, _ => []
  | count + 1, n => UInt8.ofNat n :: bytes count (n / 256)

/-- The number in the `count` cells from `offset` on. -/
def read (m : Mem UInt8) (offset : Nat) : Nat → Nat
  | 0 => 0
  | count + 1 => (m offset).toNat + 256 * read m (offset + 1) count

@[simp] theorem length_bytes (count n : Nat) : (bytes count n).length = count := by
  induction count generalizing n with
  | zero => rfl
  | succ count ih => simp [bytes, ih]

/-- **What is written is read back.** -/
theorem read_of_holds {m : Mem UInt8} {offset count n : Nat} (h : m.Holds offset (bytes count n))
    (hn : n < 256 ^ count) : read m offset count = n := by
  induction count generalizing offset n with
  | zero =>
      have hzero : n = 0 := by simpa using hn
      rw [hzero, read]
  | succ count ih =>
      obtain ⟨hfirst, hrest⟩ := Mem.holds_cons.mp h
      have hhigh : n / 256 < 256 ^ count := by
        rw [Nat.pow_succ] at hn
        exact Nat.div_lt_of_lt_mul (by omega)
      rw [read, ih hrest hhigh, hfirst, UInt8.toNat_ofNat']
      omega

/-! ## Words -/

/-- A word with the given bytes. -/
def word (b₀ b₁ b₂ b₃ : UInt8) : UInt32 :=
  UInt32.ofNat (b₀.toNat + 256 * (b₁.toNat + 256 * (b₂.toNat + 256 * b₃.toNat)))

/-- The bytes of some words. -/
def wordBytes (words : List UInt32) : List UInt8 := words.flatMap (fun w => bytes 4 w.toNat)

/-- The words with the given bytes; the last one is filled up with zeros. -/
def wordsOf : List UInt8 → List UInt32
  | [] => []
  | [b₀] => [word b₀ 0 0 0]
  | [b₀, b₁] => [word b₀ b₁ 0 0]
  | [b₀, b₁, b₂] => [word b₀ b₁ b₂ 0]
  | b₀ :: b₁ :: b₂ :: b₃ :: bs => word b₀ b₁ b₂ b₃ :: wordsOf bs

theorem bytes_word (b₀ b₁ b₂ b₃ : UInt8) : bytes 4 (word b₀ b₁ b₂ b₃).toNat = [b₀, b₁, b₂, b₃] := by
  have h₀ := b₀.toNat_lt
  have h₁ := b₁.toNat_lt
  have h₂ := b₂.toNat_lt
  have h₃ := b₃.toNat_lt
  have hword : (word b₀ b₁ b₂ b₃).toNat = b₀.toNat + 256 * (b₁.toNat + 256 * (b₂.toNat + 256 * b₃.toNat)) := by
    rw [word, UInt32.toNat_ofNat']
    exact Nat.mod_eq_of_lt (by omega)
  have hbyte : ∀ b : UInt8, ∀ n : Nat, n % 256 = b.toNat → UInt8.ofNat n = b := by
    intro b n hn
    rw [← UInt8.toNat_inj, UInt8.toNat_ofNat']
    exact hn
  simp only [bytes, hword, List.cons.injEq, and_true]
  refine ⟨hbyte _ _ ?_, hbyte _ _ ?_, hbyte _ _ ?_, hbyte _ _ ?_⟩ <;> omega

theorem length_wordBytes (words : List UInt32) : (wordBytes words).length = words.length * 4 := by
  induction words with
  | nil => rfl
  | cons w words ih =>
      simp only [wordBytes, List.flatMap_cons, List.length_append, length_bytes, List.length_cons] at ih ⊢
      omega

/-- The bytes of the words are the given ones and the zeros they were filled up with. -/
theorem wordBytes_wordsOf (bs : List UInt8) : ∃ pad ≤ 3, wordBytes (wordsOf bs) = bs ++ List.replicate pad 0 := by
  induction bs using wordsOf.induct with
  | case1 => exact ⟨0, by omega, rfl⟩
  | case2 b₀ => exact ⟨3, by omega, by simp [wordsOf, wordBytes, bytes_word, List.replicate]⟩
  | case3 b₀ b₁ => exact ⟨2, by omega, by simp [wordsOf, wordBytes, bytes_word, List.replicate]⟩
  | case4 b₀ b₁ b₂ => exact ⟨1, by omega, by simp [wordsOf, wordBytes, bytes_word, List.replicate]⟩
  | case5 b₀ b₁ b₂ b₃ bs ih =>
      obtain ⟨pad, hpad, hrest⟩ := ih
      refine ⟨pad, hpad, ?_⟩
      simp only [wordBytes, wordsOf, List.flatMap_cons, bytes_word, List.cons_append, List.nil_append] at hrest ⊢
      rw [hrest]

end LittleEndian
