import Mathlib.Data.List.Lex
import Mathlib.Data.Nat.Basic
import Mathlib.Order.Basic

/-!
# `Lib.MixedRadix` — numbers written with a radix for each digit

Fields of a word, hours and minutes of a day, decimal digits: a number `acc * r₁ + d₁`, and so on for every further
radix and digit. Numbers with the same radices compare like their digits (`value_lt_value_iff`), whatever the radices
are; so two ways to write the same digits order them alike.
-/

namespace MixedRadix

/-- The number with the leading part `acc` and the further digits, each with its radix. -/
def value (acc : Nat) : List (Nat × Nat) → Nat
  | [] => acc
  | (r, d) :: l => value (acc * r + d) l

def digits (l : List (Nat × Nat)) : List Nat := l.map Prod.snd

/-- The same radices, and digits below them. -/
def Alike (l l' : List (Nat × Nat)) : Prop :=
  List.Forall₂ (fun p q => p.1 = q.1 ∧ p.2 < p.1 ∧ q.2 < q.1) l l'

/-- One digit more. -/
theorem mul_add_lt_iff {r a b d d' : Nat} (hd : d < r) (hd' : d' < r) :
    a * r + d < b * r + d' ↔ a < b ∨ a = b ∧ d < d' := by
  rcases Nat.lt_trichotomy a b with hlt | heq | hgt
  · have hmul : (a + 1) * r ≤ b * r := Nat.mul_le_mul_right r hlt
    rw [Nat.succ_mul] at hmul
    constructor
    · intro _
      exact Or.inl hlt
    · intro _
      omega
  · subst heq
    omega
  · have hmul : (b + 1) * r ≤ a * r := Nat.mul_le_mul_right r hgt
    rw [Nat.succ_mul] at hmul
    omega

/-- **Numbers with the same radices compare like their digits.** -/
theorem value_lt_value_iff {a b : Nat} {l l' : List (Nat × Nat)} (h : Alike l l') :
    value a l < value b l' ↔ a < b ∨ a = b ∧ List.Lex (· < ·) (digits l) (digits l') := by
  induction h generalizing a b with
  | nil => simp [value, digits]
  | @cons p q l l' hpq hl ih =>
      obtain ⟨r, d⟩ := p
      obtain ⟨r', d'⟩ := q
      obtain ⟨hr, hd, hd'⟩ := hpq
      simp only at hr hd hd'
      subst hr
      have hdigit := mul_add_lt_iff (a := a) (b := b) hd hd'
      have heq : a * r + d = b * r + d' ↔ a = b ∧ d = d' := by
        have hback := mul_add_lt_iff (a := b) (b := a) hd' hd
        constructor
        · intro h
          have h₁ : ¬ (a < b ∨ a = b ∧ d < d') := fun hlt => absurd (hdigit.mpr hlt) (by omega)
          have h₂ : ¬ (b < a ∨ b = a ∧ d' < d) := fun hlt => absurd (hback.mpr hlt) (by omega)
          omega
        · rintro ⟨rfl, rfl⟩
          rfl
      unfold value digits
      rw [ih, hdigit, heq, List.map_cons, List.map_cons, List.cons_lex_cons_iff]
      constructor
      · rintro ((hlt | ⟨hab, hlt⟩) | ⟨⟨hab, hdd⟩, hlex⟩)
        · exact Or.inl hlt
        · exact Or.inr ⟨hab, Or.inl hlt⟩
        · exact Or.inr ⟨hab, Or.inr ⟨hdd, hlex⟩⟩
      · rintro (hlt | ⟨hab, hlt | ⟨hdd, hlex⟩⟩)
        · exact Or.inl (Or.inl hlt)
        · exact Or.inl (Or.inr ⟨hab, hlt⟩)
        · exact Or.inr ⟨⟨hab, hdd⟩, hlex⟩

end MixedRadix
