import Mathlib.Data.List.Basic
import Mathlib.Data.String.Basic

/-!
# `Lib.StdMap` — the ordered associative container of the C++ standard library

`std::map<K, V>` keeps its elements sorted by `operator<` of the key and takes two keys for the same when
neither is below the other; `K`'s `operator==` plays no part. The model is the element sequence in iteration
order, with its sortedness as a field, so an unsorted map cannot be built.

* `KeyOrder κ` is what the container needs of `operator<`: a strict total order.
* `find?` is `find`, `alter` is the common core of `insert` (keeps the element that is there) and of writing
  through `operator[]` (creates a default element, then updates it).
-/

/-- The `operator<` of a key type, with the laws `std::map` relies on. -/
class KeyOrder (κ : Type) where
  lt : κ → κ → Bool
  irrefl : ∀ a, lt a a = false
  trans : ∀ a b c, lt a b = true → lt b c = true → lt a c = true
  antisymm : ∀ a b, lt a b = false → lt b a = false → a = b

namespace KeyOrder

variable {κ : Type} [KeyOrder κ]

/-- Neither key is below the other: `std::map` takes them for one key. -/
def equiv (a b : κ) : Bool := !lt a b && !lt b a

theorem equiv_iff {a b : κ} : equiv a b = true ↔ a = b := by
  constructor
  · intro h
    simp only [equiv, Bool.and_eq_true, Bool.not_eq_true'] at h
    exact antisymm a b h.1 h.2
  · rintro rfl
    simp [equiv, irrefl]

theorem ne_of_lt {a b : κ} (h : lt a b = true) : a ≠ b := by
  rintro rfl
  rw [irrefl] at h
  exact Bool.false_ne_true h

/-- An `operator<` written as a chain of comparisons, field by field: the first pair of fields that differ
    decides. -/
def firstBelow : List Int → List Int → Bool
  | x :: xs, y :: ys => if x < y then true else if y < x then false else firstBelow xs ys
  | _, _ => false

theorem firstBelow_irrefl (xs : List Int) : firstBelow xs xs = false := by
  induction xs with
  | nil => rfl
  | cons x xs ih => simp [firstBelow, ih]

theorem head_le_of_firstBelow {x y : Int} {xs ys : List Int}
    (h : firstBelow (x :: xs) (y :: ys) = true) : x ≤ y := by
  by_contra hlt
  have hyx : y < x := by omega
  have hxy : ¬ x < y := by omega
  simp [firstBelow, hyx, hxy] at h

theorem firstBelow_trans {xs ys zs : List Int} (hxy : firstBelow xs ys = true)
    (hyz : firstBelow ys zs = true) : firstBelow xs zs = true := by
  induction xs generalizing ys zs with
  | nil => simp [firstBelow] at hxy
  | cons x xs ih =>
      cases ys with
      | nil => simp [firstBelow] at hxy
      | cons y ys =>
          cases zs with
          | nil => simp [firstBelow] at hyz
          | cons z zs =>
              have hle₁ := head_le_of_firstBelow hxy
              have hle₂ := head_le_of_firstBelow hyz
              by_cases hxz : x < z
              · simp [firstBelow, hxz]
              · -- then all three heads are equal and the tails decide
                obtain rfl : x = y := by omega
                obtain rfl : x = z := by omega
                simp only [firstBelow, lt_irrefl, if_false] at hxy hyz ⊢
                exact ih hxy hyz

theorem firstBelow_antisymm {xs ys : List Int} (hlen : xs.length = ys.length)
    (hxy : firstBelow xs ys = false) (hyx : firstBelow ys xs = false) : xs = ys := by
  induction xs generalizing ys with
  | nil => cases ys with
    | nil => rfl
    | cons y ys => simp at hlen
  | cons x xs ih =>
      cases ys with
      | nil => simp at hlen
      | cons y ys =>
          simp only [firstBelow] at hxy hyx
          have hhead : x = y := by
            split at hxy
            · exact absurd hxy (by simp)
            · split at hyx
              · exact absurd hyx (by simp)
              · omega
          subst hhead
          simp only [lt_irrefl, if_false] at hxy hyx
          rw [ih (by simpa using hlen) hxy hyx]

instance : KeyOrder Int where
  lt a b := decide (a < b)
  irrefl a := by simp
  trans a b c hab hbc := by
    simp only [decide_eq_true_eq] at hab hbc ⊢
    exact lt_trans hab hbc
  antisymm a b hab hba := by
    simp only [decide_eq_false_iff_not, not_lt] at hab hba
    exact le_antisymm hba hab

/-- Strings are ordered lexicographically. -/
instance : KeyOrder String where
  lt a b := decide (a < b)
  irrefl a := by simp
  trans a b c hab hbc := by
    simp only [decide_eq_true_eq] at hab hbc ⊢
    exact lt_trans hab hbc
  antisymm a b hab hba := by
    simp only [decide_eq_false_iff_not, not_lt] at hab hba
    exact le_antisymm hba hab

end KeyOrder

/-- A `std::map`: its elements in iteration order. -/
structure StdMap (κ ν : Type) [KeyOrder κ] where
  entries : List (κ × ν)
  sorted : entries.Pairwise (fun a b => KeyOrder.lt a.1 b.1 = true)

namespace StdMap

open KeyOrder

variable {κ ν : Type} [KeyOrder κ]

/-- The empty map; also what `clear()` leaves. -/
def empty : StdMap κ ν := ⟨[], List.Pairwise.nil⟩

def lookup : List (κ × ν) → κ → Option ν
  | [], _ => none
  | (k', v) :: rest, k => if equiv k' k then some v else lookup rest k

/-- `find`: the value at an equivalent key, `none` for `end()`. -/
def find? (m : StdMap κ ν) (k : κ) : Option ν := lookup m.entries k

/-- Walk to the place of `k`; update the element there or put a new one. -/
def alterEntries (k : κ) (f : Option ν → ν) : List (κ × ν) → List (κ × ν)
  | [] => [(k, f none)]
  | (k', v) :: rest =>
    if lt k k' then (k, f none) :: (k', v) :: rest
    else if lt k' k then (k', v) :: alterEntries k f rest
    else (k', f (some v)) :: rest

theorem mem_alterEntries {k : κ} {f : Option ν → ν} {l : List (κ × ν)} {e : κ × ν}
    (h : e ∈ alterEntries k f l) : e.1 = k ∨ ∃ e' ∈ l, e'.1 = e.1 := by
  induction l with
  | nil => simp only [alterEntries, List.mem_singleton] at h; exact Or.inl (by rw [h])
  | cons a rest ih =>
      obtain ⟨k', v⟩ := a
      simp only [alterEntries] at h
      split at h
      · rcases List.mem_cons.mp h with h | h
        · exact Or.inl (by rw [h])
        · exact Or.inr ⟨e, h, rfl⟩
      · split at h
        · rcases List.mem_cons.mp h with h | h
          · exact Or.inr ⟨(k', v), by simp, by rw [h]⟩
          · rcases ih h with hk | ⟨e', he', hkey⟩
            · exact Or.inl hk
            · exact Or.inr ⟨e', List.mem_cons_of_mem _ he', hkey⟩
        · rcases List.mem_cons.mp h with h | h
          · exact Or.inr ⟨(k', v), by simp, by rw [h]⟩
          · exact Or.inr ⟨e, List.mem_cons_of_mem _ h, rfl⟩

theorem sorted_alterEntries (k : κ) (f : Option ν → ν) {l : List (κ × ν)}
    (hl : l.Pairwise (fun a b => lt a.1 b.1 = true)) :
    (alterEntries k f l).Pairwise (fun a b => lt a.1 b.1 = true) := by
  induction l with
  | nil => simp [alterEntries]
  | cons a rest ih =>
      obtain ⟨k', v⟩ := a
      obtain ⟨hhead, htail⟩ := List.pairwise_cons.mp hl
      simp only [alterEntries]
      split
      · rename_i hkk'
        refine List.pairwise_cons.mpr ⟨?_, hl⟩
        intro e he
        rcases List.mem_cons.mp he with he | he
        · rw [he]; exact hkk'
        · exact KeyOrder.trans _ _ _ hkk' (hhead e he)
      · split
        · rename_i hk'k
          refine List.pairwise_cons.mpr ⟨?_, ih htail⟩
          intro e he
          rcases mem_alterEntries he with hk | ⟨e', he', hkey⟩
          · rw [hk]; exact hk'k
          · rw [← hkey]; exact hhead e' he'
        · exact List.pairwise_cons.mpr ⟨hhead, htail⟩

/-- Update the element at `k`, `f none` being the value of a new element. -/
def alter (m : StdMap κ ν) (k : κ) (f : Option ν → ν) : StdMap κ ν :=
  ⟨alterEntries k f m.entries, sorted_alterEntries k f m.sorted⟩

/-- `insert`: the map, and whether a new element was made (`.second` of the returned pair). An element
    already there keeps its value. -/
def insert (m : StdMap κ ν) (k : κ) (v : ν) : StdMap κ ν × Bool :=
  (m.alter k (fun old => old.getD v), (m.find? k).isNone)

/-- `m[k] = v`. -/
def assign (m : StdMap κ ν) (k : κ) (v : ν) : StdMap κ ν := m.alter k (fun _ => v)

@[simp] theorem find?_empty (k : κ) : (empty : StdMap κ ν).find? k = none := rfl

theorem lookup_cons_self (k : κ) (v : ν) (rest : List (κ × ν)) :
    lookup ((k, v) :: rest) k = some v := by
  simp [lookup, equiv_iff.mpr rfl]

theorem lookup_cons_ne {k k' : κ} (h : k' ≠ k) (v : ν) (rest : List (κ × ν)) :
    lookup ((k', v) :: rest) k = lookup rest k := by
  have hne : ¬ equiv k' k = true := fun he => h (equiv_iff.mp he)
  simp [lookup, hne]

/-- A key below every key of the list is not found in it. -/
theorem lookup_eq_none_of_lt {k : κ} {l : List (κ × ν)} (h : ∀ e ∈ l, lt k e.1 = true) :
    lookup l k = none := by
  induction l with
  | nil => rfl
  | cons a rest ih =>
      obtain ⟨k', v⟩ := a
      have hne : k' ≠ k := fun he => ne_of_lt (h (k', v) (by simp)) he.symm
      rw [lookup_cons_ne hne]
      exact ih (fun e he => h e (List.mem_cons_of_mem _ he))

theorem find?_alter_self (m : StdMap κ ν) (k : κ) (f : Option ν → ν) :
    (m.alter k f).find? k = some (f (m.find? k)) := by
  obtain ⟨l, hl⟩ := m
  show lookup (alterEntries k f l) k = some (f (lookup l k))
  induction l with
  | nil => simp only [alterEntries]; rw [lookup_cons_self]; rfl
  | cons a rest ih =>
      obtain ⟨k', v⟩ := a
      obtain ⟨hhead, htail⟩ := List.pairwise_cons.mp hl
      simp only [alterEntries]
      split
      · -- `k` is below the whole list, so the sorted map did not hold it
        rename_i hkk'
        have hnone : lookup ((k', v) :: rest) k = none := by
          apply lookup_eq_none_of_lt
          intro e he
          rcases List.mem_cons.mp he with he | he
          · rw [he]; exact hkk'
          · exact KeyOrder.trans _ _ _ hkk' (hhead e he)
        rw [lookup_cons_self, hnone]
      · split
        · rename_i hk'k
          rw [lookup_cons_ne (ne_of_lt hk'k), lookup_cons_ne (ne_of_lt hk'k)]
          exact ih htail
        · rename_i hkk' hk'k
          have heq : k' = k := by
            apply KeyOrder.antisymm
            · simpa using hk'k
            · simpa using hkk'
          subst heq
          rw [lookup_cons_self, lookup_cons_self]

theorem find?_alter_ne (m : StdMap κ ν) {k k' : κ} (h : k' ≠ k) (f : Option ν → ν) :
    (m.alter k f).find? k' = m.find? k' := by
  obtain ⟨l, hl⟩ := m
  show lookup (alterEntries k f l) k' = lookup l k'
  clear hl
  induction l with
  | nil => simp only [alterEntries]; rw [lookup_cons_ne h.symm]
  | cons a rest ih =>
      obtain ⟨k₁, v⟩ := a
      simp only [alterEntries]
      split
      · rw [lookup_cons_ne h.symm]
      · by_cases hk₁ : k₁ = k'
        · subst hk₁
          split
          · rw [lookup_cons_self, lookup_cons_self]
          · rename_i hkk₁ hk₁k
            exact absurd (KeyOrder.antisymm _ _ (by simpa using hk₁k) (by simpa using hkk₁)) h
        · rw [lookup_cons_ne hk₁]
          split
          · rw [lookup_cons_ne hk₁]; exact ih
          · rw [lookup_cons_ne hk₁]

/-- **`insert` is first-wins.** -/
theorem find?_insert_self (m : StdMap κ ν) (k : κ) (v : ν) :
    (m.insert k v).1.find? k = some ((m.find? k).getD v) :=
  find?_alter_self m k _

theorem find?_insert_ne (m : StdMap κ ν) {k k' : κ} (h : k' ≠ k) (v : ν) :
    (m.insert k v).1.find? k' = m.find? k' :=
  find?_alter_ne m h _

/-- **`operator[]` is last-wins.** -/
theorem find?_assign_self (m : StdMap κ ν) (k : κ) (v : ν) : (m.assign k v).find? k = some v :=
  find?_alter_self m k _

theorem find?_assign_ne (m : StdMap κ ν) {k k' : κ} (h : k' ≠ k) (v : ν) : (m.assign k v).find? k' = m.find? k' :=
  find?_alter_ne m h _

end StdMap
