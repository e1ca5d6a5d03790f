import Mathlib.Data.List.Induction
import Mathlib.Order.Basic
import Mathlib.Algebra.Order.Ring.Int

/-!
# `Lib.FirstMax` — scans for the first of the largest elements

A scan goes through a list, keeps the largest value so far together with what belongs to it, and only moves on at a
strictly larger one. `scan_cases` says where it ends: at the value it started from, or at the first of the largest
elements. The order of the list is a relation `r` with `l.Pairwise r`, so that the answer does not speak of places.
For a list without such an order the first of the largest elements is given by a split of the list (`FirstLargest`).
-/

namespace FirstMax

section Scan

variable {α β τ : Type} [LinearOrder β]

/-- Keep the largest value so far, and what belongs to it. -/
def scan (f : α → β) (e : α → τ) (s : β × τ) (l : List α) : β × τ :=
  l.foldl (fun s a => if f a > s.1 then (f a, e a) else s) s

theorem scan_concat (f : α → β) (e : α → τ) (s : β × τ) (l : List α) (a : α) :
    scan f e s (l ++ [a]) = if f a > (scan f e s l).1 then (f a, e a) else scan f e s l := by
  unfold scan
  rw [List.foldl_append]
  rfl

/-- **Where a scan ends**: it stays if nothing is larger, else it stops at the first of the largest elements. -/
theorem scan_cases {r : α → α → Prop} (hr : ∀ a b, r a b → ¬ r b a) (f : α → β) (e : α → τ) (s : β × τ) {l : List α}
    (hl : l.Pairwise r) :
    (scan f e s l = s ∧ ∀ a ∈ l, f a ≤ s.1) ∨
    ∃ t ∈ l, s.1 < f t ∧ scan f e s l = (f t, e t) ∧ ∀ a ∈ l, f a ≤ f t ∧ (r a t → f a < f t) := by
  induction l using List.reverseRecOn with
  | nil => exact Or.inl ⟨rfl, by simp⟩
  | append_singleton l a ih =>
      obtain ⟨hl, _, hlast⟩ := List.pairwise_append.mp hl
      have hbefore : ∀ b ∈ l, ¬ r a b := fun b hb => hr b a (hlast b hb a (List.mem_singleton.mpr rfl))
      rw [scan_concat]
      rcases ih hl with ⟨hstay, hle⟩ | ⟨t, ht, hlt, hstop, hmax⟩
      · rw [hstay]
        by_cases ha : f a > s.1
        · rw [if_pos ha]
          refine Or.inr ⟨a, by simp, ha, rfl, ?_⟩
          intro b hb
          rcases List.mem_append.mp hb with hb | hb
          · have hba : f b < f a := lt_of_le_of_lt (hle b hb) ha
            exact ⟨hba.le, fun _ => hba⟩
          · rw [List.mem_singleton.mp hb]
            exact ⟨le_refl _, fun haa => absurd haa (hr a a haa)⟩
        · rw [if_neg ha]
          refine Or.inl ⟨rfl, ?_⟩
          intro b hb
          rcases List.mem_append.mp hb with hb | hb
          · exact hle b hb
          · rw [List.mem_singleton.mp hb]
            exact not_lt.mp ha
      · rw [hstop]
        refine Or.inr ?_
        by_cases ha : f a > f t
        · rw [if_pos ha]
          refine ⟨a, by simp, lt_trans hlt ha, rfl, ?_⟩
          intro b hb
          rcases List.mem_append.mp hb with hb | hb
          · have hba : f b < f a := lt_of_le_of_lt (hmax b hb).1 ha
            exact ⟨hba.le, fun _ => hba⟩
          · rw [List.mem_singleton.mp hb]
            exact ⟨le_refl _, fun haa => absurd haa (hr a a haa)⟩
        · rw [if_neg ha]
          refine ⟨t, List.mem_append_left _ ht, hlt, rfl, ?_⟩
          intro b hb
          rcases List.mem_append.mp hb with hb | hb
          · exact hmax b hb
          · rw [List.mem_singleton.mp hb]
            exact ⟨not_lt.mp ha, fun hat => absurd hat (hbefore t ht)⟩

/-- The first of the largest elements of a list. -/
def FirstLargest (f : α → β) (l : List α) (t : α) : Prop :=
  ∃ pre suf, l = pre ++ t :: suf ∧ (∀ a ∈ pre, f a < f t) ∧ ∀ a ∈ suf, f a ≤ f t

theorem FirstLargest.mem {f : α → β} {l : List α} {t : α} (h : FirstLargest f l t) : t ∈ l := by
  obtain ⟨pre, suf, rfl, _⟩ := h
  simp

theorem FirstLargest.le {f : α → β} {l : List α} {t : α} (h : FirstLargest f l t) : ∀ a ∈ l, f a ≤ f t := by
  obtain ⟨pre, suf, rfl, hpre, hsuf⟩ := h
  intro a ha
  rcases List.mem_append.mp ha with ha | ha
  · exact (hpre a ha).le
  · rcases List.mem_cons.mp ha with rfl | ha
    · exact le_refl _
    · exact hsuf a ha

theorem FirstLargest.unique {f : α → β} {l : List α} {t u : α} (h : FirstLargest f l t) (h' : FirstLargest f l u) :
    t = u := by
  have hle := h.le
  have hle' := h'.le
  obtain ⟨pre, suf, rfl, hpre, hsuf⟩ := h
  obtain ⟨pre', suf', heq, hpre', hsuf'⟩ := h'
  have hsame : f t = f u := le_antisymm (hle' t (by simp)) (hle u (by rw [heq]; simp))
  clear hle hle'
  -- both are the first element that is not smaller
  induction pre generalizing pre' with
  | nil =>
      cases pre' with
      | nil => exact (List.cons.inj heq).1
      | cons a pre' =>
          have hlt := hpre' a (by simp)
          rw [← (List.cons.inj heq).1, hsame] at hlt
          exact absurd hlt (lt_irrefl _)
  | cons b pre ih =>
      cases pre' with
      | nil =>
          have hlt := hpre b (by simp)
          rw [(List.cons.inj heq).1, hsame] at hlt
          exact absurd hlt (lt_irrefl _)
      | cons a pre' =>
          exact ih (fun c hc => hpre c (List.mem_cons_of_mem _ hc)) pre' (List.cons.inj heq).2
            (fun c hc => hpre' c (List.mem_cons_of_mem _ hc))

/-- Every list that is not empty has one. -/
theorem exists_firstLargest (f : α → β) {l : List α} (hl : l ≠ []) : ∃ t, FirstLargest f l t := by
  induction l using List.reverseRecOn with
  | nil => exact absurd rfl hl
  | append_singleton l a ih =>
      by_cases hnil : l = []
      · subst hnil
        exact ⟨a, [], [], rfl, by simp, by simp⟩
      · obtain ⟨t, pre, suf, rfl, hpre, hsuf⟩ := ih hnil
        by_cases ha : f t < f a
        · have hle : ∀ b ∈ pre ++ t :: suf, f b ≤ f t := FirstLargest.le ⟨pre, suf, rfl, hpre, hsuf⟩
          exact ⟨a, pre ++ t :: suf, [], rfl, fun b hb => lt_of_le_of_lt (hle b hb) ha, by simp⟩
        · refine ⟨t, pre, suf ++ [a], by simp, hpre, ?_⟩
          intro b hb
          rcases List.mem_append.mp hb with hb | hb
          · exact hsuf b hb
          · rw [List.mem_singleton.mp hb]
            exact not_lt.mp ha

theorem scan_append (f : α → β) (e : α → τ) (s : β × τ) (l l' : List α) :
    scan f e s (l ++ l') = scan f e (scan f e s l) l' := List.foldl_append

theorem scan_of_le (f : α → β) (e : α → τ) {s : β × τ} {l : List α} (h : ∀ a ∈ l, f a ≤ s.1) : scan f e s l = s := by
  induction l with
  | nil => rfl
  | cons a l ih =>
      rw [List.forall_mem_cons] at h
      show scan f e (if f a > s.1 then (f a, e a) else s) l = s
      rw [if_neg (not_lt.mpr h.1)]
      exact ih h.2

/-- A scan stays below a value that nothing reaches. -/
theorem scan_lt (f : α → β) (e : α → τ) {b : β} {s : β × τ} (hs : s.1 < b) {l : List α} (h : ∀ a ∈ l, f a < b) :
    (scan f e s l).1 < b := by
  induction l generalizing s with
  | nil => exact hs
  | cons a l ih =>
      rw [List.forall_mem_cons] at h
      show (scan f e (if f a > s.1 then (f a, e a) else s) l).1 < b
      apply ih _ h.2
      split
      · exact h.1
      · exact hs

/-- **A scan of a list with larger elements** stops at the first of the largest. -/
theorem scan_of_firstLargest (f : α → β) (e : α → τ) {s : β × τ} {l : List α} {t : α} (h : FirstLargest f l t)
    (hs : s.1 < f t) : scan f e s l = (f t, e t) := by
  obtain ⟨pre, suf, rfl, hpre, hsuf⟩ := h
  rw [scan_append]
  show scan f e (if f t > (scan f e s pre).1 then (f t, e t) else scan f e s pre) suf = (f t, e t)
  rw [if_pos (scan_lt f e hs hpre)]
  exact scan_of_le f e hsuf

/-- The first of the largest, if it is larger than the start value. -/
theorem scan_eq_ite (f : α → β) (e : α → τ) {s : β × τ} {l : List α} {t : α} (h : FirstLargest f l t) :
    scan f e s l = if s.1 < f t then (f t, e t) else s := by
  split
  · next hlt => exact scan_of_firstLargest f e h hlt
  · next hlt => exact scan_of_le f e (fun a ha => (h.le a ha).trans (not_lt.mp hlt))

end Scan

end FirstMax
