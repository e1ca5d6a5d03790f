import Mathlib.Algebra.BigOperators.Group.Finset.Basic
import Mathlib.Data.Int.Range
import Mathlib.Data.Nat.Find
import Mathlib.Tactic.Basic

/-!
# `Lib.Reading` — programs that read an array without checking the index

A `Reading` is a computation over an array that reads its elements by number. A number outside the array reads
memory that belongs to something else: the program goes on, but what it computes from there is not determined by
the array. So the value is `none` once it is not determined, and `reads` records the numbers that have been read
until then, the first one outside included.

A value that is not determined is no reason to stop as long as no decision depends on it. `settled` keeps such a
value as data.
-/

/-- A computation that reads an array. -/
structure Reading (α : Type) where
  value : Option α
  reads : List Int

namespace Reading

variable {α β : Type}

instance : Monad Reading where
  pure a := ⟨some a, []⟩
  bind x f :=
    match x.value with
    | some a => ⟨(f a).value, x.reads ++ (f a).reads⟩
    | none => ⟨none, x.reads⟩

/-- Read an element. -/
def get (w : List α) (i : Int) : Reading α := ⟨if 0 ≤ i then w[i.toNat]? else none, [i]⟩

/-- The value of a variable that has not been set. -/
def undetermined : Reading α := ⟨none, []⟩

/-- Go on with the value, whether it is determined or not. -/
def settled (x : Reading α) : Reading (Option α) := ⟨some x.value, x.reads⟩

/-- A loop that reads the elements with the given numbers. -/
def loop (w : List α) (f : β → Int → α → β) (b : β) (l : List Int) : Reading β :=
  l.foldlM (fun b i => do
    let x ← get w i
    pure (f b i x)) b

/-- The number is one of an element. -/
def InBounds (n : Nat) (i : Int) : Prop := 0 ≤ i ∧ i < n

instance (n : Nat) (i : Int) : Decidable (InBounds n i) := inferInstanceAs (Decidable (_ ∧ _))

/-- Nothing outside the array is read. -/
def Within (n : Nat) (x : Reading α) : Prop := ∀ i ∈ x.reads, InBounds n i

instance (n : Nat) (x : Reading α) : Decidable (x.Within n) := inferInstanceAs (Decidable (∀ i ∈ x.reads, _))

/-! ## Composition -/

@[simp] theorem value_pure (a : α) : (pure a : Reading α).value = some a := rfl

@[simp] theorem value_bind (x : Reading α) (f : α → Reading β) :
    (x >>= f).value = x.value.bind (fun a => (f a).value) := by
  show (match x.value with
    | some a => (⟨(f a).value, x.reads ++ (f a).reads⟩ : Reading β)
    | none => ⟨none, x.reads⟩).value = _
  cases x.value <;> rfl

@[simp] theorem value_settled (x : Reading α) : x.settled.value = some x.value := rfl

@[simp] theorem value_undetermined : (undetermined : Reading α).value = none := rfl

@[simp] theorem within_pure (n : Nat) (a : α) : (pure a : Reading α).Within n := by
  intro i hi
  exact absurd hi List.not_mem_nil

@[simp] theorem within_undetermined (n : Nat) : (undetermined : Reading α).Within n := by
  intro i hi
  exact absurd hi List.not_mem_nil

@[simp] theorem within_settled {n : Nat} {x : Reading α} : x.settled.Within n ↔ x.Within n := Iff.rfl

@[simp] theorem within_bind {n : Nat} {x : Reading α} {f : α → Reading β} :
    (x >>= f).Within n ↔ x.Within n ∧ ∀ a, x.value = some a → (f a).Within n := by
  obtain ⟨value, reads⟩ := x
  cases value with
  | none =>
      show Within n ⟨none, reads⟩ ↔ _
      simp [Within]
  | some a =>
      show Within n ⟨(f a).value, reads ++ (f a).reads⟩ ↔ _
      simp [Within, List.mem_append, or_imp, forall_and]

/-! ## Reads -/

theorem within_get {w : List α} {i : Int} : (get w i).Within w.length ↔ InBounds w.length i := by
  simp [Within, get]

theorem value_get_of_not {w : List α} {i : Int} (h : ¬ InBounds w.length i) : (get w i).value = none := by
  unfold get
  by_cases hi : 0 ≤ i
  · have hlen : (w.length : Int) ≤ i := by
      unfold InBounds at h
      omega
    simp [hi, hlen]
  · simp [hi]

theorem value_get {w : List α} {i : Int} (h : InBounds w.length i) (d : α) :
    (get w i).value = some (w.getD i.toNat d) := by
  have hlt : i.toNat < w.length := by
    unfold InBounds at h
    omega
  simp [get, h.1, hlt]

section Loop

variable (w : List α) (f : β → Int → α → β)

theorem within_loop (b : β) (l : List Int) :
    (loop w f b l).Within w.length ↔ ∀ i ∈ l, InBounds w.length i := by
  induction l generalizing b with
  | nil => simp [loop]
  | cons i l ih =>
      have hcons : loop w f b (i :: l) = (do
          let x ← get w i
          pure (f b i x)) >>= fun b => loop w f b l := rfl
      rw [hcons, within_bind, within_bind, within_get, List.forall_mem_cons]
      constructor
      · rintro ⟨⟨hi, _⟩, hrest⟩
        refine ⟨hi, (ih _).mp (hrest (f b i (w.get ⟨i.toNat, ?_⟩)) ?_)⟩
        · unfold InBounds at hi
          omega
        · have hlt : i.toNat < w.length := by
            unfold InBounds at hi
            omega
          simp [get, hi.1, hlt]
      · rintro ⟨hi, hl⟩
        exact ⟨⟨hi, fun _ _ => within_pure _ _⟩, fun b' _ => (ih b').mpr hl⟩

/-- A loop over elements of the array is a fold. -/
theorem value_loop (d : α) {l : List Int} (hl : ∀ i ∈ l, InBounds w.length i) (b : β) :
    (loop w f b l).value = some (l.foldl (fun b i => f b i (w.getD i.toNat d)) b) := by
  induction l generalizing b with
  | nil => rfl
  | cons i l ih =>
      rw [List.forall_mem_cons] at hl
      have hcons : loop w f b (i :: l) = (do
          let x ← get w i
          pure (f b i x)) >>= fun b => loop w f b l := rfl
      rw [hcons, value_bind, value_bind, value_get hl.1 d]
      exact ih hl.2 _

theorem value_loop_of_not {l : List Int} (hl : ¬ ∀ i ∈ l, InBounds w.length i) (b : β) :
    (loop w f b l).value = none := by
  induction l generalizing b with
  | nil => simp at hl
  | cons i l ih =>
      have hcons : loop w f b (i :: l) = (do
          let x ← get w i
          pure (f b i x)) >>= fun b => loop w f b l := rfl
      rw [hcons, value_bind, value_bind]
      by_cases hi : InBounds w.length i
      · have hrest : ¬ ∀ j ∈ l, InBounds w.length j := by
          intro hrest
          exact hl (List.forall_mem_cons.mpr ⟨hi, hrest⟩)
        cases (get w i).value with
        | none => rfl
        | some x => exact ih hrest _
      · rw [value_get_of_not hi]
        rfl

end Loop

/-! ## Loops whose body always has a value -/

section FoldlM

variable {f : β → α → Reading β} {F : β → α → β}

theorem value_foldlM {l : List α} (hvalue : ∀ a ∈ l, ∀ b, (f b a).value = some (F b a)) (b : β) :
    (l.foldlM f b).value = some (l.foldl F b) := by
  induction l generalizing b with
  | nil => rfl
  | cons a l ih =>
      rw [List.forall_mem_cons] at hvalue
      have hcons : (a :: l).foldlM f b = f b a >>= fun b => l.foldlM f b := rfl
      rw [hcons, value_bind, hvalue.1]
      exact ih hvalue.2 (F b a)

theorem within_foldlM {n : Nat} {Q : α → Prop} (hvalue : ∀ b a, (f b a).value = some (F b a)) {l : List α}
    (hwithin : ∀ a ∈ l, ∀ b, (f b a).Within n ↔ Q a) (b : β) : (l.foldlM f b).Within n ↔ ∀ a ∈ l, Q a := by
  induction l generalizing b with
  | nil => simp
  | cons a l ih =>
      rw [List.forall_mem_cons] at hwithin
      have hcons : (a :: l).foldlM f b = f b a >>= fun b => l.foldlM f b := rfl
      rw [hcons, within_bind, hwithin.1, hvalue, List.forall_mem_cons]
      simp [ih hwithin.2]

/-- A loop whose body stays in the array. -/
theorem within_foldlM_of_forall {f : β → α → Reading β} {n : Nat} {l : List α}
    (hwithin : ∀ a ∈ l, ∀ b, (f b a).Within n) (b : β) : (l.foldlM f b).Within n := by
  induction l generalizing b with
  | nil => exact within_pure _ _
  | cons a l ih =>
      rw [List.forall_mem_cons] at hwithin
      have hcons : (a :: l).foldlM f b = f b a >>= fun b => l.foldlM f b := rfl
      rw [hcons, within_bind]
      exact ⟨hwithin.1 b, fun b' _ => ih hwithin.2 b'⟩

end FoldlM

/-! ## Loops that stop at the first element with a property -/

/-- A loop with a `break`: `stop` is what it does at the first element with `p`, `pass` what it does at an element
    without. -/
def loopUntil (w : List α) (p : α → Bool) (pass : β → Nat → β) (stop : β → Nat → α → Reading β) :
    β → List Nat → Reading β
  | b, [] => pure b
  | b, i :: l => do
    let x ← get w i
    if p x then stop b i x else loopUntil w p pass stop (pass b i) l

section LoopUntil

variable {w : List α} {p : α → Bool} (pass : β → Nat → β) (stop : β → Nat → α → Reading β)

theorem value_get_nat {i : Nat} (hi : i < w.length) (d : α) : (get w i).value = some (w.getD i d) := by
  have h := value_get (w := w) (i := (i : Int)) ⟨by omega, by omega⟩ d
  rwa [Int.toNat_natCast] at h

theorem loopUntil_cons (b : β) (i : Nat) (l : List Nat) :
    loopUntil w p pass stop b (i :: l)
      = get w i >>= fun x => if p x then stop b i x else loopUntil w p pass stop (pass b i) l := rfl

/-- Passing an element. -/
theorem loopUntil_pass {i : Nat} (hi : i < w.length) (d : α) (hp : p (w.getD i d) = false) (b : β) (l : List Nat) :
    (loopUntil w p pass stop b (i :: l)).value = (loopUntil w p pass stop (pass b i) l).value ∧
    ((loopUntil w p pass stop b (i :: l)).Within w.length ↔
      (loopUntil w p pass stop (pass b i) l).Within w.length) := by
  have hin : InBounds w.length (i : Int) := ⟨by omega, by omega⟩
  rw [loopUntil_cons, value_bind, within_bind, within_get, value_get_nat hi d]
  simp only [Option.bind_some, Option.some.injEq, forall_eq', hin, true_and, hp, Bool.false_eq_true, if_false]

/-- Stopping at an element. -/
theorem loopUntil_stop {i : Nat} (hi : i < w.length) (d : α) (hp : p (w.getD i d) = true) (b : β) (l : List Nat) :
    (loopUntil w p pass stop b (i :: l)).value = (stop b i (w.getD i d)).value ∧
    ((loopUntil w p pass stop b (i :: l)).Within w.length ↔ (stop b i (w.getD i d)).Within w.length) := by
  have hin : InBounds w.length (i : Int) := ⟨by omega, by omega⟩
  rw [loopUntil_cons, value_bind, within_bind, within_get, value_get_nat hi d]
  simp only [Option.bind_some, Option.some.injEq, forall_eq', hin, true_and, hp, if_true]

/-- **A loop that finds nothing** passes all elements. -/
theorem loopUntil_none (d : α) {l : List Nat} (hl : ∀ i ∈ l, i < w.length ∧ p (w.getD i d) = false) (b : β) :
    (loopUntil w p pass stop b l).value = some (l.foldl pass b) ∧
      (loopUntil w p pass stop b l).Within w.length := by
  induction l generalizing b with
  | nil => exact ⟨rfl, within_pure _ _⟩
  | cons i l ih =>
      rw [List.forall_mem_cons] at hl
      obtain ⟨hvalue, hwithin⟩ := loopUntil_pass pass stop hl.1.1 d hl.1.2 b l
      rw [hvalue, hwithin]
      exact ih hl.2 (pass b i)

/-- **A loop that finds an element** passes those before it and stops there. -/
theorem loopUntil_some (d : α) {l : List Nat} (hl : ∀ i ∈ l, i < w.length ∧ p (w.getD i d) = false) {k : Nat}
    (hk : k < w.length) (hp : p (w.getD k d) = true) (b : β) (rest : List Nat) :
    (loopUntil w p pass stop b (l ++ k :: rest)).value = (stop (l.foldl pass b) k (w.getD k d)).value ∧
      ((loopUntil w p pass stop b (l ++ k :: rest)).Within w.length ↔
        (stop (l.foldl pass b) k (w.getD k d)).Within w.length) := by
  induction l generalizing b with
  | nil => exact loopUntil_stop pass stop hk d hp b rest
  | cons i l ih =>
      rw [List.forall_mem_cons] at hl
      obtain ⟨hvalue, hwithin⟩ := loopUntil_pass pass stop hl.1.1 d hl.1.2 b (l ++ k :: rest)
      rw [List.cons_append, hvalue, hwithin]
      exact ih hl.2 (pass b i)

/-- A search either fails or has a first hit. -/
theorem none_or_first (n : Nat) (P : Nat → Prop) :
    (∀ i < n, ¬ P i) ∨ ∃ i, i < n ∧ P i ∧ ∀ j < i, ¬ P j := by
  classical
  by_cases h : ∃ i, i < n ∧ P i
  · right
    refine ⟨Nat.find h, (Nat.find_spec h).1, (Nat.find_spec h).2, ?_⟩
    intro j hj hP
    have hlt := (Nat.find_spec h).1
    exact Nat.find_min h hj ⟨by omega, hP⟩
  · left
    intro i hi hP
    exact h ⟨i, hi, hP⟩

/-- The numbers of the elements, cut at one of them. -/
theorem range_split {n k : Nat} (hk : k < n) : ∃ rest, List.range n = List.range k ++ k :: rest := by
  obtain ⟨m, rfl⟩ : ∃ m, n = k + (m + 1) := ⟨n - k - 1, by omega⟩
  refine ⟨(List.range m).map (fun i => k + (i + 1)), ?_⟩
  rw [List.range_add, List.range_succ_eq_map]
  simp [Function.comp_def]

/-- **A search of the whole array** that finds an element. -/
theorem loopUntil_range_some (d : α) {k : Nat} (hk : k < w.length) (hp : p (w.getD k d) = true)
    (hbefore : ∀ i < k, p (w.getD i d) = false) (b : β) :
    (loopUntil w p pass stop b (List.range w.length)).value
        = (stop ((List.range k).foldl pass b) k (w.getD k d)).value ∧
      ((loopUntil w p pass stop b (List.range w.length)).Within w.length ↔
        (stop ((List.range k).foldl pass b) k (w.getD k d)).Within w.length) := by
  obtain ⟨rest, hrange⟩ := range_split hk
  rw [hrange]
  refine loopUntil_some pass stop d ?_ hk hp b rest
  intro i hi
  have hlt := List.mem_range.mp hi
  exact ⟨by omega, hbefore i hlt⟩

/-- **A search of the whole array** that finds nothing. -/
theorem loopUntil_range_none (d : α) (h : ∀ i < w.length, p (w.getD i d) = false) (b : β) :
    (loopUntil w p pass stop b (List.range w.length)).value = some ((List.range w.length).foldl pass b) ∧
      (loopUntil w p pass stop b (List.range w.length)).Within w.length := by
  refine loopUntil_none pass stop d ?_ b
  intro i hi
  have hlt := List.mem_range.mp hi
  exact ⟨hlt, h i hlt⟩

end LoopUntil

/-! ## Loops over an interval -/

/-- The numbers `first, …, last`. -/
def interval (first last : Int) : List Int := Int.range first (last + 1)

@[simp] theorem mem_interval {first last i : Int} : i ∈ interval first last ↔ first ≤ i ∧ i ≤ last := by
  unfold interval
  rw [Int.mem_range_iff]
  omega

/-- The numbers from 0. -/
theorem interval_zero (k : Nat) : interval 0 ((k : Int) - 1) = (List.range k).map (fun i : Nat => (i : Int)) := by
  unfold interval Int.range
  simp

theorem forall_interval {n : Nat} {first last : Int} :
    (∀ i ∈ interval first last, InBounds n i) ↔ (first ≤ last → 0 ≤ first ∧ last < n) := by
  constructor
  · intro h hle
    have hfirst := h first (mem_interval.mpr ⟨le_refl _, hle⟩)
    have hlast := h last (mem_interval.mpr ⟨hle, le_refl _⟩)
    exact ⟨hfirst.1, hlast.2⟩
  · intro h i hi
    obtain ⟨h₁, h₂⟩ := mem_interval.mp hi
    obtain ⟨h₃, h₄⟩ := h (by omega)
    exact ⟨by omega, by omega⟩

/-- A loop from the first element on. -/
theorem value_loop_zero {w : List α} (f : β → Int → α → β) (d : α) {k : Nat} (hk : k ≤ w.length) (b : β) :
    (loop w f b (interval 0 ((k : Int) - 1))).value
      = some ((List.range k).foldl (fun b (i : Nat) => f b (i : Int) (w.getD i d)) b) := by
  have hin : ∀ i ∈ interval 0 ((k : Int) - 1), InBounds w.length i := by
    rw [forall_interval]
    intro _
    exact ⟨le_refl _, by omega⟩
  rw [value_loop w f d hin, interval_zero, List.foldl_map]
  rfl

/-- Two variables of a loop that do not see each other. -/
theorem foldl_pair {γ ι : Type} (f : β → ι → β) (g : γ → ι → γ) (l : List ι) (s : β × γ) :
    l.foldl (fun s i => (f s.1 i, g s.2 i)) s = (l.foldl f s.1, l.foldl g s.2) := by
  induction l generalizing s with
  | nil => rfl
  | cons i l ih =>
      rw [List.foldl_cons, ih]
      rfl

/-- A variable that sums up. -/
theorem foldl_add_range {M : Type} [AddCommMonoid M] (k : Nat) (g : Nat → M) :
    (List.range k).foldl (fun r i => r + g i) 0 = ∑ j ∈ Finset.range k, g j := by
  induction k with
  | zero => rfl
  | succ k ih =>
      rw [List.range_succ, List.foldl_append, ih, Finset.sum_range_succ]
      rfl

end Reading
