import Mathlib.Data.List.Forall2
import Mathlib.Tactic.Basic

/-!
# `Lib.Logged` — programs that leave a log of what could have gone wrong

A `Logged ε` computation writes an event whenever it does something that has a precondition. Its value is `none` once it
is not determined; then the computation ends, and the event that has to answer for it is the last of the log.
`settled` goes on with a value that is not determined.

- `Allowed ok x`: all events of `x` are `ok`. `allowed_bind` follows the computation, `allowed_foldlM` a loop.
- `breakLoop`: a loop whose turns start with a `break` under a condition that the loop does not change.
- `foldlM_related`: two runs over inputs that are related, from states that are related.
-/

/-- A computation with a log. -/
structure Logged (ε α : Type) where
  value : Option α
  log : List ε

namespace Logged

variable {ε α β γ ι : Type}

instance : Monad (Logged ε) where
  pure a := ⟨some a, []⟩
  bind x f :=
    match x.value with
    | some a => ⟨(f a).value, x.log ++ (f a).log⟩
    | none => ⟨none, x.log⟩

/-- Do something that has a precondition. -/
def event (e : ε) (value : Option α) : Logged ε α := ⟨value, [e]⟩

/-- Go on with the value, whether it is determined or not. -/
def settled (x : Logged ε α) : Logged ε (Option α) := ⟨some x.value, x.log⟩

/-- A loop whose turns start with `if (stop) break;`. -/
def breakLoop (stop : Prop) [Decidable stop] (body : β → ι → Logged ε β) : β → List ι → Logged ε β
  | b, [] => pure b
  | b, i :: l => if stop then pure b else body b i >>= fun b => breakLoop stop body b l

/-- Only such events are in the log. -/
def Allowed (ok : ε → Prop) (x : Logged ε α) : Prop := ∀ e ∈ x.log, ok e

/-! ## Composition -/

section Composition

variable {ok : ε → Prop} {x : Logged ε α} {f : α → Logged ε β}

@[simp] theorem value_pure (a : α) : (pure a : Logged ε α).value = some a := rfl

@[simp] theorem value_event (e : ε) (v : Option α) : (event e v).value = v := rfl

@[simp] theorem value_settled (x : Logged ε α) : x.settled.value = some x.value := rfl

@[simp] theorem value_bind : (x >>= f).value = x.value.bind (fun a => (f a).value) := by
  show (match x.value with
    | some a => (⟨(f a).value, x.log ++ (f a).log⟩ : Logged ε β)
    | none => ⟨none, x.log⟩).value = _
  cases x.value <;> rfl

@[simp] theorem allowed_pure (a : α) : (pure a : Logged ε α).Allowed ok := by
  intro e he
  exact absurd he List.not_mem_nil

@[simp] theorem allowed_event {e : ε} {v : Option α} : (event e v).Allowed ok ↔ ok e := by
  simp [Allowed, event]

@[simp] theorem allowed_settled : x.settled.Allowed ok ↔ x.Allowed ok := Iff.rfl

theorem allowed_bind : (x >>= f).Allowed ok ↔ x.Allowed ok ∧ ∀ a, x.value = some a → (f a).Allowed ok := by
  obtain ⟨value, log⟩ := x
  cases value with
  | none =>
      show Allowed ok ⟨none, log⟩ ↔ _
      simp [Allowed]
  | some a =>
      show Allowed ok ⟨(f a).value, log ++ (f a).log⟩ ↔ _
      simp [Allowed, List.mem_append, or_imp, forall_and]

/-- The events of a computation whose first part has a value. -/
theorem allowed_bind_of_value {a : α} (ha : x.value = some a) :
    (x >>= f).Allowed ok ↔ x.Allowed ok ∧ (f a).Allowed ok := by
  rw [allowed_bind, ha]
  simp only [Option.some.injEq, forall_eq']

end Composition

/-! ## Loops -/

section Loops

variable {ok : ε → Prop} {f : β → ι → Logged ε β}

theorem foldlM_cons (f : β → ι → Logged ε β) (b : β) (i : ι) (l : List ι) :
    (i :: l).foldlM f b = f b i >>= fun b => l.foldlM f b := rfl

theorem breakLoop_of_stop {stop : Prop} [Decidable stop] (h : stop) (body : β → ι → Logged ε β) (b : β) (l : List ι) :
    breakLoop stop body b l = pure b := by
  cases l with
  | nil => rfl
  | cons i l => exact if_pos h

theorem breakLoop_of_not {stop : Prop} [Decidable stop] (h : ¬ stop) (body : β → ι → Logged ε β) (b : β) (l : List ι) :
    breakLoop stop body b l = l.foldlM body b := by
  induction l generalizing b with
  | nil => rfl
  | cons i l ih =>
      show (if stop then pure b else body b i >>= fun b => breakLoop stop body b l) = _
      rw [if_neg h, foldlM_cons]
      congr 1
      funext b'
      exact ih b'

/-- **The invariant rule.** A counted loop whose turns have a value, and carry an invariant on. -/
theorem value_range {f : β → Nat → Logged ε β} (I : Nat → β → Prop) {n : Nat}
    (hstep : ∀ i < n, ∀ b, I i b → ∃ b', (f b i).value = some b' ∧ I (i + 1) b') {b : β} (hb : I 0 b) :
    ∃ b', ((List.range n).foldlM f b).value = some b' ∧ I n b' := by
  -- the induction is on the number of turns that are left
  suffices h : ∀ m k b, k + m = n → I k b → ∃ b', ((List.range' k m).foldlM f b).value = some b' ∧ I n b' by
    rw [List.range_eq_range']
    exact h n 0 b (Nat.zero_add n) hb
  intro m
  induction m with
  | zero =>
      intro k b hk hb
      rw [Nat.add_zero] at hk
      rw [hk] at hb
      exact ⟨b, rfl, hb⟩
  | succ m ih =>
      intro k b hk hb
      obtain ⟨b₁, hfirst, hb₁⟩ := hstep k (by omega) b hb
      obtain ⟨b', hrest, hb'⟩ := ih (k + 1) b₁ (by omega) hb₁
      refine ⟨b', ?_, hb'⟩
      rw [List.range'_succ, foldlM_cons, value_bind, hfirst]
      exact hrest

/-- **The events of a loop** are those of its turns, if a turn whose events are allowed has a value. -/
theorem allowed_foldlM {Q : ι → Prop} (I : β → Prop) {l : List ι}
    (hallowed : ∀ b, I b → ∀ i ∈ l, (f b i).Allowed ok ↔ Q i)
    (hvalue : ∀ b, I b → ∀ i ∈ l, Q i → ∃ b', (f b i).value = some b' ∧ I b') {b : β} (hb : I b) :
    (l.foldlM f b).Allowed ok ↔ ∀ i ∈ l, Q i := by
  induction l generalizing b with
  | nil => simp
  | cons i l ih =>
      rw [foldlM_cons, List.forall_mem_cons, allowed_bind, hallowed b hb i List.mem_cons_self]
      refine and_congr_right (fun hi => ?_)
      obtain ⟨b₁, hfirst, hb₁⟩ := hvalue b hb i List.mem_cons_self hi
      rw [hfirst]
      simp only [Option.some.injEq, forall_eq']
      exact ih (fun b hb j hj => hallowed b hb j (List.mem_cons_of_mem i hj))
        (fun b hb j hj => hvalue b hb j (List.mem_cons_of_mem i hj)) hb₁

/-- A loop whose turns are all in order. -/
theorem allowed_foldlM_of_forall (I : β → Prop) {l : List ι} (hallowed : ∀ b, I b → ∀ i ∈ l, (f b i).Allowed ok)
    (hvalue : ∀ b, I b → ∀ i ∈ l, ∃ b', (f b i).value = some b' ∧ I b') {b : β} (hb : I b) :
    (l.foldlM f b).Allowed ok := by
  refine (allowed_foldlM (Q := fun _ => True) I ?_ ?_ hb).mpr (fun _ _ => trivial)
  · intro b hb i hi
    exact iff_of_true (hallowed b hb i hi) trivial
  · intro b hb i hi _
    exact hvalue b hb i hi

/-- **Two runs.** Related turns keep the states related, so related inputs lead to related states. -/
theorem foldlM_related (R : β → β → Prop) {P : ι → ι → Prop}
    (hstep : ∀ b b' i i', R b b' → P i i' →
      ∃ c c', (f b i).value = some c ∧ (f b' i').value = some c' ∧ R c c')
    {l l' : List ι} (hl : List.Forall₂ P l l') {b b' : β} (hb : R b b') :
    ∃ c c', (l.foldlM f b).value = some c ∧ (l'.foldlM f b').value = some c' ∧ R c c' := by
  induction hl generalizing b b' with
  | nil => exact ⟨b, b', rfl, rfl, hb⟩
  | cons hi _ ih =>
      obtain ⟨b₁, b₁', hfirst, hfirst', hb₁⟩ := hstep b b' _ _ hb hi
      obtain ⟨c, c', hrest, hrest', hc⟩ := ih hb₁
      refine ⟨c, c', ?_, ?_, hc⟩
      · rw [foldlM_cons, value_bind, hfirst]
        exact hrest
      · rw [foldlM_cons, value_bind, hfirst']
        exact hrest'

end Loops

end Logged
