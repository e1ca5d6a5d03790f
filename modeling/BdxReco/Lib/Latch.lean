import BdxReco.Lib.Run

/-!
# `Lib.Latch` — a register that keeps its first write until it is reset

`latch arm reset l` reads an event list left to right: an event `e` with `reset e` empties the register, any
other event with `arm e = some x` writes `x` **if the register is empty**. It is the abstract meaning of a
value that is fetched at the first use after an invalidation and served unchanged until the next one.
-/

namespace Latch

variable {ι α : Type}

/-- One event: reset, or first write. -/
def next (arm : ι → Option α) (reset : ι → Bool) (cur : Option α) (e : ι) : Option α :=
  if reset e then none else cur.or (arm e)

/-- The register after the events `l`, starting empty. -/
def latch (arm : ι → Option α) (reset : ι → Bool) (l : List ι) : Option α :=
  l.foldl (next arm reset) none

variable {arm : ι → Option α} {reset : ι → Bool}

@[simp] theorem latch_nil : latch arm reset [] = none := rfl

@[simp] theorem latch_concat (l : List ι) (e : ι) :
    latch arm reset (l ++ [e]) = next arm reset (latch arm reset l) e := by
  simp [latch]

/-- Without a reset, a value once latched stays. -/
theorem latch_append_of_some {l l' : List ι} {x : α} (h : latch arm reset l = some x)
    (hno : ∀ e ∈ l', reset e = false) : latch arm reset (l ++ l') = some x := by
  induction l' using List.reverseRecOn with
  | nil => simpa using h
  | append_singleton l' e ih =>
      rw [← List.append_assoc, latch_concat, ih (fun e' he' => hno e' (by simp [he']))]
      simp [next, hno e (by simp)]

/-- **Where a latched value comes from**: an arming event that found the register empty and after which
    nothing was reset. -/
theorem latch_eq_some {l : List ι} {x : α} (h : latch arm reset l = some x) :
    ∃ l₁ e l₂, l = l₁ ++ e :: l₂ ∧ latch arm reset l₁ = none ∧ arm e = some x ∧ reset e = false ∧
      ∀ e' ∈ l₂, reset e' = false := by
  induction l using List.reverseRecOn with
  | nil => simp at h
  | append_singleton l e ih =>
      rw [latch_concat] at h
      unfold next at h
      by_cases hr : reset e
      · simp [hr] at h
      · have hr' : reset e = false := by simpa using hr
        rw [if_neg hr] at h
        cases hl : latch arm reset l with
        | none =>
            rw [hl] at h
            exact ⟨l, e, [], rfl, hl, by simpa using h, hr', by simp⟩
        | some y =>
            rw [hl] at h
            have hyx : y = x := by simpa using h
            obtain ⟨l₁, e₁, l₂, heq, hnone, harm, hres, hno⟩ := ih (hyx ▸ hl)
            refine ⟨l₁, e₁, l₂ ++ [e], by simp [heq], hnone, harm, hres, ?_⟩
            intro e' he'
            rcases List.mem_append.mp he' with hm | hm
            · exact hno e' hm
            · rw [List.mem_singleton.mp hm]; exact hr'

/-- **When a latch is as good as no latch.** Every arming event finds its own value latched exactly when any
    two arming events with no reset between them carry the same value. -/
theorem latch_faithful_iff (harm : ∀ e x, arm e = some x → reset e = false) (l : List ι) :
    Run.AtEvery (fun pre e => ∀ x, arm e = some x → latch arm reset (pre ++ [e]) = some x) l ↔
      ∀ l₁ e l₂ e' l₃ x y, l = l₁ ++ e :: l₂ ++ e' :: l₃ → arm e = some x → arm e' = some y →
        (∀ e'' ∈ l₂, reset e'' = false) → x = y := by
  constructor
  · intro h l₁ e l₂ e' l₃ x y hl hx hy hno
    have hfirst : latch arm reset (l₁ ++ [e]) = some x :=
      h l₁ e (l₂ ++ e' :: l₃) (by simp [hl]) x hx
    have hsecond : latch arm reset (l₁ ++ e :: l₂ ++ [e']) = some y := h (l₁ ++ e :: l₂) e' l₃ hl y hy
    -- nothing is reset after the first, so the second finds its value
    have hkept : latch arm reset (l₁ ++ [e] ++ (l₂ ++ [e'])) = some x := by
      apply latch_append_of_some hfirst
      intro e'' he''
      rcases List.mem_append.mp he'' with hm | hm
      · exact hno e'' hm
      · rw [List.mem_singleton.mp hm]; exact harm e' y hy
    have hsame : l₁ ++ [e] ++ (l₂ ++ [e']) = l₁ ++ e :: l₂ ++ [e'] := by simp
    rw [hsame, hsecond] at hkept
    exact (Option.some.inj hkept).symm
  · intro h pre e suf hl x hx
    rw [latch_concat]
    unfold next
    rw [harm e x hx, hx]
    cases hcur : latch arm reset pre with
    | none => simp
    | some z =>
        obtain ⟨l₁, e₁, l₂, hpre, _, harm₁, _, hno⟩ := latch_eq_some hcur
        have hzx : z = x := h l₁ e₁ l₂ e suf z x (by rw [hl, hpre]) harm₁ hx hno
        simp [hzx]

end Latch
