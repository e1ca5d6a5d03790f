import BdxReco.Lib.Run

/-!
# `Lib.Progress` — runs that come to an end

A machine takes steps that can fail, `step : σ → ι → Option σ`. A measure that no step raises bounds the number of steps
that lower it, in any run. If moreover every state that is not final can get to a state of a lower measure, it can get to
a final one.
-/

namespace Progress

variable {σ ι : Type} {step : σ → ι → Option σ}

/-- **The invariant rule** for the steps of one run. -/
theorem invariant {I : σ → Prop} {ops : List ι} (hstep : ∀ s, ∀ op ∈ ops, ∀ s', I s → step s op = some s' → I s')
    {s s' : σ} (hs : I s) (hrun : ops.foldlM step s = some s') : I s' := by
  induction ops generalizing s with
  | nil =>
      rw [List.foldlM_nil] at hrun
      rwa [← Option.some.inj hrun]
  | cons op ops ih =>
      rw [List.foldlM_cons] at hrun
      obtain ⟨s₁, hfirst, htail⟩ := Option.bind_eq_some_iff.mp hrun
      exact ih (fun s op' hop' => hstep s op' (List.mem_cons_of_mem op hop'))
        (hstep s op List.mem_cons_self s₁ hs hfirst) htail

/-- The number of steps of a run that count. -/
def counted (step : σ → ι → Option σ) (counts : σ → ι → Bool) : σ → List ι → Nat
  | _, [] => 0
  | s, op :: ops =>
    match step s op with
    | none => 0
    | some s' => (if counts s op then 1 else 0) + counted step counts s' ops

/-- **The measure bounds the number of steps that count**, in any run, if each of them lowers it and none raises it. -/
theorem counted_le {counts : σ → ι → Bool} {measure : σ → Nat}
    (hstep : ∀ s op s', step s op = some s' → measure s' ≤ measure s ∧ (counts s op = true → measure s' < measure s))
    (ops : List ι) (s : σ) : counted step counts s ops ≤ measure s := by
  induction ops generalizing s with
  | nil => exact Nat.zero_le _
  | cons op ops ih =>
      unfold counted
      cases hop : step s op with
      | none => exact Nat.zero_le _
      | some s' =>
          obtain ⟨hle, hlt⟩ := hstep s op s' hop
          have hrest := ih s'
          simp only
          split
          · rename_i hcounts
            have hlower := hlt hcounts
            omega
          · omega

/-- **A final state can be reached** if the measure can be lowered in every other state, without leaving `I`. -/
theorem exists_final {measure : σ → Nat} {I final : σ → Prop} {ok : ι → Prop}
    (hprogress : ∀ s, I s → ¬ final s →
      ∃ (ops : List ι) (s' : σ), (∀ op ∈ ops, ok op) ∧ ops.foldlM step s = some s' ∧ I s' ∧ measure s' < measure s)
    {s : σ} (hs : I s) :
    ∃ (ops : List ι) (s' : σ), (∀ op ∈ ops, ok op) ∧ ops.foldlM step s = some s' ∧ I s' ∧ final s' := by
  induction hn : measure s using Nat.strongRecOn generalizing s with
  | _ n ih =>
      by_cases hfinal : final s
      · exact ⟨[], s, fun op hop => absurd hop List.not_mem_nil, rfl, hs, hfinal⟩
      · obtain ⟨ops, s₁, hok, hrun, hs₁, hlt⟩ := hprogress s hs hfinal
        obtain ⟨ops', s₂, hok', hrun', hs₂, hfinal'⟩ := ih _ (hn ▸ hlt) hs₁ rfl
        refine ⟨ops ++ ops', s₂, ?_, ?_, hs₂, hfinal'⟩
        · exact fun op hop => (List.mem_append.mp hop).elim (hok op) (hok' op)
        · rw [List.foldlM_append, hrun]
          exact hrun'

end Progress
