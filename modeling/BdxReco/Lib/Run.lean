import Mathlib.Data.List.Basic
import Mathlib.Data.List.Induction

/-!
# `Lib.Run` — runs of a deterministic machine and properties of every step of a run

A machine is a step function `step : σ → ι → σ`; a run is the list of the inputs it was fed. Nothing here
mentions a particular machine.

## Contents
- `exec step s ops`: the state after feeding `ops` from `s`, with the invariant rule `exec_invariant`.
- `AtEvery P ops`: `P pre op` holds at every position of the run, `pre` being what came before `op`. This is
  how a property of *every call of a sequence* is stated; `atEvery_concat` peels off the last call.
- `Along Q ops`: `Q` holds of every prefix of the run, i.e. in every state reached on the way.
- `LastWith P ops op`: `op` is the last input with `P`; `exec_lastWrite` says what a variable holds that only such
  inputs write.
- `Checked step I ok`: steps that can fail, and do so on the inputs that are not `ok`, in every state with `I`.
- `foldlM_invariant`: what steps that can fail preserve.
- `foldlM_establishes`, `foldlM_keeps`, `foldlM_collects`, `foldlM_publishes`: steps that can fail and do not, and what
  they leave behind.
-/

namespace Run

variable {σ ι : Type}

/-- The state after the inputs `ops`, fed one after the other from `s`. -/
def exec (step : σ → ι → σ) (s : σ) (ops : List ι) : σ := ops.foldl step s

@[simp] theorem exec_nil (step : σ → ι → σ) (s : σ) : exec step s [] = s := rfl

@[simp] theorem exec_cons (step : σ → ι → σ) (s : σ) (op : ι) (ops : List ι) :
    exec step s (op :: ops) = exec step (step s op) ops := rfl

@[simp] theorem exec_append (step : σ → ι → σ) (s : σ) (ops ops' : List ι) :
    exec step s (ops ++ ops') = exec step (exec step s ops) ops' := List.foldl_append

/-- **The invariant rule.** What holds initially and is preserved by every input of the run holds at its
    end. -/
theorem exec_invariant {step : σ → ι → σ} {P : σ → Prop} {s : σ} {ops : List ι} (hinit : P s)
    (hstep : ∀ s, ∀ op ∈ ops, P s → P (step s op)) : P (exec step s ops) := by
  induction ops generalizing s with
  | nil => exact hinit
  | cons op ops ih =>
      refine ih (hstep s op (by simp) hinit) ?_
      intro s' op' hop'
      exact hstep s' op' (List.mem_cons_of_mem op hop')

/-! ## Every position of a run -/

/-- `P pre op` at every position of `ops`: `pre` are the inputs before this occurrence of `op`. -/
def AtEvery (P : List ι → ι → Prop) (ops : List ι) : Prop :=
  ∀ pre op suf, ops = pre ++ op :: suf → P pre op

theorem atEvery_nil (P : List ι → ι → Prop) : AtEvery P [] := by
  intro pre op suf h
  simp at h

/-- A splitting of `ops ++ [op]` is either one of `ops` or the one at the end. -/
theorem split_concat {ops : List ι} {op : ι} {pre : List ι} {op' : ι} {suf : List ι}
    (h : ops ++ [op] = pre ++ op' :: suf) :
    (pre = ops ∧ op' = op) ∨ ∃ suf', ops = pre ++ op' :: suf' := by
  rcases List.eq_nil_or_concat suf with hs | ⟨suf', last, hs⟩
  · subst hs
    have h' := List.append_inj' h rfl
    exact Or.inl ⟨h'.1.symm, (List.cons.inj h'.2).1.symm⟩
  · subst hs
    refine Or.inr ⟨suf', ?_⟩
    have h' : ops ++ [op] = (pre ++ op' :: suf') ++ [last] := by simpa using h
    exact (List.append_inj' h' rfl).1

theorem atEvery_concat {P : List ι → ι → Prop} {ops : List ι} {op : ι} :
    AtEvery P (ops ++ [op]) ↔ AtEvery P ops ∧ P ops op := by
  constructor
  · intro h
    refine ⟨?_, h ops op [] rfl⟩
    intro pre op' suf hsplit
    exact h pre op' (suf ++ [op]) (by simp [hsplit])
  · rintro ⟨hops, hlast⟩ pre op' suf hsplit
    rcases split_concat hsplit with ⟨hpre, hop⟩ | ⟨suf', hpre⟩
    · subst hpre; subst hop; exact hlast
    · exact hops pre op' suf' hpre

/-- A run is extended by a block of inputs each of which satisfies `P`. -/
theorem AtEvery.append {P : List ι → ι → Prop} {ops block : List ι} (h : AtEvery P ops)
    (hblock : AtEvery (fun pre op => P (ops ++ pre) op) block) : AtEvery P (ops ++ block) := by
  induction block using List.reverseRecOn with
  | nil => simpa using h
  | append_singleton block op ih =>
      obtain ⟨hinit, hlast⟩ := atEvery_concat.mp hblock
      rw [← List.append_assoc]
      exact atEvery_concat.mpr ⟨ih hinit, hlast⟩

/-- A property of every position is one of every position of an initial part of the run. -/
theorem AtEvery.left {P : List ι → ι → Prop} {ops ops' : List ι} (h : AtEvery P (ops ++ ops')) :
    AtEvery P ops := by
  intro pre op suf hsplit
  exact h pre op (suf ++ ops') (by simp [hsplit])

/-! ## Every state on the way -/

/-- `Q` holds of every prefix of the run. -/
def Along (Q : List ι → Prop) (ops : List ι) : Prop := ∀ pre, pre <+: ops → Q pre

theorem along_nil {Q : List ι → Prop} : Along Q [] ↔ Q [] := by
  constructor
  · intro h
    exact h [] List.prefix_rfl
  · intro h pre hpre
    rw [List.prefix_nil.mp hpre]
    exact h

theorem along_concat {Q : List ι → Prop} {ops : List ι} {op : ι} :
    Along Q (ops ++ [op]) ↔ Along Q ops ∧ Q (ops ++ [op]) := by
  constructor
  · intro h
    refine ⟨?_, h _ List.prefix_rfl⟩
    intro pre hpre
    exact h pre (hpre.trans (List.prefix_append ops [op]))
  · rintro ⟨hops, hlast⟩ pre hpre
    rcases List.prefix_concat_iff.mp hpre with h | h
    · rw [h]; exact hlast
    · exact hops pre h

/-! ## What was written last -/

/-- The last of the inputs with a property. -/
def LastWith (P : ι → Prop) (ops : List ι) (op : ι) : Prop :=
  ∃ pre suf, ops = pre ++ op :: suf ∧ P op ∧ ∀ op' ∈ suf, ¬ P op'

theorem not_lastWith_nil (P : ι → Prop) (op : ι) : ¬ LastWith P [] op := by
  rintro ⟨pre, suf, h, _⟩
  exact absurd h.symm (List.append_ne_nil_of_right_ne_nil pre (List.cons_ne_nil op suf))

theorem lastWith_concat {P : ι → Prop} {op : ι} (hop : P op) (ops : List ι) (op' : ι) :
    LastWith P (ops ++ [op]) op' ↔ op' = op := by
  constructor
  · rintro ⟨pre, suf, h, hop', hsuf⟩
    rcases List.eq_nil_or_concat suf with rfl | ⟨suf, last, rfl⟩
    · exact (List.append_singleton_inj.mp h).2.symm
    · have hlast : op = last := by
        rw [List.concat_eq_append, ← List.cons_append, ← List.append_assoc] at h
        exact (List.append_singleton_inj.mp h).2
      exact absurd hop (hsuf op (by simp [hlast]))
  · rintro rfl
    exact ⟨ops, [], rfl, hop, by simp⟩

theorem lastWith_concat_of_not {P : ι → Prop} {op : ι} (hop : ¬ P op) (ops : List ι) (op' : ι) :
    LastWith P (ops ++ [op]) op' ↔ LastWith P ops op' := by
  constructor
  · rintro ⟨pre, suf, h, hop', hsuf⟩
    rcases List.eq_nil_or_concat suf with rfl | ⟨suf, last, rfl⟩
    · obtain rfl := (List.append_singleton_inj.mp h).2
      exact absurd hop' hop
    · rw [List.concat_eq_append, ← List.cons_append, ← List.append_assoc] at h
      exact ⟨pre, suf, (List.append_singleton_inj.mp h).1, hop', fun x hx => hsuf x (by simp [hx])⟩
  · rintro ⟨pre, suf, rfl, hop', hsuf⟩
    refine ⟨pre, suf ++ [op], by simp, hop', ?_⟩
    intro x hx
    rcases List.mem_append.mp hx with hx | hx
    · exact hsuf x hx
    · rw [List.mem_singleton.mp hx]
      exact hop

theorem exists_lastWith {P : ι → Prop} {ops : List ι} (h : ∃ op ∈ ops, P op) : ∃ op, LastWith P ops op := by
  induction ops using List.reverseRecOn with
  | nil => simp at h
  | append_singleton ops op ih =>
      by_cases hop : P op
      · exact ⟨op, (lastWith_concat hop ops op).mpr rfl⟩
      · obtain ⟨op', hmem, hop'⟩ := h
        have hmem' : op' ∈ ops := by
          rcases List.mem_append.mp hmem with hmem | hmem
          · exact hmem
          · rw [List.mem_singleton.mp hmem] at hop'
            exact absurd hop' hop
        obtain ⟨last, hlast⟩ := ih ⟨op', hmem', hop'⟩
        exact ⟨last, (lastWith_concat_of_not hop ops last).mpr hlast⟩

/-- **A variable holds what was written last**, and its start value as long as nothing was. -/
theorem exec_lastWrite {τ : Type} (step : σ → ι → σ) (read : σ → τ) (writes : ι → Prop) (val : ι → τ) {ops : List ι}
    (hwrite : ∀ s, ∀ op ∈ ops, writes op → read (step s op) = val op)
    (hkeep : ∀ s, ∀ op ∈ ops, ¬ writes op → read (step s op) = read s) (s : σ) :
    (∀ op, LastWith writes ops op → read (exec step s ops) = val op) ∧
      ((∀ op ∈ ops, ¬ writes op) → read (exec step s ops) = read s) := by
  constructor
  · rintro op ⟨pre, suf, rfl, hop, hsuf⟩
    rw [exec_append, exec_cons]
    -- after the last write the variable is kept
    have hlast := hwrite (exec step s pre) op (by simp) hop
    refine exec_invariant (P := fun s' => read s' = val op) hlast ?_
    intro s' op' hop' hs'
    rw [hkeep s' op' (by simp [hop']) (hsuf op' hop'), hs']
  · intro hnone
    refine exec_invariant (P := fun s' => read s' = read s) rfl ?_
    intro s' op hop hs'
    rw [hkeep s' op hop (hnone op hop), hs']

/-! ## Steps that can fail -/

/-- **The invariant rule for steps that can fail.** -/
theorem foldlM_invariant {step : σ → ι → Option σ} {I : σ → Prop} (hstep : ∀ s op s', I s → step s op = some s' → I s')
    {ops : List ι} {s s' : σ} (hs : I s) (hrun : ops.foldlM step s = some s') : I s' := by
  induction ops generalizing s with
  | nil =>
      rw [List.foldlM_nil] at hrun
      rwa [← Option.some.inj hrun]
  | cons op ops ih =>
      rw [List.foldlM_cons] at hrun
      obtain ⟨s₁, hfirst, htail⟩ := Option.bind_eq_some_iff.mp hrun
      exact ih (hstep s op s₁ hs hfirst) htail

/-- In the states with `I`, which is kept, `step` fails exactly on the inputs that are not `ok`. -/
structure Checked (step : σ → ι → Option σ) (I : σ → Prop) (ok : ι → Prop) : Prop where
  isSome_iff : ∀ s op, I s → ((step s op).isSome = true ↔ ok op)
  keeps : ∀ s op s', I s → step s op = some s' → I s'

/-- **A run of checked steps** keeps `I`, and fails unless all its inputs are `ok`. -/
theorem Checked.foldlM {step : σ → ι → Option σ} {I : σ → Prop} {ok : ι → Prop} (h : Checked step I ok) :
    Checked (fun s (ops : List ι) => ops.foldlM step s) I (fun ops => ∀ op ∈ ops, ok op) := by
  constructor
  · intro s ops hs
    induction ops generalizing s with
    | nil => simp
    | cons op ops ih =>
        rw [List.foldlM_cons, List.forall_mem_cons, ← h.isSome_iff s op hs]
        cases hstep : step s op with
        | none => simp
        | some s' =>
            have htail := ih s' (h.keeps s op s' hs hstep)
            simpa using htail
  · intro s ops s' hs hrun
    exact foldlM_invariant h.keeps hs hrun

/-- **A run of steps that do not fail.** `I` is kept; `Q` holds at the end when it did so before or one of the inputs
    is a `hit`, which establishes it. -/
theorem foldlM_establishes {step : σ → ι → Option σ} (I Q : σ → Prop) (hit : ι → Prop) {ops : List ι}
    (hstep : ∀ s, ∀ op ∈ ops, I s → ∃ s', step s op = some s' ∧ I s' ∧ (hit op ∨ Q s → Q s')) {s : σ} (hs : I s) :
    ∃ s', ops.foldlM step s = some s' ∧ I s' ∧ ((∃ op ∈ ops, hit op) ∨ Q s → Q s') := by
  induction ops generalizing s with
  | nil => exact ⟨s, rfl, hs, by simp⟩
  | cons op ops ih =>
      obtain ⟨s₁, hfirst, hs₁, hQ₁⟩ := hstep s op List.mem_cons_self hs
      obtain ⟨s', hrest, hs', hQ'⟩ := ih (fun s op' hop' => hstep s op' (List.mem_cons_of_mem op hop')) hs₁
      refine ⟨s', by simp [List.foldlM_cons, hfirst, hrest], hs', ?_⟩
      rintro (⟨op', hop', hhit⟩ | hQ)
      · rcases List.mem_cons.mp hop' with rfl | hlater
        · exact hQ' (Or.inr (hQ₁ (Or.inl hhit)))
        · exact hQ' (Or.inl ⟨op', hlater, hhit⟩)
      · exact hQ' (Or.inr (hQ₁ (Or.inr hQ)))

/-- A run of steps that do not fail, in the states with `I`. -/
theorem foldlM_keeps {step : σ → ι → Option σ} (I : σ → Prop) {ops : List ι}
    (hstep : ∀ s, ∀ op ∈ ops, I s → ∃ s', step s op = some s' ∧ I s') {s : σ} (hs : I s) :
    ∃ s', ops.foldlM step s = some s' ∧ I s' := by
  induction ops generalizing s with
  | nil => exact ⟨s, rfl, hs⟩
  | cons op ops ih =>
      obtain ⟨s₁, hfirst, hs₁⟩ := hstep s op List.mem_cons_self hs
      obtain ⟨s', hrest, hs'⟩ := ih (fun s op' hop' => hstep s op' (List.mem_cons_of_mem op hop')) hs₁
      exact ⟨s', by simp [List.foldlM_cons, hfirst, hrest], hs'⟩

/-- **A run of steps that put something out.** -/
theorem foldlM_collects {ρ : Type} {step : σ → ι → Option σ} (out : σ → List ρ) (f : ι → List ρ) {ops : List ι}
    (hstep : ∀ s, ∀ op ∈ ops, ∃ s', step s op = some s' ∧ out s' = out s ++ f op) (s : σ) :
    ∃ s', ops.foldlM step s = some s' ∧ out s' = out s ++ ops.flatMap f := by
  induction ops generalizing s with
  | nil => exact ⟨s, rfl, by simp⟩
  | cons op ops ih =>
      obtain ⟨s₁, hfirst, hout₁⟩ := hstep s op List.mem_cons_self
      obtain ⟨s', hrest, hout'⟩ := ih (fun s op' hop' => hstep s op' (List.mem_cons_of_mem op hop')) s₁
      refine ⟨s', by simp [List.foldlM_cons, hfirst, hrest], ?_⟩
      rw [hout', hout₁, List.append_assoc, List.flatMap_cons]

/-- **A run of steps that put out one result each**, in the states with `I`. -/
theorem foldlM_publishes {ρ : Type} {step : σ → ι → Option σ} (I : σ → Prop) (out : σ → List ρ) (R : ι → ρ → Prop)
    {ops : List ι}
    (hstep : ∀ s, ∀ op ∈ ops, I s → ∃ s' r, step s op = some s' ∧ I s' ∧ out s' = out s ++ [r] ∧ R op r)
    {s : σ} (hs : I s) :
    ∃ s' rs, ops.foldlM step s = some s' ∧ I s' ∧ out s' = out s ++ rs ∧ List.Forall₂ R ops rs := by
  induction ops generalizing s with
  | nil => exact ⟨s, [], rfl, hs, by simp, .nil⟩
  | cons op ops ih =>
      obtain ⟨s₁, r, hfirst, hs₁, hout₁, hr⟩ := hstep s op List.mem_cons_self hs
      obtain ⟨s', rs, hrest, hs', hout', hrs⟩ :=
        ih (fun s op' hop' => hstep s op' (List.mem_cons_of_mem op hop')) hs₁
      refine ⟨s', r :: rs, by simp [List.foldlM_cons, hfirst, hrest], hs', ?_, .cons hr hrs⟩
      rw [hout', hout₁, List.append_assoc, List.singleton_append]

/-- Every input of such a run has its result. -/
theorem exists_result {ρ : Type} {ops : List ι} {rs : List ρ} (hlen : ops.length = rs.length) {op : ι} (hop : op ∈ ops) :
    ∃ r, (op, r) ∈ ops.zip rs := by
  obtain ⟨i, hi, hget⟩ := List.getElem_of_mem hop
  have hzip : i < (ops.zip rs).length := by
    rw [List.length_zip]
    omega
  refine ⟨rs[i], ?_⟩
  rw [← hget, ← List.getElem_zip (h := hzip)]
  exact List.getElem_mem _

end Run
