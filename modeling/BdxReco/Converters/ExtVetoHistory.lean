import BdxReco.Converters.ExtVeto

/-!
# `Converters.ExtVetoHistory` — the pedestals the outer veto keeps between hits

A job calls `convertMode1Hit` for one hit after the other, and `Vpedestal_backup` lives through all of them. Each call
reads and writes one slot of it, so the calls are a machine over slots (`Slots`), and a channel that has its slot for
itself is not influenced by the others. The slot is found from the component, with one exception for the readout:
counters of different sectors and layers share it.
-/

namespace BdxReco

namespace ExtVetofa250Converter

open Reading

/-- A call of `convertMode1Hit`, with a waveform whose `size` is an `int`. -/
structure Call where
  index : ExtVetoIndex
  constants : Constants
  samples : List ℚ
  size_lt : samples.length < 2 ^ 31
  deriving DecidableEq, Repr

/-- What the calls of a job publish, one after the other; `none` is a call that throws. -/
def run : Backup → List Call → Option (List (Call × ExtVetoPMTHit))
  | _, [] => some []
  | V, call :: calls => do
    let r ← convertMode1Hit V call.index call.constants call.samples
    let (output, V') ← r.value
    let rest ← run V' calls
    pure ((call, output) :: rest)

/-- What a job publishes for one channel. -/
def published (i : ExtVetoIndex) (calls : List Call) : Option (List ExtVetoPMTHit) := do
  let outputs ← run (fun _ => 0) calls
  pure ((outputs.filter (fun p => p.1.index = i)).map Prod.snd)

/-! ## The calls as a machine over slots -/

/-- A component that has a slot. -/
def Listed (i : ExtVetoIndex) : Prop := 0 ≤ i.component.toInt ∧ i.component.toInt ≤ 98

instance (i : ExtVetoIndex) : Decidable (Listed i) := inferInstanceAs (Decidable (_ ∧ _))

def slot (i : ExtVetoIndex) : Fin 100 := (slot? i).getD 0

/-- The hit of a call and what it leaves in its slot. -/
def result (backup : ℚ) (call : Call) : ExtVetoPMTHit × ℚ :=
  ((convert call.constants backup call.samples).value).getD (⟨0, 0, 0⟩, 0)

section Machine

variable {i j : ExtVetoIndex}

theorem Listed.channel_bounds (h : Listed i) : 0 ≤ channel i ∧ channel i < 100 := by
  obtain ⟨h₁, h₂⟩ := h
  unfold channel
  split <;> omega

theorem Listed.slot?_eq (h : Listed i) : slot? i = some (slot i) := by
  unfold slot slot?
  rw [dif_pos h.channel_bounds]
  rfl

theorem Listed.slot_eq_iff (hi : Listed i) (hj : Listed j) : slot j = slot i ↔ channel j = channel i := by
  have hbi := hi.channel_bounds
  have hbj := hj.channel_bounds
  unfold slot slot?
  rw [dif_pos hbi, dif_pos hbj]
  simp only [Option.getD_some, Fin.mk.injEq]
  omega

/-- A call of a listed channel returns. -/
theorem value_convert (backup : ℚ) (call : Call) :
    (convert call.constants backup call.samples).value = some (result backup call) := by
  obtain ⟨_, T, out, backup', _, hvalue, _⟩ := convert_spec call.constants backup call.size_lt
  unfold result
  rw [hvalue]
  rfl

/-- **A job is a machine over the slots.** -/
theorem run_eq {calls : List Call} (h : ∀ call ∈ calls, Listed call.index) (V : Backup) :
    run V calls = some (Slots.outputs (fun call => slot call.index) result V calls) := by
  induction calls generalizing V with
  | nil => rfl
  | cons call calls ih =>
      rw [List.forall_mem_cons] at h
      have hcall : convertMode1Hit V call.index call.constants call.samples = some (do
          let p ← convert call.constants (V (slot call.index)) call.samples
          pure (p.1, Function.update V (slot call.index) p.2)) := by
        unfold convertMode1Hit
        rw [h.1.slot?_eq]
        rfl
      unfold run
      rw [hcall]
      simp only [Option.bind_eq_bind, Option.bind_some, value_bind, value_convert, value_pure]
      rw [ih h.2]
      rfl

end Machine

/-! ## Channels that share a slot -/

/-- **No influence from other channels**: in the jobs over the channels `U`, what is published for `i` depends on the
    calls for `i` alone. -/
def Independent (U : Set ExtVetoIndex) (i : ExtVetoIndex) : Prop :=
  ∀ calls calls' : List Call, (∀ call ∈ calls, call.index ∈ U) → (∀ call ∈ calls', call.index ∈ U) →
    calls.filter (fun call => call.index = i) = calls'.filter (fun call => call.index = i) →
    ∃ hits, published i calls = some hits ∧ published i calls' = some hits

section Sharing

variable {U : Set ExtVetoIndex} {i : ExtVetoIndex}

theorem published_eq {calls : List Call} (h : ∀ call ∈ calls, Listed call.index) (i : ExtVetoIndex) :
    published i calls = some (((Slots.outputs (fun call => slot call.index) result (fun _ => 0) calls).filter
      (fun p => p.1.index = i)).map Prod.snd) := by
  unfold published
  rw [run_eq h]
  rfl

/-- Where the slot is not shared, the calls of the slot are those of the channel. -/
theorem slot_eq_iff_index (hU : ∀ j ∈ U, Listed j) (hi : i ∈ U) (halone : ∀ j ∈ U, channel j = channel i → j = i)
    {j : ExtVetoIndex} (hj : j ∈ U) : slot j = slot i ↔ j = i := by
  constructor
  · intro h
    exact halone j hj (((hU i hi).slot_eq_iff (hU j hj)).mp h)
  · rintro rfl
    rfl

theorem filter_index_outputs (hU : ∀ j ∈ U, Listed j) (hi : i ∈ U)
    (halone : ∀ j ∈ U, channel j = channel i → j = i) {calls : List Call} (h : ∀ call ∈ calls, call.index ∈ U)
    (V : Backup) :
    (Slots.outputs (fun call => slot call.index) result V calls).filter (fun p => p.1.index = i)
      = (Slots.outputs (fun call => slot call.index) result V calls).filter (fun p => slot p.1.index = slot i) := by
  apply List.filter_congr
  intro p hp
  have hmem : p.1 ∈ calls := by
    rw [← Slots.map_fst_outputs (fun call => slot call.index) result V calls]
    exact List.mem_map_of_mem hp
  exact decide_eq_decide.mpr (slot_eq_iff_index hU hi halone (h p.1 hmem)).symm

theorem published_of_alone (hU : ∀ j ∈ U, Listed j) (hi : i ∈ U)
    (halone : ∀ j ∈ U, channel j = channel i → j = i) {calls : List Call} (h : ∀ call ∈ calls, call.index ∈ U) :
    published i calls = some ((Slots.outputs (fun call => slot call.index) result (fun _ => 0)
      (calls.filter (fun call => call.index = i))).map Prod.snd) := by
  have hslot : calls.filter (fun call => slot call.index = slot i) = calls.filter (fun call => call.index = i) := by
    apply List.filter_congr
    intro call hc
    exact decide_eq_decide.mpr (slot_eq_iff_index hU hi halone (h call hc))
  have hat := Slots.outputs_at (fun call : Call => slot call.index) result (slot i) calls
    (fun _ => 0) (fun _ => 0) rfl
  rw [published_eq (fun call hc => hU _ (h call hc)) i, filter_index_outputs hU hi halone h, hat, hslot]

/-- A channel with a slot of its own is independent. -/
theorem independent_of_alone (hU : ∀ j ∈ U, Listed j) (hi : i ∈ U)
    (halone : ∀ j ∈ U, channel j = channel i → j = i) : Independent U i := by
  intro calls calls' hcalls hcalls' hfilter
  refine ⟨_, published_of_alone hU hi halone hcalls, ?_⟩
  rw [published_of_alone hU hi halone hcalls', hfilter]

/-! A late pulse leaves its pedestal in the slot, and the next early pulse there is measured against it. -/

/-- A late pulse on a pedestal of two counts. -/
def latePulse (i : ExtVetoIndex) : Call := ⟨i, ⟨1, 2⟩, List.replicate 40 2 ++ [10, 10], by decide⟩

/-- A pulse that begins with the waveform, on a pedestal of one count. -/
def earlyPulse (i : ExtVetoIndex) : Call := ⟨i, ⟨1, 1⟩, [10, 10], by decide⟩

theorem result_earlyPulse (i j : ExtVetoIndex) :
    (result (result 0 (latePulse j)).2 (earlyPulse i)).1.pedMean ≠ (result 0 (earlyPulse i)).1.pedMean := by
  show ((convert ⟨1, 1⟩ ((convert ⟨1, 2⟩ 0 (List.replicate 40 2 ++ [10, 10])).value.getD (⟨0, 0, 0⟩, 0)).2
      [10, 10]).value.getD (⟨0, 0, 0⟩, 0)).1.pedMean ≠ ((convert ⟨1, 1⟩ 0 [10, 10]).value.getD (⟨0, 0, 0⟩, 0)).1.pedMean
  decide +kernel

/-- Two channels with one slot are not independent. -/
theorem not_independent_of_shared (hU : ∀ j ∈ U, Listed j) (hi : i ∈ U) {j : ExtVetoIndex} (hj : j ∈ U)
    (hne : j ≠ i) (hshared : channel j = channel i) : ¬ Independent U i := by
  intro h
  have hslot : slot j = slot i := ((hU i hi).slot_eq_iff (hU j hj)).mpr hshared
  have hfilter : [latePulse j, earlyPulse i].filter (fun call => call.index = i)
      = [earlyPulse i].filter (fun call => call.index = i) := by
    simp [latePulse, earlyPulse, hne]
  obtain ⟨hits, hleft, hright⟩ := h [latePulse j, earlyPulse i] [earlyPulse i]
    (by simp [latePulse, earlyPulse, hi, hj]) (by simp [earlyPulse, hi]) hfilter
  rw [published_eq (by simp [latePulse, earlyPulse, hU i hi, hU j hj])] at hleft
  rw [published_eq (by simp [earlyPulse, hU i hi])] at hright
  -- the pedestal of the early pulse is the one the late pulse left
  have hpedestal : (result (result 0 (latePulse j)).2 (earlyPulse i)).1 = (result 0 (earlyPulse i)).1 := by
    have hslots : slot i = slot (latePulse j).index := hslot.symm
    have hfirst : (latePulse j).index ≠ i := hne
    have hsecond : (earlyPulse i).index = i := rfl
    have hsame := hleft.trans hright.symm
    simpa [Slots.outputs, Slots.step, hslots, hfirst, hsecond] using hsame
  exact result_earlyPulse i j (congrArg ExtVetoPMTHit.pedMean hpedestal)

/-- **Exactly when a channel is independent of the others.** -/
theorem independent_iff (U : Set ExtVetoIndex) (hU : ∀ j ∈ U, Listed j) (i : ExtVetoIndex) (hi : i ∈ U) :
    Independent U i ↔ ∀ j ∈ U, channel j = channel i → j = i := by
  constructor
  · intro h j hj hshared
    by_contra hne
    exact not_independent_of_shared hU hi hj hne hshared h
  · exact independent_of_alone hU hi

end Sharing

/-- Two components of one layer. -/
theorem independent_two_components :
    Independent {⟨0, 0, 1, 1⟩, ⟨0, 0, 2, 1⟩} ⟨0, 0, 1, 1⟩ := by
  refine (independent_iff _ ?_ _ (by simp)).mpr ?_
  · rintro j (rfl | rfl) <;> decide
  · rintro j (rfl | rfl)
    · exact fun _ => rfl
    · intro h
      exact absurd h (by decide)

/-- The counters of two layers with the same component. -/
theorem not_independent_two_layers :
    ¬ ∀ i : ExtVetoIndex, Listed i → Independent {j | Listed j} i := by
  intro h
  have hfirst : Listed ⟨0, 0, 1, 1⟩ := by decide
  have hsecond : Listed ⟨0, 1, 1, 1⟩ := by decide
  exact not_independent_of_shared (fun j hj => hj) hfirst hsecond (by decide) rfl (h ⟨0, 0, 1, 1⟩ hfirst)

end ExtVetofa250Converter

end BdxReco
