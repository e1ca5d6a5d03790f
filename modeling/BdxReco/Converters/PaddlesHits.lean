import BdxReco.Converters.Paddles

/-!
# `Converters.PaddlesHits` — pedestals, charges and times of the paddles

- The pedestal follows the history of each paddle (`pedestal_history`).
- A correction for small pulses waits for a time that is only computed after it, so it is never made
  (`recovery_iff`).
- The search for the change of sign trusts the maximum to stand well inside the waveform, and the pulse to change sign
  before it (`fraction_iff`).
-/

namespace BdxReco

namespace Paddlesfa250Converter

open Reading Run

/-! ## The pedestal of every call of a job -/

/-- The static variables after the calls of a job. -/
def stateAfter (calls : List Call) : State := exec (fun s call => (convertMode1Hit s call).2) {} calls

/-- A hit of the paddle whose pulse leaves room for a pedestal. -/
def Late (id : Int) (call : Call) : Prop :=
  call.id = id ∧ ∃ i, FirstAbove call.samples call.Thr i ∧ Nsamples ≤ i

/-- The value of one paddle. -/
def Statics.of (s : Statics) (id : Int) : ℚ := if id = 0 then s.prev0 else s.prev1

/-- **The pedestal that is wanted**, `pre` being the calls before. -/
structure FollowsHistory (db : Statics) (pre : List Call) (call : Call) (c : Converted) : Prop where
  late : ∀ i, FirstAbove call.samples call.Thr i → Nsamples ≤ i →
    c.Ped = some (ownPedestal call.samples) ∧ ∀ j < Nsamples, level call.samples j ≤ call.Thr
  early : ∀ i, FirstAbove call.samples call.Thr i → i < Nsamples →
    (∀ earlier, LastWith (Late call.id) pre earlier → c.Ped = some (ownPedestal earlier.samples)) ∧
      ((∀ earlier ∈ pre, ¬ Late call.id earlier) → c.Ped = some (db.of call.id))
  /-- a hit without a signal does nothing but the initialisation -/
  none : NoneAbove call.samples call.Thr →
    c.Ped = Option.none ∧ (convertMode1Hit (stateAfter pre) call).2 = (stateAfter pre).load call.table

/-- The static variables once they are there. -/
def loaded (s : Statics) : State := ⟨some s.prev0, some s.prev1⟩

/-- What a call makes of them. -/
def next (s : Statics) (call : Call) : Statics :=
  ((convert s call.id call.Thr call.samples).value.map Converted.statics).getD s

section History

variable {db s : Statics} {call : Call}

/-- The paddles 0 and 1 never need more samples than there are. -/
theorem hasPedestal {i : Nat} (hid : call.id = 0 ∨ call.id = 1) (h : FirstAbove call.samples call.Thr i) :
    HasPedestal call.id i call.samples := by
  by_cases hi : i < Nsamples
  · exact Or.inl ⟨hi, hid⟩
  · have hlt := h.lt
    exact Or.inr (by omega)

/-- **What a call does** for the paddles 0 and 1. -/
theorem convert_cases (s : Statics) (hid : call.id = 0 ∨ call.id = 1) :
    ∃ c, (convert s call.id call.Thr call.samples).value = some c ∧ next s call = c.statics ∧
      ((NoneAbove call.samples call.Thr ∧ c.Ped = none ∧ c.statics = s) ∨
        ∃ i, FirstAbove call.samples call.Thr i ∧ c.Ped = some (pedestalFor s call.id i call.samples) ∧
          c.statics = staticsAfter s call.id i call.samples) := by
  rcases noneAbove_or_firstAbove call.samples call.Thr with hnone | ⟨i, hfirst⟩
  · have hvalue := (convert_of_none s call.id hnone).1
    refine ⟨_, hvalue, ?_, Or.inl ⟨hnone, rfl, rfl⟩⟩
    unfold next
    rw [hvalue]
    rfl
  · obtain ⟨k, c, _, hsignal, hPed, hstatics, _⟩ := convertSignal_spec (s := s) (hasPedestal hid hfirst)
    have hvalue := (convert_of_first s call.id hfirst).1.trans hsignal
    refine ⟨c, hvalue, ?_, Or.inr ⟨i, hfirst, hPed, hstatics⟩⟩
    unfold next
    rw [hvalue]
    rfl

theorem load_loaded (s : Statics) (table : List (List ℚ)) : (loaded s).load table = loaded s := rfl

theorem load_first {table : List (List ℚ)} (h₀ : databaseValue table 144 = some db.prev0)
    (h₁ : databaseValue table 145 = some db.prev1) : State.load {} table = loaded db := by
  unfold State.load loaded
  rw [h₀, h₁]
  rfl

/-- A call whose static variables are there. -/
theorem convertMode1Hit_of_load {st : State} (hload : st.load call.table = loaded s)
    (hid : call.id = 0 ∨ call.id = 1) :
    (convertMode1Hit st call).1 = (convert s call.id call.Thr call.samples).value ∧
      (convertMode1Hit st call).2 = loaded (next s call) := by
  obtain ⟨c, hvalue, hnext, _⟩ := convert_cases s hid
  have hs : (⟨s.prev0, s.prev1⟩ : Statics) = s := rfl
  unfold convertMode1Hit
  rw [hload]
  simp only [loaded, hs, hvalue, hnext]
  exact ⟨trivial, trivial⟩

/-- A late hit writes the value of its paddle. -/
theorem next_of_late {id : Int} (hid : call.id = 0 ∨ call.id = 1) (h : Late id call) :
    (next s call).of id = ownPedestal call.samples := by
  obtain ⟨rfl, i, hfirst, hi⟩ := h
  obtain ⟨c, _, hnext, hcases⟩ := convert_cases s hid
  rcases hcases with ⟨hnone, _⟩ | ⟨j, hfirst', _, hstatics⟩
  · exact absurd hnone hfirst.not_none
  · obtain rfl := hfirst.unique hfirst'
    have hown : ¬ (i < Nsamples ∧ (call.id = 0 ∨ call.id = 1)) := fun h => by omega
    rw [hnext, hstatics]
    unfold staticsAfter Statics.of
    rw [if_neg hown]
    rcases hid with hid | hid <;> simp [hid]

/-- Any other hit leaves it alone. -/
theorem next_of_not_late {id : Int} (hid : call.id = 0 ∨ call.id = 1) (hid' : id = 0 ∨ id = 1) (h : ¬ Late id call) :
    (next s call).of id = s.of id := by
  obtain ⟨c, _, hnext, hcases⟩ := convert_cases s hid
  rw [hnext]
  rcases hcases with ⟨_, _, hstatics⟩ | ⟨i, hfirst, _, hstatics⟩
  · rw [hstatics]
  · rw [hstatics]
    unfold staticsAfter
    by_cases hi : i < Nsamples
    · rw [if_pos ⟨hi, hid⟩]
    · -- the hit is one of the other paddle
      have hother : call.id ≠ id := fun heq => h ⟨heq, i, hfirst, by omega⟩
      rw [if_neg (fun h => hi h.1)]
      unfold Statics.of
      rcases hid with hid | hid <;> rcases hid' with hid' | hid' <;> simp_all

/-- The static variables before a call: they are there from the first call on. -/
theorem load_stateAfter {first : Call} (h₀ : databaseValue first.table 144 = some db.prev0)
    (h₁ : databaseValue first.table 145 = some db.prev1) {pre : List Call}
    (hids : ∀ call ∈ pre, call.id = 0 ∨ call.id = 1) (hfirst : (pre ++ [call]).head? = some first) :
    (stateAfter pre).load call.table = loaded (exec next db pre) := by
  cases pre with
  | nil =>
      obtain rfl : call = first := by simpa using hfirst
      exact load_first h₀ h₁
  | cons first' pre =>
      obtain rfl : first' = first := by simpa using hfirst
      have hstate : stateAfter (first' :: pre) = loaded (exec next db (first' :: pre)) := by
        unfold stateAfter
        rw [List.forall_mem_cons] at hids
        rw [exec_cons, exec_cons, (convertMode1Hit_of_load (load_first h₀ h₁) hids.1).2]
        -- from here on both runs go through the same calls
        generalize next db first' = s
        have hrest := hids.2
        clear hids hfirst
        induction pre generalizing s with
        | nil => rfl
        | cons op pre ih =>
            rw [List.forall_mem_cons] at hrest
            rw [exec_cons, exec_cons, (convertMode1Hit_of_load (load_loaded s op.table) hrest.1).2]
            exact ih _ hrest.2
      rw [hstate, load_loaded]

end History

/-- **The pedestal follows the history of the paddle**, in every call of every job. `db` are the values that the first
    call finds in the database. -/
theorem pedestal_history (db : Statics) (calls : List Call) (hids : ∀ call ∈ calls, call.id = 0 ∨ call.id = 1)
    (hdb : ∀ first, calls.head? = some first →
      databaseValue first.table 144 = some db.prev0 ∧ databaseValue first.table 145 = some db.prev1) :
    AtEvery (fun pre call => ∃ c, (convertMode1Hit (stateAfter pre) call).1 = some c ∧ FollowsHistory db pre call c)
      calls := by
  rintro pre call suf rfl
  have hid : call.id = 0 ∨ call.id = 1 := hids call (by simp)
  have hpre : ∀ call ∈ pre, call.id = 0 ∨ call.id = 1 := fun op hop => hids op (by simp [hop])
  obtain ⟨first, hfirst⟩ : ∃ first, (pre ++ [call]).head? = some first := by
    cases pre <;> exact ⟨_, rfl⟩
  have hhead : (pre ++ call :: suf).head? = some first := by
    cases pre <;> simpa using hfirst
  obtain ⟨h₀, h₁⟩ := hdb first hhead
  have hload : (stateAfter pre).load call.table = loaded (exec next db pre) := load_stateAfter h₀ h₁ hpre hfirst
  obtain ⟨hhit, hstate⟩ := convertMode1Hit_of_load hload hid
  obtain ⟨c, hvalue, hnext, hcases⟩ := convert_cases (exec next db pre) hid
  refine ⟨c, hhit.trans hvalue, ?_⟩
  obtain ⟨hlast, hstart⟩ := exec_lastWrite next (fun s => s.of call.id) (Late call.id)
    (fun op => ownPedestal op.samples) (fun s op hop h => next_of_late (hpre op hop) h)
    (fun s op hop h => next_of_not_late (hpre op hop) hid h) db
  refine ⟨?_, ?_, ?_⟩
  · intro i hi hlate
    rcases hcases with ⟨hnone, _⟩ | ⟨j, hj, hPed, _⟩
    · exact absurd hnone hi.not_none
    · obtain rfl := hi.unique hj
      refine ⟨?_, fun j hj => hi.before j (by omega)⟩
      rw [hPed]
      unfold pedestalFor
      rw [if_neg (fun h => by omega), if_neg (fun h => by omega)]
  · intro i hi hearly
    rcases hcases with ⟨hnone, _⟩ | ⟨j, hj, hPed, _⟩
    · exact absurd hnone hi.not_none
    · obtain rfl := hi.unique hj
      -- the value of this paddle is the one in the static variable
      have hkept : c.Ped = some ((exec next db pre).of call.id) := by
        rw [hPed]
        unfold pedestalFor Statics.of
        rcases hid with hid | hid <;> simp [hid, hearly]
      constructor
      · intro earlier hearlier
        rw [hkept, hlast earlier hearlier]
      · intro hnone
        rw [hkept, hstart hnone]
  · intro hnone
    rcases hcases with ⟨_, hPed, hstatics⟩ | ⟨j, hj, _⟩
    · refine ⟨hPed, ?_⟩
      rw [hstate, hnext, hstatics, hload]
    · exact absurd hnone hj.not_none

/-- A late hit and an early one of the same paddle. -/
theorem pedestal_history_two :
    let late : Call := ⟨0, 100, List.replicate 146 [0, 0, 0, 90], List.replicate 40 80 ++ [400]⟩
    let early : Call := ⟨0, 100, [], [400, 400]⟩
    ∃ c, (convertMode1Hit (stateAfter [late]) early).1 = some c ∧ c.Ped = some (ownPedestal late.samples) := by
  intro late early
  have hlate : FirstAbove late.samples late.Thr 40 := by
    refine ⟨by decide, by decide +kernel, ?_⟩
    decide +kernel
  have hearly : FirstAbove early.samples early.Thr 0 :=
    ⟨by decide, by decide +kernel, fun j hj => absurd hj (Nat.not_lt_zero j)⟩
  obtain ⟨c, hc, hhistory⟩ := pedestal_history ⟨Binary64.mul 90 LSB, Binary64.mul 90 LSB⟩ [late, early] (by decide)
    (by
      intro first hfirst
      obtain rfl : late = first := by simpa using hfirst
      exact ⟨by decide +kernel, by decide +kernel⟩) [late] early [] rfl
  refine ⟨c, hc, (hhistory.early 0 hearly (by decide)).1 late ?_⟩
  exact ⟨[], [], rfl, ⟨rfl, 40, hlate, by decide⟩, by simp⟩

/-! ## The charge of small pulses -/

/-- A sample within 12 nsec of the maximum. -/
def Near (m j : Nat) : Prop := m ≤ j + 3 ∧ j ≤ m + 3

instance (m j : Nat) : Decidable (Near m j) := inferInstanceAs (Decidable (_ ∧ _))

/-- The sum over the samples around the maximum. -/
def nearSum (samples : List ℚ) (Ped : ℚ) (m : Nat) : ℚ :=
  ∑ j ∈ (Finset.range samples.length).filter (fun j : Nat => Near m j), (level samples j - Ped)

/-- The sum over the others. -/
def farSum (samples : List ℚ) (Ped : ℚ) (m : Nat) : ℚ :=
  ∑ j ∈ (Finset.range samples.length).filter (fun j : Nat => ¬ Near m j), (level samples j - Ped)

/-- **The charge that is wanted** for a signal that starts at the sample `i`. -/
structure IsRecovered (samples : List ℚ) (Ped : ℚ) (i : Nat) (Q : ℚ) : Prop where
  small : 0 < i → fullSum samples Ped < 0 → ∀ m, PositivePeak samples m →
    Q = 2 * (1 / 1000 * 4) / 50 * nearSum samples Ped m
  other : ¬ (0 < i ∧ fullSum samples Ped < 0) → Q = 2 * (1 / 1000 * 4) / 50 * fullSum samples Ped

section Recovery

theorem fullSum_eq (samples : List ℚ) (Ped : ℚ) (m : Nat) :
    fullSum samples Ped = nearSum samples Ped m + farSum samples Ped m :=
  (Finset.sum_filter_add_sum_filter_not _ _ _).symm

/-- A call that returns has gone through `convert`. -/
theorem convert_of_convertMode1Hit {st : State} {call : Call} {c : Converted}
    (h : (convertMode1Hit st call).1 = some c) :
    ∃ s, (convert s call.id call.Thr call.samples).value = some c := by
  unfold convertMode1Hit at h
  dsimp only at h
  split at h
  next prev0 prev1 _ _ =>
    cases hvalue : (convert ⟨prev0, prev1⟩ call.id call.Thr call.samples).value with
    | none => simp [hvalue] at h
    | some c' =>
        obtain rfl : c' = c := by simpa [hvalue] using h
        exact ⟨_, hvalue⟩
  next => cases h

/-- A signal whose call returns had a pedestal. -/
theorem hasPedestal_of_value {s : Statics} {id : Int} {Thr : ℚ} {samples : List ℚ} {i : Nat} {c : Converted}
    (hi : FirstAbove samples Thr i) (h : (convert s id Thr samples).value = some c) : HasPedestal id i samples := by
  by_contra hped
  rw [(convert_of_first s id hi).1] at h
  unfold convertSignal at h
  rw [value_bind] at h
  have hnone : (pedestal s id (leadingAt samples i).TIndex samples).value = none := value_pedestal_of_not_has hped
  rw [hnone] at h
  cases h

/-- The charge is always the sum over the whole waveform. -/
theorem charge_eq {st : State} {call : Call} {c : Converted} (h : (convertMode1Hit st call).1 = some c) {Ped : ℚ}
    (hPed : c.Ped = some Ped) {i : Nat} (hi : FirstAbove call.samples call.Thr i) :
    c.hit.Q = 2 * (1 / 1000 * 4) / 50 * fullSum call.samples Ped := by
  obtain ⟨s, hvalue⟩ := convert_of_convertMode1Hit h
  obtain ⟨k, c', _, hsignal, hPed', _, hQ, _⟩ := convertSignal_spec (s := s) (hasPedestal_of_value hi hvalue)
  obtain rfl : c = c' := by
    rw [(convert_of_first s call.id hi).1, hsignal] at hvalue
    exact (Option.some.inj hvalue).symm
  obtain rfl : pedestalFor s call.id i call.samples = Ped := Option.some.inj (hPed'.symm.trans hPed)
  rw [hQ]
  ring

/-- **Exactly when the charge is the one that is wanted**: when the samples away from the maximum do not count. -/
theorem recovery_iff (st : State) (call : Call) (c : Converted) (h : (convertMode1Hit st call).1 = some c) (Ped : ℚ)
    (hPed : c.Ped = some Ped) (i : Nat) (hi : FirstAbove call.samples call.Thr i) :
    IsRecovered call.samples Ped i c.hit.Q ↔
      (0 < i → fullSum call.samples Ped < 0 → ∀ m, PositivePeak call.samples m → farSum call.samples Ped m = 0) := by
  have hQ := charge_eq h hPed hi
  have hfactor : (2 * (1 / 1000 * 4) / 50 : ℚ) ≠ 0 := by norm_num
  constructor
  · intro hwanted hpos hneg m hm
    have hnear := hwanted.small hpos hneg m hm
    rw [hQ] at hnear
    have hsame := mul_left_cancel₀ hfactor hnear
    rw [fullSum_eq call.samples Ped m] at hsame
    linarith
  · intro hfar
    refine ⟨?_, fun _ => hQ⟩
    intro hpos hneg m hm
    rw [hQ, fullSum_eq call.samples Ped m, hfar hpos hneg m hm, add_zero]

end Recovery

/-- A pulse over a pedestal of 0. -/
theorem recovery_not_needed :
    ∃ c, (convertMode1Hit ⟨some 0, some 0⟩ ⟨0, 20, [], [0, 400, 0]⟩).1 = some c ∧
      IsRecovered [0, 400, 0] 0 1 c.hit.Q := by
  have hcall : (convertMode1Hit ⟨some 0, some 0⟩ ⟨0, 20, [], [0, 400, 0]⟩).1.map Converted.Ped = some (some 0) := by
    decide +kernel
  obtain ⟨c, hc, hPed⟩ := Option.map_eq_some_iff.mp hcall
  have hi : FirstAbove [0, 400, 0] 20 1 := ⟨by decide, by decide +kernel, by decide +kernel⟩
  have hsum : ¬ fullSum [0, 400, 0] 0 < 0 := by decide +kernel
  exact ⟨c, hc, (recovery_iff _ _ c hc 0 hPed 1 hi).mpr fun _ hneg => absurd hneg hsum⟩

/-- A pulse of one sample over a high pedestal: the charge stays negative. -/
theorem recovery_missed :
    ¬ ∀ (st : State) (call : Call) (c : Converted), (convertMode1Hit st call).1 = some c →
      ∀ Ped, c.Ped = some Ped → ∀ i, FirstAbove call.samples call.Thr i →
        IsRecovered call.samples Ped i c.hit.Q := by
  intro h
  have hcall : (convertMode1Hit ⟨some (Binary64.mul 50 LSB), some 0⟩
      ⟨0, 20, [], [0, 400, 0, 0, 0, 0, 0, 0, 0, 0, 0, 0, 0, 0]⟩).1.map
        (fun c => (c.Ped, decide (c.hit.Q < 0))) = some (some (Binary64.mul 50 LSB), true) := by decide +kernel
  obtain ⟨c, hc, hvalues⟩ := Option.map_eq_some_iff.mp hcall
  obtain ⟨hPed, hQ⟩ := Prod.mk.inj hvalues
  have hwanted := h _ _ c hc _ hPed 1 ⟨by decide, by decide +kernel, by decide +kernel⟩
  have hpeak : PositivePeak [0, 400, 0, 0, 0, 0, 0, 0, 0, 0, 0, 0, 0, 0] 1 :=
    ⟨by decide, by decide +kernel, by decide +kernel, by decide +kernel⟩
  have hnear := hwanted.small (by decide) (by decide +kernel) 1 hpeak
  have hpos : 0 < 2 * (1 / 1000 * 4) / 50 *
      nearSum [0, 400, 0, 0, 0, 0, 0, 0, 0, 0, 0, 0, 0, 0] (Binary64.mul 50 LSB) 1 := by
    decide +kernel
  have hneg := of_decide_eq_true hQ
  rw [hnear] at hneg
  exact lt_asymm hneg hpos

/-! ## The time -/

/-- **Constant fraction timing that can be relied on**: nothing outside the arrays is touched, and the interpolation
    uses what the search of this call has set, with two different amplitudes. -/
structure WellTimed (s : Statics) (id : Int) (Thr : ℚ) (samples : List ℚ) : Prop where
  within : (convert s id Thr samples).Within samples.length
  crossing : ∀ i, FirstAbove samples Thr i → 0 < i →
    ∃ c e, (convert s id Thr samples).value = some c ∧ c.zero = some e ∧ c.hit.T = e.interpolate ∧
      Binary64.sub e.Amp2 e.Amp1 ≠ 0

/-- The pulse changes sign at or before the place `k`; when it does so at `k` itself, the next element is there and
    differs. -/
structure ChangesSign (samples : List ℚ) (Ped : ℚ) (k : Nat) : Prop where
  lt : k < samples.length
  neg : ∃ j, 1 ≤ j ∧ j ≤ k ∧ fraction samples Ped j < 0
  last : fraction samples Ped k < 0 →
    k + 1 < samples.length ∧ fraction samples Ped (k + 1) ≠ fraction samples Ped k

section Timing

variable {samples : List ℚ} {Ped : ℚ}

theorem crosses_sumList {k : Nat} (hk : 1 ≤ k) : Crosses (sumList samples Ped) k ↔ ChangesSign samples Ped k := by
  rw [crosses_iff (isDouble_sumList samples Ped) hk, length_sumList]
  constructor
  · rintro ⟨hlt, ⟨j, hj, hj', hneg⟩, hlast⟩
    rw [sample_sumList (by omega)] at hneg
    refine ⟨hlt, ⟨j, hj, hj', hneg⟩, ?_⟩
    intro hnegk
    rw [← sample_sumList hlt] at hnegk
    obtain ⟨hlt', hne⟩ := hlast hnegk
    rw [sample_sumList hlt', sample_sumList hlt] at hne
    exact ⟨hlt', hne⟩
  · rintro ⟨hlt, ⟨j, hj, hj', hneg⟩, hlast⟩
    rw [← sample_sumList (by omega)] at hneg
    refine ⟨hlt, ⟨j, hj, hj', hneg⟩, ?_⟩
    intro hnegk
    rw [sample_sumList hlt] at hnegk
    obtain ⟨hlt', hne⟩ := hlast hnegk
    rw [sample_sumList hlt', sample_sumList hlt]
    exact ⟨hlt', hne⟩

theorem within_convertSignal_has {s : Statics} {id : Int} {i : Nat}
    (h : (convertSignal s id (leadingAt samples i) samples).Within samples.length) : HasPedestal id i samples := by
  unfold convertSignal at h
  rw [within_bind] at h
  exact within_pedestal_iff.mp h.1

/-- A signal with a pedestal is timed well when the search is. -/
theorem wellTimed_signal {s : Statics} {id : Int} {Thr : ℚ} {i : Nat} (hi : FirstAbove samples Thr i)
    (hped : HasPedestal id i samples) :
    ∃ k, SearchStart samples k ∧ (WellTimed s id Thr samples ↔
      (0 < i → Crosses (sumList samples (pedestalFor s id i samples)) k)) := by
  obtain ⟨k, c, hstart, hvalue, _, _, _, hwithin, hzero, hT⟩ := convertSignal_spec (s := s) hped
  obtain ⟨hconvert, hconvert'⟩ := convert_of_first s id hi
  refine ⟨k, hstart, ?_⟩
  constructor
  · intro hwell hpos
    obtain ⟨c', e, hc', he, _, hne⟩ := hwell.crossing i hi hpos
    obtain rfl : c = c' := by
      rw [hconvert, hvalue] at hc'
      exact Option.some.inj hc'
    refine ⟨?_, e, (hzero hpos e).mp he, hne⟩
    rw [length_sumList]
    exact hwithin.mp (hconvert'.mp hwell.within) hpos
  · intro hcrosses
    constructor
    · rw [hconvert', hwithin]
      intro hpos
      have hsearch := (hcrosses hpos).1
      rwa [length_sumList] at hsearch
    · intro j hj hpos
      obtain rfl := hi.unique hj
      obtain ⟨_, e, he, hne⟩ := hcrosses hpos
      have hset := (hzero hpos e).mpr he
      exact ⟨c, e, hconvert.trans hvalue, hset, hT e hset, hne⟩

end Timing

/-- **Exactly when the timing is well defined.** -/
theorem fraction_iff (s : Statics) (id : Int) (Thr : ℚ) (samples : List ℚ) :
    WellTimed s id Thr samples ↔ ∀ i, FirstAbove samples Thr i → HasPedestal id i samples ∧
      (0 < i → ∀ k, SearchStart samples k → ChangesSign samples (pedestalFor s id i samples) k) := by
  rcases noneAbove_or_firstAbove samples Thr with hnone | ⟨i, hi⟩
  · constructor
    · intro _ i hi
      exact absurd hnone hi.not_none
    · intro _
      exact ⟨(convert_of_none s id hnone).2, fun i hi => absurd hnone hi.not_none⟩
  · constructor
    · intro hwell j hj
      obtain rfl := hi.unique hj
      have hped := within_convertSignal_has ((convert_of_first s id hi).2.mp hwell.within)
      obtain ⟨k, hstart, hiff⟩ := wellTimed_signal (s := s) hi hped
      refine ⟨hped, ?_⟩
      intro hpos k' hk'
      obtain rfl := hstart.unique hk'
      exact (crosses_sumList hstart.pos).mp (hiff.mp hwell hpos)
    · intro hall
      obtain ⟨hped, hsign⟩ := hall i hi
      obtain ⟨k, hstart, hiff⟩ := wellTimed_signal (s := s) hi hped
      exact hiff.mpr fun hpos => (crosses_sumList hstart.pos).mpr (hsign hpos k hstart)

/-- A pulse with its maximum at the end: the search starts behind the array. -/
theorem fraction_at_end :
    ¬ ∀ (s : Statics) (id : Int) (Thr : ℚ) (samples : List ℚ), samples ≠ [] → WellTimed s id Thr samples := by
  intro h
  have hwell := h ⟨0, 0⟩ 0 20 [0, 400] (by simp)
  exact absurd hwell.within (by decide +kernel)

end Paddlesfa250Converter

end BdxReco
