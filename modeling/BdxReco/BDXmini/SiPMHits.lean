import BdxReco.Converters.IntVetoTot
import BdxReco.System.CalibrationReads

/-!
# `BDXmini.SiPMHits` — the amplitude of large signals in the inner veto

Large signals saturate. For these `IntVetoSiPMHit_factory_BDXmini::evnt` computes the amplitude from the time over
threshold, with two constants per counter that it takes from tables in the code.

The converter sets the time over threshold of accepted pulses only, and the factory does not ask for the type of the
hit. `correctionsSafe_iff` says for which events this and the number of the counter do no harm.
-/

namespace BdxReco

open Reading Run Fa250Converter

/-- The only constant of a row, 0 if there is not exactly one. -/
def singleConstant : List ℚ → ℚ
  | [x] => x
  | _ => 0

/-- `getCalibSingle`. -/
def CalibrationHandler.getCalibSingle {T : Type} [CalibIndex T] (h : CalibrationHandler T) (index : T) :
    ℚ × CalibrationHandler T :=
  let (this_data, h) := h.getCalib index
  (singleConstant this_data, h)

namespace IntVetoSiPMHitFactoryBDXmini

/-! ## The tables -/

/-- The doubles of the literals. -/
def table (literals : List ℚ) : List ℚ := literals.map Binary64.round

def AIV : List ℚ := table [84895.7, 86039, 85216.3, 88179.6, 82786.8, 84041.8, 84280.6, 82259.1, 77138.7, 79404.6]

def BIV : List ℚ := table [225.961, 227.966, 225.713, 225.69, 217.365, 224.533, 224.42, 216.787, 212.31, 213.098]

def AOV : List ℚ :=
  table [87167.3, 85114.7, 3.66732e-316, 85120.9, 84907, 83642.7, 86242.4, 86775.7, 77346.5, 80266.4]

def BOV : List ℚ :=
  table [229.182, 225.758, 1.58101e-322, 225.239, 224.628, 220.255, 227.812, 228.813, 207.983, 219.053]

def AminTOT : ℚ := 1100

/-- What the members of a `new IntVetoSiPMHit` hold. -/
structure Unset where
  Qraw : ℚ
  Qphe : ℚ
  Araw : ℚ
  Aphe : ℚ
  Ttot : ℚ
  deriving Inhabited

/-- A replacement of `Araw`. -/
structure Correction where
  A : ℚ
  B : ℚ
  Ttot : ℚ
  deriving DecidableEq, Repr

def Correction.Araw (k : Correction) : ℚ := Binary64.div k.A (Binary64.sub k.B k.Ttot)

/-- The branch of a layer. -/
def fromTables (A B : List ℚ) (icomponent : Int) (Ttot : ℚ) : Reading (Option Correction) := do
  let limit ← get B icomponent
  if Ttot < limit then
    let a ← get A icomponent
    let b ← get B icomponent
    pure (some { A := a, B := b, Ttot })
  else pure none

/-- "using the TOT for large signals": `u` is the memory of the object that has been converted. -/
def correction (u : Unset) (i : IntVetoIndex) (converted : IntVetoWaveformHit) : Reading (Option Correction) :=
  let icomponent := i.component.toInt - 1
  let Ttot := converted.Ttot.getD u.Ttot
  let Araw := converted.Araw.getD u.Araw
  if Ttot > 0 ∧ Araw > AminTOT then
    -- the layer 0 is the outer veto; `icomponent` is not compared with the length of the tables
    if i.layer = 0 then fromTables AOV BOV icomponent Ttot
    else if i.layer = 1 then fromTables AIV BIV icomponent Ttot
    else pure none
  else pure none

/-! ## `evnt` -/

/-- The handlers of the factory and of the converter, and the hits published so far. -/
structure State extends IntVetoSiPMHitFactory.State where
  thrCalib : CalibrationHandler IntVetoIndex

/-- `m_fa250Mode1CalibPedSubHit` and `m_fa250Mode7Hit`. -/
inductive Hit where
  | mode1 (hit : Fa250Mode1CalibPedSubHit)
  | mode7 (hit : Fa250Mode7Hit)

def Hit.channel : Hit → Csc
  | .mode1 hit => hit.channel
  | .mode7 hit => hit.channel

/-- The body of the loop over the mode 1 hits; `u` is the memory of the new object. -/
def mode1 (c : IntVetofa250Converter) (tt : VetoTable) (u : Unset) (s : State) (hit : Fa250Mode1CalibPedSubHit) :
    Option State :=
  let channel := tt.getChannelInfo hit.channel
  if channel.detSys = .intVeto then do
    let i ← channel.intVeto
    let (ampl, thrCalib) := s.thrCalib.getCalibSingle i
    let converted ← (c.convertMode1HitDouble ampl hit).value
    -- the type of the hit is not looked at
    let replaced ← (correction u i converted).value
    let Araw := match replaced with
      | some k => k.Araw
      | none => converted.Araw.getD u.Araw
    let out : IntVetoSiPMHit := ⟨channel, converted.Qraw.getD u.Qraw, Araw, u.Qphe, u.Aphe⟩
    let (out, s) ← IntVetoSiPMHitFactory.calibrateQ s.toState i out
    let (out, s) ← IntVetoSiPMHitFactory.calibrateA s i out
    some { s with thrCalib, data := s.data ++ [out] }
  else some s

/-- The body of the loop over the mode 7 hits, whose conversion sets nothing. -/
def mode7 (tt : VetoTable) (u : Unset) (s : State) (hit : Fa250Mode7Hit) : Option State :=
  let channel := tt.getChannelInfo hit.channel
  if channel.detSys = .intVeto then do
    let i ← channel.intVeto
    let out : IntVetoSiPMHit := ⟨channel, u.Qraw, u.Araw, u.Qphe, u.Aphe⟩
    let (out, s') ← IntVetoSiPMHitFactory.calibrateQ s.toState i out
    some { s' with thrCalib := s.thrCalib, data := s'.data ++ [out] }
  else some s

/-- A pass of one of the loops. -/
def step (c : IntVetofa250Converter) (tt : VetoTable) (s : State) (x : Unset × Hit) : Option State :=
  match x.2 with
  | .mode1 hit => mode1 c tt x.1 s hit
  | .mode7 hit => mode7 tt x.1 s hit

/-- The hits in the order in which `evnt` comes to them. -/
def event (hits1 : List Fa250Mode1CalibPedSubHit) (hits7 : List Fa250Mode7Hit) : List Hit :=
  hits1.map .mode1 ++ hits7.map .mode7

/-- `evnt`, for hits that come with the memory of their objects. -/
def evnt (c : IntVetofa250Converter) (tt : VetoTable) (s : State) (hits : List (Unset × Hit)) : Option State :=
  hits.foldlM (step c tt) s

/-! ## The correction of one hit -/

/-- The two tables of a layer. -/
def tablesOf (i : IntVetoIndex) : Option (List ℚ × List ℚ) :=
  if i.layer = 0 then some (AOV, BOV) else if i.layer = 1 then some (AIV, BIV) else none

/-- The element of a table for a component. -/
def entry (B : List ℚ) (i : IntVetoIndex) : ℚ := B.getD (i.component.toInt - 1).toNat 0

/-- The tables have elements for the components 1 to 10. -/
def HasEntry (i : IntVetoIndex) : Prop := 1 ≤ i.component.toInt ∧ i.component.toInt ≤ 10

/-- **The correction uses nothing but what it is meant to use**: elements of the tables, times with `P`, and a divisor
    that is positive. -/
structure Uses (P : ℚ → Prop) (x : Reading (Option Correction)) : Prop where
  within : x.Within 10
  tot : ∀ k, x.value = some (some k) → P k.Ttot ∧ 0 < k.B - k.Ttot

section Correction

variable {A B : List ℚ} {i : IntVetoIndex} {u : Unset} {converted : IntVetoWaveformHit} {P : ℚ → Prop} {Ttot : ℚ}

/-- All limits are positive. -/
theorem entry_pos (h : tablesOf i = some (A, B)) (hi : HasEntry i) : 0 < entry B i := by
  have hpos : (∀ n < 10, 0 < BOV.getD n 0) ∧ ∀ n < 10, 0 < BIV.getD n 0 := by decide +kernel
  have hlt : (i.component.toInt - 1).toNat < 10 := by
    unfold HasEntry at hi
    omega
  unfold tablesOf at h
  unfold entry
  split at h
  · cases h
    exact hpos.1 _ hlt
  · split at h
    · cases h
      exact hpos.2 _ hlt
    · cases h

theorem hasEntry_iff : HasEntry i ↔ InBounds 10 (i.component.toInt - 1) := by
  unfold HasEntry InBounds
  omega

theorem uses_none : Uses P (pure none) := ⟨within_pure _ _, fun k hk => by simp at hk⟩

/-- The branch of a layer. -/
theorem uses_fromTables (hA : A.length = 10) (hB : B.length = 10) :
    Uses P (fromTables A B (i.component.toInt - 1) Ttot) ↔ HasEntry i ∧ (Ttot < entry B i → P Ttot) := by
  by_cases hi : HasEntry i
  · have hboundsA : InBounds A.length (i.component.toInt - 1) := by
      rw [hA]
      exact hasEntry_iff.mp hi
    have hboundsB : InBounds B.length (i.component.toInt - 1) := by
      rw [hB]
      exact hasEntry_iff.mp hi
    have hreadA : (get A (i.component.toInt - 1)).value = some (entry A i) := value_get hboundsA 0
    have hreadB : (get B (i.component.toInt - 1)).value = some (entry B i) := value_get hboundsB 0
    have hwithinA : (get A (i.component.toInt - 1)).Within 10 := hA ▸ within_get.mpr hboundsA
    have hwithinB : (get B (i.component.toInt - 1)).Within 10 := hB ▸ within_get.mpr hboundsB
    by_cases hlt : Ttot < entry B i
    · constructor
      · intro h
        have hvalue : (fromTables A B (i.component.toInt - 1) Ttot).value =
            some (some ⟨entry A i, entry B i, Ttot⟩) := by
          simp [fromTables, hreadA, hreadB, hlt]
        exact ⟨hi, fun _ => (h.tot _ hvalue).1⟩
      · rintro ⟨_, hP⟩
        constructor
        · simp [fromTables, hreadB, hwithinB, hwithinA, hlt]
        · intro k hk
          simp only [fromTables, value_bind, hreadB, Option.bind_some, hlt, if_true, hreadA, value_pure,
            Option.some.injEq] at hk
          rw [← hk]
          exact ⟨hP hlt, sub_pos.mpr hlt⟩
    · refine iff_of_true ⟨?_, ?_⟩ ⟨hi, fun h => absurd h hlt⟩
      · simp [fromTables, hreadB, hwithinB, hlt]
      · intro k hk
        simp [fromTables, hreadB, hlt] at hk
  · -- the first read is outside the table
    refine iff_of_false ?_ (fun h => hi h.1)
    intro h
    have hread : (get B (i.component.toInt - 1)).Within B.length := hB ▸ (within_bind.mp h.within).1
    rw [within_get, hB, ← hasEntry_iff] at hread
    exact hi hread

/-- **When the correction of a hit is harmless.** -/
theorem uses_correction :
    Uses P (correction u i converted) ↔ (0 < converted.Ttot.getD u.Ttot → AminTOT < converted.Araw.getD u.Araw →
      ∀ A B, tablesOf i = some (A, B) → HasEntry i ∧
        (converted.Ttot.getD u.Ttot < entry B i → P (converted.Ttot.getD u.Ttot))) := by
  unfold correction
  dsimp only
  by_cases hlarge : converted.Ttot.getD u.Ttot > 0 ∧ converted.Araw.getD u.Araw > AminTOT
  · rw [if_pos hlarge]
    have hiff : Uses P (if i.layer = 0 then fromTables AOV BOV (i.component.toInt - 1) (converted.Ttot.getD u.Ttot)
        else if i.layer = 1 then fromTables AIV BIV (i.component.toInt - 1) (converted.Ttot.getD u.Ttot)
        else pure none) ↔ ∀ A B, tablesOf i = some (A, B) → HasEntry i ∧
          (converted.Ttot.getD u.Ttot < entry B i → P (converted.Ttot.getD u.Ttot)) := by
      unfold tablesOf
      by_cases hzero : i.layer = 0
      · rw [if_pos hzero, if_pos hzero, uses_fromTables rfl rfl]
        simp
      · rw [if_neg hzero, if_neg hzero]
        by_cases hone : i.layer = 1
        · rw [if_pos hone, if_pos hone, uses_fromTables rfl rfl]
          simp
        · rw [if_neg hone, if_neg hone]
          exact iff_of_true uses_none (by simp)
    rw [hiff]
    constructor
    · exact fun h _ _ => h
    · exact fun h => h hlarge.1 hlarge.2
  · rw [if_neg hlarge]
    exact iff_of_true uses_none (fun hpos hover => absurd ⟨hpos, hover⟩ hlarge)

end Correction

/-! ## Where the time comes from -/

open IntVetofa250Converter IntVetofa250Converter.Setting

/-- **`tot` is measured**: the converter has set it, and it is the length of the last interval over the threshold of the
    waveform. -/
def IsMeasured (c : IntVetofa250Converter) (ampl : ℚ) (hit : Fa250Mode1CalibPedSubHit) (converted : IntVetoWaveformHit)
    (tot : ℚ) : Prop :=
  converted.Ttot = some tot ∧ ∃ r a b, (c.refinePedestal ampl hit).value = some r ∧
    DoubleInterval (subtract hit.samples r.ped) (c.TOTTHR.getD 0) hit.dT a b ∧
    tot = Binary64.sub (doubleTime (subtract hit.samples r.ped) (c.TOTTHR.getD 0) hit.dT b)
      (doubleTime (subtract hit.samples r.ped) (c.TOTTHR.getD 0) hit.dT a)

/-- **The correction of a hit uses measured times only.** The loop over the mode 7 hits has no correction. -/
def CorrectionSafe (c : IntVetofa250Converter) (ampl : ℚ) (u : Unset) (i : IntVetoIndex) : Hit → Prop
  | .mode1 hit => ∀ converted, (c.convertMode1HitDouble ampl hit).value = some converted →
      Uses (IsMeasured c ampl hit converted) (correction u i converted)
  | .mode7 _ => True

/-- A waveform that the correction with the limits `B` leaves alone or gets right: none without accepted pulse is
    large, the large ones have an element in the tables, and a time that starts from a zero is over the limit. -/
structure HarmlessWaveform (g : Setting) (w : List ℚ) (i : IntVetoIndex) (B : List ℚ) : Prop where
  noise : (∀ p, ¬ g.Accepted w p) → ∀ k < w.length, sample w k ≤ AminTOT
  interval : ∀ p t, g.IsHighest w p t → AminTOT < sample w t.toNat →
    ∀ a b, DoubleInterval w g.TOTTHR g.dT a b → HasEntry i
  zero : ∀ p t, g.IsHighest w p t → AminTOT < sample w t.toNat → ∀ tot, DoubleFromZero w g.TOTTHR g.dT tot →
    HasEntry i ∧ entry B i ≤ tot

/-- The same for a hit. What is not converted is not corrected. -/
def Harmless (c : IntVetofa250Converter) (ampl : ℚ) (i : IntVetoIndex) : Hit → Prop
  | .mode1 hit => hit.samples ≠ [] → ∀ r, (c.refinePedestal ampl hit).value = some r →
      ∀ A B, tablesOf i = some (A, B) →
        HarmlessWaveform (c.setting ampl hit) (subtract hit.samples r.ped) i B
  | .mode7 _ => True

section Hits

variable {g : Setting} {w : List ℚ} {i : IntVetoIndex} {converted : IntVetoWaveformHit} {P : ℚ → Prop}

/-- **What the converter gives**: nothing, a hit without accepted pulse and without time, or a signal. -/
theorem convert_cases (c : IntVetofa250Converter) (ampl : ℚ) (hit : Fa250Mode1CalibPedSubHit) :
    ((c.convertMode1HitDouble ampl hit).value = none ∧
        ∀ r, (c.refinePedestal ampl hit).value = some r → hit.samples = []) ∨
    ∃ r converted, (c.refinePedestal ampl hit).value = some r ∧ hit.samples ≠ [] ∧
      (c.convertMode1HitDouble ampl hit).value = some converted ∧
      (((∀ p, ¬ (c.setting ampl hit).Accepted (subtract hit.samples r.ped) p) ∧
          IsNoise (subtract hit.samples r.ped) {} converted) ∨
        ∃ p t, (c.setting ampl hit).IsHighest (subtract hit.samples r.ped) p t ∧
          (c.setting ampl hit).IsSignal (subtract hit.samples r.ped)
            (doubleTot (subtract hit.samples r.ped) (c.TOTTHR.getD 0) hit.dT) t converted) := by
  cases hr : (c.refinePedestal ampl hit).value with
  | none =>
      left
      refine ⟨?_, by simp⟩
      unfold convertMode1HitDouble
      rw [value_bind, hr]
      rfl
  | some r =>
      rw [convertMode1HitDouble_eq hr]
      by_cases hsamples : hit.samples = []
      · left
        have hw : subtract hit.samples r.ped = [] := by
          rw [hsamples]
          rfl
        rw [hw]
        exact ⟨analyse_nil _ _ _, fun _ _ => hsamples⟩
      · right
        have hw := (subtract_ne_nil hit.samples r.ped).mpr hsamples
        rcases analyse_cases (g := c.setting ampl hit) hw
            (doubleTot (subtract hit.samples r.ped) (c.setting ampl hit).TOTTHR (c.setting ampl hit).dT)
            { pedMean := some r.ped, pedRMS := r.pedRMS, RMSflag := r.found }
          with ⟨hnone, converted, hvalue, hnoise⟩ | ⟨p, t, converted, hp, hvalue, hsignal⟩
        · exact ⟨r, converted, rfl, hsamples, hvalue, Or.inl ⟨hnone, hnoise.type, hnoise.Araw, hnoise.Ttot⟩⟩
        · exact ⟨r, converted, rfl, hsamples, hvalue, Or.inr ⟨p, t, hp, hsignal⟩⟩

/-- A hit without accepted pulse must not be large, whatever its time is. -/
theorem uses_noise (hnoise : IsNoise w {} converted) (hP : ∀ tot, ¬ P tot) (hnone : ∀ p, ¬ g.Accepted w p) :
    (∀ u, Uses P (correction u i converted)) ↔ ∀ A B, tablesOf i = some (A, B) → HarmlessWaveform g w i B := by
  obtain ⟨m, hm, hAraw⟩ := hnoise.Araw
  have hTtot : converted.Ttot = none := hnoise.Ttot
  simp only [uses_correction, hTtot, hAraw, Option.getD_none, Option.getD_some, hP, imp_false]
  constructor
  · intro h A B htables
    refine ⟨fun _ => ?_, fun p t hp => absurd hp.accepted (hnone p), fun p t hp => absurd hp.accepted (hnone p)⟩
    by_contra hlarge
    push Not at hlarge
    obtain ⟨k, hk, hlarge⟩ := hlarge
    have hover : AminTOT < sample w m.toNat := by
      refine lt_of_lt_of_le hlarge ?_
      have hle := hm.le_max (k : Int) (by omega) (by omega)
      rwa [Int.toNat_natCast] at hle
    -- any positive value is looked up, and a small one is taken
    have hentry : HasEntry i := (h ⟨0, 0, 0, 0, 1⟩ one_pos hover A B htables).1
    have hpos : 0 < entry B i := entry_pos htables hentry
    exact (h ⟨0, 0, 0, 0, entry B i / 2⟩ (half_pos hpos) hover A B htables).2 (half_lt_self hpos)
  · intro h u _ hover A B htables
    have hge := hm.ge
    have hle := hm.le
    have hsmall := (h A B htables).noise hnone m.toNat (by omega)
    exact absurd hover (not_lt.mpr hsmall)

/-- A signal is corrected with the time that the loop has left. -/
theorem uses_signal {p : Int × Int} {t : Int} (hdT : 0 < g.dT) (hw : w ≠ []) (hp : g.IsHighest w p t)
    (hsignal : g.IsSignal w (doubleTot w g.TOTTHR g.dT) t converted)
    (hP : P (doubleTot w g.TOTTHR g.dT) ↔ ∃ a b, DoubleInterval w g.TOTTHR g.dT a b ∧ doubleTot w g.TOTTHR g.dT =
      Binary64.sub (doubleTime w g.TOTTHR g.dT b) (doubleTime w g.TOTTHR g.dT a)) :
    (∀ u, Uses P (correction u i converted)) ↔ ∀ A B, tablesOf i = some (A, B) → HarmlessWaveform g w i B := by
  have hlarge : AminTOT < (if -9999 < sample w t.toNat then sample w t.toNat else -9999) ↔
      AminTOT < sample w t.toNat := by
    unfold AminTOT
    split <;> constructor <;> intro h <;> linarith
  -- there is one highest pulse
  have honly : ∀ p' t', g.IsHighest w p' t' → t' = t := fun p' t' hp' => (hp'.unique hw hp).2
  simp only [uses_correction, hsignal.Ttot, hsignal.Araw, Option.getD_some, hlarge, forall_const]
  rcases doubleTot_cases w g.TOTTHR hdT with ⟨a, b, hint, htot⟩ | ⟨hnone, hzero, htot⟩ | hzero
  · have hpos : 0 < doubleTot w g.TOTTHR g.dT := by
      rw [htot]
      exact (isDouble_doubleTime w _ _ a).zero_lt_sub (isDouble_doubleTime w _ _ b) hint.pos
    constructor
    · intro h A B htables
      refine ⟨fun hnone => absurd hp.accepted (hnone p), ?_, fun _ _ _ _ tot hzero => absurd hint hzero.not_interval⟩
      intro p' t' hp' hover _ _ _
      rw [honly p' t' hp'] at hover
      exact (h hpos hover A B htables).1
    · intro h _ hover A B htables
      exact ⟨(h A B htables).interval p t hp hover a b hint, fun _ => hP.mpr ⟨a, b, hint, htot⟩⟩
  · have hneg : ¬ 0 < doubleTot w g.TOTTHR g.dT := by
      rw [htot]
      norm_num
    refine iff_of_true (fun hpos => absurd hpos hneg) ?_
    intro A B _
    exact ⟨fun hno => absurd hp.accepted (hno p), fun _ _ _ _ a b hint => absurd hint (hnone a b),
      fun _ _ _ _ tot htot => absurd htot (hzero tot)⟩
  · have hpos : 0 < doubleTot w g.TOTTHR g.dT := hzero.pos
    have hnot : ¬ P (doubleTot w g.TOTTHR g.dT) := by
      rw [hP]
      rintro ⟨a, b, hint, _⟩
      exact hzero.not_interval hint
    constructor
    · intro h A B htables
      refine ⟨fun hno => absurd hp.accepted (hno p), fun _ _ _ _ a b hint => absurd hint hzero.not_interval, ?_⟩
      intro p' t' hp' hover tot' hzero'
      rw [honly p' t' hp'] at hover
      obtain ⟨hentry, hreplaced⟩ := h hpos hover A B htables
      refine ⟨hentry, ?_⟩
      rw [hzero'.unique hzero]
      exact not_lt.mp (fun hlt => hnot (hreplaced hlt))
    · intro h _ hover A B htables
      obtain ⟨hentry, hle⟩ := (h A B htables).zero p t hp hover _ hzero
      exact ⟨hentry, fun hlt => absurd hlt (not_lt.mpr hle)⟩

/-- **Exactly when the correction of a hit is safe**, whatever its memory holds. -/
theorem correctionSafe_iff (c : IntVetofa250Converter) (ampl : ℚ) (i : IntVetoIndex) {hit : Hit}
    (hdT : ∀ waveform, hit = .mode1 waveform → 0 < waveform.dT) :
    (∀ u, CorrectionSafe c ampl u i hit) ↔ Harmless c ampl i hit := by
  cases hit with
  | mode7 hit => exact iff_of_true (fun _ => trivial) trivial
  | mode1 hit =>
      simp only [CorrectionSafe, Harmless]
      rcases convert_cases c ampl hit with ⟨hvalue, hempty⟩ | ⟨r, converted, hr, hsamples, hvalue, hcases⟩
      · rw [hvalue]
        refine iff_of_true (fun u converted h => absurd h (by simp)) ?_
        intro hsamples r hr
        exact absurd (hempty r hr) hsamples
      · have hone : (∀ u converted', (c.convertMode1HitDouble ampl hit).value = some converted' →
            Uses (IsMeasured c ampl hit converted') (correction u i converted')) ↔
            ∀ u, Uses (IsMeasured c ampl hit converted) (correction u i converted) := by
          rw [hvalue]
          simp
        have hall : (hit.samples ≠ [] → ∀ r', (c.refinePedestal ampl hit).value = some r' →
            ∀ A B, tablesOf i = some (A, B) →
              HarmlessWaveform (c.setting ampl hit) (subtract hit.samples r'.ped) i B) ↔
            ∀ A B, tablesOf i = some (A, B) →
              HarmlessWaveform (c.setting ampl hit) (subtract hit.samples r.ped) i B := by
          rw [hr]
          simp [hsamples]
        rw [hone, hall]
        rcases hcases with ⟨hnone, hnoise⟩ | ⟨p, t, hp, hsignal⟩
        · apply uses_noise hnoise _ hnone
          -- the converter has not set a time
          intro tot hmeasured
          have hTtot : converted.Ttot = none := hnoise.Ttot
          have hset := hmeasured.1
          rw [hTtot] at hset
          exact absurd hset (by simp)
        · apply uses_signal (hdT hit rfl) ((subtract_ne_nil hit.samples r.ped).mpr hsamples) hp hsignal
          constructor
          · rintro ⟨_, r', a, b, hr', hint, htot⟩
            rw [hr, Option.some.injEq] at hr'
            subst hr'
            exact ⟨a, b, hint, htot⟩
          · rintro ⟨a, b, hint, htot⟩
            exact ⟨hsignal.Ttot, r, a, b, hr, hint, htot⟩

end Hits

/-! ## Whole events -/

/-- What the converter gets from `m_thrCalib`. -/
def State.ampl (s : State) (i : IntVetoIndex) : ℚ := (s.thrCalib.getCalibSingle i).1

/-- `evnt` gets through the hits, with some memory for each of them, and leaves `s'`. -/
def Reached (c : IntVetofa250Converter) (tt : VetoTable) (s : State) (hits : List Hit) (s' : State) : Prop :=
  ∃ run : List (Unset × Hit), run.map Prod.snd = hits ∧ evnt c tt s run = some s'

/-- **The corrections of an event are safe**: at every veto hit that `evnt` comes to. -/
def CorrectionsSafe (c : IntVetofa250Converter) (tt : VetoTable) (s : State) (hits : List Hit) : Prop :=
  AtEvery (fun pre hit => ∀ s', Reached c tt s pre s' → ∀ i,
    IntVetoSiPMHitFactory.vetoChannel tt hit.channel = some i → ∀ u, CorrectionSafe c (s'.ampl i) u i hit) hits

section Events

variable {c : IntVetofa250Converter} {tt : VetoTable} {s s' : State}

/-- No lookup changes what the converter gets. -/
theorem mode1_ampl {u : Unset} {hit : Fa250Mode1CalibPedSubHit} (h : mode1 c tt u s hit = some s') (i : IntVetoIndex) :
    s'.ampl i = s.ampl i := by
  rcases IntVetoSiPMHitFactory.vetoChannel_cases tt hit.channel with ⟨hdet, _⟩ | ⟨j, hdet, hj, _⟩
  · simp only [mode1, hdet, if_false, Option.some.injEq] at h
    rw [h]
  · simp only [mode1, hdet, if_true, hj, Option.bind_eq_bind, Option.bind_some, Option.bind_eq_some_iff] at h
    obtain ⟨_, _, _, _, _, _, _, _, hs'⟩ := h
    rw [← Option.some.inj hs']
    show singleConstant ((s.thrCalib.getCalib j).2.getCalib i).1 = singleConstant (s.thrCalib.getCalib i).1
    rw [answer_getCalib]

theorem mode7_ampl {u : Unset} {hit : Fa250Mode7Hit} (h : mode7 tt u s hit = some s') (i : IntVetoIndex) :
    s'.ampl i = s.ampl i := by
  rcases IntVetoSiPMHitFactory.vetoChannel_cases tt hit.channel with ⟨hdet, _⟩ | ⟨j, hdet, hj, _⟩
  · simp only [mode7, hdet, if_false, Option.some.injEq] at h
    rw [h]
  · simp only [mode7, hdet, if_true, hj, Option.bind_eq_bind, Option.bind_some, Option.bind_eq_some_iff] at h
    obtain ⟨_, _, hs'⟩ := h
    rw [← Option.some.inj hs']
    rfl

theorem step_ampl {x : Unset × Hit} (h : step c tt s x = some s') (i : IntVetoIndex) : s'.ampl i = s.ampl i := by
  obtain ⟨u, hit⟩ := x
  cases hit with
  | mode1 hit => exact mode1_ampl h i
  | mode7 hit => exact mode7_ampl h i

/-- **Along an event the converter works with the same constants.** -/
theorem Reached.ampl_eq {hits : List Hit} (h : Reached c tt s hits s') (i : IntVetoIndex) : s'.ampl i = s.ampl i := by
  obtain ⟨run, -, hrun⟩ := h
  refine foldlM_invariant (I := fun s' => s'.ampl i = s.ampl i) ?_ rfl hrun
  intro s₁ x s₂ hbefore hstep
  rw [step_ampl hstep, hbefore]

end Events

/-- The first counter of the outer layer, read out by the channel 0 of the slot 0 of the crate 0. -/
def oneCounter : VetoTable := VetoTable.ofDocument
  [⟨"crate", [("number", "0")]⟩, ⟨"slot", [("number", "0")]⟩,
    ⟨"channel", [("number", "0"), ("detector", "int_veto"), ("layer", "0"), ("component", "1"), ("readout", "1")]⟩]

/-- The constants of that counter: one photoelectron has an amplitude of 20. -/
def oneCounterState : State where
  thrCalib := ((CalibrationHandler.new "/InnerVeto/sipm_ampl").fillCalib [[0, 0, 1, 1, 20]]).1
  sipmGain := ((CalibrationHandler.new "/InnerVeto/sipm_gain").fillCalib [[0, 0, 1, 1, 50, 0]]).1
  sipmAmpl := ((CalibrationHandler.new "/InnerVeto/sipm_ampl").fillCalib [[0, 0, 1, 1, 20]]).1

/-- A large signal. -/
def largeHit : Fa250Mode1CalibPedSubHit :=
  vetoHit [0, 0, 0, 0, 1500, 1900, 2000, 1800, 1200, 600, 100, 0, 0, 0, 0, 0, 0, 0, 0, 0]

/-- A large spike of one sample. -/
def spikeHit : Fa250Mode1CalibPedSubHit :=
  vetoHit [0, 0, 0, 0, 0, 0, 2000, 0, 0, 0, 0, 0, 0, 0, 0, 0, 0, 0, 0, 0]

end IntVetoSiPMHitFactoryBDXmini

end BdxReco
