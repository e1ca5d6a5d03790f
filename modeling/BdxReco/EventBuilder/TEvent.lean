import BdxReco.BDXmini.TriggerData
import BdxReco.DAQ.CrossCorrelation
import BdxReco.IntVeto.IntVetoHit
import BdxReco.MC.McHits
import BdxReco.System.CalibrationReads

/-!
# `EventBuilder.TEvent` — the events that are written out

`TEvent_factory_BDXmini::evnt` collects what is written for an event. Data and simulation differ in the header and in
the last collections: the waveforms of a data event are kept only if the event looks interesting, and a simulated event
has a weight, which the user data carry. The associations between the framework's objects are left out.

`waveforms_iff` says on which events the waveforms are kept as intended, `weight_iff` on which the weight is.
-/

namespace BdxReco

open CrossCorrelationFactory (CrossCorrelation)

/-! ## What is written -/

structure GenParticle where
  px : ℚ
  py : ℚ
  pz : ℚ
  pid : Int
  vx : ℚ
  vy : ℚ
  vz : ℚ
  deriving DecidableEq, Repr

structure CalorimeterMCRealHit where
  E : ℚ
  channel : CaloIndex
  deriving DecidableEq, Repr

/-- `UserMCData`, the `N`-th number of the user's bank. -/
structure UserMCData where
  data : ℚ
  N : Int
  deriving DecidableEq, Repr

/-- `TEventHeader`, with the values of its constructor. -/
structure TEventHeader where
  triggerWords : List UInt32 := []
  eventFineTime : UInt32 := 0
  runNumber : Int := 0
  eventNumber : Int := 0
  eventTS : Int := 0
  eventTime : Int := 0
  weight : ℚ := 1
  eventType : UInt8 := 0
  deriving DecidableEq, Repr

namespace TEventHeader

/-- `BDXminiEvent`. -/
def bdxminiEvent : UInt8 := 5

def getWeight (h : TEventHeader) : ℚ := h.weight

def setWeight (h : TEventHeader) (w : ℚ) : TEventHeader := { h with weight := w }

end TEventHeader

/-- The classes of which there are collections. -/
inductive CollectionClass where
  | calorimeterHit
  | intVetoHit
  | fa250Mode1CalibPedSubHit
  | genParticle
  | calorimeterMCRealHit
  deriving DecidableEq, Repr

/-- A `TClonesArray`; its name goes by its class. -/
inductive Collection where
  | calorimeterHits (hits : List CalorimeterHit)
  | intVetoHits (hits : List IntVetoHit)
  | fa250Mode1CalibPedSubHits (hits : List Fa250Mode1CalibPedSubHit)
  | genParticles (particles : List GenParticle)
  | calorimeterMCRealHits (hits : List CalorimeterMCRealHit)

def Collection.getClass : Collection → CollectionClass
  | calorimeterHits _ => .calorimeterHit
  | intVetoHits _ => .intVetoHit
  | fa250Mode1CalibPedSubHits _ => .fa250Mode1CalibPedSubHit
  | genParticles _ => .genParticle
  | calorimeterMCRealHits _ => .calorimeterMCRealHit

/-- The objects of an event that are in no collection. -/
inductive EventObject where
  | triggerData (d : TriggerDataBDXmini)
  | crossCorrelation (x : CrossCorrelation ℚ)

structure TEvent where
  eventHeader : TEventHeader := {}
  collections : List Collection := []
  objects : List EventObject := []

namespace TEvent

def hasCollection (e : TEvent) (theClass : CollectionClass) : Bool :=
  e.collections.any (fun coll => coll.getClass = theClass)

/-- `addCollection`: a second one of the same class is refused. -/
def addCollection (e : TEvent) (coll : Collection) : TEvent :=
  if e.hasCollection coll.getClass then e else { e with collections := e.collections ++ [coll] }

def addObject (e : TEvent) (obj : EventObject) : TEvent := { e with objects := e.objects ++ [obj] }

end TEvent

/-! ## `evnt` -/

namespace TEventFactoryBDXmini

/-- The members of the factory: the parameters, with the defaults of the constructor. -/
structure Parms where
  isMC : Bool := false
  mcRunNumber : Int := 0
  addTriggerWords : Bool := true
  thrNpheVeto : Int := 5
  thrEneTot : ℚ := 100
  thrCrosscorrSinCaloMin : ℚ := 3500
  thrCrosscorrSinCaloMax : ℚ := 5500
  thrCrosscorrSignCaloMin : ℚ := 11600
  thrCrosscorrSignCaloMax : ℚ := 12600

/-- What the framework has for an event; `none` when `GetSingle` does not find its object. -/
structure Inputs where
  tData : Option EventData := none
  bdxtData : Option TriggerDataBDXmini := none
  crosscorrelations : Option (CrossCorrelation ℚ) := none
  chits : List CalorimeterHit := []
  ivhits : List IntVetoHit := []
  fa250Hits : List Fa250Mode1CalibPedSubHit := []
  genParticles : List GenParticle := []
  chitsMCReal : List CalorimeterMCRealHit := []
  userMCdata : List UserMCData := []

/-- A number stored in an `int`. -/
def toInt (n : Nat) : Int := (n : Int).bmod (2 ^ 32)

/-- The header of a data event. -/
def dataHeader (p : Parms) (tData : EventData) : TEventHeader where
  eventType := TEventHeader.bdxminiEvent
  runNumber := toInt tData.runN.toNat
  eventNumber := toInt tData.eventN
  eventTS := toInt tData.eventTS
  eventTime := toInt tData.time
  triggerWords := if p.addTriggerWords then tData.triggerWords else []
  eventFineTime := 0
  weight := 1

/-- The header of a simulated event. -/
def mcHeader (p : Parms) (eventnumber : Nat) : TEventHeader where
  eventType := TEventHeader.bdxminiEvent
  eventNumber := toInt eventnumber
  eventTime := 0
  eventFineTime := 0
  runNumber := p.mcRunNumber

/-- `saveWaveforms_Etot`, after the loop over the hits. -/
def saveWaveformsEtot (chits : List CalorimeterHit) : ℚ := chits.foldl (fun Etot hit => Etot + hit.E) 0

/-- "ignore OV3, broken". -/
def Ignored (hit : IntVetoHit) : Prop := hit.channel.sector = 0 ∧ hit.channel.component = 3

instance : DecidablePred Ignored := fun _ => inferInstanceAs (Decidable (_ ∧ _))

/-- `saveWaveforms_flagVeto`, after the loop over the hits. -/
def saveWaveformsFlagVeto (thrNpheVeto : Int) (ivhits : List IntVetoHit) : Bool :=
  ivhits.foldl (fun flagVeto hit =>
    if Ignored hit then flagVeto
    else if hit.Q > thrNpheVeto then false
    else flagVeto) true

/-- The first band, of the correlation with the sine. A comparison with what is not a number is false. -/
def InSinBand (p : Parms) (x : CrossCorrelation ℚ) : Prop :=
  x.crossCorrSineCalo > p.thrCrosscorrSinCaloMin ∧ x.crossCorrSineCalo < p.thrCrosscorrSinCaloMax ∧
    x.crossCorrSignalCalo ≠ ⊥ ∧ x.crossCorrSignalCalo < (p.thrCrosscorrSignCaloMax : WithBot ℚ)

/-- The second band, of the correlation with the signal. -/
def InSignBand (p : Parms) (x : CrossCorrelation ℚ) : Prop :=
  x.crossCorrSignalCalo > (p.thrCrosscorrSignCaloMin : WithBot ℚ) ∧
    x.crossCorrSignalCalo < (p.thrCrosscorrSignCaloMax : WithBot ℚ) ∧
    x.crossCorrSineCalo < p.thrCrosscorrSinCaloMax

instance (p : Parms) : DecidablePred (InSinBand p) := fun _ => inferInstanceAs (Decidable (_ ∧ _))
instance (p : Parms) : DecidablePred (InSignBand p) := fun _ => inferInstanceAs (Decidable (_ ∧ _))

/-- `saveWaveforms_Crosscorr`. -/
def saveWaveformsCrosscorr (p : Parms) (x : CrossCorrelation ℚ) : Bool :=
  let save := false
  let save := if InSinBand p x then true else save
  if InSignBand p x then true else save

/-- The collections that every event has. -/
def addHits (ev : Inputs) (e : TEvent) : TEvent :=
  (e.addCollection (.calorimeterHits ev.chits)).addCollection (.intVetoHits ev.ivhits)

/-- The end of `evnt`, for data. -/
def addWaveforms (p : Parms) (ev : Inputs) (x : CrossCorrelation ℚ) (e : TEvent) : TEvent :=
  let flagCalo := decide (saveWaveformsEtot ev.chits > p.thrEneTot)
  let flagVeto := saveWaveformsFlagVeto p.thrNpheVeto ev.ivhits
  if (flagVeto && flagCalo) || saveWaveformsCrosscorr p x then
    e.addCollection (.fa250Mode1CalibPedSubHits ev.fa250Hits)
  else e

/-- `setWeight(userMCdata[ii]->data)`, where 0 becomes 1. -/
def setWeightFrom (h : TEventHeader) (u : UserMCData) : TEventHeader :=
  let h := h.setWeight u.data
  if h.getWeight = 0 then h.setWeight 1 else h

/-- The body of the loop over the user data. In case of LUND the weight is the tenth number, else there is a single
    one. -/
def readUserMCData (h : TEventHeader) (u : UserMCData) : TEventHeader :=
  let h := if u.N = 1 then setWeightFrom h u else h
  if u.N = 10 then setWeightFrom h u else h

/-- The end of `evnt`, for simulation. -/
def addMC (ev : Inputs) (e : TEvent) : TEvent :=
  let e := e.addCollection (.genParticles ev.genParticles)
  let e := e.addCollection (.calorimeterMCRealHits ev.chitsMCReal)
  { e with eventHeader := ev.userMCdata.foldl readUserMCData e.eventHeader }

/-- `evnt`: what it returns, and what it publishes. -/
def evnt (p : Parms) (eventnumber : Nat) (ev : Inputs) : JError × List TEvent :=
  if p.isMC then
    (.noError, [addMC ev (addHits ev { eventHeader := mcHeader p eventnumber })])
  else
    match ev.tData, ev.bdxtData, ev.crosscorrelations with
    | some tData, some bdxtData, some x =>
      let e : TEvent := { eventHeader := dataHeader p tData }
      let e := (e.addObject (.triggerData bdxtData)).addObject (.crossCorrelation x)
      (.noError, [addWaveforms p ev x (addHits ev e)])
    | _, _, _ => (.objectNotAvailable, [])

/-! ## The flags -/

theorem saveWaveformsEtot_eq (chits : List CalorimeterHit) :
    saveWaveformsEtot chits = (chits.map CalorimeterHit.E).sum := by
  have hloop : ∀ Etot : ℚ, chits.foldl (fun Etot hit => Etot + hit.E) Etot = Etot + (chits.map CalorimeterHit.E).sum := by
    induction chits with
    | nil =>
        intro Etot
        simp
    | cons hit chits ih =>
        intro Etot
        rw [List.foldl_cons, ih, List.map_cons, List.sum_cons, add_assoc]
  unfold saveWaveformsEtot
  rw [hloop, zero_add]

theorem saveWaveformsFlagVeto_iff (thr : Int) (ivhits : List IntVetoHit) :
    saveWaveformsFlagVeto thr ivhits = true ↔ ∀ hit ∈ ivhits, ¬ Ignored hit → hit.Q ≤ thr := by
  have hloop : ∀ flagVeto : Bool, ivhits.foldl (fun flagVeto hit =>
      if Ignored hit then flagVeto else if hit.Q > thr then false else flagVeto) flagVeto = true ↔
        flagVeto = true ∧ ∀ hit ∈ ivhits, ¬ Ignored hit → hit.Q ≤ thr := by
    induction ivhits with
    | nil => simp
    | cons hit ivhits ih =>
        intro flagVeto
        rw [List.foldl_cons, ih, List.forall_mem_cons]
        by_cases hignored : Ignored hit
        · simp [hignored]
        · by_cases hloud : hit.Q > thr
          · simp [hignored, hloud]
          · simp [hignored, not_lt.mp hloud]
  unfold saveWaveformsFlagVeto
  rw [hloop]
  simp

theorem saveWaveformsCrosscorr_iff (p : Parms) (x : CrossCorrelation ℚ) :
    saveWaveformsCrosscorr p x = true ↔ InSinBand p x ∨ InSignBand p x := by
  unfold saveWaveformsCrosscorr
  by_cases hsign : InSignBand p x
  · simp [hsign]
  · simp [hsign]

/-! ## The waveforms of a data event -/

/-- The banks that a data event needs. -/
def AllBanks (ev : Inputs) : Prop :=
  ev.tData.isSome = true ∧ ev.bdxtData.isSome = true ∧ ev.crosscorrelations.isSome = true

def OutsideBands (p : Parms) (ev : Inputs) : Prop :=
  ∀ x, ev.crosscorrelations = some x → ¬ InSinBand p x ∧ ¬ InSignBand p x

/-- The event is published with its waveforms. -/
def WaveformsSaved (p : Parms) (eventnumber : Nat) (ev : Inputs) : Prop :=
  ∃ e, evnt p eventnumber ev = (.noError, [e]) ∧ .fa250Mode1CalibPedSubHits ev.fa250Hits ∈ e.collections

/-- The hits of the outer veto counter that is broken; layer 0 is the outer veto. -/
def IsOV3 (hit : IntVetoHit) : Prop := hit.channel.layer = 0 ∧ hit.channel.component = 3

instance : DecidablePred IsOV3 := fun _ => inferInstanceAs (Decidable (_ ∧ _))

/-- What the waveforms are kept for: energy in the calorimeter, and none of the good counters fires. -/
def WaveformsWanted (p : Parms) (ev : Inputs) : Prop :=
  p.thrEneTot < (ev.chits.map CalorimeterHit.E).sum ∧ ∀ hit ∈ ev.ivhits, ¬ IsOV3 hit → hit.Q ≤ p.thrNpheVeto

/-- The hits of the counters that fire. -/
def fired (p : Parms) (ev : Inputs) : List IntVetoHit := ev.ivhits.filter (fun hit => p.thrNpheVeto < hit.Q)

theorem addHits_collections {e : TEvent} (h : e.collections = []) (ev : Inputs) :
    (addHits ev e).collections = [.calorimeterHits ev.chits, .intVetoHits ev.ivhits] := by
  simp [addHits, TEvent.addCollection, TEvent.hasCollection, h, Collection.getClass]

/-- The waveforms are written when the flags say so. -/
theorem mem_addWaveforms {e : TEvent} (h : e.collections = []) (p : Parms) (ev : Inputs) (x : CrossCorrelation ℚ) :
    .fa250Mode1CalibPedSubHits ev.fa250Hits ∈ (addWaveforms p ev x (addHits ev e)).collections ↔
      ((saveWaveformsFlagVeto p.thrNpheVeto ev.ivhits && decide (saveWaveformsEtot ev.chits > p.thrEneTot)) ||
        saveWaveformsCrosscorr p x) = true := by
  have hcollections := addHits_collections h ev
  unfold addWaveforms
  dsimp only
  generalize (saveWaveformsFlagVeto p.thrNpheVeto ev.ivhits && decide (saveWaveformsEtot ev.chits > p.thrEneTot) ||
    saveWaveformsCrosscorr p x) = flags
  cases flags with
  | false => simp [hcollections]
  | true => simp [TEvent.addCollection, TEvent.hasCollection, hcollections, Collection.getClass]

/-- No other counter fires: every one that does is excused. -/
theorem quiet_iff (p : Parms) (ev : Inputs) (excused : IntVetoHit → Prop) :
    (∀ hit ∈ ev.ivhits, ¬ excused hit → hit.Q ≤ p.thrNpheVeto) ↔ ∀ hit ∈ fired p ev, excused hit := by
  unfold fired
  simp only [List.mem_filter, decide_eq_true_eq, and_imp]
  constructor
  · intro h hit hhit hloud
    by_contra hnot
    exact absurd hloud (not_lt.mpr (h hit hhit hnot))
  · intro h hit hhit hnot
    by_contra hloud
    exact hnot (h hit hhit (not_le.mp hloud))

/-- Two properties are shared by all elements of a list or by none of the two by all of them. -/
theorem all_agree_iff {α : Type} (l : List α) (P Q : α → Prop) :
    ((∀ a ∈ l, P a) ↔ ∀ a ∈ l, Q a) ↔
      (∀ a ∈ l, P a ∧ Q a) ∨ ((∃ a ∈ l, ¬ P a) ∧ ∃ a ∈ l, ¬ Q a) := by
  have hboth : (∀ a ∈ l, P a ∧ Q a) ↔ (∀ a ∈ l, P a) ∧ ∀ a ∈ l, Q a :=
    ⟨fun h => ⟨fun a ha => (h a ha).1, fun a ha => (h a ha).2⟩, fun h a ha => ⟨h.1 a ha, h.2 a ha⟩⟩
  have hP : (∃ a ∈ l, ¬ P a) ↔ ¬ ∀ a ∈ l, P a := by
    simp only [not_forall, exists_prop]
  have hQ : (∃ a ∈ l, ¬ Q a) ↔ ¬ ∀ a ∈ l, Q a := by
    simp only [not_forall, exists_prop]
  rw [hboth, hP, hQ]
  tauto

section Data

variable {p : Parms} {ev : Inputs} (hMC : p.isMC = false) (hbanks : AllBanks ev) (hout : OutsideBands p ev)
include hMC hbanks hout

/-- **When the waveforms are kept**, outside the bands. -/
theorem waveformsSaved_iff (eventnumber : Nat) :
    WaveformsSaved p eventnumber ev ↔
      p.thrEneTot < (ev.chits.map CalorimeterHit.E).sum ∧
        ∀ hit ∈ ev.ivhits, ¬ Ignored hit → hit.Q ≤ p.thrNpheVeto := by
  obtain ⟨htData, hbdxtData, hx⟩ := hbanks
  obtain ⟨tData, htData⟩ := Option.isSome_iff_exists.mp htData
  obtain ⟨bdxtData, hbdxtData⟩ := Option.isSome_iff_exists.mp hbdxtData
  obtain ⟨x, hx⟩ := Option.isSome_iff_exists.mp hx
  have hbands : saveWaveformsCrosscorr p x = false := by
    rw [← Bool.not_eq_true, saveWaveformsCrosscorr_iff, not_or]
    exact hout x hx
  unfold WaveformsSaved evnt
  simp only [hMC, Bool.false_eq_true, if_false, htData, hbdxtData, hx, Prod.mk.injEq, true_and, List.cons.injEq,
    and_true, exists_eq_left']
  rw [mem_addWaveforms rfl, hbands, Bool.or_false, Bool.and_eq_true, saveWaveformsFlagVeto_iff, decide_eq_true_eq,
    saveWaveformsEtot_eq, and_comm]

/-- **The waveforms are kept as intended** exactly when there is too little energy, or every counter that fires is OV3 of
    sector 0, or one that fires is not ignored and one is not OV3. -/
theorem waveforms_iff (eventnumber : Nat) :
    (WaveformsSaved p eventnumber ev ↔ WaveformsWanted p ev) ↔
      (ev.chits.map CalorimeterHit.E).sum ≤ p.thrEneTot ∨
        (∀ hit ∈ fired p ev, Ignored hit ∧ IsOV3 hit) ∨
        ((∃ hit ∈ fired p ev, ¬ Ignored hit) ∧ ∃ hit ∈ fired p ev, ¬ IsOV3 hit) := by
  rw [waveformsSaved_iff hMC hbanks hout, WaveformsWanted, quiet_iff p ev Ignored, quiet_iff p ev IsOV3]
  by_cases henergy : p.thrEneTot < (ev.chits.map CalorimeterHit.E).sum
  · simp only [henergy, true_and, not_le.mpr henergy, false_or]
    exact all_agree_iff _ Ignored IsOV3
  · simp only [henergy, false_and, not_lt.mp henergy, true_or, iff_self]

end Data

/-- A shower, and a pulse in the counter with component 3 of the inner veto. -/
def innerFired : Inputs where
  tData := some {}
  bdxtData := some {}
  crosscorrelations := some .zero
  chits := [{ channel := ⟨0, 1, 1, 0⟩, E := 150, T := some 0, Eraw := 150, A := 100, RMSflag := none }]
  ivhits := [{ channel := ⟨0, 1, 3, 0⟩, Q := 20, T := some 0, A := 10, associated := [] }]

theorem innerFired_outside : OutsideBands {} innerFired := by
  intro x hx
  obtain rfl := Option.some.inj hx
  decide

theorem innerFired_saved (eventnumber : Nat) : WaveformsSaved {} eventnumber innerFired := by
  refine (waveformsSaved_iff rfl ⟨rfl, rfl, rfl⟩ innerFired_outside eventnumber).mpr ⟨?_, ?_⟩
  · simp [innerFired]
    norm_num
  · simp [innerFired, Ignored]

theorem waveforms_iff_innerFired : AllBanks innerFired ∧ OutsideBands {} innerFired ∧
    ((WaveformsSaved {} 1 innerFired ↔ WaveformsWanted {} innerFired) ↔
      (innerFired.chits.map CalorimeterHit.E).sum ≤ 100 ∨
        (∀ hit ∈ fired {} innerFired, Ignored hit ∧ IsOV3 hit) ∨
        ((∃ hit ∈ fired {} innerFired, ¬ Ignored hit) ∧ ∃ hit ∈ fired {} innerFired, ¬ IsOV3 hit)) :=
  ⟨⟨rfl, rfl, rfl⟩, innerFired_outside, waveforms_iff rfl ⟨rfl, rfl, rfl⟩ innerFired_outside 1⟩

/-- The pulse is in a good counter, but the waveforms are kept. -/
theorem innerFired_not_wanted : ¬ (WaveformsSaved {} 1 innerFired ↔ WaveformsWanted {} innerFired) := by
  intro h
  obtain ⟨-, hquiet⟩ := h.mp (innerFired_saved 1)
  have hlow := hquiet { channel := ⟨0, 1, 3, 0⟩, Q := 20, T := some 0, A := 10, associated := [] }
    (by simp [innerFired]) (by decide)
  norm_num at hlow

end TEventFactoryBDXmini

end BdxReco
