import BdxReco.Lib.Accumulate
import BdxReco.MC.McHits
import BdxReco.TT.Index
import Mathlib.Algebra.BigOperators.Group.List.Basic
import Mathlib.Algebra.Order.Ring.Rat

/-!
# `ExtVeto.ExtVetoDigiHitMC` — the digi hits of the outer veto, from a simulation

`ExtVetoDigiHit_factory_MC`. A paddle has one sensor, except for one of Catania V2, which has two; the code knows it by
the channel of the simulation, and the elements of the map by the component. `Conserved` says that no charge is lost,
and none is put in another paddle.
-/

namespace BdxReco

/-- What the factory sets of an `ExtVetoDigiHit`, with its associated objects. -/
structure ExtVetoDigiHit where
  channel : ExtVetoIndex
  Q : ℚ
  T : ℚ
  associated : List ExtVetoMCHit
  deriving DecidableEq, Repr

namespace ExtVetoDigiHitFactoryMC

open StdMap

/-! ## The components -/

/-- The cases of a `switch`; the variable is not set before, and the default does not set it. -/
def switch (cases : List (Int × Int)) (channel : Int) : Option Int := cases.lookup channel

def fullV1Cases : List (Int × Int) := [(1, 0), (2, 3), (3, 2), (4, 1), (5, 5), (6, 4)]

def getFullV1Component (channel : Int) : Option Int := switch fullV1Cases channel

def fullV2Cases : List (Int × Int) := [(1, 0), (2, 3), (3, 2), (4, 1), (5, 5), (6, 4)]

def getFullV2Component (channel : Int) : Option Int := switch fullV2Cases channel

def cataniaV1Cases : List (Int × Int) :=
  [(1, 7), (2, 6), (3, 8), (4, 9), (5, 11), (6, 10), (7, 2), (8, 1), (9, 0), (10, 3), (11, 4), (12, 5)]

def getCataniaV1Component (channel : Int) : Option Int := switch cataniaV1Cases channel

/-- There is no channel 2 in the simulation: its case sets nothing. -/
def cataniaV2Cases : List (Int × Int) :=
  [(1, 6), (3, 9), (4, 8), (5, 10), (6, 11), (7, 13), (8, 12), (9, 5), (10, 4), (11, 0), (12, 1), (13, 2), (14, 3)]

def getCataniaV2Component (channel : Int) : Option Int := switch cataniaV2Cases channel

/-- The component of a channel. -/
def getComponent (mc : MCType) (channel : Int) : Option Int :=
  match mc with
  | .cataniaV1 => getCataniaV1Component channel
  | .cataniaV2 => getCataniaV2Component channel
  | .fullV1 => getFullV1Component channel
  | .fullV2 => getFullV2Component channel
  | .jlabFluxV1 | .bdxminiV1 => none

/-- `m_channel`, a member of the factory. For the other types its component stays what it was. -/
def setChannel (mc : MCType) (m_channel : ExtVetoIndex) (hit : ExtVetoMCHit) : Option ExtVetoIndex :=
  match mc with
  | .jlabFluxV1 | .bdxminiV1 => some ⟨Int8.ofInt hit.sector, 0, m_channel.component, 0⟩
  | mc => (getComponent mc hit.channel).map
      (fun component => ⟨Int8.ofInt hit.sector, 0, Int8.ofInt component, 0⟩)

/-! ## The loop -/

/-- A new digi hit. The simulation is in ps. -/
def newDigi (m_channel : ExtVetoIndex) (readout : Int8) (adc tdc : Int) (hit : ExtVetoMCHit) : ExtVetoDigiHit :=
  { channel := { m_channel with readout := readout }, Q := adc, T := tdc / 1000, associated := [hit] }

/-- The digi hits that are created for an element. -/
def createDigis (mc : MCType) (m_channel : ExtVetoIndex) (hit : ExtVetoMCHit) : List ExtVetoDigiHit :=
  match mc with
  | .cataniaV1 | .fullV1 | .fullV2 => [newDigi m_channel 1 hit.adc1 hit.tdc1 hit]
  | .cataniaV2 =>
    if hit.channel = 1 then
      [newDigi m_channel 1 hit.adc1 hit.tdc1 hit, newDigi m_channel 2 hit.adc2 hit.tdc2 hit]
    else [newDigi m_channel 1 hit.adc1 hit.tdc1 hit]
  | .jlabFluxV1 | .bdxminiV1 => []

/-- `Q += adc`. -/
def addCharge (adc : Int) (hit : ExtVetoMCHit) (digi : ExtVetoDigiHit) : ExtVetoDigiHit :=
  { digi with Q := digi.Q + adc, associated := digi.associated ++ [hit] }

/-- The element is already there. `none`: it has no `second[0]`, or no `second[1]`. -/
def updateDigis (mc : MCType) (_ : ExtVetoIndex) (second : List ExtVetoDigiHit) (hit : ExtVetoMCHit) :
    Option (List ExtVetoDigiHit) := do
  let second ← writeAt (addCharge hit.adc1 hit) 0 second
  if mc = .cataniaV2 ∧ hit.channel = 1 then writeAt (addCharge hit.adc2 hit) 1 second else some second

/-- The event. -/
def evnt (mc : MCType) (m_channel : ExtVetoIndex) (hits : List ExtVetoMCHit) : Option (List ExtVetoDigiHit) :=
  (hits.foldlM (feed (setChannel mc m_channel) (createDigis mc) (updateDigis mc)) empty).map values

/-! ## What is wanted of an event -/

/-- A hit belongs to the paddle of a channel. -/
def MappedTo (mc : MCType) (channel : ExtVetoIndex) (hit : ExtVetoMCHit) : Prop :=
  hit.sector = channel.sector.toInt ∧ getComponent mc hit.channel = some channel.component.toInt

instance (mc : MCType) (channel : ExtVetoIndex) (hit : ExtVetoMCHit) : Decidable (MappedTo mc channel hit) :=
  inferInstanceAs (Decidable (_ ∧ _))

/-- The hits of a paddle. -/
def hitsOf (mc : MCType) (hits : List ExtVetoMCHit) (channel : ExtVetoIndex) : List ExtVetoMCHit :=
  hits.filter (MappedTo mc channel)

/-- The sensors of a hit: the second one is there for channel 1 of Catania V2. -/
def HasReadout (mc : MCType) (hit : ExtVetoMCHit) (readout : Int8) : Prop :=
  readout = 1 ∨ (mc = .cataniaV2 ∧ hit.channel = 1 ∧ readout = 2)

/-- The charge of a sensor. -/
def adcOf (readout : Int8) (hit : ExtVetoMCHit) : Int := if readout = 2 then hit.adc2 else hit.adc1

/-- The time of a sensor. -/
def tdcOf (readout : Int8) (hit : ExtVetoMCHit) : Int := if readout = 2 then hit.tdc2 else hit.tdc1

/-- **Charge is conserved, paddle by paddle.** -/
structure Conserved (mc : MCType) (hits : List ExtVetoMCHit) (digis : List ExtVetoDigiHit) : Prop where
  channels : (digis.map ExtVetoDigiHit.channel).Nodup
  published : ∀ channel, (∃ digi ∈ digis, digi.channel = channel) ↔
    channel.layer = 0 ∧ ∃ hit ∈ hits, MappedTo mc channel hit ∧ HasReadout mc hit channel.readout
  charge : ∀ digi ∈ digis, digi.Q = ((hitsOf mc hits digi.channel).map (adcOf digi.channel.readout)).sum
  associated : ∀ digi ∈ digis, digi.associated = hitsOf mc hits digi.channel
  unmerged : ∀ digi ∈ digis, ∀ hit ∈ digi.associated, ∀ hit' ∈ digi.associated, hit.channel = hit'.channel

/-! ## The components of the channels -/

section Components

variable {mc : MCType} {cases : List (Int × Int)} {channel channel' component : Int}

theorem mem_of_switch (h : switch cases channel = some component) : (channel, component) ∈ cases := by
  obtain ⟨before, after, rfl, _⟩ := List.lookup_eq_some_iff.mp h
  exact List.mem_append_right before List.mem_cons_self

/-- Different cases give different components. -/
theorem switch_inj (hcases : (cases.map Prod.snd).Nodup) (h : switch cases channel = some component)
    (h' : switch cases channel' = some component) : channel = channel' :=
  (Prod.mk.inj (List.inj_on_of_nodup_map hcases (mem_of_switch h) (mem_of_switch h') rfl)).1

/-- The cases of a type. -/
theorem getComponent_cases (h : getComponent mc channel = some component) :
    ∃ cases, (cases.map Prod.snd).Nodup ∧ (∀ entry ∈ cases, 0 ≤ entry.2 ∧ entry.2 ≤ 13) ∧
      getComponent mc = switch cases := by
  cases mc with
  | cataniaV1 => exact ⟨cataniaV1Cases, by decide, by decide, rfl⟩
  | cataniaV2 => exact ⟨cataniaV2Cases, by decide, by decide, rfl⟩
  | fullV1 => exact ⟨fullV1Cases, by decide, by decide, rfl⟩
  | fullV2 => exact ⟨fullV2Cases, by decide, by decide, rfl⟩
  | jlabFluxV1 => cases h
  | bdxminiV1 => cases h

theorem getComponent_inj (h : getComponent mc channel = some component)
    (h' : getComponent mc channel' = some component) : channel = channel' := by
  obtain ⟨cases, hnodup, _, heq⟩ := getComponent_cases h
  rw [heq] at h h'
  exact switch_inj hnodup h h'

theorem toInt_getComponent (h : getComponent mc channel = some component) :
    (Int8.ofInt component).toInt = component := by
  obtain ⟨cases, _, hrange, heq⟩ := getComponent_cases h
  rw [heq] at h
  have hmem := hrange _ (mem_of_switch h)
  exact Int8.toInt_ofInt_of_le (by omega) (by omega)

end Components

section Channels

variable {mc : MCType} {m_channel key : ExtVetoIndex} {hit : ExtVetoMCHit}

/-- The element of a hit is its paddle. -/
theorem setChannel_eq_some_iff (hsector : -128 ≤ hit.sector ∧ hit.sector ≤ 127)
    (hlisted : (getComponent mc hit.channel).isSome = true) :
    setChannel mc m_channel hit = some key ↔ key.layer = 0 ∧ key.readout = 0 ∧ MappedTo mc key hit := by
  obtain ⟨component, hcomponent⟩ := Option.isSome_iff_exists.mp hlisted
  have hset : setChannel mc m_channel hit = some ⟨Int8.ofInt hit.sector, 0, Int8.ofInt component, 0⟩ := by
    unfold setChannel
    cases mc with
    | jlabFluxV1 => cases hcomponent
    | bdxminiV1 => cases hcomponent
    | cataniaV1 | cataniaV2 | fullV1 | fullV2 => simp only [hcomponent, Option.map_some]
  have hs : (Int8.ofInt hit.sector).toInt = hit.sector := Int8.toInt_ofInt_of_le (by omega) (by omega)
  have hc : (Int8.ofInt component).toInt = component := toInt_getComponent hcomponent
  unfold MappedTo
  rw [hset, hcomponent]
  constructor
  · intro h
    obtain rfl := Option.some.inj h
    exact ⟨rfl, rfl, hs.symm, congrArg some hc.symm⟩
  · obtain ⟨sector, layer, comp, readout⟩ := key
    rintro ⟨hlayer, hreadout, hsec, hcomp⟩
    have hsec' : Int8.ofInt hit.sector = sector := Int8.toInt_inj.mp (hs.trans hsec)
    have hcomp' : Int8.ofInt component = comp := Int8.toInt_inj.mp (hc.trans (Option.some.inj hcomp))
    obtain rfl : layer = 0 := hlayer
    obtain rfl : readout = 0 := hreadout
    rw [hsec', hcomp']

theorem readout_setChannel (h : setChannel mc m_channel hit = some key) : key.readout = 0 := by
  unfold setChannel at h
  split at h
  · rw [← Option.some.inj h]
  · rw [← Option.some.inj h]
  · obtain ⟨_, _, rfl⟩ := Option.map_eq_some_iff.mp h
    rfl

/-- The second sensor, by its component. -/
theorem component_eq_six_iff (h : setChannel .cataniaV2 m_channel hit = some key) :
    key.component = 6 ↔ hit.channel = 1 := by
  obtain ⟨component, hcomponent, rfl⟩ := Option.map_eq_some_iff.mp h
  have hc : (Int8.ofInt component).toInt = component := toInt_getComponent hcomponent
  constructor
  · intro hsix
    obtain rfl : 6 = component := (congrArg Int8.toInt hsix).symm.trans hc
    exact getComponent_inj hcomponent rfl
  · intro hone
    rw [hone] at hcomponent
    obtain rfl : (6 : Int) = component := Option.some.inj hcomponent
    rfl

end Channels

/-! ## Creating and updating agree -/

/-- The sensors of an element. -/
def sensorsOf (mc : MCType) (key : ExtVetoIndex) : List Int8 :=
  match mc with
  | .cataniaV1 | .fullV1 | .fullV2 => [1]
  | .cataniaV2 => if key.component = 6 then [1, 2] else [1]
  | .jlabFluxV1 | .bdxminiV1 => []

/-- The digi hit of a sensor after some hits. -/
def merged (key : ExtVetoIndex) (readout : Int8) (hits : List ExtVetoMCHit) : ExtVetoDigiHit :=
  { channel := { key with readout := readout }
    Q := ((hits.map (adcOf readout)).sum : Int)
    T := ((hits.head?.map (tdcOf readout)).getD 0 : Int) / 1000
    associated := hits }

theorem newDigi_eq (key : ExtVetoIndex) (readout : Int8) (hit : ExtVetoMCHit) :
    newDigi key readout (adcOf readout hit) (tdcOf readout hit) hit = merged key readout [hit] := by
  simp [newDigi, merged]

theorem addCharge_merged {hits : List ExtVetoMCHit} (hne : hits ≠ []) (key : ExtVetoIndex) (readout : Int8)
    (hit : ExtVetoMCHit) :
    addCharge (adcOf readout hit) hit (merged key readout hits) = merged key readout (hits ++ [hit]) := by
  obtain ⟨first, rest, rfl⟩ := List.exists_cons_of_ne_nil hne
  simp [addCharge, merged, add_assoc]

theorem agree (mc : MCType) (m_channel : ExtVetoIndex) :
    Agree (setChannel mc m_channel) (createDigis mc) (updateDigis mc) (sensorsOf mc) merged where
  created := by
    intro hit key hkey
    have hone : newDigi key 1 hit.adc1 hit.tdc1 hit = merged key 1 [hit] := newDigi_eq key 1 hit
    have htwo : newDigi key 2 hit.adc2 hit.tdc2 hit = merged key 2 [hit] := newDigi_eq key 2 hit
    cases mc with
    | cataniaV1 | fullV1 | fullV2 => exact congrArg (fun digi => [digi]) hone
    | cataniaV2 =>
        unfold createDigis sensorsOf
        simp only [hone, htwo, component_eq_six_iff hkey]
        by_cases hchannel : hit.channel = 1
        · rw [if_pos hchannel, if_pos hchannel]
          rfl
        · rw [if_neg hchannel, if_neg hchannel]
          rfl
    | jlabFluxV1 | bdxminiV1 => rfl
  updated := by
    intro hit key hits hkey hne _ hsensors
    have hone : addCharge hit.adc1 hit (merged key 1 hits) = merged key 1 (hits ++ [hit]) :=
      addCharge_merged hne key 1 hit
    have htwo : addCharge hit.adc2 hit (merged key 2 hits) = merged key 2 (hits ++ [hit]) :=
      addCharge_merged hne key 2 hit
    cases mc with
    | cataniaV1 | fullV1 | fullV2 => simp [updateDigis, sensorsOf, writeAt, hone]
    | cataniaV2 =>
        by_cases hchannel : hit.channel = 1
        · have hsix := (component_eq_six_iff hkey).mpr hchannel
          simp [updateDigis, sensorsOf, writeAt, hchannel, hsix, hone, htwo]
        · have hsix : ¬ key.component = 6 := fun hc => hchannel ((component_eq_six_iff hkey).mp hc)
          simp [updateDigis, sensorsOf, writeAt, hchannel, hsix, hone]
    | jlabFluxV1 | bdxminiV1 => exact absurd rfl hsensors

/-! ## What an event publishes -/

section Event

variable {mc : MCType} {m_channel : ExtVetoIndex} {hits : List ExtVetoMCHit}

/-- The names of the sensors are different. -/
theorem nodup_sensorsOf (mc : MCType) (key : ExtVetoIndex) : (sensorsOf mc key).Nodup := by
  unfold sensorsOf
  split
  · decide
  · decide
  · decide
  · split <;> decide
  · decide
  · decide

theorem hasReadout_iff {key : ExtVetoIndex} {hit : ExtVetoMCHit} {readout : Int8}
    (hlisted : (getComponent mc hit.channel).isSome = true) (hkey : setChannel mc m_channel hit = some key) :
    readout ∈ sensorsOf mc key ↔ HasReadout mc hit readout := by
  unfold sensorsOf HasReadout
  cases mc with
  | cataniaV1 | fullV1 | fullV2 => simp
  | cataniaV2 =>
      simp only [component_eq_six_iff hkey]
      by_cases hchannel : hit.channel = 1
      · simp [hchannel]
      · simp [hchannel]
  | jlabFluxV1 | bdxminiV1 => cases hlisted

/-- The hits of an element are the hits of its paddle. -/
theorem having_eq (hsector : ∀ hit ∈ hits, -128 ≤ hit.sector ∧ hit.sector ≤ 127)
    (hlisted : ∀ hit ∈ hits, (getComponent mc hit.channel).isSome = true) {key : ExtVetoIndex} (hlayer : key.layer = 0)
    (hreadout : key.readout = 0) (readout : Int8) :
    having (setChannel mc m_channel) hits key = hitsOf mc hits { key with readout := readout } := by
  unfold having hitsOf
  refine List.filter_congr ?_
  intro hit hhit
  refine decide_eq_decide.mpr ?_
  rw [setChannel_eq_some_iff (hsector hit hhit) (hlisted hit hhit)]
  exact ⟨fun h => h.2.2, fun h => ⟨hlayer, hreadout, h⟩⟩

theorem isSome_setChannel {hit : ExtVetoMCHit} (hlisted : (getComponent mc hit.channel).isSome = true) :
    (setChannel mc m_channel hit).isSome = true := by
  unfold setChannel
  split
  · rfl
  · rfl
  · rw [Option.isSome_map]
    exact hlisted

/-- The hits of a paddle have one channel. -/
theorem channel_of_hitsOf {channel : ExtVetoIndex} {hit hit' : ExtVetoMCHit} (hhit : hit ∈ hitsOf mc hits channel)
    (hhit' : hit' ∈ hitsOf mc hits channel) : hit.channel = hit'.channel := by
  have hmapped := of_decide_eq_true (List.mem_filter.mp hhit).2
  have hmapped' := of_decide_eq_true (List.mem_filter.mp hhit').2
  exact getComponent_inj hmapped.2 hmapped'.2

variable {keys : List ExtVetoIndex} {digis : List ExtVetoDigiHit}

/-- The event, element by element. -/
def Published (mc : MCType) (m_channel : ExtVetoIndex) (hits : List ExtVetoMCHit) (keys : List ExtVetoIndex)
    (digis : List ExtVetoDigiHit) : Prop :=
  Accumulated (setChannel mc m_channel) (sensorsOf mc) merged hits keys digis

theorem Published.channels (h : Published mc m_channel hits keys digis) :
    (digis.map ExtVetoDigiHit.channel).Nodup := by
  refine Accumulated.nodup_map h _ (fun key readout => { key with readout := readout }) (fun _ _ _ => rfl) ?_ ?_
  · intro key
    refine (nodup_sensorsOf mc key).map ?_
    intro readout readout' heq
    exact congrArg ExtVetoIndex.readout heq
  · intro key key' readout readout' hne hne' _ _ heq
    obtain ⟨hit, _, hk⟩ := having_ne_nil.mp hne
    obtain ⟨hit', _, hk'⟩ := having_ne_nil.mp hne'
    have hreadout : key.readout = key'.readout := (readout_setChannel hk).trans (readout_setChannel hk').symm
    -- the names are the keys but for the readout
    obtain ⟨sector, layer, component, _⟩ := key
    obtain ⟨sector', layer', component', _⟩ := key'
    simp only [ExtVetoIndex.mk.injEq] at heq ⊢
    exact ⟨heq.1, heq.2.1, heq.2.2.1, hreadout⟩

section Listed

variable (hsector : ∀ hit ∈ hits, -128 ≤ hit.sector ∧ hit.sector ≤ 127)
  (hlisted : ∀ hit ∈ hits, (getComponent mc hit.channel).isSome = true)

include hsector hlisted

/-- There is a digi hit for every sensor of a paddle with hits. -/
theorem Published.published (h : Published mc m_channel hits keys digis) (channel : ExtVetoIndex) :
    (∃ digi ∈ digis, digi.channel = channel) ↔
      channel.layer = 0 ∧ ∃ hit ∈ hits, MappedTo mc channel hit ∧ HasReadout mc hit channel.readout := by
  constructor
  · rintro ⟨digi, hmem, rfl⟩
    obtain ⟨key, hne, readout, hsensor, rfl⟩ := (Accumulated.mem_out h).mp hmem
    obtain ⟨hit, hhit, hk⟩ := having_ne_nil.mp hne
    obtain ⟨hlayer, _, hmapped⟩ := (setChannel_eq_some_iff (hsector hit hhit) (hlisted hit hhit)).mp hk
    exact ⟨hlayer, hit, hhit, hmapped, (hasReadout_iff (hlisted hit hhit) hk).mp hsensor⟩
  · rintro ⟨hlayer, hit, hhit, hmapped, hreadout⟩
    have hk : setChannel mc m_channel hit = some { channel with readout := 0 } :=
      (setChannel_eq_some_iff (hsector hit hhit) (hlisted hit hhit)).mpr ⟨hlayer, rfl, hmapped⟩
    refine ⟨merged { channel with readout := 0 } channel.readout _,
      (Accumulated.mem_out h).mpr ⟨_, ?_, _, ?_, rfl⟩, rfl⟩
    · exact having_ne_nil.mpr ⟨hit, hhit, hk⟩
    · exact (hasReadout_iff (hlisted hit hhit) hk).mpr hreadout

/-- A digi hit is that of the hits of its paddle. -/
theorem Published.digi_eq (h : Published mc m_channel hits keys digis) {digi : ExtVetoDigiHit} (hmem : digi ∈ digis) :
    digi = merged digi.channel digi.channel.readout (hitsOf mc hits digi.channel) := by
  obtain ⟨key, hne, readout, _, rfl⟩ := (Accumulated.mem_out h).mp hmem
  obtain ⟨hit, hhit, hk⟩ := having_ne_nil.mp hne
  obtain ⟨hlayer, hreadout, _⟩ := (setChannel_eq_some_iff (hsector hit hhit) (hlisted hit hhit)).mp hk
  rw [having_eq hsector hlisted hlayer hreadout readout]
  rfl

end Listed

end Event

/-- **The charge of the outer veto is conserved, paddle by paddle**, whatever the factory had in `m_channel`. -/
theorem charge_conserved_outer (mc : MCType) (m_channel : ExtVetoIndex) (hits : List ExtVetoMCHit)
    (hsector : ∀ hit ∈ hits, -128 ≤ hit.sector ∧ hit.sector ≤ 127)
    (hlisted : ∀ hit ∈ hits, (getComponent mc hit.channel).isSome = true) :
    ∃ digis, evnt mc m_channel hits = some digis ∧ Conserved mc hits digis := by
  obtain ⟨keys, digis, hrun, hout⟩ :=
    accumulate (agree mc m_channel) (fun hit hhit => isSome_setChannel (hlisted hit hhit))
  have hpub : Published mc m_channel hits keys digis := hout
  have hdigi : ∀ digi ∈ digis, digi = merged digi.channel digi.channel.readout (hitsOf mc hits digi.channel) :=
    fun digi hmem => hpub.digi_eq hsector hlisted hmem
  refine ⟨digis, hrun, hpub.channels, hpub.published hsector hlisted, ?_, ?_, ?_⟩
  · intro digi hmem
    exact congrArg ExtVetoDigiHit.Q (hdigi digi hmem)
  · intro digi hmem
    exact congrArg ExtVetoDigiHit.associated (hdigi digi hmem)
  · intro digi hmem hit hhit hit' hhit'
    have hassociated := congrArg ExtVetoDigiHit.associated (hdigi digi hmem)
    rw [hassociated] at hhit hhit'
    exact channel_of_hitsOf hhit hhit'

/-- Two hits in the paddle with two sensors, and one in another in between. -/
theorem charge_conserved_two_sensors :
    ∃ digis, evnt .cataniaV2 ⟨0, 0, 0, 0⟩ [⟨0, 1, 2, 10, 0, 20, 0, 0, 0, 0, 0, 1⟩, ⟨0, 3, 2, 30, 0, 40, 0, 0, 0, 0, 0, 1⟩,
        ⟨0, 1, 2, 50, 0, 60, 0, 0, 0, 0, 0, 1⟩] = some digis ∧
      Conserved .cataniaV2 [⟨0, 1, 2, 10, 0, 20, 0, 0, 0, 0, 0, 1⟩, ⟨0, 3, 2, 30, 0, 40, 0, 0, 0, 0, 0, 1⟩,
        ⟨0, 1, 2, 50, 0, 60, 0, 0, 0, 0, 0, 1⟩] digis :=
  charge_conserved_outer _ _ _ (by decide) (by decide)

end ExtVetoDigiHitFactoryMC

end BdxReco
