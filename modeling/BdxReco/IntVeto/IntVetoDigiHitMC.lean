import BdxReco.IntVeto.IntVetoHit
import BdxReco.Lib.Accumulate
import BdxReco.MC.McHits
import Mathlib.Algebra.BigOperators.Group.List.Basic
import Mathlib.Tactic.IntervalCases

/-!
# `IntVeto.IntVetoDigiHitMC` — the digi hits of the inner veto, from a simulation

`IntVetoDigiHit_factory_MC`. A plate has one, four or eight sensors, and the simulation numbers their charges in its own
way: which `adc` belongs to which sensor is written down twice in the source, where the digi hits of a plate are created
and where the charges of a later hit are added. `Conserved` names the field once (`fieldOf`), and
`charge_conserved_inner` proves that both places take it.
-/

namespace BdxReco

namespace IntVetoDigiHitFactoryMC

open StdMap

/-- What the factory sets of an `IntVetoDigiHit`, with its associated objects. -/
structure DigiHit extends IntVetoDigiHit where
  Araw : ℚ
  RMSflag : Bool
  associated : List IntVetoMCHit
  deriving DecidableEq, Repr

/-! ## The components -/

/-- The cases of a `switch`, for a component that is -1 before. -/
def switch (cases : List (Int × Int)) (MCchannel : Int) : Int := (cases.lookup MCchannel).getD (-1)

def getCataniaV1Component (MCchannel : Int) : Int := switch [(1, 0), (2, 3), (3, 4), (4, 5), (5, 2), (6, 1)] MCchannel

/-- Right and left are exchanged: in the prototype they are seen from the side of the amplifiers. -/
def getCataniaV2Component (MCchannel : Int) : Int := switch [(1, 0), (2, 3), (3, 4), (4, 5), (5, 1), (6, 2)] MCchannel

def getFullV1Component (MCchannel : Int) : Int := switch [(1, 0), (2, 3), (3, 4), (4, 5), (5, 2), (6, 1)] MCchannel

def getFullV2Component (MCchannel : Int) : Int := switch [(1, 0), (2, 3), (3, 4), (4, 5), (5, 2), (6, 1)] MCchannel

def getJLabFluxV1Component (MCchannel : Int) : Int := MCchannel

def getBDXminiV1Component (MCchannel : Int) : Int :=
  if MCchannel = 9 then 10
  else if MCchannel = 10 then 9
  else if MCchannel = 1 then 1
  else -1

/-- `m_channel`, the plate of a hit. -/
def setChannel (mc : MCType) (hit : IntVetoMCHit) : IntVetoIndex :=
  let component := match mc with
    | .cataniaV1 => getCataniaV1Component hit.channel
    | .cataniaV2 => getCataniaV2Component hit.channel
    | .fullV1 => getFullV1Component hit.channel
    | .fullV2 => getFullV2Component hit.channel
    | .jlabFluxV1 => getJLabFluxV1Component hit.channel
    | .bdxminiV1 => getBDXminiV1Component hit.channel
  -- the outer veto is system 7, the inner one system 8
  let layer := if mc = .bdxminiV1 ∧ hit.system = 8 then 1 else 0
  { sector := Int8.ofInt hit.sector, layer := layer, component := Int8.ofInt component, readout := 0 }

/-! ## The loop -/

/-- A new digi hit. The simulation is in ps. -/
def newDigi (channel : IntVetoIndex) (adc tdc : Int) (hit : IntVetoMCHit) : DigiHit :=
  { channel := channel, Qphe := adc, T := tdc / 1000, Araw := 0, Aphe := adc, RMSflag := true, associated := [hit] }

/-- A sensor of the plate. -/
def sensor (m_channel : IntVetoIndex) (readout : Int8) : IntVetoIndex := { m_channel with readout := readout }

/-- A side of the cylinder of BDXmini. -/
def side (m_channel : IntVetoIndex) (component : Int8) : IntVetoIndex := { m_channel with component := component }

/-- The digi hits that are created for a plate. -/
def createDigis (mc : MCType) (m_channel : IntVetoIndex) (hit : IntVetoMCHit) : List DigiHit :=
  match mc with
  | .jlabFluxV1 => [newDigi (sensor m_channel 1) hit.adc1 hit.tdc1 hit]
  | .bdxminiV1 =>
    if m_channel.component = 9 ∨ m_channel.component = 10 then [newDigi m_channel hit.adc1 hit.tdc1 hit]
    else if m_channel.component = 1 then
      [newDigi (side m_channel 1) hit.adc1 hit.tdc1 hit, newDigi (side m_channel 2) hit.adc2 hit.tdc2 hit,
        newDigi (side m_channel 3) hit.adc3 hit.tdc3 hit, newDigi (side m_channel 4) hit.adc4 hit.tdc4 hit,
        newDigi (side m_channel 5) hit.adc5 hit.tdc5 hit, newDigi (side m_channel 6) hit.adc6 hit.tdc6 hit,
        newDigi (side m_channel 7) hit.adc7 hit.tdc7 hit, newDigi (side m_channel 8) hit.adc8 hit.tdc8 hit]
    else []
  | mc =>
    if m_channel.component = 0 then
      [newDigi (sensor m_channel 1) hit.adc1 hit.tdc1 hit, newDigi (sensor m_channel 2) hit.adc2 hit.tdc2 hit,
        newDigi (sensor m_channel 3) hit.adc3 hit.tdc3 hit, newDigi (sensor m_channel 4) hit.adc4 hit.tdc4 hit]
    else if m_channel.component = 1 ∨ m_channel.component = 2 then
      [newDigi (sensor m_channel 1) hit.adc4 hit.tdc4 hit, newDigi (sensor m_channel 2) hit.adc3 hit.tdc3 hit,
        newDigi (sensor m_channel 3) hit.adc2 hit.tdc2 hit, newDigi (sensor m_channel 4) hit.adc1 hit.tdc1 hit]
    else if m_channel.component = 3 then
      if mc = .cataniaV1 then
        [newDigi (sensor m_channel 1) hit.adc1 hit.tdc1 hit, newDigi (sensor m_channel 2) hit.adc4 hit.tdc4 hit,
          newDigi (sensor m_channel 3) hit.adc3 hit.tdc3 hit, newDigi (sensor m_channel 4) hit.adc2 hit.tdc2 hit]
      else
        [newDigi (sensor m_channel 1) hit.adc1 hit.tdc1 hit, newDigi (sensor m_channel 2) hit.adc2 hit.tdc2 hit,
          newDigi (sensor m_channel 3) hit.adc3 hit.tdc3 hit, newDigi (sensor m_channel 4) hit.adc4 hit.tdc4 hit]
    else if m_channel.component = 4 ∨ m_channel.component = 5 then
      [newDigi (sensor m_channel 1) hit.adc1 hit.tdc1 hit]
    else []

/-- `Qphe += adc`, and the same for `Aphe`. -/
def addCharge (adc : Int) (hit : IntVetoMCHit) (digi : DigiHit) : DigiHit :=
  { digi with Qphe := digi.Qphe + adc, Aphe := digi.Aphe + adc, associated := digi.associated ++ [hit] }

/-- The charges of a hit, added to `second[0]`, `second[1]` and so on. `none`: the vector is too short. -/
def addCharges (hit : IntVetoMCHit) : List Int → List DigiHit → Option (List DigiHit)
  | [], second => some second
  | _ :: _, [] => none
  | adc :: adcs, digi :: second => (addCharges hit adcs second).map (fun second => addCharge adc hit digi :: second)

/-- The digi hits of the plate are already there. -/
def updateDigis (mc : MCType) (m_channel : IntVetoIndex) (second : List DigiHit) (hit : IntVetoMCHit) :
    Option (List DigiHit) :=
  match mc with
  | .jlabFluxV1 => addCharges hit [hit.adc1] second
  | .bdxminiV1 =>
    if m_channel.component = 9 ∨ m_channel.component = 10 then addCharges hit [hit.adc1] second
    else if m_channel.component = 1 then
      addCharges hit [hit.adc1, hit.adc2, hit.adc3, hit.adc4, hit.adc5, hit.adc6, hit.adc7, hit.adc8] second
    else some second
  | mc =>
    if m_channel.component = 0 then addCharges hit [hit.adc1, hit.adc2, hit.adc3, hit.adc4] second
    else if m_channel.component = 1 ∨ m_channel.component = 2 then
      addCharges hit [hit.adc4, hit.adc3, hit.adc2, hit.adc1] second
    else if m_channel.component = 3 then
      if mc = .cataniaV1 then addCharges hit [hit.adc1, hit.adc4, hit.adc3, hit.adc2] second
      else addCharges hit [hit.adc1, hit.adc2, hit.adc3, hit.adc4] second
    else if m_channel.component = 4 ∨ m_channel.component = 5 then addCharges hit [hit.adc1] second
    else some second

/-- The event. -/
def evnt (mc : MCType) (hits : List IntVetoMCHit) : Option (List DigiHit) :=
  (hits.foldlM (feed (fun hit => some (setChannel mc hit)) (createDigis mc) (updateDigis mc)) empty).map values

/-! ## What is wanted of an event -/

/-- The channels of the simulation that have a plate. -/
def Recognised (mc : MCType) (hit : IntVetoMCHit) : Prop :=
  match mc with
  | .jlabFluxV1 => True
  | .bdxminiV1 => hit.channel = 1 ∨ hit.channel = 9 ∨ hit.channel = 10
  | _ => 1 ≤ hit.channel ∧ hit.channel ≤ 6

instance (mc : MCType) : DecidablePred (Recognised mc) := by
  intro hit
  unfold Recognised
  split <;> infer_instance

/-- The sensors of a plate, by their channels. -/
def sensorsOf (mc : MCType) (plate : IntVetoIndex) : List IntVetoIndex :=
  match mc with
  | .jlabFluxV1 => [sensor plate 1]
  | .bdxminiV1 =>
    if plate.component = 9 ∨ plate.component = 10 then [plate]
    else if plate.component = 1 then ([1, 2, 3, 4, 5, 6, 7, 8] : List Int8).map (side plate)
    else []
  | _ =>
    if plate.component = 0 ∨ plate.component = 1 ∨ plate.component = 2 ∨ plate.component = 3 then
      ([1, 2, 3, 4] : List Int8).map (sensor plate)
    else if plate.component = 4 ∨ plate.component = 5 then [sensor plate 1]
    else []

/-- The plate of a sensor. -/
def plateOf (mc : MCType) (channel : IntVetoIndex) : IntVetoIndex :=
  if mc = .bdxminiV1 ∧ channel.component ≠ 9 ∧ channel.component ≠ 10 then { channel with component := 1, readout := 0 }
  else { channel with readout := 0 }

/-- **The number of the `adc` of a sensor.** -/
def fieldOf (mc : MCType) (component readout : Int8) : Nat :=
  match mc with
  | .jlabFluxV1 => 1
  | .bdxminiV1 => if component = 9 ∨ component = 10 then 1 else component.toInt.toNat
  | mc =>
    if component = 1 ∨ component = 2 then 5 - readout.toInt.toNat
    else if component = 3 ∧ mc = .cataniaV1 ∧ readout ≠ 1 then 6 - readout.toInt.toNat
    else readout.toInt.toNat

/-- `adc1` to `adc8`. -/
def adc (hit : IntVetoMCHit) (n : Nat) : Int :=
  [hit.adc1, hit.adc2, hit.adc3, hit.adc4, hit.adc5, hit.adc6, hit.adc7, hit.adc8].getD (n - 1) 0

/-- `tdc1` to `tdc8`. -/
def tdc (hit : IntVetoMCHit) (n : Nat) : Int :=
  [hit.tdc1, hit.tdc2, hit.tdc3, hit.tdc4, hit.tdc5, hit.tdc6, hit.tdc7, hit.tdc8].getD (n - 1) 0

/-- The hits of a plate. -/
def hitsOf (mc : MCType) (hits : List IntVetoMCHit) (plate : IntVetoIndex) : List IntVetoMCHit :=
  hits.filter (fun hit => setChannel mc hit = plate)

/-- **Charge is conserved, sensor by sensor.** -/
structure Conserved (mc : MCType) (hits : List IntVetoMCHit) (digis : List DigiHit) : Prop where
  channels : (digis.map (fun digi => digi.channel)).Nodup
  published : ∀ channel, (∃ digi ∈ digis, digi.channel = channel) ↔
    ∃ hit ∈ hits, Recognised mc hit ∧ channel ∈ sensorsOf mc (setChannel mc hit)
  charge : ∀ digi ∈ digis, digi.Qphe = (((hitsOf mc hits (plateOf mc digi.channel)).map
    (fun hit => adc hit (fieldOf mc digi.channel.component digi.channel.readout))).sum : Int)
  amplitude : ∀ digi ∈ digis, digi.Aphe = digi.Qphe
  associated : ∀ digi ∈ digis, digi.associated = hitsOf mc hits (plateOf mc digi.channel)

/-! ## Creating and updating take the same fields -/

section Agreement

variable {mc : MCType} {plate : IntVetoIndex} {hit : IntVetoMCHit} {hits : List IntVetoMCHit}

/-- The `adc` of a sensor. -/
def adcOf (mc : MCType) (channel : IntVetoIndex) (hit : IntVetoMCHit) : Int :=
  adc hit (fieldOf mc channel.component channel.readout)

/-- The `tdc` of a sensor. -/
def tdcOf (mc : MCType) (channel : IntVetoIndex) (hit : IntVetoMCHit) : Int :=
  tdc hit (fieldOf mc channel.component channel.readout)

/-- The digi hit of a sensor after some hits. -/
def merged (mc : MCType) (channel : IntVetoIndex) (hits : List IntVetoMCHit) : DigiHit :=
  { channel := channel
    Qphe := ((hits.map (adcOf mc channel)).sum : Int)
    T := ((hits.head?.map (tdcOf mc channel)).getD 0 : Int) / 1000
    Araw := 0
    Aphe := ((hits.map (adcOf mc channel)).sum : Int)
    RMSflag := true
    associated := hits }

theorem newDigi_eq (mc : MCType) (channel : IntVetoIndex) (hit : IntVetoMCHit) :
    newDigi channel (adcOf mc channel hit) (tdcOf mc channel hit) hit = merged mc channel [hit] := by
  simp [newDigi, merged]

theorem addCharge_merged (hne : hits ≠ []) (channel : IntVetoIndex) :
    addCharge (adcOf mc channel hit) hit (merged mc channel hits) = merged mc channel (hits ++ [hit]) := by
  obtain ⟨first, rest, rfl⟩ := List.exists_cons_of_ne_nil hne
  simp [addCharge, merged, add_assoc]

theorem addCharges_map (hit : IntVetoMCHit) (charge : IntVetoIndex → Int) (digi : IntVetoIndex → DigiHit)
    (channels : List IntVetoIndex) :
    addCharges hit (channels.map charge) (channels.map digi)
      = some (channels.map (fun channel => addCharge (charge channel) hit (digi channel))) := by
  induction channels with
  | nil => rfl
  | cons channel channels ih =>
      rw [List.map_cons, List.map_cons, addCharges, ih]
      rfl

/-- The plates of a prototype. -/
theorem component_cases (component : Int8) :
    component = 0 ∨ component = 1 ∨ component = 2 ∨ component = 3 ∨ component = 4 ∨ component = 5 ∨
      (component ≠ 0 ∧ component ≠ 1 ∧ component ≠ 2 ∧ component ≠ 3 ∧ component ≠ 4 ∧ component ≠ 5) := by
  grind

/-- **What is created**: the fields of the sensors. -/
theorem createDigis_eq (mc : MCType) (plate : IntVetoIndex) (hit : IntVetoMCHit) :
    createDigis mc plate hit = (sensorsOf mc plate).map
      (fun channel => newDigi channel (adcOf mc channel hit) (tdcOf mc channel hit) hit) := by
  unfold createDigis sensorsOf adcOf tdcOf fieldOf
  cases mc with
  | jlabFluxV1 => rfl
  | bdxminiV1 =>
      by_cases hcap : plate.component = 9 ∨ plate.component = 10
      · simp [hcap, adc, tdc]
      · by_cases hside : plate.component = 1
        · simp [hside, side, adc, tdc]
        · simp [hcap, hside]
  | cataniaV1 | cataniaV2 | fullV1 | fullV2 =>
      rcases component_cases plate.component with h | h | h | h | h | h | h
      · simp [h, sensor, adc, tdc]
      · simp [h, sensor, adc, tdc]
      · simp [h, sensor, adc, tdc]
      · simp [h, sensor, adc, tdc]
      · simp [h, sensor, adc, tdc]
      · simp [h, sensor, adc, tdc]
      · simp [h]

/-- **What is added**: the fields of the sensors. -/
theorem updateDigis_eq (mc : MCType) (plate : IntVetoIndex) (second : List DigiHit) (hit : IntVetoMCHit) :
    updateDigis mc plate second hit
      = addCharges hit ((sensorsOf mc plate).map (fun channel => adcOf mc channel hit)) second := by
  unfold updateDigis sensorsOf adcOf fieldOf
  cases mc with
  | jlabFluxV1 => rfl
  | bdxminiV1 =>
      by_cases hcap : plate.component = 9 ∨ plate.component = 10
      · simp [hcap, adc]
      · by_cases hside : plate.component = 1
        · simp [hside, side, adc]
        · simp [hcap, hside, addCharges]
  | cataniaV1 | cataniaV2 | fullV1 | fullV2 =>
      rcases component_cases plate.component with h | h | h | h | h | h | h
      · simp [h, sensor, adc]
      · simp [h, sensor, adc]
      · simp [h, sensor, adc]
      · simp [h, sensor, adc]
      · simp [h, sensor, adc]
      · simp [h, sensor, adc]
      · simp [h, addCharges]

theorem agree (mc : MCType) :
    Agree (fun hit => some (setChannel mc hit)) (createDigis mc) (updateDigis mc) (sensorsOf mc)
      (fun _ channel hits => merged mc channel hits) where
  created := by
    intro hit plate _
    rw [createDigis_eq]
    exact List.map_congr_left (fun channel _ => newDigi_eq mc channel hit)
  updated := by
    intro hit plate hits _ hne _ _
    rw [updateDigis_eq, addCharges_map]
    exact congrArg some (List.map_congr_left (fun channel _ => addCharge_merged hne channel))

end Agreement

/-! ## The sensors of the plates -/

section Sensors

variable {mc : MCType} {plate channel : IntVetoIndex}

theorem readout_setChannel (mc : MCType) (hit : IntVetoMCHit) : (setChannel mc hit).readout = 0 := rfl

theorem nodup_sensorsOf (mc : MCType) (plate : IntVetoIndex) : (sensorsOf mc plate).Nodup := by
  have hside : ∀ components : List Int8, components.Nodup → (components.map (side plate)).Nodup :=
    fun _ h => h.map (fun _ _ heq => congrArg IntVetoIndex.component heq)
  have hsensor : ∀ readouts : List Int8, readouts.Nodup → (readouts.map (sensor plate)).Nodup :=
    fun _ h => h.map (fun _ _ heq => congrArg IntVetoIndex.readout heq)
  unfold sensorsOf
  split
  · exact List.nodup_singleton _
  · split
    · exact List.nodup_singleton _
    · split
      · exact hside _ (by decide)
      · exact List.nodup_nil
  · split
    · exact hsensor _ (by decide)
    · split
      · exact List.nodup_singleton _
      · exact List.nodup_nil

/-- A sensor belongs to one plate. -/
theorem plateOf_eq (hplate : plate.readout = 0) (h : channel ∈ sensorsOf mc plate) : plateOf mc channel = plate := by
  obtain ⟨sector, layer, component, readout⟩ := plate
  obtain rfl : readout = 0 := hplate
  unfold sensorsOf at h
  cases mc with
  | jlabFluxV1 =>
      rw [List.mem_singleton.mp h]
      rfl
  | bdxminiV1 =>
      dsimp only at h
      split at h
      · next hcap =>
          rw [List.mem_singleton.mp h]
          unfold plateOf
          rw [if_neg (by rintro ⟨_, h9, h10⟩; exact hcap.elim h9 h10)]
      · split at h
        · next hside =>
            obtain ⟨c, hc, rfl⟩ := List.mem_map.mp h
            have hcap : ∀ c ∈ ([1, 2, 3, 4, 5, 6, 7, 8] : List Int8), c ≠ 9 ∧ c ≠ 10 := by decide +kernel
            subst hside
            unfold plateOf
            rw [if_pos ⟨rfl, hcap c hc⟩]
            rfl
        · cases h
  | cataniaV1 | cataniaV2 | fullV1 | fullV2 =>
      dsimp only at h
      split at h
      · obtain ⟨r, _, rfl⟩ := List.mem_map.mp h
        rfl
      · split at h
        · rw [List.mem_singleton.mp h]
          rfl
        · cases h

/-- A hit is recognised if its plate has sensors. -/
theorem recognised_iff (mc : MCType) (hit : IntVetoMCHit) : Recognised mc hit ↔ sensorsOf mc (setChannel mc hit) ≠ [] := by
  cases mc with
  | jlabFluxV1 => simp [Recognised, sensorsOf]
  | bdxminiV1 =>
      by_cases h9 : hit.channel = 9
      · simp [Recognised, sensorsOf, setChannel, getBDXminiV1Component, h9]
      · by_cases h10 : hit.channel = 10
        · simp [Recognised, sensorsOf, setChannel, getBDXminiV1Component, h10]
        · by_cases h1 : hit.channel = 1
          · simp [Recognised, sensorsOf, setChannel, getBDXminiV1Component, h1]
          · simp [Recognised, sensorsOf, setChannel, getBDXminiV1Component, h9, h10, h1]
  | cataniaV1 | cataniaV2 | fullV1 | fullV2 =>
      unfold Recognised sensorsOf setChannel
      by_cases hchannel : 1 ≤ hit.channel ∧ hit.channel ≤ 6
      · refine iff_of_true hchannel ?_
        obtain ⟨hlow, hhigh⟩ := hchannel
        interval_cases hit.channel <;> exact List.cons_ne_nil _ _
      · refine iff_of_false hchannel ?_
        have hnone : ∀ component₁ component₂ component₃ component₄ component₅ component₆ : Int,
            switch [(1, component₁), (2, component₂), (3, component₃), (4, component₄), (5, component₅),
              (6, component₆)] hit.channel = -1 := by
          intros
          unfold switch
          rw [List.lookup_eq_none_iff.mpr, Option.getD_none]
          simp
          omega
        simp [getCataniaV1Component, getCataniaV2Component, getFullV1Component, getFullV2Component, hnone]

end Sensors

/-! ## What an event publishes -/

section Event

variable {mc : MCType} {hits hits' : List IntVetoMCHit} {plates plates' : List IntVetoIndex}
  {digis digis' : List DigiHit}

/-- The event, plate by plate. -/
def Published (mc : MCType) (hits : List IntVetoMCHit) (plates : List IntVetoIndex) (digis : List DigiHit) : Prop :=
  Accumulated (fun hit => some (setChannel mc hit)) (sensorsOf mc) (fun _ channel hits => merged mc channel hits) hits
    plates digis

theorem evnt_published (mc : MCType) (hits : List IntVetoMCHit) :
    ∃ plates digis, evnt mc hits = some digis ∧ Published mc hits plates digis :=
  accumulate (agree mc) (fun _ _ => rfl)

theorem having_eq (mc : MCType) (hits : List IntVetoMCHit) (plate : IntVetoIndex) :
    having (fun hit => some (setChannel mc hit)) hits plate = hitsOf mc hits plate := by
  unfold having hitsOf
  simp only [Option.some.injEq]

/-- A digi hit is that of a sensor of a plate with hits. -/
theorem Published.mem_digis (h : Published mc hits plates digis) {digi : DigiHit} :
    digi ∈ digis ↔ ∃ plate, hitsOf mc hits plate ≠ [] ∧
      ∃ channel ∈ sensorsOf mc plate, digi = merged mc channel (hitsOf mc hits plate) := by
  have hmem := Accumulated.mem_out h (r := digi)
  simp only [having_eq] at hmem
  exact hmem

theorem hitsOf_ne_nil {plate : IntVetoIndex} : hitsOf mc hits plate ≠ [] ↔ ∃ hit ∈ hits, setChannel mc hit = plate := by
  constructor
  · intro hne
    obtain ⟨hit, hmem⟩ := List.exists_mem_of_ne_nil _ hne
    exact ⟨hit, (List.mem_filter.mp hmem).1, of_decide_eq_true (List.mem_filter.mp hmem).2⟩
  · rintro ⟨hit, hhit, hplate⟩
    exact List.ne_nil_of_mem (List.mem_filter.mpr ⟨hhit, decide_eq_true hplate⟩)

theorem readout_of_hitsOf {plate : IntVetoIndex} (hne : hitsOf mc hits plate ≠ []) : plate.readout = 0 := by
  obtain ⟨hit, _, rfl⟩ := hitsOf_ne_nil.mp hne
  rfl

/-- A digi hit is that of its channel. -/
theorem Published.digi_eq (h : Published mc hits plates digis) {digi : DigiHit} (hmem : digi ∈ digis) :
    digi = merged mc digi.channel (hitsOf mc hits (plateOf mc digi.channel)) := by
  obtain ⟨plate, hne, channel, hchannel, rfl⟩ := h.mem_digis.mp hmem
  show merged mc channel (hitsOf mc hits plate) = merged mc channel (hitsOf mc hits (plateOf mc channel))
  rw [plateOf_eq (readout_of_hitsOf hne) hchannel]

theorem Published.conserved (h : Published mc hits plates digis) : Conserved mc hits digis := by
  refine ⟨?_, ?_, ?_, ?_, ?_⟩
  · refine Accumulated.nodup_map h _ (fun _ channel => channel) (fun _ _ _ => rfl) ?_ ?_
    · intro plate
      rw [List.map_id']
      exact nodup_sensorsOf mc plate
    · intro plate plate' channel channel' hne hne' hmem hmem' heq
      rw [having_eq] at hne hne'
      obtain rfl : channel = channel' := heq
      rw [← plateOf_eq (readout_of_hitsOf hne) hmem, ← plateOf_eq (readout_of_hitsOf hne') hmem']
  · intro channel
    constructor
    · rintro ⟨digi, hmem, rfl⟩
      obtain ⟨plate, hne, channel, hchannel, rfl⟩ := h.mem_digis.mp hmem
      obtain ⟨hit, hhit, rfl⟩ := hitsOf_ne_nil.mp hne
      exact ⟨hit, hhit, (recognised_iff mc hit).mpr (List.ne_nil_of_mem hchannel), hchannel⟩
    · rintro ⟨hit, hhit, _, hchannel⟩
      exact ⟨_, h.mem_digis.mpr ⟨_, hitsOf_ne_nil.mpr ⟨hit, hhit, rfl⟩, channel, hchannel, rfl⟩, rfl⟩
  · intro digi hmem
    exact congrArg (fun digi : DigiHit => digi.Qphe) (h.digi_eq hmem)
  · intro digi hmem
    rw [h.digi_eq hmem]
    rfl
  · intro digi hmem
    exact congrArg DigiHit.associated (h.digi_eq hmem)

/-- The hits that are not recognised are on no plate with sensors. -/
theorem hitsOf_filter {plate : IntVetoIndex} (hsensors : sensorsOf mc plate ≠ []) :
    hitsOf mc (hits.filter (Recognised mc)) plate = hitsOf mc hits plate := by
  unfold hitsOf
  rw [List.filter_filter]
  refine List.filter_congr ?_
  intro hit _
  by_cases hplate : setChannel mc hit = plate
  · have hrec : Recognised mc hit := by
      rw [recognised_iff, hplate]
      exact hsensors
    simp [hplate, hrec]
  · simp [hplate]

/-- What does not depend on the order of the hits. -/
def charges (digi : DigiHit) : IntVetoIndex × ℚ × ℚ := (digi.channel, digi.Qphe, digi.Aphe)

theorem charges_merged (hperm : hits.Perm hits') (channel : IntVetoIndex) :
    charges (merged mc channel hits) = charges (merged mc channel hits') := by
  have hsum := (hperm.map (adcOf mc channel)).sum_eq
  simp only [charges, merged, hsum]

theorem Published.charges_eq (h : Published mc hits plates digis) (h' : Published mc hits' plates' digis')
    (hperm : hits'.Perm hits) : digis'.map charges = digis.map charges := by
  have hplate : ∀ plate, (hitsOf mc hits' plate).Perm (hitsOf mc hits plate) := fun plate => hperm.filter _
  refine (Accumulated.map_congr h' h charges ?_ ?_)
  · intro plate _
    rw [having_eq, having_eq, Ne, Ne, ← List.length_eq_zero_iff, ← List.length_eq_zero_iff, (hplate plate).length_eq]
  · intro plate channel _ _
    rw [having_eq, having_eq]
    exact charges_merged (hplate plate) channel

theorem Published.eq_of_filter (h : Published mc hits plates digis)
    (h' : Published mc (hits.filter (Recognised mc)) plates' digis') : digis' = digis := by
  have hid := Accumulated.map_congr h' h id ?_ ?_
  · rw [List.map_id, List.map_id] at hid
    exact hid
  · intro plate hsensors
    rw [having_eq, having_eq, hitsOf_filter hsensors]
  · intro plate channel hchannel _
    rw [having_eq, having_eq, hitsOf_filter (List.ne_nil_of_mem hchannel)]

end Event

/-- **The charge of the inner veto is conserved, sensor by sensor**: both pieces of code take the same `adc` for a
    sensor and stay inside the vectors, the hits that are not recognised play no part, and neither does the order. -/
theorem charge_conserved_inner (mc : MCType) (hits : List IntVetoMCHit) :
    ∃ digis, evnt mc hits = some digis ∧ Conserved mc hits digis ∧
      evnt mc (hits.filter (Recognised mc)) = some digis ∧
      ∀ hits', hits'.Perm hits →
        ∃ digis', evnt mc hits' = some digis' ∧ digis'.map charges = digis.map charges := by
  obtain ⟨plates, digis, hrun, h⟩ := evnt_published mc hits
  refine ⟨digis, hrun, h.conserved, ?_, ?_⟩
  · obtain ⟨plates', digis', hrun', h'⟩ := evnt_published mc (hits.filter (Recognised mc))
    rw [hrun', h.eq_of_filter h']
  · intro hits' hperm
    obtain ⟨plates', digis', hrun', h'⟩ := evnt_published mc hits'
    exact ⟨digis', hrun', h.charges_eq h' hperm⟩

end IntVetoDigiHitFactoryMC

end BdxReco
