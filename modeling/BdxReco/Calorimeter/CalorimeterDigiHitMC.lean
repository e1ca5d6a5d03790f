import BdxReco.Lib.GroupBy
import BdxReco.MC.McHits
import BdxReco.TT.Index
import Mathlib.Algebra.Order.BigOperators.Group.List
import Mathlib.Algebra.Order.Group.Int
import Mathlib.Algebra.Order.Ring.Rat
import Mathlib.Data.Int.Cast.Lemmas

/-!
# `Calorimeter.CalorimeterDigiHitMC` — the digi hits of the calorimeter, from a simulation

`CalorimeterDigiHit_factory_MC`. One pointer stands at the digi hit that is worked on. A digi hit that is created, and one
of the second readout that is found, is put there; one of the first readout that is found is not, and the charge of a
later hit goes wherever the pointer stands.

Every turn is a list of payments to channels (`payments`), and the digi hits hold what has been paid. `Conserved` is what
is wanted; a hit is misplaced if its crystal is there and the pointer is elsewhere, and `conserved_iff_settled` says that
charge is conserved if what the misplaced hits take away from a channel they also bring to it.
-/

namespace BdxReco

namespace CalorimeterDigiHitFactoryMC

open StdMap

/-- What the factory sets of a `CalorimeterDigiHit`, with its associated objects. -/
structure DigiHit where
  channel : CaloIndex
  Q : ℚ
  T : ℚ
  RMSflag : Bool
  associated : List CalorimeterMCHit
  deriving DecidableEq, Repr

/-! ## `SetIndex` -/

/-- The crystal of a hit. `none`: a field of the index is not set. -/
def setIndex (mc : MCType) (hit : CalorimeterMCHit) : Option CaloIndex :=
  match mc with
  | .fullV1 => some ⟨Int8.ofInt (hit.sector - 1), Int8.ofInt (hit.x - 1), Int8.ofInt (hit.y - 1), 1⟩
  | .cataniaV1 => if hit.sector = 100 then some ⟨1, 0, 0, 1⟩ else none
  | .cataniaV2 =>
    if hit.sector = 1 then some ⟨0, Int8.ofInt (hit.y - 1), Int8.ofInt (4 - hit.x), 1⟩
    else if hit.sector = 100 then some ⟨1, 0, 0, 1⟩
    else none
  | .fullV2 => some ⟨Int8.ofInt (hit.sector - 1), Int8.ofInt (hit.x - 1), Int8.ofInt (hit.y - 1), 1⟩
  | .jlabFluxV1 => some ⟨0, 0, 0, 1⟩
  | .bdxminiV1 =>
    if hit.sector = 502 ∨ hit.sector = 402 then some ⟨0, Int8.ofInt hit.x, Int8.ofInt hit.y, 1⟩
    else if hit.sector = 500 ∨ hit.sector = 400 then some ⟨1, Int8.ofInt hit.x, Int8.ofInt hit.y, 1⟩
    else none

/-! ## `evnt` -/

/-- `m_map`, and `m_CalorimeterDigiHit`: the channel of the digi hit it points to, which is in the map. -/
structure State where
  map : StdMap CaloIndex DigiHit := empty
  pointer : Option CaloIndex := none

/-- A new digi hit, put in the map. -/
def create (s : State) (index : CaloIndex) (adc tdc : Int) (hit : CalorimeterMCHit) : State :=
  { map := s.map.assign index { channel := index, Q := adc, T := tdc * 4, RMSflag := true, associated := [hit] }
    pointer := some index }

/-- The first readout. A digi hit that is there is left alone: the charge goes through the pointer. -/
def firstReadout (s : State) (index : CaloIndex) (hit : CalorimeterMCHit) : Option State :=
  match s.map.find? index with
  | none => some (create s index hit.adcr hit.tdcr hit)
  | some _ =>
    match s.pointer with
    | none => none
    | some pointed =>
      (s.map.find? pointed).map (fun digi =>
        { s with map := s.map.assign pointed { digi with Q := digi.Q + hit.adcr } })

/-- The second readout. -/
def secondReadout (s : State) (index : CaloIndex) (hit : CalorimeterMCHit) : State :=
  match s.map.find? index with
  | none => create s index hit.adcl hit.tdcl hit
  | some digi =>
    { map := s.map.assign index { digi with Q := digi.Q + hit.adcl, associated := digi.associated ++ [hit] }
      pointer := some index }

/-- The channel of the second readout of a crystal. -/
def second (crystal : CaloIndex) : CaloIndex := { crystal with readout := 2 }

/-- One hit. Only Catania V1 has two readouts. -/
def turn (mc : MCType) (s : State) (hit : CalorimeterMCHit) : Option State :=
  match setIndex mc hit with
  | none => none
  | some crystal =>
    (firstReadout s crystal hit).map (fun s => if mc = .cataniaV1 then secondReadout s (second crystal) hit else s)

/-- The event. -/
def evnt (mc : MCType) (hits : List CalorimeterMCHit) : Option (List DigiHit) :=
  (hits.foldlM (turn mc) {}).map (fun s => s.map.entries.map Prod.snd)

/-! ## What is wanted of an event -/

/-- The channels of a hit. -/
def HasChannel (mc : MCType) (hit : CalorimeterMCHit) (channel : CaloIndex) : Prop :=
  ∃ crystal, setIndex mc hit = some crystal ∧ (channel = crystal ∨ (mc = .cataniaV1 ∧ channel = second crystal))

/-- The charge of a readout. -/
def adcOf (readout : Int8) (hit : CalorimeterMCHit) : Int := if readout = 2 then hit.adcl else hit.adcr

/-- The hits of the crystal of a channel. -/
def hitsOf (mc : MCType) (hits : List CalorimeterMCHit) (channel : CaloIndex) : List CalorimeterMCHit :=
  hits.filter (fun hit => setIndex mc hit = some { channel with readout := 1 })

/-- **Charge is conserved, crystal by crystal.** -/
structure Conserved (mc : MCType) (hits : List CalorimeterMCHit) (digis : List DigiHit) : Prop where
  channels : (digis.map DigiHit.channel).Nodup
  published : ∀ channel, (∃ digi ∈ digis, digi.channel = channel) ↔ ∃ hit ∈ hits, HasChannel mc hit channel
  charge : ∀ digi ∈ digis, digi.Q = ((hitsOf mc hits digi.channel).map (adcOf digi.channel.readout)).sum

/-! ## When it is so -/

/-- Where the pointer stands after hits of these crystals, the last one to come up first. -/
def pointed (mc : MCType) (seen : List CaloIndex) : Option CaloIndex :=
  seen.head?.map (fun newest => if mc = .cataniaV1 then second newest else newest)

instance (crystal : CaloIndex) (seen : List CaloIndex) : Decidable (crystal ∈ seen) :=
  decidable_of_iff (∃ c ∈ seen, c = crystal) (by simp)

/-- The crystals that have come up, with that of one more hit. -/
def see (mc : MCType) (seen : List CaloIndex) (hit : CalorimeterMCHit) : List CaloIndex :=
  match setIndex mc hit with
  | none => seen
  | some crystal => if crystal ∈ seen then seen else crystal :: seen

/-- A hit is misplaced if its crystal has come up before, and the pointer stands at another channel. -/
def move (mc : MCType) (seen : List CaloIndex) (hit : CalorimeterMCHit) : List (CaloIndex × CalorimeterMCHit) :=
  match setIndex mc hit, pointed mc seen with
  | some crystal, some pointer => if crystal ∈ seen ∧ pointer ≠ crystal then [(pointer, hit)] else []
  | _, _ => []

/-- The misplaced hits, with the channels the pointer stands at. -/
def misplaced (mc : MCType) : List CaloIndex → List CalorimeterMCHit → List (CaloIndex × CalorimeterMCHit)
  | _, [] => []
  | seen, hit :: hits => move mc seen hit ++ misplaced mc (see mc seen hit) hits

/-- The charge that misplaced hits bring to a channel. -/
def gained (moves : List (CaloIndex × CalorimeterMCHit)) (channel : CaloIndex) : Int :=
  ((moves.filter (fun move => move.1 = channel)).map (fun move => move.2.adcr)).sum

/-- The charge of a channel that is misplaced. -/
def lost (mc : MCType) (moves : List (CaloIndex × CalorimeterMCHit)) (channel : CaloIndex) : Int :=
  ((moves.filter (fun move => setIndex mc move.2 = some channel)).map (fun move => move.2.adcr)).sum

/-- **The misplaced charges cancel.** -/
def Settled (mc : MCType) (hits : List CalorimeterMCHit) : Prop :=
  ∀ channel, gained (misplaced mc [] hits) channel = lost mc (misplaced mc [] hits) channel

/-! ## The payments of a turn -/

section Payments

variable {mc : MCType} {seen : List CaloIndex} {hit : CalorimeterMCHit} {crystal channel : CaloIndex}

/-- What a hit pays, and where, in the order of the code. -/
def payments (mc : MCType) (seen : List CaloIndex) (hit : CalorimeterMCHit) : List (CaloIndex × Int) :=
  match setIndex mc hit with
  | none => []
  | some crystal =>
    ((if crystal ∈ seen then (pointed mc seen).getD crystal else crystal), hit.adcr) ::
      (if mc = .cataniaV1 then [(second crystal, hit.adcl)] else [])

/-- What has been paid to a channel. -/
def paid (payments : List (CaloIndex × Int)) (channel : CaloIndex) : Int :=
  ((payments.filter (fun payment => payment.1 = channel)).map Prod.snd).sum

theorem paid_append (before after : List (CaloIndex × Int)) (channel : CaloIndex) :
    paid (before ++ after) channel = paid before channel + paid after channel := by
  unfold paid
  rw [List.filter_append, List.map_append, List.sum_append]

theorem paid_one (target channel : CaloIndex) (amount : Int) :
    paid [(target, amount)] channel = if target = channel then amount else 0 := by
  unfold paid
  by_cases h : target = channel
  · simp [h]
  · simp [h]

/-- The charge of a digi hit, 0 if it is not there. -/
def charge (map : StdMap CaloIndex DigiHit) (channel : CaloIndex) : ℚ := ((map.find? channel).map DigiHit.Q).getD 0

/-- **The books of the loop**: the digi hits in the map have what has been paid. -/
structure Books (payments : List (CaloIndex × Int)) (map : StdMap CaloIndex DigiHit) : Prop where
  balance : ∀ channel, charge map channel = (paid payments channel : Int)
  channel_eq : ∀ {channel digi}, map.find? channel = some digi → digi.channel = channel

/-- A digi hit that is written with an amount more than before. -/
theorem Books.pay {done : List (CaloIndex × Int)} {map : StdMap CaloIndex DigiHit} (h : Books done map)
    {digi : DigiHit} {amount : Int} (hchannel : digi.channel = channel)
    (hQ : digi.Q = charge map channel + amount) :
    Books (done ++ [(channel, amount)]) (map.assign channel digi) := by
  refine ⟨?_, ?_⟩
  · intro channel'
    rw [paid_append, paid_one]
    by_cases hsame : channel = channel'
    · subst hsame
      unfold charge
      rw [find?_assign_self, if_pos rfl, Option.map_some, Option.getD_some, hQ, h.balance, Int.cast_add]
    · unfold charge
      rw [find?_assign_ne map (fun heq => hsame heq.symm), if_neg hsame, Int.add_zero]
      exact h.balance channel'
  · intro channel' digi' hfind
    by_cases hsame : channel = channel'
    · subst hsame
      rw [find?_assign_self] at hfind
      rw [← Option.some.inj hfind]
      exact hchannel
    · rw [find?_assign_ne map (fun heq => hsame heq.symm)] at hfind
      exact h.channel_eq hfind

end Payments

/-! ## One turn -/

section Turn

variable {mc : MCType} {seen : List CaloIndex} {hit : CalorimeterMCHit} {crystal channel : CaloIndex}
  {done : List (CaloIndex × Int)} {s : State}

theorem readout_setIndex (h : setIndex mc hit = some crystal) : crystal.readout = 1 := by
  unfold setIndex at h
  grind

theorem setIndex_cataniaV1 (h : setIndex .cataniaV1 hit = some crystal) : crystal = ⟨1, 0, 0, 1⟩ := by
  unfold setIndex at h
  grind

theorem second_ne (hcrystal : crystal.readout = 1) : second crystal ≠ crystal := by
  intro heq
  have hreadout : (2 : Int8) = 1 := (congrArg CaloIndex.readout heq).trans hcrystal
  exact absurd hreadout (by decide)

theorem isSome_find?_assign (map : StdMap CaloIndex DigiHit) (digi : DigiHit) :
    ((map.assign crystal digi).find? channel).isSome = true ↔ channel = crystal ∨ (map.find? channel).isSome = true := by
  by_cases hsame : channel = crystal
  · rw [hsame, find?_assign_self]
    simp
  · rw [find?_assign_ne map hsame]
    simp [hsame]

theorem firstReadout_new (h : s.map.find? crystal = none) :
    firstReadout s crystal hit = some (create s crystal hit.adcr hit.tdcr hit) := by
  unfold firstReadout
  rw [h]

/-- A digi hit that is there: the charge goes where the pointer stands. -/
theorem firstReadout_old {digi : DigiHit} (h : (s.map.find? crystal).isSome = true) (hpointer : s.pointer = some channel)
    (hdigi : s.map.find? channel = some digi) :
    firstReadout s crystal hit
      = some { s with map := s.map.assign channel { digi with Q := digi.Q + hit.adcr } } := by
  obtain ⟨_, hold⟩ := Option.isSome_iff_exists.mp h
  unfold firstReadout
  rw [hold]
  simp only [hpointer, hdigi, Option.map_some]

/-- The channels with a digi hit, after hits of these crystals. -/
def Present (mc : MCType) (seen : List CaloIndex) (channel : CaloIndex) : Prop :=
  channel ∈ seen ∨ (mc = .cataniaV1 ∧ ∃ crystal ∈ seen, channel = second crystal)

/-- **The state of the loop**, after hits of these crystals and these payments. -/
structure Inv (mc : MCType) (seen : List CaloIndex) (done : List (CaloIndex × Int)) (s : State) : Prop where
  books : Books done s.map
  pointer : s.pointer = pointed mc seen
  present : ∀ channel, (s.map.find? channel).isSome = true ↔ Present mc seen channel
  crystals : ∀ crystal ∈ seen, ∃ hit, setIndex mc hit = some crystal

theorem charge_of_find? {digi : DigiHit} (h : s.map.find? channel = some digi) : charge s.map channel = digi.Q := by
  unfold charge
  rw [h]
  rfl

theorem charge_of_none (h : s.map.find? channel = none) : charge s.map channel = 0 := by
  unfold charge
  rw [h]
  rfl

theorem Inv.find?_eq_none (h : Inv mc seen done s) (hnot : ¬ Present mc seen channel) : s.map.find? channel = none := by
  rw [← h.present channel, Bool.not_eq_true, Option.isSome_eq_false_iff, Option.isNone_iff_eq_none] at hnot
  exact hnot

/-- A new digi hit is a payment. -/
theorem Books.create (h : Books done s.map) (hnone : s.map.find? channel = none) (adc tdc : Int)
    (hit : CalorimeterMCHit) : Books (done ++ [(channel, adc)]) (create s channel adc tdc hit).map := by
  refine h.pay rfl ?_
  rw [charge_of_none hnone, zero_add]

theorem see_eq (hcrystal : setIndex mc hit = some crystal) :
    see mc seen hit = if crystal ∈ seen then seen else crystal :: seen := by
  unfold see
  simp only [hcrystal]

/-- One turn, where the crystals have one readout. -/
theorem turn_single (hmc : mc ≠ .cataniaV1) (h : Inv mc seen done s) (hcrystal : setIndex mc hit = some crystal) :
    ∃ s', turn mc s hit = some s' ∧ Inv mc (see mc seen hit) (done ++ payments mc seen hit) s' := by
  have hpresent : ∀ seen channel, Present mc seen channel ↔ channel ∈ seen :=
    fun _ _ => or_iff_left (fun hc => hmc hc.1)
  have hturn : turn mc s hit = firstReadout s crystal hit := by
    unfold turn
    simp only [hcrystal, if_neg hmc, Option.map_id_fun', id_eq]
  have hpayments : payments mc seen hit
      = [((if crystal ∈ seen then (pointed mc seen).getD crystal else crystal), hit.adcr)] := by
    unfold payments
    simp only [hcrystal, if_neg hmc]
  rw [hturn, hpayments, see_eq hcrystal]
  by_cases hseen : crystal ∈ seen
  · -- the newest crystal has a digi hit, and the pointer stands there
    obtain ⟨newest, older, rfl⟩ := List.exists_cons_of_ne_nil (List.ne_nil_of_mem hseen)
    have hpointed : pointed mc (newest :: older) = some newest := by simp [pointed, hmc]
    obtain ⟨digi, hdigi⟩ := Option.isSome_iff_exists.mp
      ((h.present newest).mpr ((hpresent _ _).mpr List.mem_cons_self))
    rw [if_pos hseen, if_pos hseen, hpointed, Option.getD_some]
    refine ⟨_, firstReadout_old ((h.present crystal).mpr ((hpresent _ _).mpr hseen)) (h.pointer.trans hpointed) hdigi,
      ?_, h.pointer, ?_, h.crystals⟩
    · have hchannel : digi.channel = newest := h.books.channel_eq hdigi
      refine h.books.pay hchannel ?_
      rw [charge_of_find? hdigi]
    · intro channel
      show ((s.map.assign newest _).find? channel).isSome = true ↔ _
      rw [isSome_find?_assign, h.present, hpresent]
      exact or_iff_right_of_imp (fun heq => heq ▸ List.mem_cons_self)
  · rw [if_neg hseen, if_neg hseen]
    have hnone := h.find?_eq_none (fun hp => hseen ((hpresent _ _).mp hp))
    refine ⟨_, firstReadout_new hnone, h.books.create hnone _ _ _, ?_, ?_, ?_⟩
    · simp [create, pointed, hmc]
    · intro channel
      show ((s.map.assign crystal _).find? channel).isSome = true ↔ _
      rw [isSome_find?_assign, h.present, hpresent, hpresent, List.mem_cons]
    · intro c hc
      rcases List.mem_cons.mp hc with rfl | hc
      · exact ⟨hit, hcrystal⟩
      · exact h.crystals c hc

theorem secondReadout_new (h : s.map.find? channel = none) :
    secondReadout s channel hit = create s channel hit.adcl hit.tdcl hit := by
  unfold secondReadout
  rw [h]

theorem secondReadout_old {digi : DigiHit} (h : s.map.find? channel = some digi) :
    secondReadout s channel hit =
      { map := s.map.assign channel { digi with Q := digi.Q + hit.adcl, associated := digi.associated ++ [hit] }
        pointer := some channel } := by
  unfold secondReadout
  rw [h]

theorem turn_cataniaV1 (hcrystal : setIndex .cataniaV1 hit = some crystal) :
    turn .cataniaV1 s hit = (firstReadout s crystal hit).map (fun s => secondReadout s (second crystal) hit) := by
  unfold turn
  simp only [hcrystal, if_true]

theorem payments_cataniaV1 (hcrystal : setIndex .cataniaV1 hit = some crystal) :
    payments .cataniaV1 seen hit
      = [((if crystal ∈ seen then (pointed .cataniaV1 seen).getD crystal else crystal), hit.adcr)]
        ++ [(second crystal, hit.adcl)] := by
  unfold payments
  simp only [hcrystal, if_true, List.singleton_append]

/-- The first turn for the crystal with two readouts. -/
theorem turn_double_first (h : Inv .cataniaV1 [] done s) (hcrystal : setIndex .cataniaV1 hit = some crystal) :
    ∃ s', turn .cataniaV1 s hit = some s' ∧
      Inv .cataniaV1 [crystal] (done ++ [(crystal, hit.adcr)] ++ [(second crystal, hit.adcl)]) s' := by
  have hne : second crystal ≠ crystal := second_ne (readout_setIndex hcrystal)
  have hempty : ∀ channel, ¬ Present .cataniaV1 [] channel := by
    rintro channel (hp | ⟨_, _, hp, _⟩)
    · cases hp
    · cases hp
  have hfirst : (create s crystal hit.adcr hit.tdcr hit).map.find? (second crystal) = none := by
    show (s.map.assign crystal _).find? (second crystal) = none
    rw [find?_assign_ne s.map hne]
    exact h.find?_eq_none (hempty _)
  rw [turn_cataniaV1 hcrystal, firstReadout_new (h.find?_eq_none (hempty crystal)), Option.map_some,
    secondReadout_new hfirst]
  refine ⟨_, rfl, ?_, rfl, ?_, ?_⟩
  · exact (h.books.create (h.find?_eq_none (hempty crystal)) _ _ _).create hfirst _ _ _
  · intro channel
    show (((s.map.assign crystal _).assign (second crystal) _).find? channel).isSome = true ↔ _
    rw [isSome_find?_assign, isSome_find?_assign, h.present]
    constructor
    · rintro (rfl | rfl | hp)
      · exact Or.inr ⟨rfl, crystal, List.mem_cons_self, rfl⟩
      · exact Or.inl List.mem_cons_self
      · exact absurd hp (hempty channel)
    · rintro (hp | ⟨_, c, hc, rfl⟩)
      · exact Or.inr (Or.inl (List.mem_singleton.mp hp))
      · rw [List.mem_singleton.mp hc]
        exact Or.inl rfl
  · intro c hc
    rw [List.mem_singleton.mp hc]
    exact ⟨hit, hcrystal⟩

/-- A later turn for it: the pointer stands at the second readout. -/
theorem turn_double_again {older : List CaloIndex} (h : Inv .cataniaV1 (crystal :: older) done s)
    (hcrystal : setIndex .cataniaV1 hit = some crystal) :
    ∃ s', turn .cataniaV1 s hit = some s' ∧
      Inv .cataniaV1 (crystal :: older) (done ++ [(second crystal, hit.adcr)] ++ [(second crystal, hit.adcl)]) s' := by
  have hpointed : pointed .cataniaV1 (crystal :: older) = some (second crystal) := rfl
  have hpresent : Present .cataniaV1 (crystal :: older) (second crystal) :=
    Or.inr ⟨rfl, crystal, List.mem_cons_self, rfl⟩
  have hold := (h.present crystal).mpr (Or.inl List.mem_cons_self)
  obtain ⟨digi, hdigi⟩ := Option.isSome_iff_exists.mp ((h.present (second crystal)).mpr hpresent)
  have hchannel : digi.channel = second crystal := h.books.channel_eq hdigi
  rw [turn_cataniaV1 hcrystal, firstReadout_old hold (h.pointer.trans hpointed) hdigi, Option.map_some,
    secondReadout_old (find?_assign_self _ _ _)]
  refine ⟨_, rfl, ?_, hpointed.symm, ?_, h.crystals⟩
  · have hfirst : Books (done ++ [(second crystal, hit.adcr)])
        (s.map.assign (second crystal) { digi with Q := digi.Q + hit.adcr }) := by
      refine h.books.pay hchannel ?_
      rw [charge_of_find? hdigi]
    refine hfirst.pay hchannel ?_
    unfold charge
    rw [find?_assign_self]
    rfl
  · intro channel
    show (((s.map.assign (second crystal) _).assign (second crystal) _).find? channel).isSome = true ↔ _
    rw [isSome_find?_assign, isSome_find?_assign, h.present]
    constructor
    · rintro (rfl | rfl | hp)
      · exact hpresent
      · exact hpresent
      · exact hp
    · exact fun hp => Or.inr (Or.inr hp)

/-- One turn for the crystal with two readouts, the only one of its type. -/
theorem turn_double (h : Inv .cataniaV1 seen done s) (hcrystal : setIndex .cataniaV1 hit = some crystal) :
    ∃ s', turn .cataniaV1 s hit = some s' ∧
      Inv .cataniaV1 (see .cataniaV1 seen hit) (done ++ payments .cataniaV1 seen hit) s' := by
  have hall : ∀ c ∈ seen, c = crystal := by
    intro c hc
    obtain ⟨hit', hc'⟩ := h.crystals c hc
    rw [setIndex_cataniaV1 hc', setIndex_cataniaV1 hcrystal]
  rw [payments_cataniaV1 hcrystal, see_eq hcrystal, ← List.append_assoc]
  cases seen with
  | nil =>
      rw [if_neg List.not_mem_nil, if_neg List.not_mem_nil]
      exact turn_double_first h hcrystal
  | cons newest older =>
      obtain rfl : newest = crystal := hall newest List.mem_cons_self
      rw [if_pos List.mem_cons_self, if_pos List.mem_cons_self]
      exact turn_double_again h hcrystal

theorem turn_spec (h : Inv mc seen done s) (hcrystal : setIndex mc hit = some crystal) :
    ∃ s', turn mc s hit = some s' ∧ Inv mc (see mc seen hit) (done ++ payments mc seen hit) s' := by
  by_cases hmc : mc = .cataniaV1
  · subst hmc
    exact turn_double h hcrystal
  · exact turn_single hmc h hcrystal

end Turn

/-! ## The run -/

section Run

variable {mc : MCType} {seen : List CaloIndex} {hits : List CalorimeterMCHit} {channel : CaloIndex}
  {done : List (CaloIndex × Int)} {s : State}

/-- All payments. -/
def allPayments (mc : MCType) : List CaloIndex → List CalorimeterMCHit → List (CaloIndex × Int)
  | _, [] => []
  | seen, hit :: hits => payments mc seen hit ++ allPayments mc (see mc seen hit) hits

theorem run_spec (h : Inv mc seen done s) (hrecognised : ∀ hit ∈ hits, (setIndex mc hit).isSome = true) :
    ∃ s', hits.foldlM (turn mc) s = some s' ∧
      Inv mc (hits.foldl (see mc) seen) (done ++ allPayments mc seen hits) s' := by
  induction hits generalizing seen done s with
  | nil =>
      refine ⟨s, rfl, ?_⟩
      rw [allPayments, List.append_nil]
      exact h
  | cons hit hits ih =>
      rw [List.forall_mem_cons] at hrecognised
      obtain ⟨crystal, hcrystal⟩ := Option.isSome_iff_exists.mp hrecognised.1
      obtain ⟨s₁, hturn, h₁⟩ := turn_spec h hcrystal
      obtain ⟨s', hrun, h'⟩ := ih h₁ hrecognised.2
      refine ⟨s', ?_, ?_⟩
      · rw [List.foldlM_cons, hturn]
        exact hrun
      · rw [allPayments, ← List.append_assoc]
        exact h'

/-- The charge a channel should have from a hit. -/
def own (mc : MCType) (hit : CalorimeterMCHit) (channel : CaloIndex) : Int :=
  if setIndex mc hit = some { channel with readout := 1 } then adcOf channel.readout hit else 0

/-- The readouts of a type. -/
def HasReadout (mc : MCType) (channel : CaloIndex) : Prop :=
  channel.readout = 1 ∨ (mc = .cataniaV1 ∧ channel.readout = 2)

theorem gained_append (before after : List (CaloIndex × CalorimeterMCHit)) (channel : CaloIndex) :
    gained (before ++ after) channel = gained before channel + gained after channel := by
  unfold gained
  rw [List.filter_append, List.map_append, List.sum_append]

theorem lost_append (before after : List (CaloIndex × CalorimeterMCHit)) (channel : CaloIndex) :
    lost mc (before ++ after) channel = lost mc before channel + lost mc after channel := by
  unfold lost
  rw [List.filter_append, List.map_append, List.sum_append]

/-- What a hit should pay: its crystal, and the second readout if there is one. -/
theorem own_eq {hit : CalorimeterMCHit} {crystal : CaloIndex} (hcrystal : setIndex mc hit = some crystal)
    (hreadout : HasReadout mc channel) :
    own mc hit channel = (if crystal = channel then hit.adcr else 0)
      + paid (if mc = .cataniaV1 then [(second crystal, hit.adcl)] else []) channel := by
  have hone : crystal.readout = 1 := readout_setIndex hcrystal
  unfold own
  rw [hcrystal]
  obtain ⟨sector, x, y, readout⟩ := channel
  obtain ⟨sector', x', y', readout'⟩ := crystal
  obtain rfl : readout' = 1 := hone
  rcases hreadout with hfirst | ⟨rfl, hsecond⟩
  · obtain rfl : readout = 1 := hfirst
    have hrest : paid (if mc = .cataniaV1 then [(second ⟨sector', x', y', 1⟩, hit.adcl)] else []) ⟨sector, x, y, 1⟩
        = 0 := by
      by_cases hmc : mc = .cataniaV1
      · rw [if_pos hmc, paid_one, if_neg (by simp [second])]
      · rw [if_neg hmc]
        rfl
    rw [hrest, Int.add_zero]
    simp [adcOf]
  · obtain rfl : readout = 2 := hsecond
    rw [if_pos rfl, paid_one]
    simp [second, adcOf]

/-- **What one hit pays**: what it should, but for a misplaced hit. -/
theorem paid_payments {hit : CalorimeterMCHit} {crystal : CaloIndex} (hcrystal : setIndex mc hit = some crystal)
    (hreadout : HasReadout mc channel) :
    paid (payments mc seen hit) channel
      = own mc hit channel + gained (move mc seen hit) channel - lost mc (move mc seen hit) channel := by
  have hpaid : ∀ target, payments mc seen hit = (target, hit.adcr) ::
      (if mc = .cataniaV1 then [(second crystal, hit.adcl)] else []) →
      paid (payments mc seen hit) channel = (if target = channel then hit.adcr else 0)
        + paid (if mc = .cataniaV1 then [(second crystal, hit.adcl)] else []) channel := by
    intro target heq
    rw [heq, ← List.singleton_append, paid_append, paid_one]
  rw [own_eq hcrystal hreadout]
  by_cases hseen : crystal ∈ seen
  · obtain ⟨newest, older, rfl⟩ := List.exists_cons_of_ne_nil (List.ne_nil_of_mem hseen)
    obtain ⟨pointer, hpointer⟩ : ∃ pointer, pointed mc (newest :: older) = some pointer := ⟨_, rfl⟩
    have htarget := hpaid pointer (by simp only [payments, hcrystal, hpointer, if_pos hseen, Option.getD_some])
    by_cases hplace : pointer = crystal
    · have hmove : move mc (newest :: older) hit = [] := by simp [move, hcrystal, hpointer, hplace]
      rw [htarget, hmove, hplace]
      show _ = _ + 0 - 0
      omega
    · have hmove : move mc (newest :: older) hit = [(pointer, hit)] := by
        simp [move, hcrystal, hpointer, hplace, hseen]
      have hgained : gained [(pointer, hit)] channel = if pointer = channel then hit.adcr else 0 := by
        unfold gained
        by_cases heq : pointer = channel
        · simp [heq]
        · simp [heq]
      have hlost : lost mc [(pointer, hit)] channel = if crystal = channel then hit.adcr else 0 := by
        unfold lost
        by_cases heq : crystal = channel
        · simp [hcrystal, heq]
        · simp [hcrystal, heq]
      rw [htarget, hmove, hgained, hlost]
      omega
  · have htarget := hpaid crystal (by simp only [payments, hcrystal, if_neg hseen])
    have hmove : move mc seen hit = [] := by
      unfold move
      split
      · next c pointer hc _ =>
          obtain rfl := Option.some.inj (hc.symm.trans hcrystal)
          rw [if_neg (fun hcon => hseen hcon.1)]
      · rfl
    rw [htarget, hmove]
    show _ = _ + 0 - 0
    omega

theorem paid_allPayments (hreadout : HasReadout mc channel)
    (hrecognised : ∀ hit ∈ hits, (setIndex mc hit).isSome = true) (seen : List CaloIndex) :
    paid (allPayments mc seen hits) channel
      = ((hitsOf mc hits channel).map (adcOf channel.readout)).sum + gained (misplaced mc seen hits) channel
        - lost mc (misplaced mc seen hits) channel := by
  induction hits generalizing seen with
  | nil => rfl
  | cons hit hits ih =>
      rw [List.forall_mem_cons] at hrecognised
      obtain ⟨crystal, hcrystal⟩ := Option.isSome_iff_exists.mp hrecognised.1
      have hown : ((hitsOf mc (hit :: hits) channel).map (adcOf channel.readout)).sum
          = own mc hit channel + ((hitsOf mc hits channel).map (adcOf channel.readout)).sum := by
        unfold hitsOf own
        by_cases hmem : setIndex mc hit = some { channel with readout := 1 }
        · simp [hmem]
        · simp [hmem]
      rw [allPayments, misplaced, paid_append, gained_append, lost_append, paid_payments hcrystal hreadout,
        ih hrecognised.2, hown]
      omega

/-- The crystals that have come up. -/
theorem mem_foldl_see {crystal : CaloIndex} :
    crystal ∈ hits.foldl (see mc) seen ↔ crystal ∈ seen ∨ ∃ hit ∈ hits, setIndex mc hit = some crystal := by
  induction hits generalizing seen with
  | nil => simp
  | cons hit hits ih =>
      have hsee : crystal ∈ see mc seen hit ↔ crystal ∈ seen ∨ setIndex mc hit = some crystal := by
        unfold see
        split
        · next hnone => simp [hnone]
        · next c hc =>
            rw [hc, Option.some.injEq]
            split
            · next hmem => exact ⟨Or.inl, fun h => h.elim id (fun heq => heq ▸ hmem)⟩
            · rw [List.mem_cons, or_comm]
              exact or_congr_right eq_comm
      rw [List.foldl_cons, ih, hsee, List.exists_mem_cons_iff, or_assoc]

/-- The channels with a digi hit are those of the hits. -/
theorem present_iff : Present mc (hits.foldl (see mc) []) channel ↔ ∃ hit ∈ hits, HasChannel mc hit channel := by
  have hmem : ∀ crystal, crystal ∈ hits.foldl (see mc) [] ↔ ∃ hit ∈ hits, setIndex mc hit = some crystal := by
    intro crystal
    rw [mem_foldl_see]
    exact or_iff_right List.not_mem_nil
  constructor
  · rintro (h | ⟨hmc, crystal, h, hsecond⟩)
    · obtain ⟨hit, hhit, hcrystal⟩ := (hmem channel).mp h
      exact ⟨hit, hhit, channel, hcrystal, Or.inl rfl⟩
    · obtain ⟨hit, hhit, hcrystal⟩ := (hmem crystal).mp h
      exact ⟨hit, hhit, crystal, hcrystal, Or.inr ⟨hmc, hsecond⟩⟩
  · rintro ⟨hit, hhit, crystal, hcrystal, rfl | ⟨hmc, hsecond⟩⟩
    · exact Or.inl ((hmem channel).mpr ⟨hit, hhit, hcrystal⟩)
    · exact Or.inr ⟨hmc, crystal, (hmem crystal).mpr ⟨hit, hhit, hcrystal⟩, hsecond⟩

theorem hasReadout_of_hasChannel {hit : CalorimeterMCHit} (h : HasChannel mc hit channel) : HasReadout mc channel := by
  obtain ⟨crystal, hcrystal, rfl | ⟨hmc, rfl⟩⟩ := h
  · exact Or.inl (readout_setIndex hcrystal)
  · exact Or.inr ⟨hmc, rfl⟩

/-- The pointer stands at a channel with a digi hit. -/
theorem present_pointed (h : pointed mc seen = some channel) : Present mc seen channel := by
  obtain ⟨newest, hnewest, rfl⟩ := Option.map_eq_some_iff.mp h
  have hmem : newest ∈ seen := List.mem_of_mem_head? hnewest
  by_cases hmc : mc = .cataniaV1
  · rw [if_pos hmc]
    exact Or.inr ⟨hmc, newest, hmem, rfl⟩
  · rw [if_neg hmc]
    exact Or.inl hmem

theorem suffix_see (mc : MCType) (seen : List CaloIndex) (hit : CalorimeterMCHit) : seen <:+ see mc seen hit := by
  unfold see
  split
  · exact List.suffix_rfl
  · split
    · exact List.suffix_rfl
    · exact List.suffix_cons _ _

theorem suffix_foldl_see (mc : MCType) (seen : List CaloIndex) (hits : List CalorimeterMCHit) :
    seen <:+ hits.foldl (see mc) seen := by
  induction hits generalizing seen with
  | nil => exact List.suffix_rfl
  | cons hit hits ih => exact (suffix_see mc seen hit).trans (ih _)

/-- A misplaced hit is in a crystal that has come up before the pointer was put where it stands. -/
theorem mem_misplaced {pointer : CaloIndex} {hit : CalorimeterMCHit} (h : (pointer, hit) ∈ misplaced mc seen hits) :
    hit ∈ hits ∧ ∃ before, before <:+ hits.foldl (see mc) seen ∧ pointed mc before = some pointer ∧
      ∃ crystal ∈ before, setIndex mc hit = some crystal ∧ pointer ≠ crystal := by
  induction hits generalizing seen with
  | nil => cases h
  | cons hit' hits ih =>
      rcases List.mem_append.mp h with h | h
      · unfold move at h
        split at h
        · next crystal p hcrystal hpointed =>
            split at h
            · next hmoved =>
                obtain ⟨rfl, rfl⟩ := Prod.mk.inj (List.mem_singleton.mp h)
                exact ⟨List.mem_cons_self, seen, suffix_foldl_see mc seen _, hpointed, crystal, hmoved.1, hcrystal,
                  hmoved.2⟩
            · cases h
        · cases h
      · obtain ⟨hmem, hbefore⟩ := ih h
        exact ⟨List.mem_cons_of_mem hit' hmem, hbefore⟩

/-- Nothing is misplaced from or to a channel that is not in the event. -/
theorem settled_of_absent (h : ¬ ∃ hit ∈ hits, HasChannel mc hit channel) :
    gained (misplaced mc [] hits) channel = lost mc (misplaced mc [] hits) channel := by
  have hgained : (misplaced mc [] hits).filter (fun move => move.1 = channel) = [] := by
    rw [List.filter_eq_nil_iff]
    rintro ⟨pointer, hit⟩ hmem hpointer
    obtain rfl : pointer = channel := of_decide_eq_true hpointer
    obtain ⟨_, before, hsuffix, hpointed, _⟩ := mem_misplaced hmem
    refine h (present_iff.mp ?_)
    rcases present_pointed hpointed with hseen | ⟨hmc, crystal, hseen, hsecond⟩
    · exact Or.inl (hsuffix.subset hseen)
    · exact Or.inr ⟨hmc, crystal, hsuffix.subset hseen, hsecond⟩
  have hlost : (misplaced mc [] hits).filter (fun move => setIndex mc move.2 = some channel) = [] := by
    rw [List.filter_eq_nil_iff]
    rintro ⟨pointer, hit⟩ hmem hcrystal
    exact h ⟨hit, (mem_misplaced hmem).1, channel, of_decide_eq_true hcrystal, Or.inl rfl⟩
  unfold gained lost
  rw [hgained, hlost]

/-- **What an event publishes**: a digi hit for every channel, with what it should have and what is misplaced. -/
theorem evnt_spec (hrecognised : ∀ hit ∈ hits, (setIndex mc hit).isSome = true) :
    ∃ digis, evnt mc hits = some digis ∧ (digis.map DigiHit.channel).Nodup ∧
      (∀ channel, (∃ digi ∈ digis, digi.channel = channel) ↔ ∃ hit ∈ hits, HasChannel mc hit channel) ∧
      ∀ digi ∈ digis, digi.Q = (((hitsOf mc hits digi.channel).map (adcOf digi.channel.readout)).sum
        + gained (misplaced mc [] hits) digi.channel - lost mc (misplaced mc [] hits) digi.channel : Int) := by
  have hinit : Inv mc [] [] {} := by
    refine ⟨⟨fun _ => rfl, fun h => ?_⟩, rfl, ?_, fun _ h => ?_⟩
    · cases h
    · intro channel
      refine iff_of_false (by simp) ?_
      rintro (h | ⟨_, _, h, _⟩)
      · cases h
      · cases h
    · cases h
  obtain ⟨s, hrun, hs⟩ := run_spec hinit hrecognised
  rw [List.nil_append] at hs
  have hchannel : ∀ entry ∈ s.map.entries, entry.2.channel = entry.1 :=
    fun entry hentry => hs.books.channel_eq ((mem_entries_iff s.map).mp hentry)
  have hpublished : ∀ channel, (∃ digi ∈ s.map.entries.map Prod.snd, digi.channel = channel) ↔
      ∃ hit ∈ hits, HasChannel mc hit channel := by
    intro channel
    rw [← present_iff, ← hs.present channel, Option.isSome_iff_exists]
    constructor
    · rintro ⟨digi, hmem, rfl⟩
      obtain ⟨⟨key, value⟩, hentry, rfl⟩ := List.mem_map.mp hmem
      obtain rfl : value.channel = key := hchannel _ hentry
      exact ⟨value, (mem_entries_iff s.map).mp hentry⟩
    · rintro ⟨digi, hdigi⟩
      exact ⟨digi, List.mem_map.mpr ⟨_, (mem_entries_iff s.map).mpr hdigi, rfl⟩, hs.books.channel_eq hdigi⟩
  refine ⟨s.map.entries.map Prod.snd, by rw [evnt, hrun]; rfl, ?_, hpublished, ?_⟩
  · have hkeys : (s.map.entries.map Prod.snd).map DigiHit.channel = s.map.keys := by
      unfold keys
      rw [List.map_map]
      exact List.map_congr_left hchannel
    rw [hkeys]
    exact nodup_keys s.map
  · intro digi hmem
    obtain ⟨hit, _, hhas⟩ := (hpublished digi.channel).mp ⟨digi, hmem, rfl⟩
    obtain ⟨⟨key, value⟩, hentry, rfl⟩ := List.mem_map.mp hmem
    obtain rfl : value.channel = key := hchannel _ hentry
    rw [← paid_allPayments (hasReadout_of_hasChannel hhas) hrecognised [], ← hs.books.balance,
      charge_of_find? ((mem_entries_iff s.map).mp hentry)]

end Run

/-! ## Charges that are not negative -/

section Nonneg

variable {mc : MCType} {hits : List CalorimeterMCHit}

theorem nodup_foldl_see {seen : List CaloIndex} (hseen : seen.Nodup) (hits : List CalorimeterMCHit) :
    (hits.foldl (see mc) seen).Nodup := by
  induction hits generalizing seen with
  | nil => exact hseen
  | cons hit hits ih =>
      refine ih ?_
      unfold see
      split
      · exact hseen
      · split
        · exact hseen
        · next hnew => exact List.nodup_cons.mpr ⟨hnew, hseen⟩

/-- What is in front of an element of a list without repetitions is fixed. -/
theorem suffix_unique {l before before' : List CaloIndex} {crystal : CaloIndex} (hl : l.Nodup)
    (h : crystal :: before <:+ l) (h' : crystal :: before' <:+ l) : before = before' := by
  obtain ⟨after, rfl⟩ := h
  obtain ⟨after', heq⟩ := h'
  have hnot : crystal ∉ after ∧ crystal ∉ before :=
    ⟨fun hmem => (List.nodup_append.mp hl).2.2 _ hmem _ List.mem_cons_self rfl,
      (List.nodup_cons.mp (List.nodup_append.mp hl).2.1).1⟩
  rcases List.append_eq_append_iff.mp heq with ⟨middle, rfl, hrest⟩ | ⟨middle, rfl, hrest⟩
  · rcases middle with _ | ⟨c, middle⟩
    · exact (List.cons.inj hrest).2.symm
    · obtain rfl : crystal = c := (List.cons.inj hrest).1
      exact absurd (List.mem_append_right after' List.mem_cons_self) hnot.1
  · rcases middle with _ | ⟨c, middle⟩
    · exact (List.cons.inj hrest).2
    · have hmem : crystal ∈ before := by
        rw [(List.cons.inj hrest).2]
        exact List.mem_append_right middle List.mem_cons_self
      exact absurd hmem hnot.2

/-- The oldest crystals get nothing, so they lose nothing; and so on. -/
theorem adcr_eq_zero_of_settled (hadcr : ∀ hit ∈ hits, 0 ≤ hit.adcr) (hsettled : Settled mc hits)
    {before : List CaloIndex} (hbefore : before <:+ hits.foldl (see mc) []) :
    ∀ crystal ∈ before, ∀ move ∈ misplaced mc [] hits, setIndex mc move.2 = some crystal → move.2.adcr = 0 := by
  induction before with
  | nil => exact fun _ hmem => absurd hmem List.not_mem_nil
  | cons newest before ih =>
      have hih := ih ((List.suffix_cons newest before).trans hbefore)
      intro crystal hmem
      rcases List.mem_cons.mp hmem with rfl | hmem
      · have hreadout : crystal.readout = 1 := by
          rcases mem_foldl_see.mp (hbefore.subset hmem) with hnil | ⟨hit, _, hcrystal⟩
          · cases hnil
          · exact readout_setIndex hcrystal
        have hgained : gained (misplaced mc [] hits) crystal = 0 := by
          refine List.sum_eq_zero ?_
          intro amount hamount
          obtain ⟨⟨pointer, hit⟩, hfiltered, rfl⟩ := List.mem_map.mp hamount
          obtain ⟨hmoved, hpointer⟩ := List.mem_filter.mp hfiltered
          have hat : pointer = crystal := of_decide_eq_true hpointer
          obtain ⟨_, before', hsuffix, hpointed, c, hc, hcrystal, hne⟩ := mem_misplaced hmoved
          obtain ⟨newest, hnewest, hplace⟩ := Option.map_eq_some_iff.mp hpointed
          rw [hat] at hplace hne
          by_cases hmc : mc = .cataniaV1
          · -- the pointer stands at a second readout, which is no crystal
            rw [if_pos hmc] at hplace
            have htwo : (2 : Int8) = 1 := (congrArg CaloIndex.readout hplace).trans hreadout
            exact absurd htwo (by decide)
          · rw [if_neg hmc] at hplace
            obtain ⟨rest, hrest⟩ := List.head?_eq_some_iff.mp hnewest
            rw [hrest, hplace] at hsuffix hc
            obtain rfl := suffix_unique (nodup_foldl_see List.nodup_nil hits) hbefore hsuffix
            rcases List.mem_cons.mp hc with rfl | hc
            · exact absurd rfl hne
            · exact hih c hc _ hmoved hcrystal
        have hlost : lost mc (misplaced mc [] hits) crystal = 0 := (hsettled crystal).symm.trans hgained
        intro move hmove hcrystal
        refine List.all_zero_of_le_zero_le_of_sum_eq_zero ?_ hlost
          (List.mem_map.mpr ⟨move, List.mem_filter.mpr ⟨hmove, decide_eq_true hcrystal⟩, rfl⟩)
        intro amount hamount
        obtain ⟨⟨pointer, hit⟩, hfiltered, rfl⟩ := List.mem_map.mp hamount
        exact hadcr hit (mem_misplaced (List.mem_filter.mp hfiltered).1).1
      · exact hih crystal hmem

/-- **Without negative charges nothing cancels**: a misplaced hit has no charge. -/
theorem settled_iff_of_nonneg (hadcr : ∀ hit ∈ hits, 0 ≤ hit.adcr) :
    Settled mc hits ↔ ∀ move ∈ misplaced mc [] hits, move.2.adcr = 0 := by
  constructor
  · intro hsettled move hmove
    obtain ⟨_, before, hsuffix, _, crystal, hmem, hcrystal, _⟩ := mem_misplaced hmove
    exact adcr_eq_zero_of_settled hadcr hsettled hsuffix crystal hmem move hmove hcrystal
  · intro hzero channel
    have hsum : ∀ p : CaloIndex × CalorimeterMCHit → Bool,
        (((misplaced mc [] hits).filter p).map (fun move => move.2.adcr)).sum = 0 := by
      intro p
      refine List.sum_eq_zero ?_
      intro amount hamount
      obtain ⟨move, hfiltered, rfl⟩ := List.mem_map.mp hamount
      exact hzero move (List.mem_filter.mp hfiltered).1
    unfold gained lost
    rw [hsum, hsum]

end Nonneg

theorem settled_of_conserved {mc : MCType} {hits : List CalorimeterMCHit}
    (hrecognised : ∀ hit ∈ hits, (setIndex mc hit).isSome = true)
    (h : ∃ digis, evnt mc hits = some digis ∧ Conserved mc hits digis) : Settled mc hits := by
  obtain ⟨digis, hrun, _, hpublished, hcharge⟩ := evnt_spec hrecognised
  obtain ⟨digis', hrun', hconserved⟩ := h
  obtain rfl : digis = digis' := Option.some.inj (hrun.symm.trans hrun')
  intro channel
  by_cases hpresent : ∃ hit ∈ hits, HasChannel mc hit channel
  · obtain ⟨digi, hmem, rfl⟩ := (hpublished channel).mpr hpresent
    have hwanted := hconserved.charge digi hmem
    rw [hcharge digi hmem, Int.cast_inj] at hwanted
    omega
  · exact settled_of_absent hpresent

/-- **Charge is conserved, crystal by crystal, if and only if the misplaced charges cancel.** -/
theorem conserved_iff_settled (mc : MCType) (hits : List CalorimeterMCHit)
    (hrecognised : ∀ hit ∈ hits, (setIndex mc hit).isSome = true) :
    (∃ digis, evnt mc hits = some digis ∧ Conserved mc hits digis) ↔ Settled mc hits := by
  constructor
  · exact settled_of_conserved hrecognised
  · intro hsettled
    obtain ⟨digis, hrun, hnodup, hpublished, hcharge⟩ := evnt_spec hrecognised
    refine ⟨digis, hrun, hnodup, hpublished, ?_⟩
    intro digi hmem
    rw [hcharge digi hmem, hsettled digi.channel, Int.add_sub_cancel]

/-- Two hits in one crystal, and then one in another. -/
theorem conserved_iff_settled_in_order :
    (∃ digis, evnt .fullV1 [⟨1, 1, 1, 0, 100, 0, 5, 0, 0, 0, 0, none, none⟩, ⟨1, 1, 1, 0, 50, 0, 6, 0, 0, 0, 0, none, none⟩,
        ⟨2, 1, 1, 0, 200, 0, 7, 0, 0, 0, 0, none, none⟩] = some digis ∧
      Conserved .fullV1 [⟨1, 1, 1, 0, 100, 0, 5, 0, 0, 0, 0, none, none⟩, ⟨1, 1, 1, 0, 50, 0, 6, 0, 0, 0, 0, none, none⟩,
        ⟨2, 1, 1, 0, 200, 0, 7, 0, 0, 0, 0, none, none⟩] digis) ↔
    Settled .fullV1 [⟨1, 1, 1, 0, 100, 0, 5, 0, 0, 0, 0, none, none⟩, ⟨1, 1, 1, 0, 50, 0, 6, 0, 0, 0, 0, none, none⟩,
        ⟨2, 1, 1, 0, 200, 0, 7, 0, 0, 0, 0, none, none⟩] :=
  conserved_iff_settled _ _ (by decide)

/-- The second hit of a crystal after a hit of another one: 50 is added to the other. -/
theorem not_conserved_alternating :
    (∀ hit ∈ [(⟨1, 1, 1, 0, 100, 0, 5, 0, 0, 0, 0, none, none⟩ : CalorimeterMCHit),
        ⟨2, 1, 1, 0, 200, 0, 7, 0, 0, 0, 0, none, none⟩, ⟨1, 1, 1, 0, 50, 0, 6, 0, 0, 0, 0, none, none⟩],
      (setIndex .fullV1 hit).isSome = true) ∧
    ¬ ∃ digis, evnt .fullV1 [⟨1, 1, 1, 0, 100, 0, 5, 0, 0, 0, 0, none, none⟩,
        ⟨2, 1, 1, 0, 200, 0, 7, 0, 0, 0, 0, none, none⟩, ⟨1, 1, 1, 0, 50, 0, 6, 0, 0, 0, 0, none, none⟩] = some digis ∧
      Conserved .fullV1 [⟨1, 1, 1, 0, 100, 0, 5, 0, 0, 0, 0, none, none⟩,
        ⟨2, 1, 1, 0, 200, 0, 7, 0, 0, 0, 0, none, none⟩, ⟨1, 1, 1, 0, 50, 0, 6, 0, 0, 0, 0, none, none⟩] digis := by
  refine ⟨by decide, ?_⟩
  intro h
  exact absurd (settled_of_conserved (by decide) h ⟨0, 0, 0, 1⟩) (by decide)

end CalorimeterDigiHitFactoryMC

end BdxReco
