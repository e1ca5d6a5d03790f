import BdxReco.DAQ.Event
import BdxReco.MC.McHits
import BdxReco.TT.Index
import Mathlib.Algebra.Order.Ring.Rat
import Mathlib.Tactic.NormNum

/-!
# `MC.McSource` — the hits of a simulated event, from its banks

`JEventSourceEvioMC::GetObjects`. The simulation writes two banks for a detector, the digitised one and the raw one, not
always in the same order: a row of the one belongs to the row of the other with the same hit number. The search for it is
written three times. The two classes of the vetoes start with an energy of 0, which drops a row without a partner; that of
the calorimeter does not set it (`matchedByHitn_iff`).
-/

namespace BdxReco

/-- `hitOutput`, a row of a bank, with its accessors. -/
structure HitOutput where
  getIntRawVar : String → ℚ
  getIntDgtVar : String → ℚ

/-- `Mevent`. A bank that is not there is empty. -/
structure Mevent where
  dgtBanks : String → List HitOutput
  rawBanks : String → List HitOutput

namespace EvioMCSource

/-! ## The search -/

/-- The loop over the raw bank, up to its `break`. -/
def partner (bankRaw : List HitOutput) (dgt : HitOutput) : Option HitOutput :=
  bankRaw.find? (fun raw => raw.getIntRawVar "hitn" = dgt.getIntDgtVar "hitn")

section Loop

variable {α : Type} (considered : HitOutput → Prop) [DecidablePred considered] (fresh : Option ℚ)
  (fill : HitOutput → Option HitOutput → ℚ → α)

/-- One digitised row. A new hit has the energy `fresh`; `none`: it is compared without having been set. -/
def turn (bankRaw : List HitOutput) (hits : List α) (dgt : HitOutput) : Option (List α) :=
  if considered dgt then
    let raw := partner bankRaw dgt
    match (raw.map (fun raw => raw.getIntRawVar "totEdep")).or fresh with
    | none => none
    | some totEdep =>
      -- hits without energy, from neutrinos, are not wanted
      if totEdep ≤ 1 / 100000 then some hits else some (hits ++ [fill dgt raw totEdep])
  else some hits

/-- The loop over the digitised bank: an error if the banks are of different sizes, else what is published. -/
def collect (bankDgt bankRaw : List HitOutput) : Option (Except JError (List α)) :=
  if bankDgt.length ≠ bankRaw.length then some (Except.error .valueOutOfRange)
  else (bankDgt.foldlM (turn considered fresh fill bankRaw) []).map Except.ok

end Loop

/-! ## The three classes -/

def fillCalorimeterMCHit (dgt : HitOutput) (raw : Option HitOutput) (totEdep : ℚ) : CalorimeterMCHit where
  x := truncate (dgt.getIntDgtVar "xch")
  y := truncate (dgt.getIntDgtVar "ych")
  sector := truncate (dgt.getIntDgtVar "sector")
  adcl := truncate (dgt.getIntDgtVar "adcl")
  adcr := truncate (dgt.getIntDgtVar "adcr")
  tdcl := truncate (dgt.getIntDgtVar "tdcl")
  tdcr := truncate (dgt.getIntDgtVar "tdcr")
  adcb := truncate (dgt.getIntDgtVar "adcb")
  adcf := truncate (dgt.getIntDgtVar "adcf")
  tdcb := truncate (dgt.getIntDgtVar "tdcb")
  tdcf := truncate (dgt.getIntDgtVar "tdcf")
  totEdep := some totEdep
  pid := raw.map (fun raw => truncate (raw.getIntRawVar "pid"))

/-- The systems of the inner veto; both vetoes of BDXmini are there. -/
def InIntVeto (dgt : HitOutput) : Prop :=
  dgt.getIntDgtVar "veto" = VetoMCHit.cataniaIntVeto ∨ dgt.getIntDgtVar "veto" = VetoMCHit.fullIntVeto ∨
    dgt.getIntDgtVar "veto" = VetoMCHit.jlabFlux ∨ dgt.getIntDgtVar "veto" = VetoMCHit.bdxminiIntVeto ∨
    dgt.getIntDgtVar "veto" = VetoMCHit.bdxminiExtVeto

instance : DecidablePred InIntVeto := fun _ => inferInstanceAs (Decidable (_ ∨ _))

/-- `new` leaves the members of the second half as they are, and only the BDXmini geometry has them. -/
def fillIntVetoMCHit (mc : MCType) (new : IntVetoMCHit) (dgt : HitOutput) (_ : Option HitOutput) (totEdep : ℚ) :
    IntVetoMCHit where
  sector := truncate (dgt.getIntDgtVar "sector")
  channel := truncate (dgt.getIntDgtVar "channel")
  system := truncate (dgt.getIntDgtVar "veto")
  adc1 := truncate (dgt.getIntDgtVar "adc1")
  adc2 := truncate (dgt.getIntDgtVar "adc2")
  adc3 := truncate (dgt.getIntDgtVar "adc3")
  adc4 := truncate (dgt.getIntDgtVar "adc4")
  tdc1 := truncate (dgt.getIntDgtVar "tdc1")
  tdc2 := truncate (dgt.getIntDgtVar "tdc2")
  tdc3 := truncate (dgt.getIntDgtVar "tdc3")
  tdc4 := truncate (dgt.getIntDgtVar "tdc4")
  adc5 := if mc = .bdxminiV1 then truncate (dgt.getIntDgtVar "adc5") else new.adc5
  adc6 := if mc = .bdxminiV1 then truncate (dgt.getIntDgtVar "adc6") else new.adc6
  adc7 := if mc = .bdxminiV1 then truncate (dgt.getIntDgtVar "adc7") else new.adc7
  adc8 := if mc = .bdxminiV1 then truncate (dgt.getIntDgtVar "adc8") else new.adc8
  tdc5 := if mc = .bdxminiV1 then truncate (dgt.getIntDgtVar "tdc5") else new.tdc5
  tdc6 := if mc = .bdxminiV1 then truncate (dgt.getIntDgtVar "tdc6") else new.tdc6
  tdc7 := if mc = .bdxminiV1 then truncate (dgt.getIntDgtVar "tdc7") else new.tdc7
  tdc8 := if mc = .bdxminiV1 then truncate (dgt.getIntDgtVar "tdc8") else new.tdc8
  totEdep := totEdep

/-- The systems of the outer veto. -/
def InExtVeto (dgt : HitOutput) : Prop :=
  dgt.getIntDgtVar "veto" = VetoMCHit.cataniaExtVeto ∨ dgt.getIntDgtVar "veto" = VetoMCHit.fullExtVeto

instance : DecidablePred InExtVeto := fun _ => inferInstanceAs (Decidable (_ ∨ _))

def fillExtVetoMCHit (dgt : HitOutput) (_ : Option HitOutput) (totEdep : ℚ) : ExtVetoMCHit where
  sector := truncate (dgt.getIntDgtVar "sector")
  channel := truncate (dgt.getIntDgtVar "channel")
  system := truncate (dgt.getIntDgtVar "veto")
  adc1 := truncate (dgt.getIntDgtVar "adc1")
  tdc1 := truncate (dgt.getIntDgtVar "tdc1")
  adc2 := truncate (dgt.getIntDgtVar "adc2")
  tdc2 := truncate (dgt.getIntDgtVar "tdc2")
  adc3 := truncate (dgt.getIntDgtVar "adc3")
  tdc3 := truncate (dgt.getIntDgtVar "tdc3")
  adc4 := truncate (dgt.getIntDgtVar "adc4")
  tdc4 := truncate (dgt.getIntDgtVar "tdc4")
  totEdep := totEdep

/-- `GetObjects` for `CalorimeterMCHit`: `totEdep` of a new hit is not set. -/
def getCalorimeterMCHits (event : Mevent) : Option (Except JError (List CalorimeterMCHit)) :=
  collect (fun _ => True) none fillCalorimeterMCHit (event.dgtBanks "crs") (event.rawBanks "crs")

/-- `GetObjects` for `IntVetoMCHit`. -/
def getIntVetoMCHits (mc : MCType) (new : IntVetoMCHit) (event : Mevent) :
    Option (Except JError (List IntVetoMCHit)) :=
  collect InIntVeto (some 0) (fillIntVetoMCHit mc new) (event.dgtBanks "veto") (event.rawBanks "veto")

/-- `GetObjects` for `ExtVetoMCHit`. -/
def getExtVetoMCHits (event : Mevent) : Option (Except JError (List ExtVetoMCHit)) :=
  collect InExtVeto (some 0) fillExtVetoMCHit (event.dgtBanks "veto") (event.rawBanks "veto")

/-! ## What is wanted -/

/-- The raw rows of a digitised row, with energy. -/
def partners (bankRaw : List HitOutput) (dgt : HitOutput) : List HitOutput :=
  bankRaw.filter (fun raw => raw.getIntRawVar "hitn" = dgt.getIntDgtVar "hitn" ∧ 1 / 100000 < raw.getIntRawVar "totEdep")

/-- The digitised rows that have a raw row with energy, each with this energy. -/
def matched {α : Type} (considered : HitOutput → Prop) [DecidablePred considered]
    (fill : HitOutput → Option HitOutput → ℚ → α) (bankDgt bankRaw : List HitOutput) : List α :=
  (bankDgt.filter considered).flatMap (fun dgt =>
    (partners bankRaw dgt).map (fun raw => fill dgt (some raw) (raw.getIntRawVar "totEdep")))

/-- The raw banks in another order. -/
def Reordered (event event' : Mevent) : Prop :=
  event'.dgtBanks = event.dgtBanks ∧ ∀ name, (event'.rawBanks name).Perm (event.rawBanks name)

/-- **Rows are matched by hit number.** -/
structure MatchedByHitn (mc : MCType) (new : IntVetoMCHit) (event : Mevent) : Prop where
  calorimeter : getCalorimeterMCHits event = some (Except.ok
    (matched (fun _ => True) fillCalorimeterMCHit (event.dgtBanks "crs") (event.rawBanks "crs")))
  intVeto : getIntVetoMCHits mc new event = some (Except.ok
    (matched InIntVeto (fillIntVetoMCHit mc new) (event.dgtBanks "veto") (event.rawBanks "veto")))
  extVeto : getExtVetoMCHits event = some (Except.ok
    (matched InExtVeto fillExtVetoMCHit (event.dgtBanks "veto") (event.rawBanks "veto")))
  order : ∀ event', Reordered event event' →
    getCalorimeterMCHits event' = getCalorimeterMCHits event ∧
      getIntVetoMCHits mc new event' = getIntVetoMCHits mc new event ∧
      getExtVetoMCHits event' = getExtVetoMCHits event

/-- Two banks of one size, where a digitised row has at most one raw row. -/
structure Paired (bankDgt bankRaw : List HitOutput) : Prop where
  length : bankDgt.length = bankRaw.length
  unique : ∀ dgt ∈ bankDgt,
    (bankRaw.filter (fun raw => raw.getIntRawVar "hitn" = dgt.getIntDgtVar "hitn")).length ≤ 1

/-- A digitised row has a raw row. -/
def HasPartner (bankRaw : List HitOutput) (dgt : HitOutput) : Prop :=
  ∃ raw ∈ bankRaw, raw.getIntRawVar "hitn" = dgt.getIntDgtVar "hitn"

/-! ## The search and the loop -/

section Search

variable {bankDgt bankRaw bankRaw' : List HitOutput} {dgt : HitOutput}

theorem hasPartner_iff : HasPartner bankRaw dgt ↔ partner bankRaw dgt ≠ none := by
  unfold HasPartner partner
  rw [Ne, List.find?_eq_none]
  simp

theorem eq_toList_head? {rows : List HitOutput} (h : rows.length ≤ 1) : rows = rows.head?.toList := by
  match rows with
  | [] => rfl
  | [_] => rfl
  | _ :: _ :: _ => simp at h

theorem eq_of_perm {rows rows' : List HitOutput} (h : rows.length ≤ 1) (hperm : rows'.Perm rows) : rows' = rows := by
  match rows with
  | [] => exact hperm.eq_nil
  | [row] => exact List.perm_singleton.mp hperm
  | _ :: _ :: _ => simp at h

/-- The rows with the hit number: the one that is found, and no other. -/
theorem filter_eq_partner (hunique :
    (bankRaw.filter (fun raw => raw.getIntRawVar "hitn" = dgt.getIntDgtVar "hitn")).length ≤ 1) :
    bankRaw.filter (fun raw => raw.getIntRawVar "hitn" = dgt.getIntDgtVar "hitn") = (partner bankRaw dgt).toList := by
  unfold partner
  rw [← List.head?_filter]
  exact eq_toList_head? hunique

theorem partners_eq (hunique :
    (bankRaw.filter (fun raw => raw.getIntRawVar "hitn" = dgt.getIntDgtVar "hitn")).length ≤ 1) :
    partners bankRaw dgt = (partner bankRaw dgt).toList.filter (fun raw => 1 / 100000 < raw.getIntRawVar "totEdep") := by
  rw [← filter_eq_partner hunique, List.filter_filter]
  unfold partners
  refine List.filter_congr ?_
  intro raw _
  rw [Bool.decide_and, Bool.and_comm]

end Search

section Loop

variable {α : Type} {considered : HitOutput → Prop} [DecidablePred considered] {fresh : Option ℚ}
  {fill : HitOutput → Option HitOutput → ℚ → α} {bankDgt bankRaw bankRaw' : List HitOutput} {dgt : HitOutput}

/-- A row of another detector. -/
theorem turn_other (h : ¬ considered dgt) (hits : List α) :
    turn considered fresh fill bankRaw hits dgt = some hits := by
  unfold turn
  rw [if_neg h]

/-- A row with a partner is kept with its energy. -/
theorem turn_partner {raw : HitOutput} (h : considered dgt) (hraw : partner bankRaw dgt = some raw)
    (hunique : (bankRaw.filter (fun raw => raw.getIntRawVar "hitn" = dgt.getIntDgtVar "hitn")).length ≤ 1)
    (hits : List α) :
    turn considered fresh fill bankRaw hits dgt = some (hits ++
      (partners bankRaw dgt).map (fun raw => fill dgt (some raw) (raw.getIntRawVar "totEdep"))) := by
  unfold turn
  rw [partners_eq hunique, hraw, if_pos h]
  show (if raw.getIntRawVar "totEdep" ≤ 1 / 100000 then some hits
    else some (hits ++ [fill dgt (some raw) (raw.getIntRawVar "totEdep")])) = _
  by_cases hlow : raw.getIntRawVar "totEdep" ≤ 1 / 100000
  · rw [if_pos hlow, Option.toList_some, List.filter_singleton, decide_eq_false (not_lt.mpr hlow)]
    simp
  · rw [if_neg hlow, Option.toList_some, List.filter_singleton, decide_eq_true (not_le.mp hlow)]
    simp

theorem partners_of_none (hraw : partner bankRaw dgt = none) : partners bankRaw dgt = [] := by
  unfold partners
  rw [List.filter_eq_nil_iff]
  intro raw hmem hrow
  exact List.find?_eq_none.mp hraw raw hmem (decide_eq_true (of_decide_eq_true hrow).1)

/-- A row without a partner, for a class that starts with an energy of 0. -/
theorem turn_alone (hraw : partner bankRaw dgt = none) (hits : List α) :
    turn considered (some 0) fill bankRaw hits dgt = some hits := by
  unfold turn
  rw [hraw]
  show (if considered dgt then if (0 : ℚ) ≤ 1 / 100000 then some hits else _ else some hits) = some hits
  by_cases h : considered dgt
  · rw [if_pos h, if_pos (by norm_num)]
  · rw [if_neg h]

/-- A row without a partner, for a class that does not set the energy. -/
theorem turn_unset (h : considered dgt) (hraw : partner bankRaw dgt = none) (hits : List α) :
    turn considered none fill bankRaw hits dgt = none := by
  unfold turn
  rw [if_pos h, hraw]
  rfl

/-- What a row should add. -/
theorem turn_spec (hunique : (bankRaw.filter (fun raw => raw.getIntRawVar "hitn" = dgt.getIntDgtVar "hitn")).length ≤ 1)
    (hset : fresh = some 0 ∨ (considered dgt → HasPartner bankRaw dgt)) (hits : List α) :
    turn considered fresh fill bankRaw hits dgt = some (hits ++ matched considered fill [dgt] bankRaw) := by
  unfold matched
  by_cases h : considered dgt
  · rw [List.filter_singleton, decide_eq_true h]
    show _ = some (hits ++ List.flatMap _ [dgt])
    rw [List.flatMap_singleton]
    rcases hraw : partner bankRaw dgt with _ | raw
    · rcases hset with rfl | hpartner
      · rw [turn_alone hraw hits, partners_of_none hraw]
        simp
      · exact absurd hraw (hasPartner_iff.mp (hpartner h))
    · exact turn_partner h hraw hunique hits
  · rw [turn_other h, List.filter_singleton, decide_eq_false h]
    simp

theorem matched_cons (dgt : HitOutput) (bankDgt bankRaw : List HitOutput) :
    matched considered fill (dgt :: bankDgt) bankRaw
      = matched considered fill [dgt] bankRaw ++ matched considered fill bankDgt bankRaw := by
  unfold matched
  rw [← List.flatMap_append, ← List.filter_append]
  rfl

/-- **The loop publishes the matched rows**, where no energy is compared that has not been set. -/
theorem collect_eq (hpaired : Paired bankDgt bankRaw)
    (hset : fresh = some 0 ∨ ∀ dgt ∈ bankDgt, considered dgt → HasPartner bankRaw dgt) :
    collect considered fresh fill bankDgt bankRaw = some (Except.ok (matched considered fill bankDgt bankRaw)) := by
  have hrun : ∀ rows hits, (∀ dgt ∈ rows, dgt ∈ bankDgt) →
      rows.foldlM (turn considered fresh fill bankRaw) hits = some (hits ++ matched considered fill rows bankRaw) := by
    intro rows
    induction rows with
    | nil =>
        intro hits _
        simp [matched]
    | cons dgt rows ih =>
        intro hits hmem
        rw [List.forall_mem_cons] at hmem
        rw [List.foldlM_cons, turn_spec (hpaired.unique dgt hmem.1) (hset.imp_right (fun h => h dgt hmem.1)),
          matched_cons dgt rows, ← List.append_assoc]
        exact ih _ hmem.2
  unfold collect
  rw [if_neg (not_not.mpr hpaired.length), hrun bankDgt [] (fun _ h => h)]
  rfl

/-- A row without a partner, where the energy is not set. -/
theorem collect_eq_none (hlength : bankDgt.length = bankRaw.length) (hmem : dgt ∈ bankDgt) (h : considered dgt)
    (hraw : ¬ HasPartner bankRaw dgt) : collect considered none fill bankDgt bankRaw = none := by
  have hpartner : partner bankRaw dgt = none := by
    rw [hasPartner_iff, not_not] at hraw
    exact hraw
  have hrun : bankDgt.foldlM (turn considered none fill bankRaw) [] = none := by
    obtain ⟨before, after, rfl⟩ := List.append_of_mem hmem
    rw [List.foldlM_append]
    rcases before.foldlM (turn considered none fill bankRaw) [] with _ | hits
    · rfl
    · show (dgt :: after).foldlM (turn considered none fill bankRaw) hits = none
      rw [List.foldlM_cons, turn_unset h hpartner hits]
      rfl
  unfold collect
  rw [if_neg (not_not.mpr hlength), hrun]
  rfl

/-- The matched rows do not depend on the order of the raw bank. -/
theorem matched_perm (hpaired : Paired bankDgt bankRaw) (hperm : bankRaw'.Perm bankRaw) :
    matched considered fill bankDgt bankRaw' = matched considered fill bankDgt bankRaw := by
  unfold matched
  refine List.flatMap_congr ?_
  intro dgt hdgt
  have hunique := hpaired.unique dgt (List.mem_filter.mp hdgt).1
  have hle : (partners bankRaw dgt).length ≤ 1 := by
    rw [partners_eq hunique]
    exact (List.length_filter_le _ _).trans (by cases partner bankRaw dgt <;> simp)
  have hfilter : (partners bankRaw' dgt).Perm (partners bankRaw dgt) := hperm.filter _
  rw [eq_of_perm hle hfilter]

theorem Paired.perm (hpaired : Paired bankDgt bankRaw) (hperm : bankRaw'.Perm bankRaw) : Paired bankDgt bankRaw' := by
  refine ⟨hpaired.length.trans hperm.length_eq.symm, ?_⟩
  intro dgt hdgt
  rw [(hperm.filter _).length_eq]
  exact hpaired.unique dgt hdgt

end Loop

/-- **Rows are matched by hit number if and only if every digitised row of the calorimeter has a raw row.** -/
theorem matchedByHitn_iff (mc : MCType) (new : IntVetoMCHit) (event : Mevent)
    (hcrs : Paired (event.dgtBanks "crs") (event.rawBanks "crs"))
    (hveto : Paired (event.dgtBanks "veto") (event.rawBanks "veto")) :
    MatchedByHitn mc new event ↔ ∀ dgt ∈ event.dgtBanks "crs", HasPartner (event.rawBanks "crs") dgt := by
  constructor
  · intro h dgt hdgt
    by_contra hpartner
    have hcalorimeter := h.calorimeter
    unfold getCalorimeterMCHits at hcalorimeter
    rw [collect_eq_none hcrs.length hdgt trivial hpartner] at hcalorimeter
    cases hcalorimeter
  · intro hpartner
    refine ⟨collect_eq hcrs (Or.inr fun dgt hdgt _ => hpartner dgt hdgt), collect_eq hveto (Or.inl rfl),
      collect_eq hveto (Or.inl rfl), ?_⟩
    rintro ⟨dgtBanks, rawBanks⟩ ⟨rfl, hperm⟩
    have hpartner' : ∀ dgt ∈ event.dgtBanks "crs", HasPartner (rawBanks "crs") dgt := by
      intro dgt hdgt
      obtain ⟨raw, hraw, hhitn⟩ := hpartner dgt hdgt
      exact ⟨raw, (hperm "crs").mem_iff.mpr hraw, hhitn⟩
    refine ⟨?_, ?_, ?_⟩
    · unfold getCalorimeterMCHits
      rw [collect_eq hcrs (Or.inr fun dgt hdgt _ => hpartner dgt hdgt),
        collect_eq (hcrs.perm (hperm "crs")) (Or.inr fun dgt hdgt _ => hpartner' dgt hdgt),
        matched_perm hcrs (hperm "crs")]
    · unfold getIntVetoMCHits
      rw [collect_eq hveto (Or.inl rfl), collect_eq (hveto.perm (hperm "veto")) (Or.inl rfl),
        matched_perm hveto (hperm "veto")]
    · unfold getExtVetoMCHits
      rw [collect_eq hveto (Or.inl rfl), collect_eq (hveto.perm (hperm "veto")) (Or.inl rfl),
        matched_perm hveto (hperm "veto")]

/-- A row with these variables, the others being 1. -/
def row (hitn totEdep : ℚ) : HitOutput where
  getIntRawVar := fun name => if name = "hitn" then hitn else if name = "totEdep" then totEdep else 1
  getIntDgtVar := fun name => if name = "hitn" then hitn else 1

/-- Two hits, digitised in the order of the first list and raw in that of the second, in both banks. -/
def twoBanks (dgt raw : List HitOutput) : Mevent where
  dgtBanks := fun _ => dgt
  rawBanks := fun _ => raw

/-- Two hits in different orders. -/
theorem matchedByHitn_iff_reordered :
    MatchedByHitn .fullV1 ⟨0, 0, 0, 0, 0, 0, 0, 0, 0, 0, 0, 0, 0, 0, 0, 0, 0, 0, 0, 0⟩
        (twoBanks [row 1 5, row 2 7] [row 2 7, row 1 5]) ↔
      ∀ dgt ∈ (twoBanks [row 1 5, row 2 7] [row 2 7, row 1 5]).dgtBanks "crs",
        HasPartner ((twoBanks [row 1 5, row 2 7] [row 2 7, row 1 5]).rawBanks "crs") dgt :=
  matchedByHitn_iff _ _ _ ⟨rfl, by decide⟩ ⟨rfl, by decide⟩

/-- A digitised row with hit number 1, and a raw row with hit number 2: an energy is compared that is not set. -/
theorem not_matchedByHitn_unset :
    Paired ((twoBanks [row 1 5] [row 2 7]).dgtBanks "crs") ((twoBanks [row 1 5] [row 2 7]).rawBanks "crs") ∧
      Paired ((twoBanks [row 1 5] [row 2 7]).dgtBanks "veto") ((twoBanks [row 1 5] [row 2 7]).rawBanks "veto") ∧
      ¬ MatchedByHitn .fullV1 ⟨0, 0, 0, 0, 0, 0, 0, 0, 0, 0, 0, 0, 0, 0, 0, 0, 0, 0, 0, 0⟩
        (twoBanks [row 1 5] [row 2 7]) := by
  have hpaired : Paired [row 1 5] [row 2 7] := ⟨rfl, by decide⟩
  refine ⟨hpaired, hpaired, ?_⟩
  intro h
  have hnone : getCalorimeterMCHits (twoBanks [row 1 5] [row 2 7]) = none :=
    collect_eq_none rfl List.mem_cons_self trivial (by
      rintro ⟨raw, hraw, hhitn⟩
      rw [List.mem_singleton.mp hraw] at hhitn
      exact absurd hhitn (by decide))
  rw [h.calorimeter] at hnone
  cases hnone

end EvioMCSource

end BdxReco
