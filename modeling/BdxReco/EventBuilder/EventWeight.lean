import BdxReco.EventBuilder.TEvent
import BdxReco.Lib.Dom
import BdxReco.Lib.Run

/-!
# `EventBuilder.EventWeight` — the weight of a simulated event

The user's numbers of an event are the variables of one bank of the file. `GetObjects` makes a `UserMCData` of each, in
the order of the bank, and `TEvent_factory_BDXmini::evnt` takes the weight of the event from them: the tenth number of a
LUND file, or the only one there is. It goes through all of them and lets the later one win (`weight_iff`).
-/

namespace BdxReco

open Run

/-! ## The user data of a file -/

/-- A tree of banks of a simulated event; a node has a tag and a number, a leaf holds `double`s. -/
abbrev McTree : Type := Dom (Nat × Nat) (List ℚ)

namespace EvioMCSource

/-- One variable of the bank; `none` when it is not a leaf or has no value. -/
def readVariable (node : McTree) : Option UserMCData := do
  let pData ← node.data?
  let data ← pData[0]?
  some { data, N := node.tag.2 }

/-- The body of the loop over the nodes: the user's bank is a container with the tag 11 and the number 0. -/
def readUserBank (userMCdata : List UserMCData) (node : McTree) : Option (List UserMCData) :=
  match node.children? with
  | none => some userMCdata
  | some variablesNodes =>
    if node.tag = (11, 0) then (variablesNodes.mapM readVariable).map (fun read => userMCdata ++ read)
    else some userMCdata

/-- `GetObjects` for `UserMCData`. -/
def getUserMCData (getNodeList : McTree → List McTree) (edt : McTree) : Option (List UserMCData) :=
  (getNodeList edt).foldlM readUserBank []

/-- The user's bank with these numbers. -/
def userBank (numbers : List (Nat × ℚ)) : McTree := .container (11, 0) (numbers.map (fun v => .leaf (0, v.1) [v.2]))

theorem readVariables_leaves (numbers : List (Nat × ℚ)) :
    (numbers.map (fun v => (.leaf (0, v.1) [v.2] : McTree))).mapM readVariable
      = some (numbers.map (fun v => { data := v.2, N := v.1 })) := by
  induction numbers with
  | nil => rfl
  | cons v numbers ih =>
      rw [List.map_cons, List.mapM_cons, ih]
      rfl

/-- **The user data are those of the bank, in its order.** -/
theorem getUserMCData_userBank {getNodeList : McTree → List McTree} (hlist : ∀ edt, getNodeList edt = edt.nodes)
    (numbers : List (Nat × ℚ)) :
    getUserMCData getNodeList (userBank numbers)
      = some (numbers.map (fun v => { data := v.2, N := v.1 })) := by
  have hleaves : ∀ (l : List (Nat × ℚ)) (read : List UserMCData),
      (l.flatMap (fun v => (.leaf (0, v.1) [v.2] : McTree).nodes)).foldlM readUserBank read = some read := by
    intro l read
    induction l with
    | nil => rfl
    | cons v l ih =>
        rw [List.flatMap_cons, Dom.nodes_leaf, List.singleton_append, List.foldlM_cons]
        exact ih
  have hbank : readUserBank [] (userBank numbers) = some (numbers.map (fun v => { data := v.2, N := v.1 })) := by
    have hread : readUserBank [] (userBank numbers)
        = ((numbers.map (fun v => (.leaf (0, v.1) [v.2] : McTree))).mapM readVariable).map ([] ++ ·) := rfl
    rw [hread, readVariables_leaves]
    rfl
  unfold getUserMCData
  rw [hlist, userBank, Dom.nodes_container, List.foldlM_cons, ← userBank, hbank, List.flatMap_map]
  exact hleaves numbers _

end EvioMCSource

/-! ## The weight -/

namespace TEventFactoryBDXmini

/-- A weight, where 0 becomes 1. -/
def orOne (w : ℚ) : ℚ := if w = 0 then 1 else w

/-- The numbers that the weight can be taken from. -/
def MayWeigh (u : UserMCData) : Prop := u.N = 1 ∨ u.N = 10

theorem setWeightFrom_weight (h : TEventHeader) (u : UserMCData) : (setWeightFrom h u).weight = orOne u.data := by
  unfold setWeightFrom orOne
  dsimp only [TEventHeader.setWeight, TEventHeader.getWeight]
  by_cases hzero : u.data = 0
  · simp only [hzero, if_true]
  · simp only [hzero, if_false]

theorem readUserMCData_weight {u : UserMCData} (hu : MayWeigh u) (h : TEventHeader) :
    (readUserMCData h u).weight = orOne u.data := by
  unfold readUserMCData
  rcases hu with hN | hN
  · simp [hN, setWeightFrom_weight]
  · simp [hN, setWeightFrom_weight]

theorem readUserMCData_of_not {u : UserMCData} (hu : ¬ MayWeigh u) (h : TEventHeader) : readUserMCData h u = h := by
  obtain ⟨hne, hne'⟩ := not_or.mp hu
  unfold readUserMCData
  simp only [hne, hne', if_false]

/-- The loop leaves the weight of the last number that has one. -/
theorem weight_of_lastWith {l : List UserMCData} {u : UserMCData} (hlast : LastWith MayWeigh l u) (h : TEventHeader) :
    (l.foldl readUserMCData h).weight = orOne u.data :=
  (exec_lastWrite readUserMCData TEventHeader.weight MayWeigh (fun u => orOne u.data)
    (fun h _ _ hu => readUserMCData_weight hu h)
    (fun h _ _ hu => by rw [readUserMCData_of_not hu h]) h).1 u hlast

/-- The number that the weight is to be taken from: the tenth, or the first if there is no tenth. -/
def IsWeight (l : List UserMCData) (u : UserMCData) : Prop :=
  u ∈ l ∧ (u.N = 10 ∨ (u.N = 1 ∧ ∀ v ∈ l, v.N ≠ 10))

/-- The event is published with the right weight. -/
def WeightRight (p : Parms) (eventnumber : Nat) (ev : Inputs) : Prop :=
  ∃ e, evnt p eventnumber ev = (.noError, [e]) ∧ ∀ u, IsWeight ev.userMCdata u → e.eventHeader.weight = orOne u.data

/-- The numbers in front of which none of the others may stand: the first behind the tenth counts in its place. -/
def TenthCounts (l : List UserMCData) : Prop :=
  ∀ pre u suf, l = pre ++ u :: suf → u.N = 10 → ∀ v ∈ suf, v.N = 1 → orOne u.data = orOne v.data

/-- A simulated event is always published; its weight is what the loop leaves. -/
theorem weightRight_iff {p : Parms} (hMC : p.isMC = true) (eventnumber : Nat) (ev : Inputs) :
    WeightRight p eventnumber ev ↔ ∀ u, IsWeight ev.userMCdata u →
      (ev.userMCdata.foldl readUserMCData (mcHeader p eventnumber)).weight = orOne u.data := by
  have hheader : (addMC ev (addHits ev { eventHeader := mcHeader p eventnumber })).eventHeader
      = ev.userMCdata.foldl readUserMCData (mcHeader p eventnumber) := by
    simp [addMC, addHits, TEvent.addCollection, TEvent.hasCollection, Collection.getClass]
  unfold WeightRight evnt
  simp only [hMC, if_true, Prod.mk.injEq, true_and, List.cons.injEq, and_true, exists_eq_left', hheader]

section Distinct

variable {l : List UserMCData} (hdistinct : (l.map UserMCData.N).Nodup)
include hdistinct

/-- With different numbers, the first behind the tenth is the last that has a weight. -/
theorem lastWith_of_behind {pre suf : List UserMCData} {u v : UserMCData} (hl : l = pre ++ u :: suf) (hu : u.N = 10)
    (hv : v ∈ suf) (hv1 : v.N = 1) : LastWith MayWeigh l v := by
  obtain ⟨mid, rest, rfl⟩ := List.append_of_mem hv
  refine ⟨pre ++ u :: mid, rest, by simp [hl], Or.inl hv1, ?_⟩
  intro w hw hweigh
  subst hl
  have hnodup := hdistinct
  simp only [List.map_append, List.map_cons, List.nodup_append, List.nodup_cons, List.mem_append, List.mem_cons,
    List.mem_map, not_or, not_exists, not_and] at hnodup
  obtain ⟨-, ⟨⟨-, hu', hu''⟩, -, ⟨hv', -⟩, -⟩, -⟩ := hnodup
  rcases hweigh with hw1 | hw10
  · exact hv' w hw (hw1.trans hv1.symm)
  · exact hu'' w hw (hw10.trans hu.symm)

theorem eq_of_N_eq {u v : UserMCData} (hu : u ∈ l) (hv : v ∈ l) (h : u.N = v.N) : u = v :=
  List.inj_on_of_nodup_map hdistinct hu hv h

end Distinct

/-- **The weight is right** exactly when the first number does not stand behind the tenth, or says the same. -/
theorem weight_iff {p : Parms} (hMC : p.isMC = true) {ev : Inputs}
    (hdistinct : (ev.userMCdata.map UserMCData.N).Nodup) (eventnumber : Nat) :
    WeightRight p eventnumber ev ↔ TenthCounts ev.userMCdata := by
  rw [weightRight_iff hMC]
  constructor
  · intro h pre u suf hl hu v hv hv1
    have hweight : IsWeight ev.userMCdata u := ⟨by simp [hl], Or.inl hu⟩
    rw [← h u hweight]
    exact weight_of_lastWith (lastWith_of_behind hdistinct hl hu hv hv1) _
  · rintro h u ⟨hmem, hu⟩
    have hmay : MayWeigh u := hu.elim Or.inr (fun hu => Or.inl hu.1)
    obtain ⟨w, hlast⟩ := exists_lastWith ⟨u, hmem, hmay⟩
    rw [weight_of_lastWith hlast]
    obtain ⟨pre, suf, hl, hw, hsuf⟩ := hlast
    have hwmem : w ∈ ev.userMCdata := by simp [hl]
    rcases hu with hu10 | ⟨hu1, hnone⟩
    · rcases hw with hw1 | hw10
      · -- the first number came last: the tenth stands in front of it
        have hpre : u ∈ pre := by
          rw [hl] at hmem
          rcases List.mem_append.mp hmem with hpre | htail
          · exact hpre
          · rcases List.mem_cons.mp htail with rfl | hbehind
            · omega
            · exact absurd hmay (hsuf u hbehind)
        obtain ⟨front, mid, rfl⟩ := List.append_of_mem hpre
        exact (h front u (mid ++ w :: suf) (by simp [hl]) hu10 w (by simp) hw1).symm
      · rw [eq_of_N_eq hdistinct hwmem hmem (hw10.trans hu10.symm)]
    · rcases hw with hw1 | hw10
      · rw [eq_of_N_eq hdistinct hwmem hmem (hw1.trans hu1.symm)]
      · exact absurd hw10 (hnone w hwmem)

/-- A bank in which the tenth number comes first. -/
def tenthFirst : Inputs where
  userMCdata := [{ data := 5, N := 10 }, { data := 2, N := 1 }]

theorem weight_iff_tenthFirst : ((tenthFirst.userMCdata).map UserMCData.N).Nodup ∧
    (WeightRight { isMC := true } 1 tenthFirst ↔ TenthCounts tenthFirst.userMCdata) :=
  ⟨by decide, weight_iff rfl (by decide) 1⟩

/-- The weight is the one of the first number. -/
theorem tenthFirst_not_right : ¬ WeightRight { isMC := true } 1 tenthFirst := by
  rintro ⟨e, hevnt, hweight⟩
  have htenth := hweight { data := 5, N := 10 } ⟨by simp [tenthFirst], Or.inl rfl⟩
  obtain rfl := (List.cons.inj (Prod.mk.inj hevnt).2).1
  revert htenth
  decide +kernel

end TEventFactoryBDXmini

end BdxReco
