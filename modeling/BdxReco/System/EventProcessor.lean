import BdxReco.DAQ.Event
import BdxReco.EPICS.EpicsData
import BdxReco.Lib.Run
import BdxReco.TT.TranslationTable

/-!
# `System.EventProcessor` — the output of a job

`BDXEventProcessor` owns the output file of a job and the trees that are written to it: `EventHeader` and `RunInfo`,
created in `init`, and the `EventDST`, created in `brun`. `evnt` fills the first and the last of them for the events
it accepts, `erun` adds the line of the run to `RunInfo`, `fini` closes the file. A tree is the list of its entries,
and a list of objects of the output refers to the trees by `OutObject`s.

The processor lives as long as the job, and a job has any number of runs. `writtenOnce_iff` says what the file holds
at its end, `perRun_iff` which durations `RunInfo` has. `Long64_t` is unbounded here; `int` is not.
-/

namespace BdxReco

/-- A number stored in an `int`. -/
def toInt32 (n : Nat) : Int := (BitVec.ofNat 32 n).toInt

/-- What a list of objects of the output can hold; the `EventDST` trees are numbered in the order of their creation. -/
inductive OutObject where
  | eventHeader
  | runInfo
  | eventDST (tree : Nat)
  deriving DecidableEq, Repr

/-- `JROOTOutput`. `written` are the lists of objects that `SaveAll` has gone through. -/
structure JROOTOutput where
  isOpen : Bool := false
  file : Option String := none
  objects : Option (List OutObject) := none
  written : List (List OutObject) := []

namespace JROOTOutput

def openOutput (o : JROOTOutput) (fname : String) : JROOTOutput :=
  if o.isOpen then o else { o with file := some fname, objects := some [], isOpen := true }

def saveAll (o : JROOTOutput) : JROOTOutput :=
  match o.objects, o.file with
  | some objects, some _ => { o with written := o.written ++ [objects] }
  | _, _ => o

def closeOutput (o : JROOTOutput) : JROOTOutput := if o.isOpen then saveAll { o with isOpen := false } else o

def addObject (o : JROOTOutput) (obj : OutObject) : JROOTOutput :=
  { o with objects := o.objects.map (fun objects => objects ++ [obj]) }

end JROOTOutput

structure HeaderEntry where
  eventN : Int
  runN : Int
  T : Int
  deriving DecidableEq, Repr

structure RunInfoEntry where
  runN : Int
  dT : Int
  deriving DecidableEq, Repr

/-- `BDXEventProcessor`, with the values of its constructor. `dsts` are the `EventDST` trees created so far and
    `eventDST` is the one that `m_eventDST` points to. -/
structure BDXEventProcessor (ε : Type) where
  output : Option JROOTOutput := none
  isMC : Bool := false
  isET : Bool := false
  doBuildDST : Bool := false
  outFile : String := ""
  isFirstCallToBrun : Bool := true
  eventHeader : List HeaderEntry := []
  runInfo : List RunInfoEntry := []
  dsts : List (List ε) := []
  eventDST : Option Nat := none
  eventN : Int := 0
  runN : Int := 0
  eventT : Int := 0
  startTime : Int := 9999999999
  stopTime : Int := -9999999999
  deltaTime : Int := 0

/-- What `evnt` finds in the event loop: `GetSingle` of the two banks, `Get` of the events the builder made. -/
structure EvntInput (ε : Type) where
  eventnumber : Nat
  tData : Option EventData
  eData : Option EpicsData
  events : List ε

namespace BDXEventProcessor

variable {ε : Type}

/-- The text up to the first comma, in lower case; without a comma all of it. -/
def outType (optf : String) : String := lowercase (String.ofList (optf.toList.takeWhile (fun c => c != ',')))

/-- The text behind the first comma; without a comma all of it. -/
def outFileOf (optf : String) : String :=
  match optf.toList.dropWhile (fun c => c != ',') with
  | [] => optf
  | _ :: cs => String.ofList cs

/-- `init`, with the three parameters it asks for; `none` is the exit of a build without ET support. -/
def init (etSupport isMC : Bool) (buildDST optf : String) : Option (BDXEventProcessor ε) :=
  let p : BDXEventProcessor ε :=
    { isMC, doBuildDST := buildDST.length != 0, outFile := outFileOf optf }
  if optf = "none" then some p
  else if outType optf = "root" then some { p with output := some {} }
  else if outType optf = "root_et" then
    if etSupport then some { p with isET := true, output := some {} } else none
  else some p

/-- `brun`. Nothing resets the flag. -/
def brun (p : BDXEventProcessor ε) (runnumber : Int) : BDXEventProcessor ε :=
  if p.isFirstCallToBrun then
    match p.output with
    | none => p
    | some output =>
      let outFile := if p.isET then s!"out.{runnumber}.online.root" else p.outFile
      let output := output.openOutput outFile
      let p := { p with outFile }
      let p := if p.doBuildDST then
          { p with
            dsts := p.dsts ++ [[]]
            eventDST := some p.dsts.length
            output := some (output.addObject (.eventDST p.dsts.length)) }
        else { p with output := some output }
      { p with output := p.output.map (fun output => (output.addObject .eventHeader).addObject .runInfo) }
  else p

/-- The checks of a non-MC event: both banks, and an event of the DAQ. -/
def isDAQ (i : EvntInput ε) : Bool :=
  match i.tData, i.eData with
  | some tData, some _ => tData.eventType == some .daq
  | _, _ => false

/-- `m_eventDST->Fill()`; `none` is a null pointer. `copyEpicsData` is the method of the event's header. -/
def fillDST (copyEpicsData : ε → EpicsData → ε) (p : BDXEventProcessor ε) (i : EvntInput ε) (event : ε) :
    Option (BDXEventProcessor ε) := do
  let tree ← p.eventDST
  let event := match i.eData with
    | some eData => if p.isMC then event else copyEpicsData event eData
    | none => event
  some { p with dsts := p.dsts.modify tree (fun entries => entries ++ [event]) }

/-- `m_eventHeader->Fill()` with the lines around it. -/
def fillHeader (p : BDXEventProcessor ε) (eventnumber : Nat) (tData : EventData) : BDXEventProcessor ε :=
  let eventT := toInt32 tData.time
  let eventN := toInt32 eventnumber
  let runN := tData.runN.toBitVec.toInt
  { p with
    eventT, eventN, runN
    eventHeader := p.eventHeader ++ [⟨eventN, runN, eventT⟩]
    startTime := if eventT < p.startTime then eventT else p.startTime
    stopTime := if eventT > p.stopTime then eventT else p.stopTime }

/-- The `EventDST` part of `evnt`. -/
def buildDST (copyEpicsData : ε → EpicsData → ε) (p : BDXEventProcessor ε) (i : EvntInput ε) :
    Option (BDXEventProcessor ε) :=
  match p.doBuildDST && p.output.isSome, i.events with
  | true, event :: _ => fillDST copyEpicsData p i event
  | _, _ => some p

/-- The `EventHeader` part of `evnt`. -/
def buildHeader (p : BDXEventProcessor ε) (i : EvntInput ε) : BDXEventProcessor ε :=
  match !p.isMC && p.output.isSome, i.tData with
  | true, some tData => p.fillHeader i.eventnumber tData
  | _, _ => p

def evnt (copyEpicsData : ε → EpicsData → ε) (p : BDXEventProcessor ε) (i : EvntInput ε) :
    Option (BDXEventProcessor ε × JError) :=
  if !p.isMC && !isDAQ i then some (p, .objectNotAvailable)
  else if p.doBuildDST && i.events.length != 1 then some (p, .resourceUnavailable)
  else (buildDST copyEpicsData p i).map (fun p => (buildHeader p i, .noError))

def erun (p : BDXEventProcessor ε) : BDXEventProcessor ε :=
  let deltaTime := p.stopTime - p.startTime
  let p : BDXEventProcessor ε := { p with deltaTime, runInfo := p.runInfo ++ [⟨p.runN, deltaTime⟩] }
  if p.isET then { p with output := p.output.map JROOTOutput.closeOutput } else p

def fini (p : BDXEventProcessor ε) : BDXEventProcessor ε :=
  { p with output := p.output.map JROOTOutput.closeOutput }

end BDXEventProcessor

open BDXEventProcessor Run

/-! ## Jobs -/

section Jobs

variable {ε : Type} (copyEpicsData : ε → EpicsData → ε)

/-- A run of a job: its number, and the calls of `evnt`. -/
structure JobRun (ε : Type) where
  number : Int
  calls : List (EvntInput ε)

/-- The calls of `evnt`, one after the other. -/
def evnts (p : BDXEventProcessor ε) (calls : List (EvntInput ε)) : Option (BDXEventProcessor ε) :=
  calls.foldlM (fun p i => (p.evnt copyEpicsData i).map Prod.fst) p

/-- `brun`, the calls of `evnt`, `erun`. -/
def JobRun.exec (p : BDXEventProcessor ε) (r : JobRun ε) : Option (BDXEventProcessor ε) :=
  (evnts copyEpicsData (p.brun r.number) r.calls).map erun

/-- The runs of a job, after `init`. -/
def jobRuns (p : BDXEventProcessor ε) (runs : List (JobRun ε)) : Option (BDXEventProcessor ε) :=
  runs.foldlM (JobRun.exec copyEpicsData) p

/-- `evnt` does not return early. -/
def accepts (isMC doBuildDST : Bool) (i : EvntInput ε) : Bool :=
  (isMC || isDAQ i) && (!doBuildDST || i.events.length == 1)

/-- `p₁` is `p` with the event in its `EventDST`, if it builds one. -/
def DSTFilled (p p₁ : BDXEventProcessor ε) : Prop :=
  (p.doBuildDST = false ∧ p₁ = p) ∨
    ∃ tree event, p.doBuildDST = true ∧ p.eventDST = some tree ∧
      p₁ = { p with dsts := p.dsts.modify tree (fun entries => entries ++ [event]) }

variable {copyEpicsData}

theorem isDAQ_some {i : EvntInput ε} (h : isDAQ i = true) : ∃ tData, i.tData = some tData := by
  unfold isDAQ at h
  split at h
  · rename_i tData _ htData _
    exact ⟨tData, htData⟩
  · exact absurd h Bool.false_ne_true

variable (copyEpicsData) in
theorem fillDST_some {p : BDXEventProcessor ε} {tree : Nat}
    (htree : p.eventDST = some tree) (i : EvntInput ε) (event : ε) :
    ∃ event', fillDST copyEpicsData p i event
      = some { p with dsts := p.dsts.modify tree (fun entries => entries ++ [event']) } := by
  unfold fillDST
  rw [htree]
  exact ⟨_, rfl⟩

variable (copyEpicsData) in
theorem buildDST_cases {p : BDXEventProcessor ε} (hout : p.output.isSome = true)
    (hdst : p.doBuildDST = true → p.eventDST.isSome = true) {i : EvntInput ε}
    (hone : p.doBuildDST = true → i.events.length = 1) :
    ∃ p₁, DSTFilled p p₁ ∧ buildDST copyEpicsData p i = some p₁ := by
  unfold buildDST
  cases hbuild : p.doBuildDST with
  | false => exact ⟨p, Or.inl ⟨hbuild, rfl⟩, rfl⟩
  | true =>
      obtain ⟨tree, htree⟩ := Option.isSome_iff_exists.mp (hdst hbuild)
      obtain ⟨event, hevent⟩ := List.length_eq_one_iff.mp (hone hbuild)
      obtain ⟨event', hfill⟩ := fillDST_some copyEpicsData htree i event
      rw [hout, hevent]
      exact ⟨_, Or.inr ⟨tree, event', hbuild, htree, rfl⟩, hfill⟩

theorem DSTFilled.frame {p p₁ : BDXEventProcessor ε} (h : DSTFilled p p₁) :
    p₁ = { p with dsts := p₁.dsts } ∧ p₁.dsts.length = p.dsts.length := by
  rcases h with ⟨-, rfl⟩ | ⟨tree, event, -, -, rfl⟩
  · exact ⟨rfl, rfl⟩
  · exact ⟨rfl, List.length_modify _ _ _⟩

variable (copyEpicsData) in
/-- **What `evnt` does**, with an output and, if it builds a DST, a tree for it. -/
theorem evnt_cases {p : BDXEventProcessor ε} (hout : p.output.isSome = true)
    (hdst : p.doBuildDST = true → p.eventDST.isSome = true) (i : EvntInput ε) :
    (accepts p.isMC p.doBuildDST i = false ∧ ∃ err, p.evnt copyEpicsData i = some (p, err)) ∨
      ∃ p₁, accepts p.isMC p.doBuildDST i = true ∧ DSTFilled p p₁ ∧
        ((p.isMC = true ∧ p.evnt copyEpicsData i = some (p₁, .noError)) ∨
          ∃ tData, p.isMC = false ∧ i.tData = some tData ∧
            p.evnt copyEpicsData i = some (p₁.fillHeader i.eventnumber tData, .noError)) := by
  unfold evnt accepts
  by_cases hdaq : (!p.isMC && !isDAQ i) = true
  · left
    rw [if_pos hdaq]
    refine ⟨?_, _, rfl⟩
    cases hMC : p.isMC <;> cases hi : isDAQ i <;> simp_all
  · rw [if_neg hdaq]
    by_cases hbuild : (p.doBuildDST && i.events.length != 1) = true
    · left
      rw [if_pos hbuild]
      refine ⟨?_, _, rfl⟩
      simp only [Bool.and_eq_true, bne_iff_ne, ne_eq] at hbuild
      simp [hbuild]
    · rw [if_neg hbuild]
      simp only [Bool.and_eq_true, bne_iff_ne, ne_eq, not_and, not_not] at hbuild
      obtain ⟨p₁, hfilled, hfill⟩ := buildDST_cases copyEpicsData hout hdst hbuild
      right
      refine ⟨p₁, ?_, hfilled, ?_⟩
      · cases hMC : p.isMC <;> cases hi : isDAQ i <;> cases hb : p.doBuildDST <;> simp_all
      · have hMC₁ : p₁.isMC = p.isMC := by rw [hfilled.frame.1]
        have hout₁ : p₁.output.isSome = true := by
          rw [hfilled.frame.1]
          exact hout
        rw [hfill, Option.map_some, buildHeader, hMC₁, hout₁, Bool.and_true]
        cases hMC : p.isMC with
        | true => exact Or.inl ⟨rfl, rfl⟩
        | false =>
            have hi : isDAQ i = true := by simpa [hMC] using hdaq
            obtain ⟨tData, htData⟩ := isDAQ_some hi
            rw [htData]
            exact Or.inr ⟨tData, rfl, rfl, rfl⟩

/-- What no `evnt` changes. -/
structure SameSetup (p p' : BDXEventProcessor ε) : Prop where
  output : p'.output = p.output
  isMC : p'.isMC = p.isMC
  isET : p'.isET = p.isET
  doBuildDST : p'.doBuildDST = p.doBuildDST
  outFile : p'.outFile = p.outFile
  isFirstCallToBrun : p'.isFirstCallToBrun = p.isFirstCallToBrun
  runInfo : p'.runInfo = p.runInfo
  eventDST : p'.eventDST = p.eventDST
  trees : p'.dsts.length = p.dsts.length

theorem SameSetup.refl (p : BDXEventProcessor ε) : SameSetup p p := ⟨rfl, rfl, rfl, rfl, rfl, rfl, rfl, rfl, rfl⟩

theorem SameSetup.trans {p p' p'' : BDXEventProcessor ε} (h : SameSetup p p') (h' : SameSetup p' p'') :
    SameSetup p p'' where
  output := h'.output.trans h.output
  isMC := h'.isMC.trans h.isMC
  isET := h'.isET.trans h.isET
  doBuildDST := h'.doBuildDST.trans h.doBuildDST
  outFile := h'.outFile.trans h.outFile
  isFirstCallToBrun := h'.isFirstCallToBrun.trans h.isFirstCallToBrun
  runInfo := h'.runInfo.trans h.runInfo
  eventDST := h'.eventDST.trans h.eventDST
  trees := h'.trees.trans h.trees

theorem DSTFilled.sameSetup {p p₁ : BDXEventProcessor ε} (h : DSTFilled p p₁) : SameSetup p p₁ := by
  obtain ⟨heq, htrees⟩ := h.frame
  rw [heq]
  exact ⟨rfl, rfl, rfl, rfl, rfl, rfl, rfl, rfl, htrees⟩

theorem sameSetup_fillHeader (p : BDXEventProcessor ε) (eventnumber : Nat) (tData : EventData) :
    SameSetup p (p.fillHeader eventnumber tData) :=
  ⟨rfl, rfl, rfl, rfl, rfl, rfl, rfl, rfl, rfl⟩

theorem evnt_sameSetup {p p' : BDXEventProcessor ε} {i : EvntInput ε} {err : JError} (hout : p.output.isSome = true)
    (hdst : p.doBuildDST = true → p.eventDST.isSome = true) (h : p.evnt copyEpicsData i = some (p', err)) :
    SameSetup p p' := by
  rcases evnt_cases copyEpicsData hout hdst i with
    ⟨-, err', heq⟩ | ⟨p₁, -, hfilled, ⟨-, heq⟩ | ⟨tData, -, -, heq⟩⟩
  · rw [heq] at h
    cases h
    exact SameSetup.refl p
  · rw [heq] at h
    cases h
    exact hfilled.sameSetup
  · rw [heq] at h
    cases h
    exact hfilled.sameSetup.trans (sameSetup_fillHeader _ _ _)

variable (copyEpicsData) in
/-- **The rule for the calls of a run**: they all return, and what every call keeps holds after them. -/
theorem evnts_rule {p : BDXEventProcessor ε} (hout : p.output.isSome = true)
    (hdst : p.doBuildDST = true → p.eventDST.isSome = true) {P : List (EvntInput ε) → BDXEventProcessor ε → Prop}
    (hnil : P [] p)
    (hstep : ∀ calls i p' p'' err, SameSetup p p' → P calls p' → p'.evnt copyEpicsData i = some (p'', err) →
      P (calls ++ [i]) p'') (calls : List (EvntInput ε)) :
    ∃ p', evnts copyEpicsData p calls = some p' ∧ SameSetup p p' ∧ P calls p' := by
  induction calls using List.reverseRecOn with
  | nil => exact ⟨p, rfl, SameSetup.refl p, hnil⟩
  | append_singleton calls i ih =>
      obtain ⟨p', hevnts, hsetup, hP⟩ := ih
      have hout' : p'.output.isSome = true := by rw [hsetup.output]; exact hout
      have hdst' : p'.doBuildDST = true → p'.eventDST.isSome = true := by
        rw [hsetup.doBuildDST, hsetup.eventDST]
        exact hdst
      obtain ⟨p'', err, hevnt⟩ : ∃ p'' err, p'.evnt copyEpicsData i = some (p'', err) := by
        rcases evnt_cases copyEpicsData hout' hdst' i with
          ⟨-, err', heq⟩ | ⟨p₁, -, -, ⟨-, heq⟩ | ⟨tData, -, -, heq⟩⟩
        · exact ⟨_, _, heq⟩
        · exact ⟨_, _, heq⟩
        · exact ⟨_, _, heq⟩
      refine ⟨p'', ?_, hsetup.trans (evnt_sameSetup hout' hdst' hevnt), hstep calls i p' p'' err hsetup hP hevnt⟩
      unfold evnts at hevnts ⊢
      rw [List.foldlM_append, hevnts]
      simp [hevnt]

/-! ## The objects of the file -/

/-- What `k` calls of `brun` add to the list of objects. -/
def booked (k : Nat) : List OutObject :=
  (List.range k).flatMap (fun tree => [.eventDST tree, .eventHeader, .runInfo])

theorem booked_succ (k : Nat) : booked (k + 1) = booked k ++ [.eventDST k, .eventHeader, .runInfo] := by
  unfold booked
  rw [List.range_succ, List.flatMap_append, List.flatMap_singleton]

/-- The output after `k` calls of `brun`, as long as it stays open. -/
def outputAfter (outFile : String) (k : Nat) : JROOTOutput :=
  if k = 0 then {} else { isOpen := true, file := some outFile, objects := some (booked k) }

/-- The processor of a job with a ROOT output and a DST, outside ET, after `k` calls of `brun`. -/
structure Booked (isMC : Bool) (k : Nat) (p : BDXEventProcessor ε) : Prop where
  isMC : p.isMC = isMC
  isET : p.isET = false
  doBuildDST : p.doBuildDST = true
  first : p.isFirstCallToBrun = true
  trees : p.dsts.length = k
  output : p.output = some (outputAfter p.outFile k)

theorem Booked.sameSetup {isMC : Bool} {k : Nat} {p p' : BDXEventProcessor ε} (h : Booked isMC k p)
    (hsetup : SameSetup p p') : Booked isMC k p' where
  isMC := hsetup.isMC.trans h.isMC
  isET := hsetup.isET.trans h.isET
  doBuildDST := hsetup.doBuildDST.trans h.doBuildDST
  first := hsetup.isFirstCallToBrun.trans h.first
  trees := hsetup.trees.trans h.trees
  output := by rw [hsetup.output, hsetup.outFile]; exact h.output

/-- Opening the output and adding the objects of a run. -/
theorem addObjects_outputAfter (outFile : String) (k : Nat) :
    ((((outputAfter outFile k).openOutput outFile).addObject (.eventDST k)).addObject .eventHeader).addObject .runInfo
      = outputAfter outFile (k + 1) := by
  cases k with
  | zero => rfl
  | succ k =>
      simp [outputAfter, JROOTOutput.openOutput, JROOTOutput.addObject, booked_succ (k + 1)]

theorem Booked.brun {isMC : Bool} {k : Nat} {p : BDXEventProcessor ε} (h : Booked isMC k p) (runnumber : Int) :
    Booked isMC (k + 1) (p.brun runnumber) ∧ (p.brun runnumber).eventDST = some k ∧
      (p.brun runnumber).dsts = p.dsts ++ [[]] := by
  have hbrun : p.brun runnumber = { p with
      dsts := p.dsts ++ [[]]
      eventDST := some k
      output := some (outputAfter p.outFile (k + 1)) } := by
    simp only [BDXEventProcessor.brun, h.first, h.output, h.isET, h.doBuildDST, h.trees, if_true,
      Bool.false_eq_true, if_false, Option.map_some, addObjects_outputAfter]
  rw [hbrun]
  refine ⟨⟨h.isMC, h.isET, h.doBuildDST, h.first, ?_, rfl⟩, rfl, rfl⟩
  simp [h.trees]

theorem Booked.erun {isMC : Bool} {k : Nat} {p : BDXEventProcessor ε} (h : Booked isMC k p) :
    Booked isMC k p.erun ∧ p.erun.dsts = p.dsts := by
  have herun : p.erun = { p with
      deltaTime := p.stopTime - p.startTime
      runInfo := p.runInfo ++ [⟨p.runN, p.stopTime - p.startTime⟩] } := by
    simp only [BDXEventProcessor.erun, h.isET, Bool.false_eq_true, if_false]
  rw [herun]
  exact ⟨⟨h.isMC, h.isET, h.doBuildDST, h.first, h.trees, h.output⟩, rfl⟩

/-- The number of entries of a tree. -/
def entriesOf (p : BDXEventProcessor ε) (tree : Nat) : Option Nat := p.dsts[tree]?.map List.length

theorem entriesOf_evnt {p p' : BDXEventProcessor ε} {tree n : Nat} {i : EvntInput ε} {err : JError}
    (hout : p.output.isSome = true) (hbuild : p.doBuildDST = true) (htree : p.eventDST = some tree)
    (hn : entriesOf p tree = some n) (h : p.evnt copyEpicsData i = some (p', err)) :
    entriesOf p' tree = some (n + if accepts p.isMC true i then 1 else 0) := by
  obtain ⟨entries, hentries, hlength⟩ := Option.map_eq_some_iff.mp hn
  have hfilled : ∀ {p₁ : BDXEventProcessor ε}, DSTFilled p p₁ → p₁.dsts[tree]?.map List.length = some (n + 1) := by
    rintro p₁ (⟨hno, -⟩ | ⟨tree', event, -, htree', rfl⟩)
    · rw [hbuild] at hno
      exact absurd hno.symm Bool.false_ne_true
    · rw [htree] at htree'
      cases htree'
      simp [hentries, hlength]
  have hcases := evnt_cases copyEpicsData hout (fun _ => by rw [htree]; rfl) i
  rw [hbuild] at hcases
  rcases hcases with ⟨hno, err', heq⟩ | ⟨p₁, hyes, hfill, ⟨-, heq⟩ | ⟨tData, -, -, heq⟩⟩
  · rw [heq] at h
    cases h
    rw [hno, if_neg Bool.false_ne_true, Nat.add_zero]
    exact hn
  · rw [heq] at h
    cases h
    rw [hyes, if_pos rfl]
    exact hfilled hfill
  · rw [heq] at h
    cases h
    rw [hyes, if_pos rfl]
    -- filling the header leaves the trees
    have hentries₁ := hfilled hfill
    exact hentries₁

variable (copyEpicsData) in
/-- **A run adds a tree**, with one entry for each call that was not returned early. -/
theorem Booked.exec {isMC : Bool} {k : Nat} {p : BDXEventProcessor ε} (h : Booked isMC k p) (r : JobRun ε) :
    ∃ p', r.exec copyEpicsData p = some p' ∧ Booked isMC (k + 1) p' ∧
      entriesOf p' k = some (r.calls.countP (accepts isMC true)) := by
  obtain ⟨hbooked, hdst, hdsts⟩ := h.brun r.number
  have hout : (p.brun r.number).output.isSome = true := by rw [hbooked.output]; rfl
  have hstep : ∀ calls i p' p'' err, SameSetup (p.brun r.number) p' →
      entriesOf p' k = some (calls.countP (accepts isMC true)) → p'.evnt copyEpicsData i = some (p'', err) →
      entriesOf p'' k = some ((calls ++ [i]).countP (accepts isMC true)) := by
    intro calls i p' p'' err hsetup hn hevnt
    have hbooked' := hbooked.sameSetup hsetup
    rw [entriesOf_evnt (by rw [hsetup.output]; exact hout) hbooked'.doBuildDST (hsetup.eventDST.trans hdst) hn hevnt,
      List.countP_append, List.countP_singleton, hbooked'.isMC]
  have hnil : entriesOf (p.brun r.number) k = some (List.countP (accepts isMC true) ([] : List (EvntInput ε))) := by
    simp [entriesOf, hdsts, ← h.trees]
  obtain ⟨p', hevnts, hsetup, hentries⟩ := evnts_rule copyEpicsData hout (fun _ => by rw [hdst]; rfl) hnil hstep r.calls
  have hbooked' := hbooked.sameSetup hsetup
  refine ⟨p'.erun, ?_, hbooked'.erun.1, ?_⟩
  · unfold JobRun.exec
    rw [hevnts]
    rfl
  · unfold entriesOf at hentries ⊢
    rw [hbooked'.erun.2]
    exact hentries

variable (copyEpicsData) in
/-- **The runs of a job.** -/
theorem Booked.jobRuns {isMC : Bool} {k : Nat} {p : BDXEventProcessor ε} (h : Booked isMC k p)
    (runs : List (JobRun ε)) :
    ∃ p', BdxReco.jobRuns copyEpicsData p runs = some p' ∧ Booked isMC (k + runs.length) p' := by
  induction runs generalizing k p with
  | nil => exact ⟨p, rfl, h⟩
  | cons r runs ih =>
      obtain ⟨p₁, hexec, hbooked, -⟩ := h.exec copyEpicsData r
      obtain ⟨p', hruns, hbooked'⟩ := ih hbooked
      refine ⟨p', ?_, ?_⟩
      · unfold BdxReco.jobRuns at hruns ⊢
        rw [List.foldlM_cons, hexec]
        exact hruns
      · rw [List.length_cons, show k + (runs.length + 1) = k + 1 + runs.length by omega]
        exact hbooked'

theorem init_root {etSupport isMC : Bool} {buildDST optf : String} {p : BDXEventProcessor ε}
    (hinit : BDXEventProcessor.init etSupport isMC buildDST optf = some p) (hroot : outType optf = "root")
    (hdst : buildDST.length ≠ 0) : Booked isMC 0 p := by
  have hnone : optf ≠ "none" := by
    rintro rfl
    exact absurd hroot (by decide)
  unfold BDXEventProcessor.init at hinit
  rw [if_neg hnone, if_pos hroot] at hinit
  rw [← Option.some.inj hinit]
  exact ⟨rfl, rfl, by simpa using hdst, rfl, rfl, rfl⟩

def OutObject.isEventDST : OutObject → Bool
  | .eventDST _ => true
  | _ => false

variable (copyEpicsData) in
/-- **What the file of a job is meant to hold**: `EventHeader` and `RunInfo` once each and one `EventDST`, with one
    entry for each call of `evnt` that reached `Fill`, over all runs. -/
def WrittenOnce (p₀ : BDXEventProcessor ε) (runs : List (JobRun ε)) : Prop :=
  ∃ p output objects tree,
    (jobRuns copyEpicsData p₀ runs).map fini = some p ∧ p.output = some output ∧ output.written = [objects] ∧
    objects.count .eventHeader = 1 ∧ objects.count .runInfo = 1 ∧
    objects.filter OutObject.isEventDST = [.eventDST tree] ∧
    entriesOf p tree = some ((runs.flatMap JobRun.calls).countP (accepts p₀.isMC p₀.doBuildDST))

/-- What `fini` leaves behind. -/
theorem Booked.fini {isMC : Bool} {k : Nat} {p : BDXEventProcessor ε} (h : Booked isMC k p) :
    ∃ output, p.fini.output = some output ∧ output.written = if k = 0 then [] else [booked k] := by
  unfold BDXEventProcessor.fini
  rw [h.output]
  refine ⟨_, rfl, ?_⟩
  cases k with
  | zero => rfl
  | succ k => simp [outputAfter, JROOTOutput.closeOutput, JROOTOutput.saveAll]

theorem count_booked (k : Nat) : (booked k).count .eventHeader = k := by
  induction k with
  | zero => rfl
  | succ k ih =>
      rw [booked_succ, List.count_append, ih]
      rfl

theorem one_run_of_writtenOnce {isMC : Bool} {p₀ : BDXEventProcessor ε} (h₀ : Booked isMC 0 p₀)
    {runs : List (JobRun ε)} (h : WrittenOnce copyEpicsData p₀ runs) : runs.length = 1 := by
  obtain ⟨p, output, objects, tree, hjob, houtput, hwritten, hheader, -⟩ := h
  obtain ⟨p', hruns, hbooked⟩ := h₀.jobRuns copyEpicsData runs
  rw [hruns, Option.map_some, Option.some.injEq] at hjob
  obtain ⟨output', houtput', hwritten'⟩ := hbooked.fini
  rw [hjob, houtput, Option.some.injEq] at houtput'
  rw [← houtput', hwritten, Nat.zero_add] at hwritten'
  split at hwritten'
  · exact absurd hwritten' (by simp)
  · rw [List.singleton_inj.mp hwritten', count_booked] at hheader
    exact hheader

/-- **The file is right for jobs of one run**, and only for them. -/
theorem writtenOnce_iff (copyEpicsData : ε → EpicsData → ε) {etSupport isMC : Bool} {buildDST optf : String}
    {p₀ : BDXEventProcessor ε} (hinit : BDXEventProcessor.init etSupport isMC buildDST optf = some p₀)
    (hroot : outType optf = "root") (hdst : buildDST.length ≠ 0) (runs : List (JobRun ε)) :
    WrittenOnce copyEpicsData p₀ runs ↔ runs.length = 1 := by
  have h₀ := init_root hinit hroot hdst
  constructor
  · exact one_run_of_writtenOnce h₀
  · intro hone
    obtain ⟨r, rfl⟩ := List.length_eq_one_iff.mp hone
    obtain ⟨p, hexec, hbooked, hentries⟩ := h₀.exec copyEpicsData r
    obtain ⟨output, houtput, hwritten⟩ := hbooked.fini
    have hjob : jobRuns copyEpicsData p₀ [r] = some p := by
      unfold jobRuns
      rw [List.foldlM_cons, hexec]
      rfl
    refine ⟨p.fini, output, booked 1, 0, ?_, houtput, ?_, rfl, rfl, rfl, ?_⟩
    · rw [hjob, Option.map_some]
    · rw [hwritten, if_neg (by omega)]
    · rw [List.flatMap_singleton, h₀.isMC, h₀.doBuildDST]
      exact hentries

end Jobs

section OneRun

/-- A processor after `init` with `SYSTEM:OUTPUT=ROOT,out.root` and `SYSTEM:BUILD_DST=FullMC`. -/
def rootProcessor : BDXEventProcessor Unit := { doBuildDST := true, outFile := "out.root", output := some {} }

theorem init_rootProcessor : BDXEventProcessor.init false false "FullMC" "ROOT,out.root" = some rootProcessor := by
  unfold BDXEventProcessor.init
  rw [if_neg (by decide), if_pos (by decide)]
  rfl

/-- A call for an event of the DAQ. -/
def daqCall (runN : UInt32) (time : Nat) : EvntInput Unit where
  eventnumber := 1
  tData := some { runN, time, eventType := some .daq }
  eData := some {}
  events := [()]

/-- A run with two events, and one that the builder has made nothing of. -/
def oneRun : List (JobRun Unit) := [⟨1, [daqCall 1 100, { daqCall 1 150 with events := [] }, daqCall 1 200]⟩]

theorem writtenOnce_oneRun : WrittenOnce (fun e _ => e) rootProcessor oneRun :=
  (writtenOnce_iff (fun e _ => e) init_rootProcessor (by decide) (by decide) oneRun).mpr rfl

/-- A second run adds everything again. -/
theorem twoRuns_not_writtenOnce : ¬ WrittenOnce (fun e _ => e) rootProcessor [⟨1, []⟩, ⟨2, []⟩] := by
  intro h
  have hone := one_run_of_writtenOnce (init_root init_rootProcessor (by decide) (by decide)) h
  exact absurd hone (by decide)

end OneRun

section Durations

variable {ε : Type} {copyEpicsData : ε → EpicsData → ε}

/-! ## The durations of the runs -/

/-- The number and the time of the events that `EventHeader` gets. -/
def recorded (doBuildDST : Bool) (calls : List (EvntInput ε)) : List (Int × Int) :=
  (calls.filter (accepts false doBuildDST)).filterMap
    (fun i => i.tData.map (fun tData => (tData.runN.toBitVec.toInt, toInt32 tData.time)))

/-- The times of all events of the DAQ. -/
def daqTimes (calls : List (EvntInput ε)) : List Int :=
  calls.filterMap (fun i => i.tData.bind (fun tData =>
    if tData.eventType = some .daq then some (toInt32 tData.time) else none))

/-- `runN`, which the last event sets; it is 0 before the first one. -/
def lastNumber (entries : List (Int × Int)) : Int := (entries.getLast?.map Prod.fst).getD 0

theorem toInt32_range (n : Nat) : -9999999999 < toInt32 n ∧ toInt32 n < 9999999999 := by
  unfold toInt32
  have hlt := (BitVec.ofNat 32 n).toInt_lt
  have hle := (BitVec.ofNat 32 n).le_toInt
  constructor
  · omega
  · omega

/-- `startTime` and `stopTime` are the first and the last of the times; without any they are where the constructor put
    them. -/
structure Spans (times : List Int) (p : BDXEventProcessor ε) : Prop where
  start : (times = [] ∧ p.startTime = 9999999999) ∨ (p.startTime ∈ times ∧ ∀ t ∈ times, p.startTime ≤ t)
  stop : (times = [] ∧ p.stopTime = -9999999999) ∨ (p.stopTime ∈ times ∧ ∀ t ∈ times, t ≤ p.stopTime)

theorem Spans.congr {times : List Int} {p p' : BDXEventProcessor ε} (h : Spans times p)
    (hstart : p'.startTime = p.startTime) (hstop : p'.stopTime = p.stopTime) : Spans times p' := by
  constructor
  · rw [hstart]
    exact h.start
  · rw [hstop]
    exact h.stop

/-- The first of some times, or the last: `before` says which of two comes first, and `best` is replaced by a new time
    that comes before it. Where there was no time before, it is replaced in any case. -/
theorem extreme_concat (before : Int → Int → Prop) (hrefl : ∀ t, before t t)
    (htrans : ∀ a b c, before a b → before b c → before a c) {replaced : Prop} [Decidable replaced]
    {times : List Int} {best init t : Int} (hyes : replaced → before t best) (hno : ¬ replaced → before best t)
    (hinit : best = init → replaced)
    (h : (times = [] ∧ best = init) ∨ (best ∈ times ∧ ∀ x ∈ times, before best x)) :
    (if replaced then t else best) ∈ times ++ [t] ∧ ∀ x ∈ times ++ [t], before (if replaced then t else best) x := by
  rcases h with ⟨rfl, hbest⟩ | ⟨hmem, hbefore⟩
  · rw [if_pos (hinit hbest)]
    refine ⟨by simp, fun x hx => ?_⟩
    obtain rfl : x = t := by simpa using hx
    exact hrefl x
  · by_cases hreplaced : replaced
    · rw [if_pos hreplaced]
      refine ⟨by simp, fun x hx => ?_⟩
      rcases List.mem_append.mp hx with hx | hx
      · exact htrans t best x (hyes hreplaced) (hbefore x hx)
      · rw [List.mem_singleton.mp hx]
        exact hrefl t
    · rw [if_neg hreplaced]
      refine ⟨List.mem_append_left _ hmem, fun x hx => ?_⟩
      rcases List.mem_append.mp hx with hx | hx
      · exact hbefore x hx
      · rw [List.mem_singleton.mp hx]
        exact hno hreplaced

theorem Spans.fillHeader {times : List Int} {p : BDXEventProcessor ε} (h : Spans times p) (eventnumber : Nat)
    (tData : EventData) : Spans (times ++ [toInt32 tData.time]) (p.fillHeader eventnumber tData) := by
  obtain ⟨hlo, hhi⟩ := toInt32_range tData.time
  constructor
  · right
    show (if toInt32 tData.time < p.startTime then toInt32 tData.time else p.startTime) ∈ _ ∧ _
    exact extreme_concat (fun a b => a ≤ b) Int.le_refl (fun _ _ _ => Int.le_trans) Int.le_of_lt Int.not_lt.mp
      (fun hinit => hinit ▸ hhi) h.start
  · right
    show (if toInt32 tData.time > p.stopTime then toInt32 tData.time else p.stopTime) ∈ _ ∧ _
    exact extreme_concat (fun a b => b ≤ a) Int.le_refl (fun _ _ _ hab hbc => Int.le_trans hbc hab)
      Int.le_of_lt Int.not_lt.mp (fun hinit => hinit ▸ hlo) h.stop

/-- The members that remember the events so far. -/
structure Remembers (entries : List (Int × Int)) (p : BDXEventProcessor ε) : Prop where
  spans : Spans (entries.map Prod.snd) p
  number : p.runN = lastNumber entries

theorem Remembers.congr {entries : List (Int × Int)} {p p' : BDXEventProcessor ε} (h : Remembers entries p)
    (hstart : p'.startTime = p.startTime) (hstop : p'.stopTime = p.stopTime) (hrunN : p'.runN = p.runN) :
    Remembers entries p' :=
  ⟨h.spans.congr hstart hstop, hrunN.trans h.number⟩

theorem Remembers.fillHeader {entries : List (Int × Int)} {p : BDXEventProcessor ε} (h : Remembers entries p)
    (eventnumber : Nat) (tData : EventData) :
    Remembers (entries ++ [(tData.runN.toBitVec.toInt, toInt32 tData.time)]) (p.fillHeader eventnumber tData) := by
  constructor
  · rw [List.map_append, List.map_singleton]
    exact h.spans.fillHeader eventnumber tData
  · rw [lastNumber, List.getLast?_concat]
    rfl

theorem recorded_append (doBuildDST : Bool) (calls calls' : List (EvntInput ε)) :
    recorded doBuildDST (calls ++ calls') = recorded doBuildDST calls ++ recorded doBuildDST calls' := by
  simp [recorded, List.filter_append, List.filterMap_append]

/-- One call: an accepted event is remembered. -/
theorem Remembers.evnt {entries : List (Int × Int)} {p p' : BDXEventProcessor ε} {i : EvntInput ε} {err : JError}
    (h : Remembers entries p) (hMC : p.isMC = false) (hout : p.output.isSome = true)
    (hdst : p.doBuildDST = true → p.eventDST.isSome = true) (hevnt : p.evnt copyEpicsData i = some (p', err)) :
    Remembers (entries ++ recorded p.doBuildDST [i]) p' := by
  have hcases := evnt_cases copyEpicsData hout hdst i
  rw [hMC] at hcases
  rcases hcases with ⟨hno, err', heq⟩ | ⟨p₁, hyes, hfill, ⟨hMC', -⟩ | ⟨tData, -, htData, heq⟩⟩
  · rw [heq] at hevnt
    cases hevnt
    have hnone : recorded p.doBuildDST [i] = [] := by simp [recorded, hno]
    rw [hnone, List.append_nil]
    exact h
  · exact absurd hMC' Bool.false_ne_true
  · rw [heq] at hevnt
    cases hevnt
    have hone : recorded p.doBuildDST [i] = [(tData.runN.toBitVec.toInt, toInt32 tData.time)] := by
      simp [recorded, hyes, htData]
    obtain ⟨hframe, -⟩ := hfill.frame
    have hremembers₁ : Remembers entries p₁ := by
      apply h.congr
      · rw [hframe]
      · rw [hframe]
      · rw [hframe]
    rw [hone]
    exact hremembers₁.fillHeader _ _

/-- The processor between the runs of a job with an output, outside MC; `entries` are the events so far. -/
structure Running (doBuildDST : Bool) (entries : List (Int × Int)) (p : BDXEventProcessor ε) : Prop where
  isMC : p.isMC = false
  first : p.isFirstCallToBrun = true
  doBuildDST : p.doBuildDST = doBuildDST
  output : p.output.isSome = true
  remembers : Remembers entries p

theorem Running.brun {doBuildDST : Bool} {entries : List (Int × Int)} {p : BDXEventProcessor ε}
    (h : Running doBuildDST entries p) (runnumber : Int) :
    Running doBuildDST entries (p.brun runnumber) ∧
      ((p.brun runnumber).doBuildDST = true → (p.brun runnumber).eventDST.isSome = true) ∧
      (p.brun runnumber).runInfo = p.runInfo := by
  obtain ⟨output, houtput⟩ := Option.isSome_iff_exists.mp h.output
  unfold BDXEventProcessor.brun
  rw [if_pos h.first]
  split
  · rename_i hnone
    rw [houtput] at hnone
    exact absurd hnone (Option.some_ne_none output)
  · by_cases hbuild : p.doBuildDST = true
    · simp only [if_pos hbuild]
      exact ⟨⟨h.isMC, h.first, h.doBuildDST, rfl, h.remembers.congr rfl rfl rfl⟩, fun _ => rfl, trivial⟩
    · simp only [if_neg hbuild]
      exact ⟨⟨h.isMC, h.first, h.doBuildDST, rfl, h.remembers.congr rfl rfl rfl⟩, fun hf => absurd hf hbuild, trivial⟩

variable (copyEpicsData) in
/-- **A run** adds its events, and its line to `RunInfo`. -/
theorem Running.exec {doBuildDST : Bool} {entries : List (Int × Int)} {p : BDXEventProcessor ε}
    (h : Running doBuildDST entries p) (r : JobRun ε) :
    ∃ p', r.exec copyEpicsData p = some p' ∧ Running doBuildDST (entries ++ recorded doBuildDST r.calls) p' ∧
      p'.runInfo = p.runInfo ++ [⟨lastNumber (entries ++ recorded doBuildDST r.calls), p'.stopTime - p'.startTime⟩] := by
  obtain ⟨hbrun, hdst, hinfo⟩ := h.brun r.number
  have hnil : Remembers (entries ++ recorded doBuildDST ([] : List (EvntInput ε))) (p.brun r.number) := by
    simpa [recorded] using hbrun.remembers
  have hstep : ∀ calls i p' p'' err, SameSetup (p.brun r.number) p' →
      Remembers (entries ++ recorded doBuildDST calls) p' → p'.evnt copyEpicsData i = some (p'', err) →
      Remembers (entries ++ recorded doBuildDST (calls ++ [i])) p'' := by
    intro calls i p' p'' err hsetup hcalls hevnt
    have hbuild := hsetup.doBuildDST.trans hbrun.doBuildDST
    rw [recorded_append, ← List.append_assoc, ← hbuild]
    rw [← hbuild] at hcalls
    refine hcalls.evnt (hsetup.isMC.trans hbrun.isMC) ?_ ?_ hevnt
    · rw [hsetup.output]
      exact hbrun.output
    · rw [hsetup.doBuildDST, hsetup.eventDST]
      exact hdst
  obtain ⟨p', hevnts, hsetup, hremembers⟩ := evnts_rule copyEpicsData hbrun.output hdst hnil hstep r.calls
  have hexec : r.exec copyEpicsData p = some p'.erun := by
    unfold JobRun.exec
    rw [hevnts, Option.map_some]
  have herun : p'.erun = { p' with
      deltaTime := p'.stopTime - p'.startTime
      runInfo := p'.runInfo ++ [⟨p'.runN, p'.stopTime - p'.startTime⟩]
      output := if p'.isET then p'.output.map JROOTOutput.closeOutput else p'.output } := by
    unfold BDXEventProcessor.erun
    cases p'.isET <;> rfl
  refine ⟨p'.erun, hexec, ?_, ?_⟩
  · rw [herun]
    refine ⟨hsetup.isMC.trans hbrun.isMC, hsetup.isFirstCallToBrun.trans hbrun.first,
      hsetup.doBuildDST.trans hbrun.doBuildDST, ?_, hremembers.congr rfl rfl rfl⟩
    have houtput : p'.output.isSome = true := by rw [hsetup.output]; exact hbrun.output
    cases p'.isET
    · exact houtput
    · simpa using houtput
  · rw [herun]
    simp only
    rw [hsetup.runInfo, hinfo, hremembers.number]

variable (copyEpicsData) in
/-- **The runs of a job**; the last line of `RunInfo` is that of the last run. -/
theorem Running.jobRuns {doBuildDST : Bool} {p₀ : BDXEventProcessor ε} (h₀ : Running doBuildDST [] p₀)
    (runs : List (JobRun ε)) :
    ∃ p, BdxReco.jobRuns copyEpicsData p₀ runs = some p ∧
      Running doBuildDST (recorded doBuildDST (runs.flatMap JobRun.calls)) p ∧
      (runs ≠ [] → p.runInfo.getLast? = some
        ⟨lastNumber (recorded doBuildDST (runs.flatMap JobRun.calls)), p.stopTime - p.startTime⟩) := by
  induction runs using List.reverseRecOn with
  | nil => exact ⟨p₀, rfl, h₀, fun hne => absurd rfl hne⟩
  | append_singleton runs r ih =>
      obtain ⟨p, hjob, hrunning, -⟩ := ih
      obtain ⟨p', hexec, hrunning', hinfo⟩ := hrunning.exec copyEpicsData r
      rw [List.flatMap_append, List.flatMap_singleton, recorded_append]
      refine ⟨p', ?_, hrunning', fun _ => ?_⟩
      · unfold BdxReco.jobRuns at hjob ⊢
        rw [List.foldlM_append, hjob]
        simp [hexec]
      · rw [hinfo, List.getLast?_concat]

/-- `d` is the time from the first to the last of the times. -/
def IsSpan (times : List Int) (d : Int) : Prop :=
  ∃ lo ∈ times, ∃ hi ∈ times, (∀ t ∈ times, lo ≤ t ∧ t ≤ hi) ∧ d = hi - lo

theorem IsSpan.nonneg {times : List Int} {d : Int} (h : IsSpan times d) : 0 ≤ d := by
  obtain ⟨lo, -, hi, hhi, hbounds, rfl⟩ := h
  have hle := (hbounds hi hhi).1
  omega

theorem IsSpan.unique {times : List Int} {d d' : Int} (h : IsSpan times d) (h' : IsSpan times d') : d = d' := by
  obtain ⟨lo, hlo, hi, hhi, hbounds, rfl⟩ := h
  obtain ⟨lo', hlo', hi', hhi', hbounds', rfl⟩ := h'
  have h₁ := (hbounds lo' hlo').1
  have h₂ := (hbounds hi' hhi').2
  have h₃ := (hbounds' lo hlo).1
  have h₄ := (hbounds' hi hhi).2
  omega

/-- The difference of the two members is the span of the times, if there are any. -/
theorem Spans.isSpan_iff {times : List Int} {p : BDXEventProcessor ε} (h : Spans times p) :
    IsSpan times (p.stopTime - p.startTime) ↔ times ≠ [] := by
  constructor
  · rintro ⟨lo, hlo, -⟩
    exact List.ne_nil_of_mem hlo
  · intro hne
    obtain ⟨hstartmem, hstart⟩ := h.start.resolve_left (fun hf => hne hf.1)
    obtain ⟨hstopmem, hstop⟩ := h.stop.resolve_left (fun hf => hne hf.1)
    exact ⟨_, hstartmem, _, hstopmem, fun t ht => ⟨hstart t ht, hstop t ht⟩, rfl⟩

variable (copyEpicsData) in
/-- **What `RunInfo` is meant to hold**: the line that ends a run has the number of the run, and as duration the time
    from the first to the last of its own events. -/
def PerRun (p₀ : BDXEventProcessor ε) (runs : List (JobRun ε)) : Prop :=
  AtEvery (fun pre r => ∃ p entry, jobRuns copyEpicsData p₀ (pre ++ [r]) = some p ∧
    p.runInfo.getLast? = some entry ∧ entry.runN = r.number ∧ IsSpan (daqTimes r.calls) entry.dT) runs

/-- For every run, the last of the accepted events of the job so far has the number of the run, and all of them together
    take as much time as the events of the DAQ in the run. -/
def SameSpans (doBuildDST : Bool) (runs : List (JobRun ε)) : Prop :=
  AtEvery (fun pre r =>
    lastNumber (recorded doBuildDST ((pre ++ [r]).flatMap JobRun.calls)) = r.number ∧
    ∃ d, IsSpan ((recorded doBuildDST ((pre ++ [r]).flatMap JobRun.calls)).map Prod.snd) d ∧
      IsSpan (daqTimes r.calls) d) runs

theorem init_output {etSupport : Bool} {buildDST optf : String} {p₀ : BDXEventProcessor ε}
    (hinit : BDXEventProcessor.init etSupport false buildDST optf = some p₀) (hout : p₀.output.isSome = true) :
    Running p₀.doBuildDST [] p₀ := by
  have hfields : p₀.isMC = false ∧ p₀.isFirstCallToBrun = true ∧ p₀.startTime = 9999999999 ∧
      p₀.stopTime = -9999999999 ∧ p₀.runN = 0 := by
    unfold BDXEventProcessor.init at hinit
    split at hinit
    · cases hinit
      exact ⟨rfl, rfl, rfl, rfl, rfl⟩
    · split at hinit
      · cases hinit
        exact ⟨rfl, rfl, rfl, rfl, rfl⟩
      · split at hinit
        · split at hinit
          · cases hinit
            exact ⟨rfl, rfl, rfl, rfl, rfl⟩
          · exact absurd hinit.symm (Option.some_ne_none _)
        · cases hinit
          exact ⟨rfl, rfl, rfl, rfl, rfl⟩
  obtain ⟨hMC, hfirst, hstart, hstop, hrunN⟩ := hfields
  exact ⟨hMC, hfirst, rfl, hout, ⟨⟨Or.inl ⟨rfl, hstart⟩, Or.inl ⟨rfl, hstop⟩⟩, hrunN⟩⟩

/-- The line of a run is right when the accepted events so far take as much time as those of the run. -/
theorem line_right_iff {times own : List Int} {p : BDXEventProcessor ε} (h : Spans times p) :
    IsSpan own (p.stopTime - p.startTime) ↔ ∃ d, IsSpan times d ∧ IsSpan own d := by
  constructor
  · intro hown
    refine ⟨_, h.isSpan_iff.mpr ?_, hown⟩
    -- without events the difference is negative
    rintro rfl
    obtain ⟨-, hstart⟩ := h.start.resolve_right (fun hf => absurd hf.1 List.not_mem_nil)
    obtain ⟨-, hstop⟩ := h.stop.resolve_right (fun hf => absurd hf.1 List.not_mem_nil)
    have hnonneg := hown.nonneg
    omega
  · rintro ⟨d, hall, hown⟩
    obtain ⟨lo, hlo, -⟩ := id hall
    rw [(h.isSpan_iff.mpr (List.ne_nil_of_mem hlo)).unique hall]
    exact hown

/-- **The lines of `RunInfo` are right when, for every run, the last accepted event of the job has the number of the run
    and all accepted events so far take as much time as the events of the run**, and only then. -/
theorem perRun_iff (copyEpicsData : ε → EpicsData → ε) {etSupport : Bool} {buildDST optf : String}
    {p₀ : BDXEventProcessor ε} (hinit : BDXEventProcessor.init etSupport false buildDST optf = some p₀)
    (hout : p₀.output.isSome = true) (runs : List (JobRun ε)) :
    PerRun copyEpicsData p₀ runs ↔ SameSpans p₀.doBuildDST runs := by
  have hlines : ∀ pre r, (∃ p entry, jobRuns copyEpicsData p₀ (pre ++ [r]) = some p ∧
      p.runInfo.getLast? = some entry ∧ entry.runN = r.number ∧ IsSpan (daqTimes r.calls) entry.dT) ↔
      lastNumber (recorded p₀.doBuildDST ((pre ++ [r]).flatMap JobRun.calls)) = r.number ∧
      ∃ d, IsSpan ((recorded p₀.doBuildDST ((pre ++ [r]).flatMap JobRun.calls)).map Prod.snd) d ∧
        IsSpan (daqTimes r.calls) d := by
    intro pre r
    obtain ⟨p, hjob, hrunning, hlast⟩ := (init_output hinit hout).jobRuns copyEpicsData (pre ++ [r])
    rw [← line_right_iff hrunning.remembers.spans, hjob]
    simp [hlast]
  constructor
  · intro h pre r suf hsplit
    exact (hlines pre r).mp (h pre r suf hsplit)
  · intro h pre r suf hsplit
    exact (hlines pre r).mpr (h pre r suf hsplit)

end Durations

section TwoRuns

/-- Run 1 has an event at 100 s, run 2 one at 200 s. -/
def twoDaqRuns : List (JobRun Unit) := [⟨1, [daqCall 1 100]⟩, ⟨2, [daqCall 2 200]⟩]

theorem perRun_twoDaqRuns :
    rootProcessor.output.isSome = true ∧
      (PerRun (fun e _ => e) rootProcessor twoDaqRuns ↔ SameSpans rootProcessor.doBuildDST twoDaqRuns) :=
  ⟨rfl, perRun_iff (fun e _ => e) init_rootProcessor rfl twoDaqRuns⟩

/-- The line of run 2 has 100 s instead of 0. -/
theorem twoDaqRuns_not_perRun : ¬ PerRun (fun e _ => e) rootProcessor twoDaqRuns := by
  intro h
  obtain ⟨p, entry, hjob, hlast, -, lo, hlo, hi, hhi, -, hdT⟩ :=
    h [⟨1, [daqCall 1 100]⟩] ⟨2, [daqCall 2 200]⟩ [] rfl
  have hline : (jobRuns (fun e _ => e) rootProcessor twoDaqRuns).bind (fun p => p.runInfo.getLast?.map RunInfoEntry.dT)
      = some 100 := by decide +kernel
  have htimes : daqTimes [daqCall 2 200] = [200] := by decide
  rw [htimes, List.mem_singleton] at hlo hhi
  have hjob' : jobRuns (fun e _ => e) rootProcessor twoDaqRuns = some p := hjob
  rw [hjob', Option.bind_some, hlast, Option.map_some, Option.some.injEq] at hline
  omega

end TwoRuns

end BdxReco
