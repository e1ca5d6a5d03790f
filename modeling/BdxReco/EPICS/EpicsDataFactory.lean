import BdxReco.DAQ.Event
import BdxReco.EPICS.EpicsData
import BdxReco.Lib.Binary64
import BdxReco.Lib.Run
import BdxReco.System.CalibrationHandler

/-!
# `EPICS.EpicsDataFactory` — slow control data across events

`epicsData_factory` keeps one `epicsData` in global memory. An event with raw EPICS texts updates it if all the texts
have only accepted characters; every event publishes a copy. The memory survives runs, so the results are about whole
sequences of events, each with the constants its run has loaded.

* `persistent_iff`: the published values are those of all accepted events so far, as long as no accepted event has a
  number too large for a `double`.
* `correctedOnce_iff`: when the time stamps have the documented correction.
-/

namespace BdxReco

open IStream Run

/-- `round(x)`: to the nearest integer, halves away from zero. -/
def roundAway (x : ℚ) : Int := if 0 ≤ x then (x + 1 / 2).floor else -(-x + 1 / 2).floor

/-- `(int) round(x)`. -/
def roundToInt (x : ℚ) : Int := Binary64.toInt (roundAway x)

/-- The factory: `m_deltaTime` and the handler of `/DAQ/epics_dT`. -/
structure EpicsDataFactory where
  deltaTime : Int
  dTs : RunCalibrationHandler

namespace EpicsDataFactory

def isNotAlnumSpace (c : Char) : Bool :=
  !(c.isAlpha || c.isDigit || isSpace c || c == ':' || c == '_' || c == '.' || c == '-')

def stringIsValid (str : String) : Bool := (str.toList.find? isNotAlnumSpace).isNone

/-- The update of the global memory by an accepted event. -/
def update (f : EpicsDataFactory) (data : EpicsData) (rawdata : List String) (tData : EventData) :
    Option EpicsData := do
  let T0 ← f.dTs.getCalib[0]?
  let mT ← f.dTs.getCalib[1]?
  let tCorr := Binary64.add (Binary64.add (Binary64.round f.deltaTime) T0) (Binary64.mul data.eventNumber mT)
  let data := { data with
    runNumber := tData.runN.toBitVec.toInt
    time := (tData.time + roundToInt tCorr).bmod (2 ^ 32) }
  rawdata.foldlM (fun data raw => data.decode raw (Binary64.toLong tCorr)) data

/-- `evnt`: the global memory after it, what is published and the return value. `tData` is what `GetSingle` finds.
    There is no result when a constant does not exist or a text is decoded for ever. -/
def evnt (f : EpicsDataFactory) (data : EpicsData) (rawdata : List String) (tData : Option EventData) :
    Option (EpicsData × List EpicsData × JError) :=
  match tData with
  | none => some (data, [], .objectNotAvailable)
  | some tData => do
    let flagOK := rawdata.all stringIsValid
    let data ← if rawdata.length > 0 ∧ flagOK then f.update data rawdata tData else some data
    some (data, [data], .noError)

end EpicsDataFactory

open EpicsDataFactory

/-! ## Sequences of events -/

/-- An event as the factory sees it: its data and the constants its run has loaded. -/
structure EpicsEvent where
  dTs : RunCalibrationHandler
  tData : EventData
  rawdata : List String

namespace EpicsEvent

/-- The event is accepted: there are texts, and all are valid. -/
def accepted (e : EpicsEvent) : Bool := !e.rawdata.isEmpty && e.rawdata.all stringIsValid

def T0 (e : EpicsEvent) : ℚ := e.dTs.getCalib.getD 0 0

def mT (e : EpicsEvent) : ℚ := e.dTs.getCalib.getD 1 0

/-- `tCorr` as it comes out, without the number of the event. -/
def computedCorr (deltaTime : Int) (e : EpicsEvent) : ℚ := Binary64.add (Binary64.round deltaTime) e.T0

/-- The constants are loaded. -/
def Loaded (e : EpicsEvent) : Prop := 2 ≤ e.dTs.getCalib.length

/-- The pairs read from all the texts; `none` if one is read for ever. -/
def readsAll (e : EpicsEvent) : Option (List (String × ℚ)) := (e.rawdata.mapM reads).map List.flatten

def evnt (deltaTime : Int) (data : EpicsData) (e : EpicsEvent) : Option (EpicsData × List EpicsData × JError) :=
  EpicsDataFactory.evnt ⟨deltaTime, e.dTs⟩ data e.rawdata (some e.tData)

end EpicsEvent

/-- The global memory after the events, zero-initialised before them. -/
def epicsRun (deltaTime : Int) (events : List EpicsEvent) : Option EpicsData :=
  events.foldlM (fun data e => (e.evnt deltaTime data).map (fun r => r.1)) {}

theorem epicsRun_concat (deltaTime : Int) (events : List EpicsEvent) (e : EpicsEvent) :
    epicsRun deltaTime (events ++ [e])
      = (epicsRun deltaTime events).bind (fun data => (e.evnt deltaTime data).map (fun r => r.1)) := by
  simp [epicsRun, List.foldlM_append]

theorem foldlM_decode (texts : List String) (data : EpicsData) (deltaTime : Int) :
    texts.foldlM (fun data raw => data.decode raw deltaTime) data
      = ((texts.mapM reads).map List.flatten).map (enterAll deltaTime data) := by
  induction texts generalizing data with
  | nil => rfl
  | cons raw texts ih =>
      rw [List.foldlM_cons, List.mapM_cons, decode_eq]
      cases reads raw with
      | none => rfl
      | some pairs =>
          simp only [Option.map_some, Option.bind_eq_bind, Option.bind_some, ih]
          cases texts.mapM reads with
          | none => rfl
          | some rest => simp [enterAll, List.foldl_append]

theorem accepted_iff {e : EpicsEvent} :
    e.accepted = true ↔ e.rawdata.length > 0 ∧ e.rawdata.all stringIsValid = true := by
  rw [EpicsEvent.accepted, Bool.and_eq_true, gt_iff_lt, List.length_pos_iff, Bool.not_eq_true',
    List.isEmpty_eq_false_iff]

/-- An event that is not accepted changes nothing. -/
theorem evnt_not_accepted {e : EpicsEvent} (h : e.accepted = false) (deltaTime : Int) (data : EpicsData) :
    e.evnt deltaTime data = some (data, [data], .noError) := by
  have hcond : ¬ (e.rawdata.length > 0 ∧ e.rawdata.all stringIsValid = true) := by
    rw [← accepted_iff, h]
    exact Bool.false_ne_true
  simp only [EpicsEvent.evnt, EpicsDataFactory.evnt, if_neg hcond]
  rfl

/-- The memory with the run number and the time of an accepted event. `eventNumber` is never set, so the correction
    is without it. -/
def stamped (deltaTime : Int) (data : EpicsData) (e : EpicsEvent) : EpicsData :=
  { data with
    runNumber := e.tData.runN.toBitVec.toInt
    time := (e.tData.time + roundToInt (e.computedCorr deltaTime)).bmod (2 ^ 32) }

theorem getElem?_eq_some_getD {l : List ℚ} {k : Nat} (hk : k < l.length) : l[k]? = some (l.getD k 0) := by
  rw [List.getD_eq_getElem?_getD, List.getElem?_eq_getElem hk, Option.getD_some]

/-- **An accepted event** stamps the memory and enters what is read from its texts. -/
theorem evnt_accepted {e : EpicsEvent} (h : e.accepted = true) (hloaded : e.Loaded) (deltaTime : Int)
    {data : EpicsData} (hnumber : data.eventNumber = 0) :
    e.evnt deltaTime data
      = e.readsAll.map (fun pairs =>
          let data' := enterAll (Binary64.toLong (e.computedCorr deltaTime)) (stamped deltaTime data e) pairs
          (data', [data'], .noError)) := by
  have hT0 : e.dTs.getCalib[0]? = some e.T0 := getElem?_eq_some_getD (by unfold EpicsEvent.Loaded at hloaded; omega)
  have hmT : e.dTs.getCalib[1]? = some e.mT := getElem?_eq_some_getD hloaded
  have hcorr : Binary64.add (Binary64.add (Binary64.round deltaTime) e.T0) (Binary64.mul data.eventNumber e.mT)
      = e.computedCorr deltaTime := by
    unfold EpicsEvent.computedCorr Binary64.mul Binary64.add
    rw [hnumber, Int.cast_zero, zero_mul, Binary64.round_zero, add_zero]
    exact Binary64.isDouble_round _
  simp only [EpicsEvent.evnt, EpicsDataFactory.evnt, if_pos (accepted_iff.mp h), EpicsDataFactory.update, hT0, hmT,
    Option.bind_eq_bind, Option.bind_some, foldlM_decode, hcorr]
  unfold EpicsEvent.readsAll
  cases e.rawdata.mapM reads with
  | none => rfl
  | some rest => rfl

/-- An update that ends had its constants, and leaves `eventNumber`. -/
theorem update_some {f : EpicsDataFactory} {data data' : EpicsData} {rawdata : List String} {tData : EventData}
    (h : f.update data rawdata tData = some data') :
    2 ≤ f.dTs.getCalib.length ∧ data'.eventNumber = data.eventNumber := by
  unfold EpicsDataFactory.update at h
  obtain ⟨T0, -, h⟩ := Option.bind_eq_some_iff.mp h
  obtain ⟨mT, hmT, h⟩ := Option.bind_eq_some_iff.mp h
  rw [foldlM_decode] at h
  obtain ⟨pairs, -, rfl⟩ := Option.map_eq_some_iff.mp h
  exact ⟨(List.getElem?_eq_some_iff.mp hmT).1, (enterAll_time _ _ _).2⟩

theorem evnt_some {e : EpicsEvent} {deltaTime : Int} {data : EpicsData} {r : EpicsData × List EpicsData × JError}
    (h : e.evnt deltaTime data = some r) :
    (e.accepted = true → e.Loaded) ∧ r.1.eventNumber = data.eventNumber := by
  cases haccepted : e.accepted with
  | false =>
      rw [evnt_not_accepted haccepted, Option.some.injEq] at h
      exact ⟨fun hf => absurd hf Bool.false_ne_true, by rw [← h]⟩
  | true =>
      simp only [EpicsEvent.evnt, EpicsDataFactory.evnt, if_pos (accepted_iff.mp haccepted)] at h
      obtain ⟨data', hupdate, h⟩ := Option.bind_eq_some_iff.mp h
      obtain ⟨hloaded, hnumber⟩ := update_some hupdate
      rw [← Option.some.inj h]
      exact ⟨fun _ => hloaded, hnumber⟩

/-- `eventNumber` keeps its initial value. -/
theorem epicsRun_eventNumber {deltaTime : Int} {events : List EpicsEvent} {data : EpicsData}
    (h : epicsRun deltaTime events = some data) : data.eventNumber = 0 := by
  induction events using List.reverseRecOn generalizing data with
  | nil =>
      rw [← Option.some.inj h]
  | append_singleton events e ih =>
      rw [epicsRun_concat] at h
      obtain ⟨data₀, hrun, h⟩ := Option.bind_eq_some_iff.mp h
      obtain ⟨r, hevnt, rfl⟩ := Option.map_eq_some_iff.mp h
      rw [(evnt_some hevnt).2]
      exact ih hrun

/-! ## Texts of the documented form -/

/-- A text that is not valid, or one made of entries. -/
inductive EpicsText where
  | rejected (raw : String) (h : stringIsValid raw = false)
  | ofEntries (entries : List EpicsEntry)

namespace EpicsText

def raw : EpicsText → String
  | rejected raw _ => raw
  | ofEntries entries => String.ofList (entries.flatMap EpicsEntry.toChars)

def entries : EpicsText → List EpicsEntry
  | rejected _ _ => []
  | ofEntries entries => entries

end EpicsText

/-- An event all of whose texts are rejected or of the documented form. -/
structure DocumentedEvent where
  dTs : RunCalibrationHandler
  tData : EventData
  texts : List EpicsText

namespace DocumentedEvent

def toEvent (e : DocumentedEvent) : EpicsEvent := ⟨e.dTs, e.tData, e.texts.map EpicsText.raw⟩

/-- The entries of an accepted event. -/
def entries (e : DocumentedEvent) : List EpicsEntry :=
  if e.toEvent.accepted then e.texts.flatMap EpicsText.entries else []

/-- The numbers of an accepted event are in the range of `double`. -/
def InRange (e : DocumentedEvent) : Prop := ∀ x ∈ e.entries, x.value.InRange

end DocumentedEvent

/-- The entries of all accepted events, entered one after the other. -/
def lastValues (events : List DocumentedEvent) : StdMap String ℚ :=
  (events.flatMap DocumentedEvent.entries).foldl (fun m x => m.assign x.pair.1 x.pair.2) .empty

theorem entries_of_accepted {e : DocumentedEvent} (h : e.toEvent.accepted = true) :
    e.entries = e.texts.flatMap EpicsText.entries :=
  if_pos h

theorem valid_of_accepted {e : DocumentedEvent} (h : e.toEvent.accepted = true) {text : EpicsText}
    (htext : text ∈ e.texts) : stringIsValid text.raw = true := by
  have hall := (Bool.and_eq_true_iff.mp h).2
  exact List.all_eq_true.mp hall text.raw (List.mem_map_of_mem htext)

/-- A valid text is read as its entries, and only in range. -/
theorem reads_text {text : EpicsText} (h : stringIsValid text.raw = true) :
    ((∀ x ∈ text.entries, x.value.InRange) → reads text.raw = some (text.entries.map EpicsEntry.pair)) ∧
      ((∃ x ∈ text.entries, ¬ x.value.InRange) → reads text.raw = none) := by
  cases text with
  | rejected raw hraw =>
      rw [EpicsText.raw, hraw] at h
      exact absurd h Bool.false_ne_true
  | ofEntries entries =>
      have hraw : (EpicsText.ofEntries entries).raw.toList = entries.flatMap EpicsEntry.toChars :=
        String.toList_ofList
      exact ⟨reads_entries hraw, reads_overflow hraw⟩

theorem mapM_reads {texts : List EpicsText} (hvalid : ∀ text ∈ texts, stringIsValid text.raw = true) :
    ((∀ x ∈ texts.flatMap EpicsText.entries, x.value.InRange) →
      ((texts.map EpicsText.raw).mapM reads).map List.flatten
        = some ((texts.flatMap EpicsText.entries).map EpicsEntry.pair)) ∧
      ((∃ x ∈ texts.flatMap EpicsText.entries, ¬ x.value.InRange) →
        (texts.map EpicsText.raw).mapM reads = none) := by
  induction texts with
  | nil => exact ⟨fun _ => rfl, by simp⟩
  | cons text texts ih =>
      obtain ⟨hin, hout⟩ := reads_text (hvalid text (by simp))
      obtain ⟨ihin, ihout⟩ := ih (fun t ht => hvalid t (List.mem_cons_of_mem text ht))
      rw [List.map_cons, List.mapM_cons, List.flatMap_cons]
      constructor
      · intro hrange
        rw [List.forall_mem_append] at hrange
        obtain ⟨rest, hrest, hflat⟩ := Option.map_eq_some_iff.mp (ihin hrange.2)
        rw [hin hrange.1, hrest]
        simp [hflat]
      · rintro ⟨x, hx, hxout⟩
        rcases List.mem_append.mp hx with hx | hx
        · rw [hout ⟨x, hx, hxout⟩]
          rfl
        · rw [ihout ⟨x, hx, hxout⟩]
          cases reads text.raw with
          | none => rfl
          | some pairs => rfl

theorem readsAll_inRange {e : DocumentedEvent} (h : e.toEvent.accepted = true) (hrange : e.InRange) :
    e.toEvent.readsAll = some (e.entries.map EpicsEntry.pair) := by
  unfold DocumentedEvent.InRange at hrange
  rw [entries_of_accepted h] at hrange ⊢
  exact (mapM_reads (fun _ ht => valid_of_accepted h ht)).1 hrange

theorem readsAll_overflow {e : DocumentedEvent} (h : e.toEvent.accepted = true) (hrange : ¬ e.InRange) :
    e.toEvent.readsAll = none := by
  unfold DocumentedEvent.InRange at hrange
  rw [entries_of_accepted h] at hrange
  push Not at hrange
  have hnone := (mapM_reads (fun _ ht => valid_of_accepted h ht)).2 hrange
  exact Option.map_eq_none_iff.mpr hnone

/-! ## Persistence -/

/-- What the memory is after the events. -/
structure Follows (events : List DocumentedEvent) (data : EpicsData) : Prop where
  values : data.values = lastValues events
  sameKeys : SameKeys data

theorem lastValues_concat (events : List DocumentedEvent) (e : DocumentedEvent) :
    lastValues (events ++ [e])
      = (e.entries.map EpicsEntry.pair).foldl (fun m p => m.assign p.1 p.2) (lastValues events) := by
  unfold lastValues
  rw [List.flatMap_append, List.foldl_append, List.flatMap_singleton, List.foldl_map]

/-- **One event.** -/
theorem Follows.evnt {events : List DocumentedEvent} {data : EpicsData} (h : Follows events data)
    (hnumber : data.eventNumber = 0) {e : DocumentedEvent} (hloaded : e.toEvent.Loaded) (hrange : e.InRange)
    (deltaTime : Int) :
    ∃ data', e.toEvent.evnt deltaTime data = some (data', [data'], .noError) ∧ Follows (events ++ [e]) data' ∧
      (e.toEvent.accepted = false → data' = data) := by
  cases haccepted : e.toEvent.accepted with
  | false =>
      refine ⟨data, evnt_not_accepted haccepted deltaTime data, ⟨?_, h.sameKeys⟩, fun _ => rfl⟩
      have hentries : e.entries = [] := if_neg (by simp [haccepted])
      rw [lastValues_concat, hentries]
      exact h.values
  | true =>
      have hevnt := evnt_accepted haccepted hloaded deltaTime hnumber
      rw [readsAll_inRange haccepted hrange] at hevnt
      refine ⟨_, hevnt, ⟨?_, ?_⟩, fun hf => absurd hf.symm Bool.false_ne_true⟩
      · rw [lastValues_concat, enterAll_values, ← h.values]
        rfl
      · exact SameKeys.enterAll (d := stamped deltaTime data e.toEvent) h.sameKeys _ _

/-- **Sequences of events.** -/
theorem epicsRun_follows (deltaTime : Int) {events : List DocumentedEvent}
    (hloaded : ∀ e ∈ events, e.toEvent.Loaded) (hrange : ∀ e ∈ events, e.InRange) :
    ∃ data, epicsRun deltaTime (events.map DocumentedEvent.toEvent) = some data ∧ Follows events data := by
  induction events using List.reverseRecOn with
  | nil => exact ⟨{}, rfl, rfl, fun _ => rfl⟩
  | append_singleton events e ih =>
      simp only [List.mem_append, List.mem_singleton] at hloaded hrange
      obtain ⟨data, hrun, hfollows⟩ := ih (fun e he => hloaded e (Or.inl he)) (fun e he => hrange e (Or.inl he))
      obtain ⟨data', hevnt, hfollows', -⟩ := hfollows.evnt (epicsRun_eventNumber hrun) (hloaded e (Or.inr rfl))
        (hrange e (Or.inr rfl)) deltaTime
      refine ⟨data', ?_, hfollows'⟩
      rw [List.map_append, List.map_singleton, epicsRun_concat, hrun, Option.bind_some, hevnt]
      rfl

/-- The event has a text that is not valid. -/
def DocumentedEvent.Rejected (e : DocumentedEvent) : Prop := ∃ text ∈ e.texts, stringIsValid text.raw = false

/-- **Persistence.** After every event of the sequence, what is published has the values of all entries of the accepted
    events so far, the last one winning; a rejected event changes nothing; values and times have the same keys. -/
def Persistent (deltaTime : Int) (events : List DocumentedEvent) : Prop :=
  AtEvery (fun pre e => ∃ data data',
    epicsRun deltaTime (pre.map DocumentedEvent.toEvent) = some data ∧
    e.toEvent.evnt deltaTime data = some (data', [data'], .noError) ∧
    data'.values = lastValues (pre ++ [e]) ∧
    (e.Rejected → data'.values = data.values ∧ data'.times = data.times ∧ data'.time = data.time ∧
      data'.runNumber = data.runNumber) ∧
    ∀ key, data'.hasData key = true ↔ ∃ t, data'.times.find? key = some t) events

theorem not_accepted_of_rejected {e : DocumentedEvent} (h : e.Rejected) : e.toEvent.accepted = false := by
  obtain ⟨text, htext, hinvalid⟩ := h
  rw [← Bool.not_eq_true]
  intro haccepted
  rw [valid_of_accepted haccepted htext] at hinvalid
  exact Bool.noConfusion hinvalid

theorem persistent_of_inRange {deltaTime : Int} {events : List DocumentedEvent}
    (hloaded : ∀ e ∈ events, e.toEvent.Loaded) (hrange : ∀ e ∈ events, e.InRange) : Persistent deltaTime events := by
  intro pre e suf hsplit
  have hmem : ∀ e' ∈ pre ++ [e], e' ∈ events := by
    intro e' he'
    rw [hsplit]
    simp only [List.mem_append, List.mem_cons] at he' ⊢
    tauto
  obtain ⟨data, hrun, hfollows⟩ := epicsRun_follows deltaTime
    (fun e' he' => hloaded e' (hmem e' (List.mem_append_left _ he')))
    (fun e' he' => hrange e' (hmem e' (List.mem_append_left _ he')))
  obtain ⟨data', hevnt, hfollows', hsame⟩ := hfollows.evnt (epicsRun_eventNumber hrun)
    (hloaded e (hmem e (by simp))) (hrange e (hmem e (by simp))) deltaTime
  refine ⟨data, data', hrun, hevnt, hfollows'.values, fun hrejected => ?_, fun key => ?_⟩
  · rw [hsame (not_accepted_of_rejected hrejected)]
    exact ⟨rfl, rfl, rfl, rfl⟩
  · rw [hfollows'.sameKeys key, Option.isSome_iff_exists]

/-- An accepted event out of range publishes nothing. -/
theorem inRange_of_persistent {deltaTime : Int} {events : List DocumentedEvent}
    (hloaded : ∀ e ∈ events, e.toEvent.Loaded) (h : Persistent deltaTime events) : ∀ e ∈ events, e.InRange := by
  intro e he
  obtain ⟨pre, suf, hsplit⟩ := List.append_of_mem he
  obtain ⟨data, data', hrun, hevnt, -⟩ := h pre e suf hsplit
  cases haccepted : e.toEvent.accepted with
  | false =>
      have hentries : e.entries = [] := if_neg (by simp [haccepted])
      simp [DocumentedEvent.InRange, hentries]
  | true =>
      by_contra hrange
      rw [evnt_accepted haccepted (hloaded e he) deltaTime (epicsRun_eventNumber hrun),
        readsAll_overflow haccepted hrange] at hevnt
      exact absurd hevnt.symm (Option.some_ne_none _)

/-- **Persistence holds as long as the numbers of the accepted events are in the range of `double`**, and only then:
    a number out of range is decoded for ever. -/
theorem persistent_iff (deltaTime : Int) (events : List DocumentedEvent)
    (hloaded : ∀ e ∈ events, e.toEvent.Loaded) :
    Persistent deltaTime events ↔ ∀ e ∈ events, e.InRange :=
  ⟨inRange_of_persistent hloaded, persistent_of_inRange hloaded⟩

/-- `5 x` and a line feed. -/
def fiveX : EpicsEntry where
  value := { int := [5], digits_ne := by simp }
  sep := [' ']
  sep_ne := by simp
  sep_space := by simp [isSpace]
  desc := ['x']
  desc_ne := by simp
  desc_word := by simp [isSpace]
  stop := ['\n']
  stop_ne := by simp
  stop_space := by simp [isSpace]

/-- `1e400 x` and a line feed. -/
def hugeX : EpicsEntry :=
  { fiveX with
    value := { int := [1], exp := some { digits := [4, 0, 0], digits_ne := by simp }, digits_ne := by simp } }

/-- An event of the run whose constants are `T0 = 1`, `mT = 0`, with one text made of the entry. -/
def eventOf (x : EpicsEntry) : DocumentedEvent where
  dTs := { table := "/DAQ/epics_dT", calib := [1, 0] }
  tData := { runN := 7, time := 100 }
  texts := [.ofEntries [x]]

theorem eventOf_loaded (x : EpicsEntry) : ∀ e ∈ [eventOf x], e.toEvent.Loaded := by
  simp [eventOf, DocumentedEvent.toEvent, EpicsEvent.Loaded, RunCalibrationHandler.getCalib]

theorem persistent_fiveX :
    (∀ e ∈ [eventOf fiveX], e.toEvent.Loaded) ∧
      (Persistent 0 [eventOf fiveX] ↔ ∀ e ∈ [eventOf fiveX], e.InRange) :=
  ⟨eventOf_loaded fiveX, persistent_iff 0 [eventOf fiveX] (eventOf_loaded fiveX)⟩

theorem hugeX_not_inRange : ¬ hugeX.value.InRange := by
  have hvalue : hugeX.value.value = 10 ^ 400 := by
    have hsign : signOf hugeX.value.minus = 1 := by decide
    have hdigits : ofDigits (hugeX.value.int ++ hugeX.value.frac.getD []) = 1 := by decide
    have hexp : (hugeX.value.exp.map Exponent.value).getD 0 - ((hugeX.value.frac.getD []).length : Int)
        = (400 : Nat) := by decide
    rw [Decimal.value, hsign, hdigits, hexp, zpow_natCast, Int.cast_one, Nat.cast_one, one_mul, one_mul]
  have hbig : doubleOverflow ≤ 10 ^ 400 := by
    have hstep : (2 : ℚ) ^ 256 ≤ 10 ^ 100 := by norm_num
    calc doubleOverflow ≤ 2 ^ 1024 := sub_le_self _ (by positivity)
      _ = (2 ^ 256) ^ 4 := by rw [← pow_mul]
      _ ≤ (10 ^ 100) ^ 4 := pow_le_pow_left₀ (by positivity) hstep 4
      _ = 10 ^ 400 := by rw [← pow_mul]
  unfold Decimal.InRange
  rw [hvalue, not_lt]
  exact hbig.trans (le_abs_self _)

/-- The text of `hugeX` is valid, and it is decoded for ever. -/
theorem hugeX_not_persistent : ¬ Persistent 0 [eventOf hugeX] := by
  intro h
  have hrange := inRange_of_persistent (eventOf_loaded hugeX) h (eventOf hugeX) (by simp)
  have haccepted : (eventOf hugeX).toEvent.accepted = true := by decide
  have hentries : (eventOf hugeX).entries = [hugeX] := by
    rw [entries_of_accepted haccepted]
    rfl
  exact hugeX_not_inRange (hrange hugeX (by simp [hentries]))

/-! ## Time stamps -/

namespace EpicsEvent

/-- The pairs read from the texts. -/
def pairs (e : EpicsEvent) : List (String × ℚ) := e.readsAll.getD []

/-- The documented correction, with the number of the event, and exact. -/
def tCorr (deltaTime : Int) (e : EpicsEvent) : ℚ := deltaTime + e.T0 + e.tData.eventN * e.mT

end EpicsEvent

/-- **One correction.** After every accepted event of the sequence, the time of a key read from it is the time of the
    event with the correction, and also the time of the published object; the other keys keep their times. -/
def CorrectedOnce (deltaTime : Int) (events : List EpicsEvent) : Prop :=
  AtEvery (fun pre e => ∃ data data',
    epicsRun deltaTime pre = some data ∧ e.evnt deltaTime data = some (data', [data'], .noError) ∧
    (e.accepted = true →
      (∀ p ∈ e.pairs, data'.getDataTime p.1 = e.tData.time + roundAway (e.tCorr deltaTime) ∧
        data'.getDataTime p.1 = data'.time) ∧
      ∀ key, key ∉ e.pairs.map Prod.fst → data'.times.find? key = data.times.find? key)) events

/-- The documented time is an `int`, the number of the event adds nothing to the first correction, and the second,
    truncated correction of the keys is zero. What an `int` forgets of a correction does not count. -/
structure EpicsEvent.Harmless (deltaTime : Int) (e : EpicsEvent) : Prop where
  least : -2 ^ 31 ≤ e.tData.time + roundAway (e.tCorr deltaTime)
  most : e.tData.time + roundAway (e.tCorr deltaTime) < 2 ^ 31
  first : (roundToInt (e.computedCorr deltaTime) - roundAway (e.tCorr deltaTime)) % 2 ^ 32 = 0
  second : Binary64.toLong (e.computedCorr deltaTime) % 2 ^ 32 = 0

/-- What an `int` keeps of a number. -/
theorem bmod_eq_iff {n k : Int} :
    n.bmod (2 ^ 32) = k ↔ (-2 ^ 31 ≤ k ∧ k < 2 ^ 31) ∧ (n - k) % 2 ^ 32 = 0 := by
  have hbmod : n.bmod (2 ^ 32) = if n % 2 ^ 32 < 2 ^ 31 then n % 2 ^ 32 else n % 2 ^ 32 - 2 ^ 32 := by
    norm_num [Int.bmod]
  rw [hbmod]
  split
  · omega
  · omega

/-- What an accepted event does to the times. -/
theorem evnt_times {e : EpicsEvent} (h : e.accepted = true) {deltaTime : Int} {data : EpicsData}
    (hnumber : data.eventNumber = 0) {r : EpicsData × List EpicsData × JError}
    (hevnt : e.evnt deltaTime data = some r) :
    r = (r.1, [r.1], .noError) ∧
      r.1.time = (e.tData.time + roundToInt (e.computedCorr deltaTime)).bmod (2 ^ 32) ∧
      (∀ p ∈ e.pairs, r.1.getDataTime p.1 = (r.1.time + Binary64.toLong (e.computedCorr deltaTime)).bmod (2 ^ 32)) ∧
      ∀ key, key ∉ e.pairs.map Prod.fst → r.1.times.find? key = data.times.find? key := by
  rw [evnt_accepted h ((evnt_some hevnt).1 h) deltaTime hnumber] at hevnt
  obtain ⟨pairs, hreads, rfl⟩ := Option.map_eq_some_iff.mp hevnt
  have hpairs : e.pairs = pairs := by rw [EpicsEvent.pairs, hreads, Option.getD_some]
  have htime := (enterAll_time (Binary64.toLong (e.computedCorr deltaTime)) (stamped deltaTime data e) pairs).1
  have htimes := enterAll_times (Binary64.toLong (e.computedCorr deltaTime)) (stamped deltaTime data e) pairs
  rw [hpairs]
  refine ⟨rfl, htime, fun p hp => ?_, fun key hkey => ?_⟩
  · simp only [EpicsData.getDataTime]
    rw [htimes, if_pos (List.mem_map_of_mem hp), htime, Option.getD_some]
  · simp only
    rw [htimes, if_neg hkey]
    rfl

/-- The texts of the event come to an end when they are decoded. -/
def EpicsEvent.Ends (e : EpicsEvent) : Prop := ∃ pairs, e.readsAll = some pairs

/-- **One event**, if its texts come to an end. -/
theorem exists_evnt {e : EpicsEvent} (hloaded : e.Loaded) (hends : e.accepted = true → e.Ends) (deltaTime : Int)
    {data : EpicsData} (hnumber : data.eventNumber = 0) :
    ∃ data', e.evnt deltaTime data = some (data', [data'], .noError) := by
  cases haccepted : e.accepted with
  | false => exact ⟨data, evnt_not_accepted haccepted deltaTime data⟩
  | true =>
      obtain ⟨pairs, hpairs⟩ := hends haccepted
      rw [evnt_accepted haccepted hloaded deltaTime hnumber, hpairs]
      exact ⟨_, rfl⟩

/-- **Sequences of events.** -/
theorem exists_epicsRun (deltaTime : Int) {events : List EpicsEvent} (hloaded : ∀ e ∈ events, e.Loaded)
    (hends : ∀ e ∈ events, e.accepted = true → e.Ends) : ∃ data, epicsRun deltaTime events = some data := by
  induction events using List.reverseRecOn with
  | nil => exact ⟨{}, rfl⟩
  | append_singleton events e ih =>
      simp only [List.mem_append, List.mem_singleton] at hloaded hends
      obtain ⟨data, hrun⟩ := ih (fun e he => hloaded e (Or.inl he)) (fun e he => hends e (Or.inl he))
      obtain ⟨data', hevnt⟩ := exists_evnt (hloaded e (Or.inr rfl)) (hends e (Or.inr rfl)) deltaTime
        (epicsRun_eventNumber hrun)
      rw [epicsRun_concat, hrun, Option.bind_some, hevnt]
      exact ⟨data', rfl⟩

theorem ends_of_correctedOnce {deltaTime : Int} {events : List EpicsEvent} (hloaded : ∀ e ∈ events, e.Loaded)
    (h : CorrectedOnce deltaTime events) : ∀ e ∈ events, e.accepted = true → e.Ends := by
  intro e he haccepted
  obtain ⟨pre, suf, hsplit⟩ := List.append_of_mem he
  obtain ⟨data, data', hrun, hevnt, -⟩ := h pre e suf hsplit
  rw [evnt_accepted haccepted (hloaded e he) deltaTime (epicsRun_eventNumber hrun)] at hevnt
  obtain ⟨pairs, hpairs, -⟩ := Option.map_eq_some_iff.mp hevnt
  exact ⟨pairs, hpairs⟩

theorem harmless_of_correctedOnce {deltaTime : Int} {events : List EpicsEvent} (h : CorrectedOnce deltaTime events) :
    ∀ e ∈ events, e.accepted = true → e.pairs ≠ [] → e.Harmless deltaTime := by
  intro e he haccepted hne
  obtain ⟨pre, suf, hsplit⟩ := List.append_of_mem he
  obtain ⟨data, data', hrun, hevnt, hcorrected⟩ := h pre e suf hsplit
  obtain ⟨-, htime, hkeys, -⟩ := evnt_times haccepted (epicsRun_eventNumber hrun) hevnt
  obtain ⟨p, hp⟩ := List.exists_mem_of_ne_nil _ hne
  obtain ⟨hdoc, hfield⟩ := (hcorrected haccepted).1 p hp
  have hkey := hkeys p hp
  simp only at htime hkey
  -- the time field is the documented one, and the keys have the same
  have hstamp := bmod_eq_iff.mp (htime.symm.trans (hfield.symm.trans hdoc))
  have hagain := bmod_eq_iff.mp (hkey.symm.trans hfield)
  exact ⟨hstamp.1.1, hstamp.1.2, by omega, by omega⟩

/-- **The time stamps are right when the texts of every accepted event come to an end and, if it has entries, its
    correction truncates to zero and the number of the event does not change the rounding**, in the range of an `int`,
    and only then. -/
theorem correctedOnce_iff (deltaTime : Int) (events : List EpicsEvent) (hloaded : ∀ e ∈ events, e.Loaded) :
    CorrectedOnce deltaTime events ↔
      ∀ e ∈ events, e.accepted = true → e.Ends ∧ (e.pairs ≠ [] → e.Harmless deltaTime) := by
  constructor
  · intro h e he haccepted
    exact ⟨ends_of_correctedOnce hloaded h e he haccepted, harmless_of_correctedOnce h e he haccepted⟩
  · intro h pre e suf hsplit
    have hmem : ∀ e' ∈ pre ++ [e], e' ∈ events := by
      intro e' he'
      rw [hsplit]
      simp only [List.mem_append, List.mem_cons] at he' ⊢
      tauto
    have hloadedPre : ∀ e' ∈ pre, e'.Loaded := fun e' he' => hloaded e' (hmem e' (List.mem_append_left _ he'))
    obtain ⟨data, hpre⟩ := exists_epicsRun deltaTime hloadedPre
      (fun e' he' haccepted => (h e' (hmem e' (List.mem_append_left _ he')) haccepted).1)
    have he : e ∈ events := hmem e (by simp)
    obtain ⟨data', hevnt⟩ := exists_evnt (hloaded e he) (fun haccepted => (h e he haccepted).1) deltaTime
      (epicsRun_eventNumber hpre)
    refine ⟨data, data', hpre, hevnt, fun haccepted => ?_⟩
    obtain ⟨-, htime, hkeys, hother⟩ := evnt_times haccepted (epicsRun_eventNumber hpre) hevnt
    refine ⟨fun p hp => ?_, hother⟩
    obtain ⟨hleast, hmost, hfirst, hsecond⟩ := (h e he haccepted).2 (List.ne_nil_of_mem hp)
    have hkey := hkeys p hp
    simp only at htime hkey
    have hstamp : data'.time = e.tData.time + roundAway (e.tCorr deltaTime) :=
      htime.trans (bmod_eq_iff.mpr ⟨⟨hleast, hmost⟩, by omega⟩)
    have hagain : data'.getDataTime p.1 = data'.time :=
      hkey.trans (bmod_eq_iff.mpr ⟨⟨hstamp ▸ hleast, hstamp ▸ hmost⟩, by omega⟩)
    exact ⟨hagain.trans hstamp, hagain⟩

theorem fiveX_inRange : (eventOf fiveX).InRange := by
  have hvalue : fiveX.value.value = 5 := by
    have hsign : signOf fiveX.value.minus = 1 := by decide
    have hdigits : ofDigits (fiveX.value.int ++ fiveX.value.frac.getD []) = 5 := by decide
    have hexp : (fiveX.value.exp.map Exponent.value).getD 0 - ((fiveX.value.frac.getD []).length : Int) = 0 := by
      decide
    rw [Decimal.value, hsign, hdigits, hexp, zpow_zero, Int.cast_one, one_mul, mul_one]
    norm_num
  have hsmall : (5 : ℚ) < doubleOverflow := by
    have hfactor : doubleOverflow = (2 ^ 54 - 1) * 2 ^ 970 := by
      rw [sub_mul, ← pow_add, one_mul]
      rfl
    calc (5 : ℚ) < (2 ^ 54 - 1) * 1 := by norm_num
      _ ≤ (2 ^ 54 - 1) * 2 ^ 970 := mul_le_mul_of_nonneg_left (one_le_pow₀ (by norm_num)) (by norm_num)
      _ = doubleOverflow := hfactor.symm
  have hentries : (eventOf fiveX).entries = [fiveX] := by
    rw [entries_of_accepted (by decide)]
    rfl
  intro x hx
  rw [hentries, List.mem_singleton] at hx
  rw [hx, Decimal.InRange, hvalue]
  rwa [abs_of_pos (by norm_num)]

theorem correctedOnce_fiveX :
    (∀ e ∈ [(eventOf fiveX).toEvent], e.Loaded) ∧
      (CorrectedOnce 0 [(eventOf fiveX).toEvent] ↔
        ∀ e ∈ [(eventOf fiveX).toEvent], e.accepted = true → e.Ends ∧ (e.pairs ≠ [] → e.Harmless 0)) := by
  have hloaded : ∀ e ∈ [(eventOf fiveX).toEvent], e.Loaded := by simpa using eventOf_loaded fiveX
  exact ⟨hloaded, correctedOnce_iff 0 [(eventOf fiveX).toEvent] hloaded⟩

/-- With `T0 = 1` the key is one second later than the object. -/
theorem fiveX_not_correctedOnce : ¬ CorrectedOnce 0 [(eventOf fiveX).toEvent] := by
  intro h
  have haccepted : (eventOf fiveX).toEvent.accepted = true := by decide
  have hpairs : (eventOf fiveX).toEvent.pairs ≠ [] := by
    rw [EpicsEvent.pairs, readsAll_inRange haccepted fiveX_inRange, entries_of_accepted haccepted]
    simp [eventOf, EpicsText.entries]
  have hharmless := harmless_of_correctedOnce h _ (List.mem_singleton.mpr rfl) haccepted hpairs
  have hlong : Binary64.toLong ((eventOf fiveX).toEvent.computedCorr 0) = 1 := by decide +kernel
  exact absurd (hlong ▸ hharmless.second) (by decide)

end BdxReco
