import BdxReco.DAQ.Event
import Mathlib.Algebra.Ring.Nat
import Mathlib.Data.List.Basic
import Mathlib.Data.List.TakeDrop

/-!
# `DAQ.TridasSource` — reading a TRIDAS post-trigger file

A file is a list of time slices, a time slice a list of events. `JEventSourceTRIDASDAQ` walks both with two
iterators, one step per `GetEvent`. Iterators are positions; using an end iterator or a deleted time slice is a
`Fault`, which is how the undefined behaviour of the source shows here.

`sliceOutcomes` is what the walk amounts to: slice by slice, all events of the slice, except that an exhausted
slice is replaced by the next one **once**, so that a later slice without events is read past its end.
-/

namespace BdxReco

/-! ## The file -/

structure PtEvent where
  id : Nat
  deriving DecidableEq, Repr

structure TimeSlice where
  id : Nat
  events : List PtEvent
  deriving DecidableEq, Repr

def TimeSlice.nEvents (ts : TimeSlice) : Nat := ts.events.length

/-- A file has at least one time slice. -/
structure PtFile where
  runNumber : Int
  first : TimeSlice
  later : List TimeSlice
  deriving DecidableEq, Repr

def PtFile.slices (f : PtFile) : List TimeSlice := f.first :: f.later

/-! ## The source -/

inductive TRIDASDAQSourceType where
  | noSource
  | fileSource
  deriving DecidableEq, Repr

/-- What must not happen to an iterator or a pointer. -/
inductive Fault where
  /-- The end iterator of the time slice is dereferenced. -/
  | endOfSlice
  /-- `ptTimeSlice` is used after its deletion. -/
  | deletedSlice
  deriving DecidableEq, Repr

structure JEventSourceTRIDASDAQ where
  sourceType : TRIDASDAQSourceType
  curRunNumber : Int
  overwriteRunNumber : Int
  ptReader : PtFile
  /-- Position of `it_ptReader` among the slices. -/
  itPtReader : Nat
  /-- `none` once deleted and not replaced. -/
  ptTimeSlice : Option TimeSlice
  /-- Position of `it_ptTimeSlice` in the slice. -/
  itPtTimeSlice : Nat
  nEventsTimeSlice : Nat
  ptEvent : Option PtEvent
  deriving DecidableEq, Repr

namespace JEventSourceTRIDASDAQ

/-- The constructor, on the opened file. -/
def new (file : PtFile) : JEventSourceTRIDASDAQ :=
  { sourceType := .fileSource
    curRunNumber := 0
    overwriteRunNumber := -1
    ptReader := file
    itPtReader := 0
    ptTimeSlice := some file.first
    itPtTimeSlice := 0
    nEventsTimeSlice := file.first.nEvents
    ptEvent := none }

/-- The second half of `GetEvent`: hand out the event the iterator points to. -/
def deliver (s : JEventSourceTRIDASDAQ) (ts : TimeSlice) (event : JEvent PtEvent) :
    Except Fault (JEventSourceTRIDASDAQ × JEvent PtEvent × JError) :=
  match ts.events[s.itPtTimeSlice]? with
  | none => .error .endOfSlice
  | some ev =>
    let curRunNumber := s.ptReader.runNumber
    let event := { event with
      hasSource := true, ref := some ev, eventNumber := ev.id, eventTS := ts.id
      runNumber := if s.overwriteRunNumber ≠ -1 then s.overwriteRunNumber else curRunNumber }
    .ok ({ s with ptEvent := some ev, curRunNumber, itPtTimeSlice := s.itPtTimeSlice + 1 }, event, .noError)

/-- `GetEvent(event)`. -/
def getEvent (s : JEventSourceTRIDASDAQ) (event : JEvent PtEvent) :
    Except Fault (JEventSourceTRIDASDAQ × JEvent PtEvent × JError) :=
  let event := { event with ref := none }
  match s.sourceType with
  | .noSource => .ok (s, event, .eventSourceNotOpen)
  | .fileSource =>
    match s.ptTimeSlice with
    | none => .error .deletedSlice
    | some ts =>
      if s.itPtTimeSlice = ts.events.length then
        -- at the end of the current time slice: move to the next one
        let s := { s with itPtReader := s.itPtReader + 1, ptTimeSlice := none }
        match s.ptReader.slices[s.itPtReader]? with
        | none => .ok (s, event, .noMoreEventsInSource)
        | some next =>
          let s := { s with
            nEventsTimeSlice := next.nEvents, ptTimeSlice := some next, itPtTimeSlice := 0 }
          deliver s next event
      else deliver s ts event

/-- What a caller sees of a call. -/
abbrev Outcome : Type := Except Fault (JEvent PtEvent × JError)

/-- Up to `n` calls, each on the event object `event`; the framework stops at the first error code. -/
def getEvents (event : JEvent PtEvent) : Nat → JEventSourceTRIDASDAQ → List Outcome
  | 0, _ => []
  | n + 1, s =>
    match s.getEvent event with
    | .error fault => [.error fault]
    | .ok (s', event', err) => .ok (event', err) :: if err = .noError then getEvents event n s' else []

end JEventSourceTRIDASDAQ

open JEventSourceTRIDASDAQ

/-! ## What a file should deliver -/

/-- The outcome of a call that delivers `ev` of the slice `ts`. -/
def delivered (event : JEvent PtEvent) (runNumber : Int) (ts : TimeSlice) (ev : PtEvent) : Outcome :=
  .ok ({ event with
    hasSource := true, ref := some ev, eventNumber := ev.id, eventTS := ts.id, runNumber := runNumber }, .noError)

def sliceDelivered (event : JEvent PtEvent) (runNumber : Int) (ts : TimeSlice) : List Outcome :=
  ts.events.map (delivered event runNumber ts)

/-- The outcome of the call that finds the file read. -/
def sourceDone (event : JEvent PtEvent) : Outcome := .ok ({ event with ref := none }, .noMoreEventsInSource)

/-- The number of events in the file. -/
def PtFile.nEvents (f : PtFile) : Nat := (f.slices.map TimeSlice.nEvents).sum

/-- **Every event is delivered**: each call returns the next event of the concatenation of the slices with its
    id and the id of its slice, the call after the last one returns `NO_MORE_EVENTS_IN_SOURCE`, no call faults. -/
def DeliversAll (file : PtFile) : Prop :=
  ∀ event n, file.nEvents < n → getEvents event n (new file)
    = file.slices.flatMap (sliceDelivered event file.runNumber) ++ [sourceDone event]

/-! ## What the walk amounts to -/

section Walk

variable (event : JEvent PtEvent) (runNumber : Int)

/-- The outcomes once the current slice is exhausted. -/
def sliceOutcomes : List TimeSlice → List Outcome
  | [] => [sourceDone event]
  | ts :: later =>
    if ts.events = [] then [.error .endOfSlice]
    else sliceDelivered event runNumber ts ++ sliceOutcomes later

/-- The outcomes from the position `i` of the slice `ts`, with `later` still to come. -/
def outcomesFrom (ts : TimeSlice) (i : Nat) (later : List TimeSlice) : List Outcome :=
  (ts.events.drop i).map (delivered event runNumber ts) ++ sliceOutcomes event runNumber later

end Walk

/-- The source stands at position `i` of slice `ts`, with `later` still to come. -/
structure At (s : JEventSourceTRIDASDAQ) (ts : TimeSlice) (i : Nat) (later : List TimeSlice) : Prop where
  file : s.sourceType = .fileSource
  overwrite : s.overwriteRunNumber = -1
  slice : s.ptTimeSlice = some ts
  pos : s.itPtTimeSlice = i
  le : i ≤ ts.events.length
  rest : s.ptReader.slices.drop (s.itPtReader + 1) = later

section Walk

variable (event : JEvent PtEvent) {s : JEventSourceTRIDASDAQ} {ts : TimeSlice} {i : Nat}
  {later : List TimeSlice}

/-- Handing out an event moves the source one position on. -/
theorem deliver_at (h : At s ts i later) {ev : PtEvent} (hev : ts.events[i]? = some ev) :
    ∃ s' event', deliver s ts { event with ref := none } = .ok (s', event', .noError) ∧
      Except.ok (event', .noError) = delivered event s.ptReader.runNumber ts ev ∧
      At s' ts (i + 1) later ∧ s'.ptReader = s.ptReader := by
  have hlt : i < ts.events.length := (List.getElem?_eq_some_iff.mp hev).1
  unfold deliver
  rw [h.pos, hev]
  refine ⟨_, _, rfl, ?_, ⟨h.file, h.overwrite, h.slice, rfl, by omega, h.rest⟩, rfl⟩
  simp [delivered, h.overwrite]

/-- The call has handed out an event, and the source stands where the outcomes go on behind it. -/
def Delivers (s : JEventSourceTRIDASDAQ) (ts : TimeSlice) (i : Nat) (later : List TimeSlice) : Prop :=
  ∃ ev s' event' ts' i' later', s.getEvent event = .ok (s', event', .noError) ∧
    Except.ok (event', .noError) = delivered event s.ptReader.runNumber ts' ev ∧
    At s' ts' i' later' ∧ s'.ptReader = s.ptReader ∧
    outcomesFrom event s.ptReader.runNumber ts i later
      = delivered event s.ptReader.runNumber ts' ev :: outcomesFrom event s.ptReader.runNumber ts' i' later'

/-- A call inside a slice. -/
theorem getEvent_within (h : At s ts i later) (hlt : i < ts.events.length) : Delivers event s ts i later := by
  obtain ⟨s', event', hcall, hout, hat', hreader⟩ := deliver_at event h (List.getElem?_eq_getElem hlt)
  refine ⟨ts.events[i], s', event', ts, i + 1, later, ?_, hout, hat', hreader, ?_⟩
  · rw [← hcall]
    have hpos := h.pos
    unfold getEvent
    simp only [h.file, h.slice]
    rw [if_neg (by omega)]
  · unfold outcomesFrom
    rw [List.drop_eq_getElem_cons hlt]
    rfl

/-- A call at the end of a slice goes on to the next one, where it ends if that has no event. -/
theorem getEvent_end (h : At s ts i later) (hend : i = ts.events.length) :
    Delivers event s ts i later ∨
      (∃ s', s.getEvent event = .ok (s', { event with ref := none }, .noMoreEventsInSource) ∧
        outcomesFrom event s.ptReader.runNumber ts i later = [sourceDone event]) ∨
      (s.getEvent event = .error .endOfSlice ∧
        outcomesFrom event s.ptReader.runNumber ts i later = [.error .endOfSlice]) := by
  have hpos : s.itPtTimeSlice = ts.events.length := h.pos.trans hend
  have hdrop : ts.events.drop i = [] := List.drop_eq_nil_of_le (Nat.le_of_eq hend.symm)
  have hrest := h.rest
  unfold Delivers getEvent
  simp only [h.file, h.slice, hpos, if_true]
  cases hnext : s.ptReader.slices[s.itPtReader + 1]? with
  | none =>
      have hlater : later = [] := by
        rw [← hrest]
        exact List.drop_eq_nil_of_le (List.getElem?_eq_none_iff.mp hnext)
      refine Or.inr (Or.inl ⟨_, rfl, ?_⟩)
      simp [outcomesFrom, hdrop, hlater, sliceOutcomes]
  | some next =>
      obtain ⟨hlt, hget⟩ := List.getElem?_eq_some_iff.mp hnext
      have hlater : later = next :: s.ptReader.slices.drop (s.itPtReader + 2) := by
        rw [← hrest, List.drop_eq_getElem_cons hlt, hget]
      simp only
      cases hevents : next.events with
      | nil =>
          -- the next slice has no event: `*it_ptTimeSlice` is its end iterator
          refine Or.inr (Or.inr ⟨?_, ?_⟩)
          · simp [deliver, hevents]
          · simp [outcomesFrom, hdrop, hlater, sliceOutcomes, hevents]
      | cons ev rest =>
          have hat : At { s with
              itPtReader := s.itPtReader + 1, ptTimeSlice := some next, itPtTimeSlice := 0
              nEventsTimeSlice := next.nEvents } next 0 (s.ptReader.slices.drop (s.itPtReader + 2)) :=
            ⟨h.file, h.overwrite, rfl, rfl, Nat.zero_le _, rfl⟩
          obtain ⟨s', event', hcall, hout, hat', hreader⟩ :=
            deliver_at event hat (show next.events[0]? = some ev by rw [hevents]; rfl)
          refine Or.inl ⟨ev, s', event', next, 1, _, ?_, hout, hat', hreader, ?_⟩
          · rw [← hcall]
            simp [h.file]
          · simp [outcomesFrom, hdrop, hlater, sliceOutcomes, sliceDelivered, hevents]

/-- **One call** delivers the event at the position; at the end of the slice it goes on to the next slice, once. -/
theorem getEvent_at (h : At s ts i later) :
    Delivers event s ts i later ∨
      (∃ s', s.getEvent event = .ok (s', { event with ref := none }, .noMoreEventsInSource) ∧
        outcomesFrom event s.ptReader.runNumber ts i later = [sourceDone event]) ∨
      (s.getEvent event = .error .endOfSlice ∧
        outcomesFrom event s.ptReader.runNumber ts i later = [.error .endOfSlice]) := by
  rcases Nat.lt_or_eq_of_le h.le with hlt | hend
  · exact Or.inl (getEvent_within event h hlt)
  · exact getEvent_end event h hend

/-- **Any number of calls** goes through the outcomes in order. -/
theorem getEvents_at (h : At s ts i later) (n : Nat) :
    getEvents event n s = (outcomesFrom event s.ptReader.runNumber ts i later).take n := by
  induction n generalizing s ts i later with
  | zero => simp [getEvents]
  | succ n ih =>
      unfold getEvents
      rcases getEvent_at event h with
        ⟨ev, s', event', ts', i', later', hcall, hout, hat, hreader, hfrom⟩ | ⟨s', hcall, hfrom⟩ | ⟨hcall, hfrom⟩
      · rw [hcall, hfrom, List.take_succ_cons, ← hreader, ← ih hat, hreader, ← hout]
        rfl
      · rw [hcall, hfrom]
        simp [sourceDone]
      · rw [hcall, hfrom]
        simp

end Walk

/-! ## Which files are delivered -/

section Files

variable (event : JEvent PtEvent) (runNumber : Int)

theorem error_mem_sliceOutcomes {later : List TimeSlice} {ts : TimeSlice} (hts : ts ∈ later)
    (hempty : ts.events = []) : .error .endOfSlice ∈ sliceOutcomes event runNumber later := by
  induction later with
  | nil => exact absurd hts (by simp)
  | cons ts' later ih =>
      unfold sliceOutcomes
      by_cases hfirst : ts'.events = []
      · rw [if_pos hfirst]
        simp
      · rw [if_neg hfirst]
        rcases List.mem_cons.mp hts with h | h
        · rw [← h] at hfirst
          exact absurd hempty hfirst
        · exact List.mem_append_right _ (ih h)

/-- The walk delivers the later slices exactly when none of them is empty. -/
theorem sliceOutcomes_eq_iff (later : List TimeSlice) :
    sliceOutcomes event runNumber later
        = later.flatMap (sliceDelivered event runNumber) ++ [sourceDone event] ↔
      ∀ ts ∈ later, ts.events ≠ [] := by
  constructor
  · intro h ts hts hempty
    -- a fault is not among what should be delivered
    have hmem := error_mem_sliceOutcomes event runNumber hts hempty
    rw [h] at hmem
    simp [sliceDelivered, delivered, sourceDone] at hmem
  · intro h
    induction later with
    | nil => rfl
    | cons ts later ih =>
        unfold sliceOutcomes
        rw [if_neg (h ts (by simp)), ih (fun ts' hts' => h ts' (by simp [hts']))]
        simp

theorem length_delivered (file : PtFile) :
    (file.slices.flatMap (sliceDelivered event runNumber) ++ [sourceDone event]).length = file.nEvents + 1 := by
  have hlen : ∀ l : List TimeSlice, (l.flatMap (sliceDelivered event runNumber)).length
      = (l.map TimeSlice.nEvents).sum := by
    intro l
    induction l with
    | nil => rfl
    | cons ts l ih => simp [ih, sliceDelivered, TimeSlice.nEvents]
  simp [hlen, PtFile.nEvents]

end Files

theorem at_new (file : PtFile) : At (new file) file.first 0 file.later where
  file := rfl
  overwrite := rfl
  slice := rfl
  pos := rfl
  le := Nat.zero_le _
  rest := rfl

/-- **A file is delivered exactly when every time slice after the first has an event.** -/
theorem deliversAll_iff (file : PtFile) : DeliversAll file ↔ ∀ ts ∈ file.later, ts.events ≠ [] := by
  have hwalk : ∀ event n, getEvents event n (new file)
      = (sliceDelivered event file.runNumber file.first
          ++ sliceOutcomes event file.runNumber file.later).take n := by
    intro event n
    exact getEvents_at event (at_new file) n
  have hexpected : ∀ event : JEvent PtEvent,
      file.slices.flatMap (sliceDelivered event file.runNumber) ++ [sourceDone event]
        = sliceDelivered event file.runNumber file.first
          ++ (file.later.flatMap (sliceDelivered event file.runNumber) ++ [sourceDone event]) := by
    intro event
    simp [PtFile.slices]
  constructor
  · intro h
    rw [← sliceOutcomes_eq_iff {} file.runNumber]
    -- enough calls to see all outcomes
    have hlen := length_delivered {} file.runNumber file
    have hall := h {} (file.nEvents + 1 + (sliceDelivered {} file.runNumber file.first
      ++ sliceOutcomes {} file.runNumber file.later).length) (by omega)
    rw [hwalk, List.take_of_length_le (by omega), hexpected] at hall
    exact List.append_cancel_left hall
  · intro h event n hn
    have hlen := length_delivered event file.runNumber file
    rw [hwalk, (sliceOutcomes_eq_iff event file.runNumber file.later).mpr h, ← hexpected]
    exact List.take_of_length_le (by omega)

/-- A file whose second time slice has no event. -/
def emptySecondSlice : PtFile :=
  { runNumber := 7, first := { id := 1, events := [{ id := 10 }] }
    later := [{ id := 2, events := [] }, { id := 3, events := [{ id := 11 }] }] }

/-- After its first event the end iterator of the second slice is dereferenced; event `11` is never delivered. -/
theorem emptySecondSlice_not_delivered : ¬ DeliversAll emptySecondSlice := by
  intro h
  have hcalls := h {} 3 (by decide)
  have hreal : getEvents {} 3 (new emptySecondSlice)
      = [delivered {} 7 { id := 1, events := [{ id := 10 }] } { id := 10 }, .error .endOfSlice] := rfl
  rw [hreal] at hcalls
  exact absurd (congrArg List.length hcalls) (by decide)

end BdxReco
