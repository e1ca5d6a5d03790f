import BdxReco.DAQ.Event
import BdxReco.DAQ.TridasSource
import BdxReco.DAQ.WaveboardHits
import BdxReco.TRIDAS.FrameTime
import BdxReco.TRIDAS.PtFileReader

/-!
# `DAQ.TridasFile` — the TRIDAS source on the bytes of a file

`JEventSourceTRIDASDAQ` again, this time over the reader of the file. The source dereferences the iterator over the time
slices twice for every slice, so that each slice is read twice.

* `getEvent_simulates`: a call does what the source over a list of slices does.
* `getEvents_encode`: the calls on a file hand out the events that were written into it, with their hits.
* `waveboard_encode`: the waveforms of every event handed out have one time axis.
-/

namespace BdxReco.Tridas

open ByteStream

/-! ## The source -/

/-- What a call can end with. -/
inductive SourceError where
  /-- An exception of the reader. -/
  | read (error : ReadError)
  | fault (fault : Fault)
  deriving DecidableEq, Repr

structure JEventSourceTRIDASDAQ where
  sourceType : TRIDASDAQSourceType
  curRunNumber : Int
  overwriteRunNumber : Int
  ptReader : PtFileReader
  /-- Position of `it_ptReader`. -/
  itPtReader : Nat
  /-- `none` once deleted and not replaced. -/
  ptTimeSlice : Option TimeSlice
  /-- Position of `it_ptTimeSlice` in the slice. -/
  itPtTimeSlice : Nat
  nEventsTimeSlice : Int
  ptEvent : Option Event

namespace JEventSourceTRIDASDAQ

/-- `nEventsTimeSlice = (*it_ptReader).nEvents()` and `ptTimeSlice = new TimeSlice(*it_ptReader)`. -/
def moveTo (reader : PtFileReader) (it : Nat) : Except SourceError (Int × TimeSlice × PtFileReader) :=
  match reader.get it with
  | .error e => .error (.read e)
  | .ok (counted, reader) =>
    match reader.get it with
    | .error e => .error (.read e)
    | .ok (slice, reader) => .ok (TimeSlice.nEvents counted.head, slice, reader)

/-- The constructor. -/
def new (content : List UInt8) : Except SourceError JEventSourceTRIDASDAQ :=
  match PtFileReader.new content with
  | .error e => .error (.read e)
  | .ok reader =>
    match moveTo reader 0 with
    | .error e => .error e
    | .ok (nEvents, slice, reader) =>
      .ok { sourceType := .fileSource
            curRunNumber := 0
            overwriteRunNumber := -1
            ptReader := reader
            itPtReader := 0
            ptTimeSlice := some slice
            itPtTimeSlice := 0
            nEventsTimeSlice := nEvents
            ptEvent := none }

/-- The second half of `GetEvent`. -/
def deliver (s : JEventSourceTRIDASDAQ) (ts : TimeSlice) (event : JEvent Event) :
    Except SourceError (JEventSourceTRIDASDAQ × JEvent Event × JError) :=
  match ts.events[s.itPtTimeSlice]? with
  | none => .error (.fault .endOfSlice)
  | some ev =>
    let curRunNumber := toInt s.ptReader.runNumber
    let event := { event with
      hasSource := true, ref := some ev, eventNumber := ev.head.EventID.toNat, eventTS := ts.head.TS_ID.toNat
      runNumber := if s.overwriteRunNumber ≠ -1 then s.overwriteRunNumber else curRunNumber }
    .ok ({ s with ptEvent := some ev, curRunNumber, itPtTimeSlice := s.itPtTimeSlice + 1 }, event, .noError)

/-- `GetEvent(event)`. -/
def getEvent (s : JEventSourceTRIDASDAQ) (event : JEvent Event) :
    Except SourceError (JEventSourceTRIDASDAQ × JEvent Event × JError) :=
  let event := { event with ref := none }
  match s.sourceType with
  | .noSource => .ok (s, event, .eventSourceNotOpen)
  | .fileSource =>
    match s.ptTimeSlice with
    | none => .error (.fault .deletedSlice)
    | some ts =>
      if s.itPtTimeSlice = ts.events.length then
        let s := { s with itPtReader := s.itPtReader + 1, ptTimeSlice := none }
        if s.itPtReader = s.ptReader.m_ts_pos.length then .ok (s, event, .noMoreEventsInSource)
        else
          match moveTo s.ptReader s.itPtReader with
          | .error e => .error e
          | .ok (nEvents, next, reader) =>
            let s := { s with
              ptReader := reader, nEventsTimeSlice := nEvents, ptTimeSlice := some next, itPtTimeSlice := 0 }
            deliver s next event
      else deliver s ts event

/-- What a caller sees of a call. -/
abbrev Outcome : Type := Except SourceError (JEvent Event × JError)

/-- Up to `n` calls, until the first error code. -/
def getEvents (event : JEvent Event) : Nat → JEventSourceTRIDASDAQ → List Outcome
  | 0, _ => []
  | n + 1, s =>
    match s.getEvent event with
    | .error e => [.error e]
    | .ok (s', event', err) => .ok (event', err) :: if err = .noError then getEvents event n s' else []

end JEventSourceTRIDASDAQ

/-! ## The file as a list of slices -/

def Event.toPtEvent (ev : Event) : PtEvent := ⟨ev.head.EventID.toNat⟩

def TimeSlice.toSlice (ts : TimeSlice) : BdxReco.TimeSlice :=
  ⟨ts.head.TS_ID.toNat, ts.events.map Event.toPtEvent⟩

/-- The file without its bytes. -/
def StoredFile.toPtFile (f : StoredFile) : PtFile where
  runNumber := toInt f.head.run_number.toNat
  first := (f.slices.head f.slices_ne).timeSlice.toSlice
  later := f.slices.tail.map (fun ts => ts.timeSlice.toSlice)

def toPtEvents (event : JEvent Event) : JEvent PtEvent :=
  { ref := event.ref.map Event.toPtEvent
    hasSource := event.hasSource
    eventNumber := event.eventNumber
    eventTS := event.eventTS
    runNumber := event.runNumber
    sequential := event.sequential }

/-- The outcome over a list of slices. No exception of the reader has one. -/
def toOutcome : JEventSourceTRIDASDAQ.Outcome → Option BdxReco.JEventSourceTRIDASDAQ.Outcome
  | .error (.read _) => none
  | .error (.fault fault) => some (.error fault)
  | .ok (event, err) => some (.ok (toPtEvents event, err))

/-- The event an outcome hands out. -/
def handedOut : JEventSourceTRIDASDAQ.Outcome → Option Event
  | .error _ => none
  | .ok (event, _) => event.ref

theorem StoredFile.toPtFile_slices (f : StoredFile) :
    f.toPtFile.slices = f.slices.map (fun ts => ts.timeSlice.toSlice) := by
  obtain ⟨ts, later, hslices⟩ := List.exists_cons_of_ne_nil f.slices_ne
  unfold PtFile.slices StoredFile.toPtFile
  simp [hslices]

/-! ## Simulation -/

open BdxReco.Tridas.JEventSourceTRIDASDAQ (moveTo)

/-- The source over the bytes of `f` stands where the source over its slices does. -/
structure Simulates (f : StoredFile) (c : JEventSourceTRIDASDAQ) (a : BdxReco.JEventSourceTRIDASDAQ) : Prop where
  indexed : Indexed f c.ptReader
  reader : a.ptReader = f.toPtFile
  sourceType : a.sourceType = c.sourceType
  overwrite : a.overwriteRunNumber = c.overwriteRunNumber
  itPtReader : a.itPtReader = c.itPtReader
  itPtTimeSlice : a.itPtTimeSlice = c.itPtTimeSlice
  slice : a.ptTimeSlice = c.ptTimeSlice.map TimeSlice.toSlice
  -- the slice is the one the iterator points to
  stored : ∀ ts, c.ptTimeSlice = some ts → f.slices[c.itPtReader]?.map StoredSlice.timeSlice = some ts

/-- The events a source has not handed out. -/
def remaining (f : StoredFile) (c : JEventSourceTRIDASDAQ) : List Event :=
  (f.slices.drop c.itPtReader).flatMap (fun ts => ts.timeSlice.events) |>.drop c.itPtTimeSlice

theorem length_startsFrom (p : Nat) (slices : List StoredSlice) : (startsFrom p slices).length = slices.length := by
  induction slices generalizing p with
  | nil => rfl
  | cons ts slices ih => rw [startsFrom, List.length_cons, List.length_cons, ih]

theorem moveTo_encode {f : StoredFile} {r : PtFileReader} (h : Indexed f r) {k : Nat} {ts : StoredSlice}
    (hk : f.slices[k]? = some ts) :
    ∃ r', moveTo r k = .ok (TimeSlice.nEvents ts.head, ts.timeSlice, r') ∧ Indexed f r' := by
  obtain ⟨r₁, hget₁, h₁⟩ := h.get hk
  obtain ⟨r₂, hget₂, h₂⟩ := h₁.get hk
  refine ⟨r₂, ?_, h₂⟩
  unfold JEventSourceTRIDASDAQ.moveTo
  rw [hget₁]
  simp only
  rw [hget₂]
  rfl

section Step

variable {f : StoredFile} {c : JEventSourceTRIDASDAQ} {a : BdxReco.JEventSourceTRIDASDAQ}

/-- What a call over the bytes and one over the slices have in common. -/
inductive SameCall (f : StoredFile) (c : JEventSourceTRIDASDAQ) :
    Except SourceError (JEventSourceTRIDASDAQ × JEvent Event × JError) →
      Except Fault (BdxReco.JEventSourceTRIDASDAQ × JEvent PtEvent × JError) → Prop where
  | fault (fault : Fault) : SameCall f c (.error (.fault fault)) (.error fault)
  | stopped {c' : JEventSourceTRIDASDAQ} {a' : BdxReco.JEventSourceTRIDASDAQ} {event : JEvent Event} {err : JError} :
      err ≠ .noError → event.ref = none → SameCall f c (.ok (c', event, err)) (.ok (a', toPtEvents event, err))
  | handedOut {c' : JEventSourceTRIDASDAQ} {a' : BdxReco.JEventSourceTRIDASDAQ} {event : JEvent Event} {ev : Event} :
      Simulates f c' a' → event.ref = some ev → remaining f c = ev :: remaining f c' →
      SameCall f c (.ok (c', event, .noError)) (.ok (a', toPtEvents event, .noError))

theorem SameCall.of_remaining {c₁ : JEventSourceTRIDASDAQ} {result result'} (h : SameCall f c₁ result result')
    (heq : remaining f c₁ = remaining f c) : SameCall f c result result' := by
  cases h with
  | fault fault => exact SameCall.fault fault
  | stopped herr href => exact SameCall.stopped herr href
  | handedOut hsim href hrest => exact SameCall.handedOut hsim href (heq ▸ hrest)

/-- Of the slice the source is in, the events from the position on remain. -/
theorem remaining_drop (h : Simulates f c a) {ts : TimeSlice} (hts : c.ptTimeSlice = some ts)
    (hle : c.itPtTimeSlice ≤ ts.events.length) :
    remaining f c = ts.events.drop c.itPtTimeSlice ++
      (f.slices.drop (c.itPtReader + 1)).flatMap (fun ts => ts.timeSlice.events) := by
  obtain ⟨stored, hstored, rfl⟩ := Option.map_eq_some_iff.mp (h.stored ts hts)
  obtain ⟨hlt, hget⟩ := List.getElem?_eq_some_iff.mp hstored
  unfold remaining
  rw [List.drop_eq_getElem_cons hlt, hget, List.flatMap_cons, List.drop_append_of_le_length hle]

/-- The source hands out an event of its slice. -/
theorem Simulates.next (h : Simulates f c a) (ev : Event) (run : Int) :
    Simulates f { c with ptEvent := some ev, curRunNumber := run, itPtTimeSlice := c.itPtTimeSlice + 1 }
      { a with
        overwriteRunNumber := c.overwriteRunNumber, ptEvent := some ev.toPtEvent, curRunNumber := run
        itPtTimeSlice := c.itPtTimeSlice + 1 } :=
  ⟨h.indexed, h.reader, h.sourceType, rfl, h.itPtReader, rfl, h.slice, h.stored⟩

theorem deliver_simulates (h : Simulates f c a) {ts : TimeSlice} (hts : c.ptTimeSlice = some ts) (event : JEvent Event) :
    SameCall f c (c.deliver ts { event with ref := none })
      (a.deliver ts.toSlice { toPtEvents event with ref := none }) := by
  unfold JEventSourceTRIDASDAQ.deliver BdxReco.JEventSourceTRIDASDAQ.deliver
  have hget : ts.toSlice.events[a.itPtTimeSlice]? = ts.events[c.itPtTimeSlice]?.map Event.toPtEvent := by
    rw [h.itPtTimeSlice]
    exact List.getElem?_map
  rw [hget]
  cases hev : ts.events[c.itPtTimeSlice]? with
  | none => exact SameCall.fault .endOfSlice
  | some ev =>
      obtain ⟨hlt, hevent⟩ := List.getElem?_eq_some_iff.mp hev
      have hrun : a.ptReader.runNumber = toInt c.ptReader.runNumber := by
        rw [h.reader]
        unfold PtFileReader.runNumber
        rw [h.indexed.head]
        rfl
      simp only [Option.map_some, h.overwrite, hrun, h.itPtTimeSlice]
      have hnext := h.next ev (toInt c.ptReader.runNumber)
      refine SameCall.handedOut hnext rfl ?_
      rw [remaining_drop h hts hlt.le, remaining_drop hnext hts hlt, List.drop_eq_getElem_cons hlt, hevent]
      rfl

/-- The source moves to the slice with the number `k`. -/
theorem Simulates.moved (h : Simulates f c a) {k : Nat} {ts : StoredSlice} {r : PtFileReader} (hr : Indexed f r)
    (hk : f.slices[k]? = some ts) (n : Int) (n' : Nat) :
    Simulates f
      { c with ptReader := r, itPtReader := k, nEventsTimeSlice := n, ptTimeSlice := some ts.timeSlice, itPtTimeSlice := 0 }
      { a with itPtReader := k, nEventsTimeSlice := n', ptTimeSlice := some ts.timeSlice.toSlice, itPtTimeSlice := 0 } where
  indexed := hr
  reader := h.reader
  sourceType := h.sourceType
  overwrite := h.overwrite
  itPtReader := rfl
  itPtTimeSlice := rfl
  slice := rfl
  stored := by
    intro ts' hts'
    rw [hk]
    exact hts'

/-- Nothing is left of a slice that was handed out whole. -/
theorem remaining_moved (h : Simulates f c a) {ts : TimeSlice} (hts : c.ptTimeSlice = some ts)
    (hend : c.itPtTimeSlice = ts.events.length) {c' : JEventSourceTRIDASDAQ} (hit : c'.itPtReader = c.itPtReader + 1)
    (hstart : c'.itPtTimeSlice = 0) : remaining f c' = remaining f c := by
  rw [remaining_drop h hts (Nat.le_of_eq hend), hend, List.drop_length, List.nil_append]
  unfold remaining
  rw [hit, hstart, List.drop_zero]

/-- **A call over the bytes does what the call over the slices does.** -/
theorem getEvent_simulates (h : Simulates f c a) (event : JEvent Event) :
    SameCall f c (c.getEvent event) (a.getEvent (toPtEvents event)) := by
  unfold JEventSourceTRIDASDAQ.getEvent BdxReco.JEventSourceTRIDASDAQ.getEvent
  rw [h.sourceType]
  cases hsource : c.sourceType with
  | noSource => exact SameCall.stopped (by decide) rfl
  | fileSource =>
      rw [h.slice]
      cases hts : c.ptTimeSlice with
      | none => exact SameCall.fault .deletedSlice
      | some ts =>
          have hlen : ts.toSlice.events.length = ts.events.length := List.length_map _
          simp only [Option.map_some, hlen, h.itPtTimeSlice]
          by_cases hend : c.itPtTimeSlice = ts.events.length
          · rw [if_pos hend, if_pos hend]
            obtain ⟨stored, hstored, _⟩ := Option.map_eq_some_iff.mp (h.stored ts hts)
            have hlt := (List.getElem?_eq_some_iff.mp hstored).1
            have hends : c.ptReader.m_ts_pos.length = f.slices.length := by
              rw [h.indexed.tsPos, length_startsFrom]
            have hnext : a.ptReader.slices[c.itPtReader + 1]? =
                f.slices[c.itPtReader + 1]?.map (fun ts => ts.timeSlice.toSlice) := by
              rw [h.reader, f.toPtFile_slices, List.getElem?_map]
            simp only [h.itPtReader, hends, hnext]
            by_cases hlast : c.itPtReader + 1 = f.slices.length
            · -- the last slice
              have hnone : f.slices[c.itPtReader + 1]? = none := List.getElem?_eq_none (Nat.le_of_eq hlast.symm)
              rw [if_pos hlast, hnone]
              exact SameCall.stopped (by decide) rfl
            · have hsome := List.getElem?_eq_getElem (l := f.slices) (i := c.itPtReader + 1) (by omega)
              obtain ⟨r, hmove, hr⟩ := moveTo_encode h.indexed hsome
              rw [if_neg hlast, hmove, hsome]
              have hmoved := h.moved hr hsome (TimeSlice.nEvents f.slices[c.itPtReader + 1].head)
                f.slices[c.itPtReader + 1].timeSlice.toSlice.nEvents
              have hsame := deliver_simulates hmoved rfl event
              rw [h.sourceType, hsource] at hsame
              exact hsame.of_remaining (remaining_moved h hts hend rfl rfl)
          · rw [if_neg hend, if_neg hend]
            exact deliver_simulates h hts event

end Step

/-! ## Runs -/

section Runs

variable {f : StoredFile} {c : JEventSourceTRIDASDAQ} {a : BdxReco.JEventSourceTRIDASDAQ}

/-- **Any number of calls** have the outcomes of the source over the slices, and hand out what remains, in order. -/
theorem getEvents_simulates (h : Simulates f c a) (event : JEvent Event) (n : Nat) :
    (c.getEvents event n).map toOutcome = (a.getEvents (toPtEvents event) n).map some ∧
      (c.getEvents event n).filterMap handedOut <+: remaining f c := by
  induction n generalizing c a with
  | zero => exact ⟨rfl, List.nil_prefix⟩
  | succ n ih =>
      have hsame := getEvent_simulates h event
      unfold JEventSourceTRIDASDAQ.getEvents BdxReco.JEventSourceTRIDASDAQ.getEvents
      generalize c.getEvent event = result at hsame ⊢
      generalize a.getEvent (toPtEvents event) = result' at hsame ⊢
      cases hsame with
      | fault fault => exact ⟨rfl, List.nil_prefix⟩
      | @stopped _ _ event' err herr href =>
          simp only [if_neg herr]
          have hnone : handedOut (.ok (event', err)) = none := href
          rw [List.filterMap_cons_none hnone]
          exact ⟨rfl, List.nil_prefix⟩
      | @handedOut c' a' event' ev hsim href hrest =>
          obtain ⟨hmap, hprefix⟩ := ih hsim
          simp only [if_true]
          have hsome : handedOut (.ok (event', .noError)) = some ev := href
          rw [List.map_cons, List.map_cons, hmap, List.filterMap_cons_some hsome, hrest]
          exact ⟨rfl, List.cons_prefix_cons.mpr ⟨rfl, hprefix⟩⟩

/-- The constructor goes to the first slice. -/
theorem new_simulates (f : StoredFile) :
    ∃ c, JEventSourceTRIDASDAQ.new f.encode = .ok c ∧
      Simulates f c (BdxReco.JEventSourceTRIDASDAQ.new f.toPtFile) ∧
      remaining f c = f.slices.flatMap (fun ts => ts.timeSlice.events) := by
  obtain ⟨ts, later, hslices⟩ := List.exists_cons_of_ne_nil f.slices_ne
  have hfirst : f.slices[0]? = some ts := by rw [hslices]; rfl
  have hhead : f.slices.head f.slices_ne = ts := by simp [hslices]
  obtain ⟨r, hnew, hindexed⟩ := new_encode f
  obtain ⟨r', hmove, hindexed'⟩ := moveTo_encode hindexed hfirst
  refine ⟨_, by simp only [JEventSourceTRIDASDAQ.new, hnew, hmove]; rfl, ?_, rfl⟩
  refine ⟨hindexed', rfl, rfl, rfl, rfl, rfl, ?_, ?_⟩
  · simp only [BdxReco.JEventSourceTRIDASDAQ.new, StoredFile.toPtFile, hhead, Option.map_some]
  · intro ts' hts'
    rw [hfirst]
    exact hts'

/-! ## The events of a file -/

/-- The event object with the event `ev` of the slice `ts`. -/
def filledIn (event : JEvent Event) (f : StoredFile) (ts : StoredSlice) (ev : StoredEvent) : JEvent Event :=
  { event with
    hasSource := true, ref := some ev.event, eventNumber := ev.head.EventID.toNat, eventTS := ts.head.TS_ID.toNat
    runNumber := toInt f.head.run_number.toNat }

/-- The outcome of the call that hands out the event `ev` of the slice `ts`. -/
def deliveredFrom (event : JEvent Event) (f : StoredFile) (ts : StoredSlice) (ev : StoredEvent) :
    JEventSourceTRIDASDAQ.Outcome :=
  .ok (filledIn event f ts ev, .noError)

/-- What the calls on a file should return. -/
def expected (event : JEvent Event) (f : StoredFile) : List JEventSourceTRIDASDAQ.Outcome :=
  f.slices.flatMap (fun ts => ts.events.map (deliveredFrom event f ts)) ++
    [.ok ({ event with ref := none }, .noMoreEventsInSource)]

/-- Two outcomes that look the same over the slices and hand out the same event are the same. -/
theorem outcome_ext {o o' : JEventSourceTRIDASDAQ.Outcome} {x : BdxReco.JEventSourceTRIDASDAQ.Outcome}
    (ho : toOutcome o = some x) (ho' : toOutcome o' = some x) (hev : handedOut o = handedOut o') : o = o' := by
  have hsame := ho.trans ho'.symm
  rcases o with (_ | fault) | ⟨event, err⟩ <;> rcases o' with (_ | fault') | ⟨event', err'⟩
  case error.read.error.read => exact absurd ho (by rintro ⟨⟩)
  all_goals
    simp only [toOutcome, Option.some.injEq, Except.error.injEq, Except.ok.injEq, Prod.mk.injEq, reduceCtorEq] at hsame
  · rw [hsame]
  · obtain ⟨hfields, herr⟩ := hsame
    simp only [toPtEvents, JEvent.mk.injEq] at hfields
    obtain ⟨_, hsource, hnumber, hts, hrun, hseq⟩ := hfields
    cases event
    cases event'
    simp_all [handedOut]

/-- Outcomes that look the same both hand out an event or both do not. -/
theorem handedOut_isSome {o o' : JEventSourceTRIDASDAQ.Outcome} (h : toOutcome o = toOutcome o') :
    (handedOut o).isSome = (handedOut o').isSome := by
  have href : ∀ o : JEventSourceTRIDASDAQ.Outcome, (handedOut o).isSome =
      ((toOutcome o).bind (fun x => x.toOption.bind (fun result => result.1.ref))).isSome := by
    intro o
    rcases o with (_ | fault) | ⟨event, err⟩
    · rfl
    · rfl
    · exact Option.isSome_map.symm
  rw [href o, href o', h]

theorem outcomes_ext {os os' : List JEventSourceTRIDASDAQ.Outcome} {xs : List BdxReco.JEventSourceTRIDASDAQ.Outcome}
    (hos : os.map toOutcome = xs.map some) (hos' : os'.map toOutcome = xs.map some)
    (hevs : os.filterMap handedOut = os'.filterMap handedOut) : os = os' := by
  induction xs generalizing os os' with
  | nil => rw [List.map_eq_nil_iff.mp hos, List.map_eq_nil_iff.mp hos']
  | cons x xs ih =>
      obtain ⟨o, os, rfl, ho, hos⟩ := List.map_eq_cons_iff.mp hos
      obtain ⟨o', os', rfl, ho', hos'⟩ := List.map_eq_cons_iff.mp hos'
      have hsome := handedOut_isSome (ho.trans ho'.symm)
      cases hev : handedOut o with
      | none =>
          have hev' : handedOut o' = none := by simpa [hev] using hsome.symm
          rw [List.filterMap_cons_none hev, List.filterMap_cons_none hev'] at hevs
          rw [outcome_ext ho ho' (hev.trans hev'.symm), ih hos hos' hevs]
      | some ev =>
          obtain ⟨ev', hev'⟩ : ∃ ev', handedOut o' = some ev' := by
            rw [hev] at hsome
            exact Option.isSome_iff_exists.mp hsome.symm
          rw [List.filterMap_cons_some hev, List.filterMap_cons_some hev'] at hevs
          obtain ⟨rfl, hrest⟩ := List.cons.inj hevs
          rw [outcome_ext ho ho' (hev.trans hev'.symm), ih hos hos' hrest]

theorem length_handedOut {os os' : List JEventSourceTRIDASDAQ.Outcome}
    (h : os.map toOutcome = os'.map toOutcome) :
    (os.filterMap handedOut).length = (os'.filterMap handedOut).length := by
  induction os generalizing os' with
  | nil => rw [List.map_eq_nil_iff.mp h.symm]
  | cons o os ih =>
      obtain ⟨o', os', rfl, ho, hos⟩ := List.map_eq_cons_iff.mp h.symm
      have hsome := handedOut_isSome ho
      have hlen := ih hos.symm
      rw [List.filterMap_cons, List.filterMap_cons]
      cases hev : handedOut o <;> cases hev' : handedOut o' <;> simp_all

/-- What is expected looks like what is delivered over the slices. -/
theorem expected_map (event : JEvent Event) (f : StoredFile) :
    (expected event f).map toOutcome =
      ((f.toPtFile.slices.flatMap (sliceDelivered (toPtEvents event) f.toPtFile.runNumber)) ++
        [sourceDone (toPtEvents event)]).map some := by
  rw [f.toPtFile_slices]
  unfold expected
  rw [List.map_append, List.map_append]
  congr 1
  rw [List.flatMap_map, List.map_flatMap, List.map_flatMap]
  congr 1
  funext ts
  unfold sliceDelivered StoredSlice.timeSlice TimeSlice.toSlice
  simp only [List.map_map]
  rfl

theorem expected_events (event : JEvent Event) (f : StoredFile) :
    (expected event f).filterMap handedOut = f.slices.flatMap (fun ts => ts.timeSlice.events) := by
  unfold expected
  have hdone : handedOut (.ok ({ event with ref := none }, .noMoreEventsInSource)) = none := rfl
  rw [List.filterMap_append, List.filterMap_cons_none hdone, List.filterMap_nil, List.append_nil,
    List.filterMap_flatMap]
  congr 1
  funext ts
  rw [List.filterMap_map]
  have hsome : handedOut ∘ deliveredFrom event f ts = some ∘ StoredEvent.event := rfl
  rw [hsome, List.filterMap_eq_map]
  rfl

/-- **The calls on a file** hand out the events that were written into it, slice by slice and with all their hits, if
every slice after the first has an event. -/
theorem getEvents_encode (f : StoredFile) (hevents : ∀ ts ∈ f.slices.tail, ts.events ≠ []) (event : JEvent Event)
    {n : Nat} (hn : (expected event f).length ≤ n) :
    ∃ c, JEventSourceTRIDASDAQ.new f.encode = .ok c ∧ c.getEvents event n = expected event f := by
  obtain ⟨c, hnew, hsim, hremaining⟩ := new_simulates f
  obtain ⟨hmap, hprefix⟩ := getEvents_simulates hsim event n
  have hlater : ∀ ts ∈ f.toPtFile.later, ts.events ≠ [] := by
    intro ts hts
    obtain ⟨stored, hstored, rfl⟩ := List.mem_map.mp hts
    intro hnil
    exact hevents stored hstored (List.map_eq_nil_iff.mp (List.map_eq_nil_iff.mp hnil))
  have hwalk : (BdxReco.JEventSourceTRIDASDAQ.new f.toPtFile).getEvents (toPtEvents event) n =
      f.toPtFile.slices.flatMap (sliceDelivered (toPtEvents event) f.toPtFile.runNumber) ++
        [sourceDone (toPtEvents event)] := by
    have hlen := congrArg List.length (expected_map event f)
    rw [List.length_map, List.length_map] at hlen
    rw [getEvents_at (toPtEvents event) (at_new f.toPtFile) n, outcomesFrom, List.drop_zero,
      (sliceOutcomes_eq_iff _ _ _).mpr hlater]
    have hslices : f.toPtFile.slices.flatMap (sliceDelivered (toPtEvents event) f.toPtFile.runNumber) =
        f.toPtFile.first.events.map (delivered (toPtEvents event) f.toPtFile.runNumber f.toPtFile.first) ++
          f.toPtFile.later.flatMap (sliceDelivered (toPtEvents event) f.toPtFile.runNumber) := rfl
    rw [hslices, List.append_assoc] at hlen ⊢
    exact List.take_of_length_le (by rw [hlen] at hn; exact hn)
  refine ⟨c, hnew, ?_⟩
  rw [hwalk, ← expected_map] at hmap
  have hall : (c.getEvents event n).filterMap handedOut = (expected event f).filterMap handedOut := by
    rw [hremaining, ← expected_events event f] at hprefix
    exact hprefix.eq_of_length (length_handedOut hmap)
  exact outcomes_ext (hmap.trans (expected_map event f)) (expected_map event f) hall

end Runs

theorem getEvents_encode_twoSliceFile :
    ∃ c, JEventSourceTRIDASDAQ.new twoSliceFile.encode = .ok c ∧ c.getEvents {} 4 = expected {} twoSliceFile :=
  getEvents_encode twoSliceFile (by decide) {} (by decide)

/-! ## `GetObjects` -/

/-- A hit with the header of its first frame. -/
def Hit.toPtHit (hit : Hit) : Option PtHit := do
  let head ← hit.heads.head?
  some
    { frameHeader :=
        { TowerID := head.TowerID.toNat
          EFCMID := head.EFCMID.toNat
          PMTID := head.PMTID.toNat
          Charge := head.Charge.toNat
          fullTime := head.getDFHFullTime }
      samples := hit.samples.map (fun x => (x.toNat : Int)) }

/-- `GetObjects(event, factory)` for the factory of the `fa250WaveboardV1Hit`s. -/
def getObjectsWaveboard (event : JEvent Event) : Option (List Fa250WaveboardV1Hit) := do
  let ev ← event.ref
  let hits ← ev.hits.mapM Hit.toPtHit
  WaveboardSource.getObjectsWaveboard { ref := some { id := ev.head.EventID.toNat, hits } }

/-- `GetObjects(event, factory)` for the factory of the `eventData`. The time is that of the first hit. -/
def getObjectsEventData (event : JEvent Event) : Option EventData := do
  let ev ← event.ref
  let hit ← ev.hits.head?
  let head ← hit.heads.head?
  let word : BitVec 32 → UInt32 := UInt32.ofBitVec
  some
    { eventType := some .daq
      time := head.getDFHFullTime / ticksPerSecond + 946684800
      runN := word (BitVec.ofInt 32 event.runNumber)
      eventN := event.eventNumber
      eventTS := event.eventTS
      triggerWords := [5] ++ ev.head.nseeds.toList.map word ++ [8] ++ ev.head.plugin_nseeds.toList.map word ++
        ev.head.plugin_trigtype.toList.map word }

theorem getObjectsEventData_spec {event : JEvent Event} {ev : Event} {hit : Hit} {head : DataFrameHeader}
    (href : event.ref = some ev) (hhit : ev.hits.head? = some hit) (hhead : hit.heads.head? = some head) :
    ∃ data, getObjectsEventData event = some data ∧ data.eventN = event.eventNumber ∧ data.eventTS = event.eventTS ∧
      data.runN.toBitVec = BitVec.ofInt 32 event.runNumber ∧
      data.time = head.getDFHFullTime / ticksPerSecond + 946684800 := by
  unfold getObjectsEventData
  rw [href, Option.bind_eq_bind, Option.bind_some, hhit, Option.bind_eq_bind, Option.bind_some, hhead]
  exact ⟨_, rfl, rfl, rfl, rfl, rfl⟩

/-- The event header has the numbers of the event, and the Unix time of its first frame. -/
theorem getObjectsEventData_filledIn (event : JEvent Event) (f : StoredFile) (ts : StoredSlice) (ev : StoredEvent)
    (hvalid : ∀ fr ∈ ev.frames, fr.head.TimeValid) :
    ∃ data head, getObjectsEventData (filledIn event f ts ev) = some data ∧
      ev.frames.head?.map Frame.head = some head ∧ data.eventN = ev.head.EventID.toNat ∧
      data.eventTS = ts.head.TS_ID.toNat ∧ data.runN.toBitVec = f.head.run_number ∧
      data.time = 946684800 + (firstOfTheYear head.getDFHYears + head.getDFHDays) * secondsPerDay + head.Seconds.toNat := by
  obtain ⟨fr, frames, hframes⟩ := List.exists_cons_of_ne_nil ev.frames_ne
  obtain ⟨hit, later, hhits, hhead⟩ := hitsOf_cons fr frames
  have hfr := hvalid fr (by rw [hframes]; exact List.mem_cons_self)
  have href : (filledIn event f ts ev).ref = some ev.event := rfl
  have hhit : ev.event.hits.head? = some hit := by
    show (hitsOf ev.frames).head? = some hit
    rw [hframes, hhits]
    rfl
  obtain ⟨data, hdata, hN, hTS, hrun, htime⟩ := getObjectsEventData_spec href hhit hhead
  refine ⟨data, fr.head, hdata, by rw [hframes]; rfl, hN, hTS, hrun.trans (ofInt_toInt _), ?_⟩
  have hfull := DataFrameHeader.getDFHFullTime_eq hfr
  have hframe := hfr.frameCounter
  have htick := hfr.t4ns
  simp only [DataFrameHeader.dayDigits, MixedRadix.value, framesPerSecond, ticksPerFrame] at hfull hframe htick
  rw [htime, hfull]
  unfold ticksPerSecond
  omega

/-! ## The waveforms of a file -/

section Waveforms

theorem toPtHit_of_heads {hit : Hit} (h : hit.heads ≠ []) :
    ∃ head p, hit.heads.head? = some head ∧ hit.toPtHit = some p ∧ p.frameHeader.fullTime = head.getDFHFullTime ∧
      p.samples = hit.samples.map (fun x => (x.toNat : Int)) := by
  obtain ⟨head, later, hheads⟩ := List.exists_cons_of_ne_nil h
  unfold Hit.toPtHit
  rw [hheads]
  exact ⟨head, _, rfl, rfl, rfl, rfl⟩

/-- The hits of an event and what is made of them. -/
theorem mapM_toPtHit {hits : List Hit} (h : ∀ hit ∈ hits, hit.heads ≠ []) :
    ∃ ptHits, hits.mapM Hit.toPtHit = some ptHits ∧ List.Forall₂ (fun hit p => hit.toPtHit = some p) hits ptHits := by
  induction hits with
  | nil => exact ⟨[], rfl, List.Forall₂.nil⟩
  | cons hit hits ih =>
      obtain ⟨ptHits, hmap, hall⟩ := ih (fun hit' hhit' => h hit' (List.mem_cons_of_mem hit hhit'))
      obtain ⟨_, p, _, hp, _⟩ := toPtHit_of_heads (h hit List.mem_cons_self)
      refine ⟨p :: ptHits, ?_, List.Forall₂.cons hp hall⟩
      rw [List.mapM_cons, hp, hmap]
      rfl

theorem exists_of_forall₂ {α β : Type} {R : α → β → Prop} {as : List α} {bs : List β} (h : List.Forall₂ R as bs) {b : β}
    (hb : b ∈ bs) : ∃ a ∈ as, R a b := by
  obtain ⟨a, hmem⟩ := Run.exists_result (h.flip.length_eq) hb
  have hpair := (List.forall₂_iff_zip.mp h.flip).2 hmem
  exact ⟨a, (List.of_mem_zip hmem).2, hpair⟩

/-- All waveforms are published relative to the earliest hit. -/
theorem getObjectsWaveboard_padded {first : PtHit} {rest : List PtHit} (id : Nat)
    (hsamples : ∀ hit ∈ first :: rest, hit.samples ≠ []) :
    ∃ data, WaveboardSource.getObjectsWaveboard { ref := some { id, hits := first :: rest } } = some data ∧
      List.Forall₂ (WaveboardSource.Padded (WaveboardSource.findMinTime first.frameHeader.fullTime (first :: rest)))
        (first :: rest) data := by
  obtain ⟨data, out, hrun, _, hdata, hpadded⟩ :=
    Run.foldlM_publishes (fun _ => True) (fun data => data)
      (WaveboardSource.Padded (WaveboardSource.findMinTime first.frameHeader.fullTime (first :: rest)))
      (fun data hit hhit _ => by
        obtain ⟨data', fahit, hstep, hdata', hpad⟩ := WaveboardSource.getHit_spec (hsamples hit hhit) data
        exact ⟨data', fahit, hstep, trivial, hdata', hpad⟩)
      (s := []) trivial
  have hsame : data = out := hdata
  subst hsame
  exact ⟨data, hrun, hpadded⟩

/-- An event that a source handed out is one of the file. -/
theorem handedOut_stored {f : StoredFile} {c : JEventSourceTRIDASDAQ} {a : BdxReco.JEventSourceTRIDASDAQ}
    (hsim : Simulates f c a) (hremaining : remaining f c = f.slices.flatMap (fun ts => ts.timeSlice.events))
    {event event' : JEvent Event} {n : Nat} {err : JError} (ho : .ok (event', err) ∈ c.getEvents event n) {ev : Event}
    (hev : event'.ref = some ev) : ∃ ts ∈ f.slices, ∃ stored ∈ ts.events, ev = stored.event := by
  have hmem : ev ∈ remaining f c :=
    (getEvents_simulates hsim event n).2.subset (List.mem_filterMap.mpr ⟨_, ho, hev⟩)
  rw [hremaining] at hmem
  obtain ⟨ts, hts, hmem⟩ := List.mem_flatMap.mp hmem
  obtain ⟨stored, hstored, rfl⟩ := List.mem_map.mp hmem
  exact ⟨ts, hts, stored, hstored, rfl⟩

/-- No hit starts before `head`, and the waveforms of the hits start at its time. -/
structure Earliest (hits : List Hit) (head : DataFrameHeader) (tMin : Nat) : Prop where
  mem : ∃ hit ∈ hits, hit.heads.head? = some head
  time : head.getDFHFullTime = tMin
  -- the order can be read off the bits of the time
  le : ∀ hit ∈ hits, ∀ head', hit.heads.head? = some head' → head.timeWord.toNat ≤ head'.timeWord.toNat

/-- **The waveforms of every event of a file have one time axis**, which starts with the hit whose time bits are the
smallest. -/
theorem waveboard_encode (f : StoredFile)
    (hsamples : ∀ ts ∈ f.slices, ∀ ev ∈ ts.events, ∀ fr ∈ ev.frames, fr.samples ≠ [] ∧ fr.head.TimeValid) :
    ∃ c, JEventSourceTRIDASDAQ.new f.encode = .ok c ∧
      ∀ event n event' err ev, .ok (event', err) ∈ c.getEvents event n → event'.ref = some ev →
        ∃ hits data head tMin, ev.hits.mapM Hit.toPtHit = some hits ∧ getObjectsWaveboard event' = some data ∧
          WaveboardSource.Aligned hits data tMin ∧ Earliest ev.hits head tMin := by
  obtain ⟨c, hnew, hsim, hremaining⟩ := new_simulates f
  refine ⟨c, hnew, ?_⟩
  intro event n event' err ev ho hev
  obtain ⟨ts, hts, stored, hstored, rfl⟩ := handedOut_stored hsim hremaining ho hev
  have hframes := hsamples ts hts stored hstored
  have hheads : ∀ hit ∈ hitsOf stored.frames, hit.heads ≠ [] ∧ hit.samples ≠ [] ∧
      ∀ head, hit.heads.head? = some head → head.TimeValid := by
    apply hitsOf_forall
    · intro fr hfr
      refine ⟨by simp, (hframes fr hfr).1, ?_⟩
      intro head hhead
      rw [← Option.some.inj hhead]
      exact (hframes fr hfr).2
    · rintro fr hfr hit ⟨hne, hs, hvalid⟩
      refine ⟨by simp, by simp [hs], ?_⟩
      intro head hhead
      exact hvalid head (by rwa [List.head?_append_of_ne_nil _ hne] at hhead)
  obtain ⟨hits, hmap, hall⟩ := mapM_toPtHit (fun hit hhit => (hheads hit hhit).1)
  have hne : hits ≠ [] := by
    intro hnil
    rw [hnil] at hall
    obtain ⟨fr, frames, hframes⟩ := List.exists_cons_of_ne_nil stored.frames_ne
    obtain ⟨hit, later, hhits, _⟩ := hitsOf_cons fr frames
    rw [hframes, hhits] at hall
    exact List.cons_ne_nil _ _ (List.forall₂_nil_right_iff.mp hall)
  obtain ⟨first, rest, rfl⟩ := List.exists_cons_of_ne_nil hne
  have hpt : ∀ p ∈ first :: rest, ∃ hit ∈ hitsOf stored.frames, ∃ head, hit.heads.head? = some head ∧
      p.frameHeader.fullTime = head.getDFHFullTime ∧ p.samples ≠ [] := by
    intro p hp
    obtain ⟨hit, hhit, hto⟩ := exists_of_forall₂ hall hp
    obtain ⟨head, p', hhead, hto', htime, hs⟩ := toPtHit_of_heads (hheads hit hhit).1
    obtain rfl : p' = p := Option.some.inj (hto'.symm.trans hto)
    exact ⟨hit, hhit, head, hhead, htime, by rw [hs]; simpa using (hheads hit hhit).2.1⟩
  have hmin := WaveboardSource.isMinTime_findMinTime first rest
  obtain ⟨data, hdata, hpadded⟩ := getObjectsWaveboard_padded stored.head.EventID.toNat
    (fun p hp => (hpt p hp).choose_spec.2.choose_spec.2.2)
  obtain ⟨p, hp, htMin⟩ := hmin.mem
  obtain ⟨hit, hhit, head, hhead, htime, _⟩ := hpt p hp
  refine ⟨first :: rest, data, head, _, hmap, ?_, WaveboardSource.aligned_of_padded hmin hpadded, ?_⟩
  · unfold getObjectsWaveboard
    rw [hev]
    show Option.bind ((hitsOf stored.frames).mapM Hit.toPtHit) _ = _
    rw [hmap]
    exact hdata
  · refine ⟨⟨hit, hhit, hhead⟩, by rw [← htime, htMin], ?_⟩
    intro hit' hhit' head' hhead'
    obtain ⟨p', hp', hto⟩ := exists_of_forall₂ hall.flip hhit'
    obtain ⟨head'', p'', hhead'', hto', htime', _⟩ := toPtHit_of_heads (hheads hit' hhit').1
    obtain rfl : p'' = p' := Option.some.inj (hto'.symm.trans hto)
    obtain rfl : head'' = head' := Option.some.inj (hhead''.symm.trans hhead')
    have hle := hmin.le p'' hp'
    rw [← htMin, htime, htime'] at hle
    have hlt := DataFrameHeader.getDFHFullTime_lt_iff ((hheads hit' hhit').2.2 head'' hhead')
      ((hheads hit hhit).2.2 head hhead)
    omega

theorem waveboard_encode_twoSliceFile :
    ∃ c, JEventSourceTRIDASDAQ.new twoSliceFile.encode = .ok c ∧
      ∀ event n event' err ev, .ok (event', err) ∈ c.getEvents event n → event'.ref = some ev →
        ∃ hits data head tMin, ev.hits.mapM Hit.toPtHit = some hits ∧ getObjectsWaveboard event' = some data ∧
          WaveboardSource.Aligned hits data tMin ∧ Earliest ev.hits head tMin := by
  apply waveboard_encode
  have hframe : ∀ fr ∈ [oddFrame, subsequentFrame], fr.samples ≠ [] ∧ fr.head.TimeValid := by
    intro fr hfr
    rcases List.mem_pair.mp hfr with rfl | rfl
    · exact ⟨by decide, by constructor <;> decide +kernel⟩
    · exact ⟨by decide, by constructor <;> decide +kernel⟩
  have hall : ∀ ts ∈ twoSliceFile.slices, ∀ ev ∈ ts.events, ∀ fr ∈ ev.frames, fr ∈ [oddFrame, subsequentFrame] := by
    simp [twoSliceFile, threeFrameEvent, oneFrameEvent]
  exact fun ts hts ev hev fr hfr => hframe fr (hall ts hts ev hev fr hfr)

end Waveforms

end BdxReco.Tridas
