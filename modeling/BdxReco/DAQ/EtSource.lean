import BdxReco.DAQ.EtBuffer
import BdxReco.DAQ.Event

/-!
# `DAQ.EtSource` — reading events from an ET ring

The ET branch of `JEventSourceEvioDAQ::GetEvent`. It waits for an event of the ring, copies it out of the
memory of the ET system (`DAQ.EtBuffer`), puts the event back into the ring and scans the banks of the copy. What
the surroundings answer is an argument: the turns of the waiting loop (`Poll`), the DOM tree that the EVIO
library builds, the old content of `buff`. `gets` and `puts` record the calls of `et_event_get` that returned an
event and those of `et_event_put`.

`returnsEvents_iff` is about the exits between the two: a call that got an event puts it back exactly when the
event passes the three checks in between.
-/

namespace BdxReco

/-! ## The surroundings -/

/-- An event of the ring; `data` is `none` when its data pointer is `NULL`. -/
structure EtEvent where
  pointer : Nat
  data : Option (Mem UInt32)

/-- What `et_event_get` answers. -/
inductive EtAnswer where
  | event (pe : EtEvent)
  | okNull
  | timeout
  | error

/-- One turn of the waiting loop: the quitting status at its test and the answer, if it is asked for. -/
structure Poll where
  quitting : Bool
  answer : EtAnswer

/-- A bank as `getNodeList` lists it. -/
structure DomNode where
  tag : Nat
  data : List UInt32
  deriving DecidableEq, Repr

/-- What a call of `GetEvent` meets. `domTree` is the constructor of `evioDOMTree`, `none` when it throws. -/
structure Surroundings where
  polls : List Poll
  quittingAfter : Bool
  buff : Mem UInt32
  fuel : Nat
  domTree : Mem UInt32 → Option (List DomNode)

/-! ## The source -/

/-- The members of the source that the ET branch uses, with the values of the constructor. -/
structure JEventSourceEvioDAQ where
  eventHeaderTag : Nat := 0xe10F
  prestartTag : Nat := 0x11
  endTag : Nat := 0x14
  eventTypeEPICS : Int := 31
  overwriteRunNumber : Int := -1
  curRunNumber : Int := 0
  curEventType : Int := 0
  bufferSize : UInt32 := 3000000
  quitOnNextETTimeout : Bool := false
  deriving DecidableEq, Repr

/-- How a call ends: it returns, the DOM constructor throws, it runs into undefined behaviour, or it has not ended
    yet (the polls or the fuel ran out). -/
inductive CallEnd where
  | returned (err : JError)
  | threw
  | crashed
  | running
  deriving DecidableEq, Repr

/-- Control is back at the caller. -/
def CallEnd.ended : CallEnd → Bool
  | .returned _ => true
  | .threw => true
  | .crashed => false
  | .running => false

structure CallResult where
  source : JEventSourceEvioDAQ
  event : JEvent (List DomNode)
  callEnd : CallEnd
  gets : List Nat
  puts : List Nat

namespace JEventSourceEvioDAQ

/-- How the waiting loop is left. -/
inductive WaitEnd where
  | got (pe : EtEvent)
  | quit
  | gaveUp
  | waiting

/-- The waiting loop. -/
def wait (s : JEventSourceEvioDAQ) : List Poll → WaitEnd
  | [] => .waiting
  | p :: polls =>
    if p.quitting then .quit
    else
      match p.answer with
      | .event pe => .got pe
      | .okNull => .gaveUp
      | .timeout => if s.quitOnNextETTimeout then .gaveUp else s.wait polls
      | .error => .gaveUp

/-- A `uint32_t` stored in an `int`. -/
def toInt (x : UInt32) : Int := x.toInt32.toInt

/-- The loop over the banks, with the run number and the event type read so far. `none` is an access beyond the
    end of a bank. -/
def scanNodes (s : JEventSourceEvioDAQ) (event : JEvent (List DomNode)) :
    List DomNode → Option (JEventSourceEvioDAQ × JEvent (List DomNode) × JError)
  | [] =>
    let runNumber := if s.overwriteRunNumber ≠ -1 then s.overwriteRunNumber else s.curRunNumber
    some (s, { event with runNumber }, .noError)
  | node :: nodes =>
    if node.tag = s.endTag then
      -- "Got end event"
      some (s, event, .noMoreEventsInSource)
    else
      let prestart : Option JEventSourceEvioDAQ :=
        if node.tag = s.prestartTag ∧ s.overwriteRunNumber = -1 then
          node.data[1]?.map (fun run => { s with curRunNumber := toInt run })
        else some s
      match prestart with
      | none => none
      | some s =>
        if node.tag = s.eventHeaderTag then
          match node.data[2]?, node.data[1]?, node.data[4]? with
          | some number, some run, some type =>
            scanNodes { s with curRunNumber := toInt run, curEventType := toInt type }
              { event with eventNumber := number.toNat } nodes
          | _, _, _ => none
        else scanNodes s event nodes

/-- From the creation of the DOM tree on. `edt` is the tree built from the copy, `none` when that threw. -/
def readTree (s : JEventSourceEvioDAQ) (event : JEvent (List DomNode)) (edt : Option (List DomNode)) :
    JEventSourceEvioDAQ × JEvent (List DomNode) × CallEnd :=
  match edt with
  | none => (s, event, .threw)
  | some [] => (s, { event with ref := some [], hasSource := true }, .crashed)
  | some (root :: nodes) =>
    let s := { s with curEventType := root.tag }
    let event := { event with
      ref := some (root :: nodes), hasSource := true
      sequential := if s.curEventType = s.eventTypeEPICS then true else event.sequential }
    match s.scanNodes event (root :: nodes) with
    | none => (s, event, .crashed)
    | some (s, event, err) => (s, event, .returned err)

/-- The ET branch of `GetEvent(event)`. -/
def getEventET (s : JEventSourceEvioDAQ) (w : Surroundings) (event : JEvent (List DomNode)) : CallResult :=
  let event := { event with ref := none }
  let noMore (gets : List Nat) : CallResult :=
    { source := s, event, callEnd := .returned .noMoreEventsInSource, gets, puts := [] }
  match s.wait w.polls with
  | .waiting => { source := s, event, callEnd := .running, gets := [], puts := [] }
  | .gaveUp => noMore []
  | .quit =>
    if w.quittingAfter then noMore []
    else { source := s, event, callEnd := .crashed, gets := [], puts := [] }
  | .got pe =>
    match pe.data with
    | none => noMore [pe.pointer]
    | some etBuff =>
      match copyEvent etBuff s.bufferSize w.fuel w.buff with
      | .noMagic => noMore [pe.pointer]
      | .tooLarge => noMore [pe.pointer]
      | .running => { source := s, event, callEnd := .running, gets := [pe.pointer], puts := [] }
      | .copied c =>
        let (source, event, callEnd) := s.readTree event (w.domTree (fun k => c.buff (8 + k)))
        { source, event, callEnd, gets := [pe.pointer], puts := [pe.pointer] }

end JEventSourceEvioDAQ

/-! ## Events and the ring -/

/-- Every event the call got has been put back exactly once when control is back at the caller. -/
def CallResult.ReturnsEvents (r : CallResult) : Prop :=
  r.callEnd.ended = true → ∀ pe ∈ r.gets, r.puts.count pe = 1

/-- The polls give `pe` to the call: before it there were only timeouts, at none of which the call was to stop. -/
def Obtains (quitOnTimeout : Bool) (polls : List Poll) (pe : EtEvent) : Prop :=
  ∃ timeouts later, polls = timeouts ++ ⟨false, .event pe⟩ :: later ∧
    ∀ p ∈ timeouts, p = ⟨false, .timeout⟩ ∧ quitOnTimeout = false

/-- The event passes the three checks: it has data, a magic word, and the size that fits. -/
def EtEvent.Sound (pe : EtEvent) (bufferSize : UInt32) : Prop :=
  ∃ etBuff swap, pe.data = some etBuff ∧ swapNeeded (etBuff 7) = some swap ∧
    ¬ bufsizeBytes (blockLen etBuff swap) > bufferSize

namespace JEventSourceEvioDAQ

/-- One turn of the waiting loop. -/
theorem wait_cons_eq_got (s : JEventSourceEvioDAQ) {p : Poll} {polls : List Poll} {pe : EtEvent} :
    s.wait (p :: polls) = .got pe ↔
      p = ⟨false, .event pe⟩ ∨
        (p = ⟨false, .timeout⟩ ∧ s.quitOnNextETTimeout = false ∧ s.wait polls = .got pe) := by
  obtain ⟨quitting, answer⟩ := p
  cases quitting with
  | true => simp [wait]
  | false =>
      cases answer with
      | event pe' => simp [wait]
      | okNull => simp [wait]
      | error => simp [wait]
      | timeout =>
          cases hstop : s.quitOnNextETTimeout with
          | true => simp [wait, hstop]
          | false => simp [wait, hstop]

/-- **The waiting loop** leaves with an event exactly when the polls give it one. -/
theorem wait_eq_got (s : JEventSourceEvioDAQ) {polls : List Poll} {pe : EtEvent} :
    s.wait polls = .got pe ↔ Obtains s.quitOnNextETTimeout polls pe := by
  induction polls with
  | nil =>
      constructor
      · intro h
        exact absurd h (by simp [wait])
      · rintro ⟨timeouts, later, hsplit, _⟩
        exact absurd hsplit (by simp)
  | cons p polls ih =>
      rw [wait_cons_eq_got, ih]
      constructor
      · rintro (rfl | ⟨rfl, hstop, timeouts, later, rfl, hall⟩)
        · exact ⟨[], polls, rfl, by simp⟩
        · refine ⟨⟨false, .timeout⟩ :: timeouts, later, rfl, ?_⟩
          rw [List.forall_mem_cons]
          exact ⟨⟨rfl, hstop⟩, hall⟩
      · rintro ⟨timeouts, later, hsplit, hall⟩
        cases timeouts with
        | nil => exact Or.inl (List.cons.inj hsplit).1
        | cons p' timeouts =>
            obtain ⟨rfl, hrest⟩ := List.cons.inj hsplit
            rw [List.forall_mem_cons] at hall
            obtain ⟨⟨hp, hstop⟩, hall⟩ := hall
            exact Or.inr ⟨hp, hstop, timeouts, later, hrest, hall⟩

/-- A sound event is copied, or the copy is still running; it never leaves by one of the checks. -/
theorem copyEvent_of_sound {etBuff : Mem UInt32} {bufferSize : UInt32} {swap : Bool} (fuel : Nat)
    (buff : Mem UInt32) (hmagic : swapNeeded (etBuff 7) = some swap)
    (hsize : ¬ bufsizeBytes (blockLen etBuff swap) > bufferSize) :
    copyEvent etBuff bufferSize fuel buff = .running ∨
      ∃ c, copyEvent etBuff bufferSize fuel buff = .copied c := by
  unfold copyEvent
  rw [hmagic]
  simp only
  rw [if_neg hsize]
  cases copyStage etBuff swap fuel buff with
  | none => exact Or.inl rfl
  | some c => exact Or.inr ⟨c, rfl⟩

/-- An unsound event leaves by one of the checks, before it is put back. -/
theorem getEventET_of_unsound {s : JEventSourceEvioDAQ} {w : Surroundings} (event : JEvent (List DomNode))
    {pe : EtEvent} (hgot : s.wait w.polls = .got pe) (hunsound : ¬ pe.Sound s.bufferSize) :
    (s.getEventET w event).callEnd = .returned .noMoreEventsInSource ∧
      (s.getEventET w event).gets = [pe.pointer] ∧ (s.getEventET w event).puts = [] := by
  unfold getEventET
  simp only [hgot]
  cases hdata : pe.data with
  | none => exact ⟨rfl, rfl, rfl⟩
  | some etBuff =>
      have hcheck : copyEvent etBuff s.bufferSize w.fuel w.buff = .noMagic ∨
          copyEvent etBuff s.bufferSize w.fuel w.buff = .tooLarge := by
        unfold copyEvent
        cases hmagic : swapNeeded (etBuff 7) with
        | none => exact Or.inl rfl
        | some swap =>
            by_cases hsize : bufsizeBytes (blockLen etBuff swap) > s.bufferSize
            · simp only
              rw [if_pos hsize]
              exact Or.inr rfl
            · exact absurd ⟨etBuff, swap, hdata, hmagic, hsize⟩ hunsound
      simp only
      rcases hcheck with h | h
      · rw [h]
        exact ⟨rfl, rfl, rfl⟩
      · rw [h]
        exact ⟨rfl, rfl, rfl⟩

/-- A call that got a sound event and ended has put it back. -/
theorem returnsEvents_of_sound {s : JEventSourceEvioDAQ} {w : Surroundings} {event : JEvent (List DomNode)}
    {pe : EtEvent} (hgot : s.wait w.polls = .got pe) (hsound : pe.Sound s.bufferSize) :
    (s.getEventET w event).ReturnsEvents := by
  obtain ⟨etBuff, swap, hdata, hmagic, hsize⟩ := hsound
  intro hended pe' hpe'
  unfold getEventET at hended hpe' ⊢
  simp only [hgot, hdata] at hended hpe' ⊢
  rcases copyEvent_of_sound w.fuel w.buff hmagic hsize with h | ⟨c, h⟩
  · rw [h] at hended
    exact absurd hended (by simp [CallEnd.ended])
  · rw [h] at hpe' ⊢
    have hpe : pe' = pe.pointer := by simpa using hpe'
    simp [hpe]

/-- A call that got no event has nothing to put back. -/
theorem gets_of_not_got {s : JEventSourceEvioDAQ} {w : Surroundings} {event : JEvent (List DomNode)}
    (h : ∀ pe, s.wait w.polls ≠ .got pe) : (s.getEventET w event).gets = [] := by
  unfold getEventET
  cases hwait : s.wait w.polls with
  | got pe => exact absurd hwait (h pe)
  | waiting => rfl
  | gaveUp => rfl
  | quit =>
      simp only
      split
      · rfl
      · rfl

/-- **No event is lost to the ring exactly when every event the polls give passes the checks**: it has data, its
    word 7 is the magic word in one of the byte orders, and its size fits the buffer. -/
theorem returnsEvents_iff (s : JEventSourceEvioDAQ) (w : Surroundings) (event : JEvent (List DomNode)) :
    (s.getEventET w event).ReturnsEvents ↔
      ∀ pe, Obtains s.quitOnNextETTimeout w.polls pe → pe.Sound s.bufferSize := by
  constructor
  · intro h pe hobtains
    by_contra hunsound
    obtain ⟨hend, hgets, hputs⟩ := getEventET_of_unsound event (s.wait_eq_got.mpr hobtains) hunsound
    have hcount := h (by rw [hend]; rfl) pe.pointer (by rw [hgets]; simp)
    rw [hputs] at hcount
    exact absurd hcount (by simp)
  · intro h
    by_cases hgot : ∃ pe, s.wait w.polls = .got pe
    · obtain ⟨pe, hpe⟩ := hgot
      exact returnsEvents_of_sound hpe (h pe (s.wait_eq_got.mp hpe))
    · intro _ pe hpe
      rw [gets_of_not_got (fun pe' hpe' => hgot ⟨pe', hpe'⟩)] at hpe
      exact absurd hpe (by simp)

/-- After a timeout the ring gives an event whose magic word is damaged. -/
def damagedEvent : Surroundings where
  polls := [⟨false, .timeout⟩, ⟨false, .event { pointer := 42, data := some (fun _ => 0) }⟩]
  quittingAfter := false
  buff := fun _ => 0
  fuel := 10
  domTree := fun _ => some []

/-- The call returns `NO_MORE_EVENTS_IN_SOURCE` and event 42 stays with this attachment for good. -/
theorem damagedEvent_lost : ¬ (getEventET {} damagedEvent {}).ReturnsEvents := by
  intro h
  have hcount := h rfl 42 (by show 42 ∈ [42]; simp)
  exact absurd hcount (by decide)

end JEventSourceEvioDAQ

end BdxReco
