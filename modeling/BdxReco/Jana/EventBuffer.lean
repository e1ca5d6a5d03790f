import BdxReco.DAQ.Event
import BdxReco.Lib.Progress
import Mathlib.Algebra.BigOperators.Group.Finset.Basic
import Mathlib.Data.Fintype.Basic
import Mathlib.Data.List.ReduceOption
import Mathlib.Logic.Function.Basic

/-!
# `Jana.EventBuffer` — the event buffer between the source and the event loops

One thread reads events into a buffer (`JApplication::EventBufferThread`), any number of event loops take them out and
process them (`JEventLoop::Loop`, `JApplication::NextEvent`). A machine whose steps are those of single threads: a step
ends where the thread takes the mutex or gives it up, or looks at a flag that others write. What the event buffer thread
does while it has the mutex is one step. The accesses that the code makes without the mutex are steps of their own.

One of these writes. Behind its loop `EventBufferThread` locks the mutex for a last event only, but pushes `NULL` and
unlocks the mutex all the same. If an event loop holds the mutex meanwhile, two threads change the list at once, and the
unlock lets the next event loop in while the first one still is between `back()` and `pop_back()`: an event can be handed
out twice, and another one lost. The machine then has come to `Filler.race`, and takes no further step. An unlock of the
mutex while nobody holds it does nothing.

* `log_fillerMove`, `log_loopMove`: a step keeps what was handed out, is in the buffer, or is still to come.
* `handedOut_inOrder`: every event is handed out once and in the order in which it was read.

The buffer is a list with the next event first; the code keeps it with the next event last.
-/

namespace BdxReco

/-- The configuration parameters of the event buffer. -/
structure BufferParams where
  EVENTS_TO_SKIP : Nat := 0
  EVENTS_TO_KEEP : Nat := 0
  MAX_EVENTS_IN_BUFFER : Nat := 10
  deriving DecidableEq, Repr

/-- Where the event buffer thread is. -/
inductive Filler (ρ : Type) where
  /-- At the head of the loop, with the event that was read last. -/
  | push (event : Option (JEvent ρ))
  /-- It waits for the buffer to drain before a sequential event. -/
  | drain (event : JEvent ρ)
  /-- It waits for `sequential_event_complete`. -/
  | barrier
  /-- It waits for `event_buffer_cond`. -/
  | room
  /-- The condition was signalled. -/
  | woken
  | read
  /-- Behind the loop. -/
  | behind (event : Option (JEvent ρ))
  /-- Between the start of the push of `NULL` and the end of the unlock, without the mutex. -/
  | pushNull
  /-- About to clear `event_buffer_filling`. -/
  | flag
  | done
  /-- It has changed the buffer and unlocked the mutex while an event loop held it. What follows is undefined. -/
  | race
  /-- `GetEventNumber` was called on `NULL`. -/
  | fault
  deriving DecidableEq, Repr

/-- A signal reaches the thread only while it waits for it. -/
def Filler.signalled {ρ : Type} : Filler ρ → Filler ρ
  | .room => .woken
  | filler => filler

/-- What the thread does next is done with the mutex. -/
def Filler.locks {ρ : Type} : Filler ρ → Bool
  | .push _ | .drain _ | .barrier | .woken | .behind (some _) => true
  | .room | .read | .behind none | .pushNull | .flag | .done | .race | .fault => false

/-- An event loop takes the mutex. -/
def Filler.disturbed {ρ : Type} : Filler ρ → Filler ρ
  | .pushNull => .race
  | filler => filler

def Filler.raced {ρ : Type} : Filler ρ → Bool
  | .race => true
  | .push _ | .drain _ | .barrier | .room | .woken | .read | .behind _ | .pushNull | .flag | .done | .fault => false

/-- The thread does not change the buffer without the mutex, and has not done so in the way of an event loop. -/
def Filler.Guarded {ρ : Type} (filler : Filler ρ) : Prop := filler ≠ .pushNull ∧ filler ≠ .race

/-- Where an event loop is. -/
inductive Loop where
  /-- At the head of the loop. -/
  | head
  /-- About to take the mutex or, with it, to look into the buffer, in the loop of `NextEvent`. -/
  | look
  /-- There was no event. -/
  | missed
  /-- The same once more, behind the loop of `NextEvent`. -/
  | again
  /-- The event processors run. -/
  | process
  /-- `OneEvent` has returned `NOERROR`. -/
  | finished
  /-- `OneEvent` has returned `NO_MORE_EVENT_SOURCES`. -/
  | noMore
  | gone
  deriving DecidableEq, Repr

/-- `JEventLoop`, with its event object. -/
structure JEventLoop (ρ : Type) where
  pc : Loop := .head
  quit : Bool := false
  event : JEvent ρ := {}
  deriving DecidableEq, Repr

/-- The state of the threads, for event loops `ι`. -/
structure Threads (ρ ι : Type) where
  /-- The events that `ReadEvent` is still going to return. -/
  source : List (JEvent ρ)
  NEvents_read : Nat := 0
  SKIP_TO_EVENT : Nat := 0
  event_buffer : List (Option (JEvent ρ)) := []
  /-- The event loop that holds the mutex. -/
  event_buffer_mutex : Option ι := none
  event_buffer_filling : Bool := true
  sequential_event_complete : Bool := false
  stop_event_buffer : Bool := false
  filler : Filler ρ := .push none
  loops : ι → JEventLoop ρ := fun _ => {}
  /-- What `NextEvent` has returned, in order. -/
  handedOut : List (JEvent ρ) := []

/-- The thread that takes the next step, or what happens to the threads from outside. -/
inductive Actor (ι : Type) where
  | filler
  | loop (w : ι)
  /-- The condition wakes up without a signal. -/
  | wake
  /-- `stop_event_buffer` is set. -/
  | stop
  /-- `Quit()` is called for an event loop. -/
  | quit (w : ι)
  deriving DecidableEq, Repr

variable {ρ ι : Type}

/-! ## The event buffer thread -/

/-- The checks of an event that was read as the one with the number `n`: what is kept of it, and `SKIP_TO_EVENT`.
`none` if the number of an event that was already dropped is asked for. -/
def BufferParams.admit (p : BufferParams) (n skipTo : Nat) (event : JEvent ρ) : Option (Option (JEvent ρ) × Nat) :=
  let kept := if n ≤ p.EVENTS_TO_SKIP then none else some event
  if skipTo = 0 then some (kept, 0)
  else
    match kept with
    | none => none
    | some event => if event.eventNumber = skipTo then some (some event, 0) else some (none, skipTo)

/-- The loop ends with the event number `n`. -/
def BufferParams.isLast (p : BufferParams) (n : Nat) : Bool :=
  decide (0 < p.EVENTS_TO_KEEP) && decide (p.EVENTS_TO_SKIP + p.EVENTS_TO_KEEP ≤ n)

namespace Threads

/-- Wait for a slot. -/
def await (p : BufferParams) (s : Threads ρ ι) : Threads ρ ι :=
  if p.MAX_EVENTS_IN_BUFFER ≤ s.event_buffer.length then { s with filler := .room }
  else if s.stop_event_buffer then { s with filler := .behind none }
  else { s with filler := .read }

/-- Read an event and decide on it. -/
def readEvent (p : BufferParams) (s : Threads ρ ι) : Threads ρ ι :=
  match s.source with
  | [] => { s with filler := .behind none }
  | event :: source =>
    let n := s.NEvents_read + 1
    match p.admit n s.SKIP_TO_EVENT event with
    | none => { s with source, NEvents_read := n, filler := .fault }
    | some (kept, skipTo) =>
      { s with
        source, NEvents_read := n, SKIP_TO_EVENT := skipTo
        filler := if p.isLast n then .behind kept else .push kept }

/-- A step of `EventBufferThread`; `none` where it waits. -/
def fillerStep (p : BufferParams) (s : Threads ρ ι) : Option (Threads ρ ι) :=
  if s.filler.locks && s.event_buffer_mutex.isSome then none
  else
    match s.filler with
    | .push none => some (s.await p)
    | .push (some event) =>
      if event.sequential then some { s with filler := .drain event }
      else some (await p { s with event_buffer := s.event_buffer ++ [some event] })
    | .drain event =>
      if s.event_buffer.isEmpty || s.stop_event_buffer then
        some { s with
          event_buffer := s.event_buffer ++ [some event], sequential_event_complete := false, filler := .barrier }
      else none
    | .barrier => if s.sequential_event_complete || s.stop_event_buffer then some (s.await p) else none
    | .room => none
    | .woken => if s.stop_event_buffer then some { s with filler := .behind none } else some (s.await p)
    | .read => some (s.readEvent p)
    | .behind (some event) => some { s with event_buffer := s.event_buffer ++ [some event], filler := .flag }
    -- `NULL` is pushed as well, only the lock is under the condition
    | .behind none => some { s with filler := if s.event_buffer_mutex.isSome then .race else .pushNull }
    | .pushNull => some { s with event_buffer := s.event_buffer ++ [none], filler := .flag }
    | .flag => some { s with event_buffer_filling := false, filler := .done }
    | .done | .race | .fault => none

/-! ## The event loops -/

def setLoop [DecidableEq ι] (s : Threads ρ ι) (w : ι) (l : JEventLoop ρ) : Threads ρ ι :=
  { s with loops := Function.update s.loops w l }

/-- Take the next event out of the buffer and give up the mutex; without an event, go to `pc`. -/
def takeEvent [DecidableEq ι] (s : Threads ρ ι) (w : ι) (pc : Loop) : Threads ρ ι :=
  match s.event_buffer with
  | [] => { s with event_buffer_mutex := none }.setLoop w { s.loops w with pc }
  | none :: later => { s with event_buffer := later, event_buffer_mutex := none }.setLoop w { s.loops w with pc }
  | some event :: later =>
    { s with event_buffer := later, event_buffer_mutex := none, handedOut := s.handedOut ++ [event] }.setLoop w
      { s.loops w with pc := .process, event }

/-- Signal `event_buffer_cond`. -/
def signal (s : Threads ρ ι) : Threads ρ ι := { s with filler := s.filler.signalled }

/-- Take the mutex; with it, go on with `locked`. `none` while another event loop holds it. -/
def withMutex [DecidableEq ι] (s : Threads ρ ι) (w : ι) (locked : Threads ρ ι) : Option (Threads ρ ι) :=
  match s.event_buffer_mutex with
  | none => some { s with event_buffer_mutex := some w, filler := s.filler.disturbed }
  | some holder => if holder = w then some locked else none

/-- A step of `Loop` of the event loop `w`. -/
def loopStep [DecidableEq ι] (s : Threads ρ ι) (w : ι) : Option (Threads ρ ι) :=
  let l := s.loops w
  if s.filler.raced then none
  else
    match l.pc with
    | .head => some (s.setLoop w { l with pc := if l.quit then .gone else .look })
    | .look => s.withMutex w ((if s.event_buffer.isEmpty then s else s.signal).takeEvent w .missed)
    | .missed => some (s.setLoop w { l with pc := if l.quit || !s.event_buffer_filling then .again else .look })
    | .again => s.withMutex w (s.takeEvent w .noMore)
    | .process => some (s.setLoop w { l with pc := .finished })
    | .finished =>
      some ({ s with sequential_event_complete := l.event.sequential || s.sequential_event_complete }.setLoop w
        { l with pc := .head })
    | .noMore =>
      some ({ s with sequential_event_complete := l.event.sequential || s.sequential_event_complete }.setLoop w
        { l with pc := .gone, quit := true })
    | .gone => none

/-- A step. -/
def step [DecidableEq ι] (p : BufferParams) (s : Threads ρ ι) : Actor ι → Option (Threads ρ ι)
  | .filler => s.fillerStep p
  | .loop w => s.loopStep w
  | .wake =>
    match s.filler with
    | .room => some { s with filler := .woken }
    | _ => none
  | .stop => some { s with stop_event_buffer := true }
  | .quit w => some (s.setLoop w { s.loops w with quit := true })

/-- The threads take the steps `as`. -/
def run [DecidableEq ι] (p : BufferParams) (s : Threads ρ ι) (as : List (Actor ι)) : Option (Threads ρ ι) :=
  as.foldlM (fun s a => s.step p a) s

/-- The threads at the start. -/
def start (events : List (JEvent ρ)) (skipTo : Nat) : Threads ρ ι := { source := events, SKIP_TO_EVENT := skipTo }

end Threads

/-! ## What should be handed out -/

/-- The events that are kept of those still to be read, after `n` of them. -/
def BufferParams.kept (p : BufferParams) : Nat → Nat → List (JEvent ρ) → List (JEvent ρ)
  | _, _, [] => []
  | n, skipTo, event :: later =>
    match p.admit (n + 1) skipTo event with
    | none => []
    | some (kept, skipTo) => kept.toList ++ if p.isLast (n + 1) then [] else p.kept (n + 1) skipTo later

namespace Threads

/-- The events in the buffer. -/
def buffered (s : Threads ρ ι) : List (JEvent ρ) := s.event_buffer.reduceOption

/-- The events that are going to be read and kept. -/
def unread (p : BufferParams) (s : Threads ρ ι) : List (JEvent ρ) := p.kept s.NEvents_read s.SKIP_TO_EVENT s.source

/-- The events that the event buffer thread is still going to put into the buffer. -/
def coming (p : BufferParams) (s : Threads ρ ι) : List (JEvent ρ) :=
  match s.filler with
  | .push event => event.toList ++ s.unread p
  | .drain event => event :: s.unread p
  | .barrier | .room | .woken | .read => s.unread p
  | .behind event => event.toList
  | .pushNull | .flag | .done | .race | .fault => []

/-- The events that are handed out, if nothing is stopped. -/
def log (p : BufferParams) (s : Threads ρ ι) : List (JEvent ρ) := s.handedOut ++ s.buffered ++ s.coming p

variable {p : BufferParams} {s s' : Threads ρ ι}

/-! ## What a step can do -/

/-- What becomes of the wait for a slot. -/
theorem await_cases (p : BufferParams) (s : Threads ρ ι) :
    (p.MAX_EVENTS_IN_BUFFER ≤ s.event_buffer.length ∧ s.await p = { s with filler := .room }) ∨
      (s.event_buffer.length < p.MAX_EVENTS_IN_BUFFER ∧ s.stop_event_buffer = false ∧
        s.await p = { s with filler := .read }) ∨
      (s.event_buffer.length < p.MAX_EVENTS_IN_BUFFER ∧ s.stop_event_buffer = true ∧
        s.await p = { s with filler := .behind none }) := by
  unfold await
  by_cases hfull : p.MAX_EVENTS_IN_BUFFER ≤ s.event_buffer.length
  · exact Or.inl ⟨hfull, if_pos hfull⟩
  · rw [if_neg hfull]
    cases hstop : s.stop_event_buffer with
    | true => exact Or.inr (Or.inr ⟨by omega, rfl, rfl⟩)
    | false => exact Or.inr (Or.inl ⟨by omega, rfl, rfl⟩)

/-- The steps of the event buffer thread. -/
inductive FillerMove (p : BufferParams) (s : Threads ρ ι) : Threads ρ ι → Prop where
  | await : s.filler = .push none ∨ s.filler = .woken ∨
      (s.filler = .barrier ∧ (s.sequential_event_complete = true ∨ s.stop_event_buffer = true)) →
      FillerMove p s (s.await p)
  | push {event : JEvent ρ} : s.filler = .push (some event) → event.sequential = false →
      FillerMove p s (await p { s with event_buffer := s.event_buffer ++ [some event] })
  | drain {event : JEvent ρ} : s.filler = .push (some event) → event.sequential = true →
      FillerMove p s { s with filler := .drain event }
  | enter {event : JEvent ρ} : s.filler = .drain event → s.event_buffer = [] ∨ s.stop_event_buffer = true →
      FillerMove p s { s with
        event_buffer := s.event_buffer ++ [some event], sequential_event_complete := false, filler := .barrier }
  | stopped : s.filler = .woken → s.stop_event_buffer = true → FillerMove p s { s with filler := .behind none }
  | ended : s.filler = .read → s.source = [] → FillerMove p s { s with filler := .behind none }
  | fault {event : JEvent ρ} {later : List (JEvent ρ)} : s.filler = .read → s.source = event :: later →
      p.admit (s.NEvents_read + 1) s.SKIP_TO_EVENT event = none →
      FillerMove p s { s with source := later, NEvents_read := s.NEvents_read + 1, filler := .fault }
  | read {event : JEvent ρ} {later : List (JEvent ρ)} {kept : Option (JEvent ρ)} {skipTo : Nat} :
      s.filler = .read → s.source = event :: later →
      p.admit (s.NEvents_read + 1) s.SKIP_TO_EVENT event = some (kept, skipTo) →
      FillerMove p s { s with
        source := later, NEvents_read := s.NEvents_read + 1, SKIP_TO_EVENT := skipTo
        filler := if p.isLast (s.NEvents_read + 1) then .behind kept else .push kept }
  | pushLast {event : JEvent ρ} : s.filler = .behind (some event) →
      FillerMove p s { s with event_buffer := s.event_buffer ++ [some event], filler := .flag }
  | bare : s.filler = .behind none → s.event_buffer_mutex = none → FillerMove p s { s with filler := .pushNull }
  | race : s.filler = .behind none → s.event_buffer_mutex ≠ none → FillerMove p s { s with filler := .race }
  | pushNull : s.filler = .pushNull →
      FillerMove p s { s with event_buffer := s.event_buffer ++ [none], filler := .flag }
  | flag : s.filler = .flag → FillerMove p s { s with event_buffer_filling := false, filler := .done }

theorem fillerStep_move (h : s.fillerStep p = some s') : FillerMove p s s' := by
  unfold fillerStep at h
  split at h
  · exact absurd h.symm (Option.some_ne_none s')
  cases hf : s.filler with
  | push event =>
      cases event with
      | none =>
          rw [hf] at h
          obtain rfl := Option.some.inj h
          exact .await (Or.inl hf)
      | some event =>
          simp only [hf] at h
          cases hseq : event.sequential with
          | true =>
              rw [hseq] at h
              obtain rfl := Option.some.inj h
              exact .drain hf hseq
          | false =>
              rw [hseq] at h
              obtain rfl := Option.some.inj h
              exact .push hf hseq
  | drain event =>
      simp only [hf] at h
      split at h
      · rename_i hgo
        obtain rfl := Option.some.inj h
        exact .enter hf (by simpa using hgo)
      · exact absurd h (Option.some_ne_none s').symm
  | barrier =>
      simp only [hf] at h
      split at h
      · rename_i hgo
        obtain rfl := Option.some.inj h
        exact .await (Or.inr (Or.inr ⟨hf, by simpa using hgo⟩))
      · exact absurd h (Option.some_ne_none s').symm
  | woken =>
      simp only [hf] at h
      split at h
      · rename_i hstop
        obtain rfl := Option.some.inj h
        exact .stopped hf hstop
      · obtain rfl := Option.some.inj h
        exact .await (Or.inr (Or.inl hf))
  | read =>
      simp only [hf] at h
      obtain rfl := Option.some.inj h
      unfold readEvent
      split
      · rename_i hsource
        exact .ended hf hsource
      · rename_i event later hsource
        simp only
        split
        · rename_i hkept
          exact .fault hf hsource hkept
        · rename_i kept skipTo hkept
          exact .read hf hsource hkept
  | behind event =>
      cases event with
      | none =>
          simp only [hf] at h
          obtain rfl := Option.some.inj h
          by_cases hmutex : s.event_buffer_mutex.isSome = true
          · rw [if_pos hmutex]
            exact .race hf (Option.isSome_iff_ne_none.mp hmutex)
          · rw [if_neg hmutex]
            exact .bare hf (by simpa using hmutex)
      | some event =>
          rw [hf] at h
          obtain rfl := Option.some.inj h
          exact .pushLast hf
  | pushNull =>
      rw [hf] at h
      obtain rfl := Option.some.inj h
      exact .pushNull hf
  | flag =>
      rw [hf] at h
      obtain rfl := Option.some.inj h
      exact .flag hf
  | room | done | race | fault =>
      rw [hf] at h
      exact absurd h (Option.some_ne_none s').symm

section Loops

variable [DecidableEq ι] {w : ι}

/-- The steps of the event loop `w`. Only the look inside the loop of `NextEvent` signals the condition. -/
inductive LoopMove (s : Threads ρ ι) (w : ι) : Threads ρ ι → Prop where
  | head : (s.loops w).pc = .head →
      LoopMove s w (s.setLoop w { s.loops w with pc := if (s.loops w).quit then .gone else .look })
  | lock : (s.loops w).pc = .look ∨ (s.loops w).pc = .again → s.event_buffer_mutex = none →
      LoopMove s w { s with event_buffer_mutex := some w, filler := s.filler.disturbed }
  | miss {pc : Loop} : (s.loops w).pc = .look ∧ pc = .missed ∨ (s.loops w).pc = .again ∧ pc = .noMore →
      s.event_buffer = [] → s.event_buffer_mutex = some w →
      LoopMove s w ({ s with event_buffer_mutex := none }.setLoop w { s.loops w with pc })
  | takeNull {pc : Loop} {later : List (Option (JEvent ρ))} {f : Filler ρ} :
      (s.loops w).pc = .look ∧ pc = .missed ∧ f = s.filler.signalled ∨
        (s.loops w).pc = .again ∧ pc = .noMore ∧ f = s.filler →
      s.event_buffer = none :: later → s.event_buffer_mutex = some w →
      LoopMove s w ({ s with filler := f, event_buffer := later, event_buffer_mutex := none }.setLoop w
        { s.loops w with pc })
  | take {event : JEvent ρ} {later : List (Option (JEvent ρ))} {f : Filler ρ} :
      (s.loops w).pc = .look ∧ f = s.filler.signalled ∨ (s.loops w).pc = .again ∧ f = s.filler →
      s.event_buffer = some event :: later → s.event_buffer_mutex = some w →
      LoopMove s w ({ s with
        filler := f, event_buffer := later, event_buffer_mutex := none, handedOut := s.handedOut ++ [event] }.setLoop w
        { s.loops w with pc := .process, event })
  | retry : (s.loops w).pc = .missed → (s.loops w).quit = false → s.event_buffer_filling = true →
      LoopMove s w (s.setLoop w { s.loops w with pc := .look })
  | leave : (s.loops w).pc = .missed → (s.loops w).quit = true ∨ s.event_buffer_filling = false →
      LoopMove s w (s.setLoop w { s.loops w with pc := .again })
  | process : (s.loops w).pc = .process → LoopMove s w (s.setLoop w { s.loops w with pc := .finished })
  | finished : (s.loops w).pc = .finished →
      LoopMove s w ({ s with
        sequential_event_complete := (s.loops w).event.sequential || s.sequential_event_complete }.setLoop w
        { s.loops w with pc := .head })
  | noMore : (s.loops w).pc = .noMore →
      LoopMove s w ({ s with
        sequential_event_complete := (s.loops w).event.sequential || s.sequential_event_complete }.setLoop w
        { s.loops w with pc := .gone, quit := true })

theorem withMutex_some {locked : Threads ρ ι} (h : s.withMutex w locked = some s') :
    s.event_buffer_mutex = none ∧ s' = { s with event_buffer_mutex := some w, filler := s.filler.disturbed } ∨
      s.event_buffer_mutex = some w ∧ s' = locked := by
  unfold withMutex at h
  cases hmutex : s.event_buffer_mutex with
  | none =>
      rw [hmutex] at h
      exact Or.inl ⟨rfl, (Option.some.inj h).symm⟩
  | some holder =>
      simp only [hmutex] at h
      split at h
      · rename_i hholder
        exact Or.inr ⟨congrArg some hholder, (Option.some.inj h).symm⟩
      · exact absurd h.symm (Option.some_ne_none s')

theorem takeEvent_nil (h : s.event_buffer = []) (pc : Loop) :
    s.takeEvent w pc = { s with event_buffer_mutex := none }.setLoop w { s.loops w with pc } := by
  unfold takeEvent
  split
  · rfl
  · rename_i hbuffer
    exact absurd (h.symm.trans hbuffer) (List.cons_ne_nil _ _).symm
  · rename_i hbuffer
    exact absurd (h.symm.trans hbuffer) (List.cons_ne_nil _ _).symm

theorem loopStep_move (h : s.loopStep w = some s') : LoopMove s w s' := by
  unfold loopStep at h
  simp only at h
  split at h
  · exact absurd h.symm (Option.some_ne_none s')
  cases hpc : (s.loops w).pc with
  | head =>
      simp only [hpc] at h
      obtain rfl := Option.some.inj h
      exact .head hpc
  | look =>
      simp only [hpc] at h
      rcases withMutex_some h with ⟨hfree, rfl⟩ | ⟨hmutex, rfl⟩
      · exact .lock (Or.inl hpc) hfree
      · rcases hbuffer : s.event_buffer with _ | ⟨_ | event, later⟩
        · rw [List.isEmpty_nil, if_pos rfl, takeEvent_nil hbuffer]
          exact .miss (Or.inl ⟨hpc, rfl⟩) hbuffer hmutex
        · simp only [List.isEmpty_cons, Bool.false_eq_true, if_false, takeEvent, signal, hbuffer]
          exact .takeNull (Or.inl ⟨hpc, rfl, rfl⟩) hbuffer hmutex
        · simp only [List.isEmpty_cons, Bool.false_eq_true, if_false, takeEvent, signal, hbuffer]
          exact .take (Or.inl ⟨hpc, rfl⟩) hbuffer hmutex
  | missed =>
      simp only [hpc] at h
      obtain rfl := Option.some.inj h
      by_cases hgo : ((s.loops w).quit || !s.event_buffer_filling) = true
      · rw [if_pos hgo]
        exact .leave hpc (by simpa using hgo)
      · rw [if_neg hgo]
        have hstay : (s.loops w).quit = false ∧ s.event_buffer_filling = true := by simpa using hgo
        exact .retry hpc hstay.1 hstay.2
  | again =>
      simp only [hpc] at h
      rcases withMutex_some h with ⟨hfree, rfl⟩ | ⟨hmutex, rfl⟩
      · exact .lock (Or.inr hpc) hfree
      · rcases hbuffer : s.event_buffer with _ | ⟨_ | event, later⟩
        · rw [takeEvent_nil hbuffer]
          exact .miss (Or.inr ⟨hpc, rfl⟩) hbuffer hmutex
        · simp only [takeEvent, hbuffer]
          exact .takeNull (Or.inr ⟨hpc, rfl, rfl⟩) hbuffer hmutex
        · simp only [takeEvent, hbuffer]
          exact .take (Or.inr ⟨hpc, rfl⟩) hbuffer hmutex
  | process =>
      simp only [hpc] at h
      obtain rfl := Option.some.inj h
      exact .process hpc
  | finished =>
      simp only [hpc] at h
      obtain rfl := Option.some.inj h
      exact .finished hpc
  | noMore =>
      simp only [hpc] at h
      obtain rfl := Option.some.inj h
      exact .noMore hpc
  | gone =>
      simp only [hpc] at h
      exact absurd h (Option.some_ne_none s').symm

end Loops

theorem await_stop (p : BufferParams) (s : Threads ρ ι) : (s.await p).stop_event_buffer = s.stop_event_buffer := by
  rcases await_cases p s with ⟨_, heq⟩ | ⟨_, _, heq⟩ | ⟨_, _, heq⟩ <;> rw [heq]

/-- No thread sets `stop_event_buffer`. -/
theorem FillerMove.stop_eq (h : FillerMove p s s') : s'.stop_event_buffer = s.stop_event_buffer := by
  cases h with
  | await | push => exact await_stop p _
  | drain | enter | stopped | ended | fault | read | pushLast | bare | race | pushNull | flag => rfl

theorem LoopMove.stop_eq [DecidableEq ι] {w : ι} (h : LoopMove s w s') :
    s'.stop_event_buffer = s.stop_event_buffer := by
  cases h <;> rfl

theorem wake_move [DecidableEq ι] (h : s.step p .wake = some s') :
    s.filler = .room ∧ s' = { s with filler := .woken } := by
  unfold step at h
  cases hf : s.filler with
  | room =>
      rw [hf] at h
      exact ⟨rfl, (Option.some.inj h).symm⟩
  | push | drain | barrier | woken | read | behind | pushNull | flag | done | race | fault =>
      rw [hf] at h
      exact absurd h (Option.some_ne_none s').symm

/-! ## No event is lost, doubled or overtaken -/

section Log

/-- The new log is the old one, or what is left of it once the event buffer thread is stopped. -/
def Keeps (p : BufferParams) (s s' : Threads ρ ι) : Prop :=
  s'.log p <+: s.log p ∧ (s.stop_event_buffer = false → s'.log p = s.log p)

theorem Keeps.of_eq (h : s'.log p = s.log p) : Keeps p s s' := ⟨h ▸ List.prefix_rfl, fun _ => h⟩

theorem log_await (h : s.handedOut ++ s.buffered ++ s.unread p = s'.log p)
    (hstop : s.stop_event_buffer = s'.stop_event_buffer) : Keeps p s' (s.await p) := by
  unfold Keeps
  rw [← h, ← hstop]
  rcases await_cases p s with ⟨_, heq⟩ | ⟨_, _, heq⟩ | ⟨_, hstopped, heq⟩
  · rw [heq]
    exact ⟨List.prefix_rfl, fun _ => rfl⟩
  · rw [heq]
    exact ⟨List.prefix_rfl, fun _ => rfl⟩
  · rw [heq, hstopped]
    refine ⟨?_, fun hgo => absurd hgo (by decide)⟩
    show s.handedOut ++ s.buffered ++ [] <+: _
    rw [List.append_nil]
    exact List.prefix_append _ _

theorem reduceOption_concat {α : Type} (l : List (Option α)) (x : Option α) :
    (l ++ [x]).reduceOption = l.reduceOption ++ x.toList := by
  rw [List.reduceOption_append]
  cases x <;> rfl

/-- **A step of the event buffer thread** keeps what is to be handed out, unless the thread is stopped. -/
theorem log_fillerMove (h : FillerMove p s s') : Keeps p s s' := by
  cases h with
  | await hf =>
      apply log_await
      · rcases hf with hf | hf | ⟨hf, _⟩ <;> simp [log, coming, hf]
      · rfl
  | @push event hf _ =>
      apply log_await
      · simp [log, coming, hf, buffered, unread, reduceOption_concat]
      · rfl
  | drain hf hseq => exact .of_eq (by simp [log, coming, hf, buffered, unread])
  | enter hf _ => exact .of_eq (by simp [log, coming, hf, buffered, unread, reduceOption_concat])
  | stopped hf hstop =>
      refine ⟨?_, fun hgo => absurd hstop (by simp [hgo])⟩
      simp [log, coming, hf, buffered]
  | ended hf hsource => exact .of_eq (by simp [log, coming, hf, buffered, unread, hsource, BufferParams.kept])
  | fault hf hsource hkept =>
      exact .of_eq (by simp [log, coming, hf, buffered, unread, hsource, BufferParams.kept, hkept])
  | read hf hsource hkept =>
      apply Keeps.of_eq
      simp only [log, coming, hf, unread, hsource, BufferParams.kept, hkept]
      split <;> simp [buffered]
  | pushLast hf => exact .of_eq (by simp [log, coming, hf, buffered, reduceOption_concat])
  | bare hf | race hf => exact .of_eq (by simp [log, coming, hf, buffered])
  | pushNull hf => exact .of_eq (by simp [log, coming, hf, buffered, reduceOption_concat])
  | flag hf => exact .of_eq (by simp [log, coming, hf, buffered])

/-- A signal does not change what comes. -/
theorem coming_signalled (s : Threads ρ ι) (b : List (Option (JEvent ρ))) (m : Option ι) (o : List (JEvent ρ)) :
    coming p { s with filler := s.filler.signalled, event_buffer := b, event_buffer_mutex := m, handedOut := o } =
      s.coming p := by
  unfold coming
  cases hf : s.filler <;> rfl

theorem coming_disturbed (s : Threads ρ ι) (m : Option ι) :
    coming p { s with event_buffer_mutex := m, filler := s.filler.disturbed } = s.coming p := by
  unfold coming
  cases hf : s.filler <;> rfl

variable [DecidableEq ι] {w : ι}

/-- **A step of an event loop** takes the first event of the buffer, or none. -/
theorem log_loopMove (h : LoopMove s w s') : s'.log p = s.log p := by
  cases h with
  | head | miss | retry | leave | process | finished | noMore => rfl
  | lock =>
      rw [log, coming_disturbed s (some w)]
      rfl
  | @takeNull pc later f hpc hbuffer =>
      have hcoming : coming p { s with filler := f, event_buffer := later, event_buffer_mutex := none } = s.coming p := by
        rcases hpc with ⟨_, _, rfl⟩ | ⟨_, _, rfl⟩
        · exact coming_signalled s later none s.handedOut
        · rfl
      have hlog : log p ({ s with filler := f, event_buffer := later, event_buffer_mutex := none }.setLoop w
          { s.loops w with pc }) = s.handedOut ++ later.reduceOption ++
            coming p { s with filler := f, event_buffer := later, event_buffer_mutex := none } := rfl
      rw [hlog, hcoming, log, buffered, hbuffer]
      rfl
  | @take event later f hpc hbuffer =>
      have hcoming : coming p { s with
          filler := f, event_buffer := later, event_buffer_mutex := none, handedOut := s.handedOut ++ [event] } =
            s.coming p := by
        rcases hpc with ⟨_, rfl⟩ | ⟨_, rfl⟩
        · exact coming_signalled s later none _
        · rfl
      have hlog : log p ({ s with
          filler := f, event_buffer := later, event_buffer_mutex := none, handedOut := s.handedOut ++ [event] }.setLoop w
          { s.loops w with pc := .process, event }) = s.handedOut ++ [event] ++ later.reduceOption ++
            coming p { s with
              filler := f, event_buffer := later, event_buffer_mutex := none, handedOut := s.handedOut ++ [event] } := rfl
      rw [hlog, hcoming, log, buffered, hbuffer, List.append_assoc s.handedOut]
      rfl

/-- What was there at the start is kept along a run. -/
structure Logged (p : BufferParams) (events : List (JEvent ρ)) (skipTo : Nat) (s : Threads ρ ι) : Prop where
  isPrefix : s.log p <+: p.kept 0 skipTo events
  eq : s.stop_event_buffer = false → s.log p = p.kept 0 skipTo events

theorem Logged.step {events : List (JEvent ρ)} {skipTo : Nat} (hs : Logged p events skipTo s) {a : Actor ι}
    (h : s.step p a = some s') : Logged p events skipTo s' := by
  cases a with
  | filler =>
      have hmove := fillerStep_move h
      have hkeeps := log_fillerMove hmove
      refine ⟨hkeeps.1.trans hs.isPrefix, ?_⟩
      intro hgo
      rw [hmove.stop_eq] at hgo
      exact (hkeeps.2 hgo).trans (hs.eq hgo)
  | loop w =>
      have hmove := loopStep_move h
      have hlog := log_loopMove (p := p) hmove
      exact ⟨hlog ▸ hs.isPrefix, fun hgo => hlog.trans (hs.eq (hmove.stop_eq ▸ hgo))⟩
  | wake =>
      obtain ⟨hroom, rfl⟩ := wake_move h
      have hlog : log p { s with filler := .woken } = s.log p := by simp [log, coming, hroom, unread, buffered]
      exact ⟨hlog ▸ hs.isPrefix, fun hgo => hlog.trans (hs.eq hgo)⟩
  | stop =>
      obtain rfl := Option.some.inj h
      exact ⟨hs.isPrefix, fun hgo => absurd (show true = false from hgo) (by decide)⟩
  | quit w =>
      obtain rfl := Option.some.inj h
      exact ⟨hs.isPrefix, hs.eq⟩

theorem logged_run {events : List (JEvent ρ)} {skipTo : Nat} {as : List (Actor ι)}
    (hrun : (start events skipTo).run p as = some s) : Logged p events skipTo s :=
  Progress.invariant (fun _ _ _ _ (hs : Logged p events skipTo _) h => hs.step h)
    ⟨List.prefix_rfl, fun _ => rfl⟩ hrun

/-- **Every event is handed out at most once, in the order of the source**, and while nothing is stopped none is lost:
those that were not handed out yet are in the buffer or still to come. -/
theorem handedOut_inOrder (p : BufferParams) (events : List (JEvent ρ)) (skipTo : Nat) (as : List (Actor ι))
    {s : Threads ρ ι} (hrun : (start events skipTo).run p as = some s) :
    s.handedOut <+: p.kept 0 skipTo events ∧
      (s.stop_event_buffer = false → s.handedOut ++ s.buffered ++ s.coming p = p.kept 0 skipTo events) := by
  have hlogged := logged_run hrun
  refine ⟨?_, hlogged.eq⟩
  have hfirst : s.handedOut <+: s.log p := by
    rw [log, List.append_assoc]
    exact List.prefix_append _ _
  exact hfirst.trans hlogged.isPrefix

/-- One slot, and the first event is skipped. -/
def oneSlot : BufferParams where
  EVENTS_TO_SKIP := 1
  MAX_EVENTS_IN_BUFFER := 1

/-- The last event is sequential. -/
def threeEvents : List (JEvent Unit) :=
  [{ eventNumber := 1 }, { eventNumber := 2 }, { eventNumber := 3, sequential := true }]

/-- Both event loops get an event, and the first of them does not come to its end. -/
def upToBarrier : List (Actor Bool) :=
  [.filler, .filler, .filler, .filler, .filler, .loop false, .loop false, .loop false, .filler, .filler, .filler,
    .filler, .loop true, .loop true, .loop true]

theorem handedOut_inOrder_oneSlot :
    ∃ s : Threads Unit Bool, (start threeEvents 0).run oneSlot upToBarrier = some s ∧ s.handedOut.length = 2 ∧
      s.handedOut <+: oneSlot.kept 0 0 threeEvents :=
  ⟨_, rfl, rfl, (handedOut_inOrder oneSlot threeEvents 0 upToBarrier rfl).1⟩

-- An event loop looks into the buffer while `NULL` is pushed: it has the mutex before, or it takes it meanwhile.
example : ((start [] 0 : Threads Unit Bool).run {} [.filler, .filler, .loop true, .loop true, .filler]).map filler =
    some .race := by
  decide

example : ((start [] 0 : Threads Unit Bool).run {} [.filler, .filler, .filler, .loop true, .loop true]).map filler =
    some .race := by
  decide

end Log

end Threads

end BdxReco
