import BdxReco.TT.Index

/-!
# `DAQ.Event` — the events

What the modelled code uses of the JANA framework, the error codes and the event object that an event source fills in, and
what the sources put into an event: its header and the hits of the digitisers. Samples are `double`s, so they are rational
numbers.
-/

namespace BdxReco

/-! ## The framework -/

/-- The error codes of the framework that the modelled code returns. -/
inductive JError where
  | noError
  | valueOutOfRange
  | objectNotAvailable
  | noMoreEventsInSource
  | eventSourceNotOpen
  | resourceUnavailable
  deriving DecidableEq, Repr

/-- The fields of a `JEvent` that the event sources set. `ρ` is what `SetRef` points to. -/
structure JEvent (ρ : Type) where
  ref : Option ρ := none
  hasSource : Bool := false
  eventNumber : Nat := 0
  eventTS : Nat := 0
  runNumber : Int := 0
  sequential : Bool := false
  deriving DecidableEq, Repr

/-! ## The header -/

/-- `eventSource`. -/
inductive EventSource where
  | daq
  | epics
  | conf
  deriving DecidableEq, Repr

/-- `eventData`, with the values of its constructor; `eventType` is `none` for 0. -/
structure EventData where
  eventN : Nat := 0
  eventTS : Nat := 0
  runN : UInt32 := 0
  time : Nat := 0
  triggerWords : List UInt32 := []
  eventType : Option EventSource := none
  deriving DecidableEq, Repr

/-! ## The hits of the digitisers -/

/-- `fa250Hit`. -/
structure Fa250Hit where
  channel : Csc
  trigger : Int := 0
  timestamp : Nat := 0
  deriving DecidableEq, Repr

/-- `fa250Mode1Hit` and `fa250WaveboardV1Hit`. -/
structure Fa250Mode1Hit extends Fa250Hit where
  samples : List ℚ := []
  deriving DecidableEq, Repr

/-- `fa250Mode1CalibPedSubHit`. -/
structure Fa250Mode1CalibPedSubHit extends Fa250Mode1Hit where
  dT : ℚ
  ped : ℚ
  RMS : ℚ
  deriving DecidableEq, Repr

end BdxReco
