import BdxReco.System.Factories

/-!
# `Converters.Factories` — the life cycle of the waveform converters

Each detector has a factory that publishes one converter, the object that turns waveforms into hits. The converter
is created in `init` or in `brun`, put into `_data` in `brun` and found there by the hit factories, whose
`GetSingle` asks for exactly one object. JANA leaves `_data` of these factories alone.

The four factories combine a first-call flag, creation in `brun` and clearing in `erun` in four different ways.
`publishesOne_iff` says for which of them this works run after run.
-/

namespace BdxReco

open Run

/-! ## The converters -/

/-- `IntVetofa250Converter`; `none` is a member that has not been set yet. -/
structure IntVetofa250Converter where
  thrCalib : Option Member := none
  minTot : Option ℚ := none
  thr : Option ℚ := none
  NSB : Option Int := none
  NSA : Option Int := none
  NPED : Option Int := none
  RMSTHRscale : Option ℚ := none
  TOTTHR : Option ℚ := none

/-- `ExtVetofa250Converter` and `Paddlesfa250Converter`, as far as their factories fill them in. -/
structure ThresholdConverter where
  threshold : Option Member := none
  pedestals : Option Member := none

/-- `Calorimeterfa250Converter`. -/
structure Calorimeterfa250Converter where
  NSB : Int
  NSA : Int
  NPED : Int
  NSAMPLES : Int
  thrDB : Option Member

/-- The members the factories have in common. `objects` are the converters created so far, and a pointer to a
    converter is its place there. -/
structure ConverterFactory (κ : Type) where
  isFirstCallToBrun : Bool := true
  converter : Option Nat := none
  data : List Nat := []
  persistent : Bool := false
  objects : List κ := []

namespace ConverterFactory

variable {κ : Type}

/-- `_data.push_back(p)`. -/
def publish (s : ConverterFactory κ) (p : Nat) : ConverterFactory κ := { s with data := s.data ++ [p] }

/-- What a converter in `_data` points to, for every pointer there. -/
def published (handlers : κ → List Member) (s : ConverterFactory κ) : List (List Member) :=
  s.data.map (fun p => (s.objects[p]?.map handlers).getD [])

end ConverterFactory

/-! ## The factories -/

/-- What JANA calls. `brun` and `erun` also give the handlers they update or clear; `none` is an access through a
    null pointer. `published` are the handlers of the converters in `_data`. -/
structure LifeCycle where
  State : Type
  init : State
  brun : State → Option (State × List Member)
  erun : State → Option (State × List Member)
  published : State → List (List Member)

namespace IntVetofa250ConverterFactory

/-- The parameters, with the values the constructor sets. -/
structure Parms where
  minTot : ℚ := 12
  thr : ℚ := 3 / 2
  NSB : Int := 20
  NSA : Int := 30
  NPED : Int := 10
  RMSTHRscale : ℚ := 5
  TOTTHR : ℚ := 100

def init : ConverterFactory IntVetofa250Converter :=
  { objects := [{ thrCalib := some .intVetoConverterThrCalib }], converter := some 0 }

/-- `brun`. `RMSTHRscale` is not handed on. -/
def brun (q : Parms) (s : ConverterFactory IntVetofa250Converter) :
    Option (ConverterFactory IntVetofa250Converter × List Member) := do
  let p ← s.converter
  let c ← s.objects[p]?
  let thrCalib ← c.thrCalib
  let c := { c with
    minTot := some q.minTot, thr := some q.thr, NSB := some q.NSB, NSA := some q.NSA, NPED := some q.NPED
    TOTTHR := some q.TOTTHR }
  let s := { s with objects := s.objects.set p c }
  let s := if s.isFirstCallToBrun then { s.publish p with isFirstCallToBrun := false } else s
  some ({ s with persistent := true }, [thrCalib])

def erun (s : ConverterFactory IntVetofa250Converter) :
    Option (ConverterFactory IntVetofa250Converter × List Member) := do
  let p ← s.converter
  let c ← s.objects[p]?
  let thrCalib ← c.thrCalib
  some ({ s with data := [] }, [thrCalib])

def lifeCycle (q : Parms) : LifeCycle where
  State := ConverterFactory IntVetofa250Converter
  init := init
  brun := brun q
  erun := erun
  published := ConverterFactory.published (fun c => c.thrCalib.toList)

end IntVetofa250ConverterFactory

namespace ThresholdConverter

/-- The handlers of a converter, in the order in which `brun` updates them; `none` if a pointer is null. -/
def handlers (c : ThresholdConverter) : Option (List Member) := do
  let threshold ← c.threshold
  let pedestals ← c.pedestals
  some [threshold, pedestals]

end ThresholdConverter

namespace ExtVetofa250ConverterFactory

def init : ConverterFactory ThresholdConverter :=
  { objects := [⟨some .extVetoConverterThreshold, some .extVetoConverterPedestals⟩], converter := some 0 }

def brun (s : ConverterFactory ThresholdConverter) : Option (ConverterFactory ThresholdConverter × List Member) := do
  let p ← s.converter
  let s :=
    if s.isFirstCallToBrun then { s.publish p with isFirstCallToBrun := false, persistent := true } else s
  let c ← s.objects[p]?
  let handlers ← c.handlers
  some (s, handlers)

def erun (s : ConverterFactory ThresholdConverter) : Option (ConverterFactory ThresholdConverter × List Member) := do
  let p ← s.converter
  let c ← s.objects[p]?
  let handlers ← c.handlers
  some (s, handlers)

def lifeCycle : LifeCycle where
  State := ConverterFactory ThresholdConverter
  init := init
  brun := brun
  erun := erun
  published := ConverterFactory.published (fun c => c.handlers.getD [])

end ExtVetofa250ConverterFactory

namespace Paddlesfa250ConverterFactory

def init : ConverterFactory ThresholdConverter :=
  { isFirstCallToBrun := true
    objects := [⟨some .paddlesConverterThreshold, some .paddlesConverterPedestals⟩], converter := some 0 }

/-- As for the outer veto, but the handlers are updated first. -/
def brun (s : ConverterFactory ThresholdConverter) : Option (ConverterFactory ThresholdConverter × List Member) := do
  let p ← s.converter
  let c ← s.objects[p]?
  let handlers ← c.handlers
  let s :=
    if s.isFirstCallToBrun then { s.publish p with isFirstCallToBrun := false, persistent := true } else s
  some (s, handlers)

def erun : ConverterFactory ThresholdConverter → Option (ConverterFactory ThresholdConverter × List Member) :=
  ExtVetofa250ConverterFactory.erun

def lifeCycle : LifeCycle where
  State := ConverterFactory ThresholdConverter
  init := init
  brun := brun
  erun := erun
  published := ConverterFactory.published (fun c => c.handlers.getD [])

end Paddlesfa250ConverterFactory

namespace Calorimeterfa250ConverterFactory

/-- The parameters: the constructor sets two of them, the others come from the configuration. -/
structure Parms where
  NSB : Int
  NSA : Int
  NPED : Int := 20
  NSAMPLES : Int := 2000

/-- The factory holds the handler itself. -/
structure State extends ConverterFactory Calorimeterfa250Converter where
  thr : Option Member := none

def init : State := { thr := some .calorimeterConverterThr }

/-- `brun` makes a new converter every time. -/
def brun (q : Parms) (s : State) : Option (State × List Member) := do
  let thr ← s.thr
  let p := s.objects.length
  let c : Calorimeterfa250Converter := ⟨q.NSB, q.NSA, q.NPED, q.NSAMPLES, s.thr⟩
  let f : ConverterFactory Calorimeterfa250Converter :=
    { s.toConverterFactory with objects := s.objects ++ [c], converter := some p }
  some ({ s with toConverterFactory := { f.publish p with persistent := true } }, [thr])

def erun (s : State) : Option (State × List Member) := some ({ s with data := [] }, [])

def lifeCycle (q : Parms) : LifeCycle where
  State := State
  init := init
  brun := brun q
  erun := erun
  published := fun s => ConverterFactory.published (fun c => c.thrDB.toList) s.toConverterFactory

end Calorimeterfa250ConverterFactory

/-! ## Run after run -/

namespace LifeCycle

/-- One run: `brun`, the events, `erun`. -/
def run (f : LifeCycle) (s : f.State) : Option f.State := do
  let (s, _) ← f.brun s
  let (s, _) ← f.erun s
  some s

/-- The state after `init` and `n` whole runs. -/
def afterRuns (f : LifeCycle) : Nat → Option f.State
  | 0 => some f.init
  | n + 1 => (f.afterRuns n).bind f.run

/-- **After `n` whole runs the next `brun` publishes one converter**, the one whose handlers it has updated. -/
def PublishesOne (f : LifeCycle) (n : Nat) : Prop :=
  ∃ s s' updated, f.afterRuns n = some s ∧ f.brun s = some (s', updated) ∧ f.published s' = [updated]

/-- A state that a run leaves as it is, reached after the first run, is there for good. -/
theorem afterRuns_eq {f : LifeCycle} {s : f.State} (hfirst : f.run f.init = some s) (hrun : f.run s = some s)
    (n : Nat) : f.afterRuns (n + 1) = some s := by
  induction n with
  | zero => exact hfirst
  | succ n ih =>
      show (f.afterRuns (n + 1)).bind f.run = some s
      rw [ih]
      exact hrun

end LifeCycle

/-- The factories, with the parameters they are configured with. -/
inductive ConverterKind where
  | intVeto (q : IntVetofa250ConverterFactory.Parms)
  | extVeto
  | paddles
  | calorimeter (q : Calorimeterfa250ConverterFactory.Parms)

namespace ConverterKind

def lifeCycle : ConverterKind → LifeCycle
  | intVeto q => IntVetofa250ConverterFactory.lifeCycle q
  | extVeto => ExtVetofa250ConverterFactory.lifeCycle
  | paddles => Paddlesfa250ConverterFactory.lifeCycle
  | calorimeter q => Calorimeterfa250ConverterFactory.lifeCycle q

/-- The same factory among those of `System.Factories`. -/
def factory : ConverterKind → Factory
  | intVeto _ => .intVetofa250Converter
  | extVeto => .extVetofa250Converter
  | paddles => .paddlesfa250Converter
  | calorimeter _ => .calorimeterfa250Converter

def isIntVeto : ConverterKind → Bool
  | intVeto _ => true
  | _ => false

end ConverterKind

/-! ## The four life cycles -/

/-- The inner veto between two runs: `_data` is empty, and the flag is down. -/
def IntVetofa250ConverterFactory.between (q : Parms) : ConverterFactory IntVetofa250Converter where
  isFirstCallToBrun := false
  converter := some 0
  data := []
  persistent := true
  objects := [{
    thrCalib := some .intVetoConverterThrCalib, minTot := some q.minTot, thr := some q.thr, NSB := some q.NSB
    NSA := some q.NSA, NPED := some q.NPED, TOTTHR := some q.TOTTHR }]

/-- The outer veto and the paddles between two runs: the converter stays in `_data`. -/
def ThresholdConverter.between (threshold pedestals : Member) : ConverterFactory ThresholdConverter where
  isFirstCallToBrun := false
  converter := some 0
  data := [0]
  persistent := true
  objects := [⟨some threshold, some pedestals⟩]

namespace Calorimeterfa250ConverterFactory

/-- `brun` puts a new converter behind what is in `_data`. -/
theorem brun_eq (q : Parms) {s : State} {m : Member} (hthr : s.thr = some m) :
    ∃ s', brun q s = some (s', [m]) ∧ s'.thr = s.thr ∧ s'.data = s.data ++ [s.objects.length] ∧
      s'.objects = s.objects ++ [⟨q.NSB, q.NSA, q.NPED, q.NSAMPLES, s.thr⟩] := by
  unfold brun
  simp only [hthr, Option.bind_eq_bind, Option.bind_some]
  exact ⟨_, rfl, rfl, rfl, rfl⟩

/-- Between two runs `_data` is empty, whatever converters there have been. -/
theorem afterRuns_eq_some (q : Parms) (n : Nat) :
    ∃ s : State, (lifeCycle q).afterRuns n = some s ∧ s.data = [] ∧ s.thr = some .calorimeterConverterThr := by
  induction n with
  | zero => exact ⟨_, rfl, rfl, rfl⟩
  | succ n ih =>
      obtain ⟨s, hs, _, hthr⟩ := ih
      obtain ⟨s', hbrun, hthr', _⟩ := brun_eq q hthr
      refine ⟨{ s' with data := [] }, ?_, rfl, by rw [← hthr, ← hthr']⟩
      show ((lifeCycle q).afterRuns n).bind (lifeCycle q).run = _
      rw [hs]
      show (brun q s).bind _ = _
      rw [hbrun]
      rfl

end Calorimeterfa250ConverterFactory

/-- **What a `brun` finds and leaves after `n` whole runs**: it updates the handlers of its factory, and publishes
    their converter, except for the inner veto after the first run. -/
theorem brun_afterRuns (k : ConverterKind) (n : Nat) :
    ∃ s s', k.lifeCycle.afterRuns n = some s ∧ k.lifeCycle.brun s = some (s', k.factory.updates) ∧
      k.lifeCycle.published s' = if k.isIntVeto = true ∧ n ≠ 0 then [] else [k.factory.updates] := by
  cases k with
  | intVeto q =>
      cases n with
      | zero => exact ⟨_, _, rfl, rfl, rfl⟩
      | succ n =>
          exact ⟨_, _, LifeCycle.afterRuns_eq (f := IntVetofa250ConverterFactory.lifeCycle q)
            (s := IntVetofa250ConverterFactory.between q) rfl rfl n, rfl, rfl⟩
  | extVeto =>
      cases n with
      | zero => exact ⟨_, _, rfl, rfl, rfl⟩
      | succ n =>
          exact ⟨_, _, LifeCycle.afterRuns_eq (f := ExtVetofa250ConverterFactory.lifeCycle)
            (s := ThresholdConverter.between .extVetoConverterThreshold .extVetoConverterPedestals) rfl rfl n,
            rfl, rfl⟩
  | paddles =>
      cases n with
      | zero => exact ⟨_, _, rfl, rfl, rfl⟩
      | succ n =>
          exact ⟨_, _, LifeCycle.afterRuns_eq (f := Paddlesfa250ConverterFactory.lifeCycle)
            (s := ThresholdConverter.between .paddlesConverterThreshold .paddlesConverterPedestals) rfl rfl n,
            rfl, rfl⟩
  | calorimeter q =>
      obtain ⟨s, hs, hdata, hthr⟩ := Calorimeterfa250ConverterFactory.afterRuns_eq_some q n
      obtain ⟨s', hbrun, _, hdata', hobjects⟩ := Calorimeterfa250ConverterFactory.brun_eq q hthr
      refine ⟨s, s', hs, hbrun, ?_⟩
      show ConverterFactory.published _ s'.toConverterFactory = _
      simp [ConverterFactory.published, ConverterKind.isIntVeto, hdata', hdata, hobjects, hthr,
        ConverterKind.factory, Factory.updates]

theorem lifeCycle_publishesOne (k : ConverterKind) (n : Nat) :
    k.lifeCycle.PublishesOne n ↔ (k.isIntVeto = true → n = 0) := by
  obtain ⟨s, s', hs, hbrun, hpublished⟩ := brun_afterRuns k n
  constructor
  · rintro ⟨t, t', updated, ht, hbrun', hone⟩ hk
    rw [hs] at ht
    rw [← Option.some.inj ht, hbrun] at hbrun'
    have hst : s' = t' := congrArg Prod.fst (Option.some.inj hbrun')
    by_contra hn
    rw [← hst, hpublished, if_pos ⟨hk, hn⟩] at hone
    simp at hone
  · intro h
    refine ⟨s, s', _, hs, hbrun, ?_⟩
    rw [hpublished, if_neg]
    rintro ⟨hk, hn⟩
    exact hn (h hk)

/-- **Which converter factories publish one converter in every run**: all but that of the inner veto, which does so
    in the first run only. -/
theorem publishesOne_iff (k : ConverterKind) (runs : List Int) :
    AtEvery (fun pre _ => k.lifeCycle.PublishesOne pre.length) runs ↔ (k.isIntVeto = true → runs.length ≤ 1) := by
  simp only [lifeCycle_publishesOne]
  constructor
  · intro h hk
    by_contra hlen
    match runs, hlen with
    | r :: r' :: rest, _ =>
        have hsecond := h [r] r' rest rfl hk
        simp at hsecond
    | [r], hlen => simp at hlen
    | [], hlen => simp at hlen
  · intro h pre r suf hsplit hk
    have hlen := h hk
    rw [hsplit, List.length_append, List.length_cons] at hlen
    omega

/-- In its second run the inner veto factory publishes nothing. -/
theorem intVeto_secondRun :
    ¬ AtEvery (fun pre _ => (ConverterKind.intVeto {}).lifeCycle.PublishesOne pre.length) [1, 2] := by
  intro h
  have hsecond := (lifeCycle_publishesOne (.intVeto {}) 1).mp (h [1] 2 [] rfl) rfl
  omega

end BdxReco
