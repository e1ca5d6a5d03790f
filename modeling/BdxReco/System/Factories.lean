import BdxReco.Lib.Lifecycle
import BdxReco.System.RegistryLatch

/-!
# `System.Factories` — the calibrated factories of one event loop, run after run

Every factory creates its handlers and maps them in `init`, updates them in `brun` and clears them in `erun`.
Which of them an `erun` clears differs from factory to factory, and tables are shared between factories, so
whether a factory works with the constants of its run is a property of the whole schedule. Events only read the
handlers and are not steps here.

`constantsOfRun_iff` decides it: a table must be cleared between any two `brun`s that ask for it at runs with
different constants. Four tables have an `erun` that forgets them (`fa250Mode1CalibPedSubHit` its parameters,
the two `IntVetoSiPMHit` their amplitudes, `epicsData` and `Calorimeterfa250Converter` all they have).
-/

namespace BdxReco

open Run

/-! ## The factories -/

/-- The calibration handlers that the factories (or the converters they build) own. -/
inductive Member where
  | pedSubHitPedestals
  | pedSubHitParms
  | epicsDTs
  | extVetoConverterThreshold
  | extVetoConverterPedestals
  | paddlesConverterThreshold
  | paddlesConverterPedestals
  | intVetoConverterThrCalib
  | calorimeterConverterThr
  | extVetoPMTGain
  | extVetoENEGain
  | paddlesPMTGain
  | paddlesENEGain
  | intVetoSipmGain
  | intVetoSipmAmpl
  | intVetoSipmGainBDXmini
  | intVetoSipmAmplBDXmini
  | calorimeterEne
  | calorimeterSipmGain
  deriving DecidableEq

/-- The `new` expressions of the `init` methods. -/
def Member.new : Member → Handler
  | .pedSubHitPedestals => Handler.new .daq "/DAQ/pedestals"
  | .pedSubHitParms => Handler.new .daq "DAQ/parms"
  | .epicsDTs => Handler.new .run "/DAQ/epics_dT"
  | .extVetoConverterThreshold => Handler.new .extVeto "/ExtVeto/Threshold"
  | .extVetoConverterPedestals => Handler.new .daq "/DAQ/pedestals"
  | .paddlesConverterThreshold => Handler.new .paddles "/Paddles/Threshold"
  | .paddlesConverterPedestals => Handler.new .daq "/DAQ/pedestals"
  | .intVetoConverterThrCalib => Handler.new .intVeto "/InnerVeto/sipm_ampl"
  | .calorimeterConverterThr => Handler.new .calo "/Calorimeter/thr"
  | .extVetoPMTGain => Handler.new .extVeto "/ExtVeto/PMT_gain"
  | .extVetoENEGain => Handler.new .extVeto "/ExtVeto/Ene"
  | .paddlesPMTGain => Handler.new .paddles "/Paddles/PMT_gain"
  | .paddlesENEGain => Handler.new .paddles "Paddles/Ene"
  | .intVetoSipmGain => Handler.new .intVeto "/InnerVeto/sipm_gain"
  | .intVetoSipmAmpl => Handler.new .intVeto "/InnerVeto/sipm_ampl"
  | .intVetoSipmGainBDXmini => Handler.new .intVeto "/InnerVeto/sipm_gain"
  | .intVetoSipmAmplBDXmini => Handler.new .intVeto "/InnerVeto/sipm_ampl"
  | .calorimeterEne => Handler.new .calo "/Calorimeter/Ene"
  | .calorimeterSipmGain => Handler.new .calo "/Calorimeter/sipm_gain"

def Member.table (m : Member) : String := m.new.getTable

@[simp] theorem Member.new_getTable (m : Member) : m.new.getTable = m.table := rfl

/-- The factories that own calibration handlers. -/
inductive Factory where
  | fa250Mode1CalibPedSubHit
  | epicsData
  | extVetofa250Converter
  | paddlesfa250Converter
  | intVetofa250Converter
  | calorimeterfa250Converter
  | extVetoPMTHit
  | extVetoHit
  | paddlesPMTHit
  | paddlesHit
  | intVetoSiPMHit
  | intVetoSiPMHitBDXmini
  | calorimeterHit
  | calorimeterSiPMHit
  deriving DecidableEq

namespace Factory

/-- The handlers `init` maps, in the order of the calls. -/
def init : Factory → List Member
  | .fa250Mode1CalibPedSubHit => [.pedSubHitPedestals, .pedSubHitParms]
  | .epicsData => [.epicsDTs]
  | .extVetofa250Converter => [.extVetoConverterThreshold, .extVetoConverterPedestals]
  | .paddlesfa250Converter => [.paddlesConverterThreshold, .paddlesConverterPedestals]
  | .intVetofa250Converter => [.intVetoConverterThrCalib]
  | .calorimeterfa250Converter => [.calorimeterConverterThr]
  | .extVetoPMTHit => [.extVetoPMTGain]
  | .extVetoHit => [.extVetoENEGain]
  | .paddlesPMTHit => [.paddlesPMTGain]
  | .paddlesHit => [.paddlesENEGain]
  | .intVetoSiPMHit => [.intVetoSipmGain, .intVetoSipmAmpl]
  | .intVetoSiPMHitBDXmini => [.intVetoSipmGainBDXmini, .intVetoSipmAmplBDXmini]
  | .calorimeterHit => [.calorimeterEne]
  | .calorimeterSiPMHit => [.calorimeterSipmGain]

/-- `brun` gets the translation table and a converter first, and leaves if one is missing. -/
def getsSingles : Factory → Bool
  | .extVetoPMTHit | .paddlesPMTHit | .intVetoSiPMHit | .intVetoSiPMHitBDXmini | .calorimeterSiPMHit => true
  | _ => false

/-- The handlers `brun` updates once it has what it needs. -/
def updates : Factory → List Member
  | .fa250Mode1CalibPedSubHit => [.pedSubHitPedestals, .pedSubHitParms]
  | .epicsData => [.epicsDTs]
  | .extVetofa250Converter => [.extVetoConverterThreshold, .extVetoConverterPedestals]
  | .paddlesfa250Converter => [.paddlesConverterThreshold, .paddlesConverterPedestals]
  | .intVetofa250Converter => [.intVetoConverterThrCalib]
  | .calorimeterfa250Converter => [.calorimeterConverterThr]
  | .extVetoPMTHit => [.extVetoPMTGain]
  | .extVetoHit => [.extVetoENEGain]
  | .paddlesPMTHit => [.paddlesPMTGain]
  | .paddlesHit => [.paddlesENEGain]
  | .intVetoSiPMHit => [.intVetoSipmGain, .intVetoSipmAmpl]
  | .intVetoSiPMHitBDXmini => [.intVetoSipmGainBDXmini, .intVetoSipmAmplBDXmini]
  | .calorimeterHit => [.calorimeterEne]
  | .calorimeterSiPMHit => [.calorimeterSipmGain]

/-- `brun`: the handlers it updates and what it returns. `tt` and `converter` say whether `GetSingle` found the
    translation table and the converter. -/
def brun (f : Factory) (tt converter : Bool) : List Member × JError :=
  if f.getsSingles && !tt then ([], .objectNotAvailable)
  else if f.getsSingles && !converter then ([], .objectNotAvailable)
  else (f.updates, .noError)

/-- The handlers `erun` clears. -/
def erun : Factory → List Member
  | .fa250Mode1CalibPedSubHit => [.pedSubHitPedestals]
  | .epicsData => []
  | .extVetofa250Converter => [.extVetoConverterThreshold, .extVetoConverterPedestals]
  | .paddlesfa250Converter => [.paddlesConverterThreshold, .paddlesConverterPedestals]
  | .intVetofa250Converter => [.intVetoConverterThrCalib]
  | .calorimeterfa250Converter => []
  | .extVetoPMTHit => [.extVetoPMTGain]
  | .extVetoHit => [.extVetoENEGain]
  | .paddlesPMTHit => [.paddlesPMTGain]
  | .paddlesHit => [.paddlesENEGain]
  | .intVetoSiPMHit => [.intVetoSipmGain]
  | .intVetoSiPMHitBDXmini => [.intVetoSipmGainBDXmini]
  | .calorimeterHit => [.calorimeterEne]
  | .calorimeterSiPMHit => [.calorimeterSipmGain]

/-- The factory maps a handler of table `name`. -/
def maps (f : Factory) (name : String) : Prop := ∃ m ∈ f.init, m.table = name

/-- The `erun` of the factory clears table `name`. -/
def clears (f : Factory) (name : String) : Prop := ∃ m ∈ f.erun, m.table = name

theorem updates_eq_init (f : Factory) : f.updates = f.init := by
  cases f <;> rfl

theorem erun_subset_init (f : Factory) : ∀ m ∈ f.erun, m ∈ f.init := by
  cases f <;> decide

@[simp] theorem brun_available (f : Factory) : f.brun true true = (f.updates, .noError) := by
  simp [brun]

end Factory

/-! ## Schedules -/

/-- A call JANA makes on a factory of the event loop. -/
inductive FactoryCall where
  | init (f : Factory)
  | brun (f : Factory) (runnumber : Int) (tt converter : Bool)
  | erun (f : Factory)

/-- The database: the table `GetCalib` returns for a table name at a run. -/
abbrev Database : Type := String → Int → Table

namespace FactoryCall

/-- The calls on the registry a factory makes. -/
def registryCalls (db : Database) : FactoryCall → List (RegistryCall Member)
  | .init f => f.init.map .addCalibration
  | .brun f runnumber tt converter =>
      (f.brun tt converter).1.map (fun m => .updateCalibration m (db m.table runnumber))
  | .erun f => f.erun.map .clearCalibration

/-- Which move of the factory `f` a call is. -/
def move (f : Factory) : FactoryCall → Option Lifecycle.Move
  | .init g => if g = f then some .setUp else none
  | .brun g _ _ _ => if g = f then some .enter else none
  | .erun g => if g = f then some .leave else none

end FactoryCall

/-- **What JANA is assumed to do**: `init` once, then `brun` and `erun` in turn, for every factory by itself;
    and `GetSingle` finds the translation table and the converters. `Jana.Constants` shows it of the calls of an event
    loop. -/
structure JanaSchedule (sched : List FactoryCall) : Prop where
  order : ∀ f, Lifecycle.Follows (FactoryCall.move f) sched
  available : ∀ f r tt converter, .brun f r tt converter ∈ sched → tt = true ∧ converter = true

/-- The registry after the schedule. -/
def afterSchedule (db : Database) (sched : List FactoryCall) : Processor Member :=
  Processor.afterCalls Member.new (sched.flatMap (FactoryCall.registryCalls db))

/-- After every `brun` for run `r`, every handler of the factory holds the table of run `r`. -/
def ConstantsOfRun (db : Database) (sched : List FactoryCall) : Prop :=
  AtEvery (fun pre c => ∀ f r tt converter, c = .brun f r tt converter → ∀ m ∈ f.init,
    ((afterSchedule db (pre ++ [c])).handlers m).getRawCalibData = db m.table r) sched

/-- Two `brun`s of factories that map a table, with no `erun` that clears it between them, are for runs with the
    same constants. -/
def ClearedBetweenRuns (db : Database) (sched : List FactoryCall) : Prop :=
  ∀ name l₁ f r tt c l₂ f' r' tt' c' l₃,
    sched = l₁ ++ .brun f r tt c :: l₂ ++ .brun f' r' tt' c' :: l₃ → f.maps name → f'.maps name →
    (∀ g, .erun g ∈ l₂ → ¬ g.clears name) → db name r = db name r'

/-! ## The latch of a table, over a schedule -/

/-- The table a factory call would fetch for `name`. -/
def FactoryCall.fetches (db : Database) (name : String) : FactoryCall → Option Table
  | .brun f r tt converter =>
      if (f.brun tt converter).1.any (fun m => decide (m.table = name)) then some (db name r) else none
  | .init _ => none
  | .erun _ => none

/-- The factory call clears `name`. -/
def FactoryCall.clears (name : String) : FactoryCall → Bool
  | .erun f => f.erun.any (fun m => decide (m.table = name))
  | .init _ => false
  | .brun _ _ _ _ => false

section Latch

variable {db : Database} {name : String}

/-- A block of updates writes the latch if one of its handlers is of the table. -/
theorem latch_updates (l : List Member) (r : Int) (cur : Option Table) :
    (l.map (fun m => RegistryCall.updateCalibration m (db m.table r))).foldl
        (Latch.next (RegistryCall.fetches Member.new name) (RegistryCall.clears Member.new name)) cur
      = cur.or (if l.any (fun m => decide (m.table = name)) then some (db name r) else none) := by
  induction l generalizing cur with
  | nil => simp
  | cons m l ih =>
      have hstep : Latch.next (RegistryCall.fetches Member.new name) (RegistryCall.clears Member.new name) cur
          (.updateCalibration m (db m.table r)) = cur.or (if m.table = name then some (db name r) else none) := by
        by_cases hm : m.table = name
        · simp [Latch.next, RegistryCall.fetches, RegistryCall.clears, hm]
        · simp [Latch.next, RegistryCall.fetches, RegistryCall.clears, hm]
      rw [List.map_cons, List.foldl_cons, hstep, ih]
      cases cur with
      | some t => simp
      | none => by_cases hm : m.table = name <;> simp [hm]

/-- A block of clears resets it if one of its handlers is of the table. -/
theorem latch_clears (l : List Member) (cur : Option Table) :
    (l.map RegistryCall.clearCalibration).foldl
        (Latch.next (RegistryCall.fetches Member.new name) (RegistryCall.clears Member.new name)) cur
      = if l.any (fun m => decide (m.table = name)) then none else cur := by
  induction l generalizing cur with
  | nil => simp
  | cons m l ih =>
      have hstep : Latch.next (RegistryCall.fetches Member.new name) (RegistryCall.clears Member.new name) cur
          (.clearCalibration m) = if m.table = name then none else cur := by
        by_cases hm : m.table = name
        · simp [Latch.next, RegistryCall.clears, hm]
        · simp [Latch.next, RegistryCall.fetches, RegistryCall.clears, hm]
      rw [List.map_cons, List.foldl_cons, hstep, ih]
      by_cases hm : m.table = name
      · simp [hm]
      · simp [hm]

/-- A block of registrations does not touch it. -/
theorem latch_adds (l : List Member) (cur : Option Table) :
    (l.map RegistryCall.addCalibration).foldl
        (Latch.next (RegistryCall.fetches Member.new name) (RegistryCall.clears Member.new name)) cur = cur := by
  induction l with
  | nil => rfl
  | cons m l ih =>
      rw [List.map_cons, List.foldl_cons]
      simpa [Latch.next, RegistryCall.fetches, RegistryCall.clears] using ih

/-- **What a schedule is served** is the latch over its factory calls. -/
theorem served_flatMap (db : Database) (name : String) (sched : List FactoryCall) :
    served Member.new name (sched.flatMap (FactoryCall.registryCalls db))
      = Latch.latch (FactoryCall.fetches db name) (FactoryCall.clears name) sched := by
  induction sched using List.reverseRecOn with
  | nil => rfl
  | append_singleton sched c ih =>
      rw [List.flatMap_append, served_append, ih, Latch.latch_concat, List.flatMap_singleton]
      cases c with
      | init f =>
          rw [FactoryCall.registryCalls, latch_adds]
          simp [Latch.next, FactoryCall.fetches, FactoryCall.clears]
      | brun f r tt converter =>
          rw [FactoryCall.registryCalls, latch_updates]
          simp only [Latch.next, FactoryCall.fetches, FactoryCall.clears, Bool.false_eq_true, if_false]
      | erun f =>
          rw [FactoryCall.registryCalls, latch_clears]
          simp only [Latch.next, FactoryCall.fetches, FactoryCall.clears, Option.or_none]

end Latch

/-! ## What a `brun` leaves behind -/

section Schedule

variable {db : Database} {sched : List FactoryCall}

theorem JanaSchedule.left {sched' : List FactoryCall} (h : JanaSchedule (sched ++ sched')) :
    JanaSchedule sched where
  order f := (h.order f).left
  available f r tt converter hmem := h.available f r tt converter (List.mem_append_left _ hmem)

/-- A schedule up to one of its calls is a schedule. -/
theorem JanaSchedule.upTo (h : JanaSchedule sched) {pre suf : List FactoryCall} {c : FactoryCall}
    (hsplit : sched = pre ++ c :: suf) : JanaSchedule (pre ++ [c]) := by
  have happ : JanaSchedule ((pre ++ [c]) ++ suf) := by simpa [hsplit] using h
  exact happ.left

/-- A factory's handlers are registered by the time it is called for a run. -/
theorem JanaSchedule.added {c : FactoryCall} (h : JanaSchedule (sched ++ [c])) {f : Factory}
    (mv : Lifecycle.Move) (hmove : c.move f = some mv) (hmv : mv ≠ .setUp) :
    ∀ m ∈ f.init, .addCalibration m ∈ sched.flatMap (FactoryCall.registryCalls db) := by
  intro m hm
  obtain ⟨c', hc', hset⟩ := (h.order f).setUp_before hmove hmv
  have hinit : c' = .init f := by
    cases c' with
    | init g =>
        by_cases hg : g = f
        · rw [hg]
        · simp [FactoryCall.move, hg] at hset
    | brun g r tt converter =>
        by_cases hg : g = f <;> simp [FactoryCall.move, hg] at hset
    | erun g =>
        by_cases hg : g = f <;> simp [FactoryCall.move, hg] at hset
  refine List.mem_flatMap.mpr ⟨c', hc', ?_⟩
  rw [hinit]
  exact List.mem_map_of_mem hm

theorem JanaSchedule.addedFirst (h : JanaSchedule sched) :
    AddedFirst (sched.flatMap (FactoryCall.registryCalls db)) := by
  induction sched using List.reverseRecOn with
  | nil => exact atEvery_nil _
  | append_singleton sched c ih =>
      rw [List.flatMap_append, List.flatMap_singleton]
      apply (ih h.left).append
      intro call hcall hne
      cases c with
      | init f =>
          obtain ⟨m, _, rfl⟩ := List.mem_map.mp hcall
          exact absurd rfl hne
      | brun f r tt converter =>
          obtain ⟨rfl, rfl⟩ := h.available f r tt converter (by simp)
          obtain ⟨m, hm, rfl⟩ := List.mem_map.mp hcall
          rw [Factory.brun_available, Factory.updates_eq_init] at hm
          exact h.added .enter (by simp [FactoryCall.move]) (by simp) m hm
      | erun f =>
          obtain ⟨m, hm, rfl⟩ := List.mem_map.mp hcall
          exact h.added .leave (by simp [FactoryCall.move]) (by simp) m (f.erun_subset_init m hm)

theorem Member.new_hasLoadedCurrentRun (m : Member) : m.new.hasLoadedCurrentRun = false := by
  cases m <;> rfl

/-- Tables that `fillCalib` accepts are stored. -/
theorem HandlerKind.stores_of_accepts {k : HandlerKind} {t : Table} (h : k.accepts t = true) :
    k.stores t = true := by
  unfold HandlerKind.accepts at h
  unfold HandlerKind.stores
  split
  · rename_i hk
    rw [if_pos hk] at h
    exact h
  · rfl

theorem storable_registryCalls (haccept : ∀ m r, (Member.new m).kind.accepts (db m.table r) = true)
    (sched : List FactoryCall) : ∀ call ∈ sched.flatMap (FactoryCall.registryCalls db),
      Processor.Storable (Processor.init Member.new) call := by
  rintro call hcall cal answer rfl g hg
  have htab : g.table = cal.table := hg
  obtain ⟨c, _, hc⟩ := List.mem_flatMap.mp hcall
  -- only a `brun` updates, and it asks for the handler's own table
  have hans : ∃ r, answer = db cal.table r := by
    cases c with
    | init f => simp [FactoryCall.registryCalls] at hc
    | brun f r tt converter =>
        obtain ⟨m, _, hm⟩ := List.mem_map.mp hc
        simp only [RegistryCall.updateCalibration.injEq] at hm
        exact ⟨r, by rw [← hm.2, hm.1]⟩
    | erun f => simp [FactoryCall.registryCalls] at hc
  obtain ⟨r, rfl⟩ := hans
  rw [← htab]
  exact HandlerKind.stores_of_accepts (haccept g r)

/-- After a block of updates the handlers of the tables of the block are loaded. -/
theorem loaded_updates {p : Processor Member} {l : List Member} {r : Int} {m m₁ : Member} (hm₁ : m₁ ∈ l)
    (htab : p.tableOf m₁ = p.tableOf m) (hreg₁ : m₁ ∈ p.registered (p.tableOf m₁))
    (hreg : m ∈ p.registered (p.tableOf m)) :
    (exec Processor.step p (l.map (fun m => .updateCalibration m (db m.table r)))).loaded m = true := by
  induction l generalizing p with
  | nil => exact absurd hm₁ (by simp)
  | cons m' l ih =>
      rw [List.map_cons, exec_cons]
      by_cases hm' : m₁ = m'
      · -- loaded by this update, and by no later one unloaded
        apply exec_invariant (P := fun q : Processor Member => q.loaded m = true)
        · subst hm'
          show (p.updateCalibration m₁ _).loaded m = true
          rw [Processor.updateCalibration_eq, if_pos hreg₁, Processor.loaded_updated, htab]
          simp [hreg]
        · intro q call hcall hq
          obtain ⟨m'', _, rfl⟩ := List.mem_map.mp hcall
          exact Processor.loaded_updateCalibration _ (Or.inl hq)
      · apply ih ((List.mem_cons.mp hm₁).resolve_left hm')
        · rw [(Processor.step_kind_table p _ m).2, (Processor.step_kind_table p _ m₁).2, htab]
        · rw [(Processor.step_kind_table p _ m₁).2]
          exact Processor.registered_step p _ hreg₁
        · rw [(Processor.step_kind_table p _ m).2]
          exact Processor.registered_step p _ hreg

/-- After a `brun` the handlers of its tables hold what the latches hold, those of other factories too. -/
theorem raw_after_brun_of_maps (haccept : ∀ m r, (Member.new m).kind.accepts (db m.table r) = true) {f : Factory}
    {r : Int} {tt converter : Bool} (h : JanaSchedule (sched ++ [.brun f r tt converter])) {m : Member}
    (hadd : .addCalibration m ∈ sched.flatMap (FactoryCall.registryCalls db)) (hmaps : f.maps m.table) :
    Latch.latch (FactoryCall.fetches db m.table) (FactoryCall.clears m.table) (sched ++ [.brun f r tt converter])
      = some ((afterSchedule db (sched ++ [.brun f r tt converter])).handlers m).getRawCalibData := by
  obtain ⟨rfl, rfl⟩ := h.available f r tt converter (by simp)
  rw [← served_flatMap]
  apply Processor.served_of_loaded Member.new_hasLoadedCurrentRun (storable_registryCalls haccept _) h.addedFirst
  have hreg : ∀ m', .addCalibration m' ∈ sched.flatMap (FactoryCall.registryCalls db) →
      m' ∈ (Processor.afterCalls Member.new (sched.flatMap (FactoryCall.registryCalls db))).registered
        ((Processor.afterCalls Member.new (sched.flatMap (FactoryCall.registryCalls db))).tableOf m') := by
    intro m' hadd'
    rw [(Processor.afterCalls_kind_table _ _ m').2]
    exact Processor.registered_of_added hadd'
  obtain ⟨m₁, hm₁, htab⟩ := hmaps
  rw [List.flatMap_append, List.flatMap_singleton, FactoryCall.registryCalls, Factory.brun_available]
  unfold Processor.afterCalls
  rw [exec_append]
  apply loaded_updates (m := m)
  · rw [Factory.updates_eq_init]
    exact hm₁
  · show (Processor.afterCalls _ _).tableOf m₁ = (Processor.afterCalls _ _).tableOf m
    rw [(Processor.afterCalls_kind_table _ _ m₁).2, (Processor.afterCalls_kind_table _ _ m).2]
    exact htab
  · exact hreg m₁ (h.added .enter (by simp [FactoryCall.move]) (by simp) m₁ hm₁)
  · exact hreg m hadd

/-- **After its `brun` a factory holds what the latches of its tables hold.** -/
theorem raw_after_brun (haccept : ∀ m r, (Member.new m).kind.accepts (db m.table r) = true) {f : Factory}
    {r : Int} {tt converter : Bool} (h : JanaSchedule (sched ++ [.brun f r tt converter])) {m : Member}
    (hm : m ∈ f.init) :
    Latch.latch (FactoryCall.fetches db m.table) (FactoryCall.clears m.table) (sched ++ [.brun f r tt converter])
      = some ((afterSchedule db (sched ++ [.brun f r tt converter])).handlers m).getRawCalibData :=
  raw_after_brun_of_maps haccept h (h.added .enter (by simp [FactoryCall.move]) (by simp) m hm) ⟨m, hm, rfl⟩

end Schedule

/-! ## The constants of the current run -/

/-- A `brun` that can do its work fetches exactly the tables of the factory's handlers. -/
theorem fetches_eq_some {db : Database} {sched : List FactoryCall} (hjana : JanaSchedule sched)
    {name : String} {c : FactoryCall} (hc : c ∈ sched) {x : Table} :
    c.fetches db name = some x ↔
      ∃ f r tt converter, c = .brun f r tt converter ∧ f.maps name ∧ db name r = x := by
  cases c with
  | init f => simp [FactoryCall.fetches]
  | erun f => simp [FactoryCall.fetches]
  | brun f r tt converter =>
      obtain ⟨rfl, rfl⟩ := hjana.available f r tt converter hc
      have hany : f.updates.any (fun m => decide (m.table = name)) = true ↔ f.maps name := by
        rw [Factory.updates_eq_init]
        simp [Factory.maps]
      simp only [FactoryCall.fetches, Factory.brun_available]
      constructor
      · intro h
        split at h
        · rename_i hmaps
          exact ⟨f, r, true, true, rfl, hany.mp hmaps, Option.some.inj h⟩
        · exact absurd h (by simp)
      · rintro ⟨g, s, tt, converter, heq, hmaps, hx⟩
        simp only [FactoryCall.brun.injEq] at heq
        obtain ⟨rfl, rfl, -, -⟩ := heq
        rw [if_pos (hany.mpr hmaps), hx]

theorem clears_eq_false_of_fetches {db : Database} {name : String} {c : FactoryCall} {x : Table}
    (h : c.fetches db name = some x) : c.clears name = false := by
  cases c with
  | init f => rfl
  | brun f r tt converter => rfl
  | erun f => simp [FactoryCall.fetches] at h

/-- Nothing in a stretch of the schedule resets the latch: no `erun` in it clears the table. -/
theorem clears_eq_false_iff {name : String} {l : List FactoryCall} :
    (∀ c ∈ l, c.clears name = false) ↔ ∀ g, .erun g ∈ l → ¬ g.clears name := by
  have herun : ∀ g : Factory, (FactoryCall.erun g).clears name = false ↔ ¬ g.clears name := by
    intro g
    simp [FactoryCall.clears, Factory.clears]
  constructor
  · intro h g hg
    exact (herun g).mp (h _ hg)
  · intro h c hc
    cases c with
    | init g => rfl
    | brun g r tt converter => rfl
    | erun g => exact (herun g).mpr (h g hc)

/-- Table by table, the constants are those of the run when the latch serves every `brun` its own table. -/
theorem constantsOfRun_iff_latch {db : Database} {sched : List FactoryCall} (hjana : JanaSchedule sched)
    (haccept : ∀ m r, (Member.new m).kind.accepts (db m.table r) = true) :
    ConstantsOfRun db sched ↔ ∀ name, AtEvery (fun pre c => ∀ x, c.fetches db name = some x →
      Latch.latch (FactoryCall.fetches db name) (FactoryCall.clears name) (pre ++ [c]) = some x) sched := by
  constructor
  · intro h name pre c suf hsplit x hx
    have hc : c ∈ sched := by rw [hsplit]; simp
    obtain ⟨f, r, tt, converter, rfl, ⟨m, hm, rfl⟩, rfl⟩ := (fetches_eq_some hjana hc).mp hx
    rw [raw_after_brun haccept (hjana.upTo hsplit) hm, h pre _ suf hsplit f r tt converter rfl m hm]
  · intro h pre c suf hsplit f r tt converter hc m hm
    subst hc
    have hfetch : (FactoryCall.brun f r tt converter).fetches db m.table = some (db m.table r) :=
      (fetches_eq_some hjana (by rw [hsplit]; simp)).mpr ⟨f, r, tt, converter, rfl, ⟨m, hm, rfl⟩, rfl⟩
    have hserved := h m.table pre _ suf hsplit _ hfetch
    rw [raw_after_brun haccept (hjana.upTo hsplit) hm] at hserved
    exact Option.some.inj hserved

theorem constantsOfRun_of_cleared {db : Database} {sched : List FactoryCall} (hjana : JanaSchedule sched)
    (haccept : ∀ m r, (Member.new m).kind.accepts (db m.table r) = true) (h : ClearedBetweenRuns db sched) :
    ConstantsOfRun db sched := by
  refine (constantsOfRun_iff_latch hjana haccept).mpr fun name => ?_
  refine (Latch.latch_faithful_iff (fun _ _ => clears_eq_false_of_fetches) sched).mpr ?_
  intro l₁ e l₂ e' l₃ x y hsplit hx hy hno
  obtain ⟨f, r, tt, c, rfl, hmaps, rfl⟩ := (fetches_eq_some hjana (by rw [hsplit]; simp)).mp hx
  obtain ⟨f', r', tt', c', rfl, hmaps', rfl⟩ := (fetches_eq_some hjana (by rw [hsplit]; simp)).mp hy
  exact h name l₁ f r tt c l₂ f' r' tt' c' l₃ hsplit hmaps hmaps' (clears_eq_false_iff.mp hno)

/-- **Every factory works with the constants of its run exactly when the tables are cleared in time.** -/
theorem constantsOfRun_iff (db : Database) (sched : List FactoryCall) (hjana : JanaSchedule sched)
    (haccept : ∀ m r, (Member.new m).kind.accepts (db m.table r) = true) :
    ConstantsOfRun db sched ↔ ClearedBetweenRuns db sched := by
  constructor
  · intro h name l₁ f r tt c l₂ f' r' tt' c' l₃ hsplit hmaps hmaps' hno
    refine (Latch.latch_faithful_iff (fun _ _ => clears_eq_false_of_fetches) sched).mp
      ((constantsOfRun_iff_latch hjana haccept).mp h name) l₁ _ l₂ _ l₃ _ _ hsplit ?_ ?_ (clears_eq_false_iff.mpr hno)
    · exact (fetches_eq_some hjana (by rw [hsplit]; simp)).mpr ⟨f, r, tt, c, rfl, hmaps, rfl⟩
    · exact (fetches_eq_some hjana (by rw [hsplit]; simp)).mpr ⟨f', r', tt', c', rfl, hmaps', rfl⟩
  · exact constantsOfRun_of_cleared hjana haccept

/-- A database whose waveform parameters change with the run. -/
def parmsByRun : Database := fun name r =>
  if name = "DAQ/parms" then [[1, 3, 0, r]] else if name = "/DAQ/epics_dT" then [[0, 0]] else []

/-- Two runs of the waveform factory. -/
def twoRuns : List FactoryCall :=
  [.init .fa250Mode1CalibPedSubHit, .brun .fa250Mode1CalibPedSubHit 1 true true,
    .erun .fa250Mode1CalibPedSubHit, .brun .fa250Mode1CalibPedSubHit 2 true true]

theorem parmsByRun_accepted (m : Member) (r : Int) :
    (Member.new m).kind.accepts (parmsByRun m.table r) = true := by
  cases m <;> rfl

theorem twoRuns_jana : JanaSchedule twoRuns where
  order f := by cases f <;> decide
  available f r tt converter hmem := by
    simp only [twoRuns, List.mem_cons, FactoryCall.brun.injEq, reduceCtorEq, List.not_mem_nil, false_or,
      or_false] at hmem
    rcases hmem with h | h
    · exact ⟨h.2.2.1, h.2.2.2⟩
    · exact ⟨h.2.2.1, h.2.2.2⟩

theorem constantsOfRun_twoRuns :
    JanaSchedule twoRuns ∧ (∀ m r, (Member.new m).kind.accepts (parmsByRun m.table r) = true) ∧
      (ConstantsOfRun parmsByRun twoRuns ↔ ClearedBetweenRuns parmsByRun twoRuns) :=
  ⟨twoRuns_jana, parmsByRun_accepted,
    constantsOfRun_iff parmsByRun twoRuns twoRuns_jana parmsByRun_accepted⟩

/-- `erun` forgets `m_parms`, so the second run is processed with the parameters of the first. -/
theorem twoRuns_not_constantsOfRun : ¬ ConstantsOfRun parmsByRun twoRuns := by
  intro h
  have hparms := h (twoRuns.take 3) _ [] rfl .fa250Mode1CalibPedSubHit 2 true true rfl .pedSubHitParms (by decide)
  have hreal : ((afterSchedule parmsByRun (twoRuns.take 3 ++
      [.brun .fa250Mode1CalibPedSubHit 2 true true])).handlers .pedSubHitParms).getRawCalibData
      = [[1, 3, 0, 1]] := rfl
  rw [hreal] at hparms
  exact absurd hparms (by decide +kernel)

end BdxReco
