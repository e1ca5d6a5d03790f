import BdxReco.Jana.FactoryCalls
import BdxReco.System.Factories

/-!
# `Jana.Constants` — events are processed with the constants of their run

The calls that an event loop makes on the calibrated factories are a schedule in the sense of `System.Factories`
(`janaSchedule_of_calls`): what is assumed there of JANA follows from `JEventLoop::Get`. A `brun` that has returned has
found the translation table and the converter, since `GetSingle` throws otherwise.

`evnt_constants` puts the two together: if the runs come in order and the tables are cleared in time, a factory that makes
its objects in an event has the constants of the run of that event. In between, other factories may update or clear the
same tables.
-/

namespace BdxReco

open Run

namespace Jana

variable {ι α σ : Type} [DecidableEq ι]

/-- The run that a call is for. -/
def Call.runnumber : Call ι → Option Int
  | .brun _ r | .evnt _ r _ => some r
  | .init _ | .erun _ => none

/-- The call of a calibrated factory; `of` says which of them `f` is. -/
def Call.calibrated (of : ι → Option Factory) : Call ι → Option FactoryCall
  | .init f => (of f).map .init
  | .brun f r => (of f).map fun g => .brun g r true true
  | .erun f => (of f).map .erun
  | .evnt _ _ _ => none

/-- The calls of the calibrated factories. -/
def schedule (of : ι → Option Factory) (calls : List (Call ι)) : List FactoryCall :=
  calls.filterMap (Call.calibrated of)

namespace Factories

variable {p : Setup ι α σ} {e : Event ι α} {s s' : Factories ι α σ} {f : ι} {of : ι → Option Factory}

/-! ## The runs come in order -/

/-- No call is for an earlier run than a call before it. -/
def InOrder (s : Factories ι α σ) : Prop :=
  AtEvery (fun pre c => ∀ r, c.runnumber = some r → ∀ c' ∈ pre, ∀ r', c'.runnumber = some r' → r' ≤ r) s.calls

/-- No call is for a later run than `r`. -/
def UpTo (r : Int) (s : Factories ι α σ) : Prop := ∀ c ∈ s.calls, ∀ r', c.runnumber = some r' → r' ≤ r

theorem Move.runnumber (h : Move e s s') :
    s'.calls = s.calls ∨ ∃ c, s'.calls = s.calls ++ [c] ∧ ∀ r, c.runnumber = some r → r = e.runnumber := by
  cases h with
  | source | enter | inside | throw | drop => exact Or.inl rfl
  | init | erun => exact Or.inr ⟨_, rfl, fun r hr => absurd hr.symm (Option.some_ne_none r)⟩
  | brun | evnt => exact Or.inr ⟨_, rfl, fun r hr => (Option.some.inj hr).symm⟩

theorem inOrder_step (h : Move e s s') (hs : InOrder s ∧ UpTo e.runnumber s) : InOrder s' ∧ UpTo e.runnumber s' := by
  rcases h.runnumber with hsame | ⟨c, hc, hrun⟩
  · unfold InOrder UpTo
    rw [hsame]
    exact hs
  · unfold InOrder UpTo
    rw [hc]
    refine ⟨atEvery_concat.mpr ⟨hs.1, ?_⟩, ?_⟩
    · intro r hr c' hc' r' hr'
      rw [hrun r hr]
      exact hs.2 c' hc' r' hr'
    · intro c' hc' r' hr'
      rcases List.mem_append.mp hc' with hc' | hc'
      · exact hs.2 c' hc' r' hr'
      · rw [List.mem_singleton.mp hc'] at hr'
        rw [hrun r' hr']

/-- If the runs of the events come in order, those of the calls do. -/
theorem inOrder_run {events : List (Event ι α × List ι)}
    (hevents : (events.map fun event => event.1.runnumber).Pairwise (· ≤ ·)) (h : run p s events = some s')
    (hs : InOrder s) (hr : ∀ event ∈ events, UpTo event.1.runnumber s) : InOrder s' := by
  induction events generalizing s with
  | nil =>
      rw [run, List.foldlM_nil] at h
      rwa [← Option.some.inj h]
  | cons event events ih =>
      rw [run, List.foldlM_cons] at h
      obtain ⟨s₁, hfirst, hrest⟩ := Option.bind_eq_some_iff.mp h
      rw [List.map_cons, List.pairwise_cons] at hevents
      have hclear : InOrder s.clearFactories ∧ UpTo event.1.runnumber s.clearFactories := ⟨hs, hr event List.mem_cons_self⟩
      obtain ⟨hs₁, hr₁⟩ := Trace.keeps (fun _ _ hmove => inOrder_step hmove) (asked_of_requests hfirst).trace hclear
      refine ih hevents.2 hrest hs₁ fun event' hevent' c hc r' hr' => ?_
      exact (hr₁ c hc r' hr').trans (hevents.1 _ (List.mem_map_of_mem hevent'))

/-! ## The schedule -/

theorem calibrated_move {F : Factory} (hof : ∀ f g F, of f = some F → of g = some F → f = g) (hf : of f = some F)
    (c : Call ι) : (c.calibrated of).bind (FactoryCall.move F) = c.move f := by
  have hiff : ∀ g G, of g = some G → (G = F ↔ g = f) := by
    intro g G hg
    constructor
    · rintro rfl
      exact hof g f G hg hf
    · rintro rfl
      exact Option.some.inj (hg.symm.trans hf)
  have hnone : ∀ g, of g = none → g ≠ f := by
    rintro g hg rfl
    exact absurd (hg.symm.trans hf) (by simp)
  cases c with
  | evnt => rfl
  | init g | brun g | erun g =>
      unfold Call.calibrated Call.move
      cases hg : of g with
      | none => simp [hg, hnone g hg]
      | some G => simp [hg, FactoryCall.move, hiff g G hg]

omit [DecidableEq ι] in
theorem mem_schedule_brun {F : Factory} {r : Int} {tt converter : Bool} {calls : List (Call ι)}
    (h : .brun F r tt converter ∈ schedule of calls) :
    (∃ c ∈ calls, c.runnumber = some r) ∧ tt = true ∧ converter = true := by
  obtain ⟨c, hc, hbrun⟩ := List.mem_filterMap.mp h
  cases c with
  | evnt => exact absurd hbrun (by simp [Call.calibrated])
  | init | erun =>
      obtain ⟨G, _, hG⟩ := Option.map_eq_some_iff.mp hbrun
      exact absurd hG (by simp)
  | brun g r' =>
      obtain ⟨G, _, hG⟩ := Option.map_eq_some_iff.mp hbrun
      obtain ⟨rfl, rfl, rfl, rfl⟩ := FactoryCall.brun.inj hG
      exact ⟨⟨.brun g r', hc, rfl⟩, rfl, rfl⟩

/-- **The calls of an event loop are a schedule**, where `init`, `brun` and `erun` of every factory come in order. -/
theorem janaSchedule_of_calls {calls : List (Call ι)} (hof : ∀ f g F, of f = some F → of g = some F → f = g)
    (h : ∀ f, Lifecycle.Follows (Call.move f) calls) : JanaSchedule (schedule of calls) where
  order F := by
    by_cases hF : ∃ f, of f = some F
    · obtain ⟨f, hf⟩ := hF
      unfold Lifecycle.Follows schedule
      rw [Lifecycle.phase_filterMap (calibrated_move hof hf)]
      exact h f
    · apply Lifecycle.follows_of_none
      intro c hc
      obtain ⟨call, _, hcall⟩ := List.mem_filterMap.mp hc
      have hne : ∀ g G, of g = some G → G ≠ F := by
        rintro g G hg rfl
        exact hF ⟨g, hg⟩
      cases call with
      | evnt => exact absurd hcall (by simp [Call.calibrated])
      | init g | brun g | erun g =>
          obtain ⟨G, hG, rfl⟩ := Option.map_eq_some_iff.mp hcall
          simp [FactoryCall.move, hne g G hG]
  available _ _ _ _ hmem := (mem_schedule_brun hmem).2

/-! ## The constants of an event -/

section Raw

variable {db : Database} {sched sched' : List FactoryCall} {m : Member} {r : Int}

/-- Calls that update other tables only leave a handler what it holds. -/
theorem raw_of_otherTables {calls block : List (RegistryCall Member)}
    (hstore : ∀ c ∈ calls ++ block, Processor.Storable (Processor.init Member.new) c)
    (hother : ∀ cal answer, .updateCalibration cal answer ∈ block → cal.table ≠ m.table) :
    ((Processor.afterCalls Member.new (calls ++ block)).handlers m).getRawCalibData =
      ((Processor.afterCalls Member.new calls).handlers m).getRawCalibData := by
  induction block using List.reverseRecOn with
  | nil => rw [List.append_nil]
  | append_singleton block c ih =>
      rw [← List.append_assoc] at hstore ⊢
      have hstore' : ∀ c' ∈ calls ++ block, Processor.Storable (Processor.init Member.new) c' :=
        fun c' hc' => hstore c' (List.mem_append_left _ hc')
      rw [Processor.afterCalls_concat,
        ← ih hstore' (fun cal answer hc => hother cal answer (List.mem_append_left _ hc))]
      have hcoherent := Processor.coherent_afterCalls Member.new_hasLoadedCurrentRun hstore'
      have htab := fun g => (Processor.afterCalls_kind_table Member.new (calls ++ block) g).2
      cases c with
      | addCalibration | clearCalibration => exact Processor.raw_step_of_not_update (by simp) m
      | updateCalibration cal answer =>
          have hne : cal.table ≠ m.table := hother cal answer (by simp)
          rw [hcoherent.otherTables (.updateCalibration cal answer)]
          show Processor.tableOf _ m ≠ Processor.tableOf _ cal
          rw [htab, htab]
          exact fun heq => hne heq.symm

/-- **A handler keeps the constants of a run** while `brun`s are for that run, whichever factories are set up for it. -/
theorem raw_kept (haccept : ∀ m r, (Member.new m).kind.accepts (db m.table r) = true)
    (hjana : JanaSchedule (sched ++ sched')) (hconst : ConstantsOfRun db (sched ++ sched'))
    (hadd : .addCalibration m ∈ sched.flatMap (FactoryCall.registryCalls db))
    (hruns : ∀ g r' tt converter, .brun g r' tt converter ∈ sched' → r' = r)
    (hraw : ((afterSchedule db sched).handlers m).getRawCalibData = db m.table r) :
    ((afterSchedule db (sched ++ sched')).handlers m).getRawCalibData = db m.table r := by
  induction sched' using List.reverseRecOn with
  | nil => rwa [List.append_nil]
  | append_singleton sched' c ih =>
      rw [← List.append_assoc] at hjana hconst ⊢
      have hkept := ih hjana.left hconst.left
        (fun g r' tt converter hmem => hruns g r' tt converter (List.mem_append_left _ hmem))
      by_cases hmaps : ∃ g r' tt converter, c = .brun g r' tt converter ∧ g.maps m.table
      · -- the table is updated, for the same run
        obtain ⟨g, r', tt, converter, rfl, hmaps⟩ := hmaps
        obtain rfl : r' = r := hruns g r' tt converter (by simp)
        have hadd' : .addCalibration m ∈ (sched ++ sched').flatMap (FactoryCall.registryCalls db) := by
          rw [List.flatMap_append]
          exact List.mem_append_left _ hadd
        have hlatch := raw_after_brun_of_maps haccept hjana hadd' hmaps
        have hfetch : (FactoryCall.brun g r' tt converter).fetches db m.table = some (db m.table r') :=
          (fetches_eq_some hjana (by simp)).mpr ⟨g, r', tt, converter, rfl, hmaps, rfl⟩
        have hserved := (atEvery_concat.mp ((constantsOfRun_iff_latch hjana haccept).mp hconst m.table)).2 _ hfetch
        exact Option.some.inj (hlatch.symm.trans hserved)
      · have hstore := storable_registryCalls haccept (sched ++ sched' ++ [c])
        rw [List.flatMap_append, List.flatMap_singleton] at hstore
        unfold afterSchedule
        rw [List.flatMap_append, List.flatMap_singleton, raw_of_otherTables hstore]
        · exact hkept
        intro cal answer hcall htab
        cases c with
        | init | erun =>
            obtain ⟨_, _, heq⟩ := List.mem_map.mp hcall
            exact absurd heq (by simp)
        | brun g r' tt converter =>
            obtain ⟨rfl, rfl⟩ := hjana.available g r' tt converter (by simp)
            obtain ⟨m', hm', heq⟩ := List.mem_map.mp hcall
            rw [Factory.brun_available, Factory.updates_eq_init] at hm'
            obtain ⟨rfl, _⟩ := RegistryCall.updateCalibration.inj heq
            exact hmaps ⟨g, r', true, true, rfl, m', hm', htab⟩

end Raw

/-- When its `evnt` returns, a factory holds the constants of the run of the event. -/
def EvntConstants (db : Database) (of : ι → Option Factory) (s : Factories ι α σ) : Prop :=
  AtEvery (fun pre c => ∀ f r n F, c = .evnt f r n → of f = some F → ∀ m ∈ F.init,
    ((afterSchedule db (schedule of pre)).handlers m).getRawCalibData = db m.table r) s.calls

/-- **Events are processed with the constants of their run**, if the runs come in order and the tables are cleared in
time, whatever the factories ask of each other and throw. -/
theorem evnt_constants {db : Database} {members : ι → σ} {events : List (Event ι α × List ι)}
    (hof : ∀ f g F, of f = some F → of g = some F → f = g)
    (haccept : ∀ m r, (Member.new m).kind.accepts (db m.table r) = true)
    (hevents : (events.map fun event => event.1.runnumber).Pairwise (· ≤ ·)) (h : run p (new members) events = some s)
    (hcleared : ClearedBetweenRuns db (schedule of s.calls)) : EvntConstants db of s := by
  rintro pre _ suf hsplit f r n F rfl hF m hm
  obtain ⟨htells, hinRun⟩ := tells_of_run h
  have hjana := janaSchedule_of_calls hof (fun f => (htells f).follows)
  have hconst := constantsOfRun_of_cleared hjana haccept hcleared
  have horder : InOrder s :=
    inOrder_run hevents h (atEvery_nil _) (fun _ _ c hc => absurd hc List.not_mem_nil)
  obtain ⟨l₁, l₂, rfl, _⟩ := hinRun pre _ suf hsplit f r n rfl
  -- the calls up to the event: those before `brun`, `brun`, and those after it
  have hpre : schedule of (l₁ ++ .brun f r :: l₂) = (schedule of l₁ ++ [.brun F r true true]) ++ schedule of l₂ := by
    simp [schedule, Call.calibrated, hF]
  have hall : schedule of s.calls =
      ((schedule of l₁ ++ [.brun F r true true]) ++ schedule of l₂) ++ schedule of (.evnt f r n :: suf) := by
    rw [← hpre, hsplit]
    exact List.filterMap_append
  rw [hall] at hjana hconst
  rw [hpre]
  refine raw_kept haccept hjana.left hconst.left ?_ ?_ ?_
  · rw [List.flatMap_append]
    exact List.mem_append_left _ (hjana.left.left.added .enter (by simp [FactoryCall.move]) (by simp) m hm)
  · intro g r' tt converter hmem
    obtain ⟨⟨call, hcall, hr'⟩, _⟩ := mem_schedule_brun hmem
    obtain ⟨a, b, rfl⟩ := List.append_of_mem hcall
    have hbefore : r' ≤ r := horder _ _ suf hsplit r rfl call (by simp) r' hr'
    have hafter : r ≤ r' := by
      refine horder (l₁ ++ .brun f r :: a) call (b ++ .evnt f r n :: suf) ?_ r' hr' (.brun f r) (by simp) r rfl
      rw [hsplit]
      simp
    exact Int.le_antisymm hbefore hafter
  · exact (atEvery_concat.mp hconst.left.left).2 F r true true rfl m hm

/-- The calibrated factories of the two of `relay`. -/
def relayFactory : Fin 2 → Option Factory
  | ⟨0, _⟩ => some .calorimeterHit
  | ⟨_ + 1, _⟩ => some .epicsData

/-- A database where the energy constants of the calorimeter change with the run. -/
def eneByRun : Database := fun name r =>
  if name = "/Calorimeter/Ene" then [[0, 1, 1, 0, r]] else if name = "/DAQ/epics_dT" then [[0, 0]] else []

theorem eneByRun_accepted (m : Member) (r : Int) : (Member.new m).kind.accepts (eneByRun m.table r) = true := by
  cases m <;> rfl

theorem eneByRun_eq {name : String} {r r' : Int} (h : eneByRun name r ≠ eneByRun name r') :
    name = "/Calorimeter/Ene" ∧ r ≠ r' := by
  constructor
  · by_contra hname
    simp [eneByRun, hname] at h
  · rintro rfl
    exact h rfl

/-- The calls on the calibrated factories for an event of run 1 and one of run 2; `epicsData` is persistent. -/
def relaySchedule : List FactoryCall :=
  [.init .calorimeterHit, .brun .calorimeterHit 1 true true, .init .epicsData, .brun .epicsData 1 true true,
    .erun .calorimeterHit, .brun .calorimeterHit 2 true true]

/-- The constants of the calorimeter are cleared at the end of run 1. -/
theorem relaySchedule_cleared : ClearedBetweenRuns eneByRun relaySchedule := by
  intro name l₁ f r tt c l₂ f' r' tt' c' l₃ hsched _ _ hkept
  by_contra hdb
  obtain ⟨rfl, hr⟩ := eneByRun_eq hdb
  have hone : ∀ call ∈ relaySchedule.dropLast, ∀ g r tt c, call = .brun g r tt c → r = 1 := by
    simp [relaySchedule]
  rcases List.eq_nil_or_concat l₃ with rfl | ⟨l₃, last, rfl⟩
  · -- the last `brun`, with the `erun` right before it
    have hfront : relaySchedule.dropLast = l₁ ++ .brun f r tt c :: l₂ := by
      rw [hsched, List.dropLast_concat]
    rcases List.eq_nil_or_concat l₂ with rfl | ⟨l₂, last, rfl⟩
    · have hlast := congrArg List.getLast? hfront
      rw [List.getLast?_concat] at hlast
      exact absurd (Option.some.inj hlast) (by simp)
    · have hlast := congrArg List.getLast? hfront
      rw [List.concat_eq_append, ← List.cons_append, ← List.append_assoc, List.getLast?_concat] at hlast
      obtain rfl : .erun .calorimeterHit = last := Option.some.inj hlast
      exact hkept .calorimeterHit (by simp) ⟨.calorimeterEne, by decide, rfl⟩
  · -- both are for run 1
    have hfront : relaySchedule.dropLast = l₁ ++ .brun f r tt c :: l₂ ++ .brun f' r' tt' c' :: l₃ := by
      rw [hsched, List.concat_eq_append, ← List.cons_append, ← List.append_assoc, List.dropLast_concat]
    have hr₁ := hone (.brun f r tt c) (by rw [hfront]; simp) f r tt c rfl
    have hr₁' := hone (.brun f' r' tt' c') (by rw [hfront]; simp) f' r' tt' c' rfl
    exact hr (hr₁.trans hr₁'.symm)

theorem evnt_constants_relay : ∃ s, run relay (new fun _ => ()) [(plain 1 7, [0]), (plain 2 8, [0])] = some s ∧
    EvntConstants eneByRun relayFactory s := by
  have hof : ∀ f g F, relayFactory f = some F → relayFactory g = some F → f = g := by
    have hinj : ∀ f g, relayFactory f = relayFactory g → f = g := by decide
    exact fun f g F hf hg => hinj f g (hf.trans hg.symm)
  have hrun : (run relay (new fun _ => ()) [(plain 1 7, [0]), (plain 2 8, [0])]).map calls =
      some [.init 0, .brun 0 1, .init 1, .brun 1 1, .evnt 1 1 7, .evnt 0 1 7, .erun 0, .brun 0 2, .evnt 0 2 8] := by
    decide
  obtain ⟨s, hs, hcalls⟩ := Option.map_eq_some_iff.mp hrun
  have hsched : schedule relayFactory s.calls = relaySchedule := by
    rw [hcalls]
    rfl
  exact ⟨s, hs, evnt_constants hof eneByRun_accepted (by simp [plain]) hs (hsched ▸ relaySchedule_cleared)⟩

end Factories

end Jana

end BdxReco
