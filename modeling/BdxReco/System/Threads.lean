import BdxReco.Lib.Lifecycle
import BdxReco.System.RegistryLatch

/-!
# `System.Threads` — event-loop threads on different runs

All threads share one event processor, and each owns one handler per table: the handler of thread `θ` for the
table `name` is the pair. A thread maps its handler once and then updates and clears it in turn, at runs of its
own; the calls are atomic (ROOT write lock) and interleave in any order.

An update for one thread fills the handlers of all threads that are not marked as loaded, and a clear for one
thread clears the marks of all. `runIsolation` says when a thread nevertheless works with its own run.
-/

namespace BdxReco

open Run

variable {θ : Type}

/-- A call of a thread, for its handler of a table. -/
inductive ThreadCall (θ : Type) where
  | mapCalibrationHandler (h : θ × String)
  | updateCalibrationHandler (h : θ × String) (runnumber : Int)
  | clearCalibrationHandler (h : θ × String)

namespace ThreadCall

/-- The call on the event processor; `db` is the database. -/
def registryCall (db : String → Int → Table) : ThreadCall θ → RegistryCall (θ × String)
  | .mapCalibrationHandler h => .addCalibration h
  | .updateCalibrationHandler h runnumber => .updateCalibration h (db h.2 runnumber)
  | .clearCalibrationHandler h => .clearCalibration h

variable [DecidableEq θ]

/-- Which move of the owner of `h` a call is. -/
def move (h : θ × String) : ThreadCall θ → Option Lifecycle.Move
  | .mapCalibrationHandler h' => if h' = h then some .setUp else none
  | .updateCalibrationHandler h' _ => if h' = h then some .enter else none
  | .clearCalibrationHandler h' => if h' = h then some .leave else none

theorem move_eq_setUp {h : θ × String} {c : ThreadCall θ} (hc : c.move h = some .setUp) :
    c = .mapCalibrationHandler h := by
  cases c with
  | mapCalibrationHandler h' =>
      by_cases hh : h' = h
      · rw [hh]
      · simp [move, hh] at hc
  | updateCalibrationHandler h' r => by_cases hh : h' = h <;> simp [move, hh] at hc
  | clearCalibrationHandler h' => by_cases hh : h' = h <;> simp [move, hh] at hc

end ThreadCall

/-- The handlers of the threads: those of one table are of one class. -/
def threadHandlers (kind : String → HandlerKind) (h : θ × String) : Handler := Handler.new (kind h.2) h.2

/-- The event processor after the calls. -/
def afterThreads [DecidableEq θ] (kind : String → HandlerKind) (db : String → Int → Table)
    (calls : List (ThreadCall θ)) : Processor (θ × String) :=
  Processor.afterCalls (threadHandlers kind) (calls.map (ThreadCall.registryCall db))

/-! ## Being in a run -/

/-- The owner of `h` updated it for run `r` and has not cleared it since. -/
def InRun (h : θ × String) (r : Int) (calls : List (ThreadCall θ)) : Prop :=
  ∃ l₁ l₂, calls = l₁ ++ .updateCalibrationHandler h r :: l₂ ∧ .clearCalibrationHandler h ∉ l₂

theorem inRun_concat {h : θ × String} {r : Int} {calls : List (ThreadCall θ)} {c : ThreadCall θ} :
    InRun h r (calls ++ [c]) ↔
      c = .updateCalibrationHandler h r ∨ (InRun h r calls ∧ c ≠ .clearCalibrationHandler h) := by
  constructor
  · rintro ⟨l₁, l₂, hsplit, hno⟩
    rcases List.eq_nil_or_concat l₂ with hl | ⟨l₂', last, hl⟩
    · subst hl
      have hinj := List.append_inj' hsplit rfl
      exact Or.inl (List.cons.inj hinj.2).1
    · subst hl
      have hsplit' : calls ++ [c] = (l₁ ++ .updateCalibrationHandler h r :: l₂') ++ [last] := by
        simpa using hsplit
      have hinj := List.append_inj' hsplit' rfl
      have hlast : c = last := (List.cons.inj hinj.2).1
      refine Or.inr ⟨⟨l₁, l₂', hinj.1, fun hmem => hno (by simp [hmem])⟩, ?_⟩
      rintro rfl
      exact hno (by simp [← hlast])
  · rintro (rfl | ⟨⟨l₁, l₂, hsplit, hno⟩, hc⟩)
    · exact ⟨calls, [], rfl, by simp⟩
    · refine ⟨l₁, l₂ ++ [c], by simp [hsplit], ?_⟩
      intro hmem
      rcases List.mem_append.mp hmem with hm | hm
      · exact hno hm
      · exact hc (List.mem_singleton.mp hm).symm

section Registry

variable {kind : String → HandlerKind} {db : String → Int → Table} {calls : List (ThreadCall θ)}

theorem storable_of_stores (hstores : ∀ h r, .updateCalibrationHandler h r ∈ calls →
    (kind h.2).stores (db h.2 r) = true) : ∀ call ∈ calls.map (ThreadCall.registryCall db),
      Processor.Storable (Processor.init (threadHandlers kind)) call := by
  rintro call hcall cal answer rfl g hg
  obtain ⟨c, hc, hcall'⟩ := List.mem_map.mp hcall
  have htab : g.2 = cal.2 := by
    simpa [Processor.tableOf, Processor.init, threadHandlers] using hg
  cases c with
  | mapCalibrationHandler h => exact absurd hcall' (by simp [ThreadCall.registryCall])
  | clearCalibrationHandler h => exact absurd hcall' (by simp [ThreadCall.registryCall])
  | updateCalibrationHandler h r =>
      simp only [ThreadCall.registryCall, RegistryCall.updateCalibration.injEq] at hcall'
      obtain ⟨rfl, rfl⟩ := hcall'
      simpa [Processor.init, threadHandlers, htab] using hstores h r hc

/-- **Whoever fetched what a latch holds is still in its run**, since any clear would have reset the latch. -/
theorem inRun_of_served {name : String} {t : Table}
    (h : served (threadHandlers kind) name (calls.map (ThreadCall.registryCall db)) = some t) :
    ∃ (g : θ × String) (r : Int), g.2 = name ∧ InRun g r calls ∧ db name r = t := by
  obtain ⟨l₁, e, l₂, hsplit, _, hfetch, _, hno⟩ := Latch.latch_eq_some h
  obtain ⟨c₁, rest, hcalls, hl₁, hrest⟩ := List.map_eq_append_iff.mp hsplit
  obtain ⟨c, c₂, hrest', hc, hl₂⟩ := List.map_eq_cons_iff.mp hrest
  subst hrest'
  subst hc
  cases c with
  | mapCalibrationHandler g => exact absurd hfetch (by simp [ThreadCall.registryCall, RegistryCall.fetches])
  | clearCalibrationHandler g => exact absurd hfetch (by simp [ThreadCall.registryCall, RegistryCall.fetches])
  | updateCalibrationHandler g r =>
      simp only [ThreadCall.registryCall, RegistryCall.fetches, threadHandlers, Handler.new_getTable] at hfetch
      split at hfetch
      · rename_i hname
        refine ⟨g, r, hname, ⟨c₁, c₂, hcalls, ?_⟩, by rw [← hname]; exact Option.some.inj hfetch⟩
        intro hclear
        have hmem : RegistryCall.clearCalibration g ∈ l₂ := by
          rw [← hl₂]
          exact List.mem_map.mpr ⟨_, hclear, rfl⟩
        have hfalse := hno _ hmem
        simp [RegistryCall.clears, threadHandlers, hname] at hfalse
      · exact absurd hfetch (by simp)

end Registry

section Isolation

variable [DecidableEq θ] (kind : String → HandlerKind) (db : String → Int → Table)

/-- **Run isolation**: in every state of the run, a thread that is in run `r` holds the table of run `r`. -/
def RunIsolated (calls : List (ThreadCall θ)) : Prop :=
  Along (fun pre => ∀ h r, InRun h r pre →
    ((afterThreads kind db pre).handlers h).getRawCalibData = db h.2 r) calls

/-- Every update is for a table that the handlers keep, and that is the same at the run of every thread that is
    in a run at that time. -/
def SameConstants (calls : List (ThreadCall θ)) : Prop :=
  AtEvery (fun pre c => ∀ h r, c = .updateCalibrationHandler h r →
    (kind h.2).stores (db h.2 r) = true ∧
      ∀ h' r', h'.2 = h.2 → InRun h' r' pre → db h.2 r' = db h.2 r) calls

variable {kind db} {calls : List (ThreadCall θ)}

/-! ## The registry under the threads -/

theorem added_of_follows {h : θ × String} {c : ThreadCall θ} {suf : List (ThreadCall θ)}
    (horder : Lifecycle.Follows (ThreadCall.move h) (calls ++ c :: suf)) (mv : Lifecycle.Move)
    (hmove : c.move h = some mv) (hmv : mv ≠ .setUp) :
    .addCalibration h ∈ calls.map (ThreadCall.registryCall db) := by
  obtain ⟨c', hc', hset⟩ := horder.setUp_before hmove hmv
  rw [ThreadCall.move_eq_setUp hset] at hc'
  exact List.mem_map.mpr ⟨_, hc', rfl⟩

theorem addedFirst_of_follows (horder : ∀ h, Lifecycle.Follows (ThreadCall.move h) calls) :
    AddedFirst (calls.map (ThreadCall.registryCall db)) := by
  induction calls using List.reverseRecOn with
  | nil => exact atEvery_nil _
  | append_singleton calls c ih =>
      rw [List.map_append]
      apply (ih (fun h => (horder h).left)).append
      intro call hcall hne
      rw [List.map_singleton, List.mem_singleton] at hcall
      subst hcall
      cases c with
      | mapCalibrationHandler h => exact absurd rfl hne
      | updateCalibrationHandler h r =>
          show RegistryCall.addCalibration h ∈ _
          exact added_of_follows (horder h) .enter (by simp [ThreadCall.move]) (by simp)
      | clearCalibrationHandler h =>
          show RegistryCall.addCalibration h ∈ _
          exact added_of_follows (horder h) .leave (by simp [ThreadCall.move]) (by simp)

theorem tableOf_afterThreads (g : θ × String) : (afterThreads kind db calls).tableOf g = g.2 := by
  have htab := (Processor.afterCalls_kind_table (threadHandlers kind) (calls.map (ThreadCall.registryCall db)) g).2
  rwa [threadHandlers, Handler.new_getTable] at htab

theorem registered_afterThreads {h : θ × String}
    (hadd : .addCalibration h ∈ calls.map (ThreadCall.registryCall db)) :
    h ∈ (afterThreads kind db calls).registered h.2 := by
  have hreg : h ∈ (afterThreads kind db calls).registered (threadHandlers kind h).getTable :=
    Processor.registered_of_added hadd
  rwa [threadHandlers, Handler.new_getTable] at hreg

theorem registered_of_inRun (horder : ∀ h, Lifecycle.Follows (ThreadCall.move h) calls) {h : θ × String}
    {r : Int} (hin : InRun h r calls) : h ∈ (afterThreads kind db calls).registered h.2 := by
  obtain ⟨l₁, l₂, hsplit, _⟩ := hin
  have hadd : .addCalibration h ∈ l₁.map (ThreadCall.registryCall db) :=
    added_of_follows (hsplit ▸ horder h) .enter (by simp [ThreadCall.move]) (by simp)
  apply registered_afterThreads
  rw [hsplit, List.map_append]
  exact List.mem_append_left _ hadd

omit [DecidableEq θ] in
theorem threadHandlers_fresh (g : θ × String) : (threadHandlers kind g).hasLoadedCurrentRun = false := by
  simp [threadHandlers]

theorem coherent_afterThreads
    (hstores : ∀ h r, .updateCalibrationHandler h r ∈ calls → (kind h.2).stores (db h.2 r) = true) :
    Processor.Coherent (afterThreads kind db calls) :=
  Processor.coherent_afterCalls threadHandlers_fresh (storable_of_stores hstores)

/-- **After an update all threads' handlers of the table hold the same table**: what some thread still in its
    run fetched, or the table of the run of the update. -/
theorem raw_after_update (horder : ∀ h, Lifecycle.Follows (ThreadCall.move h) calls) {h : θ × String} {r : Int}
    (hstores : ∀ h' r', .updateCalibrationHandler h' r' ∈ calls ++ [.updateCalibrationHandler h r] →
      (kind h'.2).stores (db h'.2 r') = true)
    (hadd : .addCalibration h ∈ calls.map (ThreadCall.registryCall db)) :
    ∃ t, (∀ g ∈ (afterThreads kind db calls).registered h.2,
        ((afterThreads kind db (calls ++ [.updateCalibrationHandler h r])).handlers g).getRawCalibData = t) ∧
      (t = db h.2 r ∨ ∃ (g : θ × String) (r' : Int), g.2 = h.2 ∧ InRun g r' calls ∧ t = db h.2 r') := by
  have hbefore : ∀ h' r', .updateCalibrationHandler h' r' ∈ calls → (kind h'.2).stores (db h'.2 r') = true :=
    fun h' r' hmem => hstores h' r' (List.mem_append_left _ hmem)
  have hp := coherent_afterThreads hbefore
  have hkt := Processor.afterCalls_kind_table (threadHandlers kind) (calls.map (ThreadCall.registryCall db))
  have htab : ∀ g : θ × String, (afterThreads kind db calls).tableOf g = g.2 := tableOf_afterThreads
  have hans : ∀ g, (afterThreads kind db calls).tableOf g = (afterThreads kind db calls).tableOf h →
      ((afterThreads kind db calls).handlers g).kind.stores (db h.2 r) = true := by
    intro g hg
    rw [htab, htab] at hg
    rw [show ((afterThreads kind db calls).handlers g).kind = _ from (hkt g).1]
    simpa [threadHandlers, hg] using hstores h r (by simp)
  have hreg : h ∈ (afterThreads kind db calls).registered ((afterThreads kind db calls).tableOf h) := by
    rw [htab]
    exact registered_afterThreads hadd
  have hstep : afterThreads kind db (calls ++ [.updateCalibrationHandler h r])
      = (afterThreads kind db calls).updated h.2 (db h.2 r) := by
    unfold afterThreads
    rw [List.map_append, List.map_singleton, Processor.afterCalls_concat]
    show (afterThreads kind db calls).updateCalibration h (db h.2 r) = _
    rw [Processor.updateCalibration_eq, if_pos hreg, htab]
    rfl
  refine ⟨(afterThreads kind db calls).source h.2 (db h.2 r), ?_, ?_⟩
  · intro g hg
    have hraw := hp.raw_updated hans (by rw [htab]; exact hg)
    rw [htab] at hraw
    rw [hstep, hraw]
  · unfold Processor.source
    cases hlast : (afterThreads kind db calls).lastLoaded ((afterThreads kind db calls).registered h.2) with
    | none => exact Or.inl rfl
    | some one =>
        -- filled from a loaded handler: its table is in the latch
        obtain ⟨hone, hloaded⟩ := Processor.of_lastLoaded hlast
        have hserved := Processor.served_of_loaded threadHandlers_fresh (storable_of_stores hbefore)
          (addedFirst_of_follows horder) hloaded
        have hname : one.2 = h.2 := by
          have hmem := hp.table _ one hone
          rwa [htab] at hmem
        obtain ⟨g, r', hg, hin, ht⟩ := inRun_of_served hserved
        simp only [threadHandlers, Handler.new_getTable, hname] at hg ht
        exact Or.inr ⟨g, r', hg, hin, ht.symm⟩

/-! ## Isolation -/

omit [DecidableEq θ] in
theorem SameConstants.stores (h : SameConstants kind db calls) :
    ∀ g r, .updateCalibrationHandler g r ∈ calls → (kind g.2).stores (db g.2 r) = true := by
  intro g r hmem
  obtain ⟨pre, suf, hsplit⟩ := List.append_of_mem hmem
  exact (h pre _ suf hsplit g r rfl).1

section Update

variable {h g : θ × String} {r s : Int}
  (horder : ∀ h', Lifecycle.Follows (ThreadCall.move h') (calls ++ [.updateCalibrationHandler h r]))
  (hsame : SameConstants kind db (calls ++ [.updateCalibrationHandler h r]))

include horder hsame

/-- An update, for a handler of its table: it is filled, or left with what the others are filled from. -/
theorem raw_of_sameTable (htable : g.2 = h.2) (hin : InRun g s (calls ++ [.updateCalibrationHandler h r])) :
    ((afterThreads kind db (calls ++ [.updateCalibrationHandler h r])).handlers g).getRawCalibData = db g.2 s := by
  have horder' : ∀ h, Lifecycle.Follows (ThreadCall.move h) calls := fun h => (horder h).left
  obtain ⟨_, hequal⟩ := hsame calls _ [] rfl h r rfl
  have hadd : .addCalibration h ∈ calls.map (ThreadCall.registryCall db) :=
    added_of_follows (horder h) .enter (by simp [ThreadCall.move]) (by simp)
  obtain ⟨t, hraw, ht⟩ := raw_after_update horder' hsame.stores hadd
  rw [inRun_concat] at hin
  have hreg : g ∈ (afterThreads kind db calls).registered h.2 := by
    rcases hin with hc | ⟨hin', _⟩
    · simp only [ThreadCall.updateCalibrationHandler.injEq] at hc
      rw [← hc.1]
      exact registered_afterThreads hadd
    · rw [← htable]
      exact registered_of_inRun horder' hin'
  have htr : t = db h.2 r := by
    rcases ht with ht | ⟨g', r', hg, hin', ht⟩
    · exact ht
    · rw [ht]
      exact hequal g' r' hg hin'
  have hsr : db h.2 s = db h.2 r := by
    rcases hin with hc | ⟨hin', _⟩
    · simp only [ThreadCall.updateCalibrationHandler.injEq] at hc
      rw [hc.2]
    · exact hequal g s htable hin'
  rw [hraw g hreg, htr, htable, hsr]

omit horder in
/-- An update leaves the handlers of another table alone. -/
theorem handlers_of_otherTable (htable : g.2 ≠ h.2) :
    ((afterThreads kind db calls).step (.updateCalibration h (db h.2 r))).handlers g
      = (afterThreads kind db calls).handlers g := by
  have hp : Processor.Coherent (afterThreads kind db calls) :=
    coherent_afterThreads (fun h' r' hmem => hsame.stores h' r' (List.mem_append_left _ hmem))
  apply hp.otherTables
  intro heq
  apply htable
  simpa [RegistryCall.handler, tableOf_afterThreads] using heq

end Update

/-- One call keeps the threads isolated when its table is the same at the runs the threads are in. -/
theorem isolated_step {c : ThreadCall θ} (horder : ∀ h, Lifecycle.Follows (ThreadCall.move h) (calls ++ [c]))
    (hsame : SameConstants kind db (calls ++ [c]))
    (hnow : ∀ h r, InRun h r calls →
      ((afterThreads kind db calls).handlers h).getRawCalibData = db h.2 r) :
    ∀ h r, InRun h r (calls ++ [c]) →
      ((afterThreads kind db (calls ++ [c])).handlers h).getRawCalibData = db h.2 r := by
  intro g s hin
  have hstep : afterThreads kind db (calls ++ [c])
      = (afterThreads kind db calls).step (c.registryCall db) := by
    simp [afterThreads]
  cases c with
  | mapCalibrationHandler h =>
      have hin' : InRun g s calls := ((inRun_concat.mp hin).resolve_left (by simp)).1
      rw [hstep, Processor.raw_step_of_not_update (by simp [ThreadCall.registryCall])]
      exact hnow g s hin'
  | clearCalibrationHandler h =>
      have hin' : InRun g s calls := ((inRun_concat.mp hin).resolve_left (by simp)).1
      rw [hstep, Processor.raw_step_of_not_update (by simp [ThreadCall.registryCall])]
      exact hnow g s hin'
  | updateCalibrationHandler h r =>
      by_cases htable : g.2 = h.2
      · exact raw_of_sameTable horder hsame htable hin
      · have hne : ThreadCall.updateCalibrationHandler h r ≠ .updateCalibrationHandler g s := by
          intro hc
          simp only [ThreadCall.updateCalibrationHandler.injEq] at hc
          exact htable (by rw [hc.1])
        have hin' : InRun g s calls := ((inRun_concat.mp hin).resolve_left hne).1
        rw [hstep]
        show (((afterThreads kind db calls).step (.updateCalibration h (db h.2 r))).handlers g).getRawCalibData = _
        rw [handlers_of_otherTable hsame htable]
        exact hnow g s hin'

/-- **When threads are isolated.** If every update is for a table that is the same at the runs the threads are
    in, each thread works with the constants of its run in every state, whatever the interleaving; and as long
    as the handlers keep the tables they are given, only then. -/
theorem runIsolation (kind : String → HandlerKind) (db : String → Int → Table) (calls : List (ThreadCall θ))
    (horder : ∀ h, Lifecycle.Follows (ThreadCall.move h) calls) :
    (SameConstants kind db calls → RunIsolated kind db calls) ∧
      ((∀ name r, (kind name).stores (db name r) = true) → RunIsolated kind db calls →
        SameConstants kind db calls) := by
  constructor
  · intro hsame
    induction calls using List.reverseRecOn with
    | nil =>
        refine along_nil.mpr ?_
        rintro h r ⟨l₁, l₂, hsplit, _⟩
        exact absurd hsplit (by simp)
    | append_singleton calls c ih =>
        have hcalls : RunIsolated kind db calls := ih (fun h => (horder h).left) hsame.left
        exact along_concat.mpr ⟨hcalls, isolated_step horder hsame (hcalls calls List.prefix_rfl)⟩
  · intro hstores hiso pre c suf hsplit h r hc
    subst hc
    refine ⟨hstores h.2 r, ?_⟩
    intro h' r' htable hin
    have hpre : ∀ g, Lifecycle.Follows (ThreadCall.move g) (pre ++ .updateCalibrationHandler h r :: suf) :=
      fun g => hsplit ▸ horder g
    have horder' : ∀ g, Lifecycle.Follows (ThreadCall.move g) pre := fun g => (hpre g).left
    have hadd : .addCalibration h ∈ pre.map (ThreadCall.registryCall db) :=
      added_of_follows (hpre h) .enter (by simp [ThreadCall.move]) (by simp)
    -- after the update both threads are in their runs, and their handlers hold one table
    obtain ⟨t, hraw, _⟩ := raw_after_update horder' (fun g s _ => hstores g.2 s) hadd (r := r)
    have hprefix : pre ++ [.updateCalibrationHandler h r] <+: calls := ⟨suf, by simp [hsplit]⟩
    have hown := hiso _ hprefix h r (inRun_concat.mpr (Or.inl rfl))
    have hother := hiso _ hprefix h' r' (inRun_concat.mpr (Or.inr ⟨hin, by simp⟩))
    rw [hraw h (registered_afterThreads hadd)] at hown
    rw [hraw h' (htable ▸ registered_of_inRun horder' hin), htable] at hother
    rw [← hother, hown]

end Isolation

/-- A threshold that changes with the run. -/
def thresholdByRun (_ : String) (r : Int) : Table := [[0, r]]

/-- Two threads, the second on the next run while the first is still on its own. -/
def twoThreads : List (ThreadCall Bool) :=
  [.mapCalibrationHandler (true, "/Paddles/Threshold"), .mapCalibrationHandler (false, "/Paddles/Threshold"),
    .updateCalibrationHandler (true, "/Paddles/Threshold") 1,
    .updateCalibrationHandler (false, "/Paddles/Threshold") 2]

theorem twoThreads_follows (h : Bool × String) : Lifecycle.Follows (ThreadCall.move h) twoThreads := by
  obtain ⟨b, name⟩ := h
  by_cases hname : "/Paddles/Threshold" = name
  · subst hname
    cases b <;> decide
  · have hmove : ∀ c ∈ twoThreads, c.move (b, name) = none := by
      simp [twoThreads, ThreadCall.move, hname]
    exact Lifecycle.follows_of_none hmove

/-- With a threshold that does not change they do not disturb each other. -/
theorem runIsolation_twoThreads :
    (∀ h, Lifecycle.Follows (ThreadCall.move h) twoThreads) ∧
      SameConstants (fun _ => .paddles) (fun _ _ => [[0, 5]]) twoThreads ∧
      RunIsolated (fun _ => .paddles) (fun _ _ => [[0, 5]]) twoThreads := by
  have hsame : SameConstants (fun _ => .paddles) (fun _ _ => [[0, 5]]) twoThreads := by
    intro pre c suf hsplit h r hc
    exact ⟨rfl, fun _ _ _ _ => rfl⟩
  exact ⟨twoThreads_follows, hsame, (runIsolation _ _ twoThreads twoThreads_follows).1 hsame⟩

/-- The second thread is served the table of the first thread's run. -/
theorem twoThreads_not_isolated : ¬ RunIsolated (fun _ => .paddles) thresholdByRun twoThreads := by
  intro h
  have hown := h twoThreads List.prefix_rfl (false, "/Paddles/Threshold") 2 ⟨twoThreads.take 3, [], rfl, by simp⟩
  have hreal : ((afterThreads (fun _ => .paddles) thresholdByRun twoThreads).handlers
      (false, "/Paddles/Threshold")).getRawCalibData = [[0, 1]] := rfl
  rw [hreal] at hown
  exact absurd hown (by decide +kernel)

end BdxReco
