import BdxReco.Jana.FactorySet
import BdxReco.Lib.Run

/-!
# `Jana.FactoryCalls` — which methods of a factory are called, and when

Everything follows from the steps that `JEventLoop::Get` can take (`Move`), over any number of events of any runs, with
any requests of the event processors, whatever the factories ask of each other and whatever they throw.

* `calls_follow`: `init` once, then `brun` and `erun` in turn, and `evnt` between those for the run of its event.
* `evnt_once`: in an event, `evnt` returns at most once, and not where the source has the objects.
* `get_again`: in an event, everybody is given the same objects.
* `persistent_forever`: a persistent factory that was asked once is never told of another run.
* `locked_forever`: a factory that has thrown a number is busy for ever.
-/

namespace BdxReco

namespace Jana

variable {ι α σ : Type} [DecidableEq ι]

/-- Which move of the factory `f` a call is. -/
def Call.move (f : ι) : Call ι → Option Lifecycle.Move
  | .init g => if g = f then some .setUp else none
  | .brun g _ => if g = f then some .enter else none
  | .erun g => if g = f then some .leave else none
  | .evnt _ _ _ => none

theorem Call.move_of_ne {f : ι} {c : Call ι} (h : c.factory ≠ f) : c.move f = none := by
  cases c with
  | init | brun | erun => exact if_neg h
  | evnt => rfl

/-- Whether a call is `evnt` of the factory `f`. -/
def Call.isEvnt (f : ι) : Call ι → Bool
  | .evnt g _ _ => decide (g = f)
  | .init _ | .brun _ _ | .erun _ => false

theorem Call.isEvnt_of_ne {f : ι} {c : Call ι} (h : c.factory ≠ f) : c.isEvnt f = false := by
  cases c with
  | evnt => exact decide_eq_false h
  | init | brun | erun => rfl

namespace Factories

open Run

variable {p : Setup ι α σ} {e : Event ι α} {s s' s₁ s₂ : Factories ι α σ} {f g : ι}

/-- The factory 0 takes over the object of the factory 1, which is persistent. -/
def relay : Setup (Fin 2) Nat Unit where
  factories := [0, 1]
  algorithm := fun f =>
    if f = 0 then
      { init := .ret, brun := fun _ => .ret, erun := .ret
        evnt := fun _ members => .getSingle 1 members fun x => .push x (.ret members) }
    else
      { init := fun members => .persist (.ret members), brun := fun _ => .ret, erun := .ret
        evnt := fun eventnumber members => .push eventnumber (.ret members) }

/-- An event of which the source has no objects. -/
def plain (runnumber : Int) (eventnumber : Nat) : Event (Fin 2) Nat := ⟨runnumber, eventnumber, fun _ => none⟩

/-! ## The rule for runs -/

/-- What the requests of an event leave behind. -/
structure Asked (e : Event ι α) (s s' : Factories ι α σ) : Prop where
  trace : Trace e s s'
  frame : Frame e (fun _ => True) s s'

theorem asked_of_requests {gets : List ι} (h : requests p e s gets = some s') : Asked e s s' := by
  unfold requests at h
  induction gets generalizing s with
  | nil =>
      rw [List.foldlM_nil] at h
      rw [Option.some.inj h]
      exact ⟨.refl, .refl e _ s'⟩
  | cons f gets ih =>
      rw [List.foldlM_cons] at h
      obtain ⟨s₁, hfirst, hrest⟩ := Option.bind_eq_some_iff.mp h
      obtain ⟨⟨r, s₂⟩, hget, rfl⟩ := Option.map_eq_some_iff.mp hfirst
      have hmade := get_spec hget
      exact ⟨hmade.trace.trans (ih hrest).trace, hmade.frame.trans (ih hrest).frame⟩

/-- What every step keeps. -/
theorem Trace.keeps {I : Factories ι α σ → Prop} (hmove : ∀ s s', Move e s s' → I s → I s') (h : Trace e s s')
    (hs : I s) : I s' := by
  induction h with
  | refl => exact hs
  | tail _ hlast ih => exact hmove _ _ hlast ih

/-- **The invariant rule** for an event loop. -/
theorem run_keeps {I : Factories ι α σ → Prop} {events : List (Event ι α × List ι)}
    (hclear : ∀ s, I s → I s.clearFactories) (hmove : ∀ e s s', Move e s s' → I s → I s')
    (h : run p s events = some s') (hs : I s) : I s' := by
  induction events generalizing s with
  | nil =>
      rw [run, List.foldlM_nil] at h
      rwa [← Option.some.inj h]
  | cons event events ih =>
      rw [run, List.foldlM_cons] at h
      obtain ⟨s₁, hfirst, hrest⟩ := Option.bind_eq_some_iff.mp h
      exact ih hrest (Trace.keeps (hmove event.1) (asked_of_requests hfirst).trace (hclear s hs))

/-! ## The order of the calls -/

/-- Where a factory stands, by its flags. -/
def phaseOf (fac : JFactory α σ) : Lifecycle.Phase :=
  if fac.brun_called then .active else if fac.init_called then .idle else .fresh

/-- The last call of `brun` was for the run `r`, and nothing has followed it. -/
def Current (f : ι) (r : Int) (calls : List (Call ι)) : Prop :=
  ∃ l₁ l₂, calls = l₁ ++ .brun f r :: l₂ ∧ ∀ c ∈ l₂, c.move f = none

theorem Current.concat {r : Int} {calls : List (Call ι)} {c : Call ι} (h : Current f r calls) (hc : c.move f = none) :
    Current f r (calls ++ [c]) := by
  obtain ⟨l₁, l₂, rfl, hl₂⟩ := h
  refine ⟨l₁, l₂ ++ [c], by simp, ?_⟩
  intro c' hc'
  rcases List.mem_append.mp hc' with hc' | hc'
  · exact hl₂ c' hc'
  · rw [List.mem_singleton.mp hc', hc]

/-- The flags of the factory `f` tell the calls of its methods. -/
structure Tells (f : ι) (s : Factories ι α σ) : Prop where
  phase : Lifecycle.phase (Call.move f) s.calls = some (phaseOf (s.fac f))
  init : (s.fac f).brun_called = true → (s.fac f).init_called = true
  erun : (s.fac f).brun_called = true → (s.fac f).erun_called = false
  current : (s.fac f).brun_called = true → Current f (s.fac f).brun_runnumber s.calls

theorem phase_moved {m : Lifecycle.Move} {c : Call ι} {ph ph' : Lifecycle.Phase}
    (hs : Lifecycle.phase (Call.move f) s.calls = some ph) (hc : c.move f = some m) (hph : ph.next m = some ph') :
    Lifecycle.phase (Call.move f) (s.calls ++ [c]) = some ph' := by
  rw [Lifecycle.phase_concat, hs]
  show Lifecycle.Phase.after (Call.move f) ph c = some ph'
  unfold Lifecycle.Phase.after
  rw [hc]
  exact hph

theorem phase_silent {c : Call ι} {ph : Lifecycle.Phase} (hs : Lifecycle.phase (Call.move f) s.calls = some ph)
    (hc : c.move f = none) : Lifecycle.phase (Call.move f) (s.calls ++ [c]) = some ph := by
  rw [Lifecycle.phase_concat, hs]
  show Lifecycle.Phase.after (Call.move f) ph c = some ph
  unfold Lifecycle.Phase.after
  rw [hc]

/-- Only these flags matter. -/
structure SameLife (a b : JFactory α σ) : Prop where
  init : b.init_called = a.init_called
  brun : b.brun_called = a.brun_called
  erun : b.erun_called = a.erun_called
  runnumber : b.brun_runnumber = a.brun_runnumber

theorem Tells.congr (hs : Tells f s) (hcalls : s'.calls = s.calls) (hlife : SameLife (s.fac f) (s'.fac f)) :
    Tells f s' := by
  refine ⟨?_, ?_, ?_, ?_⟩
  · rw [hcalls, hs.phase]
    unfold phaseOf
    rw [hlife.brun, hlife.init]
  · rw [hlife.brun, hlife.init]
    exact hs.init
  · rw [hlife.brun, hlife.erun]
    exact hs.erun
  · rw [hlife.brun, hlife.runnumber, hcalls]
    exact hs.current

theorem Tells.modify (hs : Tells f s) {φ : JFactory α σ → JFactory α σ} (hφ : SameLife (s.fac g) (φ (s.fac g))) :
    Tells f (s.modify g φ) := by
  have hcalls : (s.modify g φ).calls = s.calls := rfl
  apply hs.congr hcalls
  by_cases hfg : f = g
  · rw [hfg, modify_self]
    exact hφ
  · rw [modify_ne s hfg]
    exact ⟨rfl, rfl, rfl, rfl⟩

theorem fac_step_ne {φ : JFactory α σ → JFactory α σ} {c : Call ι} (h : f ≠ g) :
    ((s.modify g φ).returned c).fac f = s.fac f :=
  modify_ne s h φ

/-- A call of another factory. -/
theorem Tells.other (hs : Tells f s) (hne : g ≠ f) (c : Call ι) (hc : c.factory = g)
    (φ : JFactory α σ → JFactory α σ) : Tells f ((s.modify g φ).returned c) := by
  have hmove : c.move f = none := Call.move_of_ne (hc ▸ hne)
  have hsame : ((s.modify g φ).returned c).fac f = s.fac f := fac_step_ne (Ne.symm hne)
  refine ⟨?_, ?_, ?_, ?_⟩
  · rw [hsame]
    exact phase_silent hs.phase hmove
  · rw [hsame]
    exact hs.init
  · rw [hsame]
    exact hs.erun
  · rw [hsame]
    exact fun hbrun => (hs.current hbrun).concat hmove

theorem Tells.step (hs : Tells f s) (h : Move e s s') : Tells f s' := by
  cases h with
  | source | enter | throw => exact hs.modify ⟨rfl, rfl, rfl, rfl⟩
  | inside _ hφ => exact hs.modify ⟨hφ.init, hφ.brun, hφ.erun, hφ.runnumber⟩
  | @init g hwork hfresh =>
      by_cases hfg : g = f
      · subst hfg
        have hbrun : (s.fac g).brun_called = false := by
          by_contra hbrun
          exact absurd (hs.init (by simpa using hbrun)) (by simp [hfresh])
        have hphase := hs.phase
        unfold phaseOf at hphase
        rw [hbrun, hfresh] at hphase
        refine ⟨?_, ?_, ?_, ?_⟩ <;> rw [fac_step]
        · unfold phaseOf
          rw [hbrun]
          exact phase_moved hphase (if_pos rfl) rfl
        · exact fun _ => rfl
        · exact fun hbrun' => absurd hbrun' (by simp [hbrun])
        · exact fun hbrun' => absurd hbrun' (by simp [hbrun])
      · exact hs.other hfg (.init g) rfl _
  | @erun g hwork hinit hbrun herun hrun =>
      by_cases hfg : g = f
      · subst hfg
        have hphase := hs.phase
        unfold phaseOf at hphase
        rw [hbrun] at hphase
        refine ⟨?_, ?_, ?_, ?_⟩ <;> rw [fac_step]
        · unfold phaseOf
          simp only [hinit]
          exact phase_moved hphase (if_pos rfl) rfl
        · exact fun hbrun' => absurd hbrun' (by simp)
        · exact fun hbrun' => absurd hbrun' (by simp)
        · exact fun hbrun' => absurd hbrun' (by simp)
      · exact hs.other hfg (.erun g) rfl _
  | @drop g hwork hdrop =>
      by_cases hfg : g = f
      · subst hfg
        have hbrun : (s.fac g).brun_called = false := by
          by_contra hbrun
          have hbrun : (s.fac g).brun_called = true := by simpa using hbrun
          exact absurd (hdrop hbrun) (by simp [hs.erun hbrun])
        exact hs.modify ⟨rfl, hbrun.symm, rfl, rfl⟩
      · refine hs.congr rfl ?_
        rw [modify_ne s (Ne.symm hfg)]
        exact ⟨rfl, rfl, rfl, rfl⟩
  | @brun g hwork hinit hfresh =>
      by_cases hfg : g = f
      · subst hfg
        have hphase := hs.phase
        unfold phaseOf at hphase
        rw [hfresh, hinit] at hphase
        refine ⟨?_, ?_, ?_, ?_⟩ <;> rw [fac_step]
        · exact phase_moved hphase (if_pos rfl) rfl
        · exact fun _ => hinit
        · exact fun _ => rfl
        · exact fun _ => ⟨s.calls, [], rfl, fun _ hc => absurd hc List.not_mem_nil⟩
      · exact hs.other hfg (.brun g e.runnumber) rfl _
  | @evnt g hwork hbrun hrun =>
      by_cases hfg : g = f
      · subst hfg
        refine ⟨?_, ?_, ?_, ?_⟩ <;> rw [fac_step]
        · exact phase_silent hs.phase rfl
        · exact hs.init
        · exact hs.erun
        · exact fun hbrun' => (hs.current hbrun').concat rfl
      · exact hs.other hfg (.evnt g e.runnumber e.eventnumber) rfl _

theorem Tells.clear (hs : Tells f s) : Tells f s.clearFactories := by
  have hcalls : s.clearFactories.calls = s.calls := rfl
  apply hs.congr hcalls
  show SameLife (s.fac f) (if (s.fac f).persistant then s.fac f else _)
  split <;> exact ⟨rfl, rfl, rfl, rfl⟩

/-- Every `evnt` is for the run that the factory was told of last. -/
def EvntsInRun (s : Factories ι α σ) : Prop :=
  AtEvery (fun pre c => ∀ f r n, c = .evnt f r n → Current f r pre) s.calls

theorem evntsInRun_step (htells : ∀ f, Tells f s) (hs : EvntsInRun s) (h : Move e s s') : EvntsInRun s' := by
  have hconcat : ∀ {c : Call ι} {g : ι} {φ : JFactory α σ → JFactory α σ},
      (∀ f r n, c = .evnt f r n → Current f r s.calls) → EvntsInRun ((s.modify g φ).returned c) :=
    fun hc => atEvery_concat.mpr ⟨hs, hc⟩
  cases h with
  | source | enter | throw | inside | drop => exact hs
  | init | erun | brun =>
      apply hconcat
      intro f r n hc
      exact absurd hc (by simp)
  | @evnt g hwork hbrun hrun =>
      apply hconcat
      intro f r n hc
      obtain ⟨rfl, rfl, rfl⟩ := Call.evnt.inj hc
      exact hrun ▸ (htells g).current hbrun

theorem new_tells (members : ι → σ) (f : ι) : Tells f (new members : Factories ι α σ) :=
  ⟨rfl, fun h => absurd h (by simp [new]), fun h => absurd h (by simp [new]), fun h => absurd h (by simp [new])⟩

theorem Tells.follows (hs : Tells f s) : Lifecycle.Follows (Call.move f) s.calls := by
  unfold Lifecycle.Follows
  rw [hs.phase]
  rfl

/-- The flags tell the calls, after any number of events. -/
theorem tells_of_run {members : ι → σ} {events : List (Event ι α × List ι)} (h : run p (new members) events = some s) :
    (∀ f, Tells f s) ∧ EvntsInRun s := by
  apply run_keeps (I := fun s => (∀ f, Tells f s) ∧ EvntsInRun s) _ _ h
  · exact ⟨fun f => new_tells members f, atEvery_nil _⟩
  · exact fun s hs => ⟨fun f => (hs.1 f).clear, hs.2⟩
  · exact fun e s s' hmove hs => ⟨fun f => (hs.1 f).step hmove, evntsInRun_step hs.1 hs.2 hmove⟩

/-- **The methods of every factory are called in order**: `init` once, then `brun` and `erun` in turn, and every `evnt`
after the `brun` for the run of its event and before the `erun`. -/
theorem calls_follow {members : ι → σ} {events : List (Event ι α × List ι)} (h : run p (new members) events = some s) :
    (∀ f, Lifecycle.Follows (Call.move f) s.calls) ∧ EvntsInRun s :=
  ⟨fun f => ((tells_of_run h).1 f).follows, (tells_of_run h).2⟩

theorem calls_follow_relay : ∃ s, run relay (new fun _ => ()) [(plain 1 7, [0]), (plain 2 8, [0, 1])] = some s ∧
    (∀ f, Lifecycle.Follows (Call.move f) s.calls) ∧ EvntsInRun s := by
  obtain ⟨s, hs⟩ := Option.isSome_iff_exists.mp
    (run_isSome relay [(plain 1 7, [0]), (plain 2 8, [0, 1])] (new fun _ => ()))
  exact ⟨s, hs, calls_follow hs⟩

-- The persistent factory is not told of the run 2.
example : (run relay (new fun _ => ()) [(plain 1 7, [0]), (plain 2 8, [0, 1])]).map Factories.calls =
    some [.init 0, .brun 0 1, .init 1, .brun 1 1, .evnt 1 1 7, .evnt 0 1 7, .erun 0, .brun 0 2, .evnt 0 2 8] := by
  decide

/-! ## In one event -/

/-- **A step works on one factory**, whose objects are not in the cache. -/
theorem Move.works (h : Move e s s') :
    ∃ g, (s.fac g).evnt_called = false ∧ (∀ f, f ≠ g → s'.fac f = s.fac f) ∧
      (s'.calls = s.calls ∨ ∃ c, s'.calls = s.calls ++ [c] ∧ c.factory = g ∧
        (c.isEvnt g = true → (s'.fac g).evnt_called = true ∧ e.objects g = none)) := by
  cases h with
  | @source g _ hevnt | @enter g hevnt => exact ⟨g, hevnt, fun f hf => modify_ne s hf _, Or.inl rfl⟩
  | @inside g _ hwork | @throw g hwork | @drop g hwork =>
      exact ⟨g, hwork.evnt, fun f hf => modify_ne s hf _, Or.inl rfl⟩
  | @init g hwork | @erun g hwork | @brun g hwork =>
      refine ⟨g, hwork.evnt, fun f hf => fac_step_ne hf, Or.inr ⟨_, rfl, rfl, fun hc => ?_⟩⟩
      exact absurd hc (by simp [Call.isEvnt])
  | @evnt g hwork =>
      refine ⟨g, hwork.evnt, fun f hf => fac_step_ne hf, Or.inr ⟨_, rfl, rfl, fun _ => ⟨?_, hwork.source⟩⟩⟩
      rw [fac_step]

/-- Since the calls `calls`, `evnt` has returned at most once for the factory `f`, and then the objects are in the
cache. -/
structure Once (e : Event ι α) (calls : List (Call ι)) (f : ι) (s : Factories ι α σ) : Prop where
  since : ∃ l, s.calls = calls ++ l ∧ l.countP (Call.isEvnt f) ≤ 1 ∧
    (0 < l.countP (Call.isEvnt f) → (s.fac f).evnt_called = true ∧ e.objects f = none)

theorem Once.step {calls : List (Call ι)} (hs : Once e calls f s) (h : Move e s s') : Once e calls f s' := by
  obtain ⟨l, hcalls, hle, hserved⟩ := hs.since
  obtain ⟨g, hevnt, hother, hcall⟩ := h.works
  by_cases hgf : f = g
  · subst hgf
    have hzero : l.countP (Call.isEvnt f) = 0 := by
      by_contra hpos
      exact absurd (hserved (Nat.pos_of_ne_zero hpos)).1 (by simp [hevnt])
    rcases hcall with hsame | ⟨c, hc, _, hmade⟩
    · exact ⟨l, hsame.trans hcalls, hle, fun hpos => absurd hpos (by omega)⟩
    · refine ⟨l ++ [c], by rw [hc, hcalls, List.append_assoc], ?_, ?_⟩ <;>
        rw [List.countP_append, hzero, Nat.zero_add]
      · exact List.countP_le_length
      · intro hpos
        obtain ⟨c', hc', hevnt'⟩ := List.countP_pos_iff.mp hpos
        exact hmade (List.mem_singleton.mp hc' ▸ hevnt')
  · rcases hcall with hsame | ⟨c, hc, hfactory, _⟩
    · exact ⟨l, hsame.trans hcalls, hle, hother f hgf ▸ hserved⟩
    · have hnot : Call.isEvnt f c = false := Call.isEvnt_of_ne (by rw [hfactory]; exact Ne.symm hgf)
      have hcount : (l ++ [c]).countP (Call.isEvnt f) = l.countP (Call.isEvnt f) := by
        rw [List.countP_append, List.countP_singleton, hnot]
        rfl
      refine ⟨l ++ [c], by rw [hc, hcalls, List.append_assoc], ?_, ?_⟩ <;> rw [hcount]
      · exact hle
      · exact hother f hgf ▸ hserved

/-- **In an event, a factory makes its objects at most once**, and not if the source has them. -/
theorem evnt_once {gets : List ι} (h : oneEvent p s e gets = some s') (f : ι) :
    ∃ l, s'.calls = s.calls ++ l ∧ l.countP (Call.isEvnt f) ≤ 1 ∧
      ((e.objects f).isSome = true → l.countP (Call.isEvnt f) = 0) := by
  have hstart : Once e s.calls f s.clearFactories := ⟨[], (List.append_nil _).symm, Nat.zero_le _, by simp⟩
  have honce : Once e s.calls f s' := Trace.keeps (fun _ _ hmove hs => Once.step hs hmove) (asked_of_requests h).trace hstart
  obtain ⟨l, hcalls, hle, hserved⟩ := honce.since
  refine ⟨l, hcalls, hle, fun hsource => ?_⟩
  by_contra hpos
  rw [(hserved (Nat.pos_of_ne_zero hpos)).2] at hsource
  exact absurd hsource (by simp)

theorem evnt_once_relay : ∃ s l, oneEvent relay (new fun _ => ()) (plain 1 7) [0, 1, 0] = some s ∧ s.calls = l ∧
    l.countP (Call.isEvnt 1) ≤ 1 := by
  obtain ⟨s, hs⟩ : ∃ s, oneEvent relay (new fun _ => ()) (plain 1 7) [0, 1, 0] = some s := ⟨_, rfl⟩
  obtain ⟨l, hcalls, hle, _⟩ := evnt_once hs 1
  exact ⟨s, l, hs, hcalls, hle⟩

/-- Nothing has happened to the factory `f` since the state `s`. -/
structure Untouched (f : ι) (s s' : Factories ι α σ) : Prop where
  fac : s'.fac f = s.fac f
  calls : ∃ l, s'.calls = s.calls ++ l ∧ ∀ c ∈ l, c.factory ≠ f

omit [DecidableEq ι] in
theorem Untouched.refl (f : ι) (s : Factories ι α σ) : Untouched f s s :=
  ⟨rfl, [], (List.append_nil _).symm, fun _ hc => absurd hc List.not_mem_nil⟩

omit [DecidableEq ι] in
theorem Untouched.trans (h₁ : Untouched f s s₁) (h₂ : Untouched f s₁ s₂) : Untouched f s s₂ := by
  obtain ⟨l₁, hcalls₁, hl₁⟩ := h₁.calls
  obtain ⟨l₂, hcalls₂, hl₂⟩ := h₂.calls
  refine ⟨h₂.fac.trans h₁.fac, l₁ ++ l₂, by rw [hcalls₂, hcalls₁, List.append_assoc], ?_⟩
  exact fun c hc => (List.mem_append.mp hc).elim (hl₁ c) (hl₂ c)

/-- A step leaves the factories alone whose objects are in the cache. -/
theorem Move.cached (h : Move e s s') (hf : (s.fac f).evnt_called = true) : Untouched f s s' := by
  obtain ⟨g, hevnt, hother, hcall⟩ := h.works
  have hne : f ≠ g := by
    rintro rfl
    exact absurd hf (by simp [hevnt])
  refine ⟨hother f hne, ?_⟩
  rcases hcall with hsame | ⟨c, hc, hfactory, _⟩
  · exact ⟨[], by rw [hsame, List.append_nil], fun _ hc => absurd hc List.not_mem_nil⟩
  · refine ⟨[c], hc, fun c' hc' => ?_⟩
    rw [List.mem_singleton.mp hc', hfactory]
    exact Ne.symm hne

theorem Trace.cached (h : Trace e s s') (hf : (s.fac f).evnt_called = true) : Untouched f s s' := by
  refine Trace.keeps (I := fun s' => Untouched f s s') ?_ h (.refl f s)
  intro s₁ s₂ hmove hs
  exact hs.trans (hmove.cached (hs.fac ▸ hf))

/-- **In an event, everybody is given the same objects**: after a factory has given them once, it gives them again,
whatever steps the event loop has taken in between, for the event processors or inside the methods of other factories, and
none of its methods is called. -/
theorem get_again {depth depth' : Nat} {objects : List α} (h : get p e depth f s = some (.ok objects, s₁))
    (hsteps : Trace e s₁ s₂) :
    get p e (depth' + 1) f s₂ = some (.ok objects, s₂) ∧ Untouched f s₁ s₂ := by
  obtain ⟨hevnt, hdata⟩ := (get_spec h).served objects rfl
  have huntouched := Trace.cached hsteps hevnt
  refine ⟨?_, huntouched⟩
  have hmem : f ∈ p.factories := by
    cases depth with
    | zero => exact absurd h.symm (Option.some_ne_none _)
    | succ depth =>
        by_contra hno
        rw [get, if_pos hno] at h
        exact absurd h (by simp)
  rw [get, if_neg (by simpa using hmem), huntouched.fac, if_pos hevnt, hdata]

theorem get_again_relay : ∃ s₁ s₂, get relay (plain 1 7) 3 0 (new fun _ => ()) = some (.ok [7], s₁) ∧
    requests relay (plain 1 7) s₁ [1] = some s₂ ∧ get relay (plain 1 7) 3 0 s₂ = some (.ok [7], s₂) := by
  obtain ⟨s₁, hget⟩ : ∃ s₁, get relay (plain 1 7) 3 0 (new fun _ => ()) = some (.ok [7], s₁) := ⟨_, rfl⟩
  obtain ⟨s₂, hgets⟩ := Option.isSome_iff_exists.mp (requests_isSome relay (plain 1 7) s₁ [1])
  exact ⟨s₁, s₂, hget, hgets, (get_again hget (asked_of_requests hgets).trace).1⟩

/-! ## From event to event -/

/-- **A persistent factory is never told of another run**: once its objects are in the cache, it gives them in every
later event of every run, and no method of it is called again. -/
theorem persistent_forever {events : List (Event ι α × List ι)} (hpersistant : (s.fac f).persistant = true)
    (hserved : (s.fac f).evnt_called = true) (h : run p s events = some s') : Untouched f s s' := by
  have hkeep : ∀ {s₁ : Factories ι α σ}, Untouched f s s₁ →
      (s₁.fac f).persistant = true ∧ (s₁.fac f).evnt_called = true :=
    fun hs => ⟨hs.fac ▸ hpersistant, hs.fac ▸ hserved⟩
  refine run_keeps (I := fun s' => Untouched f s s') ?_ ?_ h (.refl f s)
  · intro s₁ hs
    refine hs.trans ⟨?_, [], (List.append_nil _).symm, fun _ hc => absurd hc List.not_mem_nil⟩
    exact if_pos (hkeep hs).1
  · intro e s₁ s₂ hmove hs
    exact hs.trans (hmove.cached (hkeep hs).2)

theorem persistent_forever_relay : ∃ s s', run relay (new fun _ => ()) [(plain 1 7, [0])] = some s ∧
    run relay s [(plain 2 8, [0])] = some s' ∧ Untouched 1 s s' := by
  obtain ⟨s, hs, hpersistant, hserved⟩ : ∃ s, run relay (new fun _ => ()) [(plain 1 7, [0])] = some s ∧
      (s.fac 1).persistant = true ∧ (s.fac 1).evnt_called = true := ⟨_, rfl, rfl, rfl⟩
  obtain ⟨s', hs'⟩ := Option.isSome_iff_exists.mp (run_isSome relay [(plain 2 8, [0])] s)
  exact ⟨s, s', hs, hs', persistent_forever hpersistant hserved hs'⟩

/-- What the event loop does in an event when the factory `f` is not at work: requests, of the event processors or of
other factories in the middle of their methods, and what these methods do themselves. -/
inductive Later (p : Setup ι α σ) (e : Event ι α) (f : ι) (s : Factories ι α σ) : Factories ι α σ → Prop where
  | refl : Later p e f s s
  | request {g : ι} {depth : Nat} {r : Except Thrown (List α)} {s₁ s₂ : Factories ι α σ} :
      Later p e f s s₁ → get p e depth g s₁ = some (r, s₂) → Later p e f s s₂
  | other {s₁ s₂ : Factories ι α σ} : Later p e f s s₁ → Untouched f s₁ s₂ → Later p e f s s₂

theorem later_of_requests {gets : List ι} (h : requests p e s gets = some s') : Later p e f s s' := by
  induction gets using List.reverseRecOn generalizing s' with
  | nil =>
      rw [requests, List.foldlM_nil] at h
      rw [← Option.some.inj h]
      exact .refl
  | append_singleton gets g ih =>
      rw [requests, List.foldlM_append] at h
      obtain ⟨s₁, hgets, hlast⟩ := Option.bind_eq_some_iff.mp h
      rw [List.foldlM_cons] at hlast
      obtain ⟨s₂, hmap, heq⟩ := Option.bind_eq_some_iff.mp hlast
      obtain ⟨⟨r, s₃⟩, hget, rfl⟩ := Option.map_eq_some_iff.mp hmap
      obtain rfl := Option.some.inj heq
      exact (ih hgets).request hget

theorem untouched_modify (s : Factories ι α σ) (hne : g ≠ f) (φ : JFactory α σ → JFactory α σ) :
    Untouched f s (s.modify g φ) :=
  ⟨modify_ne s (Ne.symm hne) φ, [], (List.append_nil _).symm, fun _ hc => absurd hc List.not_mem_nil⟩

/-- From anywhere in the method of another factory to its end. -/
theorem Later.exec {depth : Nat} {m : Method ι α σ} {r : Except Thrown Unit} (hs : Later p e f s s₁) (hne : g ≠ f)
    (h : Factories.exec (get p e depth) g m s₁ = some (r, s')) : Later p e f s s' := by
  induction m generalizing s₁ with
  | ret | throw =>
      obtain ⟨-, rfl⟩ := Prod.mk.inj (Option.some.inj h)
      exact hs.other (untouched_modify s₁ hne _)
  | push _ rest ih | clear rest ih | persist rest ih =>
      rw [Factories.exec] at h
      exact ih (hs.other (untouched_modify s₁ hne _)) h
  | get k rest ih =>
      rw [Factories.exec] at h
      cases hget : get p e depth k s₁ with
      | none =>
          rw [hget] at h
          exact absurd h.symm (Option.some_ne_none _)
      | some result =>
          rw [hget] at h
          exact ih result.1 (hs.request hget) h

/-- A method of another factory, and what is done about what it throws. -/
theorem Later.call {depth : Nat} {m : Method ι α σ} {c : Call ι} {set : JFactory α σ → JFactory α σ}
    {r : Except Thrown Unit} (hs : Later p e f s s₁) (hne : c.factory ≠ f)
    (h : Factories.call (get p e depth) c.factory m c set s₁ = some (r, s')) : Later p e f s s' := by
  unfold Factories.call at h
  cases hexec : Factories.exec (get p e depth) c.factory m s₁ with
  | none =>
      rw [hexec] at h
      exact absurd h.symm (Option.some_ne_none _)
  | some result =>
      obtain ⟨r₂, s₂⟩ := result
      have hlater := hs.exec hne hexec
      rw [hexec] at h
      cases r₂ with
      | ok =>
          obtain ⟨-, rfl⟩ := Prod.mk.inj (Option.some.inj h)
          have hreturned : Untouched f (s₂.modify c.factory set) ((s₂.modify c.factory set).returned c) :=
            ⟨rfl, [c], rfl, fun c' hc' => List.mem_singleton.mp hc' ▸ hne⟩
          exact hlater.other ((untouched_modify s₂ hne set).trans hreturned)
      | error thrown =>
          cases thrown with
          | exception =>
              obtain ⟨-, rfl⟩ := Prod.mk.inj (Option.some.inj h)
              exact hlater.other (untouched_modify s₂ hne _)
          | number =>
              obtain ⟨-, rfl⟩ := Prod.mk.inj (Option.some.inj h)
              exact hlater

/-- No method of the factory `f` has returned since the calls `calls`. -/
def Silent (f : ι) (calls : List (Call ι)) (s : Factories ι α σ) : Prop :=
  ∃ l, s.calls = calls ++ l ∧ ∀ c ∈ l, c.factory ≠ f

/-- A factory that is busy between two requests: nobody will make it free again. -/
structure Locked (f : ι) (calls : List (Call ι)) (s : Factories ι α σ) : Prop where
  busy : (s.fac f).busy = true
  silent : Silent f calls s

omit [DecidableEq ι] in
theorem Locked.framed {calls : List (Call ι)} (hs : Locked f calls s) (h : Frame e (fun _ => True) s s') :
    Locked f calls s' := by
  obtain ⟨l₁, hcalls₁, hl₁⟩ := hs.silent
  obtain ⟨l₂, hcalls₂, hl₂⟩ := h.calls
  refine ⟨h.busy f trivial hs.busy, l₁ ++ l₂, by rw [hcalls₂, hcalls₁, List.append_assoc], ?_⟩
  intro c hc
  rcases List.mem_append.mp hc with hc | hc
  · exact hl₁ c hc
  · rintro rfl
    exact absurd (hl₂ c hc trivial) (by simp [hs.busy])

/-- In an event, nobody makes it free again, and where the source does not have its objects nothing happens to it. -/
theorem Locked.later {calls : List (Call ι)} (hs : Locked f calls s) (h : Later p e f s s') :
    Locked f calls s' ∧ (e.objects f = none → s'.fac f = s.fac f) := by
  induction h with
  | refl => exact ⟨hs, fun _ => rfl⟩
  | request _ hget ih =>
      have hframe := (get_spec hget).frame
      exact ⟨ih.1.framed hframe, fun hsource => (hframe.same f trivial ih.1.busy hsource).trans (ih.2 hsource)⟩
  | other _ huntouched ih =>
      obtain ⟨l₁, hcalls₁, hl₁⟩ := ih.1.silent
      obtain ⟨l₂, hcalls₂, hl₂⟩ := huntouched.calls
      refine ⟨⟨huntouched.fac ▸ ih.1.busy, l₁ ++ l₂, by rw [hcalls₂, hcalls₁, List.append_assoc], ?_⟩,
        fun hsource => huntouched.fac.trans (ih.2 hsource)⟩
      exact fun c hc => (List.mem_append.mp hc).elim (hl₁ c) (hl₂ c)

omit [DecidableEq ι] in
theorem clear_busy (s : Factories ι α σ) (f : ι) : (s.clearFactories.fac f).busy = (s.fac f).busy := by
  show JFactory.busy (if (s.fac f).persistant then s.fac f else _) = _
  split <;> rfl

omit [DecidableEq ι] in
theorem clear_evnt (h : (s.fac f).evnt_called = false) : (s.clearFactories.fac f).evnt_called = false := by
  show JFactory.evnt_called (if (s.fac f).persistant then s.fac f else _) = _
  split
  · exact h
  · rfl

theorem Locked.run {calls : List (Call ι)} {events : List (Event ι α × List ι)} (hs : Locked f calls s)
    (h : run p s events = some s') :
    Locked f calls s' ∧ ((s.fac f).evnt_called = false → (∀ event ∈ events, event.1.objects f = none) →
      (s'.fac f).evnt_called = false) := by
  induction events generalizing s with
  | nil =>
      rw [Factories.run, List.foldlM_nil] at h
      rw [← Option.some.inj h]
      exact ⟨hs, fun hevnt _ => hevnt⟩
  | cons event events ih =>
      rw [Factories.run, List.foldlM_cons] at h
      obtain ⟨s₁, hfirst, hrest⟩ := Option.bind_eq_some_iff.mp h
      have hclear : Locked f calls s.clearFactories := ⟨clear_busy s f ▸ hs.busy, hs.silent⟩
      obtain ⟨hlocked, hevnts⟩ := ih (hclear.framed (asked_of_requests hfirst).frame) hrest
      refine ⟨hlocked, fun hevnt hsource => hevnts ?_ fun event hevent => hsource event (List.mem_cons_of_mem _ hevent)⟩
      rw [(asked_of_requests hfirst).frame.same f trivial hclear.busy (hsource event List.mem_cons_self)]
      exact clear_evnt hevnt

/-- **A number that a factory throws locks it for ever**, since only a `std::exception` makes it free again: whoever has
asked for its objects, and whatever the event loop goes on to do in the event, none of its methods is called in it and in
any later event, and where the sources do not have its objects, everybody who asks for them is told of an infinite
recursion. -/
theorem locked_forever {depth depth' n : Nat} {events : List (Event ι α × List ι)} {e' : Event ι α}
    {s₃ : Factories ι α σ} (h : get p e depth f s = some (.error (.number n), s₁)) (hlater : Later p e f s₁ s₂)
    (hrun : run p s₂ events = some s₃) :
    Silent f s₁.calls s₃ ∧ ((∀ event ∈ events, event.1.objects f = none) → e'.objects f = none →
      get p e' (depth' + 1) f s₃ = some (.error .exception, s₃)) := by
  have hwork := (get_spec h).stuck n rfl
  have hlocked : Locked f s₁.calls s₁ :=
    ⟨hwork.busy, [], (List.append_nil _).symm, fun _ hc => absurd hc List.not_mem_nil⟩
  obtain ⟨hlocked₂, hsame⟩ := hlocked.later hlater
  obtain ⟨hlocked', hevnts⟩ := hlocked₂.run hrun
  refine ⟨hlocked'.silent, fun hsource hsource' => ?_⟩
  have hevnt : (s₂.fac f).evnt_called = false := by
    rw [hsame hwork.source]
    exact hwork.evnt
  unfold get
  split
  · rfl
  · rw [if_neg (by simp [hevnts hevnt hsource]), hsource']
    show make _ _ e' f s₃ = _
    unfold make
    rw [if_neg (by simp [hevnts hevnt hsource]), if_pos hlocked'.busy]

/-- An event of which the source has the objects of the factory 1, but there are none. -/
def noObject : Event (Fin 2) Nat := ⟨1, 7, fun f => if f = 1 then some [] else none⟩

theorem locked_forever_relay : ∃ s₁ s₂ s₃, get relay noObject 3 0 (new fun _ => ()) = some (.error (.number 0), s₁) ∧
    requests relay noObject s₁ [1] = some s₂ ∧ run relay s₂ [(plain 1 8, [0, 1])] = some s₃ ∧
      get relay (plain 1 9) 3 0 s₃ = some (.error .exception, s₃) := by
  obtain ⟨s₁, hget⟩ : ∃ s₁, get relay noObject 3 0 (new fun _ => ()) = some (.error (.number 0), s₁) := ⟨_, rfl⟩
  obtain ⟨s₂, hgets⟩ := Option.isSome_iff_exists.mp (requests_isSome relay noObject s₁ [1])
  obtain ⟨s₃, hrun⟩ := Option.isSome_iff_exists.mp (run_isSome relay [(plain 1 8, [0, 1])] s₂)
  exact ⟨s₁, s₂, s₃, hget, hgets, hrun, (locked_forever hget (later_of_requests hgets) hrun).2 (by simp [plain]) rfl⟩

end Factories

end Jana

end BdxReco
