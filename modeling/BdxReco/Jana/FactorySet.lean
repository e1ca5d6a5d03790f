import BdxReco.Lib.Lifecycle
import Mathlib.Data.List.Basic
import Mathlib.Logic.Function.Basic
import Mathlib.Logic.Relation

/-!
# `Jana.FactorySet` — the factories of an event loop

A factory makes the objects of one class and tag (`JFactory<T>`). It is asked for them through the event loop
(`JEventLoop::Get`), which looks into the factory's cache, then into the event source, and has the factory make them at
last. On the way the factory is initialised and told of the run, and its algorithm asks other factories in turn. A `busy`
flag stands against an infinite recursion.

What a factory computes is left open: a `Method` says what the framework sees of it. Methods of a factory call `get` in
the middle, so `get` is defined by recursion on its depth. `get_isSome` says that the depth is bounded.
-/

namespace BdxReco

namespace Jana

/-- What is thrown: a `std::exception`, or the number of objects that `GetSingle` has found. -/
inductive Thrown where
  | exception
  | number (n : Nat)
  deriving DecidableEq, Repr

/-- What a method of a factory does, as far as the event loop sees it. `ι` are the classes and tags, `α` the objects and
`σ` the data members of the factories. -/
inductive Method (ι α σ : Type) where
  | ret (members : σ)
  | throw (e : Thrown) (members : σ)
  /-- `_data.push_back`. -/
  | push (object : α) (rest : Method ι α σ)
  /-- `_data.clear`. -/
  | clear (rest : Method ι α σ)
  /-- `SetFactoryFlag(PERSISTANT)`. -/
  | persist (rest : Method ι α σ)
  /-- `JEventLoop::Get`, with what follows on an exception. -/
  | get (f : ι) (rest : Except Thrown (List α) → Method ι α σ)

/-- `JEventLoop::GetSingle`, where nothing is caught. -/
def Method.getSingle {ι α σ : Type} (f : ι) (members : σ) (rest : α → Method ι α σ) : Method ι α σ :=
  .get f fun
    | .ok [x] => rest x
    | .ok objects => .throw (.number objects.length) members
    | .error e => .throw e members

/-- The methods that are written for a factory. What they return is ignored. -/
structure Algorithm (ι α σ : Type) where
  init : σ → Method ι α σ
  brun : Int → σ → Method ι α σ
  evnt : Nat → σ → Method ι α σ
  erun : σ → Method ι α σ

/-- `JFactory<T>`. -/
structure JFactory (α σ : Type) where
  _data : List α := []
  persistant : Bool := false
  busy : Bool := false
  init_called : Bool := false
  brun_called : Bool := false
  evnt_called : Bool := false
  erun_called : Bool := false
  brun_runnumber : Int := -1
  members : σ

/-- A method that has returned. -/
inductive Call (ι : Type) where
  | init (f : ι)
  | brun (f : ι) (runnumber : Int)
  | evnt (f : ι) (runnumber : Int) (eventnumber : Nat)
  | erun (f : ι)
  deriving DecidableEq, Repr

def Call.factory {ι : Type} : Call ι → ι
  | .init f | .brun f _ | .evnt f _ _ | .erun f => f

/-- The factories of an event loop, and the calls of their methods so far. -/
structure Factories (ι α σ : Type) where
  fac : ι → JFactory α σ
  calls : List (Call ι) := []

/-- An event. `objects f` is what `GetObjects` of its source copies into the factory `f`; `none` if it has no such
objects. -/
structure Event (ι α : Type) where
  runnumber : Int
  eventnumber : Nat
  objects : ι → Option (List α)

/-- The factories that are registered, and what they do. -/
structure Setup (ι α σ : Type) where
  factories : List ι
  algorithm : ι → Algorithm ι α σ

/-- What a call comes to; `none` if it goes too deep. -/
abbrev Outcome (ι α σ β : Type) : Type := Option (Except Thrown β × Factories ι α σ)

variable {ι α σ β γ : Type}

/-- Go on, unless something was thrown. -/
def Outcome.andThen (o : Outcome ι α σ β) (next : β → Factories ι α σ → Outcome ι α σ γ) : Outcome ι α σ γ :=
  match o with
  | none => none
  | some (.ok b, s) => next b s
  | some (.error e, s) => some (.error e, s)

theorem andThen_some {o : Outcome ι α σ β} {next : β → Factories ι α σ → Outcome ι α σ γ} {r : Except Thrown γ}
    {s' : Factories ι α σ} (h : o.andThen next = some (r, s')) :
    (∃ b s₁, o = some (.ok b, s₁) ∧ next b s₁ = some (r, s')) ∨ ∃ thrown, o = some (.error thrown, s') ∧ r = .error thrown := by
  unfold Outcome.andThen at h
  rcases o with _ | ⟨⟨thrown⟩ | ⟨b⟩, s₁⟩
  · exact absurd h.symm (Option.some_ne_none _)
  · obtain ⟨rfl, rfl⟩ := Prod.mk.inj (Option.some.inj h)
    exact Or.inr ⟨thrown, rfl, rfl⟩
  · exact Or.inl ⟨b, s₁, rfl, h⟩

namespace Factories

section Calls

variable [DecidableEq ι]

def modify (s : Factories ι α σ) (f : ι) (φ : JFactory α σ → JFactory α σ) : Factories ι α σ :=
  { s with fac := Function.update s.fac f (φ (s.fac f)) }

/-- A method has returned. -/
def returned (s : Factories ι α σ) (c : Call ι) : Factories ι α σ := { s with calls := s.calls ++ [c] }

/-- The method `m` of the factory `f`. -/
def exec (get : ι → Factories ι α σ → Outcome ι α σ (List α)) (f : ι) :
    Method ι α σ → Factories ι α σ → Outcome ι α σ Unit
  | .ret members, s => some (.ok (), s.modify f fun fac => { fac with members })
  | .throw e members, s => some (.error e, s.modify f fun fac => { fac with members })
  | .push x rest, s => exec get f rest (s.modify f fun fac => { fac with _data := fac._data ++ [x] })
  | .clear rest, s => exec get f rest (s.modify f fun fac => { fac with _data := [] })
  | .persist rest, s => exec get f rest (s.modify f fun fac => { fac with persistant := true })
  | .get g rest, s =>
    match get g s with
    | none => none
    | some (r, s) => exec get f (rest r) s

/-- A method is called; `set` sets the flags when it has returned. Only a `std::exception` is caught. -/
def call (get : ι → Factories ι α σ → Outcome ι α σ (List α)) (f : ι) (m : Method ι α σ) (c : Call ι)
    (set : JFactory α σ → JFactory α σ) (s : Factories ι α σ) : Outcome ι α σ Unit :=
  match exec get f m s with
  | none => none
  | some (.ok (), s) => some (.ok (), (s.modify f set).returned c)
  | some (.error .exception, s) => some (.error .exception, s.modify f fun fac => { fac with busy := false })
  | some (.error (.number n), s) => some (.error (.number n), s)

/-- Make sure the factory is initialised. -/
def callInit (get : ι → Factories ι α σ → Outcome ι α σ (List α)) (a : Algorithm ι α σ) (f : ι)
    (s : Factories ι α σ) : Outcome ι α σ Unit :=
  if (s.fac f).init_called then some (.ok (), s)
  else call get f (a.init (s.fac f).members) (.init f) (fun fac => { fac with init_called := true }) s

/-- Call `erun` if the run number has changed. -/
def callErun (get : ι → Factories ι α σ → Outcome ι α σ (List α)) (a : Algorithm ι α σ) (e : Event ι α) (f : ι)
    (s : Factories ι α σ) : Outcome ι α σ Unit :=
  if e.runnumber ≠ (s.fac f).brun_runnumber then
    (if (s.fac f).brun_called && !(s.fac f).erun_called then
      call get f (a.erun (s.fac f).members) (.erun f) (fun fac => { fac with erun_called := true }) s
    else some (.ok (), s)).andThen fun _ s => some (.ok (), s.modify f fun fac => { fac with brun_called := false })
  else some (.ok (), s)

/-- Call `brun` if it has not been called for this run. -/
def callBrun (get : ι → Factories ι α σ → Outcome ι α σ (List α)) (a : Algorithm ι α σ) (e : Event ι α) (f : ι)
    (s : Factories ι α σ) : Outcome ι α σ Unit :=
  if (s.fac f).brun_called then some (.ok (), s)
  else
    call get f (a.brun e.runnumber (s.fac f).members) (.brun f e.runnumber)
      (fun fac => { fac with brun_called := true, erun_called := false, brun_runnumber := e.runnumber }) s

/-- Call `evnt`. -/
def callEvnt (get : ι → Factories ι α σ → Outcome ι α σ (List α)) (a : Algorithm ι α σ) (e : Event ι α) (f : ι)
    (s : Factories ι α σ) : Outcome ι α σ Unit :=
  call get f (a.evnt e.eventnumber (s.fac f).members) (.evnt f e.runnumber e.eventnumber)
    (fun fac => { fac with evnt_called := true, busy := false }) s

/-- `JFactory<T>::Get`. -/
def make (get : ι → Factories ι α σ → Outcome ι α σ (List α)) (a : Algorithm ι α σ) (e : Event ι α) (f : ι)
    (s : Factories ι α σ) : Outcome ι α σ (List α) :=
  if (s.fac f).evnt_called then some (.ok (s.fac f)._data, s)
  else if (s.fac f).busy then some (.error .exception, s)
  else
    (callInit get a f (s.modify f fun fac => { fac with busy := true })).andThen fun _ s =>
      (callErun get a e f s).andThen fun _ s =>
        (callBrun get a e f s).andThen fun _ s =>
          (callEvnt get a e f s).andThen fun _ s => some (.ok (s.fac f)._data, s)

/-- `JEventLoop::Get`: the cache, the source, and the factory at last. -/
def get (p : Setup ι α σ) (e : Event ι α) : Nat → ι → Factories ι α σ → Outcome ι α σ (List α)
  | 0, _, _ => none
  | depth + 1, f, s =>
    if f ∉ p.factories then some (.error .exception, s)
    else if (s.fac f).evnt_called then some (.ok (s.fac f)._data, s)
    else
      match e.objects f with
      | some objects => some (.ok objects, s.modify f fun fac => { fac with _data := objects, evnt_called := true })
      | none => make (get p e depth) (p.algorithm f) e f s

/-- `ClearFactories`. -/
def clearFactories (s : Factories ι α σ) : Factories ι α σ :=
  { s with fac := fun f => if (s.fac f).persistant then s.fac f else { s.fac f with _data := [], evnt_called := false } }

/-- The event processors ask for `gets` and catch what is thrown: where they do not, the thread ends and nothing more is
asked. -/
def requests (p : Setup ι α σ) (e : Event ι α) (s : Factories ι α σ) (gets : List ι) : Option (Factories ι α σ) :=
  gets.foldlM (fun s f => (get p e (p.factories.length + 1) f s).map Prod.snd) s

/-- An event of the event loop. -/
def oneEvent (p : Setup ι α σ) (s : Factories ι α σ) (e : Event ι α) (gets : List ι) : Option (Factories ι α σ) :=
  requests p e s.clearFactories gets

/-- The event loop goes through the events. -/
def run (p : Setup ι α σ) (s : Factories ι α σ) (events : List (Event ι α × List ι)) : Option (Factories ι α σ) :=
  events.foldlM (fun s e => oneEvent p s e.1 e.2) s

end Calls

/-- The factories at the start, with the data members that their constructors set. -/
def new (members : ι → σ) : Factories ι α σ := { fac := fun f => { members := members f } }

/-! ## What a call can do -/

/-- The two differ in the data only. -/
structure SameFlags (a b : JFactory α σ) : Prop where
  busy : b.busy = a.busy
  init : b.init_called = a.init_called
  brun : b.brun_called = a.brun_called
  evnt : b.evnt_called = a.evnt_called
  erun : b.erun_called = a.erun_called
  runnumber : b.brun_runnumber = a.brun_runnumber

theorem SameFlags.refl (a : JFactory α σ) : SameFlags a a := ⟨rfl, rfl, rfl, rfl, rfl, rfl⟩

theorem SameFlags.trans {a b c : JFactory α σ} (hab : SameFlags a b) (hbc : SameFlags b c) : SameFlags a c :=
  ⟨hbc.busy.trans hab.busy, hbc.init.trans hab.init, hbc.brun.trans hab.brun, hbc.evnt.trans hab.evnt,
    hbc.erun.trans hab.erun, hbc.runnumber.trans hab.runnumber⟩

/-- The factory `f` is at work: it is busy, and the source does not have its objects. -/
structure AtWork (e : Event ι α) (f : ι) (s : Factories ι α σ) : Prop where
  busy : (s.fac f).busy = true
  evnt : (s.fac f).evnt_called = false
  source : e.objects f = none

/-- The factories with `P` that are busy are left alone. -/
structure Frame (e : Event ι α) (P : ι → Prop) (s s' : Factories ι α σ) : Prop where
  busy : ∀ g, P g → (s.fac g).busy = true → (s'.fac g).busy = true
  same : ∀ g, P g → (s.fac g).busy = true → e.objects g = none → s'.fac g = s.fac g
  calls : ∃ l, s'.calls = s.calls ++ l ∧ ∀ c ∈ l, P c.factory → (s.fac c.factory).busy = false

variable {p : Setup ι α σ} {e : Event ι α} {P : ι → Prop} {s s' s₁ s₂ : Factories ι α σ} {f : ι}

theorem Frame.refl (e : Event ι α) (P : ι → Prop) (s : Factories ι α σ) : Frame e P s s :=
  ⟨fun _ _ h => h, fun _ _ _ _ => rfl, [], (List.append_nil _).symm, fun _ h => absurd h List.not_mem_nil⟩

theorem Frame.trans (h₁ : Frame e P s s₁) (h₂ : Frame e P s₁ s₂) : Frame e P s s₂ := by
  refine ⟨fun g hg hbusy => h₂.busy g hg (h₁.busy g hg hbusy), ?_, ?_⟩
  · intro g hg hbusy hsource
    rw [h₂.same g hg (h₁.busy g hg hbusy) hsource, h₁.same g hg hbusy hsource]
  · obtain ⟨l₁, hcalls₁, hfree₁⟩ := h₁.calls
    obtain ⟨l₂, hcalls₂, hfree₂⟩ := h₂.calls
    refine ⟨l₁ ++ l₂, by rw [hcalls₂, hcalls₁, List.append_assoc], ?_⟩
    intro c hc hP
    rcases List.mem_append.mp hc with hc | hc
    · exact hfree₁ c hc hP
    · by_contra hbusy
      have hbusy₁ := h₁.busy _ hP (Bool.not_eq_false _ ▸ hbusy)
      exact absurd (hfree₂ c hc hP) (by simp [hbusy₁])

theorem Frame.weaken {Q : ι → Prop} (h : Frame e P s s') (hQ : ∀ g, Q g → P g) : Frame e Q s s' := by
  obtain ⟨l, hcalls, hfree⟩ := h.calls
  exact ⟨fun g hg => h.busy g (hQ g hg), fun g hg => h.same g (hQ g hg), l, hcalls,
    fun c hc hc' => hfree c hc (hQ _ hc')⟩

theorem frame_returned (e : Event ι α) (s : Factories ι α σ) (c : Call ι) :
    Frame e (fun g => g ≠ c.factory) s (s.returned c) := by
  refine ⟨fun _ _ h => h, fun _ _ _ _ => rfl, [c], rfl, ?_⟩
  intro c' hc' hne
  rw [List.mem_singleton] at hc'
  exact absurd (congrArg Call.factory hc') hne

/-- The factories that are not busy. -/
def free (p : Setup ι α σ) (s : Factories ι α σ) : Nat := p.factories.countP fun f => !(s.fac f).busy

theorem free_le (h : ∀ g, (s.fac g).busy = true → (s'.fac g).busy = true) : free p s' ≤ free p s := by
  apply List.countP_mono_left
  intro g _ hg
  by_contra hbusy
  exact absurd (h g (by simpa using hbusy)) (by simpa using hg)

section Moves

variable [DecidableEq ι]

theorem modify_self (s : Factories ι α σ) (f : ι) (φ : JFactory α σ → JFactory α σ) :
    (s.modify f φ).fac f = φ (s.fac f) := Function.update_self _ _ _

theorem modify_ne (s : Factories ι α σ) {f g : ι} (h : g ≠ f) (φ : JFactory α σ → JFactory α σ) :
    (s.modify f φ).fac g = s.fac g := Function.update_of_ne h _ _

theorem frame_modify (e : Event ι α) (s : Factories ι α σ) (f : ι) (φ : JFactory α σ → JFactory α σ) :
    Frame e (fun g => g ≠ f) s (s.modify f φ) := by
  refine ⟨?_, fun g hg _ _ => modify_ne s hg φ, [], (List.append_nil _).symm, fun _ h => absurd h List.not_mem_nil⟩
  intro g hg hbusy
  rw [modify_ne s hg]
  exact hbusy

/-- A step of a call. -/
inductive Move (e : Event ι α) (s : Factories ι α σ) : Factories ι α σ → Prop where
  | source {f : ι} {objects : List α} : (s.fac f).evnt_called = false → e.objects f = some objects →
      Move e s (s.modify f fun fac => { fac with _data := objects, evnt_called := true })
  | enter {f : ι} : (s.fac f).evnt_called = false → (s.fac f).busy = false → e.objects f = none →
      Move e s (s.modify f fun fac => { fac with busy := true })
  | inside {f : ι} {φ : JFactory α σ → JFactory α σ} : AtWork e f s → SameFlags (s.fac f) (φ (s.fac f)) →
      Move e s (s.modify f φ)
  | throw {f : ι} : AtWork e f s → Move e s (s.modify f fun fac => { fac with busy := false })
  | init {f : ι} : AtWork e f s → (s.fac f).init_called = false →
      Move e s ((s.modify f fun fac => { fac with init_called := true }).returned (.init f))
  | erun {f : ι} : AtWork e f s → (s.fac f).init_called = true → (s.fac f).brun_called = true →
      (s.fac f).erun_called = false → e.runnumber ≠ (s.fac f).brun_runnumber →
      Move e s ((s.modify f fun fac => { fac with erun_called := true, brun_called := false }).returned (.erun f))
  | drop {f : ι} : AtWork e f s → ((s.fac f).brun_called = true → (s.fac f).erun_called = true) →
      Move e s (s.modify f fun fac => { fac with brun_called := false })
  | brun {f : ι} : AtWork e f s → (s.fac f).init_called = true → (s.fac f).brun_called = false →
      Move e s ((s.modify f fun fac =>
        { fac with brun_called := true, erun_called := false, brun_runnumber := e.runnumber }).returned
        (.brun f e.runnumber))
  | evnt {f : ι} : AtWork e f s → (s.fac f).brun_called = true → (s.fac f).brun_runnumber = e.runnumber →
      Move e s ((s.modify f fun fac => { fac with evnt_called := true, busy := false }).returned
        (.evnt f e.runnumber e.eventnumber))

/-- The steps of a call. -/
abbrev Trace (e : Event ι α) : Factories ι α σ → Factories ι α σ → Prop := Relation.ReflTransGen (Move e)

/-! ### One lemma for each stage -/

variable {φ : JFactory α σ → JFactory α σ} {get : ι → Factories ι α σ → Outcome ι α σ (List α)} {a : Algorithm ι α σ}

theorem AtWork.inside (h : AtWork e f s) (hφ : SameFlags (s.fac f) (φ (s.fac f))) :
    Move e s (s.modify f φ) ∧ AtWork e f (s.modify f φ) ∧ SameFlags (s.fac f) ((s.modify f φ).fac f) := by
  have hself := modify_self s f φ
  refine ⟨.inside h hφ, ⟨?_, ?_, h.source⟩, hself ▸ hφ⟩
  · rw [hself, hφ.busy, h.busy]
  · rw [hself, hφ.evnt, h.evnt]

/-- What is assumed of the calls in the middle of a method. -/
def Spec (e : Event ι α) (get : ι → Factories ι α σ → Outcome ι α σ (List α)) : Prop :=
  ∀ g s r s', get g s = some (r, s') → Trace e s s' ∧ Frame e (fun _ => True) s s'

/-- What a method leaves behind. -/
structure Executed (e : Event ι α) (f : ι) (s s' : Factories ι α σ) : Prop where
  trace : Trace e s s'
  frame : Frame e (fun g => g ≠ f) s s'
  atWork : AtWork e f s'
  flags : SameFlags (s.fac f) (s'.fac f)

/-- **A method changes the data of its own factory**, whatever it asks of others. -/
theorem exec_spec (hget : Spec e get) {m : Method ι α σ} {r : Except Thrown Unit} (hwork : AtWork e f s)
    (h : exec get f m s = some (r, s')) : Executed e f s s' := by
  have hmodify : ∀ {s s' : Factories ι α σ} {φ : JFactory α σ → JFactory α σ}, AtWork e f s →
      SameFlags (s.fac f) (φ (s.fac f)) → (AtWork e f (s.modify f φ) → Executed e f (s.modify f φ) s') →
      Executed e f s s' := by
    intro s s' φ hwork hφ hrest
    obtain ⟨hmove, hwork', hflags⟩ := hwork.inside hφ
    have hexec := hrest hwork'
    exact ⟨.head hmove hexec.trace, (frame_modify e s f φ).trans hexec.frame, hexec.atWork, hflags.trans hexec.flags⟩
  have hrefl : ∀ {s : Factories ι α σ}, AtWork e f s → Executed e f s s := by
    intro s hwork
    exact ⟨.refl, .refl e _ s, hwork, .refl _⟩
  induction m generalizing s with
  | ret members | throw _ members =>
      obtain ⟨_, rfl⟩ := Prod.mk.inj (Option.some.inj h)
      exact hmodify hwork ⟨rfl, rfl, rfl, rfl, rfl, rfl⟩ hrefl
  | push _ rest ih | clear rest ih | persist rest ih =>
      exact hmodify hwork ⟨rfl, rfl, rfl, rfl, rfl, rfl⟩ (fun hwork' => ih hwork' h)
  | get g rest ih =>
      unfold exec at h
      cases hg : get g s with
      | none =>
          rw [hg] at h
          exact absurd h.symm (Option.some_ne_none _)
      | some result =>
          obtain ⟨got, s₁⟩ := result
          rw [hg] at h
          obtain ⟨htrace, hframe⟩ := hget g s got s₁ hg
          have hsame : s₁.fac f = s.fac f := hframe.same f trivial hwork.busy hwork.source
          have hexec := ih got (s := s₁) ⟨hsame ▸ hwork.busy, hsame ▸ hwork.evnt, hwork.source⟩ h
          exact ⟨htrace.trans hexec.trace, (hframe.weaken fun _ _ => trivial).trans hexec.frame, hexec.atWork,
            hsame ▸ hexec.flags⟩

theorem fac_step (s : Factories ι α σ) (f : ι) (φ : JFactory α σ → JFactory α σ) (c : Call ι) :
    ((s.modify f φ).returned c).fac f = φ (s.fac f) := modify_self s f φ

theorem frame_step (e : Event ι α) (s : Factories ι α σ) (f : ι) (φ : JFactory α σ → JFactory α σ) {c : Call ι}
    (hc : c.factory = f) : Frame e (fun g => g ≠ f) s ((s.modify f φ).returned c) :=
  (frame_modify e s f φ).trans (hc ▸ frame_returned e (s.modify f φ) c)

/-- A step that leaves the factory at work. -/
theorem AtWork.step (h : AtWork e f s) (c : Call ι) (hφ : (φ (s.fac f)).busy = (s.fac f).busy)
    (hφ' : (φ (s.fac f)).evnt_called = (s.fac f).evnt_called) : AtWork e f ((s.modify f φ).returned c) := by
  refine ⟨?_, ?_, h.source⟩
  · rw [fac_step, hφ, h.busy]
  · rw [fac_step, hφ', h.evnt]

/-- A method returns or throws. -/
theorem call_spec (hget : Spec e get) {m : Method ι α σ} {c : Call ι} {set : JFactory α σ → JFactory α σ}
    {r : Except Thrown Unit} (hwork : AtWork e f s) (h : call get f m c set s = some (r, s')) :
    ∃ s₁, Executed e f s s₁ ∧
      (r = .ok () ∧ s' = (s₁.modify f set).returned c ∨
        (∃ thrown, r = .error thrown) ∧ Trace e s₁ s' ∧ Frame e (fun g => g ≠ f) s₁ s' ∧
          ∀ n, r = .error (.number n) → AtWork e f s') := by
  unfold call at h
  cases hexec : exec get f m s with
  | none =>
      rw [hexec] at h
      exact absurd h.symm (Option.some_ne_none _)
  | some result =>
      obtain ⟨r', s₁⟩ := result
      have hspec := exec_spec hget hwork hexec
      rw [hexec] at h
      refine ⟨s₁, hspec, ?_⟩
      cases r' with
      | ok =>
          obtain ⟨rfl, rfl⟩ := Prod.mk.inj (Option.some.inj h)
          exact Or.inl ⟨rfl, rfl⟩
      | error thrown =>
          right
          cases thrown with
          | exception =>
              obtain ⟨rfl, rfl⟩ := Prod.mk.inj (Option.some.inj h)
              exact ⟨⟨_, rfl⟩, .single (.throw hspec.atWork), frame_modify e s₁ f _, fun _ hr => absurd hr (by simp)⟩
          | number n =>
              obtain ⟨rfl, rfl⟩ := Prod.mk.inj (Option.some.inj h)
              exact ⟨⟨_, rfl⟩, .refl, .refl e _ s₁, fun _ _ => hspec.atWork⟩

/-- What a stage of `make` leaves behind; `post` holds when nothing was thrown. A number leaves the factory at work. -/
structure Staged (e : Event ι α) (f : ι) (post : JFactory α σ → Prop) (r : Except Thrown Unit)
    (s s' : Factories ι α σ) : Prop where
  trace : Trace e s s'
  frame : Frame e (fun g => g ≠ f) s s'
  done : r = .ok () → AtWork e f s' ∧ post (s'.fac f)
  stuck : ∀ n, r = .error (.number n) → AtWork e f s'

/-- A stage that returns. -/
theorem Staged.ofOk {post : JFactory α σ → Prop} (htrace : Trace e s s') (hframe : Frame e (fun g => g ≠ f) s s')
    (hwork : AtWork e f s') (hpost : post (s'.fac f)) : Staged e f post (.ok ()) s s' :=
  ⟨htrace, hframe, fun _ => ⟨hwork, hpost⟩, fun _ hr => absurd hr (by simp)⟩

theorem Staged.skip {post : JFactory α σ → Prop} {r : Except Thrown Unit} (hwork : AtWork e f s) (hpost : post (s.fac f))
    (h : some ((.ok () : Except Thrown Unit), s) = some (r, s')) : Staged e f post r s s' := by
  obtain ⟨rfl, rfl⟩ := Prod.mk.inj (Option.some.inj h)
  exact .ofOk .refl (.refl e _ s) hwork hpost

theorem Staged.ofThrown {post : JFactory α σ → Prop} {r : Except Thrown Unit} (hexec : Executed e f s s₁)
    (hthrown : (∃ thrown, r = .error thrown) ∧ Trace e s₁ s' ∧ Frame e (fun g => g ≠ f) s₁ s' ∧
      ∀ n, r = .error (.number n) → AtWork e f s') : Staged e f post r s s' := by
  obtain ⟨⟨thrown, rfl⟩, htrace, hframe, hstuck⟩ := hthrown
  exact ⟨hexec.trace.trans htrace, hexec.frame.trans hframe, fun hr => absurd hr (by simp), hstuck⟩

theorem callInit_spec (hget : Spec e get) {r : Except Thrown Unit} (hwork : AtWork e f s)
    (h : callInit get a f s = some (r, s')) : Staged e f (fun fac => fac.init_called = true) r s s' := by
  unfold callInit at h
  split at h
  · rename_i hinit
    exact .skip hwork hinit h
  · rename_i hinit
    obtain ⟨s₁, hexec, ⟨rfl, rfl⟩ | hthrown⟩ := call_spec hget hwork h
    · have hfresh : (s₁.fac f).init_called = false := by
        rw [hexec.flags.init]
        simpa using hinit
      apply Staged.ofOk
      · exact hexec.trace.tail (.init hexec.atWork hfresh)
      · exact hexec.frame.trans (frame_step e s₁ f _ rfl)
      · exact hexec.atWork.step _ rfl rfl
      · rw [fac_step]
    · exact .ofThrown hexec hthrown

/-- The factory is initialised, and not set up for another run. -/
def Told (e : Event ι α) (fac : JFactory α σ) : Prop :=
  fac.init_called = true ∧ (fac.brun_called = true → fac.brun_runnumber = e.runnumber)

theorem step_modify (s : Factories ι α σ) (f : ι) (φ ψ : JFactory α σ → JFactory α σ) (c : Call ι) :
    ((s.modify f φ).returned c).modify f ψ = (s.modify f fun fac => ψ (φ fac)).returned c := by
  unfold modify returned
  simp only [Function.update_self, Function.update_idem]

theorem callErun_spec (hget : Spec e get) {r : Except Thrown Unit} (hwork : AtWork e f s)
    (hinit : (s.fac f).init_called = true) (h : callErun get a e f s = some (r, s')) : Staged e f (Told e) r s s' := by
  unfold callErun at h
  split at h
  · rename_i hrun
    by_cases hcall : ((s.fac f).brun_called && !(s.fac f).erun_called) = true
    · rw [if_pos hcall] at h
      obtain ⟨hbrun, herun⟩ : (s.fac f).brun_called = true ∧ (s.fac f).erun_called = false := by simpa using hcall
      rcases andThen_some h with ⟨_, s₂, hcalled, hnext⟩ | ⟨thrown, hcalled, rfl⟩
      · obtain ⟨s₁, hexec, ⟨_, rfl⟩ | ⟨⟨_, hthrown⟩, _⟩⟩ := call_spec hget hwork hcalled
        · obtain ⟨rfl, rfl⟩ := Prod.mk.inj (Option.some.inj hnext)
          rw [step_modify]
          refine .ofOk (hexec.trace.tail (.erun hexec.atWork ?_ ?_ ?_ ?_)) (hexec.frame.trans (frame_step e s₁ f _ rfl))
            (hexec.atWork.step _ rfl rfl) ⟨?_, ?_⟩
          · rw [hexec.flags.init, hinit]
          · rw [hexec.flags.brun, hbrun]
          · rw [hexec.flags.erun, herun]
          · rw [hexec.flags.runnumber]
            exact hrun
          · rw [fac_step]
            exact hexec.flags.init.trans hinit
          · rw [fac_step]
            exact fun hset => absurd hset (by simp)
        · exact absurd hthrown (by simp)
      · obtain ⟨s₁, hexec, ⟨hok, _⟩ | hthrown⟩ := call_spec hget hwork hcalled
        · exact absurd hok (by simp)
        · exact .ofThrown hexec hthrown
    · rw [if_neg hcall] at h
      obtain ⟨rfl, rfl⟩ := Prod.mk.inj (Option.some.inj h)
      have hdrop : (s.fac f).brun_called = true → (s.fac f).erun_called = true := by
        intro hbrun
        rw [hbrun] at hcall
        simpa using hcall
      refine .ofOk (.single (.drop hwork hdrop)) (frame_modify e s f _) ⟨?_, ?_, hwork.source⟩ ⟨?_, ?_⟩
      · rw [modify_self]
        exact hwork.busy
      · rw [modify_self]
        exact hwork.evnt
      · rw [modify_self]
        exact hinit
      · rw [modify_self]
        exact fun hset => absurd hset (by simp)
  · rename_i hrun
    exact .skip hwork ⟨hinit, fun _ => by simpa [eq_comm] using hrun⟩ h

/-- The factory is set up for the run. -/
def SetUp (e : Event ι α) (fac : JFactory α σ) : Prop :=
  fac.init_called = true ∧ fac.brun_called = true ∧ fac.brun_runnumber = e.runnumber

theorem callBrun_spec (hget : Spec e get) {r : Except Thrown Unit} (hwork : AtWork e f s) (htold : Told e (s.fac f))
    (h : callBrun get a e f s = some (r, s')) : Staged e f (SetUp e) r s s' := by
  unfold callBrun at h
  split at h
  · rename_i hbrun
    exact .skip hwork ⟨htold.1, hbrun, htold.2 hbrun⟩ h
  · rename_i hbrun
    obtain ⟨s₁, hexec, ⟨rfl, rfl⟩ | hthrown⟩ := call_spec hget hwork h
    · have hinit : (s₁.fac f).init_called = true := hexec.flags.init.trans htold.1
      have hfresh : (s₁.fac f).brun_called = false := by
        rw [hexec.flags.brun]
        simpa using hbrun
      apply Staged.ofOk
      · exact hexec.trace.tail (.brun hexec.atWork hinit hfresh)
      · exact hexec.frame.trans (frame_step e s₁ f _ rfl)
      · exact hexec.atWork.step _ rfl rfl
      · rw [fac_step]
        exact ⟨hinit, rfl, rfl⟩
    · exact .ofThrown hexec hthrown

/-- What `make` and `get` leave behind. What they give is in the cache, and a number leaves the factory at work. -/
structure Made (e : Event ι α) (f : ι) (P : ι → Prop) (r : Except Thrown (List α)) (s s' : Factories ι α σ) : Prop where
  trace : Trace e s s'
  frame : Frame e P s s'
  served : ∀ objects, r = .ok objects → (s'.fac f).evnt_called = true ∧ (s'.fac f)._data = objects
  stuck : ∀ n, r = .error (.number n) → AtWork e f s'

theorem callEvnt_spec (hget : Spec e get) {r : Except Thrown (List α)} (hwork : AtWork e f s) (hset : SetUp e (s.fac f))
    (h : (callEvnt get a e f s).andThen (fun _ s => some (.ok (s.fac f)._data, s)) = some (r, s')) :
    Made e f (fun g => g ≠ f) r s s' := by
  unfold callEvnt at h
  rcases andThen_some h with ⟨_, s₂, hcalled, hnext⟩ | ⟨thrown, hcalled, rfl⟩
  · obtain ⟨s₁, hexec, ⟨_, rfl⟩ | ⟨⟨_, hthrown⟩, _⟩⟩ := call_spec hget hwork hcalled
    · obtain ⟨rfl, rfl⟩ := Prod.mk.inj (Option.some.inj hnext)
      refine ⟨hexec.trace.tail (.evnt hexec.atWork (hexec.flags.brun.trans hset.2.1)
        (hexec.flags.runnumber.trans hset.2.2)), hexec.frame.trans (frame_step e s₁ f _ rfl), ?_,
        fun _ hr => absurd hr (by simp)⟩
      intro objects hr
      refine ⟨?_, Except.ok.inj hr⟩
      rw [fac_step]
    · exact absurd hthrown (by simp)
  · obtain ⟨s₁, hexec, ⟨hok, _⟩ | ⟨_, htrace, hframe, hstuck⟩⟩ := call_spec hget hwork hcalled
    · exact absurd hok (by simp)
    · refine ⟨hexec.trace.trans htrace, hexec.frame.trans hframe, fun _ hr => absurd hr (by simp), fun n hr => ?_⟩
      exact hstuck n (congrArg _ (Except.error.inj hr))

/-- One stage after the other. -/
theorem Staged.andThen {post : JFactory α σ → Prop} {o : Outcome ι α σ Unit}
    {next : Unit → Factories ι α σ → Outcome ι α σ (List α)} {r : Except Thrown (List α)}
    (h : o.andThen next = some (r, s')) (hfirst : ∀ r₁ s₁, o = some (r₁, s₁) → Staged e f post r₁ s s₁)
    (hnext : ∀ s₁, AtWork e f s₁ → post (s₁.fac f) → next () s₁ = some (r, s') → Made e f (fun g => g ≠ f) r s₁ s') :
    Made e f (fun g => g ≠ f) r s s' := by
  rcases andThen_some h with ⟨_, s₁, hcalled, h⟩ | ⟨thrown, hcalled, rfl⟩
  · have hstaged := hfirst _ _ hcalled
    obtain ⟨hwork, hpost⟩ := hstaged.done rfl
    have hmade := hnext s₁ hwork hpost h
    exact ⟨hstaged.trace.trans hmade.trace, hstaged.frame.trans hmade.frame, hmade.served, hmade.stuck⟩
  · have hstaged := hfirst _ _ hcalled
    refine ⟨hstaged.trace, hstaged.frame, fun _ hr => absurd hr (by simp), fun n hr => ?_⟩
    exact hstaged.stuck n (congrArg _ (Except.error.inj hr))

theorem make_spec (hget : Spec e get) {r : Except Thrown (List α)} (hevnt : (s.fac f).evnt_called = false)
    (hsource : e.objects f = none) (h : make get a e f s = some (r, s')) : Made e f (fun _ => True) r s s' := by
  unfold make at h
  rw [if_neg (by simp [hevnt])] at h
  split at h
  · obtain ⟨rfl, rfl⟩ := Prod.mk.inj (Option.some.inj h)
    exact ⟨.refl, .refl e _ s, fun _ hr => absurd hr (by simp), fun _ hr => absurd hr (by simp)⟩
  · rename_i hbusy
    have hfree : (s.fac f).busy = false := by simpa using hbusy
    have hwork : AtWork e f (s.modify f fun fac => { fac with busy := true }) := by
      refine ⟨?_, ?_, hsource⟩
      · rw [modify_self]
      · rw [modify_self]
        exact hevnt
    have hmade := Staged.andThen h (fun _ _ h => callInit_spec hget hwork h) fun _ hwork hinit h =>
      Staged.andThen h (fun _ _ h => callErun_spec hget hwork hinit h) fun _ hwork htold h =>
        Staged.andThen h (fun _ _ h => callBrun_spec hget hwork htold h) fun _ hwork hset h =>
          callEvnt_spec hget hwork hset h
    have hframe := (frame_modify e s f _).trans hmade.frame
    have hne : ∀ g, (s.fac g).busy = true → g ≠ f := by
      rintro g hg rfl
      exact absurd hg (by simp [hfree])
    obtain ⟨l, hcalls, hl⟩ := hframe.calls
    refine ⟨.head (.enter hevnt hfree hsource) hmade.trace, ⟨?_, ?_, l, hcalls, ?_⟩, hmade.served, hmade.stuck⟩
    · exact fun g _ hg => hframe.busy g (hne g hg) hg
    · exact fun g _ hg => hframe.same g (hne g hg) hg
    · intro c hc _
      by_cases hcf : c.factory = f
      · rw [hcf, hfree]
      · exact hl c hc hcf

/-- **What `JEventLoop::Get` can do**: it takes steps, leaves the busy factories alone, what it gives is in the cache,
and a factory that throws a number stays at work. -/
theorem get_spec {depth : Nat} {r : Except Thrown (List α)} (h : Factories.get p e depth f s = some (r, s')) :
    Made e f (fun _ => True) r s s' := by
  induction depth generalizing f s r s' with
  | zero => exact absurd h.symm (Option.some_ne_none _)
  | succ depth ih =>
      have hrefl : ∀ {r' : Except Thrown (List α)}, some (r', s) = some (r, s') →
          (∀ objects, r' = .ok objects → (s.fac f).evnt_called = true ∧ (s.fac f)._data = objects) →
          (∀ n, r' ≠ .error (.number n)) → Made e f (fun _ => True) r s s' := by
        intro r' h hserved hnumber
        obtain ⟨rfl, rfl⟩ := Prod.mk.inj (Option.some.inj h)
        exact ⟨.refl, .refl e _ s, hserved, fun n hr => absurd hr (hnumber n)⟩
      unfold Factories.get at h
      split at h
      · exact hrefl h (fun _ hr => absurd hr (by simp)) (by simp)
      · split at h
        · rename_i hevnt
          exact hrefl h (fun _ hr => ⟨hevnt, Except.ok.inj hr⟩) (by simp)
        · rename_i hevnt
          have hevnt : (s.fac f).evnt_called = false := by simpa using hevnt
          split at h
          · rename_i objects hsource
            obtain ⟨rfl, rfl⟩ := Prod.mk.inj (Option.some.inj h)
            refine ⟨.single (.source hevnt hsource), ?_, ?_, fun _ hr => absurd hr (by simp)⟩
            · have hframe := frame_modify e s f fun fac => { fac with _data := objects, evnt_called := true }
              refine ⟨?_, ?_, [], (List.append_nil _).symm, fun _ h => absurd h List.not_mem_nil⟩
              · intro g _ hg
                by_cases hgf : g = f
                · subst hgf
                  rw [modify_self]
                  exact hg
                · exact hframe.busy g hgf hg
              · intro g _ hg hnone
                apply hframe.same g _ hg hnone
                rintro rfl
                exact absurd (hnone.symm.trans hsource) (by simp)
            · intro objects' hr
              rw [modify_self]
              exact ⟨rfl, Except.ok.inj hr⟩
          · rename_i hsource
            exact make_spec (fun g s r s' hg => ⟨(ih hg).trace, (ih hg).frame⟩) hevnt hsource h

/-! ### The depth is bounded -/

theorem free_lt {l : List ι} (hf : f ∈ l) (hfree : (s.fac f).busy = false) (hbusy : (s'.fac f).busy = true)
    (h : ∀ g, (s.fac g).busy = true → (s'.fac g).busy = true) :
    (l.countP fun f => !(s'.fac f).busy) < l.countP fun f => !(s.fac f).busy := by
  induction l with
  | nil => exact absurd hf List.not_mem_nil
  | cons g l ih =>
      have hle : (l.countP fun f => !(s'.fac f).busy) ≤ l.countP fun f => !(s.fac f).busy :=
        free_le (p := ⟨l, fun _ => ⟨.ret, fun _ => .ret, fun _ => .ret, .ret⟩⟩) h
      rw [List.countP_cons, List.countP_cons]
      by_cases hgf : g = f
      · rw [hgf, hfree, hbusy]
        simp only [Bool.not_true, Bool.not_false, Bool.false_eq_true, if_false, if_true]
        omega
      · have hlt := ih ((List.mem_cons.mp hf).resolve_left (Ne.symm hgf))
        have hhead : (if (!(s'.fac g).busy) = true then 1 else 0) ≤ if (!(s.fac g).busy) = true then 1 else 0 := by
          cases hg : (s.fac g).busy with
          | true => simp [h g hg]
          | false => split <;> simp
        omega

theorem free_modify (s : Factories ι α σ) (hφ : (s.fac f).busy = true → (φ (s.fac f)).busy = true) :
    free p (s.modify f φ) ≤ free p s := by
  apply free_le
  intro g hg
  by_cases hgf : g = f
  · rw [hgf] at hg ⊢
    rw [modify_self]
    exact hφ hg
  · rw [modify_ne s hgf]
    exact hg

variable {n : Nat}

theorem exec_isSome (hget : Spec e get) (hsome : ∀ g s, free p s < n → (get g s).isSome = true) {m : Method ι α σ}
    (hwork : AtWork e f s) (hn : free p s < n) : (exec get f m s).isSome = true := by
  have hmodify : ∀ {s : Factories ι α σ} {φ : JFactory α σ → JFactory α σ}, AtWork e f s → free p s < n →
      SameFlags (s.fac f) (φ (s.fac f)) → AtWork e f (s.modify f φ) ∧ free p (s.modify f φ) < n := by
    intro s φ hwork hn hφ
    exact ⟨(hwork.inside hφ).2.1, Nat.lt_of_le_of_lt (free_modify s (fun hbusy => hφ.busy.trans hbusy)) hn⟩
  induction m generalizing s with
  | ret | throw => rfl
  | push _ rest ih | clear rest ih | persist rest ih =>
      unfold exec
      refine ih ?_ ?_
      · exact (hmodify hwork hn ⟨rfl, rfl, rfl, rfl, rfl, rfl⟩).1
      · exact (hmodify hwork hn ⟨rfl, rfl, rfl, rfl, rfl, rfl⟩).2
  | get g rest ih =>
      obtain ⟨⟨r, s₁⟩, hg⟩ := Option.isSome_iff_exists.mp (hsome g s hn)
      obtain ⟨_, hframe⟩ := hget g s r s₁ hg
      have hsame : s₁.fac f = s.fac f := hframe.same f trivial hwork.busy hwork.source
      unfold exec
      rw [hg]
      exact ih r ⟨hsame ▸ hwork.busy, hsame ▸ hwork.evnt, hwork.source⟩
        (Nat.lt_of_le_of_lt (free_le fun g hg => hframe.busy g trivial hg) hn)

theorem call_isSome (hget : Spec e get) (hsome : ∀ g s, free p s < n → (get g s).isSome = true) {m : Method ι α σ}
    {c : Call ι} {set : JFactory α σ → JFactory α σ} (hwork : AtWork e f s) (hn : free p s < n) : (call get f m c set s).isSome = true := by
  obtain ⟨⟨r, s₁⟩, hexec⟩ := Option.isSome_iff_exists.mp (exec_isSome hget hsome (m := m) hwork hn)
  unfold call
  rw [hexec]
  cases r with
  | ok => rfl
  | error thrown => cases thrown <;> rfl

/-- **`make` comes to an end** if the calls in the middle do. -/
theorem make_isSome (hget : Spec e get) (hsome : ∀ g s, free p s < n → (get g s).isSome = true)
    (hmem : f ∈ p.factories) (hevnt : (s.fac f).evnt_called = false) (hsource : e.objects f = none)
    (hn : free p s ≤ n) : (make get a e f s).isSome = true := by
  have hcall : ∀ {m : Method ι α σ} {c : Call ι} {set : JFactory α σ → JFactory α σ} {s : Factories ι α σ},
      AtWork e f s → free p s < n → (call get f m c set s).isSome = true :=
    fun hwork hn => call_isSome hget hsome hwork hn
  have hstage : ∀ {post : JFactory α σ → Prop} {o : Outcome ι α σ Unit} {s : Factories ι α σ}
      {next : Unit → Factories ι α σ → Outcome ι α σ (List α)}, AtWork e f s → free p s < n → o.isSome = true →
      (∀ r s', o = some (r, s') → Staged e f post r s s') →
      (∀ s', AtWork e f s' → free p s' < n → post (s'.fac f) → (next () s').isSome = true) →
      (o.andThen next).isSome = true := by
    intro post o s next hwork hn ho hstaged hnext
    obtain ⟨⟨r, s'⟩, rfl⟩ := Option.isSome_iff_exists.mp ho
    cases r with
    | error thrown => rfl
    | ok =>
        have hspec := hstaged _ _ rfl
        obtain ⟨hwork', hpost⟩ := hspec.done rfl
        refine hnext s' hwork' (Nat.lt_of_le_of_lt (free_le fun g hg => ?_) hn) hpost
        by_cases hgf : g = f
        · rw [hgf]
          exact hwork'.busy
        · exact hspec.frame.busy g hgf hg
  unfold make
  rw [if_neg (by simp [hevnt])]
  split
  · rfl
  · rename_i hbusy
    have hfree : (s.fac f).busy = false := by simpa using hbusy
    have hself := modify_self s f fun fac => { fac with busy := true }
    have hwork : AtWork e f (s.modify f fun fac => { fac with busy := true }) :=
      ⟨by rw [hself], by rw [hself]; exact hevnt, hsource⟩
    have hlt : free p (s.modify f fun fac => { fac with busy := true }) < n := by
      refine Nat.lt_of_lt_of_le (free_lt hmem hfree hwork.busy fun g hg => ?_) hn
      by_cases hgf : g = f
      · rw [hgf]
        exact hwork.busy
      · rw [modify_ne s hgf]
        exact hg
    refine hstage hwork hlt ?_ (fun _ _ h => callInit_spec hget hwork h) fun s hwork hn hinit => ?_
    · unfold callInit
      split
      · rfl
      · exact hcall hwork hlt
    refine hstage hwork hn ?_ (fun _ _ h => callErun_spec hget hwork hinit h) fun s hwork hn htold => ?_
    · unfold callErun
      split
      · split
        · obtain ⟨⟨r, s'⟩, hr⟩ := Option.isSome_iff_exists.mp (hcall hwork hn)
          rw [hr]
          cases r <;> rfl
        · rfl
      · rfl
    refine hstage hwork hn ?_ (fun _ _ h => callBrun_spec hget hwork htold h) fun s hwork hn hset => ?_
    · unfold callBrun
      split
      · rfl
      · exact hcall hwork hn
    · unfold callEvnt
      obtain ⟨⟨r, s'⟩, hr⟩ := Option.isSome_iff_exists.mp (hcall hwork hn)
      rw [hr]
      cases r <;> rfl

/-- **`JEventLoop::Get` comes to an end**, whatever the factories ask of each other: every level of the recursion makes
one more factory busy. -/
theorem get_of_free {depth : Nat} (h : free p s < depth) : (Factories.get p e depth f s).isSome = true := by
  induction depth generalizing f s with
  | zero => exact absurd h (Nat.not_lt_zero _)
  | succ depth ih =>
      have hget : Spec e (Factories.get p e depth) := fun g s r s' hg => ⟨(get_spec hg).trace, (get_spec hg).frame⟩
      unfold Factories.get
      split
      · rfl
      · rename_i hmem
        split
        · rfl
        · rename_i hevnt
          split
          · rfl
          · rename_i hsource
            exact make_isSome hget (fun g s hs => ih hs) (by simpa using hmem) (by simpa using hevnt) hsource
              (Nat.le_of_lt_succ h)

theorem get_isSome (p : Setup ι α σ) (e : Event ι α) (f : ι) (s : Factories ι α σ) :
    (Factories.get p e (p.factories.length + 1) f s).isSome = true :=
  get_of_free (Nat.lt_succ_of_le List.countP_le_length)

theorem requests_isSome (p : Setup ι α σ) (e : Event ι α) (s : Factories ι α σ) (gets : List ι) :
    (requests p e s gets).isSome = true := by
  induction gets generalizing s with
  | nil => rfl
  | cons f gets ih =>
      obtain ⟨result, hresult⟩ := Option.isSome_iff_exists.mp (get_isSome p e f s)
      unfold requests
      rw [List.foldlM_cons, hresult]
      exact ih result.2

/-- **Every request of every event comes to an end**, whatever the factories throw. -/
theorem run_isSome (p : Setup ι α σ) (events : List (Event ι α × List ι)) (s : Factories ι α σ) :
    (run p s events).isSome = true := by
  induction events generalizing s with
  | nil => rfl
  | cons event events ih =>
      obtain ⟨s', hs'⟩ := Option.isSome_iff_exists.mp (requests_isSome p event.1 s.clearFactories event.2)
      unfold run
      rw [List.foldlM_cons]
      show ((requests p event.1 s.clearFactories event.2).bind _).isSome = true
      rw [hs']
      exact ih s'

end Moves

end Factories

end Jana

end BdxReco
