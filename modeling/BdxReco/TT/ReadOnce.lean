import BdxReco.Lib.Run
import BdxReco.TT.TranslationTable
import Mathlib.Logic.Function.Basic

/-!
# `TT.ReadOnce` — concurrent readers of the translation table

Every `TranslationTable` object reads the table when it is constructed, and all of them share one map, one
mutex and one `initialized` flag. A reader is one call of `ReadTranslationTable`; a run is the list of the
readers whose step is taken, in any order. A reader that waits for the mutex does not move.

The mutex protects the test of the flag and the parse, but the flag is set after the unlock. A reader that tests
it in between parses the document again, into the map that others may already be using: `readOnce_iff`.
-/

namespace BdxReco

open Run

variable {θ : Type}

/-- Where a reader stands in `ReadTranslationTable`. -/
inductive Reader where
  /-- about to lock the mutex -/
  | start
  /-- has the mutex, about to test the flag -/
  | locked
  /-- has the mutex, with these elements still to be handled -/
  | parsing (rest : List Element)
  /-- has parsed and unlocked, about to set the flag -/
  | unlocked
  /-- has the mutex, about to unlock it and return -/
  | leaving
  | returned
  deriving DecidableEq

/-- What happens to the shared map. -/
inductive TableEvent (θ : Type) where
  | wrote (csc : Csc)
  | returned (t : θ)
  deriving DecidableEq

/-- The shared state and the readers. `parsers` are the readers that have started a parse, in order, and `log` the
    writes to the map and the returns: both only for the record. -/
structure Readers (θ : Type) where
  mutex : Option θ
  initialized : Bool
  parse : ParseState
  reader : θ → Reader
  parsers : List θ
  log : List (TableEvent θ)

namespace Readers

/-- Before any reader has started. -/
def init : Readers θ :=
  { mutex := none, initialized := false, parse := ParseState.init, reader := fun _ => .start
    parsers := [], log := [] }

/-- The reader `t` takes its next step. `doc` is the document that the database or the local file holds, `none` when
    neither can be read. -/
def step [DecidableEq θ] (doc : Option (List Element)) (s : Readers θ) (t : θ) : Readers θ :=
  match s.reader t with
  | .start =>
    match s.mutex with
    | some _ => s
    | none => { s with mutex := some t, reader := Function.update s.reader t .locked }
  | .locked =>
    if s.initialized then { s with reader := Function.update s.reader t .leaving }
    else
      match doc with
      | none => { s with reader := Function.update s.reader t .leaving }
      | some elements =>
        { s with reader := Function.update s.reader t (.parsing elements), parsers := s.parsers ++ [t] }
  | .parsing (e :: rest) =>
    { s with
      parse := startElement s.parse e
      reader := Function.update s.reader t (.parsing rest)
      log := s.log ++ (writes s.parse e).toList.map .wrote }
  | .parsing [] => { s with mutex := none, reader := Function.update s.reader t .unlocked }
  | .unlocked =>
    { s with
      initialized := true
      reader := Function.update s.reader t .returned
      log := s.log ++ [.returned t] }
  | .leaving =>
    { s with mutex := none, reader := Function.update s.reader t .returned, log := s.log ++ [.returned t] }
  | .returned => s

/-- The state after the steps of a run. -/
def after [DecidableEq θ] (doc : Option (List Element)) (run : List θ) : Readers θ := exec (step doc) init run

@[simp] theorem after_concat [DecidableEq θ] (doc : Option (List Element)) (run : List θ) (t : θ) :
    after doc (run ++ [t]) = (after doc run).step doc t := by
  simp [after]

/-- **The log is honest**: an entry of the map changes only in a step that records a write of it. -/
theorem step_find? [DecidableEq θ] (doc : Option (List Element)) (s : Readers θ) (t : θ) :
    ∃ new, (s.step doc t).log = s.log ++ new ∧
      ∀ csc, .wrote csc ∉ new → (s.step doc t).parse.tt.find? csc = s.parse.tt.find? csc := by
  unfold step
  cases s.reader t with
  | start => cases s.mutex <;> exact ⟨[], (List.append_nil _).symm, fun _ _ => rfl⟩
  | locked =>
      simp only
      split
      · exact ⟨[], (List.append_nil _).symm, fun _ _ => rfl⟩
      · cases doc <;> exact ⟨[], (List.append_nil _).symm, fun _ _ => rfl⟩
  | parsing rest =>
      cases rest with
      | nil => exact ⟨[], (List.append_nil _).symm, fun _ _ => rfl⟩
      | cons e rest =>
          refine ⟨(writes s.parse e).toList.map .wrote, rfl, ?_⟩
          intro csc hcsc
          apply startElement_find?
          intro hwrites
          exact hcsc (by simp [hwrites])
  | unlocked => exact ⟨[.returned t], rfl, fun _ _ => rfl⟩
  | leaving => exact ⟨[.returned t], rfl, fun _ _ => rfl⟩
  | returned => exact ⟨[], (List.append_nil _).symm, fun _ _ => rfl⟩

/-! ## Reading the table once, and the condition on a step -/

/-- **The table is read once**: the document was parsed at most once, whoever has returned sees the complete table,
    and no entry was written after some reader had returned. -/
structure ReadOnce (doc : List Element) (s : Readers θ) : Prop where
  once : s.parsers.length ≤ 1
  complete : ∀ t, s.reader t = .returned → s.parse.tt = (parseDocument doc).tt
  noRewrite : ∀ l₁ l₂ t csc, s.log = l₁ ++ l₂ → .returned t ∈ l₁ → .wrote csc ∉ l₂

/-- If the step tests the flag, no reader is between its unlock and its setting of the flag. -/
def FlagSettled (s : Readers θ) (t : θ) : Prop := s.reader t = .locked → ∀ u, s.reader u ≠ .unlocked

/-! ## The invariant -/

/-- A reader that has not tested the flag. -/
def Waiting (r : Reader) : Prop := r = .start ∨ r = .locked

/-- A reader that has not tested the flag or has found it set. -/
def Served (r : Reader) : Prop := r = .start ∨ r = .locked ∨ r = .leaving ∨ r = .returned

/-- How far the one parse of the table has come. -/
inductive Stage (doc : List Element) (s : Readers θ) : Prop where
  /-- Nobody has started it. -/
  | fresh (hinit : s.initialized = false) (hparse : s.parse = ParseState.init) (hparsers : s.parsers = [])
      (hreaders : ∀ u, Waiting (s.reader u))
  /-- The reader `v` is at it, holding the mutex. -/
  | busy (v : θ) (done rest : List Element) (hinit : s.initialized = false) (hdoc : doc = done ++ rest)
      (hparse : s.parse = parseDocument done) (hparsers : s.parsers = [v]) (hv : s.reader v = .parsing rest)
      (hmutex : s.mutex = some v) (hreaders : ∀ u, u ≠ v → Waiting (s.reader u))
  /-- The reader `v` has finished it and not yet said so. -/
  | unsaid (v : θ) (hinit : s.initialized = false) (hparse : s.parse = parseDocument doc)
      (hparsers : s.parsers = [v]) (hv : s.reader v = .unlocked) (hreaders : ∀ u, u ≠ v → Waiting (s.reader u))
  /-- It is done and said. -/
  | settled (v : θ) (hinit : s.initialized = true) (hparse : s.parse = parseDocument doc)
      (hparsers : s.parsers = [v]) (hreaders : ∀ u, Served (s.reader u))

/-- What holds in every state reached by steps with a settled flag. -/
structure Inv (doc : List Element) (s : Readers θ) : Prop where
  stage : Stage doc s
  /-- Whoever is past the lock and has not returned or unlocked holds the mutex. -/
  owner : ∀ u, s.reader u = .locked ∨ s.reader u = .leaving → s.mutex = some u
  /-- Nobody has returned before the flag is set. -/
  silent : s.initialized = false → ∀ t, .returned t ∉ s.log
  noRewrite : ∀ l₁ l₂ t csc, s.log = l₁ ++ l₂ → .returned t ∈ l₁ → .wrote csc ∉ l₂

theorem inv_init (doc : List Element) : Inv doc (init : Readers θ) where
  stage := .fresh rfl rfl rfl (fun _ => Or.inl rfl)
  owner u h := by
    rcases h with h | h <;> exact absurd h (by simp [init])
  silent _ t := by simp [init]
  noRewrite l₁ l₂ t csc hlog hret := by
    have hl₁ : l₁ = [] := (List.nil_eq_append_iff.mp hlog).1
    rw [hl₁] at hret
    exact absurd hret (by simp)

/-! ## What the stage says about a reader -/

section Stage

variable {doc : List Element} {s : Readers θ} {t : θ}

theorem Waiting.served {r : Reader} (h : Waiting r) : Served r := by
  rcases h with h | h
  · exact Or.inl h
  · exact Or.inr (Or.inl h)

/-- A reader that parses is the one of the stage `busy`. -/
theorem Stage.of_parsing {rest : List Element} (h : Stage doc s) (ht : s.reader t = .parsing rest) :
    ∃ done, s.initialized = false ∧ doc = done ++ rest ∧ s.parse = parseDocument done ∧ s.parsers = [t] ∧
      s.mutex = some t ∧ ∀ u, u ≠ t → Waiting (s.reader u) := by
  have hnot : ¬ Served (s.reader t) := by
    rw [ht]
    simp [Served]
  cases h with
  | fresh _ _ _ hreaders => exact absurd (hreaders t).served hnot
  | busy v done rest' hinit hdoc hparse hparsers hv hmutex hreaders =>
      by_cases htv : t = v
      · subst htv
        rw [ht] at hv
        rw [Reader.parsing.inj hv]
        exact ⟨done, hinit, hdoc, hparse, hparsers, hmutex, hreaders⟩
      · exact absurd (hreaders t htv).served hnot
  | unsaid v _ _ _ hv hreaders =>
      by_cases htv : t = v
      · rw [← htv, ht] at hv
        exact absurd hv (by simp)
      · exact absurd (hreaders t htv).served hnot
  | settled _ _ _ _ hreaders => exact absurd (hreaders t) hnot

/-- A reader that has unlocked after its parse is the one of the stage `unsaid`. -/
theorem Stage.of_unlocked (h : Stage doc s) (ht : s.reader t = .unlocked) :
    s.initialized = false ∧ s.parse = parseDocument doc ∧ s.parsers = [t] ∧
      ∀ u, u ≠ t → Waiting (s.reader u) := by
  have hnot : ¬ Served (s.reader t) := by
    rw [ht]
    simp [Served]
  cases h with
  | fresh _ _ _ hreaders => exact absurd (hreaders t).served hnot
  | busy v _ _ _ _ _ _ hv _ hreaders =>
      by_cases htv : t = v
      · rw [← htv, ht] at hv
        exact absurd hv (by simp)
      · exact absurd (hreaders t htv).served hnot
  | unsaid v hinit hparse hparsers hv hreaders =>
      by_cases htv : t = v
      · subst htv
        exact ⟨hinit, hparse, hparsers, hreaders⟩
      · exact absurd (hreaders t htv).served hnot
  | settled _ _ _ _ hreaders => exact absurd (hreaders t) hnot

/-- A reader found the flag set, or has returned, only in the stage `settled`. -/
theorem Stage.of_served (h : Stage doc s) (ht : s.reader t = .leaving ∨ s.reader t = .returned) :
    s.initialized = true ∧ s.parse = parseDocument doc ∧ (∃ v, s.parsers = [v]) ∧
      ∀ u, Served (s.reader u) := by
  have hnot : ¬ Waiting (s.reader t) := by
    rcases ht with h | h <;> simp [h, Waiting]
  have hv : ∀ {v : θ} {r : Reader}, s.reader v = r → r ≠ .leaving → r ≠ .returned → t ≠ v := by
    rintro v r hv hr₁ hr₂ rfl
    rcases ht with h | h
    · exact hr₁ (hv.symm.trans h)
    · exact hr₂ (hv.symm.trans h)
  cases h with
  | fresh _ _ _ hreaders => exact absurd (hreaders t) hnot
  | busy v _ _ _ _ _ _ hv' _ hreaders => exact absurd (hreaders t (hv hv' (by simp) (by simp))) hnot
  | unsaid v _ _ _ hv' hreaders => exact absurd (hreaders t (hv hv' (by simp) (by simp))) hnot
  | settled v hinit hparse hparsers hreaders => exact ⟨hinit, hparse, ⟨v, hparsers⟩, hreaders⟩

end Stage

/-- What the invariant is for. -/
theorem Inv.readOnce {doc : List Element} {s : Readers θ} (h : Inv doc s) : ReadOnce doc s where
  once := by
    cases h.stage with
    | fresh _ _ hparsers _ => simp [hparsers]
    | busy _ _ _ _ _ _ hparsers _ _ _ => simp [hparsers]
    | unsaid _ _ _ hparsers _ _ => simp [hparsers]
    | settled _ _ _ hparsers _ => simp [hparsers]
  complete t ht := by
    obtain ⟨_, hparse, _, _⟩ := h.stage.of_served (Or.inr ht)
    rw [hparse]
  noRewrite := h.noRewrite

/-! ## What one step preserves -/

section Log

/-- A log without a return has no write after one. -/
theorem noRewrite_of_silent {log : List (TableEvent θ)} (h : ∀ t, .returned t ∉ log) :
    ∀ l₁ l₂ t csc, log = l₁ ++ l₂ → .returned t ∈ l₁ → .wrote csc ∉ l₂ := by
  intro l₁ l₂ t csc hlog hret
  exact absurd (by rw [hlog]; exact List.mem_append_left _ hret) (h t)

/-- A return adds no write. -/
theorem noRewrite_returned {log : List (TableEvent θ)} {u : θ}
    (h : ∀ l₁ l₂ t csc, log = l₁ ++ l₂ → .returned t ∈ l₁ → .wrote csc ∉ l₂) :
    ∀ l₁ l₂ t csc, log ++ [.returned u] = l₁ ++ l₂ → .returned t ∈ l₁ → .wrote csc ∉ l₂ := by
  intro l₁ l₂ t csc hlog hret
  rcases List.eq_nil_or_concat l₂ with hl₂ | ⟨l₂', last, hl₂⟩
  · rw [hl₂]
    simp
  · subst hl₂
    have hsplit : log ++ [.returned u] = (l₁ ++ l₂') ++ [last] := by simpa using hlog
    obtain ⟨hinit, hlast⟩ := List.append_inj' hsplit rfl
    intro hmem
    rw [List.concat_eq_append] at hmem
    rcases List.mem_append.mp hmem with hm | hm
    · exact h l₁ l₂' t csc hinit hret hm
    · rw [← hlast] at hm
      exact absurd hm (by simp)

end Log

section Step

variable [DecidableEq θ] {doc : List Element} {s : Readers θ} {t : θ}

/-- When `t` moves to `r` and the mutex to `m`, the mutex still belongs to whoever is past the lock. -/
theorem Inv.owner_move (h : Inv doc s) {r : Reader} {m : Option θ}
    (hown : r = .locked ∨ r = .leaving → m = some t) (hkeep : ∀ u, u ≠ t → s.mutex = some u → m = some u) :
    ∀ u, Function.update s.reader t r u = .locked ∨ Function.update s.reader t r u = .leaving → m = some u := by
  rw [Function.forall_update_iff s.reader (p := fun u r => r = .locked ∨ r = .leaving → m = some u)]
  exact ⟨hown, fun u hu hr => hkeep u hu (h.owner u hr)⟩

/-- The readers other than `t` stay where they are. -/
theorem readers_move {P : Reader → Prop} {r : Reader} (ht : P r) (hothers : ∀ u, u ≠ t → P (s.reader u)) :
    ∀ u, P (Function.update s.reader t r u) := by
  rw [Function.forall_update_iff s.reader (p := fun _ r => P r)]
  exact ⟨ht, hothers⟩

theorem others_move {P : Reader → Prop} {r : Reader} (hothers : ∀ u, u ≠ t → P (s.reader u)) :
    ∀ u, u ≠ t → P (Function.update s.reader t r u) := by
  intro u hu
  rw [Function.update_of_ne hu]
  exact hothers u hu

theorem Inv.lock (h : Inv doc s) (ht : s.reader t = .start) (hfree : s.mutex = none) :
    Inv doc { s with mutex := some t, reader := Function.update s.reader t .locked } where
  stage := by
    cases h.stage with
    | fresh hinit hparse hparsers hreaders =>
        exact .fresh hinit hparse hparsers (readers_move (Or.inr rfl) (fun u _ => hreaders u))
    | busy v _ _ _ _ _ _ _ hmutex _ =>
        rw [hfree] at hmutex
        exact absurd hmutex (by simp)
    | unsaid v hinit hparse hparsers hv hreaders =>
        have hvt : v ≠ t := by
          rintro rfl
          rw [ht] at hv
          exact absurd hv (by simp)
        refine .unsaid v hinit hparse hparsers ((Function.update_of_ne hvt _ _).trans hv) ?_
        intro u hu
        show Waiting (Function.update s.reader t .locked u)
        by_cases hut : u = t
        · rw [hut, Function.update_self]
          exact Or.inr rfl
        · rw [Function.update_of_ne hut]
          exact hreaders u hu
    | settled v hinit hparse hparsers hreaders =>
        exact .settled v hinit hparse hparsers (readers_move (Or.inr (Or.inl rfl)) (fun u _ => hreaders u))
  owner := h.owner_move (fun _ => rfl) (fun u _ hu => absurd (hfree.symm.trans hu) (by simp))
  silent := h.silent
  noRewrite := h.noRewrite

theorem Inv.findSet (h : Inv doc s) (ht : s.reader t = .locked) (hflag : s.initialized = true) :
    Inv doc { s with reader := Function.update s.reader t .leaving } where
  stage := by
    cases h.stage with
    | fresh hinit _ _ _ => rw [hflag] at hinit; exact absurd hinit (by simp)
    | busy _ _ _ hinit _ _ _ _ _ _ => rw [hflag] at hinit; exact absurd hinit (by simp)
    | unsaid _ hinit _ _ _ _ => rw [hflag] at hinit; exact absurd hinit (by simp)
    | settled v hinit hparse hparsers hreaders =>
        exact .settled v hinit hparse hparsers
          (readers_move (Or.inr (Or.inr (Or.inl rfl))) (fun u _ => hreaders u))
  owner := h.owner_move (fun _ => h.owner t (Or.inl ht)) (fun _ _ hu => hu)
  silent := h.silent
  noRewrite := h.noRewrite

/-- The only parse: the flag is not set, and nobody is about to set it. -/
theorem Inv.beginParse (h : Inv doc s) (ht : s.reader t = .locked) (hflag : s.initialized = false)
    (hsettled : FlagSettled s t) :
    Inv doc { s with reader := Function.update s.reader t (.parsing doc), parsers := s.parsers ++ [t] } where
  stage := by
    have hmutex := h.owner t (Or.inl ht)
    cases h.stage with
    | fresh _ hparse hparsers hreaders =>
        exact .busy t [] doc hflag rfl hparse (by simp [hparsers]) (by simp) hmutex
          (others_move (fun u _ => hreaders u))
    | busy v _ _ _ _ _ _ hv hmutex' _ =>
        rw [hmutex] at hmutex'
        have hvt : t = v := Option.some.inj hmutex'
        rw [← hvt, ht] at hv
        exact absurd hv (by simp)
    | unsaid v _ _ _ hv _ => exact absurd hv (hsettled ht v)
    | settled v hinit _ _ _ => rw [hflag] at hinit; exact absurd hinit (by simp)
  owner := h.owner_move (fun hr => absurd hr (by simp)) (fun _ _ hu => hu)
  silent := h.silent
  noRewrite := h.noRewrite

theorem Inv.element {e : Element} {rest : List Element} (h : Inv doc s) (ht : s.reader t = .parsing (e :: rest)) :
    Inv doc { s with
      parse := startElement s.parse e
      reader := Function.update s.reader t (.parsing rest)
      log := s.log ++ (writes s.parse e).toList.map .wrote } := by
  obtain ⟨done, hinit, hdoc, hparse, hparsers, hmutex, hreaders⟩ := h.stage.of_parsing ht
  have hsilent : ∀ u, .returned u ∉ s.log ++ (writes s.parse e).toList.map .wrote := by
    intro u hmem
    rcases List.mem_append.mp hmem with hm | hm
    · exact h.silent hinit u hm
    · exact absurd hm (by simp)
  have hparse' : startElement s.parse e = parseDocument (done ++ [e]) := by
    simp [parseDocument, hparse]
  refine ⟨?_, h.owner_move (fun hr => absurd hr (by simp)) (fun _ _ hu => hu), fun _ => hsilent,
    noRewrite_of_silent hsilent⟩
  exact .busy t (done ++ [e]) rest hinit (by simp [hdoc]) hparse' hparsers (by simp) hmutex (others_move hreaders)

theorem Inv.unlock (h : Inv doc s) (ht : s.reader t = .parsing []) :
    Inv doc { s with mutex := none, reader := Function.update s.reader t .unlocked } := by
  obtain ⟨done, hinit, hdoc, hparse, hparsers, hmutex, hreaders⟩ := h.stage.of_parsing ht
  have hfull : s.parse = parseDocument doc := by
    rw [hdoc, List.append_nil]
    exact hparse
  have hown := h.owner_move (r := .unlocked) (m := none) (fun hr => absurd hr (by simp))
    (fun u hu hm => absurd (Option.some.inj (hmutex.symm.trans hm)).symm hu)
  exact ⟨.unsaid t hinit hfull hparsers (by simp) (others_move hreaders), hown, h.silent, h.noRewrite⟩

theorem Inv.setFlag (h : Inv doc s) (ht : s.reader t = .unlocked) :
    Inv doc { s with
      initialized := true, reader := Function.update s.reader t .returned, log := s.log ++ [.returned t] } := by
  obtain ⟨_, hparse, hparsers, hreaders⟩ := h.stage.of_unlocked ht
  refine ⟨?_, h.owner_move (fun hr => absurd hr (by simp)) (fun _ _ hu => hu),
    fun hflag => absurd hflag (by simp), noRewrite_returned h.noRewrite⟩
  exact .settled t rfl hparse hparsers
    (readers_move (Or.inr (Or.inr (Or.inr rfl))) (fun u hu => (hreaders u hu).served))

theorem Inv.leave (h : Inv doc s) (ht : s.reader t = .leaving) :
    Inv doc { s with
      mutex := none, reader := Function.update s.reader t .returned, log := s.log ++ [.returned t] } := by
  obtain ⟨hinit, hparse, ⟨v, hparsers⟩, hreaders⟩ := h.stage.of_served (Or.inl ht)
  have hmutex := h.owner t (Or.inr ht)
  have hown := h.owner_move (r := .returned) (m := none) (fun hr => absurd hr (by simp))
    (fun u hu hm => absurd (Option.some.inj (hmutex.symm.trans hm)).symm hu)
  refine ⟨?_, hown, fun hflag => absurd (hinit.symm.trans hflag) (by simp), noRewrite_returned h.noRewrite⟩
  exact .settled v hinit hparse hparsers
    (readers_move (Or.inr (Or.inr (Or.inr rfl))) (fun u _ => hreaders u))

/-- **A step with a settled flag preserves the invariant.** -/
theorem Inv.step (h : Inv doc s) (hsettled : FlagSettled s t) : Inv doc (s.step (some doc) t) := by
  unfold Readers.step
  cases ht : s.reader t with
  | start =>
      cases hmutex : s.mutex with
      | none => exact h.lock ht hmutex
      | some u => exact h
  | locked =>
      simp only
      split
      · rename_i hflag
        exact h.findSet ht hflag
      · rename_i hflag
        exact h.beginParse ht (by simpa using hflag) hsettled
  | parsing rest =>
      cases rest with
      | nil => exact h.unlock ht
      | cons e rest => exact h.element ht
  | unlocked => exact h.setFlag ht
  | leaving => exact h.leave ht
  | returned => exact h

theorem inv_after {run : List θ}
    (h : AtEvery (fun pre t => FlagSettled (after (some doc) pre) t) run) : Inv doc (after (some doc) run) := by
  induction run using List.reverseRecOn with
  | nil => exact inv_init doc
  | append_singleton run t ih =>
      obtain ⟨hrun, hlast⟩ := atEvery_concat.mp h
      rw [after_concat]
      exact (ih hrun).step hlast

/-- A test of the flag while another reader is about to set it starts a second parse. -/
theorem Inv.second_parse (h : Inv doc s) (ht : s.reader t = .locked) {u : θ} (hu : s.reader u = .unlocked) :
    (s.step (some doc) t).parsers = [u, t] := by
  obtain ⟨hinit, _, hparsers, _⟩ := h.stage.of_unlocked hu
  unfold Readers.step
  simp [ht, hinit, hparsers]

end Step

/-- **The table is read once in every state of a run exactly when the flag is settled at every test**: no reader
    tests it while another one is between its unlock and its setting of the flag. -/
theorem readOnce_iff [DecidableEq θ] (doc : List Element) (run : List θ) :
    Along (fun pre => ReadOnce doc (after (some doc) pre)) run ↔
      AtEvery (fun pre t => FlagSettled (after (some doc) pre) t) run := by
  induction run using List.reverseRecOn with
  | nil => exact ⟨fun _ => atEvery_nil _, fun _ => along_nil.mpr (inv_init doc).readOnce⟩
  | append_singleton run t ih =>
      rw [along_concat, atEvery_concat]
      constructor
      · rintro ⟨hrun, hlast⟩
        have hsettled := ih.mp hrun
        refine ⟨hsettled, ?_⟩
        intro ht u hu
        -- otherwise the step makes a second parse
        have hparsers := (inv_after hsettled).second_parse ht hu
        have honce := hlast.once
        rw [after_concat, hparsers] at honce
        exact absurd honce (by simp)
      · rintro ⟨hrun, hlast⟩
        refine ⟨ih.mpr hrun, ?_⟩
        rw [after_concat]
        exact ((inv_after hrun).step hlast).readOnce

/-- A document with one channel. -/
def oneChannel : List Element :=
  [⟨"crate", [("number", "1")]⟩, ⟨"slot", [("number", "3")]⟩,
    ⟨"channel", [("number", "0"), ("detector", "paddles"), ("id", "0")]⟩]

/-- The second reader tests the flag after the first has unlocked the mutex and before it sets the flag. -/
def lateFlag : List Bool := [true, true, true, true, true, true, false, false]

/-- It parses the document a second time. -/
theorem lateFlag_not_readOnce : ¬ Along (fun pre => ReadOnce oneChannel (after (some oneChannel) pre)) lateFlag := by
  intro h
  have honce := (h lateFlag List.prefix_rfl).once
  have hreal : (after (some oneChannel) lateFlag).parsers = [true, false] := rfl
  rw [hreal] at honce
  exact absurd honce (by simp)

end Readers

end BdxReco
