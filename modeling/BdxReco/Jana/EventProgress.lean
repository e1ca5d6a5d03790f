import BdxReco.Jana.EventLoops
import Mathlib.Algebra.Order.BigOperators.Group.Finset

/-!
# `Jana.EventProgress` — the event buffer never gets stuck

The buffer keeps to its size (`Bounded`), so that the event buffer thread never waits on an empty buffer. A measure of
what is left to do goes down with every step, except where an event loop looks into an empty buffer again.

* `buffer_bound`: there are never more than `MAX_EVENTS_IN_BUFFER` events in the buffer, and the event buffer thread waits
  for a slot only while there is none.
* `work_bounded`: in any run, all but a bounded number of steps only look for something to do.
* `exists_done`: from every state that can be reached, all threads can still come to their end, unless the buffer was
  changed by two of them at once.
-/

namespace BdxReco

theorem Filler.disturbed_eq {ρ : Type} {filler : Filler ρ} (h : filler ≠ .pushNull) : filler.disturbed = filler := by
  cases filler <;> first | rfl | exact absurd rfl h

namespace Threads

variable {ρ ι : Type} {p : BufferParams} {s s' : Threads ρ ι}

/-! ## The size of the buffer -/

/-- The event buffer thread can come to put an event into the buffer without waiting. -/
def MayPush (f : Filler ρ) : Prop :=
  match f with
  | .push _ | .drain _ | .read | .behind _ | .pushNull => True
  | .barrier | .room | .woken | .flag | .done | .race | .fault => False

structure Bounded (p : BufferParams) (s : Threads ρ ι) : Prop where
  le : s.event_buffer.length ≤ p.MAX_EVENTS_IN_BUFFER
  free : MayPush s.filler → s.event_buffer.length < p.MAX_EVENTS_IN_BUFFER
  room : s.filler = .room → p.MAX_EVENTS_IN_BUFFER ≤ s.event_buffer.length

theorem bounded_await (h : s.event_buffer.length ≤ p.MAX_EVENTS_IN_BUFFER) : Bounded p (s.await p) := by
  obtain ⟨f, heq, hf⟩ := await_eq p s
  rw [heq]
  rcases hf with ⟨rfl, hle⟩ | ⟨rfl | rfl, hlt⟩
  · exact ⟨h, fun hpush => hpush.elim, fun _ => hle⟩
  · exact ⟨h, fun _ => hlt, fun hf => absurd hf (by simp)⟩
  · exact ⟨h, fun _ => hlt, fun hf => absurd hf (by simp)⟩

theorem Bounded.fillerMove (hs : Bounded p s) (hend : Ending s) (h : FillerMove p s s') : Bounded p s' := by
  have hfree : ∀ f : Filler ρ, s.filler = f → MayPush f → s.event_buffer.length < p.MAX_EVENTS_IN_BUFFER :=
    fun f hf hpush => hs.free (hf ▸ hpush)
  have hlen : ∀ event : Option (JEvent ρ), (s.event_buffer ++ [event]).length = s.event_buffer.length + 1 := by
    intro event
    simp
  cases h with
  | await => exact bounded_await hs.le
  | @push event hf =>
      have hlt := hfree _ hf trivial
      exact bounded_await (by rw [hlen]; exact hlt)
  | drain hf => exact ⟨hs.le, fun _ => hfree _ hf trivial, fun hf => absurd hf (by simp)⟩
  | enter hf =>
      have hlt := hfree _ hf trivial
      exact ⟨by rw [hlen]; exact hlt, fun hpush => hpush.elim, fun hf => absurd hf (by simp)⟩
  | stopped _ hstop => exact absurd (hstop.symm.trans hend.stop) (by simp)
  | ended hf | bare hf => exact ⟨hs.le, fun _ => hfree _ hf trivial, fun hf => absurd hf (by simp)⟩
  | fault => exact ⟨hs.le, fun hpush => hpush.elim, fun hf => absurd hf (by simp)⟩
  | read hf =>
      exact ⟨hs.le, fun _ => hfree _ hf trivial, fun hf => absurd hf (by simp only; split <;> simp)⟩
  | pushLast hf | pushNull hf =>
      have hlt := hfree _ hf trivial
      exact ⟨by rw [hlen]; exact hlt, fun hpush => hpush.elim, fun hf => absurd hf (by simp)⟩
  | race | flag => exact ⟨hs.le, fun hpush => hpush.elim, fun hf => absurd hf (by simp)⟩

section Loops

variable [DecidableEq ι] {w : ι}

/-- Whoever takes something out while the event buffer thread waits for a slot wakes it up. -/
theorem LoopMove.room (hend : Ending s) (h : LoopMove s w s') (hf : s'.filler = .room) :
    s.filler = .room ∧ s'.event_buffer = s.event_buffer := by
  have hsignal : s.filler.signalled ≠ .room := by
    cases s.filler <;> simp [Filler.signalled]
  have hdisturbed : s.filler.disturbed = .room → s.filler = .room := by
    cases s.filler <;> simp [Filler.disturbed]
  cases h with
  | lock => exact ⟨hdisturbed hf, rfl⟩
  | head | miss | retry | leave | process | finished | noMore => exact ⟨hf, rfl⟩
  | takeNull hpc =>
      rcases hpc with ⟨_, _, rfl⟩ | ⟨hagain, _, rfl⟩
      · exact absurd hf hsignal
      · exact absurd ((hend.again w hagain).symm.trans hf) (by simp)
  | take hpc =>
      rcases hpc with ⟨_, rfl⟩ | ⟨hagain, rfl⟩
      · exact absurd hf hsignal
      · exact absurd ((hend.again w hagain).symm.trans hf) (by simp)

theorem LoopMove.length_le (h : LoopMove s w s') : s'.event_buffer.length ≤ s.event_buffer.length := by
  rcases h.buffer with heq | ⟨x, heq⟩
  · rw [heq]
  · rw [heq, List.length_cons]
    exact Nat.le_succ _

theorem Bounded.step (hs : Bounded p s) (hend : Ending s) {a : Actor ι} (ha : a.Ordinary)
    (h : s.step p a = some s') : Bounded p s' := by
  cases a with
  | filler => exact hs.fillerMove hend (fillerStep_move h)
  | loop w =>
      have hmove := loopStep_move h
      have hle := hmove.length_le
      refine ⟨hle.trans hs.le, ?_, ?_⟩
      · intro hpush
        rcases hmove.filler with heq | ⟨_, hnew⟩ | ⟨_, hnew⟩
        · exact Nat.lt_of_le_of_lt hle (hs.free (heq ▸ hpush))
        · rw [hnew] at hpush
          exact hpush.elim
        · rw [hnew] at hpush
          exact hpush.elim
      · intro hf
        obtain ⟨hroom, heq⟩ := hmove.room hend hf
        rw [heq]
        exact hs.room hroom
  | wake =>
      obtain ⟨hroom, rfl⟩ := wake_move h
      exact ⟨hs.le, fun hpush => hpush.elim, fun hf => absurd hf (by simp)⟩
  | stop | quit => exact ha.elim

end Loops

/-! ## What is left to do -/

/-- How far an event loop is from its end. -/
def loopRank : Loop → Nat
  | .process => 6
  | .finished => 5
  | .head => 4
  | .look | .missed => 3
  | .again => 2
  | .noMore => 1
  | .gone => 0

/-- How far the event buffer thread is from its end, apart from the events it has still to read. -/
def fillerRank : Filler ρ → Nat
  | .push (some _) => 24
  | .drain _ => 23
  | .push none | .barrier => 14
  | .room | .woken => 13
  | .read => 12
  | .behind _ => 11
  | .pushNull => 10
  | .flag => 1
  | .done | .race | .fault => 0

/-- There is something in the buffer, for whoever takes the mutex first. -/
def openRank (event_buffer : List (Option (JEvent ρ))) (event_buffer_mutex : Option ι) : Nat :=
  if event_buffer.isEmpty || event_buffer_mutex.isSome then 0 else 1

theorem openRank_le (b : List (Option (JEvent ρ))) (m : Option ι) : openRank b m ≤ 1 := by
  unfold openRank
  split <;> omega

theorem openRank_some (b : List (Option (JEvent ρ))) (w : ι) : openRank b (some w) = 0 := by
  simp [openRank]

/-- An event weighs more in the source than in the buffer, and there more than what an event loop does with it. -/
def measure [Fintype ι] (s : Threads ρ ι) : Nat :=
  20 * s.source.length + fillerRank s.filler + 7 * s.event_buffer.length +
    openRank s.event_buffer s.event_buffer_mutex + ∑ w, loopRank (s.loops w).pc

theorem fillerRank_await (p : BufferParams) (s : Threads ρ ι) :
    ∃ f, s.await p = { s with filler := f } ∧ fillerRank f ≤ 13 ∧
      (s.event_buffer.length < p.MAX_EVENTS_IN_BUFFER → fillerRank f < 13) := by
  obtain ⟨f, heq, hf⟩ := await_eq p s
  refine ⟨f, heq, ?_⟩
  rcases hf with ⟨rfl, hle⟩ | ⟨rfl | rfl, hlt⟩
  · exact ⟨Nat.le_refl 13, fun hlt => absurd hlt (by omega)⟩
  · exact ⟨Nat.le_succ 12, fun _ => Nat.lt_succ_self 12⟩
  · exact ⟨Nat.le_add_right 11 2, fun _ => Nat.lt_add_of_pos_right Nat.two_pos⟩

/-- A step of the event buffer thread lowers the measure, unless it was woken up for nothing. -/
theorem FillerMove.measure [Fintype ι] (h : FillerMove p s s') :
    Threads.measure s' < Threads.measure s ∨
      Threads.measure s' ≤ Threads.measure s ∧ s.filler = .woken ∧
        p.MAX_EVENTS_IN_BUFFER ≤ s.event_buffer.length := by
  have hlen : ∀ event : Option (JEvent ρ), (s.event_buffer ++ [event]).length = s.event_buffer.length + 1 := by
    intro event
    simp
  have hrank : ∀ f : Filler ρ, s.filler = f → fillerRank s.filler = fillerRank f := fun f hf => by rw [hf]
  unfold Threads.measure
  cases h with
  | await hf =>
      obtain ⟨f, heq, hle, hlt⟩ := fillerRank_await p s
      rw [heq]
      simp only
      rcases hf with hf | hf | ⟨hf, _⟩
      · have hold : fillerRank s.filler = 14 := hrank _ hf
        omega
      · have hold : fillerRank s.filler = 13 := hrank _ hf
        by_cases hfull : p.MAX_EVENTS_IN_BUFFER ≤ s.event_buffer.length
        · exact Or.inr ⟨by omega, hf, hfull⟩
        · have hlt' := hlt (by omega)
          omega
      · have hold : fillerRank s.filler = 14 := hrank _ hf
        omega
  | @push event hf =>
      obtain ⟨f, heq, hle, _⟩ := fillerRank_await p { s with event_buffer := s.event_buffer ++ [some event] }
      have hold : fillerRank s.filler = 24 := hrank _ hf
      have hopen := openRank_le (s.event_buffer ++ [some event]) s.event_buffer_mutex
      rw [heq]
      simp only [hlen]
      omega
  | drain hf =>
      have hold : fillerRank s.filler = 24 := hrank _ hf
      simp only [fillerRank] at hold ⊢
      omega
  | @enter event hf =>
      have hold : fillerRank s.filler = 23 := hrank _ hf
      have hopen := openRank_le (s.event_buffer ++ [some event]) s.event_buffer_mutex
      simp only [hlen, fillerRank] at hold ⊢
      omega
  | stopped hf =>
      have hold : fillerRank s.filler = 13 := hrank _ hf
      simp only [fillerRank] at hold ⊢
      omega
  | ended hf =>
      have hold : fillerRank s.filler = 12 := hrank _ hf
      simp only [fillerRank] at hold ⊢
      omega
  | fault hf hsource =>
      have hold : fillerRank s.filler = 12 := hrank _ hf
      simp only [hsource, fillerRank, List.length_cons] at hold ⊢
      omega
  | @read event later kept skipTo hf hsource =>
      have hold : fillerRank s.filler = 12 := hrank _ hf
      have hnew : fillerRank (if p.isLast (s.NEvents_read + 1) then .behind kept else .push kept) ≤ 24 := by
        split
        · exact Nat.le_add_right 11 13
        · cases kept
          · exact Nat.le_add_right 14 10
          · exact Nat.le_refl 24
      simp only [hsource, List.length_cons]
      omega
  | @pushLast event hf =>
      have hold : fillerRank s.filler = 11 := hrank _ hf
      have hopen := openRank_le (s.event_buffer ++ [some event]) s.event_buffer_mutex
      simp only [hlen, fillerRank] at hold ⊢
      omega
  | pushNull hf =>
      have hold : fillerRank s.filler = 10 := hrank _ hf
      have hopen := openRank_le (s.event_buffer ++ [none]) s.event_buffer_mutex
      simp only [hlen, fillerRank] at hold ⊢
      omega
  | bare hf | race hf =>
      have hold : fillerRank s.filler = 11 := hrank _ hf
      simp only [fillerRank] at hold ⊢
      omega
  | flag hf =>
      have hold : fillerRank s.filler = 1 := hrank _ hf
      simp only [fillerRank] at hold ⊢
      omega

section LoopMeasure

variable [Fintype ι] [DecidableEq ι] {w : ι}

/-- What the other event loops have left to do. -/
def othersRank (loops : ι → JEventLoop ρ) (w : ι) : Nat := ∑ w' ∈ Finset.univ.erase w, loopRank (loops w').pc

theorem measure_eq (s : Threads ρ ι) (w : ι) :
    measure s = 20 * s.source.length + fillerRank s.filler + 7 * s.event_buffer.length +
      openRank s.event_buffer s.event_buffer_mutex + (loopRank (s.loops w).pc + othersRank s.loops w) := by
  unfold measure othersRank
  rw [Finset.add_sum_erase Finset.univ (fun w => loopRank (s.loops w).pc) (Finset.mem_univ w)]

theorem measure_setLoop (s : Threads ρ ι) (w : ι) (l : JEventLoop ρ) :
    measure (s.setLoop w l) = 20 * s.source.length + fillerRank s.filler + 7 * s.event_buffer.length +
      openRank s.event_buffer s.event_buffer_mutex + (loopRank l.pc + othersRank s.loops w) := by
  have hothers : othersRank (s.setLoop w l).loops w = othersRank s.loops w := by
    apply Finset.sum_congr rfl
    intro w' hw'
    have hother : (s.setLoop w l).loops w' = s.loops w' := Function.update_of_ne (Finset.ne_of_mem_erase hw') _ _
    rw [hother]
  rw [measure_eq _ w, hothers, setLoop_self]
  rfl

theorem fillerRank_signalled (f : Filler ρ) : fillerRank f.signalled = fillerRank f := by
  cases f <;> rfl

/-- The step of an event loop that lowers nothing: it takes the mutex of an empty buffer, finds no event there, or goes
back to look again. -/
inductive Polls (s : Threads ρ ι) (w : ι) : Threads ρ ι → Prop where
  | lock : (s.loops w).pc = .look ∨ (s.loops w).pc = .again → s.event_buffer = [] → s.event_buffer_mutex = none →
      Polls s w { s with event_buffer_mutex := some w }
  | miss : (s.loops w).pc = .look → s.event_buffer = [] → s.event_buffer_mutex = some w →
      Polls s w ({ s with event_buffer_mutex := none }.setLoop w { s.loops w with pc := .missed })
  | retry : (s.loops w).pc = .missed → (s.loops w).quit = false → s.event_buffer_filling = true →
      Polls s w (s.setLoop w { s.loops w with pc := .look })

/-- **A step of an event loop** lowers the measure, unless it only looks for an event. -/
theorem LoopMove.measure (h : LoopMove s w s') :
    Threads.measure s' < Threads.measure s ∨ Threads.measure s' = Threads.measure s ∧ Polls s w s' := by
  rw [measure_eq s w]
  cases h with
  | head hpc =>
      left
      have hnew : loopRank (if (s.loops w).quit then .gone else .look) ≤ 3 := by
        split <;> simp [loopRank]
      rw [measure_setLoop, hpc]
      simp only [loopRank] at hnew ⊢
      omega
  | lock hpc hfree =>
      rw [measure_eq _ w]
      simp only [hfree, openRank_some]
      by_cases hpush : s.filler = .pushNull
      · left
        simp only [hpush, Filler.disturbed, fillerRank]
        omega
      rw [Filler.disturbed_eq hpush]
      by_cases hnil : s.event_buffer = []
      · have hopen : openRank s.event_buffer (none : Option ι) = 0 := by simp [openRank, hnil]
        rw [hopen]
        exact Or.inr ⟨rfl, .lock hpc hnil hfree⟩
      · have hopen : openRank s.event_buffer (none : Option ι) = 1 := by simp [openRank, hnil]
        rw [hopen]
        omega
  | miss hpc hbuffer hmutex =>
      rw [measure_setLoop, hmutex, openRank_some]
      have hopen : openRank s.event_buffer (none : Option ι) = 0 := by simp [openRank, hbuffer]
      rcases hpc with ⟨hpc, rfl⟩ | ⟨hpc, rfl⟩
      · rw [hpc, hopen]
        exact Or.inr ⟨rfl, .miss hpc hbuffer hmutex⟩
      · left
        rw [hpc, hopen]
        simp only [loopRank]
        omega
  | @takeNull pc later f hpc hbuffer hmutex =>
      left
      have hopen := openRank_le later (none : Option ι)
      rw [measure_setLoop, hbuffer, hmutex, openRank_some]
      simp only [List.length_cons]
      rcases hpc with ⟨hpc, rfl, rfl⟩ | ⟨hpc, rfl, rfl⟩ <;>
        simp only [hpc, fillerRank_signalled, loopRank] <;> omega
  | @take event later f hpc hbuffer hmutex =>
      left
      have hopen := openRank_le later (none : Option ι)
      rw [measure_setLoop, hbuffer, hmutex, openRank_some]
      simp only [List.length_cons]
      rcases hpc with ⟨hpc, rfl⟩ | ⟨hpc, rfl⟩ <;> simp only [hpc, fillerRank_signalled, loopRank] <;> omega
  | retry hpc hquit hfill =>
      rw [measure_setLoop, hpc]
      exact Or.inr ⟨rfl, .retry hpc hquit hfill⟩
  | leave hpc | process hpc | finished hpc | noMore hpc =>
      left
      rw [measure_setLoop, hpc]
      simp only [loopRank]
      omega

/-- The step does more than to look for something to do. -/
def works (p : BufferParams) (s : Threads ρ ι) : Actor ι → Bool
  | .filler =>
    match s.filler with
    | .woken => decide (s.event_buffer.length < p.MAX_EVENTS_IN_BUFFER)
    | _ => true
  | .loop w =>
    match (s.loops w).pc with
    | .look => !s.event_buffer.isEmpty
    | .missed => (s.loops w).quit || !s.event_buffer_filling
    | .again => !s.event_buffer.isEmpty || s.event_buffer_mutex.isSome
    | _ => true
  | .wake | .stop | .quit _ => false

theorem measure_step {a : Actor ι} (h : s.step p a = some s') :
    measure s' ≤ measure s ∧ (works p s a = true → measure s' < measure s) := by
  cases a with
  | filler =>
      rcases (fillerStep_move h).measure with hlt | ⟨hle, hwoken, hfull⟩
      · exact ⟨hlt.le, fun _ => hlt⟩
      · refine ⟨hle, fun hworks => absurd hworks ?_⟩
        simp only [works, hwoken]
        simpa using hfull
  | loop w =>
      rcases (loopStep_move h).measure with hlt | ⟨heq, hpolls⟩
      · exact ⟨hlt.le, fun _ => hlt⟩
      · refine ⟨heq.le, fun hworks => absurd hworks ?_⟩
        cases hpolls with
        | lock hpc hnil hfree => rcases hpc with hpc | hpc <;> simp [works, hpc, hnil, hfree]
        | miss hlook hnil => simp [works, hlook, hnil]
        | retry hmissed hquit hfill => simp [works, hmissed, hquit, hfill]
  | wake =>
      obtain ⟨hroom, rfl⟩ := wake_move h
      refine ⟨le_of_eq ?_, fun hworks => absurd hworks (by simp [works])⟩
      unfold Threads.measure
      rw [hroom]
      rfl
  | stop =>
      obtain rfl := Option.some.inj h
      exact ⟨le_of_eq rfl, fun hworks => absurd hworks (by simp [works])⟩
  | quit w =>
      obtain rfl := Option.some.inj h
      refine ⟨le_of_eq ?_, fun hworks => absurd hworks (by simp [works])⟩
      rw [measure_setLoop, measure_eq s w]

/-- **Apart from looking for something to do, the threads take a bounded number of steps**, whatever their order. -/
theorem work_bounded (p : BufferParams) (events : List (JEvent ρ)) (skipTo : Nat) (as : List (Actor ι)) :
    Progress.counted (fun s a => s.step p a) (works p) (start events skipTo) as ≤
      20 * events.length + 14 + 4 * Fintype.card ι := by
  have hstart : measure (start events skipTo : Threads ρ ι) = 20 * events.length + 14 + 4 * Fintype.card ι := by
    have hranks : ∑ w : ι, loopRank ((start events skipTo : Threads ρ ι).loops w).pc = 4 * Fintype.card ι :=
      (Finset.sum_const_nat (fun _ _ => rfl)).trans (Nat.mul_comm _ _)
    unfold Threads.measure
    rw [hranks]
    rfl
  rw [← hstart]
  exact Progress.counted_le (fun _ _ _ h => measure_step h) as _

end LoopMeasure

/-! ## The end can be reached -/

/-- **The checks of an event do not go wrong**, if the two ways to skip events are not used together. -/
theorem admit_some {n skipTo : Nat} (hn : 0 < n) (h : p.EVENTS_TO_SKIP = 0 ∨ skipTo = 0) (event : JEvent ρ) :
    ∃ kept skipTo', p.admit n skipTo event = some (kept, skipTo') ∧ (skipTo = 0 → skipTo' = 0) := by
  unfold BufferParams.admit
  by_cases hzero : skipTo = 0
  · exact ⟨_, 0, if_pos hzero, fun _ => rfl⟩
  · have hkept : ¬ n ≤ p.EVENTS_TO_SKIP := by
      rw [h.resolve_right hzero]
      omega
    simp only [if_neg hzero, if_neg hkept]
    split
    · exact ⟨_, 0, rfl, fun _ => rfl⟩
    · exact ⟨_, skipTo, rfl, id⟩

/-- The event loop that holds the mutex looks into the buffer, and is alone with it. -/
def Held (s : Threads ρ ι) : Prop :=
  ∀ w, s.event_buffer_mutex = some w →
    ((s.loops w).pc = .look ∨ (s.loops w).pc = .again) ∧ s.filler ≠ .pushNull

/-- A state from which the threads get on. -/
structure Going (p : BufferParams) (s : Threads ρ ι) : Prop where
  ending : Ending s
  barrier : Barrier s
  bounded : Bounded p s
  held : Held s
  skip : p.EVENTS_TO_SKIP = 0 ∨ s.SKIP_TO_EVENT = 0
  fault : s.filler ≠ .fault

theorem FillerMove.skip (h : FillerMove p s s') (hs : p.EVENTS_TO_SKIP = 0 ∨ s.SKIP_TO_EVENT = 0) :
    (p.EVENTS_TO_SKIP = 0 ∨ s'.SKIP_TO_EVENT = 0) ∧ s'.filler ≠ .fault := by
  cases h with
  | await =>
      obtain ⟨f, heq, hf⟩ := await_eq p s
      rw [heq]
      refine ⟨hs, ?_⟩
      rcases hf with ⟨rfl, _⟩ | ⟨rfl | rfl, _⟩ <;> simp
  | @push event =>
      obtain ⟨f, heq, hf⟩ := await_eq p { s with event_buffer := s.event_buffer ++ [some event] }
      rw [heq]
      refine ⟨hs, ?_⟩
      rcases hf with ⟨rfl, _⟩ | ⟨rfl | rfl, _⟩ <;> simp
  | drain | enter | stopped | ended | pushLast | bare | race | pushNull | flag => exact ⟨hs, by simp⟩
  | @fault event later _ _ hkept =>
      obtain ⟨kept, skipTo, hsome, _⟩ := admit_some (Nat.succ_pos s.NEvents_read) hs event
      exact absurd (hkept.symm.trans hsome) (by simp)
  | @read event later kept skipTo _ _ hkept =>
      obtain ⟨kept', skipTo', hsome, hzero⟩ := admit_some (Nat.succ_pos s.NEvents_read) hs event
      obtain ⟨rfl, rfl⟩ := Prod.mk.inj (Option.some.inj (hkept.symm.trans hsome))
      refine ⟨hs.imp_right hzero, ?_⟩
      simp only
      split <;> simp

/-- The event buffer thread leaves the mutex to the event loops, and comes into their way only while one of them holds
it. -/
theorem FillerMove.mutex (h : FillerMove p s s') :
    s'.event_buffer_mutex = s.event_buffer_mutex ∧ (s.event_buffer_mutex = none → s'.filler ≠ .race) ∧
      (s.event_buffer_mutex ≠ none → s'.filler ≠ .pushNull) := by
  cases h with
  | await =>
      obtain ⟨f, heq, hf⟩ := await_eq p s
      rw [heq]
      rcases hf with ⟨rfl, _⟩ | ⟨rfl | rfl, _⟩ <;> simp
  | @push event =>
      obtain ⟨f, heq, hf⟩ := await_eq p { s with event_buffer := s.event_buffer ++ [some event] }
      rw [heq]
      rcases hf with ⟨rfl, _⟩ | ⟨rfl | rfl, _⟩ <;> simp
  | drain | enter | stopped | ended | fault | pushLast | pushNull | flag => simp
  | read =>
      simp only
      split <;> simp
  | bare _ hmutex => simp [hmutex]
  | race _ hmutex => simp [hmutex]

/-- **The event buffer thread steps**, unless it waits or an event loop holds the mutex. -/
theorem exists_fillerStep (hfree : s.event_buffer_mutex = none)
    (hwait : s.filler ≠ .room ∧ s.filler ≠ .done ∧ s.filler ≠ .race ∧ s.filler ≠ .fault)
    (hdrain : ∀ event, s.filler = .drain event → s.event_buffer = [])
    (hbarrier : s.filler = .barrier → s.sequential_event_complete = true) : ∃ s', s.fillerStep p = some s' := by
  unfold fillerStep
  rw [hfree, Option.isSome_none, Bool.and_false, if_neg Bool.false_ne_true]
  cases hf : s.filler with
  | push event =>
      cases event with
      | none => exact ⟨_, rfl⟩
      | some event =>
          simp only
          split <;> exact ⟨_, rfl⟩
  | drain event => simp [hdrain event hf]
  | barrier => simp [hbarrier hf]
  | woken =>
      simp only
      split <;> exact ⟨_, rfl⟩
  | behind event => cases event <;> exact ⟨_, rfl⟩
  | read | pushNull | flag => exact ⟨_, rfl⟩
  | room => exact absurd hf hwait.1
  | done => exact absurd hf hwait.2.1
  | race => exact absurd hf hwait.2.2.1
  | fault => exact absurd hf hwait.2.2.2

section Progress

variable [DecidableEq ι] {w : ι}

theorem LoopMove.skip (h : LoopMove s w s') : s'.SKIP_TO_EVENT = s.SKIP_TO_EVENT := by
  cases h <;> rfl

theorem LoopMove.held (h : LoopMove s w s') (hs : Held s) : Held s' := by
  have hdisturbed : s.filler.disturbed ≠ .pushNull := by
    cases s.filler <;> simp [Filler.disturbed]
  intro w' hw'
  by_cases hww : w' = w
  · subst hww
    cases h with
    | lock hpc => exact ⟨hpc, hdisturbed⟩
    | miss | takeNull | take => exact absurd hw' (by simp [setLoop])
    | head hpc | retry hpc | leave hpc | process hpc | finished hpc | noMore hpc =>
        rcases (hs w' hw').1 with hpc' | hpc' <;> exact absurd (hpc.symm.trans hpc') (by simp)
  · rw [h.other hww]
    cases h with
    | lock => exact absurd (Option.some.inj hw').symm hww
    | miss | takeNull | take => exact absurd hw' (by simp [setLoop])
    | head | retry | leave | process | finished | noMore => exact hs w' hw'

theorem LoopMove.guarded (h : LoopMove s w s') (hs : s.filler.Guarded) : s'.filler.Guarded := by
  rcases h.filler with heq | ⟨_, hnew⟩ | ⟨hold, _⟩
  · rwa [heq]
  · simp [Filler.Guarded, hnew]
  · exact absurd hold hs.1

theorem Going.step (hs : Going p s) {a : Actor ι} (ha : a.Ordinary) (h : s.step p a = some s') : Going p s' := by
  have hrest : Held s' ∧ (p.EVENTS_TO_SKIP = 0 ∨ s'.SKIP_TO_EVENT = 0) ∧ s'.filler ≠ .fault := by
    cases a with
    | filler =>
        have hmove := fillerStep_move h
        refine ⟨?_, hmove.skip hs.skip⟩
        intro w hw
        rw [hmove.mutex.1] at hw
        rw [hmove.loops_eq.1]
        exact ⟨(hs.held w hw).1, hmove.mutex.2.2 (by simp [hw])⟩
    | loop w =>
        have hmove := loopStep_move h
        refine ⟨hmove.held hs.held, hmove.skip ▸ hs.skip, ?_⟩
        rcases hmove.filler with heq | ⟨_, hnew⟩ | ⟨_, hnew⟩
        · exact heq ▸ hs.fault
        · simp [hnew]
        · simp [hnew]
    | wake =>
        obtain ⟨_, rfl⟩ := wake_move h
        exact ⟨fun w hw => ⟨(hs.held w hw).1, by simp⟩, hs.skip, by simp⟩
    | stop | quit => exact ha.elim
  exact ⟨hs.ending.step ha h, hs.barrier.step hs.ending ha h, hs.bounded.step hs.ending ha h, hrest.1, hrest.2.1,
    hrest.2.2⟩

theorem exists_loopStep (hrace : s.filler ≠ .race) (hpc : (s.loops w).pc ≠ .gone)
    (hmutex : s.event_buffer_mutex = none ∨ s.event_buffer_mutex = some w) : ∃ s', s.loopStep w = some s' := by
  have hnot : ¬ s.filler.raced = true := by
    cases hf : s.filler <;> simp_all [Filler.raced]
  have hlocked : ∀ locked : Threads ρ ι, ∃ s', s.withMutex w locked = some s' := by
    intro locked
    unfold withMutex
    rcases hmutex with hmutex | hmutex <;> rw [hmutex]
    · exact ⟨_, rfl⟩
    · exact ⟨_, if_pos rfl⟩
  unfold loopStep
  simp only [if_neg hnot]
  cases hpc' : (s.loops w).pc with
  | gone => exact absurd hpc' hpc
  | look | again => exact hlocked _
  | head | missed | process | finished | noMore => simp only [Option.some.injEq, exists_eq']

variable [Fintype ι]

/-- Some threads can take steps that lower the measure. -/
def CanLower (p : BufferParams) (s : Threads ρ ι) : Prop :=
  ∃ (as : List (Actor ι)) (s' : Threads ρ ι), (∀ a ∈ as, a.Ordinary) ∧ s.run p as = some s' ∧ s'.filler ≠ .race ∧
    measure s' < measure s

/-- By one step. -/
theorem canLower_of_step {a : Actor ι} (ha : a.Ordinary) (hstep : s.step p a = some s') (hrace : s'.filler ≠ .race)
    (hlt : measure s' < measure s) : CanLower p s :=
  ⟨[a], s', by simpa using ha, by simp [run, hstep], hrace, hlt⟩

/-- After a step that lowers nothing. -/
theorem CanLower.of_step {a : Actor ι} (ha : a.Ordinary) (hstep : s.step p a = some s') (heq : measure s' = measure s)
    (h : CanLower p s') : CanLower p s := by
  obtain ⟨as, s₂, has, hrun, hrace, hlt⟩ := h
  refine ⟨a :: as, s₂, List.forall_mem_cons.mpr ⟨ha, has⟩, ?_, hrace, heq ▸ hlt⟩
  unfold run at hrun ⊢
  rw [List.foldlM_cons, hstep]
  exact hrun

theorem canLower_filler (hfree : s.event_buffer_mutex = none) (h : ∃ s', s.fillerStep p = some s')
    (hfull : s.filler = .woken → s.event_buffer.length < p.MAX_EVENTS_IN_BUFFER) : CanLower p s := by
  obtain ⟨s', hstep⟩ := h
  have hmove := fillerStep_move hstep
  rcases hmove.measure with hlt | ⟨_, hwoken, hle⟩
  · exact canLower_of_step (a := .filler) trivial hstep (hmove.mutex.2.1 hfree) hlt
  · exact absurd (hfull hwoken) (by omega)

/-- A step of an event loop lowers the measure, or it only looks for an event. -/
theorem canLower_or_polls (hfiller : s.filler.Guarded) (hpc : (s.loops w).pc ≠ .gone)
    (hmutex : s.event_buffer_mutex = none ∨ s.event_buffer_mutex = some w) :
    CanLower p s ∨ ∃ s', s.step p (.loop w) = some s' ∧ s'.filler.Guarded ∧ measure s' = measure s ∧ Polls s w s' := by
  obtain ⟨s', hstep⟩ := exists_loopStep hfiller.2 hpc hmutex
  have hmove := loopStep_move hstep
  rcases hmove.measure with hlt | ⟨heq, hpolls⟩
  · exact Or.inl (canLower_of_step (a := .loop w) trivial hstep (hmove.guarded hfiller).2 hlt)
  · exact Or.inr ⟨s', hstep, hmove.guarded hfiller, heq, hpolls⟩

/-- Nothing comes any more, and the event loop has found nothing. -/
theorem canLower_missed (hfiller : s.filler.Guarded) (hpc : (s.loops w).pc = .missed)
    (hfree : s.event_buffer_mutex = none) (hfill : s.event_buffer_filling = false) : CanLower p s := by
  rcases canLower_or_polls (p := p) (w := w) hfiller (by simp [hpc]) (Or.inl hfree) with h | ⟨s', _, _, _, hpolls⟩
  · exact h
  · cases hpolls with
    | lock hpc' => rcases hpc' with hpc' | hpc' <;> exact absurd (hpc.symm.trans hpc') (by simp)
    | miss hpc' => exact absurd (hpc.symm.trans hpc') (by simp)
    | retry _ _ hfill' => exact absurd (hfill.symm.trans hfill') (by simp)

/-- **An event loop with something to take, or nothing to wait for, gets on** while nobody holds the mutex. -/
theorem canLower_loop (hfiller : s.filler.Guarded) (hpc : (s.loops w).pc ≠ .gone) (hfree : s.event_buffer_mutex = none)
    (hready : (s.loops w).pc = .look ∨ (s.loops w).pc = .missed →
      s.event_buffer ≠ [] ∨ s.event_buffer_filling = false) : CanLower p s := by
  rcases canLower_or_polls (p := p) hfiller hpc (Or.inl hfree) with h | ⟨s₁, hstep, hfiller₁, heq, hpolls⟩
  · exact h
  refine CanLower.of_step (a := .loop w) trivial hstep heq ?_
  cases hpolls with
  | lock hlook hnil =>
      -- it has the mutex of an empty buffer
      have hpc₁ : (s.loops w).pc ≠ .gone := hpc
      rcases canLower_or_polls (p := p) (w := w) hfiller₁ hpc₁ (Or.inr rfl) with h | ⟨s₂, hstep₂, hfiller₂, heq₂, hpolls₂⟩
      · exact h
      · cases hpolls₂ with
        | lock _ _ hfree' => exact absurd hfree' (by simp)
        | miss hlook' =>
            have hend := (hready (Or.inl hlook')).resolve_left (by simp [hnil])
            refine CanLower.of_step (a := .loop w) trivial hstep₂ heq₂ ?_
            exact canLower_missed hfiller₂ (by rw [setLoop_self]) rfl hend
        | retry hmissed => rcases hlook with hlook | hlook <;> exact absurd (hlook.symm.trans hmissed) (by simp)
  | miss _ _ hmutex => exact absurd (hfree.symm.trans hmutex) (by simp)
  | retry hmissed _ hfill =>
      -- it looks again, and finds something
      have hne := (hready (Or.inr hmissed)).resolve_right (by simp [hfill])
      have hpc₁ : ((s.setLoop w { s.loops w with pc := .look }).loops w).pc = .look := by rw [setLoop_self]
      rcases canLower_or_polls (p := p) (w := w) hfiller₁ (by simp [hpc₁]) (Or.inl hfree) with h | ⟨_, _, _, _, hpolls₂⟩
      · exact h
      · cases hpolls₂ with
        | lock _ hnil => exact absurd hnil hne
        | miss _ hnil => exact absurd hnil hne
        | retry hmissed₂ => exact absurd (hpc₁.symm.trans hmissed₂) (by simp)

/-- Every thread has ended. -/
def Done (s : Threads ρ ι) : Prop := s.filler = .done ∧ ∀ w, (s.loops w).pc = .gone

/-- **There is no deadlock** while nobody holds the mutex. -/
theorem canLower_of_free [Nonempty ι] (hmax : 0 < p.MAX_EVENTS_IN_BUFFER) (hs : Going p s) (hrace : s.filler ≠ .race)
    (hfree : s.event_buffer_mutex = none) (hdone : ¬ Done s) : CanLower p s := by
  -- while the event buffer thread has not ended, no event loop has
  have htake : s.filler.Guarded → s.filler ≠ .done → s.event_buffer ≠ [] → CanLower p s := by
    intro hguarded hf hne
    obtain ⟨w⟩ := ‹Nonempty ι›
    apply canLower_loop (w := w) hguarded _ hfree
    · exact fun _ => Or.inl hne
    · exact fun hgone => hf (hs.ending.left w (Or.inr (Or.inl hgone))).1
  have hfiller : s.filler ≠ .room ∧ s.filler ≠ .done →
      (∀ event, s.filler = .drain event → s.event_buffer = []) →
      (s.filler = .barrier → s.sequential_event_complete = true) →
      (s.filler = .woken → s.event_buffer.length < p.MAX_EVENTS_IN_BUFFER) → CanLower p s :=
    fun hwait hdrain hbarrier hfull => canLower_filler hfree
      (exists_fillerStep hfree ⟨hwait.1, hwait.2, hrace, hs.fault⟩ hdrain hbarrier) hfull
  cases hf : s.filler with
  | push | read | behind | pushNull | flag =>
      apply hfiller <;> simp [hf]
  | drain event =>
      by_cases hnil : s.event_buffer = []
      · apply hfiller <;> simp [hf, hnil]
      · exact htake (by simp [Filler.Guarded, hf]) (by simp [hf]) hnil
  | barrier =>
      cases hcomplete : s.sequential_event_complete with
      | true => apply hfiller <;> simp [hf, hcomplete]
      | false =>
          rcases hs.barrier.awaited hf hcomplete with ⟨event, hbuffer, _⟩ | ⟨w, hpc, _⟩
          · apply htake (by simp [Filler.Guarded, hf]) (by simp [hf])
            intro hnil
            unfold buffered at hbuffer
            rw [hnil] at hbuffer
            exact absurd hbuffer (by simp)
          · apply canLower_loop (w := w) (by simp [Filler.Guarded, hf]) _ hfree
            · rcases hpc with hpc | hpc <;> simp [hpc]
            · rcases hpc with hpc | hpc <;> simp [hpc]
  | room =>
      have hfull := hs.bounded.room hf
      exact htake (by simp [Filler.Guarded, hf]) (by simp [hf]) (List.ne_nil_of_length_pos (hmax.trans_le hfull))
  | woken =>
      by_cases hfull : s.event_buffer.length < p.MAX_EVENTS_IN_BUFFER
      · apply hfiller <;> simp [hf, hfull]
      · exact htake (by simp [Filler.Guarded, hf]) (by simp [hf]) (List.ne_nil_of_length_pos (by omega))
  | done =>
      obtain ⟨w, hpc⟩ : ∃ w, (s.loops w).pc ≠ .gone := by
        by_contra hall
        exact hdone ⟨hf, fun w => by_contra fun hpc => hall ⟨w, hpc⟩⟩
      exact canLower_loop (by simp [Filler.Guarded, hf]) hpc hfree (fun _ => Or.inr (hs.ending.filling.mpr hf))
  | race => exact absurd hf hrace
  | fault => exact absurd hf hs.fault

/-- **There is no deadlock**: while a thread has not ended, some threads get on. Whoever holds the mutex goes first. -/
theorem canLower_of_not_done [Nonempty ι] (hmax : 0 < p.MAX_EVENTS_IN_BUFFER) (hs : Going p s)
    (hrace : s.filler ≠ .race) (hdone : ¬ Done s) : CanLower p s := by
  cases hmutex : s.event_buffer_mutex with
  | none => exact canLower_of_free hmax hs hrace hmutex hdone
  | some w =>
      have hpc : (s.loops w).pc ≠ .gone := by
        rcases (hs.held w hmutex).1 with hpc | hpc <;> simp [hpc]
      rcases canLower_or_polls (p := p) ⟨(hs.held w hmutex).2, hrace⟩ hpc (Or.inr hmutex) with
        h | ⟨s', hstep, hfiller, heq, hpolls⟩
      · exact h
      · cases hpolls with
        | lock _ _ hfree => exact absurd (hmutex.symm.trans hfree) (by simp)
        | retry hmissed =>
            rcases (hs.held w hmutex).1 with hpc' | hpc' <;> exact absurd (hpc'.symm.trans hmissed) (by simp)
        | miss =>
            refine CanLower.of_step (a := .loop w) trivial hstep heq ?_
            refine canLower_of_free hmax (hs.step (a := .loop w) trivial hstep) hfiller.2 rfl ?_
            rintro ⟨_, hgone⟩
            have hw := hgone w
            rw [setLoop_self] at hw
            exact absurd hw (by simp)

end Progress

/-! ## Runs -/

theorem bounded_start (hmax : 0 < p.MAX_EVENTS_IN_BUFFER) (events : List (JEvent ρ)) (skipTo : Nat) :
    Bounded p (start events skipTo : Threads ρ ι) :=
  ⟨Nat.zero_le _, fun _ => hmax, by simp [start]⟩

section Runs

variable [DecidableEq ι] {events : List (JEvent ρ)} {skipTo : Nat} {as : List (Actor ι)}

theorem bounded_run (hmax : 0 < p.MAX_EVENTS_IN_BUFFER) (has : ∀ a ∈ as, a.Ordinary)
    (hrun : (start events skipTo).run p as = some s) : Bounded p s := by
  have hstart : Ending (start events skipTo : Threads ρ ι) := (invariant_start events skipTo).ending
  exact (Progress.invariant (I := fun s => Ending s ∧ Bounded p s)
    (fun _ a ha _ hs h => ⟨hs.1.step (has a ha) h, hs.2.step hs.1 (has a ha) h⟩) ⟨hstart, bounded_start hmax events skipTo⟩ hrun).2

theorem going_run (hskip : p.EVENTS_TO_SKIP = 0 ∨ skipTo = 0) (hmax : 0 < p.MAX_EVENTS_IN_BUFFER)
    (has : ∀ a ∈ as, a.Ordinary) (hrun : (start events skipTo).run p as = some s) : Going p s := by
  have hstart : Invariant (start events skipTo : Threads ρ ι) := invariant_start events skipTo
  have hheld : Held (start events skipTo : Threads ρ ι) := fun w hw => absurd hw (by simp [start])
  exact Progress.invariant (fun _ a ha _ (hs : Going p _) h => hs.step (has a ha) h)
    ⟨hstart.ending, hstart.barrier, bounded_start hmax events skipTo, hheld, hskip, by simp [start]⟩ hrun

/-- **The buffer keeps to its size**, and no signal is lost: the event buffer thread waits for a slot only while there is
none. -/
theorem buffer_bound (hmax : 0 < p.MAX_EVENTS_IN_BUFFER) (has : ∀ a ∈ as, a.Ordinary)
    (hrun : (start events skipTo).run p as = some s) :
    s.event_buffer.length ≤ p.MAX_EVENTS_IN_BUFFER ∧
      (s.filler = .room → s.event_buffer.length = p.MAX_EVENTS_IN_BUFFER) := by
  have hs := bounded_run hmax has hrun
  exact ⟨hs.le, fun hroom => hs.le.antisymm (hs.room hroom)⟩

theorem buffer_bound_upToBarrier :
    ∃ s : Threads Unit Bool, (start threeEvents 0).run oneSlot upToBarrier = some s ∧ s.event_buffer.length ≤ 1 :=
  ⟨_, rfl, (buffer_bound (p := oneSlot) (by decide) ordinary_upToBarrier
    (rfl : (start threeEvents 0).run oneSlot upToBarrier = some _)).1⟩

/-- **From every state that can be reached, the threads can still come to their end**, and then every event was handed
out. -/
theorem exists_done [Fintype ι] [Nonempty ι] (hskip : p.EVENTS_TO_SKIP = 0 ∨ skipTo = 0)
    (hmax : 0 < p.MAX_EVENTS_IN_BUFFER) (has : ∀ a ∈ as, a.Ordinary)
    (hrun : (start events skipTo).run p as = some s) (hrace : s.filler ≠ .race) :
    ∃ (as' : List (Actor ι)) (s' : Threads ρ ι), (∀ a ∈ as', a.Ordinary) ∧ s.run p as' = some s' ∧ Done s' ∧
      s'.handedOut = p.kept 0 skipTo events := by
  have hs := going_run hskip hmax has hrun
  have hlower : ∀ s : Threads ρ ι, Going p s ∧ s.filler ≠ .race → ¬ Done s →
      ∃ (as : List (Actor ι)) (s' : Threads ρ ι), (∀ a ∈ as, a.Ordinary) ∧ s.run p as = some s' ∧
        (Going p s' ∧ s'.filler ≠ .race) ∧ measure s' < measure s := by
    intro s hs hnot
    obtain ⟨as, s', has, hrun, hrace', hlt⟩ := canLower_of_not_done hmax hs.1 hs.2 hnot
    have hs' : Going p s' := Progress.invariant (fun _ a ha _ (hs : Going p _) h => hs.step (has a ha) h) hs.1 hrun
    exact ⟨as, s', has, hrun, ⟨hs', hrace'⟩, hlt⟩
  obtain ⟨as', s', has', hrun', ⟨hs', _⟩, hdone⟩ := Progress.exists_final hlower ⟨hs, hrace⟩
  refine ⟨as', s', has', hrun', hdone, ?_⟩
  obtain ⟨w⟩ := ‹Nonempty ι›
  have hwhole : (start events skipTo).run p (as ++ as') = some s' := by
    unfold run at hrun ⊢
    rw [List.foldlM_append, hrun]
    exact hrun'
  exact (hs'.ending.left w (Or.inr (Or.inl (hdone.2 w)))).handedOut_eq hs'.ending.stop hwhole

theorem exists_done_upToBarrier :
    ∃ (s : Threads Unit Bool) (as : List (Actor Bool)) (s' : Threads Unit Bool),
      (start threeEvents 0).run oneSlot upToBarrier = some s ∧ s.run oneSlot as = some s' ∧ Done s' ∧
        s'.handedOut = oneSlot.kept 0 0 threeEvents := by
  obtain ⟨as, s', _, hrun, hdone, hall⟩ := exists_done (p := oneSlot) (Or.inr rfl) (by decide)
    ordinary_upToBarrier (rfl : (start threeEvents 0).run oneSlot upToBarrier = some _) nofun
  exact ⟨_, as, s', rfl, hrun, hdone, hall⟩

end Runs

end Threads

end BdxReco
