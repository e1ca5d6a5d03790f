import BdxReco.Jana.EventBuffer

/-!
# `Jana.EventLoops` — what the event loops can rely on

Runs in which nothing is stopped and no event loop is told to quit. The invariants are about the end of the run
(`Ending`) and about sequential events (`Barrier`).

* `sequential_last`: while a sequential event is processed, no later event is handed out. The events before it may still
  be processed.
* `handedOut_of_gone`: an event loop ends only when every event was handed out.
-/

namespace BdxReco

/-- A step of one of the threads. -/
def Actor.Ordinary {ι : Type} : Actor ι → Prop
  | .filler | .loop _ | .wake => True
  | .stop | .quit _ => False

instance {ι : Type} (a : Actor ι) : Decidable a.Ordinary :=
  match a with
  | .filler | .loop _ | .wake => isTrue trivial
  | .stop | .quit _ => isFalse id

namespace Threads

variable {ρ ι : Type} {p : BufferParams} {s s' : Threads ρ ι}

/-! ## The end of the run -/

/-- The event buffer thread has ended, and only `NULL` is left in the buffer. -/
def Drained (s : Threads ρ ι) : Prop := s.filler = .done ∧ s.buffered = []

structure Ending (s : Threads ρ ι) : Prop where
  stop : s.stop_event_buffer = false
  filling : s.event_buffer_filling = false ↔ s.filler = .done
  -- `NULL` comes last
  nulls : ∀ b c, s.event_buffer = b ++ none :: c → c = [] ∧ (s.filler = .flag ∨ s.filler = .done)
  again : ∀ w, (s.loops w).pc = .again → s.filler = .done
  left : ∀ w, (s.loops w).pc = .noMore ∨ (s.loops w).pc = .gone ∨ (s.loops w).quit = true → s.Drained

/-! ### What the steps leave alone -/

theorem await_eq (p : BufferParams) (s : Threads ρ ι) : ∃ f, s.await p = { s with filler := f } ∧
    (f = .room ∧ p.MAX_EVENTS_IN_BUFFER ≤ s.event_buffer.length ∨
      (f = .read ∨ f = .behind none) ∧ s.event_buffer.length < p.MAX_EVENTS_IN_BUFFER) := by
  rcases await_cases p s with ⟨hle, heq⟩ | ⟨hlt, _, heq⟩ | ⟨hlt, _, heq⟩
  · exact ⟨_, heq, Or.inl ⟨rfl, hle⟩⟩
  · exact ⟨_, heq, Or.inr ⟨Or.inl rfl, hlt⟩⟩
  · exact ⟨_, heq, Or.inr ⟨Or.inr rfl, hlt⟩⟩

theorem FillerMove.loops_eq (h : FillerMove p s s') : s'.loops = s.loops ∧ s'.handedOut = s.handedOut := by
  cases h with
  | await =>
      obtain ⟨f, heq, _⟩ := await_eq p s
      rw [heq]
      exact ⟨rfl, rfl⟩
  | @push event =>
      obtain ⟨f, heq, _⟩ := await_eq p { s with event_buffer := s.event_buffer ++ [some event] }
      rw [heq]
      exact ⟨rfl, rfl⟩
  | drain | enter | stopped | ended | fault | read | pushLast | bare | race | pushNull | flag => exact ⟨rfl, rfl⟩

theorem FillerMove.not_done (h : FillerMove p s s') : s.filler ≠ .done := by
  cases h with
  | await hf => rcases hf with hf | hf | ⟨hf, _⟩ <;> simp [hf]
  | push hf | drain hf | enter hf | stopped hf | ended hf | fault hf | read hf | pushLast hf | bare hf | race hf
  | pushNull hf | flag hf =>
      simp [hf]

/-- `event_buffer_filling` is cleared by the last step. -/
theorem FillerMove.filling (h : FillerMove p s s') :
    s'.filler = .done ∧ s'.event_buffer_filling = false ∨
      s'.filler ≠ .done ∧ s'.event_buffer_filling = s.event_buffer_filling := by
  cases h with
  | await =>
      obtain ⟨f, heq, hf⟩ := await_eq p s
      rw [heq]
      rcases hf with ⟨rfl, _⟩ | ⟨rfl | rfl, _⟩ <;> simp
  | @push event =>
      obtain ⟨f, heq, hf⟩ := await_eq p { s with event_buffer := s.event_buffer ++ [some event] }
      rw [heq]
      rcases hf with ⟨rfl, _⟩ | ⟨rfl | rfl, _⟩ <;> simp
  | drain | enter | stopped | ended | fault | pushLast | bare | race | pushNull | flag => simp
  | read =>
      right
      simp only [and_true]
      split <;> simp

/-- What the event buffer thread does to the buffer. Behind `NULL` it puts nothing. -/
theorem FillerMove.buffer (h : FillerMove p s s') :
    s'.event_buffer = s.event_buffer ∧ (s.filler = .flag ∧ s'.filler = .done ∨ s.filler ≠ .flag) ∨
      ∃ event, s'.event_buffer = s.event_buffer ++ [event] ∧ s.filler ≠ .flag ∧ (event = none → s'.filler = .flag) := by
  cases h with
  | await hf =>
      obtain ⟨f, heq, _⟩ := await_eq p s
      rw [heq]
      refine Or.inl ⟨rfl, Or.inr ?_⟩
      rcases hf with hf | hf | ⟨hf, _⟩ <;> simp [hf]
  | @push event hf =>
      obtain ⟨f, heq, _⟩ := await_eq p { s with event_buffer := s.event_buffer ++ [some event] }
      rw [heq]
      exact Or.inr ⟨some event, rfl, by simp [hf], by simp⟩
  | drain hf | stopped hf | ended hf | fault hf | read hf | bare hf | race hf =>
      exact Or.inl ⟨rfl, Or.inr (by simp [hf])⟩
  | @enter event hf => exact Or.inr ⟨some event, rfl, by simp [hf], by simp⟩
  | @pushLast event hf => exact Or.inr ⟨some event, rfl, by simp [hf], fun _ => rfl⟩
  | pushNull hf => exact Or.inr ⟨none, rfl, by simp [hf], fun _ => rfl⟩
  | flag hf => exact Or.inl ⟨rfl, Or.inl ⟨hf, rfl⟩⟩

theorem Ending.fillerMove (hs : Ending s) (h : FillerMove p s s') : Ending s' := by
  have hdone := h.not_done
  refine ⟨h.stop_eq.trans hs.stop, ?_, ?_, ?_, ?_⟩
  · rcases h.filling with ⟨hf, hfill⟩ | ⟨hf, hfill⟩
    · simp [hf, hfill]
    · rw [hfill, hs.filling]
      exact ⟨fun hd => absurd hd hdone, fun hd => absurd hd hf⟩
  · intro b c hbuffer
    rcases h.buffer with ⟨heq, hf⟩ | ⟨event, heq, hf, hnull⟩
    · obtain ⟨hc, hfd⟩ := hs.nulls b c (heq ▸ hbuffer)
      refine ⟨hc, Or.inr ?_⟩
      rcases hf with ⟨_, hf'⟩ | hf
      · exact hf'
      · exact absurd hfd (by simp [hf, hdone])
    · rw [heq] at hbuffer
      rcases List.eq_nil_or_concat c with rfl | ⟨c', x, rfl⟩
      · obtain ⟨_, hevent⟩ := List.append_inj' hbuffer rfl
        exact ⟨rfl, Or.inl (hnull (List.head_eq_of_cons_eq hevent))⟩
      · rw [List.concat_eq_append, ← List.cons_append, ← List.append_assoc] at hbuffer
        have hold := (List.append_inj' hbuffer rfl).1
        exact absurd (hs.nulls b c' hold).2 (by simp [hf, hdone])
  · intro w hw
    rw [h.loops_eq.1] at hw
    exact absurd (hs.again w hw) hdone
  · intro w hw
    rw [h.loops_eq.1] at hw
    exact absurd (hs.left w hw).1 hdone

section Loops

variable [DecidableEq ι] {w : ι}

/-- An event loop signals the event buffer thread, or comes into its way. -/
theorem LoopMove.filler (h : LoopMove s w s') :
    s'.filler = s.filler ∨ s.filler = .room ∧ s'.filler = .woken ∨ s.filler = .pushNull ∧ s'.filler = .race := by
  have hsignal : ∀ f : Filler ρ, f.signalled = f ∨ f = .room ∧ f.signalled = .woken := by
    intro f
    cases f with
    | room => exact Or.inr ⟨rfl, rfl⟩
    | push | drain | barrier | woken | read | behind | pushNull | flag | done | race | fault => exact Or.inl rfl
  cases h with
  | head | miss | retry | leave | process | finished | noMore => exact Or.inl rfl
  | lock =>
      cases hf : s.filler with
      | pushNull => exact Or.inr (Or.inr ⟨rfl, by simp [Filler.disturbed]⟩)
      | push | drain | barrier | room | woken | read | behind | flag | done | race | fault => exact Or.inl rfl
  | takeNull hpc =>
      rcases hpc with ⟨_, _, rfl⟩ | ⟨_, _, rfl⟩
      · exact (hsignal s.filler).imp_right Or.inl
      · exact Or.inl rfl
  | take hpc =>
      rcases hpc with ⟨_, rfl⟩ | ⟨_, rfl⟩
      · exact (hsignal s.filler).imp_right Or.inl
      · exact Or.inl rfl

theorem LoopMove.filling_eq (h : LoopMove s w s') : s'.event_buffer_filling = s.event_buffer_filling := by
  cases h <;> rfl

theorem LoopMove.buffer (h : LoopMove s w s') :
    s'.event_buffer = s.event_buffer ∨ ∃ x, s.event_buffer = x :: s'.event_buffer := by
  cases h with
  | head | lock | miss | retry | leave | process | finished | noMore => exact Or.inl rfl
  | takeNull _ hbuffer | take _ hbuffer => exact Or.inr ⟨_, hbuffer⟩

/-- The other event loops are left alone. -/
theorem LoopMove.other (h : LoopMove s w s') {w' : ι} (hne : w' ≠ w) : s'.loops w' = s.loops w' := by
  cases h with
  | lock => rfl
  | head | miss | takeNull | take | retry | leave | process | finished | noMore => exact Function.update_of_ne hne _ _

theorem LoopMove.drained (h : LoopMove s w s') (hs : s.Drained) : s'.Drained := by
  have hfiller : s'.filler = .done := by
    rcases h.filler with heq | ⟨hold, _⟩ | ⟨hold, _⟩
    · rw [heq, hs.1]
    · exact absurd (hs.1.symm.trans hold) (by simp)
    · exact absurd (hs.1.symm.trans hold) (by simp)
  refine ⟨hfiller, ?_⟩
  rcases h.buffer with heq | ⟨x, hx⟩
  · unfold buffered
    rw [heq]
    exact hs.2
  · have hnil := hs.2
    unfold buffered at hnil ⊢
    rw [hx] at hnil
    cases x with
    | none => exact hnil
    | some event => exact absurd hnil (by simp)

theorem setLoop_self (s : Threads ρ ι) (w : ι) (l : JEventLoop ρ) : (s.setLoop w l).loops w = l :=
  Function.update_self _ _ _

/-- An event loop only ends on an empty buffer. -/
theorem Ending.left_of_loopMove (hs : Ending s) (h : LoopMove s w s')
    (hw : (s'.loops w).pc = .noMore ∨ (s'.loops w).pc = .gone ∨ (s'.loops w).quit = true) : s.Drained := by
  cases h with
  | head hpc =>
      rw [setLoop_self] at hw
      apply hs.left w
      rcases hw with hw | hw | hw
      · exact absurd hw (by simp only; split <;> simp)
      · refine Or.inr (Or.inr ?_)
        by_contra hquit
        simp only [if_neg hquit] at hw
        exact absurd hw (by simp)
      · exact Or.inr (Or.inr hw)
  | lock => exact hs.left w hw
  | @miss pc hpc hbuffer =>
      rw [setLoop_self] at hw
      rcases hpc with ⟨_, rfl⟩ | ⟨hagain, _⟩
      · exact hs.left w (Or.inr (Or.inr (by simpa using hw)))
      · exact ⟨hs.again w hagain, by unfold buffered; rw [hbuffer]; rfl⟩
  | @takeNull pc later f hpc hbuffer =>
      rw [setLoop_self] at hw
      rcases hpc with ⟨_, rfl, _⟩ | ⟨hagain, _⟩
      · exact hs.left w (Or.inr (Or.inr (by simpa using hw)))
      · have hlater := (hs.nulls [] later hbuffer).1
        exact ⟨hs.again w hagain, by unfold buffered; rw [hbuffer, hlater]; rfl⟩
  | take | retry | leave | process | finished =>
      rw [setLoop_self] at hw
      exact hs.left w (Or.inr (Or.inr (by simpa using hw)))
  | noMore hpc => exact hs.left w (Or.inl hpc)

theorem Ending.loopMove (hs : Ending s) (h : LoopMove s w s') : Ending s' := by
  have hkeep : s.filler = .flag ∨ s.filler = .done → s'.filler = s.filler := by
    intro hf
    rcases h.filler with heq | ⟨hold, _⟩ | ⟨hold, _⟩
    · exact heq
    · exact absurd hf (by simp [hold])
    · exact absurd hf (by simp [hold])
  refine ⟨h.stop_eq.trans hs.stop, ?_, ?_, ?_, ?_⟩
  · rw [h.filling_eq, hs.filling]
    rcases h.filler with heq | ⟨hold, hnew⟩ | ⟨hold, hnew⟩
    · rw [heq]
    · simp [hold, hnew]
    · simp [hold, hnew]
  · intro b c hbuffer
    obtain ⟨hc, hf⟩ : c = [] ∧ (s.filler = .flag ∨ s.filler = .done) := by
      rcases h.buffer with heq | ⟨x, hx⟩
      · exact hs.nulls b c (heq ▸ hbuffer)
      · exact hs.nulls (x :: b) c (by rw [hx, hbuffer]; rfl)
    rw [hkeep hf]
    exact ⟨hc, hf⟩
  · intro w' hw'
    by_cases hww : w' = w
    · subst hww
      have hdone : s.filler = .done := by
        cases h with
        | leave hpc hgo =>
            rcases hgo with hquit | hfill
            · exact (hs.left w' (Or.inr (Or.inr hquit))).1
            · exact hs.filling.mp hfill
        | head hpc =>
            rw [setLoop_self] at hw'
            exact absurd hw' (by simp only; split <;> simp)
        | lock => exact hs.again w' hw'
        | miss hpc =>
            rw [setLoop_self] at hw'
            rcases hpc with ⟨_, rfl⟩ | ⟨_, rfl⟩ <;> exact absurd hw' (by simp)
        | takeNull hpc =>
            rw [setLoop_self] at hw'
            rcases hpc with ⟨_, rfl, _⟩ | ⟨_, rfl, _⟩ <;> exact absurd hw' (by simp)
        | take | retry | process | finished | noMore =>
            rw [setLoop_self] at hw'
            exact absurd hw' (by simp)
      rw [hkeep (Or.inr hdone), hdone]
    · rw [h.other hww] at hw'
      have hdone := hs.again w' hw'
      rw [hkeep (Or.inr hdone), hdone]
  · intro w' hw'
    apply h.drained
    by_cases hww : w' = w
    · subst hww
      exact hs.left_of_loopMove h hw'
    · rw [h.other hww] at hw'
      exact hs.left w' hw'

theorem Ending.step (hs : Ending s) {a : Actor ι} (ha : a.Ordinary) (h : s.step p a = some s') : Ending s' := by
  cases a with
  | filler => exact hs.fillerMove (fillerStep_move h)
  | loop w => exact hs.loopMove (loopStep_move h)
  | wake =>
      obtain ⟨hroom, rfl⟩ := wake_move h
      refine ⟨hs.stop, ?_, ?_, ?_, ?_⟩
      · rw [hs.filling, hroom]
        simp
      · intro b c hbuffer
        exact absurd (hs.nulls b c hbuffer).2 (by simp [hroom])
      · exact fun w hw => absurd (hs.again w hw) (by simp [hroom])
      · exact fun w hw => absurd (hs.left w hw).1 (by simp [hroom])
  | stop | quit => exact ha.elim

end Loops

/-! ## Sequential events -/

/-- The event loop `w` has a sequential event that is not complete. -/
def Holds (s : Threads ρ ι) (w : ι) : Prop :=
  ((s.loops w).pc = .process ∨ (s.loops w).pc = .finished) ∧ (s.loops w).event.sequential = true

/-- The event buffer thread does not go on. -/
def Barred (s : Threads ρ ι) : Prop :=
  s.filler = .barrier ∧ s.sequential_event_complete = false ∨ s.filler = .flag ∨ s.filler = .done

structure Barrier (s : Threads ρ ι) : Prop where
  draining : ∀ event, s.filler = .drain event → event.sequential = true
  queued : ∀ b event c, s.buffered = b ++ event :: c → event.sequential = true → c = [] ∧ s.Barred
  held : ∀ w, s.Holds w → s.handedOut.getLast? = some (s.loops w).event ∧ s.buffered = [] ∧ s.Barred
  one : ∀ w w', s.Holds w → s.Holds w' → w = w'
  -- what the event buffer thread waits for
  awaited : s.filler = .barrier → s.sequential_event_complete = false →
    (∃ event, s.buffered = [event] ∧ event.sequential = true) ∨ ∃ w, s.Holds w

/-- At a barrier the event buffer thread does not move. -/
theorem FillerMove.of_barred (h : FillerMove p s s') (hstop : s.stop_event_buffer = false) (hbarred : s.Barred) :
    s'.filler = .done ∧ s'.buffered = s.buffered := by
  rcases hbarred with ⟨hf, hcomplete⟩ | hf | hf
  · cases h with
    | await hf' =>
        rcases hf' with hf' | hf' | ⟨_, hgo⟩
        · exact absurd (hf.symm.trans hf') (by simp)
        · exact absurd (hf.symm.trans hf') (by simp)
        · exact absurd hgo (by simp [hcomplete, hstop])
    | push hf' | drain hf' | enter hf' | stopped hf' | ended hf' | fault hf' | read hf' | pushLast hf' | bare hf'
    | race hf' | pushNull hf' | flag hf' =>
        exact absurd (hf.symm.trans hf') (by simp)
  · cases h with
    | await hf' => rcases hf' with hf' | hf' | ⟨hf', _⟩ <;> exact absurd (hf.symm.trans hf') (by simp)
    | flag => exact ⟨rfl, rfl⟩
    | push hf' | drain hf' | enter hf' | stopped hf' | ended hf' | fault hf' | read hf' | pushLast hf' | bare hf'
    | race hf' | pushNull hf' =>
        exact absurd (hf.symm.trans hf') (by simp)
  · exact absurd hf h.not_done

/-- What the event buffer thread puts into the buffer. Behind a sequential event it waits. -/
theorem FillerMove.buffered (h : FillerMove p s s') :
    s'.buffered = s.buffered ∨
      ∃ event, s'.buffered = s.buffered ++ [event] ∧ (event.sequential = true → s'.Barred) := by
  cases h with
  | await =>
      obtain ⟨f, heq, _⟩ := await_eq p s
      rw [heq]
      exact Or.inl rfl
  | @push event _ hseq =>
      obtain ⟨f, heq, _⟩ := await_eq p { s with event_buffer := s.event_buffer ++ [some event] }
      rw [heq]
      exact Or.inr ⟨event, reduceOption_concat _ _, fun hseq' => absurd hseq' (by simp [hseq])⟩
  | drain | stopped | ended | fault | read | bare | race | flag => exact Or.inl rfl
  | @enter event => exact Or.inr ⟨event, reduceOption_concat _ _, fun _ => Or.inl ⟨rfl, rfl⟩⟩
  | @pushLast event => exact Or.inr ⟨event, reduceOption_concat _ _, fun _ => Or.inr (Or.inl rfl)⟩
  | pushNull => exact Or.inl ((reduceOption_concat _ _).trans (List.append_nil _))

/-- The barrier is entered with a sequential event in an empty buffer. -/
theorem FillerMove.barrier (h : FillerMove p s s') (hstop : s.stop_event_buffer = false) (hf : s'.filler = .barrier) :
    ∃ event, s.filler = .drain event ∧ s'.buffered = [event] := by
  cases h with
  | await =>
      obtain ⟨f, heq, hf'⟩ := await_eq p s
      rw [heq] at hf
      rcases hf' with ⟨rfl, _⟩ | ⟨rfl | rfl, _⟩ <;> exact absurd hf (by simp)
  | @push event =>
      obtain ⟨f, heq, hf'⟩ := await_eq p { s with event_buffer := s.event_buffer ++ [some event] }
      rw [heq] at hf
      rcases hf' with ⟨rfl, _⟩ | ⟨rfl | rfl, _⟩ <;> exact absurd hf (by simp)
  | @enter event hdrain hempty =>
      have hnil : s.event_buffer = [] := hempty.resolve_right (by simp [hstop])
      refine ⟨event, hdrain, ?_⟩
      unfold Threads.buffered
      rw [hnil]
      rfl
  | read => exact absurd hf (by simp only; split <;> simp)
  | drain | stopped | ended | fault | pushLast | bare | race | pushNull | flag => exact absurd hf (by simp)

theorem FillerMove.draining (h : FillerMove p s s') {event : JEvent ρ} (hf : s'.filler = .drain event) :
    event.sequential = true := by
  cases h with
  | await =>
      obtain ⟨f, heq, hf'⟩ := await_eq p s
      rw [heq] at hf
      rcases hf' with ⟨rfl, _⟩ | ⟨rfl | rfl, _⟩ <;> exact absurd hf (by simp)
  | @push event =>
      obtain ⟨f, heq, hf'⟩ := await_eq p { s with event_buffer := s.event_buffer ++ [some event] }
      rw [heq] at hf
      rcases hf' with ⟨rfl, _⟩ | ⟨rfl | rfl, _⟩ <;> exact absurd hf (by simp)
  | drain _ hseq =>
      obtain rfl := Filler.drain.inj hf
      exact hseq
  | read => exact absurd hf (by simp only; split <;> simp)
  | enter | stopped | ended | fault | pushLast | bare | race | pushNull | flag => exact absurd hf (by simp)

theorem FillerMove.holds (h : FillerMove p s s') (w : ι) : s'.Holds w ↔ s.Holds w := by
  unfold Holds
  rw [h.loops_eq.1]

theorem Barrier.fillerMove (hs : Barrier s) (hend : Ending s) (h : FillerMove p s s') : Barrier s' := by
  by_cases hbarred : s.Barred
  · obtain ⟨hdone, hbuffered⟩ := h.of_barred hend.stop hbarred
    have hbarred' : s'.Barred := Or.inr (Or.inr hdone)
    refine ⟨fun event hf => h.draining hf, ?_, ?_, ?_, ?_⟩
    · intro b event c hbuffer hseq
      rw [hbuffered] at hbuffer
      exact ⟨(hs.queued b event c hbuffer hseq).1, hbarred'⟩
    · intro w hw
      obtain ⟨hlast, hnil, _⟩ := hs.held w ((h.holds w).mp hw)
      rw [h.loops_eq.1, h.loops_eq.2, hbuffered]
      exact ⟨hlast, hnil, hbarred'⟩
    · exact fun w w' hw hw' => hs.one w w' ((h.holds w).mp hw) ((h.holds w').mp hw')
    · exact fun hf _ => absurd (hdone.symm.trans hf) (by simp)
  · have hnone : ∀ w, ¬ s.Holds w := fun w hw => hbarred (hs.held w hw).2.2
    refine ⟨fun event hf => h.draining hf, ?_, ?_, ?_, ?_⟩
    · intro b event c hbuffer hseq
      rcases h.buffered with heq | ⟨pushed, heq, hpushed⟩
      · exact absurd (hs.queued b event c (heq ▸ hbuffer) hseq).2 hbarred
      · rw [heq] at hbuffer
        rcases List.eq_nil_or_concat c with rfl | ⟨c', x, rfl⟩
        · obtain ⟨_, hevent⟩ := List.append_inj' hbuffer rfl
          obtain rfl : pushed = event := List.head_eq_of_cons_eq hevent
          exact ⟨rfl, hpushed hseq⟩
        · rw [List.concat_eq_append, ← List.cons_append, ← List.append_assoc] at hbuffer
          exact absurd (hs.queued b event c' (List.append_inj' hbuffer rfl).1 hseq).2 hbarred
    · exact fun w hw => absurd ((h.holds w).mp hw) (hnone w)
    · exact fun w _ hw _ => absurd ((h.holds w).mp hw) (hnone w)
    · intro hf _
      obtain ⟨event, hdrain, hbuffered⟩ := h.barrier hend.stop hf
      exact Or.inl ⟨event, hbuffered, hs.draining event hdrain⟩

section Barriers

variable [DecidableEq ι] {w : ι}

/-- Only the event loop that holds the sequential event completes it. -/
theorem LoopMove.complete (hend : Ending s) (h : LoopMove s w s') :
    s'.sequential_event_complete = s.sequential_event_complete ∨
      ((s.loops w).pc = .finished ∧ s.Holds w ∧ s'.sequential_event_complete = true) ∨ s.filler = .done := by
  cases h with
  | head | lock | miss | takeNull | take | retry | leave | process => exact Or.inl rfl
  | finished hpc =>
      by_cases hseq : (s.loops w).event.sequential = true
      · refine Or.inr (Or.inl ⟨hpc, ⟨Or.inr hpc, hseq⟩, ?_⟩)
        show ((s.loops w).event.sequential || s.sequential_event_complete) = true
        rw [hseq, Bool.true_or]
      · left
        show ((s.loops w).event.sequential || s.sequential_event_complete) = _
        rw [Bool.eq_false_iff.mpr hseq, Bool.false_or]
  | noMore hpc => exact Or.inr (Or.inr (hend.left w (Or.inl hpc)).1)

/-- A sequential event is held until it is complete. -/
theorem LoopMove.holds_or_complete (h : LoopMove s w s') (hw : s.Holds w) :
    s'.Holds w ∨ s'.sequential_event_complete = true := by
  obtain ⟨hpc, hseq⟩ := hw
  cases h with
  | process =>
      left
      unfold Holds
      rw [setLoop_self]
      exact ⟨Or.inr rfl, hseq⟩
  | finished =>
      right
      show ((s.loops w).event.sequential || s.sequential_event_complete) = true
      rw [hseq, Bool.true_or]
  | head hpc' | retry hpc' | leave hpc' | noMore hpc' => exact absurd hpc (by simp [hpc'])
  | lock => exact Or.inl ⟨hpc, hseq⟩
  | miss hpc' => rcases hpc' with ⟨hpc', _⟩ | ⟨hpc', _⟩ <;> exact absurd hpc (by simp [hpc'])
  | takeNull hpc' => rcases hpc' with ⟨hpc', _⟩ | ⟨hpc', _⟩ <;> exact absurd hpc (by simp [hpc'])
  | take hpc' => rcases hpc' with ⟨hpc', _⟩ | ⟨hpc', _⟩ <;> exact absurd hpc (by simp [hpc'])

theorem LoopMove.barred (hend : Ending s) (h : LoopMove s w s') (hbarred : s.Barred)
    (hno : ¬((s.loops w).pc = .finished ∧ s.Holds w)) : s'.Barred := by
  have hfiller : s'.filler = s.filler := by
    rcases h.filler with heq | ⟨hold, _⟩ | ⟨hold, _⟩
    · exact heq
    · rcases hbarred with ⟨hf, _⟩ | hf | hf <;> exact absurd (hf.symm.trans hold) (by simp)
    · rcases hbarred with ⟨hf, _⟩ | hf | hf <;> exact absurd (hf.symm.trans hold) (by simp)
  unfold Barred at hbarred ⊢
  rw [hfiller]
  rcases h.complete hend with heq | hholds | hdone
  · rw [heq]
    exact hbarred
  · exact absurd ⟨hholds.1, hholds.2.1⟩ hno
  · exact Or.inr (Or.inr hdone)

/-- What an event loop does to the buffered events and to those handed out. -/
theorem LoopMove.taken (h : LoopMove s w s') :
    (s'.buffered = s.buffered ∧ s'.handedOut = s.handedOut) ∨
      ∃ event, s.buffered = event :: s'.buffered ∧ s'.handedOut = s.handedOut ++ [event] ∧
        (s'.loops w).pc = .process ∧ (s'.loops w).event = event := by
  cases h with
  | head | lock | miss | retry | leave | process | finished | noMore => exact Or.inl ⟨rfl, rfl⟩
  | takeNull _ hbuffer =>
      refine Or.inl ⟨?_, rfl⟩
      unfold Threads.buffered
      rw [hbuffer]
      rfl
  | take _ hbuffer =>
      refine Or.inr ⟨_, ?_, rfl, by rw [setLoop_self], by rw [setLoop_self]⟩
      unfold Threads.buffered
      rw [hbuffer]
      rfl

/-- An event loop comes to hold a sequential event by taking it. -/
theorem LoopMove.holds (h : LoopMove s w s') (hw : s'.Holds w) :
    s.Holds w ∧ (s.loops w).pc = .process ∧ (s'.loops w).event = (s.loops w).event ∨
      s.buffered = (s'.loops w).event :: s'.buffered := by
  obtain ⟨hpc, hseq⟩ := hw
  cases h with
  | head =>
      rw [setLoop_self] at hpc
      exact absurd hpc (by simp only; split <;> simp)
  | lock hpc' => rcases hpc' with hpc' | hpc' <;> exact absurd hpc (by simp [hpc'])
  | miss hpc' =>
      rw [setLoop_self] at hpc
      rcases hpc' with ⟨_, rfl⟩ | ⟨_, rfl⟩ <;> exact absurd hpc (by simp)
  | takeNull hpc' =>
      rw [setLoop_self] at hpc
      rcases hpc' with ⟨_, rfl, _⟩ | ⟨_, rfl, _⟩ <;> exact absurd hpc (by simp)
  | take _ hbuffer =>
      right
      rw [setLoop_self]
      unfold Threads.buffered
      rw [hbuffer]
      rfl
  | process hpc' =>
      rw [setLoop_self] at hseq ⊢
      exact Or.inl ⟨⟨Or.inl hpc', hseq⟩, hpc', rfl⟩
  | retry | leave | finished | noMore =>
      rw [setLoop_self] at hpc
      exact absurd hpc (by simp)

theorem LoopMove.holds_other (h : LoopMove s w s') {w' : ι} (hne : w' ≠ w) : s'.Holds w' ↔ s.Holds w' := by
  unfold Holds
  rw [h.other hne]

/-- While a sequential event is held, the buffer has no other. -/
theorem Barrier.one_of_loopMove (hs : Barrier s) (h : LoopMove s w s') {w' : ι} (hw : s'.Holds w)
    (hw' : s'.Holds w') : w' = w := by
  by_contra hne
  have hold := (h.holds_other hne).mp hw'
  rcases h.holds hw with ⟨hholds, _⟩ | hbuffer
  · exact hne (hs.one w' w hold hholds)
  · rw [(hs.held w' hold).2.1] at hbuffer
    exact absurd hbuffer (by simp)

theorem Barrier.loopMove (hs : Barrier s) (hend : Ending s) (h : LoopMove s w s') : Barrier s' := by
  refine ⟨?_, ?_, ?_, ?_, ?_⟩
  · intro event hf
    rcases h.filler with heq | ⟨_, hnew⟩ | ⟨_, hnew⟩
    · exact hs.draining event (heq ▸ hf)
    · exact absurd (hnew.symm.trans hf) (by simp)
    · exact absurd (hnew.symm.trans hf) (by simp)
  · intro b event c hbuffer hseq
    have hqueued : c = [] ∧ s.Barred ∧ s.buffered ≠ [] := by
      rcases h.taken with ⟨heq, _⟩ | ⟨first, heq, _⟩
      · rw [heq] at hbuffer
        obtain ⟨hc, hb⟩ := hs.queued b event c hbuffer hseq
        exact ⟨hc, hb, by simp [hbuffer]⟩
      · rw [hbuffer] at heq
        obtain ⟨hc, hb⟩ := hs.queued (first :: b) event c heq hseq
        exact ⟨hc, hb, by simp [heq]⟩
    obtain ⟨hc, hb, hne⟩ := hqueued
    exact ⟨hc, h.barred hend hb (fun hholds => hne (hs.held w hholds.2).2.1)⟩
  · intro w' hw'
    by_cases hww : w' = w
    · subst hww
      rcases h.holds hw' with ⟨hholds, hpc, hevent⟩ | hbuffer
      · obtain ⟨hlast, hnil, hb⟩ := hs.held w' hholds
        rcases h.taken with ⟨hsame, hhanded⟩ | ⟨event, heq, _⟩
        · rw [hsame, hhanded, hevent]
          exact ⟨hlast, hnil, h.barred hend hb (fun hfin => absurd (hpc.symm.trans hfin.1) (by simp))⟩
        · exact absurd (hnil.symm.trans heq) (by simp)
      · obtain ⟨hnil, hb⟩ := hs.queued [] _ _ hbuffer hw'.2
        rcases h.taken with ⟨hsame, _⟩ | ⟨event, heq, hhanded, _, hevent⟩
        · rw [hsame] at hbuffer
          exact absurd (congrArg List.length hbuffer) (by simp)
        · rw [hhanded, hevent]
          refine ⟨List.getLast?_concat, hnil, h.barred hend hb ?_⟩
          intro hfin
          rw [(hs.held w' hfin.2).2.1] at hbuffer
          exact absurd hbuffer (by simp)
    · have hold := (h.holds_other hww).mp hw'
      obtain ⟨hlast, hnil, hb⟩ := hs.held w' hold
      rcases h.taken with ⟨hsame, hhanded⟩ | ⟨event, heq, _⟩
      · rw [hsame, hhanded, h.other hww]
        exact ⟨hlast, hnil, h.barred hend hb (fun hfin => hww (hs.one w' w hold hfin.2))⟩
      · exact absurd (hnil.symm.trans heq) (by simp)
  · intro w₁ w₂ hw₁ hw₂
    by_cases h₁ : w₁ = w
    · subst h₁
      exact (hs.one_of_loopMove h hw₁ hw₂).symm
    · by_cases h₂ : w₂ = w
      · subst h₂
        exact hs.one_of_loopMove h hw₂ hw₁
      · exact hs.one w₁ w₂ ((h.holds_other h₁).mp hw₁) ((h.holds_other h₂).mp hw₂)
  · intro hf hcomplete
    have hf' : s.filler = .barrier := by
      rcases h.filler with heq | ⟨_, hnew⟩ | ⟨_, hnew⟩
      · exact heq ▸ hf
      · exact absurd (hnew.symm.trans hf) (by simp)
      · exact absurd (hnew.symm.trans hf) (by simp)
    have hcomplete' : s.sequential_event_complete = false := by
      rcases h.complete hend with heq | ⟨_, _, htrue⟩ | hdone
      · exact heq ▸ hcomplete
      · exact absurd (htrue.symm.trans hcomplete) (by simp)
      · exact absurd (hdone.symm.trans hf') (by simp)
    rcases hs.awaited hf' hcomplete' with ⟨event, hbuffer, hseq⟩ | ⟨w', hw'⟩
    · rcases h.taken with ⟨hsame, _⟩ | ⟨first, heq, _, hpc, hevent⟩
      · exact Or.inl ⟨event, hsame.trans hbuffer, hseq⟩
      · obtain ⟨rfl, _⟩ := List.cons.inj (hbuffer.symm.trans heq)
        exact Or.inr ⟨w, Or.inl hpc, by rw [hevent]; exact hseq⟩
    · right
      by_cases hww : w' = w
      · subst hww
        exact ⟨w', (h.holds_or_complete hw').resolve_right (by simp [hcomplete])⟩
      · exact ⟨w', (h.holds_other hww).mpr hw'⟩

theorem Barrier.step (hs : Barrier s) (hend : Ending s) {a : Actor ι} (ha : a.Ordinary) (h : s.step p a = some s') :
    Barrier s' := by
  cases a with
  | filler => exact hs.fillerMove hend (fillerStep_move h)
  | loop w => exact hs.loopMove hend (loopStep_move h)
  | wake =>
      obtain ⟨hroom, rfl⟩ := wake_move h
      have hopen : ¬ s.Barred := by simp [Barred, hroom]
      refine ⟨fun event hf => absurd hf (by simp), ?_, ?_, hs.one, fun hf => absurd hf (by simp)⟩
      · exact fun b event c hbuffer hseq => absurd (hs.queued b event c hbuffer hseq).2 hopen
      · exact fun w hw => absurd (hs.held w hw).2.2 hopen
  | stop | quit => exact ha.elim

end Barriers

/-! ## Runs -/

structure Invariant (s : Threads ρ ι) : Prop where
  ending : Ending s
  barrier : Barrier s

theorem invariant_start (events : List (JEvent ρ)) (skipTo : Nat) : Invariant (start events skipTo : Threads ρ ι) := by
  have hholds : ∀ w : ι, ¬ (start events skipTo : Threads ρ ι).Holds w := by
    rintro w ⟨hpc | hpc, _⟩ <;> exact absurd hpc (by simp [start])
  refine ⟨⟨rfl, by simp [start], ?_, ?_, ?_⟩, ⟨?_, ?_, ?_, ?_, ?_⟩⟩
  · exact fun b c hbuffer => absurd (congrArg List.length hbuffer) (by simp [start])
  · exact fun w hw => absurd hw (by simp [start])
  · exact fun w hw => absurd hw (by simp [start])
  · exact fun event hf => absurd hf (by simp [start])
  · exact fun b event c hbuffer => absurd (congrArg List.length hbuffer) (by simp [start, buffered])
  · exact fun w hw => absurd hw (hholds w)
  · exact fun w _ hw => absurd hw (hholds w)
  · exact fun hf => absurd hf (by simp [start])

section Runs

variable [DecidableEq ι] {events : List (JEvent ρ)} {skipTo : Nat} {as : List (Actor ι)}

theorem Invariant.step (hs : Invariant s) {a : Actor ι} (ha : a.Ordinary) (h : s.step p a = some s') : Invariant s' :=
  ⟨hs.ending.step ha h, hs.barrier.step hs.ending ha h⟩

theorem invariant_run (has : ∀ a ∈ as, a.Ordinary) (hrun : (start events skipTo).run p as = some s) : Invariant s :=
  Progress.invariant (fun _ a ha _ hs h => Invariant.step hs (has a ha) h) (invariant_start events skipTo) hrun

/-- **While a sequential event is processed, no other is handed out**: it was the last one, the buffer is empty behind
it, no other event loop has a sequential event, and the event buffer thread keeps away from the buffer. -/
theorem sequential_last (has : ∀ a ∈ as, a.Ordinary) (hrun : (start events skipTo).run p as = some s) {w : ι}
    (hpc : (s.loops w).pc = .process) (hseq : (s.loops w).event.sequential = true) :
    s.handedOut.getLast? = some (s.loops w).event ∧ s.buffered = [] ∧
      (∀ w', (s.loops w').pc = .process → (s.loops w').event.sequential = true → w' = w) ∧ s.filler.Guarded := by
  have hs := (invariant_run has hrun).barrier
  obtain ⟨hlast, hnil, hbarred⟩ := hs.held w ⟨Or.inl hpc, hseq⟩
  refine ⟨hlast, hnil, fun w' hpc' hseq' => hs.one w' w ⟨Or.inl hpc', hseq'⟩ ⟨Or.inl hpc, hseq⟩, ?_⟩
  rcases hbarred with ⟨hf, _⟩ | hf | hf <;> simp [Filler.Guarded, hf]

theorem ordinary_upToBarrier : ∀ a ∈ upToBarrier, a.Ordinary := by decide

/-- The other event loop still processes the event before. -/
theorem sequential_last_upToBarrier :
    ∃ s : Threads Unit Bool, (start threeEvents 0).run oneSlot upToBarrier = some s ∧
      (s.loops false).pc = .process ∧ (s.loops true).pc = .process ∧
      s.handedOut.getLast? = some (s.loops true).event :=
  ⟨_, rfl, rfl, rfl, (sequential_last ordinary_upToBarrier
    (rfl : (start threeEvents 0).run oneSlot upToBarrier = some _) rfl rfl).1⟩

theorem Drained.handedOut_eq (hs : s.Drained) (hstop : s.stop_event_buffer = false)
    (hrun : (start events skipTo).run p as = some s) : s.handedOut = p.kept 0 skipTo events := by
  have hlog := (logged_run hrun).eq hstop
  have hcoming : s.coming p = [] := by
    unfold coming
    rw [hs.1]
  rw [log, hs.2, hcoming, List.append_nil, List.append_nil] at hlog
  exact hlog

/-- **An event loop ends only when every event was handed out.** -/
theorem handedOut_of_gone (has : ∀ a ∈ as, a.Ordinary) (hrun : (start events skipTo).run p as = some s) {w : ι}
    (hgone : (s.loops w).pc = .gone) : s.handedOut = p.kept 0 skipTo events := by
  have hs := (invariant_run has hrun).ending
  exact (hs.left w (Or.inr (Or.inl hgone))).handedOut_eq hs.stop hrun

/-- The sequential event is completed, and its event loop ends. -/
def afterBarrier : List (Actor Bool) :=
  [.loop true, .loop true, .filler, .filler, .filler, .filler, .filler, .loop true, .loop true, .loop true, .loop true,
    .loop true, .loop true, .loop true]

theorem handedOut_of_gone_afterBarrier :
    ∃ s : Threads Unit Bool, (start threeEvents 0).run oneSlot (upToBarrier ++ afterBarrier) = some s ∧
      s.handedOut = oneSlot.kept 0 0 threeEvents :=
  ⟨_, rfl, handedOut_of_gone (w := true) (by decide : ∀ a ∈ upToBarrier ++ afterBarrier, a.Ordinary)
    (rfl : (start threeEvents 0).run oneSlot _ = some _) rfl⟩

end Runs

end Threads

end BdxReco
