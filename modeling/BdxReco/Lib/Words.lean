import Mathlib.Data.List.Basic

/-!
# `Lib.Words` — the words of a text, and which characters can be left out of it

A text is a list of characters, some of which are blank (`p`); its words are the maximal runs of the others. Two texts
have the same words exactly when they have the same characters that are not blank, each with the same answer to the
question whether it starts a word (`words_eq_words_iff`).

Leaving out blank characters of one kind (`d`) keeps the words as long as no two words were separated by characters of
this kind only (`Apart`); cutting off the end of the text keeps them as long as the end is blank (`words_filter_iff`).
-/

namespace Words

variable {α : Type} (p : α → Bool)

/-- The words of a text. -/
def words (cs : List α) : List (List α) := (cs.splitOnP p).filter (fun w => !w.isEmpty)

/-- The characters that are not blank, each with whether it starts a word; `b` says whether a word may start here. -/
def marks (b : Bool) : List α → List (α × Bool)
  | [] => []
  | c :: cs => if p c then marks true cs else (c, b) :: marks false cs

/-- The marks of a word. -/
def markWord : List α → List (α × Bool)
  | [] => []
  | c :: w => (c, true) :: w.map (fun c => (c, false))

variable {p}

theorem marks_cons_blank {c : α} (hc : p c = true) (b : Bool) (cs : List α) :
    marks p b (c :: cs) = marks p true cs := by
  rw [marks, if_pos hc]

theorem marks_cons_letter {c : α} (hc : p c = false) (b : Bool) (cs : List α) :
    marks p b (c :: cs) = (c, b) :: marks p false cs := by
  rw [marks, if_neg (by simp [hc])]

/-- The marks are those of the pieces between the blanks, where the first piece may go on with a word. -/
theorem marks_of_splitOnP {cs w : List α} {ws : List (List α)} (h : cs.splitOnP p = w :: ws) (b : Bool) :
    marks p b cs = (if b then markWord w else w.map (fun c => (c, false))) ++ ws.flatMap markWord := by
  induction cs generalizing b w ws with
  | nil =>
      obtain ⟨rfl, rfl⟩ := List.cons.inj (List.splitOnP_nil.symm.trans h)
      cases b <;> rfl
  | cons c cs ih =>
      rw [List.splitOnP_cons_eq_if_modifyHead] at h
      by_cases hc : p c = true
      · rw [if_pos hc] at h
        obtain ⟨rfl, rfl⟩ := List.cons.inj h
        obtain ⟨w, ws, hws⟩ := List.exists_cons_of_ne_nil (List.splitOnP_ne_nil p cs)
        rw [marks_cons_blank hc, ih hws true, hws]
        cases b <;> rfl
      · have hletter : p c = false := by simpa using hc
        obtain ⟨v, vs, hvs⟩ := List.exists_cons_of_ne_nil (List.splitOnP_ne_nil p cs)
        rw [if_neg hc, hvs, List.modifyHead_cons] at h
        obtain ⟨rfl, rfl⟩ := List.cons.inj h
        rw [marks_cons_letter hletter, ih hvs false]
        cases b <;> rfl

/-- The pieces between the blanks have none. -/
theorem letter_of_mem_splitOnP {cs w : List α} (hw : w ∈ cs.splitOnP p) : ∀ c ∈ w, p c = false := by
  induction cs generalizing w with
  | nil =>
      rw [List.splitOnP_nil, List.mem_singleton] at hw
      simp [hw]
  | cons c cs ih =>
      rw [List.splitOnP_cons_eq_if_modifyHead] at hw
      by_cases hc : p c = true
      · rw [if_pos hc] at hw
        rcases List.mem_cons.mp hw with rfl | hw
        · simp
        · exact ih hw
      · obtain ⟨v, vs, hvs⟩ := List.exists_cons_of_ne_nil (List.splitOnP_ne_nil p cs)
        rw [if_neg hc, hvs, List.modifyHead_cons] at hw
        rcases List.mem_cons.mp hw with rfl | hw
        · intro c' hc'
          rcases List.mem_cons.mp hc' with rfl | hc'
          · simpa using hc
          · exact ih (by simp [hvs]) c' hc'
        · exact ih (by simp [hvs, hw])

theorem marks_eq_flatMap (cs : List α) : marks p true cs = (words p cs).flatMap markWord := by
  have hfilter : ∀ ws : List (List α), (ws.filter (fun w => !w.isEmpty)).flatMap markWord = ws.flatMap markWord := by
    intro ws
    induction ws with
    | nil => rfl
    | cons w ws ih =>
        cases w with
        | nil => exact ih
        | cons c w => simpa using ih
  obtain ⟨w, ws, hws⟩ := List.exists_cons_of_ne_nil (List.splitOnP_ne_nil p cs)
  rw [marks_of_splitOnP hws true, words, hfilter, hws]
  rfl

/-- A word ends where the next one starts. -/
theorem takeWhile_marks (w : List α) {ws : List (List α)} (hws : ∀ v ∈ ws, v ≠ []) :
    (w.map (fun c => (c, false)) ++ ws.flatMap markWord).takeWhile (fun m => !m.2) = w.map (fun c => (c, false)) := by
  rw [List.takeWhile_append_of_pos (by simp)]
  cases ws with
  | nil => simp
  | cons v ws =>
      cases v with
      | nil => exact absurd rfl (hws [] (by simp))
      | cons c v => simp [markWord]

theorem flatMap_markWord_inj {ws vs : List (List α)} (hws : ∀ w ∈ ws, w ≠ []) (hvs : ∀ v ∈ vs, v ≠ [])
    (h : ws.flatMap markWord = vs.flatMap markWord) : ws = vs := by
  have hpair : Function.Injective (fun c : α => (c, false)) := fun _ _ hcd => (Prod.mk.inj hcd).1
  induction ws generalizing vs with
  | nil =>
      cases vs with
      | nil => rfl
      | cons v vs =>
          cases v with
          | nil => exact absurd rfl (hvs [] (by simp))
          | cons d v => exact absurd h.symm (List.cons_ne_nil _ _)
  | cons w ws ih =>
      cases w with
      | nil => exact absurd rfl (hws [] (by simp))
      | cons c w =>
          cases vs with
          | nil => exact absurd h (List.cons_ne_nil _ _)
          | cons v vs =>
              cases v with
              | nil => exact absurd rfl (hvs [] (by simp))
              | cons d v =>
                  have hws' : ∀ u ∈ ws, u ≠ [] := fun u hu => hws u (List.mem_cons_of_mem _ hu)
                  have hvs' : ∀ u ∈ vs, u ≠ [] := fun u hu => hvs u (List.mem_cons_of_mem _ hu)
                  simp only [List.flatMap_cons, markWord, List.cons_append] at h
                  obtain ⟨hhead, htail⟩ := List.cons.inj h
                  have hfirst := congrArg (List.takeWhile (fun m : α × Bool => !m.2)) htail
                  rw [takeWhile_marks w hws', takeWhile_marks v hvs'] at hfirst
                  obtain rfl := List.map_injective_iff.mpr hpair hfirst
                  obtain rfl := (Prod.mk.inj hhead).1
                  rw [ih hws' hvs' (List.append_cancel_left htail)]

/-- **The marks say what the words are.** -/
theorem words_eq_words_iff {a b : List α} : words p a = words p b ↔ marks p true a = marks p true b := by
  have hne : ∀ cs : List α, ∀ w ∈ words p cs, w ≠ [] := by
    intro cs w hw
    simpa using (List.mem_filter.mp hw).2
  constructor
  · intro h
    rw [marks_eq_flatMap, marks_eq_flatMap, h]
  · intro h
    rw [marks_eq_flatMap, marks_eq_flatMap] at h
    exact flatMap_markWord_inj (hne a) (hne b) h

/-- The letters of the marks are those of the text. -/
theorem marks_map_fst (b : Bool) (cs : List α) : (marks p b cs).map Prod.fst = cs.filter (fun c => !p c) := by
  induction cs generalizing b with
  | nil => rfl
  | cons c cs ih =>
      by_cases hc : p c = true
      · rw [marks_cons_blank hc, ih, List.filter_cons_of_neg (by simp [hc])]
      · have hletter : p c = false := by simpa using hc
        rw [marks_cons_letter hletter, List.map_cons, ih, List.filter_cons_of_pos (by simp [hletter])]

theorem filter_of_words_eq {a b : List α} (h : words p a = words p b) :
    a.filter (fun c => !p c) = b.filter (fun c => !p c) := by
  rw [← marks_map_fst true a, ← marks_map_fst true b, words_eq_words_iff.mp h]

/-! ## A text that is cut off -/

theorem marks_eq_nil_iff {b : Bool} {cs : List α} : marks p b cs = [] ↔ ∀ c ∈ cs, p c = true := by
  rw [← List.map_eq_nil_iff (f := Prod.fst), marks_map_fst, List.filter_eq_nil_iff]
  simp

theorem marks_append (b : Bool) (xs ys : List α) :
    ∃ b', marks p b (xs ++ ys) = marks p b xs ++ marks p b' ys := by
  induction xs generalizing b with
  | nil => exact ⟨b, rfl⟩
  | cons c xs ih =>
      by_cases hc : p c = true
      · obtain ⟨b', hb'⟩ := ih true
        exact ⟨b', by rw [List.cons_append, marks_cons_blank hc, marks_cons_blank hc, hb']⟩
      · have hletter : p c = false := by simpa using hc
        obtain ⟨b', hb'⟩ := ih false
        exact ⟨b', by rw [List.cons_append, marks_cons_letter hletter, marks_cons_letter hletter, hb',
          List.cons_append]⟩

/-- A blank end belongs to no word. -/
theorem words_append_of_blank {kept lost : List α} (hlost : ∀ c ∈ lost, p c = true) :
    words p (kept ++ lost) = words p kept := by
  obtain ⟨b, hmarks⟩ := marks_append (p := p) true kept lost
  rw [words_eq_words_iff, hmarks, marks_eq_nil_iff.mpr hlost, List.append_nil]

/-! ## Characters that are left out -/

/-- No two letters are held apart by characters of the kind `d` only. -/
def Apart (p d : α → Bool) (cs : List α) : Prop :=
  ∀ u a run b v, cs = u ++ a :: (run ++ b :: v) → run ≠ [] → (∀ c ∈ run, d c = true) → p a = true ∨ p b = true

section Dropped

variable {d : α → Bool} (hd : ∀ c, d c = true → p c = true)

theorem Apart.suffix {u cs : List α} (h : Apart p d (u ++ cs)) : Apart p d cs := by
  intro u' a run b v hcs
  exact h (u ++ u') a run b v (by rw [hcs, List.append_assoc])

theorem apart_cons_of_blank {c : α} (hc : p c = true) {cs : List α} : Apart p d (c :: cs) ↔ Apart p d cs := by
  constructor
  · intro h
    exact Apart.suffix (u := [c]) h
  · intro h u a run b v hcs hne hrun
    cases u with
    | nil =>
        obtain ⟨rfl, -⟩ := List.cons.inj hcs
        exact Or.inl hc
    | cons c' u => exact h u a run b v (List.cons.inj hcs).2 hne hrun

/-- A blank end holds nothing apart from anything. -/
theorem apart_append_of_blank {kept lost : List α} (hlost : ∀ c ∈ lost, p c = true) :
    Apart p d (kept ++ lost) ↔ Apart p d kept := by
  constructor
  · intro h u a run b v hkept
    exact h u a run b (v ++ lost) (by simp [hkept])
  · intro h u a run b v hcs hne hrun
    rw [← List.cons_append, ← List.append_assoc] at hcs
    rcases List.append_eq_append_iff.mp hcs with ⟨as, _, hv⟩ | ⟨bs, hkept, hv⟩
    · exact Or.inr (hlost b (by simp [hv]))
    · cases bs with
      | nil =>
          have hend : b :: v = lost := hv
          exact Or.inr (hlost b (by simp [← hend]))
      | cons b' bs =>
          obtain ⟨rfl, -⟩ := List.cons.inj hv
          exact h u a run b bs (by simp [hkept]) hne hrun

/-- A run of left out characters ends at the first character that is kept, or before it. -/
theorem run_ends {run₀ run cs v : List α} {c b : α} (hrun : ∀ c ∈ run, d c = true) (hc : d c = false)
    (h : run₀ ++ c :: cs = run ++ b :: v) : (run = run₀ ∧ b = c) ∨ b ∈ run₀ := by
  rcases List.append_eq_append_iff.mp h with ⟨as, hrun', hv⟩ | ⟨bs, hrun', hv⟩
  · cases as with
    | nil =>
        obtain ⟨rfl, -⟩ := List.cons.inj hv
        exact Or.inl ⟨by simpa using hrun', rfl⟩
    | cons c' as =>
        -- the run would go beyond the first character that is kept
        obtain ⟨rfl, -⟩ := List.cons.inj hv
        have hdropped := hrun c (by simp [hrun'])
        rw [hc] at hdropped
        exact absurd hdropped Bool.false_ne_true
  · cases bs with
    | nil =>
        obtain ⟨rfl, -⟩ := List.cons.inj hv
        exact Or.inl ⟨by simpa using hrun'.symm, rfl⟩
    | cons b' bs =>
        obtain ⟨rfl, -⟩ := List.cons.inj hv
        exact Or.inr (by simp [hrun'])

include hd

/-- What follows a letter with nothing but left out characters in between. -/
theorem apart_cons_run {a₀ c : α} {run₀ cs : List α} (hrun₀ : ∀ c ∈ run₀, d c = true) (hc : d c = false) :
    Apart p d (a₀ :: (run₀ ++ c :: cs)) ↔ (run₀ = [] ∨ p a₀ = true ∨ p c = true) ∧ Apart p d (c :: cs) := by
  constructor
  · intro h
    refine ⟨?_, Apart.suffix (u := a₀ :: run₀) h⟩
    by_cases hnil : run₀ = []
    · exact Or.inl hnil
    · exact Or.inr (h [] a₀ run₀ c cs rfl hnil hrun₀)
  · rintro ⟨hfirst, hrest⟩ u a run b v hcs hne hrun
    cases u with
    | nil =>
        obtain ⟨rfl, htail⟩ := List.cons.inj hcs
        rcases run_ends hrun hc htail with ⟨rfl, rfl⟩ | hb
        · exact hfirst.resolve_left hne
        · exact Or.inr (hd b (hrun₀ b hb))
    | cons c' u =>
        obtain ⟨-, htail⟩ := List.cons.inj hcs
        rcases List.append_eq_append_iff.mp htail with ⟨as, hu, hv⟩ | ⟨bs, hrun', hv⟩
        · exact hrest as a run b v hv hne hrun
        · cases bs with
          | nil => exact hrest [] a run b v hv.symm hne hrun
          | cons a' bs =>
              obtain ⟨rfl, -⟩ := List.cons.inj hv
              exact Or.inl (hd a (hrun₀ a (by simp [hrun'])))

/-- A text of left out characters behind a letter has nothing to hold apart. -/
theorem apart_cons_dropped {a₀ : α} {run₀ : List α} (hrun₀ : ∀ c ∈ run₀, d c = true) : Apart p d (a₀ :: run₀) := by
  intro u a run b v hcs _ _
  have hb : b ∈ run₀ := by
    cases u with
    | nil =>
        rw [(List.cons.inj hcs).2]
        simp
    | cons c u =>
        rw [(List.cons.inj hcs).2]
        simp
  exact Or.inr (hd b (hrun₀ b hb))

/-- **Which characters can be left out**: at the start of a text, and behind a letter `a₀` with left out characters. -/
theorem marks_filter (cs : List α) :
    (marks p true cs = marks p true (cs.filter (fun c => !d c)) ↔ Apart p d cs) ∧
      (∀ a₀ run, p a₀ = false → (∀ c ∈ run, d c = true) →
        (marks p (!run.isEmpty) cs = marks p false (cs.filter (fun c => !d c)) ↔ Apart p d (a₀ :: (run ++ cs)))) := by
  induction cs with
  | nil =>
      constructor
      · have hapart : Apart p d [] := fun u a run b v hcs => absurd hcs.symm (by simp)
        simp [marks, hapart]
      · intro a₀ run _ hrun
        simp [marks, apart_cons_dropped hd hrun]
  | cons c cs ih =>
      obtain ⟨ihstart, ihletter⟩ := ih
      by_cases hdrop : d c = true
      · have hblank := hd c hdrop
        rw [List.filter_cons_of_neg (by simp [hdrop])]
        constructor
        · rw [marks_cons_blank hblank, ihstart, apart_cons_of_blank hblank]
        · intro a₀ run ha₀ hrun
          have hrun' : ∀ c' ∈ run ++ [c], d c' = true := by
            intro c' hc'
            rcases List.mem_append.mp hc' with hmem | hmem
            · exact hrun c' hmem
            · rwa [List.mem_singleton.mp hmem]
          have hnext := ihletter a₀ (run ++ [c]) ha₀ hrun'
          have hne : (!(run ++ [c]).isEmpty) = true := by simp
          rw [hne, List.append_assoc, List.singleton_append] at hnext
          rwa [marks_cons_blank hblank]
      · have hkeep : d c = false := by simpa using hdrop
        rw [List.filter_cons_of_pos (by simp [hkeep])]
        by_cases hc : p c = true
        · constructor
          · rw [marks_cons_blank hc, marks_cons_blank hc, ihstart, apart_cons_of_blank hc]
          · intro a₀ run _ hrun
            rw [marks_cons_blank hc, marks_cons_blank hc, ihstart, apart_cons_run hd hrun hkeep,
              apart_cons_of_blank hc]
            simp [hc]
        · have hletter : p c = false := by simpa using hc
          have hbehind := ihletter c [] hletter (by simp)
          simp only [List.isEmpty_nil, Bool.not_true, List.nil_append] at hbehind
          constructor
          · rw [marks_cons_letter hletter, marks_cons_letter hletter, ← hbehind]
            simp
          · intro a₀ run ha₀ hrun
            rw [marks_cons_letter hletter, marks_cons_letter hletter, apart_cons_run hd hrun hkeep, ← hbehind]
            simp [ha₀, hletter]

/-- **When a text keeps its words** though characters are left out and its end is cut off: the end is blank, and what is
    left out holds no two words apart. -/
theorem words_filter_iff (kept lost : List α) :
    words p (kept.filter (fun c => !d c)) = words p (kept ++ lost) ↔
      (∀ c ∈ lost, p c = true) ∧ Apart p d (kept ++ lost) := by
  obtain ⟨b, hmarks⟩ := marks_append (p := p) true kept lost
  have hletters : (kept.filter (fun c => !d c)).filter (fun c => !p c) = kept.filter (fun c => !p c) := by
    rw [List.filter_filter]
    apply List.filter_congr
    intro c _
    by_cases hdrop : d c = true
    · simp [hdrop, hd c hdrop]
    · simp [hdrop]
  rw [words_eq_words_iff, hmarks]
  constructor
  · intro h
    have hnil : marks p b lost = [] := by
      have hfst := congrArg (List.map Prod.fst) h
      rw [List.map_append, marks_map_fst, marks_map_fst, hletters] at hfst
      exact List.map_eq_nil_iff.mp (List.self_eq_append_right.mp hfst)
    have hlost := marks_eq_nil_iff.mp hnil
    rw [hnil, List.append_nil] at h
    exact ⟨hlost, (apart_append_of_blank hlost).mpr ((marks_filter hd kept).1.mp h.symm)⟩
  · rintro ⟨hlost, h⟩
    rw [marks_eq_nil_iff.mpr hlost, List.append_nil]
    exact ((marks_filter hd kept).1.mpr ((apart_append_of_blank hlost).mp h)).symm

end Dropped

end Words
