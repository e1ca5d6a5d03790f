import BdxReco.System.CalibrationRegistry

/-!
# `System.RegistryCoherence` — what holds of the registry after any sequence of calls

The invariant `Coherent`: the handlers of a table that are loaded all hold the one table that `GetCalib`
returned since the table was last cleared, and if none is loaded the database has not been asked since. It is
preserved by every call as long as the handlers keep the tables they are given (`Storable`), which the indexed
handlers always do.

Whether a table was *accepted* is another matter: `updateCalibration` marks a handler as loaded whatever
`fillCalib` returned. `flagHonest_iff` says on which sequences the mark can be trusted.
-/

namespace BdxReco

open Run

/-- A call on the registry. `answer` is the table the database holds when the call is made. -/
inductive RegistryCall (H : Type) where
  | addCalibration (cal : H)
  | updateCalibration (cal : H) (answer : Table)
  | clearCalibration (cal : H)

/-- The handler a call is made for. -/
def RegistryCall.handler {H : Type} : RegistryCall H → H
  | .addCalibration cal => cal
  | .updateCalibration cal _ => cal
  | .clearCalibration cal => cal

/-! ## The tables got since the last clear -/

/-- The effect of one event on the tables got for `name` since it was last cleared. -/
def gotStep (name : String) (got : List Table) : CalibEvent → List Table
  | .got n t => if n = name then got ++ [t] else got
  | .cleared n => if n = name then [] else got

/-- The tables `GetCalib` returned for `name` since `name` was last cleared. -/
def gotSinceClear (name : String) (log : List CalibEvent) : List Table := log.foldl (gotStep name) []

@[simp] theorem gotSinceClear_nil (name : String) : gotSinceClear name [] = [] := rfl

@[simp] theorem gotSinceClear_concat (name : String) (log : List CalibEvent) (e : CalibEvent) :
    gotSinceClear name (log ++ [e]) = gotStep name (gotSinceClear name log) e := by
  simp [gotSinceClear]

theorem mem_log_of_gotSinceClear {name : String} {log : List CalibEvent} {t : Table}
    (h : t ∈ gotSinceClear name log) : .got name t ∈ log := by
  induction log using List.reverseRecOn with
  | nil => simp at h
  | append_singleton log e ih =>
      rw [gotSinceClear_concat] at h
      cases e with
      | got n t' =>
          simp only [gotStep] at h
          by_cases hn : n = name
          · rw [if_pos hn] at h
            rcases List.mem_append.mp h with h | h
            · exact List.mem_append_left _ (ih h)
            · rw [List.mem_singleton.mp h, hn]; simp
          · rw [if_neg hn] at h
            exact List.mem_append_left _ (ih h)
      | cleared n =>
          simp only [gotStep] at h
          by_cases hn : n = name
          · rw [if_pos hn] at h; exact absurd h (by simp)
          · rw [if_neg hn] at h
            exact List.mem_append_left _ (ih h)

/-- The `GetCalib` calls for `name` among the events. -/
def gots (name : String) (log : List CalibEvent) : List Table :=
  log.filterMap (fun e => match e with
    | .got n t => if n = name then some t else none
    | .cleared _ => none)

/-- Without a clear in between, the calls add up. -/
theorem gotSinceClear_append {name : String} {l₁ l₂ : List CalibEvent} (hno : .cleared name ∉ l₂) :
    gotSinceClear name (l₁ ++ l₂) = gotSinceClear name l₁ ++ gots name l₂ := by
  induction l₂ using List.reverseRecOn with
  | nil => simp [gots]
  | append_singleton l e ih =>
      have hno' : .cleared name ∉ l := fun h => hno (List.mem_append_left _ h)
      rw [← List.append_assoc, gotSinceClear_concat, ih hno']
      cases e with
      | got n t => by_cases hn : n = name <;> simp [gotStep, gots, hn]
      | cleared n =>
          have hn : n ≠ name := by
            rintro rfl
            exact hno (by simp)
          simp [gotStep, gots, hn]

namespace Processor

variable {H : Type}

/-! ## The invariant -/

/-- `p` is coherent. -/
structure Coherent (p : Processor H) : Prop where
  /-- Vectors hold handlers of their table. -/
  table : ∀ name, ∀ g ∈ p.registered name, p.tableOf g = name
  /-- Only registered handlers are loaded. -/
  reg : ∀ g, p.loaded g = true → g ∈ p.registered (p.tableOf g)
  /-- A loaded handler holds the one table got since the last clear. -/
  raw : ∀ g, p.loaded g = true → gotSinceClear (p.tableOf g) p.log = [(p.handlers g).getRawCalibData]
  /-- If no handler of a table is loaded, the database was not asked since the last clear. -/
  fresh : ∀ name, (∀ g ∈ p.registered name, p.loaded g = false) → gotSinceClear name p.log = []
  /-- The tables got are ones the handlers keep. -/
  stored : ∀ name t, .got name t ∈ p.log → ∀ g, p.tableOf g = name → (p.handlers g).kind.stores t = true
  /-- At no time was the database asked twice since a clear. -/
  once : ∀ name, Along (fun log => (gotSinceClear name log).length ≤ 1) p.log

/-- If the call asks the database, the handlers of the table keep what it answers. -/
def Storable (p : Processor H) (c : RegistryCall H) : Prop :=
  ∀ cal answer, c = .updateCalibration cal answer →
    ∀ g, p.tableOf g = p.tableOf cal → (p.handlers g).kind.stores answer = true

theorem coherent_init {handlers : H → Handler} (h : ∀ g, (handlers g).hasLoadedCurrentRun = false) :
    Coherent (init handlers) where
  table := by simp [init, registered]
  reg g hg := by
    have hg' : (handlers g).hasLoadedCurrentRun = true := hg
    rw [h g] at hg'
    exact absurd hg' (by simp)
  raw g hg := by
    have hg' : (handlers g).hasLoadedCurrentRun = true := hg
    rw [h g] at hg'
    exact absurd hg' (by simp)
  fresh _ _ := rfl
  stored _ _ hlog := by simp [init] at hlog
  once _ := along_nil.mpr (by simp)

theorem Coherent.addCalibration {p : Processor H} (hp : Coherent p) (cal : H) :
    Coherent (p.addCalibration cal) where
  table name g hg := by
    rw [registered_addCalibration] at hg
    split at hg
    · rename_i hname
      rcases List.mem_append.mp hg with hg | hg
      · exact hp.table name g hg
      · rw [List.mem_singleton.mp hg, hname]; rfl
    · exact hp.table name g hg
  reg g hg := by
    rw [registered_addCalibration]
    have hold := hp.reg g hg
    split
    · exact List.mem_append_left _ hold
    · exact hold
  raw g hg := hp.raw g hg
  fresh name hnone := by
    apply hp.fresh name
    intro g hg
    apply hnone g
    rw [registered_addCalibration]
    split
    · exact List.mem_append_left _ hg
    · exact hg
  stored := hp.stored
  once := hp.once

/-- The tables got for `name` since its last clear are none or one. -/
theorem Coherent.length_got {p : Processor H} (hp : Coherent p) (name : String) :
    (gotSinceClear name p.log).length ≤ 1 := hp.once name p.log List.prefix_rfl

/-- A handler that is not loaded will be filled from a table it keeps. -/
theorem Coherent.stores_source {p : Processor H} (hp : Coherent p) {cal : H} {answer : Table}
    (hans : ∀ g, p.tableOf g = p.tableOf cal → (p.handlers g).kind.stores answer = true) {g : H}
    (hg : p.tableOf g = p.tableOf cal) :
    (p.handlers g).kind.stores (p.source (p.tableOf cal) answer) = true := by
  unfold source
  cases hl : p.lastLoaded (p.registered (p.tableOf cal)) with
  | none => exact hans g hg
  | some one =>
      obtain ⟨hmem, hload⟩ := of_lastLoaded hl
      have htab := hp.table _ one hmem
      have hraw := hp.raw one hload
      apply hp.stored (p.tableOf cal) _ _ g hg
      apply mem_log_of_gotSinceClear
      rw [← htab, hraw]
      simp

variable [DecidableEq H]

/-! ## The calls, field by field -/

/-- One call. -/
def step (p : Processor H) : RegistryCall H → Processor H
  | .addCalibration cal => p.addCalibration cal
  | .updateCalibration cal answer => p.updateCalibration cal answer
  | .clearCalibration cal => p.clearCalibration cal

/-- The processor after a sequence of calls, from handlers that nobody has registered. -/
def afterCalls (handlers : H → Handler) (calls : List (RegistryCall H)) : Processor H :=
  exec step (init handlers) calls

@[simp] theorem afterCalls_concat (handlers : H → Handler) (calls : List (RegistryCall H))
    (c : RegistryCall H) : afterCalls handlers (calls ++ [c]) = (afterCalls handlers calls).step c := by
  simp [afterCalls]

/-- An update loads the handlers of its table and no other. -/
theorem loaded_updated (p : Processor H) (name : String) (answer : Table) (g : H) :
    (p.updated name answer).loaded g = (decide (g ∈ p.registered name) || p.loaded g) := by
  unfold updated loaded refillWhere
  by_cases hl : (p.handlers g).hasLoadedCurrentRun <;> by_cases hg : g ∈ p.registered name <;>
    simp [hl, hg]

theorem updated_handlers_of_not {p : Processor H} {name : String} (answer : Table) {g : H}
    (h : g ∉ p.registered name ∨ p.loaded g = true) : (p.updated name answer).handlers g = p.handlers g := by
  unfold updated refillWhere
  rcases h with h | h <;> simp [h]

theorem updated_handlers_of_mem {p : Processor H} {name : String} (answer : Table) {g : H}
    (hg : g ∈ p.registered name) (hl : p.loaded g = false) :
    (p.updated name answer).handlers g = (p.handlers g).refill (p.source name answer) := by
  simp [updated, refillWhere, hg, hl]

theorem clearedTable_handlers_of_not {p : Processor H} {name : String} {g : H}
    (h : g ∉ p.registered name) : (p.clearedTable name).handlers g = p.handlers g := by
  simp [clearedTable, h]

theorem loaded_clearedTable (p : Processor H) (name : String) (g : H) :
    (p.clearedTable name).loaded g = (!decide (g ∈ p.registered name) && p.loaded g) := by
  unfold clearedTable loaded
  by_cases hg : g ∈ p.registered name <;> simp [hg]

/-- No call changes the kind or the table name of a handler. -/
theorem step_kind_table (p : Processor H) (c : RegistryCall H) (g : H) :
    ((p.step c).handlers g).kind = (p.handlers g).kind ∧ (p.step c).tableOf g = p.tableOf g := by
  cases c with
  | addCalibration cal => exact ⟨rfl, rfl⟩
  | updateCalibration cal answer =>
      show ((p.updateCalibration cal answer).handlers g).kind = _ ∧
        (p.updateCalibration cal answer).tableOf g = _
      rw [updateCalibration_eq]
      split
      · unfold updated refillWhere tableOf
        simp only
        split <;> simp
      · exact ⟨rfl, rfl⟩
  | clearCalibration cal =>
      show ((p.clearCalibration cal).handlers g).kind = _ ∧ (p.clearCalibration cal).tableOf g = _
      rw [clearCalibration_eq]
      split
      · unfold clearedTable tableOf
        simp only
        split <;> simp
      · exact ⟨rfl, rfl⟩

theorem afterCalls_kind_table (handlers : H → Handler) (calls : List (RegistryCall H)) (g : H) :
    ((afterCalls handlers calls).handlers g).kind = (handlers g).kind ∧
      (afterCalls handlers calls).tableOf g = (handlers g).getTable := by
  refine exec_invariant (P := fun p : Processor H =>
    (p.handlers g).kind = (handlers g).kind ∧ p.tableOf g = (handlers g).getTable) ⟨rfl, rfl⟩ ?_
  intro p c _ h
  have hstep := p.step_kind_table c g
  exact ⟨hstep.1.trans h.1, hstep.2.trans h.2⟩

/-- After an update every handler of the table holds the table it was filled from. -/
theorem Coherent.raw_updated {p : Processor H} (hp : Coherent p) {cal : H} {answer : Table}
    (hans : ∀ g, p.tableOf g = p.tableOf cal → (p.handlers g).kind.stores answer = true) {g : H}
    (hg : g ∈ p.registered (p.tableOf cal)) :
    ((p.updated (p.tableOf cal) answer).handlers g).getRawCalibData = p.source (p.tableOf cal) answer := by
  have htab := hp.table _ g hg
  by_cases hl : p.loaded g = true
  · -- loaded before: it holds the same table as the handler the others are filled from
    rw [updated_handlers_of_not answer (Or.inr hl)]
    unfold source
    cases hlast : p.lastLoaded (p.registered (p.tableOf cal)) with
    | none =>
        rw [lastLoaded_eq_none.mp hlast g hg] at hl
        exact absurd hl (by simp)
    | some one =>
        obtain ⟨hmem, hload⟩ := of_lastLoaded hlast
        have hraw := hp.raw g hl
        have hrawOne := hp.raw one hload
        rw [htab] at hraw
        rw [hp.table _ one hmem, hraw] at hrawOne
        exact (List.cons.inj hrawOne).1
  · have hl' : p.loaded g = false := by simpa using hl
    rw [updated_handlers_of_mem answer hg hl']
    exact Handler.refill_getRawCalibData (hp.stores_source hans htab)

omit [DecidableEq H] in
/-- The table the handlers are filled from: what was got since the last clear, else the answer. -/
theorem Coherent.source_eq {p : Processor H} (hp : Coherent p) (name : String) (answer : Table) :
    p.source name answer = (gotSinceClear name p.log).head?.getD answer := by
  unfold source
  cases hl : p.lastLoaded (p.registered name) with
  | none =>
      rw [hp.fresh name (lastLoaded_eq_none.mp hl)]
      rfl
  | some one =>
      obtain ⟨hmem, hload⟩ := of_lastLoaded hl
      have hraw := hp.raw one hload
      rw [hp.table _ one hmem] at hraw
      rw [hraw]
      rfl

/-- After an update the table got is the one the handlers were filled from. -/
theorem Coherent.got_updated {p : Processor H} (hp : Coherent p) (name : String) (answer : Table) :
    gotSinceClear name (p.updated name answer).log = [p.source name answer] := by
  rw [hp.source_eq]
  unfold Processor.updated
  cases hl : p.lastLoaded (p.registered name) with
  | none =>
      have hfresh := hp.fresh _ (lastLoaded_eq_none.mp hl)
      simp [gotStep, hfresh]
  | some one =>
      obtain ⟨hmem, hload⟩ := of_lastLoaded hl
      have hraw := hp.raw one hload
      rw [hp.table _ one hmem] at hraw
      simp [hraw]

theorem got_updated_of_ne {p : Processor H} {name name' : String} (answer : Table) (h : name' ≠ name) :
    gotSinceClear name' (p.updated name answer).log = gotSinceClear name' p.log := by
  unfold Processor.updated
  simp only
  split
  · simp [gotStep, h.symm]
  · simp

/-- An update asks the database at most once. -/
theorem log_updated_cases (p : Processor H) (name : String) (answer : Table) :
    (p.updated name answer).log = p.log ∨ (p.updated name answer).log = p.log ++ [.got name answer] := by
  unfold Processor.updated
  simp only
  split
  · exact Or.inr rfl
  · exact Or.inl (List.append_nil _)

theorem Coherent.length_got_updated {p : Processor H} (hp : Coherent p) (name name' : String) (answer : Table) :
    (gotSinceClear name' (p.updated name answer).log).length ≤ 1 := by
  by_cases hname : name' = name
  · rw [hname, hp.got_updated]
    simp
  · rw [got_updated_of_ne _ hname]
    exact hp.length_got name'

theorem updated_kind_table (p : Processor H) {cal : H} (answer : Table) (hcal : cal ∈ p.registered (p.tableOf cal)) (g : H) :
    ((p.updated (p.tableOf cal) answer).handlers g).kind = (p.handlers g).kind ∧
      (p.updated (p.tableOf cal) answer).tableOf g = p.tableOf g := by
  have h := p.step_kind_table (.updateCalibration cal answer) g
  simp only [step, updateCalibration_eq, if_pos hcal] at h
  exact h

/-- A handler that is loaded is registered for the table, or it was loaded before and belongs to another one. -/
theorem Coherent.loaded_of_updated {p : Processor H} (hp : Coherent p) {cal : H} {answer : Table} {g : H}
    (hg : (p.updated (p.tableOf cal) answer).loaded g = true) :
    g ∈ p.registered (p.tableOf cal) ∨
      (g ∉ p.registered (p.tableOf cal) ∧ p.loaded g = true ∧ p.tableOf g ≠ p.tableOf cal) := by
  by_cases hmem : g ∈ p.registered (p.tableOf cal)
  · exact Or.inl hmem
  · rw [loaded_updated, Bool.or_eq_true, decide_eq_true_eq] at hg
    have hload := hg.resolve_left hmem
    refine Or.inr ⟨hmem, hload, ?_⟩
    intro heq
    have hin := hp.reg g hload
    rw [heq] at hin
    exact hmem hin

/-- If no handler of a table is loaded afterwards, it is another one, and none was before. -/
theorem Coherent.fresh_of_updated {p : Processor H} (hp : Coherent p) {cal : H} {answer : Table}
    (hcal : cal ∈ p.registered (p.tableOf cal)) {name : String}
    (hnone : ∀ g ∈ p.registered name, (p.updated (p.tableOf cal) answer).loaded g = false) :
    gotSinceClear name (p.updated (p.tableOf cal) answer).log = [] := by
  by_cases hname : name = p.tableOf cal
  · subst hname
    have hcal' := hnone cal hcal
    rw [loaded_updated] at hcal'
    simp [hcal] at hcal'
  · rw [got_updated_of_ne _ hname]
    apply hp.fresh name
    intro g hg
    have hg' := hnone g hg
    rw [loaded_updated, Bool.or_eq_false_iff] at hg'
    exact hg'.2

theorem Coherent.updated {p : Processor H} (hp : Coherent p) {cal : H} {answer : Table}
    (hans : ∀ g, p.tableOf g = p.tableOf cal → (p.handlers g).kind.stores answer = true)
    (hcal : cal ∈ p.registered (p.tableOf cal)) : Coherent (p.updated (p.tableOf cal) answer) := by
  have hkt := p.updated_kind_table answer hcal
  have hreg : ∀ name, (p.updated (p.tableOf cal) answer).registered name = p.registered name :=
    fun _ => rfl
  constructor
  · intro name g hg
    rw [(hkt g).2]
    exact hp.table name g hg
  · intro g hg
    rw [(hkt g).2, hreg]
    rcases hp.loaded_of_updated hg with hg | ⟨_, hg, _⟩
    · rw [hp.table _ g hg]
      exact hg
    · exact hp.reg g hg
  · intro g hg
    rw [(hkt g).2]
    rcases hp.loaded_of_updated hg with hmem | ⟨hmem, hload, hne⟩
    · rw [hp.table _ g hmem, hp.got_updated, hp.raw_updated hans hmem]
    · rw [got_updated_of_ne _ hne, updated_handlers_of_not answer (Or.inl hmem)]
      exact hp.raw g hload
  · intro name hnone
    exact hp.fresh_of_updated hcal hnone
  · intro name t hlog g hg
    rw [(hkt g).1]
    rw [(hkt g).2] at hg
    rcases p.log_updated_cases (p.tableOf cal) answer with hsame | hgot
    · rw [hsame] at hlog
      exact hp.stored name t hlog g hg
    · rw [hgot, List.mem_append, List.mem_singleton, CalibEvent.got.injEq] at hlog
      rcases hlog with hlog | ⟨hname, ht⟩
      · exact hp.stored name t hlog g hg
      · rw [ht]
        exact hans g (hg.trans hname)
  · intro name
    have hlen := hp.length_got_updated (p.tableOf cal) name answer
    rcases p.log_updated_cases (p.tableOf cal) answer with hsame | hgot
    · rw [hsame]
      exact hp.once name
    · rw [hgot] at hlen ⊢
      exact along_concat.mpr ⟨hp.once name, hlen⟩

theorem clearedTable_tableOf (p : Processor H) (name : String) (g : H) :
    (p.clearedTable name).tableOf g = p.tableOf g := by
  unfold Processor.clearedTable tableOf
  simp only
  split <;> simp

theorem clearedTable_kind (p : Processor H) (name : String) (g : H) :
    ((p.clearedTable name).handlers g).kind = (p.handlers g).kind := by
  unfold Processor.clearedTable
  simp only
  split <;> simp

theorem got_clearedTable (p : Processor H) (name n : String) :
    gotSinceClear n (p.clearedTable name).log = if name = n then [] else gotSinceClear n p.log := by
  simp [Processor.clearedTable, gotStep]

/-- A handler that is still loaded belongs to another table. -/
theorem Coherent.loaded_of_clearedTable {p : Processor H} (hp : Coherent p) {name : String} {g : H}
    (hg : (p.clearedTable name).loaded g = true) :
    g ∉ p.registered name ∧ p.loaded g = true ∧ name ≠ p.tableOf g := by
  rw [loaded_clearedTable] at hg
  simp only [Bool.and_eq_true, Bool.not_eq_true', decide_eq_false_iff_not] at hg
  refine ⟨hg.1, hg.2, ?_⟩
  intro heq
  exact hg.1 (heq ▸ hp.reg g hg.2)

/-- If no handler of another table is loaded afterwards, none was before. -/
theorem Coherent.fresh_of_clearedTable {p : Processor H} (hp : Coherent p) {name n : String} (hne : name ≠ n)
    (hnone : ∀ g ∈ p.registered n, (p.clearedTable name).loaded g = false) : gotSinceClear n p.log = [] := by
  apply hp.fresh n
  intro g hg
  have hnot : g ∉ p.registered name := by
    intro hmem
    exact hne ((hp.table name g hmem).symm.trans (hp.table n g hg))
  have hg' := hnone g hg
  rw [loaded_clearedTable] at hg'
  simpa [hnot] using hg'

theorem Coherent.clearedTable {p : Processor H} (hp : Coherent p) {name : String} :
    Coherent (p.clearedTable name) := by
  constructor
  · intro n g hg
    rw [clearedTable_tableOf]
    exact hp.table n g hg
  · intro g hg
    rw [clearedTable_tableOf]
    exact hp.reg g (hp.loaded_of_clearedTable hg).2.1
  · intro g hg
    obtain ⟨hnot, hl, hne⟩ := hp.loaded_of_clearedTable hg
    rw [clearedTable_tableOf, got_clearedTable, if_neg hne, clearedTable_handlers_of_not hnot]
    exact hp.raw g hl
  · intro n hnone
    rw [got_clearedTable]
    by_cases hn : name = n
    · rw [if_pos hn]
    · rw [if_neg hn]
      exact hp.fresh_of_clearedTable hn hnone
  · intro n t hlog g hg
    rw [clearedTable_kind]
    rw [clearedTable_tableOf] at hg
    have hlog' : .got n t ∈ p.log := by
      simpa [Processor.clearedTable] using hlog
    exact hp.stored n t hlog' g hg
  · intro n
    refine along_concat.mpr ⟨hp.once n, ?_⟩
    have hn := got_clearedTable p name n
    simp only [Processor.clearedTable] at hn
    rw [hn]
    by_cases hname : name = n
    · rw [if_pos hname]
      exact Nat.zero_le _
    · rw [if_neg hname]
      exact hp.length_got n

/-- **Every call preserves coherence.** -/
theorem Coherent.step {p : Processor H} (hp : Coherent p) {c : RegistryCall H} (hc : Storable p c) :
    Coherent (p.step c) := by
  cases c with
  | addCalibration cal => exact hp.addCalibration cal
  | updateCalibration cal answer =>
      show Coherent (p.updateCalibration cal answer)
      rw [updateCalibration_eq]
      split
      · rename_i hcal
        exact hp.updated (hc cal answer rfl) hcal
      · exact hp
  | clearCalibration cal =>
      show Coherent (p.clearCalibration cal)
      rw [clearCalibration_eq]
      split
      · exact hp.clearedTable
      · exact hp

/-- **Every reachable state is coherent.** -/
theorem coherent_afterCalls {handlers : H → Handler}
    (hfresh : ∀ g, (handlers g).hasLoadedCurrentRun = false) {calls : List (RegistryCall H)}
    (hstore : ∀ c ∈ calls, Storable (init handlers) c) : Coherent (afterCalls handlers calls) := by
  induction calls using List.reverseRecOn with
  | nil => exact coherent_init hfresh
  | append_singleton calls c ih =>
      rw [afterCalls_concat]
      apply (ih (fun c' hc' => hstore c' (by simp [hc']))).step
      intro cal answer hcall g hg
      have hkt := afterCalls_kind_table handlers calls
      rw [(hkt g).1]
      rw [(hkt g).2, (hkt cal).2] at hg
      exact hstore c (by simp) cal answer hcall g hg

/-! ## What the registry guarantees -/

/-- What a client of the registry can rely on in the state `p`. -/
structure Guarantees (p : Processor H) : Prop where
  /-- All loaded handlers of one table hold the same raw table. -/
  agree : ∀ g g', p.tableOf g = p.tableOf g' → p.loaded g = true → p.loaded g' = true →
    (p.handlers g).getRawCalibData = (p.handlers g').getRawCalibData
  /-- After an update for a registered handler every handler of its table is loaded, with a table that
      `GetCalib` returned for it since the last clear. -/
  update : ∀ cal answer, cal ∈ p.registered (p.tableOf cal) → ∀ g ∈ p.registered (p.tableOf cal),
    (p.updateCalibration cal answer).loaded g = true ∧
      ((p.updateCalibration cal answer).handlers g).getRawCalibData
        ∈ gotSinceClear (p.tableOf cal) (p.updateCalibration cal answer).log
  /-- Between two clears of a table `GetCalib` is called at most once for it. -/
  once : ∀ name l₁ l₂ l₃, p.log = l₁ ++ l₂ ++ l₃ → .cleared name ∉ l₂ → (gots name l₂).length ≤ 1
  /-- A call for a handler that is not registered changes no handler and does not ask the database. -/
  unregistered : ∀ c : RegistryCall H, c.handler ∉ p.registered (p.tableOf c.handler) →
    (p.step c).handlers = p.handlers ∧ (p.step c).log = p.log
  /-- No call changes a handler of another table. -/
  otherTables : ∀ (c : RegistryCall H) g, p.tableOf g ≠ p.tableOf c.handler →
    (p.step c).handlers g = p.handlers g

theorem Coherent.update_raw {p : Processor H} (hp : Coherent p) {cal : H} {answer : Table}
    (hans : ∀ g, p.tableOf g = p.tableOf cal → (p.handlers g).kind.stores answer = true)
    (hcal : cal ∈ p.registered (p.tableOf cal)) {g : H} (hg : g ∈ p.registered (p.tableOf cal)) :
    (p.updateCalibration cal answer).loaded g = true ∧
      gotSinceClear (p.tableOf cal) (p.updateCalibration cal answer).log
        = [((p.updateCalibration cal answer).handlers g).getRawCalibData] := by
  rw [updateCalibration_eq, if_pos hcal]
  have hload : (p.updated (p.tableOf cal) answer).loaded g = true := by
    rw [loaded_updated]
    simp [hg]
  have htab : (p.updated (p.tableOf cal) answer).tableOf g = p.tableOf cal :=
    (hp.updated hans hcal).table _ g hg
  have hraw := (hp.updated hans hcal).raw g hload
  rw [htab] at hraw
  exact ⟨hload, hraw⟩

theorem Coherent.otherTables {p : Processor H} (hp : Coherent p) (c : RegistryCall H) {g : H}
    (hg : p.tableOf g ≠ p.tableOf c.handler) : (p.step c).handlers g = p.handlers g := by
  have hnot : g ∉ p.registered (p.tableOf c.handler) := fun hmem => hg (hp.table _ g hmem)
  cases c with
  | addCalibration cal => rfl
  | updateCalibration cal answer =>
      show (p.updateCalibration cal answer).handlers g = _
      rw [updateCalibration_eq]
      split
      · exact updated_handlers_of_not answer (Or.inl hnot)
      · rfl
  | clearCalibration cal =>
      show (p.clearCalibration cal).handlers g = _
      rw [clearCalibration_eq]
      split
      · exact clearedTable_handlers_of_not hnot
      · rfl

theorem step_of_unregistered {p : Processor H} {c : RegistryCall H}
    (hc : c.handler ∉ p.registered (p.tableOf c.handler)) :
    (p.step c).handlers = p.handlers ∧ (p.step c).log = p.log := by
  cases c with
  | addCalibration cal => exact ⟨rfl, rfl⟩
  | updateCalibration cal answer =>
      have hc' : cal ∉ p.registered (p.tableOf cal) := hc
      simp [step, updateCalibration_eq, hc']
  | clearCalibration cal =>
      have hc' : cal ∉ p.registered (p.tableOf cal) := hc
      simp [step, clearCalibration_eq, hc']

/-- **The registry guarantees**, after any sequence of calls on indexed handlers that start not loaded. -/
theorem registry_guarantees (handlers : H → Handler) (hkind : ∀ g, (handlers g).kind ≠ .run)
    (hfresh : ∀ g, (handlers g).hasLoadedCurrentRun = false) (calls : List (RegistryCall H)) :
    Guarantees (afterCalls handlers calls) := by
  -- indexed handlers keep every table
  have hstores : ∀ g t, (handlers g).kind.stores t = true := by
    intro g t
    simp [HandlerKind.stores, hkind g]
  have hp : Coherent (afterCalls handlers calls) :=
    coherent_afterCalls hfresh (fun _ _ _ _ _ g _ => hstores g _)
  have hstores' : ∀ g t, ((afterCalls handlers calls).handlers g).kind.stores t = true := by
    intro g t
    rw [(afterCalls_kind_table handlers calls g).1]
    exact hstores g t
  constructor
  · intro g g' htab hg hg'
    have hraw := hp.raw g hg
    rw [htab, hp.raw g' hg'] at hraw
    exact (List.cons.inj hraw).1.symm
  · intro cal answer hcal g hg
    obtain ⟨hload, hraw⟩ := hp.update_raw (fun g _ => hstores' g answer) hcal hg
    refine ⟨hload, ?_⟩
    rw [hraw]
    simp
  · intro name l₁ l₂ l₃ hlog hno
    have hlen : (gotSinceClear name (l₁ ++ l₂)).length ≤ 1 :=
      hp.once name (l₁ ++ l₂) (by rw [hlog]; exact List.prefix_append _ _)
    rw [gotSinceClear_append hno, List.length_append] at hlen
    omega
  · intro c hc
    exact step_of_unregistered hc
  · intro c g hg
    exact hp.otherTables c hg

/-- Two handlers of one table, the second registered after the first was loaded. -/
def lateHandlers (_ : Bool) : Handler := Handler.new .paddles "/Paddles/Threshold"

theorem registry_guarantees_late :
    (∀ g, (lateHandlers g).kind ≠ .run) ∧ (∀ g, (lateHandlers g).hasLoadedCurrentRun = false) ∧
      Guarantees (afterCalls lateHandlers [.addCalibration true, .updateCalibration true [[0, 1]],
        .addCalibration false, .updateCalibration false [[0, 2]]]) :=
  ⟨by decide, by decide, registry_guarantees lateHandlers (by decide) (by decide) _⟩

/-! ## Whether the loaded flag can be trusted -/

/-- The loaded flag is honest: a loaded handler had its last table accepted, and what it holds is what an
    accepted load of that table leaves, nothing older. -/
def FlagHonest (p : Processor H) : Prop :=
  ∀ g, p.loaded g = true → ∃ t, p.lastFill g = some (t, .noError) ∧
    (p.handlers g).fillCalib t = (p.handlers g, .noError)

/-- The table an update fills in is accepted by every handler it fills. -/
def UpdateAccepted (p : Processor H) (cal : H) (answer : Table) : Prop :=
  cal ∈ p.registered (p.tableOf cal) → ∀ g ∈ p.registered (p.tableOf cal), p.loaded g = false →
    (p.handlers g).kind.accepts (p.source (p.tableOf cal) answer) = true

theorem flagHonest_updated {p : Processor H} (hp : FlagHonest p) (name : String) (answer : Table) :
    FlagHonest (p.updated name answer) ↔
      ∀ g ∈ p.registered name, p.loaded g = false →
        (p.handlers g).kind.accepts (p.source name answer) = true := by
  constructor
  · intro h g hg hl
    obtain ⟨t, hlast, _⟩ := h g (by rw [loaded_updated]; simp [hg])
    have hfill : (p.updated name answer).lastFill g
        = some (p.source name answer, ((p.handlers g).fillCalib (p.source name answer)).2) := by
      simp [updated, refillWhere, hg, hl]
    rw [hfill, Handler.fillCalib_status] at hlast
    have hstatus := congrArg Prod.snd (Option.some.inj hlast)
    by_contra hne
    rw [if_neg hne] at hstatus
    exact absurd hstatus (by simp)
  · intro h g hg
    by_cases hnew : g ∈ p.registered name ∧ p.loaded g = false
    · -- filled by this update, from a table it accepts
      have hstatus : ((p.handlers g).fillCalib (p.source name answer)).2 = .noError := by
        rw [Handler.fillCalib_status, if_pos (h g hnew.1 hnew.2)]
      refine ⟨p.source name answer, ?_, ?_⟩
      · simp [updated, refillWhere, hnew, hstatus]
      · rw [updated_handlers_of_mem answer hnew.1 hnew.2, Handler.refill_fillCalib, hstatus]
    · have hkeep : g ∉ p.registered name ∨ p.loaded g = true := by
        by_cases hmem : g ∈ p.registered name
        · exact Or.inr (by simpa using fun hl => hnew ⟨hmem, hl⟩)
        · exact Or.inl hmem
      have hl : p.loaded g = true := by
        rw [loaded_updated, Bool.or_eq_true, decide_eq_true_eq] at hg
        rcases hkeep with hk | hk
        · exact hg.resolve_left hk
        · exact hk
      obtain ⟨t, hlast, hfill⟩ := hp g hl
      refine ⟨t, ?_, ?_⟩
      · rw [← hlast]
        rcases hkeep with hk | hk <;> simp [updated, refillWhere, hk]
      · rw [updated_handlers_of_not answer hkeep]
        exact hfill

/-- One call keeps the flags honest exactly when what it fills in is accepted. -/
theorem flagHonest_step {p : Processor H} (hp : FlagHonest p) (c : RegistryCall H) :
    FlagHonest (p.step c) ↔
      ∀ cal answer, c = .updateCalibration cal answer → UpdateAccepted p cal answer := by
  cases c with
  | addCalibration cal =>
      refine ⟨fun _ _ _ hc => absurd hc (by simp), fun _ => ?_⟩
      exact hp
  | updateCalibration cal answer =>
      have hiff : FlagHonest (p.step (.updateCalibration cal answer)) ↔ UpdateAccepted p cal answer := by
        simp only [step, updateCalibration_eq]
        split
        · rename_i hcal
          rw [flagHonest_updated hp]
          exact ⟨fun h _ => h, fun h => h hcal⟩
        · rename_i hcal
          exact ⟨fun _ h => absurd h hcal, fun _ => hp⟩
      rw [hiff]
      constructor
      · intro h cal' answer' hc
        simp only [RegistryCall.updateCalibration.injEq] at hc
        rw [← hc.1, ← hc.2]
        exact h
      · intro h
        exact h cal answer rfl
  | clearCalibration cal =>
      refine ⟨fun _ _ _ hc => absurd hc (by simp), fun _ => ?_⟩
      show FlagHonest (p.clearCalibration cal)
      rw [clearCalibration_eq]
      split
      · intro g hg
        rw [loaded_clearedTable] at hg
        simp only [Bool.and_eq_true, Bool.not_eq_true', decide_eq_false_iff_not] at hg
        obtain ⟨t, hlast, hfill⟩ := hp g hg.2
        refine ⟨t, hlast, ?_⟩
        rw [clearedTable_handlers_of_not hg.1]
        exact hfill
      · exact hp

/-- **The flag is honest in every state of a run exactly when every update of the run fills in a table that
    the handlers it fills accept.** -/
theorem flagHonest_iff (handlers : H → Handler) (hfresh : ∀ g, (handlers g).hasLoadedCurrentRun = false)
    (calls : List (RegistryCall H)) :
    Along (fun pre => FlagHonest (afterCalls handlers pre)) calls ↔
      AtEvery (fun pre c => ∀ cal answer, c = .updateCalibration cal answer →
        UpdateAccepted (afterCalls handlers pre) cal answer) calls := by
  induction calls using List.reverseRecOn with
  | nil =>
      refine ⟨fun _ => atEvery_nil _, fun _ => along_nil.mpr ?_⟩
      intro g hg
      have hg' : (handlers g).hasLoadedCurrentRun = true := hg
      rw [hfresh g] at hg'
      exact absurd hg' (by simp)
  | append_singleton calls c ih =>
      rw [along_concat, atEvery_concat, afterCalls_concat]
      constructor
      · rintro ⟨hcalls, hlast⟩
        have hnow := hcalls calls List.prefix_rfl
        exact ⟨ih.mp hcalls, (flagHonest_step hnow c).mp hlast⟩
      · rintro ⟨hcalls, hlast⟩
        have hall := ih.mpr hcalls
        have hnow := hall calls List.prefix_rfl
        exact ⟨hall, (flagHonest_step hnow c).mpr hlast⟩

/-- The run-dependent EPICS time correction, which has one row per run. -/
def epicsHandler (_ : Unit) : Handler := Handler.new .run "/DAQ/epics_dT"

/-- The second run's table has two rows. -/
def twoRowCalls : List (RegistryCall Unit) :=
  [.addCalibration (), .updateCalibration () [[5, 0]], .clearCalibration (),
    .updateCalibration () [[1, 0], [2, 0]]]

theorem flagHonest_twoRowCalls :
    (∀ g, (epicsHandler g).hasLoadedCurrentRun = false) ∧
      (Along (fun pre => FlagHonest (afterCalls epicsHandler pre)) twoRowCalls ↔
        AtEvery (fun pre c => ∀ cal answer, c = .updateCalibration cal answer →
          UpdateAccepted (afterCalls epicsHandler pre) cal answer) twoRowCalls) :=
  ⟨fun _ => rfl, flagHonest_iff epicsHandler (fun _ => rfl) twoRowCalls⟩

/-- The handler refuses the second table, is marked as loaded, and still holds the first one. -/
theorem twoRowCalls_not_honest :
    ¬ Along (fun pre => FlagHonest (afterCalls epicsHandler pre)) twoRowCalls := by
  intro h
  obtain ⟨t, hlast, _⟩ := h twoRowCalls List.prefix_rfl () rfl
  have hreal : (afterCalls epicsHandler twoRowCalls).lastFill ()
      = some ([[1, 0], [2, 0]], .valueOutOfRange) := rfl
  rw [hreal] at hlast
  exact absurd (congrArg Prod.snd (Option.some.inj hlast)) (by simp)

end Processor

end BdxReco
