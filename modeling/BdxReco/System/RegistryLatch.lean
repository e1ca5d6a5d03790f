import BdxReco.Lib.Latch
import BdxReco.System.RegistryCoherence

/-!
# `System.RegistryLatch` — seen from one table, the registry is a latch

Once its clients register before they ask (`AddedFirst`), the registry serves each table as a latch does: the
first `updateCalibration` after a clear fetches the table from the database, the later ones are served the same
table, whatever the run they are made for. `gotSinceClear_eq_latch` is this refinement; the two clients
(`System.Factories`, `System.Threads`) reason about the latch only.
-/

namespace BdxReco

open Run

variable {H : Type}

/-- Handlers are registered before they are updated or cleared. -/
def AddedFirst (calls : List (RegistryCall H)) : Prop :=
  AtEvery (fun pre c => c ≠ .addCalibration c.handler → .addCalibration c.handler ∈ pre) calls

/-- The table a call would fetch for `name`. -/
def RegistryCall.fetches (handlers : H → Handler) (name : String) : RegistryCall H → Option Table
  | .updateCalibration cal answer => if (handlers cal).getTable = name then some answer else none
  | .addCalibration _ => none
  | .clearCalibration _ => none

/-- The call clears `name`. -/
def RegistryCall.clears (handlers : H → Handler) (name : String) : RegistryCall H → Bool
  | .clearCalibration cal => decide ((handlers cal).getTable = name)
  | .addCalibration _ => false
  | .updateCalibration _ _ => false

/-- The latch of table `name` after the calls. -/
def served (handlers : H → Handler) (name : String) (calls : List (RegistryCall H)) : Option Table :=
  Latch.latch (RegistryCall.fetches handlers name) (RegistryCall.clears handlers name) calls

theorem AddedFirst.append {calls block : List (RegistryCall H)} (h : AddedFirst calls)
    (hblock : ∀ c ∈ block, c ≠ .addCalibration c.handler → .addCalibration c.handler ∈ calls) :
    AddedFirst (calls ++ block) := by
  apply AtEvery.append h
  intro pre c suf hsplit hc
  have hmem : c ∈ block := by rw [hsplit]; simp
  exact List.mem_append_left _ (hblock c hmem hc)

theorem served_append (handlers : H → Handler) (name : String) (calls block : List (RegistryCall H)) :
    served handlers name (calls ++ block)
      = block.foldl (Latch.next (RegistryCall.fetches handlers name) (RegistryCall.clears handlers name))
          (served handlers name calls) := by
  simp [served, Latch.latch]

namespace Processor

variable [DecidableEq H]

/-- `registered` only grows. -/
theorem registered_step (p : Processor H) (c : RegistryCall H) {g : H} {name : String}
    (hg : g ∈ p.registered name) : g ∈ (p.step c).registered name := by
  cases c with
  | addCalibration cal =>
      show g ∈ (p.addCalibration cal).registered name
      rw [registered_addCalibration]
      split
      · exact List.mem_append_left _ hg
      · exact hg
  | updateCalibration cal answer =>
      show g ∈ (p.updateCalibration cal answer).registered name
      rw [updateCalibration_eq]
      split
      · exact hg
      · exact hg
  | clearCalibration cal =>
      show g ∈ (p.clearCalibration cal).registered name
      rw [clearCalibration_eq]
      split
      · exact hg
      · exact hg

theorem registered_of_added {handlers : H → Handler} {calls : List (RegistryCall H)} {g : H}
    (h : .addCalibration g ∈ calls) :
    g ∈ (afterCalls handlers calls).registered (handlers g).getTable := by
  induction calls using List.reverseRecOn with
  | nil => exact absurd h (by simp)
  | append_singleton calls c ih =>
      rw [afterCalls_concat]
      rcases List.mem_append.mp h with h | h
      · exact registered_step _ c (ih h)
      · rw [← List.mem_singleton.mp h]
        show g ∈ ((afterCalls handlers calls).addCalibration g).registered _
        rw [registered_addCalibration, (afterCalls_kind_table handlers calls g).2, if_pos rfl]
        simp

/-- Neither registering nor clearing changes a raw table. -/
theorem raw_step_of_not_update {p : Processor H} {c : RegistryCall H}
    (hc : ∀ cal answer, c ≠ .updateCalibration cal answer) (g : H) :
    ((p.step c).handlers g).getRawCalibData = (p.handlers g).getRawCalibData := by
  cases c with
  | addCalibration cal => rfl
  | updateCalibration cal answer => exact absurd rfl (hc cal answer)
  | clearCalibration cal =>
      show ((p.clearCalibration cal).handlers g).getRawCalibData = _
      rw [clearCalibration_eq]
      split
      · by_cases hg : g ∈ p.registered (p.tableOf cal) <;> simp [clearedTable, hg]
      · rfl

/-- An update leaves loaded handlers loaded and loads its own handler. -/
theorem loaded_updateCalibration {p : Processor H} {cal g : H} (answer : Table)
    (h : p.loaded g = true ∨ (g = cal ∧ cal ∈ p.registered (p.tableOf cal))) :
    (p.updateCalibration cal answer).loaded g = true := by
  rw [updateCalibration_eq]
  rcases h with h | ⟨rfl, hreg⟩
  · split
    · rw [loaded_updated, h]
      simp
    · exact h
  · rw [if_pos hreg, loaded_updated]
    simp [hreg]

/-- **One call moves the tables got as it moves the latch.** -/
theorem Coherent.got_step {p : Processor H} (hp : Coherent p) {handlers : H → Handler}
    (htab : ∀ g, p.tableOf g = (handlers g).getTable) {c : RegistryCall H}
    (hreg : c ≠ .addCalibration c.handler → c.handler ∈ p.registered (p.tableOf c.handler))
    {name : String} {cur : Option Table} (hcur : gotSinceClear name p.log = cur.toList) :
    gotSinceClear name (p.step c).log
      = (Latch.next (RegistryCall.fetches handlers name) (RegistryCall.clears handlers name) cur c).toList := by
  cases c with
  | addCalibration cal =>
      have hlog : (p.step (.addCalibration cal)).log = p.log := rfl
      rw [hlog, hcur]
      simp [Latch.next, RegistryCall.fetches, RegistryCall.clears]
  | updateCalibration cal answer =>
      have hcal : cal ∈ p.registered (p.tableOf cal) := hreg (by simp)
      have hlog : (p.step (.updateCalibration cal answer)).log
          = (p.updated (p.tableOf cal) answer).log := by
        show (p.updateCalibration cal answer).log = _
        rw [updateCalibration_eq, if_pos hcal]
      rw [hlog]
      simp only [Latch.next, RegistryCall.fetches, RegistryCall.clears, ← htab, Bool.false_eq_true, if_false]
      by_cases hname : p.tableOf cal = name
      · -- the first write stays
        rw [hname, hp.got_updated, hp.source_eq, hcur, if_pos rfl]
        cases cur with
        | none => rfl
        | some t => rfl
      · rw [got_updated_of_ne _ (Ne.symm hname), hcur, if_neg hname]
        cases cur with
        | none => rfl
        | some t => rfl
  | clearCalibration cal =>
      have hcal : cal ∈ p.registered (p.tableOf cal) := hreg (by simp)
      have hlog : (p.step (.clearCalibration cal)).log = p.log ++ [.cleared (p.tableOf cal)] := by
        show (p.clearCalibration cal).log = _
        rw [clearCalibration_eq, if_pos hcal]
        rfl
      rw [hlog, gotSinceClear_concat, hcur]
      simp only [Latch.next, RegistryCall.fetches, RegistryCall.clears, ← htab]
      by_cases hname : p.tableOf cal = name
      · simp [gotStep, hname]
      · simp [gotStep, hname]

/-- **The registry refines the latch**, for every table and after any sequence of calls. -/
theorem gotSinceClear_eq_latch {handlers : H → Handler}
    (hfresh : ∀ g, (handlers g).hasLoadedCurrentRun = false) {calls : List (RegistryCall H)}
    (hstore : ∀ c ∈ calls, Storable (init handlers) c) (hadd : AddedFirst calls) (name : String) :
    gotSinceClear name (afterCalls handlers calls).log = (served handlers name calls).toList := by
  induction calls using List.reverseRecOn with
  | nil => rfl
  | append_singleton calls c ih =>
      have hstore' : ∀ c' ∈ calls, Storable (init handlers) c' := fun c' hc' => hstore c' (by simp [hc'])
      obtain ⟨hadd', hlast⟩ := atEvery_concat.mp hadd
      have htab : ∀ g, (afterCalls handlers calls).tableOf g = (handlers g).getTable :=
        fun g => (afterCalls_kind_table handlers calls g).2
      rw [afterCalls_concat]
      unfold served
      rw [Latch.latch_concat]
      apply (coherent_afterCalls hfresh hstore').got_step htab
      · intro hc
        rw [htab]
        exact registered_of_added (hlast hc)
      · exact ih hstore' hadd'

/-- A loaded handler holds what its table's latch holds. -/
theorem served_of_loaded {handlers : H → Handler}
    (hfresh : ∀ g, (handlers g).hasLoadedCurrentRun = false) {calls : List (RegistryCall H)}
    (hstore : ∀ c ∈ calls, Storable (init handlers) c) (hadd : AddedFirst calls) {g : H}
    (hg : (afterCalls handlers calls).loaded g = true) :
    served handlers (handlers g).getTable calls
      = some ((afterCalls handlers calls).handlers g).getRawCalibData := by
  have hraw := (coherent_afterCalls hfresh hstore).raw g hg
  rw [(afterCalls_kind_table handlers calls g).2, gotSinceClear_eq_latch hfresh hstore hadd] at hraw
  cases hserved : served handlers (handlers g).getTable calls with
  | none => rw [hserved] at hraw; exact absurd hraw (by simp)
  | some t =>
      rw [hserved] at hraw
      exact congrArg some (List.cons.inj hraw).1

end Processor

end BdxReco
