import BdxReco.Lib.Run
import BdxReco.System.CalibrationHandler
import Mathlib.Logic.Function.Basic

/-!
# `System.CalibrationRegistry` — the handler registry of `BDXEventProcessor`

The event processor is shared by all event-loop threads. Factories register their handlers with it
(`addCalibration`), ask for the constants at the start of a run (`updateCalibration`) and invalidate them at
its end (`clearCalibration`); each call runs under the ROOT write lock, so calls are atomic. Handlers are
reached through pointers: `H` is the type of pointers, `handlers` what they point to.

Two fields of `Processor` are not members of the source's class: `lastFill` remembers the table and the error
code of the last `fillCalib` of each handler (the code discards the error code), and `log` records the
`GetCalib` calls and the clears that took effect. Nothing computed depends on them.

`updateCalibration_eq`, `clearCalibration_eq` and `registered_addCalibration` say once what a call does;
everything later is derived from these three.
-/

namespace BdxReco

open Run

/-- What happened at the registry, as far as the database is concerned. -/
inductive CalibEvent where
  | got (name : String) (t : Table)
  | cleared (name : String)
  deriving DecidableEq

/-- The registry and the handlers it points to. -/
@[ext] structure Processor (H : Type) where
  calibrations : StdMap String (List H)
  handlers : H → Handler
  lastFill : H → Option (Table × JError)
  log : List CalibEvent

namespace Processor

variable {H : Type}

/-- Before any registration. -/
def init (handlers : H → Handler) : Processor H :=
  { calibrations := StdMap.empty, handlers, lastFill := fun _ => none, log := [] }

def tableOf (p : Processor H) (g : H) : String := (p.handlers g).getTable

def loaded (p : Processor H) (g : H) : Bool := (p.handlers g).hasLoadedCurrentRun

/-- The vector registered under a table name; empty when the name is not in the map. -/
def registered (p : Processor H) (name : String) : List H := (p.calibrations.find? name).getD []

/-! ## The three calls -/

def addCalibration (p : Processor H) (cal : H) : Processor H :=
  { p with calibrations := p.calibrations.alter (p.tableOf cal) (fun old => old.getD [] ++ [cal]) }

variable [DecidableEq H]

/-- `fillCalib(t)`, its error code dropped, and `setLoadedCurrentRun(true)`. -/
def load (p : Processor H) (g : H) (t : Table) : Processor H :=
  { p with
    handlers := Function.update p.handlers g (((p.handlers g).fillCalib t).1.setLoadedCurrentRun true)
    lastFill := Function.update p.lastFill g (some (t, ((p.handlers g).fillCalib t).2)) }

/-- The scan for `flagAll` and `calibratedOne`: are all loaded, and the position of the last loaded one
    (`-1` when there is none). -/
def scan (p : Processor H) (calibrations : List H) : Bool × Int :=
  calibrations.zipIdx.foldl (fun acc c =>
    if p.loaded c.1 = false then (false, acc.2) else (acc.1, (c.2 : Int))) (true, -1)

/-- One pass of the loop of case 1C, at the handler `c.1` in position `c.2`. -/
def copyOne (calibrations : List H) (calibratedOne : Nat) (p : Processor H) (c : H × Nat) : Processor H :=
  if c.2 = calibratedOne then p
  else if p.loaded c.1 then p
  else
    match calibrations[calibratedOne]? with
    | some one => p.load c.1 (p.handlers one).getRawCalibData
    | none => p

/-- Case 1C: fill the handlers that are not loaded from the raw table of the one at `calibratedOne`. -/
def copyLoaded (p : Processor H) (calibrations : List H) (calibratedOne : Nat) : Processor H :=
  calibrations.zipIdx.foldl (copyOne calibrations calibratedOne) p

/-- Case 1B: fill all handlers with the table from the database. -/
def loadAll (p : Processor H) (calibrations : List H) (t : Table) : Processor H :=
  calibrations.foldl (fun p c => p.load c t) p

/-- `updateCalibration(cal, eventLoop)`. `answer` is what `eventLoop->GetCalib` returns if it is called. -/
def updateCalibration (p : Processor H) (cal : H) (answer : Table) : Processor H :=
  let name := p.tableOf cal
  match p.calibrations.find? name with
  | none => p
  | some calibrations =>
    if cal ∉ calibrations then p
    else
      let (flagAll, calibratedOne) := p.scan calibrations
      if flagAll then p
      else if calibratedOne ≠ -1 then p.copyLoaded calibrations calibratedOne.toNat
      else loadAll { p with log := p.log ++ [.got name answer] } calibrations answer

/-- `clearCalibration(cal)`. -/
def clearCalibration (p : Processor H) (cal : H) : Processor H :=
  let name := p.tableOf cal
  match p.calibrations.find? name with
  | none => p
  | some calibrations =>
    if cal ∉ calibrations then p
    else
      calibrations.foldl (fun p c =>
          { p with handlers := Function.update p.handlers c ((p.handlers c).setLoadedCurrentRun false) })
        { p with log := p.log ++ [.cleared name] }

end Processor

/-! ## What one load does to a handler -/

namespace Handler

/-- A handler after `fillCalib(t)` and `setLoadedCurrentRun(true)`. -/
def refill (t : Table) (h : Handler) : Handler := (h.fillCalib t).1.setLoadedCurrentRun true

@[simp] theorem refill_kind (t : Table) (h : Handler) : (h.refill t).kind = h.kind := by simp [refill]

@[simp] theorem refill_getTable (t : Table) (h : Handler) : (h.refill t).getTable = h.getTable := by
  simp [refill]

@[simp] theorem refill_hasLoadedCurrentRun (t : Table) (h : Handler) :
    (h.refill t).hasLoadedCurrentRun = true := by
  simp [refill]

theorem refill_getRawCalibData {t : Table} {h : Handler} (hs : h.kind.stores t = true) :
    (h.refill t).getRawCalibData = t := by
  simp [refill, fillCalib_getRawCalibData, hs]

/-- Loading the same table a second time changes nothing: neither map nor raw data depend on what the
    handler held. -/
theorem refill_fillCalib (t : Table) (h : Handler) :
    (h.refill t).fillCalib t = (h.refill t, (h.fillCalib t).2) := by
  cases h with
  | run h =>
      simp only [refill, fillCalib, RunCalibrationHandler.fillCalib, setLoadedCurrentRun]
      rcases t with _ | ⟨row, _ | ⟨row', rest⟩⟩
      · rfl
      · rfl
      · rfl
  | _ h =>
      simp only [refill, fillCalib, CalibrationHandler.fillCalib, setLoadedCurrentRun]
      split <;> rfl

theorem refill_refill (t : Table) (h : Handler) : (h.refill t).refill t = h.refill t := by
  have hfill := refill_fillCalib t h
  show (((h.refill t).fillCalib t).1).setLoadedCurrentRun true = h.refill t
  rw [hfill]
  cases h <;> rfl

theorem setLoadedCurrentRun_idem (b : Bool) (h : Handler) :
    (h.setLoadedCurrentRun b).setLoadedCurrentRun b = h.setLoadedCurrentRun b := by
  cases h <;> rfl

end Handler

/-! ## The loops -/

namespace Processor

variable {H : Type}

/-- The last handler of a vector that is loaded: the one `calibratedOne` points at. -/
def lastLoaded (p : Processor H) (calibrations : List H) : Option H :=
  (calibrations.filter p.loaded).getLast?

theorem lastLoaded_concat (p : Processor H) (l : List H) (c : H) :
    p.lastLoaded (l ++ [c]) = if p.loaded c then some c else p.lastLoaded l := by
  unfold lastLoaded
  rw [List.filter_append]
  by_cases h : p.loaded c <;> simp [h]

theorem lastLoaded_eq_none {p : Processor H} {l : List H} :
    p.lastLoaded l = none ↔ ∀ g ∈ l, p.loaded g = false := by
  unfold lastLoaded
  simp

theorem of_lastLoaded {p : Processor H} {l : List H} {one : H} (h : p.lastLoaded l = some one) :
    one ∈ l ∧ p.loaded one = true :=
  List.mem_filter.mp (List.mem_of_getLast? h)

/-- **The scan.** `flagAll` says that all are loaded, `calibratedOne` is the position of the last loaded one. -/
theorem scan_spec (p : Processor H) (l : List H) :
    (p.scan l).1 = l.all p.loaded ∧
      match p.lastLoaded l with
      | none => (p.scan l).2 = -1
      | some one => ∃ k : Nat, (p.scan l).2 = k ∧ l[k]? = some one := by
  induction l using List.reverseRecOn with
  | nil => exact ⟨rfl, rfl⟩
  | append_singleton l c ih =>
      obtain ⟨hflag, hone⟩ := ih
      have hstep : p.scan (l ++ [c])
          = if p.loaded c = false then (false, (p.scan l).2) else ((p.scan l).1, (l.length : Int)) := by
        simp [scan, List.zipIdx_append]
      rw [hstep, lastLoaded_concat]
      by_cases hc : p.loaded c = true
      · simp only [hc, Bool.true_eq_false, if_false, if_true]
        exact ⟨by simp [hflag, hc], l.length, rfl, by simp⟩
      · have hc' : p.loaded c = false := by simpa using hc
        simp only [hc', if_true, Bool.false_eq_true, if_false]
        refine ⟨by simp [hc'], ?_⟩
        cases hl : p.lastLoaded l with
        | none => rw [hl] at hone; exact hone
        | some one =>
            rw [hl] at hone
            obtain ⟨k, hk, hget⟩ := hone
            exact ⟨k, hk, by rw [List.getElem?_append_left (List.getElem?_eq_some_iff.mp hget).1]; exact hget⟩

/-- The table the handlers that are not loaded will be filled from: the raw table of the last loaded one, the
    database when none is loaded. -/
def source (p : Processor H) (name : String) (answer : Table) : Table :=
  match p.lastLoaded (p.registered name) with
  | some one => (p.handlers one).getRawCalibData
  | none => answer

/-- `p` with the handlers that satisfy `which` filled from `t`. -/
def refillWhere (p : Processor H) (which : H → Bool) (t : Table) : Processor H :=
  { p with
    handlers := fun g => if which g then (p.handlers g).refill t else p.handlers g
    lastFill := fun g => if which g then some (t, ((p.handlers g).fillCalib t).2) else p.lastFill g }

theorem refillWhere_false (p : Processor H) (t : Table) : p.refillWhere (fun _ => false) t = p := by
  simp [refillWhere]

/-- **`addCalibration` appends to the vector of the handler's table.** -/
theorem registered_addCalibration (p : Processor H) (cal : H) (name : String) :
    (p.addCalibration cal).registered name
      = if name = p.tableOf cal then p.registered name ++ [cal] else p.registered name := by
  unfold registered addCalibration
  by_cases h : name = p.tableOf cal
  · subst h
    simp [StdMap.find?_alter_self]
  · simp [StdMap.find?_alter_ne _ h, h]

variable [DecidableEq H]

theorem load_handlers (p : Processor H) (c g : H) (t : Table) :
    (p.load c t).handlers g = if g = c then (p.handlers g).refill t else p.handlers g := by
  unfold load
  by_cases h : g = c
  · subst h; simp [Handler.refill]
  · simp [h]

theorem load_lastFill (p : Processor H) (c g : H) (t : Table) :
    (p.load c t).lastFill g
      = if g = c then some (t, ((p.handlers g).fillCalib t).2) else p.lastFill g := by
  unfold load
  by_cases h : g = c
  · subst h; simp
  · simp [h]

theorem load_refillWhere (p : Processor H) (which : H → Bool) (t : Table) (c : H) :
    (p.refillWhere which t).load c t = p.refillWhere (fun g => which g || decide (g = c)) t := by
  have hhandlers : ((p.refillWhere which t).load c t).handlers
      = (p.refillWhere (fun g => which g || decide (g = c)) t).handlers := by
    funext g
    rw [load_handlers]
    by_cases hgc : g = c
    · subst hgc
      by_cases hw : which g <;> simp [refillWhere, hw, Handler.refill_refill]
    · simp [refillWhere, hgc]
  have hlast : ((p.refillWhere which t).load c t).lastFill
      = (p.refillWhere (fun g => which g || decide (g = c)) t).lastFill := by
    funext g
    rw [load_lastFill]
    by_cases hgc : g = c
    · subst hgc
      by_cases hw : which g <;> simp [refillWhere, hw, Handler.refill_fillCalib]
    · simp [refillWhere, hgc]
  exact Processor.ext rfl hhandlers hlast rfl

theorem loadAll_eq (p : Processor H) (l : List H) (t : Table) :
    p.loadAll l t = p.refillWhere (fun g => decide (g ∈ l)) t := by
  induction l using List.reverseRecOn with
  | nil => simp [loadAll, refillWhere_false]
  | append_singleton l c ih =>
      have hstep : p.loadAll (l ++ [c]) t = (p.loadAll l t).load c t := by simp [loadAll]
      rw [hstep, ih, load_refillWhere]
      congr 1
      funext g
      simp

/-- A pass of the copy loop, from a state in which the handlers of the earlier positions are filled. -/
theorem copyOne_refillWhere {p : Processor H} {calibrations : List H} {k : Nat} {one : H}
    (hone : calibrations[k]? = some one) (hloaded : p.loaded one = true) {which : H → Bool}
    (hwhich : ∀ g, which g = true → p.loaded g = false) {c : H × Nat}
    (hc : c.2 = k → p.loaded c.1 = true) :
    copyOne calibrations k (p.refillWhere which (p.handlers one).getRawCalibData) c
      = p.refillWhere (fun g => which g || (decide (g = c.1) && !p.loaded g))
          (p.handlers one).getRawCalibData := by
  have hskip : p.loaded c.1 = true ∨ which c.1 = true →
      (fun g => which g || (decide (g = c.1) && !p.loaded g)) = which := by
    intro h
    funext g
    by_cases hg : g = c.1
    · subst hg
      rcases h with h | h <;> simp [h]
    · simp [hg]
  have hwone : which one = false := by
    by_contra hne
    rw [hwhich one (by simpa using hne)] at hloaded
    exact Bool.false_ne_true hloaded
  have hload : (p.refillWhere which (p.handlers one).getRawCalibData).loaded c.1
      = (which c.1 || p.loaded c.1) := by
    by_cases hw : which c.1 <;> simp [loaded, refillWhere, hw]
  unfold copyOne
  by_cases hck : c.2 = k
  · rw [if_pos hck, hskip (Or.inl (hc hck))]
  · rw [if_neg hck, hload]
    by_cases hdone : (which c.1 || p.loaded c.1) = true
    · rw [if_pos hdone, hskip]
      rw [Bool.or_eq_true] at hdone
      exact hdone.symm
    · -- not loaded: filled from the raw table of `one`, which the loop has not touched
      rw [if_neg hdone, hone]
      simp only [Bool.or_eq_true, not_or, Bool.not_eq_true] at hdone
      have hraw : (p.refillWhere which (p.handlers one).getRawCalibData).handlers one = p.handlers one := by
        simp [refillWhere, hwone]
      simp only [hraw]
      rw [load_refillWhere]
      congr 1
      funext g
      by_cases hg : g = c.1
      · subst hg; simp [hdone.2]
      · simp [hg]

theorem copyLoaded_eq {p : Processor H} {calibrations : List H} {k : Nat} {one : H}
    (hone : calibrations[k]? = some one) (hloaded : p.loaded one = true) :
    p.copyLoaded calibrations k
      = p.refillWhere (fun g => decide (g ∈ calibrations) && !p.loaded g)
          (p.handlers one).getRawCalibData := by
  -- the loop over any positions of which only the skipped one is `k`
  have hloop : ∀ l : List (H × Nat), (∀ c ∈ l, c.2 = k → p.loaded c.1 = true) →
      l.foldl (copyOne calibrations k) p
        = p.refillWhere (fun g => decide (g ∈ l.map Prod.fst) && !p.loaded g)
            (p.handlers one).getRawCalibData := by
    intro l
    induction l using List.reverseRecOn with
    | nil => intro _; simp [refillWhere_false]
    | append_singleton l c ih =>
        intro hl
        rw [List.foldl_append, ih (fun c' hc' => hl c' (by simp [hc']))]
        simp only [List.foldl_cons, List.foldl_nil]
        rw [copyOne_refillWhere hone hloaded (by intro g hg; simpa using (Bool.and_eq_true_iff.mp hg).2)
          (hl c (by simp))]
        have hmem : ∀ g, g ∈ (l ++ [c]).map Prod.fst ↔ g ∈ l.map Prod.fst ∨ g = c.1 := by
          intro g
          rw [List.map_append, List.mem_append]
          simp
        congr 1
        funext g
        simp only [hmem, Bool.decide_or]
        by_cases hg : p.loaded g <;> simp [hg]
  have hpos : ∀ c ∈ calibrations.zipIdx, c.2 = k → p.loaded c.1 = true := by
    intro c hc hck
    have hget := List.mem_zipIdx_iff_getElem?.mp hc
    rw [hck, hone] at hget
    rw [← Option.some.inj hget]
    exact hloaded
  have h := hloop calibrations.zipIdx hpos
  unfold copyLoaded
  rw [h]
  congr 1
  funext g
  simp

/-! ## What a call does -/

/-- The processor after an `updateCalibration` for a registered handler of table `name`: the handlers of the
    table that were not loaded are filled, and the database was asked if none was loaded. -/
def updated (p : Processor H) (name : String) (answer : Table) : Processor H :=
  { p.refillWhere (fun g => decide (g ∈ p.registered name) && !p.loaded g) (p.source name answer) with
    log := p.log ++ (if p.lastLoaded (p.registered name) = none then [.got name answer] else []) }

/-- When all are loaded there is none to fill. -/
theorem toFill_eq_false {p : Processor H} {calibrations : List H} (hall : ∀ g ∈ calibrations, p.loaded g = true) :
    (fun g => decide (g ∈ calibrations) && !p.loaded g) = fun _ => false := by
  funext g
  by_cases hg : g ∈ calibrations
  · simp [hall g hg]
  · simp [hg]

/-- When none is loaded all are to be filled. -/
theorem toFill_eq_mem {p : Processor H} {calibrations : List H} (hnone : ∀ g ∈ calibrations, p.loaded g = false) :
    (fun g => decide (g ∈ calibrations) && !p.loaded g) = fun g => decide (g ∈ calibrations) := by
  funext g
  by_cases hg : g ∈ calibrations
  · simp [hnone g hg]
  · simp [hg]

/-- **`updateCalibration` in one equation.** -/
theorem updateCalibration_eq (p : Processor H) (cal : H) (answer : Table) :
    p.updateCalibration cal answer
      = if cal ∈ p.registered (p.tableOf cal) then p.updated (p.tableOf cal) answer else p := by
  unfold updateCalibration
  cases hfind : p.calibrations.find? (p.tableOf cal) with
  | none => simp [registered, hfind]
  | some calibrations =>
      have hreg : p.registered (p.tableOf cal) = calibrations := by simp [registered, hfind]
      simp only [hreg, hfind]
      by_cases hmem : cal ∈ calibrations
      · rw [if_neg (not_not.mpr hmem), if_pos hmem]
        obtain ⟨hflag, hone⟩ := p.scan_spec calibrations
        unfold updated source
        simp only [hreg]
        by_cases hall : (p.scan calibrations).1 = true
        · -- 1A: all loaded, so at least one is, and there is nothing to fill
          rw [if_pos hall]
          rw [hflag, List.all_eq_true] at hall
          have hsome : p.lastLoaded calibrations ≠ none := by
            intro hnone
            have := lastLoaded_eq_none.mp hnone cal hmem
            rw [hall cal hmem] at this
            exact Bool.false_ne_true this.symm
          rw [toFill_eq_false hall, refillWhere_false, if_neg hsome, List.append_nil]
        · rw [if_neg hall]
          cases hl : p.lastLoaded calibrations with
          | some one =>
              -- 1C: copied from a loaded one
              rw [hl] at hone
              obtain ⟨k, hk, hget⟩ := hone
              rw [hk, if_pos (by omega), Int.toNat_natCast,
                copyLoaded_eq hget (of_lastLoaded hl).2, if_neg (by simp), List.append_nil]
              rfl
          | none =>
              -- 1B: asked from the database
              rw [hl] at hone
              rw [hone, if_neg (by simp), loadAll_eq, if_pos rfl]
              rw [toFill_eq_mem (lastLoaded_eq_none.mp hl)]
              rfl
      · rw [if_pos hmem, if_neg hmem]

/-- The processor after a `clearCalibration` for a registered handler of table `name`. -/
def clearedTable (p : Processor H) (name : String) : Processor H :=
  { p with
    handlers := fun g =>
      if g ∈ p.registered name then (p.handlers g).setLoadedCurrentRun false else p.handlers g
    log := p.log ++ [.cleared name] }

/-- **`clearCalibration` in one equation.** -/
theorem clearCalibration_eq (p : Processor H) (cal : H) :
    p.clearCalibration cal
      = if cal ∈ p.registered (p.tableOf cal) then p.clearedTable (p.tableOf cal) else p := by
  unfold clearCalibration
  cases hfind : p.calibrations.find? (p.tableOf cal) with
  | none => simp [registered, hfind]
  | some calibrations =>
      have hreg : p.registered (p.tableOf cal) = calibrations := by simp [registered, hfind]
      simp only [hreg, hfind]
      by_cases hmem : cal ∈ calibrations
      · rw [if_neg (not_not.mpr hmem), if_pos hmem]
        unfold clearedTable
        rw [hreg]
        clear hmem hreg hfind
        induction calibrations using List.reverseRecOn with
        | nil => simp
        | append_singleton l c ih =>
            rw [List.foldl_append, ih]
            apply Processor.ext
            · rfl
            · funext g
              by_cases hg : g = c
              · subst hg
                by_cases hl : g ∈ l <;> simp [hl, Handler.setLoadedCurrentRun_idem]
              · simp [hg]
            · rfl
            · rfl
      · rw [if_pos hmem, if_neg hmem]

end Processor

end BdxReco
