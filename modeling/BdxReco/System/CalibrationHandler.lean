import BdxReco.DAQ.Event
import BdxReco.TT.Index

/-!
# `System.CalibrationHandler` — the three calibration handlers

A handler holds the constants of one database table. `fillCalib` loads a table, `getCalib` serves the
constants of one channel. The source has three implementations of `CalibrationHandlerBase`:

* `CalibrationHandler<T>` for the detector indexes, and `DAQCalibrationHandler`, a copy of the same code for
  `csc_t` with the literal `3` for `nIDs()`: here one definition over `CalibIndex`. They keep **two** stores:
  `calib`, rebuilt by every `fillCalib`, and the pair `actualCalib` / `actualCalibIndex` to which `getCalib`
  adds every channel it has found once.
* `RunCalibrationHandler` for tables with a single row that depend only on the run.

`Handler` is a pointer to the base class: the sum of the implementations, with `fillCalib` dispatched.
-/

namespace BdxReco

/-- A row and a table as `GetCalib` delivers them. -/
abbrev Row := List ℚ
abbrev Table := List Row

/-- The members of the base class. -/
structure CalibrationHandlerBase where
  hasLoadedCurrentRun : Bool := false
  table : String
  rawCalibData : Table := []

/-! ## `CalibrationHandler<T>` and `DAQCalibrationHandler` -/

/-- `CalibrationHandler<T>`. The two vectors of the memo are filled together (`aligned`). -/
structure CalibrationHandler (T : Type) [CalibIndex T] extends CalibrationHandlerBase where
  calib : StdMap T (List ℚ) := StdMap.empty
  actualCalib : List (List ℚ) := []
  actualCalibIndex : List T := []
  aligned : actualCalib.length = actualCalibIndex.length := by exact rfl

/-- `DAQCalibrationHandler`. -/
abbrev DAQCalibrationHandler := CalibrationHandler Csc

/-- The local variables of the row loop of `fillCalib`, and the map it fills. -/
structure FillLoop (T : Type) [CalibIndex T] where
  index : T
  nData : Int
  prevNdata : Int
  calib : StdMap T (List ℚ)

namespace CalibrationHandler

open CalibIndex

variable {T : Type} [CalibIndex T]

/-- The constructor. -/
def new (name : String) : CalibrationHandler T := { table := name }

/-- `index.ID(iindex) = row[iindex]` for `iindex` from `0` to `nIDs() - 1`. -/
def fillIndex (index : T) (row : Row) : T :=
  (List.range (nIDs T)).foldl (fun index iindex => setID index iindex (row.getD iindex 0)) index

/-- The data columns, pushed one by one. -/
def fillData (T : Type) [CalibIndex T] (nData : Int) (row : Row) : List ℚ :=
  (List.range nData.toNat).map (fun idata => row.getD (nIDs T + idata) 0)

/-- One pass of the row loop; `none` is a `return VALUE_OUT_OF_RANGE`. -/
def fillRow (irow : Nat) (s : FillLoop T) (row : Row) : Option (FillLoop T) :=
  let prevNdata := if irow > 0 then s.nData else s.prevNdata
  let nData : Int := row.length - nIDs T
  if nData ≤ 0 then none
  else if nData ≠ prevNdata ∧ irow ≠ 0 then none
  else
    let index := fillIndex s.index row
    some { index, nData, prevNdata, calib := (s.calib.insert index (fillData T nData row)).1 }

/-- The row loop from row number `irow` on. -/
def fillRows (irow : Nat) (s : FillLoop T) : Table → Option (FillLoop T)
  | [] => some s
  | row :: rest =>
    match fillRow irow s row with
    | none => none
    | some s' => fillRows (irow + 1) s' rest

/-- `fillCalib`. The raw table is stored in any case; a malformed table leaves `calib` empty. The memo of
    `getCalib` is not touched. -/
def fillCalib (h : CalibrationHandler T) (calibData : Table) : CalibrationHandler T × JError :=
  match fillRows 0 { index := default, nData := 0, prevNdata := 0, calib := StdMap.empty } calibData with
  | none => ({ h with calib := StdMap.empty, rawCalibData := calibData }, .valueOutOfRange)
  | some s => ({ h with calib := s.calib, rawCalibData := calibData }, .noError)

/-- `getCalib`: the memo first, then the map, whose answer is added to the memo. -/
def getCalib (h : CalibrationHandler T) (index : T) : List ℚ × CalibrationHandler T :=
  match h.actualCalibIndex.findIdx? (fun i => i == index) with
  | some pos => (h.actualCalib.getD pos [], h)
  | none =>
    match h.calib.find? index with
    | none => ([], h)
    | some data =>
      (data, { h with
        actualCalib := h.actualCalib ++ [data]
        actualCalibIndex := h.actualCalibIndex ++ [index]
        aligned := by simp [h.aligned] })

@[simp] theorem fillCalib_rawCalibData (h : CalibrationHandler T) (t : Table) :
    (h.fillCalib t).1.rawCalibData = t := by
  unfold fillCalib
  split <;> rfl

@[simp] theorem fillCalib_table (h : CalibrationHandler T) (t : Table) :
    (h.fillCalib t).1.table = h.table := by
  unfold fillCalib
  split <;> rfl

@[simp] theorem fillCalib_hasLoadedCurrentRun (h : CalibrationHandler T) (t : Table) :
    (h.fillCalib t).1.hasLoadedCurrentRun = h.hasLoadedCurrentRun := by
  unfold fillCalib
  split <;> rfl

end CalibrationHandler

/-! ## Which tables `fillCalib` takes -/

/-- All rows have one common length, greater than `n` (the empty table has no row to object to). -/
def rectangular (n : Nat) (t : Table) : Bool :=
  t.all (fun row => decide (n < row.length ∧ row.length = (t.headD []).length))

theorem rectangular_iff {n : Nat} {t : Table} :
    rectangular n t = true ↔ ∃ m, n < m ∧ ∀ row ∈ t, row.length = m := by
  unfold rectangular
  rw [List.all_eq_true]
  simp only [decide_eq_true_eq]
  constructor
  · intro h
    cases t with
    | nil => exact ⟨n + 1, by omega, by simp⟩
    | cons row rest =>
        refine ⟨row.length, (h row (by simp)).1, ?_⟩
        intro row' hrow'
        simpa using (h row' hrow').2
  · rintro ⟨m, hnm, hm⟩ row hrow
    cases t with
    | nil => simp at hrow
    | cons row₀ rest =>
        have h₀ : row₀.length = m := hm row₀ (by simp)
        rw [hm row hrow]
        exact ⟨hnm, by simp [h₀]⟩

namespace CalibrationHandler

open CalibIndex

variable {T : Type} [CalibIndex T]

/-- A pass of the loop succeeds when the row has data columns, and after the first row as many as before. -/
theorem fillRow_eq_some {irow : Nat} {s s' : FillLoop T} {row : Row}
    (h : fillRow irow s row = some s') :
    nIDs T < row.length ∧ s'.nData = (row.length : Int) - nIDs T ∧ (irow ≠ 0 → s'.nData = s.nData) ∧
      s'.calib = (s.calib.insert (fillIndex s.index row) (fillData T (row.length - nIDs T) row)).1 := by
  unfold fillRow at h
  simp only at h
  by_cases hpos : (row.length : Int) - nIDs T ≤ 0
  · rw [if_pos hpos] at h
    exact absurd h (by simp)
  · rw [if_neg hpos] at h
    by_cases hdiff : (row.length : Int) - nIDs T ≠ (if irow > 0 then s.nData else s.prevNdata) ∧ irow ≠ 0
    · rw [if_pos hdiff] at h
      exact absurd h (by simp)
    · rw [if_neg hdiff] at h
      have hs' := Option.some.inj h
      subst hs'
      refine ⟨by omega, rfl, ?_, rfl⟩
      intro hirow
      show (row.length : Int) - nIDs T = s.nData
      rw [if_pos (Nat.pos_of_ne_zero hirow)] at hdiff
      by_contra hne
      exact hdiff ⟨hne, hirow⟩

/-- The converse of `fillRow_eq_some`. -/
theorem fillRow_isSome (irow : Nat) (s : FillLoop T) (row : Row) (hlen : nIDs T < row.length)
    (hsame : irow ≠ 0 → (row.length : Int) - nIDs T = s.nData) : ∃ s', fillRow irow s row = some s' := by
  unfold fillRow
  simp only
  rw [if_neg (by omega), if_neg]
  · exact ⟨_, rfl⟩
  · rintro ⟨hne, hirow⟩
    rw [if_pos (Nat.pos_of_ne_zero hirow)] at hne
    exact hne (hsame hirow)

/-- After the first row the loop runs to the end exactly when every further row has the first one's length. -/
theorem fillRows_succ_isSome {irow m : Nat} {s : FillLoop T} {t : Table} (hm : nIDs T < m)
    (hnData : s.nData = (m : Int) - nIDs T) :
    (∃ s', fillRows (irow + 1) s t = some s') ↔ ∀ row ∈ t, row.length = m := by
  induction t generalizing irow s with
  | nil => simp [fillRows]
  | cons row rest ih =>
      constructor
      · rintro ⟨s', hs'⟩
        unfold fillRows at hs'
        cases hrow : fillRow (irow + 1) s row with
        | none => rw [hrow] at hs'; exact absurd hs' (by simp)
        | some s₁ =>
            rw [hrow] at hs'
            obtain ⟨_, hlen₁, hsame₁, _⟩ := fillRow_eq_some hrow
            have hs₁ := hsame₁ (by omega)
            have hrest := (ih (s := s₁) (by omega)).mp ⟨s', hs'⟩
            intro row' hrow'
            rcases List.mem_cons.mp hrow' with h | h
            · rw [h]; omega
            · exact hrest row' h
      · intro hall
        have hrow := hall row (by simp)
        obtain ⟨s₁, hs₁⟩ := fillRow_isSome (irow + 1) s row (by omega)
          (by intro _; omega)
        obtain ⟨_, hlen₁, _, _⟩ := fillRow_eq_some hs₁
        unfold fillRows
        rw [hs₁]
        exact (ih (by omega)).mpr (fun row' h => hall row' (by simp [h]))

/-- The loop runs to the end exactly on the rectangular tables. -/
theorem fillRows_isSome {s : FillLoop T} {t : Table} :
    (∃ s', fillRows 0 s t = some s') ↔ rectangular (nIDs T) t = true := by
  rw [rectangular_iff]
  cases t with
  | nil => exact ⟨fun _ => ⟨nIDs T + 1, by omega, by simp⟩, fun _ => ⟨s, rfl⟩⟩
  | cons row rest =>
      unfold fillRows
      constructor
      · rintro ⟨s', hs'⟩
        cases hrow : fillRow 0 s row with
        | none => rw [hrow] at hs'; exact absurd hs' (by simp)
        | some s₁ =>
            rw [hrow] at hs'
            obtain ⟨hlt, hlen₁, _, _⟩ := fillRow_eq_some hrow
            have hrest := (fillRows_succ_isSome hlt hlen₁).mp ⟨s', hs'⟩
            refine ⟨row.length, hlt, ?_⟩
            intro row' hrow'
            rcases List.mem_cons.mp hrow' with h | h
            · rw [h]
            · exact hrest row' h
      · rintro ⟨m, hnm, hm⟩
        have hrow := hm row (by simp)
        obtain ⟨s₁, hs₁⟩ := fillRow_isSome 0 s row (by omega) (by simp)
        obtain ⟨_, hlen₁, _, _⟩ := fillRow_eq_some hs₁
        rw [hs₁]
        exact (fillRows_succ_isSome hnm (by omega)).mpr (fun row' h => hm row' (by simp [h]))

/-- **`fillCalib` accepts exactly the rectangular tables.** -/
theorem fillCalib_status (h : CalibrationHandler T) (t : Table) :
    (h.fillCalib t).2 = if rectangular (nIDs T) t then .noError else .valueOutOfRange := by
  have hiff := fillRows_isSome (T := T) (t := t)
    (s := { index := default, nData := 0, prevNdata := 0, calib := StdMap.empty })
  unfold fillCalib
  split
  · rename_i hnone
    have hrect : ¬ rectangular (nIDs T) t = true := by
      intro hrect
      obtain ⟨s', hs'⟩ := hiff.mpr hrect
      rw [hnone] at hs'
      exact absurd hs' (by simp)
    rw [if_neg hrect]
  · rename_i s hsome
    rw [if_pos (hiff.mp ⟨s, hsome⟩)]

end CalibrationHandler

/-! ## `RunCalibrationHandler` -/

structure RunCalibrationHandler extends CalibrationHandlerBase where
  calib : List ℚ := []

namespace RunCalibrationHandler

/-- `fillCalib`: anything but a single row is refused, and then nothing is changed. -/
def fillCalib (h : RunCalibrationHandler) (calibData : Table) : RunCalibrationHandler × JError :=
  match calibData with
  | [row] => ({ h with calib := row, rawCalibData := calibData }, .noError)
  | _ => (h, .valueOutOfRange)

def getCalib (h : RunCalibrationHandler) : List ℚ := h.calib

end RunCalibrationHandler

/-! ## The base class pointer -/

/-- A `CalibrationHandlerBase*`: one of the implementations. -/
inductive Handler where
  | extVeto (h : CalibrationHandler ExtVetoIndex)
  | intVeto (h : CalibrationHandler IntVetoIndex)
  | calo (h : CalibrationHandler CaloIndex)
  | paddles (h : CalibrationHandler PaddlesIndex)
  | daq (h : DAQCalibrationHandler)
  | run (h : RunCalibrationHandler)

/-- Which implementation a pointer points to. -/
inductive HandlerKind where
  | extVeto | intVeto | calo | paddles | daq | run
  deriving DecidableEq, Repr

namespace HandlerKind

/-- The number of index columns; a `RunCalibrationHandler` has none. -/
def nIDs : HandlerKind → Nat
  | extVeto => CalibIndex.nIDs ExtVetoIndex
  | intVeto => CalibIndex.nIDs IntVetoIndex
  | calo => CalibIndex.nIDs CaloIndex
  | paddles => CalibIndex.nIDs PaddlesIndex
  | daq => CalibIndex.nIDs Csc
  | run => 0

/-- The tables for which `fillCalib` returns `NOERROR` (`Handler.fillCalib_status`). -/
def accepts (k : HandlerKind) (t : Table) : Bool :=
  if k = run then t.length == 1 else rectangular k.nIDs t

/-- The tables that `fillCalib` stores as raw data (`Handler.fillCalib_getRawCalibData`): the indexed handlers
    store every table, before they look at it. -/
def stores (k : HandlerKind) (t : Table) : Bool :=
  if k = run then t.length == 1 else true

end HandlerKind

namespace Handler

def base : Handler → CalibrationHandlerBase
  | extVeto h => h.toCalibrationHandlerBase
  | intVeto h => h.toCalibrationHandlerBase
  | calo h => h.toCalibrationHandlerBase
  | paddles h => h.toCalibrationHandlerBase
  | daq h => h.toCalibrationHandlerBase
  | run h => h.toCalibrationHandlerBase

def kind : Handler → HandlerKind
  | extVeto _ => .extVeto
  | intVeto _ => .intVeto
  | calo _ => .calo
  | paddles _ => .paddles
  | daq _ => .daq
  | run _ => .run

def hasLoadedCurrentRun (h : Handler) : Bool := h.base.hasLoadedCurrentRun

def getTable (h : Handler) : String := h.base.table

def getRawCalibData (h : Handler) : Table := h.base.rawCalibData

def setLoadedCurrentRun (b : Bool) : Handler → Handler
  | extVeto h => extVeto { h with hasLoadedCurrentRun := b }
  | intVeto h => intVeto { h with hasLoadedCurrentRun := b }
  | calo h => calo { h with hasLoadedCurrentRun := b }
  | paddles h => paddles { h with hasLoadedCurrentRun := b }
  | daq h => daq { h with hasLoadedCurrentRun := b }
  | run h => run { h with hasLoadedCurrentRun := b }

/-- The virtual `fillCalib`. -/
def fillCalib (t : Table) : Handler → Handler × JError
  | extVeto h => (extVeto (h.fillCalib t).1, (h.fillCalib t).2)
  | intVeto h => (intVeto (h.fillCalib t).1, (h.fillCalib t).2)
  | calo h => (calo (h.fillCalib t).1, (h.fillCalib t).2)
  | paddles h => (paddles (h.fillCalib t).1, (h.fillCalib t).2)
  | daq h => (daq (h.fillCalib t).1, (h.fillCalib t).2)
  | run h => (run (h.fillCalib t).1, (h.fillCalib t).2)

/-- The constructors `CalibrationHandler(name)`, `DAQCalibrationHandler(name)`, `RunCalibrationHandler(name)`. -/
def new (k : HandlerKind) (name : String) : Handler :=
  match k with
  | .extVeto => extVeto (CalibrationHandler.new name)
  | .intVeto => intVeto (CalibrationHandler.new name)
  | .calo => calo (CalibrationHandler.new name)
  | .paddles => paddles (CalibrationHandler.new name)
  | .daq => daq (CalibrationHandler.new name)
  | .run => run { table := name }

@[simp] theorem new_kind (k : HandlerKind) (name : String) : (new k name).kind = k := by cases k <;> rfl

@[simp] theorem new_getTable (k : HandlerKind) (name : String) : (new k name).getTable = name := by
  cases k <;> rfl

@[simp] theorem new_hasLoadedCurrentRun (k : HandlerKind) (name : String) :
    (new k name).hasLoadedCurrentRun = false := by
  cases k <;> rfl

section Fields

variable (h : Handler) (t : Table) (b : Bool)

@[simp] theorem fillCalib_kind : (h.fillCalib t).1.kind = h.kind := by cases h <;> rfl

@[simp] theorem fillCalib_getTable : (h.fillCalib t).1.getTable = h.getTable := by
  cases h with
  | run h => simp only [fillCalib, RunCalibrationHandler.fillCalib]; split <;> rfl
  | _ h => exact CalibrationHandler.fillCalib_table h t

@[simp] theorem fillCalib_hasLoadedCurrentRun :
    (h.fillCalib t).1.hasLoadedCurrentRun = h.hasLoadedCurrentRun := by
  cases h with
  | run h => simp only [fillCalib, RunCalibrationHandler.fillCalib]; split <;> rfl
  | _ h => exact CalibrationHandler.fillCalib_hasLoadedCurrentRun h t

@[simp] theorem setLoadedCurrentRun_kind : (h.setLoadedCurrentRun b).kind = h.kind := by cases h <;> rfl

@[simp] theorem setLoadedCurrentRun_getTable : (h.setLoadedCurrentRun b).getTable = h.getTable := by
  cases h <;> rfl

@[simp] theorem setLoadedCurrentRun_getRawCalibData :
    (h.setLoadedCurrentRun b).getRawCalibData = h.getRawCalibData := by
  cases h <;> rfl

@[simp] theorem setLoadedCurrentRun_hasLoadedCurrentRun :
    (h.setLoadedCurrentRun b).hasLoadedCurrentRun = b := by
  cases h <;> rfl

end Fields

/-- **The verdict of the virtual `fillCalib`** depends on the kind of handler and the table only. -/
theorem fillCalib_status (h : Handler) (t : Table) :
    (h.fillCalib t).2 = if h.kind.accepts t then .noError else .valueOutOfRange := by
  cases h with
  | run h =>
      simp only [fillCalib, RunCalibrationHandler.fillCalib, kind, HandlerKind.accepts, if_pos]
      match t with
      | [] => rfl
      | [row] => rfl
      | _ :: _ :: _ => simp
  | _ h => exact CalibrationHandler.fillCalib_status h t

/-- **What `fillCalib` leaves as raw data.** -/
theorem fillCalib_getRawCalibData (h : Handler) (t : Table) :
    (h.fillCalib t).1.getRawCalibData = if h.kind.stores t then t else h.getRawCalibData := by
  cases h with
  | run h =>
      simp only [fillCalib, RunCalibrationHandler.fillCalib, kind, HandlerKind.stores, if_pos]
      match t with
      | [] => rfl
      | [row] => rfl
      | _ :: _ :: _ => simp [getRawCalibData, base]
  | _ h => exact CalibrationHandler.fillCalib_rawCalibData h t

end Handler

end BdxReco
