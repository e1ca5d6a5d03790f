import BdxReco.System.CalibrationLookup

/-!
# `System.FillCalib` — what `fillCalib` makes of a table

The purpose of `fillCalib` is to turn a table into a map: every row into an entry, keyed by its first columns, where of
several rows with one key the first counts. `FillsFrom` says what that means of a handler and a table, and
`fillCalib_fillsFrom` that it holds for every index class. The classes differ in their number of columns and in the
direction of their `operator<`, which are members of `CalibIndex`; `handlers_fillFrom` puts in the five that there are.
-/

namespace BdxReco

open CalibIndex

section Width

/-- The number of data columns as the code computes it: `size()` is unsigned and so is the difference, which wraps when
    the row is too short; the assignment to an `int` keeps the lower half of it. -/
def machineWidth (size n : Nat) : Int := ((BitVec.ofNat 64 size - BitVec.ofNat 64 n).setWidth 32).toInt

/-- **The wrapped difference is the difference** of the row loop, for all rows that an `int` can count. -/
theorem machineWidth_eq {size n : Nat} (hsize : size < 2 ^ 31) (hn : n < 2 ^ 31) :
    machineWidth size n = (size : Int) - n := by
  unfold machineWidth
  rw [BitVec.toInt_eq_toNat_bmod, BitVec.toNat_setWidth, BitVec.toNat_sub, BitVec.toNat_ofNat, BitVec.toNat_ofNat]
  rw [Int.bmod_def]
  omega

end Width

section Keys

variable {T : Type} [CalibIndex T]

/-- Two indexes are one key of the map exactly when `operator==` says so: no row is lost to a key that is not its own. -/
theorem equiv_eq_beq (a b : T) : KeyOrder.equiv a b = (a == b) := by
  rw [Bool.eq_iff_iff, KeyOrder.equiv_iff, beq_iff]

end Keys

namespace CalibrationHandler

variable {T : Type} [CalibIndex T]

/-- **A pass of the row loop in the arithmetic of the machine**: for a row that an `int` can count it is the pass that
    the proofs are about. -/
theorem fillRow_eq_machine (irow : Nat) (s : FillLoop T) {row : Row} (hsize : row.length < 2 ^ 31)
    (hn : nIDs T < 2 ^ 31) :
    fillRow irow s row =
      if machineWidth row.length (nIDs T) ≤ 0 ∨ (irow ≠ 0 ∧ machineWidth row.length (nIDs T) ≠ s.nData) then none
      else some {
        index := fillIndex s.index row
        nData := machineWidth row.length (nIDs T)
        prevNdata := if irow > 0 then s.nData else s.prevNdata
        calib := (s.calib.insert (fillIndex s.index row)
          (fillData T (machineWidth row.length (nIDs T)) row)).1 } := by
  rw [machineWidth_eq hsize hn]
  unfold fillRow
  dsimp only
  by_cases hshort : (row.length : Int) - nIDs T ≤ 0
  · simp only [hshort, if_true, true_or]
  · by_cases hirow : irow = 0
    · simp only [hirow, hshort, ne_eq, not_true_eq_false, and_false, false_and, or_self, if_false]
    · have hpos : irow > 0 := Nat.pos_of_ne_zero hirow
      simp only [hirow, hpos, hshort, ne_eq, not_false_eq_true, and_true, true_and, false_or, if_true, if_false]

/-- The handler takes the table as it should: `n` columns make the key, and the first row of a key counts. -/
structure FillsFrom (h : CalibrationHandler T) (n : Nat) (t : Table) : Prop where
  accepts : (h.fillCalib t).2 = .noError ↔ ∃ m, n < m ∧ ∀ row ∈ t, row.length = m
  refuses : (h.fillCalib t).2 ≠ .noError → (h.fillCalib t).2 = .valueOutOfRange
  finds : (h.fillCalib t).2 = .noError →
    ∀ i : T, (h.fillCalib t).1.calib.find? i = (t.find? (isRowOf i)).map (fun row => row.drop n)
  clears : (h.fillCalib t).2 = .valueOutOfRange → (h.fillCalib t).1.calib = StdMap.empty
  keeps : (h.fillCalib t).1.rawCalibData = t

theorem fillCalib_accepts (h : CalibrationHandler T) (t : Table) :
    (h.fillCalib t).2 = .noError ↔ rectangular (nIDs T) t = true := by
  rw [fillCalib_status]
  by_cases hrect : rectangular (nIDs T) t = true
  · simp [hrect]
  · simp [hrect]

/-- A refused table leaves nothing of the rows in front of the one that was refused. -/
theorem fillCalib_clears {h : CalibrationHandler T} {t : Table} (hstatus : (h.fillCalib t).2 = .valueOutOfRange) :
    (h.fillCalib t).1.calib = StdMap.empty := by
  unfold fillCalib at hstatus ⊢
  split at hstatus
  · rfl
  · exact absurd hstatus (by simp)

/-- **`fillCalib` takes exactly the rectangular tables, and builds their first-wins map.** -/
theorem fillCalib_fillsFrom (h : CalibrationHandler T) {t : Table} (hrange : InRange T t) :
    FillsFrom h (nIDs T) t where
  accepts := by rw [fillCalib_accepts, rectangular_iff]
  refuses := by
    intro hne
    have hnot := (not_congr (fillCalib_accepts h t)).mp hne
    rw [fillCalib_status, if_neg hnot]
  finds := by
    intro hok i
    have hrect := (fillCalib_accepts h t).mp hok
    rw [fillCalib_find? h hrange i, tableFind, if_pos hrect]
  clears := fillCalib_clears
  keeps := fillCalib_rawCalibData h t

end CalibrationHandler

open CalibrationHandler

/-- **The five handlers with an index**, each with the number of columns of its class. -/
theorem handlers_fillFrom {t : Table} :
    (InRange ExtVetoIndex t → ∀ h : CalibrationHandler ExtVetoIndex, FillsFrom h 4 t) ∧
    (InRange IntVetoIndex t → ∀ h : CalibrationHandler IntVetoIndex, FillsFrom h 4 t) ∧
    (InRange CaloIndex t → ∀ h : CalibrationHandler CaloIndex, FillsFrom h 4 t) ∧
    (InRange PaddlesIndex t → ∀ h : CalibrationHandler PaddlesIndex, FillsFrom h 1 t) ∧
    (InRange Csc t → ∀ h : DAQCalibrationHandler, FillsFrom h 3 t) := by
  refine ⟨?_, ?_, ?_, ?_, ?_⟩
  · intro hrange h
    exact fillCalib_fillsFrom h hrange
  · intro hrange h
    exact fillCalib_fillsFrom h hrange
  · intro hrange h
    exact fillCalib_fillsFrom h hrange
  · intro hrange h
    exact fillCalib_fillsFrom h hrange
  · intro hrange h
    exact fillCalib_fillsFrom h hrange

/-- Two rows of one channel, told apart by the order they come in. -/
theorem handlers_fillFrom_paddles :
    FillsFrom (CalibrationHandler.new "/Paddles/Threshold" : CalibrationHandler PaddlesIndex) 1
      [[0, 1], [0, 2]] := by
  have hrange : InRange PaddlesIndex [[0, 1], [0, 2]] := by unfold InRange; decide +kernel
  exact handlers_fillFrom.2.2.2.1 hrange (CalibrationHandler.new "/Paddles/Threshold")

end BdxReco
