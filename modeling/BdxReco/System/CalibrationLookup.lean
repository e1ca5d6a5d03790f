import BdxReco.Lib.Run
import BdxReco.System.CalibrationHandler

/-!
# `System.CalibrationLookup` — what a handler answers, and when that is the current table

The purpose of a handler is to answer `getCalib(i)` from the table of the latest `fillCalib`: the data columns
of the first row for channel `i` (`tableLookup`). The map `calib` does exactly this (`fillCalib_find?`). The
memo in front of it does not: `getCalib` adds to it, nothing ever removes from it, so a channel found once is
answered from the table it was found in. `lookupsCurrent_iff` says on which call sequences the two agree.
-/

namespace BdxReco

open CalibIndex Run

/-! ## The specification: lookup in a table -/

section Spec

variable {T : Type} [CalibIndex T]

/-- The index columns of all rows are in the range of the integer fields, so that their conversion is defined. -/
def InRange (T : Type) [CalibIndex T] (t : Table) : Prop :=
  ∀ row ∈ t, ∀ k < nIDs T, lo T ≤ truncate (row.getD k 0) ∧ truncate (row.getD k 0) ≤ hi T

/-- The row is one for the channel `i`: its index columns are `i`'s fields. -/
def isRowOf (i : T) (row : Row) : Bool :=
  (List.range (nIDs T)).all (fun k => truncate (row.getD k 0) == ID i k)

theorem isRowOf_iff {i : T} {row : Row} :
    isRowOf i row = true ↔ ∀ k < nIDs T, truncate (row.getD k 0) = ID i k := by
  simp [isRowOf]

/-- The first row for `i` in an accepted table, less its index columns. -/
def tableFind (t : Table) (i : T) : Option (List ℚ) :=
  if rectangular (nIDs T) t then (t.find? (isRowOf i)).map (fun row => row.drop (nIDs T)) else none

/-- What `getCalib(i)` should answer while `t` is the current table. -/
def tableLookup (t : Table) (i : T) : List ℚ := (tableFind t i).getD []

/-- A row found has data: accepted rows are longer than their index columns. -/
theorem ne_nil_of_tableFind {t : Table} {i : T} {data : List ℚ} (h : tableFind t i = some data) :
    data ≠ [] := by
  unfold tableFind at h
  split at h
  · rename_i hrect
    obtain ⟨row, hfind, hdata⟩ := Option.map_eq_some_iff.mp h
    obtain ⟨m, hm, hlen⟩ := rectangular_iff.mp hrect
    have hrow := hlen row (List.mem_of_find?_eq_some hfind)
    rw [← hdata]
    intro hnil
    have hzero : (row.drop (nIDs T)).length = 0 := by rw [hnil]; rfl
    rw [List.length_drop] at hzero
    omega
  · exact absurd h (by simp)

end Spec

/-! ## `fillCalib` against the specification -/

namespace CalibrationHandler

variable {T : Type} [CalibIndex T]

/-- The index loop leaves in each field the truncated column, whatever the index was before. -/
theorem ID_fillIndex (index : T) {row : Row}
    (hrow : ∀ k < nIDs T, lo T ≤ truncate (row.getD k 0) ∧ truncate (row.getD k 0) ≤ hi T) {k : Nat}
    (hk : k < nIDs T) : ID (fillIndex index row) k = truncate (row.getD k 0) := by
  have hloop : ∀ n ≤ nIDs T, ∀ k < n,
      ID ((List.range n).foldl (fun index iindex => setID index iindex (row.getD iindex 0)) index) k
        = truncate (row.getD k 0) := by
    intro n
    induction n with
    | zero => intro _ k hk; omega
    | succ n ih =>
        intro hn k hk
        rw [List.range_succ, List.foldl_append]
        simp only [List.foldl_cons, List.foldl_nil]
        by_cases hkn : k = n
        · subst hkn
          exact ID_setID _ _ _ (by omega) (hrow k (by omega)).1 (hrow k (by omega)).2
        · rw [ID_setID_ne _ _ _ _ hkn]
          exact ih (by omega) k (by omega)
  exact hloop (nIDs T) (Nat.le_refl _) k hk

theorem fillIndex_eq_iff (index : T) {row : Row} {i : T}
    (hrow : ∀ k < nIDs T, lo T ≤ truncate (row.getD k 0) ∧ truncate (row.getD k 0) ≤ hi T) :
    fillIndex index row = i ↔ isRowOf i row = true := by
  rw [isRowOf_iff]
  constructor
  · rintro rfl k hk
    exact (ID_fillIndex index hrow hk).symm
  · intro h
    apply ID_ext
    intro k hk
    rw [ID_fillIndex index hrow hk]
    exact h k hk

theorem fillData_eq_drop {row : Row} (h : nIDs T < row.length) :
    fillData T (row.length - nIDs T) row = row.drop (nIDs T) := by
  unfold fillData
  apply List.ext_getElem
  · simp only [List.length_map, List.length_range, List.length_drop]
    omega
  · intro k hk hk'
    rw [List.length_drop] at hk'
    have hlt : nIDs T + k < row.length := by omega
    simp [hlt]

/-- **The row loop is first-wins.** What is in the map stays; a channel not yet in it gets its first row. -/
theorem find?_fillRows {irow : Nat} {s s' : FillLoop T} {t : Table} (hrange : InRange T t)
    (h : fillRows irow s t = some s') (i : T) :
    s'.calib.find? i
      = (s.calib.find? i).or ((t.find? (isRowOf i)).map (fun row => row.drop (nIDs T))) := by
  induction t generalizing irow s with
  | nil =>
      have hs : s = s' := Option.some.inj h
      subst hs
      simp
  | cons row rest ih =>
      unfold fillRows at h
      cases hstep : fillRow irow s row with
      | none => rw [hstep] at h; exact absurd h (by simp)
      | some s₁ =>
          rw [hstep] at h
          obtain ⟨hlen, _, _, hcalib⟩ := fillRow_eq_some hstep
          have hrest := ih (fun row' hrow' => hrange row' (List.mem_cons_of_mem _ hrow')) h
          rw [hrest, hcalib, fillData_eq_drop hlen, List.find?_cons]
          have hidx := fillIndex_eq_iff s.index (i := i) (hrange row (by simp))
          by_cases hi : isRowOf i row = true
          · -- the row is one for `i`: inserted if `i` was absent, ignored otherwise
            have heq := hidx.mpr hi
            rw [heq, StdMap.find?_insert_self, hi]
            cases s.calib.find? i <;> rfl
          · have hne : i ≠ fillIndex s.index row := fun he => hi (hidx.mp he.symm)
            have hf : isRowOf i row = false := by simpa using hi
            rw [StdMap.find?_insert_ne _ hne, hf]

/-- **`fillCalib` builds the map of the table.** -/
theorem fillCalib_find? (h : CalibrationHandler T) {t : Table} (hrange : InRange T t) (i : T) :
    (h.fillCalib t).1.calib.find? i = tableFind t i := by
  have hiff := fillRows_isSome (T := T) (t := t)
    (s := { index := default, nData := 0, prevNdata := 0, calib := StdMap.empty })
  unfold fillCalib tableFind
  split
  · rename_i hnone
    rw [if_neg]
    · rfl
    · intro hrect
      obtain ⟨s', hs'⟩ := hiff.mpr hrect
      rw [hnone] at hs'
      exact absurd hs' (by simp)
  · rename_i s hsome
    rw [if_pos (hiff.mp ⟨s, hsome⟩)]
    exact find?_fillRows hrange hsome i

/-! ## The memo of `getCalib` -/

/-- The memo's answer for `i`, if it has one. -/
def memo? (h : CalibrationHandler T) (i : T) : Option (List ℚ) :=
  (h.actualCalibIndex.findIdx? (fun j => j == i)).map (fun pos => h.actualCalib.getD pos [])

theorem getCalib_answer (h : CalibrationHandler T) (i : T) :
    (h.getCalib i).1 = ((h.memo? i).or (h.calib.find? i)).getD [] := by
  unfold getCalib memo?
  cases h.actualCalibIndex.findIdx? (fun j => j == i) with
  | some pos => rfl
  | none => cases h.calib.find? i <;> rfl

@[simp] theorem getCalib_calib (h : CalibrationHandler T) (i : T) : (h.getCalib i).2.calib = h.calib := by
  unfold getCalib
  split
  · rfl
  · split <;> rfl

@[simp] theorem fillCalib_memo? (h : CalibrationHandler T) (t : Table) (i : T) :
    (h.fillCalib t).1.memo? i = h.memo? i := by
  unfold fillCalib memo?
  split <;> rfl

/-- `getCalib j` adds to the memo the entry of `j` in the map, unless the memo has one for `j`. -/
theorem getCalib_memo? (h : CalibrationHandler T) (i j : T) :
    (h.getCalib j).2.memo? i = (h.memo? i).or (if j == i then h.calib.find? j else none) := by
  cases hj : h.actualCalibIndex.findIdx? (fun k => k == j) with
  | some pos =>
      have hsame : (h.getCalib j).2 = h := by simp [getCalib, hj]
      rw [hsame]
      split
      · rename_i hji
        obtain rfl := (beq_iff j i).mp hji
        simp [memo?, hj]
      · simp
  | none =>
      cases hfind : h.calib.find? j with
      | none =>
          have hsame : (h.getCalib j).2 = h := by simp [getCalib, hj, hfind]
          rw [hsame]
          simp
      | some data =>
          have hind : (h.getCalib j).2.actualCalibIndex = h.actualCalibIndex ++ [j] := by
            simp [getCalib, hj, hfind]
          have hdat : (h.getCalib j).2.actualCalib = h.actualCalib ++ [data] := by
            simp [getCalib, hj, hfind]
          have hsize := h.aligned
          unfold memo?
          rw [hind, hdat, List.findIdx?_append]
          cases hi : h.actualCalibIndex.findIdx? (fun k => k == i) with
          | some pos =>
              -- an old position: the longer vector agrees with the old one there
              have hlt : pos < h.actualCalib.length := by
                rw [hsize]
                exact (List.findIdx?_eq_some_iff_getElem.mp hi).1
              simp [List.getElem?_append_left hlt]
          | none =>
              by_cases hji : (j == i) = true
              · simp [hji, ← hsize]
              · simp [hji]

end CalibrationHandler

/-! ## Call sequences on one handler -/

/-- A call on a handler. -/
inductive HandlerCall (T : Type) where
  | fillCalib (t : Table)
  | getCalib (i : T)

section Calls

variable {T : Type} [CalibIndex T]

namespace CalibrationHandler

/-- The handler after a call. -/
def call (h : CalibrationHandler T) : HandlerCall T → CalibrationHandler T
  | .fillCalib t => (h.fillCalib t).1
  | .getCalib i => (h.getCalib i).2

/-- A fresh handler after a sequence of calls. -/
def afterCalls (name : String) (calls : List (HandlerCall T)) : CalibrationHandler T :=
  exec call (CalibrationHandler.new name) calls

@[simp] theorem afterCalls_concat (name : String) (calls : List (HandlerCall T)) (c : HandlerCall T) :
    afterCalls name (calls ++ [c]) = (afterCalls name calls).call c := by
  simp [afterCalls]

end CalibrationHandler

open CalibrationHandler

/-- The table of the most recent `fillCalib`. -/
def latestTable (calls : List (HandlerCall T)) : Option Table :=
  calls.foldl (fun cur c => match c with
    | .fillCalib t => some t
    | .getCalib _ => cur) none

omit [CalibIndex T] in
@[simp] theorem latestTable_fillCalib (calls : List (HandlerCall T)) (t : Table) :
    latestTable (calls ++ [.fillCalib t]) = some t := by
  simp [latestTable]

omit [CalibIndex T] in
@[simp] theorem latestTable_getCalib (calls : List (HandlerCall T)) (i : T) :
    latestTable (calls ++ [.getCalib i]) = latestTable calls := by
  simp [latestTable]

/-- The tables of a sequence are in the range of the index fields. -/
def CallsInRange (calls : List (HandlerCall T)) : Prop := ∀ t, .fillCalib t ∈ calls → InRange T t

theorem CallsInRange.left {calls calls' : List (HandlerCall T)} (h : CallsInRange (calls ++ calls')) :
    CallsInRange calls := fun t ht => h t (List.mem_append_left _ ht)

/-- **The map is always that of the latest table.** -/
theorem afterCalls_find? (name : String) {calls : List (HandlerCall T)} (hrange : CallsInRange calls)
    (i : T) :
    (afterCalls name calls).calib.find? i = (latestTable calls).bind (fun t => tableFind t i) := by
  induction calls using List.reverseRecOn with
  | nil => rfl
  | append_singleton calls c ih =>
      have ih' := ih hrange.left
      cases c with
      | fillCalib t =>
          rw [afterCalls_concat, latestTable_fillCalib]
          exact fillCalib_find? _ (hrange t (by simp)) i
      | getCalib j =>
          rw [afterCalls_concat, latestTable_getCalib]
          show ((afterCalls name calls).getCalib j).2.calib.find? i = _
          rw [getCalib_calib]
          exact ih'

/-- What is in the memo stays in the memo. -/
theorem call_memo? {h : CalibrationHandler T} {i : T} {data : List ℚ} (hm : h.memo? i = some data)
    (c : HandlerCall T) : (h.call c).memo? i = some data := by
  cases c with
  | fillCalib t => show (h.fillCalib t).1.memo? i = _; rw [fillCalib_memo?, hm]
  | getCalib j => show (h.getCalib j).2.memo? i = _; rw [getCalib_memo?, hm]; rfl

theorem exec_memo? {h : CalibrationHandler T} {i : T} {data : List ℚ} (hm : h.memo? i = some data)
    (calls : List (HandlerCall T)) : (exec call h calls).memo? i = some data :=
  exec_invariant (P := fun h : CalibrationHandler T => h.memo? i = some data) hm
    (fun _ c _ h => call_memo? h c)

/-- A channel answered with constants is in the memo from then on. -/
theorem memo?_of_answer {h : CalibrationHandler T} {i : T} (hne : (h.getCalib i).1 ≠ []) :
    (h.call (.getCalib i)).memo? i = some (h.getCalib i).1 := by
  have hbeq : (i == i) = true := (beq_iff i i).mpr rfl
  show (h.getCalib i).2.memo? i = _
  rw [getCalib_memo?, hbeq, if_pos rfl]
  rw [getCalib_answer] at hne ⊢
  cases hor : (h.memo? i).or (h.calib.find? i) with
  | none => rw [hor] at hne; exact absurd rfl hne
  | some data => rfl

/-- What is in the memo was found in the map by an earlier `getCalib` for the same channel. -/
theorem found_of_memo? {name : String} {calls : List (HandlerCall T)} {i : T} {data : List ℚ}
    (hm : (afterCalls name calls).memo? i = some data) :
    ∃ pre suf, calls = pre ++ .getCalib i :: suf ∧ (afterCalls name pre).calib.find? i = some data := by
  induction calls using List.reverseRecOn with
  | nil => exact absurd hm (by simp [CalibrationHandler.new, afterCalls, memo?])
  | append_singleton calls c ih =>
      rw [afterCalls_concat] at hm
      have hold : (afterCalls name calls).memo? i = some data →
          ∃ pre suf, calls ++ [c] = pre ++ .getCalib i :: suf ∧
            (afterCalls name pre).calib.find? i = some data := by
        intro h
        obtain ⟨pre, suf, hsplit, hfind⟩ := ih h
        exact ⟨pre, suf ++ [c], by simp [hsplit], hfind⟩
      cases c with
      | fillCalib t =>
          apply hold
          rwa [← fillCalib_memo? (afterCalls name calls) t i]
      | getCalib j =>
          have hm' : ((afterCalls name calls).getCalib j).2.memo? i = some data := hm
          rw [getCalib_memo?] at hm'
          cases hmi : (afterCalls name calls).memo? i with
          | some data' =>
              rw [hmi] at hm'
              exact hold (by rw [hmi]; exact hm')
          | none =>
              rw [hmi, Option.none_or] at hm'
              by_cases hji : (j == i) = true
              · obtain rfl := (beq_iff j i).mp hji
                rw [if_pos hji] at hm'
                exact ⟨calls, [], rfl, hm'⟩
              · rw [if_neg hji] at hm'
                exact absurd hm' (by simp)

/-! ## When every lookup reflects the latest table -/

/-- Every `getCalib(i)` of the sequence that comes after a `fillCalib` answers from the latest table. -/
def LookupsCurrent (name : String) (calls : List (HandlerCall T)) : Prop :=
  AtEvery (fun pre c => ∀ i, c = .getCalib i → ∀ t, latestTable pre = some t →
    ((afterCalls name pre).getCalib i).1 = tableLookup t i) calls

/-- A condition on the calls alone: once a `getCalib(i)` was made while the latest table had constants for
    `i`, every later `getCalib(i)` is made under a table with the same constants for `i`. -/
def ConstantOnceFound (calls : List (HandlerCall T)) : Prop :=
  AtEvery (fun pre c => ∀ i, c = .getCalib i → ∀ t, latestTable pre = some t →
    ∀ pre₁ suf₁ t₁, pre = pre₁ ++ .getCalib i :: suf₁ → latestTable pre₁ = some t₁ →
      tableLookup t₁ i ≠ [] → tableLookup t i = tableLookup t₁ i) calls

/-- A channel found by a correct lookup is answered with what was found. -/
theorem answer_of_found {name : String} {pre₁ suf₁ : List (HandlerCall T)} {i : T} {t₁ : Table}
    (hcur : LookupsCurrent name (pre₁ ++ .getCalib i :: suf₁)) (ht₁ : latestTable pre₁ = some t₁)
    (hne : tableLookup t₁ i ≠ []) :
    ((afterCalls name (pre₁ ++ .getCalib i :: suf₁)).getCalib i).1 = tableLookup t₁ i := by
  have hfirst := hcur pre₁ _ suf₁ rfl i rfl t₁ ht₁
  have hmemo := memo?_of_answer (h := afterCalls name pre₁) (i := i) (by rw [hfirst]; exact hne)
  have hstay := exec_memo? hmemo suf₁
  have hsplit : afterCalls name (pre₁ ++ .getCalib i :: suf₁)
      = exec call ((afterCalls name pre₁).call (.getCalib i)) suf₁ := by
    simp [afterCalls]
  rw [getCalib_answer, hsplit, hstay, hfirst]
  rfl

/-- **Lookups are current exactly on the sequences on which no found channel changes its constants.** -/
theorem lookupsCurrent_iff (name : String) (calls : List (HandlerCall T)) (hrange : CallsInRange calls) :
    LookupsCurrent name calls ↔ ConstantOnceFound calls := by
  induction calls using List.reverseRecOn with
  | nil => exact ⟨fun _ => atEvery_nil _, fun _ => atEvery_nil _⟩
  | append_singleton calls c ih =>
      have ih' := ih hrange.left
      unfold LookupsCurrent ConstantOnceFound
      rw [atEvery_concat, atEvery_concat]
      constructor
      · rintro ⟨hcur, hlast⟩
        refine ⟨ih'.mp hcur, ?_⟩
        intro i hc t ht pre₁ suf₁ t₁ hsplit ht₁ hne
        have hanswer := hlast i hc t ht
        subst hsplit
        rw [← hanswer]
        exact answer_of_found hcur ht₁ hne
      · rintro ⟨hconst, hlast⟩
        have hcur := ih'.mpr hconst
        refine ⟨hcur, ?_⟩
        intro i hc t ht
        have hmap := afterCalls_find? name hrange.left i
        rw [ht] at hmap
        cases hm : (afterCalls name calls).memo? i with
        | none => rw [getCalib_answer, hm, hmap]; rfl
        | some data =>
            -- the memo holds what the first successful lookup found, by hypothesis still the constants of `t`
            obtain ⟨pre₁, suf₁, hsplit, hfind⟩ := found_of_memo? hm
            have hrange₁ : CallsInRange pre₁ := CallsInRange.left (hsplit ▸ hrange.left)
            rw [afterCalls_find? name hrange₁ i] at hfind
            obtain ⟨t₁, ht₁, hdata⟩ := Option.bind_eq_some_iff.mp hfind
            have hlook : tableLookup t₁ i = data := by unfold tableLookup; rw [hdata]; rfl
            have hne : tableLookup t₁ i ≠ [] := by rw [hlook]; exact ne_nil_of_tableFind hdata
            rw [hlast i hc t ht pre₁ suf₁ t₁ hsplit ht₁ hne, hlook, getCalib_answer, hm]
            rfl

/-- The sequence that shows the difference: a lookup, a refill for another run, the same lookup. -/
def refillCalls : List (HandlerCall PaddlesIndex) :=
  [.fillCalib [[0, 1]], .getCalib ⟨0⟩, .fillCalib [[0, 2]], .getCalib ⟨0⟩]

theorem refillCalls_inRange : CallsInRange refillCalls := by
  intro t ht
  simp only [refillCalls, List.mem_cons, reduceCtorEq, false_or, or_false, List.not_mem_nil,
    HandlerCall.fillCalib.injEq] at ht
  rcases ht with rfl | rfl
  · unfold InRange; decide
  · unfold InRange; decide

theorem lookupsCurrent_refillCalls :
    CallsInRange refillCalls ∧
      (LookupsCurrent "/Paddles/Threshold" refillCalls ↔ ConstantOnceFound refillCalls) :=
  ⟨refillCalls_inRange, lookupsCurrent_iff _ _ refillCalls_inRange⟩

/-- The second lookup answers `1`, the constant of the table of the first `fillCalib`. -/
theorem refillCalls_not_current : ¬ LookupsCurrent "/Paddles/Threshold" refillCalls := by
  intro h
  have hlast := h [.fillCalib [[0, 1]], .getCalib ⟨0⟩, .fillCalib [[0, 2]]] (.getCalib ⟨0⟩) [] rfl ⟨0⟩ rfl
    [[0, 2]] rfl
  revert hlast
  decide

end Calls

end BdxReco
