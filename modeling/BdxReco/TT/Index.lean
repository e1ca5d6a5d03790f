import BdxReco.Lib.StdMap
import Mathlib.Data.Rat.Defs

/-!
# `TT.Index` — the channel indexes of `TranslationTable.h`

Each detector has its own index class, and the DAQ its crate–slot–channel triple `csc_t`. A calibration table
names a channel by the integers in its first columns, so an index is used in three ways:

* `ID(n) = x` assigns the `n`-th integer field from a column of a table (`CalibIndex.setID`);
* `operator<` orders the keys of the `std::map`s (`KeyOrder`);
* `operator==` is what `std::find` compares with (`BEq`).

`CalibIndex` collects the three with the laws that connect them, which follow for all index classes from the way they
are made of their fields (`FieldIndex`). Table columns are `double`s; every finite
`double` is a rational number and the code only copies or truncates them, so they are modelled by `ℚ`.
-/

namespace BdxReco

/-- Conversion of a `double` to an integer type discards the fractional part. -/
def truncate (x : ℚ) : Int := x.num.tdiv x.den

/-- `double` to `int8_t`. The C++ result is defined when the truncated value is in `-128..127`. -/
def toInt8 (x : ℚ) : Int8 := Int8.ofInt (truncate x)

/-- `double` to `uint8_t`. The C++ result is defined when the truncated value is in `0..255`. -/
def toUInt8 (x : ℚ) : UInt8 := UInt8.ofInt (truncate x)

theorem toInt8_toInt {x : ℚ} (hlo : -128 ≤ truncate x) (hhi : truncate x ≤ 127) :
    (toInt8 x).toInt = truncate x :=
  Int8.toInt_ofInt_of_le (by omega) (by omega)

theorem toUInt8_toNat {x : ℚ} (hlo : 0 ≤ truncate x) (hhi : truncate x ≤ 255) :
    ((toUInt8 x).toNat : Int) = truncate x := by
  have hmod : truncate x % 2 ^ 8 = truncate x := Int.emod_eq_of_lt hlo (by omega)
  have hnat : (toUInt8 x).toNat = (truncate x).toNat := by
    unfold toUInt8 UInt8.ofInt
    rw [hmod, UInt8.toNat_ofNat']
    omega
  rw [hnat]
  omega

/-- What the calibration handlers ask of an index class. `nIDs` is the number of index columns, `lo..hi` the
    range of the integer type of the fields. -/
class CalibIndex (T : Type) extends KeyOrder T, BEq T, Inhabited T where
  nIDs : Nat
  lo : Int
  hi : Int
  ID : T → Nat → Int
  setID : T → Nat → ℚ → T
  beq_iff : ∀ a b : T, (a == b) = true ↔ a = b
  ID_ext : ∀ a b : T, (∀ k < nIDs, ID a k = ID b k) → a = b
  ID_setID : ∀ (a : T) (k : Nat) (x : ℚ), k < nIDs → lo ≤ truncate x → truncate x ≤ hi →
    ID (setID a k x) k = truncate x
  ID_setID_ne : ∀ (a : T) (j k : Nat) (x : ℚ), j ≠ k → ID (setID a k x) j = ID a j

/-- How an index class is made of `nIDs` integer fields, whose type has the values `lo..hi`: the fields are all there
    is, and `setID` puts a converted column in the place of one of them. -/
structure FieldIndex {T : Type} (fields : T → List Int) (setID : T → Nat → ℚ → T) (nIDs : Nat) (lo hi : Int) : Prop
    where
  length : ∀ i, (fields i).length = nIDs
  inj : ∀ a b, fields a = fields b → a = b
  set : ∀ i k x, ∃ v, fields (setID i k x) = (fields i).set k v ∧
    (lo ≤ truncate x → truncate x ≤ hi → v = truncate x)

namespace FieldIndex

variable {T : Type} {fields : T → List Int} {setID : T → Nat → ℚ → T} {nIDs : Nat} {lo hi : Int}

theorem length_eq (h : FieldIndex fields setID nIDs lo hi) (a b : T) : (fields a).length = (fields b).length :=
  (h.length a).trans (h.length b).symm

/-- Indexes with the same numbers are the same. -/
theorem ext (h : FieldIndex fields setID nIDs lo hi) {a b : T}
    (hget : ∀ k < nIDs, (fields a).getD k 0 = (fields b).getD k 0) : a = b := by
  apply h.inj a b
  apply List.ext_getElem (h.length_eq a b)
  intro k hk hk'
  have hnum := hget k (h.length a ▸ hk)
  simpa [List.getD, hk, hk'] using hnum

/-- The field that is assigned. -/
theorem getD_setID (h : FieldIndex fields setID nIDs lo hi) (i : T) {k : Nat} {x : ℚ} (hk : k < nIDs)
    (hlo : lo ≤ truncate x) (hhi : truncate x ≤ hi) : (fields (setID i k x)).getD k 0 = truncate x := by
  obtain ⟨v, hset, hv⟩ := h.set i k x
  have hlt : k < (fields i).length := hk.trans_eq (h.length i).symm
  rw [hset, List.getD_eq_getElem?_getD, List.getElem?_set_self hlt, Option.getD_some, hv hlo hhi]

/-- The other fields. -/
theorem getD_setID_ne (h : FieldIndex fields setID nIDs lo hi) (i : T) {j k : Nat} (x : ℚ) (hjk : j ≠ k) :
    (fields (setID i k x)).getD j 0 = (fields i).getD j 0 := by
  obtain ⟨v, hset, -⟩ := h.set i k x
  rw [hset, List.getD_eq_getElem?_getD, List.getElem?_set_ne hjk.symm, List.getD_eq_getElem?_getD]

/-- The `operator<` of the detectors: of the first fields that differ, the *larger* one comes first. -/
@[reducible] def descending (h : FieldIndex fields setID nIDs lo hi) : KeyOrder T where
  lt a b := KeyOrder.firstBelow (fields b) (fields a)
  irrefl _ := KeyOrder.firstBelow_irrefl _
  trans _ _ _ hab hbc := KeyOrder.firstBelow_trans hbc hab
  antisymm a b hab hba := h.inj a b (KeyOrder.firstBelow_antisymm (h.length_eq a b) hba hab)

end FieldIndex

/-! ## The detector indexes -/

/-- `EXT_VETO_Index_t`. -/
structure ExtVetoIndex where
  sector : Int8
  layer : Int8
  component : Int8
  readout : Int8
  deriving DecidableEq, Repr, Inhabited

namespace ExtVetoIndex

/-- The fields as `int`s, in the order in which `operator<` compares them and `ID(n)` numbers them. -/
def fields (i : ExtVetoIndex) : List Int :=
  [i.sector.toInt, i.layer.toInt, i.component.toInt, i.readout.toInt]

def isSameActive (a b : ExtVetoIndex) : Bool :=
  a.sector == b.sector && a.layer == b.layer && a.component == b.component

def setID (i : ExtVetoIndex) (n : Nat) (v : ℚ) : ExtVetoIndex :=
  match n with
  | 0 => { i with sector := toInt8 v }
  | 1 => { i with layer := toInt8 v }
  | 2 => { i with component := toInt8 v }
  | 3 => { i with readout := toInt8 v }
  | _ => i

theorem fieldIndex : FieldIndex fields setID 4 (-128) 127 where
  length _ := rfl
  inj a b h := by
    cases a; cases b
    simpa [fields, Int8.toInt_inj] using h
  set i k x := by
    refine ⟨(toInt8 x).toInt, ?_, toInt8_toInt⟩
    rcases k with _ | _ | _ | _ | k <;> rfl

end ExtVetoIndex

instance : KeyOrder ExtVetoIndex := ExtVetoIndex.fieldIndex.descending

instance : CalibIndex ExtVetoIndex where
  nIDs := 4
  lo := -128
  hi := 127
  beq a b := a.isSameActive b && a.readout == b.readout
  ID i n := i.fields.getD n 0
  setID := ExtVetoIndex.setID
  beq_iff a b := by
    cases a; cases b
    simp [BEq.beq, ExtVetoIndex.isSameActive, and_assoc]
  ID_ext _ _ h := ExtVetoIndex.fieldIndex.ext h
  ID_setID i _ _ hk hlo hhi := ExtVetoIndex.fieldIndex.getD_setID i hk hlo hhi
  ID_setID_ne i _ _ x hjk := ExtVetoIndex.fieldIndex.getD_setID_ne i x hjk

/-- `INT_VETO_Index_t`. -/
structure IntVetoIndex where
  sector : Int8
  layer : Int8
  component : Int8
  readout : Int8
  deriving DecidableEq, Repr, Inhabited

namespace IntVetoIndex

/-- The fields as `int`s, in the order in which `operator<` compares them and `ID(n)` numbers them. -/
def fields (i : IntVetoIndex) : List Int :=
  [i.sector.toInt, i.layer.toInt, i.component.toInt, i.readout.toInt]

def isSameActive (a b : IntVetoIndex) : Bool :=
  a.sector == b.sector && a.layer == b.layer && a.component == b.component

def setID (i : IntVetoIndex) (n : Nat) (v : ℚ) : IntVetoIndex :=
  match n with
  | 0 => { i with sector := toInt8 v }
  | 1 => { i with layer := toInt8 v }
  | 2 => { i with component := toInt8 v }
  | 3 => { i with readout := toInt8 v }
  | _ => i

theorem fieldIndex : FieldIndex fields setID 4 (-128) 127 where
  length _ := rfl
  inj a b h := by
    cases a; cases b
    simpa [fields, Int8.toInt_inj] using h
  set i k x := by
    refine ⟨(toInt8 x).toInt, ?_, toInt8_toInt⟩
    rcases k with _ | _ | _ | _ | k <;> rfl

end IntVetoIndex

instance : KeyOrder IntVetoIndex := IntVetoIndex.fieldIndex.descending

instance : CalibIndex IntVetoIndex where
  nIDs := 4
  lo := -128
  hi := 127
  beq a b := a.isSameActive b && a.readout == b.readout
  ID i n := i.fields.getD n 0
  setID := IntVetoIndex.setID
  beq_iff a b := by
    cases a; cases b
    simp [BEq.beq, IntVetoIndex.isSameActive, and_assoc]
  ID_ext _ _ h := IntVetoIndex.fieldIndex.ext h
  ID_setID i _ _ hk hlo hhi := IntVetoIndex.fieldIndex.getD_setID i hk hlo hhi
  ID_setID_ne i _ _ x hjk := IntVetoIndex.fieldIndex.getD_setID_ne i x hjk

/-- `CALO_Index_t`. -/
structure CaloIndex where
  sector : Int8
  x : Int8
  y : Int8
  readout : Int8
  deriving DecidableEq, Repr, Inhabited

namespace CaloIndex

/-- The fields as `int`s, in the order in which `operator<` compares them and `ID(n)` numbers them. -/
def fields (i : CaloIndex) : List Int :=
  [i.sector.toInt, i.x.toInt, i.y.toInt, i.readout.toInt]

def isSameActive (a b : CaloIndex) : Bool :=
  a.sector == b.sector && a.x == b.x && a.y == b.y

def setID (i : CaloIndex) (n : Nat) (v : ℚ) : CaloIndex :=
  match n with
  | 0 => { i with sector := toInt8 v }
  | 1 => { i with x := toInt8 v }
  | 2 => { i with y := toInt8 v }
  | 3 => { i with readout := toInt8 v }
  | _ => i

theorem fieldIndex : FieldIndex fields setID 4 (-128) 127 where
  length _ := rfl
  inj a b h := by
    cases a; cases b
    simpa [fields, Int8.toInt_inj] using h
  set i k x := by
    refine ⟨(toInt8 x).toInt, ?_, toInt8_toInt⟩
    rcases k with _ | _ | _ | _ | k <;> rfl

end CaloIndex

instance : KeyOrder CaloIndex := CaloIndex.fieldIndex.descending

instance : CalibIndex CaloIndex where
  nIDs := 4
  lo := -128
  hi := 127
  beq a b := a.isSameActive b && a.readout == b.readout
  ID i n := i.fields.getD n 0
  setID := CaloIndex.setID
  beq_iff a b := by
    cases a; cases b
    simp [BEq.beq, CaloIndex.isSameActive, and_assoc]
  ID_ext _ _ h := CaloIndex.fieldIndex.ext h
  ID_setID i _ _ hk hlo hhi := CaloIndex.fieldIndex.getD_setID i hk hlo hhi
  ID_setID_ne i _ _ x hjk := CaloIndex.fieldIndex.getD_setID_ne i x hjk

/-- `PADDLES_Index_t`. -/
structure PaddlesIndex where
  id : Int8
  deriving DecidableEq, Repr, Inhabited

namespace PaddlesIndex

def fields (i : PaddlesIndex) : List Int := [i.id.toInt]

def setID (i : PaddlesIndex) (n : Nat) (v : ℚ) : PaddlesIndex :=
  match n with
  | 0 => { i with id := toInt8 v }
  | _ => i

theorem fieldIndex : FieldIndex fields setID 1 (-128) 127 where
  length _ := rfl
  inj a b h := by
    cases a; cases b
    simpa [fields, Int8.toInt_inj] using h
  set i k x := by
    refine ⟨(toInt8 x).toInt, ?_, toInt8_toInt⟩
    rcases k with _ | k <;> rfl

end PaddlesIndex

instance : KeyOrder PaddlesIndex := PaddlesIndex.fieldIndex.descending

instance : CalibIndex PaddlesIndex where
  nIDs := 1
  lo := -128
  hi := 127
  beq a b := a.id == b.id
  ID i n := i.fields.getD n 0
  setID := PaddlesIndex.setID
  beq_iff a b := by
    cases a; cases b
    simp [BEq.beq]
  ID_ext _ _ h := PaddlesIndex.fieldIndex.ext h
  ID_setID i _ _ hk hlo hhi := PaddlesIndex.fieldIndex.getD_setID i hk hlo hhi
  ID_setID_ne i _ _ x hjk := PaddlesIndex.fieldIndex.getD_setID_ne i x hjk

/-! ## The DAQ index -/

/-- `csc_t`: crate, slot, channel. -/
structure Csc where
  rocid : UInt8
  slot : UInt8
  channel : UInt8
  deriving DecidableEq, Repr, Inhabited

namespace Csc

def fields (c : Csc) : List Int := [c.rocid.toNat, c.slot.toNat, c.channel.toNat]

/-- The three assignments of `DAQCalibrationHandler::fillCalib`, numbered by column. -/
def setID (c : Csc) (n : Nat) (v : ℚ) : Csc :=
  match n with
  | 0 => { c with rocid := toUInt8 v }
  | 1 => { c with slot := toUInt8 v }
  | 2 => { c with channel := toUInt8 v }
  | _ => c

theorem fieldIndex : FieldIndex fields setID 3 0 255 where
  length _ := rfl
  inj a b h := by
    cases a; cases b
    simpa [fields, Int.natCast_inj, UInt8.toNat_inj] using h
  set i k x := by
    refine ⟨((toUInt8 x).toNat : Int), ?_, toUInt8_toNat⟩
    rcases k with _ | _ | _ | k <;> rfl

end Csc

/-- `csc_t` is the one index whose `operator<` is ascending. -/
instance : KeyOrder Csc where
  lt a b := KeyOrder.firstBelow a.fields b.fields
  irrefl _ := KeyOrder.firstBelow_irrefl _
  trans _ _ _ hab hbc := KeyOrder.firstBelow_trans hab hbc
  antisymm a b hab hba :=
    Csc.fieldIndex.inj a b (KeyOrder.firstBelow_antisymm (Csc.fieldIndex.length_eq a b) hab hba)

instance : CalibIndex Csc where
  nIDs := 3
  lo := 0
  hi := 255
  beq a b := a.rocid == b.rocid && a.slot == b.slot && a.channel == b.channel
  ID c n := c.fields.getD n 0
  setID := Csc.setID
  beq_iff a b := by
    cases a; cases b
    simp [BEq.beq, and_assoc]
  ID_ext _ _ h := Csc.fieldIndex.ext h
  ID_setID i _ _ hk hlo hhi := Csc.fieldIndex.getD_setID i hk hlo hhi
  ID_setID_ne i _ _ x hjk := Csc.fieldIndex.getD_setID_ne i x hjk

end BdxReco
