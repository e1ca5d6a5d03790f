import BdxReco.TT.Index

/-!
# `TT.TranslationTable` — building the translation table from its XML document

The table maps a crate–slot–channel triple to the detector channel behind it. The XML parser reports the start
of every element to `StartElement`, in document order; the crate and slot numbers live in `static` variables of
that function, so they are part of the state here. The document is therefore the list of its start tags.

Every attribute is read with `atoi`; the narrowing conversions to `uint8_t` and `int8_t` wrap.
-/

namespace BdxReco

/-! ## C library functions -/

/-- `strcasecmp(a, b) == 0`. -/
def strcaseEq (a b : String) : Bool := a.toList.map Char.toLower == b.toList.map Char.toLower

/-- `std::transform` with `tolower`. -/
def lowercase (s : String) : String := String.ofList (s.toList.map Char.toLower)

def isSpace (c : Char) : Bool := c == ' ' || ('\t' ≤ c && c ≤ '\r')

/-- The value of the digits at the front. -/
def leadingNumber (cs : List Char) : Nat :=
  (cs.takeWhile Char.isDigit).foldl (fun n c => 10 * n + (c.toNat - '0'.toNat)) 0

/-- `atoi`; its result is defined when it is in the range of `int`. -/
def atoi (s : String) : Int :=
  match s.toList.dropWhile isSpace with
  | '-' :: cs => -(leadingNumber cs : Int)
  | '+' :: cs => leadingNumber cs
  | cs => leadingNumber cs

/-! ## The table -/

/-- `Detector_t`. -/
inductive Detector where
  | unknownDetector
  | extVeto
  | intVeto
  | calorimeter
  | paddles
  deriving DecidableEq, Repr

def detectorStr2DetID (type : String) : Detector :=
  if type = "ext_veto" then .extVeto
  else if type = "int_veto" then .intVeto
  else if type = "calo" ∨ type = "calorimeter" then .calorimeter
  else if type = "paddles" then .paddles
  else .unknownDetector

/-- What the union of `ChannelInfo` points to. -/
inductive DetectorIndex where
  | extVeto (i : ExtVetoIndex)
  | intVeto (i : IntVetoIndex)
  | calorimeter (i : CaloIndex)
  | paddles (i : PaddlesIndex)
  deriving DecidableEq, Repr

/-- `ChannelInfo`; `index` is the union, `none` the null pointer of a new entry. -/
structure ChannelInfo where
  csc : Csc := ⟨0, 0, 0⟩
  detSys : Detector := .unknownDetector
  index : Option DetectorIndex := none
  deriving DecidableEq, Repr

/-- A start tag. -/
structure Element where
  xmlname : String
  atts : List (String × String)
  deriving DecidableEq, Repr

/-- The `static` variables of `StartElement`, the table, and the tags it has complained about. -/
structure ParseState where
  crate : Int
  slot : Int
  type : String
  tt : StdMap Csc ChannelInfo
  unknownTags : List String

def ParseState.init : ParseState := ⟨0, 0, "", StdMap.empty, []⟩

/-- The local variables of the `channel` branch. -/
structure ChannelAtts where
  channel : Int := 0
  detector : String := ""
  row : Int := 0
  column : Int := 0
  module : Int := 0
  sector : Int := 0
  layer : Int := 0
  component : Int := 0
  readout : Int := 0
  id : Int := 0

/-- One attribute of a `channel` element. -/
def ChannelAtts.read (a : ChannelAtts) (att : String × String) : ChannelAtts :=
  let tag := att.1
  let ival := atoi att.2
  if tag = "number" then { a with channel := ival }
  else if tag = "detector" then { a with detector := att.2 }
  else if tag = "sector" then { a with sector := ival }
  else if tag = "readout" then { a with readout := ival }
  else if tag = "row" ∨ tag = "iy" then { a with row := ival }
  else if tag = "col" ∨ tag = "column" ∨ tag = "ix" then { a with column := ival }
  else if tag = "module" then { a with module := ival }
  else if tag = "layer" then { a with layer := ival }
  else if tag = "component" then { a with component := ival }
  else if tag = "id" then { a with id := ival }
  else a

/-- The `switch` over the detector: a new index, or the pointer as it was. -/
def ChannelAtts.index (a : ChannelAtts) (det : Detector) (old : Option DetectorIndex) : Option DetectorIndex :=
  match det with
  | .extVeto =>
      some (.extVeto ⟨Int8.ofInt a.sector, Int8.ofInt a.layer, Int8.ofInt a.component, Int8.ofInt a.readout⟩)
  | .intVeto =>
      some (.intVeto ⟨Int8.ofInt a.sector, Int8.ofInt a.layer, Int8.ofInt a.component, Int8.ofInt a.readout⟩)
  | .calorimeter =>
      some (.calorimeter ⟨Int8.ofInt a.sector, Int8.ofInt a.column, Int8.ofInt a.row, Int8.ofInt a.readout⟩)
  | .paddles => some (.paddles ⟨Int8.ofInt a.id⟩)
  | .unknownDetector => old

/-- The entry of a `channel` element, over the one `TT[csc]` holds (a new one if there is none). -/
def ChannelAtts.entry (a : ChannelAtts) (csc : Csc) (old : Option ChannelInfo) : ChannelInfo :=
  let det := detectorStr2DetID (lowercase a.detector)
  { csc, detSys := det, index := a.index det (old.getD {}).index }

/-- One attribute of a `slot` element. -/
def readSlotAtt (s : ParseState) (att : String × String) : ParseState :=
  if strcaseEq att.1 "number" then { s with slot := atoi att.2 }
  else if strcaseEq att.1 "type" then { s with type := lowercase att.2 }
  else s

/-- The entry a `channel` element is about. -/
def ParseState.csc (s : ParseState) (a : ChannelAtts) : Csc :=
  ⟨UInt8.ofInt s.crate, UInt8.ofInt s.slot, UInt8.ofInt a.channel⟩

/-- `StartElement`. -/
def startElement (s : ParseState) (e : Element) : ParseState :=
  if strcaseEq e.xmlname "bdx_translation_table" then s
  else if strcaseEq e.xmlname "crate" then
    -- the first `number`
    match e.atts.find? (fun att => strcaseEq att.1 "number") with
    | some att => { s with crate := atoi att.2 }
    | none => s
  else if strcaseEq e.xmlname "slot" then e.atts.foldl readSlotAtt s
  else if strcaseEq e.xmlname "channel" then
    let a := e.atts.foldl ChannelAtts.read {}
    { s with tt := s.tt.alter (s.csc a) (a.entry (s.csc a)) }
  else { s with unknownTags := s.unknownTags ++ [e.xmlname] }

/-- The table of a whole document. -/
def parseDocument (doc : List Element) : ParseState := doc.foldl startElement ParseState.init

/-! ## What an element writes -/

/-- The entry of the table that the element writes, if it is a `channel`. -/
def writes (s : ParseState) (e : Element) : Option Csc :=
  if strcaseEq e.xmlname "bdx_translation_table" || strcaseEq e.xmlname "crate" || strcaseEq e.xmlname "slot" then
    none
  else if strcaseEq e.xmlname "channel" then some (s.csc (e.atts.foldl ChannelAtts.read {}))
  else none

theorem foldl_readSlotAtt_tt (atts : List (String × String)) (s : ParseState) :
    (atts.foldl readSlotAtt s).tt = s.tt := by
  induction atts generalizing s with
  | nil => rfl
  | cons att atts ih =>
      rw [List.foldl_cons, ih]
      unfold readSlotAtt
      split
      · rfl
      · split
        · rfl
        · rfl

/-- An element that writes no entry leaves the table as it is. -/
theorem startElement_tt {s : ParseState} {e : Element} (h : writes s e = none) : (startElement s e).tt = s.tt := by
  unfold startElement
  unfold writes at h
  split
  · rfl
  · rename_i hroot
    split
    · split
      · rfl
      · rfl
    · rename_i hcrate
      split
      · exact foldl_readSlotAtt_tt _ _
      · rename_i hslot
        split
        · rename_i hchannel
          simp [hroot, hcrate, hslot, hchannel] at h
        · rfl

/-- A `channel` element alters one entry of the table. -/
theorem startElement_alter {s : ParseState} {e : Element} {csc : Csc} (h : writes s e = some csc) :
    ∃ a : ChannelAtts, (startElement s e).tt = s.tt.alter csc (a.entry csc) := by
  unfold writes at h
  split at h
  · exact absurd h (by simp)
  · rename_i hother
    split at h
    · rename_i hchannel
      simp only [Bool.or_eq_true, not_or] at hother
      obtain rfl := Option.some.inj h
      refine ⟨e.atts.foldl ChannelAtts.read {}, ?_⟩
      unfold startElement
      rw [if_neg hother.1.1, if_neg hother.1.2, if_neg hother.2, if_pos hchannel]
    · exact absurd h (by simp)

/-- A `channel` element leaves every entry but its own as it is. -/
theorem startElement_find? {s : ParseState} {e : Element} {csc : Csc} (h : writes s e ≠ some csc) :
    (startElement s e).tt.find? csc = s.tt.find? csc := by
  cases hw : writes s e with
  | none => rw [startElement_tt hw]
  | some csc' =>
      have hne : csc ≠ csc' := by
        rintro rfl
        exact h hw
      obtain ⟨a, ha⟩ := startElement_alter hw
      rw [ha]
      exact StdMap.find?_alter_ne _ hne _

/-! ## The union of an entry -/

/-- The veto channels of a table have the index of a veto channel. -/
def VetoTyped (tt : StdMap Csc ChannelInfo) : Prop :=
  ∀ csc info, tt.find? csc = some info → info.detSys = .intVeto → ∃ i, info.index = some (.intVeto i)

theorem startElement_vetoTyped {s : ParseState} {e : Element} (hs : VetoTyped s.tt) :
    VetoTyped (startElement s e).tt := by
  intro csc info hfind hdet
  by_cases hw : writes s e = some csc
  · obtain ⟨a, ha⟩ := startElement_alter hw
    rw [ha, StdMap.find?_alter_self] at hfind
    obtain rfl := Option.some.inj hfind
    -- the `switch` goes by the detector that is stored
    have hcase : detectorStr2DetID (lowercase a.detector) = .intVeto := hdet
    refine ⟨⟨Int8.ofInt a.sector, Int8.ofInt a.layer, Int8.ofInt a.component, Int8.ofInt a.readout⟩, ?_⟩
    simp only [ChannelAtts.entry, hcase, ChannelAtts.index]
  · rw [startElement_find? hw] at hfind
    exact hs csc info hfind hdet

/-- Every document gives such a table. -/
theorem parseDocument_vetoTyped (doc : List Element) : VetoTyped (parseDocument doc).tt := by
  unfold parseDocument
  have hinit : VetoTyped ParseState.init.tt := by
    intro csc info hfind
    exact absurd hfind (by simp [ParseState.init])
  generalize ParseState.init = s at hinit
  induction doc generalizing s with
  | nil => exact hinit
  | cons e doc ih => exact ih _ (startElement_vetoTyped hinit)

end BdxReco
