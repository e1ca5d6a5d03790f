import BdxReco.Lib.Run
import BdxReco.TT.TranslationTable

/-!
# `TT.TableDocument` — the table is what the document says

The purpose of the translation table is to say what is behind a digitiser channel. The document says it as a tree: crates
with slots with channels, where the triple of a channel is made of the numbers on the way to it. `StartElement` sees only
the flat list of the start tags and keeps the way in two variables.

A `TableDocument` is such a tree, with the numbers in range as fields, so that a document that is not well nested cannot
be built. `parse_channels` connects the two readings: parsing the tags writes one entry for each channel of the tree, in
its order. What the entries are in the end is `table_means`.
-/

namespace BdxReco

open Run

/-! ## Attributes -/

/-- The attributes with one of these names. -/
def attsNamed (named : String → Bool) (atts : List (String × String)) : List (String × String) :=
  atts.filter (fun att => named att.1)

/-- The number that an attribute has, which may go by several names; 0 if it is absent. -/
def attValue (named : String → Bool) (atts : List (String × String)) : Int :=
  ((atts.find? (fun att => named att.1)).map (fun att => atoi att.2)).getD 0

/-- The value of an attribute that an element has to have. -/
structure HasNumber (named : String → Bool) (atts : List (String × String)) : Prop where
  one : (attsNamed named atts).length = 1
  lo : 0 ≤ attValue named atts
  hi : attValue named atts ≤ 255

instance (named : String → Bool) (atts : List (String × String)) : Decidable (HasNumber named atts) :=
  decidable_of_iff ((attsNamed named atts).length = 1 ∧ 0 ≤ attValue named atts ∧ attValue named atts ≤ 255)
    ⟨fun h => ⟨h.1, h.2.1, h.2.2⟩, fun h => ⟨h.one, h.lo, h.hi⟩⟩

theorem attsNamed_cons_pos {named : String → Bool} {att : String × String} (hatt : named att.1 = true)
    (atts : List (String × String)) : attsNamed named (att :: atts) = att :: attsNamed named atts := by
  simp [attsNamed, hatt]

theorem attsNamed_cons_neg {named : String → Bool} {att : String × String} (hatt : named att.1 = false)
    (atts : List (String × String)) : attsNamed named (att :: atts) = attsNamed named atts := by
  simp [attsNamed, hatt]

/-- A variable that only attributes with these names set has the value of the attribute, if there are no two of them. -/
theorem foldl_named {σ τ : Type} (step : σ → String × String → σ) (read : σ → τ) (val : String → τ)
    (named : String → Bool) (hset : ∀ s att, named att.1 = true → read (step s att) = val att.2)
    (hkeep : ∀ s att, named att.1 = false → read (step s att) = read s) {atts : List (String × String)}
    (hone : (attsNamed named atts).length ≤ 1) (s : σ) :
    read (atts.foldl step s) = ((atts.find? (fun att => named att.1)).map (fun att => val att.2)).getD (read s) := by
  induction atts generalizing s with
  | nil => rfl
  | cons att atts ih =>
      rw [List.foldl_cons, List.find?_cons]
      cases hatt : named att.1 with
      | true =>
          rw [attsNamed_cons_pos hatt, List.length_cons] at hone
          have hrest : attsNamed named atts = [] := List.length_eq_zero_iff.mp (by omega)
          have hnone : atts.find? (fun att => named att.1) = none := by
            rw [List.find?_eq_none]
            exact List.filter_eq_nil_iff.mp hrest
          rw [ih (by simp [hrest]), hnone, hset s att hatt]
          rfl
      | false =>
          rw [attsNamed_cons_neg hatt] at hone
          rw [ih hone, hkeep s att hatt]

/-- An attribute that an element has to have is found. -/
theorem HasNumber.find? {named : String → Bool} {atts : List (String × String)} (h : HasNumber named atts) :
    ∃ att, atts.find? (fun att => named att.1) = some att := by
  obtain ⟨att, hatt⟩ := List.length_eq_one_iff.mp h.one
  refine ⟨att, ?_⟩
  rw [← List.head?_filter]
  exact congrArg List.head? hatt

/-! ## The document -/

/-- The names of the attributes that say where a channel is in its detector. -/
def indexNames : List String :=
  ["sector", "readout", "row", "iy", "col", "column", "ix", "module", "layer", "component", "id"]

/-- A channel of the document. No two attributes of a tag have one name, which includes the names that say the same. -/
structure ChannelElement where
  element : Element
  isChannel : strcaseEq element.xmlname "channel" = true
  distinct : (element.atts.map Prod.fst).Nodup
  oneRow : (attsNamed (["row", "iy"].contains ·) element.atts).length ≤ 1
  oneColumn : (attsNamed (["col", "column", "ix"].contains ·) element.atts).length ≤ 1
  number : HasNumber (["number"].contains ·) element.atts
  inRange : ∀ att ∈ element.atts, att.1 ∈ indexNames → -128 ≤ atoi att.2 ∧ atoi att.2 ≤ 127

structure SlotElement where
  element : Element
  isSlot : strcaseEq element.xmlname "slot" = true
  number : HasNumber (strcaseEq · "number") element.atts
  channels : List ChannelElement

structure CrateElement where
  element : Element
  isCrate : strcaseEq element.xmlname "crate" = true
  number : HasNumber (strcaseEq · "number") element.atts
  slots : List SlotElement

structure TableDocument where
  element : Element
  isTable : strcaseEq element.xmlname "bdx_translation_table" = true
  crates : List CrateElement

/-- The start tags of a slot, in the order of the document. -/
def SlotElement.events (slot : SlotElement) : List Element := slot.element :: slot.channels.map ChannelElement.element

def CrateElement.events (crate : CrateElement) : List Element :=
  crate.element :: crate.slots.flatMap SlotElement.events

def TableDocument.events (d : TableDocument) : List Element := d.element :: d.crates.flatMap CrateElement.events

/-- A channel with the slot and the crate it is in. -/
structure PlacedChannel where
  crate : CrateElement
  slot : SlotElement
  channel : ChannelElement

def SlotElement.placed (crate : CrateElement) (slot : SlotElement) : List PlacedChannel :=
  slot.channels.map (fun channel => ⟨crate, slot, channel⟩)

def CrateElement.placed (crate : CrateElement) : List PlacedChannel := crate.slots.flatMap (SlotElement.placed crate)

/-- The channels of the document, in its order. -/
def TableDocument.channels (d : TableDocument) : List PlacedChannel := d.crates.flatMap CrateElement.placed

/-! ## What the document says -/

namespace ChannelElement

variable (c : ChannelElement)

/-- The number that the channel gives to an index, by one of its names. -/
def value (names : List String) : Int := attValue (names.contains ·) c.element.atts

/-- The detector behind the channel. -/
def detector : Detector :=
  detectorStr2DetID (lowercase (((c.element.atts.find? (fun att => ["detector"].contains att.1)).map Prod.snd).getD ""))

/-- The index object is the one of this detector, with the numbers of the channel. -/
def Selects : Detector → Option DetectorIndex → Prop
  | .extVeto, some (.extVeto i) =>
      i.fields = [c.value ["sector"], c.value ["layer"], c.value ["component"], c.value ["readout"]]
  | .intVeto, some (.intVeto i) =>
      i.fields = [c.value ["sector"], c.value ["layer"], c.value ["component"], c.value ["readout"]]
  | .calorimeter, some (.calorimeter i) =>
      i.fields = [c.value ["sector"], c.value ["col", "column", "ix"], c.value ["row", "iy"], c.value ["readout"]]
  | .paddles, some (.paddles i) => i.fields = [c.value ["id"]]
  | .unknownDetector, none => True
  | _, _ => False

end ChannelElement

/-- The numbers on the way to a channel. -/
def PlacedChannel.triple (p : PlacedChannel) : Int × Int × Int :=
  (attValue (strcaseEq · "number") p.crate.element.atts, attValue (strcaseEq · "number") p.slot.element.atts,
    p.channel.value ["number"])

/-- `getChannelInfo`. -/
def getChannelInfo (tt : StdMap Csc ChannelInfo) (csc : Csc) : ChannelInfo :=
  (tt.find? csc).getD { detSys := .unknownDetector }

/-- `getChannelInfo` with three numbers. -/
def getChannelInfoAt (tt : StdMap Csc ChannelInfo) (crate slot channel : Int) : ChannelInfo :=
  getChannelInfo tt ⟨UInt8.ofInt crate, UInt8.ofInt slot, UInt8.ofInt channel⟩

/-! ## What a tag does -/

theorem strcaseEq_iff {a b : String} : strcaseEq a b = true ↔ a.toList.map Char.toLower = b.toList.map Char.toLower := by
  unfold strcaseEq
  rw [beq_iff_eq]

/-- A tag that has one name has no other. -/
theorem strcaseEq_ne {name a b : String} (ha : strcaseEq name a = true) (hab : strcaseEq a b = false) :
    strcaseEq name b = false := by
  rw [← Bool.not_eq_true] at hab ⊢
  intro hb
  apply hab
  rw [strcaseEq_iff] at ha hb ⊢
  exact ha.symm.trans hb

theorem startElement_table (d : TableDocument) (s : ParseState) : startElement s d.element = s := by
  unfold startElement
  rw [if_pos d.isTable]

theorem startElement_crate (crate : CrateElement) (s : ParseState) :
    startElement s crate.element = { s with crate := attValue (strcaseEq · "number") crate.element.atts } := by
  have hroot := strcaseEq_ne (b := "bdx_translation_table") crate.isCrate (by decide)
  obtain ⟨att, hfind⟩ := crate.number.find?
  unfold startElement attValue
  rw [hroot, if_neg Bool.false_ne_true, if_pos crate.isCrate, hfind]
  rfl

theorem startElement_slot (slot : SlotElement) (s : ParseState) :
    (startElement s slot.element).crate = s.crate ∧
      (startElement s slot.element).slot = attValue (strcaseEq · "number") slot.element.atts ∧
      (startElement s slot.element).tt = s.tt := by
  have hroot := strcaseEq_ne (b := "bdx_translation_table") slot.isSlot (by decide)
  have hcrate := strcaseEq_ne (b := "crate") slot.isSlot (by decide)
  have helement : startElement s slot.element = slot.element.atts.foldl readSlotAtt s := by
    unfold startElement
    rw [hroot, hcrate, if_neg Bool.false_ne_true, if_neg Bool.false_ne_true, if_pos slot.isSlot]
  have hother : ∀ (s' : ParseState) (att : String × String), strcaseEq att.1 "number" = false →
      (readSlotAtt s' att).slot = s'.slot := by
    intro s' att hatt
    unfold readSlotAtt
    rw [hatt, if_neg Bool.false_ne_true]
    split
    · rfl
    · rfl
  rw [helement]
  refine ⟨?_, ?_, foldl_readSlotAtt_tt _ _⟩
  · refine exec_invariant (P := fun s' : ParseState => s'.crate = s.crate) rfl ?_
    intro s' att _ hs'
    unfold readSlotAtt
    split
    · exact hs'
    · split
      · exact hs'
      · exact hs'
  · obtain ⟨att, hfind⟩ := slot.number.find?
    rw [foldl_named readSlotAtt ParseState.slot atoi (strcaseEq · "number")
      (fun s' att hatt => by simp [readSlotAtt, hatt]) hother (Nat.le_of_eq slot.number.one), attValue, hfind]
    rfl

/-- **One attribute**, variable by variable. -/
theorem ChannelAtts.read_eq (a : ChannelAtts) (att : String × String) :
    a.read att = {
      channel := if ["number"].contains att.1 then atoi att.2 else a.channel
      detector := if ["detector"].contains att.1 then att.2 else a.detector
      row := if ["row", "iy"].contains att.1 then atoi att.2 else a.row
      column := if ["col", "column", "ix"].contains att.1 then atoi att.2 else a.column
      module := if ["module"].contains att.1 then atoi att.2 else a.module
      sector := if ["sector"].contains att.1 then atoi att.2 else a.sector
      layer := if ["layer"].contains att.1 then atoi att.2 else a.layer
      component := if ["component"].contains att.1 then atoi att.2 else a.component
      readout := if ["readout"].contains att.1 then atoi att.2 else a.readout
      id := if ["id"].contains att.1 then atoi att.2 else a.id } := by
  unfold ChannelAtts.read
  simp only [List.contains_cons, List.contains_nil, Bool.or_false, Bool.or_eq_true, beq_iff_eq]
  by_cases hnumber : att.1 = "number"
  · simp [hnumber]
  by_cases hdetector : att.1 = "detector"
  · simp [hdetector]
  by_cases hsector : att.1 = "sector"
  · simp [hsector]
  by_cases hreadout : att.1 = "readout"
  · simp [hreadout]
  by_cases hrow : att.1 = "row" ∨ att.1 = "iy"
  · rcases hrow with hrow | hrow <;> simp [hrow]
  by_cases hcolumn : att.1 = "col" ∨ att.1 = "column" ∨ att.1 = "ix"
  · rcases hcolumn with hcolumn | hcolumn | hcolumn <;> simp [hcolumn]
  by_cases hmodule : att.1 = "module"
  · simp [hmodule]
  by_cases hlayer : att.1 = "layer"
  · simp [hlayer]
  by_cases hcomponent : att.1 = "component"
  · simp [hcomponent]
  by_cases hid : att.1 = "id"
  · simp [hid]
  simp only [hnumber, hdetector, hsector, hreadout, hrow, hcolumn, hmodule, hlayer, hcomponent, hid, if_false]

namespace ChannelElement

variable (c : ChannelElement)

/-- The variables after the loop over the attributes. -/
def atts : ChannelAtts := c.element.atts.foldl ChannelAtts.read {}

theorem oneNamed (name : String) : (attsNamed ([name].contains ·) c.element.atts).length ≤ 1 := by
  have hdistinct := c.distinct
  have hmap : ((attsNamed ([name].contains ·) c.element.atts).map Prod.fst).Nodup :=
    hdistinct.sublist (List.filter_sublist.map Prod.fst)
  have hname : ∀ x ∈ (attsNamed ([name].contains ·) c.element.atts).map Prod.fst, x = name := by
    intro x hx
    obtain ⟨att, hatt, rfl⟩ := List.mem_map.mp hx
    simpa using (List.mem_filter.mp hatt).2
  rw [List.eq_replicate_of_mem hname, List.nodup_replicate, List.length_map] at hmap
  exact hmap

theorem atts_field {read : ChannelAtts → Int} {names : List String}
    (hread : ∀ a att, read (a.read att) = if names.contains att.1 then atoi att.2 else read a)
    (hone : (attsNamed (names.contains ·) c.element.atts).length ≤ 1) (hzero : read {} = 0) :
    read c.atts = c.value names := by
  have hset : ∀ a att, names.contains att.1 = true → read (ChannelAtts.read a att) = atoi att.2 := by
    intro a att hatt
    rw [hread, if_pos hatt]
  have hkeep : ∀ a att, names.contains att.1 = false → read (ChannelAtts.read a att) = read a := by
    intro a att hatt
    rw [hread, hatt, if_neg Bool.false_ne_true]
  rw [atts, foldl_named ChannelAtts.read read atoi (names.contains ·) hset hkeep hone, hzero]
  rfl

theorem atts_detector :
    c.atts.detector = ((c.element.atts.find? (fun att => ["detector"].contains att.1)).map Prod.snd).getD "" := by
  have hset : ∀ a att, ["detector"].contains att.1 = true → (ChannelAtts.read a att).detector = id att.2 := by
    intro a att hatt
    rw [ChannelAtts.read_eq, hatt]
    rfl
  have hkeep : ∀ a att, ["detector"].contains att.1 = false → (ChannelAtts.read a att).detector = a.detector := by
    intro a att hatt
    rw [ChannelAtts.read_eq, hatt]
    rfl
  exact foldl_named ChannelAtts.read ChannelAtts.detector id (["detector"].contains ·) hset hkeep (c.oneNamed _) {}

/-- **The variables have the values of the attributes**, 0 where there is none. -/
theorem atts_eq :
    c.atts.channel = c.value ["number"] ∧ c.atts.sector = c.value ["sector"] ∧ c.atts.layer = c.value ["layer"] ∧
      c.atts.component = c.value ["component"] ∧ c.atts.readout = c.value ["readout"] ∧
      c.atts.column = c.value ["col", "column", "ix"] ∧ c.atts.row = c.value ["row", "iy"] ∧
      c.atts.id = c.value ["id"] := by
  refine ⟨?_, ?_, ?_, ?_, ?_, ?_, ?_, ?_⟩
  · exact c.atts_field (fun a att => by rw [ChannelAtts.read_eq]) (c.oneNamed _) rfl
  · exact c.atts_field (fun a att => by rw [ChannelAtts.read_eq]) (c.oneNamed _) rfl
  · exact c.atts_field (fun a att => by rw [ChannelAtts.read_eq]) (c.oneNamed _) rfl
  · exact c.atts_field (fun a att => by rw [ChannelAtts.read_eq]) (c.oneNamed _) rfl
  · exact c.atts_field (fun a att => by rw [ChannelAtts.read_eq]) (c.oneNamed _) rfl
  · exact c.atts_field (fun a att => by rw [ChannelAtts.read_eq]) c.oneColumn rfl
  · exact c.atts_field (fun a att => by rw [ChannelAtts.read_eq]) c.oneRow rfl
  · exact c.atts_field (fun a att => by rw [ChannelAtts.read_eq]) (c.oneNamed _) rfl

/-- The fields of an index hold what the document says. -/
theorem toInt_value {names : List String} (hnames : ∀ name ∈ names, name ∈ indexNames) :
    (Int8.ofInt (c.value names)).toInt = c.value names := by
  have hrange : -128 ≤ c.value names ∧ c.value names ≤ 127 := by
    unfold value attValue
    cases hfind : c.element.atts.find? (fun att => names.contains att.1) with
    | none => decide
    | some att =>
        have hnamed : att.1 ∈ names := by
          have hcontains := List.find?_some hfind
          simpa using hcontains
        exact c.inRange att (List.mem_of_find?_eq_some hfind) (hnames _ hnamed)
  exact Int8.toInt_ofInt_of_le (by omega) (by omega)

/-- The index object that the element makes. -/
def index : Option DetectorIndex := c.atts.index c.detector none

theorem entry_detSys (csc : Csc) (old : Option ChannelInfo) : (c.atts.entry csc old).detSys = c.detector := by
  unfold ChannelAtts.entry detector
  rw [atts_detector]

theorem entry_index (csc : Csc) (old : Option ChannelInfo) :
    (c.atts.entry csc old).index = if c.detector = .unknownDetector then (old.getD {}).index else c.index := by
  have hdetector := c.entry_detSys csc old
  have hindex : (c.atts.entry csc old).index = c.atts.index (c.atts.entry csc old).detSys (old.getD {}).index := rfl
  rw [hindex, hdetector]
  unfold index
  cases c.detector with
  | unknownDetector => rfl
  | _ => rfl

/-- **The object is the one of the detector**, with the numbers of the element. -/
theorem selects (hknown : c.detector ≠ .unknownDetector) : c.Selects c.detector c.index := by
  obtain ⟨-, hsector, hlayer, hcomponent, hreadout, hcolumn, hrow, hid⟩ := c.atts_eq
  unfold index
  cases hdetector : c.detector with
  | unknownDetector => exact absurd hdetector hknown
  | extVeto =>
      simp (disch := decide) only [ChannelAtts.index, Selects, ExtVetoIndex.fields, hsector, hlayer, hcomponent, hreadout,
        c.toInt_value]
  | intVeto =>
      simp (disch := decide) only [ChannelAtts.index, Selects, IntVetoIndex.fields, hsector, hlayer, hcomponent, hreadout,
        c.toInt_value]
  | calorimeter =>
      simp (disch := decide) only [ChannelAtts.index, Selects, CaloIndex.fields, hsector, hcolumn, hrow, hreadout,
        c.toInt_value]
  | paddles =>
      simp (disch := decide) only [ChannelAtts.index, Selects, PaddlesIndex.fields, hid, c.toInt_value]

end ChannelElement

theorem startElement_channel (c : ChannelElement) (s : ParseState) :
    startElement s c.element = { s with tt := s.tt.alter (s.csc c.atts) (c.atts.entry (s.csc c.atts)) } := by
  have hroot := strcaseEq_ne (b := "bdx_translation_table") c.isChannel (by decide)
  have hcrate := strcaseEq_ne (b := "crate") c.isChannel (by decide)
  have hslot := strcaseEq_ne (b := "slot") c.isChannel (by decide)
  unfold startElement
  rw [hroot, hcrate, hslot, if_neg Bool.false_ne_true, if_neg Bool.false_ne_true, if_neg Bool.false_ne_true,
    if_pos c.isChannel]
  rfl

/-! ## The tags of the document, one after the other -/

namespace PlacedChannel

/-- The key of a channel in the table. -/
def csc (p : PlacedChannel) : Csc :=
  ⟨UInt8.ofInt p.triple.1, UInt8.ofInt p.triple.2.1, UInt8.ofInt p.triple.2.2⟩

/-- The entry of a channel. -/
def write (tt : StdMap Csc ChannelInfo) (p : PlacedChannel) : StdMap Csc ChannelInfo :=
  tt.alter p.csc (p.channel.atts.entry p.csc)

end PlacedChannel

theorem parse_slot {crate : CrateElement} (slot : SlotElement) {s : ParseState}
    (hcrate : s.crate = attValue (strcaseEq · "number") crate.element.atts) :
    (slot.events.foldl startElement s).crate = s.crate ∧
      (slot.events.foldl startElement s).tt = (slot.placed crate).foldl PlacedChannel.write s.tt := by
  have hchannels : ∀ (l : List ChannelElement) (s : ParseState),
      s.crate = attValue (strcaseEq · "number") crate.element.atts →
      s.slot = attValue (strcaseEq · "number") slot.element.atts →
      ((l.map ChannelElement.element).foldl startElement s).crate = s.crate ∧
        ((l.map ChannelElement.element).foldl startElement s).tt
          = (l.map (fun channel => (⟨crate, slot, channel⟩ : PlacedChannel))).foldl PlacedChannel.write s.tt := by
    intro l
    induction l with
    | nil => intro s _ _; exact ⟨rfl, rfl⟩
    | cons c l ih =>
        intro s hcrate hslot
        have hcsc : s.csc c.atts = (⟨crate, slot, c⟩ : PlacedChannel).csc := by
          unfold ParseState.csc PlacedChannel.csc PlacedChannel.triple
          rw [hcrate, hslot, c.atts_eq.1]
        rw [List.map_cons, List.foldl_cons, startElement_channel, hcsc]
        obtain ⟨hkept, htable⟩ := ih
          { s with tt := PlacedChannel.write s.tt ⟨crate, slot, c⟩ } hcrate hslot
        exact ⟨hkept, htable⟩
  obtain ⟨hkept, hnumber, htable⟩ := startElement_slot slot s
  obtain ⟨hkept', htable'⟩ := hchannels slot.channels (startElement s slot.element) (hkept.trans hcrate) hnumber
  rw [SlotElement.events, List.foldl_cons, SlotElement.placed]
  exact ⟨hkept'.trans hkept, by rw [htable', htable]⟩

theorem parse_crate (crate : CrateElement) (s : ParseState) :
    (crate.events.foldl startElement s).tt = crate.placed.foldl PlacedChannel.write s.tt := by
  have hslots : ∀ (l : List SlotElement) (s : ParseState),
      s.crate = attValue (strcaseEq · "number") crate.element.atts →
      ((l.flatMap SlotElement.events).foldl startElement s).tt
        = (l.flatMap (SlotElement.placed crate)).foldl PlacedChannel.write s.tt := by
    intro l
    induction l with
    | nil => intro s _; rfl
    | cons slot l ih =>
        intro s hcrate
        obtain ⟨hkept, htable⟩ := parse_slot slot hcrate
        rw [List.flatMap_cons, List.foldl_append, ih _ (hkept.trans hcrate), htable, List.flatMap_cons,
          List.foldl_append]
  rw [CrateElement.events, List.foldl_cons, startElement_crate]
  exact hslots crate.slots _ rfl

/-- **The flat list of tags is read as the tree**: the table gets one entry for each channel, in their order. -/
theorem parse_channels (d : TableDocument) (s : ParseState) :
    (d.events.foldl startElement s).tt = d.channels.foldl PlacedChannel.write s.tt := by
  have hcrates : ∀ (l : List CrateElement) (s : ParseState),
      ((l.flatMap CrateElement.events).foldl startElement s).tt
        = (l.flatMap CrateElement.placed).foldl PlacedChannel.write s.tt := by
    intro l
    induction l with
    | nil => intro s; rfl
    | cons crate l ih =>
        intro s
        rw [List.flatMap_cons, List.foldl_append, ih, parse_crate, List.flatMap_cons, List.foldl_append]
  rw [TableDocument.events, List.foldl_cons, startElement_table]
  exact hcrates d.crates s

/-! ## The answers -/

/-- A number of a crate, a slot or a channel. -/
def InByte (n : Int) : Prop := 0 ≤ n ∧ n ≤ 255

theorem ofInt_inj {m n : Int} (hm : InByte m) (hn : InByte n) : UInt8.ofInt m = UInt8.ofInt n ↔ m = n := by
  have htoNat : ∀ {k : Int}, InByte k → ((UInt8.ofInt k).toNat : Int) = k := by
    rintro k ⟨hlo, hhi⟩
    have hmod : k % 2 ^ 8 = k := Int.emod_eq_of_lt hlo (by omega)
    unfold UInt8.ofInt
    rw [hmod, UInt8.toNat_ofNat']
    omega
  constructor
  · intro h
    rw [← htoNat hm, ← htoNat hn, h]
  · rintro rfl
    rfl

section Answers

variable {crate slot channel : Int} (hcrate : InByte crate) (hslot : InByte slot) (hchannel : InByte channel)
include hcrate hslot hchannel

/-- The key of a channel is the one of its triple. -/
theorem PlacedChannel.csc_eq_iff (p : PlacedChannel) :
    p.csc = ⟨UInt8.ofInt crate, UInt8.ofInt slot, UInt8.ofInt channel⟩ ↔ p.triple = (crate, slot, channel) := by
  have hc : InByte p.triple.1 := ⟨p.crate.number.lo, p.crate.number.hi⟩
  have hs : InByte p.triple.2.1 := ⟨p.slot.number.lo, p.slot.number.hi⟩
  have hch : InByte p.triple.2.2 := ⟨p.channel.number.lo, p.channel.number.hi⟩
  rw [PlacedChannel.csc, Csc.mk.injEq, ofInt_inj hc hcrate, ofInt_inj hs hslot, ofInt_inj hch hchannel,
    Prod.ext_iff, Prod.ext_iff]

/-- What the entry of a channel does to the answer for a triple. -/
theorem getChannelInfoAt_write (tt : StdMap Csc ChannelInfo) (p : PlacedChannel) :
    (p.triple ≠ (crate, slot, channel) →
      getChannelInfoAt (p.write tt) crate slot channel = getChannelInfoAt tt crate slot channel) ∧
    (p.triple = (crate, slot, channel) →
      (getChannelInfoAt (p.write tt) crate slot channel).detSys = p.channel.detector ∧
      (getChannelInfoAt (p.write tt) crate slot channel).index
        = if p.channel.detector = .unknownDetector then (getChannelInfoAt tt crate slot channel).index
          else p.channel.index) := by
  have hcsc := p.csc_eq_iff hcrate hslot hchannel
  unfold getChannelInfoAt getChannelInfo PlacedChannel.write
  constructor
  · intro hne
    rw [StdMap.find?_alter_ne _ (fun h => hne (hcsc.mp h.symm))]
  · intro heq
    rw [← hcsc.mpr heq, StdMap.find?_alter_self, Option.getD_some, p.channel.entry_detSys, p.channel.entry_index]
    exact ⟨rfl, rfl⟩

end Answers

/-- The answer for a triple is the last channel of the document that has it: its detector, and the object of this
    detector with the numbers of the channel. -/
structure AnswersLast (d : TableDocument) (tt : StdMap Csc ChannelInfo) (crate slot channel : Int) : Prop where
  detector : ∀ p, LastWith (fun p => p.triple = (crate, slot, channel)) d.channels p →
    (getChannelInfoAt tt crate slot channel).detSys = p.channel.detector
  index : ∀ p, LastWith (fun p => p.triple = (crate, slot, channel)) d.channels p →
    p.channel.Selects p.channel.detector (getChannelInfoAt tt crate slot channel).index
  other : (∀ p ∈ d.channels, p.triple ≠ (crate, slot, channel)) →
    (getChannelInfoAt tt crate slot channel).detSys = .unknownDetector

/-- The channel has the triple and a detector that the code knows. -/
def KnownAt (crate slot channel : Int) (p : PlacedChannel) : Prop :=
  p.triple = (crate, slot, channel) ∧ p.channel.detector ≠ .unknownDetector

/-- The answer for a triple has the detector of the last channel that has it, and the object of the last one of them
    whose detector is known. -/
structure AnswersKnown (d : TableDocument) (tt : StdMap Csc ChannelInfo) (crate slot channel : Int) : Prop where
  detector : ∀ p, LastWith (fun p => p.triple = (crate, slot, channel)) d.channels p →
    (getChannelInfoAt tt crate slot channel).detSys = p.channel.detector
  index : ∀ p, LastWith (KnownAt crate slot channel) d.channels p →
    p.channel.Selects p.channel.detector (getChannelInfoAt tt crate slot channel).index
  noIndex : (∀ p ∈ d.channels, ¬ KnownAt crate slot channel p) →
    (getChannelInfoAt tt crate slot channel).index = none
  other : (∀ p ∈ d.channels, p.triple ≠ (crate, slot, channel)) →
    (getChannelInfoAt tt crate slot channel).detSys = .unknownDetector

/-- **The table is what the document says**, whatever an earlier document has left in the variables. -/
theorem table_means (d : TableDocument) {s : ParseState} (hs : s.tt = StdMap.empty) {crate slot channel : Int}
    (hcrate : InByte crate) (hslot : InByte slot) (hchannel : InByte channel) :
    AnswersKnown d (d.events.foldl startElement s).tt crate slot channel := by
  have hwrite := getChannelInfoAt_write hcrate hslot hchannel
  obtain ⟨hdetector, hother⟩ := exec_lastWrite (fun tt p => PlacedChannel.write tt p)
    (fun tt => (getChannelInfoAt tt crate slot channel).detSys) (fun p => p.triple = (crate, slot, channel))
    (fun p => p.channel.detector) (fun tt p _ hp => ((hwrite tt p).2 hp).1)
    (fun tt p _ hp => congrArg ChannelInfo.detSys ((hwrite tt p).1 hp)) s.tt
  obtain ⟨hindex, hnone⟩ := exec_lastWrite (fun tt p => PlacedChannel.write tt p)
    (fun tt => (getChannelInfoAt tt crate slot channel).index) (KnownAt crate slot channel)
    (fun p => p.channel.index) (fun tt p _ hp => by rw [((hwrite tt p).2 hp.1).2, if_neg hp.2])
    (fun tt p _ hp => by
      by_cases htriple : p.triple = (crate, slot, channel)
      · have hunknown : p.channel.detector = .unknownDetector := by
          by_contra hknown
          exact hp ⟨htriple, hknown⟩
        rw [((hwrite tt p).2 htriple).2, if_pos hunknown]
      · rw [(hwrite tt p).1 htriple]) s.tt
  rw [parse_channels]
  constructor
  · exact hdetector
  · intro p hp
    have hobject : (getChannelInfoAt (d.channels.foldl PlacedChannel.write s.tt) crate slot channel).index
        = p.channel.index := hindex p hp
    obtain ⟨-, -, -, hknown, -⟩ := hp
    rw [hobject]
    exact p.channel.selects hknown.2
  · intro h
    have hempty := hnone h
    rw [hs] at hempty ⊢
    exact hempty
  · intro h
    have hempty := hother h
    rw [hs] at hempty ⊢
    exact hempty

/-- A document with one crate 1 with one slot 2, which has these channels. -/
def oneSlot (channels : List ChannelElement) : TableDocument where
  element := ⟨"bdx_translation_table", []⟩
  isTable := by decide +kernel
  crates := [{
    element := ⟨"crate", [("number", "1")]⟩
    isCrate := by decide +kernel
    number := by decide +kernel
    slots := [{
      element := ⟨"slot", [("number", "2")]⟩
      isSlot := by decide +kernel
      number := by decide +kernel
      channels := channels }] }]

/-- A paddle. -/
def paddle : ChannelElement where
  element := ⟨"channel", [("number", "0"), ("detector", "paddles"), ("id", "3")]⟩
  isChannel := by decide +kernel
  distinct := by decide +kernel
  oneRow := by decide +kernel
  oneColumn := by decide +kernel
  number := by decide +kernel
  inRange := by decide +kernel

/-- A channel without a detector, with the number of the paddle. -/
def noDetector : ChannelElement where
  element := ⟨"channel", [("number", "0")]⟩
  isChannel := by decide +kernel
  distinct := by decide +kernel
  oneRow := by decide +kernel
  oneColumn := by decide +kernel
  number := by decide +kernel
  inRange := by decide +kernel

theorem table_means_paddle : ParseState.init.tt = StdMap.empty ∧ InByte 1 ∧ InByte 2 ∧ InByte 0 ∧
    AnswersKnown (oneSlot [paddle]) ((oneSlot [paddle]).events.foldl startElement ParseState.init).tt 1 2 0 := by
  have hcrate : InByte 1 := ⟨by omega, by omega⟩
  have hslot : InByte 2 := ⟨by omega, by omega⟩
  have hchannel : InByte 0 := ⟨by omega, by omega⟩
  exact ⟨rfl, hcrate, hslot, hchannel, table_means (oneSlot [paddle]) rfl hcrate hslot hchannel⟩

/-- The channel without a detector leaves the object of the paddle in the entry. -/
theorem noDetector_not_last : ¬ AnswersLast (oneSlot [paddle, noDetector])
    ((oneSlot [paddle, noDetector]).events.foldl startElement ParseState.init).tt 1 2 0 := by
  intro h
  have hlast : ∃ p, LastWith (fun p => p.triple = (1, 2, 0)) (oneSlot [paddle, noDetector]).channels p ∧
      p.channel = noDetector := by
    refine ⟨_, ⟨[_], [], rfl, ?_, by simp⟩, rfl⟩
    decide +kernel
  obtain ⟨p, hp, hchannel⟩ := hlast
  have hselects := h.index p hp
  rw [hchannel] at hselects
  have hdetector : noDetector.detector = .unknownDetector := by decide +kernel
  have hindex : (getChannelInfoAt
      ((oneSlot [paddle, noDetector]).events.foldl startElement ParseState.init).tt 1 2 0).index
        = some (.paddles ⟨3⟩) := by
    decide +kernel
  rw [hdetector, hindex] at hselects
  exact hselects

end BdxReco
