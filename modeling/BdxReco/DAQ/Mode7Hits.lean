import BdxReco.DAQ.Mode1Hits
import BdxReco.System.CalibrationReads

/-!
# `DAQ.Mode7Hits` — the hits of the pulses that the digitisers find themselves

`JEventSourceEvioDAQ::GetObjects` for the factory of the `fa250Mode7Hit`s. It looks for its banks as that of the mode 1
hits does, and it decodes them as these too: it calls `decode`, which fills the list of the waveforms, asks for the
number of these, and then takes the list of the pulses, which only `decodePulse` fills. Nothing is ever published
(`getObjectsMode7_eq`).
-/

namespace BdxReco

open LittleEndian

/-- `CompositeADCPulse_t`. -/
structure CompositeADCPulse where
  slot : Int
  time : Int
  trigger : Int
  channel : Int
  pulses : List Pulse

/-- The decoder with both of its members. -/
structure PulseDecoder extends EvioCompositeDecoder where
  adcSamplesPulse : List CompositeADCPulse := []

namespace PulseDecoder

open EvioCompositeDecoder (getInt8 getInt16 getInt32 getInt64)

/-! ## `decodePulse` -/

/-- The variables of `decodePulse` that its loops change. -/
structure PulseCursor where
  offset : Nat
  adcSamplesPulse : List CompositeADCPulse

/-- The variables that a block sets. -/
structure PulseBank where
  bankSlot : UInt8
  bankTrigger : UInt32
  bankTime : UInt64
  bankNChannels : Int

def sizeOfEntry : Nat := 2 + 4 + 2 + 2

/-- The loop over the pulses. -/
def readPulses (data : Mem UInt8) (offset : Nat) : Nat → List Pulse
  | 0 => []
  | samples + 1 =>
    { tdc := (getInt16 data offset).toNat
      adc := (getInt32 data (offset + 2)).toInt32.toInt
      ped := (getInt16 data (offset + 2 + 4)).toNat
      max := (getInt16 data (offset + 2 + 4 + 2)).toNat } :: readPulses data (offset + sizeOfEntry) samples

/-- The loop over the channels, with the number of turns that are left. The size is computed with 32 bits. -/
def readPulseChannels (data : Mem UInt8) (dataSize : Nat) (bank : PulseBank) : Nat → PulseCursor → PulseCursor
  | 0, c => c
  | nchannels + 1, c =>
    let chan := getInt8 data c.offset
    let samples := getInt32 data (c.offset + 1)
    let offset := c.offset + 1 + 4
    if (offset + samples.toNat * sizeOfEntry) % 2 ^ 32 > dataSize * 4 then { c with offset }
    else
      let adc : CompositeADCPulse :=
        { slot := bank.bankSlot.toNat, time := bank.bankTime.toUInt32.toInt32.toInt
          trigger := bank.bankTrigger.toInt32.toInt, channel := chan.toNat
          pulses := readPulses data offset samples.toNat }
      readPulseChannels data dataSize bank nchannels
        { offset := offset + samples.toNat * sizeOfEntry, adcSamplesPulse := c.adcSamplesPulse ++ [adc] }

def readPulseBank (data : Mem UInt8) (offset : Nat) : PulseBank where
  bankSlot := getInt8 data offset
  bankTrigger := getInt32 data (offset + 1)
  bankTime := getInt64 data (offset + 1 + 4)
  bankNChannels := (getInt32 data (offset + 1 + 4 + 8)).toInt32.toInt

/-- One turn of the loop over the blocks. -/
def readPulseBlock (data : Mem UInt8) (dataSize : Nat) (c : PulseCursor) : PulseCursor :=
  let bank := readPulseBank data c.offset
  let c := { c with offset := c.offset + 1 + 4 + 8 + 4 }
  if bank.bankNChannels ≤ 0 then c
  else if bank.bankSlot.toNat = 0 ∨ bank.bankSlot.toNat > 21 then c
  else readPulseChannels data dataSize bank bank.bankNChannels.toNat c

theorem le_readPulseChannels (data : Mem UInt8) (dataSize : Nat) (bank : PulseBank) (nchannels : Nat)
    (c : PulseCursor) : c.offset ≤ (readPulseChannels data dataSize bank nchannels c).offset := by
  induction nchannels generalizing c with
  | zero => exact Nat.le_refl _
  | succ nchannels ih =>
      unfold readPulseChannels
      simp only
      split
      · simp only
        omega
      · refine Nat.le_trans ?_ (ih _)
        simp only
        omega

theorem lt_readPulseBlock (data : Mem UInt8) (dataSize : Nat) (c : PulseCursor) :
    c.offset < (readPulseBlock data dataSize c).offset := by
  unfold readPulseBlock
  simp only
  split
  · simp only
    omega
  · split
    · simp only
      omega
    · refine Nat.lt_of_lt_of_le ?_ (le_readPulseChannels _ _ _ _ _)
      simp only
      omega

/-- The loop over the blocks. -/
def decodePulseLoop (data : Mem UInt8) (dataSize : Nat) (c : PulseCursor) : PulseCursor :=
  if c.offset < dataSize * 4 then decodePulseLoop data dataSize (readPulseBlock data dataSize c) else c
termination_by dataSize * 4 - c.offset
decreasing_by
  have hlt := lt_readPulseBlock data dataSize c
  omega

/-- `decodePulse(vec, dataSize)`. -/
def decodePulse (d : PulseDecoder) (beyond : Mem UInt8) (vec : List UInt32) (dataSize : Nat) : PulseDecoder :=
  let data := Mem.load (wordBytes vec) beyond
  { d with adcSamplesPulse := (decodePulseLoop data dataSize { offset := 0, adcSamplesPulse := [] }).adcSamplesPulse }

/-- `decode(vec, dataSize)`, which leaves the pulses alone. -/
def decode (d : PulseDecoder) (beyond : Mem UInt8) (vec : List UInt32) (dataSize : Nat) : PulseDecoder :=
  { d with toEvioCompositeDecoder := d.toEvioCompositeDecoder.decode beyond vec dataSize }

def getDataPulse (d : PulseDecoder) : List CompositeADCPulse := d.adcSamplesPulse

@[simp] theorem getDataPulse_decode (d : PulseDecoder) (beyond : Mem UInt8) (vec : List UInt32) (dataSize : Nat) :
    (d.decode beyond vec dataSize).getDataPulse = d.getDataPulse := rfl

end PulseDecoder

/-- The hit of a decoded entry. -/
def Fa250Mode7Hit.ofPulse (decdata : CompositeADCPulse) : Fa250Mode7Hit where
  channel := ⟨0, UInt8.ofInt decdata.slot, UInt8.ofInt decdata.channel⟩
  trigger := decdata.trigger
  timestamp := (decdata.time % 2 ^ 64).toNat
  pulses := decdata.pulses

/-- The source of the events, with the tag of its mode 7 banks. -/
structure Mode7Source extends EvioFileSource where
  childMode7Tag : Nat := 0xe102

namespace Mode7Source

/-! ## `GetObjects` -/

/-- The decoder, the number of its calls, and the hits so far. -/
structure Mode7Scan where
  decoder : PulseDecoder := {}
  calls : Nat := 0
  data : List Fa250Mode7Hit := []

variable (getNodeList : EvioTree → List EvioTree) (heap : Nat → Mem UInt8)

/-- The body of the loop over the banks of a mother bank. -/
def readMode7Bank (s : Mode7Source) (r : Mode7Scan) (branch : EvioTree) : Option Mode7Scan :=
  if branch.tag = s.childMode7Tag then do
    let pData ← branch.data?
    let leafSize := pData.length
    let decoder := r.decoder.decode (heap r.calls) pData leafSize
    let r := { r with decoder, calls := r.calls + 1 }
    if decoder.getData.length > 0 then
      some { r with data := r.data ++ decoder.getDataPulse.map Fa250Mode7Hit.ofPulse }
    else some r
  else some r

/-- The body of the loop over all banks. -/
def readVmeMother (s : Mode7Source) (r : Mode7Scan) (node : EvioTree) : Option Mode7Scan :=
  if node.tag = s.vmeMotherTag then do
    let leafList ← node.children?
    leafList.foldlM (s.readMode7Bank heap) r
  else some r

/-- `GetObjects(event, factory)` for the factory of the `fa250Mode7Hit`s: what it is given. -/
def getObjectsMode7 (s : Mode7Source) (event : JEvent EvioTree) : Option (List Fa250Mode7Hit) := do
  let edt ← event.ref
  let r ← (getNodeList edt).foldlM (s.readVmeMother heap) {}
  some r.data

/-! ## What is wanted -/

/-- VME mother banks are containers, and the mode 7 banks in them have data. -/
structure WellFormed (s : Mode7Source) (tree : EvioTree) : Prop where
  mothers : ∀ m ∈ tree.nodes, m.tag = s.vmeMotherTag → ∃ leafList, m.children? = some leafList
  leaves : ∀ m ∈ tree.nodes, m.tag = s.vmeMotherTag → ∀ branch ∈ m.children, branch.tag = s.childMode7Tag →
    ∃ pData, branch.data? = some pData

/-- The entries that the decoding of the pulses finds in a bank. -/
def entries (beyond : Mem UInt8) (branch : EvioTree) : List CompositeADCPulse :=
  match branch.data? with
  | none => []
  | some pData => (PulseDecoder.decodePulse {} beyond pData pData.length).getDataPulse

/-- The hits of a bank, where it is a mode 7 bank. -/
def bankHits (s : Mode7Source) (beyond : Mem UInt8) (branch : EvioTree) : List Fa250Mode7Hit :=
  if branch.tag = s.childMode7Tag then (entries beyond branch).map Fa250Mode7Hit.ofPulse else []

/-- The hits of an event in the order of the document: those of all banks with a VME mother bank as their parent. -/
def documentHits (s : Mode7Source) (beyond : Mem UInt8) (tree : EvioTree) : List Fa250Mode7Hit :=
  (tree.edges.filter (fun edge => edge.1.tag == s.vmeMotherTag)).flatMap (fun edge => s.bankHits beyond edge.2)

/-! ## What is published -/

section Published

variable {s : Mode7Source} {tree : EvioTree} {r : Mode7Scan}

/-- The state of the scan at any time: there are no pulses in the decoder, and no hits. -/
def Idle (r : Mode7Scan) : Prop := r.decoder.getDataPulse = [] ∧ r.data = []

/-- One bank. -/
theorem readMode7Bank_idle {branch : EvioTree}
    (h : branch.tag = s.childMode7Tag → ∃ pData, branch.data? = some pData) (hr : Idle r) :
    ∃ r', s.readMode7Bank heap r branch = some r' ∧ Idle r' := by
  obtain ⟨hpulses, hdata⟩ := hr
  unfold readMode7Bank
  by_cases htag : branch.tag = s.childMode7Tag
  · obtain ⟨pData, hleaf⟩ := h htag
    rw [if_pos htag, hleaf]
    simp only [Option.bind_eq_bind, Option.bind_some, PulseDecoder.getDataPulse_decode, hpulses, List.map_nil,
      List.append_nil]
    split
    · exact ⟨_, rfl, hpulses, hdata⟩
    · exact ⟨_, rfl, hpulses, hdata⟩
  · rw [if_neg htag]
    exact ⟨r, rfl, hpulses, hdata⟩

/-- One bank of the list. -/
theorem readVmeMother_idle (h : s.WellFormed tree) {node : EvioTree} (hnode : node ∈ tree.nodes) (hr : Idle r) :
    ∃ r', s.readVmeMother heap r node = some r' ∧ Idle r' := by
  by_cases htag : node.tag = s.vmeMotherTag
  · obtain ⟨leafList, hchildren⟩ := h.mothers node hnode htag
    have hleaves : node.children = leafList := by rw [Dom.children, hchildren]; rfl
    have hdata := h.leaves node hnode htag
    rw [hleaves] at hdata
    obtain ⟨r', hrun, hr'⟩ := Run.foldlM_keeps Idle
      (fun r branch hbranch hr => readMode7Bank_idle heap (hdata branch hbranch) hr) hr
    refine ⟨r', ?_, hr'⟩
    unfold readVmeMother
    rw [if_pos htag, hchildren]
    exact hrun
  · exact ⟨r, if_neg htag, hr⟩

/-- **Nothing is published.** -/
theorem getObjectsMode7_eq (hlist : ∀ tree, getNodeList tree = tree.nodes) (h : s.WellFormed tree)
    {event : JEvent EvioTree} (href : event.ref = some tree) : s.getObjectsMode7 getNodeList heap event = some [] := by
  obtain ⟨r', hrun, hr'⟩ := Run.foldlM_keeps Idle (fun r node hnode hr => readVmeMother_idle heap h hnode hr)
    (s := ({} : Mode7Scan)) ⟨rfl, rfl⟩
  unfold getObjectsMode7
  rw [href]
  simp only [Option.bind_eq_bind, Option.bind_some, hlist, hrun, Option.some.injEq]
  exact hr'.2

/-- A bank without entries has no hits. -/
theorem bankHits_eq_nil_iff {beyond : Mem UInt8} {branch : EvioTree} :
    s.bankHits beyond branch = [] ↔ (branch.tag = s.childMode7Tag → entries beyond branch = []) := by
  unfold bankHits
  by_cases htag : branch.tag = s.childMode7Tag
  · rw [if_pos htag, List.map_eq_nil_iff]
    exact ⟨fun hnil _ => hnil, fun hnil => hnil htag⟩
  · rw [if_neg htag]
    exact iff_of_true rfl (fun heq => absurd heq htag)

theorem documentHits_eq_nil_iff {beyond : Mem UInt8} :
    s.documentHits beyond tree = [] ↔ ∀ edge ∈ tree.edges, edge.1.tag = s.vmeMotherTag →
      edge.2.tag = s.childMode7Tag → entries beyond edge.2 = [] := by
  unfold documentHits
  rw [List.flatMap_eq_nil_iff]
  simp only [List.mem_filter, beq_iff_eq, bankHits_eq_nil_iff, and_imp]

end Published

/-- **The pulses are published if and only if there are none**: no mode 7 bank of a VME mother bank has an entry. -/
theorem getObjectsMode7_iff (hlist : ∀ tree, getNodeList tree = tree.nodes) (beyond : Mem UInt8) {s : Mode7Source}
    {tree : EvioTree} (h : s.WellFormed tree) {event : JEvent EvioTree} (href : event.ref = some tree) :
    s.getObjectsMode7 getNodeList heap event = some (s.documentHits beyond tree) ↔
      ∀ edge ∈ tree.edges, edge.1.tag = s.vmeMotherTag → edge.2.tag = s.childMode7Tag →
        entries beyond edge.2 = [] := by
  rw [getObjectsMode7_eq getNodeList heap hlist h href, Option.some.injEq, eq_comm, documentHits_eq_nil_iff]

/-- An event with a mother bank with one mode 7 bank. -/
def pulseEvent (words : List UInt32) : EvioTree := .container 129 [.container 0x50 [.leaf 0xe102 words]]

theorem wellFormed_pulseEvent (words : List UInt32) : ({} : Mode7Source).WellFormed (pulseEvent words) := by
  have hmother : ∀ m ∈ (pulseEvent words).nodes, m.tag = 0x50 → m = .container 0x50 [.leaf 0xe102 words] := by
    intro m hm htag
    simp only [pulseEvent, Dom.nodes_container, Dom.nodes_leaf, List.flatMap_cons, List.flatMap_nil, List.append_nil,
      List.mem_cons, List.not_mem_nil, or_false] at hm
    rcases hm with rfl | rfl | rfl
    · exact absurd (show (129 : Nat) = 0x50 from htag) (by decide)
    · rfl
    · exact absurd (show (0xe102 : Nat) = 0x50 from htag) (by decide)
  constructor
  · intro m hm htag
    rw [hmother m hm htag]
    exact ⟨_, rfl⟩
  · intro m hm htag branch hbranch _
    rw [hmother m hm htag] at hbranch
    exact ⟨words, by rw [List.mem_singleton.mp hbranch]; rfl⟩

/-- Slot 3, trigger 7, time 9, one channel; channel 5 with one pulse, the fields of which are 1, 2, 3 and 4. -/
def onePulse : List UInt32 := [0x703, 0x900, 0, 0x100, 0x10500, 0x10000, 2, 0x40003]

theorem getObjectsMode7_iff_onePulse :
    ({} : Mode7Source).getObjectsMode7 Dom.nodes (fun _ _ => 0) { ref := some (pulseEvent onePulse) } =
        some (({} : Mode7Source).documentHits (fun _ => 0) (pulseEvent onePulse)) ↔
      ∀ edge ∈ (pulseEvent onePulse).edges, edge.1.tag = 0x50 → edge.2.tag = 0xe102 →
        entries (fun _ => 0) edge.2 = [] :=
  getObjectsMode7_iff Dom.nodes _ (fun _ => rfl) _ (wellFormed_pulseEvent onePulse) rfl

/-- The whole bank is one block. -/
theorem entries_onePulse : (entries (fun _ => 0) (.leaf 0xe102 onePulse)).map CompositeADCPulse.slot = [3] := by
  have hend : (PulseDecoder.readPulseBlock (Mem.load (wordBytes onePulse) (fun _ => 0)) 8 ⟨0, []⟩).offset = 32 := by
    decide +kernel
  show ((PulseDecoder.decodePulseLoop (Mem.load (wordBytes onePulse) (fun _ => 0)) 8 ⟨0, []⟩).adcSamplesPulse).map _ = _
  rw [PulseDecoder.decodePulseLoop, if_pos (by decide), PulseDecoder.decodePulseLoop, if_neg (by rw [hend]; decide)]
  decide +kernel

/-- One pulse is in the bank, and no hit is published. -/
theorem onePulse_not_published :
    ({} : Mode7Source).WellFormed (pulseEvent onePulse) ∧
      ({} : Mode7Source).getObjectsMode7 Dom.nodes (fun _ _ => 0) { ref := some (pulseEvent onePulse) } ≠
        some (({} : Mode7Source).documentHits (fun _ => 0) (pulseEvent onePulse)) := by
  refine ⟨wellFormed_pulseEvent onePulse, ?_⟩
  rw [getObjectsMode7_eq Dom.nodes _ (fun _ => rfl) (wellFormed_pulseEvent onePulse) rfl, Ne, Option.some.injEq, eq_comm,
    documentHits_eq_nil_iff]
  intro h
  have hnone := h (.container 0x50 [.leaf 0xe102 onePulse], .leaf 0xe102 onePulse) (by simp [pulseEvent]) rfl rfl
  have hone := entries_onePulse
  rw [hnone] at hone
  cases hone

end Mode7Source

end BdxReco
