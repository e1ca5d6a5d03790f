import BdxReco.DAQ.CompositeDecoder
import BdxReco.DAQ.FileSource
import Mathlib.Data.Rat.Cast.Defs

/-!
# `DAQ.Mode1Hits` — the hits of the raw waveforms

`JEventSourceEvioDAQ::GetObjects` for the factory of the `fa250Mode1Hit`s. It looks for VME mother banks among all banks
of the event and decodes the mode 1 banks among their children, with one decoder for all of them. `heap k` is what lies
beyond the copy that the `k`-th call of the decoder makes.

Mother banks are read one after the other, each with its own children only: a mother bank inside another one comes after
all the banks of the outer one (`nested_notDocumentOrder`).
-/

namespace BdxReco

/-- The hit of a decoded waveform. -/
def Fa250Mode1Hit.ofRaw (decdata : CompositeADCRaw) : Fa250Mode1Hit where
  channel := ⟨0, UInt8.ofInt decdata.slot, UInt8.ofInt decdata.channel⟩
  trigger := decdata.trigger
  timestamp := decdata.time.toNat
  samples := decdata.samples.map (fun sample => (sample.toInt : ℚ))

namespace EvioFileSource

/-- The decoder, the number of its calls, and the hits so far. -/
structure Mode1Scan where
  decoder : EvioCompositeDecoder := {}
  calls : Nat := 0
  data : List Fa250Mode1Hit := []

variable (getNodeList : EvioTree → List EvioTree) (heap : Nat → Mem UInt8)

/-- The body of the loop over the banks of a mother bank. -/
def readMode1Bank (s : EvioFileSource) (r : Mode1Scan) (branch : EvioTree) : Option Mode1Scan :=
  if branch.tag = s.childMode1Tag then do
    let pData ← branch.data?
    let leafSize := pData.length
    let decoder := r.decoder.decode (heap r.calls) pData leafSize
    let r := { r with decoder, calls := r.calls + 1 }
    if decoder.getData.length > 0 then
      some { r with data := r.data ++ decoder.getData.map Fa250Mode1Hit.ofRaw }
    else some r
  else some r

/-- The body of the loop over all banks. -/
def readVmeMother (s : EvioFileSource) (r : Mode1Scan) (node : EvioTree) : Option Mode1Scan :=
  if node.tag = s.vmeMotherTag then do
    let leafList ← node.children?
    leafList.foldlM (s.readMode1Bank heap) r
  else some r

/-- `GetObjects(event, factory)` for the factory of the `fa250Mode1Hit`s: what it is given. -/
def getObjectsMode1 (s : EvioFileSource) (event : JEvent EvioTree) : Option (List Fa250Mode1Hit) := do
  let edt ← event.ref
  let r ← (getNodeList edt).foldlM (s.readVmeMother heap) {}
  some r.data

/-! ## Encoded events -/

/-- The hit of an encoded waveform: samples are below `2 ^ 15`, so they are what they are as `short`s. -/
def encodedHit (b : SlotBlock) (e : ChannelEntry) : Fa250Mode1Hit where
  channel := ⟨0, b.slot, e.channel⟩
  trigger := b.trigger.toInt32.toInt
  timestamp := b.time.toNat / 2 ^ 24 % 2 ^ 24 + b.time.toNat % 2 ^ 24 * 2 ^ 24
  samples := e.samples.map (fun x => (x.toNat : ℚ))

/-- The hits of a list of blocks, one for each waveform. -/
def encodedHits (blocks : List SlotBlock) : List Fa250Mode1Hit :=
  blocks.flatMap (fun b => b.entries.map (encodedHit b))

/-- VME mother banks are containers, and the mode 1 banks in them encode the blocks that `blocks` gives. -/
structure Mode1Encoded (s : EvioFileSource) (blocks : EvioTree → List SlotBlock) (tree : EvioTree) : Prop where
  mothers : ∀ m ∈ tree.nodes, m.tag = s.vmeMotherTag → ∃ leafList, m.children? = some leafList
  encoded : ∀ m ∈ tree.nodes, m.tag = s.vmeMotherTag → ∀ branch ∈ m.children, branch.tag = s.childMode1Tag →
    branch.data? = some (encodeBank (blocks branch))

/-- The hits of a bank, where it is a mode 1 bank. -/
def bankHits (s : EvioFileSource) (blocks : EvioTree → List SlotBlock) (branch : EvioTree) : List Fa250Mode1Hit :=
  if branch.tag = s.childMode1Tag then encodedHits (blocks branch) else []

/-- The hits of an event in the order of the document: those of all banks with a VME mother bank as their parent. -/
def documentHits (s : EvioFileSource) (blocks : EvioTree → List SlotBlock) (tree : EvioTree) : List Fa250Mode1Hit :=
  (tree.edges.filter (fun edge => edge.1.tag == s.vmeMotherTag)).flatMap (fun edge => s.bankHits blocks edge.2)

/-- The hits of an event mother bank by mother bank. -/
def motherHits (s : EvioFileSource) (blocks : EvioTree → List SlotBlock) (tree : EvioTree) : List Fa250Mode1Hit :=
  tree.nodes.flatMap (fun m => if m.tag = s.vmeMotherTag then m.children.flatMap (s.bankHits blocks) else [])

theorem ofInt_toNat (x : UInt8) : UInt8.ofInt (x.toNat : Int) = x := by
  have hlt := x.toNat_lt
  rw [← UInt8.toNat_inj]
  show (UInt8.ofNat ((x.toNat : Int) % 2 ^ 8).toNat).toNat = x.toNat
  rw [UInt8.toNat_ofNat']
  omega

theorem toInt16_of_lt {x : UInt16} (h : x.toNat < 2 ^ 15) : x.toInt16.toInt = x.toNat :=
  BitVec.toInt_eq_toNat_of_lt (by show 2 * x.toNat < 2 ^ 16; omega)

/-- **The hit has what was encoded.** -/
theorem ofRaw_raw (b : SlotBlock) (e : ChannelEntry) : Fa250Mode1Hit.ofRaw (b.raw e) = encodedHit b e := by
  have hsamples : (e.samples.map UInt16.toInt16).map (fun sample => (sample.toInt : ℚ)) =
      e.samples.map (fun x => (x.toNat : ℚ)) := by
    rw [List.map_map]
    refine List.map_congr_left (fun x hx => ?_)
    show ((x.toInt16.toInt : Int) : ℚ) = _
    rw [toInt16_of_lt (e.samples_lt x hx), Int.cast_natCast]
  simp only [Fa250Mode1Hit.ofRaw, SlotBlock.raw, encodedHit, ofInt_toNat, hsamples,
    EvioCompositeDecoder.exchangeHalves_toNat]

/-- One bank: the hits of a mode 1 bank are added, whatever the decoder holds. -/
theorem readMode1Bank_encoded {s : EvioFileSource} {blocks : EvioTree → List SlotBlock} {branch : EvioTree}
    (h : branch.tag = s.childMode1Tag → branch.data? = some (encodeBank (blocks branch))) (r : Mode1Scan) :
    ∃ r', s.readMode1Bank heap r branch = some r' ∧ r'.data = r.data ++ s.bankHits blocks branch := by
  unfold readMode1Bank bankHits
  by_cases htag : branch.tag = s.childMode1Tag
  · have hdecode := EvioCompositeDecoder.decode_encodeBank r.decoder (heap r.calls) (blocks branch)
    have hhits : (EvioCompositeDecoder.getData (r.decoder.decode (heap r.calls) (encodeBank (blocks branch))
        (encodeBank (blocks branch)).length)).map Fa250Mode1Hit.ofRaw = encodedHits (blocks branch) := by
      rw [hdecode, List.map_flatMap]
      refine List.flatMap_congr (fun b _ => ?_)
      rw [List.map_map]
      exact List.map_congr_left (fun e _ => ofRaw_raw b e)
    rw [if_pos htag, if_pos htag, h htag]
    simp only [Option.bind_eq_bind, Option.bind_some]
    split
    · exact ⟨_, rfl, by rw [hhits]⟩
    · rename_i hempty
      -- nothing was decoded, so there are no hits to add either
      rw [gt_iff_lt, List.length_pos_iff, not_not] at hempty
      refine ⟨_, rfl, ?_⟩
      rw [← hhits, hempty]
      simp
  · rw [if_neg htag, if_neg htag]
    exact ⟨r, rfl, by simp⟩

/-- One bank of the list: a mother bank adds the hits of its children. -/
theorem readVmeMother_encoded {s : EvioFileSource} {blocks : EvioTree → List SlotBlock} {tree : EvioTree}
    (h : s.Mode1Encoded blocks tree) {node : EvioTree} (hnode : node ∈ tree.nodes) (r : Mode1Scan) :
    ∃ r', s.readVmeMother heap r node = some r' ∧ r'.data = r.data ++
      if node.tag = s.vmeMotherTag then node.children.flatMap (s.bankHits blocks) else [] := by
  by_cases htag : node.tag = s.vmeMotherTag
  · obtain ⟨leafList, hchildren⟩ := h.mothers node hnode htag
    have hleaves : node.children = leafList := by rw [Dom.children, hchildren]; rfl
    have hencoded := h.encoded node hnode htag
    rw [hleaves] at hencoded
    obtain ⟨r', hrun, hdata⟩ := Run.foldlM_collects Mode1Scan.data (s.bankHits blocks)
      (fun r branch hbranch => readMode1Bank_encoded heap (hencoded branch hbranch) r) r
    refine ⟨r', ?_, ?_⟩
    · unfold readVmeMother
      rw [if_pos htag, hchildren]
      exact hrun
    · rw [if_pos htag, hleaves]
      exact hdata
  · refine ⟨r, if_neg htag, ?_⟩
    rw [if_neg htag, List.append_nil]

/-- **The published hits** are those of the mother banks, one after the other. -/
theorem getObjectsMode1_eq (hlist : ∀ tree, getNodeList tree = tree.nodes) {s : EvioFileSource}
    {blocks : EvioTree → List SlotBlock} {tree : EvioTree} (h : s.Mode1Encoded blocks tree) {event : JEvent EvioTree}
    (href : event.ref = some tree) :
    s.getObjectsMode1 getNodeList heap event = some (s.motherHits blocks tree) := by
  obtain ⟨r', hrun, hdata⟩ := Run.foldlM_collects Mode1Scan.data _
    (fun r node hnode => readVmeMother_encoded heap h hnode r) {}
  unfold getObjectsMode1
  rw [href]
  simp only [Option.bind_eq_bind, Option.bind_some, hlist, hrun, Option.some.injEq]
  exact hdata

theorem motherHits_eq_scanned (s : EvioFileSource) (blocks : EvioTree → List SlotBlock) (tree : EvioTree) :
    s.motherHits blocks tree = (tree.scanned.filter (fun edge => edge.1.tag == s.vmeMotherTag)).flatMap
      (fun edge => s.bankHits blocks edge.2) := by
  rw [Dom.scanned_flatMap (fun m => m.tag == s.vmeMotherTag)]
  simp only [motherHits, beq_iff_eq]

/-- **The raw waveforms are decoded completely.** For every event, one hit for each encoded waveform of the mode 1 banks
    is published, mother bank by mother bank, and nothing else; in the order of the document when no VME mother bank
    lies inside another one. -/
theorem getObjectsMode1_encoded (hlist : ∀ tree, getNodeList tree = tree.nodes) {s : EvioFileSource}
    {blocks : EvioTree → List SlotBlock} {tree : EvioTree} (h : s.Mode1Encoded blocks tree) {event : JEvent EvioTree}
    (href : event.ref = some tree) :
    s.getObjectsMode1 getNodeList heap event = some (s.motherHits blocks tree) ∧
      (s.motherHits blocks tree).Perm (s.documentHits blocks tree) ∧
      (Dom.NotNested (fun m => m.tag == s.vmeMotherTag) tree →
        s.getObjectsMode1 getNodeList heap event = some (s.documentHits blocks tree)) := by
  have hpublished := getObjectsMode1_eq getNodeList heap hlist h href
  refine ⟨hpublished, ?_, ?_⟩
  · rw [motherHits_eq_scanned]
    exact (tree.scanned_perm.filter _).flatMap_right _
  · intro hnested
    rw [hpublished, motherHits_eq_scanned, Dom.scanned_filter hnested, documentHits]

/-- A block with one waveform, of two samples. -/
def oneWaveform (slot : UInt8) (h : 1 ≤ slot.toNat ∧ slot.toNat ≤ 21) : SlotBlock where
  slot := slot
  trigger := 7
  time := 0x123456789abc
  entries := [{ channel := 5, samples := [100, 101], samples_lt := by simp, count_lt := by simp }]
  slot_mem := h
  count_mem := by decide

def slotThree : SlotBlock := oneWaveform 3 (by decide)

def slotFour : SlotBlock := oneWaveform 4 (by decide)

/-- A mode 1 bank with the block `b`. -/
def mode1Bank (b : SlotBlock) : EvioTree := .leaf 0xe101 (encodeBank [b])

/-- The blocks of the banks with the slots 3 and 4. -/
def blocksOf (branch : EvioTree) : List SlotBlock :=
  if branch.data? = some (encodeBank [slotThree]) then [slotThree] else [slotFour]

/-- An event with one mother bank. -/
def flatEvent : EvioTree := .container 129 [.container 0x50 [mode1Bank slotThree, mode1Bank slotFour]]

/-- An event with a mother bank inside another one. -/
def nestedEvent : EvioTree :=
  .container 129 [.container 0x50 [.container 0x50 [mode1Bank slotThree], mode1Bank slotFour]]

/-- Both events encode the blocks of their banks. -/
theorem mode1Encoded_of_checks (tree : EvioTree)
    (hmothers : ∀ m ∈ tree.nodes, m.tag = 0x50 → m.children?.isSome = true)
    (hencoded : ∀ m ∈ tree.nodes, m.tag = 0x50 → ∀ branch ∈ m.children, branch.tag = 0xe101 →
      branch.data? = some (encodeBank (blocksOf branch))) : ({} : EvioFileSource).Mode1Encoded blocksOf tree :=
  ⟨fun m hm htag => Option.isSome_iff_exists.mp (hmothers m hm htag), hencoded⟩

theorem getObjectsMode1_flatEvent :
    ({} : EvioFileSource).getObjectsMode1 Dom.nodes (fun _ _ => 0xff) { ref := some flatEvent } =
      some (({} : EvioFileSource).documentHits blocksOf flatEvent) := by
  have hencoded := mode1Encoded_of_checks flatEvent (by decide) (by decide)
  refine (getObjectsMode1_encoded Dom.nodes _ (fun _ => rfl) hencoded rfl).2.2 ?_
  unfold Dom.NotNested
  decide

/-- The hits of the inner mother bank are published after those of the bank behind it. -/
theorem nested_notDocumentOrder :
    ({} : EvioFileSource).Mode1Encoded blocksOf nestedEvent ∧
      ({} : EvioFileSource).getObjectsMode1 Dom.nodes (fun _ _ => 0) { ref := some nestedEvent } ≠
        some (({} : EvioFileSource).documentHits blocksOf nestedEvent) := by
  have hencoded := mode1Encoded_of_checks nestedEvent (by decide) (by decide)
  refine ⟨hencoded, ?_⟩
  rw [getObjectsMode1_eq Dom.nodes _ (fun _ => rfl) hencoded rfl]
  intro h
  have hslots := congrArg (List.map (fun hit : Fa250Mode1Hit => hit.channel.slot)) (Option.some.inj h)
  revert hslots
  decide

end EvioFileSource

end BdxReco
