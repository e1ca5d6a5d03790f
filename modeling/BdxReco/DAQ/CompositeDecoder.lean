import BdxReco.DAQ.Event
import BdxReco.Lib.LittleEndian

/-!
# `DAQ.CompositeDecoder` — decoding the raw waveforms

`EvioCompositeDecoder::decode` reads a bank of raw waveforms: blocks of a slot, each with the waveforms of some of its
channels. The fields are not aligned and nothing separates the blocks, so the bytes are copied and read one field after
the other, until the end of the bank is reached. Blocks that make no sense are skipped.

A bank is filled up with zeros to a whole number of words. The loop runs once more over these, and reads beyond the
copy: what lies there is an argument, `beyond`. Offsets are `int`s; they are at most 17 bytes beyond a bank that is
decoded to its end (`decodeLoop_blocks`), and a bank fits into the buffer of the channel, so they are numbers here.
-/

namespace BdxReco

open LittleEndian

/-- `CompositeADCRaw_t`. -/
structure CompositeADCRaw where
  slot : Int
  time : UInt64
  trigger : Int
  channel : Int
  samples : List Int16
  deriving DecidableEq, Repr

/-- The member of the decoder that `decode` sets. -/
structure EvioCompositeDecoder where
  adcSamples : List CompositeADCRaw := []
  deriving DecidableEq, Repr

namespace EvioCompositeDecoder

def getInt8 (data : Mem UInt8) (offset : Nat) : UInt8 := data offset

def getInt16 (data : Mem UInt8) (offset : Nat) : UInt16 := UInt16.ofNat (read data offset 2)

def getInt32 (data : Mem UInt8) (offset : Nat) : UInt32 := UInt32.ofNat (read data offset 4)

/-- `getInt64`, stored in an `unsigned long long`. -/
def getInt64 (data : Mem UInt8) (offset : Nat) : UInt64 := UInt64.ofNat (read data offset 8)

/-- `bankTime` of `bankTimeTMP`. -/
def exchangeHalves (bankTimeTMP : UInt64) : UInt64 :=
  ((bankTimeTMP &&& 0xffffff000000) >>> 24) ||| ((bankTimeTMP &&& 0x000000ffffff) <<< 24)

/-- The variables of `decode` that its loops change. -/
structure Cursor where
  offset : Nat
  adcSamples : List CompositeADCRaw
  deriving DecidableEq, Repr

/-- The variables that a block sets. -/
structure Bank where
  bankSlot : UInt8
  bankTrigger : Int
  bankTime : UInt64
  bankNChannels : Int
  deriving DecidableEq, Repr

/-- The loop over the samples. -/
def readSamples (data : Mem UInt8) (offset : Nat) : Nat → List Int16
  | 0 => []
  | samples + 1 => (getInt16 data offset).toInt16 :: readSamples data (offset + 2) samples

/-- The loop over the channels, with the number of turns that are left. -/
def readChannels (data : Mem UInt8) (dataSize : Nat) (bank : Bank) : Nat → Cursor → Cursor
  | 0, c => c
  | nchannels + 1, c =>
    let chan := getInt8 data c.offset
    let samples := getInt32 data (c.offset + 1)
    let offset := c.offset + 1 + 4
    -- `break`: the rest of the block is then read as new blocks
    if offset + samples.toNat * 2 > dataSize * 4 then { c with offset }
    else
      let adc : CompositeADCRaw :=
        { slot := bank.bankSlot.toNat, trigger := bank.bankTrigger, time := bank.bankTime, channel := chan.toNat
          samples := readSamples data offset samples.toNat }
      readChannels data dataSize bank nchannels
        { offset := offset + samples.toNat * 2, adcSamples := c.adcSamples ++ [adc] }

def readBank (data : Mem UInt8) (offset : Nat) : Bank where
  bankSlot := getInt8 data offset
  bankTrigger := (getInt32 data (offset + 1)).toInt32.toInt
  bankTime := exchangeHalves (getInt64 data (offset + 1 + 4))
  bankNChannels := (getInt32 data (offset + 1 + 4 + 8)).toInt32.toInt

/-- One turn of the loop over the blocks. -/
def readBlock (data : Mem UInt8) (dataSize : Nat) (c : Cursor) : Cursor :=
  let bank := readBank data c.offset
  let c := { c with offset := c.offset + 1 + 4 + 8 + 4 }
  -- the work-arounds: skip the fields that were read, go on behind them
  if bank.bankNChannels ≤ 0 then c
  else if bank.bankNChannels > 16 then c
  else if bank.bankSlot.toNat = 0 ∨ bank.bankSlot.toNat > 21 then c
  else readChannels data dataSize bank bank.bankNChannels.toNat c

theorem le_readChannels (data : Mem UInt8) (dataSize : Nat) (bank : Bank) (nchannels : Nat) (c : Cursor) :
    c.offset ≤ (readChannels data dataSize bank nchannels c).offset := by
  induction nchannels generalizing c with
  | zero => exact Nat.le_refl _
  | succ nchannels ih =>
      unfold readChannels
      simp only
      split
      · simp only
        omega
      · refine Nat.le_trans ?_ (ih _)
        simp only
        omega

theorem lt_readBlock (data : Mem UInt8) (dataSize : Nat) (c : Cursor) :
    c.offset < (readBlock data dataSize c).offset := by
  unfold readBlock
  simp only
  split
  · simp only
    omega
  · split
    · simp only
      omega
    · split
      · simp only
        omega
      · refine Nat.lt_of_lt_of_le ?_ (le_readChannels _ _ _ _ _)
        simp only
        omega

/-- The loop over the blocks. -/
def decodeLoop (data : Mem UInt8) (dataSize : Nat) (c : Cursor) : Cursor :=
  if c.offset < dataSize * 4 then decodeLoop data dataSize (readBlock data dataSize c) else c
termination_by dataSize * 4 - c.offset
decreasing_by
  have hlt := lt_readBlock data dataSize c
  omega

/-- `decode(vec, dataSize)`. -/
def decode (d : EvioCompositeDecoder) (beyond : Mem UInt8) (vec : List UInt32) (dataSize : Nat) :
    EvioCompositeDecoder :=
  let data := Mem.load (wordBytes vec) beyond
  -- adcSamples.clear()
  let d := { d with adcSamples := [] }
  { d with adcSamples := (decodeLoop data dataSize { offset := 0, adcSamples := d.adcSamples }).adcSamples }

def getData (d : EvioCompositeDecoder) : List CompositeADCRaw := d.adcSamples

end EvioCompositeDecoder

/-! ## The format -/

/-- The waveform of a channel: its samples fit into a `short`, and their number into 32 bits. -/
structure ChannelEntry where
  channel : UInt8
  samples : List UInt16
  samples_lt : ∀ x ∈ samples, x.toNat < 2 ^ 15
  count_lt : samples.length < 2 ^ 32

/-- A block of waveforms. -/
structure SlotBlock where
  slot : UInt8
  trigger : UInt32
  time : UInt64
  entries : List ChannelEntry
  slot_mem : 1 ≤ slot.toNat ∧ slot.toNat ≤ 21
  count_mem : 1 ≤ entries.length ∧ entries.length ≤ 16

def ChannelEntry.encode (e : ChannelEntry) : List UInt8 :=
  e.channel :: bytes 4 e.samples.length ++ e.samples.flatMap (fun x => bytes 2 x.toNat)

def SlotBlock.encode (b : SlotBlock) : List UInt8 :=
  b.slot :: bytes 4 b.trigger.toNat ++ bytes 8 b.time.toNat ++ bytes 4 b.entries.length ++
    b.entries.flatMap ChannelEntry.encode

/-- A bank of blocks, filled up with zeros to whole words. -/
def encodeBank (blocks : List SlotBlock) : List UInt32 := wordsOf (blocks.flatMap SlotBlock.encode)

/-- What the decoder makes of a waveform. -/
def SlotBlock.raw (b : SlotBlock) (e : ChannelEntry) : CompositeADCRaw where
  slot := b.slot.toNat
  trigger := b.trigger.toInt32.toInt
  time := EvioCompositeDecoder.exchangeHalves b.time
  channel := e.channel.toNat
  samples := e.samples.map UInt16.toInt16

/-- The fields that the decoder finds in front of the waveforms. -/
def SlotBlock.bank (b : SlotBlock) : EvioCompositeDecoder.Bank where
  bankSlot := b.slot
  bankTrigger := b.trigger.toInt32.toInt
  bankTime := EvioCompositeDecoder.exchangeHalves b.time
  bankNChannels := b.entries.length

namespace EvioCompositeDecoder

/-! ## Decoding an encoded bank -/

theorem getInt16_of_holds {data : Mem UInt8} {offset : Nat} {x : UInt16} (h : data.Holds offset (bytes 2 x.toNat)) :
    getInt16 data offset = x := by
  rw [getInt16, read_of_holds h x.toNat_lt, UInt16.ofNat_toNat]

theorem getInt32_of_holds {data : Mem UInt8} {offset n : Nat} (h : data.Holds offset (bytes 4 n)) (hn : n < 2 ^ 32) :
    (getInt32 data offset).toNat = n := by
  rw [getInt32, read_of_holds h hn, UInt32.toNat_ofNat', Nat.mod_eq_of_lt hn]

theorem getInt64_of_holds {data : Mem UInt8} {offset : Nat} {x : UInt64} (h : data.Holds offset (bytes 8 x.toNat)) :
    getInt64 data offset = x := by
  rw [getInt64, read_of_holds h x.toNat_lt, UInt64.ofNat_toNat]

theorem readSamples_of_holds {data : Mem UInt8} {offset : Nat} {samples : List UInt16}
    (h : data.Holds offset (samples.flatMap (fun x => bytes 2 x.toNat))) :
    readSamples data offset samples.length = samples.map UInt16.toInt16 := by
  induction samples generalizing offset with
  | nil => rfl
  | cons x samples ih =>
      rw [List.flatMap_cons, Mem.holds_append, length_bytes] at h
      rw [List.length_cons, readSamples, getInt16_of_holds h.1, ih h.2, List.map_cons]

theorem length_samples (samples : List UInt16) :
    (samples.flatMap (fun x => bytes 2 x.toNat)).length = samples.length * 2 := by
  induction samples with
  | nil => rfl
  | cons x samples ih =>
      rw [List.flatMap_cons, List.length_append, length_bytes, ih, List.length_cons]
      omega

theorem length_encode_entry (e : ChannelEntry) : e.encode.length = 1 + 4 + e.samples.length * 2 := by
  rw [ChannelEntry.encode, List.length_append, List.length_cons, length_bytes, length_samples, Nat.add_comm 4 1]

/-- **The waveforms of a block are read back**, in their order. -/
theorem readChannels_of_holds {data : Mem UInt8} {dataSize : Nat} (b : SlotBlock) (entries : List ChannelEntry)
    (c : Cursor) (h : data.Holds c.offset (entries.flatMap ChannelEntry.encode))
    (hsize : c.offset + (entries.flatMap ChannelEntry.encode).length ≤ dataSize * 4) :
    readChannels data dataSize b.bank entries.length c =
      { offset := c.offset + (entries.flatMap ChannelEntry.encode).length
        adcSamples := c.adcSamples ++ entries.map b.raw } := by
  induction entries generalizing c with
  | nil => simp [readChannels]
  | cons e entries ih =>
      rw [List.flatMap_cons, List.length_append, length_encode_entry] at hsize ⊢
      rw [List.flatMap_cons, Mem.holds_append, length_encode_entry, ChannelEntry.encode, Mem.holds_append,
        Mem.holds_cons, List.length_cons, length_bytes] at h
      obtain ⟨⟨⟨hchan, hcount⟩, hsamples⟩, hrest⟩ := h
      have hn : (getInt32 data (c.offset + 1)).toNat = e.samples.length := getInt32_of_holds hcount e.count_lt
      have hread : readSamples data (c.offset + 1 + 4) e.samples.length = e.samples.map UInt16.toInt16 :=
        readSamples_of_holds hsamples
      have hraw : ({ slot := b.bank.bankSlot.toNat, trigger := b.bank.bankTrigger, time := b.bank.bankTime
                     channel := (getInt8 data c.offset).toNat
                     samples := e.samples.map UInt16.toInt16 } : CompositeADCRaw) = b.raw e := by
        rw [getInt8, hchan]
        rfl
      rw [List.length_cons, readChannels]
      simp only [hn, hread, hraw]
      rw [if_neg (by omega), ih]
      · simp only [Cursor.mk.injEq, List.map_cons, List.append_assoc, List.cons_append, List.nil_append, and_true]
        omega
      · rwa [show c.offset + 1 + 4 + e.samples.length * 2 = c.offset + (1 + 4 + e.samples.length * 2) by omega]
      · simp only
        omega

theorem toInt_of_small {x : UInt32} (h : x.toNat ≤ 16) : x.toInt32.toInt = x.toNat :=
  BitVec.toInt_eq_toNat_of_lt (by show 2 * x.toNat < 2 ^ 32; omega)

theorem length_encode_block (b : SlotBlock) :
    b.encode.length = 1 + 4 + 8 + 4 + (b.entries.flatMap ChannelEntry.encode).length := by
  simp only [SlotBlock.encode, List.length_append, List.length_cons, length_bytes]

/-- The fields in front of the waveforms. -/
theorem readBank_of_holds {data : Mem UInt8} {offset : Nat} {b : SlotBlock} (h : data.Holds offset b.encode) :
    readBank data offset = b.bank ∧
      data.Holds (offset + 1 + 4 + 8 + 4) (b.entries.flatMap ChannelEntry.encode) := by
  simp only [SlotBlock.encode, Mem.holds_append, Mem.holds_cons, List.length_append, List.length_cons,
    length_bytes] at h
  obtain ⟨⟨⟨⟨hslot, htrigger⟩, htime⟩, hcount⟩, hentries⟩ := h
  have hn : (getInt32 data (offset + 1 + 4 + 8)).toNat = b.entries.length := by
    refine getInt32_of_holds ?_ (by have hle := b.count_mem.2; omega)
    rwa [show offset + 1 + 4 + 8 = offset + (4 + 1 + 8) by omega]
  have htrigger' : getInt32 data (offset + 1) = b.trigger :=
    UInt32.toNat_inj.mp (getInt32_of_holds htrigger b.trigger.toNat_lt)
  have htime' : getInt64 data (offset + 1 + 4) = b.time := by
    refine getInt64_of_holds ?_
    rwa [show offset + 1 + 4 = offset + (4 + 1) by omega]
  constructor
  · simp only [readBank, SlotBlock.bank, getInt8, hslot, htrigger', htime', Bank.mk.injEq, true_and]
    rw [toInt_of_small (by rw [hn]; exact b.count_mem.2), hn]
  · rwa [show offset + 1 + 4 + 8 + 4 = offset + (4 + 1 + 8 + 4) by omega]

/-- **A block is read back.** -/
theorem readBlock_of_holds {data : Mem UInt8} {dataSize : Nat} {b : SlotBlock} {c : Cursor}
    (h : data.Holds c.offset b.encode) (hsize : c.offset + b.encode.length ≤ dataSize * 4) :
    readBlock data dataSize c =
      { offset := c.offset + b.encode.length, adcSamples := c.adcSamples ++ b.entries.map b.raw } := by
  obtain ⟨hbank, hentries⟩ := readBank_of_holds h
  obtain ⟨hn1, hn16⟩ := b.count_mem
  obtain ⟨hs1, hs21⟩ := b.slot_mem
  rw [length_encode_block] at hsize ⊢
  have hchannels : readChannels data dataSize b.bank b.entries.length { c with offset := c.offset + 1 + 4 + 8 + 4 } = _ :=
    readChannels_of_holds b b.entries _ hentries (by simp only; omega)
  have hslot : ¬ (b.bank.bankSlot.toNat = 0 ∨ b.bank.bankSlot.toNat > 21) := by
    simp only [SlotBlock.bank]
    omega
  have hcount : b.bank.bankNChannels = b.entries.length := rfl
  unfold readBlock
  simp only [hbank]
  rw [if_neg (by omega), if_neg (by omega), if_neg hslot, hcount, Int.toNat_natCast, hchannels]
  simp only [Cursor.mk.injEq, and_true]
  omega

/-- The turn over the zeros at the end of a bank skips them, whatever lies beyond. -/
theorem readBlock_of_zero {data : Mem UInt8} {dataSize : Nat} {c : Cursor} (h : data c.offset = 0) :
    readBlock data dataSize c = { c with offset := c.offset + 1 + 4 + 8 + 4 } := by
  have hslot : (readBank data c.offset).bankSlot = 0 := h
  unfold readBlock
  simp only
  split
  · rfl
  · split
    · rfl
    · rw [if_pos]
      rw [hslot]
      exact Or.inl rfl

/-- **The loop decodes the blocks, in their order, and nothing else.** It ends at most 17 bytes beyond the bank. -/
theorem decodeLoop_blocks {data : Mem UInt8} {dataSize pad : Nat} (hpad : pad ≤ 3) (blocks : List SlotBlock) (c : Cursor)
    (h : data.Holds c.offset (blocks.flatMap SlotBlock.encode ++ List.replicate pad 0))
    (hsize : c.offset + (blocks.flatMap SlotBlock.encode).length + pad = dataSize * 4) :
    (decodeLoop data dataSize c).adcSamples = c.adcSamples ++ blocks.flatMap (fun b => b.entries.map b.raw) ∧
      (decodeLoop data dataSize c).offset ≤ dataSize * 4 + 17 := by
  induction blocks generalizing c with
  | nil =>
      simp only [List.flatMap_nil, List.nil_append, List.length_nil, Nat.add_zero, List.append_nil] at h hsize ⊢
      -- only the zeros are left: one more turn, unless there are none
      by_cases hzero : pad = 0
      · rw [decodeLoop, if_neg (by omega)]
        exact ⟨rfl, by omega⟩
      · have hfirst : data c.offset = 0 := by
          refine h 0 0 ?_
          rw [List.getElem?_replicate, if_pos (by omega)]
        rw [decodeLoop, if_pos (by omega), readBlock_of_zero hfirst, decodeLoop, if_neg (by simp only; omega)]
        exact ⟨rfl, by simp only; omega⟩
  | cons b blocks ih =>
      rw [List.flatMap_cons, List.append_assoc, Mem.holds_append] at h
      rw [List.flatMap_cons, List.length_append] at hsize
      -- the block fits into the bank, so the loop takes a turn and reads it
      have hpos : 0 < b.encode.length := by rw [length_encode_block]; omega
      rw [decodeLoop, if_pos (by omega), readBlock_of_holds h.1 (by omega)]
      have hrest := ih { offset := c.offset + b.encode.length, adcSamples := c.adcSamples ++ b.entries.map b.raw }
        h.2 (by simp only; omega)
      rw [List.flatMap_cons, ← List.append_assoc]
      exact hrest

/-- **Decoding undoes encoding**, whatever the decoder has decoded before and whatever lies beyond the bank. -/
theorem decode_encodeBank (d : EvioCompositeDecoder) (beyond : Mem UInt8) (blocks : List SlotBlock) :
    (d.decode beyond (encodeBank blocks) (encodeBank blocks).length).getData =
      blocks.flatMap (fun b => b.entries.map b.raw) := by
  obtain ⟨pad, hpad, hbytes⟩ := wordBytes_wordsOf (blocks.flatMap SlotBlock.encode)
  have hholds := Mem.load_holds (wordBytes (encodeBank blocks)) beyond
  have hlength := length_wordBytes (encodeBank blocks)
  rw [encodeBank, hbytes] at hlength
  rw [List.length_append, List.length_replicate] at hlength
  unfold encodeBank at hholds ⊢
  rw [getData, decode]
  refine (decodeLoop_blocks hpad blocks { offset := 0, adcSamples := [] } ?_ ?_).1
  · rw [← hbytes]
    exact hholds
  · simp only
    omega

/-- The time stamp: the low 48 bits with their halves exchanged. -/
theorem exchangeHalves_toNat (t : UInt64) :
    (exchangeHalves t).toNat = t.toNat / 2 ^ 24 % 2 ^ 24 + t.toNat % 2 ^ 24 * 2 ^ 24 := by
  have hhigh : ((t &&& 0xffffff000000) >>> 24).toNat = t.toNat / 2 ^ 24 % 2 ^ 24 := by
    rw [UInt64.toNat_shiftRight, UInt64.toNat_and]
    show (t.toNat &&& 0xffffff000000) >>> 24 = _
    rw [Nat.shiftRight_and_distrib, Nat.shiftRight_eq_div_pow]
    exact Nat.and_two_pow_sub_one_eq_mod _ 24
  have hlow : ((t &&& 0x000000ffffff) <<< 24).toNat = t.toNat % 2 ^ 24 * 2 ^ 24 := by
    rw [UInt64.toNat_shiftLeft, UInt64.toNat_and]
    show (t.toNat &&& (2 ^ 24 - 1)) <<< 24 % 2 ^ 64 = _
    rw [Nat.and_two_pow_sub_one_eq_mod, Nat.shiftLeft_eq]
    exact Nat.mod_eq_of_lt (by omega)
  rw [exchangeHalves, UInt64.toNat_or, hhigh, hlow, Nat.or_comm, ← Nat.shiftLeft_eq,
    ← Nat.shiftLeft_add_eq_or_of_lt (by omega), Nat.shiftLeft_eq, Nat.add_comm]

end EvioCompositeDecoder

end BdxReco
