import BdxReco.Lib.Layout

/-!
# `TRIDAS.DataFrameHeader` — the header of a data frame

A frame of a waveboard starts with four words of 32 bits: who recorded it, when (64 bits), and what follows. The
fields are bit fields of a packed structure, the first one in the low bits, and lie next to each other also across
the border of two words.
-/

namespace BdxReco.Tridas

structure DataFrameHeader where
  -- sync and identifier
  PMTID : BitVec 4
  EFCMID : BitVec 5
  TowerID : BitVec 7
  SyncBytes : BitVec 16
  -- time
  T4ns : BitVec 16
  FrameCounter : BitVec 13
  Seconds : BitVec 17
  Days : BitVec 10
  Years : BitVec 8
  -- hit info
  NDataSamples : BitVec 7
  FifoFull : BitVec 1
  Charge : BitVec 22
  FragFlag : BitVec 1
  ZipFlag : BitVec 1
  deriving DecidableEq, Repr

namespace DataFrameHeader

open BitField

/-! ## The words -/

def idWord (h : DataFrameHeader) : BitVec 32 := h.SyncBytes ++ h.TowerID ++ h.EFCMID ++ h.PMTID

def timeWord (h : DataFrameHeader) : BitVec 64 := h.Years ++ h.Days ++ h.Seconds ++ h.FrameCounter ++ h.T4ns

def hitWord (h : DataFrameHeader) : BitVec 32 := h.ZipFlag ++ h.FragFlag ++ h.Charge ++ h.FifoFull ++ h.NDataSamples

def ofWords (w : BitVec 32 × BitVec 64 × BitVec 32) : DataFrameHeader where
  PMTID := w.1.extractLsb' 0 4
  EFCMID := w.1.extractLsb' 4 5
  TowerID := w.1.extractLsb' 9 7
  SyncBytes := w.1.extractLsb' 16 16
  T4ns := w.2.1.extractLsb' 0 16
  FrameCounter := w.2.1.extractLsb' 16 13
  Seconds := w.2.1.extractLsb' 29 17
  Days := w.2.1.extractLsb' 46 10
  Years := w.2.1.extractLsb' 56 8
  NDataSamples := w.2.2.extractLsb' 0 7
  FifoFull := w.2.2.extractLsb' 7 1
  Charge := w.2.2.extractLsb' 8 22
  FragFlag := w.2.2.extractLsb' 30 1
  ZipFlag := w.2.2.extractLsb' 31 1

theorem ofWords_words (h : DataFrameHeader) : ofWords (h.idWord, h.timeWord, h.hitWord) = h := by
  obtain ⟨PMTID, EFCMID, TowerID, SyncBytes, T4ns, FrameCounter, Seconds, Days, Years, NDataSamples, FifoFull,
    Charge, FragFlag, ZipFlag⟩ := h
  simp (disch := omega) only [ofWords, idWord, timeWord, hitWord, extractLsb'_append_low, extractLsb'_append_high,
    Nat.reduceSub, BitVec.extractLsb'_eq_self]

theorem words_ofWords (w : BitVec 32 × BitVec 64 × BitVec 32) :
    ((ofWords w).idWord, (ofWords w).timeWord, (ofWords w).hitWord) = w := by
  obtain ⟨w₁, w₂, w₃⟩ := w
  have join := @extractLsb'_append_extractLsb'
  simp only [idWord, timeWord, hitWord, ofWords, Prod.mk.injEq]
  refine ⟨?_, ?_, ?_⟩
  · rw [join w₁ 9 16 7, join w₁ 4 (16 + 7) 5, join w₁ 0 (16 + 7 + 5) 4]
    exact BitVec.extractLsb'_eq_self
  · rw [join w₂ 46 8 10, join w₂ 29 (8 + 10) 17, join w₂ 16 (8 + 10 + 17) 13, join w₂ 0 (8 + 10 + 17 + 13) 16]
    exact BitVec.extractLsb'_eq_self
  · rw [join w₃ 30 1 1, join w₃ 8 (1 + 1) 22, join w₃ 7 (1 + 1 + 22) 1, join w₃ 0 (1 + 1 + 22 + 1) 7]
    exact BitVec.extractLsb'_eq_self

/-- Any three words are a header. -/
def wordsEquiv : BitVec 32 × BitVec 64 × BitVec 32 ≃ DataFrameHeader where
  toFun := ofWords
  invFun h := (h.idWord, h.timeWord, h.hitWord)
  left_inv := words_ofWords
  right_inv := ofWords_words

/-- A header in the file: `sizeof` is 16. -/
def layout : Layout DataFrameHeader :=
  ((Layout.word 4).prod ((Layout.word 8).prod (Layout.word 4))).map wordsEquiv

theorem layout_size : layout.size = 16 := rfl

/-! ## What follows the header -/

def compressed (h : DataFrameHeader) : Bool := h.ZipFlag != 0

def subsequent (h : DataFrameHeader) : Bool := h.FragFlag != 0

def getDFHSampleSize (_ : DataFrameHeader) : Nat := 2

def getDFHNSamples (h : DataFrameHeader) : Nat := h.NDataSamples.toNat

/-- Also for compressed samples; an odd number of samples is filled up to a word. -/
def getDFHPayloadSize (h : DataFrameHeader) : Nat :=
  let pad := if h.NDataSamples.toNat % 2 = 0 then 0 else 2
  h.NDataSamples.toNat * h.getDFHSampleSize + pad

end DataFrameHeader

end BdxReco.Tridas
