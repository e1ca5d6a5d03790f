import BdxReco.DAQ.Event
import BdxReco.Lib.BitFlags
import Mathlib.Algebra.BigOperators.Fin
import Mathlib.Data.List.FinRange

/-!
# `BDXmini.TriggerData` — the trigger words of BDXmini

A trigger bank is a vector of words in two parts with a sentinel pair between them: pairs (trigger bits, time), then
blocks of four words (channel mask in two halves, time in two halves). `triggerDataBDXmini_factory::evnt` decodes it
into local arrays and copies these into the object it publishes. Reads of the vector are checked: the result is
`none` when one is out of range. The counters are `int`s that a vector cannot overflow, so they are `Nat` and `Int`.

`evnt_decodes` states what is published, for every vector of words.
-/

namespace BdxReco

open BitFlags

/-! ## The published object -/

/-- `triggerDataBDXmini`: 32 trigger bits, 64 channels. -/
structure TriggerDataBDXmini where
  rawWords : List UInt32 := []
  nTriggers : Nat := 0
  trgTimes : Fin 32 → List Int := fun _ => []
  channels : Fin 64 → Bool := fun _ => false
  channelsTRG : Fin 64 → Bool := fun _ => false

namespace TriggerDataBDXmini

def getNTriggers (d : TriggerDataBDXmini) : Nat := d.nTriggers

def setNTriggers (d : TriggerDataBDXmini) (n : Nat) : TriggerDataBDXmini := { d with nTriggers := n }

def getNtriggersSingle (d : TriggerDataBDXmini) (itrg : Int) : Nat :=
  if h : itrg < 0 ∨ itrg ≥ 32 then 0 else (d.trgTimes ⟨itrg.toNat, by omega⟩).length

def addTriggerTimeSingle (d : TriggerDataBDXmini) (itrg data : Int) : TriggerDataBDXmini :=
  if h : itrg < 0 ∨ itrg ≥ 32 then d
  else
    let k : Fin 32 := ⟨itrg.toNat, by omega⟩
    { d with trgTimes := Function.update d.trgTimes k (d.trgTimes k ++ [data]) }

/-- The index check and the write of `setChannel` and its sisters, on one of the two arrays. The check lets 64
    through, which is no element of the array: `none`. -/
def setFlag (flags : Fin 64 → Bool) (ich : Int) (b : Bool) : Option (Fin 64 → Bool) :=
  if ich < 0 ∨ ich > 64 then some flags
  else if h : ich.toNat < 64 then some (Function.update flags ⟨ich.toNat, h⟩ b)
  else none

def setChannel (d : TriggerDataBDXmini) (ich : Int) : Option TriggerDataBDXmini :=
  (setFlag d.channels ich true).map (fun channels => { d with channels })

def setChannelTRG (d : TriggerDataBDXmini) (ich : Int) : Option TriggerDataBDXmini :=
  (setFlag d.channelsTRG ich true).map (fun channelsTRG => { d with channelsTRG })

def getLongWordChannels (d : TriggerDataBDXmini) : BitVec 64 := ofFlags d.channels (List.finRange 64) 0#64

def getLongWordChannelsTRG (d : TriggerDataBDXmini) : BitVec 64 := ofFlags d.channelsTRG (List.finRange 64) 0#64

end TriggerDataBDXmini

/-! ## The factory -/

namespace TriggerDataBDXminiFactory

/-- `MAGIC_TRG_WORD`. -/
def magicTrgWord : UInt32 := 0xabcdabcd

/-- The local arrays of the first part. -/
structure Triggers where
  nTriggers : Nat := 0
  nTriggerSingles : Fin 32 → Nat := fun _ => 0
  trgTimes : Fin 32 → List Int := fun _ => []

/-- A `uint32_t` stored in an `int`. -/
def toInt (x : UInt32) : Int := x.toBitVec.toInt

/-- The body of the loop over the trigger bits. -/
def countBit (word1 word2 : UInt32) (s : Triggers) (kk : Fin 32) : Triggers :=
  if (word1.toBitVec >>> kk.val) &&& 1#32 ≠ 0#32 then
    { nTriggers := s.nTriggers + 1
      nTriggerSingles := Function.update s.nTriggerSingles kk (s.nTriggerSingles kk + 1)
      trgTimes := Function.update s.trgTimes kk (s.trgTimes kk ++ [toInt word2]) }
  else s

/-- The loop over the pairs, with `n` pairs to come; its result is `ii` and the arrays. -/
def triggerLoop (words : List UInt32) : Nat → Nat → Triggers → Option (Nat × Triggers)
  | 0, ii, s => some (ii, s)
  | n + 1, ii, s => do
    let word1 ← words[ii * 2]?
    let word2 ← words[ii * 2 + 1]?
    if word1 = magicTrgWord ∧ word2 = magicTrgWord then some (ii, s)
    else triggerLoop words n (ii + 1) ((List.finRange 32).foldl (countBit word1 word2) s)

/-- The local arrays of the second part. -/
structure Channels where
  channels : Fin 64 → Bool := fun _ => false
  channelsTRG : Fin 64 → Bool := fun _ => false

/-- The body of the loop over the channels. -/
def flagChannel (tmin tmax : Int) (chanMask : BitVec 64) (chanTime : Int) (s : Channels) (kk : Fin 64) : Channels :=
  if chanMask &&& (1#64 <<< kk.val) ≠ 0#64 then
    let s := { s with channels := Function.update s.channels kk true }
    if chanTime ≥ tmin ∧ chanTime ≤ tmax then
      { s with channelsTRG := Function.update s.channelsTRG kk true }
    else s
  else s

/-- Two halves of a word. -/
def join (low high : UInt32) : BitVec 64 := (high.toBitVec.setWidth 64 <<< 32) + low.toBitVec.setWidth 64

/-- The loop over the blocks, with `n` blocks to come. -/
def channelLoop (words : List UInt32) (tmin tmax : Int) (ii : Nat) : Nat → Nat → Channels → Option Channels
  | 0, _, s => some s
  | n + 1, jj, s => do
    let word1 ← words[ii * 2 + jj * 4]?
    let word2 ← words[ii * 2 + jj * 4 + 1]?
    let word3 ← words[ii * 2 + jj * 4 + 2]?
    let word4 ← words[ii * 2 + jj * 4 + 3]?
    let chanTime := (join word3 word4).toInt
    let chanMask := join word1 word2
    channelLoop words tmin tmax ii n (jj + 1)
      ((List.finRange 64).foldl (flagChannel tmin tmax chanMask chanTime) s)

/-- `for (kk = 0; kk < nTriggerSingles[ii]; kk++) addTriggerTime_single(ii, trgTimes[ii][kk])`. -/
def copyTimes (s : Triggers) (d : TriggerDataBDXmini) (ii : Fin 32) : Option TriggerDataBDXmini :=
  (List.range (s.nTriggerSingles ii)).foldlM
    (fun d kk => (s.trgTimes ii)[kk]?.map (d.addTriggerTimeSingle ii.val)) d

/-- The body of the loop that copies the channels. -/
def copyChannel (c : Channels) (d : TriggerDataBDXmini) (ii : Fin 64) : Option TriggerDataBDXmini := do
  let d ← if c.channels ii then d.setChannel ii.val else some d
  if c.channelsTRG ii then d.setChannelTRG ii.val else some d

/-- What is published for a vector of trigger words. -/
def decode (words : List UInt32) (tmin tmax : Int) : Option TriggerDataBDXmini := do
  let (ii, s) ← triggerLoop words (words.length / 2) 0 {}
  let ii := ii + 1
  let nwords : Int := (words.length : Int) - ii * 2
  let nwords := nwords.tdiv 4
  let c ← channelLoop words tmin tmax ii nwords.toNat 0 {}
  let d : TriggerDataBDXmini := ({ rawWords := words } : TriggerDataBDXmini).setNTriggers s.nTriggers
  let d ← (List.finRange 32).foldlM (copyTimes s) d
  (List.finRange 64).foldlM (copyChannel c) d

/-- `evnt`: what it publishes and returns. `tData` is what `GetSingle` finds. -/
def evnt (isMC : Bool) (tmin tmax : Int) (tData : Option EventData) :
    Option (List TriggerDataBDXmini × JError) :=
  if isMC then some ([], .noError)
  else
    match tData with
    | none => some ([], .objectNotAvailable)
    | some tData =>
      if tData.eventType = some .epics then some ([], .noError)
      else (decode tData.triggerWords tmin tmax).map (fun d => ([d], .noError))

/-! ## The format -/

/-- The complete pairs of words. -/
def pairsOf : List UInt32 → List (UInt32 × UInt32)
  | word1 :: word2 :: rest => (word1, word2) :: pairsOf rest
  | _ => []

def isSentinel (p : UInt32 × UInt32) : Bool := p.1 == magicTrgWord && p.2 == magicTrgWord

/-- The pairs before the first sentinel. -/
def scannedPairs (words : List UInt32) : List (UInt32 × UInt32) :=
  (pairsOf words).takeWhile (fun p => !isSentinel p)

/-- The words after the first sentinel; none if there is no sentinel. -/
def afterSentinel : List UInt32 → List UInt32
  | word1 :: word2 :: rest => if isSentinel (word1, word2) then rest else afterSentinel rest
  | _ => []

structure ChannelBlock where
  m0 : UInt32
  m1 : UInt32
  t0 : UInt32
  t1 : UInt32

/-- The complete blocks of four words. -/
def blocksOf : List UInt32 → List ChannelBlock
  | m0 :: m1 :: t0 :: t1 :: rest => ⟨m0, m1, t0, t1⟩ :: blocksOf rest
  | _ => []

namespace ChannelBlock

def mask (b : ChannelBlock) : BitVec 64 := BitVec.ofNat 64 (b.m1.toNat * 2 ^ 32 + b.m0.toNat)

/-- The time, a signed 64-bit number. -/
def time (b : ChannelBlock) : Int := ((b.t1.toNat * 2 ^ 32 + b.t0.toNat : Nat) : Int).bmod (2 ^ 64)

end ChannelBlock

theorem toNat_join (low high : UInt32) : (join low high).toNat = high.toNat * 2 ^ 32 + low.toNat := by
  have hlow := low.toNat_lt
  have hhigh := high.toNat_lt
  unfold join
  simp only [BitVec.toNat_add, BitVec.toNat_shiftLeft, BitVec.toNat_setWidth, UInt32.toNat_toBitVec,
    Nat.shiftLeft_eq]
  omega

theorem join_eq_mask (b : ChannelBlock) : join b.m0 b.m1 = b.mask := by
  apply BitVec.eq_of_toNat_eq
  have hlow := b.m0.toNat_lt
  have hhigh := b.m1.toNat_lt
  rw [toNat_join, ChannelBlock.mask, BitVec.toNat_ofNat]
  omega

theorem join_toInt (b : ChannelBlock) : (join b.t0 b.t1).toInt = b.time := by
  rw [BitVec.toInt_eq_toNat_bmod, toNat_join]
  rfl

/-! ## The two loops -/

/-- What the loop does with a pair. -/
def addPair (s : Triggers) (p : UInt32 × UInt32) : Triggers := (List.finRange 32).foldl (countBit p.1 p.2) s

/-- What the loop does with a block. -/
def flagBlock (tmin tmax : Int) (s : Channels) (b : ChannelBlock) : Channels :=
  (List.finRange 64).foldl (flagChannel tmin tmax b.mask b.time) s

/-- **The first loop goes through the scanned pairs**, and `ii` counts them. -/
theorem triggerLoop_eq {words rest : List UInt32} {n ii : Nat} (s : Triggers) (hrest : words.drop (ii * 2) = rest)
    (hn : n = rest.length / 2) :
    triggerLoop words n ii s
      = some (ii + (scannedPairs rest).length, (scannedPairs rest).foldl addPair s) := by
  induction n generalizing ii s rest with
  | zero =>
      match rest with
      | [] => rfl
      | [_] => rfl
      | _ :: _ :: rest => simp only [List.length_cons] at hn; omega
  | succ n ih =>
      match rest with
      | [] => simp at hn
      | [_] => simp at hn
      | word1 :: word2 :: rest =>
          have hword1 : words[ii * 2]? = some word1 := by
            rw [← Nat.add_zero (ii * 2), ← List.getElem?_drop, hrest]
            rfl
          have hword2 : words[ii * 2 + 1]? = some word2 := by
            rw [← List.getElem?_drop, hrest]
            rfl
          unfold triggerLoop
          simp only [hword1, hword2, Option.bind_eq_bind, Option.bind_some]
          by_cases hmagic : word1 = magicTrgWord ∧ word2 = magicTrgWord
          · rw [if_pos hmagic]
            simp [scannedPairs, pairsOf, isSentinel, hmagic.1, hmagic.2]
          · rw [if_neg hmagic]
            have hdrop : words.drop ((ii + 1) * 2) = rest := by
              rw [show (ii + 1) * 2 = ii * 2 + 2 by omega, ← List.drop_drop, hrest]
              rfl
            have hscanned : scannedPairs (word1 :: word2 :: rest) = (word1, word2) :: scannedPairs rest := by
              have hnot : isSentinel (word1, word2) = false := by
                simpa [isSentinel] using hmagic
              simp [scannedPairs, pairsOf, hnot]
            rw [ih _ hdrop (by simp only [List.length_cons] at hn; omega), hscanned]
            simp only [List.length_cons, List.foldl_cons, Option.some.injEq, Prod.mk.injEq]
            exact ⟨by omega, rfl⟩

/-- The words behind the pair at which the first loop stops. -/
theorem drop_scanned (words : List UInt32) :
    words.drop (((scannedPairs words).length + 1) * 2) = afterSentinel words := by
  match words with
  | [] => rfl
  | [_] => rfl
  | word1 :: word2 :: rest =>
      unfold afterSentinel
      cases hsentinel : isSentinel (word1, word2) with
      | true => simp [scannedPairs, pairsOf, hsentinel]
      | false =>
          have hscanned : scannedPairs (word1 :: word2 :: rest) = (word1, word2) :: scannedPairs rest := by
            simp [scannedPairs, pairsOf, hsentinel]
          rw [hscanned, List.length_cons, show ((scannedPairs rest).length + 1 + 1) * 2
            = ((scannedPairs rest).length + 1) * 2 + 1 + 1 by omega, List.drop_succ_cons, List.drop_succ_cons]
          exact drop_scanned rest

/-- **The second loop goes through the blocks.** -/
theorem channelLoop_eq {words rest : List UInt32} {tmin tmax : Int} {ii n jj : Nat} (s : Channels)
    (hrest : words.drop (ii * 2 + jj * 4) = rest) (hn : n = rest.length / 4) :
    channelLoop words tmin tmax ii n jj s = some ((blocksOf rest).foldl (flagBlock tmin tmax) s) := by
  induction n generalizing jj s rest with
  | zero =>
      match rest with
      | [] => rfl
      | [_] => rfl
      | [_, _] => rfl
      | [_, _, _] => rfl
      | _ :: _ :: _ :: _ :: rest => simp only [List.length_cons] at hn; omega
  | succ n ih =>
      match rest with
      | [] => simp at hn
      | [_] => simp at hn
      | [_, _] => simp at hn
      | [_, _, _] => simp at hn
      | m0 :: m1 :: t0 :: t1 :: rest =>
          have hword : ∀ k, words[ii * 2 + jj * 4 + k]? = (m0 :: m1 :: t0 :: t1 :: rest)[k]? := by
            intro k
            rw [← List.getElem?_drop, hrest]
          have hm0 : words[ii * 2 + jj * 4]? = some m0 := hword 0
          unfold channelLoop
          simp only [hm0, hword, List.getElem?_cons_succ, List.getElem?_cons_zero, Option.bind_eq_bind,
            Option.bind_some]
          have hdrop : words.drop (ii * 2 + (jj + 1) * 4) = rest := by
            rw [show ii * 2 + (jj + 1) * 4 = ii * 2 + jj * 4 + 4 by omega, ← List.drop_drop, hrest]
            rfl
          rw [ih _ hdrop (by simp only [List.length_cons] at hn; omega)]
          have hmask := join_eq_mask ⟨m0, m1, t0, t1⟩
          have htime := join_toInt ⟨m0, m1, t0, t1⟩
          simp only at hmask htime
          rw [hmask, htime]
          rfl

/-- The number of blocks, when it comes out negative as well. -/
theorem toNat_tdiv_four (size used : Nat) : (((size : Int) - used * 2).tdiv 4).toNat = (size - used * 2) / 4 := by
  by_cases hle : used * 2 ≤ size
  · have hsub : (size : Int) - used * 2 = ((size - used * 2 : Nat) : Int) := by omega
    rw [hsub, Int.tdiv_eq_ediv_of_nonneg (by omega)]
    omega
  · have hneg : (size : Int) - used * 2 = -((used * 2 - size : Nat) : Int) := by omega
    rw [hneg, Int.neg_tdiv, Int.tdiv_eq_ediv_of_nonneg (by omega)]
    omega

/-! ## What the loops leave in the arrays -/

/-- The trigger bit `k` of a pair. -/
def hasBit (k : Fin 32) (p : UInt32 × UInt32) : Bool := p.1.toBitVec.getLsbD k

theorem countBit_eq (word1 word2 : UInt32) (s : Triggers) (kk : Fin 32) :
    countBit word1 word2 s kk = if hasBit kk (word1, word2) = true then
      { nTriggers := s.nTriggers + 1
        nTriggerSingles := Function.update s.nTriggerSingles kk (s.nTriggerSingles kk + 1)
        trgTimes := Function.update s.trgTimes kk (s.trgTimes kk ++ [toInt word2]) } else s := by
  unfold countBit hasBit
  simp only [shift_and_one_ne_zero (show 0 < 32 by omega)]

theorem trgTimes_countBits (word1 word2 : UInt32) {l : List (Fin 32)} (hl : l.Nodup) (s : Triggers) (k : Fin 32) :
    (l.foldl (countBit word1 word2) s).trgTimes k
      = s.trgTimes k ++ if k ∈ l ∧ hasBit k (word1, word2) = true then [toInt word2] else [] := by
  induction l generalizing s with
  | nil => simp
  | cons kk l ih =>
      obtain ⟨hnotin, hl'⟩ := List.nodup_cons.mp hl
      rw [List.foldl_cons, ih hl', countBit_eq]
      by_cases hk : k = kk
      · subst hk
        cases hbit : hasBit k (word1, word2)
        · simp
        · simp [hnotin]
      · cases hbit : hasBit kk (word1, word2)
        · simp [hk]
        · simp [hk]

/-- **The times of a trigger bit**: those of the pairs that have the bit, in order. -/
theorem trgTimes_addPairs (pairs : List (UInt32 × UInt32)) (s : Triggers) (k : Fin 32) :
    (pairs.foldl addPair s).trgTimes k
      = s.trgTimes k ++ (pairs.filter (hasBit k)).map (fun p => toInt p.2) := by
  induction pairs generalizing s with
  | nil => simp
  | cons p pairs ih =>
      rw [List.foldl_cons, ih]
      unfold addPair
      rw [trgTimes_countBits _ _ (List.nodup_finRange 32)]
      cases hbit : hasBit k p
      · simp [hbit]
      · simp [hbit]

/-- The counts are those of the times. -/
structure Counted (s : Triggers) : Prop where
  singles : ∀ k, s.nTriggerSingles k = (s.trgTimes k).length
  total : s.nTriggers = ∑ k : Fin 32, (s.trgTimes k).length

theorem Counted.countBit {s : Triggers} (h : Counted s) (word1 word2 : UInt32) (kk : Fin 32) :
    Counted (countBit word1 word2 s kk) := by
  rw [countBit_eq]
  split
  · constructor
    · intro k
      by_cases hk : k = kk
      · subst hk
        simp [h.singles]
      · simp [hk, h.singles]
    · have hlen : ∀ k, (Function.update s.trgTimes kk (s.trgTimes kk ++ [toInt word2]) k).length
          = (s.trgTimes k).length + if k = kk then 1 else 0 := by
        intro k
        by_cases hk : k = kk
        · subst hk
          simp
        · simp [hk]
      simp only [hlen, Finset.sum_add_distrib, Finset.sum_ite_eq', Finset.mem_univ, if_true]
      rw [h.total]
  · exact h

theorem Counted.addPairs {s : Triggers} (h : Counted s) (pairs : List (UInt32 × UInt32)) :
    Counted (pairs.foldl addPair s) := by
  induction pairs generalizing s with
  | nil => exact h
  | cons p pairs ih =>
      apply ih
      unfold addPair
      generalize List.finRange 32 = l
      induction l generalizing s with
      | nil => exact h
      | cons kk l ih' => exact ih' (h.countBit p.1 p.2 kk)

/-- Whether a block counts for the trigger. -/
def inWindow (tmin tmax : Int) (b : ChannelBlock) : Bool := decide (b.time ≥ tmin ∧ b.time ≤ tmax)

theorem inWindow_iff {tmin tmax : Int} {b : ChannelBlock} :
    inWindow tmin tmax b = true ↔ b.time ≥ tmin ∧ b.time ≤ tmax :=
  decide_eq_true_iff

section Flags

variable {tmin tmax chanTime : Int} {inside : Bool} (hin : inside = true ↔ chanTime ≥ tmin ∧ chanTime ≤ tmax)
include hin

theorem flagChannel_eq (chanMask : BitVec 64) (s : Channels) (kk k : Fin 64) :
    (flagChannel tmin tmax chanMask chanTime s kk).channels k
        = (s.channels k || (decide (k = kk) && chanMask.getLsbD k)) ∧
      (flagChannel tmin tmax chanMask chanTime s kk).channelsTRG k
        = (s.channelsTRG k || (decide (k = kk) && chanMask.getLsbD k && inside)) := by
  unfold flagChannel
  simp only [and_mask_ne_zero kk.isLt, ← hin]
  by_cases hk : k = kk
  · subst hk
    cases hbit : chanMask.getLsbD k
    · simp
    · cases inside
      · simp
      · simp
  · cases hbit : chanMask.getLsbD kk
    · simp [hk]
    · cases inside
      · simp [hk]
      · simp [hk]

theorem flagChannels_eq (chanMask : BitVec 64) (l : List (Fin 64)) (s : Channels) (k : Fin 64) :
    (l.foldl (flagChannel tmin tmax chanMask chanTime) s).channels k
        = (s.channels k || (decide (k ∈ l) && chanMask.getLsbD k)) ∧
      (l.foldl (flagChannel tmin tmax chanMask chanTime) s).channelsTRG k
        = (s.channelsTRG k || (decide (k ∈ l) && chanMask.getLsbD k && inside)) := by
  induction l generalizing s with
  | nil => simp
  | cons kk l ih =>
      obtain ⟨ih₁, ih₂⟩ := ih (flagChannel tmin tmax chanMask chanTime s kk)
      obtain ⟨hstep₁, hstep₂⟩ := flagChannel_eq hin chanMask s kk k
      rw [List.foldl_cons, ih₁, ih₂, hstep₁, hstep₂]
      by_cases hk : k = kk
      · subst hk
        constructor
        · cases chanMask.getLsbD k <;> simp
        · cases chanMask.getLsbD k <;> cases inside <;> simp
      · simp [hk]

end Flags

/-- Over a list that has the channel. -/
theorem flagChannels_of_mem (tmin tmax : Int) (b : ChannelBlock) {l : List (Fin 64)} (s : Channels) {k : Fin 64}
    (hk : k ∈ l) :
    (l.foldl (flagChannel tmin tmax b.mask b.time) s).channels k = (s.channels k || b.mask.getLsbD k) ∧
      (l.foldl (flagChannel tmin tmax b.mask b.time) s).channelsTRG k
        = (s.channelsTRG k || (b.mask.getLsbD k && inWindow tmin tmax b)) := by
  have hin : inWindow tmin tmax b = true ↔ b.time ≥ tmin ∧ b.time ≤ tmax := inWindow_iff
  obtain ⟨hb₁, hb₂⟩ := flagChannels_eq hin b.mask l s k
  rw [decide_eq_true hk, Bool.true_and] at hb₁ hb₂
  exact ⟨hb₁, hb₂⟩

theorem flagBlock_eq (tmin tmax : Int) (b : ChannelBlock) (s : Channels) (k : Fin 64) :
    (flagBlock tmin tmax s b).channels k = (s.channels k || b.mask.getLsbD k) ∧
      (flagBlock tmin tmax s b).channelsTRG k = (s.channelsTRG k || (b.mask.getLsbD k && inWindow tmin tmax b)) := by
  have hfold : flagBlock tmin tmax s b = (List.finRange 64).foldl (flagChannel tmin tmax b.mask b.time) s := rfl
  rw [hfold]
  exact flagChannels_of_mem tmin tmax b s (List.mem_finRange k)

/-- **The channels**: those with their bit in some block. -/
theorem channels_flagBlocks (tmin tmax : Int) (blocks : List ChannelBlock) (s : Channels) (k : Fin 64) :
    (blocks.foldl (flagBlock tmin tmax) s).channels k
      = (s.channels k || blocks.any (fun b => b.mask.getLsbD k)) := by
  induction blocks generalizing s with
  | nil => exact (Bool.or_false _).symm
  | cons b blocks ih => rw [List.foldl_cons, ih, (flagBlock_eq tmin tmax b s k).1, List.any_cons, Bool.or_assoc]

/-- **The trigger channels**: those with their bit in some block of the window. -/
theorem channelsTRG_flagBlocks (tmin tmax : Int) (blocks : List ChannelBlock) (s : Channels) (k : Fin 64) :
    (blocks.foldl (flagBlock tmin tmax) s).channelsTRG k
      = (s.channelsTRG k || (blocks.filter (inWindow tmin tmax)).any (fun b => b.mask.getLsbD k)) := by
  induction blocks generalizing s with
  | nil => exact (Bool.or_false _).symm
  | cons b blocks ih =>
      rw [List.foldl_cons, ih, (flagBlock_eq tmin tmax b s k).2, List.filter_cons]
      split
      · rename_i hin
        rw [hin, Bool.and_true, List.any_cons, Bool.or_assoc]
      · rename_i hout
        rw [Bool.not_eq_true] at hout
        rw [hout, Bool.and_false, Bool.or_false]

/-! ## The copy into the published object -/

theorem addTriggerTimeSingle_val (d : TriggerDataBDXmini) (ii : Fin 32) (data : Int) :
    d.addTriggerTimeSingle ii.val data
      = { d with trgTimes := Function.update d.trgTimes ii (d.trgTimes ii ++ [data]) } := by
  unfold TriggerDataBDXmini.addTriggerTimeSingle
  rw [dif_neg (by omega)]
  rfl

theorem getNtriggersSingle_val (d : TriggerDataBDXmini) (k : Fin 32) :
    d.getNtriggersSingle k.val = (d.trgTimes k).length := by
  unfold TriggerDataBDXmini.getNtriggersSingle
  rw [dif_neg (by omega)]
  rfl

theorem setFlag_val (flags : Fin 64 → Bool) (ii : Fin 64) :
    TriggerDataBDXmini.setFlag flags ii.val true = some (Function.update flags ii true) := by
  unfold TriggerDataBDXmini.setFlag
  rw [if_neg (by omega), dif_pos (by omega)]
  rfl

theorem copyTimes_eq {s : Triggers} (h : Counted s) (d : TriggerDataBDXmini) (ii : Fin 32) :
    copyTimes s d ii
      = some { d with trgTimes := Function.update d.trgTimes ii (d.trgTimes ii ++ s.trgTimes ii) } := by
  -- the first `n` rounds of the loop copy the first `n` times
  have hrounds : ∀ n, n ≤ (s.trgTimes ii).length →
      (List.range n).foldlM (fun d kk => (s.trgTimes ii)[kk]?.map (d.addTriggerTimeSingle ii.val)) d
        = some { d with trgTimes := Function.update d.trgTimes ii (d.trgTimes ii ++ (s.trgTimes ii).take n) } := by
    intro n hn
    induction n with
    | zero => simp
    | succ n ih =>
        rw [List.range_succ, List.foldlM_append, ih (by omega)]
        simp only [Option.bind_eq_bind, Option.bind_some, List.foldlM_cons, List.foldlM_nil,
          List.getElem?_eq_getElem (show n < (s.trgTimes ii).length by omega), Option.map_some,
          addTriggerTimeSingle_val, Function.update_self, Function.update_idem, Option.pure_def,
          List.append_assoc, List.take_append_getElem]
  unfold copyTimes
  rw [h.singles, hrounds _ le_rfl, List.take_length]

/-- **The copy of the times**: every time once, in order; the rest of the object stays. -/
theorem copyTimes_foldlM {s : Triggers} (h : Counted s) {l : List (Fin 32)} (hl : l.Nodup)
    (d : TriggerDataBDXmini) :
    ∃ times, l.foldlM (copyTimes s) d = some { d with trgTimes := times } ∧
      ∀ k, times k = d.trgTimes k ++ if k ∈ l then s.trgTimes k else [] := by
  induction l generalizing d with
  | nil => exact ⟨d.trgTimes, rfl, by simp⟩
  | cons ii l ih =>
      obtain ⟨hnotin, hl'⟩ := List.nodup_cons.mp hl
      rw [List.foldlM_cons, copyTimes_eq h]
      obtain ⟨times, hfold, htimes⟩ := ih hl'
        { d with trgTimes := Function.update d.trgTimes ii (d.trgTimes ii ++ s.trgTimes ii) }
      refine ⟨times, hfold, fun k => ?_⟩
      rw [htimes]
      by_cases hk : k = ii
      · subst hk
        simp [hnotin]
      · simp [hk]

theorem copyChannel_eq (c : Channels) (d : TriggerDataBDXmini) (ii : Fin 64) :
    copyChannel c d ii = some { d with
      channels := Function.update d.channels ii (d.channels ii || c.channels ii)
      channelsTRG := Function.update d.channelsTRG ii (d.channelsTRG ii || c.channelsTRG ii) } := by
  unfold copyChannel TriggerDataBDXmini.setChannel TriggerDataBDXmini.setChannelTRG
  simp only [setFlag_val, Option.map_some]
  cases c.channels ii <;> cases c.channelsTRG ii <;> simp

/-- **The copy of the channels.** -/
theorem copyChannel_foldlM (c : Channels) (l : List (Fin 64)) (d : TriggerDataBDXmini) :
    ∃ channels channelsTRG,
      l.foldlM (copyChannel c) d = some { d with channels := channels, channelsTRG := channelsTRG } ∧
      (∀ k, channels k = (d.channels k || (decide (k ∈ l) && c.channels k))) ∧
      ∀ k, channelsTRG k = (d.channelsTRG k || (decide (k ∈ l) && c.channelsTRG k)) := by
  induction l generalizing d with
  | nil => exact ⟨d.channels, d.channelsTRG, rfl, by simp, by simp⟩
  | cons ii l ih =>
      rw [List.foldlM_cons, copyChannel_eq]
      obtain ⟨channels, channelsTRG, hfold, hchannels, hTRG⟩ := ih { d with
        channels := Function.update d.channels ii (d.channels ii || c.channels ii)
        channelsTRG := Function.update d.channelsTRG ii (d.channelsTRG ii || c.channelsTRG ii) }
      refine ⟨channels, channelsTRG, hfold, fun k => ?_, fun k => ?_⟩
      · rw [hchannels]
        by_cases hk : k = ii
        · subst hk
          cases c.channels k <;> simp
        · simp [hk]
      · rw [hTRG]
        by_cases hk : k = ii
        · subst hk
          cases c.channelsTRG k <;> simp
        · simp [hk]

/-! ## The published object -/

theorem counted_init : Counted {} := ⟨fun _ => rfl, by simp⟩

/-- A word of flags that are the bits of some words is the union of these words. -/
theorem ofFlags_eq_union {flags : Fin 64 → Bool} {blocks : List ChannelBlock}
    (hflags : ∀ k : Fin 64, flags k = blocks.any (fun b => b.mask.getLsbD k)) {l : List (Fin 64)}
    (hl : ∀ k, k ∈ l) : ofFlags flags l 0#64 = (blocks.map ChannelBlock.mask).foldl (· ||| ·) 0#64 := by
  apply BitVec.eq_of_getLsbD_eq
  intro i hi
  have hofFlags : (ofFlags flags l 0#64).getLsbD i = flags ⟨i, hi⟩ := by
    rw [Bool.eq_iff_iff, getLsbD_ofFlags flags l 0#64 ⟨i, hi⟩]
    simp [hl]
  rw [hofFlags, hflags, getLsbD_foldl_or, List.any_map, BitVec.getLsbD_zero, Bool.false_or]
  rfl

/-- What the factory puts into the object, in terms of the local arrays. -/
theorem decode_eq (words : List UInt32) (tmin tmax : Int) :
    ∃ d, decode words tmin tmax = some d ∧
      d.nTriggers = ((scannedPairs words).foldl addPair {}).nTriggers ∧
      (∀ k, d.trgTimes k = ((scannedPairs words).foldl addPair {}).trgTimes k) ∧
      (∀ k, d.channels k = ((blocksOf (afterSentinel words)).foldl (flagBlock tmin tmax) {}).channels k) ∧
      ∀ k, d.channelsTRG k = ((blocksOf (afterSentinel words)).foldl (flagBlock tmin tmax) {}).channelsTRG k := by
  have htrigger : triggerLoop words (words.length / 2) 0 {}
      = some ((scannedPairs words).length, (scannedPairs words).foldl addPair {}) := by
    rw [triggerLoop_eq {} (by rw [Nat.zero_mul, List.drop_zero]) rfl, Nat.zero_add]
  have hblocks : (((words.length : Int) - (((scannedPairs words).length + 1 : Nat) : Int) * 2).tdiv 4).toNat
      = (afterSentinel words).length / 4 := by
    rw [toNat_tdiv_four, ← drop_scanned words, List.length_drop]
  have hchannel : channelLoop words tmin tmax ((scannedPairs words).length + 1)
      ((afterSentinel words).length / 4) 0 {}
        = some ((blocksOf (afterSentinel words)).foldl (flagBlock tmin tmax) {}) :=
    channelLoop_eq {} (by rw [Nat.zero_mul, Nat.add_zero, drop_scanned]) rfl
  have hcounted := counted_init.addPairs (scannedPairs words)
  generalize (scannedPairs words).foldl addPair {} = s at *
  generalize (blocksOf (afterSentinel words)).foldl (flagBlock tmin tmax) {} = c at *
  obtain ⟨times, htimes, hall⟩ := copyTimes_foldlM hcounted (List.nodup_finRange 32)
    (({ rawWords := words } : TriggerDataBDXmini).setNTriggers s.nTriggers)
  obtain ⟨channels, channelsTRG, hcopy, hch, hTRG⟩ := copyChannel_foldlM c (List.finRange 64)
    { ({ rawWords := words } : TriggerDataBDXmini).setNTriggers s.nTriggers with trgTimes := times }
  have hdecode : decode words tmin tmax = some
      { ({ rawWords := words } : TriggerDataBDXmini).setNTriggers s.nTriggers with
        trgTimes := times, channels := channels, channelsTRG := channelsTRG } := by
    unfold decode
    simp only [htrigger, Option.bind_eq_bind, Option.bind_some, hblocks, hchannel, htimes]
    exact hcopy
  refine ⟨_, hdecode, rfl, fun k => (hall k).trans ?_, fun k => (hch k).trans ?_, fun k => (hTRG k).trans ?_⟩
  · rw [if_pos (List.mem_finRange k)]
    rfl
  · rw [decide_eq_true (List.mem_finRange k), Bool.true_and]
    rfl
  · rw [decide_eq_true (List.mem_finRange k), Bool.true_and]
    rfl

theorem afterSentinel_of_none {words : List UInt32} (hnone : ∀ p ∈ pairsOf words, isSentinel p = false) :
    afterSentinel words = [] := by
  match words with
  | [] => rfl
  | [_] => rfl
  | word1 :: word2 :: rest =>
      unfold afterSentinel
      rw [if_neg (by simp [hnone (word1, word2) (by simp [pairsOf])])]
      exact afterSentinel_of_none (fun p hp => hnone p (by simp [pairsOf, hp]))

/-- The words of the published object, for the blocks `blocks` behind the sentinel. -/
def channelWord (blocks : List ChannelBlock) : BitVec 64 := (blocks.map ChannelBlock.mask).foldl (· ||| ·) 0#64

/-- **Decoding.** Outside MC and EPICS events one object is published, for every vector of words and every window, and
    no read is out of range. Its times of a trigger bit are those of the pairs before the sentinel that have the bit,
    in order, its trigger count is their number, and its channel words are the unions of the masks behind the
    sentinel, of all blocks and of the blocks in the window. -/
theorem evnt_decodes (tmin tmax : Int) (tData : EventData) (htype : tData.eventType ≠ some .epics) :
    ∃ d, evnt false tmin tmax (some tData) = some ([d], .noError) ∧
      (∀ k, d.trgTimes k = ((scannedPairs tData.triggerWords).filter (hasBit k)).map (fun p => toInt p.2)) ∧
      d.getNTriggers = ∑ k : Fin 32, d.getNtriggersSingle k.val ∧
      d.getLongWordChannels = channelWord (blocksOf (afterSentinel tData.triggerWords)) ∧
      d.getLongWordChannelsTRG
        = channelWord ((blocksOf (afterSentinel tData.triggerWords)).filter (inWindow tmin tmax)) ∧
      ((∀ p ∈ pairsOf tData.triggerWords, isSentinel p = false) →
        d.getLongWordChannels = 0#64 ∧ d.getLongWordChannelsTRG = 0#64) := by
  obtain ⟨d, hdecode, hn, htimes, hchannels, hTRG⟩ := decode_eq tData.triggerWords tmin tmax
  have hevnt : evnt false tmin tmax (some tData) = some ([d], .noError) := by
    simp only [evnt, if_neg Bool.false_ne_true, if_neg htype, hdecode, Option.map_some]
  have hcounted := counted_init.addPairs (scannedPairs tData.triggerWords)
  have hword : d.getLongWordChannels = channelWord (blocksOf (afterSentinel tData.triggerWords)) :=
    ofFlags_eq_union (fun k => by rw [hchannels, channels_flagBlocks]; rfl) List.mem_finRange
  have hwordTRG : d.getLongWordChannelsTRG
      = channelWord ((blocksOf (afterSentinel tData.triggerWords)).filter (inWindow tmin tmax)) :=
    ofFlags_eq_union (fun k => by rw [hTRG, channelsTRG_flagBlocks]; rfl) List.mem_finRange
  refine ⟨d, hevnt, fun k => ?_, ?_, hword, hwordTRG, fun hnone => ?_⟩
  · rw [htimes, trgTimes_addPairs]
    rfl
  · simp only [getNtriggersSingle_val, htimes]
    rw [TriggerDataBDXmini.getNTriggers, hn]
    exact hcounted.total
  · rw [hword, hwordTRG, afterSentinel_of_none hnone]
    exact ⟨rfl, rfl⟩

/-- One trigger with bits 0 and 3, the sentinel, and two blocks of which the second is late. -/
theorem evnt_twoBlocks : ∃ d, evnt false (-16) 16 (some { triggerWords :=
      [9, 100, 0xabcdabcd, 0xabcdabcd, 1, 2, 0xfffffffc, 0xffffffff, 4, 0, 17, 0, 5] }) = some ([d], .noError) ∧
    d.trgTimes 0 = [100] ∧ d.trgTimes 1 = [] ∧ d.trgTimes 3 = [100] ∧
    d.getLongWordChannels = 0x200000005#64 ∧ d.getLongWordChannelsTRG = 0x200000001#64 := by
  obtain ⟨d, hevnt, htimes, -, hword, hwordTRG, -⟩ := evnt_decodes (-16) 16 { triggerWords :=
    [9, 100, 0xabcdabcd, 0xabcdabcd, 1, 2, 0xfffffffc, 0xffffffff, 4, 0, 17, 0, 5] } (by decide)
  refine ⟨d, hevnt, ?_, ?_, ?_, ?_, ?_⟩
  · rw [htimes]; decide
  · rw [htimes]; decide
  · rw [htimes]; decide
  · rw [hword]; decide
  · rw [hwordTRG]; decide

end TriggerDataBDXminiFactory

end BdxReco
