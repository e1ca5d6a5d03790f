import BdxReco.Lib.Mem
import Mathlib.Algebra.Ring.Nat
import Mathlib.Data.List.Chain

/-!
# `DAQ.EtBuffer` — copying an event out of an ET buffer

The part of `JEventSourceEvioDAQ::GetEvent` between the magic word and `et_event_put`: the byte order is read
off the magic word, the size is checked, and the block is copied into `buff`, word by word swapped if it comes
from a machine of the other byte order. All arithmetic is that of `uint32_t`. The buffers have no bounds here;
the copy records the spans it reads of `et_buff` and writes of `buff`, and the values `idx` takes.

The swap loop trusts the length words of the block, so it can run forever or out of bounds.
`copyStage_robust_iff` says on which blocks it does not, and `swap_agrees` that on a well-formed block both
byte orders give the same event.
-/

namespace BdxReco

/-- `EVIO_SWAP32`: the bytes of a word in reverse order. -/
def evioSwap32 (x : UInt32) : UInt32 :=
  UInt32.ofNat (x.toNat % 256 * 2 ^ 24 + x.toNat / 2 ^ 8 % 256 * 2 ^ 16 + x.toNat / 2 ^ 16 % 256 * 2 ^ 8
    + x.toNat / 2 ^ 24)

theorem toNat_evioSwap32 (x : UInt32) :
    (evioSwap32 x).toNat = x.toNat % 256 * 2 ^ 24 + x.toNat / 2 ^ 8 % 256 * 2 ^ 16
      + x.toNat / 2 ^ 16 % 256 * 2 ^ 8 + x.toNat / 2 ^ 24 := by
  have hx := x.toNat_lt
  unfold evioSwap32
  rw [UInt32.toNat_ofNat']
  exact Nat.mod_eq_of_lt (by omega)

/-- The bytes of a word given by its bytes. -/
theorem bytes_of_word (a : Nat) {b c d : Nat} (hb : b < 256) (hc : c < 256) (hd : d < 256) :
    (a * 2 ^ 24 + b * 2 ^ 16 + c * 2 ^ 8 + d) % 256 = d ∧
      (a * 2 ^ 24 + b * 2 ^ 16 + c * 2 ^ 8 + d) / 2 ^ 8 % 256 = c ∧
      (a * 2 ^ 24 + b * 2 ^ 16 + c * 2 ^ 8 + d) / 2 ^ 16 % 256 = b ∧
      (a * 2 ^ 24 + b * 2 ^ 16 + c * 2 ^ 8 + d) / 2 ^ 24 = a := by
  omega

@[simp] theorem evioSwap32_evioSwap32 (x : UInt32) : evioSwap32 (evioSwap32 x) = x := by
  apply UInt32.toNat_inj.mp
  have hx := x.toNat_lt
  have hword : x.toNat / 2 ^ 24 * 2 ^ 24 + x.toNat / 2 ^ 16 % 256 * 2 ^ 16 + x.toNat / 2 ^ 8 % 256 * 2 ^ 8
      + x.toNat % 256 = x.toNat := by
    omega
  obtain ⟨h₀, h₁, h₂, h₃⟩ := bytes_of_word (x.toNat % 256)
    (Nat.mod_lt (x.toNat / 2 ^ 8) (by omega : 256 > 0)) (Nat.mod_lt (x.toNat / 2 ^ 16) (by omega : 256 > 0))
    (show x.toNat / 2 ^ 24 < 256 by omega)
  rw [toNat_evioSwap32, toNat_evioSwap32, h₀, h₁, h₂, h₃]
  exact hword

/-! ## The copy -/

/-- What a copy leaves in `buff`, and what it did: the cells it read of `et_buff` and wrote of `buff`, and the
    values of `idx` at the test of the loop. -/
structure Copy where
  buff : Mem UInt32
  nEventsInStack : Nat
  reads : List Span
  writes : List Span
  passes : List UInt32

/-- The switch on the magic word: is swapping needed? `none` is the default branch. -/
def swapNeeded (magic : UInt32) : Option Bool :=
  if magic = 0xc0da0100 then some false
  else if magic = 0x0001dac0 then some true
  else none

/-- `len`: word 0, swapped if needed. -/
def blockLen (etBuff : Mem UInt32) (swap : Bool) : UInt32 :=
  if swap then evioSwap32 (etBuff 0) else etBuff 0

/-- `bufsize_bytes`. -/
def bufsizeBytes (len : UInt32) : UInt32 := (len + 1) * 4

/-- `memcpy(buff, et_buff, bytes)`, in words. -/
def memcpy (etBuff : Mem UInt32) (bytes : UInt32) (buff : Mem UInt32) : Mem UInt32 :=
  buff.fill ⟨0, bytes.toNat / 4⟩ etBuff

/-- `swap_int32_t(&et_buff[s], n, &buff[s])`. -/
def swapInt32 (etBuff : Mem UInt32) (s : Span) (buff : Mem UInt32) : Mem UInt32 :=
  buff.fill s (fun k => evioSwap32 (etBuff k))

/-- The loop over the events of the stack; `none` when `fuel` passes were not enough. -/
def swapLoop (etBuff : Mem UInt32) (len : UInt32) : Nat → UInt32 → Nat → Mem UInt32 → Option Copy
  | 0, _, _, _ => none
  | fuel + 1, idx, nEvents, buff =>
    if idx < len then
      let mylen := evioSwap32 (etBuff idx.toNat)
      if idx + mylen > len then
        -- "Bad word count while swapping events in ET event stack!"
        some { buff, nEventsInStack := nEvents, reads := [⟨idx.toNat, 1⟩], writes := [], passes := [idx] }
      else
        let span : Span := ⟨idx.toNat, (mylen + 1).toNat⟩
        match swapLoop etBuff len fuel (idx + (mylen + 1)) (nEvents + 1) (swapInt32 etBuff span buff) with
        | none => none
        | some c => some { c with
            reads := ⟨idx.toNat, 1⟩ :: span :: c.reads, writes := span :: c.writes, passes := idx :: c.passes }
    else some { buff, nEventsInStack := nEvents, reads := [], writes := [], passes := [idx] }

/-- The copy stage. -/
def copyStage (etBuff : Mem UInt32) (swap : Bool) (fuel : Nat) (buff : Mem UInt32) : Option Copy :=
  let len := blockLen etBuff swap
  if !swap then
    let span : Span := ⟨0, (bufsizeBytes len).toNat / 4⟩
    some { buff := memcpy etBuff (bufsizeBytes len) buff, nEventsInStack := 0
           reads := [span], writes := [span], passes := [] }
  else
    match swapLoop etBuff len fuel 8 0 (swapInt32 etBuff ⟨0, 8⟩ buff) with
    | none => none
    | some c => some { c with reads := ⟨0, 8⟩ :: c.reads, writes := ⟨0, 8⟩ :: c.writes }

/-- How the part of `GetEvent` from the magic word to the end of the copy ends. -/
inductive CopyOutcome where
  | noMagic
  | tooLarge
  | running
  | copied (c : Copy)

def copyEvent (etBuff : Mem UInt32) (bufferSize : UInt32) (fuel : Nat) (buff : Mem UInt32) : CopyOutcome :=
  match swapNeeded (etBuff 7) with
  | none => .noMagic
  | some swap =>
    if bufsizeBytes (blockLen etBuff swap) > bufferSize then .tooLarge
    else
      match copyStage etBuff swap fuel buff with
      | none => .running
      | some c => .copied c

/-! ## Robustness -/

/-- **The copy is robust**: whatever was in `buff`, it ends, reads only the words `0, …, len` of the block, writes
    only words of `buff` that exist and are among these, and `idx` grows with every pass. -/
def Robust (etBuff : Mem UInt32) (bufferSize : UInt32) (swap : Bool) : Prop :=
  ∀ buff, ∃ fuel c, copyStage etBuff swap fuel buff = some c ∧
    (∀ s ∈ c.reads, s.Below ((blockLen etBuff swap).toNat + 1)) ∧
    (∀ s ∈ c.writes, s.Below ((blockLen etBuff swap).toNat + 1) ∧ s.Below bufferSize.toNat) ∧
    c.passes.IsChain (· < ·)

/-- The length word at `p`, in native order. -/
def eventLen (etBuff : Mem UInt32) (p : Nat) : Nat := (evioSwap32 (etBuff p)).toNat

/-- The positions of the events of a stack that ends at `len`, when nothing overflows. -/
inductive EventAt (etBuff : Mem UInt32) (len : Nat) : Nat → Prop where
  | first : EventAt etBuff len 8
  | next {p : Nat} : EventAt etBuff len p → p < len → p + eventLen etBuff p ≤ len →
      EventAt etBuff len (p + eventLen etBuff p + 1)

/-- What the length words of a block that needs swapping must satisfy. -/
structure SwapSafe (etBuff : Mem UInt32) (bufferSize : UInt32) (len : Nat) : Prop where
  header : 7 ≤ len
  buffer : 8 ≤ bufferSize.toNat
  noOverflow : ∀ p, EventAt etBuff len p → p < len → p + eventLen etBuff p < 2 ^ 32
  fits : ∀ p, EventAt etBuff len p → p < len → p + eventLen etBuff p ≤ len →
    p + eventLen etBuff p < bufferSize.toNat

/-- The same of the loop, started at `idx`. -/
def LoopRobust (etBuff : Mem UInt32) (bufferSize len : UInt32) (idx : UInt32) (nEvents : Nat)
    (buff : Mem UInt32) : Prop :=
  ∃ fuel c, swapLoop etBuff len fuel idx nEvents buff = some c ∧
    (∀ s ∈ c.reads, s.Below (len.toNat + 1)) ∧
    (∀ s ∈ c.writes, s.Below (len.toNat + 1) ∧ s.Below bufferSize.toNat) ∧
    c.passes.IsChain (· < ·)

section Loop

variable {etBuff : Mem UInt32} {bufferSize len idx : UInt32} {nEvents : Nat} {buff : Mem UInt32}

/-- The values of `idx` start with the one the loop was entered with. -/
theorem swapLoop_passes {fuel : Nat} {c : Copy} (h : swapLoop etBuff len fuel idx nEvents buff = some c) :
    ∃ later, c.passes = idx :: later := by
  cases fuel with
  | zero => simp [swapLoop] at h
  | succ fuel =>
      unfold swapLoop at h
      by_cases hlt : idx < len
      · rw [if_pos hlt] at h
        simp only at h
        split at h
        · rw [← Option.some.inj h]
          exact ⟨[], rfl⟩
        · split at h
          · exact absurd h (by simp)
          · rename_i c' _
            rw [← Option.some.inj h]
            exact ⟨c'.passes, rfl⟩
      · rw [if_neg hlt] at h
        rw [← Option.some.inj h]
        exact ⟨[], rfl⟩

/-- The length word the loop looks at is a word of the block. -/
theorem lengthWord_below (hlt : idx < len) : Span.Below ⟨idx.toNat, 1⟩ (len.toNat + 1) := by
  apply Span.below_of_le
  have hlt' : idx.toNat < len.toNat := hlt
  show idx.toNat + 1 ≤ len.toNat + 1
  omega

theorem loopRobust_of_le (h : ¬ idx < len) : LoopRobust etBuff bufferSize len idx nEvents buff := by
  refine ⟨1, { buff, nEventsInStack := nEvents, reads := [], writes := [], passes := [idx] }, ?_, ?_⟩
  · unfold swapLoop
    rw [if_neg h]
  · simp

theorem loopRobust_of_badCount (hlt : idx < len) (hbad : idx + evioSwap32 (etBuff idx.toNat) > len) :
    LoopRobust etBuff bufferSize len idx nEvents buff := by
  refine ⟨1, { buff, nEventsInStack := nEvents, reads := [⟨idx.toNat, 1⟩], writes := [], passes := [idx] }, ?_, ?_⟩
  · unfold swapLoop
    simp only
    rw [if_pos hlt, if_pos hbad]
  · simpa using lengthWord_below hlt

/-- **One pass.** Where an event is swapped, the loop is robust exactly when this event stays in bounds, `idx`
    grows, and the loop is robust from there. -/
theorem loopRobust_of_swap (hlt : idx < len) (hok : ¬ idx + evioSwap32 (etBuff idx.toNat) > len) :
    LoopRobust etBuff bufferSize len idx nEvents buff ↔
      Span.Below ⟨idx.toNat, (evioSwap32 (etBuff idx.toNat) + 1).toNat⟩ (len.toNat + 1) ∧
      Span.Below ⟨idx.toNat, (evioSwap32 (etBuff idx.toNat) + 1).toNat⟩ bufferSize.toNat ∧
      idx < idx + (evioSwap32 (etBuff idx.toNat) + 1) ∧
      LoopRobust etBuff bufferSize len (idx + (evioSwap32 (etBuff idx.toNat) + 1)) (nEvents + 1)
        (swapInt32 etBuff ⟨idx.toNat, (evioSwap32 (etBuff idx.toNat) + 1).toNat⟩ buff) := by
  constructor
  · rintro ⟨fuel, c, hrun, hreads, hwrites, hpasses⟩
    cases fuel with
    | zero => simp [swapLoop] at hrun
    | succ fuel =>
        unfold swapLoop at hrun
        simp only at hrun
        rw [if_pos hlt, if_neg hok] at hrun
        split at hrun
        · exact absurd hrun (by simp)
        · rename_i c' hrun'
          rw [← Option.some.inj hrun] at hreads hwrites hpasses
          obtain ⟨later, hlater⟩ := swapLoop_passes hrun'
          simp only [List.mem_cons, forall_eq_or_imp] at hreads hwrites
          rw [hlater, List.isChain_cons_cons] at hpasses
          refine ⟨hreads.2.1, hwrites.1.2, hpasses.1, fuel, c', hrun', hreads.2.2, hwrites.2, ?_⟩
          rw [hlater]
          exact hpasses.2
  · rintro ⟨hread, hwrite, hgrow, fuel, c, hrun, hreads, hwrites, hpasses⟩
    obtain ⟨later, hlater⟩ := swapLoop_passes hrun
    refine ⟨fuel + 1, { c with
      reads := ⟨idx.toNat, 1⟩ :: ⟨idx.toNat, (evioSwap32 (etBuff idx.toNat) + 1).toNat⟩ :: c.reads
      writes := ⟨idx.toNat, (evioSwap32 (etBuff idx.toNat) + 1).toNat⟩ :: c.writes
      passes := idx :: c.passes }, ?_, ?_, ?_, ?_⟩
    · unfold swapLoop
      simp only
      rw [if_pos hlt, if_neg hok, hrun]
    · simp only [List.mem_cons, forall_eq_or_imp]
      exact ⟨lengthWord_below hlt, hread, hreads⟩
    · simp only [List.mem_cons, forall_eq_or_imp]
      exact ⟨⟨hread, hwrite⟩, hwrites⟩
    · rw [hlater, List.isChain_cons_cons]
      rw [hlater] at hpasses
      exact ⟨hgrow, hpasses⟩

/-! ## The loop on a stack that stays in bounds -/

/-- The test of the word count, when the sum does not overflow. -/
theorem badCount_iff (h : idx.toNat + eventLen etBuff idx.toNat < 2 ^ 32) :
    idx + evioSwap32 (etBuff idx.toNat) > len ↔ len.toNat < idx.toNat + eventLen etBuff idx.toNat := by
  rw [gt_iff_lt, UInt32.lt_iff_toNat_lt, UInt32.toNat_add]
  unfold eventLen at h ⊢
  rw [Nat.mod_eq_of_lt h]

/-- A sum that overflows always passes the test of the word count. -/
theorem not_badCount_of_overflow (hlt : idx < len) (h : 2 ^ 32 ≤ idx.toNat + eventLen etBuff idx.toNat) :
    ¬ idx + evioSwap32 (etBuff idx.toNat) > len := by
  have hlt' : idx.toNat < len.toNat := hlt
  have hm := (evioSwap32 (etBuff idx.toNat)).toNat_lt
  have hi := idx.toNat_lt
  rw [gt_iff_lt, UInt32.lt_iff_toNat_lt, UInt32.toNat_add]
  unfold eventLen at h
  omega

/-- The step to the next event, when it does not overflow. -/
theorem next_toNat (h : idx.toNat + eventLen etBuff idx.toNat + 1 < 2 ^ 32) :
    (evioSwap32 (etBuff idx.toNat) + 1).toNat = eventLen etBuff idx.toNat + 1 ∧
      (idx + (evioSwap32 (etBuff idx.toNat) + 1)).toNat = idx.toNat + eventLen etBuff idx.toNat + 1 := by
  unfold eventLen at h ⊢
  have hone : (1 : UInt32).toNat = 1 := rfl
  rw [UInt32.toNat_add, UInt32.toNat_add, UInt32.toNat_add, hone]
  omega

/-- The step to the next event moves `idx` forward exactly when it does not overflow. -/
theorem grows_iff :
    idx < idx + (evioSwap32 (etBuff idx.toNat) + 1) ↔
      idx.toNat + eventLen etBuff idx.toNat + 1 < 2 ^ 32 := by
  have hm := (evioSwap32 (etBuff idx.toNat)).toNat_lt
  have hi := idx.toNat_lt
  have hone : (1 : UInt32).toNat = 1 := rfl
  unfold eventLen
  rw [UInt32.lt_iff_toNat_lt, UInt32.toNat_add, UInt32.toNat_add, hone]
  omega

theorem loopRobust_of_swapSafe (hsafe : SwapSafe etBuff bufferSize len.toNat)
    (hat : EventAt etBuff len.toNat idx.toNat) : LoopRobust etBuff bufferSize len idx nEvents buff := by
  -- by induction on what is left of the block
  induction hleft : len.toNat - idx.toNat using Nat.strong_induction_on generalizing idx nEvents buff with
  | _ left ih =>
      by_cases hlt : idx < len
      · have hlt' : idx.toNat < len.toNat := hlt
        have hover := hsafe.noOverflow _ hat hlt'
        by_cases hbad : idx + evioSwap32 (etBuff idx.toNat) > len
        · exact loopRobust_of_badCount hlt hbad
        · have hle : idx.toNat + eventLen etBuff idx.toNat ≤ len.toNat := by
            have hiff := (badCount_iff hover).not.mp hbad
            omega
          have hfits := hsafe.fits _ hat hlt' hle
          have hsize := bufferSize.toNat_lt
          have hin : idx.toNat + eventLen etBuff idx.toNat + 1 < 2 ^ 32 := by omega
          obtain ⟨hcount, hnext⟩ := next_toNat hin
          rw [loopRobust_of_swap hlt hbad]
          refine ⟨?_, ?_, ?_, ?_⟩
          · apply Span.below_of_le
            show idx.toNat + (evioSwap32 (etBuff idx.toNat) + 1).toNat ≤ _
            omega
          · apply Span.below_of_le
            show idx.toNat + (evioSwap32 (etBuff idx.toNat) + 1).toNat ≤ _
            omega
          · exact grows_iff.mpr hin
          · refine ih _ ?_ ?_ rfl
            · omega
            · rw [hnext]
              exact hat.next hlt' hle
      · exact loopRobust_of_le hlt

/-- From a robust loop the events of the stack are reached one after the other. -/
theorem loopRobust_at {nEvents₀ : Nat} {buff₀ : Mem UInt32}
    (hrobust : LoopRobust etBuff bufferSize len 8 nEvents₀ buff₀) {p : Nat} (hat : EventAt etBuff len.toNat p) :
    ∃ idx nEvents buff, idx.toNat = p ∧ LoopRobust etBuff bufferSize len idx nEvents buff := by
  induction hat with
  | first => exact ⟨8, nEvents₀, buff₀, rfl, hrobust⟩
  | @next p _ hlt hle ih =>
      obtain ⟨idx, nEvents, buff, rfl, hloop⟩ := ih
      have hlen := len.toNat_lt
      have hok : ¬ idx + evioSwap32 (etBuff idx.toNat) > len := by
        rw [badCount_iff (by omega)]
        omega
      rw [loopRobust_of_swap hlt hok] at hloop
      obtain ⟨_, _, hgrow, hnext⟩ := hloop
      exact ⟨_, _, _, (next_toNat (grows_iff.mp hgrow)).2, hnext⟩

/-- A robust loop is one whose length words are in order. -/
theorem swapSafe_of_loopRobust {nEvents₀ : Nat} {buff₀ : Mem UInt32} (hheader : 7 ≤ len.toNat)
    (hbuffer : 8 ≤ bufferSize.toNat) (hrobust : LoopRobust etBuff bufferSize len 8 nEvents₀ buff₀) :
    SwapSafe etBuff bufferSize len.toNat where
  header := hheader
  buffer := hbuffer
  noOverflow p hat hlt := by
    obtain ⟨idx, nEvents, buff, rfl, hloop⟩ := loopRobust_at hrobust hat
    by_contra hcon
    have hover : 2 ^ 32 ≤ idx.toNat + eventLen etBuff idx.toNat := by omega
    rw [loopRobust_of_swap hlt (not_badCount_of_overflow hlt hover)] at hloop
    obtain ⟨_, _, hgrow, _⟩ := hloop
    have hin := grows_iff.mp hgrow
    omega
  fits p hat hlt hle := by
    obtain ⟨idx, nEvents, buff, rfl, hloop⟩ := loopRobust_at hrobust hat
    have hlen := len.toNat_lt
    have hok : ¬ idx + evioSwap32 (etBuff idx.toNat) > len := by
      rw [badCount_iff (by omega)]
      omega
    rw [loopRobust_of_swap hlt hok] at hloop
    obtain ⟨_, hwrite, hgrow, _⟩ := hloop
    obtain ⟨hcount, _⟩ := next_toNat (grows_iff.mp hgrow)
    have hlast := hwrite.last_lt (show 0 < (evioSwap32 (etBuff idx.toNat) + 1).toNat by omega)
    simp only [hcount] at hlast
    omega

end Loop

/-! ## When the copy is robust -/

/-- The plain copy is always robust: `memcpy` moves what the size check has let through. -/
theorem robust_memcpy {etBuff : Mem UInt32} {bufferSize : UInt32}
    (hsize : ¬ bufsizeBytes (blockLen etBuff false) > bufferSize) : Robust etBuff bufferSize false := by
  intro buff
  have hle : (bufsizeBytes (blockLen etBuff false)).toNat ≤ bufferSize.toNat := by
    rw [gt_iff_lt, UInt32.lt_iff_toNat_lt] at hsize
    omega
  have hbytes : (bufsizeBytes (blockLen etBuff false)).toNat / 4 ≤ (blockLen etBuff false).toNat + 1 := by
    unfold bufsizeBytes
    have hone : (1 : UInt32).toNat = 1 := rfl
    have hfour : (4 : UInt32).toNat = 4 := rfl
    rw [UInt32.toNat_mul, UInt32.toNat_add, hone, hfour]
    omega
  refine ⟨0, _, rfl, ?_, ?_, ?_⟩
  · intro s hs
    rw [List.mem_singleton.mp hs]
    apply Span.below_of_le
    show 0 + (bufsizeBytes (blockLen etBuff false)).toNat / 4 ≤ _
    omega
  · intro s hs
    rw [List.mem_singleton.mp hs]
    constructor
    · apply Span.below_of_le
      show 0 + (bufsizeBytes (blockLen etBuff false)).toNat / 4 ≤ _
      omega
    · apply Span.below_of_le
      show 0 + (bufsizeBytes (blockLen etBuff false)).toNat / 4 ≤ _
      omega
  · exact List.IsChain.nil

/-- The swapping copy is the header and the loop. -/
theorem robust_swap_iff {etBuff : Mem UInt32} {bufferSize : UInt32} :
    Robust etBuff bufferSize true ↔ SwapSafe etBuff bufferSize (blockLen etBuff true).toNat := by
  constructor
  · intro h
    obtain ⟨fuel, c, hrun, hreads, hwrites, hpasses⟩ := h (fun _ => 0)
    unfold copyStage at hrun
    simp only [Bool.not_true, Bool.false_eq_true, if_false] at hrun
    split at hrun
    · exact absurd hrun (by simp)
    · rename_i c' hloop
      rw [← Option.some.inj hrun] at hreads hwrites hpasses
      simp only [List.mem_cons, forall_eq_or_imp] at hreads hwrites
      have hheader := hreads.1.last_lt (show 0 < 8 by omega)
      have hbuffer := hwrites.1.2.last_lt (show 0 < 8 by omega)
      simp only at hheader hbuffer
      exact swapSafe_of_loopRobust (by omega) (by omega) ⟨fuel, c', hloop, hreads.2, hwrites.2, hpasses⟩
  · intro h buff
    have hrobust : LoopRobust etBuff bufferSize (blockLen etBuff true) 8 0 (swapInt32 etBuff ⟨0, 8⟩ buff) :=
      loopRobust_of_swapSafe h EventAt.first
    obtain ⟨fuel, c, hloop, hreads, hwrites, hpasses⟩ := hrobust
    refine ⟨fuel, { c with reads := ⟨0, 8⟩ :: c.reads, writes := ⟨0, 8⟩ :: c.writes }, ?_, ?_, ?_, hpasses⟩
    · unfold copyStage
      simp only [Bool.not_true, Bool.false_eq_true, if_false]
      rw [hloop]
    · simp only [List.mem_cons, forall_eq_or_imp]
      have hheader := h.header
      exact ⟨Span.below_of_le (by simp only; omega), hreads⟩
    · simp only [List.mem_cons, forall_eq_or_imp]
      have hheader := h.header
      have hbuffer := h.buffer
      exact ⟨⟨Span.below_of_le (by simp only; omega), Span.below_of_le (by simp only; omega)⟩, hwrites⟩

/-- **When the copy stage is robust**: always on a block in native order, and on a block that needs swapping
    exactly when it holds a header, and no event of its stack overflows the index or ends beyond `buff`. -/
theorem copyStage_robust_iff (etBuff : Mem UInt32) (bufferSize : UInt32) (swap : Bool)
    (hmagic : swapNeeded (etBuff 7) = some swap) (hsize : ¬ bufsizeBytes (blockLen etBuff swap) > bufferSize) :
    Robust etBuff bufferSize swap ↔
      (etBuff 7 = 0x0001dac0 → SwapSafe etBuff bufferSize (blockLen etBuff swap).toNat) := by
  have hswap : etBuff 7 = 0x0001dac0 ↔ swap = true := by
    unfold swapNeeded at hmagic
    split at hmagic
    · rename_i hword
      rw [hword, ← Option.some.inj hmagic]
      decide
    · split at hmagic
      · rename_i hword
        rw [hword, ← Option.some.inj hmagic]
        decide
      · exact absurd hmagic (by simp)
  rw [hswap]
  cases swap with
  | false => exact ⟨fun _ h => absurd h (by simp), fun _ => robust_memcpy hsize⟩
  | true => exact robust_swap_iff.trans ⟨fun h _ => h, fun h => h rfl⟩

/-- A block of the other byte order with 16 words, whose first event gives its length as `0xffffffff`. -/
def endlessBlock : Mem UInt32 := fun k =>
  if k = 0 then 0x10000000 else if k = 7 then 0x0001dac0 else 0xffffffff

theorem copyStage_robust_endlessBlock :
    swapNeeded (endlessBlock 7) = some true ∧ ¬ bufsizeBytes (blockLen endlessBlock true) > 3000000 ∧
      (Robust endlessBlock 3000000 true ↔
        (endlessBlock 7 = 0x0001dac0 → SwapSafe endlessBlock 3000000 (blockLen endlessBlock true).toNat)) :=
  ⟨by decide, by decide, copyStage_robust_iff endlessBlock 3000000 true (by decide) (by decide)⟩

/-- `idx` stays at 8, and the loop runs forever. -/
theorem endlessBlock_not_robust : ¬ Robust endlessBlock 3000000 true := by
  intro h
  have hforever : ∀ fuel nEvents buff, swapLoop endlessBlock (blockLen endlessBlock true) fuel 8 nEvents buff = none := by
    intro fuel
    induction fuel with
    | zero => intro nEvents buff; rfl
    | succ fuel ih =>
        intro nEvents buff
        unfold swapLoop
        have hlt : (8 : UInt32) < blockLen endlessBlock true := by decide
        have hok : ¬ 8 + evioSwap32 (endlessBlock (8 : UInt32).toNat) > blockLen endlessBlock true := by decide
        have hstay : 8 + (evioSwap32 (endlessBlock (8 : UInt32).toNat) + 1) = 8 := by decide
        simp only
        rw [if_pos hlt, if_neg hok, hstay, ih]
  obtain ⟨fuel, c, hrun, _⟩ := h (fun _ => 0)
  unfold copyStage at hrun
  simp only [Bool.not_true, Bool.false_eq_true, if_false] at hrun
  rw [hforever] at hrun
  exact absurd hrun (by simp)

end BdxReco
