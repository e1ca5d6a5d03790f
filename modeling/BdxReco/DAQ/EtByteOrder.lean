import BdxReco.DAQ.EtBuffer

/-!
# `DAQ.EtByteOrder` — both byte orders give the same event

A well-formed block in native order (`NativeBlock`) is a header of eight words and a stack of events that ends
at `len` or just after it. Copied as it is, or byte-swapped by the sender and swapped back event by event, it
leaves the same words in `buff`.
-/

namespace BdxReco

/-- The words `p, …, e - 1` are consecutive events, each a length word `m ≥ 1` followed by `m` words. -/
inductive EventStack (W : Mem UInt32) : Nat → Nat → Prop where
  | nil {e : Nat} : EventStack W e e
  | cons {p e : Nat} : 1 ≤ (W p).toNat → EventStack W (p + (W p).toNat + 1) e → EventStack W p e

/-- A well-formed block in native order, with its events up to the word `e`. -/
structure NativeBlock (W : Mem UInt32) (bufferSize : UInt32) (e : Nat) : Prop where
  magic : W 7 = 0xc0da0100
  header : 8 ≤ (W 0).toNat
  size : 4 * ((W 0).toNat + 1) ≤ bufferSize.toNat
  bounds : e = (W 0).toNat ∨ e = (W 0).toNat + 1
  stack : EventStack W 8 e

/-- The block as a machine of the other byte order sends it. -/
def byteSwapped (W : Mem UInt32) : Mem UInt32 := fun k => evioSwap32 (W k)

variable {W : Mem UInt32}

theorem EventStack.le {p e : Nat} (h : EventStack W p e) : p ≤ e := by
  induction h with
  | nil => exact Nat.le_refl _
  | cons _ _ ih => omega

@[simp] theorem eventLen_byteSwapped (p : Nat) : eventLen (byteSwapped W) p = (W p).toNat := by
  simp [eventLen, byteSwapped]

@[simp] theorem blockLen_byteSwapped : blockLen (byteSwapped W) true = W 0 := by
  simp [blockLen, byteSwapped]

/-- Swapping back restores the words of the span. -/
theorem swapInt32_byteSwapped {s : Span} {buff : Mem UInt32} {k : Nat} :
    swapInt32 (byteSwapped W) s buff k = if s.Covers k then W k else buff k := by
  unfold swapInt32
  by_cases hk : s.Covers k
  · rw [Mem.fill_covers hk, if_pos hk]
    simp [byteSwapped]
  · rw [Mem.fill_not_covers hk, if_neg hk]

/-- Swapping an event extends the agreement to its end. -/
theorem swapInt32_extends {p n : Nat} {len : UInt32} {buff : Mem UInt32} (hlen : len.toNat = n + 1)
    (hbuff : ∀ k < p, buff k = W k) : ∀ k < p + n + 1, swapInt32 (byteSwapped W) ⟨p, len.toNat⟩ buff k = W k := by
  intro k hk
  rw [swapInt32_byteSwapped]
  by_cases hcov : Span.Covers ⟨p, len.toNat⟩ k
  · rw [if_pos hcov]
  · rw [if_neg hcov]
    apply hbuff
    unfold Span.Covers at hcov
    simp only [hlen] at hcov
    omega

/-- **The loop restores a stack**, whatever the number of its events: from a position up to which `buff` holds the
    block, it ends with the block up to the end of the stack. -/
theorem swapLoop_restores {len : UInt32} {p e : Nat} (hstack : EventStack W p e)
    (hbounds : e = len.toNat ∨ e = len.toNat + 1) (hlen : len.toNat + 1 < 2 ^ 32) {idx : UInt32}
    (hidx : idx.toNat = p) {fuel : Nat} (hfuel : len.toNat - p < fuel) (nEvents : Nat) {buff : Mem UInt32}
    (hbuff : ∀ k < p, buff k = W k) :
    ∃ c, swapLoop (byteSwapped W) len fuel idx nEvents buff = some c ∧ ∀ k < e, c.buff k = W k := by
  -- induction on the stack; `buff` agrees with the block below the position
  induction hstack generalizing idx fuel nEvents buff with
  | @nil e =>
      have hstop : ¬ idx < len := by
        rw [UInt32.lt_iff_toNat_lt]
        omega
      obtain ⟨n, rfl⟩ : ∃ n, fuel = n + 1 := ⟨fuel - 1, by omega⟩
      refine ⟨{ buff, nEventsInStack := nEvents, reads := [], writes := [], passes := [idx] }, ?_, hbuff⟩
      unfold swapLoop
      rw [if_neg hstop]
  | @cons p e hpos hrest ih =>
      subst hidx
      have hend := hrest.le
      have hlt : idx < len := by
        rw [UInt32.lt_iff_toNat_lt]
        omega
      have hin : idx.toNat + eventLen (byteSwapped W) idx.toNat + 1 < 2 ^ 32 := by
        rw [eventLen_byteSwapped]
        omega
      have hok : ¬ idx + evioSwap32 (byteSwapped W idx.toNat) > len := by
        rw [badCount_iff (by omega), eventLen_byteSwapped]
        omega
      obtain ⟨hcount, hnext⟩ := next_toNat hin
      rw [eventLen_byteSwapped] at hcount hnext
      obtain ⟨n, rfl⟩ : ∃ n, fuel = n + 1 := ⟨fuel - 1, by omega⟩
      -- the event just swapped extends the agreement to its end
      have hbuff' := swapInt32_extends hcount hbuff
      obtain ⟨c, hrun, hc⟩ := ih hbounds hnext (by omega : len.toNat - _ < n) (nEvents + 1) hbuff'
      refine ⟨{ c with
        reads := ⟨idx.toNat, 1⟩ :: ⟨idx.toNat, (evioSwap32 (byteSwapped W idx.toNat) + 1).toNat⟩ :: c.reads
        writes := ⟨idx.toNat, (evioSwap32 (byteSwapped W idx.toNat) + 1).toNat⟩ :: c.writes
        passes := idx :: c.passes }, ?_, hc⟩
      unfold swapLoop
      simp only
      rw [if_pos hlt, if_neg hok, hrun]

section Block

variable {bufferSize : UInt32} {e : Nat}

theorem NativeBlock.toNat_bufsizeBytes (h : NativeBlock W bufferSize e) :
    (bufsizeBytes (W 0)).toNat = 4 * ((W 0).toNat + 1) := by
  have hsize := h.size
  have hlt := bufferSize.toNat_lt
  have hone : (1 : UInt32).toNat = 1 := rfl
  have hfour : (4 : UInt32).toNat = 4 := rfl
  unfold bufsizeBytes
  rw [UInt32.toNat_mul, UInt32.toNat_add, hone, hfour]
  omega

theorem NativeBlock.size_ok (h : NativeBlock W bufferSize e) : ¬ bufsizeBytes (W 0) > bufferSize := by
  have hsize := h.size
  rw [gt_iff_lt, UInt32.lt_iff_toNat_lt, h.toNat_bufsizeBytes]
  omega

/-- In native order the block is copied as it is. -/
theorem NativeBlock.copy_native (h : NativeBlock W bufferSize e) (fuel : Nat) (buff : Mem UInt32) :
    ∃ c, copyEvent W bufferSize fuel buff = .copied c ∧ ∀ k < e, c.buff k = W k := by
  have hmagic : swapNeeded (W 7) = some false := by
    rw [h.magic]
    decide
  have hlen : blockLen W false = W 0 := rfl
  refine ⟨{ buff := memcpy W (bufsizeBytes (W 0)) buff, nEventsInStack := 0
            reads := [⟨0, (bufsizeBytes (W 0)).toNat / 4⟩]
            writes := [⟨0, (bufsizeBytes (W 0)).toNat / 4⟩], passes := [] }, ?_, ?_⟩
  · unfold copyEvent
    rw [hmagic]
    simp only [hlen]
    rw [if_neg h.size_ok]
    rfl
  · intro k hk
    apply Mem.fill_covers
    have hbounds := h.bounds
    rw [h.toNat_bufsizeBytes]
    refine ⟨Nat.zero_le k, ?_⟩
    show k < 0 + 4 * ((W 0).toNat + 1) / 4
    omega

/-- The swap path, given how its loop ends. -/
theorem copyEvent_swap {etBuff : Mem UInt32} {fuel : Nat} {buff : Mem UInt32} {c : Copy}
    (hmagic : swapNeeded (etBuff 7) = some true) (hsize : ¬ bufsizeBytes (blockLen etBuff true) > bufferSize)
    (hrun : swapLoop etBuff (blockLen etBuff true) fuel 8 0 (swapInt32 etBuff ⟨0, 8⟩ buff) = some c) :
    copyEvent etBuff bufferSize fuel buff
      = .copied { c with reads := ⟨0, 8⟩ :: c.reads, writes := ⟨0, 8⟩ :: c.writes } := by
  have hstage : copyStage etBuff true fuel buff
      = some { c with reads := ⟨0, 8⟩ :: c.reads, writes := ⟨0, 8⟩ :: c.writes } := by
    unfold copyStage
    simp only [Bool.not_true, Bool.false_eq_true, if_false]
    rw [hrun]
  unfold copyEvent
  rw [hmagic]
  simp only
  rw [if_neg hsize, hstage]

/-- In the other byte order it is swapped back. -/
theorem NativeBlock.copy_swapped (h : NativeBlock W bufferSize e) {fuel : Nat} (hfuel : (W 0).toNat ≤ fuel)
    (buff : Mem UInt32) :
    ∃ c, copyEvent (byteSwapped W) bufferSize fuel buff = .copied c ∧ ∀ k < e, c.buff k = W k := by
  have hmagic : swapNeeded (byteSwapped W 7) = some true := by
    unfold byteSwapped
    rw [h.magic]
    decide
  have hsize := h.size
  have hheader := h.header
  have hlt := bufferSize.toNat_lt
  have hhead : ∀ k < 8, swapInt32 (byteSwapped W) ⟨0, 8⟩ buff k = W k := by
    intro k hk
    have hcov : Span.Covers ⟨0, 8⟩ k := ⟨Nat.zero_le k, by show k < 0 + 8; omega⟩
    rw [swapInt32_byteSwapped, if_pos hcov]
  have hstart : (8 : UInt32).toNat = 8 := rfl
  obtain ⟨c, hrun, hc⟩ := swapLoop_restores h.stack h.bounds (by omega) hstart
    (by omega : (W 0).toNat - 8 < fuel) 0 hhead
  refine ⟨_, copyEvent_swap hmagic ?_ ?_, hc⟩
  · rw [blockLen_byteSwapped]
    exact h.size_ok
  · rw [blockLen_byteSwapped]
    exact hrun

end Block

/-- **Both byte orders give the same event**, for any number of events in the block. -/
theorem swap_agrees (W : Mem UInt32) (bufferSize : UInt32) (e : Nat) (h : NativeBlock W bufferSize e)
    (fuel : Nat) (hfuel : (W 0).toNat ≤ fuel) (buff buff' : Mem UInt32) :
    ∃ c c', copyEvent (byteSwapped W) bufferSize fuel buff = .copied c ∧
      copyEvent W bufferSize fuel buff' = .copied c' ∧ ∀ k < e, c.buff k = c'.buff k := by
  obtain ⟨c, hrun, hc⟩ := h.copy_swapped hfuel buff
  obtain ⟨c', hrun', hc'⟩ := h.copy_native fuel buff'
  refine ⟨c, c', hrun, hrun', ?_⟩
  intro k hk
  rw [hc k hk, hc' k hk]

/-- A block of eleven words with one event of two words, which ends just after `len`. -/
def smallBlock : Mem UInt32 := fun k => if k = 0 then 10 else if k = 7 then 0xc0da0100 else 2

theorem smallBlock_native : NativeBlock smallBlock 3000000 11 where
  magic := rfl
  header := by decide
  size := by decide
  bounds := Or.inr rfl
  stack := EventStack.cons (by decide) EventStack.nil

theorem swap_agrees_smallBlock :
    NativeBlock smallBlock 3000000 11 ∧ (smallBlock 0).toNat ≤ 10 ∧
      ∃ c c', copyEvent (byteSwapped smallBlock) 3000000 10 (fun _ => 0) = .copied c ∧
        copyEvent smallBlock 3000000 10 (fun _ => 0) = .copied c' ∧ ∀ k < 11, c.buff k = c'.buff k :=
  ⟨smallBlock_native, by decide,
    swap_agrees smallBlock 3000000 11 smallBlock_native 10 (by decide) (fun _ => 0) (fun _ => 0)⟩

end BdxReco
