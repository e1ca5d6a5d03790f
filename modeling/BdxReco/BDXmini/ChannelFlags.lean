import BdxReco.BDXmini.TriggerData
import BdxReco.Lib.Run

/-!
# `BDXmini.ChannelFlags` — setting and reading the channel flags

The remaining accessors of `triggerDataBDXmini`, and sequences of calls on a fresh object. All six accessors check their
argument with `ich > nChansMAX`, which lets 64 through: an element behind the array, the first one of `channelsTRG` in the
case of `channels`. An access to it has no result here. `channelFlags_iff` says when the flags are right.
-/

namespace BdxReco

open Run

namespace TriggerDataBDXmini

/-- The index check and the read of `hasChannel` and its sister, on one of the two arrays. -/
def getFlag (flags : Fin 64 → Bool) (ich : Int) : Option Bool :=
  if ich < 0 ∨ ich > 64 then some false
  else if h : ich.toNat < 64 then some (flags ⟨ich.toNat, h⟩)
  else none

def hasChannel (d : TriggerDataBDXmini) (ich : Int) : Option Bool := getFlag d.channels ich

def hasChannelTRG (d : TriggerDataBDXmini) (ich : Int) : Option Bool := getFlag d.channelsTRG ich

def unsetChannel (d : TriggerDataBDXmini) (ich : Int) : Option TriggerDataBDXmini :=
  (setFlag d.channels ich false).map (fun channels => { d with channels })

def unsetChannelTRG (d : TriggerDataBDXmini) (ich : Int) : Option TriggerDataBDXmini :=
  (setFlag d.channelsTRG ich false).map (fun channelsTRG => { d with channelsTRG })

/-! ## The check -/

theorem getFlag_of_out {ich : Int} (h : ich < 0 ∨ ich > 64) (flags : Fin 64 → Bool) : getFlag flags ich = some false :=
  if_pos h

theorem getFlag_val (flags : Fin 64 → Bool) (k : Fin 64) : getFlag flags k.val = some (flags k) := by
  unfold getFlag
  rw [if_neg (by omega), dif_pos (by omega)]
  rfl

theorem getFlag_64 (flags : Fin 64 → Bool) : getFlag flags 64 = none := rfl

theorem setFlag_of_out {ich : Int} (h : ich < 0 ∨ ich > 64) (flags : Fin 64 → Bool) (b : Bool) :
    setFlag flags ich b = some flags :=
  if_pos h

theorem setFlag_fin (flags : Fin 64 → Bool) (k : Fin 64) (b : Bool) :
    setFlag flags k.val b = some (Function.update flags k b) := by
  unfold setFlag
  rw [if_neg (by omega), dif_pos (by omega)]
  rfl

theorem setFlag_64 (flags : Fin 64 → Bool) (b : Bool) : setFlag flags 64 b = none := rfl

/-- An argument is refused, names a channel, or is the 64 that the check forgets. -/
theorem ich_cases (ich : Int) : (ich < 0 ∨ ich > 64) ∨ (∃ k : Fin 64, ich = k.val) ∨ ich = 64 := by
  by_cases hout : ich < 0 ∨ ich > 64
  · exact Or.inl hout
  · by_cases h64 : ich = 64
    · exact Or.inr (Or.inr h64)
    · refine Or.inr (Or.inl ⟨⟨ich.toNat, by omega⟩, ?_⟩)
      show ich = (ich.toNat : Int)
      omega

/-- A checked write is a write to the one channel it names. -/
theorem setFlag_eq {ich : Int} (h : ich ≠ 64) (flags : Fin 64 → Bool) (b : Bool) :
    ∃ flags', setFlag flags ich b = some flags' ∧
      ∀ k : Fin 64, flags' k = if ich = k.val then b else flags k := by
  rcases ich_cases ich with hout | ⟨k, rfl⟩ | h64
  · refine ⟨flags, setFlag_of_out hout flags b, ?_⟩
    intro k
    rw [if_neg (by omega)]
  · refine ⟨_, setFlag_fin flags k b, ?_⟩
    intro k'
    by_cases hk : k' = k
    · simp [hk]
    · have hval : ¬ ((k.val : Int) = (k'.val : Int)) := fun heq => hk (Fin.ext (by omega))
      rw [Function.update_of_ne hk, if_neg hval]
  · exact absurd h64 h

end TriggerDataBDXmini

/-! ## Sequences of calls -/

/-- A call that sets or clears a flag. -/
inductive FlagCall where
  | setChannel (ich : Int)
  | unsetChannel (ich : Int)
  | setChannelTRG (ich : Int)
  | unsetChannelTRG (ich : Int)
  deriving DecidableEq, Repr

namespace FlagCall

def ich : FlagCall → Int
  | setChannel ich => ich
  | unsetChannel ich => ich
  | setChannelTRG ich => ich
  | unsetChannelTRG ich => ich

/-- Whether the call is about the second array. -/
def trg : FlagCall → Bool
  | setChannel _ => false
  | unsetChannel _ => false
  | setChannelTRG _ => true
  | unsetChannelTRG _ => true

/-- What the call writes. -/
def value : FlagCall → Bool
  | setChannel _ => true
  | unsetChannel _ => false
  | setChannelTRG _ => true
  | unsetChannelTRG _ => false

/-- The calls for one flag. -/
def Addresses (c : FlagCall) (trg : Bool) (i : Int) : Prop := c.trg = trg ∧ c.ich = i

/-- The call that sets a flag. -/
def setCall : Bool → Int → FlagCall
  | false => setChannel
  | true => setChannelTRG

def unsetCall : Bool → Int → FlagCall
  | false => unsetChannel
  | true => unsetChannelTRG

theorem addresses_iff (trg : Bool) (i : Int) (c : FlagCall) :
    c.Addresses trg i ↔ c = setCall trg i ∨ c = unsetCall trg i := by
  cases trg <;> cases c <;> simp [Addresses, FlagCall.trg, ich, setCall, unsetCall]

theorem value_setCall (trg : Bool) (i : Int) : (setCall trg i).value = true := by
  cases trg <;> rfl

theorem value_unsetCall (trg : Bool) (i : Int) : (unsetCall trg i).value = false := by
  cases trg <;> rfl

end FlagCall

namespace TriggerDataBDXmini

def call (d : TriggerDataBDXmini) : FlagCall → Option TriggerDataBDXmini
  | .setChannel ich => d.setChannel ich
  | .unsetChannel ich => d.unsetChannel ich
  | .setChannelTRG ich => d.setChannelTRG ich
  | .unsetChannelTRG ich => d.unsetChannelTRG ich

/-- A fresh object after a sequence of calls; `none` if one of them is out of bounds. -/
def afterCalls (calls : List FlagCall) : Option TriggerDataBDXmini := calls.foldlM call {}

/-- The two arrays. -/
def flags (d : TriggerDataBDXmini) : Bool → Fin 64 → Bool
  | false => d.channels
  | true => d.channelsTRG

def withFlags (d : TriggerDataBDXmini) (flags : Fin 64 → Bool) : Bool → TriggerDataBDXmini
  | false => { d with channels := flags }
  | true => { d with channelsTRG := flags }

theorem withFlags_self (d : TriggerDataBDXmini) (f : Fin 64 → Bool) (trg : Bool) : (d.withFlags f trg).flags trg = f := by
  cases trg <;> rfl

theorem withFlags_ne (d : TriggerDataBDXmini) (f : Fin 64 → Bool) {trg trg' : Bool} (h : trg ≠ trg') :
    (d.withFlags f trg).flags trg' = d.flags trg' := by
  cases trg <;> cases trg' <;> first | rfl | exact absurd rfl h

/-- The four calls are one: a checked write to one of the arrays. -/
theorem call_eq (d : TriggerDataBDXmini) (c : FlagCall) :
    d.call c = (setFlag (d.flags c.trg) c.ich c.value).map (fun f => d.withFlags f c.trg) := by
  cases c <;> rfl

/-- **What a call does.** It writes the one flag it names; no other flag of either array changes. -/
theorem call_flags {c : FlagCall} (h : c.ich ≠ 64) (d : TriggerDataBDXmini) :
    ∃ d', d.call c = some d' ∧ ∀ trg (k : Fin 64),
      (c.Addresses trg k.val → d'.flags trg k = c.value) ∧
        (¬ c.Addresses trg k.val → d'.flags trg k = d.flags trg k) := by
  obtain ⟨f, hset, hf⟩ := setFlag_eq h (d.flags c.trg) c.value
  refine ⟨d.withFlags f c.trg, by rw [call_eq, hset, Option.map_some], ?_⟩
  intro trg k
  constructor
  · rintro ⟨rfl, hich⟩
    rw [withFlags_self, hf, if_pos hich]
  · intro hne
    by_cases htrg : c.trg = trg
    · subst htrg
      rw [withFlags_self, hf, if_neg (fun hich => hne ⟨rfl, hich⟩)]
    · rw [withFlags_ne d f htrg]

/-- The calls with 64 are out of bounds, and only they. -/
theorem call_isSome_iff (d : TriggerDataBDXmini) (c : FlagCall) : (d.call c).isSome = true ↔ c.ich ≠ 64 := by
  constructor
  · intro hsome h64
    rw [call_eq, h64, setFlag_64] at hsome
    exact Bool.noConfusion hsome
  · intro h
    obtain ⟨d', hcall, -⟩ := call_flags h d
    rw [hcall]
    rfl

theorem afterCalls_isSome_iff (calls : List FlagCall) :
    (afterCalls calls).isSome = true ↔ ∀ c ∈ calls, c.ich ≠ 64 := by
  have hchecked : Checked call (fun _ => True) (fun c => c.ich ≠ 64) :=
    ⟨fun d c _ => call_isSome_iff d c, fun _ _ _ _ _ => trivial⟩
  exact hchecked.foldlM.isSome_iff {} calls trivial

/-- **What a sequence of calls leaves.** A flag is set when the last call for it was a set. -/
theorem afterCalls_flags {calls : List FlagCall} (h : ∀ c ∈ calls, c.ich ≠ 64) :
    ∃ d, afterCalls calls = some d ∧
      ∀ trg (k : Fin 64), d.flags trg k = true ↔
        ∃ c, LastWith (fun c => c.Addresses trg k.val) calls c ∧ c.value = true := by
  induction calls using List.reverseRecOn with
  | nil =>
      refine ⟨{}, rfl, ?_⟩
      rintro (_ | _) k
      · simp [flags, not_lastWith_nil]
      · simp [flags, not_lastWith_nil]
  | append_singleton calls c ih =>
      obtain ⟨d, hrun, hflags⟩ := ih (fun c' hc' => h c' (by simp [hc']))
      obtain ⟨d', hcall, hflags'⟩ := call_flags (h c (by simp)) d
      refine ⟨d', ?_, ?_⟩
      · have hsplit : afterCalls (calls ++ [c]) = (afterCalls calls).bind (fun d => d.call c) := by
          simp [afterCalls, List.foldlM_append]
        rw [hsplit, hrun]
        exact hcall
      · intro trg k
        by_cases hc : c.Addresses trg k.val
        · -- the new call is the last one for this flag
          have hlast := lastWith_concat (P := fun c => c.Addresses trg k.val) hc calls
          rw [(hflags' trg k).1 hc]
          simp only [hlast, exists_eq_left]
        · have hlast := lastWith_concat_of_not (P := fun c => c.Addresses trg k.val) hc calls
          rw [(hflags' trg k).2 hc, hflags]
          simp only [hlast]

/-! ## When the flags are right -/

/-- What is asked of the flags after some calls, for one argument: that both can be read, and that each is the last set
    or unset of its own array. -/
def FlagsRight (calls : List FlagCall) (i : Int) : Prop :=
  ∃ d b bTRG, afterCalls calls = some d ∧ d.hasChannel i = some b ∧ d.hasChannelTRG i = some bTRG ∧
    (b = true ↔ 0 ≤ i ∧ i < 64 ∧
      LastWith (fun c => c = .setChannel i ∨ c = .unsetChannel i) calls (.setChannel i)) ∧
    (bTRG = true ↔ 0 ≤ i ∧ i < 64 ∧
      LastWith (fun c => c = .setChannelTRG i ∨ c = .unsetChannelTRG i) calls (.setChannelTRG i))

/-- The last call for a flag, if it is a set. -/
theorem lastSet_iff (calls : List FlagCall) (trg : Bool) (i : Int) :
    (∃ c, LastWith (fun c => c.Addresses trg i) calls c ∧ c.value = true) ↔
      LastWith (fun c => c = FlagCall.setCall trg i ∨ c = FlagCall.unsetCall trg i) calls (FlagCall.setCall trg i) := by
  simp only [FlagCall.addresses_iff]
  constructor
  · rintro ⟨c, ⟨pre, suf, hcalls, rfl | rfl, hsuf⟩, hvalue⟩
    · exact ⟨pre, suf, hcalls, Or.inl rfl, hsuf⟩
    · rw [FlagCall.value_unsetCall] at hvalue
      exact absurd hvalue Bool.false_ne_true
  · intro hlast
    exact ⟨_, hlast, FlagCall.value_setCall trg i⟩

/-- **The flags are right exactly within the bounds**: no call, and not the question itself, has the argument 64. -/
theorem channelFlags_iff (calls : List FlagCall) (i : Int) :
    FlagsRight calls i ↔ (∀ c ∈ calls, c.ich ≠ 64) ∧ i ≠ 64 := by
  constructor
  · rintro ⟨d, b, bTRG, hrun, hread, -⟩
    constructor
    · rw [← afterCalls_isSome_iff, hrun]
      rfl
    · rintro rfl
      exact absurd hread (by simp [hasChannel, getFlag_64])
  · rintro ⟨hcalls, hi⟩
    obtain ⟨d, hrun, hflags⟩ := afterCalls_flags hcalls
    rcases ich_cases i with hout | ⟨k, rfl⟩ | h64
    · -- refused: nothing is set there
      refine ⟨d, false, false, hrun, getFlag_of_out hout _, getFlag_of_out hout _, ?_, ?_⟩
      · simp only [Bool.false_eq_true, false_iff]
        omega
      · simp only [Bool.false_eq_true, false_iff]
        omega
    · have hchannel : d.channels k = true ↔ _ := (hflags false k).trans (lastSet_iff calls false k.val)
      have hTRG : d.channelsTRG k = true ↔ _ := (hflags true k).trans (lastSet_iff calls true k.val)
      have hlo : 0 ≤ (k.val : Int) := by omega
      have hhi : (k.val : Int) < 64 := by omega
      refine ⟨d, d.channels k, d.channelsTRG k, hrun, getFlag_val _ k, getFlag_val _ k, ?_, ?_⟩
      · exact hchannel.trans ⟨fun hlast => ⟨hlo, hhi, hlast⟩, fun hlast => hlast.2.2⟩
      · exact hTRG.trans ⟨fun hlast => ⟨hlo, hhi, hlast⟩, fun hlast => hlast.2.2⟩
    · exact absurd h64 hi

/-- Setting channel 64 writes behind the array. -/
theorem setChannel_64_out : ¬ FlagsRight [.setChannel 64] 0 := by
  rintro ⟨d, b, bTRG, hrun, -⟩
  have hnone : afterCalls [.setChannel 64] = none := rfl
  rw [hnone] at hrun
  exact absurd hrun.symm (Option.some_ne_none d)

end TriggerDataBDXmini

end BdxReco
