import BdxReco.Lib.Binary64
import BdxReco.Lib.FirstMax
import BdxReco.Lib.GroupBy
import BdxReco.Lib.Run
import BdxReco.TT.Index
import Mathlib.Algebra.BigOperators.Group.List.Basic
import Mathlib.Algebra.Order.Field.Rat
import Mathlib.Algebra.Order.Group.Abs

/-!
# `IntVeto.IntVetoHit` — the hits of the inner veto

`IntVetoHit_factory::evnt` groups the digi hits by the counter they belong to. A counter with one digi hit is published
when its charge exceeds one threshold, a counter with several when enough of them exceed another one in coincidence
with the largest. The bottom counters can be treated as singles.

The variables of the search for the maximum are declared once for all counters. `publish` takes over what the counter
before has left in them, and `publish_of_above` says when this does not matter.
-/

namespace BdxReco

/-- The members of `IntVetoDigiHit` that the factory reads. -/
structure IntVetoDigiHit where
  channel : IntVetoIndex
  Qphe : ℚ
  T : ℚ
  Aphe : ℚ
  deriving DecidableEq, Repr

/-- `IntVetoHit`, with its associated objects; `none` is a time taken from a variable that has not been set. -/
structure IntVetoHit where
  channel : IntVetoIndex
  Q : ℚ
  T : Option ℚ
  A : ℚ
  associated : List IntVetoDigiHit
  deriving DecidableEq, Repr

namespace IntVetoHitFactory

open FirstMax Run StdMap

/-! ## `evnt` -/

/-- The parameters, with their defaults. -/
structure Parms where
  thrSingleReadout : ℚ := 5
  thrMultipleReadout : ℚ := 3
  dtMultipleReadout : ℚ := 100
  nMultipleReadout : Int := 2
  hitBottomWorkAround : Int := 0
  deriving DecidableEq, Repr

/-- The local variables that keep their value from one counter to the next; `none` is one that has not been set. -/
structure Locals where
  digi : Option IntVetoDigiHit := none
  Tmax : Option ℚ := none
  deriving DecidableEq, Repr

/-- The physical element: all its sensors have the readout 0 here. -/
def element (channel : IntVetoIndex) : IntVetoIndex := { channel with readout := 0 }

/-- `m_map`. -/
def hitMap (digis : List IntVetoDigiHit) : StdMap IntVetoIndex (List IntVetoDigiHit) :=
  groupBy (fun d => element d.channel) digis

/-- "Single readout". -/
def single (p : Parms) (l : Locals) (d : IntVetoDigiHit) : Locals × Option IntVetoHit :=
  ({ l with digi := some d },
    if d.Qphe > p.thrSingleReadout then
      some { channel := element d.channel, Q := d.Qphe, T := some d.T, A := d.Aphe, associated := [d] }
    else none)

/-- "work-around": `none` is a pointer that has not been set. -/
def workAround (p : Parms) (l : Locals) (digis : List IntVetoDigiHit) : Option (Locals × Option IntVetoHit) :=
  let (Qmax, digi, Tmax, Amax) :=
    scan IntVetoDigiHit.Qphe (fun d => (some d, some d.T, d.Aphe)) (-9999, l.digi, l.Tmax, -9999) digis
  if Qmax > p.thrSingleReadout then do
    let d ← digi
    some (⟨digi, Tmax⟩, some { channel := element d.channel, Q := Qmax, T := Tmax, A := Amax, associated := [d] })
  else some (⟨digi, Tmax⟩, none)

/-- Above the threshold and in time. -/
def coincident (p : Parms) (Tmax : ℚ) (digis : List IntVetoDigiHit) : List IntVetoDigiHit :=
  digis.filter (fun d => d.Qphe > p.thrMultipleReadout ∧ |Binary64.sub d.T Tmax| < p.dtMultipleReadout)

/-- The digi hits that are counted and associated. A time that has not been set is only looked at for a charge above
    the threshold. -/
def counted (p : Parms) (Tmax : Option ℚ) (digis : List IntVetoDigiHit) : Option (List IntVetoDigiHit) :=
  match Tmax with
  | some Tmax => some (coincident p Tmax digis)
  | none => if ∃ d ∈ digis, d.Qphe > p.thrMultipleReadout then none else some []

/-- "multiCounter case". `Amax` has been set to -9999 before and nothing sets it here. -/
def multiCounter (p : Parms) (l : Locals) (key : IntVetoIndex) (digis : List IntVetoDigiHit) :
    Option (Locals × Option IntVetoHit) :=
  let (Qmax, Tmax) := scan IntVetoDigiHit.Qphe (fun d => some d.T) (-9999, l.Tmax) digis
  if Qmax < p.thrMultipleReadout then some ({ l with Tmax }, none)
  else do
    let hits ← counted p Tmax digis
    some ({ l with Tmax },
      if (hits.length : Int) ≥ p.nMultipleReadout then
        some { channel := key, Q := Binary64.total (hits.map IntVetoDigiHit.Qphe), T := Tmax, A := -9999, associated := hits }
      else none)

/-- The body of the loop over `m_map`. -/
def publish (p : Parms) (l : Locals) (key : IntVetoIndex) (digis : List IntVetoDigiHit) :
    Option (Locals × Option IntVetoHit) :=
  match digis with
  | [d] => some (single p l d)
  | digis =>
    if p.hitBottomWorkAround ≠ 0 ∧ key.component.toInt = 3 then workAround p l digis
    else multiCounter p l key digis

/-- The loop over `m_map`. -/
def loop (p : Parms) : Locals → List (IntVetoIndex × List IntVetoDigiHit) → Option (List IntVetoHit)
  | _, [] => some []
  | l, (key, digis) :: rest => do
    let (l, hit) ← publish p l key digis
    let hits ← loop p l rest
    some (hit.toList ++ hits)

/-- `evnt`; `none` is a run whose outcome depends on a variable that has not been set. -/
def evnt (p : Parms) (digis : List IntVetoDigiHit) : Option (List IntVetoHit) := loop p {} (hitMap digis).entries

/-! ## One counter -/

/-- A counter that is published by its largest digi hit alone. -/
def OneHit (p : Parms) (key : IntVetoIndex) (digis : List IntVetoDigiHit) : Prop :=
  digis.length = 1 ∨ (p.hitBottomWorkAround ≠ 0 ∧ key.component.toInt = 3)

instance (p : Parms) (key : IntVetoIndex) (digis : List IntVetoDigiHit) : Decidable (OneHit p key digis) :=
  inferInstanceAs (Decidable (_ ∨ _))

/-- What is published for a counter with the largest digi hit `d`. -/
def outcome (p : Parms) (key : IntVetoIndex) (digis : List IntVetoDigiHit) (d : IntVetoDigiHit) : Option IntVetoHit :=
  if OneHit p key digis then
    if d.Qphe > p.thrSingleReadout then
      some { channel := key, Q := d.Qphe, T := some d.T, A := d.Aphe, associated := [d] }
    else none
  else if d.Qphe ≥ p.thrMultipleReadout ∧ ((coincident p d.T digis).length : Int) ≥ p.nMultipleReadout then
    some { channel := key, Q := Binary64.total ((coincident p d.T digis).map IntVetoDigiHit.Qphe), T := some d.T, A := -9999,
           associated := coincident p d.T digis }
  else none

section Counter

variable {p : Parms} {l : Locals} {key : IntVetoIndex} {digis : List IntVetoDigiHit} {d : IntVetoDigiHit}

theorem publish_of_single : publish p l key [d] = some (single p l d) := rfl

theorem publish_of_several (hlen : digis.length ≠ 1) :
    publish p l key digis = if p.hitBottomWorkAround ≠ 0 ∧ key.component.toInt = 3 then workAround p l digis
      else multiCounter p l key digis := by
  match digis with
  | [] => rfl
  | [d] => exact absurd rfl hlen
  | _ :: _ :: _ => rfl

theorem workAround_of_above (hd : FirstLargest IntVetoDigiHit.Qphe digis d) (habove : -9999 < d.Qphe) :
    ∃ l', workAround p l digis = some (l', if d.Qphe > p.thrSingleReadout then
      some { channel := element d.channel, Q := d.Qphe, T := some d.T, A := d.Aphe, associated := [d] }
      else none) := by
  unfold workAround
  rw [scan_of_firstLargest _ _ hd habove]
  dsimp only
  by_cases hthr : d.Qphe > p.thrSingleReadout
  · rw [if_pos hthr, if_pos hthr]
    exact ⟨_, rfl⟩
  · rw [if_neg hthr, if_neg hthr]
    exact ⟨_, rfl⟩

theorem multiCounter_of_above (hd : FirstLargest IntVetoDigiHit.Qphe digis d) (habove : -9999 < d.Qphe) :
    ∃ l', multiCounter p l key digis = some (l',
      if d.Qphe ≥ p.thrMultipleReadout ∧ ((coincident p d.T digis).length : Int) ≥ p.nMultipleReadout then
        some { channel := key, Q := Binary64.total ((coincident p d.T digis).map IntVetoDigiHit.Qphe), T := some d.T, A := -9999,
               associated := coincident p d.T digis }
      else none) := by
  unfold multiCounter
  rw [scan_of_firstLargest _ _ hd habove]
  dsimp only
  by_cases hthr : d.Qphe < p.thrMultipleReadout
  · rw [if_pos hthr, if_neg (fun h => absurd hthr (not_lt.mpr h.1))]
    exact ⟨_, rfl⟩
  · rw [if_neg hthr]
    by_cases hn : ((coincident p d.T digis).length : Int) ≥ p.nMultipleReadout
    · rw [if_pos ⟨not_lt.mp hthr, hn⟩]
      simp only [counted, Option.bind_eq_bind, Option.bind_some, if_pos hn]
      exact ⟨_, rfl⟩
    · rw [if_neg (fun h => hn h.2)]
      simp only [counted, Option.bind_eq_bind, Option.bind_some, if_neg hn]
      exact ⟨_, rfl⟩

/-- A counter with one digi hit. -/
theorem publish_of_length_one (hkey : ∀ x ∈ digis, element x.channel = key) (hlen : digis.length = 1) (hd : d ∈ digis) :
    ∃ l', publish p l key digis = some (l', outcome p key digis d) := by
  have hone : OneHit p key digis := Or.inl hlen
  unfold outcome
  rw [if_pos hone, ← hkey d hd]
  obtain ⟨x, rfl⟩ := List.length_eq_one_iff.mp hlen
  obtain rfl : d = x := List.mem_singleton.mp hd
  exact ⟨_, publish_of_single⟩

/-- **A counter with a charge above the start value of the search** is published by its own digi hits, whatever the
    counter before has left. -/
theorem publish_of_above (hkey : ∀ x ∈ digis, element x.channel = key)
    (hd : FirstLargest IntVetoDigiHit.Qphe digis d) (habove : -9999 < d.Qphe) :
    ∃ l', publish p l key digis = some (l', outcome p key digis d) := by
  by_cases hlen : digis.length = 1
  · exact publish_of_length_one hkey hlen hd.mem
  · have hchannel : element d.channel = key := hkey d hd.mem
    rw [publish_of_several hlen]
    unfold outcome
    by_cases hbottom : p.hitBottomWorkAround ≠ 0 ∧ key.component.toInt = 3
    · have hone : OneHit p key digis := Or.inr hbottom
      rw [if_pos hbottom, if_pos hone, ← hchannel]
      exact workAround_of_above hd habove
    · have hone : ¬ OneHit p key digis := not_or.mpr ⟨hlen, hbottom⟩
      rw [if_neg hbottom, if_neg hone]
      exact multiCounter_of_above hd habove

/-- A coincidence needs a charge above the threshold. -/
theorem coincident_eq_nil {Tmax : ℚ} (h : ∀ x ∈ digis, x.Qphe ≤ p.thrMultipleReadout) : coincident p Tmax digis = [] := by
  unfold coincident
  rw [List.filter_eq_nil_iff]
  intro x hx hpass
  exact absurd (of_decide_eq_true hpass).1 (not_lt.mpr (h x hx))

theorem counted_of_le (h : ∀ x ∈ digis, x.Qphe ≤ p.thrMultipleReadout) (Tmax : Option ℚ) :
    counted p Tmax digis = some [] := by
  cases Tmax with
  | some Tmax => exact congrArg some (coincident_eq_nil h)
  | none =>
      refine if_neg ?_
      rintro ⟨x, hx, hlt⟩
      exact absurd hlt (not_lt.mpr (h x hx))

/-- A counter without a charge above the start value of the search. The threshold has to be the start value itself for
    it to be published; the time is then the one a counter before has left. -/
theorem multiCounter_of_below (hthr : -9999 ≤ p.thrMultipleReadout) (hbelow : ∀ x ∈ digis, x.Qphe ≤ -9999) :
    ∃ l', multiCounter p l key digis = some (l',
      if p.thrMultipleReadout = -9999 ∧ p.nMultipleReadout ≤ 0 then
        some { channel := key, Q := 0, T := l.Tmax, A := -9999, associated := [] }
      else none) := by
  unfold multiCounter
  rw [scan_of_le _ _ hbelow]
  dsimp only
  by_cases hlt : -9999 < p.thrMultipleReadout
  · rw [if_pos hlt, if_neg (fun h => absurd h.1.symm (ne_of_lt hlt))]
    exact ⟨_, rfl⟩
  · have heq : p.thrMultipleReadout = -9999 := le_antisymm (not_lt.mp hlt) hthr
    rw [if_neg hlt, counted_of_le (by rw [heq]; exact hbelow)]
    simp only [Option.bind_eq_bind, Option.bind_some, List.length_nil, Nat.cast_zero, List.map_nil, Binary64.total_nil, heq,
      true_and]
    exact ⟨_, rfl⟩

theorem workAround_of_below (hthr : -9999 ≤ p.thrSingleReadout) (hbelow : ∀ x ∈ digis, x.Qphe ≤ -9999) :
    ∃ l', workAround p l digis = some (l', none) := by
  unfold workAround
  rw [scan_of_le _ _ hbelow]
  dsimp only
  rw [if_neg (not_lt.mpr hthr)]
  exact ⟨_, rfl⟩

/-- **What is published for a counter**, with thresholds that are not below the start value. -/
theorem publish_cases (hsingle : -9999 ≤ p.thrSingleReadout) (hmulti : -9999 ≤ p.thrMultipleReadout)
    (hkey : ∀ x ∈ digis, element x.channel = key) (hd : FirstLargest IntVetoDigiHit.Qphe digis d) :
    ∃ l', publish p l key digis = some (l',
      if OneHit p key digis ∨ -9999 < d.Qphe then outcome p key digis d
      else if p.thrMultipleReadout = -9999 ∧ p.nMultipleReadout ≤ 0 then
        some { channel := key, Q := 0, T := l.Tmax, A := -9999, associated := [] }
      else none) := by
  by_cases habove : -9999 < d.Qphe
  · rw [if_pos (Or.inr habove)]
    exact publish_of_above hkey hd habove
  · have hbelow : ∀ x ∈ digis, x.Qphe ≤ -9999 := fun x hx => (hd.le x hx).trans (not_lt.mp habove)
    by_cases hlen : digis.length = 1
    · have hone : OneHit p key digis := Or.inl hlen
      rw [if_pos (Or.inl hone)]
      exact publish_of_length_one hkey hlen hd.mem
    · rw [publish_of_several hlen]
      by_cases hbottom : p.hitBottomWorkAround ≠ 0 ∧ key.component.toInt = 3
      · have hone : OneHit p key digis := Or.inr hbottom
        have hnone : ¬ d.Qphe > p.thrSingleReadout := not_lt.mpr ((not_lt.mp habove).trans hsingle)
        rw [if_pos hbottom, if_pos (Or.inl hone)]
        unfold outcome
        rw [if_pos hone, if_neg hnone]
        exact workAround_of_below hsingle hbelow
      · have hone : ¬ OneHit p key digis := not_or.mpr ⟨hlen, hbottom⟩
        rw [if_neg hbottom, if_neg (not_or.mpr ⟨hone, habove⟩)]
        exact multiCounter_of_below hmulti hbelow

end Counter

/-! ## All counters -/

/-- The variables after some counters. -/
def localsAfter (p : Parms) (l : Locals) (entries : List (IntVetoIndex × List IntVetoDigiHit)) : Option Locals :=
  entries.foldlM (fun l e => (publish p l e.1 e.2).map Prod.fst) l

/-- What is published for an element. -/
def publishedFor (hits : List IntVetoHit) (key : IntVetoIndex) : List IntVetoHit :=
  hits.filter (fun hit => hit.channel = key)

theorem publishedFor_eq_nil {hits : List IntVetoHit} {key : IntVetoIndex} (h : ∀ hit ∈ hits, hit.channel ≠ key) :
    publishedFor hits key = [] := by
  unfold publishedFor
  rw [List.filter_eq_nil_iff]
  intro hit hhit heq
  exact h hit hhit (of_decide_eq_true heq)

theorem publishedFor_append (hits hits' : List IntVetoHit) (key : IntVetoIndex) :
    publishedFor (hits ++ hits') key = publishedFor hits key ++ publishedFor hits' key := List.filter_append _ _

/-- What is published under a key is found under it. -/
theorem publishedFor_own {out : Option IntVetoHit} {key : IntVetoIndex}
    (h : ∀ hit, out = some hit → hit.channel = key) : publishedFor out.toList key = out.toList := by
  cases out with
  | none => rfl
  | some hit => simp [publishedFor, h hit rfl]

/-- And not under another one. -/
theorem publishedFor_other {out : Option IntVetoHit} {key key' : IntVetoIndex}
    (h : ∀ hit, out = some hit → hit.channel = key) (hne : key ≠ key') : publishedFor out.toList key' = [] := by
  apply publishedFor_eq_nil
  intro hit hhit
  rw [h hit (by simpa using hhit)]
  exact hne

section Loop

variable {p : Parms} {entries : List (IntVetoIndex × List IntVetoDigiHit)}

/-- **The loop**: every counter is published from the variables it finds, under its own key. -/
theorem loop_spec (hnodup : (entries.map Prod.fst).Nodup)
    (hpublish : ∀ e ∈ entries, ∀ l, ∃ l' out, publish p l e.1 e.2 = some (l', out) ∧
      ∀ hit, out = some hit → hit.channel = e.1) (l : Locals) :
    ∃ hits, loop p l entries = some hits ∧ (∀ hit ∈ hits, hit.channel ∈ entries.map Prod.fst) ∧
      ∀ pre e suf, entries = pre ++ e :: suf → ∃ l₁ l₂ out, localsAfter p l pre = some l₁ ∧
        publish p l₁ e.1 e.2 = some (l₂, out) ∧ publishedFor hits e.1 = out.toList := by
  induction entries generalizing l with
  | nil =>
      refine ⟨[], rfl, by simp, ?_⟩
      intro pre e suf h
      simp at h
  | cons e entries ih =>
      rw [List.forall_mem_cons] at hpublish
      rw [List.map_cons, List.nodup_cons] at hnodup
      obtain ⟨l', out, hout, hchannel⟩ := hpublish.1 l
      obtain ⟨hits, hloop, hmem, hrest⟩ := ih hnodup.2 hpublish.2 l'
      have hothers : publishedFor hits e.1 = [] :=
        publishedFor_eq_nil (fun hit hhit heq => hnodup.1 (heq ▸ hmem hit hhit))
      refine ⟨out.toList ++ hits, ?_, ?_, ?_⟩
      · unfold loop
        simp only [hout, Option.bind_eq_bind, Option.bind_some, hloop]
      · intro hit hhit
        rcases List.mem_append.mp hhit with h | h
        · rw [hchannel hit (by simpa using h)]
          simp
        · exact List.mem_cons_of_mem _ (hmem hit h)
      · intro pre e' suf hsplit
        cases pre with
        | nil =>
            obtain ⟨rfl, rfl⟩ := List.cons.inj hsplit
            refine ⟨l, l', out, rfl, hout, ?_⟩
            rw [publishedFor_append, publishedFor_own hchannel, hothers, List.append_nil]
        | cons e'' pre =>
            obtain ⟨rfl, hsplit'⟩ := List.cons.inj hsplit
            obtain ⟨l₁, l₂, out', hlocals, hout', hpublished⟩ := hrest pre e' suf hsplit'
            have hne : e.1 ≠ e'.1 := by
              intro heq
              apply hnodup.1
              rw [heq, hsplit']
              simp
            refine ⟨l₁, l₂, out', ?_, hout', ?_⟩
            · unfold localsAfter at hlocals ⊢
              rw [List.foldlM_cons, hout]
              exact hlocals
            · rw [publishedFor_append, publishedFor_other hchannel hne, List.nil_append, hpublished]

end Loop

/-! ## Hits and the digi hits they are made of -/

/-- The digi hits of an element. -/
def digisOf (digis : List IntVetoDigiHit) (key : IntVetoIndex) : List IntVetoDigiHit :=
  group (fun d => element d.channel) digis key

/-- An amplitude that comes from those of the digi hits: the sum over the associated ones, or one of the element's. -/
def FromAphe (digis associated : List IntVetoDigiHit) (A : ℚ) : Prop :=
  A = Binary64.total (associated.map IntVetoDigiHit.Aphe) ∨ ∃ x ∈ digis, A = x.Aphe

/-- **What is wanted of a counter**, `hits` being what is published for it. -/
def CounterConsistent (p : Parms) (key : IntVetoIndex) (digis : List IntVetoDigiHit) (hits : List IntVetoHit) : Prop :=
  ∃ d ∈ digis, (∀ x ∈ digis, x.Qphe ≤ d.Qphe) ∧
    if OneHit p key digis then
      (hits ≠ [] ↔ p.thrSingleReadout < d.Qphe) ∧
        ∀ hit ∈ hits, hit.Q = d.Qphe ∧ hit.T = some d.T ∧ hit.A = d.Aphe
    else
      (hits ≠ [] ↔ p.nMultipleReadout ≤ (coincident p d.T digis).length ∧ p.thrMultipleReadout ≤ d.Qphe) ∧
        ∀ hit ∈ hits, hit.associated = coincident p d.T digis ∧
          hit.Q = Binary64.total ((coincident p d.T digis).map IntVetoDigiHit.Qphe) ∧ hit.T = some d.T ∧
          FromAphe digis hit.associated hit.A

/-- **What is wanted of an event.** -/
structure Consistent (p : Parms) (digis : List IntVetoDigiHit) (hits : List IntVetoHit) : Prop where
  atMostOne : ∀ key, (publishedFor hits key).length ≤ 1
  counters : ∀ key, digisOf digis key ≠ [] → CounterConsistent p key (digisOf digis key) (publishedFor hits key)
  others : ∀ key, digisOf digis key = [] → publishedFor hits key = []

/-- A counter whose search for the maximum sets `Tmax`. -/
def SetsTime (e : IntVetoIndex × List IntVetoDigiHit) : Prop := e.2.length ≠ 1 ∧ ∃ x ∈ e.2, -9999 < x.Qphe

/-- The time that the counters before leave: that of the first of the largest charges of the last one with a search
    that sets it. -/
def TimeLeft (before : List (IntVetoIndex × List IntVetoDigiHit)) (t : ℚ) : Prop :=
  ∃ e d, LastWith SetsTime before e ∧ FirstLargest IntVetoDigiHit.Qphe e.2 d ∧ d.T = t

/-- A counter with several digi hits that is published has -9999 for its amplitude, and must have it from its digi
    hits. Without a charge above -9999 its time, too, is not its own. -/
def CounterOk (p : Parms) (before : List (IntVetoIndex × List IntVetoDigiHit)) (key : IntVetoIndex)
    (digis : List IntVetoDigiHit) : Prop :=
  ¬ OneHit p key digis → ∀ d, FirstLargest IntVetoDigiHit.Qphe digis d →
    (-9999 < d.Qphe → p.thrMultipleReadout ≤ d.Qphe →
      p.nMultipleReadout ≤ (coincident p d.T digis).length → FromAphe digis (coincident p d.T digis) (-9999)) ∧
    (d.Qphe ≤ -9999 → p.thrMultipleReadout = -9999 → p.nMultipleReadout ≤ 0 →
      (∃ x ∈ digis, x.Qphe = -9999 ∧ TimeLeft before x.T) ∧ ∃ x ∈ digis, x.Aphe = -9999)

section Consistency

variable {p : Parms} {l : Locals} {key : IntVetoIndex} {digis : List IntVetoDigiHit} {d : IntVetoDigiHit}

/-- A counter published by its largest digi hit. -/
theorem consistent_oneHit (hone : OneHit p key digis) (hd : FirstLargest IntVetoDigiHit.Qphe digis d) :
    CounterConsistent p key digis (outcome p key digis d).toList := by
  refine ⟨d, hd.mem, hd.le, ?_⟩
  unfold outcome
  rw [if_pos hone, if_pos hone]
  by_cases hthr : d.Qphe > p.thrSingleReadout
  · rw [if_pos hthr]
    simp [hthr]
  · rw [if_neg hthr]
    simpa using hthr

/-- A counter with several digi hits and a charge above the start value. -/
theorem consistent_several_iff (hone : ¬ OneHit p key digis) (hd : FirstLargest IntVetoDigiHit.Qphe digis d) :
    CounterConsistent p key digis (outcome p key digis d).toList ↔
      (p.thrMultipleReadout ≤ d.Qphe → p.nMultipleReadout ≤ (coincident p d.T digis).length →
        FromAphe digis (coincident p d.T digis) (-9999)) := by
  unfold outcome CounterConsistent
  simp only [if_neg hone]
  by_cases hpass : d.Qphe ≥ p.thrMultipleReadout ∧ ((coincident p d.T digis).length : Int) ≥ p.nMultipleReadout
  · rw [if_pos hpass]
    constructor
    · rintro ⟨x, _, _, _, hhit⟩ _ _
      obtain ⟨_, _, _, hA⟩ := hhit _ (List.mem_singleton.mpr rfl)
      exact hA
    · intro hA
      refine ⟨d, hd.mem, hd.le, by simp [hpass.1, hpass.2], ?_⟩
      intro hit hhit
      obtain rfl := List.mem_singleton.mp hhit
      exact ⟨rfl, rfl, rfl, hA hpass.1 hpass.2⟩
  · rw [if_neg hpass]
    constructor
    · intro _ hthr hn
      exact absurd ⟨hthr, hn⟩ hpass
    · intro _
      refine ⟨d, hd.mem, hd.le, ?_, by simp⟩
      constructor
      · intro h
        exact absurd rfl h
      · rintro ⟨hn, hthr⟩
        exact absurd ⟨hthr, hn⟩ hpass

/-- One without such a charge. -/
theorem consistent_below_iff (hmulti : -9999 ≤ p.thrMultipleReadout) (hone : ¬ OneHit p key digis)
    (hd : FirstLargest IntVetoDigiHit.Qphe digis d) (hbelow : d.Qphe ≤ -9999) :
    CounterConsistent p key digis
        (if p.thrMultipleReadout = -9999 ∧ p.nMultipleReadout ≤ 0 then
          some { channel := key, Q := 0, T := l.Tmax, A := -9999, associated := [] : IntVetoHit }
        else none).toList ↔
      (p.thrMultipleReadout = -9999 → p.nMultipleReadout ≤ 0 →
        (∃ x ∈ digis, x.Qphe = -9999 ∧ l.Tmax = some x.T) ∧ ∃ x ∈ digis, x.Aphe = -9999) := by
  have hle : ∀ x ∈ digis, x.Qphe ≤ p.thrMultipleReadout :=
    fun x hx => ((hd.le x hx).trans hbelow).trans hmulti
  unfold CounterConsistent
  simp only [if_neg hone, coincident_eq_nil hle]
  by_cases hpass : p.thrMultipleReadout = -9999 ∧ p.nMultipleReadout ≤ 0
  · rw [if_pos hpass]
    constructor
    · rintro ⟨x, hx, hlargest, hpublished, hhit⟩ _ _
      have hthr := (hpublished.mp (by simp)).2
      obtain ⟨_, _, hT, hA⟩ := hhit _ (List.mem_singleton.mpr rfl)
      rw [hpass.1] at hthr
      refine ⟨⟨x, hx, le_antisymm ((hd.le x hx).trans hbelow) hthr, hT⟩, ?_⟩
      rcases hA with hA | ⟨y, hy, hA⟩
      · simp at hA
      · exact ⟨y, hy, hA.symm⟩
    · intro hboth
      obtain ⟨⟨x, hx, hQ, hT⟩, y, hy, hA⟩ := hboth hpass.1 hpass.2
      refine ⟨x, hx, ?_, ?_, ?_⟩
      · intro z hz
        rw [hQ]
        exact (hd.le z hz).trans hbelow
      · simp [hpass.1, hpass.2, hQ]
      · intro hit hhit
        obtain rfl := List.mem_singleton.mp hhit
        exact ⟨rfl, rfl, hT, Or.inr ⟨y, hy, hA.symm⟩⟩
  · rw [if_neg hpass]
    constructor
    · intro _ hthr hn
      exact absurd ⟨hthr, hn⟩ hpass
    · intro _
      refine ⟨d, hd.mem, hd.le, ?_, by simp⟩
      constructor
      · intro h
        exact absurd rfl h
      · rintro ⟨hn, hthr⟩
        exact absurd ⟨le_antisymm (hthr.trans hbelow) hmulti, by simpa using hn⟩ hpass

/-- **Exactly when a counter is consistent with its digi hits.** -/
theorem counterConsistent_iff (hsingle : -9999 ≤ p.thrSingleReadout) (hmulti : -9999 ≤ p.thrMultipleReadout)
    (hkey : ∀ x ∈ digis, element x.channel = key) (hne : digis ≠ [])
    {before : List (IntVetoIndex × List IntVetoDigiHit)} (htime : ∀ t, l.Tmax = some t ↔ TimeLeft before t)
    {l' : Locals} {out : Option IntVetoHit} (hout : publish p l key digis = some (l', out)) :
    CounterConsistent p key digis out.toList ↔ CounterOk p before key digis := by
  obtain ⟨d, hd⟩ := exists_firstLargest IntVetoDigiHit.Qphe hne
  obtain ⟨l'', hpublish⟩ := publish_cases (l := l) hsingle hmulti hkey hd
  rw [hout, Option.some.injEq, Prod.mk.injEq] at hpublish
  rw [hpublish.2]
  by_cases hone : OneHit p key digis
  · rw [if_pos (Or.inl hone)]
    constructor
    · intro _ h
      exact absurd hone h
    · intro _
      exact consistent_oneHit hone hd
  · have hok : CounterOk p before key digis ↔
        (-9999 < d.Qphe → p.thrMultipleReadout ≤ d.Qphe →
          p.nMultipleReadout ≤ (coincident p d.T digis).length → FromAphe digis (coincident p d.T digis) (-9999)) ∧
        (d.Qphe ≤ -9999 → p.thrMultipleReadout = -9999 → p.nMultipleReadout ≤ 0 →
          (∃ x ∈ digis, x.Qphe = -9999 ∧ TimeLeft before x.T) ∧ ∃ x ∈ digis, x.Aphe = -9999) := by
      constructor
      · intro h
        exact h hone d hd
      · intro h _ d' hd'
        rw [hd'.unique hd]
        exact h
    rw [hok]
    by_cases habove : -9999 < d.Qphe
    · rw [if_pos (Or.inr habove), consistent_several_iff hone hd]
      constructor
      · intro h
        exact ⟨fun _ => h, fun hbelow => absurd habove (not_lt.mpr hbelow)⟩
      · intro h
        exact h.1 habove
    · rw [if_neg (not_or.mpr ⟨hone, habove⟩), consistent_below_iff hmulti hone hd (not_lt.mp habove)]
      simp only [htime]
      constructor
      · intro h
        exact ⟨fun h' => absurd h' habove, fun _ => h⟩
      · intro h
        exact h.2 (not_lt.mp habove)

/-! ### What a counter leaves in `Tmax` -/

/-- A search that sets the time. -/
theorem Tmax_publish_of_sets {l' : Locals} {out : Option IntVetoHit} (hout : publish p l key digis = some (l', out))
    (hsets : SetsTime (key, digis)) (hd : FirstLargest IntVetoDigiHit.Qphe digis d) : l'.Tmax = some d.T := by
  obtain ⟨hlen, x, hx, hlt⟩ := hsets
  have habove : -9999 < d.Qphe := lt_of_lt_of_le hlt (hd.le x hx)
  rw [publish_of_several hlen] at hout
  split at hout
  · unfold workAround at hout
    rw [scan_of_firstLargest _ _ hd habove] at hout
    dsimp only at hout
    split at hout
    · obtain ⟨rfl, -⟩ := Prod.mk.inj (Option.some.inj hout)
      rfl
    · obtain ⟨rfl, -⟩ := Prod.mk.inj (Option.some.inj hout)
      rfl
  · unfold multiCounter at hout
    rw [scan_of_firstLargest _ _ hd habove] at hout
    dsimp only at hout
    split at hout
    · obtain ⟨rfl, -⟩ := Prod.mk.inj (Option.some.inj hout)
      rfl
    · obtain ⟨rfl, -⟩ := Prod.mk.inj (Option.some.inj hout)
      rfl

/-- One that does not, or no search. -/
theorem Tmax_publish_of_keeps {l' : Locals} {out : Option IntVetoHit} (hout : publish p l key digis = some (l', out))
    (hkeeps : ¬ SetsTime (key, digis)) : l'.Tmax = l.Tmax := by
  by_cases hlen : digis.length = 1
  · obtain ⟨x, rfl⟩ := List.length_eq_one_iff.mp hlen
    obtain ⟨rfl, -⟩ := Prod.mk.inj (Option.some.inj (publish_of_single.symm.trans hout))
    rfl
  · have hbelow : ∀ x ∈ digis, x.Qphe ≤ -9999 := fun x hx => not_lt.mp (fun hlt => hkeeps ⟨hlen, x, hx, hlt⟩)
    rw [publish_of_several hlen] at hout
    split at hout
    · unfold workAround at hout
      rw [scan_of_le _ _ hbelow] at hout
      dsimp only at hout
      split at hout
      · obtain ⟨x, _, hx⟩ := Option.bind_eq_some_iff.mp hout
        obtain ⟨rfl, -⟩ := Prod.mk.inj (Option.some.inj hx)
        rfl
      · obtain ⟨rfl, -⟩ := Prod.mk.inj (Option.some.inj hout)
        rfl
    · unfold multiCounter at hout
      rw [scan_of_le _ _ hbelow] at hout
      dsimp only at hout
      split at hout
      · obtain ⟨rfl, -⟩ := Prod.mk.inj (Option.some.inj hout)
        rfl
      · obtain ⟨x, _, hx⟩ := Option.bind_eq_some_iff.mp hout
        obtain ⟨rfl, -⟩ := Prod.mk.inj (Option.some.inj hx)
        rfl

/-- **`Tmax` holds the time that the counters before leave.** -/
theorem Tmax_localsAfter {before : List (IntVetoIndex × List IntVetoDigiHit)} (hne : ∀ e ∈ before, e.2 ≠ [])
    (hlocals : localsAfter p {} before = some l) (t : ℚ) : l.Tmax = some t ↔ TimeLeft before t := by
  unfold TimeLeft
  induction before using List.reverseRecOn generalizing l with
  | nil =>
      obtain rfl : {} = l := Option.some.inj hlocals
      constructor
      · intro h
        cases h
      · rintro ⟨e, _, hlast, _⟩
        exact absurd hlast (not_lastWith_nil SetsTime e)
  | append_singleton before e ih =>
      unfold localsAfter at hlocals
      rw [List.foldlM_append] at hlocals
      obtain ⟨l₁, hbefore, hstep⟩ := Option.bind_eq_some_iff.mp hlocals
      rw [List.foldlM_cons] at hstep
      obtain ⟨_, hpublish, heq⟩ := Option.bind_eq_some_iff.mp hstep
      obtain ⟨⟨l₂, out⟩, hout, rfl⟩ := Option.map_eq_some_iff.mp hpublish
      obtain rfl : l₂ = l := Option.some.inj heq
      by_cases hsets : SetsTime e
      · obtain ⟨d, hd⟩ := exists_firstLargest IntVetoDigiHit.Qphe (hne e (by simp))
        rw [Tmax_publish_of_sets hout hsets hd]
        simp only [lastWith_concat hsets]
        constructor
        · intro h
          exact ⟨e, d, rfl, hd, Option.some.inj h⟩
        · rintro ⟨_, d', rfl, hd', rfl⟩
          rw [hd'.unique hd]
      · rw [Tmax_publish_of_keeps hout hsets]
        simp only [lastWith_concat_of_not hsets]
        exact ih (fun e' he' => hne e' (by simp [he'])) hbefore

/-- The counters of an event. -/
theorem mem_entries {digis group : List IntVetoDigiHit} (h : (key, group) ∈ (hitMap digis).entries) :
    group = digisOf digis key ∧ group ≠ [] ∧ ∀ x ∈ group, element x.channel = key := by
  unfold hitMap at h
  rw [mem_entries_iff, find?_groupBy] at h
  split at h
  · cases h
  · next hne =>
      obtain rfl := Option.some.inj h
      exact ⟨rfl, hne, fun x hx => ((mem_group _).mp hx).2⟩

theorem channel_of_publish (hsingle : -9999 ≤ p.thrSingleReadout) (hmulti : -9999 ≤ p.thrMultipleReadout)
    (hkey : ∀ x ∈ digis, element x.channel = key) (hne : digis ≠ []) (l : Locals) :
    ∃ l' out, publish p l key digis = some (l', out) ∧ ∀ hit, out = some hit → hit.channel = key := by
  obtain ⟨d, hd⟩ := exists_firstLargest IntVetoDigiHit.Qphe hne
  obtain ⟨l', hpublish⟩ := publish_cases (l := l) hsingle hmulti hkey hd
  refine ⟨l', _, hpublish, ?_⟩
  intro hit hhit
  unfold outcome at hhit
  -- every branch that publishes does so under the key
  split at hhit
  · split at hhit
    · split at hhit
      · rw [← Option.some.inj hhit]
      · cases hhit
    · split at hhit
      · rw [← Option.some.inj hhit]
      · cases hhit
  · split at hhit
    · rw [← Option.some.inj hhit]
    · cases hhit

theorem mem_entries_of_place {digis group : List IntVetoDigiHit} {pre suf : List (IntVetoIndex × List IntVetoDigiHit)}
    (h : (hitMap digis).entries = pre ++ (key, group) :: suf) :
    group = digisOf digis key ∧ group ≠ [] ∧ ∀ x ∈ group, element x.channel = key := by
  apply mem_entries
  rw [h]
  exact List.mem_append_right pre List.mem_cons_self

/-- Every element with digi hits has a place in the map. -/
theorem exists_place {digis : List IntVetoDigiHit} (hne : digisOf digis key ≠ []) :
    ∃ pre suf, (hitMap digis).entries = pre ++ (key, digisOf digis key) :: suf := by
  apply List.append_of_mem
  unfold hitMap
  rw [mem_entries_iff, find?_groupBy]
  exact if_neg hne

/-- **An event, counter by counter**: what is published for the counter at a place of the map. -/
theorem evnt_counters (digis : List IntVetoDigiHit) (hsingle : -9999 ≤ p.thrSingleReadout)
    (hmulti : -9999 ≤ p.thrMultipleReadout) :
    ∃ hits, evnt p digis = some hits ∧ (∀ key, digisOf digis key = [] → publishedFor hits key = []) ∧
      ∀ pre key group suf, (hitMap digis).entries = pre ++ (key, group) :: suf →
        (publishedFor hits key).length ≤ 1 ∧
          (CounterConsistent p key group (publishedFor hits key) ↔ CounterOk p pre key group) := by
  have hpublish : ∀ e ∈ (hitMap digis).entries, ∀ l, ∃ l' out, publish p l e.1 e.2 = some (l', out) ∧
      ∀ hit, out = some hit → hit.channel = e.1 := by
    intro e he l
    obtain ⟨_, hne, hkey⟩ := mem_entries he
    exact channel_of_publish hsingle hmulti hkey hne l
  obtain ⟨hits, hevnt, hmem, hcounters⟩ := loop_spec (nodup_keys (hitMap digis)) hpublish {}
  refine ⟨hits, hevnt, ?_, ?_⟩
  · intro key hnil
    apply publishedFor_eq_nil
    intro hit hhit heq
    obtain ⟨⟨_, group⟩, hin, rfl⟩ := List.mem_map.mp (hmem hit hhit)
    obtain ⟨hgroup, hne, _⟩ := mem_entries hin
    apply hne
    rw [hgroup, heq, hnil]
  · intro pre key group suf hsplit
    obtain ⟨l, l', out, hlocals, hout, hpublished⟩ := hcounters pre (key, group) suf hsplit
    obtain ⟨_, hne, hkey⟩ := mem_entries_of_place hsplit
    have hbefore : ∀ e ∈ pre, e.2 ≠ [] := by
      rintro ⟨key', group'⟩ he
      exact (mem_entries (by rw [hsplit]; exact List.mem_append_left _ he)).2.1
    constructor
    · rw [hpublished]
      cases out <;> simp
    · rw [hpublished]
      exact counterConsistent_iff hsingle hmulti hkey hne (Tmax_localsAfter hbefore hlocals) hout

end Consistency

/-- **Exactly when the hits of an event are consistent with the digi hits they are made of.** -/
theorem consistent_iff (p : Parms) (digis : List IntVetoDigiHit) (hsingle : -9999 ≤ p.thrSingleReadout)
    (hmulti : -9999 ≤ p.thrMultipleReadout) :
    ∃ hits, evnt p digis = some hits ∧ (Consistent p digis hits ↔
      ∀ pre key group suf, (hitMap digis).entries = pre ++ (key, group) :: suf → CounterOk p pre key group) := by
  obtain ⟨hits, hevnt, hothers, hplace⟩ := evnt_counters digis hsingle hmulti
  refine ⟨hits, hevnt, ?_⟩
  constructor
  · intro hconsistent pre key group suf hsplit
    obtain ⟨rfl, hne, _⟩ := mem_entries_of_place hsplit
    exact (hplace pre key _ suf hsplit).2.mp (hconsistent.counters key hne)
  · intro hok
    refine ⟨?_, ?_, hothers⟩
    · intro key
      by_cases hne : digisOf digis key = []
      · rw [hothers key hne]
        exact Nat.zero_le 1
      · obtain ⟨pre, suf, hsplit⟩ := exists_place hne
        exact (hplace pre key _ suf hsplit).1
    · intro key hne
      obtain ⟨pre, suf, hsplit⟩ := exists_place hne
      exact (hplace pre key _ suf hsplit).2.mpr (hok pre key _ suf hsplit)

/-- A single hit. -/
theorem consistent_single_hit :
    ∃ hits, evnt {} [⟨⟨0, 0, 1, 1⟩, 10, 100, 3⟩] = some hits ∧ Consistent {} [⟨⟨0, 0, 1, 1⟩, 10, 100, 3⟩] hits := by
  obtain ⟨hits, hevnt, hiff⟩ := consistent_iff {} [⟨⟨0, 0, 1, 1⟩, 10, 100, 3⟩] (by decide +kernel) (by decide +kernel)
  refine ⟨hits, hevnt, hiff.mpr ?_⟩
  intro pre key group suf hsplit hseveral
  have hin : (key, group) ∈ (hitMap [⟨⟨0, 0, 1, 1⟩, 10, 100, 3⟩]).entries := by
    rw [hsplit]
    simp
  have hentries : (hitMap [⟨⟨0, 0, 1, 1⟩, 10, 100, 3⟩]).entries = [(⟨0, 0, 1, 0⟩, [⟨⟨0, 0, 1, 1⟩, 10, 100, 3⟩])] := rfl
  rw [hentries, List.mem_singleton] at hin
  apply absurd _ hseveral
  rw [(Prod.mk.inj hin).2]
  exact Or.inl rfl

/-- Two digi hits in coincidence: the amplitude is the start value of `Amax`. -/
theorem amplitude_not_set :
    ¬ ∀ (p : Parms) (digis : List IntVetoDigiHit), -9999 ≤ p.thrSingleReadout → -9999 ≤ p.thrMultipleReadout →
      ∃ hits, evnt p digis = some hits ∧ Consistent p digis hits := by
  intro h
  obtain ⟨hits, hevnt, hconsistent⟩ := h {} [⟨⟨0, 0, 1, 1⟩, 10, 100, 3⟩, ⟨⟨0, 0, 1, 2⟩, 8, 104, 2⟩] (by decide +kernel)
    (by decide +kernel)
  have hvalue : evnt {} [⟨⟨0, 0, 1, 1⟩, 10, 100, 3⟩, ⟨⟨0, 0, 1, 2⟩, 8, 104, 2⟩]
      = some [⟨⟨0, 0, 1, 0⟩, 18, some 100, -9999,
          [⟨⟨0, 0, 1, 1⟩, 10, 100, 3⟩, ⟨⟨0, 0, 1, 2⟩, 8, 104, 2⟩]⟩] := by decide +kernel
  obtain rfl := Option.some.inj (hvalue.symm.trans hevnt)
  obtain ⟨d, _, _, hcounter⟩ := hconsistent.counters ⟨0, 0, 1, 0⟩ (by decide)
  rw [if_neg (by decide)] at hcounter
  obtain ⟨_, _, _, hA⟩ := hcounter.2 _ (List.mem_singleton.mpr rfl)
  rcases hA with hsum | ⟨x, hx, hA⟩
  · exact absurd hsum (by decide +kernel)
  · revert x
    decide +kernel

end IntVetoHitFactory

end BdxReco
