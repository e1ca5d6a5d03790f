import BdxReco.IntVeto.IntVetoHit
import Mathlib.Algebra.BigOperators.Group.List.Lemmas

/-!
# `IntVeto.HitOrder` — hits of the inner veto and the order of the digi hits

The counters come out of `m_map` in the order of their keys, and what a counter is published with is a maximum, a count
and a sum. The order of the digi hits is seen at two places: of several digi hits with the largest charge it is the
first that gives the time of the coincidence, and the charges in coincidence are added as doubles, one after the other.
`evnt_perm` is about the events where the first does not matter; a charge is then a sum of the same numbers.

Two runs are compared counter by counter (`Alike`, `publish_alike`). The variables they hand on may name different digi
hits, but of the same counter and charge, and with the same time.
-/

namespace BdxReco

namespace IntVetoHitFactory

open FirstMax StdMap

/-- What the claimed independence would compare of a hit. -/
def view (hit : IntVetoHit) : IntVetoIndex × ℚ × Option ℚ := (hit.channel, hit.Q, hit.T)

/-- The largest charge of every counter has one time. -/
def Unambiguous (digis : List IntVetoDigiHit) : Prop :=
  ∀ key, ∀ x ∈ digisOf digis key, ∀ y ∈ digisOf digis key,
    (∀ z ∈ digisOf digis key, z.Qphe ≤ x.Qphe) → (∀ z ∈ digisOf digis key, z.Qphe ≤ y.Qphe) → x.T = y.T

/-- No variable is read before it is set: a counter with several digi hits has a charge above the start value of the
    search, or the thresholds do not let it pass. A multiplicity of 0 passes without any charge above the threshold. -/
def Searched (p : Parms) (digis : List IntVetoDigiHit) : Prop :=
  (-9999 ≤ p.thrSingleReadout ∧ -9999 ≤ p.thrMultipleReadout ∧
      (p.thrMultipleReadout = -9999 → 0 < p.nMultipleReadout)) ∨
    ∀ key, 2 ≤ (digisOf digis key).length → ∃ x ∈ digisOf digis key, -9999 < x.Qphe

/-- The charges of the digi hits a hit is made of. -/
def charges (hit : IntVetoHit) : List ℚ := hit.associated.map IntVetoDigiHit.Qphe

/-- The same hit in two runs. Its charge is that of one digi hit, or a sum of the same charges, which `evnt` adds in the
    order of the digi hits: it is the same number where the sum needs no rounding. -/
structure SameHit (hit hit' : IntVetoHit) : Prop where
  channel : hit.channel = hit'.channel
  T : hit.T = hit'.T
  perm : (charges hit).Perm (charges hit')
  sums : hit.Q = hit'.Q ∨ hit.Q = Binary64.total (charges hit) ∧ hit'.Q = Binary64.total (charges hit')
  exact : Binary64.SumsFit (charges hit) → hit.Q = hit'.Q

/-- The variables of two runs: they can point to different digi hits, but of the same counter and charge. -/
structure Alike (l l' : Locals) : Prop where
  digi : l.digi.map (fun d => (element d.channel, d.Qphe)) = l'.digi.map (fun d => (element d.channel, d.Qphe))
  Tmax : l.Tmax = l'.Tmax

/-- What two runs do with a counter. -/
def PublishedAlike (r r' : Locals × Option IntVetoHit) : Prop := Alike r.1 r'.1 ∧ Option.Rel SameHit r.2 r'.2

theorem SameHit.refl (hit : IntVetoHit) : SameHit hit hit :=
  ⟨rfl, rfl, List.Perm.refl _, Or.inl rfl, fun _ => rfl⟩

section Order

variable {p : Parms} {key : IntVetoIndex} {g g' : List IntVetoDigiHit} {d d' : IntVetoDigiHit} {l l' : Locals}

theorem Alike.refl (l : Locals) : Alike l l := ⟨rfl, rfl⟩

theorem coincident_perm (h : g.Perm g') (Tmax : ℚ) : (coincident p Tmax g).Perm (coincident p Tmax g') := h.filter _

theorem counted_perm (h : g.Perm g') (Tmax : Option ℚ) :
    Option.Rel List.Perm (counted p Tmax g) (counted p Tmax g') := by
  cases Tmax with
  | some Tmax => exact .some (coincident_perm h Tmax)
  | none =>
      unfold counted
      simp only [h.mem_iff]
      split
      · exact .none
      · exact .some (List.Perm.refl [])

theorem workAround_alike (hkey : element d.channel = key) (hkey' : element d'.channel = key)
    (hd : FirstLargest IntVetoDigiHit.Qphe g d) (hd' : FirstLargest IntVetoDigiHit.Qphe g' d')
    (hQ : d.Qphe = d'.Qphe) (hT : d.T = d'.T) (h : Alike l l') :
    Option.Rel PublishedAlike (workAround p l g) (workAround p l' g') := by
  unfold workAround
  rw [scan_eq_ite _ _ hd, scan_eq_ite _ _ hd', ← hQ]
  by_cases habove : -9999 < d.Qphe
  · have hdigi : (some d).map (fun d => (element d.channel, d.Qphe))
        = (some d').map (fun d => (element d.channel, d.Qphe)) := by
      rw [Option.map_some, Option.map_some, hkey, hkey', hQ]
    rw [if_pos habove, if_pos habove]
    dsimp only
    by_cases hthr : d.Qphe > p.thrSingleReadout
    · rw [if_pos hthr, if_pos hthr]
      refine .some ⟨⟨hdigi, congrArg some hT⟩, .some ?_⟩
      refine ⟨hkey.trans hkey'.symm, congrArg some hT, ?_, Or.inl rfl, fun _ => rfl⟩
      show [d.Qphe].Perm [d'.Qphe]
      rw [hQ]
    · rw [if_neg hthr, if_neg hthr]
      exact .some ⟨⟨hdigi, congrArg some hT⟩, .none⟩
  · rw [if_neg habove, if_neg habove]
    dsimp only
    by_cases hthr : -9999 > p.thrSingleReadout
    · rw [if_pos hthr, if_pos hthr]
      -- the pointer is the one that a counter before has left
      obtain ⟨digi, Tmax⟩ := l
      obtain ⟨digi', Tmax'⟩ := l'
      obtain ⟨hdigi, hTmax⟩ := h
      cases digi with
      | none =>
          cases digi' with
          | none => exact .none
          | some x' => cases hdigi
      | some x =>
          cases digi' with
          | none => cases hdigi
          | some x' =>
              obtain ⟨hchannel, hcharge⟩ := Prod.mk.inj (Option.some.inj hdigi)
              refine .some ⟨⟨hdigi, hTmax⟩, .some ?_⟩
              refine ⟨hchannel, hTmax, ?_, Or.inl rfl, fun _ => rfl⟩
              show [x.Qphe].Perm [x'.Qphe]
              rw [hcharge]
    · rw [if_neg hthr, if_neg hthr]
      exact .some ⟨h, .none⟩

theorem multiCounter_alike (hperm : g.Perm g') (hd : FirstLargest IntVetoDigiHit.Qphe g d)
    (hd' : FirstLargest IntVetoDigiHit.Qphe g' d') (hQ : d.Qphe = d'.Qphe) (hT : d.T = d'.T) (h : Alike l l') :
    Option.Rel PublishedAlike (multiCounter p l key g) (multiCounter p l' key g') := by
  unfold multiCounter
  rw [scan_eq_ite _ _ hd, scan_eq_ite _ _ hd', ← hQ, ← hT, ← h.Tmax]
  -- both searches stop with the same charge and the same time
  generalize (if (-9999, l.Tmax).1 < d.Qphe then (d.Qphe, some d.T) else (-9999, l.Tmax)) = s
  obtain ⟨Qmax, Tmax⟩ := s
  dsimp only
  by_cases hthr : Qmax < p.thrMultipleReadout
  · rw [if_pos hthr, if_pos hthr]
    exact .some ⟨⟨h.digi, rfl⟩, .none⟩
  · rw [if_neg hthr, if_neg hthr]
    have hcounted := counted_perm (p := p) hperm Tmax
    generalize counted p Tmax g = c at hcounted ⊢
    generalize counted p Tmax g' = c' at hcounted ⊢
    cases hcounted with
    | none => exact .none
    | @some hits hits' hhits =>
        have hcharges : (hits.map IntVetoDigiHit.Qphe).Perm (hits'.map IntVetoDigiHit.Qphe) := hhits.map _
        refine .some ⟨⟨h.digi, rfl⟩, ?_⟩
        dsimp only
        rw [hhits.length_eq]
        split
        · exact .some ⟨rfl, rfl, hcharges, Or.inr ⟨rfl, rfl⟩, fun hfit => Binary64.total_perm hfit hcharges⟩
        · exact .none

/-- **A counter in two orders.** -/
theorem publish_alike (hperm : g.Perm g') (hkey : ∀ x ∈ g, element x.channel = key)
    (hd : FirstLargest IntVetoDigiHit.Qphe g d) (hd' : FirstLargest IntVetoDigiHit.Qphe g' d') (hT : d.T = d'.T)
    (h : Alike l l') : Option.Rel PublishedAlike (publish p l key g) (publish p l' key g') := by
  have hQ : d.Qphe = d'.Qphe :=
    le_antisymm (hd'.le d (hperm.mem_iff.mp hd.mem)) (hd.le d' (hperm.mem_iff.mpr hd'.mem))
  by_cases hlen : g.length = 1
  · obtain ⟨x, rfl⟩ := List.length_eq_one_iff.mp hlen
    obtain rfl := List.singleton_perm.mp hperm
    rw [publish_of_single, publish_of_single]
    refine .some ⟨⟨rfl, h.Tmax⟩, ?_⟩
    unfold single
    dsimp only
    split
    · exact .some (SameHit.refl _)
    · exact .none
  · rw [publish_of_several hlen, publish_of_several (fun hlen' => hlen (hperm.length_eq.trans hlen'))]
    split
    · exact workAround_alike (hkey d hd.mem) (hkey d' (hperm.mem_iff.mpr hd'.mem)) hd hd' hQ hT h
    · exact multiCounter_alike hperm hd hd' hQ hT h

/-- **The loop, step by step alike.** -/
theorem loop_alike {entries entries' : List (IntVetoIndex × List IntVetoDigiHit)}
    (hentries : List.Forall₂ (fun e e' => ∀ l l', Alike l l' →
      Option.Rel PublishedAlike (publish p l e.1 e.2) (publish p l' e'.1 e'.2)) entries entries') (h : Alike l l') :
    Option.Rel (List.Forall₂ SameHit) (loop p l entries) (loop p l' entries') := by
  induction hentries generalizing l l' with
  | nil => exact .some .nil
  | @cons e e' rest rest' hstep _ ih =>
      have hpublish := hstep l l' h
      obtain ⟨key, g⟩ := e
      obtain ⟨key', g'⟩ := e'
      unfold loop
      dsimp only at hpublish
      generalize publish p l key g = r at hpublish ⊢
      generalize publish p l' key' g' = r' at hpublish ⊢
      cases hpublish with
      | none => exact .none
      | @some r r' hr =>
          obtain ⟨l₁, hit⟩ := r
          obtain ⟨l₂, hit'⟩ := r'
          obtain ⟨hlocals, hsame⟩ := hr
          have hrest := ih hlocals
          dsimp only [Option.bind_eq_bind, Option.bind_some] at hsame ⊢
          generalize loop p l₁ rest = hits at hrest ⊢
          generalize loop p l₂ rest' = hits' at hrest ⊢
          cases hrest with
          | none => exact .none
          | some hrest =>
              cases hsame with
              | none => exact .some hrest
              | some hsame => exact .some (.cons hsame hrest)

theorem loop_timed {entries : List (IntVetoIndex × List IntVetoDigiHit)}
    (hpublish : ∀ e ∈ entries, ∀ l, ∃ l' out, publish p l e.1 e.2 = some (l', out) ∧
      ∀ hit, out = some hit → hit.T.isSome = true) (l : Locals) :
    ∃ hits, loop p l entries = some hits ∧ ∀ hit ∈ hits, hit.T.isSome = true := by
  induction entries generalizing l with
  | nil => exact ⟨[], rfl, by simp⟩
  | cons e entries ih =>
      rw [List.forall_mem_cons] at hpublish
      obtain ⟨l', out, hout, htime⟩ := hpublish.1 l
      obtain ⟨hits, hhits, htimes⟩ := ih hpublish.2 l'
      refine ⟨out.toList ++ hits, ?_, ?_⟩
      · unfold loop
        simp only [hout, Option.bind_eq_bind, Option.bind_some, hhits]
      · intro hit hmem
        rcases List.mem_append.mp hmem with hown | hrest
        · exact htime hit (by simpa using hown)
        · exact htimes hit hrest

theorem outcome_timed {hit : IntVetoHit} (h : outcome p key g d = some hit) : hit.T.isSome = true := by
  unfold outcome at h
  split at h
  · split at h
    · rw [← Option.some.inj h]
      rfl
    · cases h
  · split at h
    · rw [← Option.some.inj h]
      rfl
    · cases h

/-- Whatever is published depends on variables that have been set, and has a time. -/
theorem evnt_timed {digis : List IntVetoDigiHit} (h : Searched p digis) :
    ∃ hits, evnt p digis = some hits ∧ ∀ hit ∈ hits, hit.T.isSome = true := by
  apply loop_timed
  rintro ⟨key, g⟩ he l
  obtain ⟨rfl, hne, hkey⟩ := mem_entries he
  obtain ⟨d, hd⟩ := exists_firstLargest IntVetoDigiHit.Qphe hne
  rcases h with ⟨hsingle, hmulti, hn⟩ | habove
  · obtain ⟨l', hl'⟩ := publish_cases (l := l) hsingle hmulti hkey hd
    refine ⟨l', _, hl', ?_⟩
    intro hit hhit
    split at hhit
    · exact outcome_timed hhit
    · rw [if_neg (fun hboth => absurd (hn hboth.1) (not_lt.mpr hboth.2))] at hhit
      cases hhit
  · by_cases hlen : (digisOf digis key).length = 1
    · obtain ⟨l', hl'⟩ := publish_of_length_one (p := p) (l := l) hkey hlen hd.mem
      exact ⟨l', _, hl', fun hit hhit => outcome_timed hhit⟩
    · have hpos := List.length_pos_of_mem hd.mem
      obtain ⟨x, hx, hlt⟩ := habove key (by omega)
      obtain ⟨l', hl'⟩ := publish_of_above (p := p) (l := l) hkey hd (lt_of_lt_of_le hlt (hd.le x hx))
      exact ⟨l', _, hl', fun hit hhit => outcome_timed hhit⟩

end Order

/-- **The order of the digi hits does not matter** where the largest charge of every counter has one time. -/
theorem evnt_perm (p : Parms) (digis digis' : List IntVetoDigiHit) (hperm : digis.Perm digis')
    (h : Unambiguous digis) :
    Option.Rel (List.Forall₂ SameHit) (evnt p digis) (evnt p digis') ∧
      (Searched p digis → ∃ hits, evnt p digis = some hits ∧ ∀ hit ∈ hits, hit.T.isSome = true) := by
  refine ⟨?_, evnt_timed⟩
  have hkeys : (hitMap digis).keys = (hitMap digis').keys := by
    apply keys_congr
    intro key
    simp only [hperm.mem_iff]
  have hentries : (hitMap digis).entries = (hitMap digis).keys.map (fun key => (key, digisOf digis key)) :=
    entries_groupBy _ digis
  have hentries' : (hitMap digis').entries = (hitMap digis).keys.map (fun key => (key, digisOf digis' key)) := by
    rw [hkeys]
    exact entries_groupBy _ digis'
  unfold evnt
  rw [hentries, hentries']
  refine loop_alike ?_ (Alike.refl {})
  rw [List.forall₂_map_left_iff, List.forall₂_map_right_iff, List.forall₂_same]
  intro key hkey l l' halike
  have hgroup : (digisOf digis key).Perm (digisOf digis' key) := hperm.filter _
  obtain ⟨a, ha, hkey'⟩ := (mem_keys_groupBy _).mp hkey
  have hne : digisOf digis key ≠ [] := (group_ne_nil _).mpr ⟨a, ha, hkey'⟩
  obtain ⟨d, hd⟩ := exists_firstLargest IntVetoDigiHit.Qphe hne
  have hne' : digisOf digis' key ≠ [] := by
    intro hnil
    rw [hnil] at hgroup
    exact hne hgroup.eq_nil
  obtain ⟨d', hd'⟩ := exists_firstLargest IntVetoDigiHit.Qphe hne'
  have hT : d.T = d'.T := by
    refine h key d hd.mem d' (hgroup.mem_iff.mpr hd'.mem) hd.le ?_
    intro z hz
    exact hd'.le z (hgroup.mem_iff.mp hz)
  exact publish_alike hgroup (fun x hx => ((mem_group _).mp hx).2) hd hd' hT halike

/-- Two digi hits of different charge. -/
theorem evnt_perm_two :
    Option.Rel (List.Forall₂ SameHit) (evnt {} [⟨⟨0, 0, 1, 1⟩, 10, 100, 3⟩, ⟨⟨0, 0, 1, 2⟩, 8, 104, 2⟩])
        (evnt {} [⟨⟨0, 0, 1, 2⟩, 8, 104, 2⟩, ⟨⟨0, 0, 1, 1⟩, 10, 100, 3⟩]) ∧
      ∃ hits, evnt {} [⟨⟨0, 0, 1, 1⟩, 10, 100, 3⟩, ⟨⟨0, 0, 1, 2⟩, 8, 104, 2⟩] = some hits ∧
        ∀ hit ∈ hits, hit.T.isSome = true := by
  have hmem : ∀ key, ∀ x ∈ digisOf [⟨⟨0, 0, 1, 1⟩, 10, 100, 3⟩, ⟨⟨0, 0, 1, 2⟩, 8, 104, 2⟩] key,
      (x = ⟨⟨0, 0, 1, 1⟩, 10, 100, 3⟩ ∨ x = ⟨⟨0, 0, 1, 2⟩, 8, 104, 2⟩) ∧ key = ⟨0, 0, 1, 0⟩ := by
    intro key x hx
    obtain ⟨hx, hkey⟩ := (mem_group _).mp hx
    rcases List.mem_cons.mp hx with rfl | hx
    · exact ⟨Or.inl rfl, hkey.symm⟩
    · obtain rfl := List.mem_singleton.mp hx
      exact ⟨Or.inr rfl, hkey.symm⟩
  have hfirst : (⟨⟨0, 0, 1, 1⟩, 10, 100, 3⟩ : IntVetoDigiHit)
      ∈ digisOf [⟨⟨0, 0, 1, 1⟩, 10, 100, 3⟩, ⟨⟨0, 0, 1, 2⟩, 8, 104, 2⟩] ⟨0, 0, 1, 0⟩ := by decide
  have hunambiguous : Unambiguous [⟨⟨0, 0, 1, 1⟩, 10, 100, 3⟩, ⟨⟨0, 0, 1, 2⟩, 8, 104, 2⟩] := by
    intro key x hx y hy hmaxx hmaxy
    obtain ⟨hxs, rfl⟩ := hmem key x hx
    obtain ⟨hys, _⟩ := hmem _ y hy
    have hlargest := hmaxx _ hfirst
    have hlargest' := hmaxy _ hfirst
    -- the second one is not the largest
    rcases hxs with rfl | rfl
    · rcases hys with rfl | rfl
      · rfl
      · exact absurd hlargest' (by decide +kernel)
    · exact absurd hlargest (by decide +kernel)
  obtain ⟨hsame, htimed⟩ := evnt_perm {} _ _ (List.Perm.swap _ _ []) hunambiguous
  exact ⟨hsame, htimed (Or.inl ⟨by decide +kernel, by decide +kernel, by decide +kernel⟩)⟩

/-- Two digi hits of the same charge: the first one gives the time. -/
theorem evnt_not_perm :
    ¬ ∀ (p : Parms) (digis digis' : List IntVetoDigiHit), digis.Perm digis' →
      ∃ hits hits', evnt p digis = some hits ∧ evnt p digis' = some hits' ∧ (hits.map view).Perm (hits'.map view) := by
  intro h
  obtain ⟨hits, hits', hevnt, hevnt', hview⟩ := h {} [⟨⟨0, 0, 1, 1⟩, 10, 100, 3⟩, ⟨⟨0, 0, 1, 2⟩, 10, 150, 3⟩]
    [⟨⟨0, 0, 1, 2⟩, 10, 150, 3⟩, ⟨⟨0, 0, 1, 1⟩, 10, 100, 3⟩] (List.Perm.swap _ _ [])
  have hvalue : (evnt {} [⟨⟨0, 0, 1, 1⟩, 10, 100, 3⟩, ⟨⟨0, 0, 1, 2⟩, 10, 150, 3⟩]).map (List.map view)
      = some [(⟨0, 0, 1, 0⟩, 20, some 100)] := by decide +kernel
  have hvalue' : (evnt {} [⟨⟨0, 0, 1, 2⟩, 10, 150, 3⟩, ⟨⟨0, 0, 1, 1⟩, 10, 100, 3⟩]).map (List.map view)
      = some [(⟨0, 0, 1, 0⟩, 20, some 150)] := by decide +kernel
  rw [hevnt, Option.map_some, Option.some.injEq] at hvalue
  rw [hevnt', Option.map_some, Option.some.injEq] at hvalue'
  rw [hvalue, hvalue', List.perm_singleton] at hview
  exact absurd hview (by decide +kernel)

end IntVetoHitFactory

end BdxReco
