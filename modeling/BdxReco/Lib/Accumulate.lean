import BdxReco.Lib.GroupBy
import Mathlib.Data.List.Nodup

/-!
# `Lib.Accumulate` — a `std::map` of vectors in which the first object of a key creates what the later ones add to

A loop looks up the key of an object. If there is no element, it pushes what the object creates, one after the other;
otherwise it updates the vector that is there. Creating and updating are two pieces of code: `Agree` says that they do
the same, by naming what the vector of a key is after any list of objects. If they agree, then after the loop every
vector is what it is after the objects with its key (`accumulate`).
-/

namespace StdMap

open KeyOrder

section PushAll

variable {κ ρ : Type} [KeyOrder κ] {m : StdMap κ (List ρ)} {k : κ}

/-- `map[k].push_back(r)`, one after the other. -/
def pushAll (m : StdMap κ (List ρ)) (k : κ) (rs : List ρ) : StdMap κ (List ρ) :=
  rs.foldl (fun m r => m.alter k (fun old => old.getD [] ++ [r])) m

theorem find?_pushAll_self (m : StdMap κ (List ρ)) (k : κ) (rs : List ρ) :
    (m.pushAll k rs).find? k = if rs = [] then m.find? k else some ((m.find? k).getD [] ++ rs) := by
  induction rs using List.reverseRecOn with
  | nil => rfl
  | append_singleton rs r ih =>
      have hstep : m.pushAll k (rs ++ [r]) = (m.pushAll k rs).alter k (fun old => old.getD [] ++ [r]) := by
        unfold pushAll
        rw [List.foldl_append]
        rfl
      rw [hstep, find?_alter_self, ih, if_neg (List.append_ne_nil_of_right_ne_nil rs (List.cons_ne_nil r []))]
      by_cases hrs : rs = []
      · rw [if_pos hrs, hrs, List.nil_append]
      · rw [if_neg hrs, Option.getD_some, List.append_assoc]

theorem find?_pushAll_ne (m : StdMap κ (List ρ)) {k k' : κ} (h : k' ≠ k) (rs : List ρ) :
    (m.pushAll k rs).find? k' = m.find? k' := by
  unfold pushAll
  induction rs generalizing m with
  | nil => rfl
  | cons r rs ih =>
      rw [List.foldl_cons, ih]
      exact find?_alter_ne m h _

/-- `f(v[n])`; `none`: there is no such place. -/
def writeAt (f : ρ → ρ) : Nat → List ρ → Option (List ρ)
  | _, [] => none
  | 0, r :: rs => some (f r :: rs)
  | n + 1, r :: rs => (writeAt f n rs).map (fun rs => r :: rs)

/-- All vectors, in the order of the map. -/
def values (m : StdMap κ (List ρ)) : List ρ := m.entries.flatMap Prod.snd

end PushAll

section Feed

variable {κ α ρ σ : Type} [KeyOrder κ] (key : α → Option κ) (create : κ → α → List ρ)
  (update : κ → List ρ → α → Option (List ρ))

/-- One turn of the loop. `none`: the key is not set, or the update goes wrong. -/
def feed (m : StdMap κ (List ρ)) (a : α) : Option (StdMap κ (List ρ)) :=
  match key a with
  | none => none
  | some k =>
    match m.find? k with
    | none => some (m.pushAll k (create k a))
    | some old => (update k old a).map (m.assign k)

/-- **Creating and updating agree**: the vector of a key has an entry for each of its `sensors`, which is `merged` of
    the objects that have come. -/
structure Agree (sensors : κ → List σ) (merged : κ → σ → List α → ρ) : Prop where
  created : ∀ {a k}, key a = some k → create k a = (sensors k).map (fun s => merged k s [a])
  updated : ∀ {a k l}, key a = some k → l ≠ [] → (∀ b ∈ l, key b = some k) → sensors k ≠ [] →
    update k ((sensors k).map (fun s => merged k s l)) a = some ((sensors k).map (fun s => merged k s (l ++ [a])))

variable [DecidableEq κ]

/-- What has the key. -/
def having (l : List α) (k : κ) : List α := l.filter (fun a => key a = some k)

/-- **What comes out of the loop**, key by key. -/
structure Accumulated (sensors : κ → List σ) (merged : κ → σ → List α → ρ) (l : List α) (ks : List κ) (out : List ρ) :
    Prop where
  sorted : ks.Pairwise (fun a b => lt a b = true)
  mem_iff : ∀ k, k ∈ ks ↔ having key l k ≠ [] ∧ sensors k ≠ []
  out_eq : out = ks.flatMap (fun k => (sensors k).map (fun s => merged k s (having key l k)))

variable {key create update} {sensors : κ → List σ} {merged : κ → σ → List α → ρ} {l : List α}

omit [KeyOrder κ] in
theorem mem_having {k : κ} {a : α} : a ∈ having key l k ↔ a ∈ l ∧ key a = some k := by
  unfold having
  rw [List.mem_filter, decide_eq_true_eq]

omit [KeyOrder κ] in
theorem having_ne_nil {k : κ} : having key l k ≠ [] ↔ ∃ a ∈ l, key a = some k := by
  constructor
  · intro h
    obtain ⟨a, ha⟩ := List.exists_mem_of_ne_nil _ h
    exact ⟨a, mem_having.mp ha⟩
  · rintro ⟨a, ha⟩
    exact List.ne_nil_of_mem (mem_having.mpr ha)

omit [KeyOrder κ] in
theorem having_concat (l : List α) (a : α) (k : κ) :
    having key (l ++ [a]) k = having key l k ++ if key a = some k then [a] else [] := by
  unfold having
  rw [List.filter_append]
  by_cases hk : key a = some k
  · simp [hk]
  · simp [hk]

omit [DecidableEq κ] in
/-- The first object of a key. -/
theorem feed_first {m : StdMap κ (List ρ)} {a : α} {k : κ} (hk : key a = some k) (hm : m.find? k = none) :
    feed key create update m a = some (m.pushAll k (create k a)) := by
  unfold feed
  simp only [hk, hm]

omit [DecidableEq κ] in
/-- A later object. -/
theorem feed_next {m : StdMap κ (List ρ)} {a : α} {k : κ} {old : List ρ} (hk : key a = some k)
    (hm : m.find? k = some old) : feed key create update m a = (update k old a).map (m.assign k) := by
  unfold feed
  simp only [hk, hm]

/-- The element of a key after the loop over a list. -/
def elementOf (key : α → Option κ) (sensors : κ → List σ) (merged : κ → σ → List α → ρ) (l : List α) (k : κ) :
    Option (List ρ) :=
  if having key l k ≠ [] ∧ sensors k ≠ [] then some ((sensors k).map (fun s => merged k s (having key l k))) else none

omit [KeyOrder κ] in
theorem elementOf_concat_ne {a : α} {k k' : κ} (hk : key a = some k) (hne : k' ≠ k) :
    elementOf key sensors merged (l ++ [a]) k' = elementOf key sensors merged l k' := by
  have hkey : ¬ key a = some k' := fun hcon => hne (Option.some.inj (hcon.symm.trans hk))
  unfold elementOf
  rw [having_concat, if_neg hkey, List.append_nil]

omit [KeyOrder κ] in
theorem elementOf_concat {a : α} {k : κ} (hk : key a = some k) (hsensors : sensors k ≠ []) :
    elementOf key sensors merged (l ++ [a]) k
      = some ((sensors k).map (fun s => merged k s (having key l k ++ [a]))) := by
  unfold elementOf
  rw [having_concat, if_pos hk, if_pos ⟨List.append_ne_nil_of_right_ne_nil _ (List.cons_ne_nil a []), hsensors⟩]

/-- One turn, on a map that is as it should be. -/
theorem feed_spec (h : Agree key create update sensors merged) {m : StdMap κ (List ρ)}
    (hm : ∀ k, m.find? k = elementOf key sensors merged l k) {a : α} {k : κ} (hk : key a = some k) :
    ∃ m', feed key create update m a = some m' ∧ ∀ k', m'.find? k' = elementOf key sensors merged (l ++ [a]) k' := by
  have hfound := hm k
  by_cases hsensors : sensors k = []
  · -- nothing is ever created for this key
    have hnone : ∀ l, elementOf key sensors merged l k = none := fun l => if_neg (fun hc => hc.2 hsensors)
    have hcreate : create k a = [] := by rw [h.created hk, hsensors, List.map_nil]
    rw [hnone] at hfound
    refine ⟨m, ?_, ?_⟩
    · rw [feed_first hk hfound, hcreate]
      rfl
    · intro k'
      by_cases hk' : k' = k
      · rw [hk', hnone]
        exact hfound
      · rw [elementOf_concat_ne hk hk']
        exact hm k'
  · by_cases hfirst : having key l k = []
    · have hcreate : create k a = (sensors k).map (fun s => merged k s [a]) := h.created hk
      have hcreate_ne : create k a ≠ [] := by
        rw [hcreate]
        exact fun hnil => hsensors (List.map_eq_nil_iff.mp hnil)
      have hnone : m.find? k = none := by
        rw [hfound]
        exact if_neg (fun hc => hc.1 hfirst)
      refine ⟨m.pushAll k (create k a), feed_first hk hnone, ?_⟩
      intro k'
      by_cases hk' : k' = k
      · rw [hk', find?_pushAll_self, if_neg hcreate_ne, hnone, elementOf_concat hk hsensors, hcreate, hfirst]
        rfl
      · rw [find?_pushAll_ne m hk', elementOf_concat_ne hk hk']
        exact hm k'
    · have hsome : m.find? k = some ((sensors k).map (fun s => merged k s (having key l k))) := by
        rw [hfound]
        exact if_pos ⟨hfirst, hsensors⟩
      have hupdate := h.updated hk hfirst (fun b hb => (mem_having.mp hb).2) hsensors
      refine ⟨m.assign k ((sensors k).map (fun s => merged k s (having key l k ++ [a]))), ?_, ?_⟩
      · rw [feed_next hk hsome, hupdate, Option.map_some]
      · intro k'
        by_cases hk' : k' = k
        · rw [hk', find?_assign_self, elementOf_concat hk hsensors]
        · rw [find?_assign_ne m hk', elementOf_concat_ne hk hk']
          exact hm k'

/-- The whole loop. -/
theorem foldlM_feed (h : Agree key create update sensors merged) (hkey : ∀ a ∈ l, (key a).isSome = true) :
    ∃ m, l.foldlM (feed key create update) empty = some m ∧ ∀ k, m.find? k = elementOf key sensors merged l k := by
  induction l using List.reverseRecOn with
  | nil => exact ⟨empty, rfl, fun k => rfl⟩
  | append_singleton l a ih =>
      obtain ⟨m, hrun, hm⟩ := ih (fun b hb => hkey b (List.mem_append_left _ hb))
      obtain ⟨k, hk⟩ := Option.isSome_iff_exists.mp (hkey a (List.mem_append_right l (List.mem_singleton.mpr rfl)))
      obtain ⟨m', hturn, hm'⟩ := feed_spec h hm hk
      refine ⟨m', ?_, hm'⟩
      rw [List.foldlM_append, hrun]
      show [a].foldlM (feed key create update) m = some m'
      rw [List.foldlM_cons, hturn]
      rfl

/-- **The loop puts out, for every key that occurs, what its sensors are after the objects with this key.** -/
theorem accumulate (h : Agree key create update sensors merged) (hkey : ∀ a ∈ l, (key a).isSome = true) :
    ∃ ks out, (l.foldlM (feed key create update) empty).map values = some out ∧
      Accumulated key sensors merged l ks out := by
  obtain ⟨m, hrun, hm⟩ := foldlM_feed h hkey
  refine ⟨m.keys, m.values, by rw [hrun, Option.map_some], sorted_keys m, ?_, ?_⟩
  · intro k
    rw [mem_keys_iff, hm]
    unfold elementOf
    by_cases hk : having key l k ≠ [] ∧ sensors k ≠ []
    · rw [if_pos hk]
      exact iff_of_true rfl hk
    · rw [if_neg hk]
      exact iff_of_false (by simp) hk
  · unfold values keys
    rw [List.flatMap_map]
    refine List.flatMap_congr ?_
    rintro ⟨k, v⟩ hmem
    rw [mem_entries_iff, hm] at hmem
    unfold elementOf at hmem
    split at hmem
    · exact (Option.some.inj hmem).symm
    · cases hmem

/-! ## What follows -/

theorem Accumulated.mem_out {ks : List κ} {out : List ρ} (h : Accumulated key sensors merged l ks out) {r : ρ} :
    r ∈ out ↔ ∃ k, having key l k ≠ [] ∧ ∃ s ∈ sensors k, r = merged k s (having key l k) := by
  rw [h.out_eq, List.mem_flatMap]
  constructor
  · rintro ⟨k, hk, hr⟩
    obtain ⟨s, hs, rfl⟩ := List.mem_map.mp hr
    exact ⟨k, ((h.mem_iff k).mp hk).1, s, hs, rfl⟩
  · rintro ⟨k, hk, s, hs, rfl⟩
    exact ⟨k, (h.mem_iff k).mpr ⟨hk, List.ne_nil_of_mem hs⟩, List.mem_map.mpr ⟨s, hs, rfl⟩⟩

/-- The names of what comes out are different, if those of the sensors of keys that occur are. -/
theorem Accumulated.nodup_map {γ : Type} {ks : List κ} {out : List ρ} (h : Accumulated key sensors merged l ks out)
    (name : ρ → γ) (nameOf : κ → σ → γ) (hname : ∀ k s l, name (merged k s l) = nameOf k s)
    (hnodup : ∀ k, ((sensors k).map (nameOf k)).Nodup)
    (hinj : ∀ k k' s s', having key l k ≠ [] → having key l k' ≠ [] → s ∈ sensors k → s' ∈ sensors k' →
      nameOf k s = nameOf k' s' → k = k') :
    (out.map name).Nodup := by
  have hout : out.map name = ks.flatMap (fun k => (sensors k).map (nameOf k)) := by
    rw [h.out_eq, List.map_flatMap]
    refine List.flatMap_congr ?_
    intro k _
    rw [List.map_map]
    exact List.map_congr_left (fun s _ => hname k s _)
  rw [hout, List.nodup_flatMap]
  refine ⟨fun k _ => hnodup k, ?_⟩
  refine h.sorted.imp_of_mem ?_
  intro k k' hk hk' hlt c hc hc'
  obtain ⟨s, hs, rfl⟩ := List.mem_map.mp hc
  obtain ⟨s', hs', heq⟩ := List.mem_map.mp hc'
  exact KeyOrder.ne_of_lt hlt (hinj k k' s s' ((h.mem_iff k).mp hk).1 ((h.mem_iff k').mp hk').1 hs hs' heq.symm)

/-- The keys do not depend on the order of the objects, and neither does a view of the elements that does not. -/
theorem Accumulated.map_congr {γ : Type} {l' : List α} {ks ks' : List κ} {out out' : List ρ}
    (h : Accumulated key sensors merged l ks out) (h' : Accumulated key sensors merged l' ks' out') (view : ρ → γ)
    (hkeys : ∀ k, sensors k ≠ [] → (having key l k ≠ [] ↔ having key l' k ≠ []))
    (hview : ∀ k, ∀ s ∈ sensors k, having key l k ≠ [] →
      view (merged k s (having key l k)) = view (merged k s (having key l' k))) :
    out.map view = out'.map view := by
  have hks : ks = ks' := by
    have hperm : ks.Perm ks' := by
      rw [List.perm_ext_iff_of_nodup (h.sorted.imp KeyOrder.ne_of_lt) (h'.sorted.imp KeyOrder.ne_of_lt)]
      intro k
      rw [h.mem_iff, h'.mem_iff]
      exact and_congr_left (hkeys k)
    refine hperm.eq_of_pairwise ?_ h.sorted h'.sorted
    intro a b _ _ hab hba
    exact absurd rfl (KeyOrder.ne_of_lt (KeyOrder.trans _ _ _ hab hba))
  subst hks
  rw [h.out_eq, h'.out_eq, List.map_flatMap, List.map_flatMap]
  refine List.flatMap_congr ?_
  intro k hk
  rw [List.map_map, List.map_map]
  exact List.map_congr_left (fun s hs => hview k s hs ((h.mem_iff k).mp hk).1)

end Feed

end StdMap
