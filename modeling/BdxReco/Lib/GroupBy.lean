import BdxReco.Lib.StdMap
import Mathlib.Data.List.Induction

/-!
# `Lib.GroupBy` — a `std::map` of vectors filled by `map[key(x)].push_back(x)`

The map has one element for every key that occurs. Its vector holds what has this key, in the order of the input
(`entries_groupBy`). The keys come in the order of the map, so they do not depend on the order of the input
(`keys_congr`).
-/

namespace StdMap

open KeyOrder

section Entries

variable {κ ν : Type} [KeyOrder κ]

/-- Every element is found at its key. -/
theorem mem_entries_iff (m : StdMap κ ν) {k : κ} {v : ν} : (k, v) ∈ m.entries ↔ m.find? k = some v := by
  obtain ⟨l, hl⟩ := m
  show (k, v) ∈ l ↔ lookup l k = some v
  induction l with
  | nil => simp [lookup]
  | cons e rest ih =>
      obtain ⟨k', v'⟩ := e
      obtain ⟨hhead, htail⟩ := List.pairwise_cons.mp hl
      rw [List.mem_cons]
      by_cases hkey : k' = k
      · subst hkey
        rw [lookup_cons_self]
        constructor
        · rintro (h | h)
          · rw [(Prod.mk.inj h).2]
          · exact absurd rfl (KeyOrder.ne_of_lt (hhead (k', v) h))
        · intro h
          rw [Option.some.inj h]
          exact Or.inl rfl
      · rw [lookup_cons_ne hkey, ← ih htail]
        constructor
        · rintro (h | h)
          · exact absurd (Prod.mk.inj h).1.symm hkey
          · exact h
        · exact Or.inr

/-- The keys, in the order of the map. -/
def keys (m : StdMap κ ν) : List κ := m.entries.map Prod.fst

theorem sorted_keys (m : StdMap κ ν) : m.keys.Pairwise (fun a b => lt a b = true) :=
  List.pairwise_map.mpr m.sorted

theorem nodup_keys (m : StdMap κ ν) : m.keys.Nodup :=
  m.sorted_keys.imp KeyOrder.ne_of_lt

theorem mem_keys_iff (m : StdMap κ ν) {k : κ} : k ∈ m.keys ↔ (m.find? k).isSome = true := by
  unfold keys
  rw [List.mem_map, Option.isSome_iff_exists]
  constructor
  · rintro ⟨⟨k', v⟩, hmem, rfl⟩
    exact ⟨v, (mem_entries_iff m).mp hmem⟩
  · rintro ⟨v, hv⟩
    exact ⟨(k, v), (mem_entries_iff m).mpr hv, rfl⟩

end Entries

section Groups

variable {κ α : Type} (key : α → κ)

/-- `for (x : l) map[key(x)].push_back(x)`. -/
def groupBy [KeyOrder κ] (l : List α) : StdMap κ (List α) :=
  l.foldl (fun m a => m.alter (key a) (fun old => old.getD [] ++ [a])) empty

theorem groupBy_concat [KeyOrder κ] (l : List α) (a : α) :
    groupBy key (l ++ [a]) = (groupBy key l).alter (key a) (fun old => old.getD [] ++ [a]) := by
  unfold groupBy
  rw [List.foldl_append]
  rfl

variable [DecidableEq κ]

/-- What has the key. -/
def group (l : List α) (k : κ) : List α := l.filter (fun a => key a = k)

theorem mem_group {l : List α} {k : κ} {a : α} : a ∈ group key l k ↔ a ∈ l ∧ key a = k := by
  unfold group
  rw [List.mem_filter, decide_eq_true_eq]

theorem group_ne_nil {l : List α} {k : κ} : group key l k ≠ [] ↔ ∃ a ∈ l, key a = k := by
  constructor
  · intro h
    obtain ⟨a, ha⟩ := List.exists_mem_of_ne_nil _ h
    exact ⟨a, (mem_group key).mp ha⟩
  · rintro ⟨a, ha⟩
    exact List.ne_nil_of_mem ((mem_group key).mpr ha)

theorem group_filter (p : α → Prop) [DecidablePred p] (l : List α) (k : κ) :
    group key (l.filter (fun a => p a)) k = l.filter (fun a => p a ∧ key a = k) := by
  unfold group
  rw [List.filter_filter]
  apply List.filter_congr
  intro a _
  rw [Bool.decide_and, Bool.and_comm]

variable [KeyOrder κ]

theorem find?_groupBy (l : List α) (k : κ) :
    (groupBy key l).find? k = if group key l k = [] then none else some (group key l k) := by
  induction l using List.reverseRecOn with
  | nil => rfl
  | append_singleton l a ih =>
      rw [groupBy_concat]
      have hgroup : group key (l ++ [a]) k = group key l k ++ if key a = k then [a] else [] := by
        unfold group
        rw [List.filter_append]
        by_cases hk : key a = k <;> simp [hk]
      by_cases hk : key a = k
      · subst hk
        rw [find?_alter_self, ih, hgroup, if_pos rfl, if_neg (List.append_ne_nil_of_right_ne_nil _ (List.cons_ne_nil a []))]
        by_cases hnil : group key l (key a) = []
        · simp [hnil]
        · simp [hnil]
      · rw [find?_alter_ne _ (Ne.symm hk), ih, hgroup, if_neg hk, List.append_nil]

theorem mem_keys_groupBy {l : List α} {k : κ} : k ∈ (groupBy key l).keys ↔ ∃ a ∈ l, key a = k := by
  rw [mem_keys_iff, find?_groupBy, ← group_ne_nil]
  by_cases hnil : group key l k = []
  · simp [hnil]
  · simp [hnil]

/-- **One element for every key, with what has the key.** -/
theorem entries_groupBy (l : List α) :
    (groupBy key l).entries = (groupBy key l).keys.map (fun k => (k, group key l k)) := by
  have hid : (groupBy key l).entries.map (fun e => (e.1, group key l e.1)) = (groupBy key l).entries.map id := by
    apply List.map_congr_left
    rintro ⟨k, g⟩ hmem
    rw [mem_entries_iff, find?_groupBy] at hmem
    split at hmem
    · cases hmem
    · rw [Option.some.inj hmem]
      rfl
  unfold keys
  rw [List.map_map]
  rw [List.map_id] at hid
  exact hid.symm

section Filtered

variable (p : α → Prop) [DecidablePred p]

/-- The keys, for `for (x : l) if (p(x)) map[key(x)].push_back(x)`. -/
theorem mem_keys_groupBy_filter {l : List α} {k : κ} :
    k ∈ (groupBy key (l.filter (fun a => p a))).keys ↔ l.filter (fun a => p a ∧ key a = k) ≠ [] := by
  rw [mem_keys_groupBy, ← group_ne_nil, group_filter]

theorem entries_groupBy_filter (l : List α) :
    (groupBy key (l.filter (fun a => p a))).entries
      = (groupBy key (l.filter (fun a => p a))).keys.map (fun k => (k, l.filter (fun a => p a ∧ key a = k))) := by
  rw [entries_groupBy]
  apply List.map_congr_left
  intro k _
  rw [group_filter]

end Filtered

/-- **The keys do not depend on the order of the input.** -/
theorem keys_congr {l l' : List α} (h : ∀ k, (∃ a ∈ l, key a = k) ↔ ∃ a ∈ l', key a = k) :
    (groupBy key l).keys = (groupBy key l').keys := by
  have hperm : (groupBy key l).keys.Perm (groupBy key l').keys := by
    rw [List.perm_ext_iff_of_nodup (nodup_keys _) (nodup_keys _)]
    intro k
    rw [mem_keys_groupBy, mem_keys_groupBy, h k]
  refine hperm.eq_of_pairwise ?_ (sorted_keys _) (sorted_keys _)
  intro a b _ _ hab hba
  exact absurd rfl (KeyOrder.ne_of_lt (KeyOrder.trans _ _ _ hab hba))

end Groups

/-- **What comes out for one key** of a loop over different keys that puts out something for each of them. -/
theorem filter_flatMap {κ ρ : Type} [DecidableEq κ] {ks : List κ} (hnodup : ks.Nodup) (f : κ → List ρ) (keyOf : ρ → κ)
    (h : ∀ k ∈ ks, ∀ r ∈ f k, keyOf r = k) (k : κ) :
    (ks.flatMap f).filter (fun r => keyOf r = k) = if k ∈ ks then f k else [] := by
  induction ks with
  | nil => rfl
  | cons k' ks ih =>
      rw [List.forall_mem_cons] at h
      rw [List.nodup_cons] at hnodup
      rw [List.flatMap_cons, List.filter_append, ih hnodup.2 h.2]
      by_cases hk : k' = k
      · subst hk
        have hall : (f k').filter (fun r => keyOf r = k') = f k' := by
          rw [List.filter_eq_self]
          intro r hr
          exact decide_eq_true (h.1 r hr)
        rw [hall, if_neg hnodup.1, if_pos List.mem_cons_self, List.append_nil]
      · have hnone : (f k').filter (fun r => keyOf r = k) = [] := by
          rw [List.filter_eq_nil_iff]
          intro r hr hkey
          rw [decide_eq_true_eq, h.1 r hr] at hkey
          exact hk hkey
        rw [hnone, List.nil_append]
        by_cases hmem : k ∈ ks
        · rw [if_pos hmem, if_pos (List.mem_cons_of_mem _ hmem)]
        · have hmem' : k ∉ k' :: ks := by
            rintro hin
            rcases List.mem_cons.mp hin with heq | hin
            · exact hk heq.symm
            · exact hmem hin
          rw [if_neg hmem, if_neg hmem']

end StdMap
