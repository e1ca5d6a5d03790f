import BdxReco.Lib.FirstMax
import BdxReco.Lib.GroupBy
import BdxReco.Lib.WeightedMean
import BdxReco.System.CalibrationReads
import Mathlib.Analysis.Complex.ExponentialBounds
import Mathlib.Analysis.SpecialFunctions.Log.Basic

/-!
# `Calorimeter.CalorimeterCluster` — the clusters of the calorimeter, sector by sector

`evnt` divides the hits above the hit threshold by sectors, looks for the largest hit of every sector, and publishes a
cluster where it is above the seed threshold. `setCluster` fills a cluster in two loops: one over the energies, one over
the weights of the position. The time of a cluster is declared but never set, and is left out.

`Clustered` says what the clusters of an event should be, sector by sector; `clustered` proves it of `evnt`.
`Positioned` says that the position of a cluster is defined and between its hits. The weights are cut off at 0, and the
source divides by their sum without looking at it: `positioned_iff` says when it is not 0.
-/

namespace BdxReco

/-- `CalorimeterCluster`. The position is `none` where the source divides 0 by 0. -/
structure CalorimeterCluster where
  sector : Int
  E : ℚ
  Eseed : ℚ
  x : Option ℝ
  y : Option ℝ
  Nhits : Nat
  NhitsNearSeed : Nat
  associated : List CalorimeterHit

namespace CalorimeterClusterFactory

open FirstMax StdMap

/-- The parameters, with their defaults. -/
structure Parms where
  hitThr : ℚ := 20
  seedThr : ℚ := 20
  posW0 : ℚ := 31 / 10

/-! ## One cluster -/

/-- Within one crystal of the seed, in `x` and in `y`. -/
def NearSeed (seed hit : CalorimeterHit) : Prop :=
  |hit.channel.x.toInt - seed.channel.x.toInt| ≤ 1 ∧ |hit.channel.y.toInt - seed.channel.y.toInt| ≤ 1

instance (seed hit : CalorimeterHit) : Decidable (NearSeed seed hit) := inferInstanceAs (Decidable (_ ∧ _))

/-- What `setCluster` writes before its loops. -/
def seeded (seed : CalorimeterHit) : CalorimeterCluster :=
  { sector := seed.channel.sector.toInt, E := 0, Eseed := seed.E, x := none, y := none, Nhits := 0,
    NhitsNearSeed := 0, associated := [] }

/-- The first loop: the energy, and the hits. -/
def addHit (seed : CalorimeterHit) (cluster : CalorimeterCluster) (hit : CalorimeterHit) : CalorimeterCluster :=
  { cluster with
    E := cluster.E + hit.E
    Nhits := cluster.Nhits + 1
    NhitsNearSeed := if NearSeed seed hit then cluster.NhitsNearSeed + 1 else cluster.NhitsNearSeed
    associated := cluster.associated ++ [hit] }

/-- `max(0, W0 + log(E / Etot))`. The logarithm of 0 is `-inf` and that of a negative number is no number: `std::max`
    gives 0 for both. -/
noncomputable def posWeight (p : Parms) (Etot E : ℚ) : ℝ :=
  if 0 < E / Etot then max 0 (p.posW0 + Real.log (E / Etot : ℚ)) else 0

/-- The sums of the second loop. -/
structure Sums where
  den : ℝ := 0
  Xnum : ℝ := 0
  Ynum : ℝ := 0

/-- The second loop: the weights. -/
noncomputable def addWeight (p : Parms) (Etot : ℚ) (sums : Sums) (hit : CalorimeterHit) : Sums :=
  { den := sums.den + posWeight p Etot hit.E
    Xnum := sums.Xnum + (hit.channel.x.toInt : ℝ) * posWeight p Etot hit.E
    Ynum := sums.Ynum + (hit.channel.y.toInt : ℝ) * posWeight p Etot hit.E }

/-- `num / den`. -/
noncomputable def quotient (num den : ℝ) : Option ℝ := if den = 0 then none else some (num / den)

noncomputable def setCluster (p : Parms) (seed : CalorimeterHit) (hits : List CalorimeterHit) : CalorimeterCluster :=
  let cluster := hits.foldl (addHit seed) (seeded seed)
  let sums := hits.foldl (addWeight p cluster.E) {}
  { cluster with x := quotient sums.Xnum sums.den, y := quotient sums.Ynum sums.den }

/-! ## The clusters of an event -/

/-- The hits above the threshold, by sectors. -/
def sectorHits (p : Parms) (hits : List CalorimeterHit) : StdMap Int (List CalorimeterHit) :=
  hits.foldl (fun map hit =>
    if hit.E > p.hitThr then map.alter hit.channel.sector.toInt (fun old => old.getD [] ++ [hit]) else map) empty

/-- The search for the seed of a sector: `Emax` and the pointer, which is not set before. -/
def searchSeed (hits : List CalorimeterHit) : ℚ × Option CalorimeterHit :=
  scan CalorimeterHit.E some (-99999, none) hits

/-- One sector. Without a hit above -99999 the pointer is read as it is: `none`. -/
noncomputable def publish (p : Parms) (data : List CalorimeterCluster) (hits : List CalorimeterHit) :
    Option (List CalorimeterCluster) :=
  match (searchSeed hits).2 with
  | none => none
  | some seed => if seed.E > p.seedThr then some (data ++ [setCluster p seed hits]) else some data

noncomputable def evnt (p : Parms) (hits : List CalorimeterHit) : Option (List CalorimeterCluster) :=
  ((sectorHits p hits).entries.map Prod.snd).foldlM (publish p) []

/-! ## What is wanted of the clusters -/

/-- The hits of a sector above the threshold. -/
def energetic (p : Parms) (hits : List CalorimeterHit) (sector : Int) : List CalorimeterHit :=
  hits.filter (fun hit => hit.E > p.hitThr ∧ hit.channel.sector.toInt = sector)

/-- The clusters of a sector. -/
def clustersOf (clusters : List CalorimeterCluster) (sector : Int) : List CalorimeterCluster :=
  clusters.filter (fun cluster => cluster.sector = sector)

/-- A sector has a seed. -/
def HasSeed (p : Parms) (hits : List CalorimeterHit) (sector : Int) : Prop :=
  ∃ hit ∈ hits, hit.channel.sector.toInt = sector ∧ hit.E > p.hitThr ∧ hit.E > p.seedThr

/-- **A cluster of these hits.** -/
structure ClusterOf (hits : List CalorimeterHit) (cluster : CalorimeterCluster) : Prop where
  associated : cluster.associated = hits
  energy : cluster.E = (hits.map CalorimeterHit.E).sum
  number : cluster.Nhits = hits.length
  largest : ∀ hit ∈ hits, hit.E ≤ cluster.Eseed
  seed : ∃ seed ∈ hits, seed.E = cluster.Eseed ∧
    cluster.NhitsNearSeed = (hits.filter (fun hit => NearSeed seed hit)).length
  one_le_near : 1 ≤ cluster.NhitsNearSeed
  near_le : cluster.NhitsNearSeed ≤ cluster.Nhits

/-- **What is wanted of an event**: one cluster for a sector with a seed, none for another. -/
structure Clustered (p : Parms) (hits : List CalorimeterHit) (clusters : List CalorimeterCluster) : Prop where
  withSeed : ∀ sector, HasSeed p hits sector →
    ∃ cluster, clustersOf clusters sector = [cluster] ∧ ClusterOf (energetic p hits sector) cluster
  others : ∀ sector, ¬ HasSeed p hits sector → clustersOf clusters sector = []

/-! ## `setCluster` -/

section SetCluster

variable {p : Parms} {seed : CalorimeterHit} {hits : List CalorimeterHit}

theorem nearSeed_self (seed : CalorimeterHit) : NearSeed seed seed := by
  unfold NearSeed
  rw [sub_self, sub_self, abs_zero]
  exact ⟨zero_le_one, zero_le_one⟩

/-- The first loop, from any state of the cluster. -/
theorem foldl_addHit (seed : CalorimeterHit) (hits : List CalorimeterHit) (cluster : CalorimeterCluster) :
    hits.foldl (addHit seed) cluster =
      { cluster with
        E := cluster.E + (hits.map CalorimeterHit.E).sum
        Nhits := cluster.Nhits + hits.length
        NhitsNearSeed := cluster.NhitsNearSeed + (hits.filter (fun hit => NearSeed seed hit)).length
        associated := cluster.associated ++ hits } := by
  induction hits generalizing cluster with
  | nil => simp
  | cons hit hits ih =>
      rw [List.foldl_cons, ih]
      unfold addHit
      by_cases hnear : NearSeed seed hit
      · simp [hnear, add_assoc, Nat.add_comm 1]
      · simp [hnear, add_assoc, Nat.add_comm 1]

/-- **A cluster is one of its hits**, for a seed that is one of the largest of them. -/
theorem clusterOf_setCluster (hseed : seed ∈ hits) (hle : ∀ hit ∈ hits, hit.E ≤ seed.E) :
    ClusterOf hits (setCluster p seed hits) := by
  have hnear : seed ∈ hits.filter (fun hit => NearSeed seed hit) :=
    List.mem_filter.mpr ⟨hseed, decide_eq_true (nearSeed_self seed)⟩
  unfold setCluster
  rw [foldl_addHit]
  refine ⟨rfl, ?_, ?_, hle, ⟨seed, hseed, rfl, ?_⟩, ?_, ?_⟩
  · exact zero_add _
  · exact Nat.zero_add _
  · exact Nat.zero_add _
  · show 1 ≤ 0 + (hits.filter (fun hit => NearSeed seed hit)).length
    rw [Nat.zero_add]
    exact List.length_pos_of_mem hnear
  · show 0 + (hits.filter (fun hit => NearSeed seed hit)).length ≤ 0 + hits.length
    rw [Nat.zero_add, Nat.zero_add]
    exact List.length_filter_le _ hits

theorem sector_setCluster (p : Parms) (seed : CalorimeterHit) (hits : List CalorimeterHit) :
    (setCluster p seed hits).sector = seed.channel.sector.toInt := by
  unfold setCluster
  rw [foldl_addHit]
  rfl

end SetCluster

/-! ## The sectors of an event -/

section Sectors

variable {p : Parms} {hits : List CalorimeterHit} {sector : Int}

theorem mem_energetic {hit : CalorimeterHit} :
    hit ∈ energetic p hits sector ↔ hit ∈ hits ∧ hit.E > p.hitThr ∧ hit.channel.sector.toInt = sector := by
  unfold energetic
  rw [List.mem_filter, decide_eq_true_eq]

theorem sectorHits_eq (p : Parms) (hits : List CalorimeterHit) :
    sectorHits p hits = groupBy (fun hit => hit.channel.sector.toInt) (hits.filter (fun hit => hit.E > p.hitThr)) := by
  unfold sectorHits groupBy
  rw [List.foldl_filter]
  congr 1
  funext map hit
  by_cases habove : hit.E > p.hitThr
  · simp [habove]
  · simp [habove]

theorem mem_keys_sectorHits : sector ∈ (sectorHits p hits).keys ↔ energetic p hits sector ≠ [] := by
  rw [sectorHits_eq]
  exact mem_keys_groupBy_filter _ _

theorem entries_sectorHits (p : Parms) (hits : List CalorimeterHit) :
    (sectorHits p hits).entries = (sectorHits p hits).keys.map (fun sector => (sector, energetic p hits sector)) := by
  rw [sectorHits_eq]
  exact entries_groupBy_filter _ _ hits

end Sectors

/-! ## What an event publishes -/

/-- What is published for one sector. -/
noncomputable def clusterFor (p : Parms) (hits : List CalorimeterHit) : List CalorimeterCluster :=
  match (searchSeed hits).2 with
  | none => []
  | some seed => if seed.E > p.seedThr then [setCluster p seed hits] else []

section Event

variable {p : Parms} {hits : List CalorimeterHit} {seed : CalorimeterHit}

/-- The search stops at the first of the largest hits. -/
theorem searchSeed_eq (hseed : FirstLargest CalorimeterHit.E hits seed) (habove : -99999 < seed.E) :
    searchSeed hits = (seed.E, some seed) :=
  scan_of_firstLargest CalorimeterHit.E some hseed habove

theorem clusterFor_eq (hseed : FirstLargest CalorimeterHit.E hits seed) (habove : -99999 < seed.E) :
    clusterFor p hits = if seed.E > p.seedThr then [setCluster p seed hits] else [] := by
  unfold clusterFor
  rw [searchSeed_eq hseed habove]

/-- One sector: the pointer is set, and no other sector is touched. -/
theorem publish_eq (hne : hits ≠ []) (habove : ∀ hit ∈ hits, -99999 < hit.E) (data : List CalorimeterCluster) :
    publish p data hits = some (data ++ clusterFor p hits) := by
  obtain ⟨seed, hseed⟩ := exists_firstLargest CalorimeterHit.E hne
  have hlow := habove seed hseed.mem
  rw [clusterFor_eq hseed hlow]
  unfold publish
  rw [searchSeed_eq hseed hlow]
  show (if seed.E > p.seedThr then some (data ++ [setCluster p seed hits]) else some data) = _
  by_cases hthr : seed.E > p.seedThr
  · rw [if_pos hthr, if_pos hthr]
  · rw [if_neg hthr, if_neg hthr, List.append_nil]

/-- All sectors. -/
theorem foldlM_publish {groups : List (List CalorimeterHit)}
    (h : ∀ group ∈ groups, group ≠ [] ∧ ∀ hit ∈ group, -99999 < hit.E) (data : List CalorimeterCluster) :
    groups.foldlM (publish p) data = some (data ++ groups.flatMap (clusterFor p)) := by
  induction groups generalizing data with
  | nil => simp
  | cons group groups ih =>
      rw [List.forall_mem_cons] at h
      rw [List.foldlM_cons, publish_eq h.1.1 h.1.2, List.flatMap_cons, ← List.append_assoc]
      exact ih h.2 _

/-- **The clusters of an event**, sector by sector. -/
theorem evnt_eq (habove : ∀ hit ∈ hits, -99999 < hit.E) :
    evnt p hits = some ((sectorHits p hits).keys.flatMap (fun sector => clusterFor p (energetic p hits sector))) := by
  unfold evnt
  rw [entries_sectorHits, List.map_map, foldlM_publish, List.nil_append, List.flatMap_map]
  · rfl
  · intro group hgroup
    obtain ⟨sector, hsector, rfl⟩ := List.mem_map.mp hgroup
    exact ⟨mem_keys_sectorHits.mp hsector, fun hit hhit => habove hit (mem_energetic.mp hhit).1⟩

/-- A cluster has the sector of its hits. -/
theorem sector_of_mem_clusterFor {sector : Int} {cluster : CalorimeterCluster}
    (habove : ∀ hit ∈ hits, -99999 < hit.E) (hne : energetic p hits sector ≠ [])
    (h : cluster ∈ clusterFor p (energetic p hits sector)) : cluster.sector = sector := by
  obtain ⟨seed, hseed⟩ := exists_firstLargest CalorimeterHit.E hne
  obtain ⟨hmem, _, hsector⟩ := mem_energetic.mp hseed.mem
  rw [clusterFor_eq hseed (habove seed hmem)] at h
  split at h
  · rw [List.mem_singleton.mp h, sector_setCluster]
    exact hsector
  · cases h

/-- What an event publishes for one sector. -/
theorem clustersOf_evnt {clusters : List CalorimeterCluster} (habove : ∀ hit ∈ hits, -99999 < hit.E)
    (h : evnt p hits = some clusters) (sector : Int) :
    clustersOf clusters sector
      = if energetic p hits sector ≠ [] then clusterFor p (energetic p hits sector) else [] := by
  rw [evnt_eq habove] at h
  obtain rfl := Option.some.inj h
  unfold clustersOf
  rw [filter_flatMap (nodup_keys (sectorHits p hits)) _ CalorimeterCluster.sector]
  · simp only [mem_keys_sectorHits]
  · intro sector hsector cluster hcluster
    exact sector_of_mem_clusterFor habove (mem_keys_sectorHits.mp hsector) hcluster

/-- A sector has a seed when the largest of its hits above the threshold is one. -/
theorem hasSeed_iff {sector : Int} (hseed : FirstLargest CalorimeterHit.E (energetic p hits sector) seed) :
    HasSeed p hits sector ↔ seed.E > p.seedThr := by
  constructor
  · rintro ⟨hit, hmem, hsector, hhit, hthr⟩
    exact lt_of_lt_of_le hthr (hseed.le hit (mem_energetic.mpr ⟨hmem, hhit, hsector⟩))
  · intro hthr
    obtain ⟨hmem, hhit, hsector⟩ := mem_energetic.mp hseed.mem
    exact ⟨seed, hmem, hsector, hhit, hthr⟩

end Event

/-- **The clusters partition the hits above the threshold by sector**: one cluster of all these hits for every sector
    with a seed, and none for another. -/
theorem clustered (p : Parms) (hits : List CalorimeterHit) (habove : ∀ hit ∈ hits, -99999 < hit.E) :
    ∃ clusters, evnt p hits = some clusters ∧ Clustered p hits clusters := by
  refine ⟨_, evnt_eq habove, ?_, ?_⟩
  · intro sector hhas
    have hne : energetic p hits sector ≠ [] := by
      obtain ⟨hit, hmem, hsector, hhit, _⟩ := hhas
      exact List.ne_nil_of_mem (mem_energetic.mpr ⟨hmem, hhit, hsector⟩)
    obtain ⟨seed, hseed⟩ := exists_firstLargest CalorimeterHit.E hne
    have hlow := habove seed (mem_energetic.mp hseed.mem).1
    refine ⟨setCluster p seed (energetic p hits sector), ?_, clusterOf_setCluster hseed.mem hseed.le⟩
    rw [clustersOf_evnt habove (evnt_eq habove), if_pos hne, clusterFor_eq hseed hlow,
      if_pos ((hasSeed_iff hseed).mp hhas)]
  · intro sector hhas
    rw [clustersOf_evnt habove (evnt_eq habove)]
    by_cases hne : energetic p hits sector ≠ []
    · obtain ⟨seed, hseed⟩ := exists_firstLargest CalorimeterHit.E hne
      have hlow := habove seed (mem_energetic.mp hseed.mem).1
      rw [if_pos hne, clusterFor_eq hseed hlow, if_neg (fun hthr => hhas ((hasSeed_iff hseed).mpr hthr))]
    · rw [if_neg hne]

/-- Two sectors with two hits each, one of them with a seed. -/
theorem clustered_two_sectors :
    ∃ clusters, evnt { seedThr := 50 }
        [⟨⟨0, 1, 1, 0⟩, 30, none, 0, 0, none⟩, ⟨⟨1, 0, 0, 0⟩, 25, none, 0, 0, none⟩,
          ⟨⟨0, 1, 2, 0⟩, 60, none, 0, 0, none⟩, ⟨⟨1, 3, 3, 0⟩, 10, none, 0, 0, none⟩] = some clusters ∧
      Clustered { seedThr := 50 }
        [⟨⟨0, 1, 1, 0⟩, 30, none, 0, 0, none⟩, ⟨⟨1, 0, 0, 0⟩, 25, none, 0, 0, none⟩,
          ⟨⟨0, 1, 2, 0⟩, 60, none, 0, 0, none⟩, ⟨⟨1, 3, 3, 0⟩, 10, none, 0, 0, none⟩] clusters :=
  clustered _ _ (by
    intro hit hhit
    simp only [List.mem_cons, List.not_mem_nil, or_false] at hhit
    rcases hhit with rfl | rfl | rfl | rfl
    · show (-99999 : ℚ) < 30
      norm_num
    · show (-99999 : ℚ) < 25
      norm_num
    · show (-99999 : ℚ) < 60
      norm_num
    · show (-99999 : ℚ) < 10
      norm_num)

/-! ## The position of a cluster -/

/-- The sums of the second loop, which runs with the energy of the first. -/
noncomputable def positionSums (p : Parms) (seed : CalorimeterHit) (hits : List CalorimeterHit) : Sums :=
  hits.foldl (addWeight p (hits.foldl (addHit seed) (seeded seed)).E) {}

/-- A coordinate that is defined, and neither below all hits nor above all of them. -/
def Inside (coord : CalorimeterHit → Int) (hits : List CalorimeterHit) (value : Option ℝ) : Prop :=
  ∃ v, value = some v ∧ (∃ hit ∈ hits, (coord hit : ℝ) ≤ v) ∧ ∃ hit ∈ hits, v ≤ (coord hit : ℝ)

/-- **What is wanted of the position of a cluster.** -/
structure Positioned (p : Parms) (seed : CalorimeterHit) (hits : List CalorimeterHit) : Prop where
  den_pos : 0 < (positionSums p seed hits).den
  x : Inside (fun hit => hit.channel.x.toInt) hits (setCluster p seed hits).x
  y : Inside (fun hit => hit.channel.y.toInt) hits (setCluster p seed hits).y

/-- A hit with more than its share of the energy, the share being `exp (-W0)`. -/
def Dominant (p : Parms) (hits : List CalorimeterHit) (hit : CalorimeterHit) : Prop :=
  Real.exp (-p.posW0) * (hits.map CalorimeterHit.E).sum < hit.E

section Position

open WeightedMean

variable {p : Parms} {seed : CalorimeterHit} {hits : List CalorimeterHit}

theorem posWeight_nonneg (p : Parms) (Etot E : ℚ) : 0 ≤ posWeight p Etot E := by
  unfold posWeight
  split
  · exact le_max_left _ _
  · exact le_refl 0

/-- The weight of a hit is not cut off where the hit has more than its share. -/
theorem posWeight_pos_iff {Etot E : ℚ} (hEtot : 0 < Etot) (hE : 0 < E) :
    0 < posWeight p Etot E ↔ Real.exp (-p.posW0) * Etot < E := by
  have hquot : 0 < E / Etot := div_pos hE hEtot
  have hquot' : (0 : ℝ) < (E / Etot : ℚ) := Rat.cast_pos.mpr hquot
  have hEtot' : (0 : ℝ) < Etot := Rat.cast_pos.mpr hEtot
  unfold posWeight
  rw [if_pos hquot, lt_max_iff, or_iff_right (lt_irrefl _), ← neg_lt_iff_pos_add', Real.lt_log_iff_exp_lt hquot',
    Rat.cast_div, lt_div_iff₀ hEtot']

/-- The second loop, from any state of the sums. -/
theorem foldl_addWeight (p : Parms) (Etot : ℚ) (hits : List CalorimeterHit) (sums : Sums) :
    hits.foldl (addWeight p Etot) sums =
      { den := sums.den + total (fun hit => posWeight p Etot hit.E) hits
        Xnum := sums.Xnum +
          weighted (fun hit => (hit.channel.x.toInt : ℝ)) (fun hit => posWeight p Etot hit.E) hits
        Ynum := sums.Ynum +
          weighted (fun hit => (hit.channel.y.toInt : ℝ)) (fun hit => posWeight p Etot hit.E) hits } := by
  induction hits generalizing sums with
  | nil => simp [total, weighted]
  | cons hit hits ih =>
      rw [List.foldl_cons, ih]
      simp [addWeight, total, weighted, add_assoc]

theorem positionSums_eq (p : Parms) (seed : CalorimeterHit) (hits : List CalorimeterHit) :
    positionSums p seed hits =
      { den := total (fun hit => posWeight p (hits.map CalorimeterHit.E).sum hit.E) hits
        Xnum := weighted (fun hit => (hit.channel.x.toInt : ℝ))
          (fun hit => posWeight p (hits.map CalorimeterHit.E).sum hit.E) hits
        Ynum := weighted (fun hit => (hit.channel.y.toInt : ℝ))
          (fun hit => posWeight p (hits.map CalorimeterHit.E).sum hit.E) hits } := by
  have hE : (hits.foldl (addHit seed) (seeded seed)).E = (hits.map CalorimeterHit.E).sum := by
    rw [foldl_addHit]
    exact zero_add _
  unfold positionSums
  rw [hE, foldl_addWeight]
  simp

/-- A quotient of the weighted sums is inside, if there is a weight. -/
theorem inside_quotient (coord : CalorimeterHit → Int) {w : CalorimeterHit → ℝ} (hw : ∀ hit ∈ hits, 0 ≤ w hit)
    (hpos : 0 < total w hits) :
    Inside coord hits (quotient (weighted (fun hit => (coord hit : ℝ)) w hits) (total w hits)) := by
  unfold quotient
  rw [if_neg (ne_of_gt hpos)]
  exact ⟨_, rfl, exists_le_mean hw hpos, exists_mean_le hw hpos⟩

/-- The denominator is positive if some hit is dominant. -/
theorem den_pos_iff (hE : ∀ hit ∈ hits, 0 < hit.E) :
    0 < (positionSums p seed hits).den ↔ ∃ hit ∈ hits, Dominant p hits hit := by
  rw [positionSums_eq]
  show 0 < total (fun hit => posWeight p (hits.map CalorimeterHit.E).sum hit.E) hits ↔ _
  rw [total_pos_iff (fun hit _ => posWeight_nonneg p _ hit.E)]
  refine exists_congr (fun hit => and_congr_right (fun hhit => ?_))
  have hEtot : 0 < (hits.map CalorimeterHit.E).sum :=
    (total_pos_iff (fun hit hhit => (hE hit hhit).le)).mpr ⟨hit, hhit, hE hit hhit⟩
  exact posWeight_pos_iff hEtot (hE hit hhit)

end Position

/-- **The position of a cluster is defined and inside the cluster if and only if some hit has more than the share
    `exp (-W0)` of the energy.** Otherwise all weights are cut off. -/
theorem positioned_iff (p : Parms) (seed : CalorimeterHit) (hits : List CalorimeterHit)
    (hE : ∀ hit ∈ hits, 0 < hit.E) : Positioned p seed hits ↔ ∃ hit ∈ hits, Dominant p hits hit := by
  constructor
  · intro h
    exact (den_pos_iff hE).mp h.den_pos
  · intro hdominant
    have hden : 0 < (positionSums p seed hits).den := (den_pos_iff hE).mpr hdominant
    have hx : (setCluster p seed hits).x = quotient (positionSums p seed hits).Xnum (positionSums p seed hits).den := rfl
    have hy : (setCluster p seed hits).y = quotient (positionSums p seed hits).Ynum (positionSums p seed hits).den := rfl
    refine ⟨hden, ?_, ?_⟩
    · rw [hx, positionSums_eq]
      rw [positionSums_eq] at hden
      exact inside_quotient _ (fun hit _ => posWeight_nonneg p _ hit.E) hden
    · rw [hy, positionSums_eq]
      rw [positionSums_eq] at hden
      exact inside_quotient _ (fun hit _ => posWeight_nonneg p _ hit.E) hden

/-- A hit of the energy `E` in the column `x` of the first row. -/
def hitAt (x : Int8) (E : ℚ) : CalorimeterHit := ⟨⟨0, x, 0, 0⟩, E, none, 0, 0, none⟩

/-- Three hits with different shares of the energy. The last one has less than the share `exp (-3.1)`, and no weight. -/
def sharedHits : List CalorimeterHit := [hitAt 2 100, hitAt 3 30, hitAt 1 1]

theorem positioned_iff_shared : (∀ hit ∈ sharedHits, 0 < hit.E) ∧ Positioned {} (hitAt 2 100) sharedHits := by
  have hE : ∀ hit ∈ sharedHits, 0 < hit.E := by
    simp [sharedHits, hitAt]
  have hexp : Real.exp (-(31 / 10)) < 1 / 2 := by
    rw [Real.exp_neg, inv_lt_comm₀ (Real.exp_pos _) (by norm_num)]
    linarith [Real.add_one_lt_exp (show (31 / 10 : ℝ) ≠ 0 by norm_num)]
  have hdominant : Dominant {} sharedHits (hitAt 2 100) := by
    have hsum : (sharedHits.map CalorimeterHit.E).sum = 131 := by norm_num [sharedHits, hitAt]
    unfold Dominant
    rw [hsum]
    norm_num [hitAt]
    linarith
  exact ⟨hE, (positioned_iff {} (hitAt 2 100) sharedHits hE).mpr ⟨hitAt 2 100, by simp [sharedHits], hdominant⟩⟩

/-- Hits of one energy in so many crystals of a sector with five columns. -/
def evenHits (n : Nat) : List CalorimeterHit :=
  (List.range n).map (fun i => ⟨⟨0, Int8.ofNat (i % 5), Int8.ofNat (i / 5), 0⟩, 30, none, 0, 0, none⟩)

theorem E_of_mem_evenHits {n : Nat} {hit : CalorimeterHit} (h : hit ∈ evenHits n) : hit.E = 30 := by
  obtain ⟨i, _, rfl⟩ := List.mem_map.mp h
  rfl

theorem sum_evenHits (n : Nat) : ((evenHits n).map CalorimeterHit.E).sum = n * 30 := by
  unfold evenHits
  rw [List.map_map]
  show ((List.range n).map (fun _ => (30 : ℚ))).sum = n * 30
  simp

/-- 23 hits of one energy, with the default parameters: `log 23` is more than 3.1. -/
theorem not_positioned_even :
    evenHits 23 ≠ [] ∧ (∀ hit ∈ evenHits 23, 0 < hit.E) ∧
      ¬ Positioned {} ⟨⟨0, 0, 0, 0⟩, 30, none, 0, 0, none⟩ (evenHits 23) := by
  have hE : ∀ hit ∈ evenHits 23, 0 < hit.E := by
    intro hit hhit
    rw [E_of_mem_evenHits hhit]
    norm_num
  refine ⟨by decide, hE, ?_⟩
  intro h
  obtain ⟨hit, hhit, hdominant⟩ := (den_pos_iff hE).mp h.den_pos
  unfold Dominant at hdominant
  rw [sum_evenHits, E_of_mem_evenHits hhit] at hdominant
  have hexp : Real.exp (31 / 10) < 23 := by
    have hpow : Real.exp (31 / 10) ^ 10 < 23 ^ 10 := by
      calc Real.exp (31 / 10) ^ 10 = Real.exp 1 ^ 31 := by
            rw [← Real.exp_nat_mul, ← Real.exp_nat_mul]
            norm_num
        _ < 2.7182818286 ^ 31 := by
            exact pow_lt_pow_left₀ Real.exp_one_lt_d9 (Real.exp_pos 1).le (by norm_num)
        _ < 23 ^ 10 := by norm_num
    exact lt_of_pow_lt_pow_left₀ 10 (by norm_num) hpow
  have hW0 : ((({} : Parms).posW0 : ℚ) : ℝ) = 31 / 10 := by norm_num
  have hinv : (23 : ℝ)⁻¹ < Real.exp (-((({} : Parms).posW0 : ℚ) : ℝ)) := by
    rw [hW0, Real.exp_neg]
    exact inv_strictAnti₀ (Real.exp_pos _) hexp
  push_cast at hdominant
  linarith

end CalorimeterClusterFactory

end BdxReco
