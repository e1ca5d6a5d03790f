import Mathlib.Data.List.Basic
import Mathlib.Data.List.Perm.Basic

/-!
# `Lib.Dom` — trees of tagged nodes

A document is a tree: leaves hold data, containers hold nodes. Readers of a document often take the list of all its
nodes and look at the children of those they know. They meet every node below the root once (`scanned_perm`), but the
nodes below a container come after all of its children; the order is the one of the document when the containers that
are looked at are not nested (`scanned_filter`).
-/

inductive Dom (τ δ : Type) where
  | leaf (tag : τ) (data : δ)
  | container (tag : τ) (children : List (Dom τ δ))

namespace Dom

variable {τ δ : Type}

def tag : Dom τ δ → τ
  | .leaf tag _ => tag
  | .container tag _ => tag

/-- The data of a leaf. -/
def data? : Dom τ δ → Option δ
  | .leaf _ data => some data
  | .container _ _ => none

/-- The nodes of a container. -/
def children? : Dom τ δ → Option (List (Dom τ δ))
  | .leaf _ _ => none
  | .container _ children => some children

def children (t : Dom τ δ) : List (Dom τ δ) := t.children?.getD []

mutual

/-- All nodes, in the order of the document. -/
def nodes : Dom τ δ → List (Dom τ δ)
  | .leaf tag data => [.leaf tag data]
  | .container tag children => .container tag children :: nodesOfList children

def nodesOfList : List (Dom τ δ) → List (Dom τ δ)
  | [] => []
  | t :: ts => t.nodes ++ nodesOfList ts

end

mutual

/-- All nodes below the root with their parents, in the order of the document. -/
def edges : Dom τ δ → List (Dom τ δ × Dom τ δ)
  | .leaf _ _ => []
  | .container tag children => edgesOfList (.container tag children) children

def edgesOfList (parent : Dom τ δ) : List (Dom τ δ) → List (Dom τ δ × Dom τ δ)
  | [] => []
  | t :: ts => (parent, t) :: t.edges ++ edgesOfList parent ts

end

/-- The nodes below the root in the order in which a scan of all nodes finds them as children. -/
def scanned (t : Dom τ δ) : List (Dom τ δ × Dom τ δ) := t.nodes.flatMap (fun m => m.children.map (Prod.mk m))

/-- Induction over a tree. -/
@[elab_as_elim]
theorem induction {P : Dom τ δ → Prop} (leaf : ∀ tag data, P (.leaf tag data))
    (container : ∀ tag children, (∀ t ∈ children, P t) → P (.container tag children)) (t : Dom τ δ) : P t := by
  refine @Dom.rec τ δ P (fun ts => ∀ t ∈ ts, P t) leaf container ?_ ?_ t
  · simp
  · intro t ts ht hts
    exact List.forall_mem_cons.mpr ⟨ht, hts⟩

@[simp] theorem nodes_leaf (tag : τ) (data : δ) : (leaf tag data).nodes = [leaf tag data] := by
  rw [nodes]

@[simp] theorem nodes_container (tag : τ) (children : List (Dom τ δ)) :
    (container tag children).nodes = container tag children :: children.flatMap nodes := by
  rw [nodes]
  congr 1
  induction children with
  | nil => rw [nodesOfList, List.flatMap_nil]
  | cons t ts ih => rw [nodesOfList, List.flatMap_cons, ih]

@[simp] theorem edges_leaf (tag : τ) (data : δ) : (leaf tag data).edges = [] := by
  rw [edges]

@[simp] theorem edges_container (tag : τ) (children : List (Dom τ δ)) :
    (container tag children).edges = children.flatMap (fun t => (container tag children, t) :: t.edges) := by
  rw [edges]
  generalize container tag children = parent
  induction children with
  | nil => rw [edgesOfList, List.flatMap_nil]
  | cons t ts ih => rw [edgesOfList, List.flatMap_cons, ih]

@[simp] theorem scanned_leaf (tag : τ) (data : δ) : (leaf tag data).scanned = [] := by
  simp [scanned, children, children?]

@[simp] theorem scanned_container (tag : τ) (children : List (Dom τ δ)) :
    (container tag children).scanned =
      children.map (Prod.mk (container tag children)) ++ children.flatMap scanned := by
  simp only [scanned, nodes_container, List.flatMap_cons, List.flatMap_assoc]
  rfl

/-- The nodes are the root and those that have a parent. -/
theorem nodes_eq_edges (t : Dom τ δ) : t.nodes = t :: t.edges.map Prod.snd := by
  induction t using induction with
  | leaf tag data => simp
  | container tag children ih =>
      simp only [nodes_container, edges_container, List.map_flatMap, List.map_cons]
      congr 1
      exact List.flatMap_congr ih

/-- The scan finds the nodes below the root, each once. -/
theorem scanned_perm (t : Dom τ δ) : t.scanned.Perm t.edges := by
  induction t using induction with
  | leaf tag data => simp
  | container tag children ih =>
      rw [scanned_container, edges_container]
      generalize container tag children = parent
      induction children with
      | nil => simp
      | cons t ts ihts =>
          have hts := ihts (fun t' ht' => ih t' (List.mem_cons_of_mem t ht'))
          have ht := ih t List.mem_cons_self
          simp only [List.map_cons, List.flatMap_cons, List.cons_append]
          refine List.Perm.cons _ ?_
          -- the later children step behind what is below the first one
          have hstep := List.perm_append_comm_assoc (ts.map (Prod.mk parent)) t.scanned (ts.flatMap scanned)
          exact hstep.trans (ht.append hts)

theorem mem_nodes_self (t : Dom τ δ) : t ∈ t.nodes := by
  rw [nodes_eq_edges]
  exact List.mem_cons_self

/-- The children of a node are nodes. -/
theorem mem_nodes_of_mem_children {t m n : Dom τ δ} (hm : m ∈ t.nodes) (hn : n ∈ m.children) : n ∈ t.nodes := by
  induction t using induction with
  | leaf tag data =>
      obtain rfl : m = leaf tag data := by simpa using hm
      simp [children, children?] at hn
  | container tag children ih =>
      rw [nodes_container] at hm ⊢
      refine List.mem_cons_of_mem _ (List.mem_flatMap.mpr ?_)
      rcases List.mem_cons.mp hm with rfl | hbelow
      · exact ⟨n, hn, mem_nodes_self n⟩
      · obtain ⟨t, ht, hmt⟩ := List.mem_flatMap.mp hbelow
        exact ⟨t, ht, ih t ht hmt⟩

/-- A walk over all nodes that looks at the children of those with `p` is one over the scanned nodes. -/
theorem scanned_flatMap {ρ : Type} (p : Dom τ δ → Bool) (f : Dom τ δ → List ρ) (t : Dom τ δ) :
    (t.scanned.filter (fun edge => p edge.1)).flatMap (fun edge => f edge.2) =
      t.nodes.flatMap (fun m => if p m then m.children.flatMap f else []) := by
  rw [scanned, List.filter_flatMap, List.flatMap_assoc]
  refine List.flatMap_congr (fun m _ => ?_)
  rw [List.filter_map]
  cases hp : p m with
  | true => simp [Function.comp_def, hp, List.flatMap_map]
  | false => simp [Function.comp_def, hp]

/-! ## Containers that are not nested -/

/-- No container with `p` lies below another one. -/
def NotNested (p : Dom τ δ → Bool) (t : Dom τ δ) : Prop :=
  ∀ m ∈ t.nodes, p m = true → ∀ edge ∈ m.edges, p edge.2 = false

theorem NotNested.child {p : Dom τ δ → Bool} {tag : τ} {children : List (Dom τ δ)}
    (h : NotNested p (container tag children)) {t : Dom τ δ} (ht : t ∈ children) : NotNested p t := by
  intro m hm
  refine h m ?_
  rw [nodes_container]
  exact List.mem_cons_of_mem _ (List.mem_flatMap.mpr ⟨t, ht, hm⟩)

/-- A parent is a node. -/
theorem mem_nodes_of_mem_edges {t : Dom τ δ} {edge : Dom τ δ × Dom τ δ} (h : edge ∈ t.edges) : edge.1 ∈ t.nodes := by
  induction t using induction with
  | leaf tag data => simp at h
  | container tag children ih =>
      rw [edges_container] at h
      obtain ⟨t, ht, hedge⟩ := List.mem_flatMap.mp h
      rw [nodes_container]
      rcases List.mem_cons.mp hedge with rfl | hbelow
      · exact List.mem_cons_self
      · exact List.mem_cons_of_mem _ (List.mem_flatMap.mpr ⟨t, ht, ih t ht hbelow⟩)

/-- Where no node has `p`, nothing is found below one. -/
theorem edges_filter_eq_nil {p : Dom τ δ → Bool} {t : Dom τ δ} (h : ∀ m ∈ t.nodes, p m = false) :
    t.edges.filter (fun edge => p edge.1) = [] := by
  rw [List.filter_eq_nil_iff]
  intro edge hedge
  rw [h _ (mem_nodes_of_mem_edges hedge)]
  exact Bool.false_ne_true

/-- Below a container with `p` no node has it. -/
theorem NotNested.below {p : Dom τ δ → Bool} {tag : τ} {children : List (Dom τ δ)}
    (h : NotNested p (container tag children)) (hp : p (container tag children) = true) {t : Dom τ δ}
    (ht : t ∈ children) : ∀ m ∈ t.nodes, p m = false := by
  intro m hm
  have hbelow := h _ (mem_nodes_self _) hp
  rw [edges_container] at hbelow
  rw [nodes_eq_edges] at hm
  rcases List.mem_cons.mp hm with rfl | hm
  · exact hbelow (_, m) (List.mem_flatMap.mpr ⟨m, ht, List.mem_cons_self⟩)
  · obtain ⟨edge, hedge, rfl⟩ := List.mem_map.mp hm
    exact hbelow edge (List.mem_flatMap.mpr ⟨t, ht, List.mem_cons_of_mem _ hedge⟩)

/-- **The scan goes in the order of the document** when it looks at containers that are not nested. -/
theorem scanned_filter {p : Dom τ δ → Bool} {t : Dom τ δ} (h : NotNested p t) :
    t.scanned.filter (fun edge => p edge.1) = t.edges.filter (fun edge => p edge.1) := by
  induction t using induction with
  | leaf tag data => simp
  | container tag children ih =>
      -- a container without `p` adds nothing of its own; below one with `p` there is nothing to find
      have hchildren : ∀ t ∈ children,
          t.scanned.filter (fun edge => p edge.1) = t.edges.filter (fun edge => p edge.1) :=
        fun t ht => ih t ht (h.child ht)
      cases hp : p (container tag children) with
      | false =>
          rw [scanned_container, edges_container]
          simp only [List.filter_append, List.filter_flatMap, List.filter_map, Function.comp_def, hp,
            List.filter_false, List.map_nil, List.nil_append, List.filter_cons_of_neg, Bool.false_eq_true,
            not_false_eq_true]
          exact List.flatMap_congr hchildren
      | true =>
          have hnone : ∀ t ∈ children, t.edges.filter (fun edge => p edge.1) = [] :=
            fun t ht => edges_filter_eq_nil (h.below hp ht)
          rw [scanned_container, edges_container]
          generalize container tag children = parent at hp
          have hdirect : (children.map (Prod.mk parent)).filter (fun edge => p edge.1) =
              children.map (Prod.mk parent) := by
            rw [List.filter_eq_self]
            rintro edge hedge
            obtain ⟨t, _, rfl⟩ := List.mem_map.mp hedge
            exact hp
          have hbelow : (children.flatMap scanned).filter (fun edge => p edge.1) = [] := by
            rw [List.filter_flatMap, List.flatMap_eq_nil_iff]
            intro t ht
            rw [hchildren t ht, hnone t ht]
          have hedges : (children.flatMap (fun t => (parent, t) :: t.edges)).filter (fun edge => p edge.1) =
              children.map (Prod.mk parent) := by
            rw [List.filter_flatMap, List.map_eq_flatMap]
            refine List.flatMap_congr (fun t ht => ?_)
            rw [List.filter_cons, if_pos hp, hnone t ht]
          rw [List.filter_append, hdirect, hbelow, List.append_nil, hedges]

end Dom
