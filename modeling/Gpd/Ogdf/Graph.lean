import Gpd.Cxx.Json
import Gpd.Ogdf.NodeTable

/-! The part of the graph library that the server calls: graphs built by appending nodes
and edges, copies, deletion of edges, and the algorithms as an interface. -/
namespace Gpd.Ogdf
open Cxx

/-- A node is its place in the node list of its graph. -/
abbrev Node := ℕ

/-- Nodes by their indices, and edges by source and target, in insertion order. -/
structure Graph where
  nodes : List ℤ
  edges : List (Node × Node)
  deriving DecidableEq, Repr

/-- The list without the entries at the given places. -/
def without {α : Type*} (xs : List α) (deleted : List ℕ) : List α :=
  (xs.zipIdx.filter fun e => e.2 ∉ deleted).map Prod.fst

lemma without_sublist {α : Type*} (xs : List α) (deleted : List ℕ) :
    (without xs deleted).Sublist xs := by
  have h := (List.filter_sublist (p := fun e : α × ℕ => decide (e.2 ∉ deleted))
    (l := xs.zipIdx)).map Prod.fst
  rwa [List.zipIdx_map_fst] at h

lemma exists_without_eq_filter {α : Type*} (p : α → Bool) (xs : List α) :
    ∃ deleted, without xs deleted = xs.filter p := by
  refine ⟨(xs.zipIdx.filter fun e => !p e.1).map Prod.snd, ?_⟩
  have hkept : ∀ e ∈ xs.zipIdx,
      decide (e.2 ∉ (xs.zipIdx.filter fun e => !p e.1).map Prod.snd) = p e.1 := by
    rintro ⟨x, i⟩ hx
    have hx := List.mk_mem_zipIdx_iff_getElem?.mp hx
    have hother : (∃ y, (y, i) ∈ xs.zipIdx ∧ p y = false) ↔ p x = false := by
      simp only [List.mk_mem_zipIdx_iff_getElem?, hx, Option.some.injEq, exists_eq_left']
    cases hp : p x <;> simp [hother, hp]
  have hmap : (xs.zipIdx.filter fun e => p e.1).map Prod.fst = xs.filter p := by
    have h := List.filter_map (p := p) (f := Prod.fst) (l := xs.zipIdx)
    rw [List.zipIdx_map_fst] at h
    exact h.symm
  rw [without, List.filter_congr hkept, hmap]

/-- Coordinates, stored by node index. -/
structure GraphAttributes where
  x : ℤ → Double
  y : ℤ → Double

namespace Graph

def empty : Graph := ⟨[], []⟩

def newNode (g : Graph) (table : NodeTable) (index : ℤ) : Except Fault (Graph × NodeTable) := do
  return ({ g with nodes := g.nodes ++ [index] }, ← table.enlarge index)

def newEdge (g : Graph) (v w : Node) : Graph := { g with edges := g.edges ++ [(v, w)] }

/-- Every node has an entry of its own in node arrays. A node with an index that is in use
makes the data structure inconsistent. -/
def Consistent (g : Graph) : Prop := g.nodes.Nodup ∧ ∀ i ∈ g.nodes, 0 ≤ i

instance (g : Graph) : Decidable g.Consistent := by
  unfold Consistent
  infer_instance

def numbering (n : ℕ) : List ℤ := (List.range n).map Int.ofNat

/-- `GraphCopy`: one copy per node, numbered from 0. -/
def copy (g : Graph) : Graph where
  nodes := numbering g.nodes.length
  edges := g.edges

def delEdges (g : Graph) (deleted : List ℕ) : Graph := { g with edges := without g.edges deleted }

/-- A straight-line drawing in which edges meet at common ends only. Loops and parallel
edges do not matter. -/
def Planar (g : Graph) : Prop :=
  ∃ pos : Node → ℝ × ℝ, Set.InjOn pos {v | v < g.nodes.length} ∧
    (∀ e ∈ g.edges, e.1 ≠ e.2 → ∀ v < g.nodes.length,
      pos v ∉ openSegment ℝ (pos e.1) (pos e.2)) ∧
    ∀ e ∈ g.edges, ∀ f ∈ g.edges, e.1 ≠ e.2 → f.1 ≠ f.2 → e ≠ f → e ≠ f.swap →
      Disjoint (openSegment ℝ (pos e.1) (pos e.2)) (openSegment ℝ (pos f.1) (pos f.2))

/-- The precondition of `PlanarStraightLayout`. -/
structure Layoutable (g : Graph) : Prop where
  planar : g.Planar
  loopless : ∀ e ∈ g.edges, e.1 ≠ e.2
  simple : g.edges.Nodup

lemma copy_planar {g : Graph} : g.copy.Planar ↔ g.Planar := by simp [Planar, copy, numbering]

lemma injOn_line (s : Set Node) : s.InjOn fun v : Node => ((v, 0) : ℝ × ℝ) := by
  intro v _ w _ hvw
  simpa using hvw

lemma planar_of_loops {g : Graph} (h : ∀ e ∈ g.edges, e.1 = e.2) : g.Planar :=
  ⟨fun v => (v, 0), injOn_line _, fun e he hne => absurd (h e he) hne,
    fun e he _ _ hne => absurd (h e he) hne⟩

/-- The ends of the only edge on a line, and all other nodes on a line beside it. -/
def beside (i j v : Node) : ℝ × ℝ :=
  if v = i then (0, 0) else if v = j then (1, 0) else (v, 1)

lemma beside_injOn (i j : Node) (s : Set Node) : s.InjOn (beside i j) := by
  intro v _ w _ hvw
  unfold beside at hvw
  split_ifs at hvw <;> simp_all

lemma beside_not_mem {i j : Node} (hij : i ≠ j) (v : Node) :
    beside i j v ∉ openSegment ℝ (beside i j i) (beside i j j) := by
  have hi : beside i j i = (0, 0) := if_pos rfl
  have hj : beside i j j = (1, 0) := by simp [beside, hij.symm]
  rw [hi, hj]
  rintro ⟨a, b, ha, hb, hab, he⟩
  unfold beside at he
  simp only [Prod.smul_mk, smul_eq_mul, mul_zero, mul_one, Prod.mk_add_mk, add_zero, zero_add]
    at he
  split_ifs at he with hvi hvj
  · exact hb.ne' (Prod.mk.inj he).1
  · have hb1 : b = 1 := (Prod.mk.inj he).1
    linarith
  · exact zero_ne_one (Prod.mk.inj he).2

lemma planar_of_one_pair {g : Graph} {i j : Node} (h : ∀ e ∈ g.edges, e = (i, j)) :
    g.Planar := by
  by_cases hij : i = j
  · exact planar_of_loops fun e he => by rw [h e he, hij]
  · refine ⟨beside i j, beside_injOn i j _, fun e he _ v _ => ?_, fun e he f hf _ _ hne => ?_⟩
    · rw [h e he]
      exact beside_not_mem hij v
    · exact absurd ((h e he).trans (h f hf).symm) hne

end Graph

/-- The algorithms the server calls. `callAndDelete` reports the deleted edges if it finds
a solution; the layout need not return. -/
structure Library where
  isPlanar : Graph → Bool
  callAndDelete : Graph → Option (List ℕ)
  layout : Graph → Except Fault GraphAttributes

/-- The documented behaviour of the planarity test and of the planar subgraph algorithm. -/
structure Library.Exact (og : Library) : Prop where
  isPlanar : ∀ g, og.isPlanar g = true ↔ g.Planar
  solution : ∀ g deleted, og.callAndDelete g = some deleted → (g.delEdges deleted).Planar

/-- The layout asserts its precondition: it returns on the graphs that meet it, and what it
does on others counts as a failure. -/
def Library.Asserts (og : Library) : Prop :=
  ∀ g, (∃ GA, og.layout g = .ok GA) ↔ g.Layoutable

end Gpd.Ogdf
