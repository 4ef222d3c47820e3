import Gpd.Layout.Reply

/-! When the graph that is drawn meets the precondition of the layout algorithm. -/
namespace Gpd.Layout
open Cxx Ogdf Arcs Machine

variable {js : JsonLibrary} {og : Library} {ids : List ℤ} {ts : List Transition}

def transitionsOf (js : JsonLibrary) (doc : Json) : Except Fault (List Transition) := do
  (← doc.member (ascii "transitions")).elements.mapM (readTransition js)

def placed (ids : List ℤ) (p : ℤ × ℤ) : Node × Node := (ids.idxOf p.1, ids.idxOf p.2)

lemma graphOf_edges : (graphOf ids ts).edges = (collectAll ts).map (placed ids) := rfl

section Placed

variable {ps : List (ℤ × ℤ)} (h : ∀ p ∈ ps, p.1 ∈ ids ∧ p.2 ∈ ids)
include h

lemma placed_loopless :
    (∀ e ∈ ps.map (placed ids), e.1 ≠ e.2) ↔ ∀ p ∈ ps, p.1 ≠ p.2 := by
  rw [List.forall_mem_map]
  refine forall₂_congr fun p hp => not_congr ?_
  exact List.idxOf_inj (h p hp).1

lemma placed_injective : ∀ p ∈ ps, ∀ q ∈ ps, placed ids p = placed ids q → p = q := by
  intro p hp q hq he
  obtain ⟨h1, h2⟩ := Prod.mk.inj he
  exact Prod.ext ((List.idxOf_inj (h p hp).1).mp h1) ((List.idxOf_inj (h p hp).2).mp h2)

lemma placed_nodup : (ps.map (placed ids)).Nodup ↔ ps.Nodup :=
  ⟨List.Nodup.of_map _, fun hn => hn.map_on (placed_injective h)⟩

end Placed

lemma drawnGraph_layoutable (hog : og.Exact) {g : Graph} (hloop : ∀ e ∈ g.edges, e.1 ≠ e.2)
    (hnodup : g.edges.Nodup)
    (hfound : og.isPlanar g = true ∨ (og.callAndDelete g.copy).isSome = true) :
    (drawnGraph og g).Layoutable := by
  unfold drawnGraph
  split_ifs with hp
  · exact ⟨(hog.isPlanar g).mp hp, hloop, hnodup⟩
  · obtain ⟨deleted, hd⟩ := Option.isSome_iff_exists.mp (hfound.resolve_left hp)
    have hsub : (g.copy.delEdges deleted).edges.Sublist g.edges := without_sublist _ _
    rw [callAndDelete, hd]
    exact ⟨hog.solution _ _ hd, fun e he => hloop e (hsub.subset he), hnodup.sublist hsub⟩

section Worst

open Classical in
/-- A planarity test that is right, a planar subgraph algorithm that tries one solution, and a
layout that asserts its precondition and places the nodes on a line. -/
noncomputable def assertingOgdf (deleted : Option (List ℕ)) : Library where
  isPlanar := fun g => decide g.Planar
  callAndDelete := fun g => deleted.filter fun d => decide (g.delEdges d).Planar
  layout := fun g =>
    if g.Layoutable then .ok ⟨fun i => .finite (.number i), fun _ => .finite (.number 0)⟩
    else .error .assertFailed

variable {deleted : Option (List ℕ)}

lemma assertingOgdf_isPlanar {g : Graph} :
    (assertingOgdf deleted).isPlanar g = true ↔ g.Planar := by simp [assertingOgdf]

lemma assertingOgdf_callAndDelete {g : Graph} {d : List ℕ} :
    (assertingOgdf deleted).callAndDelete g = some d ↔
      deleted = some d ∧ (g.delEdges d).Planar := by
  simp [assertingOgdf, Option.filter_eq_some_iff]

lemma assertingOgdf_exact : (assertingOgdf deleted).Exact where
  isPlanar := fun _ => assertingOgdf_isPlanar
  solution := fun _ _ h => (assertingOgdf_callAndDelete.mp h).2

lemma assertingOgdf_asserts : (assertingOgdf deleted).Asserts := by
  intro g
  simp only [assertingOgdf]
  split_ifs with h <;> simp [h]

lemma exists_keeping (g : Graph) (p : Node × Node) :
    ∃ og : Library, og.Exact ∧
      (og.isPlanar g = true ∨ (og.callAndDelete g.copy).isSome = true) ∧
      (drawnGraph og g).edges.count p = g.edges.count p := by
  by_cases hp : g.Planar
  · refine ⟨assertingOgdf none, assertingOgdf_exact, .inl (assertingOgdf_isPlanar.mpr hp), ?_⟩
    rw [drawnGraph, if_pos (assertingOgdf_isPlanar.mpr hp)]
  · obtain ⟨d, hd⟩ := exists_without_eq_filter (· == p) g.edges
    have hkept : (g.copy.delEdges d).edges = g.edges.filter (· == p) := hd
    have hplanar : (g.copy.delEdges d).Planar := by
      refine Graph.planar_of_one_pair (i := p.1) (j := p.2) fun e he => ?_
      rw [hkept] at he
      simpa using (List.mem_filter.mp he).2
    have hcall : (assertingOgdf (some d)).callAndDelete g.copy = some d :=
      assertingOgdf_callAndDelete.mpr ⟨rfl, hplanar⟩
    refine ⟨assertingOgdf (some d), assertingOgdf_exact, .inr (by rw [hcall]; rfl), ?_⟩
    rw [drawnGraph, if_neg fun h => hp (assertingOgdf_isPlanar.mp h), callAndDelete, hcall]
    exact (congrArg (List.count p) hkept).trans (List.count_filter (beq_self_eq_true p))

/-- Whatever a library deletes of a graph, it is drawn without loops and repeated edges exactly
when the graph has none. -/
theorem solved_layoutable_iff (g : Graph) :
    (∀ og : Library, og.Exact →
      og.isPlanar g = true ∨ (og.callAndDelete g.copy).isSome = true →
      (drawnGraph og g).Layoutable) ↔
      (∀ e ∈ g.edges, e.1 ≠ e.2) ∧ g.edges.Nodup := by
  constructor
  · intro h
    constructor
    · intro e he
      obtain ⟨og, hog, hfound, hcount⟩ := exists_keeping g e
      refine (h og hog hfound).loopless e (List.count_pos_iff.mp ?_)
      rw [hcount]
      exact List.count_pos_iff.mpr he
    · rw [List.nodup_iff_count_le_one]
      intro e
      obtain ⟨og, hog, hfound, hcount⟩ := exists_keeping g e
      rw [← hcount]
      exact List.nodup_iff_count_le_one.mp (h og hog hfound).simple e
  · rintro ⟨hloop, hnodup⟩ og hog hfound
    exact drawnGraph_layoutable hog hloop hnodup hfound

/-- A library may also find no solution, and then the graph is drawn as it is. -/
theorem always_layoutable_iff (g : Graph) :
    (∀ og : Library, og.Exact → (drawnGraph og g).Layoutable) ↔ g.Layoutable := by
  constructor
  · intro h
    have hnone := (h (assertingOgdf none) assertingOgdf_exact).planar
    obtain ⟨hloop, hnodup⟩ := (solved_layoutable_iff g).mp fun og hog _ => h og hog
    refine ⟨?_, hloop, hnodup⟩
    by_contra hp
    rw [drawnGraph, if_neg fun h => hp (assertingOgdf_isPlanar.mp h)] at hnone
    exact hp (Graph.copy_planar.mp hnone)
  · intro h og hog
    exact drawnGraph_layoutable hog h.loopless h.simple (.inl ((hog.isPlanar g).mpr h.planar))

end Worst

/-- No transition that counts leads from a state to itself, and no inserted one repeats an edge
that earlier ones have made. -/
structure SimpleTransitions (ts : List Transition) : Prop where
  loopless : ∀ t ∈ ts, t.kind ≠ .ignored → t.source ≠ t.target
  once : ∀ pre t post, ts = pre ++ t :: post → Admits pre t → ¬Joined pre t.source t.target

theorem simpleTransitions_iff (hts : ∀ t ∈ ts, Found ids t) :
    SimpleTransitions ts ↔
      (∀ e ∈ (graphOf ids ts).edges, e.1 ≠ e.2) ∧ (graphOf ids ts).edges.Nodup := by
  have hmem : ∀ p ∈ collectAll ts, p.1 ∈ ids ∧ p.2 ∈ ids := fun _ => mem_of_collected hts
  rw [graphOf_edges, placed_loopless hmem, placed_nodup hmem, collectAll_loopless, collectAll_nodup]
  exact ⟨fun h => ⟨h.loopless, h.once⟩, fun h => ⟨h.1, h.2⟩⟩

/-- The layout is called within its precondition, whatever the library does within its
documentation, exactly when the loaded graph is planar, no transition that counts is a loop and
no inserted one repeats another. Planarity is only asked for because nothing looks at whether
the deletion found a solution. -/
theorem layoutable_iff {doc : Json} {o : OgdfTest}
    (hload : documentToGraph js OgdfTest.initial doc = .ok o) (hvalid : o.isValid = true)
    (hids : stateIds js doc = .ok ids) (hts : transitionsOf js doc = .ok ts) :
    ((∀ og : Library, og.Exact → (drawnGraph og o.G).Layoutable) ↔
      (graphOf ids ts).Planar ∧ SimpleTransitions ts) ∧
    ((∀ og : Library, og.Exact →
        og.isPlanar o.G = true ∨ (og.callAndDelete o.G.copy).isSome = true →
        (drawnGraph og o.G).Layoutable) ↔
      SimpleTransitions ts) := by
  obtain ⟨hfound, hG⟩ : (∀ t ∈ ts, Found ids t) ∧ o.G = graphOf ids ts := by
    cases documentToGraph_eq_ok.mp hload with
    | fewStates | noTransitions => simp [OgdfTest.isValid] at hvalid
    | loaded hs _ hids' _ he _ hts' hfound =>
      rw [stateIds, hs, ok_bind, hids'] at hids
      rw [transitionsOf, he, ok_bind, hts'] at hts
      obtain rfl := Except.ok.inj hids
      obtain rfl := Except.ok.inj hts
      exact ⟨hfound, rfl⟩
  rw [hG, always_layoutable_iff, solved_layoutable_iff, simpleTransitions_iff hfound]
  exact ⟨⟨fun h => ⟨h.planar, h.loopless, h.simple⟩, fun h => ⟨h.1, h.2.1, h.2.2⟩⟩, Iff.rfl⟩

section Sample

/-- A one-way transition from a state to itself reaches the layout. -/
theorem not_layoutable :
    ¬∀ (js : JsonLibrary) (og : Library) (doc : Json) (o : OgdfTest) (ids : List ℤ)
      (ts : List Transition), og.Exact → documentToGraph js OgdfTest.initial doc = .ok o →
      o.isValid = true → stateIds js doc = .ok ids → transitionsOf js doc = .ok ts →
      (∀ t ∈ ts, t.source ∈ ids ∧ t.target ∈ ids) → (drawnGraph og o.G).Layoutable := by
  intro h
  have hload : documentToGraph (sampleLibrary [] .null) OgdfTest.initial
      (sampleDocument [1, 2] [(1, 1)]) =
      .ok { OgdfTest.initial with G := ⟨[1, 2], [(0, 0)]⟩ } := rfl
  have hlayout := h (sampleLibrary [] .null) (assertingOgdf none) _ _ [1, 2] [⟨1, 1, .oneWay⟩]
    assertingOgdf_exact hload rfl (by decide) (by decide) (by decide)
  have hplanar : (assertingOgdf none).isPlanar ⟨[1, 2], [(0, 0)]⟩ = true :=
    assertingOgdf_isPlanar.mpr (Graph.planar_of_loops (by decide))
  rw [drawnGraph, if_pos hplanar] at hlayout
  exact hlayout.loopless (0, 0) (by decide) rfl

theorem layoutable_iff_one_transition :
    drawnGraph (assertingOgdf none) ⟨[1, 2], [(0, 1)]⟩ = ⟨[1, 2], [(0, 1)]⟩ ∧
      (drawnGraph (assertingOgdf none) ⟨[1, 2], [(0, 1)]⟩).Layoutable := by
  have hplanar : (⟨[1, 2], [(0, 1)]⟩ : Graph).Planar :=
    Graph.planar_of_one_pair (i := 0) (j := 1) (by decide)
  have hload : documentToGraph (sampleLibrary [] .null) OgdfTest.initial
      (sampleDocument [1, 2] [(1, 2)]) =
      .ok { OgdfTest.initial with G := ⟨[1, 2], [(0, 1)]⟩ } := rfl
  have hids : stateIds (sampleLibrary [] .null) (sampleDocument [1, 2] [(1, 2)]) = .ok [1, 2] := by
    decide
  have hts : transitionsOf (sampleLibrary [] .null) (sampleDocument [1, 2] [(1, 2)]) =
      .ok [⟨1, 2, .oneWay⟩] := by decide
  refine ⟨by rw [drawnGraph, if_pos (assertingOgdf_isPlanar.mpr hplanar)],
    (layoutable_iff hload rfl hids hts).1.mpr ⟨hplanar, by decide, fun pre t post he _ hj => ?_⟩ _
      assertingOgdf_exact⟩
  have hlen := congrArg List.length he
  have hpre : pre = [] := by
    simp only [List.length_append, List.length_cons, List.length_nil] at hlen
    exact List.length_eq_zero_iff.mp (by omega)
  simp [hpre, Arcs.Joined] at hj

end Sample

end Gpd.Layout
