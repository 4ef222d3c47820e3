import Gpd.Layout.Basic
import Gpd.Arcs.Insertion
import Gpd.Machine.Action

/-! What `JSONMachineToGraph` loads: the states as nodes, and the transitions as the edges
that the insertion of two-way and one-way arcs collects. -/
namespace Gpd.Layout
open Cxx Ogdf Arcs Machine

variable {js : JsonLibrary}

abbrev Transition := Arc ℤ

/-- What the type of a transition makes of it. -/
def kindOf (type : Json) : Kind :=
  if type.eqInt 2 then .twoWay else if type.eqInt 0 then .oneWay else .ignored

def readTransition (js : JsonLibrary) (edge : Json) : Except Fault Transition := do
  let iSource ← (← edge.member (ascii "from")).toInt js
  let iTarget ← (← edge.member (ascii "to")).toInt js
  let type ← edge.member (ascii "type")
  return ⟨iSource, iTarget, kindOf type⟩

/-- The look-ups of the nodes succeed, unless the transition is ignored. -/
def Found (ids : List ℤ) (t : Transition) : Prop :=
  t.kind ≠ .ignored → t.source ∈ ids ∧ t.target ∈ ids

/-- Nodes for the ids, and an edge between first nodes for every collected transition. -/
def graphOf (ids : List ℤ) (ts : List Transition) : Graph where
  nodes := ids
  edges := (collectAll ts).map fun p => (ids.idxOf p.1, ids.idxOf p.2)

/-- The body of the loop, on a transition that was read. -/
def addTransition (g : Graph) (t : Transition) : Except Fault Graph :=
  match t.kind with
  | .twoWay =>
    if !transitionAlreadyExists g t.target t.source then
      newEdge g (getNodeByIndex g t.source) (getNodeByIndex g t.target)
    else
      .ok g
  | .oneWay => newEdge g (getNodeByIndex g t.source) (getNodeByIndex g t.target)
  | .ignored => .ok g

theorem loadTransition_eq (g : Graph) (edge : Json) :
    loadTransition js g edge = readTransition js edge >>= addTransition g := by
  simp only [loadTransition, readTransition, bind_assoc, pure_bind]
  refine bind_congr fun jFrom => bind_congr fun iSource => bind_congr fun jTo =>
    bind_congr fun iTarget => bind_congr fun type => ?_
  unfold addTransition kindOf
  split_ifs <;> simp_all <;> rfl

section Faults

lemma member_error {j : Json} {key : Bytes} {e : Fault} (h : j.member key = .error e) :
    e = .jsonDomain := by
  cases j <;> simp_all [Json.member]

lemma toInt_error {j : Json} {e : Fault} (h : j.toInt js = .error e) : e = .jsonDomain := by
  cases j <;> simp_all [Json.toInt]

lemma stateId_error {s : Json} {e : Fault} (h : stateId js s = .error e) : e = .jsonDomain :=
  bind_error (P := (· = Fault.jsonDomain)) (fun _ => member_error) (fun _ _ => toInt_error) h

lemma readTransition_error {edge : Json} {e : Fault} (h : readTransition js edge = .error e) :
    e = .jsonDomain := by
  revert h
  refine bind_error (P := (· = Fault.jsonDomain)) (fun _ => member_error) fun _ _ => ?_
  refine bind_error (P := (· = Fault.jsonDomain)) (fun _ => toInt_error) fun _ _ => ?_
  refine bind_error (P := (· = Fault.jsonDomain)) (fun _ => member_error) fun _ _ => ?_
  refine bind_error (P := (· = Fault.jsonDomain)) (fun _ => toInt_error) fun _ _ => ?_
  refine bind_error (P := (· = Fault.jsonDomain)) (fun _ => member_error) fun _ _ h => ?_
  cases h

end Faults

section States

/-- Among the states, one with an id from `2 ^ 30` on comes before all that cannot be read. -/
def Hangs (js : JsonLibrary) (states : List Json) : Prop :=
  ∃ pre s post ids i, states = pre ++ s :: post ∧ pre.mapM (stateId js) = .ok ids ∧
    (∀ k ∈ ids, k < 2 ^ 30) ∧ stateId js s = .ok i ∧ 2 ^ 30 ≤ i

lemma hangs_cons {s : Json} {ss : List Json} :
    Hangs js (s :: ss) ↔ ∃ i, stateId js s = .ok i ∧ (i < 2 ^ 30 → Hangs js ss) := by
  constructor
  · rintro ⟨pre, s', post, ids, i, he, hids, hrange, hi, hlarge⟩
    cases pre with
    | nil =>
      obtain ⟨rfl, rfl⟩ := List.cons.inj he
      exact ⟨i, hi, fun hlt => absurd hlarge (not_le.mpr hlt)⟩
    | cons x pre =>
      obtain ⟨rfl, rfl⟩ := List.cons.inj he
      obtain ⟨k, ks, hk, hks, rfl⟩ := mapM_cons_eq_ok.mp hids
      obtain ⟨_, hrange'⟩ := List.forall_mem_cons.mp hrange
      exact ⟨k, hk, fun _ => ⟨pre, s', post, ks, i, rfl, hks, hrange', hi, hlarge⟩⟩
  · rintro ⟨i, hi, hrest⟩
    by_cases hlt : i < 2 ^ 30
    · obtain ⟨pre, s', post, ids, k, rfl, hids, hrange, hk, hlarge⟩ := hrest hlt
      exact ⟨s :: pre, s', post, i :: ids, k, rfl, mapM_cons_eq_ok.mpr ⟨i, ids, hi, hids, rfl⟩,
        List.forall_mem_cons.mpr ⟨hlt, hrange⟩, hk, hlarge⟩
    · exact ⟨[], s, ss, [], i, rfl, rfl, by simp, hi, not_lt.mp hlt⟩

/-- Outcomes of the loop over the states: all ids are read and find room, or one cannot be
read, or the node tables cannot be enlarged for one. -/
inductive StatesLoad (js : JsonLibrary) (g : Graph) (states : List Json) : Except Fault Graph → Prop
  | loaded {ids : List ℤ} (hids : states.mapM (stateId js) = .ok ids)
      (hrange : ∀ i ∈ ids, i < 2 ^ 30) :
      StatesLoad js g states (.ok { g with nodes := g.nodes ++ ids })
  | unread (hids : ∀ ids, states.mapM (stateId js) ≠ .ok ids) (hno : ¬Hangs js states) :
      StatesLoad js g states (.error .jsonDomain)
  | endless (h : Hangs js states) : StatesLoad js g states (.error .endlessLoop)

lemma foldlM_loadState {table : NodeTable} (ht : table.Sound) (g : Graph) (states : List Json) :
    StatesLoad js g states ((states.foldlM (loadState js) (g, table)).map Prod.fst) := by
  induction states generalizing g table with
  | nil =>
    have hnil : StatesLoad js g [] (.ok { g with nodes := g.nodes ++ [] }) :=
      .loaded rfl (by simp)
    rwa [List.append_nil] at hnil
  | cons s ss ih =>
    rw [List.foldlM_cons, loadState]
    cases hs : stateId js s with
    | error e =>
      obtain rfl := stateId_error hs
      refine .unread (fun ids hids => ?_) fun hh => ?_
      · obtain ⟨i, _, hi, _⟩ := mapM_cons_eq_ok.mp hids
        rw [hs] at hi
        cases hi
      · obtain ⟨i, hi, _⟩ := hangs_cons.mp hh
        rw [hs] at hi
        cases hi
    | ok i =>
      simp only [ok_bind, Graph.newNode]
      rcases lt_or_ge i (2 ^ 30) with hi | hi
      · obtain ⟨table', htable, hsound⟩ := ht.enlarge hi
        rw [htable]
        have hrest := ih hsound { g with nodes := g.nodes ++ [i] }
        simp only [ok_bind, pure_bind]
        generalize (ss.foldlM (loadState js) _).map Prod.fst = r at hrest
        cases hrest with
        | @loaded ids hids hrange =>
          have hall : StatesLoad js g (s :: ss) (.ok { g with nodes := g.nodes ++ i :: ids }) :=
            .loaded (mapM_cons_eq_ok.mpr ⟨i, ids, hs, hids, rfl⟩)
              (List.forall_mem_cons.mpr ⟨hi, hrange⟩)
          simpa using hall
        | unread hids hno =>
          refine .unread (fun ids h => ?_) fun hh => ?_
          · obtain ⟨_, ids', _, hids', _⟩ := mapM_cons_eq_ok.mp h
            exact hids ids' hids'
          · obtain ⟨k, hk, hrest⟩ := hangs_cons.mp hh
            obtain rfl := Except.ok.inj (hs.symm.trans hk)
            exact hno (hrest hi)
        | endless h => exact .endless (hangs_cons.mpr ⟨i, hs, fun _ => h⟩)
      · rw [ht.enlarge_endless hi]
        exact .endless (hangs_cons.mpr ⟨i, hs, fun hlt => absurd hi (not_le.mpr hlt)⟩)

theorem loadStates_outcome (js : JsonLibrary) (g : Graph) (states : List Json) :
    StatesLoad js g states (loadStates js g states) := by
  have h : StatesLoad js g states
      ((states.foldlM (loadState js) (g, NodeTable.initial)).map Prod.fst) :=
    foldlM_loadState NodeTable.sound_initial g states
  have hmap : loadStates js g states =
      (states.foldlM (loadState js) (g, NodeTable.initial)).map Prod.fst := by
    rw [loadStates]
    cases states.foldlM (loadState js) (g, NodeTable.initial) <;> rfl
  rwa [hmap]

lemma Hangs.exists_large {states : List Json} {ids : List ℤ} (h : Hangs js states)
    (hids : states.mapM (stateId js) = .ok ids) : ∃ i ∈ ids, 2 ^ 30 ≤ i := by
  obtain ⟨pre, s, post, _, i, rfl, _, _, hi, hlarge⟩ := h
  refine ⟨i, ?_, hlarge⟩
  rw [List.mapM_append, bind_eq_ok] at hids
  obtain ⟨xs, _, hids⟩ := hids
  obtain ⟨ys, hys, hids⟩ := bind_eq_ok.mp hids
  obtain rfl := Except.ok.inj hids
  obtain ⟨k, ks, hk, _, rfl⟩ := mapM_cons_eq_ok.mp hys
  obtain rfl := Except.ok.inj (hi.symm.trans hk)
  simp

lemma not_hangs {states : List Json} {ids : List ℤ} (hids : states.mapM (stateId js) = .ok ids)
    (hrange : ∀ i ∈ ids, i < 2 ^ 30) : ¬Hangs js states := by
  intro hh
  obtain ⟨i, hi, hlarge⟩ := hh.exists_large hids
  exact absurd (hrange i hi) (not_lt.mpr hlarge)

theorem loadStates_eq_ok {g g' : Graph} {states : List Json} :
    loadStates js g states = .ok g' ↔
      ∃ ids, states.mapM (stateId js) = .ok ids ∧ (∀ i ∈ ids, i < 2 ^ 30) ∧
        g' = { g with nodes := g.nodes ++ ids } := by
  have hout := loadStates_outcome js g states
  generalize loadStates js g states = r at hout
  cases hout with
  | @loaded ids hids hrange =>
    constructor
    · intro h
      exact ⟨ids, hids, hrange, (Except.ok.inj h).symm⟩
    · rintro ⟨ids', hids', _, rfl⟩
      rw [Except.ok.inj (hids.symm.trans hids')]
  | unread hids hno =>
    refine iff_of_false (by simp) ?_
    rintro ⟨ids, h, _⟩
    exact hids ids h
  | endless h =>
    refine iff_of_false (by simp) ?_
    rintro ⟨ids, hids, hrange, _⟩
    exact not_hangs hids hrange h

end States

lemma getNodeByIndex_of_mem {g : Graph} {i : ℤ} (h : i ∈ g.nodes) :
    getNodeByIndex g i = some (g.nodes.idxOf i) := by
  rw [getNodeByIndex, List.findIdx?_eq_some_iff_findIdx_eq]
  have hbeq : (fun x => decide (x = i)) = (· == i) := by
    funext x
    exact (Bool.beq_eq_decide_eq x i).symm
  rw [hbeq]
  exact ⟨List.idxOf_lt_length_of_mem h, rfl⟩

lemma getNodeByIndex_of_not_mem {g : Graph} {i : ℤ} (h : i ∉ g.nodes) :
    getNodeByIndex g i = none := by
  rw [getNodeByIndex, List.findIdx?_eq_none_iff]
  intro x hx
  simpa using fun he : x = i => h (he ▸ hx)

section GraphOf

variable {ids : List ℤ} {ts : List Transition}

@[simp] lemma graphOf_nodes : (graphOf ids ts).nodes = ids := rfl

lemma mem_of_collected (hts : ∀ t ∈ ts, Found ids t) {p : ℤ × ℤ} (hp : p ∈ collectAll ts) :
    p.1 ∈ ids ∧ p.2 ∈ ids := by
  obtain ⟨t, ht, hk, rfl⟩ := exists_of_mem_collectAll hp
  exact hts t ht hk

lemma transitionAlreadyExists_eq_true {g : Graph} {a b : ℤ} :
    transitionAlreadyExists g a b = true ↔
      ∃ e ∈ g.edges, g.nodes[e.1]? = some a ∧ g.nodes[e.2]? = some b := by
  simp [transitionAlreadyExists]

lemma getElem?_idxOf {i : ℤ} (hi : i ∈ ids) (c : ℤ) : ids[ids.idxOf i]? = some c ↔ i = c := by
  rw [List.getElem?_eq_getElem (List.idxOf_lt_length_of_mem hi), List.getElem_idxOf]
  simp

theorem transitionAlreadyExists_graphOf (hts : ∀ t ∈ ts, Found ids t) {a b : ℤ} :
    transitionAlreadyExists (graphOf ids ts) a b = true ↔ (a, b) ∈ collectAll ts := by
  rw [transitionAlreadyExists_eq_true]
  constructor
  · rintro ⟨e, he, ha, hb⟩
    obtain ⟨p, hp, rfl⟩ := List.mem_map.mp he
    have hmem := mem_of_collected hts hp
    obtain rfl := (getElem?_idxOf hmem.1 a).mp ha
    obtain rfl := (getElem?_idxOf hmem.2 b).mp hb
    exact hp
  · intro hp
    have hmem := mem_of_collected hts hp
    exact ⟨_, List.mem_map.mpr ⟨_, hp, rfl⟩, (getElem?_idxOf hmem.1 a).mpr rfl,
      (getElem?_idxOf hmem.2 b).mpr rfl⟩

variable {t : Transition} {g : Graph}

lemma graphOf_of_collect_eq (h : collect (collectAll ts) t = collectAll ts) :
    graphOf ids (ts ++ [t]) = graphOf ids ts := by
  rw [graphOf, collectAll_concat, h, graphOf]

lemma newEdge_graphOf (h : collect (collectAll ts) t = collectAll ts ++ [(t.source, t.target)]) :
    newEdge (graphOf ids ts) (getNodeByIndex (graphOf ids ts) t.source)
      (getNodeByIndex (graphOf ids ts) t.target) = .ok g ↔
      (t.source ∈ ids ∧ t.target ∈ ids) ∧ g = graphOf ids (ts ++ [t]) := by
  have hnew : (graphOf ids ts).newEdge (ids.idxOf t.source) (ids.idxOf t.target) =
      graphOf ids (ts ++ [t]) := by
    rw [graphOf, graphOf, collectAll_concat, h]
    simp [Graph.newEdge]
  by_cases hs : t.source ∈ ids
  · by_cases ht : t.target ∈ ids
    · rw [getNodeByIndex_of_mem hs, getNodeByIndex_of_mem ht]
      simp only [newEdge, graphOf_nodes, hnew, hs, ht, and_self, true_and, Except.ok.injEq]
      exact eq_comm
    · rw [getNodeByIndex_of_mem hs, getNodeByIndex_of_not_mem ht]
      simp [newEdge, ht]
  · rw [getNodeByIndex_of_not_mem hs]
    simp [newEdge, hs]

theorem addTransition_eq_ok (hts : ∀ t ∈ ts, Found ids t) :
    addTransition (graphOf ids ts) t = .ok g ↔
      Found ids t ∧ g = graphOf ids (ts ++ [t]) := by
  have hexists := transitionAlreadyExists_graphOf hts (a := t.target) (b := t.source)
  unfold addTransition
  cases hk : t.kind with
  | oneWay =>
    rw [newEdge_graphOf (by simp [collect, hk])]
    simp [Found, hk]
  | twoWay =>
    by_cases he : transitionAlreadyExists (graphOf ids ts) t.target t.source = true
    · have hmem := hexists.mp he
      have hfound := mem_of_collected hts hmem
      rw [he, graphOf_of_collect_eq (by simp [collect, hk, hmem])]
      simp [Found, hfound, eq_comm]
    · have hmem : (t.target, t.source) ∉ collectAll ts := fun h => he (hexists.mpr h)
      rw [Bool.not_eq_true] at he
      simp only [he, Bool.not_false, if_true]
      rw [newEdge_graphOf (by simp [collect, hk, hmem])]
      simp [Found, hk]
  | ignored =>
    rw [graphOf_of_collect_eq (by simp [collect, hk])]
    simp [Found, hk, eq_comm]

/-- The loop over the transitions succeeds exactly when all of them can be read and are
found, and then it collects them. -/
theorem loadTransitions_eq_ok {edges : List Json} (hts : ∀ t ∈ ts, Found ids t) :
    loadTransitions js (graphOf ids ts) edges = .ok g ↔
      ∃ us, edges.mapM (readTransition js) = .ok us ∧ (∀ u ∈ us, Found ids u) ∧
        g = graphOf ids (ts ++ us) := by
  induction edges generalizing ts with
  | nil =>
    constructor
    · intro h
      obtain rfl := Except.ok.inj h
      exact ⟨[], rfl, by simp, by simp⟩
    · rintro ⟨us, hus, _, rfl⟩
      obtain rfl := Except.ok.inj hus
      simp [loadTransitions, pure, Except.pure]
  | cons e es ih =>
    rw [loadTransitions, List.foldlM_cons, loadTransition_eq, bind_assoc, List.mapM_cons]
    simp only [bind_eq_ok]
    constructor
    · rintro ⟨t, ht, g', hg', hrest⟩
      obtain ⟨hfound, rfl⟩ := (addTransition_eq_ok hts).mp hg'
      have hts' : ∀ u ∈ ts ++ [t], Found ids u := by
        simpa [or_imp, forall_and] using ⟨hts, hfound⟩
      obtain ⟨us, hus, husd, rfl⟩ := (ih hts').mp hrest
      exact ⟨t :: us, ⟨t, ht, us, hus, rfl⟩, by simpa using ⟨hfound, husd⟩, by simp⟩
    · rintro ⟨_, ⟨t, ht, us, hus, hcons⟩, hfound, rfl⟩
      obtain rfl := Except.ok.inj hcons
      obtain ⟨hf, husd⟩ := List.forall_mem_cons.mp hfound
      have hts' : ∀ u ∈ ts ++ [t], Found ids u := by
        simpa [or_imp, forall_and] using ⟨hts, hf⟩
      refine ⟨t, ht, _, (addTransition_eq_ok hts).mpr ⟨hf, rfl⟩, ?_⟩
      exact (ih hts').mpr ⟨us, hus, husd, by simp⟩

end GraphOf

/-- The outcomes of loading a document. -/
inductive Loads (js : JsonLibrary) (doc : Json) : OgdfTest → Prop
  | fewStates {states : Json} (hs : doc.member (ascii "states") = .ok states)
      (hfew : states.size < 2) : Loads js doc { OgdfTest.initial with isValidMachine := false }
  | noTransitions {states edges : Json} {ids : List ℤ}
      (hs : doc.member (ascii "states") = .ok states) (htwo : 2 ≤ states.size)
      (hids : states.elements.mapM (stateId js) = .ok ids) (hrange : ∀ i ∈ ids, i < 2 ^ 30)
      (he : doc.member (ascii "transitions") = .ok edges) (hnone : edges.size = 0) :
      Loads js doc { OgdfTest.initial with G := graphOf ids [], isValidMachine := false }
  | loaded {states edges : Json} {ids : List ℤ} {ts : List Transition}
      (hs : doc.member (ascii "states") = .ok states) (htwo : 2 ≤ states.size)
      (hids : states.elements.mapM (stateId js) = .ok ids) (hrange : ∀ i ∈ ids, i < 2 ^ 30)
      (he : doc.member (ascii "transitions") = .ok edges) (hsome : edges.size ≠ 0)
      (hts : edges.elements.mapM (readTransition js) = .ok ts)
      (hfound : ∀ t ∈ ts, Found ids t) :
      Loads js doc { OgdfTest.initial with G := graphOf ids ts }

lemma loadStates_empty {states : List Json} {g : Graph} :
    loadStates js Graph.empty states = .ok g ↔
      ∃ ids, states.mapM (stateId js) = .ok ids ∧ (∀ i ∈ ids, i < 2 ^ 30) ∧
        g = graphOf ids [] := by
  rw [loadStates_eq_ok]
  simp [graphOf, Graph.empty]

/-- `JSONMachineToGraph` succeeds with exactly the listed outcomes. -/
theorem documentToGraph_eq_ok {doc : Json} {o : OgdfTest} :
    documentToGraph js OgdfTest.initial doc = .ok o ↔ Loads js doc o := by
  unfold documentToGraph
  constructor
  · intro h
    obtain ⟨states, hs, h⟩ := bind_eq_ok.mp h
    split_ifs at h with hfew
    · obtain rfl := Except.ok.inj h
      exact .fewStates hs hfew
    · obtain ⟨g, hg, h⟩ := bind_eq_ok.mp h
      obtain ⟨ids, hids, hrange, rfl⟩ := loadStates_empty.mp hg
      obtain ⟨edges, he, h⟩ := bind_eq_ok.mp h
      split_ifs at h with hnone
      · obtain rfl := Except.ok.inj h
        exact .noTransitions hs (by omega) hids hrange he hnone
      · obtain ⟨g, hg, h⟩ := bind_eq_ok.mp h
        obtain rfl := Except.ok.inj h
        obtain ⟨ts, hts, hfound, rfl⟩ := (loadTransitions_eq_ok (by simp)).mp hg
        exact .loaded hs (by omega) hids hrange he hnone hts hfound
  · intro h
    cases h with
    | fewStates hs hfew =>
      rw [hs, ok_bind, if_pos hfew]
      rfl
    | noTransitions hs htwo hids hrange he hnone =>
      have hg := loadStates_empty.mpr ⟨_, hids, hrange, rfl⟩
      rw [hs, ok_bind, if_neg (by omega), show OgdfTest.initial.G = Graph.empty from rfl, hg,
        ok_bind, he, ok_bind, if_pos hnone]
      rfl
    | @loaded states edges ids ts hs htwo hids hrange he hsome hts hfound =>
      have hg := loadStates_empty.mpr ⟨_, hids, hrange, rfl⟩
      have ht : loadTransitions js (graphOf ids []) edges.elements = .ok (graphOf ids ts) :=
        (loadTransitions_eq_ok (by simp)).mpr ⟨ts, hts, hfound, by simp⟩
      rw [hs, ok_bind, if_neg (by omega), show OgdfTest.initial.G = Graph.empty from rfl, hg,
        ok_bind, he, ok_bind, if_neg hsome, ht]
      rfl

end Gpd.Layout
