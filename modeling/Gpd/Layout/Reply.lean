import Gpd.Layout.Loading

/-! What the answer of the callback says about the states of the machine it was given. -/
namespace Gpd.Layout
open Cxx Ogdf Arcs Machine

variable (js : JsonLibrary) (og : Library)

/-- The graph that the layout is called on. -/
def drawnGraph (g : Graph) : Graph :=
  if og.isPlanar g then g else callAndDelete og g.copy

/-- The document that the callback's answer spells: the machine itself if it is invalid,
and otherwise the value that is serialized. -/
def replyDocument (machine : Bytes) : Except Fault Json := do
  let o ← OgdfTest.new js machine
  if o.isValid then
    return (← o.graphToPlanarRep og).planarRep
  else
    js.parse machine

def stateIds (j : Json) : Except Fault (List ℤ) := do
  (← j.member (ascii "states")).elements.mapM (stateId js)

def position (state : Json) : Except Fault (Json × Json) := do
  return (← state.member (ascii "xPos"), ← state.member (ascii "yPos"))

def statePositions (j : Json) : Except Fault (List (Json × Json)) := do
  (← j.member (ascii "states")).elements.mapM position

def coordinates (GA : GraphAttributes) (g : Graph) : List (Json × Json) :=
  g.nodes.map fun i => (.ofDouble (GA.x i), .ofDouble (GA.y i))

def drawnDocument (GA : GraphAttributes) (g : Graph) : Json :=
  .object [(ascii "states", .array (g.nodes.map fun i => stateEntry i (GA.x i) (GA.y i)))]

/-- A machine with distinct ids whose transitions name declared states. -/
structure MachineDocument (doc : Json) (ids : List ℤ) : Prop where
  states : ∃ ss, doc.member (ascii "states") = .ok ss ∧ ss.elements.mapM (stateId js) = .ok ids
  distinct : ids.Nodup
  range : ∀ i ∈ ids, 0 ≤ i ∧ i < 2 ^ 30
  transitions : ∃ es, doc.member (ascii "transitions") = .ok es ∧
    ∀ e ∈ es.elements, ∃ t, readTransition js e = .ok t ∧ t.source ∈ ids ∧ t.target ∈ ids

def WithoutTransitions (doc : Json) : Prop :=
  ∃ es, doc.member (ascii "transitions") = .ok es ∧ es.size = 0

/-- The answer `j` to a machine loaded as `o`: one entry per state, in order, with its id;
and if the machine was drawn, the coordinates that the layout assigned to the node created for
that state. -/
structure SpeaksOf (o : OgdfTest) (ids : List ℤ) (j : Json) : Prop where
  states : stateIds js j = .ok ids
  positions : o.isValid = true → ∃ GA, og.layout (drawnGraph og o.G) = .ok GA ∧
    statePositions j = .ok (coordinates GA (drawnGraph og o.G))

/-- The text is a document of which every value the loader reads has the right type and every
id finds room in the node tables; and if the machine is drawn, its nodes have indices of their
own, none of them negative, and the graph that the layout is called on meets its precondition. -/
def Answered (machine : Bytes) : Prop :=
  ∃ doc o, js.parse machine = .ok doc ∧ Loads js doc o ∧
    (o.isValid = true → o.G.Consistent ∧ (drawnGraph og o.G).Layoutable)

variable {js og}

theorem processingCallback_eq {machine : Bytes} {o : OgdfTest} {j : Json}
    (ho : OgdfTest.new js machine = .ok o) (hj : replyDocument js og machine = .ok j) :
    processingCallback js og machine = .ok (if o.isValid then js.dump j else machine) := by
  rw [replyDocument, ho, ok_bind] at hj
  rw [processingCallback, ho, ok_bind]
  split_ifs at hj ⊢ with hv
  · obtain ⟨o', ho', hj⟩ := bind_eq_ok.mp hj
    obtain rfl := Except.ok.inj hj
    rw [ho', ok_bind]
    rfl
  · rfl

theorem graphToPlanarRep_eq_ok {o o' : OgdfTest} :
    o.graphToPlanarRep og = .ok o' →
      o.G.Consistent ∧ og.layout (drawnGraph og o.G) = .ok o'.GA ∧
        o'.planarRep = drawnDocument o'.GA (drawnGraph og o.G) := by
  unfold OgdfTest.graphToPlanarRep drawnGraph
  intro h
  by_cases hc : o.G.Consistent
  case neg => simp [hc] at h
  rw [if_pos hc] at h
  split_ifs at h ⊢
  · obtain ⟨GA, hGA, h⟩ := bind_eq_ok.mp h
    obtain rfl := Except.ok.inj h
    exact ⟨hc, hGA, rfl⟩
  · obtain ⟨GA, hGA, h⟩ := bind_eq_ok.mp h
    obtain rfl := Except.ok.inj h
    exact ⟨hc, hGA, rfl⟩

theorem exists_graphToPlanarRep {o : OgdfTest} {GA : GraphAttributes} (hc : o.G.Consistent)
    (hGA : og.layout (drawnGraph og o.G) = .ok GA) :
    ∃ o', o.graphToPlanarRep og = .ok o' ∧ o'.GA = GA ∧
      o'.planarRep = drawnDocument GA (drawnGraph og o.G) := by
  obtain ⟨o', ho'⟩ : ∃ o', o.graphToPlanarRep og = .ok o' := by
    unfold drawnGraph at hGA
    rw [OgdfTest.graphToPlanarRep, if_pos hc]
    split_ifs at hGA ⊢
    · exact ⟨_, by rw [hGA]; rfl⟩
    · exact ⟨_, by dsimp only; rw [hGA]; rfl⟩
  obtain ⟨-, hGA', hrep⟩ := graphToPlanarRep_eq_ok ho'
  obtain rfl := Except.ok.inj (hGA.symm.trans hGA')
  exact ⟨o', ho', rfl, hrep⟩

/-- The callback answers exactly these texts. -/
theorem processingCallback_isOk (hog : og.Asserts) {machine : Bytes} :
    (∃ json, processingCallback js og machine = .ok json) ↔ Answered js og machine := by
  simp only [Answered, ← documentToGraph_eq_ok, ← hog _, processingCallback, OgdfTest.new,
    JSONMachineToGraph]
  constructor
  · rintro ⟨json, h⟩
    obtain ⟨o, ho, h⟩ := bind_eq_ok.mp h
    obtain ⟨doc, hdoc, hload⟩ := bind_eq_ok.mp ho
    refine ⟨doc, o, hdoc, hload, fun hv => ?_⟩
    rw [if_pos hv] at h
    obtain ⟨o', ho', -⟩ := bind_eq_ok.mp h
    obtain ⟨hc, hGA, -⟩ := graphToPlanarRep_eq_ok ho'
    exact ⟨hc, _, hGA⟩
  · rintro ⟨doc, o, hdoc, hload, hdrawn⟩
    rw [hdoc, ok_bind, hload, ok_bind]
    split_ifs with hv
    · obtain ⟨hc, GA, hGA⟩ := hdrawn hv
      obtain ⟨o', ho', -⟩ := exists_graphToPlanarRep hc hGA
      exact ⟨_, by rw [ho']; rfl⟩
    · exact ⟨_, rfl⟩

lemma stateId_stateEntry (i : ℤ) (x y : Double) :
    stateId js (stateEntry i x y) = .ok (i.bmod (2 ^ 32)) := by
  simp [stateId, stateEntry, Json.member, List.lookup, Json.toInt]

lemma position_entry (i x y : Json) :
    position (.object [(ascii "id", i), (ascii "xPos", x), (ascii "yPos", y)]) = .ok (x, y) := by
  have hid : (ascii "xPos" == ascii "id") = false := by decide
  have hyid : (ascii "yPos" == ascii "id") = false := by decide
  have hyx : (ascii "yPos" == ascii "xPos") = false := by decide
  simp [position, Json.member, List.lookup, hid, hyid, hyx, pure, Except.pure]

lemma member_states (j : Json) :
    (Json.object [(ascii "states", j)]).member (ascii "states") = .ok j := by
  simp [Json.member, List.lookup]

theorem stateIds_drawnDocument (GA : GraphAttributes) (g : Graph) :
    stateIds js (drawnDocument GA g) = .ok (g.nodes.map fun i => i.bmod (2 ^ 32)) := by
  rw [drawnDocument, stateIds, member_states, ok_bind]
  simp only [Json.elements, List.mapM_map]
  exact mapM_eq_ok_map fun i _ => stateId_stateEntry i _ _

theorem statePositions_drawnDocument (GA : GraphAttributes) (g : Graph) :
    statePositions (drawnDocument GA g) = .ok (coordinates GA g) := by
  rw [drawnDocument, statePositions, member_states, ok_bind]
  simp only [Json.elements, List.mapM_map]
  exact mapM_eq_ok_map fun i _ => position_entry _ _ _

lemma drawnGraph_nodes (g : Graph) :
    (drawnGraph og g).nodes =
      if og.isPlanar g then g.nodes else Graph.numbering g.nodes.length := by
  unfold drawnGraph
  split_ifs with hp
  · rfl
  · unfold callAndDelete
    split <;> rfl

lemma MachineDocument.length_le {doc : Json} {ids : List ℤ} (h : MachineDocument js doc ids) :
    ids.length ≤ 2 ^ 30 := by
  have hsub : ids.toFinset ⊆ Finset.Ico 0 (2 ^ 30) := fun i hi => by
    simpa using h.range i (by simpa using hi)
  have hcard := Finset.card_le_card hsub
  rw [List.toFinset_card_of_nodup h.distinct] at hcard
  simpa using hcard

lemma bmod_of_range {i : ℤ} (h0 : 0 ≤ i) (hi : i ≤ 2 ^ 30) : i.bmod (2 ^ 32) = i := by
  rw [Int.bmod_def]
  omega

lemma map_bmod {l : List ℤ} (h : ∀ i ∈ l, 0 ≤ i ∧ i ≤ 2 ^ 30) :
    (l.map fun i => i.bmod (2 ^ 32)) = l := by
  conv_rhs => rw [← List.map_id l]
  exact List.map_congr_left fun i hi => bmod_of_range (h i hi).1 (h i hi).2

/-- A machine document loads, and its graph has a node per state unless it is empty. -/
theorem MachineDocument.loads {doc : Json} {ids : List ℤ} (h : MachineDocument js doc ids) :
    ∃ o, documentToGraph js OgdfTest.initial doc = .ok o ∧
      (o.isValid = true → o.G.nodes = ids) ∧
      (o.isValid = false ↔ ids.length < 2 ∨ WithoutTransitions doc) := by
  have hrange : ∀ i ∈ ids, i < 2 ^ 30 := fun i hi => (h.range i hi).2
  obtain ⟨ss, hss, hids⟩ := h.states
  obtain ⟨es, hes, hread⟩ := h.transitions
  obtain ⟨ts, hts, hdecl⟩ := exists_mapM_eq_ok hread
  have hlen : ids.length = ss.size := by rw [Json.size_eq, mapM_length hids]
  by_cases hfew : ss.size < 2
  · refine ⟨_, documentToGraph_eq_ok.mpr (.fewStates hss hfew), by simp [OgdfTest.isValid], ?_⟩
    exact iff_of_true rfl (.inl (by omega))
  by_cases hnone : es.size = 0
  · refine ⟨_, documentToGraph_eq_ok.mpr (.noTransitions hss (not_lt.mp hfew) hids hrange hes
      hnone),
      by simp [OgdfTest.isValid], ?_⟩
    exact iff_of_true rfl (.inr ⟨es, hes, hnone⟩)
  · refine ⟨_, documentToGraph_eq_ok.mpr (.loaded hss (not_lt.mp hfew) hids hrange hes hnone
      hts fun t ht _ => hdecl t ht), fun _ => rfl, ?_⟩
    refine iff_of_false (by simp [OgdfTest.isValid, OgdfTest.initial]) ?_
    rintro (hlt | ⟨es', hes', hnone'⟩)
    · omega
    · rw [hes] at hes'
      obtain rfl := Except.ok.inj hes'
      exact hnone hnone'

lemma MachineDocument.consistent {doc : Json} {ids : List ℤ} (h : MachineDocument js doc ids)
    {g : Graph} (hg : g.nodes = ids) : g.Consistent := by
  rw [Graph.Consistent, hg]
  exact ⟨h.distinct, fun i hi => (h.range i hi).1⟩

lemma MachineDocument.stateIds_eq {doc : Json} {ids : List ℤ} (h : MachineDocument js doc ids) :
    stateIds js doc = .ok ids := by
  obtain ⟨ss, hss, hids⟩ := h.states
  rw [stateIds, hss, ok_bind]
  exact hids

lemma MachineDocument.drawn_ids_iff {doc : Json} {ids : List ℤ} (h : MachineDocument js doc ids)
    {g : Graph} (hg : g.nodes = ids) :
    ((drawnGraph og g).nodes.map fun i => i.bmod (2 ^ 32)) = ids ↔
      og.isPlanar g = true ∨ ids = Graph.numbering ids.length := by
  rw [drawnGraph_nodes, hg]
  split_ifs with hp
  · rw [map_bmod fun i hi => ⟨(h.range i hi).1, (h.range i hi).2.le⟩]
    exact iff_of_true rfl (.inl hp)
  · have hrange : ∀ i ∈ Graph.numbering ids.length, 0 ≤ i ∧ i ≤ 2 ^ 30 := by
      intro i hi
      obtain ⟨k, hk, rfl⟩ := List.mem_map.mp hi
      have hlt := List.mem_range.mp hk
      have hle := h.length_le
      simp only [Int.ofNat_eq_natCast]
      omega
    rw [map_bmod hrange, or_iff_right hp]
    exact eq_comm

/-- The answer speaks about the states of the machine exactly when the machine is echoed,
its graph is reported planar, or its ids are `0, 1, 2, …` in this order. -/
theorem reply_speaks_iff (js : JsonLibrary) (og : Library) {machine : Bytes} {doc : Json}
    {ids : List ℤ} (hparse : js.parse machine = .ok doc) (hdoc : MachineDocument js doc ids)
    (hlayout : ∀ o, OgdfTest.new js machine = .ok o → o.isValid = true →
      ∃ GA, og.layout (drawnGraph og o.G) = .ok GA) :
    ∃ o j, OgdfTest.new js machine = .ok o ∧ replyDocument js og machine = .ok j ∧
      processingCallback js og machine = .ok (if o.isValid then js.dump j else machine) ∧
      (SpeaksOf js og o ids j ↔
        (ids.length < 2 ∨ WithoutTransitions doc) ∨
        og.isPlanar o.G = true ∨ ids = Graph.numbering ids.length) := by
  obtain ⟨o, hload, hnodes, hempty⟩ := hdoc.loads
  have ho : OgdfTest.new js machine = .ok o := by
    rw [OgdfTest.new, JSONMachineToGraph, hparse, ok_bind, hload]
  by_cases hv : o.isValid = true
  case neg =>
    rw [Bool.not_eq_true] at hv
    have hj : replyDocument js og machine = .ok doc := by
      rw [replyDocument, ho, ok_bind, if_neg (by simp [hv]), hparse]
    exact ⟨o, doc, ho, hj, processingCallback_eq ho hj,
      iff_of_true ⟨hdoc.stateIds_eq, by simp [hv]⟩ (.inl (hempty.mp hv))⟩
  obtain ⟨GA, hGA⟩ := hlayout o ho hv
  obtain ⟨o', ho', -, hrep⟩ := exists_graphToPlanarRep (hdoc.consistent (hnodes hv)) hGA
  have hj : replyDocument js og machine = .ok (drawnDocument GA (drawnGraph og o.G)) := by
    rw [replyDocument, ho, ok_bind, if_pos hv, ho', ok_bind, hrep]
    rfl
  refine ⟨o, _, ho, hj, processingCallback_eq ho hj, ?_⟩
  have hids : stateIds js (drawnDocument GA (drawnGraph og o.G)) = .ok ids ↔
      og.isPlanar o.G = true ∨ ids = Graph.numbering ids.length := by
    rw [stateIds_drawnDocument, Except.ok.injEq]
    exact hdoc.drawn_ids_iff (hnodes hv)
  have hnot : ¬(ids.length < 2 ∨ WithoutTransitions doc) := by
    rw [← hempty, hv]
    simp
  constructor
  · exact fun h => .inr (hids.mp h.states)
  · rintro (he | h)
    · exact absurd he hnot
    · exact ⟨hids.mpr h, fun _ => ⟨GA, hGA, statePositions_drawnDocument GA _⟩⟩

section Sample

def sampleDocument (ids : List ℕ) (transitions : List (ℕ × ℕ)) : Json :=
  .object [
    (ascii "states", .array (ids.map fun i => .object [(ascii "id", .numberUnsigned i)])),
    (ascii "transitions", .array (transitions.map fun t => .object [
      (ascii "from", .numberUnsigned t.1), (ascii "to", .numberUnsigned t.2),
      (ascii "type", .numberUnsigned 0)]))]

def sampleText (ids : List ℕ) (transitions : List (ℕ × ℕ)) : Bytes :=
  let entry (fields : List (String × ℕ)) : Bytes :=
    ascii "\x7b" ++ (fields.map fun f => ascii f.1 ++ Text.decimal f.2).flatten ++ ascii "\x7d"
  let list (entries : List Bytes) : Bytes := (entries.intersperse (ascii ",")).flatten
  ascii "\x7b\"states\":[" ++ list (ids.map fun i => entry [("\"id\":", i)]) ++
  ascii "],\"transitions\":[" ++ list (transitions.map fun t =>
    entry [("\"from\":", t.1), (",\"to\":", t.2), (",\"type\":", 0)]) ++ ascii "]\x7d"

/-- A library that knows one text. -/
def sampleLibrary (text : Bytes) (doc : Json) : JsonLibrary where
  parse := fun s => if s = text then .ok doc else .error .jsonParse
  dump := fun _ => text
  outOfInt := fun _ => 0

lemma sampleLibrary_parse (text : Bytes) (doc : Json) :
    (sampleLibrary text doc).parse text = .ok doc := if_pos rfl

/-- No graph is planar before its first edge is deleted, and all nodes lie in one place. -/
def sampleOgdf : Library where
  isPlanar := fun _ => false
  callAndDelete := fun _ => some [0]
  layout := fun _ => .ok ⟨fun _ => .finite (.number 0), fun _ => .finite (.number 0)⟩

lemma toInt_numberUnsigned {n : ℕ} (hn : n < 2 ^ 30) :
    (Json.numberUnsigned n).toInt js = .ok n := by
  have hmod : (n : ℤ).bmod (2 ^ 32) = n := bmod_of_range (by omega) (by omega)
  rw [Json.toInt, hmod]

lemma readTransition_sample {a b : ℕ} (ha : a < 2 ^ 30) (hb : b < 2 ^ 30) :
    readTransition js (.object [(ascii "from", .numberUnsigned a), (ascii "to", .numberUnsigned b),
      (ascii "type", .numberUnsigned 0)]) = .ok ⟨a, b, .oneWay⟩ := by
  have hto : (ascii "to" == ascii "from") = false := by decide
  have htype : (ascii "type" == ascii "from") = false := by decide
  have htypeto : (ascii "type" == ascii "to") = false := by decide
  have hkind : kindOf (.numberUnsigned 0) = .oneWay := by decide
  simp only [readTransition, Json.member, List.lookup, hto, htype, htypeto, beq_self_eq_true,
    Option.getD_some, ok_bind, toInt_numberUnsigned ha, toInt_numberUnsigned hb, hkind]
  rfl

lemma sampleDocument_machine {ids : List ℕ} {transitions : List (ℕ × ℕ)} (hnodup : ids.Nodup)
    (hrange : ∀ i ∈ ids, i < 2 ^ 30) (hdecl : ∀ t ∈ transitions, t.1 ∈ ids ∧ t.2 ∈ ids) :
    MachineDocument js (sampleDocument ids transitions) (ids.map Int.ofNat) where
  states := by
    refine ⟨.array (ids.map fun i => .object [(ascii "id", .numberUnsigned i)]), rfl, ?_⟩
    simp only [Json.elements, List.mapM_map]
    apply mapM_eq_ok_map
    intro i hi
    simp only [Function.comp_apply, stateId, Json.member, List.lookup, beq_self_eq_true,
      Option.getD_some, ok_bind, toInt_numberUnsigned (hrange i hi)]
    rfl
  distinct := hnodup.map Int.ofNat_injective
  range := by
    intro i hi
    obtain ⟨k, hk, rfl⟩ := List.mem_map.mp hi
    have := hrange k hk
    simp only [Int.ofNat_eq_natCast]
    omega
  transitions := by
    refine ⟨.array (transitions.map fun t => .object [(ascii "from", .numberUnsigned t.1),
      (ascii "to", .numberUnsigned t.2), (ascii "type", .numberUnsigned 0)]), rfl, fun e he => ?_⟩
    obtain ⟨t, ht, rfl⟩ := List.mem_map.mp he
    obtain ⟨h1, h2⟩ := hdecl t ht
    exact ⟨_, readTransition_sample (hrange _ h1) (hrange _ h2),
      List.mem_map.mpr ⟨_, h1, rfl⟩, List.mem_map.mpr ⟨_, h2, rfl⟩⟩

def completeFive (k : ℕ) : List (ℕ × ℕ) :=
  [(k, k + 1), (k, k + 2), (k, k + 3), (k, k + 4), (k + 1, k + 2), (k + 1, k + 3),
    (k + 1, k + 4), (k + 2, k + 3), (k + 2, k + 4), (k + 3, k + 4)]

def completeFiveLibrary (k : ℕ) : JsonLibrary :=
  sampleLibrary (sampleText [k, k + 1, k + 2, k + 3, k + 4] (completeFive k))
    (sampleDocument [k, k + 1, k + 2, k + 3, k + 4] (completeFive k))

lemma completeFive_document {k : ℕ} (hk : k + 4 < 2 ^ 30) :
    MachineDocument js (sampleDocument [k, k + 1, k + 2, k + 3, k + 4] (completeFive k))
      ([k, k + 1, k + 2, k + 3, k + 4].map Int.ofNat) := by
  refine sampleDocument_machine (by simp) ?_ (by simp [completeFive])
  intro i hi
  simp only [List.mem_cons, List.not_mem_nil, or_false] at hi
  omega

/-- Five states with ids from 1 on, every two connected, come back with ids from 0 on. -/
theorem reply_not_speaking :
    ¬∀ (js : JsonLibrary) (og : Library) (machine : Bytes) (doc : Json) (ids : List ℤ),
      js.parse machine = .ok doc → MachineDocument js doc ids →
      (∀ g, ∃ GA, og.layout g = .ok GA) →
      ∃ o j, OgdfTest.new js machine = .ok o ∧ replyDocument js og machine = .ok j ∧
        SpeaksOf js og o ids j := by
  intro h
  obtain ⟨o, j, _, hj, hspeaks⟩ := h (completeFiveLibrary 1) sampleOgdf _ _ _
    (sampleLibrary_parse _ _) (completeFive_document (by decide)) fun _ => ⟨_, rfl⟩
  have hparse := sampleLibrary_parse (sampleText [1, 2, 3, 4, 5] (completeFive 1))
    (sampleDocument [1, 2, 3, 4, 5] (completeFive 1))
  have hids : (replyDocument (completeFiveLibrary 1) sampleOgdf
      (sampleText [1, 2, 3, 4, 5] (completeFive 1)) >>= stateIds (completeFiveLibrary 1)) =
      .ok [0, 1, 2, 3, 4] := by
    rw [replyDocument, OgdfTest.new, JSONMachineToGraph, completeFiveLibrary, hparse, ok_bind]
    decide
  rw [hj, ok_bind, hspeaks.states] at hids
  simp at hids

/-- The same machine with ids from 0 on is answered with its own ids. -/
theorem reply_speaks_iff_complete_five :
    ∃ o j, OgdfTest.new (completeFiveLibrary 0)
        (sampleText [0, 1, 2, 3, 4] (completeFive 0)) = .ok o ∧
      replyDocument (completeFiveLibrary 0) sampleOgdf
        (sampleText [0, 1, 2, 3, 4] (completeFive 0)) = .ok j ∧
      SpeaksOf (completeFiveLibrary 0) sampleOgdf o [0, 1, 2, 3, 4] j := by
  obtain ⟨o, j, ho, hj, _, hiff⟩ := reply_speaks_iff (completeFiveLibrary 0) sampleOgdf
    (sampleLibrary_parse _ _) (completeFive_document (by decide)) fun _ _ _ => ⟨_, rfl⟩
  exact ⟨o, j, ho, hj, hiff.mpr (.inr (.inr rfl))⟩

end Sample

end Gpd.Layout
