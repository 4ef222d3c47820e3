import Gpd.Arcs.Order
import Gpd.Layout.Ids

/-! How many edges the loaded graph has between two states, and whether that depends on the
order of the transitions. -/
namespace Gpd.Layout
open Cxx Ogdf Arcs Machine

variable {js : JsonLibrary} {doc doc' : Json} {ids : List Id} {ts us : List (Arc Id)}

/-- A document with distinct ids and transitions between them. The ids are compared as what
they are in the document, before any conversion. -/
structure DeclaredMachine (js : JsonLibrary) (doc : Json) (ids : List Id) (ts : List (Arc Id)) :
    Prop where
  states : identitiesOf js doc = .ok ids
  transitions : arcsOf js doc = .ok ts
  distinct : (ids.map Id.value).Nodup
  declared : ∀ t ∈ ts, t.source ∈ ids ∧ t.target ∈ ids

/-- The document with its transitions in another order. -/
structure Relisted (doc doc' : Json) : Prop where
  states : doc'.member (ascii "states") = doc.member (ascii "states")
  transitions : ∃ es es', doc.member (ascii "transitions") = .ok es ∧
    doc'.member (ascii "transitions") = .ok es' ∧ es'.elements.Perm es.elements

def edgesBetween (g : Graph) (v w : Node) : ℕ :=
  g.edges.countP fun e => e = (v, w) ∨ e = (w, v)

/-- The node tables can be enlarged for every state. -/
def FitsTables (ids : List Id) : Prop := ∀ a ∈ ids, a.index < 2 ^ 30

instance : Decidable (FitsTables ids) := by
  unfold FitsTables
  infer_instance

lemma fitsTables_iff : (∀ i ∈ ids.map Id.index, i < 2 ^ 30) ↔ FitsTables ids := by
  simp [FitsTables]

/-- No state in front of that of `a` has an id that is converted to the same index. -/
def FirstOf (ids : List Id) (a : Id) : Prop := ∀ b ∈ ids.takeWhile (· ≠ a), b.index ≠ a.index

instance (a : Id) : Decidable (FirstOf ids a) := by
  unfold FirstOf
  infer_instance

theorem DeclaredMachine.relisted (h : DeclaredMachine js doc ids ts) (hr : Relisted doc doc') :
    ∃ us, us.Perm ts ∧ DeclaredMachine js doc' ids us := by
  obtain ⟨es, es', hes, hes', hperm⟩ := hr.transitions
  have hts := h.transitions
  rw [arcsOf, hes, ok_bind, mapM_eq_ok_iff] at hts
  obtain ⟨us, hus, hperm'⟩ := List.perm_comp_forall₂ hperm hts
  refine ⟨us, hperm', ?_, ?_, h.distinct, fun t ht => h.declared t (hperm'.subset ht)⟩
  · rw [identitiesOf, hr.states]
    exact h.states
  · rw [arcsOf, hes', ok_bind, mapM_eq_ok_iff]
    exact hus

/-- Every order of the transitions is that of a relisted document. -/
theorem DeclaredMachine.exists_relisted (h : DeclaredMachine js doc ids ts) (hperm : us.Perm ts) :
    ∃ doc', Relisted doc doc' ∧ DeclaredMachine js doc' ids us := by
  obtain ⟨es, hes, hts⟩ := bind_eq_ok.mp h.transitions
  obtain ⟨ss, hss, hids⟩ := bind_eq_ok.mp h.states
  obtain ⟨es', hes', hperm'⟩ :=
    List.perm_comp_forall₂ hperm (mapM_eq_ok_iff.mp hts).flip
  have hkey : (ascii "transitions" == ascii "states") = false := by decide
  let doc' : Json := .object [(ascii "states", ss), (ascii "transitions", .array es')]
  have hstates : doc'.member (ascii "states") = .ok ss := by simp [doc', Json.member]
  have htransitions : doc'.member (ascii "transitions") = .ok (.array es') := by
    simp [doc', Json.member, List.lookup, hkey]
  refine ⟨doc', ⟨by rw [hstates, hss], es, _, hes, htransitions, hperm'⟩, ?_, ?_, h.distinct,
    fun t ht => h.declared t (hperm.subset ht)⟩
  · rw [identitiesOf, hstates]
    exact hids
  · rw [arcsOf, htransitions, ok_bind, mapM_eq_ok_iff]
    exact hes'.flip

lemma exists_perm_of_map {α β : Type} {f : α → β} {l : List α} {l' : List β}
    (h : l'.Perm (l.map f)) : ∃ us : List α, us.Perm l ∧ us.map f = l' := by
  have himage : List.Forall₂ (fun b a => b = f a) (l.map f) l :=
    List.forall₂_map_left_iff.mpr (List.forall₂_same.mpr fun _ _ => rfl)
  obtain ⟨us, hus, hperm⟩ := List.perm_comp_forall₂ h himage
  refine ⟨us, hperm, ?_⟩
  rw [← List.forall₂_eq_eq_eq, List.forall₂_map_left_iff]
  exact hus.flip.imp fun _ _ => Eq.symm

def loadedMachine (ids : List Id) (ts : List (Arc Id)) : OgdfTest :=
  { OgdfTest.initial with
    G := graphOf (ids.map Id.index) (ts.map converted), isValidMachine := ts ≠ [] }

lemma loadedMachine_isValid (h : ts ≠ []) : (loadedMachine ids ts).isValid = true := by
  simpa [OgdfTest.isValid, loadedMachine] using h

lemma DeclaredMachine.found (h : DeclaredMachine js doc ids ts) :
    ∀ t ∈ ts.map converted, Found (ids.map Id.index) t := by
  intro t ht _
  obtain ⟨u, hu, rfl⟩ := List.mem_map.mp ht
  obtain ⟨hsource, htarget⟩ := h.declared u hu
  exact ⟨List.mem_map_of_mem hsource, List.mem_map_of_mem htarget⟩

/-- A machine with at least two states loads as the graph of its converted transitions, if the
node tables can be enlarged for its ids, and not otherwise. -/
theorem DeclaredMachine.loads (h : DeclaredMachine js doc ids ts) (htwo : 2 ≤ ids.length)
    {o : OgdfTest} :
    documentToGraph js OgdfTest.initial doc = .ok o ↔
      FitsTables ids ∧ o = loadedMachine ids ts := by
  obtain ⟨es, hes, hts⟩ := bind_eq_ok.mp h.transitions
  obtain ⟨ss, hss, hids⟩ := bind_eq_ok.mp h.states
  have hsize : ss.size = ids.length := by rw [Json.size_eq, mapM_length hids]
  have hread := mapM_map_eq_ok stateId_eq hids
  have hread' := mapM_map_eq_ok readTransition_eq hts
  have hlen : es.size = ts.length := by rw [Json.size_eq, mapM_length hts]
  rw [documentToGraph_eq_ok]
  constructor
  · intro ho
    cases ho with
    | fewStates hs hfew =>
      obtain rfl := Except.ok.inj (hss.symm.trans hs)
      omega
    | noTransitions hs _ hids' hrange he hnone =>
      obtain rfl := Except.ok.inj (hss.symm.trans hs)
      obtain rfl := Except.ok.inj (hes.symm.trans he)
      obtain rfl := Except.ok.inj (hread.symm.trans hids')
      obtain rfl := List.length_eq_zero_iff.mp (hlen.symm.trans hnone)
      exact ⟨fitsTables_iff.mp hrange, rfl⟩
    | loaded hs _ hids' hrange he hsome hts' _ =>
      obtain rfl := Except.ok.inj (hss.symm.trans hs)
      obtain rfl := Except.ok.inj (hes.symm.trans he)
      obtain rfl := Except.ok.inj (hread.symm.trans hids')
      obtain rfl := Except.ok.inj (hread'.symm.trans hts')
      have hcons : ts ≠ [] := by
        rintro rfl
        exact hsome hlen
      exact ⟨fitsTables_iff.mp hrange, by simp [loadedMachine, hcons, OgdfTest.initial]⟩
  · rintro ⟨hfits, rfl⟩
    have hrange := fitsTables_iff.mpr hfits
    by_cases hnil : ts = []
    · subst hnil
      exact .noTransitions hss (by omega) hread hrange hes hlen
    · have hsome : es.size ≠ 0 := by
        rw [hlen]
        exact (List.length_pos_iff.mpr hnil).ne'
      have hloaded := Loads.loaded hss (by omega) hread hrange hes hsome hread' h.found
      simpa [loadedMachine, hnil, OgdfTest.initial] using hloaded

theorem DeclaredMachine.loads_empty (h : DeclaredMachine js doc ids ts) (hfew : ids.length < 2) :
    documentToGraph js OgdfTest.initial doc =
      .ok { OgdfTest.initial with isValidMachine := false } := by
  obtain ⟨ss, hss, hids⟩ := bind_eq_ok.mp h.states
  rw [documentToGraph_eq_ok]
  exact .fewStates hss (by rwa [Json.size_eq, ← mapM_length hids])

section Edges

variable {v w : Node} {a b : Id}

lemma DeclaredMachine.nodup (h : DeclaredMachine js doc ids ts) : ids.Nodup := h.distinct.of_map

lemma firstOf_iff (hids : ids.Nodup) (hv : ids[v]? = some a) :
    FirstOf ids a ↔ (ids.map Id.index).idxOf a.index = v := by
  induction ids generalizing v with
  | nil => cases hv
  | cons c ids ih =>
    obtain ⟨hc, hids⟩ := List.nodup_cons.mp hids
    cases v with
    | zero =>
      obtain rfl := Option.some.inj hv
      simp [FirstOf]
    | succ v =>
      have hv : ids[v]? = some a := hv
      have hca : c ≠ a := by
        rintro rfl
        exact hc (List.mem_of_getElem? hv)
      have htail := ih hids hv
      rw [FirstOf] at htail ⊢
      rw [List.takeWhile_cons_of_pos (by simpa using hca), List.forall_mem_cons, htail,
        List.map_cons]
      by_cases hi : c.index = a.index
      · simp [hi]
      · rw [List.idxOf_cons_ne _ hi]
        simp [hi]

lemma eq_of_firstOf (hids : ids.Nodup) (ha : a ∈ ids) (hb : b ∈ ids) (hfa : FirstOf ids a)
    (hfb : FirstOf ids b) (h : a.index = b.index) : a = b := by
  obtain ⟨v, hv⟩ := List.mem_iff_getElem?.mp ha
  obtain ⟨w, hw⟩ := List.mem_iff_getElem?.mp hb
  have hv' := (firstOf_iff hids hv).mp hfa
  have hw' := (firstOf_iff hids hw).mp hfb
  rw [h, hw'] at hv'
  subst hv'
  exact Option.some.inj (hv.symm.trans hw)

/-- The edges between two nodes are those collected between their indices, if both nodes are
found by them, and none otherwise. -/
theorem edgesBetween_loaded (h : DeclaredMachine js doc ids ts) (hv : ids[v]? = some a)
    (hw : ids[w]? = some b) :
    edgesBetween (loadedMachine ids ts).G v w =
      if FirstOf ids a ∧ FirstOf ids b then
        edgeCount a.index b.index (collectAll (ts.map converted))
      else 0 := by
  have hplaced : ∀ {v : Node} {a : Id}, ids[v]? = some a → ∀ {i : ℤ}, i ∈ ids.map Id.index →
      ((ids.map Id.index).idxOf i = v ↔ FirstOf ids a ∧ i = a.index) := by
    intro v a hv i hi
    rw [firstOf_iff h.nodup hv]
    constructor
    · intro he
      have hia : i = a.index := by
        have hget := (getElem?_idxOf hi i).mpr rfl
        rw [he, List.getElem?_map, hv] at hget
        exact (Option.some.inj hget).symm
      exact ⟨hia ▸ he, hia⟩
    · rintro ⟨he, rfl⟩
      exact he
  have hends : ∀ {v w : Node} {a b : Id}, ids[v]? = some a → ids[w]? = some b →
      ∀ p ∈ collectAll (ts.map converted), (placed (ids.map Id.index) p = (v, w) ↔
        (FirstOf ids a ∧ FirstOf ids b) ∧ p = (a.index, b.index)) := by
    intro v w a b hv hw p hp
    have hmem := mem_of_collected h.found hp
    rw [placed, Prod.mk.injEq, hplaced hv hmem.1, hplaced hw hmem.2, Prod.ext_iff]
    tauto
  rw [edgesBetween, loadedMachine, graphOf_edges, List.countP_map, edgeCount]
  have hcongr : (collectAll (ts.map converted)).countP
      ((fun e => decide (e = (v, w) ∨ e = (w, v))) ∘ placed (ids.map Id.index)) =
      (collectAll (ts.map converted)).countP fun p => decide ((FirstOf ids a ∧ FirstOf ids b) ∧
        (p = (a.index, b.index) ∨ p = (b.index, a.index))) := by
    refine List.countP_congr fun p hp => ?_
    simp only [Function.comp_apply, decide_eq_true_eq, hends hv hw p hp, hends hw hv p hp]
    tauto
  rw [hcongr]
  split_ifs with hf
  · simp only [hf, and_self, true_and]
  · simp [hf]

def typedDocument (ids : List ℕ) (transitions : List (ℕ × ℕ × ℕ)) : Json :=
  .object [
    (ascii "states", .array (ids.map fun i => .object [(ascii "id", .numberUnsigned i)])),
    (ascii "transitions", .array (transitions.map fun t => .object [
      (ascii "from", .numberUnsigned t.1), (ascii "to", .numberUnsigned t.2.1),
      (ascii "type", .numberUnsigned t.2.2)]))]

def sampleMachine : Json := typedDocument [1, 2, 3] [(2, 1, 2), (1, 3, 0), (1, 2, 2)]

def smallId (n : ℕ) : Id := ⟨.number n, n⟩

lemma sampleMachine_declared : DeclaredMachine (sampleLibrary [] .null) sampleMachine
    [smallId 1, smallId 2, smallId 3] [⟨smallId 2, smallId 1, .twoWay⟩,
      ⟨smallId 1, smallId 3, .oneWay⟩, ⟨smallId 1, smallId 2, .twoWay⟩] := by
  constructor <;> decide

/-- The loaded graph connects two states exactly when some transition of type 0 or 2 leads from
the one to the other or back, in every order of the transitions. -/
structure Connected (js : JsonLibrary) (doc : Json) (ids : List Id) (ts : List (Arc Id))
    (o : OgdfTest) : Prop where
  loaded : documentToGraph js OgdfTest.initial doc = .ok o
  valid : o.isValid = true
  nodes : o.G.nodes = ids.map Id.index
  joined : ∀ v w a b, ids[v]? = some a → ids[w]? = some b →
    (0 < edgesBetween o.G v w ↔ ∃ t ∈ ts, Between a b t)
  relisted : ∀ doc', Relisted doc doc' → ∃ o', documentToGraph js OgdfTest.initial doc' = .ok o' ∧
    ∀ v < ids.length, ∀ w < ids.length, (0 < edgesBetween o'.G v w ↔ 0 < edgesBetween o.G v w)

/-- The node of every state that a transition of type 0 or 2 names is found by its index. -/
def EndsFirst (ids : List Id) (ts : List (Arc Id)) : Prop :=
  ∀ t ∈ ts, t.kind ≠ .ignored → FirstOf ids t.source ∧ FirstOf ids t.target

instance : Decidable (EndsFirst ids ts) := by
  unfold EndsFirst
  infer_instance

lemma between_converted {t : Arc Id} (ht : t.kind ≠ .ignored → FirstOf ids t.source ∧
    FirstOf ids t.target) (hids : ids.Nodup) (ha : a ∈ ids) (hb : b ∈ ids)
    (hmem : t.source ∈ ids ∧ t.target ∈ ids) (hfa : FirstOf ids a) (hfb : FirstOf ids b) :
    Between a.index b.index (converted t) ↔ Between a b t := by
  refine and_congr_right fun hk => ?_
  obtain ⟨hs, ht⟩ := ht hk
  have heq : ∀ {c d : Id}, c ∈ ids → d ∈ ids → FirstOf ids c → FirstOf ids d →
      (c.index = d.index ↔ c = d) := fun hc hd hfc hfd =>
    ⟨eq_of_firstOf hids hc hd hfc hfd, congrArg Id.index⟩
  change (t.source.index = a.index ∧ t.target.index = b.index) ∨
    (t.source.index = b.index ∧ t.target.index = a.index) ↔ _
  rw [heq hmem.1 ha hs hfa, heq hmem.2 hb ht hfb, heq hmem.1 hb hs hfb, heq hmem.2 ha ht hfa]

lemma edgesBetween_pos (h : DeclaredMachine js doc ids ts) (hends : EndsFirst ids ts)
    (hv : ids[v]? = some a) (hw : ids[w]? = some b) :
    0 < edgesBetween (loadedMachine ids ts).G v w ↔ ∃ t ∈ ts, Between a b t := by
  rw [edgesBetween_loaded h hv hw]
  have ha := List.mem_of_getElem? hv
  have hb := List.mem_of_getElem? hw
  split_ifs with hf
  · rw [edgeCount_collectAll_pos]
    simp only [List.mem_map, exists_exists_and_eq_and]
    refine exists_congr fun t => and_congr_right fun ht => ?_
    exact between_converted (hends t ht) h.nodup ha hb (h.declared t ht) hf.1 hf.2
  · refine iff_of_false (lt_irrefl 0) ?_
    rintro ⟨t, ht, hk, hst⟩
    obtain ⟨hs, htt⟩ := hends t ht hk
    rcases hst with ⟨rfl, rfl⟩ | ⟨rfl, rfl⟩
    · exact hf ⟨hs, htt⟩
    · exact hf ⟨htt, hs⟩

/-- The connections of the machine are those of the loaded graph, exactly when the node tables
can be enlarged for its ids and every state that a transition of type 0 or 2 names is the first
with its converted id. -/
theorem connected_iff (h : DeclaredMachine js doc ids ts) (htwo : 2 ≤ ids.length)
    (hsome : ts ≠ []) :
    (∃ o, Connected js doc ids ts o) ↔ FitsTables ids ∧ EndsFirst ids ts := by
  constructor
  · rintro ⟨o, ho⟩
    obtain ⟨hfits, rfl⟩ := (h.loads htwo).mp ho.loaded
    refine ⟨hfits, fun t ht hk => ?_⟩
    obtain ⟨hs, htt⟩ := h.declared t ht
    obtain ⟨v, hv⟩ := List.mem_iff_getElem?.mp hs
    obtain ⟨w, hw⟩ := List.mem_iff_getElem?.mp htt
    have hpos := (ho.joined v w _ _ hv hw).mpr ⟨t, ht, hk, .inl ⟨rfl, rfl⟩⟩
    rw [edgesBetween_loaded h hv hw] at hpos
    split_ifs at hpos with hf
    · exact hf
    · exact absurd hpos (lt_irrefl 0)
  · rintro ⟨hfits, hends⟩
    refine ⟨_, (h.loads htwo).mpr ⟨hfits, rfl⟩, loadedMachine_isValid hsome, rfl,
      fun v w a b => edgesBetween_pos h hends, fun doc' hr => ?_⟩
    obtain ⟨us, hperm, h'⟩ := h.relisted hr
    have hends' : EndsFirst ids us := fun t ht => hends t (hperm.subset ht)
    refine ⟨_, (h'.loads htwo).mpr ⟨hfits, rfl⟩, fun v hv w hw => ?_⟩
    have ha := List.getElem?_eq_getElem hv
    have hb := List.getElem?_eq_getElem hw
    rw [edgesBetween_pos h hends ha hb, edgesBetween_pos h' hends' ha hb]
    simp only [hperm.mem_iff]

theorem connected_iff_three_states :
    ∃ o, documentToGraph (sampleLibrary [] .null) OgdfTest.initial sampleMachine = .ok o ∧
      0 < edgesBetween o.G 0 1 ∧ ¬0 < edgesBetween o.G 1 2 := by
  obtain ⟨o, ho⟩ := (connected_iff sampleMachine_declared (by decide) (by decide)).mpr (by decide)
  refine ⟨o, ho.loaded, (ho.joined 0 1 _ _ rfl rfl).mpr (by decide), fun hpos => ?_⟩
  exact absurd ((ho.joined 1 2 _ _ rfl rfl).mp hpos) (by decide)

/-- Ids that differ by `2 ^ 32` are converted to the same index. -/
def wrappedId (n : ℕ) : Id := ⟨.number (n + 2 ^ 32 : ℕ), n⟩

lemma wrapped_declared : DeclaredMachine (sampleLibrary [] .null)
    (typedDocument [1, 4294967297] [(1, 4294967297, 2), (4294967297, 1, 2)])
    [smallId 1, wrappedId 1] [⟨smallId 1, wrappedId 1, .twoWay⟩,
      ⟨wrappedId 1, smallId 1, .twoWay⟩] := by
  constructor <;> decide

lemma wrapped_loads : documentToGraph (sampleLibrary [] .null) OgdfTest.initial
    (typedDocument [1, 4294967297] [(1, 4294967297, 2), (4294967297, 1, 2)]) =
    .ok { OgdfTest.initial with G := ⟨[1, 1], [(0, 0)]⟩ } := rfl

theorem not_connected :
    ¬∀ (js : JsonLibrary) (doc : Json) (ids : List Id) (ts : List (Arc Id)),
      DeclaredMachine js doc ids ts → 2 ≤ ids.length → ts ≠ [] →
      ∃ o, Connected js doc ids ts o := by
  intro h
  obtain ⟨o, ho⟩ := h _ _ _ _ wrapped_declared (by decide) (by decide)
  obtain rfl := Except.ok.inj (wrapped_loads.symm.trans ho.loaded)
  exact absurd ((ho.joined 0 1 _ _ rfl rfl).mpr (by decide)) (by decide)

/-- The number of edges between two nodes is the same in every order of the transitions,
exactly when the machine is too small for the loader, or the node tables can be enlarged for
its ids and, if both nodes are found by their indices, the converted transitions between the
two are order-free. -/
theorem relisted_edges_iff (h : DeclaredMachine js doc ids ts) (hv : ids[v]? = some a)
    (hw : ids[w]? = some b) :
    (∀ doc', Relisted doc doc' → ∃ o o', documentToGraph js OgdfTest.initial doc = .ok o ∧
        documentToGraph js OgdfTest.initial doc' = .ok o' ∧
        edgesBetween o'.G v w = edgesBetween o.G v w) ↔
      ids.length < 2 ∨ FitsTables ids ∧
        (FirstOf ids a → FirstOf ids b → OrderFree (ts.map converted) a.index b.index) := by
  by_cases hfew : ids.length < 2
  · refine iff_of_true (fun doc' hr => ?_) (.inl hfew)
    obtain ⟨us, _, h'⟩ := h.relisted hr
    exact ⟨_, _, h.loads_empty hfew, h'.loads_empty hfew, rfl⟩
  · have htwo := not_lt.mp hfew
    simp only [hfew, false_or, ← edgeCount_perm_iff]
    constructor
    · intro hall
      obtain ⟨es, hes, -⟩ := bind_eq_ok.mp h.transitions
      obtain ⟨o, -, ho, -⟩ := hall doc ⟨rfl, es, es, hes, hes, .refl _⟩
      refine ⟨((h.loads htwo).mp ho).1, fun hfa hfb us hperm => ?_⟩
      obtain ⟨us, horder, rfl⟩ := exists_perm_of_map hperm
      obtain ⟨doc', hr, h'⟩ := h.exists_relisted horder
      obtain ⟨o, o', ho, ho', hedges⟩ := hall doc' hr
      obtain ⟨-, rfl⟩ := (h.loads htwo).mp ho
      obtain ⟨-, rfl⟩ := (h'.loads htwo).mp ho'
      rwa [edgesBetween_loaded h hv hw, edgesBetween_loaded h' hv hw, if_pos ⟨hfa, hfb⟩,
        if_pos ⟨hfa, hfb⟩] at hedges
    · rintro ⟨hfits, hall⟩ doc' hr
      obtain ⟨us, hperm, h'⟩ := h.relisted hr
      refine ⟨_, _, (h.loads htwo).mpr ⟨hfits, rfl⟩, (h'.loads htwo).mpr ⟨hfits, rfl⟩, ?_⟩
      rw [edgesBetween_loaded h hv hw, edgesBetween_loaded h' hv hw]
      split_ifs with hf
      · exact hall hf.1 hf.2 _ (hperm.map converted)
      · rfl

theorem relisted_edges_iff_three_states :
    ∃ o o', documentToGraph (sampleLibrary [] .null) OgdfTest.initial sampleMachine = .ok o ∧
      documentToGraph (sampleLibrary [] .null) OgdfTest.initial
        (typedDocument [1, 2, 3] [(1, 3, 0), (2, 1, 2), (1, 2, 2)]) = .ok o' ∧
      edgesBetween o'.G 0 1 = edgesBetween o.G 0 1 := by
  have hsame := (relisted_edges_iff (v := 0) (w := 1) sampleMachine_declared rfl rfl).mpr
    (by decide)
  exact hsame _ ⟨rfl, _, _, rfl, rfl, List.Perm.swap _ _ _⟩

/-- A one-way transition and a two-way one back: two edges, or one if they are swapped. -/
theorem relisted_edges_differ :
    ¬∀ (js : JsonLibrary) (doc : Json) (ids : List Id) (ts : List (Arc Id)),
      DeclaredMachine js doc ids ts → ∀ doc', Relisted doc doc' →
      ∃ o o', documentToGraph js OgdfTest.initial doc = .ok o ∧
        documentToGraph js OgdfTest.initial doc' = .ok o' ∧
        ∀ v < ids.length, ∀ w < ids.length, edgesBetween o'.G v w = edgesBetween o.G v w := by
  intro h
  have hmachine : DeclaredMachine (sampleLibrary [] .null)
      (typedDocument [1, 2] [(1, 2, 0), (2, 1, 2)]) [smallId 1, smallId 2]
      [⟨smallId 1, smallId 2, .oneWay⟩, ⟨smallId 2, smallId 1, .twoWay⟩] := by
    constructor <;> decide
  have hrelisted : Relisted (typedDocument [1, 2] [(1, 2, 0), (2, 1, 2)])
      (typedDocument [1, 2] [(2, 1, 2), (1, 2, 0)]) :=
    ⟨rfl, _, _, rfl, rfl, List.Perm.swap _ _ _⟩
  obtain ⟨o, o', ho, ho', hedges⟩ := h _ _ _ _ hmachine _ hrelisted
  have hone : documentToGraph (sampleLibrary [] .null) OgdfTest.initial
      (typedDocument [1, 2] [(1, 2, 0), (2, 1, 2)]) =
      .ok { OgdfTest.initial with G := ⟨[1, 2], [(0, 1)]⟩ } := rfl
  have htwo : documentToGraph (sampleLibrary [] .null) OgdfTest.initial
      (typedDocument [1, 2] [(2, 1, 2), (1, 2, 0)]) =
      .ok { OgdfTest.initial with G := ⟨[1, 2], [(1, 0), (0, 1)]⟩ } := rfl
  rw [hone] at ho
  rw [htwo] at ho'
  obtain rfl := Except.ok.inj ho
  obtain rfl := Except.ok.inj ho'
  exact absurd (hedges 0 (by decide) 1 (by decide)) (by decide)

/-- After the first transition between `a` and `b` only two-way transitions in the opposite
direction follow between them. -/
def OnlyAnswered (ts : List Transition) (a b : ℤ) : Prop :=
  ∃ pre t post, ts = pre ++ t :: post ∧ (∀ u ∈ pre, ¬Between a b u) ∧ Between a b t ∧
    ∀ u ∈ post, Between a b u → u = ⟨t.target, t.source, .twoWay⟩

/-- A two-way connection is drawn once, whatever stands before, between and after its two
transitions, exactly when the node tables can be enlarged for the ids, both states are the
first with their converted ids, and after the conversion the later transition still only
answers the earlier one. -/
theorem twoWay_drawn_once_iff (h : DeclaredMachine js doc ids ts) (hv : ids[v]? = some a)
    (hw : ids[w]? = some b) (hab : a ≠ b)
    (hpair : (ts.filter fun t => Between a b t).Perm [⟨a, b, .twoWay⟩, ⟨b, a, .twoWay⟩]) :
    (∃ o, documentToGraph js OgdfTest.initial doc = .ok o ∧ o.isValid = true ∧
        edgesBetween o.G v w = 1) ↔
      FitsTables ids ∧ (FirstOf ids a ∧ FirstOf ids b) ∧
        OnlyAnswered (ts.map converted) a.index b.index := by
  have htwo : 2 ≤ ids.length := by
    obtain ⟨hvlt, rfl⟩ := List.getElem?_eq_some_iff.mp hv
    obtain ⟨hwlt, rfl⟩ := List.getElem?_eq_some_iff.mp hw
    rcases Nat.lt_or_gt_of_ne (fun he : v = w => hab (by simp [he])) with hvw | hvw <;> omega
  have hsome : ts ≠ [] := by
    rintro rfl
    simpa using hpair.length_eq
  have hedges : edgesBetween (loadedMachine ids ts).G v w = 1 ↔ (FirstOf ids a ∧ FirstOf ids b) ∧
      OnlyAnswered (ts.map converted) a.index b.index := by
    rw [edgesBetween_loaded h hv hw]
    split_ifs with hf
    · have hne : a.index ≠ b.index := fun he =>
        hab (eq_of_firstOf h.nodup (List.mem_of_getElem? hv) (List.mem_of_getElem? hw) hf.1 hf.2 he)
      rw [edgeCount_eq_one_iff hne, OnlyAnswered]
      simp only [hf, and_self, true_and]
    · simp [hf]
  rw [← hedges]
  constructor
  · rintro ⟨o, ho, -, hone⟩
    obtain ⟨hfits, rfl⟩ := (h.loads htwo).mp ho
    exact ⟨hfits, hone⟩
  · rintro ⟨hfits, hone⟩
    exact ⟨_, (h.loads htwo).mpr ⟨hfits, rfl⟩, loadedMachine_isValid hsome, hone⟩

theorem twoWay_drawn_once_three_states :
    ∃ o, documentToGraph (sampleLibrary [] .null) OgdfTest.initial sampleMachine = .ok o ∧
      o.isValid = true ∧ edgesBetween o.G 0 1 = 1 := by
  refine (twoWay_drawn_once_iff (v := 0) (w := 1) sampleMachine_declared rfl rfl (by decide)
    (by decide)).mpr ⟨by decide, by decide, ?_⟩
  exact ⟨[], ⟨2, 1, .twoWay⟩, _, rfl, by simp, by decide, by decide⟩

/-- The connection of two states whose ids differ by `2 ^ 32` is not drawn. -/
theorem twoWay_not_drawn :
    ¬∀ (js : JsonLibrary) (doc : Json) (ids : List Id) (ts : List (Arc Id)) (v w : Node) (a b : Id),
      DeclaredMachine js doc ids ts → ids[v]? = some a → ids[w]? = some b → a ≠ b →
      (ts.filter fun t => Between a b t).Perm [⟨a, b, .twoWay⟩, ⟨b, a, .twoWay⟩] →
      ∃ o, documentToGraph js OgdfTest.initial doc = .ok o ∧ o.isValid = true ∧
        edgesBetween o.G v w = 1 := by
  intro h
  obtain ⟨o, ho, -, hedges⟩ := h _ _ _ _ 0 1 (smallId 1) (wrappedId 1) wrapped_declared rfl rfl
    (by decide) (by decide)
  obtain rfl := Except.ok.inj (wrapped_loads.symm.trans ho)
  exact absurd hedges (by decide)

end Edges

end Gpd.Layout
