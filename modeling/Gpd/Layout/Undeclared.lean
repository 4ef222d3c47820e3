import Gpd.Layout.Connections

/-! Transitions between states that no state of the document declares: the calls of
`G.newEdge` that loading a document makes, and which documents it refuses. -/
namespace Gpd.Layout
open Cxx Ogdf Arcs Machine

variable {js : JsonLibrary} {doc : Json} {ids : List ℤ} {us : List (Arc Id)}

/-- A call of `G.newEdge` for a transition between two ids, with the two pointers. -/
structure EdgeCall where
  graph : Graph
  fromId : IdValue
  toId : IdValue
  source : Option Node
  target : Option Node

/-- Both pointers are nodes of the graph, and their indices are the ids of the transition. -/
def EdgeCall.Sound (c : EdgeCall) : Prop :=
  ∃ (v w : Node) (i j : ℤ), c.source = some v ∧ c.target = some w ∧
    c.graph.nodes[v]? = some i ∧ c.graph.nodes[w]? = some j ∧
    c.fromId = .number i ∧ c.toId = .number j

abbrev Loading := Action OgdfTest EdgeCall Fault

section Calls

open Action

def callNewEdge (fromId toId : Id) : Loading Unit := do
  let g := (← get).G
  let source := getNodeByIndex g fromId.index
  let target := getNodeByIndex g toId.index
  emit ⟨g, fromId.value, toId.value, source, target⟩
  let g' ← newEdge g source target
  modify fun o => { o with G := g' }

variable (js)

def loadTransitionCalls (edge : Json) : Loading Unit := do
  let fromId ← toId js (← edge.member (ascii "from"))
  let toId ← toId js (← edge.member (ascii "to"))
  let type ← edge.member (ascii "type")
  if type.eqInt 2 then
    if !transitionAlreadyExists (← get).G toId.index fromId.index then
      callNewEdge fromId toId
  else if type.eqInt 0 then
    callNewEdge fromId toId

def documentCalls (j : Json) : Loading Unit := do
  let states ← j.member (ascii "states")
  if states.size < 2 then
    modify fun o => { o with isValidMachine := false }
  else
    let g ← loadStates js (← get).G states.elements
    modify fun o => { o with G := g }
    let edges ← j.member (ascii "transitions")
    if edges.size = 0 then
      modify fun o => { o with isValidMachine := false }
    else
      each (loadTransitionCalls js) edges.elements

end Calls

/-- The branches of the loop in which an edge is inserted. -/
def Inserts (g : Graph) (t : Transition) : Prop :=
  t.kind = .oneWay ∨ (t.kind = .twoWay ∧ transitionAlreadyExists g t.target t.source = false)

instance (g : Graph) (t : Transition) : Decidable (Inserts g t) := by
  unfold Inserts
  infer_instance

theorem loadTransitionCalls_apply (edge : Json) (o : OgdfTest) :
    loadTransitionCalls js edge o =
      match readArc js edge with
      | .error e => ⟨.error e, o, []⟩
      | .ok t => if Inserts o.G (converted t) then callNewEdge t.source t.target o
        else ⟨.ok (), o, []⟩ := by
  simp only [loadTransitionCalls, readArc, Action.bind_apply, Action.lift_apply]
  cases edge.member (ascii "from") with
  | error e => rfl
  | ok jFrom =>
    simp only [Outcome.andThen_ok, Outcome.after_nil, Action.bind_apply, Action.lift_apply, ok_bind]
    cases toId js jFrom with
    | error e => rfl
    | ok fromId =>
      simp only [Outcome.andThen_ok, Outcome.after_nil, Action.bind_apply, Action.lift_apply,
        ok_bind]
      cases edge.member (ascii "to") with
      | error e => rfl
      | ok jTo =>
        simp only [Outcome.andThen_ok, Outcome.after_nil, Action.bind_apply, Action.lift_apply,
          ok_bind]
        cases toId js jTo with
        | error e => rfl
        | ok target =>
          simp only [Outcome.andThen_ok, Outcome.after_nil, Action.bind_apply, Action.lift_apply,
            ok_bind]
          cases edge.member (ascii "type") with
          | error e => rfl
          | ok type =>
            simp only [Outcome.andThen_ok, Outcome.after_nil, Action.ite_apply, ok_bind,
              Action.bind_apply, Action.get_apply, pure, Except.pure, Inserts, converted, Arc.map,
              kindOf]
            split_ifs <;> simp_all

lemma addTransition_eq (g : Graph) (t : Transition) :
    addTransition g t =
      if Inserts g t then newEdge g (getNodeByIndex g t.source) (getNodeByIndex g t.target)
      else .ok g := by
  obtain ⟨iSource, iTarget, kind⟩ := t
  cases kind with
  | oneWay | ignored => simp [addTransition, Inserts]
  | twoWay =>
    by_cases he : transitionAlreadyExists g iTarget iSource = true <;>
      simp [addTransition, Inserts, he]

lemma callNewEdge_apply (fromId toId : Id) (o : OgdfTest) :
    callNewEdge fromId toId o =
      let c : EdgeCall := ⟨o.G, fromId.value, toId.value, getNodeByIndex o.G fromId.index,
        getNodeByIndex o.G toId.index⟩
      match newEdge o.G c.source c.target with
      | .error e => ⟨.error e, o, [c]⟩
      | .ok g => ⟨.ok (), { o with G := g }, [c]⟩ := by
  simp only [callNewEdge, Action.bind_apply, Action.get_apply, Outcome.andThen_ok,
    Outcome.after_nil, Action.emit_apply, Action.lift_apply]
  cases newEdge o.G (getNodeByIndex o.G fromId.index) (getNodeByIndex o.G toId.index) <;> rfl

theorem loadTransitionCalls_erases (js : JsonLibrary) (edge : Json) (o : OgdfTest) :
    ∃ g, (loadTransitionCalls js edge o).state = { o with G := g } ∧
      loadTransition js o.G edge = (loadTransitionCalls js edge o).result.map fun _ => g := by
  rw [loadTransition_eq, readTransition_eq, loadTransitionCalls_apply]
  cases readArc js edge with
  | error e => exact ⟨o.G, rfl, rfl⟩
  | ok t =>
    simp only [Except.map, ok_bind, addTransition_eq]
    split_ifs with hi
    · simp only [callNewEdge_apply, Arc.map]
      cases newEdge o.G (getNodeByIndex o.G t.source.index) (getNodeByIndex o.G t.target.index) with
      | error e => exact ⟨o.G, rfl, rfl⟩
      | ok g => exact ⟨g, rfl, rfl⟩
    · exact ⟨o.G, rfl, rfl⟩

theorem each_loadTransitionCalls_erases (js : JsonLibrary) (entries : List Json) (o : OgdfTest) :
    ∃ g, (Action.each (loadTransitionCalls js) entries o).state = { o with G := g } ∧
      loadTransitions js o.G entries =
        (Action.each (loadTransitionCalls js) entries o).result.map fun _ => g := by
  induction entries generalizing o with
  | nil => exact ⟨o.G, rfl, rfl⟩
  | cons e es ih =>
    obtain ⟨g, hstate, hstep⟩ := loadTransitionCalls_erases js e o
    rw [loadTransitions, List.foldlM_cons, hstep, Action.each_cons]
    generalize loadTransitionCalls js e o = out at hstate
    obtain ⟨result, state, trace⟩ := out
    obtain rfl : state = { o with G := g } := hstate
    cases result with
    | error e => exact ⟨g, rfl, rfl⟩
    | ok u => exact ih { o with G := g }

/-- Without its record, loading is `documentToGraph`. -/
theorem documentCalls_erases (js : JsonLibrary) (j : Json) (o : OgdfTest) :
    documentToGraph js o j =
      (documentCalls js j o).result.map fun _ => (documentCalls js j o).state := by
  simp only [documentToGraph, documentCalls, Action.bind_apply, Action.lift_apply]
  cases j.member (ascii "states") with
  | error e => rfl
  | ok states =>
    simp only [Outcome.andThen_ok, Outcome.after_nil, Action.ite_apply, Action.bind_apply,
      Action.get_apply, Action.lift_apply, Action.modify_apply, ok_bind]
    split_ifs with hfew
    · rfl
    cases loadStates js o.G states.elements with
    | error e => rfl
    | ok g =>
      simp only [Outcome.andThen_ok, Outcome.after_nil, Action.lift_apply, Action.bind_apply,
        Action.modify_apply, ok_bind]
      cases j.member (ascii "transitions") with
      | error e => rfl
      | ok edges =>
        simp only [Outcome.andThen_ok, Outcome.after_nil, Action.ite_apply, Action.modify_apply,
          ok_bind]
        split_ifs with hnone
        · rfl
        obtain ⟨g', hstate, hrun⟩ :=
          each_loadTransitionCalls_erases js edges.elements { o with G := g }
        rw [hrun, hstate]
        cases (Action.each (loadTransitionCalls js) edges.elements { o with G := g }).result <;> rfl

/-- The conversion keeps the id, and some node has it. -/
def Names (ids : List ℤ) (a : Id) : Prop := a.value = .number a.index ∧ a.index ∈ ids

instance (a : Id) : Decidable (Names ids a) := by
  unfold Names
  infer_instance

/-- Behind the transitions `us`, every entry for which an edge is inserted names two nodes. -/
def InsertsNamed (js : JsonLibrary) (ids : List ℤ) (us : List (Arc Id)) (entries : List Json) :
    Prop :=
  ∀ pre e post us' t, entries = pre ++ e :: post → pre.mapM (readArc js) = .ok us' →
    readArc js e = .ok t → Admits ((us ++ us').map converted) (converted t) →
    Names ids t.source ∧ Names ids t.target

lemma insertsNamed_of_unread {e : Json} {es : List Json} (h : ∀ t, readArc js e ≠ .ok t) :
    InsertsNamed js ids us (e :: es) := by
  intro pre e' post us' t he hus ht
  cases pre with
  | nil =>
    obtain ⟨rfl, rfl⟩ := List.cons.inj he
    exact absurd ht (h t)
  | cons x pre =>
    obtain ⟨rfl, rfl⟩ := List.cons.inj he
    obtain ⟨u, _, hu, _⟩ := mapM_cons_eq_ok.mp hus
    exact absurd hu (h u)

lemma insertsNamed_cons {e : Json} {es : List Json} {t : Arc Id} (h : readArc js e = .ok t) :
    InsertsNamed js ids us (e :: es) ↔
      (Admits (us.map converted) (converted t) → Names ids t.source ∧ Names ids t.target) ∧
        InsertsNamed js ids (us ++ [t]) es := by
  constructor
  · intro hall
    constructor
    · intro ha
      exact hall [] e es [] t rfl rfl h (by simpa using ha)
    · rintro pre e' post us' t' rfl hus ht ha
      exact hall (e :: pre) e' post (t :: us') t' rfl
        (mapM_cons_eq_ok.mpr ⟨t, us', h, hus, rfl⟩) ht (by simpa using ha)
  · rintro ⟨hfirst, hrest⟩ pre e' post us' t' he hus ht ha
    cases pre with
    | nil =>
      obtain ⟨rfl, rfl⟩ := List.cons.inj he
      obtain rfl := Except.ok.inj (h.symm.trans ht)
      obtain rfl := Except.ok.inj hus
      exact hfirst (by simpa using ha)
    | cons x pre =>
      obtain ⟨rfl, rfl⟩ := List.cons.inj he
      obtain ⟨u, us'', hu, hus'', rfl⟩ := mapM_cons_eq_ok.mp hus
      obtain rfl := Except.ok.inj (h.symm.trans hu)
      exact hrest pre e' post us'' t' rfl hus'' ht (by simpa using ha)

/-- Outcomes of the loop's body on a graph of transitions whose nodes were found. -/
inductive Adds (js : JsonLibrary) (ids : List ℤ) (us : List (Arc Id)) (edge : Json)
    (o : OgdfTest) : Outcome OgdfTest EdgeCall Fault Unit → Prop
  | unread (h : ∀ t, readArc js edge ≠ .ok t) : Adds js ids us edge o ⟨.error .jsonDomain, o, []⟩
  | added (t : Arc Id) (h : readArc js edge = .ok t) (hfound : Found ids (converted t))
      (hnames : Admits (us.map converted) (converted t) → Names ids t.source ∧ Names ids t.target)
      (calls : List EdgeCall) (hcalls : ∀ c ∈ calls, c.Sound) :
      Adds js ids us edge o
        ⟨.ok (), { o with G := graphOf ids ((us ++ [t]).map converted) }, calls⟩
  | unsound (t : Arc Id) (h : readArc js edge = .ok t)
      (ha : Admits (us.map converted) (converted t))
      (hno : ¬(Names ids t.source ∧ Names ids t.target))
      (out : Outcome OgdfTest EdgeCall Fault Unit) (hc : ∃ c ∈ out.trace, ¬c.Sound) :
      Adds js ids us edge o out

lemma sound_iff {g : Graph} {a b : Id} :
    EdgeCall.Sound ⟨g, a.value, b.value, getNodeByIndex g a.index, getNodeByIndex g b.index⟩ ↔
      Names g.nodes a ∧ Names g.nodes b := by
  have hnode : ∀ {c : Id} {v : Node} {i : ℤ}, getNodeByIndex g c.index = some v →
      g.nodes[v]? = some i → c.index ∈ g.nodes ∧ c.index = i := by
    intro c v i hv hi
    by_cases hmem : c.index ∈ g.nodes
    · rw [getNodeByIndex_of_mem hmem] at hv
      obtain rfl := Option.some.inj hv
      exact ⟨hmem, (getElem?_idxOf hmem i).mp hi⟩
    · rw [getNodeByIndex_of_not_mem hmem] at hv
      cases hv
  constructor
  · rintro ⟨v, w, i, j, hv, hw, hi, hj, hfrom, hto⟩
    obtain ⟨hmem, rfl⟩ := hnode hv hi
    obtain ⟨hmem', rfl⟩ := hnode hw hj
    exact ⟨⟨hfrom, hmem⟩, hto, hmem'⟩
  · rintro ⟨⟨hfrom, hmem⟩, hto, hmem'⟩
    exact ⟨_, _, _, _, getNodeByIndex_of_mem hmem, getNodeByIndex_of_mem hmem',
      (getElem?_idxOf hmem _).mpr rfl, (getElem?_idxOf hmem' _).mpr rfl, hfrom, hto⟩

lemma inserts_iff {ts : List Transition} (hts : ∀ t ∈ ts, Found ids t) {t : Transition} :
    Inserts (graphOf ids ts) t ↔ Admits ts t := by
  rw [Inserts, Admits, ← mem_collectAll, ← transitionAlreadyExists_graphOf hts,
    Bool.not_eq_true]

theorem loadTransitionCalls_adds (js : JsonLibrary) {o : OgdfTest}
    (hG : o.G = graphOf ids (us.map converted)) (hus : ∀ t ∈ us.map converted, Found ids t)
    (edge : Json) : Adds js ids us edge o (loadTransitionCalls js edge o) := by
  rw [loadTransitionCalls_apply]
  cases hr : readArc js edge with
  | error e =>
    have hread : readTransition js edge = .error e := by
      rw [readTransition_eq, hr]
      rfl
    obtain rfl := readTransition_error hread
    exact .unread (by simp [hr])
  | ok t =>
    have hadd := addTransition_eq (graphOf ids (us.map converted)) (converted t)
    have hnext : graphOf ids (us.map converted ++ [converted t]) =
        graphOf ids ((us ++ [t]).map converted) := by rw [List.map_append]; rfl
    simp only [callNewEdge_apply, hG]
    split_ifs at hadd ⊢ with hi
    · have ha := (inserts_iff hus).mp hi
      have hsound := sound_iff (g := graphOf ids (us.map converted)) (a := t.source) (b := t.target)
      by_cases hnames : Names ids t.source ∧ Names ids t.target
      · have hfound : Found ids (converted t) := fun _ => ⟨hnames.1.2, hnames.2.2⟩
        have hok := hadd.symm.trans ((addTransition_eq_ok hus).mpr ⟨hfound, rfl⟩)
        rw [hnext] at hok
        simp only [Arc.map] at hok
        rw [hok]
        refine .added t hr hfound (fun _ => hnames) _ fun c hc => ?_
        obtain rfl := List.mem_singleton.mp hc
        exact hsound.mpr hnames
      · refine .unsound t hr ha hnames _ ?_
        cases newEdge (graphOf ids (us.map converted)) _ _ with
        | error e => exact ⟨_, List.mem_singleton_self _, hsound.not.mpr hnames⟩
        | ok g => exact ⟨_, List.mem_singleton_self _, hsound.not.mpr hnames⟩
    · obtain ⟨hfound, hg⟩ := (addTransition_eq_ok hus).mp hadd
      have hsame : o = { o with G := graphOf ids ((us ++ [t]).map converted) } := by
        rw [← hnext, ← hg, ← hG]
      have hadds : Adds js ids us edge o _ := .added t hr hfound
        (fun ha => absurd ((inserts_iff hus).mpr ha) hi) [] (by simp)
      rwa [← hsame] at hadds

/-- Outcomes of the loop: some call is not sound; or all are, and the loop ends with an
exception or with every entry read. -/
inductive Loops (js : JsonLibrary) (ids : List ℤ) (us : List (Arc Id)) (entries : List Json) :
    Outcome OgdfTest EdgeCall Fault Unit → Prop
  | unsound (h : ¬InsertsNamed js ids us entries) (out : Outcome OgdfTest EdgeCall Fault Unit)
      (hc : ∃ c ∈ out.trace, ¬c.Sound) : Loops js ids us entries out
  | unread (h : InsertsNamed js ids us entries) (hread : ∀ ts, entries.mapM (readArc js) ≠ .ok ts)
      (o : OgdfTest) (calls : List EdgeCall) (hcalls : ∀ c ∈ calls, c.Sound) :
      Loops js ids us entries ⟨.error .jsonDomain, o, calls⟩
  | loaded (h : InsertsNamed js ids us entries) {ts : List (Arc Id)}
      (hread : entries.mapM (readArc js) = .ok ts) (o : OgdfTest) (calls : List EdgeCall)
      (hcalls : ∀ c ∈ calls, c.Sound) : Loops js ids us entries ⟨.ok (), o, calls⟩

theorem each_loadTransitionCalls (js : JsonLibrary) {o : OgdfTest}
    (hG : o.G = graphOf ids (us.map converted)) (hus : ∀ t ∈ us.map converted, Found ids t)
    (entries : List Json) :
    Loops js ids us entries (Action.each (loadTransitionCalls js) entries o) := by
  induction entries generalizing o us with
  | nil => exact .loaded (fun pre e post _ _ he => by simp at he) rfl o [] (by simp)
  | cons e es ih =>
    have hadds := loadTransitionCalls_adds js hG hus e
    rw [Action.each_cons]
    generalize loadTransitionCalls js e o = out at hadds
    cases hadds with
    | unread h =>
      refine .unread (insertsNamed_of_unread h) (fun ts hts => ?_) o [] (by simp)
      obtain ⟨t, _, ht, _⟩ := mapM_cons_eq_ok.mp hts
      exact h t ht
    | unsound t h ha hno _ hc =>
      obtain ⟨c, hmem, hc⟩ := hc
      refine .unsound (fun hall => hno (((insertsNamed_cons h).mp hall).1 ha)) _ ⟨c, ?_, hc⟩
      rcases Outcome.andThen_cases out (fun _ => Action.each (loadTransitionCalls js) es) with
        ⟨_, _, he⟩ | ⟨_, _, he⟩
      · rwa [he]
      · rw [he]
        exact List.mem_append_left _ hmem
    | added t h hfound hnames calls hcalls =>
      have hus' : ∀ u ∈ (us ++ [t]).map converted, Found ids u := by
        rw [List.map_append]
        intro u hu
        rcases List.mem_append.mp hu with hu | hu
        · exact hus u hu
        · obtain rfl := List.mem_singleton.mp hu
          exact hfound
      have hrest := ih (o := { o with G := graphOf ids ((us ++ [t]).map converted) }) rfl hus'
      rw [Outcome.andThen_ok]
      generalize Action.each (loadTransitionCalls js) es
        { o with G := graphOf ids ((us ++ [t]).map converted) } = out at hrest
      cases hrest with
      | unsound hno _ hc =>
        obtain ⟨c, hmem, hc⟩ := hc
        exact .unsound (fun hall => hno ((insertsNamed_cons h).mp hall).2) _
          ⟨c, List.mem_append_right _ hmem, hc⟩
      | unread hall hread o' calls' hcalls' =>
        refine .unread ((insertsNamed_cons h).mpr ⟨hnames, hall⟩) (fun ts hts => ?_) o' _
          fun c hc => (List.mem_append.mp hc).elim (hcalls c) (hcalls' c)
        obtain ⟨_, ts', _, hts', _⟩ := mapM_cons_eq_ok.mp hts
        exact hread ts' hts'
      | loaded hall hread o' calls' hcalls' =>
        exact .loaded ((insertsNamed_cons h).mpr ⟨hnames, hall⟩)
          (mapM_cons_eq_ok.mpr ⟨t, _, h, hread, rfl⟩) o' _
          fun c hc => (List.mem_append.mp hc).elim (hcalls c) (hcalls' c)

/-- The same id, in whichever representation. -/
def SameId (i j : Json) : Prop := ∃ v, idValue i = .ok v ∧ idValue j = .ok v

def Undeclared (states : List Json) (id : Json) : Prop :=
  ∀ s ∈ states, ∀ i, s.member (ascii "id") = .ok i → ¬SameId i id

/-- The document has a transition of type 0 or 2 that names an id without a state. -/
def NamesUndeclared (doc : Json) : Prop :=
  ∃ ss es e type iFrom iTo, doc.member (ascii "states") = .ok ss ∧
    doc.member (ascii "transitions") = .ok es ∧ e ∈ es.elements ∧
    e.member (ascii "type") = .ok type ∧ kindOf type ≠ .ignored ∧
    e.member (ascii "from") = .ok iFrom ∧ e.member (ascii "to") = .ok iTo ∧
    (Undeclared ss.elements iFrom ∨ Undeclared ss.elements iTo)

/-- The document is invalid or ends in an exception. -/
def Rejected (js : JsonLibrary) (doc : Json) : Prop :=
  match documentToGraph js OgdfTest.initial doc with
  | .ok o => o.isValid = false
  | .error e => e ≠ .wildPointer ∧ e ≠ .endlessLoop

/-- All calls of `newEdge` get nodes that have the ids of the transition, and a document that
names an undeclared id is refused. -/
structure RefusesUndeclared (js : JsonLibrary) (doc : Json) : Prop where
  calls : ∀ c ∈ (documentCalls js doc OgdfTest.initial).trace, c.Sound
  rejected : NamesUndeclared doc → Rejected js doc

/-- At least two states, and among them one that the node tables cannot be enlarged for. -/
def HangsOn (js : JsonLibrary) (doc : Json) : Prop :=
  ∃ ss, doc.member (ascii "states") = .ok ss ∧ 2 ≤ ss.size ∧ Hangs js ss.elements

/-- At least two states that are loaded as nodes, and the transitions of the document. -/
structure LoadsStates (js : JsonLibrary) (doc : Json) (ids : List ℤ) (es : Json) : Prop where
  states : ∃ ss, doc.member (ascii "states") = .ok ss ∧ 2 ≤ ss.size ∧
    ss.elements.mapM (stateId js) = .ok ids
  range : ∀ i ∈ ids, i < 2 ^ 30
  transitions : doc.member (ascii "transitions") = .ok es

section States

variable {ss es : Json}

lemma hangsOn_iff (hs : doc.member (ascii "states") = .ok ss) :
    HangsOn js doc ↔ 2 ≤ ss.size ∧ Hangs js ss.elements := by simp [HangsOn, hs]

lemma LoadsStates.of_states (h : LoadsStates js doc ids es)
    (hs : doc.member (ascii "states") = .ok ss) :
    2 ≤ ss.size ∧ ss.elements.mapM (stateId js) = .ok ids := by
  obtain ⟨ss', hs', h⟩ := h.states
  obtain rfl := Except.ok.inj (hs.symm.trans hs')
  exact h

lemma LoadsStates.not_hangsOn (h : LoadsStates js doc ids es) : ¬HangsOn js doc := by
  obtain ⟨ss, hs, -, hids⟩ := h.states
  rw [hangsOn_iff hs]
  exact fun hh => not_hangs hids h.range hh.2

lemma LoadsStates.unique {ids' : List ℤ} {es' : Json} (h : LoadsStates js doc ids es)
    (h' : LoadsStates js doc ids' es') : ids = ids' ∧ es = es' := by
  obtain ⟨ss, hs, -, hids⟩ := h.states
  exact ⟨Except.ok.inj (hids.symm.trans (h'.of_states hs).2),
    Except.ok.inj (h.transitions.symm.trans h'.transitions)⟩

end States

/-- Loading a document ends before the loop, without a call, or with the loop. -/
inductive Ends (js : JsonLibrary) (doc : Json) : Outcome OgdfTest EdgeCall Fault Unit → Prop
  | endless (h : HangsOn js doc) (o : OgdfTest) : Ends js doc ⟨.error .endlessLoop, o, []⟩
  | unread (hno : ¬HangsOn js doc) (h : ∀ ids es, ¬LoadsStates js doc ids es) (o : OgdfTest) :
      Ends js doc ⟨.error .jsonDomain, o, []⟩
  | invalid (hno : ¬HangsOn js doc)
      (h : ∀ ids es, LoadsStates js doc ids es → es.elements = []) (o : OgdfTest)
      (ho : o.isValid = false) : Ends js doc ⟨.ok (), o, []⟩
  | looped {ids : List ℤ} {es : Json} (h : LoadsStates js doc ids es)
      (out : Outcome OgdfTest EdgeCall Fault Unit) (hloop : Loops js ids [] es.elements out)
      (hvalid : ∀ o calls, out = ⟨.ok (), o, calls⟩ → o.isValid = true) : Ends js doc out

theorem documentCalls_ends (js : JsonLibrary) (doc : Json) :
    Ends js doc (documentCalls js doc OgdfTest.initial) := by
  unfold documentCalls
  simp only [Action.bind_apply, Action.lift_apply]
  cases hs : doc.member (ascii "states") with
  | error e =>
    obtain rfl := member_error hs
    refine .unread (by simp [HangsOn, hs]) (fun ids es h => ?_) _
    obtain ⟨ss, hss, -⟩ := h.states
    cases hs.symm.trans hss
  | ok states =>
    simp only [Outcome.andThen_ok, Outcome.after_nil, Action.ite_apply, Action.bind_apply,
      Action.get_apply, Action.lift_apply, Action.modify_apply]
    split_ifs with hfew
    · refine .invalid ?_ (fun ids es h => ?_) _ rfl
      · rw [hangsOn_iff hs]
        exact fun h => absurd hfew (not_lt.mpr h.1)
      · exact absurd hfew (not_lt.mpr (h.of_states hs).1)
    have htwo := not_lt.mp hfew
    have hout := loadStates_outcome js OgdfTest.initial.G states.elements
    generalize loadStates js OgdfTest.initial.G states.elements = r at hout
    cases hout with
    | endless h => exact .endless ⟨states, hs, htwo, h⟩ _
    | unread hids hno =>
      refine .unread ?_ (fun ids es h => hids ids (h.of_states hs).2) _
      rw [hangsOn_iff hs]
      exact fun h => hno h.2
    | @loaded ids hids hrange =>
      simp only [Outcome.andThen_ok, Outcome.after_nil, Action.lift_apply, Action.bind_apply,
        Action.modify_apply]
      cases hes : doc.member (ascii "transitions") with
      | error e =>
        obtain rfl := member_error hes
        refine .unread ?_ (fun ids' es h => ?_) _
        · rw [hangsOn_iff hs]
          exact fun h => not_hangs hids hrange h.2
        · cases hes.symm.trans h.transitions
      | ok edges =>
        have hloads : LoadsStates js doc ids edges := ⟨⟨states, hs, htwo, hids⟩, hrange, hes⟩
        simp only [Outcome.andThen_ok, Outcome.after_nil, Action.ite_apply, Action.modify_apply]
        split_ifs with hnone
        · refine .invalid hloads.not_hangsOn (fun ids' es h => ?_) _ rfl
          obtain ⟨rfl, rfl⟩ := hloads.unique h
          exact List.length_eq_zero_iff.mp ((Json.size_eq _).symm.trans hnone)
        · refine .looped hloads _ (each_loadTransitionCalls js rfl (by simp) _) fun o calls ho => ?_
          obtain ⟨g, hstate, _⟩ := each_loadTransitionCalls_erases js edges.elements
            { OgdfTest.initial with
              G := ⟨OgdfTest.initial.G.nodes ++ ids, OgdfTest.initial.G.edges⟩ }
          rw [ho] at hstate
          rw [show o = _ from hstate]
          rfl

/-- The inserted transitions name nodes, as far as transitions are read; and the document names
no undeclared id if all of them are, or if an id makes the node tables grow without end. -/
structure NamesNodes (js : JsonLibrary) (doc : Json) : Prop where
  inserted : ∀ ids es, LoadsStates js doc ids es → InsertsNamed js ids [] es.elements
  loaded : ∀ ids es ts, LoadsStates js doc ids es → es.elements.mapM (readArc js) = .ok ts →
    ¬NamesUndeclared doc
  endless : HangsOn js doc → ¬NamesUndeclared doc

lemma rejected_iff (js : JsonLibrary) (doc : Json) :
    Rejected js doc ↔
      ((documentCalls js doc OgdfTest.initial).result = .ok () →
        (documentCalls js doc OgdfTest.initial).state.isValid = false) ∧
      ∀ e, (documentCalls js doc OgdfTest.initial).result = .error e →
        e ≠ .wildPointer ∧ e ≠ .endlessLoop := by
  rw [Rejected, documentCalls_erases js doc OgdfTest.initial]
  cases (documentCalls js doc OgdfTest.initial).result <;> simp [Except.map]

/-- Undeclared states are refused exactly in these documents. -/
theorem refusesUndeclared_iff (js : JsonLibrary) (doc : Json) :
    RefusesUndeclared js doc ↔ NamesNodes js doc := by
  have hends := documentCalls_ends js doc
  have hrej := rejected_iff js doc
  have hiff : RefusesUndeclared js doc ↔
      (∀ c ∈ (documentCalls js doc OgdfTest.initial).trace, c.Sound) ∧
        (NamesUndeclared doc → Rejected js doc) := ⟨fun h => ⟨h.1, h.2⟩, fun h => ⟨h.1, h.2⟩⟩
  rw [hiff, hrej]
  clear hiff hrej
  generalize documentCalls js doc OgdfTest.initial = out at hends
  cases hends with
  | endless h o =>
    constructor
    · rintro ⟨_, hrej⟩
      have hnot : ¬NamesUndeclared doc := fun hn => ((hrej hn).2 _ rfl).2 rfl
      exact ⟨fun ids es hl => absurd h hl.not_hangsOn, fun _ _ _ _ _ => hnot, fun _ => hnot⟩
    · intro hn
      exact ⟨by simp, fun hu => absurd hu (hn.endless h)⟩
  | unread hno h o =>
    refine iff_of_true ⟨by simp, fun _ => by simp⟩ ⟨fun ids es hl => absurd hl (h ids es),
      fun ids es _ hl => absurd hl (h ids es), fun hh => absurd hh hno⟩
  | invalid hno h o ho =>
    refine iff_of_true ⟨by simp, fun _ => by simp [ho]⟩
      ⟨fun ids es hl => ?_, fun ids es ts hl _ => ?_, fun hh => absurd hh hno⟩
    · rw [h ids es hl]
      exact fun pre e post _ _ he => by simp at he
    · rintro ⟨_, es', e, _, _, _, _, hes', he, _⟩
      obtain rfl := Except.ok.inj (hl.transitions.symm.trans hes')
      rw [h ids es hl] at he
      cases he
  | @looped ids es hl out hloop hvalid =>
    have hnamed : (∀ ids' es', LoadsStates js doc ids' es' →
        InsertsNamed js ids' [] es'.elements) ↔ InsertsNamed js ids [] es.elements := by
      constructor
      · exact fun h => h ids es hl
      · intro h ids' es' hl'
        obtain ⟨rfl, rfl⟩ := hl.unique hl'
        exact h
    cases hloop with
    | unsound hno _ hc =>
      obtain ⟨c, hmem, hc⟩ := hc
      exact iff_of_false (fun h => hc (h.1 c hmem)) fun h => hno (hnamed.mp h.inserted)
    | unread hall hread o calls hcalls =>
      refine iff_of_true ⟨hcalls, fun _ => by simp⟩ ⟨hnamed.mpr hall, fun ids' es' ts hl' hts => ?_,
        fun hh => absurd hh hl.not_hangsOn⟩
      obtain ⟨rfl, rfl⟩ := hl.unique hl'
      exact absurd hts (hread ts)
    | @loaded hall ts hread o calls hcalls =>
      have hv := hvalid o calls rfl
      constructor
      · rintro ⟨_, hrej⟩
        have hnot : ¬NamesUndeclared doc := fun hn => by simpa [hv] using hrej hn
        exact ⟨hnamed.mpr hall, fun _ _ _ _ _ => hnot, fun hh => absurd hh hl.not_hangsOn⟩
      · exact fun h => ⟨hcalls, fun hn => absurd hn (h.loaded ids es ts hl hread)⟩

/-- A one-way transition to a state that is not declared reaches `newEdge`. -/
theorem undeclared_not_refused :
    ¬∀ (js : JsonLibrary) (doc : Json), RefusesUndeclared js doc := by
  intro h
  have hcalls := (h (sampleLibrary [] .null) (typedDocument [1, 2] [(1, 3, 0)])).calls
  have htrace : (documentCalls (sampleLibrary [] .null) (typedDocument [1, 2] [(1, 3, 0)])
      OgdfTest.initial).trace = [⟨⟨[1, 2], []⟩, .number 1, .number 3, some 0, none⟩] := rfl
  rw [htrace] at hcalls
  obtain ⟨_, _, _, _, _, hw, _⟩ := hcalls _ (List.mem_singleton.mpr rfl)
  cases hw

end Gpd.Layout
