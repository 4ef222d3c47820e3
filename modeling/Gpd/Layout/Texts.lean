import Gpd.Jsonparser.RoundTrip
import Gpd.Jsonparser.Elements
import Gpd.Layout.Reply

/-! The callback from text to text: its library is the JSON parser and serializer of the
repository, and what it answers is a JSON text again. -/
namespace Gpd.Layout
open Cxx Ogdf Arcs Machine Jsonparser

/-- The JSON library over a C library. The exceptions of the parser are not told apart. -/
def jsonLibrary (libc : Libc) (outOfInt : ℚ → Int32) : JsonLibrary where
  parse := fun s => (parse libc s).mapError fun _ => .jsonParse
  dump := dump libc (-1)
  outOfInt := fun x => (outOfInt x).toInt

variable {libc : Libc} {f : ℚ → Int32} {og : Library}

lemma jsonLibrary_parse {s : Bytes} {j : Json} :
    (jsonLibrary libc f).parse s = .ok j ↔ Document libc (visible s) j := by
  constructor
  · intro h
    refine visible_of_parse ?_
    change (parse libc s).mapError _ = _ at h
    cases hs : parse libc s with
    | error e => simp [hs, Except.mapError] at h
    | ok j' => simpa [hs, Except.mapError] using h
  · intro h
    change (parse libc s).mapError _ = _
    rw [parse_of_visible h]
    rfl

section Range

lemma truncate_range {x : ℚ} (hlow : -2147483649 < x) (hhigh : x < 2147483648) :
    -2 ^ 31 ≤ Json.truncate x ∧ Json.truncate x < 2 ^ 31 := by
  unfold Json.truncate
  split_ifs with hx
  · have hpos : 0 ≤ ⌊x⌋ := Int.floor_nonneg.mpr hx
    have hlt : ⌊x⌋ < 2147483648 := Int.floor_lt.mpr (by exact_mod_cast hhigh)
    omega
  · have hneg : ⌈x⌉ ≤ 0 := Int.ceil_le.mpr (by exact_mod_cast (not_le.mp hx).le)
    have hlt : -2147483649 < ⌈x⌉ := Int.lt_ceil.mpr (by exact_mod_cast hlow)
    omega

lemma toInt_range {j : Json} {n : ℤ} (h : j.toInt (jsonLibrary libc f) = .ok n) :
    -2 ^ 31 ≤ n ∧ n < 2 ^ 31 := by
  cases j with
  | boolean b =>
    obtain rfl := Except.ok.inj h
    cases b <;> decide
  | numberInteger m =>
    obtain rfl := Except.ok.inj h
    rw [Int.bmod_def]
    omega
  | numberUnsigned m =>
    obtain rfl := Except.ok.inj h
    rw [Int.bmod_def]
    omega
  | numberFloat x =>
    obtain rfl := Except.ok.inj h
    split_ifs with hx
    · exact truncate_range hx.1 hx.2
    · exact ⟨(f x.value).le_toInt, (f x.value).toInt_lt⟩
  | _ => cases h

lemma stateId_range {state : Json} {i : ℤ} (h : stateId (jsonLibrary libc f) state = .ok i) :
    -2 ^ 31 ≤ i ∧ i < 2 ^ 31 := by
  obtain ⟨j, -, hi⟩ := bind_eq_ok.mp h
  exact toInt_range hi

lemma mapM_range {states : List Json} {ids : List ℤ}
    (h : states.mapM (stateId (jsonLibrary libc f)) = .ok ids) :
    ∀ i ∈ ids, -2 ^ 31 ≤ i ∧ i < 2 ^ 31 := by
  induction states generalizing ids with
  | nil =>
    obtain rfl := Except.ok.inj h
    simp
  | cons s ss ih =>
    rw [List.mapM_cons] at h
    obtain ⟨i, hi, h⟩ := bind_eq_ok.mp h
    obtain ⟨is, his, h⟩ := bind_eq_ok.mp h
    obtain rfl := Except.ok.inj h
    exact List.forall_mem_cons.mpr ⟨stateId_range hi, ih his⟩

lemma loaded_nodes {machine : Bytes} {o : OgdfTest}
    (h : OgdfTest.new (jsonLibrary libc f) machine = .ok o) :
    (∀ i ∈ o.G.nodes, -2 ^ 31 ≤ i ∧ i < 2 ^ 31) ∧ o.G.nodes.length ≤ machine.length := by
  obtain ⟨doc, hdoc, hload⟩ := bind_eq_ok.mp h
  obtain ⟨w, u, w', hs, -, hu, -⟩ := jsonLibrary_parse.mp hdoc
  have hlen : u.length ≤ machine.length := by
    have hvisible : (visible machine).length ≤ machine.length :=
      (List.takeWhile_sublist _).length_le
    rw [hs] at hvisible
    simp only [List.length_append] at hvisible
    omega
  have hids {states : Json} {ids : List ℤ} (hstates : doc.member (ascii "states") = .ok states)
      (hids : states.elements.mapM (stateId (jsonLibrary libc f)) = .ok ids) :
      (∀ i ∈ ids, -2 ^ 31 ≤ i ∧ i < 2 ^ 31) ∧ ids.length ≤ machine.length := by
    refine ⟨mapM_range hids, ?_⟩
    rw [mapM_length hids]
    exact (hu.member_elements_le hstates).trans hlen
  cases documentToGraph_eq_ok.mp hload with
  | fewStates => simp [OgdfTest.initial, Graph.empty]
  | noTransitions hstates _ hread => exact hids hstates hread
  | loaded hstates _ hread => exact hids hstates hread

lemma drawn_nodes {g : Graph} {n : ℕ} (hg : ∀ i ∈ g.nodes, -2 ^ 31 ≤ i ∧ i < 2 ^ 31)
    (hlen : g.nodes.length ≤ n) (hn : n < 2 ^ 63) :
    ∀ i ∈ (drawnGraph og g).nodes, -2 ^ 63 ≤ i ∧ i < 2 ^ 63 := by
  intro i hi
  rw [drawnGraph_nodes] at hi
  split_ifs at hi
  · have hrange := hg i hi
    omega
  · obtain ⟨k, hk, rfl⟩ := List.mem_map.mp hi
    have hlt := List.mem_range.mp hk
    simp only [Int.ofNat_eq_natCast]
    omega

end Range

section Answers

lemma ascii_eq_encode : ascii "states" = encode "states".toList ∧ ascii "id" = encode "id".toList ∧
    ascii "xPos" = encode "xPos".toList ∧ ascii "yPos" = encode "yPos".toList := by
  decide

lemma valid_stateEntry {i : ℤ} (x y : Double) (hlow : -2 ^ 63 ≤ i) (hhigh : i < 2 ^ 63) :
    Valid (stateEntry i x y) := by
  obtain ⟨-, hid, hx, hy⟩ := ascii_eq_encode
  refine .object ?_ ?_ ?_
  · have hx : ascii "id" < ascii "xPos" := by decide
    have hy : ascii "xPos" < ascii "yPos" := by decide
    simp [Map.Sorted, hx, hy, hx.trans hy]
  · simp only [List.mem_cons, List.not_mem_nil, or_false, forall_eq_or_imp, forall_eq]
    exact ⟨⟨_, hid⟩, ⟨_, hx⟩, ⟨_, hy⟩⟩
  · simp only [List.mem_cons, List.not_mem_nil, or_false, forall_eq_or_imp, forall_eq]
    exact ⟨.numberInteger hlow hhigh, valid_ofDouble x, valid_ofDouble y⟩

variable {GA : GraphAttributes} {g : Graph}

lemma valid_drawnDocument (h : ∀ i ∈ g.nodes, -2 ^ 63 ≤ i ∧ i < 2 ^ 63) :
    Valid (drawnDocument GA g) := by
  refine .object (List.pairwise_singleton _ _) ?_ ?_
  · intro m hm
    obtain rfl := List.mem_singleton.mp hm
    exact ⟨_, ascii_eq_encode.1⟩
  · intro m hm
    obtain rfl := List.mem_singleton.mp hm
    refine .array fun j hj => ?_
    obtain ⟨i, hi, rfl⟩ := List.mem_map.mp hj
    exact valid_stateEntry _ _ (h i hi).1 (h i hi).2

lemma reread_drawnDocument :
    reread libc (drawnDocument GA g) = .object [(ascii "states", .array
      (g.nodes.map fun i => reread libc (stateEntry i (GA.x i) (GA.y i))))] := by
  rw [drawnDocument, reread, rereadMembers, rereadMembers, reread, rereadElements_eq,
    List.map_map]
  rfl

lemma stateId_reread {js : JsonLibrary} (i : ℤ) (x y : Double) :
    stateId js (reread libc (stateEntry i x y)) = .ok (i.bmod (2 ^ 32)) := by
  have hid : (reread libc (stateEntry i x y)).member (ascii "id") =
      .ok (reread libc (.numberInteger i)) := by
    simp [stateEntry, reread, rereadMembers, Json.member, List.lookup]
  rw [stateId, hid, ok_bind, reread]
  split_ifs with hi
  · rw [Json.toInt, Int.toNat_of_nonneg hi]
  · rfl

lemma position_reread (i : ℤ) (x y : Double) : position (reread libc (stateEntry i x y)) =
    .ok (reread libc (.ofDouble x), reread libc (.ofDouble y)) := by
  simp only [stateEntry, reread, rereadMembers]
  exact position_entry _ _ _

lemma stateIds_reread {js : JsonLibrary} : stateIds js (reread libc (drawnDocument GA g)) =
    .ok (g.nodes.map fun i => i.bmod (2 ^ 32)) := by
  rw [reread_drawnDocument, stateIds, member_states, ok_bind]
  simp only [Json.elements, List.mapM_map]
  exact mapM_eq_ok_map fun i _ => stateId_reread i _ _

/-- Coordinates as a client reads them. -/
def readCoordinates (libc : Libc) (GA : GraphAttributes) (g : Graph) : List (Json × Json) :=
  (coordinates GA g).map fun p => (reread libc p.1, reread libc p.2)

lemma statePositions_reread : statePositions (reread libc (drawnDocument GA g)) =
    .ok (readCoordinates libc GA g) := by
  rw [reread_drawnDocument, statePositions, member_states, ok_bind, readCoordinates, coordinates,
    List.map_map]
  simp only [Json.elements, List.mapM_map]
  exact mapM_eq_ok_map fun i _ => position_reread i _ _

lemma document_of_drawn (og : Library) (GA : GraphAttributes) (hlibc : libc.WritesNumbers)
    {machine : Bytes} {o : OgdfTest} (hlen : machine.length < 2 ^ 63)
    (ho : OgdfTest.new (jsonLibrary libc f) machine = .ok o) :
    Document libc ((jsonLibrary libc f).dump (drawnDocument GA (drawnGraph og o.G)))
      (reread libc (drawnDocument GA (drawnGraph og o.G))) := by
  obtain ⟨hrange, hnodes⟩ := loaded_nodes ho
  exact document_dump hlibc (valid_drawnDocument (drawn_nodes hrange hnodes hlen)) (-1)

lemma visible_of_document {u : Bytes} {j : Json} (h : Document libc u j) : visible u = u := by
  simpa [visible, ZeroFree] using h.zeroFree

/-- The text that answers a machine text: it is read with the ids of the machine exactly when
the machine is echoed, its graph is reported planar or its ids are consecutive, and the
coordinates of a drawn machine are those of the layout up to their digits. -/
theorem answer_speaks_iff (f : ℚ → Int32) (og : Library) (hlibc : libc.WritesNumbers)
    {machine : Bytes} {doc : Json} {ids : List ℤ} (hlen : machine.length < 2 ^ 63)
    (hdoc : Document libc (visible machine) doc)
    (hids : MachineDocument (jsonLibrary libc f) doc ids)
    (hlayout : ∀ o, OgdfTest.new (jsonLibrary libc f) machine = .ok o → o.isValid = true →
      ∃ GA, og.layout (drawnGraph og o.G) = .ok GA) :
    ∃ o r j, OgdfTest.new (jsonLibrary libc f) machine = .ok o ∧
      processingCallback (jsonLibrary libc f) og machine = .ok r ∧
      Document libc (visible r) j ∧
      (stateIds (jsonLibrary libc f) j = .ok ids ↔
        (ids.length < 2 ∨ WithoutTransitions doc) ∨
        og.isPlanar o.G = true ∨ ids = Graph.numbering ids.length) ∧
      (o.isValid = true → ∃ GA, og.layout (drawnGraph og o.G) = .ok GA ∧
        statePositions j = .ok (readCoordinates libc GA (drawnGraph og o.G))) := by
  obtain ⟨o, hload, hnodes, hempty⟩ := hids.loads
  have ho : OgdfTest.new (jsonLibrary libc f) machine = .ok o := by
    rw [OgdfTest.new, JSONMachineToGraph, jsonLibrary_parse.mpr hdoc, ok_bind, hload]
  by_cases hv : o.isValid = true
  case neg =>
    rw [Bool.not_eq_true] at hv
    refine ⟨o, machine, doc, ho, ?_, hdoc,
      iff_of_true hids.stateIds_eq (.inl (hempty.mp hv)), by simp [hv]⟩
    rw [processingCallback, ho, ok_bind, if_neg (by simp [hv])]
    rfl
  obtain ⟨GA, hGA⟩ := hlayout o ho hv
  obtain ⟨o', ho', -, hrep⟩ := exists_graphToPlanarRep (hids.consistent (hnodes hv)) hGA
  have htext := document_of_drawn og GA hlibc hlen ho
  have hnot : ¬(ids.length < 2 ∨ WithoutTransitions doc) := by
    rw [← hempty, hv]
    simp
  refine ⟨o, _, _, ho, ?_, by rwa [visible_of_document htext], ?_,
    fun _ => ⟨GA, hGA, statePositions_reread⟩⟩
  · rw [processingCallback, ho, ok_bind, if_pos hv, ho', ok_bind, ← hrep]
    rfl
  · rw [stateIds_reread, or_iff_right hnot, Except.ok.injEq]
    exact hids.drawn_ids_iff (hnodes hv)

end Answers

end Gpd.Layout
