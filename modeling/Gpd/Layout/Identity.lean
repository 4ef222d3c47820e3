import Gpd.Layout.Connections

/-! When the index of every node is the id of its state. -/
namespace Gpd.Layout
open Cxx Ogdf Machine

variable {js : JsonLibrary} {doc : Json} {o : OgdfTest}

/-- The integer that a number denotes, in any of its representations. -/
def integer? : Json → Option ℤ
  | .numberInteger n => some n
  | .numberUnsigned n => some n
  | .numberFloat x => if x.value.den = 1 then some x.value.num else none
  | _ => none

def idOf? (state : Json) : Option ℤ := (state.member (ascii "id")).toOption.bind integer?

lemma toInt_of_integer? {j : Json} {i : ℤ} (hj : integer? j = some i) (h0 : 0 ≤ i)
    (hi : i < 2 ^ 30) : j.toInt js = .ok i := by
  cases j with
  | numberInteger n =>
    obtain rfl := Option.some.inj hj
    rw [Json.toInt, bmod_of_range h0 hi.le]
  | numberUnsigned n =>
    obtain rfl := Option.some.inj hj
    rw [Json.toInt, bmod_of_range h0 hi.le]
  | numberFloat x =>
    have hden : x.value.den = 1 := by
      by_contra hne
      simp [integer?, hne] at hj
    have hnum : x.value.num = i := by simpa [integer?, hden] using hj
    have hx : x.value = i := by rw [← hnum, Rat.coe_int_num_of_den_eq_one hden]
    have hrange : (-2147483649 : ℚ) < i ∧ (i : ℚ) < 2147483648 := by
      constructor <;> norm_cast <;> omega
    rw [Json.toInt, hx, if_pos hrange, Json.truncate, Int.floor_intCast, Int.ceil_intCast, ite_self]
  | _ => cases hj

/-- Every node stands for the id of its state, and no two for the same one. -/
structure IdentitySound (doc : Json) (g : Graph) : Prop where
  distinct : g.nodes.Nodup
  ids : ∃ ss, doc.member (ascii "states") = .ok ss ∧
    List.Forall₂ (fun s i => idOf? s = some i) ss.elements g.nodes
  range : ∀ i ∈ g.nodes, 0 ≤ i ∧ i < 2 ^ 30

/-- The ids of the states are integers below `2 ^ 30`, and no two are the same. -/
structure ProperIds (states : List Json) : Prop where
  range : ∀ s ∈ states, ∃ i ∈ idOf? s, 0 ≤ i ∧ i < 2 ^ 30
  distinct : states.Pairwise fun s s' => idOf? s ≠ idOf? s'

lemma stateId_of_idOf? {s : Json} {i : ℤ} (hs : idOf? s = some i) (h0 : 0 ≤ i)
    (hi : i < 2 ^ 30) : stateId js s = .ok i := by
  unfold idOf? at hs
  cases hm : s.member (ascii "id") with
  | error e => simp [hm, Except.toOption] at hs
  | ok j =>
    have hj : integer? j = some i := by simpa [hm, Except.toOption] using hs
    rw [stateId, hm, ok_bind, toInt_of_integer? hj h0 hi]

lemma map_idOf?_of_forall₂ {states : List Json} {ids : List ℤ} :
    List.Forall₂ (fun s i => idOf? s = some i) states ids ↔
      states.map idOf? = ids.map some := by
  rw [← List.forall₂_eq_eq_eq, List.forall₂_map_left_iff, List.forall₂_map_right_iff]

lemma ProperIds.read {states : List Json} (h : ProperIds states) {ids : List ℤ}
    (hids : List.Forall₂ (fun s i => stateId js s = .ok i) states ids) :
    List.Forall₂ (fun s i => idOf? s = some i) states ids := by
  have hrange := h.range
  clear h
  induction hids with
  | nil => exact .nil
  | @cons s i states ids hi _ ih =>
    obtain ⟨⟨i', hs, h0, hlt⟩, hrest⟩ := List.forall_mem_cons.mp hrange
    obtain rfl := Except.ok.inj ((stateId_of_idOf? hs h0 hlt).symm.trans hi)
    exact .cons hs (ih hrest)

/-- The nodes of a loaded graph stand for the ids of the states exactly when these are
integers below `2 ^ 30`, no two of them the same: nothing else is checked. -/
theorem identity_sound_iff {states : Json} (hload : documentToGraph js OgdfTest.initial doc = .ok o)
    (hvalid : o.isValid = true) (hstates : doc.member (ascii "states") = .ok states) :
    IdentitySound doc o.G ↔ ProperIds states.elements := by
  obtain ⟨ids, hids, hnodes⟩ : ∃ ids, states.elements.mapM (stateId js) = .ok ids ∧
      o.G.nodes = ids := by
    cases documentToGraph_eq_ok.mp hload with
    | fewStates | noTransitions => simp [OgdfTest.isValid] at hvalid
    | loaded hs _ hids =>
      obtain rfl := Except.ok.inj (hs.symm.trans hstates)
      exact ⟨_, hids, rfl⟩
  rw [mapM_eq_ok_iff] at hids
  constructor
  · rintro ⟨hdistinct, ⟨ss, hss, hread⟩, hrange⟩
    obtain rfl := Except.ok.inj (hstates.symm.trans hss)
    rw [map_idOf?_of_forall₂] at hread
    constructor
    · intro s hs
      have hmem : idOf? s ∈ o.G.nodes.map some := hread ▸ List.mem_map_of_mem hs
      obtain ⟨i, hi, he⟩ := List.mem_map.mp hmem
      exact ⟨i, he.symm, hrange i hi⟩
    · have hnodup : (states.elements.map idOf?).Nodup := by
        rw [hread]
        exact hdistinct.map (Option.some_injective ℤ)
      exact List.pairwise_map.mp hnodup
  · intro h
    have hread := h.read hids
    rw [← hnodes] at hread
    have hmap := map_idOf?_of_forall₂.mp hread
    refine ⟨?_, ⟨states, hstates, hread⟩, fun i hi => ?_⟩
    · have hnodup : (o.G.nodes.map some).Nodup := by
        rw [← hmap]
        exact List.pairwise_map.mpr h.distinct
      exact hnodup.of_map
    · have hmem : some i ∈ states.elements.map idOf? := hmap ▸ List.mem_map_of_mem hi
      obtain ⟨s, hs, he⟩ := List.mem_map.mp hmem
      obtain ⟨i', he', hi'⟩ := h.range s hs
      rw [he] at he'
      obtain rfl := Option.some.inj he'
      exact hi'

theorem identity_sound_iff_three_states :
    IdentitySound sampleMachine ⟨[1, 2, 3], [(1, 0), (0, 2)]⟩ := by
  have hload : documentToGraph (sampleLibrary [] .null) OgdfTest.initial sampleMachine =
      .ok { OgdfTest.initial with G := ⟨[1, 2, 3], [(1, 0), (0, 2)]⟩ } := rfl
  exact (identity_sound_iff hload rfl rfl).mpr ⟨by decide, by decide⟩

/-- Two states whose ids differ by `2 ^ 32` are loaded with the same index. -/
theorem identity_not_sound :
    ¬∀ (js : JsonLibrary) (doc : Json) (o : OgdfTest),
      documentToGraph js OgdfTest.initial doc = .ok o → o.isValid = true →
      IdentitySound doc o.G := by
  intro h
  have hload : documentToGraph (sampleLibrary [] .null) OgdfTest.initial
      (typedDocument [1, 4294967297] [(1, 4294967297, 0)]) =
      .ok { OgdfTest.initial with G := ⟨[1, 1], [(0, 0)]⟩ } := rfl
  exact absurd (h _ _ _ hload rfl).distinct (by decide)

end Gpd.Layout
