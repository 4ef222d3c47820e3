import Gpd.Jsonparser.Grammar

/-! How many elements the value of a text can have: no more than the text has characters. -/
namespace Gpd.Jsonparser
open Text Cxx

variable {libc : Libc}

lemma Value.length_pos {u : Bytes} {j : Json} (h : Value libc u j) : 1 ≤ u.length := by
  obtain ⟨b, s, rfl, -⟩ := h.exists_cons
  exact Nat.le_add_left 1 s.length

theorem Elements.length_le {e : Bytes} {js : List Json} (h : Elements libc e js) :
    js.length ≤ e.length := by
  cases h with
  | @last w u j hw hu =>
    have hpos := hu.length_pos
    simp only [List.length_cons, List.length_append, List.length_nil]
    omega
  | @cons w u w' e j js hw hu hw' he =>
    have hle := he.length_le
    simp only [List.length_cons, List.length_append]
    omega
termination_by e.length
decreasing_by simp only [List.length_cons, List.length_append]; omega

theorem Members.exists_value {m : Bytes} {ms : List (Bytes × Json)} (h : Members libc m ms) :
    ms.length ≤ m.length ∧ ∀ a ∈ ms, ∃ u, Value libc u a.2 ∧ u.length ≤ m.length := by
  cases h with
  | @last w w₁ w₂ u cs k j hw hk hw₁ hw₂ hu =>
    refine ⟨by simp only [List.length_cons, List.length_append, List.length_nil]; omega, ?_⟩
    intro a ha
    obtain rfl := List.mem_singleton.mp ha
    exact ⟨u, hu, by simp only [List.length_cons, List.length_append]; omega⟩
  | @cons w w₁ w₂ u w₃ m cs k j ms hw hk hw₁ hw₂ hu hw₃ hm =>
    obtain ⟨hle, hms⟩ := hm.exists_value
    refine ⟨by simp only [List.length_cons, List.length_append]; omega, ?_⟩
    intro a ha
    rcases List.mem_cons.mp ha with rfl | ha
    · exact ⟨u, hu, by simp only [List.length_cons, List.length_append]; omega⟩
    · obtain ⟨v, hv, hlen⟩ := hms a ha
      exact ⟨v, hv, by simp only [List.length_cons, List.length_append]; omega⟩
termination_by m.length
decreasing_by simp only [List.length_cons, List.length_append]; omega

/-- A value has no more elements than its text has characters. -/
theorem Value.elements_le {u : Bytes} {j : Json} (h : Value libc u j) :
    j.elements.length ≤ u.length := by
  have hpos := h.length_pos
  cases h with
  | null | emptyArray | emptyObject => exact Nat.zero_le _
  | number n =>
    unfold NumberText.value floatValue
    split_ifs
    · exact hpos
    · exact hpos
    · cases strtonum libc n.text with
      | finite x => exact hpos
      | infinity => exact Nat.zero_le _
      | nan => exact Nat.zero_le _
  | array he hw =>
    have hle := he.length_le
    simp only [Json.elements, List.length_cons, List.length_append]
    omega
  | @object m w ms hm hw =>
    have hle := hm.exists_value.1
    have hkept := Map.length_ofEntries_le ms
    simp only [Json.elements, List.length_map, List.length_cons, List.length_append]
    omega
  | _ => exact hpos

lemma Value.exists_member {u : Bytes} {ms : List (Bytes × Json)} {a : Bytes × Json}
    (h : Value libc u (.object ms)) (ha : a ∈ ms) :
    ∃ v, Value libc v a.2 ∧ v.length ≤ u.length := by
  generalize hj : Json.object ms = j at h
  cases h with
  | emptyObject =>
    obtain rfl := Json.object.inj hj
    simp at ha
  | @object m w es hm hw =>
    obtain rfl := Json.object.inj hj
    obtain ⟨v, hv, hlen⟩ := hm.exists_value.2 a (Map.mem_of_mem_ofEntries ha)
    exact ⟨v, hv, by simp only [List.length_cons, List.length_append]; omega⟩
  | number n =>
    unfold NumberText.value floatValue at hj
    split_ifs at hj
    cases hd : strtonum libc n.text <;> rw [hd] at hj <;> cases hj
  | _ => cases hj

lemma Value.member_elements_le {u key : Bytes} {j j' : Json} (h : Value libc u j)
    (hj' : j.member key = .ok j') : j'.elements.length ≤ u.length := by
  cases j with
  | null =>
    obtain rfl := Except.ok.inj hj'
    exact Nat.zero_le _
  | object ms =>
    obtain rfl := Except.ok.inj hj'
    cases hl : ms.lookup key with
    | none => exact Nat.zero_le _
    | some v =>
      obtain ⟨l₁, l₂, rfl, -⟩ := List.lookup_eq_some_iff.mp hl
      obtain ⟨v', hv', hlen⟩ := h.exists_member (a := (key, v)) (by simp)
      exact hv'.elements_le.trans hlen
  | _ => cases hj'

end Gpd.Jsonparser
