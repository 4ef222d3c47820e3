import Mathlib

/-! First occurrence of a pattern in a list over an arbitrary alphabet. Positions
are offsets from the left; a found position is stable under appending text, and
cutting the text inside the found occurrence removes it. -/
namespace Gpd.Text

variable {α : Type*}

/-- The pattern stands in the text at the offset. -/
def OccursAt (pat s : List α) (i : ℕ) : Prop := ∃ u v, s = u ++ pat ++ v ∧ u.length = i

lemma OccursAt.length_le {pat s : List α} {i : ℕ} (h : OccursAt pat s i) :
    i + pat.length ≤ s.length := by
  obtain ⟨u, v, rfl, rfl⟩ := h
  simp

lemma OccursAt.append {pat s : List α} {i : ℕ} (h : OccursAt pat s i) (t : List α) :
    OccursAt pat (s ++ t) i := by
  obtain ⟨u, v, rfl, hi⟩ := h
  exact ⟨u, v ++ t, by simp, hi⟩

lemma OccursAt.of_append {pat s t : List α} {i : ℕ} (h : OccursAt pat (s ++ t) i)
    (hi : i + pat.length ≤ s.length) : OccursAt pat s i := by
  obtain ⟨u, v, he, rfl⟩ := h
  obtain ⟨w, hw⟩ : u ++ pat <+: s :=
    List.prefix_of_prefix_length_le ⟨v, he.symm⟩ (List.prefix_append s t) (by simpa using hi)
  exact ⟨u, w, hw.symm, rfl⟩

lemma occursAt_zero {pat s : List α} : OccursAt pat s 0 ↔ pat <+: s := by
  constructor
  · rintro ⟨u, v, rfl, hu⟩
    obtain rfl := List.length_eq_zero_iff.mp hu
    exact ⟨v, by simp⟩
  · rintro ⟨v, rfl⟩
    exact ⟨[], v, by simp, rfl⟩

lemma OccursAt.take_drop {pat s : List α} {i : ℕ} (h : OccursAt pat s i) :
    (s.drop i).take pat.length = pat := by
  obtain ⟨u, v, rfl, rfl⟩ := h
  simp

lemma occursAt_iff {pat s : List α} {i : ℕ} :
    OccursAt pat s i ↔ i + pat.length ≤ s.length ∧ (s.drop i).take pat.length = pat := by
  refine ⟨fun h => ⟨h.length_le, h.take_drop⟩, fun ⟨hle, he⟩ => ?_⟩
  refine ⟨s.take i, (s.drop i).drop pat.length, ?_, by simp; omega⟩
  calc s = s.take i ++ ((s.drop i).take pat.length ++ (s.drop i).drop pat.length) := by
        rw [List.take_append_drop, List.take_append_drop]
    _ = s.take i ++ pat ++ (s.drop i).drop pat.length := by rw [he, List.append_assoc]

lemma occursAt_unique {pat s : List α} {k : ℕ} (h : ∀ i < s.length + 1, OccursAt pat s i → i = k)
    (i j : ℕ) (hi : OccursAt pat s i) (hj : OccursAt pat s j) : i = j := by
  have hlen : ∀ l, OccursAt pat s l → l < s.length + 1 := fun l hl => by
    have := hl.length_le
    omega
  rw [h i (hlen i hi) hi, h j (hlen j hj) hj]

lemma occursAt_drop_iff {pat s : List α} {i j : ℕ} (hi : i ≤ s.length) :
    OccursAt pat (s.drop i) j ↔ OccursAt pat s (i + j) := by
  rw [occursAt_iff, occursAt_iff, List.drop_drop, List.length_drop]
  apply and_congr_left'
  omega

lemma occursAt_append_iff {a : α} {pat u s : List α} (ha : a ∉ u) {k : ℕ} :
    OccursAt (a :: pat) (u ++ s) k ↔ ∃ j, OccursAt (a :: pat) s j ∧ u.length + j = k := by
  constructor
  · rintro ⟨w, v, he, rfl⟩
    rw [List.append_assoc, List.append_eq_append_iff] at he
    rcases he with ⟨x, rfl, hs⟩ | ⟨x, rfl, hx⟩
    · exact ⟨x.length, ⟨x, v, by simpa using hs, rfl⟩, by simp⟩
    · cases x with
      | nil => exact ⟨0, ⟨[], v, by simpa using hx.symm, rfl⟩, by simp⟩
      | cons b x =>
        simp only [List.cons_append, List.cons.injEq] at hx
        exact absurd (by simp [← hx.1]) ha
  · rintro ⟨j, ⟨w, v, rfl, rfl⟩, rfl⟩
    exact ⟨u ++ w, v, by simp, by simp⟩

lemma occursAt_append_cons_iff {c : α} {pat x y : List α} (hc : c ∉ pat) (hne : pat ≠ []) {k : ℕ} :
    OccursAt pat (x ++ c :: y) k ↔
      OccursAt pat x k ∨ ∃ j, OccursAt pat y j ∧ x.length + 1 + j = k := by
  constructor
  · intro h
    by_cases hleft : k + pat.length ≤ x.length
    · exact .inl (h.of_append hleft)
    · obtain ⟨u, v, he, rfl⟩ := h
      rw [List.append_assoc, List.append_eq_append_iff] at he
      rcases he with ⟨w, rfl, hw⟩ | ⟨w, rfl, hw⟩
      · cases w with
        | nil =>
          obtain ⟨a, p, rfl⟩ := List.exists_cons_of_ne_nil hne
          exact absurd (by simp [(List.cons.inj hw).1]) hc
        | cons b w =>
          obtain ⟨rfl, rfl⟩ := List.cons.inj hw
          exact .inr ⟨w.length, ⟨w, v, by simp, rfl⟩, by simp; omega⟩
      · -- the occurrence begins in front of the letter and ends behind it
        simp only [List.length_append] at hleft
        have hget := congrArg (fun s : List α => s[w.length]?) hw
        have hlt : w.length < pat.length := by omega
        simp only [List.getElem?_append_left hlt, List.getElem?_append_right le_rfl, Nat.sub_self,
          List.getElem?_cons_zero] at hget
        exact absurd (List.mem_of_getElem? hget) hc
  · rintro (h | ⟨j, ⟨u, v, rfl, rfl⟩, rfl⟩)
    · exact h.append _
    · exact ⟨x ++ c :: u, v, by simp, by simp; omega⟩

section Position

variable [DecidableEq α]

instance (pat s : List α) (i : ℕ) : Decidable (OccursAt pat s i) :=
  decidable_of_iff _ occursAt_iff.symm

def position (pat s : List α) : Option ℕ := (s.dropInfix? pat).map fun r => r.1.length

theorem position_eq_some {pat s : List α} {i : ℕ} :
    position pat s = some i ↔ OccursAt pat s i ∧ ∀ j, OccursAt pat s j → i ≤ j := by
  simp only [position, Option.map_eq_some_iff, Prod.exists, List.dropInfix?_eq_some_iff,
    beq_iff_eq]
  constructor
  · rintro ⟨u, v, ⟨⟨pat', hs, rfl⟩, hmin⟩, rfl⟩
    refine ⟨⟨u, v, hs, rfl⟩, ?_⟩
    rintro j ⟨u', v', hs', rfl⟩
    exact hmin u' pat' v' hs' rfl
  · rintro ⟨⟨u, v, hs, rfl⟩, hmin⟩
    refine ⟨u, v, ⟨⟨pat, hs, rfl⟩, ?_⟩, rfl⟩
    rintro u' pat' v' hs' rfl
    exact hmin _ ⟨u', v', hs', rfl⟩

theorem exists_position {pat s : List α} {j : ℕ} (h : OccursAt pat s j) :
    ∃ i ≤ j, position pat s = some i := by
  classical
  have hex : ∃ k, OccursAt pat s k := ⟨j, h⟩
  exact ⟨Nat.find hex, Nat.find_min' hex h,
    position_eq_some.mpr ⟨Nat.find_spec hex, fun k hk => Nat.find_min' hex hk⟩⟩

theorem position_eq_none {pat s : List α} :
    position pat s = none ↔ ∀ i, ¬OccursAt pat s i := by
  constructor
  · intro h i hi
    obtain ⟨k, _, hk⟩ := exists_position hi
    simp [h] at hk
  · intro h
    cases hp : position pat s with
    | none => rfl
    | some i => exact absurd (position_eq_some.mp hp).1 (h i)

theorem position_eq_zero {pat s : List α} : position pat s = some 0 ↔ pat <+: s := by
  simp [position_eq_some, occursAt_zero]

lemma position_length_le {pat s : List α} {i : ℕ} (h : position pat s = some i) :
    i + pat.length ≤ s.length :=
  (position_eq_some.mp h).1.length_le

/-- Text appended after a found occurrence does not move it. -/
theorem position_append {pat s : List α} {i : ℕ} (h : position pat s = some i)
    (t : List α) : position pat (s ++ t) = some i := by
  obtain ⟨ho, hmin⟩ := position_eq_some.mp h
  refine position_eq_some.mpr ⟨ho.append t, fun j hj => ?_⟩
  by_contra! hlt
  have hle := ho.length_le
  exact absurd (hmin j (hj.of_append (by omega))) (by omega)

theorem position_eq_none_of_begins {pat s p : List α} {i : ℕ}
    (h : position pat s = some i) (hp : p <+: s) (hlt : p.length < i + pat.length) :
    position pat p = none := by
  obtain ⟨t, rfl⟩ := hp
  apply position_eq_none.mpr
  intro j hj
  have := (position_eq_some.mp h).2 j (hj.append t)
  have := hj.length_le
  omega

theorem position_of_begins {pat s p : List α} {i : ℕ}
    (h : position pat s = some i) (hp : p <+: s) (hle : i + pat.length ≤ p.length) :
    position pat p = some i := by
  obtain ⟨t, rfl⟩ := hp
  obtain ⟨ho, hmin⟩ := position_eq_some.mp h
  exact position_eq_some.mpr ⟨ho.of_append hle, fun j hj => hmin j (hj.append t)⟩

theorem position_append_of_not_mem {a : α} {pat u : List α} (ha : a ∉ u) (s : List α) :
    position (a :: pat) (u ++ s) = (position (a :: pat) s).map (u.length + ·) := by
  cases h : position (a :: pat) s with
  | none =>
    apply position_eq_none.mpr
    intro k hk
    obtain ⟨j, hj, _⟩ := (occursAt_append_iff ha).mp hk
    exact position_eq_none.mp h j hj
  | some i =>
    obtain ⟨ho, hmin⟩ := position_eq_some.mp h
    refine position_eq_some.mpr ⟨(occursAt_append_iff ha).mpr ⟨i, ho, rfl⟩, fun k hk => ?_⟩
    obtain ⟨j, hj, rfl⟩ := (occursAt_append_iff ha).mp hk
    exact Nat.add_le_add_left (hmin j hj) _

theorem position_append_cons {c : α} {pat : List α} (hc : c ∉ pat) (hne : pat ≠ []) (x y : List α) :
    position pat (x ++ c :: y) =
      (position pat x).or ((position pat y).map (x.length + 1 + ·)) := by
  cases hx : position pat x with
  | some i => exact position_append hx _
  | none =>
    rw [Option.none_or]
    have hnone := position_eq_none.mp hx
    cases hy : position pat y with
    | none =>
      refine position_eq_none.mpr fun k hk => ?_
      rcases (occursAt_append_cons_iff hc hne).mp hk with h | ⟨j, hj, -⟩
      · exact hnone k h
      · exact position_eq_none.mp hy j hj
    | some i =>
      obtain ⟨ho, hmin⟩ := position_eq_some.mp hy
      refine position_eq_some.mpr
        ⟨(occursAt_append_cons_iff hc hne).mpr (.inr ⟨i, ho, rfl⟩), fun k hk => ?_⟩
      rcases (occursAt_append_cons_iff hc hne).mp hk with h | ⟨j, hj, rfl⟩
      · exact absurd h (hnone k)
      · exact Nat.add_le_add_left (hmin j hj) _

theorem position_cons (pat : List α) (b : α) (s : List α) :
    position pat (b :: s) =
      if pat <+: b :: s then some 0 else (position pat s).map (1 + ·) := by
  split_ifs with h
  · exact position_eq_zero.mpr h
  have hshift : ∀ {k}, OccursAt pat (b :: s) k ↔ ∃ j, OccursAt pat s j ∧ 1 + j = k := by
    intro k
    constructor
    · rintro ⟨u, v, he, rfl⟩
      cases u with
      | nil => exact absurd ⟨v, he.symm⟩ h
      | cons c u =>
        obtain ⟨rfl, rfl⟩ := List.cons.inj he
        exact ⟨u.length, ⟨u, v, rfl, rfl⟩, by simp [Nat.add_comm]⟩
    · rintro ⟨j, ⟨u, v, rfl, rfl⟩, rfl⟩
      exact ⟨b :: u, v, rfl, by simp [Nat.add_comm]⟩
  cases hp : position pat s with
  | none =>
    apply position_eq_none.mpr
    intro k hk
    obtain ⟨j, hj, _⟩ := hshift.mp hk
    exact position_eq_none.mp hp j hj
  | some i =>
    obtain ⟨ho, hmin⟩ := position_eq_some.mp hp
    refine position_eq_some.mpr ⟨hshift.mpr ⟨i, ho, rfl⟩, fun k hk => ?_⟩
    obtain ⟨j, hj, rfl⟩ := hshift.mp hk
    exact Nat.add_le_add_left (hmin j hj) _

end Position

end Gpd.Text
