import Mathlib

/-! A text that arrives in parts is accumulated, and after each part it is handed
over if it is due. The receiver may fail, which ends the run. -/
namespace Gpd.Machine

variable {α : Type*} (due accepts : List α → Prop) [DecidablePred due] [DecidablePred accepts]

/-- The texts handed over, in order. -/
def handovers : List α → List (List α) → List (List α)
  | _, [] => []
  | acc, p :: ps =>
    if due (acc ++ p) then
      (acc ++ p) :: if accepts (acc ++ p) then handovers (acc ++ p) ps else []
    else handovers (acc ++ p) ps

theorem exists_cut_of_mem_handovers {acc x : List α} {ps : List (List α)}
    (hx : x ∈ handovers due accepts acc ps) :
    ∃ q, q <+: ps ∧ q ≠ [] ∧ x = acc ++ q.flatten ∧ due x := by
  induction ps generalizing acc with
  | nil => simp [handovers] at hx
  | cons p ps ih =>
    have step : x ∈ handovers due accepts (acc ++ p) ps →
        ∃ q, q <+: p :: ps ∧ q ≠ [] ∧ x = acc ++ q.flatten ∧ due x := by
      intro h
      obtain ⟨q, hq, _, hxq, hd⟩ := ih h
      exact ⟨p :: q, by simpa using hq, by simp, by simp [hxq], hd⟩
    unfold handovers at hx
    split_ifs at hx with hd ha
    · rcases List.mem_cons.mp hx with rfl | hx
      · exact ⟨[p], by simp, by simp, by simp, hd⟩
      · exact step hx
    · obtain rfl := List.mem_singleton.mp hx
      exact ⟨[p], by simp, by simp, by simp, hd⟩
    · exact step hx

/-- Only the complete text is handed over exactly when no proper cut is due. -/
theorem handovers_eq_all_iff (acc : List α) (ps : List (List α)) :
    (∀ x ∈ handovers due accepts acc ps, x = acc ++ ps.flatten) ↔
      ∀ q, q <+: ps → q ≠ [] → q.flatten.length < ps.flatten.length →
        ¬due (acc ++ q.flatten) := by
  constructor
  · induction ps generalizing acc with
    | nil =>
      intro _ q hq hne
      exact absurd (List.prefix_nil.mp hq) hne
    | cons p ps ih =>
      intro h q hq hne hlt
      obtain ⟨r, rfl, hr⟩ : ∃ r, q = p :: r ∧ r <+: ps := by
        cases q with
        | nil => exact absurd rfl hne
        | cons a r =>
          obtain ⟨rfl, hr⟩ := List.cons_prefix_cons.mp hq
          exact ⟨r, rfl, hr⟩
      unfold handovers at h
      by_cases hd : due (acc ++ p)
      · -- the first due text is the whole text, so no later part adds anything
        have hwhole := h (acc ++ p) (by simp [hd])
        have hnil : ps.flatten = [] := by simpa using hwhole
        have hle := hr.flatten.length_le
        simp only [List.flatten_cons, List.length_append, hnil, List.length_nil] at hlt hle
        omega
      · rw [if_neg hd] at h
        have hrec := ih (acc ++ p) (by simpa using h) r hr
        cases r with
        | nil => simpa using hd
        | cons a r => simpa using hrec (by simp) (by simpa using hlt)
  · intro h x hx
    obtain ⟨q, hq, hne, rfl, hd⟩ := exists_cut_of_mem_handovers due accepts hx
    have hpre := hq.flatten
    by_cases hlt : q.flatten.length < ps.flatten.length
    · exact absurd hd (h q hq hne hlt)
    · rw [hpre.eq_of_length_le (by omega)]

/-- A text that is due at its end and at no proper cut is handed over once. -/
theorem handovers_eq_singleton {acc : List α} {ps : List (List α)} (hne : ps ≠ [])
    (hparts : ∀ p ∈ ps, p ≠ []) (hend : due (acc ++ ps.flatten))
    (hcut : ∀ q, q <+: ps → q ≠ [] → q.flatten.length < ps.flatten.length →
      ¬due (acc ++ q.flatten)) :
    handovers due accepts acc ps = [acc ++ ps.flatten] := by
  induction ps generalizing acc with
  | nil => exact absurd rfl hne
  | cons p ps ih =>
    cases ps with
    | nil =>
      have hp : due (acc ++ p) := by simpa using hend
      simp [handovers, hp]
    | cons p' ps =>
      have hpos := List.length_pos_iff.mpr (hparts p' (by simp))
      have hp : ¬due (acc ++ p) := by
        have hshort := hcut [p] (by simp) (by simp)
          (by
            simp only [List.flatten_cons, List.flatten_nil, List.length_append, List.length_nil]
            omega)
        simpa using hshort
      rw [handovers, if_neg hp, ih (by simp) (fun q hq => hparts q (by simp [hq]))
        (by simpa using hend)]
      · simp
      · intro q hq hqne hlt
        have hcons := hcut (p :: q) (by simpa using hq) (by simp)
          (by
            rw [List.flatten_cons, List.flatten_cons, List.length_append, List.length_append]
            omega)
        simpa using hcons

end Gpd.Machine
