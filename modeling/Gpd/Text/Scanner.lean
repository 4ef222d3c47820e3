import Mathlib

/-! Scanners: deterministic automata that announce a token at some of their states. A run
reads on as long as it can and falls back to the last state with a token. -/
namespace Gpd.Text

structure Scanner (α σ τ : Type) where
  next : σ → α → Option σ
  token : σ → Option τ

namespace Scanner

variable {α σ τ : Type} (A : Scanner α σ τ)

def run (q : σ) (u : List α) : Option σ := u.foldlM A.next q

def Accepts (q : σ) (u : List α) (t : τ) : Prop := ∃ q', A.run q u = some q' ∧ A.token q' = some t

/-- The token of a state together with the input left there. -/
def mark (q : σ) (s : List α) : Option (τ × List α) := (A.token q).map fun t => (t, s)

/-- The loop of a scanner: `marker` is where it falls back to. -/
def munch : List α → σ → Option (τ × List α) → Option (τ × List α)
  | [], q, marker => (A.mark q []).or marker
  | b :: s, q, marker =>
    match A.next q b with
    | some q' => munch s q' ((A.mark q (b :: s)).or marker)
    | none => (A.mark q (b :: s)).or marker

/-- `t` is accepted in front of `rest`, and nothing longer is. -/
structure Longest (q : σ) (s : List α) (t : τ) (rest : List α) : Prop where
  accepts : ∃ u, s = u ++ rest ∧ A.Accepts q u t
  longest : ∀ u v t', s = u ++ v → A.Accepts q u t' → rest.length ≤ v.length

variable {A}

@[simp] lemma run_nil (q : σ) : A.run q [] = some q := rfl

@[simp] lemma run_cons (q : σ) (b : α) (u : List α) :
    A.run q (b :: u) = (A.next q b).bind (A.run · u) := rfl

lemma run_append (q : σ) (u v : List α) :
    A.run q (u ++ v) = (A.run q u).bind (A.run · v) := List.foldlM_append

lemma run_append_of_run {q q' : σ} {u : List α} (h : A.run q u = some q') (v : List α) :
    A.run q (u ++ v) = A.run q' v := by simp [run_append, h]

lemma accepts_nil {q : σ} {t : τ} : A.Accepts q [] t ↔ A.token q = some t := by simp [Accepts]

lemma accepts_cons {q : σ} {b : α} {u : List α} {t : τ} :
    A.Accepts q (b :: u) t ↔ ∃ q', A.next q b = some q' ∧ A.Accepts q' u t := by
  cases h : A.next q b <;> simp [Accepts, h]

lemma munch_marker (s : List α) (q : σ) (marker : Option (τ × List α)) :
    A.munch s q marker = (A.munch s q none).or marker := by
  induction s generalizing q marker with
  | nil => simp [munch]
  | cons b s ih =>
    cases h : A.next q b with
    | none => simp [munch, h]
    | some q' =>
      simp only [munch, h]
      rw [ih q' ((A.mark q (b :: s)).or marker), ih q' ((A.mark q (b :: s)).or none)]
      simp [Option.or_assoc]

lemma munch_nil (q : σ) : A.munch [] q none = A.mark q [] := by simp [munch]

lemma munch_cons (b : α) (s : List α) (q : σ) :
    A.munch (b :: s) q none =
      ((A.next q b).bind fun q' => A.munch s q' none).or (A.mark q (b :: s)) := by
  cases h : A.next q b with
  | none => simp [munch, h]
  | some q' =>
    simp only [munch, h, Option.bind_some]
    rw [munch_marker, Option.or_none]

lemma not_accepts_of_munch {s : List α} {q : σ} (h : A.munch s q none = none) (u v : List α)
    (t : τ) (hs : s = u ++ v) : ¬A.Accepts q u t := by
  induction s generalizing q u with
  | nil =>
    obtain ⟨rfl, -⟩ := List.append_eq_nil_iff.mp hs.symm
    rw [munch_nil, mark, Option.map_eq_none_iff] at h
    rw [accepts_nil, h]
    simp
  | cons b s ih =>
    rw [munch_cons, Option.or_eq_none_iff, mark, Option.map_eq_none_iff] at h
    cases u with
    | nil =>
      rw [accepts_nil, h.2]
      simp
    | cons a u =>
      obtain ⟨rfl, htail⟩ := List.cons.inj hs
      rw [accepts_cons]
      rintro ⟨q', hq', ht⟩
      have hnone := h.1
      rw [hq', Option.bind_some] at hnone
      exact ih hnone u htail ht

lemma longest_of_munch {s : List α} {q : σ} {t : τ} {rest : List α}
    (h : A.munch s q none = some (t, rest)) : A.Longest q s t rest := by
  induction s generalizing q with
  | nil =>
    obtain ⟨t', ht, he⟩ := Option.map_eq_some_iff.mp (munch_nil q ▸ h)
    obtain ⟨rfl, rfl⟩ := Prod.mk.inj he
    exact ⟨⟨[], rfl, accepts_nil.mpr ht⟩, fun u v t' hs hu => by simp⟩
  | cons b s ih =>
    rw [munch_cons] at h
    rcases Option.or_eq_some_iff.mp h with h | ⟨hnone, h⟩
    · obtain ⟨q', hq', hm⟩ := Option.bind_eq_some_iff.mp h
      obtain ⟨⟨u, rfl, hu⟩, hlongest⟩ := ih hm
      refine ⟨⟨b :: u, rfl, accepts_cons.mpr ⟨q', hq', hu⟩⟩, fun u' v t' hs hu' => ?_⟩
      cases u' with
      | nil =>
        have hlen := congrArg List.length hs
        simp only [List.nil_append, List.length_cons, List.length_append] at hlen
        omega
      | cons a u' =>
        obtain ⟨rfl, htail⟩ := List.cons.inj hs
        obtain ⟨q₁, hq₁, hu'⟩ := accepts_cons.mp hu'
        obtain rfl := Option.some.inj (hq'.symm.trans hq₁)
        exact hlongest u' v t' htail hu'
    · obtain ⟨t', ht, he⟩ := Option.map_eq_some_iff.mp h
      obtain ⟨rfl, rfl⟩ := Prod.mk.inj he
      refine ⟨⟨[], rfl, accepts_nil.mpr ht⟩, fun u v t'' hs hu => ?_⟩
      cases u with
      | nil =>
        rw [List.nil_append] at hs
        rw [hs]
      | cons a u =>
        obtain ⟨rfl, htail⟩ := List.cons.inj hs
        obtain ⟨q', hq', hu⟩ := accepts_cons.mp hu
        rw [hq', Option.bind_some] at hnone
        exact absurd hu (not_accepts_of_munch hnone u v t'' htail)

lemma Longest.unique {q : σ} {s : List α} {t t' : τ} {rest rest' : List α}
    (h : A.Longest q s t rest) (h' : A.Longest q s t' rest') : t = t' ∧ rest = rest' := by
  obtain ⟨⟨u, rfl, q₁, hq₁, ht⟩, hlongest⟩ := h
  obtain ⟨⟨u', hs, q₂, hq₂, ht'⟩, hlongest'⟩ := h'
  have hle := hlongest u' rest' t' hs ⟨q₂, hq₂, ht'⟩
  have hge := hlongest' u rest t rfl ⟨q₁, hq₁, ht⟩
  obtain ⟨rfl, rfl⟩ := List.append_inj' hs (by omega)
  obtain rfl := Option.some.inj (hq₁.symm.trans hq₂)
  exact ⟨Option.some.inj (ht.symm.trans ht'), rfl⟩

/-- The loop finds the longest accepted word. -/
theorem munch_eq_some_iff {s : List α} {q : σ} {t : τ} {rest : List α} :
    A.munch s q none = some (t, rest) ↔ A.Longest q s t rest := by
  refine ⟨longest_of_munch, fun h => ?_⟩
  obtain ⟨u, hs, hu⟩ := h.accepts
  cases hm : A.munch s q none with
  | none => exact absurd hu (not_accepts_of_munch hm u rest t hs)
  | some r =>
    obtain ⟨rfl, rfl⟩ := (longest_of_munch hm).unique h
    rfl

theorem munch_append {q q' : σ} {u rest : List α} {t : τ} (h : A.run q u = some q')
    (ht : A.token q' = some t) (hstop : ∀ b ∈ rest.head?, A.next q' b = none) :
    A.munch (u ++ rest) q none = some (t, rest) := by
  refine munch_eq_some_iff.mpr ⟨⟨u, rfl, q', h, ht⟩, fun u' v t' hs hu' => ?_⟩
  by_contra hlt
  obtain ⟨w, rfl, rfl⟩ | ⟨w, rfl, rfl⟩ := List.append_eq_append_iff.mp hs
  · cases w with
    | nil => simp at hlt
    | cons b w =>
      obtain ⟨q₁, hq₁, -⟩ := hu'
      rw [run_append_of_run h, run_cons, hstop b (by simp)] at hq₁
      cases hq₁
  · simp at hlt

end Scanner

end Gpd.Text
