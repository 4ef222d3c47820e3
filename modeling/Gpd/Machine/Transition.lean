import Mathlib

/-! Transition systems with steps that may be disabled: runs, the states reached by
steps that all meet a condition, and the rule for invariants. -/
namespace Gpd.Machine

variable {σ ε : Type*} {step : σ → ε → Option σ} {ok : σ → ε → Prop} {s t : σ}

/-- States reached from `s` by steps that all meet `ok` where they are taken. -/
inductive Reachable (step : σ → ε → Option σ) (ok : σ → ε → Prop) (s : σ) : σ → Prop
  | refl : Reachable step ok s s
  | tail {t u : σ} {e : ε} (h : Reachable step ok s t) (hok : ok t e)
      (he : step t e = some u) : Reachable step ok s u

namespace Reachable

/-- What holds at the start and is kept by every step that meets the condition. -/
theorem invariant {I : σ → Prop} (h : Reachable step ok s t) (h0 : I s)
    (hstep : ∀ t e u, I t → ok t e → step t e = some u → I u) : I t := by
  induction h with
  | refl => exact h0
  | tail _ hok he ih => exact hstep _ _ _ ih hok he

end Reachable

/-- Perform the events in order; no result when one of them is disabled. -/
def run (step : σ → ε → Option σ) : List ε → σ → Option σ
  | [], s => some s
  | e :: es, s => (step s e).bind (run step es)

/-- Every event of a run meets the condition where it is performed. -/
def Guarded (step : σ → ε → Option σ) (ok : σ → ε → Prop) : List ε → σ → Prop
  | [], _ => True
  | e :: es, s => ok s e ∧ ∀ t, step s e = some t → Guarded step ok es t

lemma Guarded.cons {e : ε} {es : List ε} (hok : ok s e) (he : step s e = some t)
    (h : Guarded step ok es t) : Guarded step ok (e :: es) s :=
  ⟨hok, fun _ hu => Option.some.inj (he.symm.trans hu) ▸ h⟩

/-- The state after a run whose events all meet the condition is reached by such steps. -/
theorem Reachable.of_guarded {es : List ε} {u : σ} (h : Reachable step ok s t)
    (hrun : run step es t = some u) (hok : Guarded step ok es t) : Reachable step ok s u := by
  induction es generalizing t with
  | nil =>
    obtain rfl := Option.some.inj hrun
    exact h
  | cons e es ih =>
    obtain ⟨t', he, hes⟩ := Option.bind_eq_some_iff.mp hrun
    exact ih (h.tail hok.1 he) hes (hok.2 t' he)

/-- If only live states perform events, and an event leaves the state alive exactly when it
meets the condition, then a run ends alive exactly when all its events meet the condition. -/
theorem alive_iff_guarded (alive I : σ → Prop) (hlive : ∀ s e t, step s e = some t → alive s)
    (hI : ∀ s e t, I s → step s e = some t → I t)
    (hok : ∀ s e t, I s → step s e = some t → (alive t ↔ ok s e)) {es : List ε} (hs : I s)
    (halive : alive s) (hrun : run step es s = some t) : alive t ↔ Guarded step ok es s := by
  induction es generalizing s with
  | nil =>
    obtain rfl := Option.some.inj hrun
    exact iff_of_true halive trivial
  | cons e es ih =>
    obtain ⟨u, he, hes⟩ := Option.bind_eq_some_iff.mp hrun
    have hguard : Guarded step ok (e :: es) s ↔ ok s e ∧ Guarded step ok es u := by
      simp [Guarded, he]
    rw [hguard, ← hok s e u hs he]
    by_cases hu : alive u
    · rw [ih (hI s e u hs he) hu hes]
      simp [hu]
    · refine iff_of_false (fun ht => hu ?_) (fun h => hu h.1)
      cases es with
      | nil =>
        obtain rfl := Option.some.inj hes
        exact ht
      | cons e' es =>
        obtain ⟨v, he', _⟩ := Option.bind_eq_some_iff.mp hes
        exact hlive u e' v he'

theorem reachable_of_run {es : List ε} (h : run step es s = some t) :
    Reachable step (fun _ _ => True) s t := by
  refine Reachable.refl.of_guarded h ?_
  clear h
  induction es generalizing s with
  | nil => trivial
  | cons e es ih => exact ⟨trivial, fun _ _ => ih⟩

end Gpd.Machine
