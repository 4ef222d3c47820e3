import Gpd.Machine.Transition

/-! A pool of independent members. Arrivals may add a member, and an event of a member
changes that member only. Forgetting a member leaves the others as they are. -/
namespace Gpd.Machine

/-- Events of a pool: an arrival with its outcome, or an event of one member. -/
inductive PoolEvent (κ ε : Type*)
  | arrival (outcome : κ)
  | member (i : ℕ) (e : ε)

namespace Pool

variable {σ κ ε : Type*} (joins : κ → Prop) [DecidablePred joins]
  (step : σ → ε → Option σ) (start : σ)

def next (xs : List σ) : PoolEvent κ ε → Option (List σ)
  | .arrival outcome => some (if joins outcome then xs ++ [start] else xs)
  | .member i e => (xs[i]?).bind fun x => (step x e).map (xs.set i)

/-- The events without member `j`, where `n` members joined before. The members that
joined after it move one place down. -/
def forget (j : ℕ) : ℕ → List (PoolEvent κ ε) → List (PoolEvent κ ε)
  | _, [] => []
  | n, .arrival outcome :: es =>
    if joins outcome then
      if n = j then forget j (n + 1) es else .arrival outcome :: forget j (n + 1) es
    else .arrival outcome :: forget j n es
  | n, .member i e :: es =>
    if i = j then forget j n es
    else .member (if j < i then i - 1 else i) e :: forget j n es

variable {joins step start} {xs ys : List σ} {j : ℕ}

lemma eraseIdx_concat_of_ne {x : σ} (h : xs.length ≠ j) :
    (xs ++ [x]).eraseIdx j = xs.eraseIdx j ++ [x] := by
  rcases Nat.lt_or_gt_of_ne h with hlt | hgt
  · rw [List.eraseIdx_of_length_le (by simp; omega), List.eraseIdx_of_length_le hlt.le]
  · exact List.eraseIdx_append_of_lt_length hgt _

lemma next_member_eraseIdx {i : ℕ} {e : ε} (hne : i ≠ j)
    (h : next joins step start xs (.member i e) = some ys) :
    next joins step start (xs.eraseIdx j) (.member (if j < i then i - 1 else i) e) =
      some (ys.eraseIdx j) := by
  obtain ⟨x, hx, h⟩ := Option.bind_eq_some_iff.mp h
  obtain ⟨y, hy, rfl⟩ := Option.map_eq_some_iff.mp h
  split_ifs with hlt
  · have hget : (xs.eraseIdx j)[i - 1]? = some x := by
      rw [List.getElem?_eraseIdx_of_ge (by omega), Nat.sub_add_cancel (by omega), hx]
    rw [List.eraseIdx_set_lt hlt]
    simp [next, hget, hy]
  · have hget : (xs.eraseIdx j)[i]? = some x := by
      rw [List.getElem?_eraseIdx_of_lt (by omega), hx]
    rw [List.eraseIdx_set_gt (by omega)]
    simp [next, hget, hy]

/-- A run without the events of one member is a run of the others. -/
theorem run_forget {es : List (PoolEvent κ ε)}
    (h : run (next joins step start) es xs = some ys) :
    run (next joins step start) (forget joins j xs.length es) (xs.eraseIdx j) =
      some (ys.eraseIdx j) := by
  induction es generalizing xs with
  | nil =>
    obtain rfl := Option.some.inj h
    rfl
  | cons e es ih =>
    obtain ⟨zs, he, hes⟩ := Option.bind_eq_some_iff.mp h
    have hrest := ih hes
    cases e with
    | arrival outcome =>
      simp only [next, Option.some.injEq] at he
      by_cases hjoin : joins outcome
      · rw [if_pos hjoin] at he
        subst he
        simp only [List.length_append, List.length_singleton] at hrest
        by_cases hn : xs.length = j
        · rw [forget, if_pos hjoin, if_pos hn]
          rw [← hn, List.eraseIdx_append_of_length_le le_rfl] at hrest
          rw [← hn, List.eraseIdx_of_length_le le_rfl]
          simpa using hrest
        · rw [forget, if_pos hjoin, if_neg hn]
          rw [eraseIdx_concat_of_ne hn] at hrest
          simpa [run, next, hjoin] using hrest
      · rw [if_neg hjoin] at he
        subst he
        rw [forget, if_neg hjoin]
        simpa [run, next, hjoin] using hrest
    | member i e =>
      have hlen : zs.length = xs.length := by
        obtain ⟨x, _, h⟩ := Option.bind_eq_some_iff.mp he
        obtain ⟨y, _, rfl⟩ := Option.map_eq_some_iff.mp h
        simp
      rw [hlen] at hrest
      by_cases hij : i = j
      · have herase : zs.eraseIdx j = xs.eraseIdx j := by
          obtain ⟨x, _, h⟩ := Option.bind_eq_some_iff.mp he
          obtain ⟨y, _, rfl⟩ := Option.map_eq_some_iff.mp h
          rw [hij, List.eraseIdx_set_eq]
        rw [forget, if_pos hij, ← herase]
        exact hrest
      · rw [forget, if_neg hij, run, next_member_eraseIdx hij he]
        exact hrest

end Pool

end Gpd.Machine
