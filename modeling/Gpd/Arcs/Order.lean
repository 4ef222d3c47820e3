import Gpd.Arcs.Multiplicity

/-! For which arcs between two ends the number of collected edges is the same in every
order. -/
namespace Gpd.Arcs
open Move

variable {α : Type*} [DecidableEq α]

namespace Move

@[simp] lemma flip_flip (m : Move) : flip (flip m) = m := by cases m <;> rfl

lemma count_flip (ms : List Move) (m : Move) : (ms.map flip).count m = ms.count (flip m) := by
  conv_lhs => rw [← flip_flip m]
  exact List.count_map_of_injective ms flip flip_injective (flip m)

lemma drawn_map_flip (ms : List Move) : drawn (0, 0) (ms.map flip) = drawn (0, 0) ms :=
  drawn_flip (0, 0) ms

section Sufficient

variable {ms : List Move}

lemma drawn_oneWay (n : ℕ × ℕ) (hp : ms.count forthTwoWay = 0) (hq : ms.count backTwoWay = 0) :
    drawn n ms = n.1 + n.2 + ms.count forth + ms.count back := by
  induction ms generalizing n with
  | nil => simp
  | cons m ms ih =>
    cases m <;> simp_all [tally] <;> omega

lemma drawn_forth {f : ℕ} (hf : 0 < f) (hy : ms.count back = 0) :
    drawn (f, 0) ms = f + ms.count forth + ms.count forthTwoWay := by
  induction ms generalizing f with
  | nil => simp
  | cons m ms ih =>
    cases m with
    | forth | forthTwoWay =>
      have hrest := ih (f := f + 1) (by omega) (by simpa using hy)
      simp [tally, hrest]
      omega
    | back => simp at hy
    | backTwoWay =>
      have hrest := ih hf (by simpa using hy)
      simp [tally, hrest, hf.ne']

lemma drawn_only_forth (hq : ms.count backTwoWay = 0) (hy : ms.count back = 0) :
    drawn (0, 0) ms = ms.count forth + ms.count forthTwoWay := by
  cases ms with
  | nil => simp
  | cons m ms =>
    cases m with
    | forth | forthTwoWay =>
      have hrest : drawn (1, 0) ms = 1 + ms.count forth + ms.count forthTwoWay :=
        drawn_forth Nat.one_pos (by simpa using hy)
      simp [tally, hrest]
      omega
    | back => simp at hy
    | backTwoWay => simp at hq

lemma drawn_blocked {n : ℕ × ℕ} (hr : 0 < n.2) (hq : ms.count backTwoWay = 0) :
    drawn n ms = n.1 + n.2 + ms.count forth + ms.count back := by
  induction ms generalizing n with
  | nil => simp
  | cons m ms ih =>
    cases m with
    | forth =>
      have hrest := ih (n := (n.1 + 1, n.2)) hr (by simpa using hq)
      simp [tally, hrest]
      omega
    | back =>
      have hrest := ih (n := (n.1, n.2 + 1)) (Nat.succ_pos _) (by simpa using hq)
      simp [tally, hrest]
      omega
    | forthTwoWay =>
      have hrest := ih hr (by simpa using hq)
      simp [tally, hrest, hr.ne']
    | backTwoWay => simp at hq

lemma drawn_pair (f : ℕ) (hy : ms.count back = 0) (hp : ms.count forthTwoWay = 1)
    (hq : ms.count backTwoWay = 1) : drawn (f, 0) ms = f + ms.count forth + 1 := by
  induction ms generalizing f with
  | nil => simp at hp
  | cons m ms ih =>
    cases m with
    | forth =>
      have hrest := ih (f + 1) (by simpa using hy) (by simpa using hp) (by simpa using hq)
      simp [tally, hrest]
      omega
    | back => simp at hy
    | forthTwoWay =>
      have hrest : drawn (f + 1, 0) ms = f + 1 + ms.count forth + ms.count forthTwoWay :=
        drawn_forth f.succ_pos (by simpa using hy)
      have hp' : ms.count forthTwoWay = 0 := by simpa using hp
      simp [tally, hrest, hp']
      omega
    | backTwoWay =>
      have hy' : ms.count back = 0 := by simpa using hy
      have hp' : ms.count forthTwoWay = 1 := by simpa using hp
      rcases f.eq_zero_or_pos with rfl | hf
      · have hrest : drawn (0, 1) ms = 0 + 1 + ms.count forth + ms.count back :=
          drawn_blocked Nat.one_pos (by simpa using hq)
        simp [tally, hrest, hy']
        omega
      · have hrest := drawn_forth hf hy'
        simp [tally, hf.ne', hrest, hp']

lemma drawn_twoWay (hx : ms.count forth = 0) (hy : ms.count back = 0)
    (hpq : ms.count forthTwoWay = ms.count backTwoWay) :
    drawn (0, 0) ms = ms.count forthTwoWay := by
  cases ms with
  | nil => rfl
  | cons m ms =>
    cases m with
    | forth => simp at hx
    | back => simp at hy
    | forthTwoWay =>
      have hrest : drawn (1, 0) ms = 1 + ms.count forth + ms.count forthTwoWay :=
        drawn_forth Nat.one_pos (by simpa using hy)
      have hx' : ms.count forth = 0 := by simpa using hx
      simp [tally, hrest, hx']
      omega
    | backTwoWay =>
      have hflip := drawn_flip (0, 1) ms
      have hy' : (ms.map flip).count back = 0 :=
        (count_flip ms back).trans (by simpa [flip] using hx)
      have hx' : (ms.map flip).count forth = 0 :=
        (count_flip ms forth).trans (by simpa [flip] using hy)
      have hq' : (ms.map flip).count forthTwoWay = ms.count backTwoWay := count_flip ms forthTwoWay
      have hrest : drawn (1, 0) (ms.map flip) = 1 + (ms.map flip).count forth +
          (ms.map flip).count forthTwoWay := drawn_forth Nat.one_pos hy'
      rw [hx', hq'] at hrest
      have hback : drawn (0, 1) ms = 1 + 0 + ms.count backTwoWay := hflip.symm.trans hrest
      simp [tally, hback] at hpq ⊢
      omega

lemma drawn_only_back (hp : ms.count forthTwoWay = 0) (hx : ms.count forth = 0) :
    drawn (0, 0) ms = ms.count back + ms.count backTwoWay := by
  have hmirror := drawn_only_forth ((count_flip ms backTwoWay).trans hp)
    ((count_flip ms back).trans hx)
  rwa [drawn_map_flip, count_flip, count_flip] at hmirror

lemma drawn_pair_back (hx : ms.count forth = 0) (hp : ms.count forthTwoWay = 1)
    (hq : ms.count backTwoWay = 1) : drawn (0, 0) ms = ms.count back + 1 := by
  have hmirror := drawn_pair 0 ((count_flip ms back).trans hx)
    ((count_flip ms forthTwoWay).trans hq) ((count_flip ms backTwoWay).trans hp)
  rwa [drawn_map_flip, count_flip, Nat.zero_add] at hmirror

end Sufficient

/-- So many one-way moves forth and back, and two-way moves forth and back, are drawn alike
in every order. -/
def Settled (x y p q : ℕ) : Prop :=
  (p = 0 ∧ q = 0) ∨ (q = 0 ∧ y = 0) ∨ (p = 0 ∧ x = 0) ∨ (x = 0 ∧ y = 0 ∧ p = q) ∨
    ((x = 0 ∨ y = 0) ∧ p = 1 ∧ q = 1)

instance (x y p q : ℕ) : Decidable (Settled x y p q) := by
  unfold Settled
  infer_instance

theorem drawn_perm {ms ms' : List Move} (hperm : ms'.Perm ms)
    (h : Settled (ms.count forth) (ms.count back) (ms.count forthTwoWay)
      (ms.count backTwoWay)) : drawn (0, 0) ms' = drawn (0, 0) ms := by
  have hc : ∀ m, ms'.count m = ms.count m := fun m => hperm.count_eq m
  rcases h with ⟨hp, hq⟩ | ⟨hq, hy⟩ | ⟨hp, hx⟩ | ⟨hx, hy, hpq⟩ | ⟨hxy, hp, hq⟩
  · rw [drawn_oneWay _ hp hq, drawn_oneWay _ ((hc _).trans hp) ((hc _).trans hq), hc, hc]
  · rw [drawn_only_forth hq hy, drawn_only_forth ((hc _).trans hq) ((hc _).trans hy), hc, hc]
  · rw [drawn_only_back hp hx, drawn_only_back ((hc _).trans hp) ((hc _).trans hx), hc, hc]
  · rw [drawn_twoWay hx hy hpq, drawn_twoWay ((hc _).trans hx) ((hc _).trans hy), hc]
    rw [hc, hc, hpq]
  · rcases hxy with hx | hy
    · rw [drawn_pair_back hx hp hq, drawn_pair_back ((hc _).trans hx) ((hc _).trans hp)
        ((hc _).trans hq), hc]
    · rw [drawn_pair 0 hy hp hq, drawn_pair 0 ((hc _).trans hy) ((hc _).trans hp)
        ((hc _).trans hq), hc]

section Necessary

variable (n : ℕ × ℕ) (k : ℕ) (ms : List Move)

lemma drawn_forths : drawn n (List.replicate k forth ++ ms) = drawn (n.1 + k, n.2) ms := by
  induction k generalizing n with
  | zero => rfl
  | succ k ih =>
    rw [List.replicate_succ, List.cons_append, drawn_cons, ih]
    simp [tally, Nat.add_assoc, Nat.add_comm 1]

lemma drawn_backs : drawn n (List.replicate k back ++ ms) = drawn (n.1, n.2 + k) ms := by
  induction k generalizing n with
  | zero => rfl
  | succ k ih =>
    rw [List.replicate_succ, List.cons_append, drawn_cons, ih]
    simp [tally, Nat.add_assoc, Nat.add_comm 1]

lemma drawn_forthTwoWays : drawn n (List.replicate k forthTwoWay ++ ms) =
    drawn (if n.2 = 0 then (n.1 + k, n.2) else n) ms := by
  induction k generalizing n with
  | zero => simp
  | succ k ih =>
    rw [List.replicate_succ, List.cons_append, drawn_cons, ih]
    by_cases hr : n.2 = 0
    · simp [tally, hr, Nat.add_assoc, Nat.add_comm 1]
    · simp [tally, hr]

lemma drawn_backTwoWays : drawn n (List.replicate k backTwoWay ++ ms) =
    drawn (if n.1 = 0 then (n.1, n.2 + k) else n) ms := by
  induction k generalizing n with
  | zero => simp
  | succ k ih =>
    rw [List.replicate_succ, List.cons_append, drawn_cons, ih]
    by_cases hf : n.1 = 0
    · simp [tally, hf, Nat.add_assoc, Nat.add_comm 1]
    · simp [tally, hf]

theorem settled_of_perm (h : ∀ ms', ms'.Perm ms → drawn (0, 0) ms' = drawn (0, 0) ms) :
    Settled (ms.count forth) (ms.count back) (ms.count forthTwoWay) (ms.count backTwoWay) := by
  obtain ⟨x, hx⟩ : ∃ x, ms.count forth = x := ⟨_, rfl⟩
  obtain ⟨y, hy⟩ : ∃ y, ms.count back = y := ⟨_, rfl⟩
  obtain ⟨p, hp⟩ : ∃ p, ms.count forthTwoWay = p := ⟨_, rfl⟩
  obtain ⟨q, hq⟩ : ∃ q, ms.count backTwoWay = q := ⟨_, rfl⟩
  have order : ∀ ms', ms'.count forth = x → ms'.count back = y → ms'.count forthTwoWay = p →
      ms'.count backTwoWay = q → drawn (0, 0) ms' = drawn (0, 0) ms := by
    intro ms' hx' hy' hp' hq'
    refine h ms' (List.perm_iff_count.mpr fun m => ?_)
    cases m with
    | forth => rw [hx', hx]
    | back => rw [hy', hy]
    | forthTwoWay => rw [hp', hp]
    | backTwoWay => rw [hq', hq]
  have blocks : ∀ k l : ℕ, k ≤ p → l ≤ q → drawn (0, 0) (List.replicate k forthTwoWay ++
      (List.replicate l backTwoWay ++ (List.replicate x forth ++ (List.replicate y back ++
        (List.replicate (p - k) forthTwoWay ++ (List.replicate (q - l) backTwoWay ++ [])))))) =
      drawn (0, 0) ms := by
    intro k l hk hl
    apply order <;> simp [List.count_replicate] <;> omega
  simp only [drawn_forths, drawn_backs, drawn_forthTwoWays, drawn_backTwoWays, drawn_nil]
    at blocks
  have oneWayFirst := blocks 0 0 p.zero_le q.zero_le
  have forthFirst := blocks p 0 le_rfl q.zero_le
  have backFirst := blocks 0 q p.zero_le le_rfl
  rw [hx, hy, hp, hq]
  by_cases hp0 : p = 0
  · by_cases hq0 : q = 0
    · exact .inl ⟨hp0, hq0⟩
    · simp [hp0, hq0] at oneWayFirst forthFirst backFirst
      have hx0 : x = 0 := by
        by_contra hx0
        simp [hx0] at oneWayFirst
        omega
      exact .inr (.inr (.inl ⟨hp0, hx0⟩))
  · by_cases hq0 : q = 0
    · simp [hp0, hq0] at oneWayFirst forthFirst backFirst
      have hy0 : y = 0 := by
        by_contra hy0
        simp [hy0] at oneWayFirst
        omega
      exact .inr (.inl ⟨hq0, hy0⟩)
    · have forthOnce := blocks 1 0 (by omega) q.zero_le
      have backOnce := blocks 0 1 p.zero_le (by omega)
      simp [hp0, hq0] at oneWayFirst forthFirst backFirst forthOnce backOnce
      by_cases hx0 : x = 0
      · by_cases hy0 : y = 0
        · exact .inr (.inr (.inr (.inl ⟨hx0, hy0, by omega⟩)))
        · simp [hy0] at forthOnce
          exact .inr (.inr (.inr (.inr ⟨.inl hx0, by omega, by omega⟩)))
      · by_cases hy0 : y = 0
        · simp [hx0] at backOnce
          exact .inr (.inr (.inr (.inr ⟨.inr hy0, by omega, by omega⟩)))
        · simp [hx0, hy0] at oneWayFirst
          omega

end Necessary

end Move

section Loops

variable {a : α} {ts : List (Arc α)}

omit [DecidableEq α] in
lemma between_self_iff {t : Arc α} :
    Between a a t ↔ t = ⟨a, a, .oneWay⟩ ∨ t = ⟨a, a, .twoWay⟩ := by
  obtain ⟨s, u, k⟩ := t
  cases k <;> simp [Between]

lemma mem_collect_of_not_between {t : Arc α} (h : ¬Between a a t) (edges : List (α × α)) :
    (a, a) ∈ collect edges t ↔ (a, a) ∈ edges := by
  rw [← List.count_pos_iff, count_collect_of_not_between h, List.count_pos_iff]

lemma count_loops {edges : List (α × α)}
    (h : (a, a) ∈ edges ∨ ts.count ⟨a, a, .twoWay⟩ = 0) :
    (ts.foldl collect edges).count (a, a) =
      edges.count (a, a) + ts.count ⟨a, a, .oneWay⟩ := by
  induction ts generalizing edges with
  | nil => rfl
  | cons t ts ih =>
    rw [List.foldl_cons]
    by_cases hb : Between a a t
    · rcases between_self_iff.mp hb with rfl | rfl
      · rw [ih (.inl (by simp [collect]))]
        simp [collect]
        omega
      · have hmem := h.resolve_right (by simp)
        have hstep : collect edges ⟨a, a, .twoWay⟩ = edges := by simp [collect, hmem]
        rw [hstep, ih (.inl hmem)]
        simp
    · obtain ⟨hone, htwo⟩ := not_or.mp (between_self_iff.not.mp hb)
      rw [List.count_cons_of_ne htwo] at h
      rw [List.count_cons_of_ne hone, ih (h.imp_left (mem_collect_of_not_between hb edges).mpr),
        count_collect_of_not_between hb]

lemma count_twoWay_loops (hx : ts.count ⟨a, a, .oneWay⟩ = 0) {edges : List (α × α)}
    (h : (a, a) ∉ edges) :
    (ts.foldl collect edges).count (a, a) = min 1 (ts.count ⟨a, a, .twoWay⟩) := by
  induction ts generalizing edges with
  | nil => simpa using List.count_eq_zero_of_not_mem h
  | cons t ts ih =>
    rw [List.foldl_cons]
    have hx' : ts.count ⟨a, a, .oneWay⟩ = 0 := by
      have := List.count_le_count_cons (a := (⟨a, a, .oneWay⟩ : Arc α)) (b := t) (l := ts)
      omega
    by_cases hb : Between a a t
    · rcases between_self_iff.mp hb with rfl | rfl
      · simp at hx
      · rw [count_loops (.inl (by simp [collect, h])), hx']
        simp [collect, h, List.count_eq_zero_of_not_mem]
    · have hne := (not_or.mp (between_self_iff.not.mp hb)).2
      rw [List.count_cons_of_ne hne, ih hx' ((mem_collect_of_not_between hb edges).not.mpr h)]

end Loops

/-- The arcs between `a` and `b` make as many edges in every order. -/
def OrderFree (ts : List (Arc α)) (a b : α) : Prop :=
  if a = b then ts.count ⟨a, a, .oneWay⟩ = 0 ∨ ts.count ⟨a, a, .twoWay⟩ = 0
  else
    Settled (ts.count ⟨a, b, .oneWay⟩) (ts.count ⟨b, a, .oneWay⟩) (ts.count ⟨a, b, .twoWay⟩)
      (ts.count ⟨b, a, .twoWay⟩)

instance (ts : List (Arc α)) (a b : α) : Decidable (OrderFree ts a b) := by
  unfold OrderFree
  infer_instance

section OrderFree

variable {ts : List (Arc α)} {a b : α}

lemma loops_perm_iff :
    (∀ us : List (Arc α), us.Perm ts →
        (collectAll us).count (a, a) = (collectAll ts).count (a, a)) ↔
      ts.count ⟨a, a, .oneWay⟩ = 0 ∨ ts.count ⟨a, a, .twoWay⟩ = 0 := by
  constructor
  · intro h
    by_contra hno
    push Not at hno
    obtain ⟨hx, hp⟩ := hno
    have hone := List.perm_cons_erase (List.count_pos_iff.mp (Nat.pos_of_ne_zero hx))
    have htwo := List.perm_cons_erase (List.count_pos_iff.mp (Nat.pos_of_ne_zero hp))
    have hfirst := (h _ hone.symm).trans (h _ htwo.symm).symm
    rw [collectAll, collectAll, List.foldl_cons, List.foldl_cons,
      count_loops (.inl (by simp [collect])), count_loops (.inl (by simp [collect]))] at hfirst
    simp [collect] at hfirst
    omega
  · intro h us hus
    rw [collectAll, collectAll]
    rcases h with hx | hp
    · rw [count_twoWay_loops hx (by simp), count_twoWay_loops (by rwa [hus.count_eq]) (by simp),
        hus.count_eq]
    · rw [count_loops (.inr hp), count_loops (.inr (by rwa [hus.count_eq])), hus.count_eq]

lemma count_filterMap_of? (hab : a ≠ b) (m : Move) :
    (ts.filterMap (of? a b)).count m = ts.count (m.arc a b) := by
  induction ts with
  | nil => rfl
  | cons t ts ih =>
    rw [List.filterMap_cons, List.count_cons]
    cases hm : of? a b t with
    | none =>
      have hne : t ≠ m.arc a b := by
        rintro rfl
        simp [of?_arc hab] at hm
      simp [ih, hne]
    | some m' =>
      obtain rfl := (of?_eq_some_iff hab).mp hm
      simp [ih, List.count_cons, (arc_injective hab).eq_iff]

lemma exists_perm_of_moves (hab : a ≠ b) {ms : List Move}
    (h : ms.Perm (ts.filterMap (of? a b))) :
    ∃ us : List (Arc α), us.Perm ts ∧ us.filterMap (of? a b) = ms := by
  refine ⟨ms.map (arc a b) ++ ts.filter fun t => (of? a b t).isNone, ?_, ?_⟩
  · refine List.perm_iff_count.mpr fun t => ?_
    rw [List.count_append]
    cases hm : of? a b t with
    | none =>
      have hmap : t ∉ ms.map (arc a b) := by
        intro ht
        obtain ⟨m, _, rfl⟩ := List.mem_map.mp ht
        simp [of?_arc hab] at hm
      rw [List.count_eq_zero_of_not_mem hmap, List.count_filter (by simp [hm]), Nat.zero_add]
    | some m =>
      obtain rfl := (of?_eq_some_iff hab).mp hm
      have hfilter : m.arc a b ∉ ts.filter fun t => (of? a b t).isNone := by simp [hm]
      rw [List.count_eq_zero_of_not_mem hfilter, List.count_map_of_injective _ _
        (arc_injective hab), h.count_eq, count_filterMap_of? hab, Nat.add_zero]
  · have hmoves : of? a b ∘ arc a b = some := funext (of?_arc hab)
    rw [List.filterMap_append, List.filterMap_map, hmoves, List.filterMap_some]
    simp [List.filterMap_eq_nil_iff]

/-- In every order there are as many edges between `a` and `b`, exactly when the arcs
between them are order-free. -/
theorem edgeCount_perm_iff :
    (∀ us : List (Arc α), us.Perm ts →
        edgeCount a b (collectAll us) = edgeCount a b (collectAll ts)) ↔
      OrderFree ts a b := by
  unfold OrderFree
  by_cases hab : a = b
  · subst hab
    simp only [edgeCount_self, if_true]
    exact loops_perm_iff
  · have hcount : ∀ m : Move, ts.count (m.arc a b) = (ts.filterMap (of? a b)).count m := fun m =>
      (count_filterMap_of? hab m).symm
    rw [if_neg hab]
    simp only [edgeCount_collectAll hab]
    constructor
    · intro h
      have hmoves : ∀ ms, ms.Perm (ts.filterMap (of? a b)) →
          drawn (0, 0) ms = drawn (0, 0) (ts.filterMap (of? a b)) := by
        intro ms hms
        obtain ⟨us, hus, rfl⟩ := exists_perm_of_moves hab hms
        exact h us hus
      have hsettled := settled_of_perm _ hmoves
      rwa [← hcount forth, ← hcount back, ← hcount forthTwoWay, ← hcount backTwoWay] at hsettled
    · intro h us hus
      apply drawn_perm (hus.filterMap _)
      rw [← hcount forth, ← hcount back, ← hcount forthTwoWay, ← hcount backTwoWay]
      exact h

end OrderFree

end Gpd.Arcs
