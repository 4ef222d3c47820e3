import Gpd.Arcs.Insertion

/-! How many edges are collected between two ends, told from the arcs between them
alone. -/
namespace Gpd.Arcs

variable {α : Type*} [DecidableEq α]

/-- The number of edges between `a` and `b`, in either direction. -/
def edgeCount (a b : α) (edges : List (α × α)) : ℕ :=
  edges.countP fun e => e = (a, b) ∨ e = (b, a)

lemma edgeCount_eq {a b : α} (hab : a ≠ b) (edges : List (α × α)) :
    edgeCount a b edges = edges.count (a, b) + edges.count (b, a) := by
  induction edges with
  | nil => rfl
  | cons e es ih =>
    simp only [edgeCount, List.countP_cons, List.count_cons] at ih ⊢
    rw [ih]
    by_cases h1 : e = (a, b)
    · have h2 : ¬(a, b) = (b, a) := fun h => hab (Prod.mk.inj h).1
      simp [h1, h2]
      omega
    · by_cases h2 : e = (b, a)
      · simp [h2, Ne.symm hab]
        omega
      · simp [h1, h2]

lemma edgeCount_self (a : α) (edges : List (α × α)) :
    edgeCount a a edges = edges.count (a, a) := by
  simp [edgeCount, List.count_eq_countP, beq_eq_decide]

lemma edgeCount_pos {a b : α} {edges : List (α × α)} :
    0 < edgeCount a b edges ↔ (a, b) ∈ edges ∨ (b, a) ∈ edges := by
  rw [edgeCount, List.countP_pos_iff]
  constructor
  · rintro ⟨e, he, hab⟩
    rcases of_decide_eq_true hab with rfl | rfl
    · exact .inl he
    · exact .inr he
  · rintro (he | he)
    · exact ⟨_, he, by simp⟩
    · exact ⟨_, he, by simp⟩

/-- Two ends are connected exactly when some arc between them counts. -/
theorem edgeCount_collectAll_pos {ts : List (Arc α)} {a b : α} :
    0 < edgeCount a b (collectAll ts) ↔ ∃ t ∈ ts, Between a b t := by
  rw [edgeCount_pos]
  constructor
  · rintro (he | he)
    · obtain ⟨t, ht, hk, hst⟩ := exists_of_mem_collectAll he
      exact ⟨t, ht, hk, .inl (Prod.mk.inj hst)⟩
    · obtain ⟨t, ht, hk, hst⟩ := exists_of_mem_collectAll he
      exact ⟨t, ht, hk, .inr (Prod.mk.inj hst)⟩
  · rintro ⟨t, ht, hb⟩
    have hsome : (ts.find? fun u => Between a b u).isSome := by
      rw [List.find?_isSome]
      exact ⟨t, ht, by simpa using hb⟩
    obtain ⟨u, hu⟩ := Option.isSome_iff_exists.mp hsome
    rw [mem_collectAll, mem_collectAll]
    exact joined_or_of_find? hu

/-- An arc between two different ends, seen from the first of them. -/
inductive Move
  | forth
  | back
  | forthTwoWay
  | backTwoWay
  deriving DecidableEq, Repr

namespace Move

def arc (a b : α) : Move → Arc α
  | forth => ⟨a, b, .oneWay⟩
  | back => ⟨b, a, .oneWay⟩
  | forthTwoWay => ⟨a, b, .twoWay⟩
  | backTwoWay => ⟨b, a, .twoWay⟩

/-- The move that an arc makes between `a` and `b`. -/
def of? (a b : α) (t : Arc α) : Option Move :=
  [forth, back, forthTwoWay, backTwoWay].find? fun m => m.arc a b = t

/-- One more move, after so many edges forth and so many back. -/
def tally (n : ℕ × ℕ) : Move → ℕ × ℕ
  | forth => (n.1 + 1, n.2)
  | back => (n.1, n.2 + 1)
  | forthTwoWay => if n.2 = 0 then (n.1 + 1, n.2) else n
  | backTwoWay => if n.1 = 0 then (n.1, n.2 + 1) else n

/-- The number of edges after the moves. -/
def drawn (n : ℕ × ℕ) (ms : List Move) : ℕ := (ms.foldl tally n).1 + (ms.foldl tally n).2

omit [DecidableEq α] in
lemma arc_injective {a b : α} (hab : a ≠ b) : Function.Injective (arc a b) := by
  intro m m' h
  cases m <;> cases m' <;> simp_all [arc]

lemma of?_eq_some {a b : α} {t : Arc α} {m : Move} (h : of? a b t = some m) : m.arc a b = t := by
  simpa using List.find?_some h

lemma of?_arc {a b : α} (hab : a ≠ b) (m : Move) : of? a b (m.arc a b) = some m := by
  cases h : of? a b (m.arc a b) with
  | none =>
    have hm := List.find?_eq_none.mp h m (by cases m <;> simp)
    simp at hm
  | some m' => rw [arc_injective hab (of?_eq_some h)]

lemma of?_eq_some_iff {a b : α} (hab : a ≠ b) {t : Arc α} {m : Move} :
    of? a b t = some m ↔ t = m.arc a b := by
  constructor
  · exact fun h => (of?_eq_some h).symm
  · rintro rfl
    exact of?_arc hab m

@[simp] lemma drawn_nil (n : ℕ × ℕ) : drawn n [] = n.1 + n.2 := rfl

@[simp] lemma drawn_cons (n : ℕ × ℕ) (m : Move) (ms : List Move) :
    drawn n (m :: ms) = drawn (tally n m) ms := rfl

/-- Seen from the other end. -/
def flip : Move → Move
  | forth => back
  | back => forth
  | forthTwoWay => backTwoWay
  | backTwoWay => forthTwoWay

lemma flip_injective : Function.Injective flip := by
  intro m m' h
  cases m <;> cases m' <;> simp_all [flip]

lemma drawn_flip (n : ℕ × ℕ) (ms : List Move) :
    drawn n.swap (ms.map flip) = drawn n ms := by
  induction ms generalizing n with
  | nil => simp [Nat.add_comm]
  | cons m ms ih =>
    have hstep : tally n.swap (flip m) = (tally n m).swap := by
      cases m <;> simp only [flip, tally, Prod.fst_swap, Prod.snd_swap] <;> try split_ifs
      all_goals rfl
    rw [List.map_cons, drawn_cons, hstep, ih, drawn_cons]

/-- The two-way move in the other direction. -/
def answer : Move → Move
  | forth | forthTwoWay => backTwoWay
  | back | backTwoWay => forthTwoWay

lemma le_drawn (n : ℕ × ℕ) (ms : List Move) : n.1 + n.2 ≤ drawn n ms := by
  induction ms generalizing n with
  | nil => exact le_rfl
  | cons m ms ih =>
    refine le_trans ?_ (ih (tally n m))
    cases m <;> simp only [tally] <;> (try split_ifs) <;> omega

lemma drawn_forth_eq_one {ms : List Move} : drawn (1, 0) ms = 1 ↔ ∀ m ∈ ms, m = backTwoWay := by
  induction ms with
  | nil => simp [drawn]
  | cons m ms ih =>
    have htwo : ∀ n : ℕ × ℕ, 2 ≤ n.1 + n.2 → drawn n ms ≠ 1 := fun n hn => by
      have := le_drawn n ms
      omega
    rw [List.forall_mem_cons, ← ih]
    cases m with
    | forth => simpa [tally] using htwo (2, 0) (by decide)
    | back => simpa [tally] using htwo (1, 1) (by decide)
    | forthTwoWay => simpa [tally] using htwo (2, 0) (by decide)
    | backTwoWay => simp [tally]

lemma drawn_back_eq_one {ms : List Move} : drawn (0, 1) ms = 1 ↔ ∀ m ∈ ms, m = forthTwoWay := by
  rw [← drawn_flip, Prod.swap_prod_mk, drawn_forth_eq_one, List.forall_mem_map]
  refine forall₂_congr fun m _ => ?_
  cases m <;> simp [flip]

lemma drawn_cons_eq_one {m : Move} {ms : List Move} :
    drawn (0, 0) (m :: ms) = 1 ↔ ∀ m' ∈ ms, m' = m.answer := by
  cases m
  · exact drawn_forth_eq_one
  · exact drawn_back_eq_one
  · exact drawn_forth_eq_one
  · exact drawn_back_eq_one

lemma of?_isSome {a b : α} {t : Arc α} : (of? a b t).isSome ↔ Between a b t := by
  rw [of?, List.find?_isSome]
  obtain ⟨s, u, k⟩ := t
  cases k <;> simp [arc, Between, eq_comm]

end Move

open Move

def tallyOf (a b : α) (edges : List (α × α)) : ℕ × ℕ := (edges.count (a, b), edges.count (b, a))

lemma tallyOf_collect_arc {a b : α} (hab : a ≠ b) (edges : List (α × α)) (m : Move) :
    tallyOf a b (collect edges (m.arc a b)) = tally (tallyOf a b edges) m := by
  have h1 : ¬(a, b) = (b, a) := fun h => hab (Prod.mk.inj h).1
  have h2 : ¬(b, a) = (a, b) := fun h => hab (Prod.mk.inj h).2
  cases m with
  | forth => simp [tallyOf, collect, arc, tally, h1]
  | back => simp [tallyOf, collect, arc, tally, h2]
  | forthTwoWay =>
    by_cases he : (b, a) ∈ edges
    · have hpos := (List.count_pos_iff.mpr he).ne'
      simp [tallyOf, collect, arc, tally, he, hpos]
    · simp [tallyOf, collect, arc, tally, he, List.count_eq_zero_of_not_mem, h1]
  | backTwoWay =>
    by_cases he : (a, b) ∈ edges
    · have hpos := (List.count_pos_iff.mpr he).ne'
      simp [tallyOf, collect, arc, tally, he, hpos]
    · simp [tallyOf, collect, arc, tally, he, List.count_eq_zero_of_not_mem, h2]

lemma count_collect_of_not_between {a b : α} {t : Arc α} (h : ¬Between a b t)
    (edges : List (α × α)) : (collect edges t).count (a, b) = edges.count (a, b) := by
  have hne : t.kind ≠ .ignored → ¬(t.source, t.target) = (a, b) :=
    fun hk he => h ⟨hk, .inl (Prod.mk.inj he)⟩
  unfold collect
  cases hk : t.kind with
  | oneWay => simp [hne (by simp [hk])]
  | twoWay =>
    dsimp only
    split_ifs
    · rfl
    · simp [hne (by simp [hk])]
  | ignored => rfl

theorem tallyOf_collectAll {a b : α} (hab : a ≠ b) (ts : List (Arc α)) :
    tallyOf a b (collectAll ts) = (ts.filterMap (of? a b)).foldl tally (0, 0) := by
  induction ts using List.reverseRecOn with
  | nil => rfl
  | append_singleton ts t ih =>
    rw [collectAll_concat, List.filterMap_append, List.foldl_append, ← ih]
    cases hm : of? a b t with
    | none =>
      have hnot : ¬Between a b t := by simp [← of?_isSome, hm]
      have hswap : ¬Between b a t := fun h => hnot (between_comm.mp h)
      simp [tallyOf, count_collect_of_not_between hnot, count_collect_of_not_between hswap, hm]
    | some m =>
      obtain rfl := (of?_eq_some_iff hab).mp hm
      simp [tallyOf_collect_arc hab, hm]

theorem edgeCount_collectAll {a b : α} (hab : a ≠ b) (ts : List (Arc α)) :
    edgeCount a b (collectAll ts) = drawn (0, 0) (ts.filterMap (of? a b)) := by
  have h := tallyOf_collectAll hab ts
  rw [edgeCount_eq hab, drawn, ← h]
  rfl

omit [DecidableEq α] in
lemma answer_arc {a b : α} (m : Move) :
    m.answer.arc a b = ⟨(m.arc a b).target, (m.arc a b).source, .twoWay⟩ := by
  cases m <;> rfl

/-- Between two ends there is one edge exactly when, of the arcs between them, all behind the
first are two-way arcs in the direction opposite to it. -/
theorem edgeCount_eq_one_iff {a b : α} (hab : a ≠ b) {ts : List (Arc α)} :
    edgeCount a b (collectAll ts) = 1 ↔
      ∃ pre t post, ts = pre ++ t :: post ∧ (∀ u ∈ pre, ¬Between a b u) ∧ Between a b t ∧
        ∀ u ∈ post, Between a b u → u = ⟨t.target, t.source, .twoWay⟩ := by
  have hnone : ∀ u : Arc α, of? a b u = none ↔ ¬Between a b u := fun u => by
    rw [← of?_isSome, Option.not_isSome_iff_eq_none]
  rw [edgeCount_collectAll hab]
  constructor
  · intro h
    cases hms : ts.filterMap (of? a b) with
    | nil => simp [hms, drawn] at h
    | cons m ms =>
      rw [hms, drawn_cons_eq_one] at h
      obtain ⟨pre, t, post, rfl, hpre, ht, rfl⟩ := List.filterMap_eq_cons_iff.mp hms
      refine ⟨pre, t, post, rfl, fun u hu => (hnone u).mp (hpre u hu),
        of?_isSome.mp (by rw [ht]; rfl), fun u hu hb => ?_⟩
      obtain ⟨m', hm'⟩ := Option.isSome_iff_exists.mp (of?_isSome.mpr hb)
      obtain rfl := h m' (List.mem_filterMap.mpr ⟨u, hu, hm'⟩)
      rw [← of?_eq_some hm', answer_arc, of?_eq_some ht]
  · rintro ⟨pre, t, post, rfl, hpre, ht, hpost⟩
    obtain ⟨m, hm⟩ := Option.isSome_iff_exists.mp (of?_isSome.mpr ht)
    have hms : (pre ++ t :: post).filterMap (of? a b) = m :: post.filterMap (of? a b) :=
      List.filterMap_eq_cons_iff.mpr
        ⟨pre, t, post, rfl, fun u hu => (hnone u).mpr (hpre u hu), hm, rfl⟩
    rw [hms, drawn_cons_eq_one]
    intro m' hm'
    obtain ⟨u, hu, hu'⟩ := List.mem_filterMap.mp hm'
    have hb : Between a b u := of?_isSome.mp (by rw [hu']; rfl)
    have hu'' := hpost u hu hb
    rw [← of?_eq_some hm, ← answer_arc, ← of?_eq_some hu'] at hu''
    exact arc_injective hab hu''

end Gpd.Arcs
