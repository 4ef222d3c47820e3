import Mathlib

/-! Edges of a directed multigraph collected from a list of arcs. A two-way arc is dropped
when its reverse was collected before; the order of the arcs matters. -/
namespace Gpd.Arcs

inductive Kind
  | oneWay
  | twoWay
  | ignored
  deriving DecidableEq, Repr

structure Arc (α : Type*) where
  source : α
  target : α
  kind : Kind
  deriving DecidableEq, Repr

def Arc.map {α β : Type*} (f : α → β) (t : Arc α) : Arc β := ⟨f t.source, f t.target, t.kind⟩

variable {α : Type*} [DecidableEq α]

def collect (edges : List (α × α)) (t : Arc α) : List (α × α) :=
  match t.kind with
  | .oneWay => edges ++ [(t.source, t.target)]
  | .twoWay =>
    if (t.target, t.source) ∈ edges then edges else edges ++ [(t.source, t.target)]
  | .ignored => edges

/-- The collected edges, in order. -/
def collectAll (ts : List (Arc α)) : List (α × α) := ts.foldl collect []

@[simp] lemma collectAll_nil : collectAll ([] : List (Arc α)) = [] := rfl

@[simp] lemma collectAll_concat (ts : List (Arc α)) (t : Arc α) :
    collectAll (ts ++ [t]) = collect (collectAll ts) t := by simp [collectAll]

lemma exists_of_mem_collectAll {ts : List (Arc α)} {p : α × α} (h : p ∈ collectAll ts) :
    ∃ t ∈ ts, t.kind ≠ .ignored ∧ (t.source, t.target) = p := by
  induction ts using List.reverseRecOn with
  | nil => simp at h
  | append_singleton ts t ih =>
    have hlast : p = (t.source, t.target) → t.kind ≠ .ignored →
        ∃ u ∈ ts ++ [t], u.kind ≠ .ignored ∧ (u.source, u.target) = p := fun hp hk =>
      ⟨t, by simp, hk, hp.symm⟩
    have hearlier : p ∈ collectAll ts →
        ∃ u ∈ ts ++ [t], u.kind ≠ .ignored ∧ (u.source, u.target) = p := by
      intro hp
      obtain ⟨u, hu, huk⟩ := ih hp
      exact ⟨u, by simp [hu], huk⟩
    rw [collectAll_concat] at h
    unfold collect at h
    cases hk : t.kind with
    | oneWay =>
      rw [hk] at h
      rcases List.mem_append.mp h with h | h
      · exact hearlier h
      · exact hlast (List.mem_singleton.mp h) (by simp [hk])
    | twoWay =>
      rw [hk] at h
      dsimp only at h
      split_ifs at h
      · exact hearlier h
      · rcases List.mem_append.mp h with h | h
        · exact hearlier h
        · exact hlast (List.mem_singleton.mp h) (by simp [hk])
    | ignored =>
      rw [hk] at h
      exact hearlier h

/-- The arc connects `a` and `b`, in one direction or the other. -/
def Between (a b : α) (t : Arc α) : Prop :=
  t.kind ≠ .ignored ∧ ((t.source = a ∧ t.target = b) ∨ (t.source = b ∧ t.target = a))

instance (a b : α) (t : Arc α) : Decidable (Between a b t) := by
  unfold Between
  infer_instance

omit [DecidableEq α] in
lemma between_comm {a b : α} {t : Arc α} : Between a b t ↔ Between b a t := by
  simp only [Between]
  tauto

/-- Some one-way arc leads from `a` to `b`, or the first arc between the two does. -/
def Joined (ts : List (Arc α)) (a b : α) : Prop :=
  (∃ t ∈ ts, t.kind = .oneWay ∧ t.source = a ∧ t.target = b) ∨
  ∃ t, ts.find? (fun t => Between a b t) = some t ∧ t.source = a ∧ t.target = b

/-- The arc is collected if it comes after `ts`. -/
def Admits (ts : List (Arc α)) (t : Arc α) : Prop :=
  t.kind = .oneWay ∨ (t.kind = .twoWay ∧ ¬Joined ts t.target t.source)

lemma find?_between_comm (ts : List (Arc α)) (a b : α) :
    ts.find? (fun t => Between a b t) = ts.find? (fun t => Between b a t) := by
  simp only [between_comm (a := a)]

lemma not_joined_of_find?_eq_none {ts : List (Arc α)} {a b : α}
    (h : ts.find? (fun t => Between a b t) = none) : ¬Joined ts a b := by
  rintro (⟨t, ht, hk, rfl, rfl⟩ | ⟨t, ht, _⟩)
  · have := List.find?_eq_none.mp h t ht
    simp [Between, hk] at this
  · simp [h] at ht

lemma joined_or_of_find? {ts : List (Arc α)} {a b : α} {t : Arc α}
    (h : ts.find? (fun t => Between a b t) = some t) : Joined ts a b ∨ Joined ts b a := by
  have hb : Between a b t := by simpa using List.find?_some h
  rcases hb.2 with ⟨hs, ht⟩ | ⟨hs, ht⟩
  · exact .inl (.inr ⟨t, h, hs, ht⟩)
  · exact .inr (.inr ⟨t, by rwa [find?_between_comm], hs, ht⟩)

lemma joined_concat {ts : List (Arc α)} {t : Arc α} {a b : α} :
    Joined (ts ++ [t]) a b ↔
      Joined ts a b ∨ (Admits ts t ∧ t.source = a ∧ t.target = b) := by
  constructor
  · rintro (⟨u, hu, hk, rfl, rfl⟩ | ⟨u, hu, hs, ht⟩)
    · rcases List.mem_append.mp hu with hu | hu
      · exact .inl (.inl ⟨u, hu, hk, rfl, rfl⟩)
      · obtain rfl := List.mem_singleton.mp hu
        exact .inr ⟨.inl hk, rfl, rfl⟩
    · rw [List.find?_append, Option.or_eq_some_iff] at hu
      rcases hu with hu | ⟨hnone, hu⟩
      · exact .inl (.inr ⟨u, hu, hs, ht⟩)
      · have hmem : u = t ∧ Between a b t := by
          have := List.find?_some hu
          have hut := List.mem_of_find?_eq_some hu
          obtain rfl := List.mem_singleton.mp hut
          exact ⟨rfl, by simpa using this⟩
        obtain ⟨rfl, hbetween⟩ := hmem
        refine .inr ⟨?_, hs, ht⟩
        cases hk : u.kind with
        | oneWay => exact .inl hk
        | twoWay =>
          refine .inr ⟨hk, ?_⟩
          rw [hs, ht]
          exact not_joined_of_find?_eq_none (by rwa [find?_between_comm])
        | ignored => exact absurd hk hbetween.1
  · rintro ((⟨u, hu, hk, hst⟩ | ⟨u, hu, hst⟩) | ⟨hi, rfl, rfl⟩)
    · exact .inl ⟨u, by simp [hu], hk, hst⟩
    · exact .inr ⟨u, by simp [List.find?_append, hu], hst⟩
    · rcases hi with hk | ⟨hk, hno⟩
      · exact .inl ⟨t, by simp, hk, rfl, rfl⟩
      · cases hf : ts.find? (fun u => Between t.source t.target u) with
        | none =>
          refine .inr ⟨t, ?_, rfl, rfl⟩
          rw [List.find?_append, hf]
          simp [Between, hk]
        | some u =>
          rcases joined_or_of_find? hf with hj | hj
          · rcases hj with ⟨v, hv, hvk, hvst⟩ | ⟨v, hv, hvst⟩
            · exact .inl ⟨v, by simp [hv], hvk, hvst⟩
            · exact .inr ⟨v, by simp [List.find?_append, hv], hvst⟩
          · exact absurd hj hno

/-- Which edges are collected, in closed form. -/
theorem mem_collectAll {ts : List (Arc α)} {a b : α} : (a, b) ∈ collectAll ts ↔ Joined ts a b := by
  induction ts using List.reverseRecOn generalizing a b with
  | nil => simp [Joined]
  | append_singleton ts t ih =>
    rw [collectAll_concat, joined_concat, ← ih]
    unfold collect Admits
    cases hk : t.kind with
    | oneWay =>
      simp [Prod.ext_iff, eq_comm]
    | twoWay =>
      by_cases hrev : (t.target, t.source) ∈ collectAll ts
      · simp [hrev, ← ih]
      · simp [hrev, ← ih, Prod.ext_iff, eq_comm]
    | ignored => simp

lemma collect_eq (ts : List (Arc α)) (t : Arc α) [Decidable (Admits ts t)] :
    collect (collectAll ts) t =
      if Admits ts t then collectAll ts ++ [(t.source, t.target)] else collectAll ts := by
  unfold collect
  cases hk : t.kind with
  | oneWay => simp [Admits, hk]
  | twoWay =>
    by_cases hj : Joined ts t.target t.source
    · have he : (t.target, t.source) ∈ collectAll ts := mem_collectAll.mpr hj
      simp [Admits, hk, hj, he]
    · have he : (t.target, t.source) ∉ collectAll ts := fun h => hj (mem_collectAll.mp h)
      simp [Admits, hk, hj, he]
  | ignored => simp [Admits, hk]

/-- No edge is a loop exactly when no arc that counts is one. -/
theorem collectAll_loopless {ts : List (Arc α)} :
    (∀ e ∈ collectAll ts, e.1 ≠ e.2) ↔ ∀ t ∈ ts, t.kind ≠ .ignored → t.source ≠ t.target := by
  constructor
  · intro h t ht hk hst
    have hsome : (ts.find? (fun u => Between t.source t.target u)).isSome := by
      rw [List.find?_isSome]
      exact ⟨t, ht, by simp [Between, hk]⟩
    obtain ⟨u, hu⟩ := Option.isSome_iff_exists.mp hsome
    have hjoined : Joined ts t.source t.target := by
      rcases joined_or_of_find? hu with hj | hj
      · exact hj
      · rwa [hst] at hj ⊢
    exact h _ (mem_collectAll.mpr hjoined) hst
  · rintro h ⟨a, b⟩ he hab
    rcases mem_collectAll.mp he with ⟨t, ht, hk, hs, hb⟩ | ⟨t, ht, hs, hb⟩
    · exact h t ht (by simp [hk]) (hs.trans (hab.trans hb.symm))
    · have hbetween : Between a b t := by simpa using List.find?_some ht
      exact h t (List.mem_of_find?_eq_some ht) hbetween.1 (hs.trans (hab.trans hb.symm))

/-- No edge is collected twice exactly when no collected arc finds its ends joined. -/
theorem collectAll_nodup {ts : List (Arc α)} :
    (collectAll ts).Nodup ↔
      ∀ pre t post, ts = pre ++ t :: post → Admits pre t → ¬Joined pre t.source t.target := by
  classical
  induction ts using List.reverseRecOn with
  | nil => simp
  | append_singleton ts t ih =>
    have hsplit : (∀ pre u post, ts ++ [t] = pre ++ u :: post → Admits pre u →
        ¬Joined pre u.source u.target) ↔
        (∀ pre u post, ts = pre ++ u :: post → Admits pre u → ¬Joined pre u.source u.target) ∧
          (Admits ts t → ¬Joined ts t.source t.target) := by
      constructor
      · exact fun h => ⟨fun pre u post he => h pre u (post ++ [t]) (by simp [he]),
          h ts t [] rfl⟩
      · rintro ⟨h, hlast⟩ pre u post he
        rcases List.eq_nil_or_concat post with rfl | ⟨post, v, rfl⟩
        · obtain ⟨rfl, hu⟩ := List.append_inj' he rfl
          obtain rfl := List.head_eq_of_cons_eq hu
          exact hlast
        · rw [List.concat_eq_append, ← List.cons_append, ← List.append_assoc] at he
          obtain ⟨rfl, _⟩ := List.append_inj' he rfl
          exact h pre u post rfl
    rw [hsplit, ← ih, collectAll_concat, collect_eq]
    split_ifs with hi
    · rw [← List.concat_eq_append, List.nodup_concat, mem_collectAll]
      simp [hi, and_comm]
    · simp [hi]

end Gpd.Arcs
