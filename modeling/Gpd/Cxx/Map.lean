import Mathlib

/-! `std::map` as the list of its entries in the order of their keys. -/
namespace Gpd.Cxx.Map

variable {α β : Type} [LinearOrder α]

/-- `m[k] = v` -/
def insert (k : α) (v : β) : List (α × β) → List (α × β)
  | [] => [(k, v)]
  | (l, w) :: m =>
    if k < l then (k, v) :: (l, w) :: m
    else if k = l then (k, v) :: m
    else (l, w) :: insert k v m

def Sorted (m : List (α × β)) : Prop := m.Pairwise fun a b => a.1 < b.1

/-- The map after the entries have been stored one after the other. -/
def ofEntries (es : List (α × β)) : List (α × β) :=
  es.foldl (fun m e => insert e.1 e.2 m) []

lemma sorted_nil : Sorted ([] : List (α × β)) := List.Pairwise.nil

lemma mem_insert {k : α} {v : β} {m : List (α × β)} {e : α × β} (h : e ∈ insert k v m) :
    e = (k, v) ∨ e ∈ m := by
  induction m with
  | nil => exact .inl (List.mem_singleton.mp h)
  | cons a m ih =>
    obtain ⟨l, w⟩ := a
    rw [insert] at h
    split_ifs at h with hlt heq
    · exact List.mem_cons.mp h
    · rcases List.mem_cons.mp h with h | h
      · exact .inl h
      · exact .inr (List.mem_cons_of_mem _ h)
    · rcases List.mem_cons.mp h with h | h
      · exact .inr (h ▸ List.mem_cons_self)
      · exact (ih h).imp_right (List.mem_cons_of_mem _)

theorem sorted_insert {k : α} {v : β} {m : List (α × β)} (h : Sorted m) :
    Sorted (insert k v m) := by
  induction m with
  | nil => exact List.pairwise_singleton _ _
  | cons a m ih =>
    obtain ⟨l, w⟩ := a
    obtain ⟨hl, hm⟩ := List.pairwise_cons.mp h
    rw [insert]
    split_ifs with hlt heq
    · refine List.pairwise_cons.mpr ⟨fun e he => ?_, h⟩
      rcases List.mem_cons.mp he with rfl | he
      · exact hlt
      · exact hlt.trans (hl e he)
    · exact List.pairwise_cons.mpr ⟨fun e he => heq ▸ hl e he, hm⟩
    · refine List.pairwise_cons.mpr ⟨fun e he => ?_, ih hm⟩
      rcases mem_insert he with rfl | he
      · exact lt_of_le_of_ne (not_lt.mp hlt) (Ne.symm heq)
      · exact hl e he

lemma insert_of_forall_lt {k : α} {v : β} {m : List (α × β)} (h : ∀ e ∈ m, e.1 < k) :
    insert k v m = m ++ [(k, v)] := by
  induction m with
  | nil => rfl
  | cons a m ih =>
    obtain ⟨l, w⟩ := a
    have hl : l < k := h (l, w) (by simp)
    rw [insert, if_neg hl.asymm, if_neg hl.ne', ih fun e he => h e (by simp [he])]
    rfl

lemma foldl_insert_sorted {m es : List (α × β)} (h : Sorted (m ++ es)) :
    es.foldl (fun m e => insert e.1 e.2 m) m = m ++ es := by
  induction es generalizing m with
  | nil => simp
  | cons e es ih =>
    have hlt : ∀ d ∈ m, d.1 < e.1 := fun d hd =>
      (List.pairwise_append.mp h).2.2 d hd e (by simp)
    rw [List.foldl_cons, insert_of_forall_lt hlt, ih (by simpa using h)]
    simp

theorem ofEntries_of_sorted {es : List (α × β)} (h : Sorted es) : ofEntries es = es :=
  foldl_insert_sorted (m := []) h

lemma sorted_foldl_insert {m : List (α × β)} (es : List (α × β)) (h : Sorted m) :
    Sorted (es.foldl (fun m e => insert e.1 e.2 m) m) := by
  induction es generalizing m with
  | nil => exact h
  | cons e es ih => exact ih (sorted_insert h)

theorem sorted_ofEntries (es : List (α × β)) : Sorted (ofEntries es) :=
  sorted_foldl_insert es sorted_nil

lemma mem_foldl_insert {m es : List (α × β)} {e : α × β}
    (h : e ∈ es.foldl (fun m e => insert e.1 e.2 m) m) : e ∈ m ∨ e ∈ es := by
  induction es generalizing m with
  | nil => exact .inl h
  | cons a es ih =>
    rcases ih h with h | h
    · rcases mem_insert h with rfl | h
      · exact .inr (by simp)
      · exact .inl h
    · exact .inr (by simp [h])

lemma mem_of_mem_ofEntries {es : List (α × β)} {e : α × β} (h : e ∈ ofEntries es) : e ∈ es :=
  (mem_foldl_insert h).resolve_left (by simp)

lemma length_insert_le (k : α) (v : β) (m : List (α × β)) :
    (insert k v m).length ≤ m.length + 1 := by
  induction m with
  | nil => exact le_rfl
  | cons a m ih =>
    obtain ⟨l, w⟩ := a
    rw [insert]
    split_ifs <;> simp only [List.length_cons] <;> omega

lemma length_foldl_insert_le (m es : List (α × β)) :
    (es.foldl (fun m e => insert e.1 e.2 m) m).length ≤ m.length + es.length := by
  induction es generalizing m with
  | nil => exact le_rfl
  | cons e es ih =>
    have hle := length_insert_le e.1 e.2 m
    have hrest := ih (insert e.1 e.2 m)
    simp only [List.foldl_cons, List.length_cons]
    omega

lemma length_ofEntries_le (es : List (α × β)) : (ofEntries es).length ≤ es.length := by
  have h := length_foldl_insert_le [] es
  rwa [List.length_nil, zero_add] at h

end Gpd.Cxx.Map
