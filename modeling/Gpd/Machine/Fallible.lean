import Mathlib

/-! Computations that may fail: when a sequence of two succeeds, and when a list of them. -/
namespace Gpd.Machine

universe u

variable {ε : Type*} {α β : Type u}

@[simp] lemma ok_bind (a : α) (f : α → Except ε β) : (Except.ok a >>= f) = f a := rfl

@[simp] lemma error_bind (e : ε) (f : α → Except ε β) :
    ((Except.error e : Except ε α) >>= f) = .error e := rfl

lemma bind_eq_ok {x : Except ε α} {f : α → Except ε β} {b : β} :
    (x >>= f) = .ok b ↔ ∃ a, x = .ok a ∧ f a = .ok b := by
  cases x <;> simp

lemma bind_error {x : Except ε α} {f : α → Except ε β} {P : ε → Prop}
    (hx : ∀ e, x = .error e → P e) (hf : ∀ a e, f a = .error e → P e) {e : ε}
    (h : (x >>= f) = .error e) : P e := by
  cases x with
  | error e' =>
    obtain rfl := Except.error.inj h
    exact hx _ rfl
  | ok a => exact hf a e h

section Lists

variable {f : α → Except ε β} {a : α} {l : List α} {bs : List β}

lemma mapM_cons_eq_ok :
    (a :: l).mapM f = .ok bs ↔ ∃ b bs', f a = .ok b ∧ l.mapM f = .ok bs' ∧ bs = b :: bs' := by
  rw [List.mapM_cons, bind_eq_ok]
  constructor
  · rintro ⟨b, hb, h⟩
    obtain ⟨bs', hbs, h⟩ := bind_eq_ok.mp h
    exact ⟨b, bs', hb, hbs, (Except.ok.inj h).symm⟩
  · rintro ⟨b, bs', hb, hbs, rfl⟩
    exact ⟨b, hb, bind_eq_ok.mpr ⟨bs', hbs, rfl⟩⟩

lemma mapM_eq_ok_iff : l.mapM f = .ok bs ↔ List.Forall₂ (fun a b => f a = .ok b) l bs := by
  induction l generalizing bs with
  | nil =>
    rw [List.mapM_nil, List.forall₂_nil_left_iff]
    exact ⟨fun h => (Except.ok.inj h).symm, fun h => h ▸ rfl⟩
  | cons a l ih =>
    rw [mapM_cons_eq_ok, List.forall₂_cons_left_iff]
    constructor
    · rintro ⟨b, bs', hb, hbs, rfl⟩
      exact ⟨b, bs', hb, ih.mp hbs, rfl⟩
    · rintro ⟨b, bs', hb, hbs, rfl⟩
      exact ⟨b, bs', hb, ih.mpr hbs, rfl⟩

lemma mapM_length (h : l.mapM f = .ok bs) : bs.length = l.length :=
  (mapM_eq_ok_iff.mp h).length_eq.symm

lemma mapM_eq_ok_map {g : α → β} (h : ∀ a ∈ l, f a = .ok (g a)) : l.mapM f = .ok (l.map g) := by
  rw [mapM_eq_ok_iff, List.forall₂_map_right_iff, List.forall₂_same]
  exact h

lemma mapM_map_eq_ok {γ : Type u} {g : β → γ} {h : α → Except ε γ} (hh : ∀ a, h a = (f a).map g)
    (hl : l.mapM f = .ok bs) : l.mapM h = .ok (bs.map g) := by
  rw [mapM_eq_ok_iff] at hl ⊢
  rw [List.forall₂_map_right_iff]
  exact hl.imp fun a b hb => by rw [hh, hb]; rfl

lemma exists_mapM_eq_ok {P : β → Prop} (h : ∀ a ∈ l, ∃ b, f a = .ok b ∧ P b) :
    ∃ bs, l.mapM f = .ok bs ∧ ∀ b ∈ bs, P b := by
  induction l with
  | nil => exact ⟨[], rfl, by simp⟩
  | cons a l ih =>
    obtain ⟨b, hb, hP⟩ := h a (by simp)
    obtain ⟨bs, hbs, hPs⟩ := ih fun c hc => h c (by simp [hc])
    exact ⟨b :: bs, mapM_cons_eq_ok.mpr ⟨b, bs, hb, hbs, rfl⟩, by simpa using ⟨hP, hPs⟩⟩

end Lists

end Gpd.Machine
