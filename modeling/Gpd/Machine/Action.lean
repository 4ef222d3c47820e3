import Gpd.Machine.Fallible

/-! Computations over a state that may fail and that record what they do. A
failing computation keeps the state and the trace it had reached. -/
namespace Gpd.Machine

universe u

structure Outcome (σ ω ε α : Type*) where
  result : Except ε α
  state : σ
  trace : List ω

def Action (σ ω ε α : Type*) := σ → Outcome σ ω ε α

variable {σ ω ε γ : Type*} {α β : Type u}

/-- The same outcome with earlier trace entries in front. -/
def Outcome.after (o : Outcome σ ω ε α) (t : List ω) : Outcome σ ω ε α :=
  ⟨o.result, o.state, t ++ o.trace⟩

/-- Continue after a normal result, keeping the trace in order. -/
def Outcome.andThen (o : Outcome σ ω ε α) (k : α → Action σ ω ε β) : Outcome σ ω ε β :=
  match o.result with
  | .ok a => (k a o.state).after o.trace
  | .error e => ⟨.error e, o.state, o.trace⟩

namespace Action

instance : Monad (Action σ ω ε) where
  pure a := fun s => ⟨.ok a, s, []⟩
  bind x k := fun s => (x s).andThen k

instance : MonadLift (Except ε) (Action σ ω ε) where
  monadLift x := fun s => ⟨x, s, []⟩

def get : Action σ ω ε σ := fun s => ⟨.ok s, s, []⟩

def modify (f : σ → σ) : Action σ ω ε Unit := fun s => ⟨.ok (), f s, []⟩

def emit (e : ω) : Action σ ω ε Unit := fun s => ⟨.ok (), s, [e]⟩

@[simp] lemma pure_apply (a : α) (s : σ) : (pure a : Action σ ω ε α) s = ⟨.ok a, s, []⟩ := rfl

@[simp] lemma bind_apply (x : Action σ ω ε α) (k : α → Action σ ω ε β) (s : σ) :
    (x >>= k) s = (x s).andThen k := rfl

@[simp] lemma lift_apply (x : Except ε α) (s : σ) :
    (liftM x : Action σ ω ε α) s = ⟨x, s, []⟩ := rfl

@[simp] lemma get_apply (s : σ) : (get : Action σ ω ε σ) s = ⟨.ok s, s, []⟩ := rfl

@[simp] lemma modify_apply (f : σ → σ) (s : σ) :
    (modify f : Action σ ω ε Unit) s = ⟨.ok (), f s, []⟩ := rfl

@[simp] lemma emit_apply (e : ω) (s : σ) :
    (emit e : Action σ ω ε Unit) s = ⟨.ok (), s, [e]⟩ := rfl

@[simp] lemma ite_apply (p : Prop) [Decidable p] (x y : Action σ ω ε α) (s : σ) :
    (if p then x else y) s = if p then x s else y s := by split <;> rfl

/-- Run an action on each element in turn, stopping at the first failure. -/
def each (f : γ → Action σ ω ε Unit) : List γ → Action σ ω ε Unit
  | [] => pure ()
  | b :: bs => do
      f b
      each f bs

@[simp] lemma each_nil (f : γ → Action σ ω ε Unit) (s : σ) :
    each f [] s = ⟨.ok (), s, []⟩ := rfl

@[simp] lemma each_cons (f : γ → Action σ ω ε Unit) (b : γ) (bs : List γ) (s : σ) :
    each f (b :: bs) s = (f b s).andThen fun _ => each f bs := rfl

end Action

namespace Outcome

@[simp] lemma after_mk (r : Except ε α) (s : σ) (t u : List ω) :
    after ⟨r, s, u⟩ t = ⟨r, s, t ++ u⟩ := rfl

@[simp] lemma after_nil (o : Outcome σ ω ε α) : o.after [] = o := rfl

@[simp] lemma after_after (o : Outcome σ ω ε α) (t u : List ω) :
    (o.after t).after u = o.after (u ++ t) := by simp [after]

@[simp] lemma after_result (o : Outcome σ ω ε α) (t : List ω) :
    (o.after t).result = o.result := rfl

@[simp] lemma after_state (o : Outcome σ ω ε α) (t : List ω) :
    (o.after t).state = o.state := rfl

@[simp] lemma after_trace (o : Outcome σ ω ε α) (t : List ω) :
    (o.after t).trace = t ++ o.trace := rfl

@[simp] lemma andThen_ok (a : α) (s : σ) (t : List ω) (k : α → Action σ ω ε β) :
    andThen ⟨.ok a, s, t⟩ k = (k a s).after t := rfl

@[simp] lemma andThen_error (e : ε) (s : σ) (t : List ω) (k : α → Action σ ω ε β) :
    andThen ⟨.error e, s, t⟩ k = ⟨.error e, s, t⟩ := rfl

@[simp] lemma after_andThen (o : Outcome σ ω ε α) (t : List ω) (k : α → Action σ ω ε β) :
    (o.after t).andThen k = (o.andThen k).after t := by
  unfold andThen
  cases h : o.result <;> simp [after, h]

lemma andThen_of_error {o : Outcome σ ω ε α} {e : ε} (h : o.result = .error e)
    (k : α → Action σ ω ε β) : o.andThen k = ⟨.error e, o.state, o.trace⟩ := by
  simp only [andThen, h]

theorem andThen_cases (o : Outcome σ ω ε α) (k : α → Action σ ω ε β) :
    (∃ e, o.result = .error e ∧ o.andThen k = ⟨.error e, o.state, o.trace⟩) ∨
    (∃ a, o.result = .ok a ∧ o.andThen k = (k a o.state).after o.trace) := by
  unfold andThen
  cases h : o.result with
  | error e => exact .inl ⟨e, rfl, rfl⟩
  | ok a => exact .inr ⟨a, rfl, rfl⟩

end Outcome

/-- A relation between the states before and after, and the trace in between, that
holds of each element's action holds of the whole run, whether it fails or not. -/
theorem Action.each_rel {f : γ → Action σ ω ε Unit} {I : σ → Prop}
    {R : σ → List ω → σ → Prop} (hrefl : ∀ s, R s [] s)
    (htrans : ∀ s t s' u s'', R s t s' → R s' u s'' → R s (t ++ u) s'')
    {l : List γ} (hstep : ∀ b ∈ l, ∀ s, I s → I (f b s).state ∧ R s (f b s).trace (f b s).state)
    {s : σ} (hs : I s) :
    I (each f l s).state ∧ R s (each f l s).trace (each f l s).state := by
  induction l generalizing s with
  | nil => exact ⟨hs, hrefl s⟩
  | cons b l ih =>
    have hb := hstep b (by simp) s hs
    rw [each_cons]
    rcases Outcome.andThen_cases (f b s) (fun _ => each f l) with ⟨e, _, he⟩ | ⟨a, _, ha⟩
    · rw [he]
      exact hb
    · rw [ha]
      have hrest := ih (fun b' hb' => hstep b' (by simp [hb'])) hb.1
      exact ⟨hrest.1, htrans _ _ _ _ _ hb.2 hrest.2⟩

end Gpd.Machine
