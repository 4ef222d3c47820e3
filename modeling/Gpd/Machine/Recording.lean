import Gpd.Machine.Action

/-! Computations that differ only in what they record: a second version of an action may
log other things than the first, with rules to show that it does nothing else. -/
namespace Gpd.Machine.Action

universe u

variable {σ ω ω' ε : Type*} {α β : Type u}

/-- Equal results and states from every state, whatever the traces. -/
def Agrees (x : Action σ ω ε α) (y : Action σ ω' ε α) : Prop :=
  ∀ s, (x s).result = (y s).result ∧ (x s).state = (y s).state

def silently (y : Action σ ω' ε α) : Action σ ω ε α := fun s => ⟨(y s).result, (y s).state, []⟩

def Silent (x : Action σ ω ε α) : Prop := ∀ s, (x s).trace = []

section Agreement

variable {x : Action σ ω ε α} {y : Action σ ω' ε α}

theorem Agrees.symm (h : Agrees x y) : Agrees y x := fun s => ⟨(h s).1.symm, (h s).2.symm⟩

theorem agrees_silently (y : Action σ ω' ε α) : Agrees (silently y : Action σ ω ε α) y :=
  fun _ => ⟨rfl, rfl⟩

theorem Agrees.bind {k : α → Action σ ω ε β} {l : α → Action σ ω' ε β} (h : Agrees x y)
    (hk : ∀ a, Agrees (k a) (l a)) : Agrees (x >>= k) (y >>= l) := by
  intro s
  obtain ⟨hresult, hstate⟩ := h s
  rw [bind_apply, bind_apply]
  generalize x s = o, y s = o' at hresult hstate
  obtain ⟨result, state, trace⟩ := o
  obtain ⟨result', state', trace'⟩ := o'
  obtain rfl : result = result' := hresult
  obtain rfl : state = state' := hstate
  cases result with
  | error e => exact ⟨rfl, rfl⟩
  | ok a => exact hk a state

theorem agrees_lift (r : Except ε α) :
    Agrees (liftM r : Action σ ω ε α) (liftM r : Action σ ω' ε α) := fun _ => ⟨rfl, rfl⟩

theorem agrees_get : Agrees (get : Action σ ω ε σ) (get : Action σ ω' ε σ) := fun _ => ⟨rfl, rfl⟩

theorem agrees_modify (f : σ → σ) :
    Agrees (modify f : Action σ ω ε Unit) (modify f : Action σ ω' ε Unit) := fun _ => ⟨rfl, rfl⟩

theorem Agrees.ite {p : Prop} [Decidable p] {x' : Action σ ω ε α} {y' : Action σ ω' ε α}
    (h : Agrees x y) (h' : Agrees x' y') : Agrees (if p then x else x') (if p then y else y') := by
  split_ifs
  · exact h
  · exact h'

theorem Agrees.recorded {α : Type} {x : Action σ ω ε α} {y : Action σ ω' ε α} (h : Agrees x y)
    (e : ω) : Agrees (emit e >>= fun _ => x) y := h

end Agreement

section Silence

theorem silent_silently (y : Action σ ω' ε α) : Silent (silently y : Action σ ω ε α) :=
  fun _ => rfl

theorem silent_get : Silent (get : Action σ ω ε σ) := fun _ => rfl

theorem silent_modify (f : σ → σ) : Silent (modify f : Action σ ω ε Unit) := fun _ => rfl

variable {x : Action σ ω ε α} {k : α → Action σ ω ε β}

theorem trace_andThen_of_silent (hk : ∀ a, Silent (k a)) (o : Outcome σ ω ε α) :
    (o.andThen k).trace = o.trace := by
  rcases Outcome.andThen_cases o k with ⟨e, _, he⟩ | ⟨a, _, ha⟩
  · rw [he]
  · rw [ha, Outcome.after_trace, hk a, List.append_nil]

theorem Silent.bind (hx : Silent x) (hk : ∀ a, Silent (k a)) : Silent (x >>= k) := fun s => by
  rw [bind_apply, trace_andThen_of_silent hk, hx]

theorem Silent.ite {p : Prop} [Decidable p] {x' : Action σ ω ε α} (h : Silent x)
    (h' : Silent x') : Silent (if p then x else x') := by
  split_ifs
  · exact h
  · exact h'

end Silence

end Gpd.Machine.Action
