import Gpd.Connection.Link
import Gpd.Machine.Pool

/-! The server: its acceptor, its connections, and the loop that runs their handlers. -/
namespace Gpd.Server
open Cxx Machine Connection

/-- The connections in the order they were accepted, whether an `async_accept` is in flight,
and what ended `io_service.run()` or keeps it in a handler, if something did. -/
structure TcpServer where
  links : List Link
  accepting : Bool
  terminated : Option Fault
  deriving DecidableEq, Repr

def startAccept (s : TcpServer) : TcpServer := { s with accepting := true }

def handleAccept (error : ErrorCode) (s : TcpServer) : TcpServer :=
  startAccept (if error = 0 then { s with links := s.links ++ [Link.accepted] } else s)

def TcpServer.new : TcpServer := startAccept ⟨[], false, none⟩

/-- Completed accepts with their error code, and events of the connections. -/
abbrev Event := PoolEvent ErrorCode Connection.Event

/-- Every connection is given the callback of the server. -/
def withCallback (callback : Bytes → Except Fault Bytes) : Connection.Event → Connection.Event
  | .handleRead i host => .handleRead i { host with processingCallback := callback }
  | e => e

/-- One handler of the loop. The only `catch` is behind the loop. -/
def step (callback : Bytes → Except Fault Bytes) (s : TcpServer) (e : Event) : Option TcpServer :=
  if s.terminated ≠ none then none
  else match e with
    | .arrival error =>
      if s.accepting then some (handleAccept error { s with accepting := false }) else none
    | .member i e =>
      (s.links[i]?).bind fun l => (l.step (withCallback callback e)).map fun l' =>
        { s with links := s.links.set i l', terminated := l'.fault }

variable {callback : Bytes → Except Fault Bytes} {s t : TcpServer} {e : Event}

/-- What an enabled event does. -/
inductive Steps (callback : Bytes → Except Fault Bytes) (s : TcpServer) : Event → TcpServer → Prop
  | accepted (h : s.accepting = true) :
      Steps callback s (.arrival 0) { s with links := s.links ++ [Link.accepted] }
  | refused (error : ErrorCode) (h : s.accepting = true) (he : error ≠ 0) :
      Steps callback s (.arrival error) s
  | client (i : ℕ) (e : Connection.Event) (l l' : Link) (hl : s.links[i]? = some l)
      (h : l.step (withCallback callback e) = some l') :
      Steps callback s (.member i e) { s with links := s.links.set i l', terminated := l'.fault }

theorem step_steps (h : step callback s e = some t) :
    s.terminated = none ∧ Steps callback s e t := by
  by_cases hterm : s.terminated = none
  case neg => simp [step, hterm] at h
  refine ⟨hterm, ?_⟩
  rw [step.eq_def, if_neg (by simpa using hterm)] at h
  cases e with
  | arrival error =>
    simp only [Option.ite_none_right_eq_some, Option.some.injEq] at h
    obtain ⟨ha, rfl⟩ := h
    obtain ⟨links, accepting, terminated⟩ := s
    obtain rfl : accepting = true := ha
    by_cases he : error = 0
    · subst he
      exact .accepted rfl
    · rw [handleAccept, if_neg he]
      exact .refused error rfl he
  | member i e =>
    obtain ⟨l, hl, h⟩ := Option.bind_eq_some_iff.mp h
    obtain ⟨l', hl', rfl⟩ := Option.map_eq_some_iff.mp h
    exact .client i e l l' hl hl'

lemma Steps.keeps_accepting (h : Steps callback s e t) : t.accepting = s.accepting := by
  cases h <;> rfl

lemma run_keeps_accepting {es : List Event} (h : run (step callback) es s = some t) :
    t.accepting = s.accepting := by
  induction es generalizing s with
  | nil =>
    obtain rfl := Option.some.inj h
    rfl
  | cons e es ih =>
    obtain ⟨u, he, hes⟩ := Option.bind_eq_some_iff.mp h
    exact (ih hes).trans (step_steps he).2.keeps_accepting

def serving (links : List Link) : TcpServer := ⟨links, true, none⟩

/-- The step of a connection, if its handler raises no exception. -/
def quietStep (callback : Bytes → Except Fault Bytes) (l : Link) (e : Connection.Event) :
    Option Link :=
  (l.step (withCallback callback e)).filter fun l' => l'.fault = none

abbrev connections (callback : Bytes → Except Fault Bytes) :
    List Link → Event → Option (List Link) :=
  Pool.next (· = 0) (quietStep callback) Link.accepted

/-- As long as no exception escapes, the server is a pool of independent connections. -/
theorem step_serving {xs ys : List Link} :
    step callback (serving xs) e = some (serving ys) ↔ connections callback xs e = some ys := by
  have hinj : ∀ xs ys : List Link, serving xs = serving ys ↔ xs = ys := by simp [serving]
  cases e with
  | arrival error =>
    have hstep : step callback (serving xs) (.arrival error) =
        some (serving (if error = 0 then xs ++ [Link.accepted] else xs)) := by
      rw [step.eq_def]
      by_cases he : error = 0 <;> simp [serving, handleAccept, startAccept, he]
    rw [hstep]
    simp only [Pool.next, Option.some.injEq, hinj]
  | member i e =>
    rw [step.eq_def, if_neg (by simp [serving])]
    simp only [Pool.next, Option.bind_eq_some_iff, Option.map_eq_some_iff]
    refine exists_congr fun l => and_congr_right fun _ => ?_
    constructor
    · rintro ⟨l', hl', h⟩
      obtain ⟨rfl, _, hfault⟩ := TcpServer.mk.inj h
      exact ⟨l', by simp [quietStep, hl', hfault], rfl⟩
    · rintro ⟨l', hl', rfl⟩
      obtain ⟨hl', hfault⟩ := Option.filter_eq_some_iff.mp hl'
      exact ⟨l', hl', by simpa [serving] using hfault⟩

lemma run_terminated {es : List Event} (h : run (step callback) es s = some t)
    (ht : t.terminated = none) : s.terminated = none := by
  cases es with
  | nil =>
    obtain rfl := Option.some.inj h
    exact ht
  | cons e es =>
    obtain ⟨u, he, _⟩ := Option.bind_eq_some_iff.mp h
    exact (step_steps he).1

lemma eq_serving (ha : s.accepting = true) (ht : s.terminated = none) : s = serving s.links := by
  rw [serving, ← ha, ← ht]

theorem run_serving {es : List Event} {xs ys : List Link} :
    run (step callback) es (serving xs) = some (serving ys) ↔
      run (connections callback) es xs = some ys := by
  induction es generalizing xs with
  | nil => simp [run, serving]
  | cons e es ih =>
    simp only [run, Option.bind_eq_some_iff]
    constructor
    · rintro ⟨u, he, hes⟩
      have hu : u = serving u.links :=
        eq_serving (step_steps he).2.keeps_accepting (run_terminated hes rfl)
      rw [hu] at he hes
      exact ⟨u.links, step_serving.mp he, ih.mp hes⟩
    · rintro ⟨zs, he, hes⟩
      exact ⟨serving zs, step_serving.mpr he, ih.mpr hes⟩

end Gpd.Server
