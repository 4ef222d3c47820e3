import Gpd.Server.Basic
import Gpd.Connection.Failures
import Gpd.Layout.Precondition

/-! Which runs of the server isolate its clients from one another. -/
namespace Gpd.Server
open Cxx Machine Connection Layout

/-- After the run the loop still runs and accepts; a pending event of a connection is handled
by that connection alone; and without one of the clients the run ends with the others in the
same states. -/
structure Isolated (callback : Bytes → Except Fault Bytes) (es : List Event) (s : TcpServer) :
    Prop where
  running : s.terminated = none
  accepting : s.accepting = true
  handled : ∀ i e l l', s.links[i]? = some l → l.step (withCallback callback e) = some l' →
    ∃ t, step callback s (.member i e) = some t ∧ t.links = s.links.set i l'
  forgotten : ∀ j, run (step callback) (Pool.forget (· = 0) j 0 es) TcpServer.new =
    some { s with links := s.links.eraseIdx j }

/-- A run after which the loop still runs isolates its clients. -/
theorem isolated_of_running {callback : Bytes → Except Fault Bytes} {es : List Event}
    {s : TcpServer} (hrun : run (step callback) es TcpServer.new = some s)
    (ht : s.terminated = none) : Isolated callback es s := by
  have hs : s = serving s.links := eq_serving (run_keeps_accepting hrun) ht
  refine ⟨ht, run_keeps_accepting hrun, fun i e l l' hl hl' => ?_, fun j => ?_⟩
  · refine ⟨{ s with links := s.links.set i l', terminated := l'.fault }, ?_, rfl⟩
    rw [step.eq_def, if_neg (by simpa using ht)]
    simp [hl, hl']
  · rw [hs] at hrun ⊢
    exact run_serving.mpr (Pool.run_forget (run_serving.mp hrun))

/-- Its connection handles the event to the end: what it shuts down can be shut down, the length
it declares can be read, and the machines it completes are answered. -/
def ClientCalm (js : JsonLibrary) (og : Ogdf.Library) (s : TcpServer) : Event → Prop
  | .arrival _ => True
  | .member i e =>
    ∀ l, s.links[i]? = some l →
      Calm (Answered js og) l (withCallback (processingCallback js og) e)

variable {js : JsonLibrary} {og : Ogdf.Library}

lemma clientCalm_of_no_read {s : TcpServer} {i : ℕ} {e : Connection.Event}
    (h : ∀ k host, e ≠ .handleRead k host) : ClientCalm js og s (.member i e) := by
  intro l _
  apply Link.calm_of_no_read
  cases e with
  | handleRead k host => exact absurd rfl (h k host)
  | handshake | readComplete | handleWrite => simp [withCallback]

lemma handleRead_withCallback {callback : Bytes → Except Fault Bytes} {e : Connection.Event}
    {i : ℕ} {host : Host} (h : withCallback callback e = .handleRead i host) :
    host.processingCallback = callback := by
  cases e with
  | handleRead j host' =>
    obtain ⟨_, rfl⟩ := Event.handleRead.inj h
    rfl
  | handshake | readComplete | handleWrite => cases h

def Stored (s : TcpServer) : Prop := ∀ l ∈ s.links, l.Stored

lemma Steps.keeps_stored {callback : Bytes → Except Fault Bytes} {s t : TcpServer} {e : Event}
    (h : Steps callback s e t) (hs : Stored s) : Stored t := by
  cases h with
  | accepted =>
    intro l hl
    rcases List.mem_append.mp hl with hl | hl
    · exact hs l hl
    · obtain rfl := List.mem_singleton.mp hl
      exact Link.sound_accepted.stored
  | refused => exact hs
  | client i e l l' hl h =>
    have hstored := hs l (List.mem_of_getElem? hl)
    intro l'' hl''
    rcases List.mem_or_eq_of_mem_set hl'' with hl'' | rfl
    · exact hs l'' hl''
    · exact (Link.step_steps hstored h).2.keeps_stored hstored

theorem terminated_iff (hog : og.Asserts) {s t : TcpServer} {e : Event} (hs : Stored s)
    (h : step (processingCallback js og) s e = some t) :
    t.terminated = none ↔ ClientCalm js og s e := by
  obtain ⟨hterm, hsteps⟩ := step_steps h
  cases hsteps with
  | accepted | refused => exact iff_of_true hterm trivial
  | client i e l l' hl hl' =>
    have hstored := hs l (List.mem_of_getElem? hl)
    obtain ⟨hfault, hsteps⟩ := Link.step_steps hstored hl'
    have hcalm := hsteps.fault_eq_none hfault hstored (Answered js og)
      fun i host he m => by
        rw [handleRead_withCallback he]
        exact processingCallback_isOk hog
    simp [ClientCalm, hl, hcalm]

section Sample

def pairLibrary : JsonLibrary := sampleLibrary (ascii "pair") (sampleDocument [1, 2] [(1, 2)])

lemma pair_answered : Answered pairLibrary (assertingOgdf none) (ascii "pair") := by
  have hload : documentToGraph pairLibrary OgdfTest.initial (sampleDocument [1, 2] [(1, 2)]) =
      .ok { OgdfTest.initial with G := ⟨[1, 2], [(0, 1)]⟩ } := rfl
  refine ⟨_, _, sampleLibrary_parse _ _, documentToGraph_eq_ok.mp hload, fun _ => ⟨by decide, ?_⟩⟩
  have hplanar : (⟨[1, 2], [(0, 1)]⟩ : Ogdf.Graph).Planar :=
    Ogdf.Graph.planar_of_one_pair (i := 0) (j := 1) (by decide)
  exact drawnGraph_layoutable assertingOgdf_exact (by decide) (by decide)
    (.inl (assertingOgdf_isPlanar.mpr hplanar))

def pairRequest : Bytes := ascii "POST / HTTP/1.1\r\nContent-Length: 4\r\n\r\npair"

end Sample

end Gpd.Server
