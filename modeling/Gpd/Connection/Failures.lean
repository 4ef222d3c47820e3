import Gpd.Connection.Request
import Gpd.Connection.Link

/-! Which events let an exception escape from a handler of the connection. -/
namespace Gpd.Connection
open Cxx Text Machine

/-- The length `d` that a first read declares. Without the field, the length is read from
outside the buffer. -/
def Announces (host : Host) (buf : Bytes) (d : Size) : Prop :=
  declaredLength buf = some d ∨
    (position headerName buf = none ∧ parseContentLength host buf = .ok d)

theorem parseContentLength_eq_ok (host : Host) {buf : Bytes} (hlen : buf.length < 2 ^ 64)
    {d : Size} : parseContentLength host buf = .ok d ↔ Announces host buf d := by
  unfold Announces
  cases h : position headerName buf with
  | none => simp [declaredLength, lengthText, h]
  | some i =>
    rw [parseContentLength_eq_ok_iff host hlen (position_eq_some.mp h).1]
    simp

/-- The package is processed without an exception: a shutdown that it causes succeeds, the
length it declares can be read, and a message that it completes is accepted. -/
structure Contained (accepts : Bytes → Prop) (host : Host) (c : TcpConnection) (buf : Bytes) :
    Prop where
  method : c.packageCounter = 0 → ¬ascii "GET" <+: buf → ¬ascii "POST" <+: buf →
    ¬ascii "OPTIONS" <+: buf → host.shutdownFails = false
  length : c.packageCounter = 0 → ascii "POST" <+: buf →
    ∃ d, Announces host buf d ∧ (d = 0 → host.shutdownFails = false) ∧
      (bodyPart buf ≠ [] → ((c.begin buf d).take (bodyPart buf)).Complete →
        accepts (c.message ++ bodyPart buf))
  later : c.packageCounter ≠ 0 → (c.take buf).Complete → accepts (c.message ++ buf)

/-- The event raises no exception: an end of file is shut down successfully, and a package
is contained. -/
structure Calm (accepts : Bytes → Prop) (l : Link) (e : Event) : Prop where
  eof : ∀ i host bytes, e = .handleRead i host → l.chains[i]? = some (.completed 2 bytes) →
    host.shutdownFails = false
  package : ∀ host buf, l.Handles e host buf → Contained accepts host l.conn buf

variable {host : Host} {accepts : Bytes → Prop} {c : TcpConnection}
  {o : Outcome TcpConnection Effect Fault Unit}

lemma shutdown_eq_ok : host.shutdown = .ok () ↔ host.shutdownFails = false := by
  unfold Host.shutdown
  split_ifs with h <;> simp [h]

section First

variable {buf : Bytes} (h0 : c.packageCounter = 0)
include h0

lemma contained_of_fixed (h : ascii "GET" <+: buf ∨ ascii "OPTIONS" <+: buf) :
    Contained accepts host c buf where
  method := fun _ hget _ hoptions => (h.elim hget hoptions).elim
  length := fun _ hpost =>
    (h.elim (post_excludes hpost).1 (post_excludes hpost).2).elim
  later := fun h1 => absurd h0 h1

lemma contained_invalid (hget : ¬ascii "GET" <+: buf) (hpost : ¬ascii "POST" <+: buf)
    (hoptions : ¬ascii "OPTIONS" <+: buf) :
    Contained accepts host c buf ↔ host.shutdownFails = false :=
  ⟨fun h => h.method h0 hget hpost hoptions, fun h =>
    ⟨fun _ _ _ _ => h, fun _ hp => absurd hp hpost, fun h1 => absurd h0 h1⟩⟩

lemma contained_post (hpost : ascii "POST" <+: buf) (hlen : buf.length < 2 ^ 64) :
    Contained accepts host c buf ↔
      ∃ d, parseContentLength host buf = .ok d ∧ (d = 0 → host.shutdown = .ok ()) ∧
        (bodyPart buf ≠ [] → ((c.begin buf d).take (bodyPart buf)).Complete →
          accepts (c.message ++ bodyPart buf)) := by
  simp only [parseContentLength_eq_ok host hlen, shutdown_eq_ok]
  exact ⟨fun h => h.length h0 hpost, fun h =>
    ⟨fun _ _ hp => absurd hpost hp, fun _ _ => h, fun h1 => absurd h0 h1⟩⟩

end First

section Outcomes

variable (haccepts : ∀ m, (∃ json, host.processingCallback m = .ok json) ↔ accepts m)
include haccepts

lemma Collects.isOk_iff {body : Bytes} (h : Collects host body c o) :
    o.result = .ok () ↔ ((c.take body).Complete → accepts (c.message ++ body)) := by
  rw [← haccepts]
  cases h with
  | waiting h => simp [h]
  | thrown h e he => simp [h, he]
  | answered h json hj => simp [h, hj]

/-- A package raises no exception exactly when it is contained. -/
theorem Processes.isOk_iff {buf : Bytes} (hlen : buf.length < 2 ^ 64)
    (h : Processes host buf c o) : o.result = .ok () ↔ Contained accepts host c buf := by
  cases h with
  | get h0 hm => exact iff_of_true rfl (contained_of_fixed h0 (.inl hm))
  | options h0 hm => exact iff_of_true rfl (contained_of_fixed h0 (.inr hm))
  | invalid h0 hpost hget hoptions =>
    rw [contained_invalid h0 hget hpost hoptions]
    exact shutdown_eq_ok
  | unread h0 hpost e hd =>
    rw [contained_post h0 hpost hlen]
    simp [hd]
  | refused h0 hpost e hd hs =>
    rw [contained_post h0 hpost hlen]
    simp [hd, hs]
  | headerOnly h0 hpost d hd hs hb =>
    rw [contained_post h0 hpost hlen]
    exact iff_of_true rfl ⟨d, hd, hs, fun h => absurd hb h⟩
  | first h0 hpost d hd hs hb o ho =>
    rw [contained_post h0 hpost hlen]
    rw [Outcome.after_result, counting_result, ho.isOk_iff haccepts, begin_message]
    constructor
    · exact fun h => ⟨d, hd, hs, fun _ => h⟩
    · rintro ⟨d', hd', _, h⟩
      obtain rfl := Except.ok.inj (hd.symm.trans hd')
      exact h hb
  | later h0 o ho =>
    rw [Outcome.after_result, ho.isOk_iff haccepts]
    exact ⟨fun h => ⟨fun h1 => absurd h1 h0, fun h1 => absurd h1 h0, fun _ => h⟩,
      fun h => h.later h0⟩

end Outcomes

namespace Link

variable {l l' : Link} {e : Event}

lemma faultOf_eq_none {r : Except Fault Unit} : faultOf r = none ↔ r = .ok () := by
  cases r <;> simp [faultOf]

lemma calm_of_no_read (h : ∀ i host, e ≠ .handleRead i host) : Calm accepts l e where
  eof := fun i host _ he => absurd he (h i host)
  package := fun _ _ hh => absurd hh (not_handles h)

lemma calm_handleRead {i : ℕ} {error : ErrorCode} {bytes : Bytes}
    (hi : l.chains[i]? = some (.completed error bytes)) :
    Calm accepts l (.handleRead i host) ↔
      (error = 2 → host.shutdownFails = false) ∧
      (error = 0 ∨ error = 89 → l.conn.buffer.take bytes.length ≠ [] →
        Contained accepts host l.conn (l.conn.buffer.take bytes.length)) := by
  constructor
  · rintro ⟨heof, hpackage⟩
    refine ⟨fun he => heof i host bytes rfl (he ▸ hi), fun herr hne => ?_⟩
    exact hpackage host _ ⟨i, error, bytes, rfl, hi, herr, rfl, hne⟩
  · rintro ⟨heof, hpackage⟩
    constructor
    · rintro j host' bytes' he hj
      obtain ⟨rfl, rfl⟩ := Event.handleRead.inj he
      rw [hi] at hj
      exact heof (Chain.completed.inj (Option.some.inj hj)).1
    · rintro host' buf ⟨j, error', bytes', he, hj, herr, rfl, hne⟩
      obtain ⟨rfl, rfl⟩ := Event.handleRead.inj he
      rw [hi] at hj
      obtain ⟨rfl, rfl⟩ := Chain.completed.inj (Option.some.inj hj)
      exact hpackage herr hne

theorem Steps.fault_eq_none (h : Steps l e l') (hf : l.fault = none) (hl : l.Stored)
    (accepts : Bytes → Prop) (haccepts : ∀ i host, e = .handleRead i host →
      ∀ m, (∃ json, host.processingCallback m = .ok json) ↔ accepts m) :
    l'.fault = none ↔ Calm accepts l e := by
  cases h with
  | connected | aborted | written => exact iff_of_true rfl (calm_of_no_read (by simp))
  | stored => exact iff_of_true hf (calm_of_no_read (by simp))
  | handled i host error bytes hi o ho =>
    rw [absorb_fault, faultOf_eq_none, calm_handleRead hi]
    have hsize := hl.toNat_size (List.mem_of_getElem? hi)
    cases ho with
    | eof he =>
      subst he
      simp [shutdown_eq_ok]
    | failed he => simp [he.1, he.2.1, he.2.2]
    | empty herr hn =>
      rw [hsize] at hn
      refine iff_of_true rfl ⟨?_, fun _ hne => absurd hn hne⟩
      rintro rfl
      simp at herr
    | data herr hn _ ho =>
      rw [hsize] at hn ho
      rw [ho.isOk_iff (haccepts i host rfl) (by
        have := (hl error bytes (List.mem_of_getElem? hi)).1
        simp only [bufferSize] at this
        simp only [List.length_take]
        omega)]
      constructor
      · refine fun hc => ⟨?_, fun _ _ => hc⟩
        rintro rfl
        simp at herr
      · exact fun h => h.2 herr hn

end Link

end Gpd.Connection
