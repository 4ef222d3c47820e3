import Gpd.Connection.Link
import Gpd.Http.Message

/-! How often a connection answers, and how far into the stream its answer reaches. The length
of a body is the one that the header of the stream declares. -/
namespace Gpd.Connection
open Cxx Text Machine Http

/-- At most one callback and at most one response; the callback gets bytes as they arrived, and
none behind the declared body. -/
structure OneAnswer (l : Link) : Prop where
  callbacks : (callbacks l.log).length ≤ 1
  responses : (responses l.log).length ≤ 1
  within : ∀ x ∈ Gpd.Connection.callbacks l.log, x <:+: throughBody l.arrived

/-- The package makes the body pass the completion test. -/
def Fills (host : Host) (c : TcpConnection) (buf : Bytes) : Prop :=
  (c.packageCounter ≠ 0 ∧ (c.take buf).Complete) ∨
  (c.packageCounter = 0 ∧ ascii "POST" <+: buf ∧ ∃ d, parseContentLength host buf = .ok d ∧
    (d = 0 → host.shutdown = .ok ()) ∧ bodyPart buf ≠ [] ∧
    ((c.begin buf d).take (bodyPart buf)).Complete)

/-- No data is handled after a callback; and when the body passes the completion test, the data
handled by then is a beginning of what arrived, and ends with the declared body at the latest. -/
def NoExcess (l : Link) (e : Event) : Prop :=
  ∀ host buf, l.Handles e host buf → callbacks l.log = [] ∧
    (Fills host l.conn buf → received l.log ++ buf <+: throughBody l.arrived)

variable {host : Host} {c : TcpConnection} {o : Outcome TcpConnection Effect Fault Unit}

lemma Collects.answers {body : Bytes} (h : Collects host body c o) :
    (callbacks o.trace).length ≤ 1 ∧
      (responses o.trace).length ≤ (callbacks o.trace).length := by
  cases h <;> simp

theorem Processes.answers {buf : Bytes} (h : Processes host buf c o) :
    (callbacks o.trace).length ≤ 1 ∧ (responses o.trace).length ≤ 1 ∧
      (o.state.packageCounter ≠ 0 → callbacks o.trace = [] → responses o.trace = []) := by
  cases h with
  | get h0 | options h0 => simp [h0]
  | invalid | unread | refused | headerOnly => simp
  | first _ _ d _ _ _ o ho =>
    obtain ⟨h1, h2⟩ := ho.answers
    have hnone : callbacks o.trace = [] → responses o.trace = [] := fun hn => by
      simpa [hn] using h2
    exact ⟨by simpa using h1, by simpa using h2.trans h1, fun _ => by simpa using hnone⟩
  | later _ o ho =>
    obtain ⟨h1, h2⟩ := ho.answers
    have hnone : callbacks o.trace = [] → responses o.trace = [] := fun hn => by
      simpa [hn] using h2
    exact ⟨by simpa using h1, by simpa using h2.trans h1, fun _ => by simpa using hnone⟩

lemma Collects.complete {body x : Bytes} (h : Collects host body c o)
    (hx : x ∈ callbacks o.trace) : (c.take body).Complete := by
  cases h with
  | waiting => simp at hx
  | thrown h | answered h => exact h

theorem Processes.fills {buf x : Bytes} (h : Processes host buf c o)
    (hx : x ∈ callbacks o.trace) : Fills host c buf := by
  cases h with
  | get | options | invalid | unread | refused | headerOnly => simp at hx
  | first h0 hp d hd hs hb o ho =>
    exact .inr ⟨h0, hp, d, hd, hs, hb, ho.complete (x := x) (by simpa using hx)⟩
  | later h0 o ho => exact .inl ⟨h0, ho.complete (x := x) (by simpa using hx)⟩

lemma Collects.suffix {body s : Bytes} (h : Collects host body c o)
    (hs : c.message ++ body <:+ s) :
    o.state.message <:+ s ∧ ∀ x ∈ callbacks o.trace, x <:+ s := by
  cases h <;> simpa using hs

theorem Processes.suffix {buf r : Bytes} (h : Processes host buf c o) (hm : c.message <:+ r)
    (h0 : c.packageCounter = 0 → c.message = []) :
    o.state.message <:+ r ++ buf ∧ ∀ x ∈ callbacks o.trace, x <:+ r ++ buf := by
  cases h with
  | get hc | options hc | invalid hc | unread hc | refused hc | headerOnly hc => simp [h0 hc]
  | first hc hp d hd hs hb o ho =>
    have hbody : (c.begin buf d).message ++ bodyPart buf <:+ r ++ buf := by
      simpa [h0 hc, bodyPart] using (List.drop_suffix _ buf).trans (List.suffix_append r buf)
    simpa using ho.suffix hbody
  | later hc o ho =>
    obtain ⟨u, rfl⟩ := hm
    simpa using ho.suffix (s := u ++ c.message ++ buf) ⟨u, by simp⟩

namespace Link

lemma Untouched.silent {l : Link} (h : l.Untouched) :
    callbacks l.log = [] ∧ responses l.log = [] := by
  have hlog := h.log
  generalize l.log = t at hlog
  induction t with
  | nil => exact ⟨rfl, rfl⟩
  | cons e t ih =>
    obtain ⟨h1, h2⟩ := ih fun e' he' => hlog e' (by simp [he'])
    rcases hlog e (by simp) with rfl | rfl <;> simp [h1, h2]

/-- The invariant behind `OneAnswer`: the message is an end of the stream that was handled, and
a counted package responds only after its callback. -/
structure Answering (l : Link) : Prop extends OneAnswer l where
  message : l.conn.message <:+ received l.log
  fresh : l.conn.packageCounter ≠ 0 → Gpd.Connection.callbacks l.log = [] →
    Gpd.Connection.responses l.log = []

lemma Answering.extend {l l' : Link} (h : l.Answering) {t : List Effect}
    (hlog : l'.log = l.log ++ t) (hc : Gpd.Connection.callbacks t = [])
    (hr : Gpd.Connection.responses t = []) (ht : received t = [])
    (harrived : l.arrived <+: l'.arrived)
    (hconn : l'.conn = l.conn ∨ ∃ bytes, l'.conn = l.conn.store bytes) : l'.Answering := by
  have hsame : l'.conn.message = l.conn.message ∧
      l'.conn.packageCounter = l.conn.packageCounter := by
    rcases hconn with hconn | ⟨bytes, hconn⟩ <;> simp [hconn]
  obtain ⟨u, hu⟩ := harrived
  refine ⟨⟨by simpa [hlog, hc] using h.callbacks, by simpa [hlog, hr] using h.responses,
    fun x hx => ?_⟩, by simpa [hlog, ht, hsame] using h.message, ?_⟩
  · rw [← hu]
    exact (h.within x (by simpa [hlog, hc] using hx)).trans (throughBody_append _ u).isInfix
  · rw [hsame.2, hlog]
    simpa [hc, hr] using h.fresh

theorem Steps.keeps_answering {l l' : Link} {e : Event} (h : Steps l e l') (hsound : l.Sound)
    (hok : NoExcess l e) (hl : l.Answering) : l'.Answering := by
  have hsame : l.arrived <+: l.arrived := List.prefix_rfl
  cases h with
  | connected => exact hl.extend (absorb_log _ _) (by simp) (by simp) (by simp) hsame (.inl rfl)
  | aborted => exact hl.extend (absorb_log _ _) (by simp) (by simp) (by simp) hsame (.inl rfl)
  | stored i error bytes =>
    exact hl.extend (t := []) (by simp) rfl rfl rfl (List.prefix_append _ bytes)
      (.inr ⟨bytes, rfl⟩)
  | written => exact hl.extend (absorb_log _ _) (by simp) (by simp) (by simp) hsame (.inl rfl)
  | handled i host error bytes hi o ho =>
    cases ho with
    | eof => exact hl.extend (absorb_log _ _) (by simp) (by simp) (by simp) hsame (.inl rfl)
    | failed => exact hl.extend (absorb_log _ _) (by simp) (by simp) (by simp) hsame (.inl rfl)
    | empty => exact hl.extend (absorb_log _ _) (by simp) (by simp) (by simp) hsame (.inl rfl)
    | data herr hne _ ho =>
      have hsize := hsound.stored.toNat_size (List.mem_of_getElem? hi)
      rw [hsize] at hne ho
      obtain ⟨hnone, hwithin⟩ := hok host _ ⟨i, error, bytes, rfl, hi, herr, rfl, hne⟩
      generalize l.conn.buffer.take bytes.length = buf at ho hwithin
      obtain ⟨h1, h2, h3⟩ := ho.answers
      have hopening := fun h0 => hsound.opening.untouched h0 hi
      obtain ⟨hmessage, hends⟩ := ho.suffix hl.message fun h0 => (hopening h0).message
      -- before this package nothing was answered, so nothing was written either
      have hquiet : Gpd.Connection.responses l.log = [] := by
        by_cases h0 : l.conn.packageCounter = 0
        · exact (hopening h0).silent.2
        · exact hl.fresh h0 hnone
      refine ⟨⟨by simpa [hnone] using h1, by simpa [hquiet] using h2, fun x hx => ?_⟩, ?_, ?_⟩
      · have hx : x ∈ Gpd.Connection.callbacks o.trace := by simpa [hnone] using hx
        exact (hends x hx).isInfix.trans (hwithin (ho.fills hx)).isInfix
      · simpa [ho.bookkeeping.2.2] using hmessage
      · simpa [hnone, hquiet] using h3

end Link

section Sample

lemma noExcess_of_no_read {l : Link} {e : Event} (h : ∀ i host, e ≠ .handleRead i host) :
    NoExcess l e := fun _ _ hh => absurd hh (Link.not_handles h)

end Sample

end Gpd.Connection
