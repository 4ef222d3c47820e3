import Gpd.Connection.Handlers
import Gpd.Machine.Handover

/-! Reads of one connection handled one after another, each storing its bytes before
its `handleRead` runs, and what the recorded effects say about `m_message`. -/
namespace Gpd.Connection
open Cxx Text Machine

variable (host : Host)

/-- A completed read followed by its handler. -/
def handleChunk (chunk : Bytes) : Handler Unit := do
  Action.modify (·.store chunk)
  handleRead host 0 (size chunk)

def handleChunks : List Bytes → Handler Unit := Action.each (handleChunk host)

@[simp] lemma handleChunks_nil (c : TcpConnection) : handleChunks host [] c = ⟨.ok (), c, []⟩ := rfl

lemma handleChunks_cons (b : Bytes) (bs : List Bytes) (c : TcpConnection) :
    handleChunks host (b :: bs) c = (handleChunk host b c).andThen fun _ => handleChunks host bs :=
  rfl

namespace Effect

@[simp] def argument : Effect → Option Bytes
  | .callback m => some m
  | _ => none

@[simp] def bytesWritten : Effect → Bytes
  | .append b => b
  | _ => []

@[simp] def bytesReceived : Effect → Bytes
  | .package b => b
  | _ => []

end Effect

def callbacks (t : List Effect) : List Bytes := t.filterMap Effect.argument

def written (t : List Effect) : Bytes := t.flatMap Effect.bytesWritten

def received (t : List Effect) : Bytes := t.flatMap Effect.bytesReceived

section Projections

variable (e : Effect) (t u : List Effect)

@[simp] lemma callbacks_nil : callbacks [] = [] := rfl
@[simp] lemma written_nil : written [] = [] := rfl
@[simp] lemma received_nil : received [] = [] := rfl

@[simp] lemma callbacks_cons : callbacks (e :: t) = e.argument.toList ++ callbacks t := by
  cases e <;> rfl

@[simp] lemma written_cons : written (e :: t) = e.bytesWritten ++ written t := rfl
@[simp] lemma received_cons : received (e :: t) = e.bytesReceived ++ received t := rfl

@[simp] lemma callbacks_append : callbacks (t ++ u) = callbacks t ++ callbacks u := by
  simp [callbacks]

@[simp] lemma written_append : written (t ++ u) = written t ++ written u := by simp [written]

@[simp] lemma received_append : received (t ++ u) = received t ++ received u := by
  simp [received]

end Projections

/-- Starting from message `m`, each callback gets what has been written by then. -/
def Faithful : Bytes → List Effect → Prop
  | _, [] => True
  | m, .append b :: t => Faithful (m ++ b) t
  | m, .callback x :: t => x = m ∧ Faithful m t
  | m, _ :: t => Faithful m t

lemma faithful_append {m : Bytes} {t u : List Effect} :
    Faithful m (t ++ u) ↔ Faithful m t ∧ Faithful (m ++ written t) u := by
  induction t generalizing m with
  | nil => simp [Faithful, written]
  | cons e t ih => cases e <;> simp [Faithful, ih, and_assoc]

lemma Faithful.split {m x : Bytes} {pre post : List Effect}
    (h : Faithful m (pre ++ .callback x :: post)) : x = m ++ written pre :=
  (faithful_append.mp h).2.1

@[simp] lemma faithful_refusal {m : Bytes} {d : Size} : Faithful m (refusal d) := by
  unfold refusal
  split <;> simp [Faithful]

@[simp] lemma written_refusal {d : Size} : written (refusal d) = [] := by
  unfold refusal
  split <;> simp

@[simp] lemma callbacks_refusal {d : Size} : callbacks (refusal d) = [] := by
  unfold refusal
  split <;> simp

@[simp] lemma received_refusal {d : Size} : received (refusal d) = [] := by
  unfold refusal
  split <;> simp

section Counting

variable (o : Outcome TcpConnection Effect Fault Unit)

@[simp] lemma callbacks_counting :
    callbacks (o.andThen fun _ => countAndRequest).trace = callbacks o.trace := by
  obtain ⟨t, rfl | rfl, h⟩ := counting_trace o <;> simp [h]

@[simp] lemma written_counting :
    written (o.andThen fun _ => countAndRequest).trace = written o.trace := by
  obtain ⟨t, rfl | rfl, h⟩ := counting_trace o <;> simp [h]

@[simp] lemma received_counting :
    received (o.andThen fun _ => countAndRequest).trace = received o.trace := by
  obtain ⟨t, rfl | rfl, h⟩ := counting_trace o <;> simp [h]

lemma faithful_counting {m : Bytes} (h : Faithful m o.trace) :
    Faithful m (o.andThen fun _ => countAndRequest).trace := by
  obtain ⟨t, rfl | rfl, ht⟩ := counting_trace o <;> simp [ht, faithful_append, h, Faithful]

end Counting

@[simp] lemma size_append (a b : Bytes) : size (a ++ b) = size a + size b := by
  simp [size, UInt64.ofNat_add]

/-- A message counts as complete from two bytes before the declared length on. -/
def due (d : Size) (m : Bytes) : Prop := d ≤ size m + 2

instance (d : Size) : DecidablePred (due d) := fun m =>
  inferInstanceAs (Decidable (d ≤ size m + 2))

lemma complete_iff_due {c : TcpConnection} {body : Bytes}
    (hc : c.transferredTotal = size c.message) :
    (c.take body).Complete ↔ due c.contentLength (c.message ++ body) := by
  rw [TcpConnection.Complete, due, take_transferredTotal, take_contentLength, hc, size_append]

section Store

variable (c : TcpConnection) (chunk : Bytes)

@[simp] lemma store_message : (c.store chunk).message = c.message := rfl
@[simp] lemma store_transferredTotal :
    (c.store chunk).transferredTotal = c.transferredTotal := rfl
@[simp] lemma store_contentLength : (c.store chunk).contentLength = c.contentLength := rfl
@[simp] lemma store_packageCounter : (c.store chunk).packageCounter = c.packageCounter := rfl
@[simp] lemma store_packageType : (c.store chunk).packageType = c.packageType := rfl
@[simp] lemma store_writeBuffer : (c.store chunk).writeBuffer = c.writeBuffer := rfl

end Store

variable {host}

lemma store_take {c : TcpConnection} {chunk : Bytes} (hlen : chunk.length < 2 ^ 64) :
    (c.store chunk).buffer.take (size chunk).toNat = chunk := by
  simp [TcpConnection.store, toNat_size hlen]

theorem handleChunk_processes (host : Host) {chunk : Bytes} (hne : chunk ≠ [])
    (hlen : chunk.length < 2 ^ 64) (c : TcpConnection) :
    Processes host chunk (c.store chunk) (handleChunk host chunk c) := by
  have htake := store_take (c := c) hlen
  have hread := handleRead_reads host 0 (n := size chunk) (c := c.store chunk)
    (by simp [TcpConnection.store, toNat_size hlen])
  change Processes host chunk (c.store chunk) (handleRead host 0 (size chunk) (c.store chunk))
  generalize handleRead host 0 (size chunk) (c.store chunk) = o at hread
  cases hread with
  | eof h => simp at h
  | failed h => simp at h
  | empty _ hn => exact absurd (htake.symm.trans hn) hne
  | data _ _ _ ho => rwa [htake] at ho

/-- What a package does to the message, in terms of the recorded effects. -/
theorem Collects.bookkeeping {body : Bytes} {c : TcpConnection}
    {o : Outcome TcpConnection Effect Fault Unit} (h : Collects host body c o) :
    o.state.message = c.message ++ written o.trace ∧ Faithful c.message o.trace ∧
      received o.trace = [] := by
  cases h <;> simp [Faithful]

theorem Processes.bookkeeping {buf : Bytes} {c : TcpConnection}
    {o : Outcome TcpConnection Effect Fault Unit} (h : Processes host buf c o) :
    o.state.message = c.message ++ written o.trace ∧ Faithful c.message o.trace ∧
      received o.trace = buf := by
  cases h with
  | get | options | invalid | unread | refused => simp [Faithful]
  | headerOnly => simp [Faithful, faithful_append]
  | first h0 h d hd hs hb o ho =>
    obtain ⟨hm, hf, hr⟩ := ho.bookkeeping
    have hcount := faithful_counting o hf
    refine ⟨by simpa using hm, ?_, by simpa using hr⟩
    simpa [Faithful, faithful_append] using hcount
  | later h0 o ho =>
    obtain ⟨hm, hf, hr⟩ := ho.bookkeeping
    exact ⟨by simpa using hm, by simpa [Faithful] using hf, by simpa using hr⟩

/-- The byte count and the stored bytes stay in step, modulo `2 ^ 64`. -/
theorem Processes.counts {buf : Bytes} {c : TcpConnection}
    {o : Outcome TcpConnection Effect Fault Unit} (h : Processes host buf c o)
    (hc : c.transferredTotal = size c.message) :
    o.state.transferredTotal = size o.state.message := by
  cases h with
  | get | options | invalid | unread | refused => exact hc
  | headerOnly => exact hc
  | first h0 h d hd hs hb o ho =>
    cases ho <;> simp [hc]
  | later h0 o ho => cases ho <;> simp [hc]

/-- Starting from stream `r`, each callback argument relates to the stream by then. -/
def AtCallbacks (P : Bytes → Bytes → Prop) : Bytes → List Effect → Prop
  | _, [] => True
  | r, .package b :: t => AtCallbacks P (r ++ b) t
  | r, .callback x :: t => P r x ∧ AtCallbacks P r t
  | r, _ :: t => AtCallbacks P r t

section AtCallbacks

variable {P : Bytes → Bytes → Prop} {r : Bytes} {t u : List Effect}

lemma atCallbacks_append :
    AtCallbacks P r (t ++ u) ↔ AtCallbacks P r t ∧ AtCallbacks P (r ++ received t) u := by
  induction t generalizing r with
  | nil => simp [AtCallbacks]
  | cons e t ih => cases e <;> simp [AtCallbacks, ih, and_assoc]

lemma AtCallbacks.split {x : Bytes} {pre post : List Effect}
    (h : AtCallbacks P r (pre ++ .callback x :: post)) : P (r ++ received pre) x :=
  (atCallbacks_append.mp h).2.1

lemma atCallbacks_of_nil (h : callbacks t = []) : AtCallbacks P r t := by
  induction t generalizing r with
  | nil => trivial
  | cons e t ih =>
    rw [callbacks_cons, List.append_eq_nil_iff] at h
    cases e with
    | callback m => simp at h
    | _ => exact ih h.2

lemma atCallbacks_refusal {d : Size} : AtCallbacks P r (refusal d) :=
  atCallbacks_of_nil callbacks_refusal

end AtCallbacks

/-- Each callback gets the stream by then from offset `k` on. -/
abbrev ServesFrom (k : ℕ) : Bytes → List Effect → Prop := AtCallbacks fun r x => x = r.drop k

/-- A connection past its first package: the message is the stream from offset `k` on. -/
structure Serving (k : ℕ) (r : Bytes) (c : TcpConnection) : Prop where
  counter : c.packageCounter ≠ 0
  offset : k ≤ r.length
  message : c.message = r.drop k
  total : c.transferredTotal = size c.message

theorem Serving.store {k : ℕ} {r : Bytes} {c : TcpConnection} (h : Serving k r c)
    (chunk : Bytes) : Serving k r (c.store chunk) :=
  ⟨h.counter, h.offset, h.message, h.total⟩

/-- A later package extends the stream and changes nothing else that matters. -/
theorem Processes.later_spec {buf r : Bytes} {k : ℕ} {c : TcpConnection}
    {o : Outcome TcpConnection Effect Fault Unit} (h : Processes host buf c o)
    (hs : Serving k r c) :
    Serving k (r ++ buf) o.state ∧ ServesFrom k r o.trace ∧
      o.state.contentLength = c.contentLength ∧ o.state.packageType = c.packageType := by
  have hdrop : (r ++ buf).drop k = r.drop k ++ buf := List.drop_append_of_le_length hs.offset
  have hcount := h.counts hs.total
  have hlen : k ≤ (r ++ buf).length := hs.offset.trans (by simp)
  obtain ⟨o, ho, rfl⟩ := h.continues hs.counter
  cases ho <;>
    exact ⟨⟨hs.counter, hlen, by simp [hs.message, hdrop], hcount⟩,
      by simp [AtCallbacks, hs.message, hdrop], rfl, rfl⟩

/-- A first POST package with a readable length starts the service of its body part. -/
theorem Processes.first_spec {buf : Bytes} {c : TcpConnection} {d : Size}
    {o : Outcome TcpConnection Effect Fault Unit} (h : Processes host buf c o)
    (h0 : c.packageCounter = 0) (hm : c.message = []) (ht : c.transferredTotal = 0)
    (hp : ascii "POST" <+: buf) (hd : parseContentLength host buf = .ok d) :
    ServesFrom (bodyStart buf) [] o.trace ∧
      (o.result = .ok () → Serving (bodyStart buf) buf o.state ∧
        o.state.contentLength = d ∧ o.state.packageType = .post) := by
  have hcount := h.counts (by rw [ht, hm]; rfl)
  have hoff : bodyStart buf ≤ buf.length := bodyStart_le (prefix_length hp)
  cases h.opens h0 hp hd with
  | refused => simp [AtCallbacks]
  | headerOnly _ hb =>
    refine ⟨by simp [AtCallbacks, atCallbacks_append, atCallbacks_refusal], fun _ => ?_⟩
    exact ⟨⟨by simp, hoff, by simpa [hm, bodyPart] using hb, hcount⟩, rfl, rfl⟩
  | first _ _ o ho =>
    cases ho with
    | waiting | answered =>
      refine ⟨by simp [AtCallbacks, atCallbacks_append, atCallbacks_refusal, hm, bodyPart],
        fun _ => ⟨⟨by simp, hoff, by simp [hm, bodyPart], hcount⟩, rfl, rfl⟩⟩
    | thrown =>
      exact ⟨by simp [AtCallbacks, atCallbacks_append, atCallbacks_refusal, hm, bodyPart],
        fun h => by simp at h⟩

def Host.Returns (host : Host) : Prop := ∀ m, ∃ json, host.processingCallback m = .ok json

def Host.echo : Host where
  processingCallback := .ok
  shutdownFails := false
  stray := fun _ => .ok []

lemma Host.echo_returns : Host.echo.Returns := fun m => ⟨m, rfl⟩

lemma Collects.returns (hcb : host.Returns) {body : Bytes} {c : TcpConnection}
    {o : Outcome TcpConnection Effect Fault Unit} (h : Collects host body c o) :
    o.result = .ok () := by
  cases h with
  | waiting | answered => rfl
  | thrown _ e he =>
    obtain ⟨json, hj⟩ := hcb (c.message ++ body)
    simp [hj] at he

theorem Processes.later_returns (hcb : host.Returns) {buf : Bytes} {c : TcpConnection}
    {o : Outcome TcpConnection Effect Fault Unit} (h : Processes host buf c o)
    (hc : c.packageCounter ≠ 0) : o.result = .ok () := by
  obtain ⟨o, ho, rfl⟩ := h.continues hc
  exact ho.returns hcb

lemma shutdown_eq_error {e : Fault} (h : host.shutdown = .error e) : e = .shutdownFailed := by
  unfold Host.shutdown at h
  split at h <;> simp_all

theorem Processes.first_returns (hcb : host.Returns) {buf : Bytes} {c : TcpConnection}
    {o : Outcome TcpConnection Effect Fault Unit} (h : Processes host buf c o)
    (h0 : c.packageCounter = 0) (hp : ascii "POST" <+: buf) {d : Size}
    (hd : parseContentLength host buf = .ok d) :
    o.result = .ok () ∨
      (d = 0 ∧ host.shutdownFails = true ∧ o.result = .error .shutdownFailed) := by
  cases h.opens h0 hp hd with
  | refused hz e hs =>
    obtain rfl := shutdown_eq_error hs
    refine .inr ⟨hz, ?_, rfl⟩
    by_contra hf
    simp [Host.shutdown, hf] at hs
  | headerOnly => exact .inl rfl
  | first _ _ o ho => exact .inl (by simpa using ho.returns hcb)

end Gpd.Connection
