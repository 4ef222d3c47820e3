import Gpd.Connection.Stream
import Gpd.Machine.Transition

/-! A connection in its event loop: the handshake-then-read chains in flight, the writes
in flight, and the steps by which they complete in any order. -/
namespace Gpd.Connection
open Cxx Text Machine

/-- One handshake-then-read chain. A completed read waits for its `handleRead`. -/
inductive Chain
  | handshaking
  | reading
  | completed (error : ErrorCode) (bytes : Bytes)
  deriving DecidableEq, Repr

structure Write where
  source : Storage
  text : Bytes
  deriving DecidableEq, Repr

/-- A connection with its operations in flight, the bytes of its completed reads in the order
of their completion, everything its handlers did so far, and what ended the event loop, if
something did. -/
structure Link where
  conn : TcpConnection
  chains : List Chain
  writes : List Write
  arrived : Bytes
  log : List Effect
  fault : Option Fault
  deriving DecidableEq, Repr

/-- Completions and queued handlers. The host of a read handler is what the outside
answers while that handler runs. -/
inductive Event
  | handshake (i : ℕ) (error : ErrorCode)
  | readComplete (i : ℕ) (error : ErrorCode) (bytes : Bytes)
  | handleRead (i : ℕ) (host : Host)
  | handleWrite (i : ℕ) (error : ErrorCode) (bytesTransferred : Size)

@[simp] def Effect.chain : Effect → List Chain
  | .asyncHandshake => [.handshaking]
  | .asyncReadSome => [.reading]
  | _ => []

@[simp] def Effect.write : Effect → List Write
  | .asyncWrite source text => [⟨source, text⟩]
  | _ => []

def responses (t : List Effect) : List Write := t.flatMap Effect.write

@[simp] lemma responses_append (t u : List Effect) :
    responses (t ++ u) = responses t ++ responses u := by simp [responses]

@[simp] lemma responses_cons (e : Effect) (t : List Effect) :
    responses (e :: t) = e.write ++ responses t := rfl

@[simp] lemma responses_nil : responses [] = [] := rfl

@[simp] lemma responses_counting (o : Outcome TcpConnection Effect Fault Unit) :
    responses (o.andThen fun _ => countAndRequest).trace = responses o.trace := by
  obtain ⟨t, rfl | rfl, h⟩ := counting_trace o <;> simp [h]

@[simp] lemma flatMap_chain_refusal (d : Size) : (refusal d).flatMap Effect.chain = [] := by
  unfold refusal
  split <;> simp

@[simp] lemma responses_refusal (d : Size) : responses (refusal d) = [] := by
  unfold refusal
  split <;> simp

def faultOf : Except Fault Unit → Option Fault
  | .ok _ => none
  | .error e => some e

@[simp] lemma faultOf_ok (u : Unit) : faultOf (.ok u) = none := rfl
@[simp] lemma faultOf_error (e : Fault) : faultOf (.error e) = some e := rfl

namespace Link

/-- The link after a handler ran. -/
def absorb (l : Link) (o : Outcome TcpConnection Effect Fault Unit) : Link where
  conn := o.state
  chains := l.chains ++ o.trace.flatMap Effect.chain
  writes := l.writes ++ responses o.trace
  arrived := l.arrived
  log := l.log ++ o.trace
  fault := faultOf o.result

def without (l : Link) (i : ℕ) : Link := { l with chains := l.chains.eraseIdx i }

def withoutWrite (l : Link) (i : ℕ) : Link := { l with writes := l.writes.eraseIdx i }

/-- The read of chain `i` completes and its bytes lie in `m_buffer`. -/
def complete (l : Link) (i : ℕ) (error : ErrorCode) (bytes : Bytes) : Link :=
  { l with
    conn := l.conn.store bytes
    chains := l.chains.set i (.completed error bytes)
    arrived := l.arrived ++ bytes }

/-- A connection just accepted: `handleAccept` calls `processRequest`. -/
def accepted : Link :=
  absorb ⟨TcpConnection.new, [], [], [], [], none⟩ (processRequest TcpConnection.new)

def step (l : Link) (e : Event) : Option Link :=
  if l.fault ≠ none then none
  else match e with
    | .handshake i error =>
      match l.chains[i]? with
      | some .handshaking => some ((l.without i).absorb (handleHandshake error l.conn))
      | _ => none
    | .readComplete i error bytes =>
      match l.chains[i]? with
      | some .reading => if bytes.length ≤ bufferSize then some (l.complete i error bytes) else none
      | _ => none
    | .handleRead i host =>
      match l.chains[i]? with
      | some (.completed error bytes) =>
        some ((l.without i).absorb (handleRead host error (size bytes) l.conn))
      | _ => none
    | .handleWrite i error bytesTransferred =>
      if i < l.writes.length then
        some ((l.withoutWrite i).absorb (handleWrite error bytesTransferred l.conn))
      else none

section Absorb

variable (l : Link) (o : Outcome TcpConnection Effect Fault Unit)

@[simp] lemma absorb_conn : (l.absorb o).conn = o.state := rfl
@[simp] lemma absorb_chains :
    (l.absorb o).chains = l.chains ++ o.trace.flatMap Effect.chain := rfl
@[simp] lemma absorb_writes :
    (l.absorb o).writes = l.writes ++ responses o.trace := rfl
@[simp] lemma absorb_arrived : (l.absorb o).arrived = l.arrived := rfl
@[simp] lemma absorb_log : (l.absorb o).log = l.log ++ o.trace := rfl
@[simp] lemma absorb_fault : (l.absorb o).fault = faultOf o.result := rfl

variable (i : ℕ) (error : ErrorCode) (bytes : Bytes)

@[simp] lemma without_conn : (l.without i).conn = l.conn := rfl
@[simp] lemma without_chains : (l.without i).chains = l.chains.eraseIdx i := rfl
@[simp] lemma without_writes : (l.without i).writes = l.writes := rfl
@[simp] lemma without_arrived : (l.without i).arrived = l.arrived := rfl
@[simp] lemma without_log : (l.without i).log = l.log := rfl
@[simp] lemma withoutWrite_conn : (l.withoutWrite i).conn = l.conn := rfl
@[simp] lemma withoutWrite_chains : (l.withoutWrite i).chains = l.chains := rfl
@[simp] lemma withoutWrite_writes : (l.withoutWrite i).writes = l.writes.eraseIdx i := rfl
@[simp] lemma withoutWrite_arrived : (l.withoutWrite i).arrived = l.arrived := rfl
@[simp] lemma withoutWrite_log : (l.withoutWrite i).log = l.log := rfl
@[simp] lemma complete_conn : (l.complete i error bytes).conn = l.conn.store bytes := rfl
@[simp] lemma complete_chains :
    (l.complete i error bytes).chains = l.chains.set i (.completed error bytes) := rfl
@[simp] lemma complete_writes : (l.complete i error bytes).writes = l.writes := rfl
@[simp] lemma complete_arrived :
    (l.complete i error bytes).arrived = l.arrived ++ bytes := rfl
@[simp] lemma complete_log : (l.complete i error bytes).log = l.log := rfl

end Absorb

/-- What an enabled event does. -/
inductive Steps (l : Link) : Event → Link → Prop
  | connected (i : ℕ) (h : l.chains[i]? = some .handshaking) :
      Steps l (.handshake i 0) ((l.without i).absorb ⟨.ok (), l.conn, [.asyncReadSome]⟩)
  | aborted (i : ℕ) (error : ErrorCode) (h : l.chains[i]? = some .handshaking)
      (he : error ≠ 0) : Steps l (.handshake i error) ((l.without i).absorb ⟨.ok (), l.conn, []⟩)
  | stored (i : ℕ) (error : ErrorCode) (bytes : Bytes) (h : l.chains[i]? = some .reading)
      (hb : bytes.length ≤ bufferSize) :
      Steps l (.readComplete i error bytes) (l.complete i error bytes)
  | handled (i : ℕ) (host : Host) (error : ErrorCode) (bytes : Bytes)
      (h : l.chains[i]? = some (.completed error bytes))
      (o : Outcome TcpConnection Effect Fault Unit)
      (ho : Reads host error (size bytes) l.conn o) :
      Steps l (.handleRead i host) ((l.without i).absorb o)
  | written (i : ℕ) (error : ErrorCode) (n : Size) (h : i < l.writes.length) :
      Steps l (.handleWrite i error n) ((l.withoutWrite i).absorb ⟨.ok (), l.conn, []⟩)

def Stored (l : Link) : Prop :=
  ∀ error bytes, .completed error bytes ∈ l.chains →
    bytes.length ≤ bufferSize ∧ bytes.length ≤ l.conn.buffer.length

lemma Stored.toNat_size {l : Link} (h : l.Stored) {error : ErrorCode} {bytes : Bytes}
    (hm : .completed error bytes ∈ l.chains) : (size bytes).toNat = bytes.length :=
  Cxx.toNat_size (lt_of_le_bufferSize (h error bytes hm).1)

/-- Every enabled event is one of the listed steps. -/
theorem step_steps {l l' : Link} {e : Event} (hl : l.Stored) (h : l.step e = some l') :
    l.fault = none ∧ Steps l e l' := by
  by_cases hf : l.fault = none
  case neg => simp [step, hf] at h
  refine ⟨hf, ?_⟩
  rw [step.eq_def, if_neg (by simpa using hf)] at h
  cases e with
  | handshake i error =>
    cases hi : l.chains[i]? with
    | none => simp [hi] at h
    | some ch =>
      cases ch with
      | handshaking =>
        simp only [hi, Option.some.injEq] at h
        subst h
        by_cases he : error = 0
        · subst he
          exact .connected i hi
        · have : handleHandshake error l.conn = ⟨.ok (), l.conn, []⟩ := by
            simp [handleHandshake, he]
          rw [this]
          exact .aborted i error hi he
      | reading => simp [hi] at h
      | completed error' bytes => simp [hi] at h
  | readComplete i error bytes =>
    cases hi : l.chains[i]? with
    | none => simp [hi] at h
    | some ch =>
      cases ch with
      | reading =>
        simp only [hi, Option.ite_none_right_eq_some, Option.some.injEq] at h
        obtain ⟨hb, rfl⟩ := h
        exact .stored i error bytes hi hb
      | handshaking => simp [hi] at h
      | completed error' bytes' => simp [hi] at h
  | handleRead i host =>
    cases hi : l.chains[i]? with
    | none => simp [hi] at h
    | some ch =>
      cases ch with
      | completed error bytes =>
        simp only [hi, Option.some.injEq] at h
        subst h
        have hmem := List.mem_of_getElem? hi
        refine .handled i host error bytes hi _ (handleRead_reads host error ?_)
        rw [hl.toNat_size hmem]
        exact (hl error bytes hmem).2
      | handshaking => simp [hi] at h
      | reading => simp [hi] at h
  | handleWrite i error n =>
    simp only [Option.ite_none_right_eq_some, Option.some.injEq] at h
    obtain ⟨hi, rfl⟩ := h
    exact .written i error n hi

end Link

section Handlers

variable {host : Host} {c : TcpConnection} {o : Outcome TcpConnection Effect Fault Unit}

lemma Collects.frame {body : Bytes} (h : Collects host body c o) :
    o.state.buffer = c.buffer ∧ ∀ ch ∈ o.trace.flatMap Effect.chain, ch = .handshaking := by
  cases h <;> simp

lemma Processes.frame {buf : Bytes} (h : Processes host buf c o) :
    o.state.buffer = c.buffer ∧ ∀ ch ∈ o.trace.flatMap Effect.chain, ch = .handshaking := by
  cases h with
  | get | options | invalid | unread | refused => simp
  | headerOnly => simp
  | first _ _ d _ _ _ o ho =>
    obtain ⟨hb, hch⟩ := ho.frame
    obtain ⟨t, ht, htrace⟩ := counting_trace o
    refine ⟨by simpa using hb, fun ch hmem => ?_⟩
    simp only [Outcome.after_trace, htrace, List.flatMap_append, flatMap_chain_refusal,
      List.mem_append] at hmem
    rcases hmem with (hmem | hmem) | hmem | hmem
    · simp at hmem
    · simp at hmem
    · exact hch ch hmem
    · rcases ht with rfl | rfl
      · simp at hmem
      · simpa using hmem
  | later _ o ho => simpa using ho.frame

lemma Reads.frame {error : ErrorCode} {n : Size} (h : Reads host error n c o) :
    o.state.buffer = c.buffer ∧ ∀ ch ∈ o.trace.flatMap Effect.chain, ch = .handshaking := by
  cases h with
  | eof | failed | empty => simp
  | data _ _ _ ho => exact ho.frame

lemma Processes.counter {buf : Bytes} (h : Processes host buf c o)
    (hc : c.packageCounter ≠ 0) : o.state.packageCounter ≠ 0 := by
  obtain ⟨o, ho, rfl⟩ := h.continues hc
  cases ho <;> exact hc

lemma Reads.counter {error : ErrorCode} {n : Size} (h : Reads host error n c o)
    (hc : c.packageCounter ≠ 0) : o.state.packageCounter ≠ 0 := by
  cases h with
  | eof | failed | empty => exact hc
  | data _ _ _ ho => exact ho.counter hc

lemma Processes.opening {buf : Bytes} (h : Processes host buf c o) (h0 : c.packageCounter = 0)
    (h0' : o.state.packageCounter = 0) : o.trace.flatMap Effect.chain = [] := by
  cases h with
  | get | options | invalid | unread | refused => simp
  | headerOnly => simp at h0'
  | first _ _ d _ _ _ o ho =>
    rcases counting_cases o with ⟨hne, he⟩ | ⟨_, hu⟩
    · rw [he]
      cases ho with
      | thrown => simp
      | waiting | answered => exact absurd rfl hne
    · simp [hu] at h0'
  | later h => exact absurd h0 h

end Handlers

namespace Link

theorem Steps.keeps_stored {l l' : Link} {e : Event} (h : Steps l e l') (hl : l.Stored) :
    l'.Stored := by
  intro error bytes hm
  cases h with
  | connected i _ =>
    simp only [absorb_chains, List.mem_append] at hm
    rcases hm with hm | hm
    · exact hl error bytes (List.mem_of_mem_eraseIdx hm)
    · simp at hm
  | aborted i _ _ _ =>
    simp only [absorb_chains, List.mem_append] at hm
    rcases hm with hm | hm
    · exact hl error bytes (List.mem_of_mem_eraseIdx hm)
    · simp at hm
  | stored i error' bytes' hi hb =>
    simp only [complete_conn, TcpConnection.store, List.length_append, List.length_drop]
    rcases List.mem_or_eq_of_mem_set hm with hm | hm
    · have := hl error bytes hm
      exact ⟨this.1, by omega⟩
    · simp only [Chain.completed.injEq] at hm
      obtain ⟨rfl, rfl⟩ := hm
      exact ⟨hb, by omega⟩
  | handled i host error' bytes' hi o ho =>
    obtain ⟨hbuf, hch⟩ := ho.frame
    simp only [absorb_chains, absorb_conn, hbuf, List.mem_append] at hm ⊢
    rcases hm with hm | hm
    · exact hl error bytes (List.mem_of_mem_eraseIdx hm)
    · exact absurd (hch _ hm) (by simp)
  | written i _ _ _ =>
    simp only [absorb_chains, List.mem_append] at hm
    rcases hm with hm | hm
    · exact hl error bytes hm
    · simp at hm

/-- The event runs `handleRead` on the data `buf`. -/
def Handles (l : Link) (e : Event) (host : Host) (buf : Bytes) : Prop :=
  ∃ i error bytes, e = .handleRead i host ∧ l.chains[i]? = some (.completed error bytes) ∧
    (error = 0 ∨ error = 89) ∧ buf = l.conn.buffer.take bytes.length ∧ buf ≠ []

lemma not_handles {l : Link} {e : Event} {host : Host} {buf : Bytes}
    (h : ∀ i host, e ≠ .handleRead i host) : ¬l.Handles e host buf := by
  rintro ⟨i, error, bytes, he, -⟩
  exact h i host he

lemma Handles.eq {l : Link} {i : ℕ} {error : ErrorCode} {host host' : Host} {bytes buf : Bytes}
    (h : l.Handles (.handleRead i host) host' buf)
    (hi : l.chains[i]? = some (.completed error bytes)) :
    host' = host ∧ buf = l.conn.buffer.take bytes.length := by
  obtain ⟨j, error', bytes', he, hj, -, rfl, -⟩ := h
  obtain ⟨rfl, rfl⟩ := Event.handleRead.inj he
  rw [hi] at hj
  obtain ⟨-, rfl⟩ := Chain.completed.inj (Option.some.inj hj)
  exact ⟨rfl, rfl⟩

/-- No package was processed yet. -/
structure Untouched (l : Link) : Prop where
  chains : l.chains.length ≤ 1
  writes : l.writes = []
  message : l.conn.message = []
  total : l.conn.transferredTotal = 0
  log : ∀ e ∈ l.log, e = .asyncHandshake ∨ e = .asyncReadSome

/-- Until a package is counted there is at most one chain, and it ends with a package. -/
def Opening (l : Link) : Prop := l.conn.packageCounter = 0 → l.chains = [] ∨ l.Untouched

lemma eraseIdx_eq_nil {α : Type*} {xs : List α} {i : ℕ} {a : α} (hi : xs[i]? = some a)
    (hlen : xs.length ≤ 1) : xs.eraseIdx i = [] := by
  obtain ⟨hlt, _⟩ := List.getElem?_eq_some_iff.mp hi
  rw [← List.length_eq_zero_iff, List.length_eraseIdx_of_lt hlt]
  omega

lemma Opening.untouched {l : Link} (h : l.Opening) (h0 : l.conn.packageCounter = 0) {i : ℕ}
    {ch : Chain} (hi : l.chains[i]? = some ch) : l.Untouched := by
  rcases h h0 with hnil | hu
  · simp [hnil] at hi
  · exact hu

theorem Steps.keeps_opening {l l' : Link} {e : Event} (h : Steps l e l') (hl : l.Opening) :
    l'.Opening := by
  intro h0
  cases h with
  | connected i hi =>
    have hu := hl.untouched h0 hi
    refine .inr ⟨?_, by simp [hu.writes], hu.message, hu.total, ?_⟩
    · simp [eraseIdx_eq_nil hi hu.chains]
    · simpa [or_imp, forall_and] using hu.log
  | aborted i error hi =>
    have hu := hl.untouched h0 hi
    exact .inl (by simp [eraseIdx_eq_nil hi hu.chains])
  | stored i error bytes hi =>
    have hu := hl.untouched h0 hi
    exact .inr ⟨by simpa using hu.chains, hu.writes, hu.message, hu.total, hu.log⟩
  | handled i host error bytes hi o ho =>
    by_cases hc : l.conn.packageCounter = 0
    case neg => exact absurd h0 (ho.counter hc)
    have hu := hl.untouched hc hi
    have hnil := eraseIdx_eq_nil hi hu.chains
    cases ho with
    | eof | failed => exact .inl (by simp [hnil])
    | empty =>
      refine .inr ⟨by simp [hnil], by simp [hu.writes], hu.message, hu.total, ?_⟩
      simpa [or_imp, forall_and] using hu.log
    | data _ _ _ ho => exact .inl (by simp [hnil, ho.opening hc h0])
  | written i error n hi =>
    rcases hl h0 with hnil | hu
    · exact .inl (by simp [hnil])
    · simp [hu.writes] at hi

/-- What holds of a connection in every reachable state. -/
structure Sound (l : Link) : Prop where
  stored : l.Stored
  opening : l.Opening

lemma sound_accepted : Sound accepted where
  stored := by simp [Stored, accepted, processRequest]
  opening := fun _ => .inr ⟨by simp [accepted, processRequest], by simp [accepted, processRequest],
    rfl, rfl, by simp [accepted, processRequest]⟩

theorem invariant {ok : Link → Event → Prop} {I : Link → Prop} (h0 : I accepted)
    (hstep : ∀ l e l', I l → l.Sound → l.fault = none → ok l e → Steps l e l' → I l') {l : Link}
    (h : Reachable step ok accepted l) : I l := by
  have hboth : l.Sound ∧ I l := by
    refine h.invariant (I := fun l => l.Sound ∧ I l) ⟨sound_accepted, h0⟩ ?_
    rintro t e u ⟨hs, hi⟩ hok he
    obtain ⟨hfault, hsteps⟩ := step_steps hs.stored he
    exact ⟨⟨hsteps.keeps_stored hs.stored, hsteps.keeps_opening hs.opening⟩,
      hstep t e u hi hs hfault hok hsteps⟩
  exact hboth.2

def connected : Link :=
  ⟨TcpConnection.new, [.reading], [], [], [.asyncHandshake, .asyncReadSome], none⟩

def afterRead (bytes : Bytes) : Link := connected.complete 0 0 bytes

end Link

end Gpd.Connection
