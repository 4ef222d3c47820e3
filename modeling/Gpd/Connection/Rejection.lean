import Gpd.Connection.Link

/-! What a connection still does once it has shut its socket down. -/
namespace Gpd.Connection
open Cxx Text Machine

/-- An effect that neither calls back, nor starts an operation, nor writes the message. -/
def Effect.Quiet : Effect → Prop
  | .shutdown => True
  | .package _ => True
  | _ => False

instance : DecidablePred Effect.Quiet := fun e =>
  match e with
  | .shutdown | .package _ => .isTrue trivial
  | .asyncHandshake | .asyncReadSome | .asyncWrite _ _ | .append _ | .callback _ => .isFalse id

/-- No effect behind a shutdown calls back, starts an operation or writes the message. -/
def RejectionTerminal (l : Link) : Prop :=
  ∀ pre post, l.log = pre ++ .shutdown :: post → ∀ e ∈ post, e.Quiet

/-- Unless it throws, a shutdown ends the work of the connection: no first POST read declares
the length zero, and an end of file is handled while no other chain is in flight. -/
structure ShutsAlone (l : Link) (e : Event) : Prop where
  length : ∀ host buf, l.Handles e host buf → l.conn.packageCounter = 0 →
    ascii "POST" <+: buf → parseContentLength host buf = .ok 0 → host.shutdown ≠ .ok ()
  eof : ∀ i host bytes, e = .handleRead i host → l.chains[i]? = some (.completed 2 bytes) →
    host.shutdown = .ok () → l.chains.length = 1

variable {host : Host} {c : TcpConnection} {o : Outcome TcpConnection Effect Fault Unit}

/-- The trace ends with its only shutdown. -/
def Shuts (t : List Effect) : Prop := ∃ pre, t = pre ++ [.shutdown] ∧ .shutdown ∉ pre

lemma Shuts.quiet {t pre post : List Effect} (h : Shuts t) (ht : t = pre ++ .shutdown :: post) :
    post = [] := by
  obtain ⟨u, rfl, hu⟩ := h
  rcases List.eq_nil_or_concat post with rfl | ⟨post, e, rfl⟩
  · rfl
  · rw [List.concat_eq_append, ← List.cons_append, ← List.append_assoc] at ht
    obtain ⟨rfl, -⟩ := List.append_inj' ht rfl
    exact absurd (by simp) hu

/-- Only the refusal of a zero length is followed by further effects of its handler. -/
theorem Processes.shuts {buf : Bytes} (h : Processes host buf c o)
    (hlength : c.packageCounter = 0 → ascii "POST" <+: buf →
      parseContentLength host buf = .ok 0 → host.shutdown ≠ .ok ()) :
    .shutdown ∉ o.trace ∨
      c.packageCounter = 0 ∧ Shuts o.trace ∧ o.trace.flatMap Effect.chain = [] := by
  have hrefusal : ∀ d, c.packageCounter = 0 → ascii "POST" <+: buf →
      parseContentLength host buf = .ok d → (d = 0 → host.shutdown = .ok ()) → refusal d = [] := by
    intro d h0 hp hd hs
    apply if_neg
    rintro rfl
    exact hlength h0 hp hd (hs rfl)
  cases h with
  | get | options | unread => exact .inl (by simp)
  | invalid h0 | refused h0 => exact .inr ⟨h0, ⟨[.package buf], rfl, by simp⟩, by simp⟩
  | headerOnly h0 hp d hd hs => exact .inl (by simp [hrefusal d h0 hp hd hs])
  | first h0 hp d hd hs _ o ho =>
    obtain ⟨t, ht, htrace⟩ := counting_trace o
    rw [hrefusal d h0 hp hd hs]
    rcases ht with rfl | rfl <;> exact .inl (by simpa [htrace] using ho.no_shutdown)
  | later _ o ho => exact .inl (by simpa using ho.no_shutdown)

namespace Link

/-- The connection shut down last of all, and no chain goes on. -/
structure Closed (l : Link) : Prop where
  last : Shuts l.log
  chains : l.chains = [] ∨ l.fault ≠ none

lemma Closed.of_append {l l' : Link} {t : List Effect} (hlog : l'.log = l.log ++ t)
    (hl : .shutdown ∉ l.log) (ht : Shuts t) (hchains : l'.chains = [] ∨ l'.fault ≠ none) :
    l'.Closed := by
  obtain ⟨pre, rfl, hpre⟩ := ht
  exact ⟨⟨l.log ++ pre, by simp [hlog], by simp [hl, hpre]⟩, hchains⟩

theorem Closed.steps {l l' : Link} {e : Event} (hl : l.Closed) (hf : l.fault = none)
    (h : Steps l e l') : l'.log = l.log ∧ l'.Closed := by
  have hnil := hl.chains.resolve_right (not_not.mpr hf)
  cases h with
  | written i error n =>
    have hlog : ((l.withoutWrite i).absorb ⟨.ok (), l.conn, []⟩).log = l.log := by simp
    exact ⟨hlog, hlog ▸ hl.last, .inl (by simp [hnil])⟩
  | connected i hi | aborted i _ hi | stored i _ _ hi | handled i _ _ _ hi => simp [hnil] at hi

lemma Closed.step {l l' : Link} {e : Event} (hl : l.Closed) (h : l.step e = some l') :
    l'.log = l.log ∧ l'.Closed := by
  have hf : l.fault = none := by
    by_contra hf
    simp [Link.step, hf] at h
  have hnil := hl.chains.resolve_right (not_not.mpr hf)
  have hstored : l.Stored := by simp [Stored, hnil]
  exact hl.steps hf (step_steps hstored h).2

theorem Steps.keeps_closed {l l' : Link} {e : Event} (h : Steps l e l') (hsound : l.Sound)
    (hf : l.fault = none) (hok : ShutsAlone l e) (hl : .shutdown ∈ l.log → l.Closed) :
    .shutdown ∈ l'.log → l'.Closed := by
  intro hs
  by_cases hopen : .shutdown ∈ l.log
  · exact ((hl hopen).steps hf h).2
  · cases h with
    | connected | aborted | written => exact absurd hs (by simp [hopen])
    | stored => exact absurd hs hopen
    | handled i host error bytes hi o ho =>
      cases ho with
      | eof he =>
        subst he
        refine .of_append (absorb_log _ _) hopen ⟨[], rfl, by simp⟩ ?_
        cases hshut : host.shutdown with
        | error e => exact .inr (by simp)
        | ok u =>
          have hone := hok.eof i host bytes rfl hi hshut
          exact .inl (by simp [eraseIdx_eq_nil hi hone.le])
      | failed | empty => exact absurd hs (by simp [hopen])
      | data herr hne _ ho =>
        rw [hsound.stored.toNat_size (List.mem_of_getElem? hi)] at hne ho
        rcases ho.shuts (hok.length host _ ⟨i, error, bytes, rfl, hi, herr, rfl, hne⟩) with
          hquiet | ⟨h0, hshuts, hnone⟩
        · exact absurd hs (by simp [hopen, hquiet])
        · have hu := hsound.opening.untouched h0 hi
          exact .of_append (absorb_log _ _) hopen hshuts
            (.inl (by simp [eraseIdx_eq_nil hi hu.chains, hnone]))

end Link

/-- While every shutdown that returns ends the work of its connection, a rejection is terminal:
the connection does nothing more, whatever happens to it. -/
theorem rejection_terminal {l : Link} (h : Reachable Link.step ShutsAlone Link.accepted l) :
    RejectionTerminal l ∧
      (.shutdown ∈ l.log → ∀ l', Reachable Link.step (fun _ _ => True) l l' → l'.log = l.log) := by
  have hclosed : .shutdown ∈ l.log → l.Closed := by
    refine Link.invariant (I := fun l => .shutdown ∈ l.log → l.Closed) ?_ ?_ h
    · simp [Link.accepted, processRequest]
    · exact fun l e l' hl hsound hf hok hsteps => hsteps.keeps_closed hsound hf hok hl
  constructor
  · intro pre post hlog e he
    have hnil := (hclosed (by simp [hlog])).last.quiet hlog
    simp [hnil] at he
  · intro hs l' hl'
    have hboth : l'.log = l.log ∧ l'.Closed := by
      refine hl'.invariant (I := fun l' => l'.log = l.log ∧ l'.Closed) ⟨rfl, hclosed hs⟩ ?_
      rintro t e u ⟨hlog, ht⟩ _ he
      obtain ⟨hlog', hu⟩ := ht.step he
      exact ⟨hlog'.trans hlog, hu⟩
    exact hboth.1

section Sample

lemma shutsAlone_of_no_read {l : Link} {e : Event} (h : ∀ i host, e ≠ .handleRead i host) :
    ShutsAlone l e where
  length := fun _ _ hh => absurd hh (Link.not_handles h)
  eof := fun i host _ he => absurd he (h i host)

/-- A client that is answered closes its side; the write completes after the shutdown. -/
def closingEvents : List Event :=
  [.handshake 0 0, .readComplete 0 0 (ascii "POST / HTTP/1.1\r\nContent-Length: 3\r\n\r\nabc"),
    .handleRead 0 Host.echo, .handshake 0 0, .readComplete 0 2 [], .handleRead 0 Host.echo,
    .handleWrite 0 0 0]

theorem rejection_terminal_sample :
    ∃ l : Link, callbacks l.log = [ascii "abc"] ∧ .shutdown ∈ l.log ∧ l.writes = [] ∧
      RejectionTerminal l ∧
      (.shutdown ∈ l.log → ∀ l', Reachable Link.step (fun _ _ => True) l l' → l'.log = l.log) := by
  have hrun : (run Link.step closingEvents Link.accepted).map
      (fun l => (callbacks l.log, decide (.shutdown ∈ l.log), l.writes)) =
      some ([ascii "abc"], true, []) := by decide
  obtain ⟨l, hl, hfacts⟩ := Option.map_eq_some_iff.mp hrun
  obtain ⟨hcallbacks, hshut, hwrites⟩ : callbacks l.log = [ascii "abc"] ∧
      decide (.shutdown ∈ l.log) = true ∧ l.writes = [] := by simpa using hfacts
  refine ⟨l, hcallbacks, of_decide_eq_true hshut, hwrites,
    rejection_terminal (Reachable.refl.of_guarded hl ?_)⟩
  refine .cons (shutsAlone_of_no_read (by simp)) rfl ?_
  refine .cons (shutsAlone_of_no_read (by simp)) rfl ?_
  refine .cons ⟨fun host buf h _ _ hd => ?_, fun i host bytes he hi => ?_⟩ rfl ?_
  · obtain ⟨rfl, rfl⟩ := h.eq rfl
    exact absurd hd (by decide)
  · obtain ⟨rfl, rfl⟩ := Event.handleRead.inj he
    exact absurd (Chain.completed.inj (Option.some.inj hi)).1 (by decide)
  refine .cons (shutsAlone_of_no_read (by simp)) rfl ?_
  refine .cons (shutsAlone_of_no_read (by simp)) rfl ?_
  refine .cons ⟨fun host buf h h0 => absurd h0 (by decide), fun i host bytes _ _ _ => rfl⟩ rfl ?_
  exact .cons (shutsAlone_of_no_read (by simp)) rfl trivial

/-- A POST request that declares no body is refused and read on. -/
theorem not_rejection_terminal :
    ¬∀ l, Reachable Link.step (fun _ _ => True) Link.accepted l → RejectionTerminal l := by
  intro h
  have hrun : (run Link.step [.handshake 0 0,
      .readComplete 0 0 (ascii "POST / HTTP/1.1\r\nContent-Length: 0\r\n\r\n"),
      .handleRead 0 Host.echo] Link.accepted).map (fun l => l.log.drop 3) =
      some [.shutdown, .asyncHandshake, .asyncHandshake] := by decide
  obtain ⟨l, hl, hlog⟩ := Option.map_eq_some_iff.mp hrun
  have hsplit : l.log = l.log.take 3 ++ .shutdown :: [.asyncHandshake, .asyncHandshake] := by
    rw [← hlog, List.take_append_drop]
  exact h l (reachable_of_run hl) _ _ hsplit .asyncHandshake (by simp)

end Sample

end Gpd.Connection
