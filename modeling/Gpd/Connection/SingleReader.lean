import Gpd.Connection.Link

/-! How many handshake-then-read chains a connection has in flight. -/
namespace Gpd.Connection
open Cxx Text Machine

/-- At most one chain is in flight, and the bytes of a completed read are still there. -/
structure SingleReader (l : Link) : Prop where
  chains : l.chains.length ≤ 1
  bytes : ∀ error bytes, .completed error bytes ∈ l.chains →
    l.conn.buffer.take bytes.length = bytes

/-- A package that opens a POST request, if its length is accepted, holds a body part, and
the body part reaches that length up to two bytes. -/
def OpensComplete (host : Host) (buf : Bytes) : Prop :=
  ascii "POST" <+: buf → ∀ d, parseContentLength host buf = .ok d →
    (d = 0 → host.shutdown = .ok ()) → bodyPart buf ≠ [] ∧ due d (bodyPart buf)

variable {host : Host} {c : TcpConnection} {o : Outcome TcpConnection Effect Fault Unit}

lemma Collects.chains_le {body : Bytes} (h : Collects host body c o) :
    (o.trace.flatMap Effect.chain).length ≤ 1 := by
  cases h <;> simp

lemma Collects.no_chain {body : Bytes} (h : Collects host body c o)
    (hc : (c.take body).Complete) : o.trace.flatMap Effect.chain = [] := by
  cases h with
  | waiting h => exact absurd hc h
  | thrown | answered => simp

lemma Processes.chains_le {buf : Bytes} (h : Processes host buf c o)
    (hopen : c.packageCounter = 0 → OpensComplete host buf ∧ c.message = [] ∧
      c.transferredTotal = 0) : (o.trace.flatMap Effect.chain).length ≤ 1 := by
  cases h with
  | get | options | invalid | unread | refused => simp
  | headerOnly h0 hp d hd hs hb => exact absurd hb ((hopen h0).1 hp d hd hs).1
  | first h0 hp d hd hs hb o ho =>
    obtain ⟨hcond, hm, ht⟩ := hopen h0
    have hcomplete : ((c.begin buf d).take (bodyPart buf)).Complete := by
      rw [complete_iff_due (by simp [hm, ht]; rfl)]
      simpa [hm] using (hcond hp d hd hs).2
    have hnone := ho.no_chain hcomplete
    obtain ⟨t, ht, htrace⟩ := counting_trace o
    rcases ht with rfl | rfl <;> simp [htrace, hnone]
  | later h0 o ho => simpa using ho.chains_le

lemma Reads.chains_le {error : ErrorCode} {n : Size} (h : Reads host error n c o)
    (hopen : c.packageCounter = 0 → error = 0 ∨ error = 89 → c.buffer.take n.toNat ≠ [] →
      OpensComplete host (c.buffer.take n.toNat) ∧ c.message = [] ∧ c.transferredTotal = 0) :
    (o.trace.flatMap Effect.chain).length ≤ 1 := by
  cases h with
  | eof | failed | empty => simp
  | data herr hn _ ho => exact ho.chains_le fun h0 => hopen h0 herr hn

/-- Every first POST read is complete when it arrives. -/
def FirstReadsComplete (l : Link) (e : Event) : Prop :=
  ∀ host buf, l.Handles e host buf → l.conn.packageCounter = 0 → OpensComplete host buf

open Link in
theorem Link.Steps.keeps_singleReader {l l' : Link} {e : Event} (h : Steps l e l')
    (hl : SingleReader l) (hsound : l.Sound)
    (hok : FirstReadsComplete l e) : SingleReader l' := by
  cases h with
  | connected i hi =>
    have hnil := eraseIdx_eq_nil hi hl.chains
    exact ⟨by simp [hnil], fun _ _ hm => by simp [hnil] at hm⟩
  | aborted i error hi =>
    have hnil := eraseIdx_eq_nil hi hl.chains
    exact ⟨by simp [hnil], fun _ _ hm => by simp [hnil] at hm⟩
  | stored i error bytes hi hb =>
    refine ⟨by simpa using hl.chains, fun error' bytes' hm => ?_⟩
    obtain ⟨ch, hch⟩ : ∃ ch, l.chains = [ch] := by
      obtain ⟨hlt, _⟩ := List.getElem?_eq_some_iff.mp hi
      exact List.length_eq_one_iff.mp (by have := hl.chains; omega)
    obtain ⟨hlt, _⟩ := List.getElem?_eq_some_iff.mp hi
    obtain rfl : i = 0 := by simpa [hch] using hlt
    simp only [complete_chains, hch, List.set_cons_zero, List.mem_singleton,
      Chain.completed.injEq] at hm
    obtain ⟨rfl, rfl⟩ := hm
    simp [TcpConnection.store]
  | handled i host error bytes hi o ho =>
    have hnil := eraseIdx_eq_nil hi hl.chains
    obtain ⟨_, hframe⟩ := ho.frame
    have hsize := hsound.stored.toNat_size (List.mem_of_getElem? hi)
    refine ⟨?_, fun error' bytes' hm => ?_⟩
    · simp only [absorb_chains, without_chains, hnil, List.nil_append]
      apply ho.chains_le
      intro h0 herr hne
      rw [hsize] at hne ⊢
      have hu := hsound.opening.untouched h0 hi
      exact ⟨hok host _ ⟨i, error, bytes, rfl, hi, herr, rfl, hne⟩ h0, hu.message, hu.total⟩
    · simp only [absorb_chains, without_chains, hnil, List.nil_append] at hm
      exact absurd (hframe _ hm) (by simp)
  | written i error n hi => exact ⟨by simpa using hl.chains, by simpa using hl.bytes⟩

/-- While every first POST read is complete, a connection has a single reader. -/
theorem single_reader {l : Link} (h : Reachable Link.step FirstReadsComplete Link.accepted l) :
    SingleReader l := by
  refine Link.invariant ?_ ?_ h
  · exact ⟨by simp [Link.accepted, processRequest], by simp [Link.accepted, processRequest]⟩
  · exact fun l e l' hs hsound _ hok hsteps => hsteps.keeps_singleReader hs hsound hok

section Sample

lemma firstReadsComplete_of_no_read {l : Link} {e : Event}
    (h : ∀ i host, e ≠ .handleRead i host) : FirstReadsComplete l e :=
  fun _ _ hh => absurd hh (Link.not_handles h)

/-- A complete first POST read leaves one chain, on which a further read completes. -/
theorem single_reader_sample :
    ∃ l : Link, callbacks l.log = [ascii "abc"] ∧ l.chains = [.completed 0 (ascii "de")] ∧
      SingleReader l := by
  have hrun : (run Link.step
      [.handshake 0 0, .readComplete 0 0 (ascii "POST / HTTP/1.1\r\nContent-Length: 3\r\n\r\nabc"),
        .handleRead 0 Host.echo, .handshake 0 0, .readComplete 0 0 (ascii "de")]
      Link.accepted).map (fun l => (callbacks l.log, l.chains)) =
      some ([ascii "abc"], [.completed 0 (ascii "de")]) := by decide
  obtain ⟨l, hl, hfacts⟩ := Option.map_eq_some_iff.mp hrun
  obtain ⟨hcallbacks, hchains⟩ := Prod.mk.inj hfacts
  refine ⟨l, hcallbacks, hchains, single_reader (Reachable.refl.of_guarded hl ?_)⟩
  refine .cons (firstReadsComplete_of_no_read (by simp)) rfl ?_
  refine .cons (firstReadsComplete_of_no_read (by simp)) rfl ?_
  refine .cons (fun host buf h _ _ d hd _ => ?_) rfl ?_
  · obtain ⟨rfl, rfl⟩ := h.eq rfl
    obtain rfl : 3 = d := Except.ok.inj (Eq.trans (by decide) hd)
    decide
  refine .cons (firstReadsComplete_of_no_read (by simp)) rfl ?_
  exact .cons (firstReadsComplete_of_no_read (by simp)) rfl trivial

/-- A first read that ends with the header leaves two chains in flight. -/
theorem not_single_reader :
    ¬∀ l, Reachable Link.step (fun _ _ => True) Link.accepted l → SingleReader l := by
  intro h
  have hrun : (run Link.step [.handshake 0 0,
      .readComplete 0 0 (ascii "POST / HTTP/1.1\r\nContent-Length: 3\r\n\r\n"),
      .handleRead 0 Host.echo] Link.accepted).map (fun l => l.chains) =
      some [.handshaking, .handshaking] := by decide
  obtain ⟨l, hl, hchains⟩ := Option.map_eq_some_iff.mp hrun
  have hlen := (h l (reachable_of_run hl)).chains
  simp [hchains] at hlen

end Sample

end Gpd.Connection
