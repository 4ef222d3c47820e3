import Gpd.Connection.Link

/-! The storage that writes in flight read from. -/
namespace Gpd.Connection
open Cxx Text Machine

/-- Every write in flight reads `m_writeBuffer`, which still holds the text of that write. -/
def StableWrites (l : Link) : Prop :=
  ∀ w ∈ l.writes, w.source = .writeBuffer ∧ l.conn.writeBuffer = w.text

/-- No first read begins with GET, and while a write is in flight no data completes the
body again with a response other than the one in `m_writeBuffer`. -/
def KeepsResponse (l : Link) (e : Event) : Prop :=
  ∀ host buf, l.Handles e host buf →
    (l.conn.packageCounter = 0 → ¬ascii "GET" <+: buf) ∧
    (l.conn.packageCounter ≠ 0 → l.writes ≠ [] → (l.conn.take buf).Complete → ∀ json,
      host.processingCallback (l.conn.message ++ buf) = .ok json →
      postResponse json = l.conn.writeBuffer)

variable {host : Host} {c : TcpConnection} {o : Outcome TcpConnection Effect Fault Unit}

lemma Collects.response {body : Bytes} (h : Collects host body c o) :
    (responses o.trace = [] ∧ o.state.writeBuffer = c.writeBuffer) ∨
    ((c.take body).Complete ∧ ∃ json, host.processingCallback (c.message ++ body) = .ok json ∧
      responses o.trace = [⟨.writeBuffer, postResponse json⟩] ∧
      o.state.writeBuffer = postResponse json) := by
  cases h with
  | waiting | thrown => exact .inl ⟨by simp, rfl⟩
  | answered h json hj => exact .inr ⟨h, json, hj, by simp, rfl⟩

/-- A package starts no write, the GET response from a local, or a response whose text it
has just put into `m_writeBuffer`. -/
theorem Processes.response {buf : Bytes} (h : Processes host buf c o) :
    (responses o.trace = [] ∧ o.state.writeBuffer = c.writeBuffer) ∨
    (c.packageCounter = 0 ∧ ascii "GET" <+: buf) ∨
    (∃ text, responses o.trace = [⟨.writeBuffer, text⟩] ∧ o.state.writeBuffer = text ∧
      (c.packageCounter ≠ 0 → (c.take buf).Complete ∧ ∃ json,
        host.processingCallback (c.message ++ buf) = .ok json ∧ text = postResponse json)) := by
  cases h with
  | get h0 h => exact .inr (.inl ⟨h0, h⟩)
  | options h0 => exact .inr (.inr ⟨optionsResponse, rfl, by dsimp only, fun h => absurd h0 h⟩)
  | invalid | unread | refused => exact .inl ⟨by simp, rfl⟩
  | headerOnly => exact .inl ⟨by simp, rfl⟩
  | first h0 _ d _ _ _ o ho =>
    rcases ho.response with ⟨hr, hw⟩ | ⟨_, json, _, hr, hw⟩
    · exact .inl ⟨by simpa using hr, by simpa using hw⟩
    · exact .inr (.inr ⟨_, by simpa using hr, by simpa using hw, fun h => absurd h0 h⟩)
  | later h0 o ho =>
    rcases ho.response with ⟨hr, hw⟩ | ⟨hc, json, hj, hr, hw⟩
    · exact .inl ⟨by simpa using hr, hw⟩
    · exact .inr (.inr ⟨_, by simpa using hr, hw, fun _ => ⟨hc, json, hj, rfl⟩⟩)

namespace Link

theorem Steps.keeps_stableWrites {l l' : Link} {e : Event} (h : Steps l e l')
    (hl : StableWrites l) (hsound : l.Sound) (hok : KeepsResponse l e) : StableWrites l' := by
  intro w hw
  cases h with
  | connected => exact hl w (by simpa using hw)
  | aborted => exact hl w (by simpa using hw)
  | stored => exact hl w hw
  | written i _ _ _ =>
    simp only [absorb_writes, withoutWrite_writes, responses_nil, List.append_nil] at hw
    exact hl w (List.mem_of_mem_eraseIdx hw)
  | handled i host error bytes hi o ho =>
    cases ho with
    | eof => exact hl w (by simpa using hw)
    | failed => exact hl w (by simpa using hw)
    | empty => exact hl w (by simpa using hw)
    | data herr hne _ ho =>
      have hsize := hsound.stored.toNat_size (List.mem_of_getElem? hi)
      rw [hsize] at hne ho
      obtain ⟨hget, hagain⟩ := hok host _ ⟨i, error, bytes, rfl, hi, herr, rfl, hne⟩
      generalize l.conn.buffer.take bytes.length = buf at ho hget hagain
      simp only [absorb_writes, without_writes, List.mem_append] at hw
      rcases ho.response with ⟨hr, hb⟩ | ⟨h0, h⟩ | ⟨text, hr, hb, hlater⟩
      · rw [hr] at hw
        rw [absorb_conn, hb]
        exact hl w (by simpa using hw)
      · exact absurd h (hget h0)
      · rw [absorb_conn, hb]
        rcases hw with hw | hw
        · -- an older write is still in flight, so this package is a later one
          by_cases h0 : l.conn.packageCounter = 0
          · have hnone := (hsound.opening.untouched h0 hi).writes
            simp [hnone] at hw
          · obtain ⟨hc, json, hj, rfl⟩ := hlater h0
            rw [hagain h0 (List.ne_nil_of_mem hw) hc json hj]
            exact hl w hw
        · rw [hr] at hw
          obtain rfl := List.mem_singleton.mp hw
          exact ⟨rfl, rfl⟩

end Link

/-- Responses in flight are stable as long as nothing else is put in their place. -/
theorem stable_writes {l : Link} (h : Reachable Link.step KeepsResponse Link.accepted l) :
    StableWrites l := by
  refine Link.invariant ?_ ?_ h
  · simp [StableWrites, Link.accepted, processRequest]
  · exact fun l e l' hs hsound _ hok hsteps => hsteps.keeps_stableWrites hs hsound hok

section Sample

lemma keepsResponse_of_no_read {l : Link} {e : Event} (h : ∀ i host, e ≠ .handleRead i host) :
    KeepsResponse l e := fun _ _ hh => absurd hh (Link.not_handles h)

theorem stable_writes_sample :
    ∃ l, l.writes = [⟨.writeBuffer, postResponse (ascii "abc")⟩] ∧ StableWrites l := by
  have hrun : (run Link.step [.handshake 0 0,
      .readComplete 0 0 (ascii "POST / HTTP/1.1\r\nContent-Length: 3\r\n\r\nabc"),
      .handleRead 0 Host.echo] Link.accepted).map (fun l => l.writes) =
      some [⟨.writeBuffer, postResponse (ascii "abc")⟩] := by decide
  obtain ⟨l, hl, hwrites⟩ := Option.map_eq_some_iff.mp hrun
  refine ⟨l, hwrites, stable_writes (Reachable.refl.of_guarded hl ?_)⟩
  refine .cons (keepsResponse_of_no_read (by simp)) rfl ?_
  refine .cons (keepsResponse_of_no_read (by simp)) rfl ?_
  refine .cons (fun host buf h => ?_) rfl trivial
  obtain ⟨rfl, rfl⟩ := h.eq rfl
  exact ⟨fun _ => by decide, fun h0 => absurd rfl h0⟩

/-- The GET response is written from a local variable of its handler. -/
theorem not_stable_writes :
    ¬∀ l, Reachable Link.step (fun _ _ => True) Link.accepted l → StableWrites l := by
  intro h
  have hrun : (run Link.step [.handshake 0 0, .readComplete 0 0 (ascii "GET / HTTP/1.1\r\n\r\n"),
      .handleRead 0 Host.echo] Link.accepted).map (fun l => l.writes.map Write.source) =
      some [.handlerLocal] := by decide
  obtain ⟨l, hl, hsources⟩ := Option.map_eq_some_iff.mp hrun
  obtain ⟨w, hw, hlocal⟩ : ∃ w ∈ l.writes, w.source = .handlerLocal :=
    List.mem_map.mp (hsources ▸ List.mem_singleton_self _)
  have hmember := (h l (reachable_of_run hl) w hw).1
  rw [hlocal] at hmember
  cases hmember

end Sample

end Gpd.Connection
