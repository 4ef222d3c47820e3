import Gpd.Connection.Reassembly

/-! A request whose last byte has arrived: whether the read that brought it starts the
answer. -/
namespace Gpd.Connection
open Cxx Text Machine

variable {host : Host} {H B : Bytes} {n : ℕ}

/-- The reads before the last one are handled, and the last one calls the callback with
exactly the body and starts the write of what it returns. -/
structure CompletesWith (host : Host) (B : Bytes) (reads : List Bytes) (last : Bytes) : Prop where
  handled : (handleChunks host reads TcpConnection.new).result = .ok ()
  called : callbacks
    (handleChunk host last (handleChunks host reads TcpConnection.new).state).trace = [B]
  answered : ∃ json, host.processingCallback B = .ok json ∧
    .asyncWrite .writeBuffer (postResponse json) ∈
      (handleChunk host last (handleChunks host reads TcpConnection.new).state).trace

lemma Collects.writes (hcb : host.Returns) {body m : Bytes} {c : TcpConnection}
    {o : Outcome TcpConnection Effect Fault Unit} (h : Collects host body c o)
    (hm : m ∈ callbacks o.trace) : ∃ json, host.processingCallback m = .ok json ∧
      .asyncWrite .writeBuffer (postResponse json) ∈ o.trace := by
  cases h with
  | waiting => simp at hm
  | thrown _ e he =>
    obtain ⟨json, hj⟩ := hcb (c.message ++ body)
    simp [hj] at he
  | answered _ json hj =>
    obtain rfl : m = c.message ++ body := by simpa using hm
    exact ⟨json, hj, by simp⟩

lemma Processes.writes (hcb : host.Returns) {buf m : Bytes} {c : TcpConnection}
    {o : Outcome TcpConnection Effect Fault Unit} (h : Processes host buf c o)
    (hm : m ∈ callbacks o.trace) : ∃ json, host.processingCallback m = .ok json ∧
      .asyncWrite .writeBuffer (postResponse json) ∈ o.trace := by
  cases h with
  | get | options | invalid | unread | refused | headerOnly => simp at hm
  | first _ _ d _ _ _ o ho =>
    obtain ⟨json, hj, hw⟩ := ho.writes hcb (by simpa using hm)
    obtain ⟨t, _, ht⟩ := counting_trace o
    exact ⟨json, hj, by simp [ht, hw]⟩
  | later _ o ho =>
    obtain ⟨json, hj, hw⟩ := ho.writes hcb (by simpa using hm)
    exact ⟨json, hj, by simp [hw]⟩

section LastRead

variable {first last : Bytes} {d : Size} (hpost : ascii "POST" <+: first)
  (hfirst : first.length < 2 ^ 64) (hd : parseContentLength host first = .ok d)
  (hs : d = 0 → host.shutdown = .ok ())
include hpost hfirst hd hs

lemma callbacks_firstRead (hb : bodyPart first ≠ []) :
    callbacks (handleChunk host first TcpConnection.new).trace =
      if due d (bodyPart first) then [bodyPart first] else [] := by
  have hp := handleChunk_processes host (post_ne_nil hpost) hfirst TcpConnection.new
  rcases hp.first_handsOver hpost rfl rfl rfl hd hs with
    ⟨hnil, _⟩ | ⟨_, hdue, hcalls, _⟩ | ⟨_, hdue, hcalls, _⟩
  · exact absurd hnil hb
  · rw [hcalls, if_neg hdue]
  · rw [hcalls, if_pos hdue]

variable {mid : List Bytes} (hmid : ∀ b ∈ mid, b ≠ [] ∧ b.length < 2 ^ 64)
  (hlast : last ≠ [] ∧ last.length < 2 ^ 64)
include hmid hlast

lemma callbacks_laterRead (hcb : host.Returns) :
    (handleChunks host (first :: mid) TcpConnection.new).result = .ok () ∧
    callbacks (handleChunk host last
        (handleChunks host (first :: mid) TcpConnection.new).state).trace =
      if due d (((first :: mid) ++ [last]).flatten.drop (bodyStart first)) then
        [((first :: mid) ++ [last]).flatten.drop (bodyStart first)] else [] := by
  have hok : (handleChunks host (first :: mid) TcpConnection.new).result = .ok () := by
    rcases handleChunks_post_returns hpost hfirst hmid hd hcb with h | ⟨h0, hfails, _⟩
    · exact h
    · simp [Host.shutdown, hfails] at hs
      exact absurd h0 hs
  refine ⟨hok, ?_⟩
  obtain ⟨hserving, hlength, _⟩ := (handleChunks_post_serving hpost hfirst hmid hd).2 hok
  generalize (handleChunks host (first :: mid) TcpConnection.new).state = c at hserving hlength
  have hp := handleChunk_processes host hlast.1 hlast.2 c
  have hmessage : (c.store last).message ++ last =
      ((first :: mid) ++ [last]).flatten.drop (bodyStart first) := by
    rw [store_message, hserving.message, List.flatten_append,
      List.drop_append_of_le_length hserving.offset, List.flatten_singleton]
  have hover := hp.later_handsOver (hserving.store last).counter (hserving.store last).total
  rw [hmessage, store_contentLength, hlength] at hover
  rcases hover with ⟨hdue, hcalls, _⟩ | ⟨hdue, hcalls, _⟩
  · rw [hcalls, if_neg hdue]
  · rw [hcalls, if_pos hdue]

end LastRead

section Requests

variable (hreq : PostRequest H B n) (h1 : 1 ≤ n) (hn : n ≤ 2147483647)
  {reads : List Bytes} {last : Bytes} (hpart : Partition (reads ++ [last]) (H ++ B))
  (hhead : ∀ b ∈ (reads ++ [last]).head?, H <+: b)
include hreq hpart hhead

omit hpart hhead in
lemma PostRequest.refuses {first : Bytes} (hH : H <+: first)
    (hfirst : first ≠ [] ∧ first.length < 2 ^ 64)
    (hno : ¬∃ d, declaredLength H = some d ∧ (d = 0 → host.shutdown = .ok ())) :
    callbacks (handleChunk host first TcpConnection.new).trace = [] ∧
      ∃ e, (handleChunk host first TcpConnection.new).result = .error e := by
  have hp := handleChunk_processes host hfirst.1 hfirst.2 TcpConnection.new
  apply hp.first_unserved (hreq.begins_post.trans hH) rfl
  exact fun d hd hs => hno ⟨d, (hreq.parse_iff hH host hfirst.2).mp hd, hs⟩

lemma CompletesWith.declared (h : CompletesWith host B reads last) :
    ∃ d, declaredLength H = some d ∧ (d = 0 → host.shutdown = .ok ()) := by
  by_contra hno
  cases reads with
  | nil =>
    have hcalls := (hreq.refuses (hhead last (by simp)) (hpart.reads_ok last (by simp)) hno).1
    have hcalled := h.called
    rw [handleChunks_nil, hcalls] at hcalled
    cases hcalled
  | cons first mid =>
    obtain ⟨_, e, he⟩ :=
      hreq.refuses (hhead first (by simp)) (hpart.reads_ok first (by simp)) hno
    have hhandled := h.handled
    rw [handleChunks_cons, Outcome.andThen_of_error he] at hhandled
    cases hhandled

include h1

lemma callbacks_lastRead (hcb : host.Returns) {d : Size} (hd : declaredLength H = some d)
    (hs : d = 0 → host.shutdown = .ok ()) :
    (handleChunks host reads TcpConnection.new).result = .ok () ∧
    callbacks (handleChunk host last (handleChunks host reads TcpConnection.new).state).trace =
      if due d B then [B] else [] := by
  have hlast := hpart.reads_ok last (by simp)
  have hflat := hpart.flatten
  cases reads with
  | nil =>
    have hH : H <+: last := hhead last (by simp)
    have hbody : bodyPart last = B := by
      rw [bodyPart, hreq.bodyStart_eq hH]
      simp only [List.nil_append, List.flatten_singleton] at hflat
      rw [hflat, List.drop_left]
    have hne : bodyPart last ≠ [] := by
      rw [hbody, ← List.length_pos_iff, hreq.length]
      exact h1
    have hcalls := callbacks_firstRead (hreq.begins_post.trans hH) hlast.2
      ((hreq.parse_iff hH host hlast.2).mpr hd) hs hne
    rw [hbody] at hcalls
    exact ⟨rfl, hcalls⟩
  | cons first mid =>
    have hH : H <+: first := hhead first (by simp)
    have hfirst := hpart.reads_ok first (by simp)
    have hmid : ∀ b ∈ mid, b ≠ [] ∧ b.length < 2 ^ 64 := fun b hb =>
      hpart.reads_ok b (by simp [hb])
    have hcalls := callbacks_laterRead (hreq.begins_post.trans hH) hfirst.2
      ((hreq.parse_iff hH host hfirst.2).mpr hd) hs hmid hlast hcb
    rwa [hflat, hreq.bodyStart_eq hH, List.drop_left] at hcalls

lemma completesWith_of_due (hcb : host.Returns) {d : Size} (hd : declaredLength H = some d)
    (hs : d = 0 → host.shutdown = .ok ()) (hdue : due d B) : CompletesWith host B reads last := by
  obtain ⟨hok, hcalls⟩ := callbacks_lastRead hreq h1 hpart hhead hcb hd hs
  rw [if_pos hdue] at hcalls
  have hlast := hpart.reads_ok last (by simp)
  have hp := handleChunk_processes host hlast.1 hlast.2
    (handleChunks host reads TcpConnection.new).state
  exact ⟨hok, hcalls, hp.writes hcb (by simp [hcalls])⟩

include hn

/-- The read that delivers the last byte starts the answer exactly when the length that the
header declares, as `extractContentLength` reads it, is accepted and at most two bytes more
than the body has. -/
theorem completes_iff (hcb : host.Returns) :
    CompletesWith host B reads last ↔
      ∃ d, declaredLength H = some d ∧ (d = 0 → host.shutdown = .ok ()) ∧ d.toNat ≤ n + 2 := by
  have hB := hreq.length
  have hdue : ∀ d, due d B ↔ d.toNat ≤ n + 2 := fun d => by
    rw [due_iff (by omega), hB]
  constructor
  · intro h
    obtain ⟨d, hd, hs⟩ := h.declared hreq hpart hhead
    refine ⟨d, hd, hs, (hdue d).mp ?_⟩
    by_contra hnot
    have hcalled := h.called
    rw [(callbacks_lastRead hreq h1 hpart hhead hcb hd hs).2, if_neg hnot] at hcalled
    cases hcalled
  · rintro ⟨d, hd, hs, hle⟩
    exact completesWith_of_due hreq h1 hpart hhead hcb hd hs ((hdue d).mpr hle)

/-- In particular a request whose length field comes first is always answered. -/
theorem PostRequest.completes (hcb : host.Returns) {k : ℕ} (hk : OccursAt (lengthField n) H k)
    (hname : position headerName H = some (k + 2)) : CompletesWith host B reads last := by
  have hval : (UInt64.ofNat n).toNat = n := UInt64.toNat_ofNat_of_lt' (show n < 2 ^ 64 by omega)
  have hB := hreq.length
  apply completesWith_of_due hreq h1 hpart hhead hcb (hreq.declaredLength_eq hn hk hname)
  · exact fun h0 => absurd h0 (ofNat_ne_zero h1 hn)
  · exact (due_iff (by omega)).mpr (by omega)

end Requests

theorem completes_iff_three :
    CompletesWith Host.echo (ascii "abc") [sampleHeader, ascii "ab"] (ascii "c") ↔
      ∃ d, declaredLength sampleHeader = some d ∧ (d = 0 → Host.echo.shutdown = .ok ()) ∧
        d.toNat ≤ 3 + 2 :=
  completes_iff sampleHeader_request (by decide) (by decide)
    ⟨by decide, by decide, by decide⟩ (by simp) Host.echo_returns

def namesakeHeader : Bytes :=
  ascii "POST / HTTP/1.1\r\nX-Content-Length: 9\r\nContent-Length: 3\r\n\r\n"

lemma namesakeHeader_request : PostRequest namesakeHeader (ascii "abc") 3 where
  post := by decide
  ends := by decide
  field := ⟨36, by decide⟩
  single := occursAt_unique (k := 36) (by decide)
  length := by decide

/-- The length of the namesake is waited for in vain. -/
theorem not_completes :
    ¬∀ (host : Host) (H B : Bytes) (n : ℕ) (reads : List Bytes) (last : Bytes), host.Returns →
      PostRequest H B n → 1 ≤ n → n ≤ 2147483647 → Partition (reads ++ [last]) (H ++ B) →
      (∀ b ∈ (reads ++ [last]).head?, H <+: b) → CompletesWith host B reads last := by
  intro h
  have hpart : Partition ([] ++ [namesakeHeader ++ ascii "abc"]) (namesakeHeader ++ ascii "abc") :=
    ⟨by simp, by decide, by decide⟩
  have hcompletes := h Host.echo namesakeHeader (ascii "abc") 3 [] _ Host.echo_returns
    namesakeHeader_request (by decide) (by decide) hpart (by simp)
  have hsilent : callbacks (handleChunk Host.echo (namesakeHeader ++ ascii "abc")
      (handleChunks Host.echo [] TcpConnection.new).state).trace = [] := by decide
  have hcalled := hcompletes.called
  rw [hsilent] at hcalled
  cases hcalled

end Gpd.Connection
