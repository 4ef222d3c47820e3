import Gpd.Connection.Request
import Gpd.Connection.Accounting

/-! How much of a request the first read has to hold for its header to be understood. -/
namespace Gpd.Connection
open Cxx Text Machine

variable {host : Host}

/-- The connection took the reads for a POST request and refused nothing. -/
structure Accepted (o : Outcome TcpConnection Effect Fault Unit) : Prop where
  ok : o.result = .ok ()
  post : o.state.packageType = .post
  counted : o.state.packageCounter ≠ 0
  open_ : .shutdown ∉ o.trace

theorem handleChunks_no_shutdown {c : TcpConnection} {chunks : List Bytes}
    (hc : c.packageCounter ≠ 0) (hchunks : ∀ b ∈ chunks, b ≠ [] ∧ b.length < 2 ^ 64) :
    .shutdown ∉ (handleChunks host chunks c).trace := by
  have hrun := Action.each_rel (f := handleChunk host) (I := fun c => c.packageCounter ≠ 0)
    (R := fun _ t _ => .shutdown ∉ t) (l := chunks) (s := c) ?_ ?_ ?_ hc
  · exact hrun.2
  · simp
  · intro _ t _ u _ ht hu hmem
    exact (List.mem_append.mp hmem).elim ht hu
  · intro b hb c hc
    have hp := handleChunk_processes host (hchunks b hb).1 (hchunks b hb).2 c
    obtain ⟨o, ho, he⟩ := hp.continues hc
    rw [he]
    refine ⟨by cases ho <;> exact hc, ?_⟩
    simpa using ho.no_shutdown

section FirstRead

variable {first : Bytes} {rest : List Bytes} {d : Size}

lemma Processes.first_no_shutdown {c : TcpConnection}
    {o : Outcome TcpConnection Effect Fault Unit} (h : Processes host first c o)
    (h0 : c.packageCounter = 0) (hpost : ascii "POST" <+: first)
    (hd : parseContentLength host first = .ok d) (hne : d ≠ 0) : .shutdown ∉ o.trace := by
  cases h.opens h0 hpost hd with
  | refused hz => exact absurd hz hne
  | headerOnly => simp [refusal, hne]
  | first _ _ o ho =>
    obtain ⟨t, ht, htrace⟩ := counting_trace o
    rcases ht with rfl | rfl <;> simpa [htrace, refusal, hne] using ho.no_shutdown

variable (hlen : first.length < 2 ^ 64) (hrest : ∀ b ∈ rest, b ≠ [] ∧ b.length < 2 ^ 64)
include hlen hrest

theorem accepted_of_length (hcb : host.Returns) (hpost : ascii "POST" <+: first)
    (hd : parseContentLength host first = .ok d) (hne : d ≠ 0) :
    let o := handleChunks host (first :: rest) TcpConnection.new
    Accepted o ∧ o.state.contentLength = d ∧
      o.state.message = (first :: rest).flatten.drop (bodyStart first) := by
  have hok : (handleChunks host (first :: rest) TcpConnection.new).result = .ok () := by
    rcases handleChunks_post_returns hpost hlen hrest hd hcb with h | ⟨h0, _⟩
    · exact h
    · exact absurd h0 hne
  obtain ⟨hs, hcl, hty⟩ := (handleChunks_post_serving hpost hlen hrest hd).2 hok
  refine ⟨⟨hok, hty, hs.counter, ?_⟩, hcl, hs.message⟩
  have hp := handleChunk_processes host (post_ne_nil hpost) hlen TcpConnection.new
  have hfirst := hp.first_no_shutdown rfl hpost hd hne
  rw [handleChunks_cons]
  rcases Outcome.andThen_cases (handleChunk host first TcpConnection.new)
    fun _ => handleChunks host rest with ⟨e, _, he⟩ | ⟨u, hu, ho⟩
  · rw [he]
    exact hfirst
  · have hcounter := ((hp.first_spec rfl rfl rfl hpost hd).2 hu).1.counter
    rw [ho]
    exact fun hmem => (List.mem_append.mp hmem).elim hfirst
      (handleChunks_no_shutdown hcounter hrest)

omit hrest in
theorem Accepted.length_of_head (hhead : first.head? = some 80)
    (h : Accepted (handleChunks host (first :: rest) TcpConnection.new)) :
    ascii "POST" <+: first ∧ ∃ d, parseContentLength host first = .ok d ∧ d ≠ 0 := by
  have hne : first ≠ [] := by
    rintro rfl
    simp at hhead
  have hp := handleChunk_processes host hne hlen TcpConnection.new
  have hopen := h.open_
  have hok := h.ok
  rw [handleChunks_cons] at hopen hok
  generalize handleChunk host first TcpConnection.new = o at hp hopen hok
  have hclosed : ∀ r s t, .shutdown ∈ t → .shutdown ∈
      ((⟨r, s, t⟩ : Outcome TcpConnection Effect Fault Unit).andThen fun _ =>
        handleChunks host rest).trace := by
    intro r s t ht
    cases r with
    | error e => simpa using ht
    | ok u => simp [ht]
  cases hp with
  | get _ h => exact absurd h (excludes_of_head hhead).1
  | options _ h => exact absurd h (excludes_of_head hhead).2
  | invalid => exact absurd (hclosed _ _ _ (by simp)) hopen
  | unread => simp at hok
  | refused => exact absurd (hclosed _ _ _ (by simp)) hopen
  | headerOnly _ hpost d hd =>
    refine ⟨hpost, d, hd, ?_⟩
    rintro rfl
    exact hopen (hclosed _ _ _ (by simp [refusal]))
  | first _ hpost d hd _ _ o ho =>
    refine ⟨hpost, d, hd, ?_⟩
    rintro rfl
    exact hopen (by simp [refusal])
  | later h => exact absurd rfl h

end FirstRead

/-- A host on which a missing length field is an error. -/
def Host.strict : Host := { Host.echo with stray := fun _ => .error .wildPointer }

lemma parseContentLength_strict {s : Bytes} (hlen : s.length ≤ bufferSize) {d : Size}
    (h : parseContentLength Host.strict s = .ok d) : declaredLength s = some d := by
  have hmax : s.length < npos.toNat := hlen.trans_lt (by decide)
  cases hi : position headerName s with
  | none =>
    rw [parseContentLength, find_eq_npos hi, suffixFrom, if_neg (by omega)] at h
    cases h
  | some i =>
    have hocc := (position_eq_some.mp hi).1
    exact (parseContentLength_eq_ok_iff Host.strict (hmax.trans (by decide)) hocc).mp h

lemma parseContentLength_of_declared (host : Host) {s : Bytes} (hlen : s.length < 2 ^ 64)
    {d : Size} (h : declaredLength s = some d) : parseContentLength host s = .ok d := by
  cases hi : position headerName s with
  | none => simp [declaredLength, lengthText, hi] at h
  | some i =>
    exact (parseContentLength_eq_ok_iff host hlen (position_eq_some.mp hi).1).mpr h

section Cuts

variable {H B : Bytes} {n : ℕ} {first : Bytes} {rest : List Bytes}
  (hreq : PostRequest H B n) (hpart : Partition (first :: rest) (H ++ B))
include hreq hpart

omit hreq in
lemma Partition.first_begins : first <+: H ++ B := by
  rw [← hpart.flatten]
  exact List.prefix_append _ _

lemma bodyStart_first :
    bodyStart first = if H.length ≤ first.length then H.length else 3 := by
  have h4 := hreq.four_le
  have hend := position_append hreq.ends B
  split_ifs with hle
  · have hf := position_of_begins hend hpart.first_begins (by simp; omega)
    rw [bodyStart_of_position hf]
    omega
  · exact bodyStart_of_none
      (position_eq_none_of_begins hend hpart.first_begins (by simp; omega))

lemma head_first : first.head? = some 80 := by
  obtain ⟨t, ht⟩ := hpart.first_begins
  have hP : (H ++ B).head? = some 80 :=
    head_of_begins (hreq.begins_post.trans (List.prefix_append H B))
  have hne := hpart.nonempty first (by simp)
  rwa [← ht, List.head?_append_of_ne_nil _ hne] at hP

end Cuts

/-- Two partitions of one request lead every host to accept it with the same length and
message exactly when both first reads begin with the method token, declare the same
non-zero length, and hold the header terminator or miss it together. -/
theorem cuts_agree_iff {H B : Bytes} {n : ℕ} (hreq : PostRequest H B n) (hn : 0 < n)
    {p q : Bytes} {ps qs : List Bytes} (hp : Partition (p :: ps) (H ++ B))
    (hq : Partition (q :: qs) (H ++ B)) :
    (∀ host : Host, host.Returns →
      let o := handleChunks host (p :: ps) TcpConnection.new
      let o' := handleChunks host (q :: qs) TcpConnection.new
      Accepted o ∧ Accepted o' ∧ o.state.contentLength = o'.state.contentLength ∧
        o.state.message = o'.state.message) ↔
      ascii "POST" <+: p ∧ ascii "POST" <+: q ∧
        (∃ d, declaredLength p = some d ∧ declaredLength q = some d ∧ d ≠ 0) ∧
        (H.length ≤ p.length ↔ H.length ≤ q.length) := by
  obtain ⟨⟨_, hpl⟩, hps⟩ := List.forall_mem_cons.mp hp.reads_ok
  obtain ⟨⟨_, hql⟩, hqs⟩ := List.forall_mem_cons.mp hq.reads_ok
  have hpb := hp.bounded p (by simp)
  have hqb := hq.bounded q (by simp)
  have hbp := bodyStart_first hreq hp
  have hbq := bodyStart_first hreq hq
  have h4 := hreq.four_le
  have hB := hreq.length
  constructor
  · intro h
    have hret : Host.strict.Returns := fun m => ⟨m, rfl⟩
    obtain ⟨ha, ha', hcl, hmsg⟩ := h Host.strict hret
    obtain ⟨hpp, d, hd, hd0⟩ := ha.length_of_head hpl (head_first hreq hp)
    obtain ⟨hpq, d', hd', hd0'⟩ := ha'.length_of_head hql (head_first hreq hq)
    obtain ⟨_, hc, hm⟩ := accepted_of_length hpl hps hret hpp hd hd0
    obtain ⟨_, hc', hm'⟩ := accepted_of_length hql hqs hret hpq hd' hd0'
    have hdd : d = d' := hc.symm.trans (hcl.trans hc')
    refine ⟨hpp, hpq, ⟨d, parseContentLength_strict hpb hd,
      hdd ▸ parseContentLength_strict hqb hd', hd0⟩, ?_⟩
    have hlens := congrArg List.length (hm.symm.trans (hmsg.trans hm'))
    rw [hp.flatten, hq.flatten, hbp, hbq, List.length_drop, List.length_drop,
      List.length_append] at hlens
    split_ifs at hlens with h1 h2 h2
    · exact iff_of_true h1 h2
    · omega
    · omega
    · exact iff_of_false h1 h2
  · rintro ⟨hpp, hpq, ⟨d, hd, hd', hd0⟩, hsame⟩ host hret
    obtain ⟨ha, hc, hm⟩ := accepted_of_length hpl hps hret hpp
      (parseContentLength_of_declared host hpl hd) hd0
    obtain ⟨ha', hc', hm'⟩ := accepted_of_length hql hqs hret hpq
      (parseContentLength_of_declared host hql hd') hd0
    have hstart : bodyStart p = bodyStart q := by
      rw [hbp, hbq]
      exact if_congr hsame rfl rfl
    exact ⟨ha, ha', hc.trans hc'.symm, by rw [hm, hm', hp.flatten, hq.flatten, hstart]⟩

section Sample

def sampleFields : Bytes := ascii "POST / HTTP/1.1\r\nContent-Length: 3\r\n"

lemma sample_whole :
    Partition [sampleHeader ++ ascii "abc"] (sampleHeader ++ ascii "abc") :=
  ⟨by decide, by decide, by decide⟩

lemma sample_split :
    Partition [sampleFields, ascii "\r\nabc"] (sampleHeader ++ ascii "abc") :=
  ⟨by decide, by decide, by decide⟩

/-- A cut between the two line ends of the terminator makes header bytes body bytes. -/
theorem cuts_not_agree :
    ¬∀ (host : Host) (H B : Bytes) (n : ℕ) (reads reads' : List Bytes), host.Returns →
      PostRequest H B n → 0 < n → Partition reads (H ++ B) → Partition reads' (H ++ B) →
      let o := handleChunks host reads TcpConnection.new
      let o' := handleChunks host reads' TcpConnection.new
      Accepted o ∧ Accepted o' ∧ o.state.contentLength = o'.state.contentLength ∧
        o.state.message = o'.state.message := by
  intro h
  obtain ⟨_, _, _, hmsg⟩ := h Host.echo sampleHeader (ascii "abc") 3 _ _ Host.echo_returns
    sampleHeader_request (by decide) sample_whole sample_split
  exact absurd hmsg (by decide)

theorem cuts_agree_iff_sample :
    (∀ host : Host, host.Returns →
      let o := handleChunks host [sampleHeader ++ ascii "abc"] TcpConnection.new
      let o' := handleChunks host [sampleFields, ascii "\r\nabc"] TcpConnection.new
      Accepted o ∧ Accepted o' ∧ o.state.contentLength = o'.state.contentLength ∧
        o.state.message = o'.state.message) ↔
      ascii "POST" <+: sampleHeader ++ ascii "abc" ∧ ascii "POST" <+: sampleFields ∧
        (∃ d, declaredLength (sampleHeader ++ ascii "abc") = some d ∧
          declaredLength sampleFields = some d ∧ d ≠ 0) ∧
        (sampleHeader.length ≤ (sampleHeader ++ ascii "abc").length ↔
          sampleHeader.length ≤ sampleFields.length) :=
  cuts_agree_iff sampleHeader_request (by decide) sample_whole sample_split

end Sample

end Gpd.Connection
