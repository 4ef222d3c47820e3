import Gpd.Connection.Stream

/-! Conservation of body bytes over whole sequences of reads. -/
namespace Gpd.Connection
open Cxx Text Machine

variable {host : Host}

/-- Count, contents and callback arguments agree along every run of reads. -/
theorem handleChunks_bookkeeping (host : Host) {c : TcpConnection} {chunks : List Bytes}
    (hc : c.transferredTotal = size c.message)
    (hchunks : ∀ b ∈ chunks, b ≠ [] ∧ b.length < 2 ^ 64) :
    let o := handleChunks host chunks c
    o.state.transferredTotal = size o.state.message ∧
      o.state.message = c.message ++ written o.trace ∧ Faithful c.message o.trace := by
  refine Action.each_rel (I := fun c : TcpConnection => c.transferredTotal = size c.message)
    (R := fun c t c' => c'.message = c.message ++ written t ∧ Faithful c.message t)
    ?_ ?_ ?_ hc
  · exact fun c => ⟨by simp, trivial⟩
  · rintro c t c' u c'' ⟨hm, hf⟩ ⟨hm', hf'⟩
    rw [hm] at hm' hf'
    exact ⟨by simp [hm'], faithful_append.mpr ⟨hf, hf'⟩⟩
  · intro b hb c hc
    have hp := handleChunk_processes host (hchunks b hb).1 (hchunks b hb).2 c
    exact ⟨hp.counts hc, hp.bookkeeping.1, hp.bookkeeping.2.1⟩

/-- Later reads extend the stream in order, whether the run ends normally or not. -/
theorem handleChunks_serving {k : ℕ} {r : Bytes} {c : TcpConnection} {chunks : List Bytes}
    (hs : Serving k r c) (hchunks : ∀ b ∈ chunks, b ≠ [] ∧ b.length < 2 ^ 64) :
    let o := handleChunks host chunks c
    Serving k (r ++ received o.trace) o.state ∧ ServesFrom k r o.trace ∧
      o.state.contentLength = c.contentLength ∧ o.state.packageType = c.packageType := by
  have hrun := Action.each_rel (f := handleChunk host) (I := fun _ => True)
    (R := fun c t c' => ∀ r, Serving k r c → Serving k (r ++ received t) c' ∧
      ServesFrom k r t ∧ c'.contentLength = c.contentLength ∧ c'.packageType = c.packageType)
    (l := chunks) (s := c) ?_ ?_ ?_ trivial
  · exact hrun.2 r hs
  · intro c r hr
    exact ⟨by simpa using hr, trivial, rfl, rfl⟩
  · intro c t c' u c'' h h' r hr
    obtain ⟨h1, h2, h3, h4⟩ := h r hr
    obtain ⟨h1', h2', h3', h4'⟩ := h' _ h1
    exact ⟨by simpa using h1', atCallbacks_append.mpr ⟨h2, h2'⟩, h3'.trans h3, h4'.trans h4⟩
  · intro b hb c _
    refine ⟨trivial, fun r hr => ?_⟩
    have hp := handleChunk_processes host (hchunks b hb).1 (hchunks b hb).2 c
    rw [hp.bookkeeping.2.2]
    exact hp.later_spec (hr.store b)

theorem handleChunks_received {chunks : List Bytes} {c : TcpConnection}
    (hchunks : ∀ b ∈ chunks, b ≠ [] ∧ b.length < 2 ^ 64)
    (hok : (handleChunks host chunks c).result = .ok ()) :
    received (handleChunks host chunks c).trace = chunks.flatten := by
  induction chunks generalizing c with
  | nil => rfl
  | cons b bs ih =>
    have hb := hchunks b (by simp)
    have hp := handleChunk_processes host hb.1 hb.2 c
    rw [handleChunks_cons] at hok ⊢
    rcases Outcome.andThen_cases (handleChunk host b c) fun _ => handleChunks host bs
      with ⟨e, _, he⟩ | ⟨u, _, hu⟩
    · simp [he] at hok
    · rw [hu] at hok ⊢
      have hrest := ih (fun b' hb' => hchunks b' (by simp [hb'])) hok
      simp [hrest, hp.bookkeeping.2.2]

theorem handleChunks_returns (hcb : host.Returns) {k : ℕ} {r : Bytes} {c : TcpConnection}
    {chunks : List Bytes} (hs : Serving k r c)
    (hchunks : ∀ b ∈ chunks, b ≠ [] ∧ b.length < 2 ^ 64) :
    (handleChunks host chunks c).result = .ok () := by
  induction chunks generalizing r c with
  | nil => rfl
  | cons b bs ih =>
    have hb := hchunks b (by simp)
    have hp := handleChunk_processes host hb.1 hb.2 c
    have hret := hp.later_returns hcb (hs.store b).counter
    have hrest := ih (hp.later_spec (hs.store b)).1 fun b' hb' => hchunks b' (by simp [hb'])
    rw [handleChunks_cons]
    rcases Outcome.andThen_cases (handleChunk host b c) fun _ => handleChunks host bs
      with ⟨e, he, _⟩ | ⟨u, _, hu⟩
    · simp [hret] at he
    · rw [hu]
      exact hrest

lemma extractContentLength_returned {buf : Bytes} {c : TcpConnection}
    (h : (extractContentLength host buf c).result = .ok ()) :
    ∃ d, parseContentLength host buf = .ok d := by
  rw [extractContentLength_apply] at h
  cases hd : parseContentLength host buf with
  | ok d => exact ⟨d, rfl⟩
  | error e => simp [hd] at h

section FirstRead

variable {first : Bytes} {rest : List Bytes} {d : Size}
  (hpost : ascii "POST" <+: first) (hlen : first.length < 2 ^ 64)
  (hrest : ∀ b ∈ rest, b ≠ [] ∧ b.length < 2 ^ 64)
  (hd : parseContentLength host first = .ok d)
include hpost hlen hrest hd

omit hlen hrest hd in
lemma post_ne_nil : first ≠ [] := by
  rintro rfl
  simp [ascii] at hpost

theorem handleChunks_post_serving :
    let o := handleChunks host (first :: rest) TcpConnection.new
    ServesFrom (bodyStart first) [] o.trace ∧
      (o.result = .ok () → Serving (bodyStart first) (first :: rest).flatten o.state ∧
        o.state.contentLength = d ∧ o.state.packageType = .post) := by
  have hp := handleChunk_processes host (post_ne_nil hpost) hlen TcpConnection.new
  obtain ⟨hserves, hserving⟩ := hp.first_spec rfl rfl rfl hpost hd
  rw [handleChunks_cons]
  rcases Outcome.andThen_cases (handleChunk host first TcpConnection.new)
    fun _ => handleChunks host rest with ⟨e, _, he⟩ | ⟨u, hu, ho⟩
  · rw [he]
    exact ⟨hserves, fun h => by simp at h⟩
  · obtain ⟨hs, hcl, hty⟩ := hserving hu
    obtain ⟨hs', ht', hcl', hty'⟩ := handleChunks_serving hs hrest
    rw [ho]
    refine ⟨atCallbacks_append.mpr ⟨hserves, by simpa [hp.bookkeeping.2.2] using ht'⟩,
      fun hok => ⟨?_, hcl'.trans hcl, hty'.trans hty⟩⟩
    rw [handleChunks_received hrest hok] at hs'
    simpa using hs'

theorem handleChunks_post_returns (hcb : host.Returns) :
    let o := handleChunks host (first :: rest) TcpConnection.new
    o.result = .ok () ∨
      (d = 0 ∧ host.shutdownFails = true ∧ o.result = .error .shutdownFailed) := by
  have hp := handleChunk_processes host (post_ne_nil hpost) hlen TcpConnection.new
  obtain ⟨_, hserving⟩ := hp.first_spec rfl rfl rfl hpost hd
  rw [handleChunks_cons]
  rcases Outcome.andThen_cases (handleChunk host first TcpConnection.new)
    fun _ => handleChunks host rest with ⟨e, he, ho⟩ | ⟨u, hu, ho⟩
  · rw [ho]
    rcases hp.first_returns hcb rfl hpost hd with hok | ⟨h0, hf, herr⟩
    · simp [hok] at he
    · exact .inr ⟨h0, hf, he.symm.trans herr⟩
  · rw [ho]
    exact .inl (handleChunks_returns hcb (hserving hu).1 hrest)

end FirstRead

/-- All reads were handled, no `substr` being out of range; count, contents and callback
arguments agree with each other and with the bytes behind the header. -/
structure Accounted (first : Bytes) (later : List Bytes)
    (o : Outcome TcpConnection Effect Fault Unit) : Prop where
  returned : o.result = .ok ()
  total : o.state.transferredTotal = size o.state.message
  stored : o.state.message = written o.trace
  called : ∀ pre x post, o.trace = pre ++ .callback x :: post → x = written pre
  message : ∀ i, position headerEnd first = some i →
    o.state.message = (first :: later).flatten.drop (i + 4)
  argument : ∀ i, position headerEnd first = some i →
    ∀ pre x post, o.trace = pre ++ .callback x :: post → x = (received pre).drop (i + 4)

/-- A zero length was refused by a shutdown that threw, before anything was stored. -/
structure RefusalThrew (host : Host) (first : Bytes)
    (o : Outcome TcpConnection Effect Fault Unit) : Prop where
  zero : parseContentLength host first = .ok 0
  throws : host.shutdownFails = true
  result : o.result = .error .shutdownFailed
  total : o.state.transferredTotal = 0
  message : o.state.message = []
  uncalled : callbacks o.trace = []

/-- Count and contents of `m_message` over the first read and any number of later ones. -/
theorem body_accounting (host : Host) {first : Bytes} {rest done : List Bytes}
    (hpost : ascii "POST" <+: first) (hlen : first.length < 2 ^ 64)
    (hrest : ∀ b ∈ rest, b ≠ [] ∧ b.length < 2 ^ 64) (hcb : host.Returns)
    (hret : (extractContentLength host first TcpConnection.new).result = .ok ())
    (hdone : done <+: rest) :
    Accounted first done (handleChunks host (first :: done) TcpConnection.new) ∨
      RefusalThrew host first (handleChunks host (first :: done) TcpConnection.new) := by
  obtain ⟨d, hd⟩ := extractContentLength_returned hret
  have hdn : ∀ b ∈ done, b ≠ [] ∧ b.length < 2 ^ 64 := fun b hb => hrest b (hdone.subset hb)
  have hall : ∀ b ∈ first :: done, b ≠ [] ∧ b.length < 2 ^ 64 :=
    List.forall_mem_cons.mpr ⟨⟨post_ne_nil hpost, hlen⟩, hdn⟩
  rcases handleChunks_post_returns hpost hlen hdn hd hcb with hok | hrefused
  · obtain ⟨htotal, hmessage, hfaithful⟩ :=
      handleChunks_bookkeeping host (c := TcpConnection.new) (by rfl) hall
    obtain ⟨hserves, hserving⟩ := handleChunks_post_serving hpost hlen hdn hd
    refine .inl ⟨hok, htotal, hmessage, fun pre x post h => (h ▸ hfaithful).split, ?_, ?_⟩
    · intro i hi
      rw [bodyStart_of_position hi] at hserving
      exact (hserving hok).1.message
    · intro i hi pre x post h
      rw [bodyStart_of_position hi] at hserves
      simpa using (h ▸ hserves).split
  · obtain ⟨hzero, hfails, -⟩ := hrefused
    subst hzero
    have hp := handleChunk_processes host (post_ne_nil hpost) hlen TcpConnection.new
    have hshut : host.shutdown = .error .shutdownFailed := by simp [Host.shutdown, hfails]
    have hthrew := (hp.opens rfl hpost hd).threw hshut
    rw [handleChunks_cons, hthrew]
    exact .inr ⟨hd, hfails, rfl, rfl, rfl, rfl⟩

theorem body_accounting_five_bytes :
    Accounted (ascii "POST / HTTP/1.1\r\nContent-Length: 5\r\n\r\nab") [ascii "c", ascii "de"]
      (handleChunks Host.echo
        [ascii "POST / HTTP/1.1\r\nContent-Length: 5\r\n\r\nab", ascii "c", ascii "de"]
        TcpConnection.new) := by
  have h := @body_accounting Host.echo
    (ascii "POST / HTTP/1.1\r\nContent-Length: 5\r\n\r\nab") [ascii "c", ascii "de"]
    [ascii "c", ascii "de"] (by decide) (by decide) (by decide) Host.echo_returns (by decide)
    List.prefix_rfl
  exact h.resolve_right fun hr => absurd hr.throws (by decide)

/-- The body in a read that declares none is lost if the refusal throws. -/
theorem not_body_accounting :
    ¬∀ (host : Host) (first : Bytes) (rest done : List Bytes), ascii "POST" <+: first →
      first.length < 2 ^ 64 → (∀ b ∈ rest, b ≠ [] ∧ b.length < 2 ^ 64) → host.Returns →
      (extractContentLength host first TcpConnection.new).result = .ok () → done <+: rest →
      Accounted first done (handleChunks host (first :: done) TcpConnection.new) := by
  intro h
  let first := ascii "POST / HTTP/1.1\r\nContent-Length: 0\r\n\r\nab"
  have hlost := (h { Host.echo with shutdownFails := true } first [] [] (by decide) (by decide)
    (by simp) (fun m => ⟨m, rfl⟩) (by decide) List.prefix_rfl).message 34 (by decide)
  exact absurd hlost (by decide)

end Gpd.Connection
