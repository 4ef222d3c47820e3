import Gpd.Connection.Framing
import Gpd.Connection.Link
import Gpd.Connection.Reassembly
import Gpd.Layout.Texts
import Gpd.Layout.Precondition

/-! A machine text on its way through the server: the request that brings it, the call of the
callback, the write of the response, and what the client reads in it. -/
namespace Gpd.Server
open Cxx Text Machine Connection Layout Jsonparser Ogdf

section Answers

variable {host : Host}

/-- The write that follows a call of the callback. -/
def answers (host : Host) (machine : Bytes) : List Write :=
  match host.processingCallback machine with
  | .ok json => [⟨.writeBuffer, postResponse json⟩]
  | .error _ => []

lemma Collects.responses_eq {body : Bytes} {c : TcpConnection}
    {o : Outcome TcpConnection Effect Fault Unit} (h : Collects host body c o) :
    responses o.trace = (callbacks o.trace).flatMap (answers host) := by
  cases h with
  | waiting => simp
  | thrown _ e he => simp [answers, he]
  | answered _ json hj => simp [answers, hj]

lemma Processes.responses_eq {buf : Bytes} {c : TcpConnection}
    {o : Outcome TcpConnection Effect Fault Unit} (h : Processes host buf c o)
    (hpost : c.packageCounter = 0 → ascii "POST" <+: buf) :
    responses o.trace = (callbacks o.trace).flatMap (answers host) := by
  cases h with
  | get h0 h => exact absurd h (post_excludes (hpost h0)).1
  | options h0 h => exact absurd h (post_excludes (hpost h0)).2
  | invalid | unread | refused | headerOnly => simp
  | first _ _ d _ _ _ o ho => simpa using Collects.responses_eq ho
  | later _ o ho => simpa using Collects.responses_eq ho

lemma handleChunks_responses (host : Host) {c : TcpConnection} {chunks : List Bytes}
    (hc : c.packageCounter ≠ 0) (hchunks : ∀ b ∈ chunks, b ≠ [] ∧ b.length < 2 ^ 64) :
    responses (handleChunks host chunks c).trace =
      (callbacks (handleChunks host chunks c).trace).flatMap (answers host) := by
  have hrun := Action.each_rel (f := handleChunk host) (I := fun c => c.packageCounter ≠ 0)
    (R := fun _ t _ => responses t = (callbacks t).flatMap (answers host)) (l := chunks) (s := c)
    ?_ ?_ ?_ hc
  · exact hrun.2
  · simp
  · intro _ t _ u _ ht hu
    rw [responses_append, callbacks_append, List.flatMap_append, ht, hu]
  · intro b hb c hc
    have hp := handleChunk_processes host (hchunks b hb).1 (hchunks b hb).2 c
    exact ⟨Processes.counter hp hc, Processes.responses_eq hp fun h0 => absurd h0 hc⟩

lemma handleChunks_result {k : ℕ} {r : Bytes} {c : TcpConnection} {chunks : List Bytes}
    (hs : Serving k r c) (hchunks : ∀ b ∈ chunks, b ≠ [] ∧ b.length < 2 ^ 64)
    (hall : ∀ m ∈ callbacks (handleChunks host chunks c).trace, host.accepts m) :
    (handleChunks host chunks c).result = .ok () := by
  induction chunks generalizing r c with
  | nil => rfl
  | cons b bs ih =>
    have hb := hchunks b (by simp)
    have hp := handleChunk_processes host hb.1 hb.2 c
    have hover := hp.later_handsOver (hs.store b).counter (hs.store b).total
    rw [handleChunks_cons] at hall ⊢
    rcases Outcome.andThen_cases (handleChunk host b c) fun _ => handleChunks host bs
      with ⟨e, he, ho⟩ | ⟨u, hu, ho⟩
    · rw [ho] at hall
      rcases hover with ⟨_, _, hok⟩ | ⟨_, hcalls, hiff⟩
      · simp [hok] at he
      · have hok := hiff.mpr (hall _ (by simp [hcalls]))
        simp [hok] at he
    · rw [ho] at hall ⊢
      refine ih (hp.later_spec (hs.store b)).1 (fun b' hb' => hchunks b' (by simp [hb'])) ?_
      intro m hm
      exact hall m (by simp [hm])

section Request

variable {first : Bytes} {rest : List Bytes} {d : Size} (hpost : ascii "POST" <+: first)
  (hlen : first.length < 2 ^ 64) (hrest : ∀ b ∈ rest, b ≠ [] ∧ b.length < 2 ^ 64)
  (hd : parseContentLength host first = .ok d) (hne : d ≠ 0)
include hpost hlen hrest hd hne

lemma request_answers :
    responses (handleChunks host (first :: rest) TcpConnection.new).trace =
      (callbacks (handleChunks host (first :: rest) TcpConnection.new).trace).flatMap
        (answers host) ∧
    ((∀ m ∈ callbacks (handleChunks host (first :: rest) TcpConnection.new).trace,
      host.accepts m) → (handleChunks host (first :: rest) TcpConnection.new).result = .ok ()) := by
  have hp := handleChunk_processes host (post_ne_nil hpost) hlen TcpConnection.new
  have hopen := Processes.responses_eq hp fun _ => hpost
  have hserving := (hp.first_spec rfl rfl rfl hpost hd).2
  have hover := hp.first_handsOver hpost rfl rfl rfl hd fun h0 => absurd h0 hne
  rw [handleChunks_cons]
  rcases Outcome.andThen_cases (handleChunk host first TcpConnection.new)
    fun _ => handleChunks host rest with ⟨e, he, ho⟩ | ⟨u, hu, ho⟩
  · rw [ho]
    refine ⟨hopen, fun hall => ?_⟩
    rcases hover with ⟨_, _, hok⟩ | ⟨_, _, _, hok⟩ | ⟨_, _, hcalls, hiff⟩
    · simp [hok] at he
    · simp [hok] at he
    · have hok := hiff.mpr (hall _ (by simp [hcalls]))
      simp [hok] at he
  · obtain ⟨hs, -, -⟩ := hserving hu
    have hlater := handleChunks_responses host hs.counter hrest
    rw [ho, Outcome.after_trace, responses_append, callbacks_append, List.flatMap_append, hopen,
      hlater]
    exact ⟨rfl, fun hall => handleChunks_result hs hrest fun m hm => hall m (by simp [hm])⟩

end Request

end Answers

section Exchange

/-- No read ends in the last two bytes of the body. -/
def EndsApart (H B : Bytes) (reads : List Bytes) : Prop :=
  ∀ q, q <+: reads → H.length < q.flatten.length → q.flatten.length < (H ++ B).length →
    q.flatten.length + 2 < (H ++ B).length

lemma bodyParts_ne_nil {first : Bytes} {rest : List Bytes} (hrest : ∀ b ∈ rest, b ≠ []) :
    ∀ p ∈ bodyParts first rest, p ≠ [] := by
  intro p hp
  unfold bodyParts at hp
  split_ifs at hp with hb
  · exact hrest p hp
  · rcases List.mem_cons.mp hp with rfl | hp
    · exact hb
    · exact hrest p hp

lemma request_declares {H B first : Bytes} {n k : ℕ} (hreq : PostRequest H B n)
    (hn : n ≤ 2147483647) (hk : OccursAt (lengthField n) H k)
    (hname : position headerName H = some (k + 2)) (hfirst : H <+: first) (host : Host)
    (hlen : first.length < 2 ^ 64) : parseContentLength host first = .ok (UInt64.ofNat n) :=
  (hreq.parse_iff hfirst host hlen).mpr (hreq.declaredLength_eq hn hk hname)

variable {host : Host} {H B : Bytes} {n k : ℕ} {first : Bytes} {rest : List Bytes}
  (hreq : PostRequest H B n) (h1 : 1 ≤ n) (hn : n ≤ 2147483647)
  (hk : OccursAt (lengthField n) H k) (hname : position headerName H = some (k + 2))
  (hpart : Partition (first :: rest) (H ++ B)) (hfirst : H <+: first)
  (hcut : EndsApart H B (first :: rest))
include hreq h1 hn hk hname hpart hfirst hcut

lemma request_called :
    callbacks (handleChunks host (first :: rest) TcpConnection.new).trace = [B] := by
  have hpost : ascii "POST" <+: first := hreq.begins_post.trans hfirst
  obtain ⟨hfok, hrok⟩ := List.forall_mem_cons.mp hpart.reads_ok
  have hrest : ∀ b ∈ rest, b ≠ [] := fun b hb => (hrok b hb).1
  have hstart : bodyStart first = H.length := hreq.bodyStart_eq hfirst
  have hle : bodyStart first ≤ first.length := hstart ▸ hfirst.length_le
  have hd := request_declares hreq hn hk hname hfirst host hfok.2
  have hval := UInt64.toNat_ofNat_of_lt' (show n < 2 ^ 64 by omega)
  have hne := ofNat_ne_zero h1 hn
  have hB := hreq.length
  have hflat : (bodyParts first rest).flatten = B := by
    rw [bodyParts_flatten hle, hpart.flatten, hstart, List.drop_left]
  rw [callbacks_eq_handovers hpost hfok.2 hrok hd fun h0 => absurd h0 hne]
  have honce := @handovers_eq_singleton UInt8 (due (UInt64.ofNat n)) host.accepts _ _ []
    (bodyParts first rest)
  rw [List.nil_append, hflat] at honce
  refine honce ?_ (bodyParts_ne_nil hrest) ?_ ?_
  · intro hnil
    rw [hnil, List.flatten_nil] at hflat
    rw [← hflat] at hB
    simp at hB
    omega
  · exact (due_iff (by omega)).mpr (by omega)
  · intro q hq hqne hlt hdue
    rw [List.nil_append] at hdue
    have hdue' := (due_iff (by omega)).mp hdue
    obtain ⟨q', hq', hlt', htot, hlate⟩ :=
      (exists_cut_bodyParts_iff hrest hle
        (P := fun l => l < B.length ∧ n ≤ l + 2)).mp ⟨q, hq, hqne, hlt, by omega⟩
    have hapart := hcut q' hq' (by omega) (by rw [List.length_append]; omega)
    rw [List.length_append] at hapart
    omega

theorem request_answered {r : Bytes} (hr : host.processingCallback B = .ok r) :
    (handleChunks host (first :: rest) TcpConnection.new).result = .ok () ∧
      callbacks (handleChunks host (first :: rest) TcpConnection.new).trace = [B] ∧
      responses (handleChunks host (first :: rest) TcpConnection.new).trace =
        [⟨.writeBuffer, postResponse r⟩] := by
  have hpost : ascii "POST" <+: first := hreq.begins_post.trans hfirst
  obtain ⟨hfok, hrok⟩ := List.forall_mem_cons.mp hpart.reads_ok
  have hd := request_declares hreq hn hk hname hfirst host hfok.2
  have hcalls : callbacks (handleChunks host (first :: rest) TcpConnection.new).trace = [B] :=
    request_called hreq h1 hn hk hname hpart hfirst hcut
  obtain ⟨hresponses, hresult⟩ := request_answers hpost hfok.2 hrok hd (ofNat_ne_zero h1 hn)
  refine ⟨hresult fun m hm => ?_, hcalls, ?_⟩
  · rw [hcalls] at hm
    obtain rfl := List.mem_singleton.mp hm
    exact accepts_of_ok hr
  · rw [hresponses, hcalls]
    simp [answers, hr]

omit hreq h1 hn hk hname hpart hfirst hcut

/-- What the client of the request `B` gets in `reads`: one response, whose payload is a text
that reads as `j` up to its first null byte. -/
structure ClientGets (libc : Libc) (host : Host) (reads : List Bytes) (B r : Bytes) (j : Json) :
    Prop where
  handled : (handleChunks host reads TcpConnection.new).result = .ok ()
  called : callbacks (handleChunks host reads TcpConnection.new).trace = [B]
  wrote : responses (handleChunks host reads TcpConnection.new).trace =
    [⟨.writeBuffer, postResponse r⟩]
  framed : r.length < 2 ^ 64 → Http.decode (postResponse r) = some (r, crlf)
  reads : Document libc (visible r) j

include hreq h1 hn hk hname hpart hfirst hcut

omit hreq h1 hn hk hname hpart hfirst hcut

def sampleMachine : Bytes := dump testLibc (-1) (sampleDocument [0, 1] [(0, 1)])

def samplePost : Bytes := ascii "POST / HTTP/1.1\r\nContent-Length: 73\r\n\r\n"

lemma samplePost_request : PostRequest samplePost sampleMachine 73 where
  post := by decide
  ends := by decide
  field := ⟨15, by decide⟩
  single := occursAt_unique (k := 15) (by decide)
  length := by decide +kernel

noncomputable def sampleHost : Host where
  processingCallback := processingCallback (jsonLibrary testLibc 0) (assertingOgdf none)
  shutdownFails := false
  stray := fun _ => .ok []

lemma sampleMachine_document :
    Document testLibc (visible sampleMachine) (sampleDocument [0, 1] [(0, 1)]) := by
  have hkeys : ascii "states" = encode "states".toList ∧
      ascii "transitions" = encode "transitions".toList ∧ ascii "id" = encode "id".toList ∧
      ascii "from" = encode "from".toList ∧ ascii "to" = encode "to".toList ∧
      ascii "type" = encode "type".toList := by decide
  obtain ⟨hstates, htransitions, hid, hfrom, hto, htype⟩ := hkeys
  have hstate {n : ℕ} (hn : n < 2 ^ 64) : Valid (.object [(ascii "id", .numberUnsigned n)]) := by
    refine .object (List.pairwise_singleton _ _) ?_ ?_
    · simpa using ⟨_, hid⟩
    · simpa using Valid.numberUnsigned hn
  have htransition : Valid (.object [(ascii "from", .numberUnsigned 0),
      (ascii "to", .numberUnsigned 1), (ascii "type", .numberUnsigned 0)]) := by
    refine .object (by simp [Map.Sorted]; decide) ?_ ?_
    · simpa using ⟨⟨_, hfrom⟩, ⟨_, hto⟩, ⟨_, htype⟩⟩
    · simpa using ⟨Valid.numberUnsigned (n := 0) (by decide),
        Valid.numberUnsigned (n := 1) (by decide), Valid.numberUnsigned (n := 0) (by decide)⟩
  have hvalid : Valid (sampleDocument [0, 1] [(0, 1)]) := by
    refine .object (by simp [Map.Sorted]; decide) ?_ ?_
    · simpa using ⟨⟨_, hstates⟩, ⟨_, htransitions⟩⟩
    · simpa using ⟨Valid.array (by simpa using ⟨hstate (n := 0) (by decide),
        hstate (n := 1) (by decide)⟩), Valid.array (by simpa using htransition)⟩
  exact visible_of_parse (parse_dump testLibc_writesNumbers hvalid (-1))

lemma sampleMachine_layoutable (o : OgdfTest)
    (ho : OgdfTest.new (jsonLibrary testLibc 0) sampleMachine = .ok o) :
    (drawnGraph (assertingOgdf none) o.G).Layoutable := by
  have hload : documentToGraph (jsonLibrary testLibc 0) OgdfTest.initial
      (sampleDocument [0, 1] [(0, 1)]) =
      .ok { OgdfTest.initial with G := ⟨[0, 1], [(0, 1)]⟩ } := rfl
  rw [OgdfTest.new, JSONMachineToGraph, jsonLibrary_parse.mpr sampleMachine_document, ok_bind,
    hload] at ho
  obtain rfl := Except.ok.inj ho
  have hplanar : (⟨[0, 1], [(0, 1)]⟩ : Graph).Planar :=
    Graph.planar_of_one_pair (i := 0) (j := 1) (by decide)
  exact drawnGraph_layoutable assertingOgdf_exact (by decide) (by decide)
    (.inl (assertingOgdf_isPlanar.mpr hplanar))

def sampleReads : List Bytes :=
  [samplePost ++ sampleMachine.take 10, (sampleMachine.drop 10).take 20, sampleMachine.drop 30]

lemma sampleReads_apart : EndsApart samplePost sampleMachine sampleReads := by
  intro q hq hlt hle
  rcases List.prefix_cons_iff.mp hq with rfl | ⟨t, rfl, ht⟩
  · exact absurd hlt (by simp)
  rcases List.prefix_cons_iff.mp ht with rfl | ⟨u, rfl, hu⟩
  · decide +kernel
  rcases List.prefix_cons_iff.mp hu with rfl | ⟨v, rfl, hv⟩
  · decide +kernel
  · obtain rfl := List.prefix_nil.mp hv
    exact absurd hle (by decide +kernel)

end Exchange

end Gpd.Server
