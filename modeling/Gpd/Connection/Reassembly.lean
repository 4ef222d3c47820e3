import Gpd.Connection.Request
import Gpd.Connection.Accounting

/-! Which strings reach the callback when a POST request arrives in pieces. -/
namespace Gpd.Connection
open Cxx Text Machine

def Host.accepts (host : Host) (m : Bytes) : Prop := (host.processingCallback m).isOk = true

instance (host : Host) : DecidablePred host.accepts := fun m =>
  inferInstanceAs (Decidable ((host.processingCallback m).isOk = true))

variable {host : Host}

lemma accepts_of_ok {m json : Bytes} (h : host.processingCallback m = .ok json) :
    host.accepts m := by
  simp [Host.accepts, h, Except.isOk, Except.toBool]

lemma not_accepts_of_error {m : Bytes} {e : Fault} (h : host.processingCallback m = .error e) :
    ¬host.accepts m := by
  simp [Host.accepts, h, Except.isOk, Except.toBool]

theorem Collects.handsOver {body : Bytes} {c : TcpConnection}
    {o : Outcome TcpConnection Effect Fault Unit} (h : Collects host body c o)
    (hc : c.transferredTotal = size c.message) :
    (¬due c.contentLength (c.message ++ body) ∧ callbacks o.trace = [] ∧ o.result = .ok ()) ∨
    (due c.contentLength (c.message ++ body) ∧ callbacks o.trace = [c.message ++ body] ∧
      (o.result = .ok () ↔ host.accepts (c.message ++ body))) := by
  cases h with
  | waiting h => exact .inl ⟨(complete_iff_due hc).not.mp h, by simp, rfl⟩
  | thrown h e he =>
    exact .inr ⟨(complete_iff_due hc).mp h, by simp, by simp [not_accepts_of_error he]⟩
  | answered h json hj =>
    exact .inr ⟨(complete_iff_due hc).mp h, by simp, by simp [accepts_of_ok hj]⟩

theorem Processes.later_handsOver {buf : Bytes} {c : TcpConnection}
    {o : Outcome TcpConnection Effect Fault Unit} (h : Processes host buf c o)
    (h0 : c.packageCounter ≠ 0) (hc : c.transferredTotal = size c.message) :
    (¬due c.contentLength (c.message ++ buf) ∧ callbacks o.trace = [] ∧ o.result = .ok ()) ∨
    (due c.contentLength (c.message ++ buf) ∧ callbacks o.trace = [c.message ++ buf] ∧
      (o.result = .ok () ↔ host.accepts (c.message ++ buf))) := by
  obtain ⟨o, ho, rfl⟩ := h.continues h0
  simpa using ho.handsOver hc

/-- The callbacks of later reads are the handovers of the accumulated message. -/
theorem handleChunks_handovers (host : Host) {k : ℕ} {r : Bytes} {c : TcpConnection}
    {chunks : List Bytes} (hs : Serving k r c)
    (hchunks : ∀ b ∈ chunks, b ≠ [] ∧ b.length < 2 ^ 64) :
    callbacks (handleChunks host chunks c).trace =
      handovers (due c.contentLength) host.accepts (r.drop k) chunks := by
  induction chunks generalizing r c with
  | nil => rfl
  | cons b bs ih =>
    have hb := hchunks b (by simp)
    have hp := handleChunk_processes host hb.1 hb.2 c
    obtain ⟨hs', _, hcl, _⟩ := hp.later_spec (hs.store b)
    have hover := hp.later_handsOver (hs.store b).counter (hs.store b).total
    have hmsg : (c.store b).message ++ b = (r ++ b).drop k := by
      rw [(hs.store b).message, List.drop_append_of_le_length hs.offset]
    have hrest := ih hs' fun b' hb' => hchunks b' (by simp [hb'])
    rw [hcl, store_contentLength] at hrest
    rw [hmsg, store_contentLength] at hover
    rw [handovers, ← List.drop_append_of_le_length hs.offset, handleChunks_cons]
    rcases Outcome.andThen_cases (handleChunk host b c) fun _ => handleChunks host bs
      with ⟨e, he, ho⟩ | ⟨u, hu, ho⟩
    · rcases hover with ⟨_, _, hok⟩ | ⟨hdue, hcb, hiff⟩
      · simp [hok] at he
      · have hna : ¬host.accepts ((r ++ b).drop k) := by
          rw [← hiff, he]
          simp
        rw [ho, if_pos hdue, if_neg hna, hcb]
    · rw [ho, Outcome.after_trace, callbacks_append, hrest]
      rcases hover with ⟨hdue, hcb, _⟩ | ⟨hdue, hcb, hiff⟩
      · rw [if_neg hdue, hcb, List.nil_append]
      · rw [if_pos hdue, if_pos (hiff.mp hu), hcb, List.singleton_append]

/-- The pieces of the body: what the first read holds of it, if anything, and the rest. -/
def bodyParts (first : Bytes) (rest : List Bytes) : List Bytes :=
  if bodyPart first = [] then rest else bodyPart first :: rest

section FirstRead

variable {first : Bytes} {rest : List Bytes}
  (hpost : ascii "POST" <+: first) (hlen : first.length < 2 ^ 64)
  (hrest : ∀ b ∈ rest, b ≠ [] ∧ b.length < 2 ^ 64)
include hpost hlen

omit hlen in
lemma Processes.first_unserved {c : TcpConnection} {o : Outcome TcpConnection Effect Fault Unit}
    (h : Processes host first c o) (h0 : c.packageCounter = 0)
    (hno : ∀ d, parseContentLength host first = .ok d → ¬(d = 0 → host.shutdown = .ok ())) :
    callbacks o.trace = [] ∧ ∃ e, o.result = .error e := by
  cases h with
  | get _ h => exact absurd h (post_excludes hpost).1
  | options _ h => exact absurd h (post_excludes hpost).2
  | invalid _ h => exact absurd hpost h
  | unread _ _ e => exact ⟨by simp, e, rfl⟩
  | refused _ _ e => exact ⟨by simp, e, rfl⟩
  | headerOnly _ _ d hd hs | first _ _ d hd hs => exact absurd hs (hno d hd)
  | later h => exact absurd h0 h

theorem callbacks_of_unserved
    (hno : ∀ d, parseContentLength host first = .ok d → ¬(d = 0 → host.shutdown = .ok ())) :
    callbacks (handleChunks host (first :: rest) TcpConnection.new).trace = [] := by
  have hp := handleChunk_processes host (post_ne_nil hpost) hlen TcpConnection.new
  obtain ⟨hcb, e, he⟩ := hp.first_unserved hpost rfl hno
  rw [handleChunks_cons, Outcome.andThen_of_error he]
  exact hcb

omit hlen in
theorem Processes.first_handsOver {c : TcpConnection} {d : Size}
    {o : Outcome TcpConnection Effect Fault Unit} (h : Processes host first c o)
    (h0 : c.packageCounter = 0) (hm : c.message = []) (ht : c.transferredTotal = 0)
    (hd : parseContentLength host first = .ok d) (hs : d = 0 → host.shutdown = .ok ()) :
    (bodyPart first = [] ∧ callbacks o.trace = [] ∧ o.result = .ok ()) ∨
    (bodyPart first ≠ [] ∧ ¬due d (bodyPart first) ∧ callbacks o.trace = [] ∧
      o.result = .ok ()) ∨
    (bodyPart first ≠ [] ∧ due d (bodyPart first) ∧ callbacks o.trace = [bodyPart first] ∧
      (o.result = .ok () ↔ host.accepts (bodyPart first))) := by
  cases h.opens h0 hpost hd with
  | refused hz e he => simp [hs hz] at he
  | headerOnly _ hb => exact .inl ⟨hb, by simp, rfl⟩
  | first _ hb o ho =>
    refine .inr ?_
    have hover := ho.handsOver (by simp [hm, ht]; rfl)
    simp only [begin_contentLength, begin_message, hm, List.nil_append] at hover
    rcases hover with ⟨hdue, hcb, hok⟩ | ⟨hdue, hcb, hiff⟩
    · exact .inl ⟨hb, hdue, by simpa using hcb, by simpa using hok⟩
    · exact .inr ⟨hb, hdue, by simpa using hcb, by simpa using hiff⟩

include hrest

/-- The callbacks of a whole request are the handovers of its body parts. -/
theorem callbacks_eq_handovers {d : Size} (hd : parseContentLength host first = .ok d)
    (hs : d = 0 → host.shutdown = .ok ()) :
    callbacks (handleChunks host (first :: rest) TcpConnection.new).trace =
      handovers (due d) host.accepts [] (bodyParts first rest) := by
  have hp := handleChunk_processes host (post_ne_nil hpost) hlen TcpConnection.new
  have hserving := (hp.first_spec rfl rfl rfl hpost hd).2
  have hover := hp.first_handsOver hpost rfl rfl rfl hd hs
  rw [handleChunks_cons, bodyParts]
  rcases Outcome.andThen_cases (handleChunk host first TcpConnection.new)
    fun _ => handleChunks host rest with ⟨e, he, ho⟩ | ⟨u, hu, ho⟩
  · rw [ho]
    rcases hover with ⟨_, _, hok⟩ | ⟨_, _, _, hok⟩ | ⟨hb, hdue, hcb, hiff⟩
    · simp [hok] at he
    · simp [hok] at he
    · have hna : ¬host.accepts (bodyPart first) := by
        rw [← hiff, he]
        simp
      simp [hb, handovers, hdue, hna, hcb]
  · obtain ⟨hsrv, hcl, _⟩ := hserving hu
    have hlater := handleChunks_handovers host hsrv hrest
    rw [hcl] at hlater
    rw [ho, Outcome.after_trace, callbacks_append, hlater, ← bodyPart]
    rcases hover with ⟨hb, hcb, _⟩ | ⟨hb, hdue, hcb, _⟩ | ⟨hb, hdue, hcb, hiff⟩
    · simp [hb, hcb]
    · simp [hb, handovers, hdue, hcb]
    · simp [hb, handovers, hdue, hiff.mp hu, hcb]

end FirstRead

section Cuts

variable {first : Bytes} {rest : List Bytes} (hrest : ∀ b ∈ rest, b ≠ [])
  (hstart : bodyStart first ≤ first.length)
include hstart

lemma bodyParts_flatten :
    (bodyParts first rest).flatten = (first :: rest).flatten.drop (bodyStart first) := by
  rw [List.flatten_cons, List.drop_append_of_le_length hstart, bodyParts, ← bodyPart]
  split_ifs with hb
  · simp [hb]
  · rfl

include hrest

lemma exists_cut_bodyParts_iff {P : ℕ → Prop} :
    (∃ q, q <+: bodyParts first rest ∧ q ≠ [] ∧ P q.flatten.length) ↔
      ∃ q, q <+: first :: rest ∧ bodyStart first < q.flatten.length ∧
        P (q.flatten.length - bodyStart first) := by
  have hlen : first.length = bodyStart first + (bodyPart first).length := by
    simp [bodyPart]
    omega
  have hsum : ∀ r : List Bytes, (first :: r).flatten.length - bodyStart first =
      (bodyPart first).length + r.flatten.length := by
    intro r
    rw [List.flatten_cons, List.length_append]
    omega
  have hpos : ∀ r, r <+: rest → r ≠ [] → 0 < r.flatten.length := by
    intro r hr hne
    obtain ⟨a, r', rfl⟩ := List.exists_cons_of_ne_nil hne
    have ha := List.length_pos_iff.mpr (hrest a (hr.subset (by simp)))
    simp only [List.flatten_cons, List.length_append]
    omega
  constructor
  · rintro ⟨q, hq, hne, hP⟩
    by_cases hb : bodyPart first = []
    · rw [bodyParts, if_pos hb] at hq
      refine ⟨first :: q, by simpa using hq, ?_, by rw [hsum]; simpa [hb] using hP⟩
      have := hpos q hq hne
      rw [List.flatten_cons, List.length_append]
      omega
    · rw [bodyParts, if_neg hb] at hq
      obtain ⟨a, r, rfl⟩ := List.exists_cons_of_ne_nil hne
      obtain ⟨rfl, hr⟩ := List.cons_prefix_cons.mp hq
      refine ⟨first :: r, by simpa using hr, ?_, by rw [hsum]; simpa using hP⟩
      have := List.length_pos_iff.mpr hb
      rw [List.flatten_cons, List.length_append]
      omega
  · rintro ⟨q, hq, hlt, hP⟩
    cases q with
    | nil => simp at hlt
    | cons a r =>
      obtain ⟨rfl, hr⟩ := List.cons_prefix_cons.mp hq
      rw [hsum] at hP
      by_cases hb : bodyPart a = []
      · refine ⟨r, by rwa [bodyParts, if_pos hb], ?_, by simpa [hb] using hP⟩
        rintro rfl
        simp [hb] at hlen
        simp [hlen] at hlt
      · exact ⟨bodyPart a :: r, by simpa [bodyParts, hb] using hr, by simp, by simpa using hP⟩

end Cuts

lemma due_iff {d : Size} {m : Bytes} (h : m.length + 2 < 2 ^ 64) :
    due d m ↔ d.toNat ≤ m.length + 2 := by
  have hs := toNat_size (s := m) (by omega)
  rw [due, UInt64.le_iff_toNat_le, UInt64.toNat_add, hs]
  exact iff_of_eq (congrArg _ (Nat.mod_eq_of_lt (show m.length + 2 < 2 ^ 64 from h)))

/-- Some read ends inside the body with the length `d` reached there, up to two bytes. -/
def ReachedEarly (H B : Bytes) (reads : List Bytes) (d : Size) : Prop :=
  ∃ q, q <+: reads ∧ H.length < q.flatten.length ∧ q.flatten.length < (H ++ B).length ∧
    d.toNat ≤ q.flatten.length - H.length + 2

/-- Three body bytes, cut after the first: the callback is called with a proper prefix. -/
theorem reassembly_not_exact :
    ¬∀ (host : Host) (H B : Bytes) (n : ℕ) (first : Bytes) (rest : List Bytes),
      1 ≤ n → n ≤ 2147483647 → PostRequest H B n → Partition (first :: rest) (H ++ B) →
      H <+: first →
      ∀ m ∈ callbacks (handleChunks host (first :: rest) TcpConnection.new).trace, m = B := by
  intro h
  have hpart : Partition [sampleHeader ++ ascii "a", ascii "bc"] (sampleHeader ++ ascii "abc") :=
    ⟨by decide, by decide, by decide⟩
  have hcalled : ascii "a" ∈ callbacks (handleChunks Host.echo
      [sampleHeader ++ ascii "a", ascii "bc"] TcpConnection.new).trace := by decide
  have ha := h Host.echo sampleHeader (ascii "abc") 3 _ _ (by decide) (by decide)
    sampleHeader_request hpart (List.prefix_append _ _) _ hcalled
  exact absurd ha (by decide)

lemma callbacks_eq_iff (host : Host) {H B : Bytes} {n : ℕ} (hreq : PostRequest H B n)
    (hn : n ≤ 2147483647) {first : Bytes} {rest : List Bytes}
    (hpart : Partition (first :: rest) (H ++ B)) (hfirst : H <+: first) {d : Size}
    (hd : declaredLength H = some d) (hs : d = 0 → host.shutdown = .ok ()) :
    (∀ m ∈ callbacks (handleChunks host (first :: rest) TcpConnection.new).trace, m = B) ↔
      ¬ReachedEarly H B (first :: rest) d := by
  have hpost : ascii "POST" <+: first := hreq.begins_post.trans hfirst
  obtain ⟨hfok, hrok⟩ := List.forall_mem_cons.mp hpart.reads_ok
  have hstart : bodyStart first = H.length := hreq.bodyStart_eq hfirst
  have hle : bodyStart first ≤ first.length := hstart ▸ hfirst.length_le
  have hparse := (hreq.parse_iff hfirst host hfok.2).mpr hd
  have hflat : (bodyParts first rest).flatten = B := by
    rw [bodyParts_flatten hle, hpart.flatten, hstart, List.drop_left]
  rw [callbacks_eq_handovers hpost hfok.2 hrok hparse hs]
  have hall := handovers_eq_all_iff (due d) host.accepts [] (bodyParts first rest)
  simp only [List.nil_append, hflat] at hall
  rw [hall]
  have hcut := exists_cut_bodyParts_iff (fun b hb => (hrok b hb).1) hle
    (P := fun l => l < B.length ∧ d.toNat ≤ l + 2)
  have hB := hreq.length
  constructor
  · rintro h ⟨q, hq, hlt, htot, hdue⟩
    obtain ⟨q', hq', hne, hlt', hdue'⟩ := hcut.mpr ⟨q, hq, by omega, by
      rw [List.length_append] at htot
      omega, by omega⟩
    exact h q' hq' hne hlt' ((due_iff (by omega)).mpr hdue')
  · intro h q hq hne hlt hdue
    obtain ⟨q', hq', hlt', htot', hdue'⟩ :=
      hcut.mp ⟨q, hq, hne, hlt, (due_iff (by omega)).mp hdue⟩
    refine h ⟨q', hq', by omega, ?_, by omega⟩
    rw [List.length_append]
    omega

/-- Every callback receives exactly the body unless the length that the header declares
is taken as reached at a cut inside the body. -/
theorem reassembly_exact_iff (host : Host) {H B : Bytes} {n : ℕ} (hreq : PostRequest H B n)
    (hn : n ≤ 2147483647) {first : Bytes} {rest : List Bytes}
    (hpart : Partition (first :: rest) (H ++ B)) (hfirst : H <+: first) :
    (∀ m ∈ callbacks (handleChunks host (first :: rest) TcpConnection.new).trace, m = B) ↔
      ¬∃ d, declaredLength H = some d ∧ (d = 0 → host.shutdown = .ok ()) ∧
        ReachedEarly H B (first :: rest) d := by
  have hpost : ascii "POST" <+: first := hreq.begins_post.trans hfirst
  obtain ⟨hfok, hrok⟩ := List.forall_mem_cons.mp hpart.reads_ok
  have hdecl : ∀ d, parseContentLength host first = .ok d ↔ declaredLength H = some d := fun _ =>
    hreq.parse_iff hfirst host hfok.2
  -- without a readable length, or when the refusal throws, nothing is handed over
  by_cases hd : ∃ d, declaredLength H = some d ∧ (d = 0 → host.shutdown = .ok ())
  case neg =>
    refine iff_of_true ?_ fun ⟨d, hd', hs, _⟩ => hd ⟨d, hd', hs⟩
    simp [callbacks_of_unserved hpost hfok.2 fun d hp hs => hd ⟨d, (hdecl d).mp hp, hs⟩]
  obtain ⟨d, hd, hs⟩ := hd
  rw [callbacks_eq_iff host hreq hn hpart hfirst hd hs]
  refine not_congr ⟨fun h => ⟨d, hd, hs, h⟩, ?_⟩
  rintro ⟨d', hd', _, h⟩
  obtain rfl : d = d' := Option.some.inj (hd.symm.trans hd')
  exact h

def fiveHeader : Bytes := ascii "POST / HTTP/1.1\r\nContent-Length: 5\r\n\r\n"

lemma fiveHeader_request : PostRequest fiveHeader (ascii "abcde") 5 where
  post := by decide
  ends := by decide
  field := ⟨15, by decide⟩
  single := occursAt_unique (k := 15) (by decide)
  length := by decide

/-- A cut three bytes before the end of the body does no harm. -/
theorem reassembly_exact_iff_two_reads :
    (callbacks (handleChunks Host.echo [fiveHeader ++ ascii "ab", ascii "cde"]
      TcpConnection.new).trace).length = 1 ∧
    ∀ m ∈ callbacks (handleChunks Host.echo [fiveHeader ++ ascii "ab", ascii "cde"]
      TcpConnection.new).trace, m = ascii "abcde" := by
  refine ⟨by decide, (reassembly_exact_iff Host.echo fiveHeader_request (by decide)
    ⟨by decide, by decide, by decide⟩ (List.prefix_append _ _)).mpr ?_⟩
  rintro ⟨d, hd, -, q, hq, hlt, htot, hdue⟩
  obtain rfl : 5 = d := Option.some.inj (Eq.trans (by decide) hd)
  rcases List.prefix_cons_iff.mp hq with rfl | ⟨t, rfl, ht⟩
  · exact absurd hlt (by decide)
  · rcases List.prefix_cons_iff.mp ht with rfl | ⟨u, rfl, hu⟩
    · exact absurd hdue (by decide)
    · obtain rfl := List.prefix_nil.mp hu
      exact absurd htot (by decide)

/-- Where the name stands first in its own field, the declared length is the field's number. -/
theorem PostRequest.declaredLength_eq {H B : Bytes} {n : ℕ} (h : PostRequest H B n)
    (hn : n ≤ 2147483647) {k : ℕ} (hk : OccursAt (lengthField n) H k)
    (hname : position headerName H = some (k + 2)) :
    declaredLength H = some (UInt64.ofNat n) := by
  obtain ⟨u, v, rfl, rfl⟩ := hk
  have hline : (u ++ lengthField n ++ v).drop (u.length + 2 + headerName.length) =
      (ascii " " ++ decimal n) ++ (crlf ++ v) := by
    have he : u ++ lengthField n ++ v =
        (u ++ crlf ++ headerName) ++ ((ascii " " ++ decimal n) ++ (crlf ++ v)) := by
      simp [lengthField]
    rw [he, List.drop_left' (by simp)]
  have hcr : (13 : UInt8) ∉ ascii " " ++ decimal n := by
    intro hm
    rcases List.mem_append.mp hm with hs | hd
    · exact absurd hs (by decide)
    · exact absurd (isDigit_of_mem_decimal hd) (by decide)
  have hend : position crlf ((ascii " " ++ decimal n) ++ (crlf ++ v)) =
      some (ascii " " ++ decimal n).length := by
    have hz : position crlf (crlf ++ v) = some 0 := position_eq_zero.mpr (List.prefix_append _ _)
    have hpos : position crlf ((ascii " " ++ decimal n) ++ (crlf ++ v)) =
        (position crlf (crlf ++ v)).map ((ascii " " ++ decimal n).length + ·) :=
      position_append_of_not_mem hcr _
    rw [hpos, hz]
    simp
  have htext : lengthText (u ++ lengthField n ++ v) = some (ascii " " ++ decimal n) := by
    rw [lengthText, hname, Option.map_some, hline]
    simp only [hend, List.take_left']
  have hval : stoi (ascii " " ++ decimal n) = .ok n := by
    have hread := stoi_decimal hn 1 (t := []) (by simp)
    rwa [List.append_nil] at hread
  rw [declaredLength, htext, Option.bind_some, hval]
  simp [Except.toOption, ofInt_natCast]

lemma ofNat_ne_zero {n : ℕ} (h1 : 1 ≤ n) (hn : n ≤ 2147483647) : UInt64.ofNat n ≠ 0 := by
  intro h0
  have hval := UInt64.toNat_ofNat_of_lt' (show n < 2 ^ 64 by omega)
  rw [h0] at hval
  simp at hval
  omega

/-- In particular, only a read that ends one or two bytes before the end does harm. -/
theorem callbacks_exact_iff (host : Host) {H B : Bytes} {n k : ℕ} (hreq : PostRequest H B n)
    (hn : n ≤ 2147483647) (hpos : 0 < n) {first : Bytes} {rest : List Bytes}
    (hpart : Partition (first :: rest) (H ++ B)) (hfirst : H <+: first)
    (hk : OccursAt (lengthField n) H k) (hname : position headerName H = some (k + 2)) :
    (∀ m ∈ callbacks (handleChunks host (first :: rest) TcpConnection.new).trace, m = B) ↔
      ∀ q, q <+: first :: rest → H.length < q.flatten.length →
        q.flatten.length < (H ++ B).length → q.flatten.length + 2 < (H ++ B).length := by
  rw [callbacks_eq_iff host hreq hn hpart hfirst (hreq.declaredLength_eq hn hk hname)
    fun h0 => absurd h0 (ofNat_ne_zero hpos hn)]
  have hval : (UInt64.ofNat n).toNat = n := UInt64.toNat_ofNat_of_lt' (show n < 2 ^ 64 by omega)
  have hB := hreq.length
  constructor
  · intro h q hq hlt htot
    by_contra hge
    rw [List.length_append] at htot hge
    exact h ⟨q, hq, hlt, by simpa using htot, by omega⟩
  · rintro h ⟨q, hq, hlt, htot, hle⟩
    have hapart := h q hq hlt htot
    rw [List.length_append] at hapart
    omega

end Gpd.Connection
