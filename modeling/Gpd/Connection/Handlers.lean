import Gpd.Connection.Basic

/-! What each handler does, as equations and as one case analysis of a package.
Later modules cite these and never unfold a handler again. -/
namespace Gpd.Connection
open Cxx Text Machine

@[simp] lemma headerEnd_length : headerEnd.length = 4 := by decide
@[simp] lemma headerName_length : headerName.length = 15 := by decide
@[simp] lemma crlf_length : crlf.length = 2 := by decide

/-- The number `extractContentLength` reads from a package. -/
def parseContentLength (host : Host) (buf : Bytes) : Except Fault Size := do
  let newBuf ← suffixFrom host buf (find buf headerName)
  let text ← substr newBuf (size headerName) (find newBuf crlf - size headerName)
  let value ← stoi text
  pure (UInt64.ofInt value)

theorem extractContentLength_apply (host : Host) (buf : Bytes) (c : TcpConnection) :
    extractContentLength host buf c =
      match parseContentLength host buf with
      | .ok d => ⟨.ok (), { c with contentLength := d }, []⟩
      | .error e => ⟨.error e, c, []⟩ := by
  simp only [extractContentLength, parseContentLength, Action.bind_apply, Action.lift_apply]
  cases suffixFrom host buf (find buf headerName) with
  | error e => rfl
  | ok newBuf =>
    simp only [Outcome.andThen_ok, Action.bind_apply, Action.lift_apply, ok_bind,
      Outcome.after_nil]
    cases substr newBuf (size headerName) (find newBuf crlf - size headerName) with
    | error e => rfl
    | ok text =>
      simp only [Outcome.andThen_ok, Action.bind_apply, Action.lift_apply, ok_bind,
        Outcome.after_nil]
      cases stoi text <;> rfl

/-- Offset at which the code takes the body of a first package to begin. Without a
header end, `npos + 4` wraps around to 3. -/
def bodyStart (buf : Bytes) : ℕ :=
  match position headerEnd buf with
  | some i => i + 4
  | none => 3

def bodyPart (buf : Bytes) : Bytes := buf.drop (bodyStart buf)

lemma bodyStart_of_position {buf : Bytes} {i : ℕ} (h : position headerEnd buf = some i) :
    bodyStart buf = i + 4 := by simp [bodyStart, h]

lemma bodyStart_of_none {buf : Bytes} (h : position headerEnd buf = none) :
    bodyStart buf = 3 := by simp [bodyStart, h]

lemma bodyStart_le {buf : Bytes} (h4 : 4 ≤ buf.length) : bodyStart buf ≤ buf.length := by
  cases h : position headerEnd buf with
  | none => rw [bodyStart_of_none h]; omega
  | some i =>
    have := position_length_le h
    rw [bodyStart_of_position h]
    simpa using this

section Sizes

variable {buf : Bytes} (h4 : 4 ≤ buf.length) (hlen : buf.length < 2 ^ 64)
include h4 hlen

lemma toNat_find_add_four : (find buf headerEnd + 4).toNat = bodyStart buf := by
  cases h : position headerEnd buf with
  | none => rw [find_eq_npos h, bodyStart_of_none h]; rfl
  | some i =>
    have := position_length_le h
    rw [headerEnd_length] at this
    rw [bodyStart_of_position h, UInt64.toNat_add, toNat_find h hlen]
    exact Nat.mod_eq_of_lt (show i + 4 < 2 ^ 64 by omega)

lemma size_bodyPart : size buf - find buf headerEnd - 4 = size (bodyPart buf) := by
  have hs := bodyStart_le h4
  have he : size buf - find buf headerEnd - 4 = size buf - (find buf headerEnd + 4) := by grind
  rw [he, ← UInt64.toNat_inj, UInt64.toNat_sub_of_le]
  · rw [toNat_find_add_four h4 hlen, toNat_size hlen, toNat_size (by simp [bodyPart]; omega)]
    simp [bodyPart]
  · rw [UInt64.le_iff_toNat_le, toNat_find_add_four h4 hlen, toNat_size hlen]
    exact hs

lemma headerOnly_iff : size buf - 4 = find buf headerEnd ↔ bodyPart buf = [] := by
  have hs := bodyStart_le h4
  have he : size buf - 4 = find buf headerEnd ↔ size buf = find buf headerEnd + 4 :=
    UInt64.sub_eq_iff_eq_add
  rw [he, ← UInt64.toNat_inj, toNat_find_add_four h4 hlen, toNat_size hlen]
  simp only [bodyPart, List.drop_eq_nil_iff]
  omega

lemma substr_bodyPart :
    substr buf (find buf headerEnd + 4) (size buf - (find buf headerEnd + 2)) =
      .ok (bodyPart buf) := by
  have hs := bodyStart_le h4
  have htwo : (size buf - (find buf headerEnd + 2)).toNat ≥ buf.length - bodyStart buf := by
    cases h : position headerEnd buf with
    | none =>
      rw [find_eq_npos h, bodyStart_of_none h]
      have h1 : (npos + 2 : Size) = 1 := rfl
      rw [h1, UInt64.toNat_sub_of_le]
      · rw [toNat_size hlen]; simp; omega
      · rw [UInt64.le_iff_toNat_le, toNat_size hlen]; simp; omega
    | some i =>
      have hi := position_length_le h
      rw [headerEnd_length] at hi
      have h2 : (find buf headerEnd + 2).toNat = i + 2 := by
        rw [UInt64.toNat_add, toNat_find h hlen]
        exact Nat.mod_eq_of_lt (show i + 2 < 2 ^ 64 by omega)
      rw [bodyStart_of_position h, UInt64.toNat_sub_of_le]
      · rw [h2, toNat_size hlen]; omega
      · rw [UInt64.le_iff_toNat_le, h2, toNat_size hlen]; omega
  unfold substr
  rw [toNat_find_add_four h4 hlen, if_neg (by omega), List.take_of_length_le]
  · rfl
  · simpa using htwo

end Sizes

/-- The connection after body bytes were counted and stored. -/
def TcpConnection.take (c : TcpConnection) (bytes : Bytes) : TcpConnection :=
  { c with
    transferredTotal := c.transferredTotal + size bytes
    message := c.message ++ bytes }

/-- The completion test shared by the first and the later reads. -/
def TcpConnection.Complete (c : TcpConnection) : Prop :=
  c.contentLength ≤ c.transferredTotal + 2

instance (c : TcpConnection) : Decidable c.Complete :=
  inferInstanceAs (Decidable (c.contentLength ≤ c.transferredTotal + 2))

section Take

variable (c : TcpConnection) (bytes : Bytes)

@[simp] lemma take_message : (c.take bytes).message = c.message ++ bytes := rfl
@[simp] lemma take_transferredTotal :
    (c.take bytes).transferredTotal = c.transferredTotal + size bytes := rfl
@[simp] lemma take_contentLength : (c.take bytes).contentLength = c.contentLength := rfl
@[simp] lemma take_packageCounter : (c.take bytes).packageCounter = c.packageCounter := rfl
@[simp] lemma take_packageType : (c.take bytes).packageType = c.packageType := rfl
@[simp] lemma take_writeBuffer : (c.take bytes).writeBuffer = c.writeBuffer := rfl
@[simp] lemma take_buffer : (c.take bytes).buffer = c.buffer := rfl

end Take

section Outcomes

variable (host : Host)

/-- Outcomes of counting and storing body bytes and testing for completion. -/
inductive Collects (body : Bytes) (c : TcpConnection) :
    Outcome TcpConnection Effect Fault Unit → Prop
  | waiting (h : ¬(c.take body).Complete) :
      Collects body c ⟨.ok (), c.take body, [.append body, .asyncHandshake]⟩
  | thrown (h : (c.take body).Complete) (e : Fault)
      (he : host.processingCallback (c.message ++ body) = .error e) :
      Collects body c ⟨.error e, c.take body,
        [.append body, .callback (c.message ++ body)]⟩
  | answered (h : (c.take body).Complete) (json : Bytes)
      (hj : host.processingCallback (c.message ++ body) = .ok json) :
      Collects body c ⟨.ok (), { c.take body with writeBuffer := postResponse json },
        [.append body, .callback (c.message ++ body),
          .asyncWrite .writeBuffer (postResponse json)]⟩

theorem processMessage_apply (c : TcpConnection) :
    processMessage host c =
      match host.processingCallback c.message with
      | .error e => ⟨.error e, c, [.callback c.message]⟩
      | .ok json => ⟨.ok (), { c with writeBuffer := postResponse json },
          [.callback c.message, .asyncWrite .writeBuffer (postResponse json)]⟩ := by
  simp only [processMessage, Action.bind_apply, Action.get_apply, Outcome.andThen_ok,
    Action.emit_apply, Outcome.after_nil, Action.lift_apply]
  cases host.processingCallback c.message <;> rfl

theorem handlePostRequest_collects (buf : Bytes) (c : TcpConnection) :
    Collects host buf c (handlePostRequest host buf (size buf) c) := by
  have he : handlePostRequest host buf (size buf) c =
      (if (c.take buf).Complete then processMessage host (c.take buf)
        else processRequest (c.take buf)).after [.append buf] := by
    simp only [handlePostRequest, writeMessage, Action.bind_apply, Action.modify_apply,
      Action.emit_apply, Action.get_apply, Action.ite_apply, Outcome.andThen_ok,
      Outcome.after_nil, Outcome.after_mk, List.append_nil]
    rfl
  rw [he]
  by_cases h : (c.take buf).Complete
  · rw [if_pos h, processMessage_apply]
    cases hj : host.processingCallback (c.take buf).message with
    | error e => exact .thrown h e hj
    | ok json => exact .answered h json hj
  · rw [if_neg h]
    exact .waiting h

/-- Members set from the header of a first package. -/
def TcpConnection.begin (c : TcpConnection) (buf : Bytes) (d : Size) : TcpConnection :=
  { c with
    packageType := .post
    contentLength := d
    headerSize := find buf headerEnd }

/-- The refusal of a declared length of zero, which does not end the handler. -/
def refusal (d : Size) : List Effect := if d = 0 then [.shutdown] else []

def TcpConnection.counted (c : TcpConnection) : TcpConnection :=
  { c with packageCounter := c.packageCounter + 1 }

section Members

variable (c : TcpConnection) (buf : Bytes) (d : Size)

@[simp] lemma begin_message : (c.begin buf d).message = c.message := rfl
@[simp] lemma begin_buffer : (c.begin buf d).buffer = c.buffer := rfl
@[simp] lemma begin_transferredTotal :
    (c.begin buf d).transferredTotal = c.transferredTotal := rfl
@[simp] lemma begin_contentLength : (c.begin buf d).contentLength = d := rfl
@[simp] lemma begin_packageCounter : (c.begin buf d).packageCounter = c.packageCounter := rfl
@[simp] lemma begin_packageType : (c.begin buf d).packageType = .post := rfl
@[simp] lemma begin_writeBuffer : (c.begin buf d).writeBuffer = c.writeBuffer := rfl
@[simp] lemma counted_message : c.counted.message = c.message := rfl
@[simp] lemma counted_buffer : c.counted.buffer = c.buffer := rfl
@[simp] lemma counted_transferredTotal : c.counted.transferredTotal = c.transferredTotal := rfl
@[simp] lemma counted_contentLength : c.counted.contentLength = c.contentLength := rfl
@[simp] lemma counted_packageCounter : c.counted.packageCounter = c.packageCounter + 1 := rfl
@[simp] lemma counted_packageType : c.counted.packageType = c.packageType := rfl
@[simp] lemma counted_writeBuffer : c.counted.writeBuffer = c.writeBuffer := rfl

end Members

/-- The end of the POST branch: count the package and ask for more. -/
def countAndRequest : Handler Unit := do
  Action.modify TcpConnection.counted
  processRequest

@[simp] lemma countAndRequest_apply (c : TcpConnection) :
    countAndRequest c = ⟨.ok (), c.counted, [.asyncHandshake]⟩ := rfl

section Counting

variable (o : Outcome TcpConnection Effect Fault Unit)

lemma counting_cases :
    (o.result ≠ .ok () ∧ (o.andThen fun _ => countAndRequest) = o) ∨
    (o.result = .ok () ∧ (o.andThen fun _ => countAndRequest) =
      ⟨.ok (), o.state.counted, o.trace ++ [.asyncHandshake]⟩) := by
  rcases o with ⟨e | u, c, t⟩
  · exact .inl ⟨by simp, rfl⟩
  · exact .inr ⟨rfl, rfl⟩

@[simp] lemma counting_result : (o.andThen fun _ => countAndRequest).result = o.result := by
  rcases counting_cases o with ⟨_, h⟩ | ⟨hok, h⟩
  · rw [h]
  · rw [h, hok]

lemma counting_state : (o.andThen fun _ => countAndRequest).state = o.state ∨
    (o.andThen fun _ => countAndRequest).state = o.state.counted := by
  rcases counting_cases o with ⟨_, h⟩ | ⟨_, h⟩
  · exact .inl (by rw [h])
  · exact .inr (by rw [h])

@[simp] lemma counting_buffer :
    (o.andThen fun _ => countAndRequest).state.buffer = o.state.buffer := by
  rcases counting_state o with h | h <;> simp [h]

@[simp] lemma counting_message :
    (o.andThen fun _ => countAndRequest).state.message = o.state.message := by
  rcases counting_state o with h | h <;> simp [h]

@[simp] lemma counting_writeBuffer :
    (o.andThen fun _ => countAndRequest).state.writeBuffer = o.state.writeBuffer := by
  rcases counting_state o with h | h <;> simp [h]

@[simp] lemma counting_contentLength :
    (o.andThen fun _ => countAndRequest).state.contentLength = o.state.contentLength := by
  rcases counting_state o with h | h <;> simp [h]

lemma counting_trace : ∃ t, (t = [] ∨ t = [.asyncHandshake]) ∧
    (o.andThen fun _ => countAndRequest).trace = o.trace ++ t := by
  rcases counting_cases o with ⟨_, h⟩ | ⟨_, h⟩
  · exact ⟨[], .inl rfl, by rw [h, List.append_nil]⟩
  · exact ⟨[.asyncHandshake], .inr rfl, by rw [h]⟩

end Counting

theorem extractHeaderAndBody_apply {buf : Bytes} (h4 : 4 ≤ buf.length)
    (hlen : buf.length < 2 ^ 64) (c : TcpConnection) :
    extractHeaderAndBody host buf (size buf) c =
      if bodyPart buf = [] then
        ⟨.ok (), { c with headerSize := find buf headerEnd }, [.asyncHandshake]⟩
      else
        handlePostRequest host (bodyPart buf) (size (bodyPart buf))
          { c with headerSize := find buf headerEnd } := by
  simp only [extractHeaderAndBody, Action.bind_apply, Action.modify_apply, Action.get_apply,
    Outcome.andThen_ok, Outcome.after_nil, Action.ite_apply, headerOnly_iff h4 hlen]
  apply if_congr Iff.rfl rfl
  simp only [splitHeaderAndBody, Action.bind_apply, Action.get_apply, Outcome.andThen_ok,
    Outcome.after_nil, Action.lift_apply, substr_bodyPart h4 hlen, size_bodyPart h4 hlen,
    handlePostRequest, Action.modify_apply]

/-- Outcomes of processing a package, by the path taken through the handlers. -/
inductive Processes (buf : Bytes) (c : TcpConnection) :
    Outcome TcpConnection Effect Fault Unit → Prop
  | get (h0 : c.packageCounter = 0) (h : ascii "GET" <+: buf) :
      Processes buf c ⟨.ok (), { c with packageType := .get },
        [.package buf, .asyncWrite .handlerLocal getResponse]⟩
  | options (h0 : c.packageCounter = 0) (h : ascii "OPTIONS" <+: buf) :
      Processes buf c ⟨.ok (), { c with packageType := .options, writeBuffer := optionsResponse },
        [.package buf, .asyncWrite .writeBuffer optionsResponse]⟩
  | invalid (h0 : c.packageCounter = 0) (h : ¬ascii "POST" <+: buf)
      (hget : ¬ascii "GET" <+: buf) (hoptions : ¬ascii "OPTIONS" <+: buf) :
      Processes buf c ⟨host.shutdown, c, [.package buf, .shutdown]⟩
  | unread (h0 : c.packageCounter = 0) (h : ascii "POST" <+: buf) (e : Fault)
      (hd : parseContentLength host buf = .error e) :
      Processes buf c ⟨.error e, { c with packageType := .post }, [.package buf]⟩
  | refused (h0 : c.packageCounter = 0) (h : ascii "POST" <+: buf) (e : Fault)
      (hd : parseContentLength host buf = .ok 0) (hs : host.shutdown = .error e) :
      Processes buf c ⟨.error e, { c with packageType := .post, contentLength := 0 },
        [.package buf, .shutdown]⟩
  | headerOnly (h0 : c.packageCounter = 0) (h : ascii "POST" <+: buf) (d : Size)
      (hd : parseContentLength host buf = .ok d) (hs : d = 0 → host.shutdown = .ok ())
      (hb : bodyPart buf = []) :
      Processes buf c ⟨.ok (), (c.begin buf d).counted,
        [.package buf] ++ refusal d ++ [.asyncHandshake, .asyncHandshake]⟩
  | first (h0 : c.packageCounter = 0) (h : ascii "POST" <+: buf) (d : Size)
      (hd : parseContentLength host buf = .ok d) (hs : d = 0 → host.shutdown = .ok ())
      (hb : bodyPart buf ≠ []) (o : Outcome TcpConnection Effect Fault Unit)
      (ho : Collects host (bodyPart buf) (c.begin buf d) o) :
      Processes buf c ((o.andThen fun _ => countAndRequest).after ([.package buf] ++ refusal d))
  | later (h0 : c.packageCounter ≠ 0) (o : Outcome TcpConnection Effect Fault Unit)
      (ho : Collects host buf c o) : Processes buf c (o.after [.package buf])

lemma prefix_length {s : String} {buf : Bytes} (h : ascii s <+: buf) :
    s.toList.length ≤ buf.length := by simpa using h.length_le

lemma head_of_begins {a : UInt8} {l buf : Bytes} (h : a :: l <+: buf) : buf.head? = some a := by
  obtain ⟨t, rfl⟩ := h
  rfl

lemma excludes_of_head {buf : Bytes} (hp : buf.head? = some 80) :
    ¬ascii "GET" <+: buf ∧ ¬ascii "OPTIONS" <+: buf := by
  constructor <;> intro h
  · have hget : buf.head? = some 71 := head_of_begins h
    simp [hp] at hget
  · have hopt : buf.head? = some 79 := head_of_begins h
    simp [hp] at hopt

lemma post_excludes {buf : Bytes} (hp : ascii "POST" <+: buf) :
    ¬ascii "GET" <+: buf ∧ ¬ascii "OPTIONS" <+: buf :=
  excludes_of_head (head_of_begins hp)

theorem afterContentLength {buf : Bytes} (h4 : 4 ≤ buf.length) (hlen : buf.length < 2 ^ 64)
    (c : TcpConnection) (d : Size) :
    (do
      extractHeaderAndBody host buf (size buf)
      countAndRequest : Handler Unit) { c with packageType := .post, contentLength := d } =
      if bodyPart buf = [] then
        ⟨.ok (), (c.begin buf d).counted, [.asyncHandshake, .asyncHandshake]⟩
      else
        (handlePostRequest host (bodyPart buf) (size (bodyPart buf)) (c.begin buf d)).andThen
          fun _ => countAndRequest := by
  simp only [Action.bind_apply, extractHeaderAndBody_apply host h4 hlen]
  split <;> rfl

@[simp] lemma socketShutdown_apply (c : TcpConnection) :
    socketShutdown host c = ⟨host.shutdown, c, [.shutdown]⟩ := rfl

lemma size_le_zero {d : Size} : d ≤ 0 ↔ d = 0 := by
  rw [UInt64.le_iff_toNat_le, ← UInt64.toNat_inj]
  simp

lemma processes_post {buf : Bytes} (h4 : 4 ≤ buf.length) (hlen : buf.length < 2 ^ 64)
    {c : TcpConnection} (h0 : c.packageCounter = 0) (h : ascii "POST" <+: buf) {d : Size}
    (hd : parseContentLength host buf = .ok d) (hs : d = 0 → host.shutdown = .ok ()) :
    Processes host buf c (((do
      extractHeaderAndBody host buf (size buf)
      countAndRequest : Handler Unit) { c with packageType := .post, contentLength := d }).after
        ([.package buf] ++ refusal d)) := by
  rw [afterContentLength host h4 hlen]
  split_ifs with hb
  · exact .headerOnly h0 h d hd hs hb
  · exact .first h0 h d hd hs hb _ (handlePostRequest_collects host _ _)

/-- Every run of `processPackage` is one of the listed outcomes. -/
theorem processPackage_processes {buf : Bytes} (hlen : buf.length < 2 ^ 64)
    (c : TcpConnection) : Processes host buf c (processPackage host buf (size buf) c) := by
  by_cases h0 : c.packageCounter = 0
  case neg =>
    have he : processPackage host buf (size buf) c =
        (handlePostRequest host buf (size buf) c).after [.package buf] := by
      simp [processPackage, h0]
    rw [he]
    exact .later h0 _ (handlePostRequest_collects host buf c)
  simp only [processPackage, Action.bind_apply, Action.emit_apply, Outcome.andThen_ok,
    Action.get_apply, Outcome.after_nil, Action.ite_apply, h0, if_true, find_eq_zero hlen]
  split_ifs with hget hpost hoptions
  · exact .get h0 hget
  · have h4 : 4 ≤ buf.length := prefix_length hpost
    simp only [Action.bind_apply, Action.modify_apply, Outcome.andThen_ok, Outcome.after_nil,
      extractContentLength_apply]
    cases hd : parseContentLength host buf with
    | error e => exact .unread h0 hpost e hd
    | ok d =>
      simp only [Action.bind_apply, Action.get_apply, Outcome.andThen_ok, Outcome.after_nil,
        Action.ite_apply, size_le_zero, socketShutdown_apply]
      split_ifs with hz
      · subst hz
        cases hs : host.shutdown with
        | error e => exact .refused h0 hpost e hd hs
        | ok u => exact processes_post host h4 hlen h0 hpost hd fun _ => hs
      · have hp := processes_post host h4 hlen h0 hpost hd fun h => absurd h hz
        rwa [refusal, if_neg hz, List.append_nil] at hp
  · exact .options h0 hoptions
  · exact .invalid h0 hpost hget hoptions

/-- Outcomes of a first POST package from which the length `d` was read. -/
inductive Opens (buf : Bytes) (c : TcpConnection) (d : Size) :
    Outcome TcpConnection Effect Fault Unit → Prop
  | refused (hz : d = 0) (e : Fault) (hs : host.shutdown = .error e) :
      Opens buf c d ⟨.error e, { c with packageType := .post, contentLength := 0 },
        [.package buf, .shutdown]⟩
  | headerOnly (hs : d = 0 → host.shutdown = .ok ()) (hb : bodyPart buf = []) :
      Opens buf c d ⟨.ok (), (c.begin buf d).counted,
        [.package buf] ++ refusal d ++ [.asyncHandshake, .asyncHandshake]⟩
  | first (hs : d = 0 → host.shutdown = .ok ()) (hb : bodyPart buf ≠ [])
      (o : Outcome TcpConnection Effect Fault Unit)
      (ho : Collects host (bodyPart buf) (c.begin buf d) o) :
      Opens buf c d ((o.andThen fun _ => countAndRequest).after ([.package buf] ++ refusal d))

variable {host} in
theorem Processes.opens {buf : Bytes} {c : TcpConnection} {d : Size}
    {o : Outcome TcpConnection Effect Fault Unit} (h : Processes host buf c o)
    (h0 : c.packageCounter = 0) (hpost : ascii "POST" <+: buf)
    (hd : parseContentLength host buf = .ok d) : Opens host buf c d o := by
  cases h with
  | get _ h => exact absurd h (post_excludes hpost).1
  | options _ h => exact absurd h (post_excludes hpost).2
  | invalid _ h => exact absurd hpost h
  | unread _ _ e he => simp [hd] at he
  | refused _ _ e hz hs => exact .refused (Except.ok.inj (hd.symm.trans hz)) e hs
  | headerOnly _ _ d' hd' hs hb =>
    obtain rfl : d = d' := Except.ok.inj (hd.symm.trans hd')
    exact .headerOnly hs hb
  | first _ _ d' hd' hs hb o ho =>
    obtain rfl : d = d' := Except.ok.inj (hd.symm.trans hd')
    exact .first hs hb o ho
  | later h => exact absurd h0 h

variable {host} in
lemma Opens.threw {buf : Bytes} {c : TcpConnection} {o : Outcome TcpConnection Effect Fault Unit}
    (h : Opens host buf c 0 o) {e : Fault} (he : host.shutdown = .error e) :
    o = ⟨.error e, { c with packageType := .post, contentLength := 0 },
      [.package buf, .shutdown]⟩ := by
  cases h with
  | refused _ e' hs =>
    obtain rfl := Except.error.inj (he.symm.trans hs)
    rfl
  | headerOnly hs | first hs =>
    rw [hs rfl] at he
    cases he

variable {host} in
lemma Processes.continues {buf : Bytes} {c : TcpConnection}
    {o : Outcome TcpConnection Effect Fault Unit} (h : Processes host buf c o)
    (hc : c.packageCounter ≠ 0) : ∃ p, Collects host buf c p ∧ o = p.after [.package buf] := by
  cases h with
  | get h | options h | invalid h | unread h | refused h | headerOnly h | first h =>
    exact absurd h hc
  | later _ o ho => exact ⟨o, ho, rfl⟩

/-- Outcomes of `handleRead` on the first `n` bytes of the buffer. -/
inductive Reads (error : ErrorCode) (n : Size) (c : TcpConnection) :
    Outcome TcpConnection Effect Fault Unit → Prop
  | eof (h : error = 2) : Reads error n c ⟨host.shutdown, c, [.shutdown]⟩
  | failed (h : error ≠ 0 ∧ error ≠ 89 ∧ error ≠ 2) : Reads error n c ⟨.ok (), c, []⟩
  | empty (h : error = 0 ∨ error = 89) (hn : c.buffer.take n.toNat = []) :
      Reads error n c ⟨.ok (), c, [.asyncHandshake]⟩
  | data (h : error = 0 ∨ error = 89) (hn : c.buffer.take n.toNat ≠ [])
      (o : Outcome TcpConnection Effect Fault Unit)
      (ho : Processes host (c.buffer.take n.toNat) c o) : Reads error n c o

lemma size_take {s : Bytes} {n : Size} (hn : n.toNat ≤ s.length) : size (s.take n.toNat) = n := by
  simp [size, hn]

theorem handleRead_reads (error : ErrorCode) {n : Size} {c : TcpConnection}
    (hn : n.toNat ≤ c.buffer.length) :
    Reads host error n c (handleRead host error n c) := by
  simp only [handleRead, Action.ite_apply]
  split_ifs with he he2
  · exact .eof he2
  · exact .failed ⟨he.1, he.2, he2⟩
  · have herr : error = 0 ∨ error = 89 := by tauto
    have hsz := size_take hn
    have hlen : (c.buffer.take n.toNat).length < 2 ^ 64 := by
      have := n.toNat_lt
      simp
      omega
    simp only [Action.bind_apply, Action.get_apply, Outcome.andThen_ok, Outcome.after_nil,
      Action.ite_apply, hsz]
    have hnil : c.buffer.take n.toNat = [] ↔ ¬n > 0 := by
      rw [← List.length_eq_zero_iff, gt_iff_lt, UInt64.lt_iff_toNat_lt]
      simp [hn]
    split_ifs with hpos
    · refine .data herr (fun h => hnil.mp h hpos) _ ?_
      have hp := processPackage_processes host hlen c
      rwa [hsz] at hp
    · exact .empty herr (hnil.mpr hpos)

end Outcomes

lemma Collects.no_shutdown {host : Host} {body : Bytes} {c : TcpConnection}
    {o : Outcome TcpConnection Effect Fault Unit} (h : Collects host body c o) :
    .shutdown ∉ o.trace := by
  cases h <;> simp

end Gpd.Connection
