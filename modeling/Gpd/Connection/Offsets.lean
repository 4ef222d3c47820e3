import Gpd.Connection.HeaderCuts
import Gpd.Machine.Recording

/-! The offsets that `find` returns and that are then used to compute positions and sizes:
where a first POST read uses them, and when they are offsets into the searched string. -/
namespace Gpd.Connection
open Cxx Text Machine

/-- What is computed from an offset. -/
inductive Usage
  /-- `begin() + offset`. -/
  | iterator
  /-- `offset - length`. -/
  | minus (length : Size)
  /-- `length - offset - skip` or `length - (offset + skip)`. -/
  | remainder (length skip : Size)
  /-- `offset + skip` as the start of a `substr`. -/
  | start (skip : Size)
  deriving DecidableEq, Repr

/-- A use of the offset that a search for `pattern` in `searched` returned. -/
structure Use where
  searched : Bytes
  pattern : Bytes
  offset : Size
  usage : Usage
  deriving DecidableEq, Repr

/-- The computation stays within the searched string and does not wrap around. -/
def Use.Fits (u : Use) : Prop :=
  match u.usage with
  | .iterator => u.offset.toNat ≤ u.searched.length
  | .minus length => length.toNat ≤ u.offset.toNat
  | .remainder length skip => u.offset.toNat + skip.toNat ≤ length.toNat
  | .start skip => u.offset.toNat + skip.toNat ≤ u.searched.length

/-- The offset is the position of the pattern, and what is computed from it fits. -/
structure Use.Sound (u : Use) : Prop where
  found : position u.pattern u.searched = some u.offset.toNat
  fits : u.Fits

abbrev Tracking := Action TcpConnection Use Fault

def nameUse (buf : Bytes) : Use := ⟨buf, headerName, find buf headerName, .iterator⟩

def lineUse (newBuf : Bytes) : Use := ⟨newBuf, crlf, find newBuf crlf, .minus (size headerName)⟩

section Uses

open Action

variable (host : Host)

def extractContentLengthUses (buf : Bytes) : Tracking Unit := do
  let contentLengthPos := find buf headerName
  emit (nameUse buf)
  let newBuf ← suffixFrom host buf contentLengthPos
  let newLinePos := find newBuf crlf
  emit (lineUse newBuf)
  let contentLengthStr ← substr newBuf (size headerName) (newLinePos - size headerName)
  let contentLength ← stoi contentLengthStr
  modify fun c => { c with contentLength := UInt64.ofInt contentLength }

/-- `splitHeaderAndBody` with its uses of offsets recorded: `m_headerSize` is where
`extractHeaderAndBody` found the terminator in the same string. -/
def splitHeaderAndBodyUses (buf : Bytes) : Tracking Unit := do
  let headerSize := (← get).headerSize
  emit ⟨buf, headerEnd, headerSize, .remainder (size buf) 2⟩
  let machineLength := size buf - (headerSize + 2)
  emit ⟨buf, headerEnd, headerSize, .start 4⟩
  let body ← substr buf (headerSize + 4) machineLength
  silently (writeMessage body)

def extractHeaderAndBodyUses (buf : Bytes) (bytesTransferred : Size) : Tracking Unit := do
  modify fun c => { c with headerSize := find buf headerEnd }
  let headerSize := (← get).headerSize
  if size buf - 4 = headerSize then
    silently processRequest
  else
    emit ⟨buf, headerEnd, headerSize, .remainder bytesTransferred 4⟩
    modify fun c => { c with
      transferredTotal := c.transferredTotal + (bytesTransferred - c.headerSize - 4) }
    splitHeaderAndBodyUses buf
    let c ← get
    if c.transferredTotal + 2 ≥ c.contentLength then
      silently (processMessage host)
    else
      silently processRequest

def processPackageUses (buf : Bytes) (bytesTransferred : Size) : Tracking Unit := do
  if (← get).packageCounter = 0 then
    if find buf (ascii "GET") = 0 then
      modify fun c => { c with packageType := .get }
      silently handleGetRequest
    else if find buf (ascii "POST") = 0 then
      modify fun c => { c with packageType := .post }
      extractContentLengthUses host buf
      if (← get).contentLength ≤ 0 then
        silently (socketShutdown host)
      extractHeaderAndBodyUses host buf bytesTransferred
      modify fun c => { c with packageCounter := c.packageCounter + 1 }
      silently processRequest
    else if find buf (ascii "OPTIONS") = 0 then
      modify fun c => { c with packageType := .options }
      silently handleOptionsRequest
    else
      silently (socketShutdown host)
  else
    silently (handlePostRequest host buf bytesTransferred)

theorem extractContentLengthUses_agrees (buf : Bytes) :
    Agrees (extractContentLengthUses host buf) (extractContentLength host buf) := by
  unfold extractContentLengthUses extractContentLength
  refine Agrees.recorded ?_ _
  refine (agrees_lift _).bind fun newBuf => Agrees.recorded ?_ _
  refine (agrees_lift _).bind fun contentLengthStr => ?_
  exact (agrees_lift _).bind fun contentLength => agrees_modify _

theorem splitHeaderAndBodyUses_agrees (buf : Bytes) :
    Agrees (splitHeaderAndBodyUses buf) (splitHeaderAndBody buf) := by
  unfold splitHeaderAndBodyUses splitHeaderAndBody
  refine agrees_get.bind fun c => Agrees.recorded (Agrees.recorded ?_ _) _
  exact (agrees_lift _).bind fun body => agrees_silently _

theorem extractHeaderAndBodyUses_agrees (buf : Bytes) (n : Size) :
    Agrees (extractHeaderAndBodyUses host buf n) (extractHeaderAndBody host buf n) := by
  unfold extractHeaderAndBodyUses extractHeaderAndBody
  refine (agrees_modify _).bind fun _ => agrees_get.bind fun c => ?_
  refine Agrees.ite (agrees_silently _) (Agrees.recorded ?_ _)
  refine (agrees_modify _).bind fun _ => ?_
  refine (splitHeaderAndBodyUses_agrees buf).bind fun _ => agrees_get.bind fun c => ?_
  exact Agrees.ite (agrees_silently _) (agrees_silently _)

/-- Without its record, and apart from the arrival that `processPackage` logs, the tracked
package does what `processPackage` does. -/
theorem processPackageUses_agrees (buf : Bytes) (n : Size) :
    Agrees (processPackageUses host buf n) (processPackage host buf n) := by
  unfold processPackageUses processPackage
  refine (Agrees.recorded ?_ _).symm
  refine agrees_get.bind fun c => Agrees.ite ?_ (agrees_silently _).symm
  refine Agrees.ite ?_ (Agrees.ite ?_ (Agrees.ite ?_ (agrees_silently _).symm))
  · exact (agrees_modify _).bind fun _ => (agrees_silently _).symm
  · refine (agrees_modify _).bind fun _ => ?_
    refine (extractContentLengthUses_agrees host buf).symm.bind fun _ => ?_
    refine agrees_get.bind fun c => ?_
    have hrest : ∀ u : Unit, Agrees
        (do
          extractHeaderAndBody host buf n
          modify fun c => { c with packageCounter := c.packageCounter + 1 }
          processRequest : Handler Unit)
        (do
          extractHeaderAndBodyUses host buf n
          modify fun c => { c with packageCounter := c.packageCounter + 1 }
          silently processRequest : Tracking Unit) := fun _ =>
      (extractHeaderAndBodyUses_agrees host buf n).symm.bind fun _ =>
        (agrees_modify _).bind fun _ => (agrees_silently _).symm
    exact Agrees.ite ((agrees_silently _).symm.bind hrest) (hrest ())
  · exact (agrees_modify _).bind fun _ => (agrees_silently _).symm

end Uses

section Traces

open Action

variable (host : Host) (buf : Bytes)

def lengthUses : List Use :=
  match suffixFrom host buf (find buf headerName) with
  | .ok newBuf => [nameUse buf, lineUse newBuf]
  | .error _ => [nameUse buf]

def bodyUses (n : Size) : List Use :=
  if size buf - 4 = find buf headerEnd then []
  else
    [⟨buf, headerEnd, find buf headerEnd, .remainder n 4⟩,
      ⟨buf, headerEnd, find buf headerEnd, .remainder (size buf) 2⟩,
      ⟨buf, headerEnd, find buf headerEnd, .start 4⟩]

lemma extractContentLengthUses_trace (c : TcpConnection) :
    (extractContentLengthUses host buf c).trace = lengthUses host buf := by
  simp only [extractContentLengthUses, lengthUses, bind_apply, emit_apply, Outcome.andThen_ok,
    lift_apply]
  cases suffixFrom host buf (find buf headerName) with
  | error e => rfl
  | ok newBuf =>
    simp only [Outcome.andThen_ok, bind_apply, emit_apply, lift_apply, Outcome.after_nil]
    cases substr newBuf (size headerName) (find newBuf crlf - size headerName) with
    | error e => rfl
    | ok text =>
      simp only [Outcome.andThen_ok, bind_apply, lift_apply, Outcome.after_nil]
      cases stoi text <;> rfl

lemma splitHeaderAndBodyUses_trace (c : TcpConnection) :
    (splitHeaderAndBodyUses buf c).trace =
      [⟨buf, headerEnd, c.headerSize, .remainder (size buf) 2⟩,
        ⟨buf, headerEnd, c.headerSize, .start 4⟩] := by
  simp only [splitHeaderAndBodyUses, bind_apply, get_apply, emit_apply, Outcome.andThen_ok,
    Outcome.after_trace, Outcome.after_nil]
  rw [trace_andThen_of_silent fun body => silent_silently _]
  rfl

lemma extractHeaderAndBodyUses_trace (n : Size) (c : TcpConnection) :
    (extractHeaderAndBodyUses host buf n c).trace = bodyUses buf n := by
  simp only [extractHeaderAndBodyUses, bodyUses, bind_apply, modify_apply, Outcome.andThen_ok,
    get_apply, Outcome.after_nil, Action.ite_apply]
  split_ifs with hend
  · rfl
  · simp only [bind_apply, emit_apply, Outcome.andThen_ok, modify_apply, Outcome.after_nil,
      Outcome.after_trace]
    rw [trace_andThen_of_silent, splitHeaderAndBodyUses_trace]
    · rfl
    · exact fun _ => silent_get.bind fun c => (silent_silently _).ite (silent_silently _)

theorem processPackageUses_trace {c : TcpConnection} (h0 : c.packageCounter = 0)
    (hpost : ascii "POST" <+: buf) (hlen : buf.length < 2 ^ 64) (n : Size) :
    (processPackageUses host buf n c).trace = lengthUses host buf ++
      match parseContentLength host buf with
      | .error _ => []
      | .ok d => if d = 0 → host.shutdown = .ok () then bodyUses buf n else [] := by
  have hget : ¬find buf (ascii "GET") = 0 := (find_eq_zero hlen).not.mpr (post_excludes hpost).1
  have hfind : find buf (ascii "POST") = 0 := (find_eq_zero hlen).mpr hpost
  simp only [processPackageUses, bind_apply, get_apply, Outcome.andThen_ok, Outcome.after_nil,
    Action.ite_apply, if_pos h0, if_neg hget, if_pos hfind, modify_apply]
  obtain ⟨hresult, hstate⟩ :=
    extractContentLengthUses_agrees host buf { c with packageType := .post }
  have htrace := extractContentLengthUses_trace host buf { c with packageType := .post }
  rw [extractContentLength_apply] at hresult hstate
  generalize extractContentLengthUses host buf { c with packageType := .post } = o at *
  obtain ⟨result, state, trace⟩ := o
  obtain rfl : trace = lengthUses host buf := htrace
  have hrest : ∀ c : TcpConnection, ((do
      extractHeaderAndBodyUses host buf n
      modify fun c => { c with packageCounter := c.packageCounter + 1 }
      silently processRequest : Tracking Unit) c).trace = bodyUses buf n := fun c => by
    rw [bind_apply, trace_andThen_of_silent, extractHeaderAndBodyUses_trace]
    exact fun _ => (silent_modify _).bind fun _ => silent_silently _
  cases hd : parseContentLength host buf with
  | error e =>
    simp only [hd] at hresult hstate ⊢
    subst hresult
    simp
  | ok d =>
    simp only [hd] at hresult hstate ⊢
    subst hresult hstate
    simp only [Outcome.andThen_ok, bind_apply, get_apply, Outcome.after_nil, Action.ite_apply,
      Outcome.after_trace, size_le_zero]
    congr 1
    by_cases hz : d = 0
    · subst hz
      cases hs : host.shutdown with
      | error e => simp [silently, hs]
      | ok u =>
        have hafter := hrest { c with packageType := .post, contentLength := 0 }
        simpa [silently, hs] using hafter
    · simpa [hz] using hrest { c with packageType := .post, contentLength := d }

end Traces

section Soundness

variable {buf : Bytes} (hlen : buf.length < 2 ^ 64)
include hlen

lemma found_iff {pat : Bytes} :
    position pat buf = some (find buf pat).toNat ↔ ∃ i, position pat buf = some i := by
  refine ⟨fun h => ⟨_, h⟩, fun ⟨i, h⟩ => ?_⟩
  rw [toNat_find h hlen, h]

lemma nameUse_sound_iff : (nameUse buf).Sound ↔ ∃ i, position headerName buf = some i := by
  refine ⟨fun h => (found_iff hlen).mp h.found, fun h => ⟨(found_iff hlen).mpr h, ?_⟩⟩
  obtain ⟨i, hi⟩ := h
  have hle := position_length_le hi
  have hnat : (find buf headerName).toNat = i := toNat_find hi hlen
  change (find buf headerName).toNat ≤ buf.length
  omega

lemma lineUse_sound_iff (hname : headerName <+: buf) :
    (lineUse buf).Sound ↔ ∃ j, OccursAt crlf buf j := by
  constructor
  · exact fun h => ⟨_, (position_eq_some.mp h.found).1⟩
  · rintro ⟨j, hj⟩
    obtain ⟨k, _, hk⟩ := exists_position hj
    refine ⟨(found_iff hlen).mpr ⟨k, hk⟩, ?_⟩
    obtain ⟨v, rfl⟩ := hname
    have hshift : position crlf (headerName ++ v) = (position crlf v).map (15 + ·) :=
      position_append_of_not_mem carriageReturn_not_mem_headerName v
    have hnat : (find (headerName ++ v) crlf).toNat = k := toNat_find hk hlen
    rw [hshift] at hk
    obtain ⟨l, _, rfl⟩ := Option.map_eq_some_iff.mp hk
    change (15 : ℕ) ≤ (find (headerName ++ v) crlf).toNat
    omega

lemma lengthUses_sound_iff (host : Host) :
    (∀ u ∈ lengthUses host buf, u.Sound) ↔
      ∃ i j, position headerName buf = some i ∧ i ≤ j ∧ OccursAt crlf buf j := by
  cases hi : position headerName buf with
  | none =>
    have hno : ¬(nameUse buf).Sound := by simp [nameUse_sound_iff hlen, hi]
    refine iff_of_false (fun h => hno (h _ ?_)) (by simp)
    unfold lengthUses
    split <;> simp
  | some i =>
    have hle := position_length_le hi
    have hsuffix : suffixFrom host buf (find buf headerName) = .ok (buf.drop i) := by
      rw [suffixFrom, toNat_find hi hlen, if_pos (by omega)]
    have hname : headerName <+: buf.drop i := by
      rw [← occursAt_zero, occursAt_drop_iff (by omega)]
      exact (position_eq_some.mp hi).1
    have hdrop : (buf.drop i).length < 2 ^ 64 := by
      rw [List.length_drop]
      omega
    simp only [lengthUses, hsuffix, List.forall_mem_cons, List.not_mem_nil, false_implies,
      implies_true, and_true, nameUse_sound_iff hlen, hi, lineUse_sound_iff hdrop hname]
    constructor
    · rintro ⟨_, j, hj⟩
      exact ⟨i, i + j, rfl, by omega, (occursAt_drop_iff (by omega)).mp hj⟩
    · rintro ⟨_, j, he, hij, hj⟩
      obtain rfl := Option.some.inj he
      refine ⟨⟨i, rfl⟩, j - i, (occursAt_drop_iff (by omega)).mpr ?_⟩
      rwa [Nat.add_sub_cancel' hij]

lemma bodyUses_sound_iff (h4 : 4 ≤ buf.length) :
    (∀ u ∈ bodyUses buf (size buf), u.Sound) ↔ ∃ i, position headerEnd buf = some i := by
  have hsize := toNat_size hlen
  constructor
  · intro h
    by_contra hnone
    push Not at hnone
    have hpos : position headerEnd buf = none := Option.eq_none_iff_forall_ne_some.mpr hnone
    have hbody : ¬size buf - 4 = find buf headerEnd := by
      rw [headerOnly_iff h4 hlen, bodyPart, bodyStart_of_none hpos, List.drop_eq_nil_iff]
      omega
    have hstart := h ⟨buf, headerEnd, find buf headerEnd, .start 4⟩ (by simp [bodyUses, hbody])
    have hfound := hstart.found
    simp [hpos] at hfound
  · rintro ⟨i, hi⟩ u hu
    have hle := position_length_le hi
    rw [headerEnd_length] at hle
    have hnat : (find buf headerEnd).toNat = i := toNat_find hi hlen
    have hfound : position headerEnd buf = some (find buf headerEnd).toNat := by rw [hnat, hi]
    have h2 : (2 : Size).toNat = 2 := rfl
    have h4 : (4 : Size).toNat = 4 := rfl
    unfold bodyUses at hu
    split_ifs at hu
    · cases hu
    · simp only [List.mem_cons, List.not_mem_nil, or_false] at hu
      rcases hu with rfl | rfl | rfl
      · exact ⟨hfound, by simp only [Use.Fits]; omega⟩
      · exact ⟨hfound, by simp only [Use.Fits]; omega⟩
      · exact ⟨hfound, by simp only [Use.Fits]; omega⟩

end Soundness

section FirstRead

variable (host : Host) {buf : Bytes} (hpost : ascii "POST" <+: buf) {c : TcpConnection}
  (h0 : c.packageCounter = 0)
include hpost h0

lemma forall_uses_iff (hlt : buf.length < 2 ^ 64) {P : Use → Prop} :
    (∀ u ∈ (processPackageUses host buf (size buf) c).trace, P u) ↔
      (∀ u ∈ lengthUses host buf, P u) ∧
      ∀ d, parseContentLength host buf = .ok d → (d = 0 → host.shutdown = .ok ()) →
        ∀ u ∈ bodyUses buf (size buf), P u := by
  rw [processPackageUses_trace host buf h0 hpost hlt, List.forall_mem_append]
  apply and_congr_right'
  cases hp : parseContentLength host buf with
  | error e => simp
  | ok d =>
    simp only [Except.ok.injEq, forall_eq']
    split_ifs with hs
    · exact ⟨fun h _ => h, fun h => h hs⟩
    · exact iff_of_true (by simp) fun h => absurd h hs

lemma moving_offsets_sound_iff (hlen : buf.length ≤ bufferSize) :
    (∀ u ∈ (processPackageUses host buf (size buf) c).trace,
        u.usage ≠ .minus (size headerName) → u.Sound) ↔
      (∃ i, position headerName buf = some i) ∧
      ∀ d, declaredLength buf = some d → (d = 0 → host.shutdown = .ok ()) →
        ∃ i, position headerEnd buf = some i := by
  have hlt : buf.length < 2 ^ 64 := lt_of_le_bufferSize hlen
  have hname : (∀ u ∈ lengthUses host buf, u.usage ≠ .minus (size headerName) → u.Sound) ↔
      ∃ i, position headerName buf = some i := by
    rw [← nameUse_sound_iff hlt]
    unfold lengthUses
    split <;> simp [nameUse, lineUse]
  have hbody : (∀ u ∈ bodyUses buf (size buf), u.usage ≠ .minus (size headerName) → u.Sound) ↔
      ∃ i, position headerEnd buf = some i := by
    rw [← bodyUses_sound_iff hlt (prefix_length hpost)]
    unfold bodyUses
    split_ifs <;> simp
  rw [forall_uses_iff host hpost h0 hlt, hname, hbody]
  apply and_congr_right
  rintro ⟨i, hi⟩
  simp only [parseContentLength_eq_ok_iff host hlt (position_eq_some.mp hi).1]

/-- Every offset that a first POST read uses is the position of what was searched for
exactly when the name occurs with a line break behind it and, if the text in between is
accepted as a length, the header terminator occurs; and the offsets that are used for more
than the size of the length text are, when this holds but for the line break. -/
theorem offsets_sound_iff (hlen : buf.length ≤ bufferSize) :
    ((∀ u ∈ (processPackageUses host buf (size buf) c).trace, u.Sound) ↔
      (∃ i j, position headerName buf = some i ∧ i ≤ j ∧ OccursAt crlf buf j) ∧
      ∀ d, declaredLength buf = some d → (d = 0 → host.shutdown = .ok ()) →
        ∃ i, position headerEnd buf = some i) ∧
    ((∀ u ∈ (processPackageUses host buf (size buf) c).trace,
        u.usage ≠ .minus (size headerName) → u.Sound) ↔
      (∃ i, position headerName buf = some i) ∧
      ∀ d, declaredLength buf = some d → (d = 0 → host.shutdown = .ok ()) →
        ∃ i, position headerEnd buf = some i) := by
  refine ⟨?_, moving_offsets_sound_iff host hpost h0 hlen⟩
  have hlt : buf.length < 2 ^ 64 := lt_of_le_bufferSize hlen
  rw [forall_uses_iff host hpost h0 hlt, lengthUses_sound_iff hlt,
    bodyUses_sound_iff hlt (prefix_length hpost)]
  apply and_congr_right
  rintro ⟨i, j, hi, _⟩
  simp only [parseContentLength_eq_ok_iff host hlt (position_eq_some.mp hi).1]

end FirstRead

theorem offsets_sound_iff_sample :
    (processPackageUses Host.echo (sampleHeader ++ ascii "abc")
      (size (sampleHeader ++ ascii "abc")) TcpConnection.new).trace.length = 5 ∧
    ∀ u ∈ (processPackageUses Host.echo (sampleHeader ++ ascii "abc")
      (size (sampleHeader ++ ascii "abc")) TcpConnection.new).trace, u.Sound := by
  refine ⟨by decide, (offsets_sound_iff Host.echo (by decide) rfl (by decide)).1.mpr
    ⟨⟨17, 36, by decide, by decide, by decide⟩, fun d _ _ => ⟨34, by decide⟩⟩⟩

/-- In a read without the name the iterator is moved by `npos`. -/
theorem offsets_not_sound :
    ¬∀ (host : Host) (buf : Bytes) (c : TcpConnection), ascii "POST" <+: buf →
      buf.length ≤ bufferSize → c.packageCounter = 0 →
      ∀ u ∈ (processPackageUses host buf (size buf) c).trace, u.Sound := by
  intro h
  have hsound := h Host.echo (ascii "POST") TcpConnection.new (by decide) (by decide) rfl
    (nameUse (ascii "POST")) (by decide)
  exact absurd hsound.found (by decide)

end Gpd.Connection
