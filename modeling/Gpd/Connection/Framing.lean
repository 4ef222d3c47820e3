import Gpd.Connection.Handlers
import Gpd.Http.Message

/-! What a client that decodes the responses of the server gets. -/
namespace Gpd.Connection
open Cxx Text Http Machine

/-- The responses: to a processed POST request, with the string the callback returned, and
the two fixed ones. -/
inductive Response
  | post (json : Bytes)
  | get
  | options

namespace Response

def text : Response → Bytes
  | post json => postResponse json
  | get => getResponse
  | options => optionsResponse

/-- What the response is meant to carry. -/
def payload : Response → Bytes
  | post json => json
  | get => ascii "pong"
  | options => []

end Response

section Writes

variable {host : Host} {c : TcpConnection} {o : Outcome TcpConnection Effect Fault Unit}
  {source : Storage} {text : Bytes}

lemma Collects.wrote {body : Bytes} (h : Collects host body c o)
    (hw : .asyncWrite source text ∈ o.trace) : ∃ json, text = postResponse json := by
  cases h with
  | waiting => simp at hw
  | thrown => simp at hw
  | answered _ json =>
    obtain ⟨_, htext⟩ : source = .writeBuffer ∧ text = postResponse json := by simpa using hw
    exact ⟨json, htext⟩

/-- Whatever a package makes the server write is one of the responses. -/
theorem Processes.wrote {buf : Bytes} (h : Processes host buf c o)
    (hw : .asyncWrite source text ∈ o.trace) : ∃ response : Response, text = response.text := by
  have hrefusal : ∀ d, .asyncWrite source text ∉ refusal d := by
    intro d
    unfold refusal
    split <;> simp
  cases h with
  | get =>
    obtain ⟨_, htext⟩ : source = .handlerLocal ∧ text = getResponse := by simpa using hw
    exact ⟨.get, htext⟩
  | options =>
    obtain ⟨_, htext⟩ : source = .writeBuffer ∧ text = optionsResponse := by simpa using hw
    exact ⟨.options, htext⟩
  | invalid | unread | refused => simp at hw
  | headerOnly => simp [hrefusal] at hw
  | first _ _ d _ _ _ o ho =>
    obtain ⟨t, ht, htrace⟩ := counting_trace o
    have hbody : .asyncWrite source text ∈ o.trace := by
      rcases ht with rfl | rfl <;> simpa [htrace, hrefusal] using hw
    obtain ⟨json, hjson⟩ := ho.wrote hbody
    exact ⟨.post json, hjson⟩
  | later _ o ho =>
    obtain ⟨json, hjson⟩ := ho.wrote (by simpa using hw)
    exact ⟨.post json, hjson⟩

end Writes

def statusLine : Bytes := ascii "HTTP/1.1 200 OK"

def lengthOf (n : ℕ) : Field where
  name := ascii "Content-Length"
  value := 32 :: decimal n
  named := by decide +kernel
  token := by decide +kernel
  oneLine := by
    intro b hb
    rcases List.mem_cons.mp hb with rfl | hb
    · decide
    · have hd := isDigit_of_mem_decimal hb
      constructor <;> rintro rfl <;> exact absurd hd (by decide)

def contentType : Field := .of "Content-Type" " text/html" (by decide +kernel)

def allowOrigin : Field := .of "Access-Control-Allow-Origin" " *" (by decide +kernel)

def allowMethods : Field :=
  .of "Access-Control-Allow-Methods" " OPTIONS, GET, POST" (by decide +kernel)

def allowHeaders : Field :=
  .of "Access-Control-Allow-Headers" " Content-Type, Access-Control-Allow-Headers"
    (by decide +kernel)

def connectionClose : Field := .of "Connection" " close" (by decide +kernel)

def okBlock (fields : List Field) : Block where
  startLine := statusLine
  fields := fields
  started := by decide +kernel
  oneLine := by decide +kernel

def postBlock (n : ℕ) : Block := okBlock [lengthOf n, contentType, allowOrigin, connectionClose]

def getBlock : Block := okBlock
  [lengthOf 4, contentType, allowOrigin, connectionClose]

def optionsBlock : Block := okBlock
  [lengthOf 0, contentType,
    allowMethods, allowHeaders, allowOrigin, connectionClose]

section Lines

lemma ascii_append (s t : String) : ascii (s ++ t) = ascii s ++ ascii t := by simp [ascii]

lemma ascii_status : ascii "HTTP/1.1 200 OK\r\n" = statusLine ++ crlf := by decide

lemma ascii_contentType :
    ascii "Content-Type: text/html\r\n" = contentType.line ++ crlf := by decide

lemma ascii_allowOrigin :
    ascii "Access-Control-Allow-Origin: *\r\n" = allowOrigin.line ++ crlf := by
  decide

end Lines

lemma postResponse_eq (json : Bytes) :
    postResponse json = (postBlock (size json).toNat).render ++ (json ++ crlf) := by
  have hlength : ascii "Content-Length: " = ascii "Content-Length" ++ [58, 32] := by
    decide
  have hclose : ascii "Connection: close\r\n\r\n" = connectionClose.line ++ headerEnd := by
    decide
  have hend : ascii "\r\n" = crlf := by decide
  rw [postResponse, ascii_status, hlength, ascii_contentType, ascii_allowOrigin, hclose, hend]
  simp [postBlock, okBlock, Block.render, Block.lines, List.intercalate_cons_cons, lengthOf,
    Field.line]

lemma getResponse_eq : getResponse = getBlock.render ++ (ascii "pong" ++ crlf) := by
  have hclose : ascii "Connection: close\r\n\r\npong\r\n" =
      connectionClose.line ++ headerEnd ++ (ascii "pong" ++ crlf) := by decide
  have hlength : ascii "Content-Length: 4\r\n" = (lengthOf 4).line ++ crlf := by decide
  rw [getResponse]
  simp only [ascii_append, ascii_status, ascii_contentType, ascii_allowOrigin, hclose, hlength]
  simp [getBlock, okBlock, Block.render, Block.lines, List.intercalate_cons_cons]

lemma optionsResponse_eq : optionsResponse = optionsBlock.render := by
  have hlength : ascii "Content-Length: 0\r\n" = (lengthOf 0).line ++ crlf := by
    decide
  have hmethods : ascii "Access-Control-Allow-Methods: OPTIONS, GET, POST\r\n" =
      allowMethods.line ++ crlf := by decide
  have hheaders : ascii
      "Access-Control-Allow-Headers: Content-Type, Access-Control-Allow-Headers\r\n" =
      allowHeaders.line ++ crlf := by decide
  have hclose : ascii "Connection: close\r\n\r\n" = connectionClose.line ++ headerEnd := by
    decide
  rw [optionsResponse]
  simp only [ascii_append, ascii_status, ascii_contentType, ascii_allowOrigin, hclose, hlength,
    hmethods, hheaders]
  simp [optionsBlock, okBlock, Block.render, Block.lines, List.intercalate_cons_cons]

lemma contentLength_of_first {n : ℕ} {fs : List Field} (hfs : ∀ f ∈ fs, isLengthField f = false) :
    contentLength (lengthOf n :: fs) = some n := by
  have hfirst : isLengthField (lengthOf n) = true := by
    change sameName (ascii "Content-Length") contentLengthName = true
    decide
  have hrest : fs.filter isLengthField = [] := by
    simpa [List.filter_eq_nil_iff] using hfs
  have hvalue : numeral? (trim ([32] ++ decimal n ++ [])) = some (readDecimal (decimal n)) :=
    numeral?_trim (by simp [isBlank]) (by simp) (decimal_ne_nil n) fun b hb =>
      isDigit_of_mem_decimal hb
  rw [List.append_nil, readDecimal_decimal] at hvalue
  rw [contentLength, List.filter_cons_of_pos hfirst, hrest]
  exact hvalue

lemma contentType_not_length : isLengthField contentType = false := by decide

lemma allowOrigin_not_length : isLengthField allowOrigin = false := by decide

lemma connectionClose_not_length : isLengthField connectionClose = false := by decide

lemma postBlock_length (n : ℕ) : contentLength (postBlock n).fields = some n :=
  contentLength_of_first
    (by simp [contentType_not_length, allowOrigin_not_length, connectionClose_not_length])

theorem decode_postResponse {json : Bytes} (hlen : json.length < 2 ^ 64) :
    decode (postResponse json) = some (json, crlf) := by
  rw [postResponse_eq, toNat_size hlen]
  exact decode_body _ (postBlock_length _) _

theorem decode_getResponse : decode getResponse = some (ascii "pong", crlf) := by
  rw [getResponse_eq]
  refine decode_body _ (contentLength_of_first ?_) _
  simp [contentType_not_length, allowOrigin_not_length, connectionClose_not_length]

lemma optionsBlock_length : contentLength optionsBlock.fields = some 0 := by
  have hmethods : isLengthField allowMethods = false := by decide
  have hheaders : isLengthField allowHeaders = false := by decide
  apply contentLength_of_first
  simp [contentType_not_length, allowOrigin_not_length, connectionClose_not_length, hmethods,
    hheaders]

theorem decode_optionsResponse : decode optionsResponse = some ([], []) := by
  have hdecode : decode (optionsBlock.render ++ ([] ++ [])) = some ([], []) :=
    @decode_body optionsBlock [] optionsBlock_length []
  rwa [List.append_nil, List.append_nil, ← optionsResponse_eq] at hdecode

/-- A client that takes the declared length of a response gets the payload and nothing left
over exactly for the OPTIONS response: behind the other payloads there is an uncounted CRLF. -/
theorem framing_iff (response : Response) :
    decode response.text = some (response.payload, []) ↔ response = .options := by
  cases response with
  | post json =>
    refine iff_of_false ?_ (by simp)
    rw [Response.text, postResponse_eq, decode_render _ (postBlock_length _)]
    split_ifs
    · simp only [Option.some.injEq, Prod.mk.injEq, List.drop_eq_nil_iff, not_and]
      intro _ hle
      -- the printed size is that of the string, or smaller where it wraps around
      have hsize : (size json).toNat ≤ json.length := by
        rw [size, UInt64.toNat_ofNat']
        exact Nat.mod_le _ _
      simp [crlf] at hle
      omega
    · simp
  | get =>
    refine iff_of_false ?_ (by simp)
    rw [Response.text, decode_getResponse]
    simp [crlf]
  | options => exact iff_of_true decode_optionsResponse rfl

/-- The response "abc" is followed by two bytes that no length counts. -/
theorem not_framed :
    ¬∀ response : Response, decode response.text = some (response.payload, []) := by
  intro h
  have hdecode : decode (postResponse (ascii "abc")) = some (ascii "abc", crlf) :=
    decode_postResponse (by decide)
  have hframed := hdecode.symm.trans (h (.post (ascii "abc")))
  simp [crlf] at hframed

end Gpd.Connection
