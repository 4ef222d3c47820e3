import Gpd.Cxx.String
import Gpd.Machine.Action

/-! One client connection: its members, the asynchronous operations its handlers
start, and the handlers themselves, in the order of the source. -/
namespace Gpd.Connection
open Cxx Text Machine

inductive PackageType
  | get
  | post
  | options
  | unknown
  deriving DecidableEq, Repr

def bufferSize : ℕ := 32768

lemma lt_of_le_bufferSize {k : ℕ} (h : k ≤ bufferSize) : k < 2 ^ 64 := h.trans_lt (by decide)

structure TcpConnection where
  message : Bytes
  buffer : Bytes
  writeBuffer : Bytes
  packageCounter : ℕ
  headerSize : Size
  transferredTotal : Size
  contentLength : Size
  packageType : PackageType
  deriving DecidableEq, Repr

/-- Where the bytes of a started write live. -/
inductive Storage
  | writeBuffer
  | handlerLocal
  deriving DecidableEq, Repr

/-- What the handlers do, in order. The last three record the processing of a
package: its arrival, a write to `m_message`, and a call of `m_processingCallback`. -/
inductive Effect
  | asyncHandshake
  | asyncReadSome
  | asyncWrite (source : Storage) (text : Bytes)
  | shutdown
  | package (buf : Bytes)
  | append (bytes : Bytes)
  | callback (machine : Bytes)
  deriving DecidableEq, Repr

/-- What the code relies on from outside: the callback handed to the constructor,
whether `m_socket.shutdown()` throws, and the string obtained when the first iterator
of `string(first, last)` lies outside the buffer, which the language leaves open. -/
structure Host where
  processingCallback : Bytes → Except Fault Bytes
  shutdownFails : Bool
  stray : Bytes → Except Fault Bytes

def Host.shutdown (host : Host) : Except Fault Unit :=
  if host.shutdownFails then .error .shutdownFailed else .ok ()

abbrev Handler := Action TcpConnection Effect Fault

abbrev ErrorCode := ℤ

/-- The constructor. `m_headerSize` has no initializer; no handler reads it first. -/
def TcpConnection.new : TcpConnection where
  message := []
  buffer := []
  writeBuffer := []
  packageCounter := 0
  headerSize := 0
  transferredTotal := 0
  contentLength := 0
  packageType := .unknown

def getResponse : Bytes := ascii <|
  "HTTP/1.1 200 OK\r\n" ++
  "Content-Length: 4\r\n" ++
  "Content-Type: text/html\r\n" ++
  "Access-Control-Allow-Origin: *\r\n" ++
  "Connection: close\r\n\r\npong\r\n"

def optionsResponse : Bytes := ascii <|
  "HTTP/1.1 200 OK\r\n" ++
  "Content-Length: 0\r\n" ++
  "Content-Type: text/html\r\n" ++
  "Access-Control-Allow-Methods: OPTIONS, GET, POST\r\n" ++
  "Access-Control-Allow-Headers: Content-Type, Access-Control-Allow-Headers\r\n" ++
  "Access-Control-Allow-Origin: *\r\n" ++
  "Connection: close\r\n\r\n"

def postResponse (newMachineJson : Bytes) : Bytes :=
  ascii "HTTP/1.1 200 OK\r\n" ++
  (ascii "Content-Length: " ++ decimal (size newMachineJson).toNat ++ ascii "\r\n") ++
  ascii "Content-Type: text/html\r\n" ++
  ascii "Access-Control-Allow-Origin: *\r\n" ++
  ascii "Connection: close\r\n\r\n" ++
  (newMachineJson ++ ascii "\r\n")

def headerName : Bytes := ascii "Content-Length:"

section Handlers

open Action

variable (host : Host)

def processRequest : Handler Unit := emit .asyncHandshake

def handleHandshake (error : ErrorCode) : Handler Unit := do
  if error = 0 then
    emit .asyncReadSome

def socketShutdown : Handler Unit := do
  emit .shutdown
  host.shutdown

/-- `string(buf.begin() + pos, buf.end())`. -/
def suffixFrom (buf : Bytes) (pos : Size) : Except Fault Bytes :=
  if pos.toNat ≤ buf.length then .ok (buf.drop pos.toNat) else host.stray buf

def extractContentLength (buf : Bytes) : Handler Unit := do
  let contentLengthPos := find buf headerName
  let newBuf ← suffixFrom host buf contentLengthPos
  let newLinePos := find newBuf crlf
  let contentLengthStr ← substr newBuf (size headerName) (newLinePos - size headerName)
  let contentLength ← stoi contentLengthStr
  modify fun c => { c with contentLength := UInt64.ofInt contentLength }

def processMessage : Handler Unit := do
  let machine := (← get).message
  emit (.callback machine)
  let newMachineJson ← host.processingCallback machine
  modify fun c => { c with writeBuffer := postResponse newMachineJson }
  emit (.asyncWrite .writeBuffer (postResponse newMachineJson))

/-- `m_message << bytes`. -/
def writeMessage (bytes : Bytes) : Handler Unit := do
  emit (.append bytes)
  modify fun c => { c with message := c.message ++ bytes }

def splitHeaderAndBody (buf : Bytes) : Handler Unit := do
  let headerSize := (← get).headerSize
  let machineLength := size buf - (headerSize + 2)
  let body ← substr buf (headerSize + 4) machineLength
  writeMessage body

def extractHeaderAndBody (buf : Bytes) (bytesTransferred : Size) : Handler Unit := do
  modify fun c => { c with headerSize := find buf headerEnd }
  if size buf - 4 = (← get).headerSize then
    processRequest
  else
    modify fun c => { c with
      transferredTotal := c.transferredTotal + (bytesTransferred - c.headerSize - 4) }
    splitHeaderAndBody buf
    let c ← get
    if c.transferredTotal + 2 ≥ c.contentLength then
      processMessage host
    else
      processRequest

def handleGetRequest : Handler Unit := emit (.asyncWrite .handlerLocal getResponse)

def handlePostRequest (buf : Bytes) (bytesTransferred : Size) : Handler Unit := do
  modify fun c => { c with transferredTotal := c.transferredTotal + bytesTransferred }
  writeMessage buf
  let c ← get
  if c.transferredTotal + 2 ≥ c.contentLength then
    processMessage host
  else
    processRequest

def handleOptionsRequest : Handler Unit := do
  modify fun c => { c with writeBuffer := optionsResponse }
  emit (.asyncWrite .writeBuffer optionsResponse)

def processPackage (buf : Bytes) (bytesTransferred : Size) : Handler Unit := do
  emit (.package buf)
  if (← get).packageCounter = 0 then
    if find buf (ascii "GET") = 0 then
      modify fun c => { c with packageType := .get }
      handleGetRequest
    else if find buf (ascii "POST") = 0 then
      modify fun c => { c with packageType := .post }
      extractContentLength host buf
      -- `m_contentLength` is unsigned, so `<= 0` only holds at zero; the branch falls through
      if (← get).contentLength ≤ 0 then
        socketShutdown host
      extractHeaderAndBody host buf bytesTransferred
      modify fun c => { c with packageCounter := c.packageCounter + 1 }
      processRequest
    else if find buf (ascii "OPTIONS") = 0 then
      modify fun c => { c with packageType := .options }
      handleOptionsRequest
    else
      socketShutdown host
  else
    handlePostRequest host buf bytesTransferred

def handleRead (error : ErrorCode) (bytesTransferred : Size) : Handler Unit := do
  if error ≠ 0 ∧ error ≠ 89 then
    if error = 2 then
      socketShutdown host
  else
    let buf := (← get).buffer.take bytesTransferred.toNat
    if size buf > 0 then
      processPackage host buf bytesTransferred
    else
      processRequest

def handleWrite (_error : ErrorCode) (_bytesTransferred : Size) : Handler Unit := pure ()

end Handlers

/-- A completed read stores its bytes at the front of `m_buffer`. -/
def TcpConnection.store (c : TcpConnection) (bytes : Bytes) : TcpConnection :=
  { c with buffer := bytes ++ c.buffer.drop bytes.length }

end Gpd.Connection
