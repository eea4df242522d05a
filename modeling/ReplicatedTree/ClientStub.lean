import ReplicatedTree.Buffers
import ReplicatedTree.Inet

/-!
# The client's calls (`client_stub.c`, `network_client.c`)

Each function of the stub builds a request, lets `network_send_receive` exchange it for a
response, and reads its result from that. They differ in the request, in the error value and in
the content they expect; the calls as one type (`RtreeCall`) have these three as functions, and
`RtreeCall.run_eq` is the pattern they share. What an exchange is, is a parameter: one for any
bytes that come back (`receiveReply`), and one where the request goes through
`message_to_buffer` first (`exchangeBytes`).
-/

namespace ReplicatedTree

/-! ## `network_send_receive` -/

/-- The two servers of a `struct rtree_t`. -/
inductive TreeServer
  | primary
  | backup
deriving DecidableEq

/-- The switch over the operation code. -/
def receivingServer (opCode : ℤ) : Option TreeServer :=
  if opCode = opSize ∨ opCode = opGet ∨ opCode = opGetKeys ∨ opCode = opHeight ∨
      opCode = opVerify then some .backup
  else if opCode = opDel ∨ opCode = opPut then some .primary
  else none

/-- `network_send_message` followed by `network_receive_message`, on the connection to a
server. -/
abbrev Exchange := TreeServer → Message → Except Failure (Option MessageT)

def networkSendReceive (exchange : Exchange) (msg : Message) : Except Failure (Option MessageT) :=
  match receivingServer msg.opCode with
  | some server => exchange server msg
  | none => .ok none

/-- The exchange when `reply` are the bytes that arrive after a request, unless it could not be
sent. -/
def receiveReply (codec : MessageCodec) (reply : TreeServer → Message → Option (List UInt8)) :
    Exchange :=
  fun server request => .ok ((reply server request).bind (networkReceiveMessage codec))

/-- The bytes that `network_send_message` writes when every `write` is accepted; none if it
returns -1. -/
def sentBytes (codec : MessageCodec) (message : Message) : Except Failure (Option (List UInt8)) :=
  (messageToBuffer codec (some ⟨some message⟩)).map fun (size, buffer) =>
    buffer.map fun packed => sizeBytes size ++ packed

/-- The exchange when `respond` says which bytes arrive after the bytes of a request. -/
def exchangeBytes (codec : MessageCodec)
    (respond : TreeServer → List UInt8 → Option (List UInt8)) : Exchange :=
  fun server request => (sentBytes codec request).map fun sent =>
    (sent.bind (respond server)).bind (networkReceiveMessage codec)

/-! ## Reading a response -/

/-- The end of a stub function: the result, or the error value when there is no response, or an
error, or a response of another kind. -/
def readResponse {α : Type} (errorValue : α) (expected : Content → Option (Except Failure α))
    (response : Option MessageT) : Except Failure α :=
  match response with
  | none => .ok errorValue
  | some response =>
    match response.msg with
    -- `response->msg` is not tested for NULL
    | none => .error .fault
    | some msg =>
      if msg.opCode = opError then .ok errorValue
      else (expected msg.content).getD (.ok errorValue)

/-- A response of the expected kind is read. -/
theorem readResponse_expected {α : Type} {errorValue : α}
    {expected : Content → Option (Except Failure α)} {msg : Message} {answer : Except Failure α}
    (hop : msg.opCode ≠ opError) (h : expected msg.content = some answer) :
    readResponse errorValue expected (some ⟨some msg⟩) = answer := by
  simp only [readResponse, if_neg hop, h, Option.getD_some]

def expectOpId : Content → Option (Except Failure ℤ)
  | .opId id => some (.ok id)
  | _ => none

def expectIntResult : Content → Option (Except Failure ℤ)
  | .intResult result => some (.ok result)
  | _ => none

def expectValue : Content → Option (Except Failure (Option DataT))
  | .value value => some (.ok (msgToData value))
  | _ => none

def expectKeys : Content → Option (Except Failure (Option (List (Option CString))))
  | .keys keys => some (msgToKeys keys)
  | _ => none

/-! ## The stub functions -/

section Stub

variable (exchange : Exchange)

def rtreePut (entry : Option EntryT) : Except Failure ℤ :=
  match entry with
  | none => .ok (-1)
  | some entry => do
    let response ← networkSendReceive exchange ⟨opPut, .entry (entryToMsg (some entry))⟩
    readResponse (-1) expectOpId response

def rtreeGet (key : Option CString) : Except Failure (Option DataT) :=
  match key with
  | none => .ok none
  | some key => do
    let response ← networkSendReceive exchange ⟨opGet, .key key⟩
    readResponse none expectValue response

def rtreeDel (key : Option CString) : Except Failure ℤ :=
  match key with
  | none => .ok (-1)
  | some key => do
    let response ← networkSendReceive exchange ⟨opDel, .key key⟩
    readResponse (-1) expectOpId response

def rtreeSize : Except Failure ℤ := do
  let response ← networkSendReceive exchange ⟨opSize, .notSet⟩
  readResponse (-1) expectIntResult response

/-- -1 is the height of the empty tree, so that errors are -2. -/
def rtreeHeight : Except Failure ℤ := do
  let response ← networkSendReceive exchange ⟨opHeight, .notSet⟩
  readResponse (-2) expectIntResult response

def rtreeGetKeys : Except Failure (Option (List (Option CString))) := do
  let response ← networkSendReceive exchange ⟨opGetKeys, .notSet⟩
  readResponse none expectKeys response

def rtreeVerify (opId : ℤ) : Except Failure ℤ := do
  let response ← networkSendReceive exchange ⟨opVerify, .opId opId⟩
  readResponse (-1) expectIntResult response

end Stub

/-! ## Calls -/

/-- A stub function with its arguments. -/
inductive RtreeCall
  | put (entry : Option EntryT)
  | get (key : Option CString)
  | del (key : Option CString)
  | size
  | height
  | getKeys
  | verify (opId : ℤ)

namespace RtreeCall

/-- What a call returns. -/
abbrev Result : RtreeCall → Type
  | put _ | del _ | size | height | verify _ => ℤ
  | get _ => Option DataT
  | getKeys => Option (List (Option CString))

def run (exchange : Exchange) : (call : RtreeCall) → Except Failure call.Result
  | put entry => rtreePut exchange entry
  | get key => rtreeGet exchange key
  | del key => rtreeDel exchange key
  | size => rtreeSize exchange
  | height => rtreeHeight exchange
  | getKeys => rtreeGetKeys exchange
  | verify opId => rtreeVerify exchange opId

/-- The request of a call; none if an argument is NULL. -/
def request : RtreeCall → Option Message
  | put entry => entry.map fun entry => ⟨opPut, .entry (entryToMsg (some entry))⟩
  | get key => key.map fun key => ⟨opGet, .key key⟩
  | del key => key.map fun key => ⟨opDel, .key key⟩
  | size => some ⟨opSize, .notSet⟩
  | height => some ⟨opHeight, .notSet⟩
  | getKeys => some ⟨opGetKeys, .notSet⟩
  | verify opId => some ⟨opVerify, .opId opId⟩

def errorValue : (call : RtreeCall) → call.Result
  | put _ | del _ | size | verify _ => (-1 : ℤ)
  | height => (-2 : ℤ)
  | get _ => (none : Option DataT)
  | getKeys => (none : Option (List (Option CString)))

/-- The result in a content of the kind the call expects. -/
def expected : (call : RtreeCall) → Content → Option (Except Failure call.Result)
  | put _ => expectOpId
  | get _ => expectValue
  | del _ => expectOpId
  | size => expectIntResult
  | height => expectIntResult
  | getKeys => expectKeys
  | verify _ => expectIntResult

theorem run_eq (exchange : Exchange) (call : RtreeCall) :
    call.run exchange = match call.request with
      | none => .ok call.errorValue
      | some request =>
        networkSendReceive exchange request >>= readResponse call.errorValue call.expected := by
  cases call with
  | put entry => cases entry <;> rfl
  | get key => cases key <;> rfl
  | del key => cases key <;> rfl
  | size | height | getKeys | verify => rfl

/-- Every request has a server. -/
theorem receivingServer_request {call : RtreeCall} {request : Message}
    (h : call.request = some request) : receivingServer request.opCode ≠ none := by
  have hall : ∀ opCode ∈ [opPut, opGet, opDel, opSize, opHeight, opGetKeys, opVerify],
      receivingServer opCode ≠ none := by decide
  apply hall
  cases call with
  | put | get | del =>
    obtain ⟨_, -, rfl⟩ := Option.map_eq_some_iff.1 h
    simp
  | size | height | getKeys | verify =>
    obtain rfl := Option.some.inj h
    simp

/-- A call whose request is answered with a response. -/
theorem run_response {call : RtreeCall} {request : Message} (h : call.request = some request)
    {exchange : Exchange} {response : Option MessageT}
    (hexchange : ∀ server, exchange server request = .ok response) :
    call.run exchange = readResponse call.errorValue call.expected response := by
  obtain ⟨server, hserver⟩ := Option.ne_none_iff_exists'.1 (receivingServer_request h)
  rw [run_eq, h]
  simp only [networkSendReceive, hserver, hexchange]
  rfl

end RtreeCall

end ReplicatedTree
