import ReplicatedTree.AddressPort
import ReplicatedTree.InetTheorems
import ReplicatedTree.Registry

/-!
# `replicate_to_backup_server`

The function as one call, with what it does on the network: the calls of `server_connect`,
`write` and `close`, in order. What the system answers is given beforehand: whether a
connection is made, and what each `write` answers. A list of answers may end while a loop still
waits for the next one.

Both tests of a failure are `< -1`, but both functions tested answer -1. So the function goes on
with an address that was not set, or with -1 as a descriptor; and `htons` cuts a port to 16 bits,
so that a port which is no `uint16_t` leads to another one
(`replicateToBackupServer_answers_iff`).
-/

namespace ReplicatedTree

/-! ## The network -/

/-- What a call does that the other side or the system sees. -/
inductive NetworkEvent
  /-- the socket connects to this address and port; none is what was read without being set -/
  | connect (ipAddress : Option CString) (port : Option ℕ)
  /-- the bytes are those accepted -/
  | write (sockfd : ℤ) (bytes : List UInt8)
  | close (sockfd : ℤ)
deriving DecidableEq

/-- What the calls in `server_connect` answer; it closes the socket itself if it fails. -/
inductive ConnectAnswer
  /-- `socket` fails -/
  | noSocket
  /-- `inet_pton` does not know the address -/
  | badAddress (sockfd : ℕ)
  /-- `connect` fails -/
  | refused (sockfd : ℕ)
  | connected (sockfd : ℕ)
deriving DecidableEq

/-- The port that the bytes of `htons` stand for: an `int` is cut to 16 bits. -/
def htons (serverPort : ℤ) : ℕ := (serverPort % 2 ^ 16).toNat

theorem htons_eq_iff (serverPort : ℤ) :
    (htons serverPort : ℤ) = serverPort ↔ 0 ≤ serverPort ∧ serverPort < 2 ^ 16 := by
  unfold htons
  omega

/-- `server_connect`, for an address and a port that are set: where the socket connects, and
what is returned. -/
def serverConnect (serverIpAddress : CString) (serverPort : ℤ) :
    ConnectAnswer → List NetworkEvent × ℤ
  | .noSocket | .badAddress _ => ([], -1)
  | .refused _ => ([.connect (some serverIpAddress) (some (htons serverPort))], -1)
  | .connected sockfd => ([.connect (some serverIpAddress) (some (htons serverPort))], sockfd)

/-- How far a call has come. -/
inductive CallResult
  | returned (n : ℤ)
  /-- undefined behaviour -/
  | faulted
  /-- waits for the answer of a `write` -/
  | writing
deriving DecidableEq

/-- A call of `_network_send_buffer`, with the answers of `write` that it leaves. -/
structure BufferSent where
  events : List NetworkEvent
  result : CallResult
  answers : List WriteResult
deriving DecidableEq

def BufferSent.afterWrite (sockfd : ℤ) (bytes : List UInt8) (s : BufferSent) : BufferSent :=
  { s with events := .write sockfd bytes :: s.events }

/-- `_network_send_buffer`. `write` accepts no more bytes than it is given, and fails for a
descriptor that is negative. -/
def networkSendBuffer (sockfd : ℤ) (buffer : List UInt8) (writtenSize : ℕ)
    (answers : List WriteResult) : BufferSent :=
  if buffer.length ≤ writtenSize then ⟨[], .returned 0, answers⟩
  else if sockfd < 0 then ⟨[.write sockfd []], .returned (-1), answers⟩
  else
    match answers with
    | [] => ⟨[], .writing, []⟩
    | .accepted size :: answers =>
      let bytes := (buffer.drop writtenSize).take size
      (networkSendBuffer sockfd buffer (writtenSize + bytes.length) answers).afterWrite
        sockfd bytes
    | .interrupted :: answers =>
      (networkSendBuffer sockfd buffer writtenSize answers).afterWrite sockfd []
    | .failed :: answers => ⟨[.write sockfd []], .returned (-1), answers⟩

/-- `network_send_message` with what `message_to_buffer` answered. -/
def sendPacked (sockfd : ℤ) (answers : List WriteResult) :
    Except Failure (ℤ × Option (List UInt8)) → List NetworkEvent × CallResult
  | .error _ => ([], .faulted)
  | .ok (bufferSize, buffer) =>
    if bufferSize < 0 then ([], .returned (-1))
    else
      let size := networkSendBuffer sockfd (sizeBytes bufferSize) 0 answers
      match size.result with
      | .returned n =>
        if n < 0 then (size.events, .returned (-1))
        else
          let body := networkSendBuffer sockfd (buffer.getD []) 0 size.answers
          match body.result with
          | .returned n =>
            (size.events ++ body.events, .returned (if n ≠ 0 then -1 else 0))
          | result => (size.events ++ body.events, result)
      | result => (size.events, result)

/-- `network_send_message`, for a message that is not NULL. -/
def networkSendMessage (codec : MessageCodec) (sockfd : ℤ) (message : Message)
    (answers : List WriteResult) : List NetworkEvent × CallResult :=
  sendPacked sockfd answers (messageToBuffer codec (some ⟨some message⟩))

/-! ## The function -/

/-- `SERVER_ADDRESS_AND_PORT_MAX_LEN` -/
def serverAddressAndPortMaxLen : ℕ := 16 + 1 + 5 + 1

/-- `zk_get_backup_tree_server`, for the string that is stored in the znode with its
terminator. A string that does not fit is copied without one. -/
def zkGetBackupTreeServer : Option CString → Except Failure (Option CString)
  | none => .ok none
  | some stored =>
    if stored.bytes.length + 1 ≤ serverAddressAndPortMaxLen then .ok (some stored)
    else .error .fault

/-- What the task, the roles and the system are during a call. -/
structure ReplicateCall where
  codec : MessageCodec
  role : ServerRole
  /-- the string in the znode of the backup, if ZooKeeper answers with one -/
  znode : Option CString
  connecting : ConnectAnswer
  writes : List WriteResult
  /-- `task->op_code_and_args` -/
  opCodeAndArgs : Message

/-- What follows `network_send_message`. -/
def closeAfter (sockfd : ℤ) : List NetworkEvent × CallResult → List NetworkEvent × CallResult
  | (events, .returned n) => (events ++ [.close sockfd], .returned (if n < 0 then -1 else 0))
  | (events, result) => (events, result)

/-- What follows `server_connect`. -/
def replicateOn (c : ReplicateCall) (sockfd : ℤ) : List NetworkEvent × CallResult :=
  if sockfd < -1 then ([], .returned (-1))
  else
    match messageDup c.opCodeAndArgs with
    | none => ([.close sockfd], .returned (-1))
    | some request => closeAfter sockfd (networkSendMessage c.codec sockfd request c.writes)

/-- What follows `parse_address_port`. A variable that was not set must not be read. -/
def replicateTo (c : ReplicateCall) (outputs : AddressPort) : List NetworkEvent × CallResult :=
  match outputs.ipAddress, outputs.port with
  | some ipAddress, some port =>
    let (connects, sockfd) := serverConnect ipAddress port c.connecting
    let after := replicateOn c sockfd
    (connects ++ after.1, after.2)
  | _, _ => ([.connect none none], .faulted)

def replicateToBackupServer (c : ReplicateCall) : List NetworkEvent × CallResult :=
  if c.role = .backup then ([], .returned 0)
  else
    match zkGetBackupTreeServer c.znode with
    | .error _ => ([], .faulted)
    | .ok none => ([], .returned (-1))
    | .ok (some backupServer) =>
      match parseAddressPort (some backupServer) ⟨none, none⟩ with
      | .error _ => ([], .faulted)
      | .ok (outputs, parseResult) =>
        if parseResult < -1 then ([], .returned (-1)) else replicateTo c outputs

/-! ## Sending -/

def NetworkEvent.bytesTo (sockfd : ℤ) : NetworkEvent → List UInt8
  | .write fd bytes => if fd = sockfd then bytes else []
  | _ => []

/-- What was written to a descriptor. -/
def written (sockfd : ℤ) (events : List NetworkEvent) : List UInt8 :=
  events.flatMap (NetworkEvent.bytesTo sockfd)

theorem written_append (sockfd : ℤ) (events events' : List NetworkEvent) :
    written sockfd (events ++ events') = written sockfd events ++ written sockfd events' :=
  List.flatMap_append

theorem written_cons (sockfd : ℤ) (e : NetworkEvent) (events : List NetworkEvent) :
    written sockfd (e :: events) = e.bytesTo sockfd ++ written sockfd events :=
  List.flatMap_cons

/-- A descriptor is written to, and nothing else is done. -/
def WritesTo (sockfd : ℤ) (events : List NetworkEvent) : Prop :=
  ∀ e ∈ events, ∃ bytes, e = .write sockfd bytes

theorem WritesTo.append {sockfd : ℤ} {events events' : List NetworkEvent}
    (h : WritesTo sockfd events) (h' : WritesTo sockfd events') :
    WritesTo sockfd (events ++ events') := by
  intro e he
  rcases List.mem_append.1 he with he | he
  · exact h e he
  · exact h' e he

/-- `write` accepts at least one byte. -/
def WriteResult.accepts : WriteResult → Bool
  | .accepted size => 0 < size
  | _ => false

/-- The answers of `write` end, none is a failure, and fewer of them accept something than there
are bytes. -/
def TooFewAnswers (answers : List WriteResult) (size : ℕ) : Prop :=
  .failed ∉ answers ∧ answers.countP WriteResult.accepts < size

/-- The ways in which a loop that has these bytes left may end. -/
inductive SendsRest (sockfd : ℤ) (rest : List UInt8) (answers : List WriteResult)
    (s : BufferSent) : Prop
  | done (hresult : s.result = .returned 0) (hwritten : written sockfd s.events = rest)
    (hfailed : .failed ∈ answers → .failed ∈ s.answers)
    (hcount : answers.countP WriteResult.accepts
      ≤ rest.length + s.answers.countP WriteResult.accepts)
  | failed (hresult : s.result = .returned (-1))
    (hwritten : (written sockfd s.events).length < rest.length)
  | waits (hresult : s.result = .writing)
    (hwritten : (written sockfd s.events).length < rest.length)
    (hanswers : TooFewAnswers answers rest.length)

theorem written_afterWrite (sockfd : ℤ) (bytes : List UInt8) (s : BufferSent) :
    written sockfd (s.afterWrite sockfd bytes).events = bytes ++ written sockfd s.events := by
  show written sockfd (.write sockfd bytes :: s.events) = _
  rw [written_cons, NetworkEvent.bytesTo, if_pos rfl]

theorem WritesTo.afterWrite {sockfd : ℤ} {s : BufferSent} (h : WritesTo sockfd s.events)
    (bytes : List UInt8) : WritesTo sockfd (s.afterWrite sockfd bytes).events := by
  intro e he
  rcases List.mem_cons.1 he with rfl | he
  · exact ⟨bytes, rfl⟩
  · exact h e he

/-- An iteration in which `write` does not fail. -/
theorem SendsRest.afterWrite {sockfd : ℤ} {bytes rest : List UInt8} {answer : WriteResult}
    {answers : List WriteResult} {s : BufferSent} (hanswer : answer ≠ .failed)
    (hbytes : answer.accepts = true → 0 < bytes.length)
    (h : SendsRest sockfd rest answers s) :
    SendsRest sockfd (bytes ++ rest) (answer :: answers) (s.afterWrite sockfd bytes) := by
  have hcons : (answer :: answers).countP WriteResult.accepts
      ≤ bytes.length + answers.countP WriteResult.accepts := by
    by_cases haccepts : answer.accepts = true
    · have hpos := hbytes haccepts
      rw [List.countP_cons_of_pos haccepts]
      omega
    · rw [List.countP_cons_of_neg haccepts]
      omega
  have hfailed : .failed ∈ answer :: answers → .failed ∈ answers := by
    intro h
    rcases List.mem_cons.1 h with h | h
    · exact absurd h.symm hanswer
    · exact h
  have hwrite := written_afterWrite sockfd bytes s
  cases h with
  | done hresult hwritten hleft hcount =>
    refine .done hresult ?_ (fun h => hleft (hfailed h)) ?_
    · rw [hwrite, hwritten]
    · show _ ≤ _ + s.answers.countP WriteResult.accepts
      rw [List.length_append]
      omega
  | failed hresult hwritten =>
    refine .failed hresult ?_
    rw [hwrite, List.length_append, List.length_append]
    omega
  | waits hresult hwritten hanswers =>
    refine .waits hresult ?_ ⟨fun h => hanswers.1 (hfailed h), ?_⟩
    · rw [hwrite, List.length_append, List.length_append]
      omega
    · have := hanswers.2
      rw [List.length_append]
      omega

theorem SendsRest.result_cases {sockfd : ℤ} {rest : List UInt8} {answers : List WriteResult}
    {s : BufferSent} (h : SendsRest sockfd rest answers s) :
    s.result = .returned 0 ∨ s.result = .returned (-1) ∨ s.result = .writing := by
  cases h with
  | done hresult => exact Or.inl hresult
  | failed hresult => exact Or.inr (Or.inl hresult)
  | waits hresult => exact Or.inr (Or.inr hresult)

/-- A call that does not come to its end leaves what was to follow unsent. -/
theorem SendsRest.extend {sockfd : ℤ} {bytes : List UInt8} {answers : List WriteResult}
    {s : BufferSent} (h : SendsRest sockfd bytes answers s) (hresult : s.result ≠ .returned 0)
    (rest : List UInt8) : SendsRest sockfd (bytes ++ rest) answers s := by
  have hlength : bytes.length ≤ (bytes ++ rest).length := by
    rw [List.length_append]
    omega
  cases h with
  | done hdone => exact absurd hdone hresult
  | failed hresult hwritten => exact .failed hresult (by omega)
  | waits hresult hwritten hanswers =>
    exact .waits hresult (by omega) ⟨hanswers.1, lt_of_lt_of_le hanswers.2 hlength⟩

/-- Two calls, one after the other. -/
theorem SendsRest.append {sockfd : ℤ} {bytes rest : List UInt8} {answers : List WriteResult}
    {s s' : BufferSent} (h : SendsRest sockfd bytes answers s) (hdone : s.result = .returned 0)
    (h' : SendsRest sockfd rest s.answers s') :
    SendsRest sockfd (bytes ++ rest) answers { s' with events := s.events ++ s'.events } := by
  cases h with
  | failed hresult | waits hresult => exact absurd (hdone.symm.trans hresult) (by simp)
  | done hresult hwritten hfailed hcount =>
    have hboth : written sockfd (s.events ++ s'.events) = bytes ++ written sockfd s'.events := by
      rw [written_append, hwritten]
    have hlength := congrArg List.length hboth
    rw [List.length_append] at hlength
    cases h' with
    | done hresult' hwritten' hfailed' hcount' =>
      refine .done hresult' (by rw [hboth, hwritten']) (fun h => hfailed' (hfailed h)) ?_
      simp only [List.length_append]
      omega
    | failed hresult' hwritten' =>
      refine .failed hresult' ?_
      simp only [List.length_append]
      omega
    | waits hresult' hwritten' hanswers =>
      have hfew := hanswers.2
      refine .waits hresult' ?_ ⟨fun h => hanswers.1 (hfailed h), ?_⟩
      · simp only [List.length_append]
        omega
      · simp only [List.length_append]
        omega

theorem networkSendBuffer_done {sockfd : ℤ} {buffer : List UInt8} {writtenSize : ℕ}
    (h : buffer.length ≤ writtenSize) (answers : List WriteResult) :
    networkSendBuffer sockfd buffer writtenSize answers = ⟨[], .returned 0, answers⟩ := by
  unfold networkSendBuffer
  rw [if_pos h]

/-- `_network_send_buffer` on a connection. -/
theorem networkSendBuffer_sendsRest (sockfd : ℕ) (buffer : List UInt8)
    (answers : List WriteResult) (writtenSize : ℕ) :
    SendsRest sockfd (buffer.drop writtenSize) answers
        (networkSendBuffer sockfd buffer writtenSize answers) ∧
      WritesTo sockfd (networkSendBuffer sockfd buffer writtenSize answers).events := by
  have hnothing : WritesTo (sockfd : ℤ) [] := fun e he => absurd he List.not_mem_nil
  have hsockfd : ¬(sockfd : ℤ) < 0 := by omega
  induction answers generalizing writtenSize with
  | nil =>
    by_cases hdone : buffer.length ≤ writtenSize
    · rw [networkSendBuffer_done hdone, List.drop_eq_nil_of_le hdone]
      exact ⟨.done rfl rfl id (Nat.zero_le _), hnothing⟩
    · have hrest : 0 < (buffer.drop writtenSize).length := by
        rw [List.length_drop]
        omega
      rw [networkSendBuffer, if_neg hdone, if_neg hsockfd]
      exact ⟨.waits rfl hrest ⟨List.not_mem_nil, hrest⟩, hnothing⟩
  | cons answer answers ih =>
    by_cases hdone : buffer.length ≤ writtenSize
    · rw [networkSendBuffer_done hdone, List.drop_eq_nil_of_le hdone]
      exact ⟨.done rfl rfl id (Nat.le_add_left _ _), hnothing⟩
    · have hrest : 0 < (buffer.drop writtenSize).length := by
        rw [List.length_drop]
        omega
      cases answer with
      | accepted size =>
        -- what is accepted, and what the next iteration has left
        have hsplit : (buffer.drop writtenSize).take size ++ buffer.drop (writtenSize
            + ((buffer.drop writtenSize).take size).length) = buffer.drop writtenSize := by
          rw [← List.drop_drop]
          exact List.prefix_iff_eq_append.1 (List.take_prefix _ _)
        have hbytes : (WriteResult.accepted size).accepts = true →
            0 < ((buffer.drop writtenSize).take size).length := by
          intro haccepts
          have hsize : 0 < size := of_decide_eq_true haccepts
          rw [List.length_take]
          omega
        rcases ih (writtenSize + ((buffer.drop writtenSize).take size).length) with
          ⟨hsends, hevents⟩
        have hsends := hsends.afterWrite WriteResult.noConfusion hbytes
        rw [hsplit] at hsends
        rw [networkSendBuffer, if_neg hdone, if_neg hsockfd]
        exact ⟨hsends, hevents.afterWrite _⟩
      | interrupted =>
        rcases ih writtenSize with ⟨hsends, hevents⟩
        rw [networkSendBuffer, if_neg hdone, if_neg hsockfd]
        exact ⟨@SendsRest.afterWrite _ [] _ _ _ _ WriteResult.noConfusion Bool.noConfusion hsends,
          hevents.afterWrite _⟩
      | failed =>
        rw [networkSendBuffer, if_neg hdone, if_neg hsockfd]
        refine ⟨.failed rfl ?_, fun e he => ⟨[], List.mem_singleton.1 he⟩⟩
        simpa [NetworkEvent.bytesTo, written] using hrest

/-- `message_to_buffer` does not write past the block it allocates. -/
def PacksInBounds (codec : MessageCodec) (m : Message) : Prop :=
  messageToBuffer codec (some ⟨some m⟩) ≠ .error .fault

theorem messageStream_singleton (codec : MessageCodec) (m : Message) :
    messageStream codec [m] = sizeBytes (codec.pack m).length ++ codec.pack m := by
  rw [messageStream_cons, messageStream, List.map_nil, Frames.stream_nil, List.append_nil]

theorem length_messageStream (codec : MessageCodec) (m : Message) :
    (messageStream codec [m]).length = 4 + (codec.pack m).length := by
  rw [messageStream_singleton, List.length_append, length_sizeBytes]

/-- There is no buffer, or it is the packed message. -/
theorem PacksInBounds.messageToBuffer_cases {codec : MessageCodec} {m : Message}
    (h : PacksInBounds codec m) : messageToBuffer codec (some ⟨some m⟩) = .ok (-1, none) ∨
      messageToBuffer codec (some ⟨some m⟩)
        = .ok ((codec.pack m).length, some (codec.pack m)) := by
  have hwrap := toInt32_le (codec.pack m).length
  unfold PacksInBounds at h
  simp only [messageToBuffer, Option.bind_some] at h ⊢
  split_ifs at h ⊢ with hneg hlong
  · exact Or.inl rfl
  · exact absurd rfl h
  · rw [show toInt32 (codec.pack m).length = ((codec.pack m).length : ℤ) by omega]
    exact Or.inr rfl

theorem networkSendMessage_fault {codec : MessageCodec} {m : Message}
    (h : ¬PacksInBounds codec m) (sockfd : ℤ) (answers : List WriteResult) :
    networkSendMessage codec sockfd m answers = ([], .faulted) := by
  have hfault : messageToBuffer codec (some ⟨some m⟩) = .error .fault := by
    unfold PacksInBounds at h
    exact not_not.1 h
  rw [networkSendMessage, hfault, sendPacked]

/-- `network_send_message` on a connection: the ways in which it may end. -/
inductive SendsMessage (sockfd : ℤ) (frame : List UInt8) (answers : List WriteResult)
    (s : List NetworkEvent × CallResult) : Prop
  | done (hresult : s.2 = .returned 0) (hwritten : written sockfd s.1 = frame)
  | failed (hresult : s.2 = .returned (-1)) (hwritten : written sockfd s.1 ≠ frame)
  | waits (hresult : s.2 = .writing) (hwritten : written sockfd s.1 ≠ frame)
    (hanswers : TooFewAnswers answers frame.length)

theorem SendsRest.sends {sockfd : ℤ} {frame : List UInt8} {answers : List WriteResult}
    {s : BufferSent} (h : SendsRest sockfd frame answers s) :
    SendsMessage sockfd frame answers (s.events, s.result) := by
  -- bytes that are too few are not the frame
  have hshort : (written sockfd s.events).length < frame.length →
      written sockfd s.events ≠ frame := by
    intro hlt heq
    rw [heq] at hlt
    exact lt_irrefl _ hlt
  cases h with
  | done hresult hwritten hfailed hcount => exact .done hresult hwritten
  | failed hresult hwritten => exact .failed hresult (hshort hwritten)
  | waits hresult hwritten hanswers => exact .waits hresult (hshort hwritten) hanswers

theorem networkSendMessage_sends {codec : MessageCodec} {m : Message}
    (h : PacksInBounds codec m) (sockfd : ℕ) (answers : List WriteResult) :
    SendsMessage sockfd (messageStream codec [m]) answers
        (networkSendMessage codec sockfd m answers) ∧
      WritesTo sockfd (networkSendMessage codec sockfd m answers).1 := by
  rcases h.messageToBuffer_cases with hbuffer | hbuffer
  · rw [networkSendMessage, hbuffer, sendPacked, if_pos (by omega)]
    refine ⟨.failed rfl ?_, fun e he => absurd he List.not_mem_nil⟩
    intro hnil
    have hframe := length_messageStream codec m
    rw [← hnil] at hframe
    have hzero : 0 = 4 + (codec.pack m).length := hframe
    omega
  · have hnonneg : ¬((codec.pack m).length : ℤ) < 0 := by omega
    obtain ⟨hsize, hsizeEvents⟩ :=
      networkSendBuffer_sendsRest sockfd (sizeBytes (codec.pack m).length) answers 0
    rw [networkSendMessage, hbuffer, sendPacked, if_neg hnonneg, Option.getD_some,
      messageStream_singleton]
    rw [List.drop_zero] at hsize
    generalize networkSendBuffer sockfd (sizeBytes (codec.pack m).length) 0 answers = size
      at hsize hsizeEvents ⊢
    -- the four bytes of the size first, then the message with the answers that are left
    rcases hsize.result_cases with hresult | hresult | hresult
    · obtain ⟨hbody, hbodyEvents⟩ :=
        networkSendBuffer_sendsRest sockfd (codec.pack m) size.answers 0
      rw [List.drop_zero] at hbody
      simp only [hresult]
      generalize networkSendBuffer sockfd (codec.pack m) 0 size.answers = body
        at hbody hbodyEvents ⊢
      have hboth := hsizeEvents.append hbodyEvents
      have hsends := (hsize.append hresult hbody).sends
      rcases hbody.result_cases with hresult' | hresult' | hresult' <;>
        simp only [hresult'] at hsends ⊢ <;> exact ⟨hsends, hboth⟩
    all_goals
      have hsends := (hsize.extend (by simp [hresult]) (codec.pack m)).sends
      simp only [hresult] at hsends ⊢
      exact ⟨hsends, hsizeEvents⟩

/-- On a descriptor that is -1 nothing goes out. -/
theorem networkSendMessage_noConnection {codec : MessageCodec} {m : Message}
    (h : PacksInBounds codec m) (answers : List WriteResult) :
    (networkSendMessage codec (-1) m answers).2 = .returned (-1) := by
  have hloop : networkSendBuffer (-1) (sizeBytes (codec.pack m).length) 0 answers
      = ⟨[.write (-1) []], .returned (-1), answers⟩ := by
    unfold networkSendBuffer
    rw [if_neg (by rw [length_sizeBytes]; omega), if_pos (by omega)]
  rcases h.messageToBuffer_cases with hbuffer | hbuffer
  · rw [networkSendMessage, hbuffer, sendPacked, if_pos (by omega)]
  · have hnonneg : ¬((codec.pack m).length : ℤ) < 0 := by omega
    rw [networkSendMessage, hbuffer, sendPacked, if_neg hnonneg, hloop]
    rfl

/-! ## What a call should do -/

namespace ReplicateCall

variable (c : ReplicateCall)

/-- `parse_address_port` makes an address and a port of the string in the znode. -/
def Parses (ipAddress : CString) (port : ℤ) : Prop :=
  ∃ stored, c.znode = some stored ∧
    parseAddressPort (some stored) ⟨none, none⟩ = .ok (⟨some ipAddress, some port⟩, 0)

/-- The request was written as a whole to the server at the parsed address. -/
def Replicates : Prop :=
  ∃ (ipAddress : CString) (port : ℕ) (sockfd : ℕ) (request : Message), c.Parses ipAddress port ∧
    .connect (some ipAddress) (some port) ∈ (replicateToBackupServer c).1 ∧
    c.connecting = .connected sockfd ∧ messageDup c.opCodeAndArgs = some request ∧
    written sockfd (replicateToBackupServer c).1 = messageStream c.codec [request]

/-- The answers of `write` end before the request is written. -/
def Waits : Prop :=
  ∃ request, messageDup c.opCodeAndArgs = some request ∧
    TooFewAnswers c.writes (messageStream c.codec [request]).length

structure AnswersRightly : Prop where
  returns_zero : (replicateToBackupServer c).2 = .returned 0 ↔ c.role = .backup ∨ c.Replicates
  otherwise : (replicateToBackupServer c).2 = .returned 0 ∨
    (replicateToBackupServer c).2 = .returned (-1) ∨
    (replicateToBackupServer c).2 = .writing ∧ c.Waits
  connects_parsed : ∀ ipAddress port,
    .connect ipAddress port ∈ (replicateToBackupServer c).1 →
      ∃ (ip : CString) (p : ℕ), c.Parses ip p ∧ ipAddress = some ip ∧ port = some p
  uses_connected : ∀ sockfd : ℤ, (∃ bytes, .write sockfd bytes ∈ (replicateToBackupServer c).1) ∨
    .close sockfd ∈ (replicateToBackupServer c).1 →
      ∃ fd : ℕ, c.connecting = .connected fd ∧ sockfd = fd

/-- There is nothing to connect to, or there is an address with a port of 16 bits and the
connection is made. -/
def Connects : Prop :=
  c.role = .backup ∨ c.znode = none ∨
    ∃ stored ipAddress port sockfd, c.znode = some stored ∧
      stored.bytes.length + 1 ≤ serverAddressAndPortMaxLen ∧
      HoldsAddressPort stored ipAddress port ∧ 1 ≤ port ∧ port ≤ 65535 ∧
      c.connecting = .connected sockfd ∧
      ∀ request ∈ messageDup c.opCodeAndArgs, PacksInBounds c.codec request

variable {c}

theorem replicate_of_backup (h : c.role = .backup) :
    replicateToBackupServer c = ([], .returned 0) := by
  rw [replicateToBackupServer, if_pos h]

theorem replicate_of_none (hrole : c.role ≠ .backup) (h : c.znode = none) :
    replicateToBackupServer c = ([], .returned (-1)) := by
  rw [replicateToBackupServer, if_neg hrole, h]
  rfl

theorem replicate_of_long {stored : CString} (hrole : c.role ≠ .backup)
    (hznode : c.znode = some stored)
    (h : ¬stored.bytes.length + 1 ≤ serverAddressAndPortMaxLen) :
    replicateToBackupServer c = ([], .faulted) := by
  rw [replicateToBackupServer, if_neg hrole, hznode, zkGetBackupTreeServer, if_neg h]

section Stored

variable {stored : CString} (hrole : c.role ≠ .backup) (hznode : c.znode = some stored)
  (hfits : stored.bytes.length + 1 ≤ serverAddressAndPortMaxLen)

include hrole hznode hfits

theorem replicate_of_unparsed
    (h : parseAddressPort (some stored) ⟨none, none⟩ = .ok (⟨none, none⟩, -1)) :
    replicateToBackupServer c = ([.connect none none], .faulted) := by
  rw [replicateToBackupServer, if_neg hrole, hznode, zkGetBackupTreeServer, if_pos hfits]
  simp only [h]
  rfl

theorem replicate_of_parsed {ipAddress : CString} {port : ℤ}
    (h : HoldsAddressPort stored ipAddress port) :
    replicateToBackupServer c = replicateTo c ⟨some ipAddress, some port⟩ := by
  rw [replicateToBackupServer, if_neg hrole, hznode, zkGetBackupTreeServer, if_pos hfits]
  simp only [h.parse]
  rfl

end Stored

/-! ## After `server_connect` -/

/-- Only a connection is used. -/
def UsesOnly (sockfd : ℤ) (events : List NetworkEvent) : Prop :=
  ∀ e ∈ events, (∃ bytes, e = .write sockfd bytes) ∨ e = .close sockfd

/-- How a call goes on when it is connected, with what it does from then on. -/
inductive GoesOn (c : ReplicateCall) (sockfd : ℕ) (events : List NetworkEvent) :
    CallResult → Prop
  | replicated {request : Message} (hrequest : messageDup c.opCodeAndArgs = some request)
    (hwritten : written sockfd events = messageStream c.codec [request]) :
    GoesOn c sockfd events (.returned 0)
  | failed (hwritten : ∀ request ∈ messageDup c.opCodeAndArgs,
      written sockfd events ≠ messageStream c.codec [request]) :
    GoesOn c sockfd events (.returned (-1))
  | waits (hwaits : c.Waits) (hwritten : ∀ request ∈ messageDup c.opCodeAndArgs,
      written sockfd events ≠ messageStream c.codec [request]) :
    GoesOn c sockfd events .writing

theorem replicateTo_eq (c : ReplicateCall) (ipAddress : CString) (port : ℤ) :
    replicateTo c ⟨some ipAddress, some port⟩ =
      ((serverConnect ipAddress port c.connecting).1
          ++ (replicateOn c (serverConnect ipAddress port c.connecting).2).1,
        (replicateOn c (serverConnect ipAddress port c.connecting).2).2) := rfl

theorem replicateOn_connected (sockfd : ℕ)
    (hpacks : ∀ request ∈ messageDup c.opCodeAndArgs, PacksInBounds c.codec request) :
    UsesOnly sockfd (replicateOn c sockfd).1 ∧
      GoesOn c sockfd (replicateOn c sockfd).1 (replicateOn c sockfd).2 := by
  have hclose : written sockfd [.close sockfd] = [] := rfl
  rw [replicateOn, if_neg (by omega)]
  cases hrequest : messageDup c.opCodeAndArgs with
  | none =>
    refine ⟨fun e he => Or.inr (List.mem_singleton.1 he), .failed ?_⟩
    intro request h
    rw [hrequest] at h
    exact absurd h (Option.not_mem_none _)
  | some request =>
    obtain ⟨hsends, hwrites⟩ :=
      networkSendMessage_sends (hpacks request hrequest) sockfd c.writes
    dsimp only
    generalize networkSendMessage c.codec sockfd request c.writes = sent at hsends hwrites ⊢
    obtain ⟨events, result⟩ := sent
    have honly : UsesOnly sockfd events := fun e he => Or.inl (hwrites e he)
    have hclosed : UsesOnly sockfd (events ++ [.close sockfd]) := by
      intro e he
      rcases List.mem_append.1 he with he | he
      · exact honly e he
      · exact Or.inr (List.mem_singleton.1 he)
    have hwritten : written sockfd (events ++ [.close sockfd]) = written sockfd events := by
      rw [written_append, hclose, List.append_nil]
    -- the request of the call is the only one there is
    have hother : ∀ bytes, bytes ≠ messageStream c.codec [request] →
        ∀ request' ∈ messageDup c.opCodeAndArgs, bytes ≠ messageStream c.codec [request'] := by
      intro bytes hne request' h
      rw [hrequest, Option.mem_some] at h
      exact h ▸ hne
    cases hsends with
    | done hresult hframe =>
      obtain rfl : result = .returned 0 := hresult
      exact ⟨hclosed, .replicated hrequest (hwritten.trans hframe)⟩
    | failed hresult hframe =>
      obtain rfl : result = .returned (-1) := hresult
      refine ⟨hclosed, .failed (hother _ ?_)⟩
      show written sockfd (events ++ [.close sockfd]) ≠ _
      rw [hwritten]
      exact hframe
    | waits hresult hframe hanswers =>
      obtain rfl : result = .writing := hresult
      exact ⟨honly, .waits ⟨request, hrequest, hanswers⟩ (hother _ hframe)⟩

/-- Without a connection the call does not stop. -/
theorem replicateOn_refused (c : ReplicateCall) :
    .close (-1) ∈ (replicateOn c (-1)).1 ∨ (replicateOn c (-1)).2 = .faulted := by
  rw [replicateOn, if_neg (lt_irrefl _)]
  cases hrequest : messageDup c.opCodeAndArgs with
  | none => exact Or.inl List.mem_cons_self
  | some request =>
    dsimp only
    by_cases hpacks : PacksInBounds c.codec request
    · have hresult := networkSendMessage_noConnection hpacks c.writes
      generalize networkSendMessage c.codec (-1) request c.writes = sent at hresult ⊢
      obtain ⟨events, result⟩ := sent
      obtain rfl : result = .returned (-1) := hresult
      exact Or.inl (List.mem_append_right _ List.mem_cons_self)
    · rw [networkSendMessage_fault hpacks]
      exact Or.inr rfl

theorem replicateOn_fault {sockfd : ℤ} {request : Message} (hsockfd : ¬sockfd < -1)
    (hrequest : messageDup c.opCodeAndArgs = some request)
    (hpacks : ¬PacksInBounds c.codec request) : (replicateOn c sockfd).2 = .faulted := by
  rw [replicateOn, if_neg hsockfd, hrequest]
  dsimp only
  rw [networkSendMessage_fault hpacks]
  rfl

/-! ## When the answer is right -/

/-- Nothing is done on the network. -/
theorem answersRightly_of_silent {n : ℤ} (hcall : replicateToBackupServer c = ([], .returned n))
    (hn : n = 0 ∧ c.role = .backup ∨ n = -1 ∧ c.role ≠ .backup) : c.AnswersRightly := by
  have hevents : (replicateToBackupServer c).1 = [] := congrArg Prod.fst hcall
  have hresult : (replicateToBackupServer c).2 = .returned n := congrArg Prod.snd hcall
  have hnot : ¬c.Replicates := by
    intro ⟨_, _, _, _, _, hconnect, _⟩
    rw [hevents] at hconnect
    exact absurd hconnect List.not_mem_nil
  refine ⟨?_, ?_, ?_, ?_⟩
  · rw [hresult]
    rcases hn with ⟨rfl, hrole⟩ | ⟨rfl, hrole⟩ <;> simp [hrole, hnot]
  · rw [hresult]
    rcases hn with ⟨rfl, _⟩ | ⟨rfl, _⟩ <;> simp
  · intro ipAddress port h
    rw [hevents] at h
    exact absurd h List.not_mem_nil
  · intro sockfd h
    rw [hevents] at h
    simp at h

theorem UsesOnly.connect_notMem {sockfd : ℤ} {events : List NetworkEvent}
    (h : UsesOnly sockfd events) (ipAddress : Option CString) (port : Option ℕ) :
    .connect ipAddress port ∉ events := by
  intro hmem
  rcases h _ hmem with ⟨bytes, heq⟩ | heq
  · exact NetworkEvent.noConfusion heq
  · exact NetworkEvent.noConfusion heq

theorem UsesOnly.sockfd_eq {sockfd fd : ℤ} {events : List NetworkEvent}
    (h : UsesOnly sockfd events)
    (hused : (∃ bytes, .write fd bytes ∈ events) ∨ .close fd ∈ events) : fd = sockfd := by
  rcases hused with ⟨bytes, hmem⟩ | hmem
  · rcases h _ hmem with ⟨bytes', heq⟩ | heq
    · exact (NetworkEvent.write.inj heq).1
    · exact NetworkEvent.noConfusion heq
  · rcases h _ hmem with ⟨bytes, heq⟩ | heq
    · exact NetworkEvent.noConfusion heq
    · exact NetworkEvent.close.inj heq

section Connected

variable {ipAddress : CString} {port sockfd : ℕ} {events : List NetworkEvent}
  {result : CallResult}
  (hcall : replicateToBackupServer c
    = (.connect (some ipAddress) (some port) :: events, result))
  (hparses : c.Parses ipAddress port) (hconnecting : c.connecting = .connected sockfd)

include hcall hparses hconnecting

theorem replicates_iff_of_connected : c.Replicates ↔
    ∃ request, messageDup c.opCodeAndArgs = some request ∧
      written sockfd events = messageStream c.codec [request] := by
  have hwritten : written sockfd (replicateToBackupServer c).1 = written sockfd events := by
    rw [hcall, written_cons]
    rfl
  constructor
  · intro ⟨_, _, fd, request, _, _, hfd, hrequest, hframe⟩
    obtain rfl : sockfd = fd := by
      rw [hconnecting] at hfd
      exact ConnectAnswer.connected.inj hfd
    exact ⟨request, hrequest, hwritten.symm.trans hframe⟩
  · intro ⟨request, hrequest, hframe⟩
    refine ⟨ipAddress, port, sockfd, request, hparses, ?_, hconnecting, hrequest,
      hwritten.trans hframe⟩
    rw [hcall]
    exact List.mem_cons_self

/-- The four parts, each read off the way in which the call goes on. -/
theorem answersRightly_of_goesOn (hrole : c.role ≠ .backup) (honly : UsesOnly sockfd events)
    (hgoes : GoesOn c sockfd events result) : c.AnswersRightly := by
  have hresult : (replicateToBackupServer c).2 = result := congrArg Prod.snd hcall
  refine ⟨?_, ?_, ?_, ?_⟩
  · rw [hresult, replicates_iff_of_connected hcall hparses hconnecting]
    cases hgoes with
    | replicated hrequest hframe => exact iff_of_true rfl (Or.inr ⟨_, hrequest, hframe⟩)
    | failed hframe | waits _ hframe =>
      -- the bytes that went out are not the frame, so the request was not replicated
      refine iff_of_false (by simp) ?_
      intro h
      rcases h with h | ⟨request, hrequest, h⟩
      · exact hrole h
      · exact hframe request hrequest h
  · rw [hresult]
    cases hgoes with
    | replicated hrequest hframe => exact Or.inl rfl
    | failed hframe => exact Or.inr (Or.inl rfl)
    | waits hwaits hframe => exact Or.inr (Or.inr ⟨rfl, hwaits⟩)
  · intro ip p h
    rw [hcall] at h
    rcases List.mem_cons.1 h with h | h
    · obtain ⟨rfl, rfl⟩ := NetworkEvent.connect.inj h
      exact ⟨ipAddress, port, hparses, rfl, rfl⟩
    · exact absurd h (honly.connect_notMem ip p)
  · intro fd h
    rw [hcall] at h
    simp only [List.mem_cons, reduceCtorEq, false_or] at h
    exact ⟨sockfd, hconnecting, honly.sockfd_eq h⟩

end Connected

theorem answersRightly_of_connected {stored ipAddress : CString} {port : ℤ} {sockfd : ℕ}
    (hrole : c.role ≠ .backup) (hznode : c.znode = some stored)
    (hfits : stored.bytes.length + 1 ≤ serverAddressAndPortMaxLen)
    (hholds : HoldsAddressPort stored ipAddress port) (hport : (htons port : ℤ) = port)
    (hconnecting : c.connecting = .connected sockfd)
    (hpacks : ∀ request ∈ messageDup c.opCodeAndArgs, PacksInBounds c.codec request) :
    c.AnswersRightly := by
  obtain ⟨honly, hgoes⟩ := replicateOn_connected sockfd hpacks
  have hcall := (replicate_of_parsed hrole hznode hfits hholds).trans
    (replicateTo_eq c ipAddress port)
  have hparses : c.Parses ipAddress (htons port) := by
    rw [hport]
    exact ⟨stored, hznode, hholds.parse ⟨none, none⟩⟩
  rw [hconnecting] at hcall
  exact answersRightly_of_goesOn hcall hparses hconnecting hrole honly hgoes

/-- Undefined behaviour is not an answer. -/
theorem AnswersRightly.not_faulted (h : c.AnswersRightly) :
    (replicateToBackupServer c).2 ≠ .faulted := by
  intro hfault
  have hother := h.otherwise
  rw [hfault] at hother
  simp at hother

/-- The port connected to is the parsed one, so that `htons` has not cut it. -/
theorem AnswersRightly.port_fits (h : c.AnswersRightly) {stored ipAddress : CString} {port : ℤ}
    (hholds : HoldsAddressPort stored ipAddress port) (hznode : c.znode = some stored)
    (hconnects : .connect (some ipAddress) (some (htons port)) ∈ (replicateToBackupServer c).1) :
    1 ≤ port ∧ port ≤ 65535 := by
  obtain ⟨ip, p, ⟨stored', hznode', hparse⟩, -, hp⟩ := h.connects_parsed _ _ hconnects
  obtain rfl : stored = stored' := Option.some.inj (hznode.symm.trans hznode')
  have hparsed := (hholds.parse ⟨none, none⟩).symm.trans hparse
  obtain ⟨-, rfl⟩ : ipAddress = ip ∧ port = p := by simpa using hparsed
  have hne := hholds.port_ne_zero
  have hfits := (htons_eq_iff p).1 (by exact_mod_cast (Option.some.inj hp))
  omega

theorem AnswersRightly.connects (h : c.AnswersRightly) : c.Connects := by
  by_cases hrole : c.role = .backup
  · exact Or.inl hrole
  · cases hznode : c.znode with
    | none => exact Or.inr (Or.inl hznode)
    | some stored =>
      by_cases hfits : stored.bytes.length + 1 ≤ serverAddressAndPortMaxLen
      · rcases holds_or_refuses stored ⟨none, none⟩ with ⟨ipAddress, port, hholds⟩ | hrefuses
        · have hcall := (replicate_of_parsed hrole hznode hfits hholds).trans
            (replicateTo_eq c ipAddress port)
          have hfault : (replicateOn c (serverConnect ipAddress port c.connecting).2).2
              ≠ .faulted := by
            intro hfault
            apply h.not_faulted
            rw [hcall]
            exact hfault
          have hconnected : ∃ sockfd, c.connecting = .connected sockfd := by
            -- otherwise -1 is closed as a descriptor
            by_contra hnone
            have hrefused : (serverConnect ipAddress port c.connecting).2 = -1 := by
              cases hconnecting : c.connecting with
              | connected sockfd => exact absurd ⟨sockfd, hconnecting⟩ hnone
              | noSocket | badAddress _ | refused _ => rfl
            rw [hrefused] at hcall hfault
            have hclose := (replicateOn_refused c).resolve_right hfault
            obtain ⟨fd, hfd, _⟩ := h.uses_connected (-1)
              (Or.inr (hcall ▸ List.mem_append_right _ hclose))
            exact hnone ⟨fd, hfd⟩
          obtain ⟨sockfd, hconnecting⟩ := hconnected
          rw [hconnecting] at hcall hfault
          obtain ⟨hlow, hhigh⟩ := h.port_fits hholds hznode (hcall ▸ List.mem_cons_self)
          refine Or.inr (Or.inr ⟨stored, ipAddress, port, sockfd, hznode, hfits, hholds,
            hlow, hhigh, hconnecting, ?_⟩)
          intro request hrequest
          by_contra hpacks
          refine hfault (replicateOn_fault ?_ hrequest hpacks)
          show ¬(sockfd : ℤ) < -1
          omega
        · -- an address that was not set is passed on
          have hcall := replicate_of_unparsed hrole hznode hfits hrefuses
          exact absurd (congrArg Prod.snd hcall) h.not_faulted
      · exact absurd (congrArg Prod.snd (replicate_of_long hrole hznode hfits)) h.not_faulted

end ReplicateCall

/-- The answer is right, and the network is used as it should be, exactly when there is nothing
to connect to, or the port has 16 bits and the connection is made. -/
theorem replicateToBackupServer_answers_iff (c : ReplicateCall) :
    c.AnswersRightly ↔ c.Connects := by
  constructor
  · exact ReplicateCall.AnswersRightly.connects
  · intro h
    by_cases hrole : c.role = .backup
    · exact ReplicateCall.answersRightly_of_silent (ReplicateCall.replicate_of_backup hrole)
        (Or.inl ⟨rfl, hrole⟩)
    · rcases h with h | h | ⟨stored, ipAddress, port, sockfd, hznode, hfits, hholds, hlow, hhigh,
        hconnecting, hpacks⟩
      · exact absurd h hrole
      · exact ReplicateCall.answersRightly_of_silent (ReplicateCall.replicate_of_none hrole h)
          (Or.inr ⟨rfl, hrole⟩)
      · exact ReplicateCall.answersRightly_of_connected hrole hznode hfits hholds
          ((htons_eq_iff port).2 (by omega)) hconnecting hpacks

/-- The backup has registered "1.2.3.4:5" and does not accept connections any more. -/
def backupGone : ReplicateCall where
  codec := ⟨fun _ => [], fun _ => none⟩
  role := .primary
  znode := some ⟨[49, 46, 50, 46, 51, 46, 52, 58, 53], by decide⟩
  connecting := .refused 3
  writes := []
  opCodeAndArgs := messageCreate

/-- A backup has registered "1.2.3.4:65541". -/
def backupPortCut : ReplicateCall where
  codec := ⟨fun _ => [], fun _ => none⟩
  role := .primary
  znode := some ⟨[49, 46, 50, 46, 51, 46, 52, 58, 54, 53, 53, 52, 49], by decide⟩
  connecting := .connected 3
  writes := [.accepted 4]
  opCodeAndArgs := messageCreate

/-- In the first case -1 is written to and closed; in the second the request goes to port 5. -/
theorem replicateToBackupServer_refused :
    replicateToBackupServer backupGone =
        ([.connect (some ⟨[49, 46, 50, 46, 51, 46, 52], by decide⟩) (some 5), .write (-1) [],
          .close (-1)], .returned (-1)) ∧
      replicateToBackupServer backupPortCut =
        ([.connect (some ⟨[49, 46, 50, 46, 51, 46, 52], by decide⟩) (some 5),
          .write 3 [0, 0, 0, 0], .close 3], .returned 0) ∧
      ¬∀ c : ReplicateCall, c.AnswersRightly := by
  have hcall : replicateToBackupServer backupGone =
      ([.connect (some ⟨[49, 46, 50, 46, 51, 46, 52], by decide⟩) (some 5), .write (-1) [],
        .close (-1)], .returned (-1)) := by decide
  refine ⟨hcall, by decide, ?_⟩
  intro h
  obtain ⟨fd, _, hfd⟩ := (h backupGone).uses_connected (-1) (Or.inr (by rw [hcall]; simp))
  omega

end ReplicatedTree
