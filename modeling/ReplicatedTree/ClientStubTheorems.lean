import ReplicatedTree.ClientStub
import ReplicatedTree.MessageWire
import ReplicatedTree.Replies

/-!
# Malformed replies — theorems about `ClientStub`

`buffer_to_message` wraps whatever `message__unpack` returns, and no stub function tests the
pointer inside the wrapper. So a call survives a reply exactly if the reply stops before it has
a body, or has one that is a valid encoding (`malformed_reply_iff`), in whatever chunks it
arrives (`ReceivesReply`).
-/

namespace ReplicatedTree

open Transition

variable {codec : MessageCodec} {exchange : Exchange}
  {reply : TreeServer → Message → Option (List UInt8)}

/-! ## Exchanges -/

/-- A call of `network_receive_message` returns the message, from bytes that are all that comes;
`read` hands them over in chunks and may be interrupted. -/
def Receives (codec : MessageCodec) (bytes : List UInt8) (message : Option MessageT) : Prop :=
  ∃ (c c' : Link) (actions : List LinkAction), c.receiver = .idle ∧ c.closed = true ∧
    c.available = bytes ∧ (∀ a ∈ actions, a.OfReceiver ∧ ¬ a.Fails) ∧
    run (linkStep codec) c actions = some c' ∧ c'.returned = c.returned ++ [message]

/-- What comes back on the exchange, unless the request could not be sent, are the bytes of the
reply. -/
def ReceivesReply (codec : MessageCodec) (reply : TreeServer → Message → Option (List UInt8))
    (exchange : Exchange) : Prop :=
  ∀ server request, match reply server request with
    | none => exchange server request = .ok none
    | some bytes => ∃ message, Receives codec bytes message ∧
      exchange server request = .ok message

/-- The chunks do not matter. -/
theorem Receives.message_eq {bytes : List UInt8} {message : Option MessageT}
    (h : Receives codec bytes message) : message = networkReceiveMessage codec bytes := by
  obtain ⟨c, c', actions, hidle, hclosed, rfl, hactions, hrun, hreturned⟩ := h
  rcases receive_anyBytes hidle hclosed hactions hrun with hsame | hpre
  · rw [hsame] at hreturned
    exact absurd (congrArg List.length hreturned) (by simp)
  · rw [hreturned] at hpre
    have heq := hpre.eq_of_length (by simp)
    exact (List.singleton_inj.1 (List.append_cancel_left heq)).symm

theorem ReceivesReply.eq (h : ReceivesReply codec reply exchange) (server : TreeServer)
    (request : Message) : exchange server request = receiveReply codec reply server request := by
  have hreply := h server request
  unfold receiveReply
  cases hbytes : reply server request with
  | none =>
    rw [hbytes] at hreply
    exact hreply
  | some bytes =>
    rw [hbytes] at hreply
    obtain ⟨message, hmessage, hexchange⟩ := hreply
    rw [hexchange, hmessage.message_eq]
    rfl

/-! ## Bodies -/

/-- The body of the frame that answers a call, if the request is sent and a frame comes back. -/
def RtreeCall.replyBody (reply : TreeServer → Message → Option (List UInt8)) (call : RtreeCall) :
    Option (List UInt8) :=
  call.request.bind fun request =>
    (receivingServer request.opCode).bind fun server => (reply server request).bind frameBody

theorem readInt_lt {bytes : List UInt8} {n : ℤ} (h : readInt bytes = some n) : n < 2 ^ 31 := by
  unfold readInt at h
  split at h
  · obtain rfl := Option.some.inj h
    exact Int.bmod_lt (by decide)
  · exact absurd h (by simp)

/-- The size of a body is an `int`. -/
theorem length_of_frameBody {bytes body : List UInt8} (h : frameBody bytes = some body) :
    body.length < 2 ^ 31 := by
  unfold frameBody at h
  split_ifs at h
  rcases Option.bind_eq_some_iff.1 h with ⟨messageSize, hsize, hbody⟩
  split_ifs at hbody
  obtain rfl := Option.some.inj hbody
  have hlt := readInt_lt hsize
  have hle := List.length_take_le messageSize.toNat (bytes.drop 4)
  omega

theorem bufferToMessage_body (codec : MessageCodec) (body : List UInt8) :
    bufferToMessage codec body body.length = some ⟨codec.unpack body⟩ := by
  rw [bufferToMessage, if_neg (by omega)]

/-- What `network_send_receive` returns: the wrapped message of the body. -/
theorem networkSendReceive_reply (hexchange : ReceivesReply codec reply exchange)
    {call : RtreeCall} {request : Message} (h : call.request = some request) :
    networkSendReceive exchange request
      = .ok ((call.replyBody reply).map fun body => ⟨codec.unpack body⟩) := by
  unfold networkSendReceive RtreeCall.replyBody
  rw [h, Option.bind_some]
  cases receivingServer request.opCode with
  | none => rfl
  | some server =>
    simp only [Option.bind_some, hexchange.eq, receiveReply]
    cases reply server request with
    | none => rfl
    | some bytes =>
      simp only [Option.bind_some, networkReceiveMessage, bufferToMessage_body]
      cases frameBody bytes <;> rfl

/-! ## Results -/

/-- A call that gets a reply returns the content of a message of the expected kind, or its error
value, and bytes that are no message have none. -/
structure HandlesReply (codec : MessageCodec) (exchange : Exchange)
    (reply : TreeServer → Message → Option (List UInt8)) (call : RtreeCall) : Prop where
  returned : ∃ result, call.run exchange = .ok result ∧
    (result = call.errorValue ∨ ∃ body ∈ call.replyBody reply, ∃ msg,
      codec.unpack body = some msg ∧ msg.opCode ≠ opError ∧
        call.expected msg.content = some (.ok result))
  unpack_checked : ∀ body ∈ call.replyBody reply, codec.unpack body = none →
    bufferToMessage codec body body.length = none

/-- A key array that arrived in a frame has room for its closing NULL. -/
theorem msgToKeys_received (hkeys : codec.KeysFit) {body : List UInt8} {msg : Message}
    {keys : Option KeysMessage} (hlen : body.length < 2 ^ 31)
    (hunpack : codec.unpack body = some msg) (hcontent : msg.content = .keys keys) :
    ∃ result, msgToKeys keys = .ok result := by
  cases keys with
  | none => exact ⟨none, rfl⟩
  | some ks =>
    have hfit := hkeys body msg ks hunpack hcontent
    exact ⟨_, msgToKeys_some (by omega)⟩

/-- Reading a content that arrived does not fail. -/
theorem RtreeCall.expected_ok (hkeys : codec.KeysFit) {call : RtreeCall} {body : List UInt8}
    {msg : Message} (hlen : body.length < 2 ^ 31) (hunpack : codec.unpack body = some msg)
    {answer : Except Failure call.Result} (h : call.expected msg.content = some answer) :
    ∃ result, answer = .ok result := by
  -- only `rtree_get_keys` does more than copy
  have hint : ∀ {answer : Except Failure ℤ}, expectIntResult msg.content = some answer →
      ∃ result, answer = .ok result := by
    intro answer h
    unfold expectIntResult at h
    split at h
    · exact ⟨_, (Option.some.inj h).symm⟩
    · exact absurd h (by simp)
  have hid : ∀ {answer : Except Failure ℤ}, expectOpId msg.content = some answer →
      ∃ result, answer = .ok result := by
    intro answer h
    unfold expectOpId at h
    split at h
    · exact ⟨_, (Option.some.inj h).symm⟩
    · exact absurd h (by simp)
  cases call with
  | put | del => exact hid h
  | size | height | verify => exact hint h
  | get key =>
    have h : expectValue msg.content = some answer := h
    unfold expectValue at h
    split at h
    · exact ⟨_, (Option.some.inj h).symm⟩
    · exact absurd h (by simp)
  | getKeys =>
    have h : expectKeys msg.content = some answer := h
    unfold expectKeys at h
    split at h
    · rename_i keys hcontent
      obtain ⟨result, hresult⟩ := msgToKeys_received hkeys hlen hunpack hcontent
      exact ⟨result, (Option.some.inj h).symm.trans hresult⟩
    · exact absurd h (by simp)

/-- What a call makes of a body that is a valid encoding. -/
theorem readResponse_message (hkeys : codec.KeysFit) {call : RtreeCall} {body : List UInt8}
    {msg : Message} (hlen : body.length < 2 ^ 31) (hunpack : codec.unpack body = some msg) :
    ∃ result, readResponse call.errorValue call.expected (some ⟨some msg⟩) = .ok result ∧
      (result = call.errorValue ∨ msg.opCode ≠ opError ∧
        call.expected msg.content = some (.ok result)) := by
  by_cases herror : msg.opCode = opError
  · refine ⟨call.errorValue, ?_, Or.inl rfl⟩
    simp only [readResponse, if_pos herror]
  · cases hexpected : call.expected msg.content with
    | none =>
      refine ⟨call.errorValue, ?_, Or.inl rfl⟩
      simp only [readResponse, if_neg herror, hexpected, Option.getD_none]
    | some answer =>
      obtain ⟨result, rfl⟩ := RtreeCall.expected_ok hkeys hlen hunpack hexpected
      exact ⟨result, readResponse_expected herror hexpected, Or.inr ⟨herror, rfl⟩⟩

theorem length_of_replyBody {call : RtreeCall} {body : List UInt8}
    (h : call.replyBody reply = some body) : body.length < 2 ^ 31 := by
  rcases Option.bind_eq_some_iff.1 h with ⟨request, -, h⟩
  rcases Option.bind_eq_some_iff.1 h with ⟨server, -, h⟩
  rcases Option.bind_eq_some_iff.1 h with ⟨bytes, -, h⟩
  exact length_of_frameBody h

/-- A body that is no message is a fault in every stub function. -/
theorem run_malformed (hexchange : ReceivesReply codec reply exchange) {call : RtreeCall}
    {body : List UInt8} (hbody : call.replyBody reply = some body)
    (hunpack : codec.unpack body = none) : call.run exchange = .error .fault := by
  rcases Option.bind_eq_some_iff.1 hbody with ⟨request, hrequest, -⟩
  rw [RtreeCall.run_eq, hrequest]
  dsimp only
  rw [networkSendReceive_reply hexchange hrequest, hbody, Option.map_some, hunpack]
  rfl

/-- **Malformed replies.** In whatever chunks the reply arrives, a stub function returns the
content of a well-formed reply of the expected kind or its error value, without using an absent
message, if and only if the reply has no body or one that `message__unpack` accepts. -/
theorem malformed_reply_iff (hkeys : codec.KeysFit)
    (hexchange : ReceivesReply codec reply exchange) (call : RtreeCall) :
    HandlesReply codec exchange reply call ↔
      ∀ body ∈ call.replyBody reply, codec.unpack body ≠ none := by
  constructor
  · intro h body hbody hunpack
    obtain ⟨result, hresult, -⟩ := h.returned
    exact absurd ((run_malformed hexchange hbody hunpack).symm.trans hresult) (by simp)
  · intro h
    refine ⟨?_, fun body hbody hunpack => absurd hunpack (h body hbody)⟩
    rw [RtreeCall.run_eq]
    cases hrequest : call.request with
    | none => exact ⟨call.errorValue, rfl, Or.inl rfl⟩
    | some request =>
      dsimp only
      rw [networkSendReceive_reply hexchange hrequest]
      cases hbody : call.replyBody reply with
      | none => exact ⟨call.errorValue, rfl, Or.inl rfl⟩
      | some body =>
        obtain ⟨msg, hunpack⟩ := Option.ne_none_iff_exists'.1 (h body hbody)
        rcases readResponse_message hkeys (length_of_replyBody hbody) hunpack with
          ⟨result, hread, hresult⟩
        refine ⟨result, ?_, hresult.imp_right fun hcontent => ⟨body, rfl, msg, hunpack, hcontent⟩⟩
        rw [Option.map_some, hunpack]
        exact hread

/-- The reply to `rtree_size` with the number 5. -/
def sizeReply : List UInt8 := [0, 0, 0, 5, 8, 11, 144, 3, 10]

/-- It arrives in four chunks, and `read` is interrupted once. -/
def sizeReplyReads : List LinkAction :=
  [.receive, .read (.chunk 3), .read .interrupted, .read (.chunk 1), .receiveNext,
    .read (.chunk 2), .read (.chunk 3), .receiveNext]

theorem receives_sizeReply :
    Receives messageWire sizeReply (networkReceiveMessage messageWire sizeReply) := by
  have hrun : ∃ c' ∈ run (linkStep messageWire) ⟨[], .idle, sizeReply, 0, true, .idle, []⟩
      sizeReplyReads, c'.returned = [networkReceiveMessage messageWire sizeReply] := by
    decide +kernel
  obtain ⟨c', hc', hreturned⟩ := hrun
  have hactions : ∀ a ∈ sizeReplyReads, a.OfReceiver ∧ ¬ a.Fails := by
    simp [sizeReplyReads, LinkAction.OfReceiver, LinkAction.Fails]
  exact ⟨⟨[], .idle, sizeReply, 0, true, .idle, []⟩, c', sizeReplyReads, rfl, rfl, rfl, hactions,
    hc', by rw [hreturned, List.nil_append]⟩

theorem malformed_reply_size : HandlesReply messageWire
    (receiveReply messageWire fun _ _ => some sizeReply) (fun _ _ => some sizeReply) .size := by
  have hexchange : ReceivesReply messageWire (fun _ _ => some sizeReply)
      (receiveReply messageWire fun _ _ => some sizeReply) :=
    fun _ _ => ⟨networkReceiveMessage messageWire sizeReply, receives_sizeReply,
      by simp only [receiveReply, Option.bind_some]⟩
  exact (malformed_reply_iff messageWire_keysFit hexchange .size).2 (by decide +kernel)

/-- A reply of one byte that is no message crashes `rtree_size`. -/
theorem rtreeSize_malformed :
    rtreeSize (receiveReply messageWire fun _ _ => some [0, 0, 0, 1, 255]) = .error .fault ∧
      ¬ HandlesReply messageWire (receiveReply messageWire fun _ _ => some [0, 0, 0, 1, 255])
        (fun _ _ => some [0, 0, 0, 1, 255]) .size := by
  have hfault : rtreeSize (receiveReply messageWire fun _ _ => some [0, 0, 0, 1, 255])
      = .error .fault := by decide +kernel
  refine ⟨hfault, fun h => ?_⟩
  obtain ⟨result, hresult, -⟩ := h.returned
  exact absurd (hfault.symm.trans hresult) (by simp)

end ReplicatedTree
