import ReplicatedTree.Lib.Frames
import ReplicatedTree.Serialization

/-!
# Messages on a connection (`inet-private.c`, `message_to_buffer`, `buffer_to_message`)

One side of a connection calls `network_send_message` for one message after another, the other
side calls `network_receive_message` again and again. Both loop over partial transfers: an
action of a side is one call of `write` or `read`, with what that call answers, or the step out
of a loop, so every list of actions is one way to cut the bytes into chunks, to interrupt the
calls and to interleave the two sides. `malloc` is taken to succeed, also for size 0, unless
the size is negative.
-/

namespace ReplicatedTree

/-! ## Buffers -/

/-- `message__pack` and `message__unpack`. -/
structure MessageCodec where
  pack : Message → List UInt8
  unpack : List UInt8 → Option Message

/-- `struct message_t`; the pointer in it may be NULL. -/
structure MessageT where
  msg : Option Message
deriving DecidableEq

/-- The size returned, and the block stored unless there was nothing to pack or `malloc`
refused. -/
def messageToBuffer (codec : MessageCodec) (message : Option MessageT) :
    Except Failure (ℤ × Option (List UInt8)) :=
  match message.bind MessageT.msg with
  | none => .ok (-1, none)
  | some msg =>
    let packed := codec.pack msg
    let bufferSize := toInt32 packed.length
    if bufferSize < 0 then .ok (-1, none)
    -- the packed message is longer than the block
    else if bufferSize.toNat < packed.length then .error .fault
    else .ok (bufferSize, some packed)

/-- `message__unpack` is not checked: the pointer stored may be NULL. -/
def bufferToMessage (codec : MessageCodec) (buffer : List UInt8) (bufferSize : ℤ) :
    Option MessageT :=
  if bufferSize < 0 then none else some ⟨codec.unpack buffer⟩

/-- The bytes of `htonl(size)`. -/
def sizeBytes (size : ℤ) : List UInt8 := (intBytes size).reverse

/-- `ntohl` of the bytes that were read. -/
def readSizeBytes (bytes : List UInt8) : Option ℤ := readInt bytes.reverse

/-- The body of the frame at the head of the bytes, if it is complete and its size is not
negative. -/
def frameBody (bytes : List UInt8) : Option (List UInt8) :=
  if bytes.length < 4 then none
  else
    (readSizeBytes (bytes.take 4)).bind fun messageSize =>
      if messageSize < 0 ∨ (bytes.drop 4).length < messageSize.toNat then none
      else some ((bytes.drop 4).take messageSize.toNat)

/-- What `network_receive_message` returns when these bytes arrive and then the connection is
closed. -/
def networkReceiveMessage (codec : MessageCodec) (bytes : List UInt8) : Option MessageT :=
  (frameBody bytes).bind fun body => bufferToMessage codec body body.length

/-! ## Transfers -/

/-- What a call of `write` answers. -/
inductive WriteResult
  | accepted (size : ℕ)
  /-- -1 with `EINTR` -/
  | interrupted
  /-- -1 with another error -/
  | failed
deriving DecidableEq

/-- What a call of `read` answers. -/
inductive ReadResult
  | chunk (size : ℕ)
  /-- -1 with `EINTR` -/
  | interrupted
  /-- 0 -/
  | closed
  /-- -1 with another error -/
  | failed
deriving DecidableEq

/-- An iteration of `_network_send_buffer`: the bytes that went out, and `written_size` unless
the function gives up. -/
def sendChunk (buffer : List UInt8) (writtenSize : ℕ) :
    WriteResult → Option (List UInt8 × Option ℕ)
  | .accepted size =>
    if writtenSize < buffer.length ∧ writtenSize + size ≤ buffer.length then
      some ((buffer.drop writtenSize).take size, some (writtenSize + size))
    else none
  | .interrupted => if writtenSize < buffer.length then some ([], some writtenSize) else none
  | .failed => if writtenSize < buffer.length then some ([], none) else none

/-- An iteration of `_network_read_buffer`: what the buffer holds up to `read_size`, unless
the function gives up. `available` is what has arrived, and `closed` says that nothing will
follow. -/
def readChunk (bufferSize : ℕ) (buffer available : List UInt8) (closed : Bool) :
    ReadResult → Option (Option (List UInt8))
  | .chunk size =>
    if 0 < size ∧ buffer.length + size ≤ bufferSize ∧ size ≤ available.length then
      some (some (buffer ++ available.take size))
    else none
  | .interrupted => if buffer.length < bufferSize then some (some buffer) else none
  | .closed =>
    if buffer.length < bufferSize ∧ closed = true ∧ available = [] then some none else none
  | .failed => if buffer.length < bufferSize then some none else none

/-! ## The two sides -/

/-- Where `network_send_message` stands. -/
inductive SenderPc
  /-- between two calls -/
  | idle
  /-- sends the size of the packed message -/
  | sendSize (packed : List UInt8) (writtenSize : ℕ)
  /-- sends the packed message -/
  | sendBody (packed : List UInt8) (writtenSize : ℕ)
  /-- has returned -1 -/
  | failed
deriving DecidableEq

/-- Where `network_receive_message` stands. -/
inductive ReceiverPc
  /-- between two calls -/
  | idle
  /-- reads the size -/
  | readSize (buffer : List UInt8)
  /-- reads a message of the size -/
  | readBody (messageSize : ℤ) (buffer : List UInt8)
  /-- has returned NULL -/
  | stopped
deriving DecidableEq

structure Link where
  /-- the messages not sent yet -/
  toSend : List Message
  sender : SenderPc
  /-- all bytes that `write` has accepted -/
  sent : List UInt8
  /-- how many of them `read` has returned -/
  consumed : ℕ
  /-- whether the sender has closed the connection -/
  closed : Bool
  receiver : ReceiverPc
  /-- what `network_receive_message` has returned, oldest first -/
  returned : List (Option MessageT)
deriving DecidableEq

def linkInit (messages : List Message) : Link :=
  ⟨messages, .idle, [], 0, false, .idle, []⟩

inductive LinkAction
  /-- `network_send_message` is called for the next message -/
  | send
  | write (result : WriteResult)
  /-- the sender leaves a loop -/
  | sendNext
  /-- the sender closes the connection -/
  | close
  /-- `network_receive_message` is called -/
  | receive
  | read (result : ReadResult)
  /-- the receiver leaves a loop -/
  | receiveNext
deriving DecidableEq

namespace Link

/-- With what `message_to_buffer` answered. -/
def startSending (c : Link) (rest : List Message) :
    Except Failure (ℤ × Option (List UInt8)) → Option Link
  | .ok (_, some packed) => some { c with toSend := rest, sender := .sendSize packed 0 }
  | .ok (_, none) => some { c with toSend := rest, sender := .failed }
  | .error _ => none

def send (codec : MessageCodec) (c : Link) : Option Link :=
  match c.sender, c.toSend with
  | .idle, msg :: rest => c.startSending rest (messageToBuffer codec (some ⟨some msg⟩))
  | _, _ => none

def write (c : Link) (result : WriteResult) : Option Link :=
  match c.sender with
  | .sendSize packed writtenSize =>
    (sendChunk (sizeBytes packed.length) writtenSize result).map fun (bytes, writtenSize) =>
      { c with sent := c.sent ++ bytes, sender := writtenSize.elim .failed (.sendSize packed) }
  | .sendBody packed writtenSize =>
    (sendChunk packed writtenSize result).map fun (bytes, writtenSize) =>
      { c with sent := c.sent ++ bytes, sender := writtenSize.elim .failed (.sendBody packed) }
  | _ => none

def sendNext (c : Link) : Option Link :=
  match c.sender with
  | .sendSize packed writtenSize =>
    if writtenSize < (sizeBytes packed.length).length then none
    else some { c with sender := .sendBody packed 0 }
  | .sendBody packed writtenSize =>
    if writtenSize < packed.length then none else some { c with sender := .idle }
  | _ => none

def receive (c : Link) : Option Link :=
  match c.receiver with
  | .idle => some { c with receiver := .readSize [] }
  | _ => none

/-- What has arrived and was not read. -/
def available (c : Link) : List UInt8 := c.sent.drop c.consumed

/-- `network_receive_message` returns. -/
def finish (c : Link) (message : Option MessageT) : Link :=
  { c with
    returned := c.returned ++ [message]
    receiver := if message.isSome then .idle else .stopped }

def read (c : Link) (result : ReadResult) : Option Link :=
  match c.receiver with
  | .readSize buffer =>
    (readChunk 4 buffer c.available c.closed result).map fun
      | some buffer' => { c with
          consumed := c.consumed + (buffer'.length - buffer.length)
          receiver := .readSize buffer' }
      | none => c.finish none
  | .readBody messageSize buffer =>
    (readChunk messageSize.toNat buffer c.available c.closed result).map fun
      | some buffer' => { c with
          consumed := c.consumed + (buffer'.length - buffer.length)
          receiver := .readBody messageSize buffer' }
      | none => c.finish none
  | _ => none

def receiveNext (codec : MessageCodec) (c : Link) : Option Link :=
  match c.receiver with
  | .readSize buffer =>
    if buffer.length < 4 then none
    else
      (readSizeBytes buffer).map fun messageSize =>
        if messageSize < 0 then c.finish none
        else { c with receiver := .readBody messageSize [] }
  | .readBody messageSize buffer =>
    if buffer.length < messageSize.toNat then none
    else some (c.finish (bufferToMessage codec buffer messageSize))
  | _ => none

end Link

/-- What an action does; the sender does nothing after it has closed the connection. -/
def linkStep (codec : MessageCodec) (c : Link) (action : LinkAction) :
    Option Link :=
  match action with
  | .send => if c.closed then none else c.send codec
  | .write result => if c.closed then none else c.write result
  | .sendNext => if c.closed then none else c.sendNext
  | .close => some { c with closed := true }
  | .receive => c.receive
  | .read result => c.read result
  | .receiveNext => c.receiveNext codec

/-- A call of `read` or `write` fails for another reason than an interruption. -/
def LinkAction.Fails : LinkAction → Prop
  | .write .failed | .read .failed => True
  | _ => False

instance LinkAction.instDecidableFails : (a : LinkAction) → Decidable a.Fails
  | .write .failed | .read .failed => isTrue trivial
  | .write (.accepted _) | .write .interrupted | .read (.chunk _) | .read .interrupted
  | .read .closed | .send | .sendNext | .close | .receive | .receiveNext => isFalse id

end ReplicatedTree
