import ReplicatedTree.Inet
import ReplicatedTree.SerializationTheorems

/-!
# Sender and receiver of a connection — theorems about `Inet`

The bytes of a connection are the stream of the frames of all messages. The sender has put a
part of it on the connection and still has the rest (`Sending`); the receiver has read the
frames of the messages it returned and a part of the next one (`Delivers`). Neither depends on
how the bytes were cut into chunks.
-/

namespace ReplicatedTree

open Frames

/-! ## Frames -/

def sizeHeader : Header UInt8 where
  width := 4
  encode := fun n => sizeBytes n
  width_pos := by decide
  length_encode := fun n => by simp [sizeBytes]

theorem readSizeBytes_sizeBytes {n : ℕ} (h : n < 2 ^ 31) :
    readSizeBytes (sizeBytes n) = some (n : ℤ) := by
  unfold readSizeBytes sizeBytes
  rw [List.reverse_reverse]
  have hread := readInt_intBytes h []
  rwa [List.append_nil] at hread

theorem length_sizeBytes (n : ℤ) : (sizeBytes n).length = 4 := by simp [sizeBytes]

/-- The bytes that carry the messages. -/
def messageStream (codec : MessageCodec) (messages : List Message) : List UInt8 :=
  stream sizeHeader (messages.map codec.pack)

theorem messageStream_cons (codec : MessageCodec) (m : Message) (ms : List Message) :
    messageStream codec (m :: ms)
      = sizeBytes (codec.pack m).length ++ (codec.pack m ++ messageStream codec ms) := by
  unfold messageStream
  rw [List.map_cons, stream_cons, Frames.frame, List.append_assoc]
  rfl

theorem messageStream_append (codec : MessageCodec) (as bs : List Message) :
    messageStream codec (as ++ bs) = messageStream codec as ++ messageStream codec bs := by
  unfold messageStream
  rw [List.map_append, stream_append]

theorem messageToBuffer_eq {codec : MessageCodec} {m : Message}
    (h : (codec.pack m).length < 2 ^ 31) : messageToBuffer codec (some ⟨some m⟩)
      = .ok (((codec.pack m).length : ℤ), some (codec.pack m)) := by
  have hint : toInt32 (codec.pack m).length = ((codec.pack m).length : ℤ) :=
    toInt32_of_lt (by omega) (by omega)
  unfold messageToBuffer
  simp only [Option.bind_some, hint]
  rw [if_neg (by omega), if_neg (by omega)]

/-- The `int` size of a message that is too long is negative. -/
theorem messageToBuffer_tooLong {codec : MessageCodec} {m : Message}
    (hge : 2 ^ 31 ≤ (codec.pack m).length) (hlt : (codec.pack m).length < 2 ^ 32) :
    messageToBuffer codec (some ⟨some m⟩) = .ok (-1, none) := by
  have hneg : toInt32 (codec.pack m).length < 0 := by
    unfold toInt32
    rw [Int.bmod_eq_emod]
    split_ifs <;> omega
  unfold messageToBuffer
  simp only [Option.bind_some]
  rw [if_pos hneg]

/-! ## The sender -/

section Sender

variable {codec : MessageCodec} {messages : List Message} {c c' : Link} {bytes : List UInt8}

/-- What is still to be written of the message being sent. -/
def SenderPc.rest : SenderPc → List UInt8
  | .idle | .failed => []
  | .sendSize packed writtenSize => (sizeBytes packed.length).drop writtenSize ++ packed
  | .sendBody packed writtenSize => packed.drop writtenSize

def Link.unsent (codec : MessageCodec) (c : Link) : List UInt8 :=
  c.sender.rest ++ messageStream codec c.toSend

/-- The loops that are still to be left. -/
def SenderPc.phase : SenderPc → ℕ
  | .idle | .failed => 0
  | .sendSize _ _ => 2
  | .sendBody _ _ => 1

/-- What the sender has still to do; a byte counts twice, for it will be read as well. -/
def Link.sendWork (codec : MessageCodec) (c : Link) : ℕ :=
  2 * (c.unsent codec).length + 3 * c.toSend.length + c.sender.phase

/-- A step of the sender: these bytes move from those not sent to those sent. -/
structure Sends (codec : MessageCodec) (c c' : Link) (bytes : List UInt8) : Prop where
  sent_eq : c'.sent = c.sent ++ bytes
  unsent_eq : c.unsent codec = bytes ++ c'.unsent codec
  toSend_subset : ∀ m ∈ c'.toSend, m ∈ c.toSend
  not_failed : c'.sender ≠ .failed
  consumed_eq : c'.consumed = c.consumed
  receiver_eq : c'.receiver = c.receiver
  returned_eq : c'.returned = c.returned
  closed_eq : c'.closed = c.closed
  moves : c' = c ∨ c'.sendWork codec + bytes.length < c.sendWork codec

theorem Link.send_eq {msg : Message} {rest : List Message} {size : ℤ} {packed : List UInt8}
    (hidle : c.sender = .idle) (htoSend : c.toSend = msg :: rest)
    (hbuffer : messageToBuffer codec (some ⟨some msg⟩) = .ok (size, some packed)) :
    c.send codec = some { c with toSend := rest, sender := .sendSize packed 0 } := by
  unfold Link.send
  rw [hidle, htoSend]
  dsimp only
  rw [hbuffer]
  rfl

theorem Link.send_sends (hsmall : ∀ m ∈ c.toSend, (codec.pack m).length < 2 ^ 31)
    (hstep : c.send codec = some c') : Sends codec c c' [] := by
  cases hidle : c.sender with
  | idle =>
    cases htoSend : c.toSend with
    | nil =>
      rw [Link.send, hidle, htoSend] at hstep
      exact absurd hstep (by simp)
    | cons msg rest =>
      rw [htoSend] at hsmall
      have hbuffer := messageToBuffer_eq (hsmall msg List.mem_cons_self)
      rw [Link.send_eq hidle htoSend hbuffer] at hstep
      obtain rfl := Option.some.inj hstep
      have hunsent : c.unsent codec = Link.unsent codec
          { c with toSend := rest, sender := .sendSize (codec.pack msg) 0 } := by
        rw [Link.unsent, Link.unsent, hidle, htoSend, messageStream_cons]
        simp only [SenderPc.rest, List.drop_zero, List.nil_append, List.append_assoc]
      refine ⟨(List.append_nil _).symm, hunsent, ?_, by simp, rfl, rfl, rfl, rfl, Or.inr ?_⟩
      · intro m hm
        rw [htoSend]
        exact List.mem_cons_of_mem _ hm
      · unfold Link.sendWork
        rw [← hunsent, hidle, htoSend, List.length_cons, List.length_nil]
        simp only [SenderPc.phase]
        omega
  | sendSize | sendBody | failed =>
    rw [Link.send, hidle] at hstep
    exact absurd hstep (by simp)

theorem sendChunk_some {buffer : List UInt8} {writtenSize : ℕ} {next : Option ℕ}
    {result : WriteResult} (hresult : result ≠ .failed)
    (h : sendChunk buffer writtenSize result = some (bytes, next)) :
    ∃ size, next = some size ∧ bytes ++ buffer.drop size = buffer.drop writtenSize ∧
      writtenSize + bytes.length = size := by
  cases result with
  | accepted size =>
    rw [sendChunk] at h
    split_ifs at h with hsize
    obtain ⟨rfl, rfl⟩ := Prod.mk.inj (Option.some.inj h)
    refine ⟨writtenSize + size, rfl, ?_, ?_⟩
    · rw [← List.drop_drop, List.take_append_drop]
    · rw [List.length_take, List.length_drop]
      omega
  | interrupted =>
    rw [sendChunk] at h
    split_ifs at h
    obtain ⟨rfl, rfl⟩ := Prod.mk.inj (Option.some.inj h)
    exact ⟨writtenSize, rfl, rfl, rfl⟩
  | failed => exact absurd rfl hresult

/-- A chunk goes out in either loop. -/
theorem Sends.of_chunk {pc : SenderPc} (hnot : pc ≠ .failed)
    (hrest : c.sender.rest = bytes ++ pc.rest) (hphase : pc.phase = c.sender.phase)
    (hsame : bytes = [] → pc = c.sender) :
    Sends codec c { c with sent := c.sent ++ bytes, sender := pc } bytes := by
  have hunsent : c.unsent codec = bytes ++ Link.unsent codec
      { c with sent := c.sent ++ bytes, sender := pc } := by
    rw [Link.unsent, Link.unsent, hrest, List.append_assoc]
  refine ⟨rfl, hunsent, fun m hm => hm, hnot, rfl, rfl, rfl, rfl, ?_⟩
  by_cases hnil : bytes = []
  · left
    rw [hsame hnil, hnil, List.append_nil]
  · right
    have hpos := List.length_pos_of_ne_nil hnil
    unfold Link.sendWork
    rw [hunsent, List.length_append, ← hphase]
    dsimp only
    omega

theorem Link.write_sends {result : WriteResult} (hresult : result ≠ .failed)
    (hstep : c.write result = some c') : ∃ bytes, Sends codec c c' bytes := by
  unfold Link.write at hstep
  split at hstep
  · -- the loop that writes the size
    rename_i packed writtenSize hpc
    obtain ⟨⟨bytes, next⟩, hchunk, rfl⟩ := Option.map_eq_some_iff.1 hstep
    rcases sendChunk_some hresult hchunk with ⟨size, rfl, hbytes, hsize⟩
    refine ⟨bytes, Sends.of_chunk (by simp) ?_ ?_ ?_⟩
    · rw [hpc]
      simp only [SenderPc.rest, Option.elim_some, ← hbytes, List.append_assoc]
    · rw [hpc]
      rfl
    · rintro rfl
      rw [hpc, ← hsize]
      rfl
  · -- the loop that writes the message
    rename_i packed writtenSize hpc
    obtain ⟨⟨bytes, next⟩, hchunk, rfl⟩ := Option.map_eq_some_iff.1 hstep
    rcases sendChunk_some hresult hchunk with ⟨size, rfl, hbytes, hsize⟩
    refine ⟨bytes, Sends.of_chunk (by simp) ?_ ?_ ?_⟩
    · rw [hpc]
      exact hbytes.symm
    · rw [hpc]
      rfl
    · rintro rfl
      rw [hpc, ← hsize]
      rfl
  · exact absurd hstep (by simp)

/-- A loop is left when nothing remains to be written in it. -/
theorem Sends.of_loop {pc : SenderPc} (hnot : pc ≠ .failed) (hrest : c.sender.rest = pc.rest)
    (hphase : pc.phase < c.sender.phase) : Sends codec c { c with sender := pc } [] := by
  have hunsent : c.unsent codec = Link.unsent codec { c with sender := pc } := by
    rw [Link.unsent, Link.unsent, hrest]
  refine ⟨(List.append_nil _).symm, hunsent, fun m hm => hm, hnot, rfl, rfl, rfl, rfl, Or.inr ?_⟩
  unfold Link.sendWork
  rw [← hunsent, List.length_nil]
  dsimp only
  omega

theorem Link.sendNext_sends (hstep : c.sendNext = some c') : Sends codec c c' [] := by
  unfold Link.sendNext at hstep
  split at hstep
  · rename_i packed writtenSize hpc
    split_ifs at hstep with hdone
    obtain rfl := Option.some.inj hstep
    apply Sends.of_loop (by simp)
    · rw [hpc]
      simp only [SenderPc.rest, List.drop_zero, List.drop_eq_nil_of_le (Nat.le_of_not_lt hdone),
        List.nil_append]
    · rw [hpc]
      exact Nat.lt_succ_self 1
  · rename_i packed writtenSize hpc
    split_ifs at hstep with hdone
    obtain rfl := Option.some.inj hstep
    apply Sends.of_loop (by simp)
    · rw [hpc]
      exact List.drop_eq_nil_of_le (Nat.le_of_not_lt hdone)
    · rw [hpc]
      exact Nat.lt_succ_self 0
  · exact absurd hstep (by simp)

/-- The bytes sent and the bytes not sent yet are the stream of all messages. -/
structure Sending (codec : MessageCodec) (messages : List Message) (c : Link) : Prop where
  bytes : messageStream codec messages = c.sent ++ c.unsent codec
  small : ∀ m ∈ c.toSend, (codec.pack m).length < 2 ^ 31
  not_failed : c.sender ≠ .failed

theorem Sending.step (h : Sending codec messages c) (hstep : Sends codec c c' bytes) :
    Sending codec messages c' := by
  refine ⟨?_, fun m hm => h.small m (hstep.toSend_subset m hm), hstep.not_failed⟩
  rw [h.bytes, hstep.sent_eq, hstep.unsent_eq, List.append_assoc]

/-- A sender that cannot go on has sent everything. -/
theorem Sending.unsent_of_blocked (h : Sending codec messages c)
    (hsend : ∀ c', c.send codec = some c' → c' = c)
    (hwrite : ∀ c', c.write (.accepted 1) = some c' → c' = c)
    (hnext : ∀ c', c.sendNext = some c' → c' = c) : c.unsent codec = [] := by
  cases hpc : c.sender with
  | idle =>
    cases htoSend : c.toSend with
    | nil =>
      rw [Link.unsent, hpc, htoSend]
      rfl
    | cons msg rest =>
      have hsmall := h.small
      rw [htoSend] at hsmall
      have hbuffer := messageToBuffer_eq (hsmall msg List.mem_cons_self)
      have heq := congrArg Link.sender (hsend _ (Link.send_eq hpc htoSend hbuffer))
      exact absurd (heq.trans hpc) (by simp)
  | sendSize packed writtenSize =>
    rw [Link.sendNext, hpc] at hnext
    rw [Link.write, hpc] at hwrite
    dsimp only at hnext hwrite
    -- one byte of the size could be written, or the loop left
    by_cases hroom : writtenSize < (sizeBytes packed.length).length
    · rw [sendChunk, if_pos ⟨hroom, hroom⟩, Option.map_some] at hwrite
      have heq := congrArg Link.sender (hwrite _ rfl)
      exact absurd (heq.trans hpc) (by simp)
    · rw [if_neg hroom] at hnext
      have heq := congrArg Link.sender (hnext _ rfl)
      exact absurd (heq.trans hpc) (by simp)
  | sendBody packed writtenSize =>
    rw [Link.sendNext, hpc] at hnext
    rw [Link.write, hpc] at hwrite
    dsimp only at hnext hwrite
    by_cases hroom : writtenSize < packed.length
    · rw [sendChunk, if_pos ⟨hroom, hroom⟩, Option.map_some] at hwrite
      have heq := congrArg Link.sender (hwrite _ rfl)
      exact absurd (heq.trans hpc) (by simp)
    · rw [if_neg hroom] at hnext
      have heq := congrArg Link.sender (hnext _ rfl)
      exact absurd (heq.trans hpc) (by simp)
  | failed => exact absurd hpc h.not_failed

end Sender

/-! ## The receiver -/

section Receiver

variable {codec : MessageCodec} {messages delivered remaining : List Message} {c c' : Link}

/-- What has been read of the frame being received. -/
def ReceiverPc.current : ReceiverPc → List UInt8
  | .idle | .stopped => []
  | .readSize buffer => buffer
  | .readBody messageSize buffer => sizeBytes messageSize ++ buffer

/-- The size read is the one of the next message. -/
def ReceiverPc.Ok (codec : MessageCodec) (remaining : List Message) : ReceiverPc → Prop
  | .idle => True
  | .readSize buffer => buffer.length ≤ 4
  | .readBody messageSize buffer => ∃ m rest, remaining = m :: rest ∧
      messageSize = (codec.pack m).length ∧ buffer.length ≤ (codec.pack m).length
  | .stopped => False

/-- Fewer bytes than the frame of the next message. -/
def Incomplete (codec : MessageCodec) (remaining : List Message) (bytes : List UInt8) : Prop :=
  bytes = [] ∨ ∃ m rest, remaining = m :: rest ∧ bytes.length < 4 + (codec.pack m).length

/-- The calls of `network_receive_message` returned these messages. -/
def received (delivered : List Message) : List (Option MessageT) :=
  delivered.map fun m => some ⟨some m⟩

/-- The messages delivered so far have been read, and a part of the next one. -/
structure Reading (codec : MessageCodec) (c : Link) (delivered remaining : List Message) :
    Prop where
  returned : c.returned = received delivered
  bytes : c.sent.take c.consumed = messageStream codec delivered ++ c.receiver.current
  ok : c.receiver.Ok codec remaining

/-- The sender has closed the connection; the frames that were complete have been delivered,
and then NULL was returned. -/
structure Ended (codec : MessageCodec) (c : Link) (delivered remaining : List Message) :
    Prop where
  stopped : c.receiver = .stopped
  closed : c.closed = true
  returned : c.returned = received delivered ++ [none]
  bytes : ∃ cut, c.sent = messageStream codec delivered ++ cut ∧ Incomplete codec remaining cut

structure Delivers (codec : MessageCodec) (messages : List Message) (c : Link)
    (delivered remaining : List Message) : Prop where
  messages_eq : messages = delivered ++ remaining
  consumed_le : c.consumed ≤ c.sent.length
  state : Reading codec c delivered remaining ∨ Ended codec c delivered remaining

theorem readChunk_some {bufferSize : ℕ} {buffer buffer' available : List UInt8} {closed : Bool}
    {result : ReadResult} (h : readChunk bufferSize buffer available closed result
      = some (some buffer')) : ∃ chunk, buffer' = buffer ++ chunk ∧ chunk <+: available ∧
        (buffer'.length ≤ bufferSize ∨ chunk = []) := by
  cases result with
  | chunk size =>
    rw [readChunk] at h
    split_ifs at h with hsize
    obtain rfl := Option.some.inj (Option.some.inj h)
    refine ⟨available.take size, rfl, List.take_prefix _ _, Or.inl ?_⟩
    rw [List.length_append, List.length_take]
    omega
  | interrupted =>
    rw [readChunk] at h
    split_ifs at h
    obtain rfl := Option.some.inj (Option.some.inj h)
    exact ⟨[], (List.append_nil _).symm, List.nil_prefix, Or.inr rfl⟩
  | closed =>
    rw [readChunk] at h
    split_ifs at h
    exact absurd (Option.some.inj h) (by simp)
  | failed =>
    rw [readChunk] at h
    split_ifs at h
    exact absurd (Option.some.inj h) (by simp)

theorem readChunk_none {bufferSize : ℕ} {buffer available : List UInt8} {closed : Bool}
    {result : ReadResult} (hresult : result ≠ .failed)
    (h : readChunk bufferSize buffer available closed result = some none) :
    buffer.length < bufferSize ∧ closed = true ∧ available = [] := by
  cases result with
  | chunk size =>
    rw [readChunk] at h
    split_ifs at h
    exact absurd (Option.some.inj h) (by simp)
  | interrupted =>
    rw [readChunk] at h
    split_ifs at h
    exact absurd (Option.some.inj h) (by simp)
  | closed =>
    rw [readChunk] at h
    split_ifs at h with hend
    exact hend
  | failed => exact absurd rfl hresult

/-- The bytes of a chunk move from those available to those consumed. -/
theorem take_consumed {sent chunk : List UInt8} {consumed : ℕ} (hle : consumed ≤ sent.length)
    (hchunk : chunk <+: sent.drop consumed) :
    sent.take (consumed + chunk.length) = sent.take consumed ++ chunk ∧
      consumed + chunk.length ≤ sent.length := by
  have hlen := hchunk.length_le
  rw [List.length_drop] at hlen
  refine ⟨?_, by omega⟩
  rw [List.take_add, ← List.prefix_iff_eq_take.1 hchunk]

/-- What is to come is what was sent and not read, and what was not sent. -/
theorem Reading.stream_eq (h : Reading codec c delivered remaining)
    (hs : Sending codec messages c) (hmessages : messages = delivered ++ remaining) :
    messageStream codec remaining
      = c.receiver.current ++ (c.available ++ c.unsent codec) := by
  have hbytes := hs.bytes
  rw [hmessages, messageStream_append, ← List.take_append_drop c.consumed c.sent, h.bytes,
    List.append_assoc, List.append_assoc] at hbytes
  exact List.append_cancel_left hbytes

def ReceiverPc.push (chunk : List UInt8) : ReceiverPc → ReceiverPc
  | .readSize buffer => .readSize (buffer ++ chunk)
  | .readBody messageSize buffer => .readBody messageSize (buffer ++ chunk)
  | pc => pc

theorem ReceiverPc.current_push {pc : ReceiverPc} {chunk : List UInt8}
    (h : pc ≠ .idle) (h' : pc ≠ .stopped) : (pc.push chunk).current = pc.current ++ chunk := by
  cases pc with
  | idle => exact absurd rfl h
  | stopped => exact absurd rfl h'
  | readSize buffer => rfl
  | readBody messageSize buffer => exact (List.append_assoc _ _ _).symm

/-- The steps up to the next message. -/
def ReceiverPc.phase : ReceiverPc → ℕ
  | .idle => 3
  | .readSize _ => 2
  | .readBody _ _ => 1
  | .stopped => 0

/-- A call of `read` returns a chunk, or finds the end of the connection. -/
theorem Link.read_some {result : ReadResult} (hresult : result ≠ .failed)
    (hok : c.receiver.Ok codec remaining) (hstep : c.read result = some c') :
    (∃ chunk, chunk <+: c.available ∧ c' = { c with
        consumed := c.consumed + chunk.length
        receiver := c.receiver.push chunk } ∧
      c.receiver ≠ .idle ∧ c.receiver ≠ .stopped ∧ c'.receiver.Ok codec remaining) ∨
    (c' = c.finish none ∧ c.closed = true ∧ c.available = [] ∧ 0 < c.receiver.phase ∧
      (remaining ≠ [] → Incomplete codec remaining c.receiver.current)) := by
  unfold Link.read at hstep
  split at hstep
  · rename_i buffer hpc
    rw [hpc] at hok
    obtain ⟨next, hchunk, rfl⟩ := Option.map_eq_some_iff.1 hstep
    cases next with
    | some buffer' =>
      rcases readChunk_some hchunk with ⟨chunk, rfl, hpre, hlen⟩
      refine Or.inl ⟨chunk, hpre, ?_, by simp [hpc], by simp [hpc], ?_⟩
      · simp [hpc, ReceiverPc.push]
      · show (buffer ++ chunk).length ≤ 4
        rcases hlen with hlen | rfl
        · exact hlen
        · rw [List.append_nil]
          exact hok
    | none =>
      obtain ⟨hlt, hclosed, havailable⟩ := readChunk_none hresult hchunk
      refine Or.inr ⟨rfl, hclosed, havailable, by simp [hpc, ReceiverPc.phase], fun hne => ?_⟩
      rcases List.exists_cons_of_ne_nil hne with ⟨m, rest, hremaining⟩
      refine Or.inr ⟨m, rest, hremaining, ?_⟩
      rw [hpc]
      show buffer.length < _
      omega
  · rename_i messageSize buffer hpc
    rw [hpc] at hok
    rcases hok with ⟨m, rest, hremaining, hsize, hle⟩
    obtain ⟨next, hchunk, rfl⟩ := Option.map_eq_some_iff.1 hstep
    cases next with
    | some buffer' =>
      rcases readChunk_some hchunk with ⟨chunk, rfl, hpre, hlen⟩
      refine Or.inl ⟨chunk, hpre, ?_, by simp [hpc], by simp [hpc], ?_⟩
      · simp [hpc, ReceiverPc.push]
      · refine ⟨m, rest, hremaining, hsize, ?_⟩
        rcases hlen with hlen | rfl
        · omega
        · rw [List.append_nil]
          exact hle
    | none =>
      obtain ⟨hlt, hclosed, havailable⟩ := readChunk_none hresult hchunk
      refine Or.inr ⟨rfl, hclosed, havailable, by simp [hpc, ReceiverPc.phase],
        fun _ => Or.inr ⟨m, rest, hremaining, ?_⟩⟩
      rw [hpc]
      show (sizeBytes messageSize ++ buffer).length < _
      rw [List.length_append, length_sizeBytes]
      omega
  · exact absurd hstep (by simp)

theorem Delivers.read {result : ReadResult} (hresult : result ≠ .failed)
    (hs : Sending codec messages c) (h : Delivers codec messages c delivered remaining)
    (hstep : c.read result = some c') : Delivers codec messages c' delivered remaining := by
  rcases h.state with hreading | hended
  · rcases Link.read_some hresult hreading.ok hstep with
      ⟨chunk, hpre, rfl, hidle, hstopped, hok⟩ | ⟨rfl, hclosed, havailable, -, hincomplete⟩
    · obtain ⟨htake, hle⟩ := take_consumed h.consumed_le hpre
      refine ⟨h.messages_eq, hle, Or.inl ⟨hreading.returned, ?_, hok⟩⟩
      show c.sent.take (c.consumed + chunk.length) = _ ++ (c.receiver.push chunk).current
      rw [htake, hreading.bytes, ReceiverPc.current_push hidle hstopped, List.append_assoc]
    · refine ⟨h.messages_eq, h.consumed_le, Or.inr ⟨rfl, hclosed, ?_, ?_⟩⟩
      · show c.returned ++ [none] = _
        rw [hreading.returned]
      · refine ⟨c.receiver.current, ?_, ?_⟩
        · -- nothing is left to read, so all that was sent was consumed
          show c.sent = _
          rw [← hreading.bytes, List.take_of_length_le]
          exact List.drop_eq_nil_iff.1 havailable
        · have hstream := hreading.stream_eq hs h.messages_eq
          cases remaining with
          | nil => exact Or.inl (List.append_eq_nil_iff.1 hstream.symm).1
          | cons m rest => exact hincomplete (by simp)
  · rw [Link.read, hended.stopped] at hstep
    exact absurd hstep (by simp)

theorem Delivers.receive (h : Delivers codec messages c delivered remaining)
    (hstep : c.receive = some c') : Delivers codec messages c' delivered remaining := by
  unfold Link.receive at hstep
  split at hstep
  · rename_i hpc
    obtain rfl := Option.some.inj hstep
    refine ⟨h.messages_eq, h.consumed_le, ?_⟩
    rcases h.state with hreading | hended
    · have hbytes := hreading.bytes
      rw [hpc] at hbytes
      exact Or.inl ⟨hreading.returned, hbytes, Nat.zero_le 4⟩
    · exact absurd (hpc.symm.trans hended.stopped) (by decide)
  · exact absurd hstep (by simp)

/-- What the sender does leaves alone what was received. -/
theorem Delivers.sends {bytes : List UInt8} (h : Delivers codec messages c delivered remaining)
    (hclosed : c.closed = false) (hstep : Sends codec c c' bytes) :
    Delivers codec messages c' delivered remaining := by
  refine ⟨h.messages_eq, ?_, ?_⟩
  · rw [hstep.sent_eq, hstep.consumed_eq, List.length_append]
    exact h.consumed_le.trans (Nat.le_add_right _ _)
  · rcases h.state with hreading | hended
    · refine Or.inl ⟨hstep.returned_eq.trans hreading.returned, ?_, ?_⟩
      · rw [hstep.sent_eq, hstep.consumed_eq, hstep.receiver_eq,
          List.take_append_of_le_length h.consumed_le]
        exact hreading.bytes
      · rw [hstep.receiver_eq]
        exact hreading.ok
    · exact absurd (hclosed.symm.trans hended.closed) (by decide)

/-- What the receiver has still to do, for `n` messages. -/
def Link.readWork (n : ℕ) (c : Link) : ℕ :=
  c.available.length + 3 * (n - c.returned.length) + c.receiver.phase

/-- What the receiver does leaves alone the sender's side. -/
structure Reads (c c' : Link) : Prop where
  toSend_eq : c'.toSend = c.toSend
  sender_eq : c'.sender = c.sender
  sent_eq : c'.sent = c.sent
  closed_eq : c'.closed = c.closed
  returned_isPrefix : c.returned <+: c'.returned

theorem Reads.finish (message : Option MessageT) : Reads c (c.finish message) :=
  ⟨rfl, rfl, rfl, rfl, List.prefix_append _ _⟩

theorem Link.receive_reads (hstep : c.receive = some c') : Reads c c' := by
  unfold Link.receive at hstep
  split at hstep
  · obtain rfl := Option.some.inj hstep
    exact ⟨rfl, rfl, rfl, rfl, List.prefix_rfl⟩
  · exact absurd hstep (by simp)

theorem Link.read_reads {result : ReadResult} (hstep : c.read result = some c') :
    Reads c c' := by
  unfold Link.read at hstep
  split at hstep
  · obtain ⟨next, -, rfl⟩ := Option.map_eq_some_iff.1 hstep
    cases next with
    | some buffer => exact ⟨rfl, rfl, rfl, rfl, List.prefix_rfl⟩
    | none => exact Reads.finish none
  · obtain ⟨next, -, rfl⟩ := Option.map_eq_some_iff.1 hstep
    cases next with
    | some buffer => exact ⟨rfl, rfl, rfl, rfl, List.prefix_rfl⟩
    | none => exact Reads.finish none
  · exact absurd hstep (by simp)

theorem Link.receiveNext_reads (hstep : c.receiveNext codec = some c') : Reads c c' := by
  unfold Link.receiveNext at hstep
  split at hstep
  · split_ifs at hstep
    obtain ⟨messageSize, -, rfl⟩ := Option.map_eq_some_iff.1 hstep
    split_ifs
    · exact Reads.finish none
    · exact ⟨rfl, rfl, rfl, rfl, List.prefix_rfl⟩
  · split_ifs at hstep
    obtain rfl := Option.some.inj hstep
    exact Reads.finish _
  · exact absurd hstep (by simp)

theorem Sending.reads (h : Sending codec messages c) (hstep : Reads c c') :
    Sending codec messages c' := by
  obtain ⟨htoSend, hsender, hsent, -, -⟩ := hstep
  refine ⟨?_, ?_, ?_⟩
  · rw [h.bytes, Link.unsent, Link.unsent, htoSend, hsender, hsent]
  · rw [htoSend]
    exact h.small
  · rw [hsender]
    exact h.not_failed

theorem Delivers.read_work {result : ReadResult} (hresult : result ≠ .failed)
    (h : Delivers codec messages c delivered remaining) (hstep : c.read result = some c') (n : ℕ) :
    c' = c ∨ c'.readWork n < c.readWork n := by
  rcases h.state with hreading | hended
  · rcases Link.read_some hresult hreading.ok hstep with
      ⟨chunk, hpre, rfl, hidle, hstopped, -⟩ | ⟨rfl, -, -, hphase, -⟩
    · -- a chunk without bytes is an interruption
      by_cases hnil : chunk = []
      · left
        subst hnil
        have hpush : c.receiver.push [] = c.receiver := by
          cases c.receiver <;> simp [ReceiverPc.push]
        rw [hpush]
        rfl
      · right
        have hpos := List.length_pos_of_ne_nil hnil
        have hlen := hpre.length_le
        have hphase : (c.receiver.push chunk).phase = c.receiver.phase := by
          cases c.receiver <;> rfl
        unfold Link.readWork Link.available at hlen ⊢
        simp only [hphase, List.length_drop] at hlen ⊢
        omega
    · right
      show c.available.length + 3 * (n - (c.returned ++ [none]).length) + 0 < _
      rw [List.length_append, Link.readWork]
      omega
  · rw [Link.read, hended.stopped] at hstep
    exact absurd hstep (by simp)

theorem Link.receive_work (hstep : c.receive = some c') (n : ℕ) :
    c'.readWork n < c.readWork n := by
  unfold Link.receive at hstep
  split at hstep
  · rename_i hpc
    obtain rfl := Option.some.inj hstep
    unfold Link.readWork
    rw [hpc]
    exact Nat.lt_succ_self _
  · exact absurd hstep (by simp)

/-- The size of the next message is complete. -/
theorem Reading.size_complete (hsmall : ∀ m ∈ messages, (codec.pack m).length < 2 ^ 31)
    (hs : Sending codec messages c) (h : Reading codec c delivered remaining)
    (hmessages : messages = delivered ++ remaining) {buffer : List UInt8}
    (hpc : c.receiver = .readSize buffer) (hfull : ¬ buffer.length < 4) :
    ∃ m rest, remaining = m :: rest ∧ buffer = sizeBytes (codec.pack m).length ∧
      readSizeBytes buffer = some ((codec.pack m).length : ℤ) := by
  have hstream := h.stream_eq hs hmessages
  have hle := h.ok
  rw [hpc] at hstream hle
  have hle : buffer.length ≤ 4 := hle
  -- the bytes that are to come start with the header of the next frame
  rcases header_of_stream (H := sizeHeader) hstream (show buffer.length = 4 by omega) with
    ⟨body, bodies, hbodies, hheader, -⟩
  rcases List.map_eq_cons_iff.1 hbodies with ⟨m, rest, rfl, rfl, -⟩
  have hheader' : buffer = sizeBytes (codec.pack m).length := hheader
  refine ⟨m, rest, rfl, hheader', ?_⟩
  rw [hheader', readSizeBytes_sizeBytes (hsmall m (by rw [hmessages]; simp))]

/-- The next message is complete. -/
theorem Reading.body_complete {m : Message} {rest : List Message}
    (hs : Sending codec messages c) (h : Reading codec c delivered (m :: rest))
    (hmessages : messages = delivered ++ m :: rest) {buffer : List UInt8}
    (hpc : c.receiver = .readBody (codec.pack m).length buffer)
    (hlen : buffer.length = (codec.pack m).length) : buffer = codec.pack m := by
  have hstream := h.stream_eq hs hmessages
  rw [hpc] at hstream
  have hstream' : stream sizeHeader (codec.pack m :: rest.map codec.pack)
      = sizeHeader.encode (codec.pack m).length
        ++ (buffer ++ (c.available ++ c.unsent codec)) := by
    rw [← List.append_assoc]
    exact hstream
  exact (body_of_stream hstream' hlen).1

/-- The receiver leaves a loop, and is one message further or closer to one. -/
theorem Delivers.receiveNext (hcodec : ∀ m ∈ messages, codec.unpack (codec.pack m) = some m)
    (hsmall : ∀ m ∈ messages, (codec.pack m).length < 2 ^ 31) (hs : Sending codec messages c)
    (h : Delivers codec messages c delivered remaining)
    (hstep : c.receiveNext codec = some c') :
    ∃ delivered' remaining', Delivers codec messages c' delivered' remaining' ∧
      c'.readWork messages.length < c.readWork messages.length := by
  unfold Link.receiveNext at hstep
  rcases h.state with hreading | hended
  · have hok := hreading.ok
    have hbytes := hreading.bytes
    split at hstep
    · -- the size was read
      rename_i buffer hpc
      split_ifs at hstep with hfull
      rcases hreading.size_complete hsmall hs h.messages_eq hpc hfull with
        ⟨m, rest, rfl, hheader, hsize⟩
      rw [hsize, Option.map_some, if_neg (by omega)] at hstep
      obtain rfl := Option.some.inj hstep
      rw [hpc] at hbytes
      refine ⟨delivered, _, ⟨h.messages_eq, h.consumed_le, Or.inl ⟨hreading.returned, ?_, ?_⟩⟩, ?_⟩
      · show c.sent.take c.consumed = _ ++ (sizeBytes _ ++ [])
        rw [List.append_nil, hbytes, ← hheader]
        rfl
      · exact ⟨m, rest, rfl, rfl, Nat.zero_le _⟩
      · unfold Link.readWork
        rw [hpc]
        exact Nat.lt_succ_self _
    · -- the message was read, and is returned
      rename_i messageSize buffer hpc
      rw [hpc] at hok hbytes
      rcases hok with ⟨m, rest, rfl, rfl, hle⟩
      split_ifs at hstep with hfull
      obtain rfl := Option.some.inj hstep
      have hbody := hreading.body_complete hs h.messages_eq hpc (by omega)
      have hmessage : bufferToMessage codec buffer (codec.pack m).length = some ⟨some m⟩ := by
        rw [bufferToMessage, if_neg (by omega), hbody,
          hcodec m (by rw [h.messages_eq]; simp)]
      rw [hmessage]
      refine ⟨delivered ++ [m], rest, ⟨by rw [h.messages_eq]; simp, h.consumed_le,
        Or.inl ⟨?_, ?_, trivial⟩⟩, ?_⟩
      · show c.returned ++ [some ⟨some m⟩] = _
        rw [hreading.returned, received, received, List.map_append]
        rfl
      · show c.sent.take c.consumed = _ ++ []
        rw [hbytes, messageStream_append, messageStream_cons, hbody, List.append_nil]
        simp [ReceiverPc.current, messageStream]
      · -- one message less to return outweighs the loops of the next call
        have hlength : messages.length = c.returned.length + (rest.length + 1) := by
          rw [h.messages_eq, hreading.returned, received, List.length_append, List.length_map,
            List.length_cons]
        show c.available.length
            + 3 * (messages.length - (c.returned ++ [some (MessageT.mk (some m))]).length) + 3
          < c.available.length + 3 * (messages.length - c.returned.length) + c.receiver.phase
        rw [hpc, List.length_append, List.length_singleton]
        simp only [ReceiverPc.phase]
        omega
    · exact absurd hstep (by simp)
  · rw [hended.stopped] at hstep
    exact absurd hstep (by simp)

end Receiver

end ReplicatedTree
