import ReplicatedTree.InetTheorems
import ReplicatedTree.Lib.Transition

/-!
# Messages arrive whole and in order

Both sides of a connection together (`LinkInv`). That all messages arrive is shown by states
without a possible transfer (`Link.Blocked`) and a measure that every other step decreases
(`Link.work`).
-/

namespace ReplicatedTree

open Transition

/-! ## Both sides -/

section Both

variable {codec : MessageCodec} {messages : List Message} {c c' : Link} {a : LinkAction}

structure LinkInv (codec : MessageCodec) (messages : List Message) (c : Link) : Prop where
  sending : Sending codec messages c
  delivers : ∃ delivered remaining, Delivers codec messages c delivered remaining

theorem linkInit_inv (hsmall : ∀ m ∈ messages, (codec.pack m).length < 2 ^ 31) :
    LinkInv codec messages (linkInit messages) where
  sending := ⟨rfl, hsmall, by simp [linkInit]⟩
  delivers := ⟨[], messages, rfl, Nat.le_refl 0, Or.inl ⟨rfl, rfl, trivial⟩⟩

theorem LinkInv.sends {bytes : List UInt8} (h : LinkInv codec messages c)
    (hclosed : ¬ c.closed = true) (hstep : Sends codec c c' bytes) :
    LinkInv codec messages c' := by
  rcases h with ⟨hs, delivered, remaining, hd⟩
  exact ⟨hs.step hstep, delivered, remaining, hd.sends (by simpa using hclosed) hstep⟩

theorem linkStep_inv (hcodec : ∀ m ∈ messages, codec.unpack (codec.pack m) = some m)
    (hsmall : ∀ m ∈ messages, (codec.pack m).length < 2 ^ 31) (hfails : ¬ a.Fails)
    (h : LinkInv codec messages c) (hstep : linkStep codec c a = some c') :
    LinkInv codec messages c' := by
  have hinv := h
  rcases h with ⟨hs, delivered, remaining, hd⟩
  cases a with
  | send =>
    obtain ⟨hclosed, hstep⟩ := Option.ite_none_left_eq_some.1 hstep
    exact hinv.sends hclosed (Link.send_sends hs.small hstep)
  | write result =>
    obtain ⟨hclosed, hstep⟩ := Option.ite_none_left_eq_some.1 hstep
    have hresult : result ≠ .failed := by
      rintro rfl
      exact hfails trivial
    have hsends : ∃ bytes, Sends codec c c' bytes := Link.write_sends hresult hstep
    rcases hsends with ⟨bytes, hsends⟩
    exact hinv.sends hclosed hsends
  | sendNext =>
    obtain ⟨hclosed, hstep⟩ := Option.ite_none_left_eq_some.1 hstep
    exact hinv.sends hclosed (Link.sendNext_sends hstep)
  | close =>
    obtain rfl := Option.some.inj hstep
    refine ⟨⟨hs.bytes, hs.small, hs.not_failed⟩, delivered, remaining, hd.messages_eq,
      hd.consumed_le, ?_⟩
    rcases hd.state with hreading | hended
    · exact Or.inl ⟨hreading.returned, hreading.bytes, hreading.ok⟩
    · exact Or.inr ⟨hended.stopped, rfl, hended.returned, hended.bytes⟩
  | receive => exact ⟨hs.reads (Link.receive_reads hstep), delivered, remaining, hd.receive hstep⟩
  | read result =>
    have hresult : result ≠ .failed := by
      rintro rfl
      exact hfails trivial
    exact ⟨hs.reads (Link.read_reads hstep), delivered, remaining, hd.read hresult hs hstep⟩
  | receiveNext =>
    refine ⟨hs.reads (Link.receiveNext_reads hstep), ?_⟩
    rcases hd.receiveNext hcodec hsmall hs hstep with ⟨delivered', remaining', hd', -⟩
    exact ⟨delivered', remaining', hd'⟩

/-! ## Everything arrives -/

/-- Nothing can happen but interruptions, and calls of `write` that accept nothing. -/
def Link.Blocked (codec : MessageCodec) (c : Link) : Prop :=
  ∀ a c', a ≠ .close → ¬ a.Fails → linkStep codec c a = some c' → c' = c

theorem readSizeBytes_isSome {bytes : List UInt8} (h : bytes.length = 4) :
    (readSizeBytes bytes).isSome = true := by
  rcases List.length_eq_four.1 h with ⟨b0, b1, b2, b3, rfl⟩
  rfl

/-- While there is room in its buffer, only the lack of bytes stops the receiver. -/
theorem Link.Blocked.of_room (hblocked : c.Blocked codec) {n : ℕ} {buffer : List UInt8}
    (hpc : c.receiver = .readSize buffer ∧ n = 4 ∨
      ∃ messageSize, c.receiver = .readBody messageSize buffer ∧ n = messageSize.toNat)
    (hroom : buffer.length < n) : c.available = [] ∧ c.closed = false := by
  have havailable : c.available = [] := by
    -- else `read` could return one byte
    by_contra hne
    have hpos := List.length_pos_of_ne_nil hne
    have hchunk : readChunk n buffer c.available c.closed (.chunk 1)
        = some (some (buffer ++ c.available.take 1)) := by
      rw [readChunk, if_pos ⟨Nat.one_pos, hroom, hpos⟩]
    have hread : ∃ c', c.read (.chunk 1) = some c' ∧ c'.consumed ≠ c.consumed := by
      have htake : (c.available.take 1).length = 1 := by
        rw [List.length_take]
        omega
      rcases hpc with ⟨hpc, rfl⟩ | ⟨messageSize, hpc, rfl⟩
      all_goals
        rw [Link.read, hpc]
        dsimp only
        rw [hchunk]
        refine ⟨_, rfl, ?_⟩
        show c.consumed + ((buffer ++ c.available.take 1).length - buffer.length) ≠ c.consumed
        rw [List.length_append]
        omega
    rcases hread with ⟨c', hstep, hconsumed⟩
    have heq := hblocked (.read (.chunk 1)) c' (by simp) id hstep
    exact hconsumed (by rw [heq])
  refine ⟨havailable, ?_⟩
  -- and it could find the end of a closed connection
  by_contra hclosed
  have hend : readChunk n buffer c.available c.closed .closed = some none := by
    rw [readChunk, if_pos ⟨hroom, by simpa using hclosed, havailable⟩]
  have hread : c.read .closed = some (c.finish none) ∧ c.receiver ≠ .stopped := by
    rcases hpc with ⟨hpc, rfl⟩ | ⟨messageSize, hpc, rfl⟩
    all_goals
      rw [Link.read, hpc]
      dsimp only
      rw [hend]
      exact ⟨rfl, by simp⟩
  have heq := hblocked (.read .closed) _ (by simp) id hread.1
  exact hread.2 (by rw [← heq]; rfl)

/-- A receiver that cannot go on waits for bytes that were not sent. -/
theorem Delivers.waits_of_blocked {delivered remaining : List Message}
    (hcodec : ∀ m ∈ messages, codec.unpack (codec.pack m) = some m)
    (hsmall : ∀ m ∈ messages, (codec.pack m).length < 2 ^ 31) (hs : Sending codec messages c)
    (hd : Delivers codec messages c delivered remaining) (hblocked : c.Blocked codec)
    (hreading : Reading codec c delivered remaining) :
    c.available = [] ∧ c.closed = false ∧ ∀ m rest, remaining = m :: rest →
      c.receiver.current.length < 4 + (codec.pack m).length := by
  have hok := hreading.ok
  -- a step out of a loop would be possible
  have hnext : c.receiveNext codec = none := by
    by_contra hsome
    rcases Option.ne_none_iff_exists'.1 hsome with ⟨c', hstep⟩
    rcases hd.receiveNext hcodec hsmall hs hstep with ⟨_, _, -, hwork⟩
    have heq := hblocked .receiveNext c' (by simp) id hstep
    rw [heq] at hwork
    exact absurd hwork (lt_irrefl _)
  cases hpc : c.receiver with
  | idle =>
    have hreceive : c.receive = some { c with receiver := .readSize [] } := by
      rw [Link.receive, hpc]
    have hwork := Link.receive_work hreceive 0
    have heq := hblocked .receive _ (by simp) id hreceive
    rw [heq] at hwork
    exact absurd hwork (lt_irrefl _)
  | readSize buffer =>
    rw [hpc] at hok
    have hle : buffer.length ≤ 4 := hok
    rw [Link.receiveNext, hpc] at hnext
    dsimp only at hnext
    split_ifs at hnext with hroom
    · obtain ⟨havailable, hclosed⟩ := hblocked.of_room (Or.inl ⟨hpc, rfl⟩) hroom
      refine ⟨havailable, hclosed, fun m rest _ => ?_⟩
      show buffer.length < _
      omega
    · rw [Option.map_eq_none_iff] at hnext
      have hsome := readSizeBytes_isSome (show buffer.length = 4 by omega)
      rw [hnext] at hsome
      exact absurd hsome (by decide)
  | readBody messageSize buffer =>
    rw [hpc] at hok
    rcases hok with ⟨m, rest, hremaining, hsize, hle⟩
    rw [Link.receiveNext, hpc] at hnext
    dsimp only at hnext
    split_ifs at hnext with hroom
    obtain ⟨havailable, hclosed⟩ := hblocked.of_room (Or.inr ⟨messageSize, hpc, rfl⟩) hroom
    refine ⟨havailable, hclosed, fun m' rest' hremaining' => ?_⟩
    rw [hremaining, List.cons.injEq] at hremaining'
    show (sizeBytes messageSize ++ buffer).length < _
    rw [← hremaining'.1, List.length_append, length_sizeBytes]
    omega
  | stopped =>
    rw [hpc] at hok
    exact hok.elim

/-- A link that cannot go on has delivered everything, if it is open. -/
theorem LinkInv.returned_of_blocked
    (hcodec : ∀ m ∈ messages, codec.unpack (codec.pack m) = some m)
    (hsmall : ∀ m ∈ messages, (codec.pack m).length < 2 ^ 31) (h : LinkInv codec messages c)
    (hblocked : c.Blocked codec) (hopen : c.closed = false) : c.returned = received messages := by
  rcases h with ⟨hs, delivered, remaining, hd⟩
  have hnot : ¬ c.closed = true := by simp [hopen]
  -- the sender has sent everything, and the receiver has read all of that
  have hunsent : c.unsent codec = [] := by
    apply hs.unsent_of_blocked
    · intro c' hstep
      exact hblocked .send c' (by simp) id ((if_neg hnot).trans hstep)
    · intro c' hstep
      exact hblocked (.write (.accepted 1)) c' (by simp) id ((if_neg hnot).trans hstep)
    · intro c' hstep
      exact hblocked .sendNext c' (by simp) id ((if_neg hnot).trans hstep)
  rcases hd.state with hreading | hended
  · obtain ⟨havailable, -, hshort⟩ := hd.waits_of_blocked hcodec hsmall hs hblocked hreading
    have hstream := hreading.stream_eq hs hd.messages_eq
    rw [havailable, hunsent, List.append_nil, List.append_nil] at hstream
    cases remaining with
    | nil =>
      have hmessages := hd.messages_eq
      rw [List.append_nil] at hmessages
      rw [hreading.returned, hmessages]
    | cons m rest =>
      -- what was read is the rest of the stream, but shorter than its first frame
      have hlt := hshort m rest rfl
      rw [← hstream, messageStream_cons, List.length_append, List.length_append,
        length_sizeBytes] at hlt
      omega
  · exact absurd (hopen.symm.trans hended.closed) (by decide)

/-- A link that cannot go on after it was closed has returned NULL. -/
theorem LinkInv.ended_of_blocked
    (hcodec : ∀ m ∈ messages, codec.unpack (codec.pack m) = some m)
    (hsmall : ∀ m ∈ messages, (codec.pack m).length < 2 ^ 31) (h : LinkInv codec messages c)
    (hblocked : c.Blocked codec) (hclosed : c.closed = true) :
    ∃ delivered remaining, messages = delivered ++ remaining ∧
      Ended codec c delivered remaining := by
  rcases h with ⟨hs, delivered, remaining, hd⟩
  rcases hd.state with hreading | hended
  · obtain ⟨-, hopen, -⟩ := hd.waits_of_blocked hcodec hsmall hs hblocked hreading
    exact absurd (hopen.symm.trans hclosed) (by decide)
  · exact ⟨delivered, remaining, hd.messages_eq, hended⟩

/-! ## And it arrives after finitely many steps -/

/-- What both sides have still to do, for `n` messages. -/
def Link.work (codec : MessageCodec) (n : ℕ) (c : Link) : ℕ :=
  c.sendWork codec + c.readWork n + if c.closed then 0 else 1

/-- Bytes that were sent can be read. -/
theorem Sends.work {bytes : List UInt8} {n : ℕ} (h : Sends codec c c' bytes)
    (hle : c.consumed ≤ c.sent.length) : c' = c ∨ c'.work codec n < c.work codec n := by
  apply h.moves.imp_right
  intro hlt
  have havailable : c'.available.length = c.available.length + bytes.length := by
    unfold Link.available
    rw [h.sent_eq, h.consumed_eq, List.length_drop, List.length_drop, List.length_append]
    omega
  unfold Link.work Link.readWork
  rw [havailable, h.returned_eq, h.receiver_eq, h.closed_eq]
  omega

theorem Reads.work {n : ℕ} (h : Reads c c') (hlt : c'.readWork n < c.readWork n) :
    c'.work codec n < c.work codec n := by
  unfold Link.work Link.sendWork Link.unsent
  rw [h.toSend_eq, h.sender_eq, h.closed_eq]
  omega

theorem linkStep_work (hcodec : ∀ m ∈ messages, codec.unpack (codec.pack m) = some m)
    (hsmall : ∀ m ∈ messages, (codec.pack m).length < 2 ^ 31) (hfails : ¬ a.Fails)
    (h : LinkInv codec messages c) (hstep : linkStep codec c a = some c') :
    c' = c ∨ c'.work codec messages.length < c.work codec messages.length := by
  rcases h with ⟨hs, delivered, remaining, hd⟩
  cases a with
  | send =>
    obtain ⟨-, hstep⟩ := Option.ite_none_left_eq_some.1 hstep
    exact (Link.send_sends hs.small hstep).work hd.consumed_le
  | write result =>
    obtain ⟨-, hstep⟩ := Option.ite_none_left_eq_some.1 hstep
    have hresult : result ≠ .failed := by
      rintro rfl
      exact hfails trivial
    have hsends : ∃ bytes, Sends codec c c' bytes := Link.write_sends hresult hstep
    rcases hsends with ⟨bytes, hsends⟩
    exact hsends.work hd.consumed_le
  | sendNext =>
    obtain ⟨-, hstep⟩ := Option.ite_none_left_eq_some.1 hstep
    exact (Link.sendNext_sends hstep).work hd.consumed_le
  | close =>
    obtain rfl := Option.some.inj hstep
    cases hclosed : c.closed with
    | true =>
      left
      cases c
      congr
      exact hclosed.symm
    | false =>
      right
      show c.sendWork codec + c.readWork messages.length + 0 < _
      rw [Link.work, hclosed]
      exact Nat.lt_succ_self _
  | receive =>
    right
    exact (Link.receive_reads hstep).work (Link.receive_work hstep messages.length)
  | read result =>
    have hresult : result ≠ .failed := by
      rintro rfl
      exact hfails trivial
    exact (hd.read_work hresult hstep messages.length).imp_right (Link.read_reads hstep).work
  | receiveNext =>
    rcases hd.receiveNext hcodec hsmall hs hstep with ⟨_, _, -, hwork⟩
    exact Or.inr ((Link.receiveNext_reads hstep).work hwork)

/-- **Framing is lossless.** However `write` and `read` cut the bytes into chunks, wherever
they are interrupted and however the two sides are interleaved: the calls of
`network_receive_message` return the messages in order, and NULL only after the connection was
closed and all complete frames were delivered. A link that can do nothing more has delivered
all messages, or NULL if it was closed; and every step that does something brings it closer to
that. -/
theorem framing_lossless {actions : List LinkAction}
    (hcodec : ∀ m ∈ messages, codec.unpack (codec.pack m) = some m)
    (hsmall : ∀ m ∈ messages, (codec.pack m).length < 2 ^ 31)
    (hactions : ∀ a ∈ actions, ¬ a.Fails)
    (h : run (linkStep codec) (linkInit messages) actions = some c) :
    (∃ delivered remaining, messages = delivered ++ remaining ∧
      (c.returned = received delivered ∨ Ended codec c delivered remaining)) ∧
    (c.Blocked codec → c.closed = false → c.returned = received messages) ∧
    (c.Blocked codec → c.closed = true → c.receiver = .stopped) ∧
    ∀ a c', ¬ a.Fails → linkStep codec c a = some c' →
      c' = c ∨ c'.work codec messages.length < c.work codec messages.length := by
  have hinv : LinkInv codec messages c :=
    run_invariant_of_meet (fun _ _ _ hfails => linkStep_inv hcodec hsmall hfails)
      (linkInit_inv hsmall) (StepsMeet.of_forall fun a ha _ => hactions a ha) h
  refine ⟨?_, hinv.returned_of_blocked hcodec hsmall, ?_, ?_⟩
  · rcases hinv.delivers with ⟨delivered, remaining, hd⟩
    exact ⟨delivered, remaining, hd.messages_eq, hd.state.imp_left Reading.returned⟩
  · intro hblocked hclosed
    rcases hinv.ended_of_blocked hcodec hsmall hblocked hclosed with ⟨_, _, -, hended⟩
    exact hended.stopped
  · intro a c' hfails hstep
    exact linkStep_work hcodec hsmall hfails hinv hstep

end Both

/-- The packed messages without content that carry no code, or `OP_SIZE`. -/
def codesOnly : MessageCodec where
  pack m := if m.opCode = opSize then [8, 10] else []
  unpack bytes :=
    if bytes = [8, 10] then some ⟨opSize, .notSet⟩
    else if bytes = [] then some messageCreate else none

/-- Two messages, the first of them cut in the middle of its size; the connection is closed in
the middle of the second size. -/
def cutLink : List LinkAction :=
  [.send, .receive, .write (.accepted 3), .read .interrupted, .read (.chunk 2),
    .write .interrupted, .write (.accepted 1), .read (.chunk 2), .sendNext, .receiveNext,
    .write (.accepted 2), .read (.chunk 1), .sendNext, .send, .read (.chunk 1), .receiveNext,
    .receive, .write (.accepted 2), .close, .read (.chunk 2), .read .closed]

theorem framing_lossless_cut :
    ∃ c ∈ run (linkStep codesOnly) (linkInit [⟨opSize, .notSet⟩, messageCreate]) cutLink,
      c.returned = [some ⟨some ⟨opSize, .notSet⟩⟩, none] ∧
      ∃ delivered remaining, [⟨opSize, .notSet⟩, messageCreate] = delivered ++ remaining ∧
        (c.returned = received delivered ∨ Ended codesOnly c delivered remaining) := by
  have hrun : ∃ c ∈ run (linkStep codesOnly)
      (linkInit [⟨opSize, .notSet⟩, messageCreate]) cutLink,
      c.returned = [some ⟨some ⟨opSize, .notSet⟩⟩, none] := by
    decide +kernel
  rcases hrun with ⟨c, hc, hreturned⟩
  exact ⟨c, hc, hreturned, (framing_lossless (by decide) (by decide) (by decide) hc).1⟩

end ReplicatedTree
