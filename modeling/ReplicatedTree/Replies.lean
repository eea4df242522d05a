import ReplicatedTree.InetTheorems
import ReplicatedTree.Lib.Transition

/-!
# Replies of any bytes

What a call of `network_receive_message` returns depends on the bytes that arrive, and not on
the chunks they arrive in (`receive_anyBytes`).
-/

namespace ReplicatedTree

open Transition

/-! ## Any bytes -/

section AnyBytes

variable {codec : MessageCodec} {c c' : Link} {a : LinkAction}

/-- An action of the receiver. -/
def LinkAction.OfReceiver : LinkAction → Prop
  | .receive | .read _ | .receiveNext => True
  | _ => False

/-- Before the call has returned, with `bytes` to come at its start. -/
inductive Receiving (bytes : List UInt8) (c : Link) : Prop
  | idle (hpc : c.receiver = .idle) (hbytes : c.available = bytes)
  | size {buffer : List UInt8} (hpc : c.receiver = .readSize buffer) (hlen : buffer.length ≤ 4)
    (hbytes : buffer ++ c.available = bytes)
  | body {header buffer : List UInt8} {messageSize : ℤ}
    (hpc : c.receiver = .readBody messageSize buffer) (hheader : header.length = 4)
    (hsize : readSizeBytes header = some messageSize) (hnonneg : ¬ messageSize < 0)
    (hlen : buffer.length ≤ messageSize.toNat)
    (hbytes : header ++ (buffer ++ c.available) = bytes)

/-- The call that starts with these bytes to come has not returned yet, or has returned what
`networkReceiveMessage` says. -/
def ReceivesAs (codec : MessageCodec) (bytes : List UInt8) (returned : List (Option MessageT))
    (c : Link) : Prop :=
  c.closed = true ∧ (c.returned = returned ∧ Receiving bytes c ∨
    returned ++ [networkReceiveMessage codec bytes] <+: c.returned)

theorem frameBody_short {bytes : List UInt8} (h : bytes.length < 4) : frameBody bytes = none := by
  rw [frameBody, if_pos h]

theorem frameBody_append {header rest : List UInt8} {messageSize : ℤ} (hheader : header.length = 4)
    (hsize : readSizeBytes header = some messageSize) : frameBody (header ++ rest)
      = if messageSize < 0 ∨ rest.length < messageSize.toNat then none
        else some (rest.take messageSize.toNat) := by
  have htake : (header ++ rest).take 4 = header := by rw [← hheader, List.take_left]
  have hdrop : (header ++ rest).drop 4 = rest := by rw [← hheader, List.drop_left]
  rw [frameBody, if_neg (by rw [List.length_append]; omega), htake, hdrop, hsize]
  rfl

/-- A chunk that was read was at the head of what is available. -/
theorem append_available {chunk : List UInt8} (h : chunk <+: c.available)
    (pc : ReceiverPc) : chunk ++ Link.available
      { c with consumed := c.consumed + chunk.length, receiver := pc } = c.available := by
  have heq := List.prefix_iff_eq_append.1 h
  rw [Link.available, List.drop_drop] at heq
  exact heq

theorem Receiving.read {bytes : List UInt8} {result : ReadResult} (hresult : result ≠ .failed)
    (h : Receiving bytes c) (hstep : c.read result = some c') :
    c'.returned = c.returned ∧ Receiving bytes c' ∨
      c'.returned = c.returned ++ [networkReceiveMessage codec bytes] := by
  cases h with
  | idle hpc =>
    rw [Link.read, hpc] at hstep
    exact absurd hstep (by simp)
  | @size buffer hpc hlen hbytes =>
    rw [Link.read, hpc] at hstep
    obtain ⟨next, hchunk, rfl⟩ := Option.map_eq_some_iff.1 hstep
    cases next with
    | some buffer' =>
      rcases readChunk_some hchunk with ⟨chunk, rfl, hpre, hlen'⟩
      have hcount : (buffer ++ chunk).length - buffer.length = chunk.length := by
        rw [List.length_append]
        omega
      refine Or.inl ⟨rfl, .size rfl ?_ ?_⟩
      · rcases hlen' with hlen' | rfl
        · exact hlen'
        · rwa [List.append_nil]
      · dsimp only
        rw [hcount, List.append_assoc, append_available hpre, hbytes]
    | none =>
      -- fewer bytes than a size
      obtain ⟨hlt, -, havailable⟩ := readChunk_none hresult hchunk
      right
      rw [havailable, List.append_nil] at hbytes
      rw [networkReceiveMessage, ← hbytes, frameBody_short hlt]
      rfl
  | @body header buffer messageSize hpc hheader hsize hnonneg hlen hbytes =>
    rw [Link.read, hpc] at hstep
    obtain ⟨next, hchunk, rfl⟩ := Option.map_eq_some_iff.1 hstep
    cases next with
    | some buffer' =>
      rcases readChunk_some hchunk with ⟨chunk, rfl, hpre, hlen'⟩
      have hcount : (buffer ++ chunk).length - buffer.length = chunk.length := by
        rw [List.length_append]
        omega
      refine Or.inl ⟨rfl, .body rfl hheader hsize hnonneg ?_ ?_⟩
      · rcases hlen' with hlen' | rfl
        · exact hlen'
        · rwa [List.append_nil]
      · dsimp only
        rw [hcount, List.append_assoc, append_available hpre, hbytes]
    | none =>
      -- fewer bytes than the size says
      obtain ⟨hlt, -, havailable⟩ := readChunk_none hresult hchunk
      right
      rw [havailable, List.append_nil] at hbytes
      rw [networkReceiveMessage, ← hbytes, frameBody_append hheader hsize, if_pos (Or.inr hlt)]
      rfl

theorem Receiving.receiveNext {bytes : List UInt8} (h : Receiving bytes c)
    (hstep : c.receiveNext codec = some c') :
    c'.returned = c.returned ∧ Receiving bytes c' ∨
      c'.returned = c.returned ++ [networkReceiveMessage codec bytes] := by
  cases h with
  | idle hpc =>
    rw [Link.receiveNext, hpc] at hstep
    exact absurd hstep (by simp)
  | @size buffer hpc hlen hbytes =>
    rw [Link.receiveNext, hpc] at hstep
    dsimp only at hstep
    split_ifs at hstep with hfull
    have hheader : buffer.length = 4 := by omega
    obtain ⟨messageSize, hsize, rfl⟩ := Option.map_eq_some_iff.1 hstep
    -- no body is read for a negative size
    by_cases hneg : messageSize < 0
    · right
      rw [if_pos hneg, networkReceiveMessage, ← hbytes, frameBody_append hheader hsize,
        if_pos (Or.inl hneg)]
      rfl
    · left
      rw [if_neg hneg]
      exact ⟨rfl, .body rfl hheader hsize hneg (Nat.zero_le _) hbytes⟩
  | @body header buffer messageSize hpc hheader hsize hnonneg hlen hbytes =>
    rw [Link.receiveNext, hpc] at hstep
    dsimp only at hstep
    split_ifs at hstep with hfull
    obtain rfl := Option.some.inj hstep
    right
    have hcount : buffer.length = messageSize.toNat := by omega
    have hle : ¬ (buffer ++ c.available).length < messageSize.toNat := by
      rw [List.length_append]
      omega
    have hsize' : ((buffer.length : ℕ) : ℤ) = messageSize := by omega
    rw [networkReceiveMessage, ← hbytes, frameBody_append hheader hsize,
      if_neg (not_or.2 ⟨hnonneg, hle⟩), Option.bind_some, ← hcount, List.take_left, hsize']
    rfl

/-- Whatever the bytes and however they are cut into chunks, a call that starts when they are
all that is to come returns what `networkReceiveMessage` makes of them. -/
theorem receive_anyBytes {actions : List LinkAction} (hidle : c.receiver = .idle)
    (hclosed : c.closed = true) (hactions : ∀ a ∈ actions, a.OfReceiver ∧ ¬ a.Fails)
    (h : run (linkStep codec) c actions = some c') :
    c'.returned = c.returned ∨
      c.returned ++ [networkReceiveMessage codec c.available] <+: c'.returned := by
  have hstep : ∀ d a d', a.OfReceiver ∧ ¬ a.Fails →
      ReceivesAs codec c.available c.returned d → linkStep codec d a = some d' →
      ReceivesAs codec c.available c.returned d' := by
    rintro d a d' ⟨hof, hfails⟩ ⟨hd, hstate⟩ hstep
    have hreads : Reads d d' := by
      cases a with
      | receive => exact Link.receive_reads hstep
      | read result => exact Link.read_reads hstep
      | receiveNext => exact Link.receiveNext_reads hstep
      | send | write | sendNext | close => exact hof.elim
    refine ⟨hreads.closed_eq.trans hd, ?_⟩
    rcases hstate with ⟨hreturned, hreceiving⟩ | hpre
    -- the call goes on or returns; once it has returned, later calls do not matter
    · have hnext : d'.returned = d.returned ∧ Receiving c.available d' ∨
          d'.returned = d.returned ++ [networkReceiveMessage codec c.available] := by
        cases a with
        | receive =>
          have hstep : d.receive = some d' := hstep
          unfold Link.receive at hstep
          split at hstep
          · rename_i hpc
            obtain rfl := Option.some.inj hstep
            cases hreceiving with
            | idle _ hbytes => exact Or.inl ⟨rfl, .size rfl (Nat.zero_le 4) hbytes⟩
            | size hpc' => exact absurd (hpc.symm.trans hpc') (by simp)
            | body hpc' => exact absurd (hpc.symm.trans hpc') (by simp)
          · exact absurd hstep (by simp)
        | read result =>
          have hresult : result ≠ .failed := by
            rintro rfl
            exact hfails trivial
          exact hreceiving.read hresult hstep
        | receiveNext => exact hreceiving.receiveNext hstep
        | send | write | sendNext | close => exact hof.elim
      rcases hnext with ⟨heq, hreceiving'⟩ | heq
      · exact Or.inl ⟨heq.trans hreturned, hreceiving'⟩
      · rw [← hreturned, ← heq]
        exact Or.inr List.prefix_rfl
    · exact Or.inr (hpre.trans hreads.returned_isPrefix)
  have hend : ReceivesAs codec c.available c.returned c' :=
    run_invariant_of_meet hstep ⟨hclosed, Or.inl ⟨rfl, .idle hidle rfl⟩⟩
      (StepsMeet.of_forall fun a ha _ => hactions a ha) h
  exact hend.2.imp_left And.left

end AnyBytes

end ReplicatedTree
