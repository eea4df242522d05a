import ReplicatedTree.ClientStub
import ReplicatedTree.InvokeTheorems
import ReplicatedTree.MessageWire

/-!
# `Message_dup`

The copy of a message is the message itself, for every message that one of the three sources
produces: the client stub, `invoke`, and `message__unpack` (`messageDup_faithful`). The one block
that cannot be copied is one with bytes and a negative size, and none of the sources makes it:
`data_to_msg` leaves NULL behind a negative size, and unpacked sizes are not negative.
-/

namespace ReplicatedTree

open Transition Wire

/-- A message from one of the three sources. -/
inductive Produced (codec : MessageCodec) : Message → Prop
  | stub {call : RtreeCall} {request : Message} (h : call.request = some request) :
    Produced codec request
  | invoke {tree : TreeT} {tasks tasks' : TasksState} {request response : Message}
    (h : invoke tree tasks request = some (tasks', response)) : Produced codec response
  | unpack {bytes : List UInt8} {m : Message} (h : codec.unpack bytes = some m) :
    Produced codec m

/-- What is relied on: an unpacked message has a content case of the protocol, and no length in
it is negative. -/
def MessageCodec.Decodes (codec : MessageCodec) : Prop :=
  ∀ bytes m, codec.unpack bytes = some m → m.Wf ∧ m.content.Known

/-- What is asked of the copy of a message: the same contents, the same effect as a task on every
tree, and the same message for a server that receives it packed. -/
structure CopyFaithful (codec : MessageCodec) (m m' : Message) : Prop where
  opCode_eq : m'.opCode = m.opCode
  case_eq : m'.content.case = m.content.case
  content_eq : m'.content = m.content
  effect_eq : ∀ tree, executeWrite tree m' = executeWrite tree m
  packed_eq : codec.unpack (codec.pack m') = codec.unpack (codec.pack m)
  received : codec.Faithful → m.Packable →
    ∃ received, codec.unpack (codec.pack m') = some received ∧ m.Equal received

/-! ## Blocks that can be copied -/

/-- A block that `copy` copies, or NULL. -/
def DataMessage.Copyable (m : DataMessage) : Prop := 0 ≤ m.len ∨ m.data = none

/-- The content case is known, and the blocks in the content can be copied. -/
def Content.Copyable : Content → Prop
  | .value v => ∀ d ∈ v, d.Copyable
  | .entry e => ∀ em ∈ e, ∀ d ∈ em.value, d.Copyable
  | .unknown _ => False
  | _ => True

theorem copyable_of_wf {m : Message} (hwf : m.Wf) (hk : m.content.Known) :
    m.content.Copyable := by
  obtain ⟨op, content⟩ := m
  cases content with
  | value v =>
    intro d hd
    exact Or.inl (hwf d hd)
  | entry e =>
    intro em hem d hd
    exact Or.inl (hwf em hem d hd)
  | unknown c => exact hk.elim
  | _ => trivial

/-- The copy of a block behind a negative size is NULL. -/
theorem dataToMsg_copyable {d : Option DataT} : ∀ m ∈ dataToMsg d, m.Copyable := by
  intro m hm
  obtain ⟨d, rfl, rfl⟩ := Option.map_eq_some_iff.1 hm
  by_cases hneg : d.datasize < 0
  · apply Or.inr
    show copy d.data d.datasize = none
    rw [copy, if_pos hneg]
  · apply Or.inl
    show 0 ≤ d.datasize
    omega

theorem dataMessageDup_of_copyable {v : Option DataMessage} (h : ∀ d ∈ v, d.Copyable) :
    dataMessageDup v = v := by
  cases v with
  | none => rfl
  | some d =>
    by_cases hlen : 0 ≤ d.len
    · exact dataMessageDup_eq fun d' hd' => Option.some.inj hd' ▸ hlen
    · have hdata := (h d rfl).resolve_left hlen
      have hcopy : copy d.data d.len = d.data := by
        rw [copy, if_pos (by omega), hdata]
      cases d
      simp only [dataMessageDup, Option.map_some, hcopy]

theorem entryMessageDup_of_copyable {e : Option EntryMessage}
    (h : ∀ em ∈ e, ∀ d ∈ em.value, d.Copyable) : entryMessageDup e = e := by
  cases e with
  | none => rfl
  | some em =>
    have hvalue := dataMessageDup_of_copyable (h em rfl)
    obtain ⟨key, value⟩ := em
    cases key <;> simp [entryMessageDup, hvalue, stringToMsg]

theorem messageDup_of_copyable {m : Message} (h : m.content.Copyable) : messageDup m = some m := by
  obtain ⟨op, content⟩ := m
  cases content with
  | value v => simp [messageDup, dataMessageDup_of_copyable h]
  | entry e => simp [messageDup, entryMessageDup_of_copyable h]
  | keys ks => simp [messageDup, keysMessageDup_eq]
  | unknown c => exact h.elim
  | _ => rfl

/-! ## What the sources produce -/

theorem request_copyable {call : RtreeCall} {request : Message} (h : call.request = some request) :
    request.content.Copyable := by
  cases call with
  | put entry =>
    obtain ⟨e, -, rfl⟩ := Option.map_eq_some_iff.1 h
    intro em hem d hd
    obtain rfl := Option.some.inj hem
    exact dataToMsg_copyable d hd
  | get key | del key =>
    obtain ⟨k, -, rfl⟩ := Option.map_eq_some_iff.1 h
    trivial
  | size | height | getKeys | verify =>
    obtain rfl := Option.some.inj h
    trivial

theorem finishResponse_copyable {response : Message} (h : response.content.Copyable) :
    (finishResponse response).content.Copyable := by
  unfold finishResponse
  split_ifs
  · trivial
  · exact h

theorem invokeRead_copyable {tree : TreeT} {tasks : TasksState} {request response : Message}
    (h : invokeRead tree tasks request = some response) : response.content.Copyable := by
  unfold invokeRead invokeQuery at h
  cases hhandler : request.handler with
  | treeSize | treeHeight | verify | writeOperation | none =>
    rw [hhandler] at h
    obtain rfl := Option.some.inj h
    trivial
  | treeGet key =>
    rw [hhandler] at h
    obtain rfl := Option.some.inj h
    unfold invokeTreeGet
    cases treeGet tree (some key) with
    | none => trivial
    | some value => exact dataToMsg_copyable
  | treeGetKeys =>
    rw [hhandler] at h
    obtain ⟨keys, -, rfl⟩ := Option.map_eq_some_iff.1 h
    trivial

theorem invoke_copyable {tree : TreeT} {tasks tasks' : TasksState} {request response : Message}
    (h : invoke tree tasks request = some (tasks', response)) : response.content.Copyable := by
  obtain ⟨⟨tasks₁, response₁⟩, hinvoke, heq⟩ := Option.map_eq_some_iff.1 h
  obtain ⟨rfl, rfl⟩ := Prod.mk.inj heq
  apply finishResponse_copyable
  unfold invoke2 at hinvoke
  split_ifs at hinvoke with hw
  · obtain ⟨-, rfl⟩ := Prod.mk.inj (Option.some.inj hinvoke)
    trivial
  · obtain ⟨response₂, hread, heq⟩ := Option.map_eq_some_iff.1 hinvoke
    obtain ⟨-, rfl⟩ := Prod.mk.inj heq
    exact invokeRead_copyable hread

/-! ## The wire format decodes to the protocol -/

theorem unpackData_len {bytes : List UInt8} {d : DataMessage} (h : unpackData bytes = some d) :
    0 ≤ d.len := by
  obtain ⟨fs, -, rfl⟩ := Option.map_eq_some_iff.1 h
  exact Int.natCast_nonneg _

theorem unpackEntryMessage_wf {bytes : List UInt8} {em : EntryMessage}
    (h : unpackEntryMessage bytes = some em) : em.Wf := by
  intro d hd
  obtain ⟨fs, -, hkey⟩ := Option.bind_eq_some_iff.1 h
  obtain ⟨key, -, hvalue⟩ := Option.bind_eq_some_iff.1 hkey
  obtain ⟨value, hunpack, heq⟩ := Option.bind_eq_some_iff.1 hvalue
  obtain rfl := Option.some.inj heq
  unfold unpackOptional at hunpack
  split at hunpack
  · rw [← Option.some.inj hunpack] at hd
    exact absurd hd (by simp)
  · obtain ⟨d', hd', rfl⟩ := Option.map_eq_some_iff.1 hunpack
    obtain rfl := Option.some.inj hd
    exact unpackData_len hd'

theorem unpackContent_decodes {num : ℕ} {payload : Payload} {content : Content}
    (h : unpackContent num payload = some content) (opCode : ℤ) :
    (⟨opCode, content⟩ : Message).Wf ∧ content.Known := by
  unfold unpackContent at h
  split at h
  · split_ifs at h
    · obtain rfl := Option.some.inj h
      exact ⟨trivial, trivial⟩
    · obtain ⟨d, hd, rfl⟩ := Option.map_eq_some_iff.1 h
      refine ⟨?_, trivial⟩
      intro d' hd'
      obtain rfl := Option.some.inj hd'
      exact unpackData_len hd
    · obtain ⟨em, hem, rfl⟩ := Option.map_eq_some_iff.1 h
      refine ⟨?_, trivial⟩
      intro em' hem'
      obtain rfl := Option.some.inj hem'
      exact unpackEntryMessage_wf hem
    · obtain ⟨ks, -, rfl⟩ := Option.map_eq_some_iff.1 h
      exact ⟨trivial, trivial⟩
  · split_ifs at h <;>
    · obtain rfl := Option.some.inj h
      exact ⟨trivial, trivial⟩

theorem Message.Wf.setOpCode {m : Message} (h : m.Wf) (opCode : ℤ) :
    ({ m with opCode := opCode } : Message).Wf := h

theorem messageWire_decodes : messageWire.Decodes := by
  intro bytes m hunpack
  obtain ⟨rs, -, hfold⟩ := Option.bind_eq_some_iff.1 hunpack
  rw [← run_eq_foldlM] at hfold
  -- every record leaves the content of the message as it was, or sets one that was decoded
  have hcreate : messageCreate.Wf ∧ messageCreate.content.Known := ⟨trivial, trivial⟩
  refine run_invariant (P := fun m : Message => m.Wf ∧ m.content.Known)
    (fun s r s' hs hr => ?_) hcreate hfold
  unfold unpackRecord at hr
  split_ifs at hr
  · split at hr
    · rw [← Option.some.inj hr]
      exact ⟨hs.1.setOpCode _, hs.2⟩
    · exact absurd hr (by simp)
  · obtain ⟨content, hcontent, rfl⟩ := Option.map_eq_some_iff.1 hr
    exact unpackContent_decodes hcontent s.opCode
  · obtain rfl := Option.some.inj hr
    exact hs

/-! ## The copy -/

/-- **The copy is the message.** For every message that the client stub, `invoke` or
`message__unpack` produces, `Message_dup` returns a message with the same operation, the same
content case and equal content, which does the same to every tree and is received as the same
message. -/
theorem messageDup_faithful {codec : MessageCodec} (hcodec : codec.Decodes) {m : Message}
    (h : Produced codec m) : ∃ m', messageDup m = some m' ∧ CopyFaithful codec m m' := by
  have hcopyable : m.content.Copyable := by
    cases h with
    | stub hrequest => exact request_copyable hrequest
    | invoke hinvoke => exact invoke_copyable hinvoke
    | unpack hunpack =>
      obtain ⟨hwf, hk⟩ := hcodec _ _ hunpack
      exact copyable_of_wf hwf hk
  exact ⟨m, messageDup_of_copyable hcopyable, rfl, rfl, rfl, fun _ => rfl, rfl,
    fun hfaithful hm => hfaithful m hm⟩

theorem messageDup_faithful_put : ∃ m',
    messageDup ⟨opPut, .entry (entryToMsg (some entryK))⟩ = some m' ∧
      CopyFaithful messageWire ⟨opPut, .entry (entryToMsg (some entryK))⟩ m' :=
  messageDup_faithful messageWire_decodes (@Produced.stub _ (.put (some entryK)) _ rfl)

end ReplicatedTree
