import ReplicatedTree.ClientStub
import ReplicatedTree.Invoke
import ReplicatedTree.MessageWire
import ReplicatedTree.Replies

/-!
# The remote tree is the server's tree

A call of a stub function, from the bytes of its request over `invoke` to the result it reads
from the bytes of the response, for every call, every reachable state of the server and every
schedule of its worker. What the client gets is what the function of the same name says about
the server's tree or results; a write queues one task under a fresh id (`remote_tree_agrees`).
This holds as long as what is counted on the way is an `int`; with a request that has no `int`
size it ends (`rtreePut_tooLong`). How the bytes travel is the matter of `framing_lossless`.
-/

namespace ReplicatedTree

open Transition

/-! ## What a call should do -/

/-- The server took an id that no task had before, and queued one task under it. -/
structure QueuesTask (s s' : ServerState) (id : ℤ) (msg : Message) : Prop where
  fresh : id = s.writes.length
  assigned : s'.tasks.lastTaskIdAssigned = id
  queue : s'.tasks.tasksQueueHead = s.tasks.tasksQueueHead ++ [⟨id, msg⟩]
  results : s'.tasks.tasksResultsListHead = s.tasks.tasksResultsListHead

/-- A message that decodes to the entry. -/
def DecodesToEntry (msg : Message) (e : EntryT) : Prop :=
  msg.opCode = opPut ∧ ∃ em e', msg.content = .entry em ∧ msgToEntry em = some e' ∧
    e'.key = e.key ∧ SameValue e.value e'.value

/-- The result of a call is the one of the local function, on the state before the call; a
write is queued. -/
def RtreeCall.Agrees (s s' : ServerState) : (call : RtreeCall) → call.Result → Prop
  | put entry, result => ∃ e msg, entry = some e ∧ QueuesTask s s' result msg ∧
    DecodesToEntry msg e
  | del key, result => ∃ k msg, key = some k ∧ QueuesTask s s' result msg ∧
    msg = ⟨opDel, .key k⟩
  | get key, result => SameValue (treeGet s.tree key) result
  | size, result => result = treeSize s.tree
  | height, result => result = treeHeight s.tree
  | getKeys, result => ∃ keys, treeGetKeys s.tree = some keys ∧ result = some keys
  | verify opId, result => result = (tasksGetResult s.tasks opId).toInt

/-- The arguments are values of their C types: an entry's value is one that `data_create` can
make, and an id is an `int`. -/
def RtreeCall.Wf : RtreeCall → Prop
  | put entry => ∀ e ∈ entry, ∀ d ∈ e.value, d.Valid
  | verify opId => FitsInt32 opId
  | _ => True

/-- What a call counts is an `int`, which the code does not check for: the id of a task, and the
keys of the tree. -/
def RtreeCall.CountsFit (s : ServerState) : RtreeCall → Prop
  | put _ | del _ => s.tasks.lastTaskIdAssigned + 1 < 2 ^ 31
  | size | height => treeSize s.tree < 2 ^ 31
  | getKeys | get _ | verify _ => True

/-! ## Requests and responses on the wire -/

theorem Content.Equal.eq_of_ne {c c' : Content} (h : c.Equal c')
    (hvalue : ∀ v, c ≠ .value v) (hentry : ∀ e, c ≠ .entry e) : c' = c := by
  cases c with
  | value v => exact absurd rfl (hvalue v)
  | entry e => exact absurd rfl (hentry e)
  | _ => exact Eq.symm h

/-- The requests of the stub functions can be packed. -/
theorem RtreeCall.packable_request {call : RtreeCall} {request : Message} (hcall : call.Wf)
    (h : call.request = some request) : request.Packable := by
  cases call with
  | put entry =>
    obtain ⟨e, he, rfl⟩ := Option.map_eq_some_iff.1 h
    refine ⟨(by decide : FitsInt32 opPut), _, rfl, ?_⟩
    intro v hv
    obtain ⟨d, hd, rfl⟩ := Option.map_eq_some_iff.1 hv
    exact areParamsInvalid_copy (hcall e he d hd)
  | get key =>
    obtain ⟨k, -, rfl⟩ := Option.map_eq_some_iff.1 h
    exact ⟨(by decide : FitsInt32 opGet), trivial⟩
  | del key =>
    obtain ⟨k, -, rfl⟩ := Option.map_eq_some_iff.1 h
    exact ⟨(by decide : FitsInt32 opDel), trivial⟩
  | size | height | getKeys =>
    obtain rfl := Option.some.inj h
    exact ⟨by decide, trivial⟩
  | verify opId =>
    obtain rfl := Option.some.inj h
    exact ⟨(by decide : FitsInt32 opVerify), hcall⟩

/-- The frame of a packed message with an `int` size. -/
theorem sentBytes_eq {codec : MessageCodec} {m : Message} (h : (codec.pack m).length < 2 ^ 31) :
    sentBytes codec m = .ok (some (sizeBytes (codec.pack m).length ++ codec.pack m)) := by
  rw [sentBytes, messageToBuffer_eq h]
  rfl

/-- The frame is read back as the packed message. -/
theorem networkReceiveMessage_frame {codec : MessageCodec} {packed : List UInt8}
    (h : packed.length < 2 ^ 31) :
    networkReceiveMessage codec (sizeBytes packed.length ++ packed)
      = some ⟨codec.unpack packed⟩ := by
  have hbody : frameBody (sizeBytes packed.length ++ packed) = some packed := by
    rw [frameBody_append (length_sizeBytes _) (readSizeBytes_sizeBytes h), if_neg (by omega),
      Int.toNat_natCast, List.take_length]
  rw [networkReceiveMessage, hbody, Option.bind_some, bufferToMessage, if_neg (by omega)]

/-- An exchange in which the frame of a message comes back. -/
theorem exchangeBytes_frame {codec : MessageCodec}
    {respond : TreeServer → List UInt8 → Option (List UInt8)} {request : Message}
    {sent packed : List UInt8} (hsent : sentBytes codec request = .ok (some sent))
    (hpacked : packed.length < 2 ^ 31)
    (hrespond : ∀ server, respond server sent = some (sizeBytes packed.length ++ packed))
    (server : TreeServer) :
    exchangeBytes codec respond server request = .ok (some ⟨codec.unpack packed⟩) := by
  rw [exchangeBytes, hsent]
  show Except.ok ((respond server sent).bind (networkReceiveMessage codec)) = _
  rw [hrespond, Option.bind_some, networkReceiveMessage_frame hpacked]

/-- The keys of a message that arrived in a frame. -/
def Message.KeysCounted (m : Message) : Prop :=
  ∀ keys, m.content = .keys (some keys) → keys.keys.length < 2 ^ 31 - 1

theorem MessageCodec.KeysFit.counted {codec : MessageCodec} (hkeys : codec.KeysFit)
    {bytes : List UInt8} {m : Message} (h : codec.unpack bytes = some m)
    (hlen : bytes.length < 2 ^ 31) : m.KeysCounted := by
  intro keys hcontent
  have hfit := hkeys bytes m keys h hcontent
  omega

/-! ## What a server makes of each request -/

section Served

variable {s s' : ServerState} {log : TaskLog} {ks : List ℕ}

/-- The server answers a request with a response that can be packed, and what comes back of it
is read as the result the call should have. -/
def Serves (s s' : ServerState) (call : RtreeCall) (received : Message) : Prop :=
  ∀ response, invoke s.tree s.tasks received = some (s'.tasks, response) →
    response.Packable ∧ ∀ response', response.Equal response' → response'.KeysCounted →
      ∃ result, readResponse call.errorValue call.expected (some ⟨some response'⟩) = .ok result ∧
        call.Agrees s s' result

/-- A response with a number comes back as that number. -/
theorem readResponse_intResult {errorValue n : ℤ} {response' : Message} {opCode : ℤ}
    (hop : opCode ≠ opError) (h : Message.Equal ⟨opCode, .intResult n⟩ response') :
    readResponse errorValue expectIntResult (some ⟨some response'⟩) = .ok n := by
  obtain ⟨hcode, hcontent⟩ := h
  have hcontent := hcontent.eq_of_ne (by simp) (by simp)
  apply readResponse_expected (by rwa [← hcode])
  rw [hcontent]
  rfl

theorem readResponse_opId {errorValue n : ℤ} {response' : Message} {opCode : ℤ}
    (hop : opCode ≠ opError) (h : Message.Equal ⟨opCode, .opId n⟩ response') :
    readResponse errorValue expectOpId (some ⟨some response'⟩) = .ok n := by
  obtain ⟨hcode, hcontent⟩ := h
  have hcontent := hcontent.eq_of_ne (by simp) (by simp)
  apply readResponse_expected (by rwa [← hcode])
  rw [hcontent]
  rfl

theorem serves_size (hinv : ServerInv s log ks) (hsize : treeSize s.tree < 2 ^ 31) :
    Serves s s' .size ⟨opSize, .notSet⟩ := by
  intro response hresponse
  have hnonneg : 0 ≤ treeSize s.tree := by
    show 0 ≤ s.tree.size
    rw [hinv.tree_inv.size_eq]
    omega
  obtain ⟨-, rfl⟩ := Prod.mk.inj (Option.some.inj hresponse)
  refine ⟨⟨(by decide : FitsInt32 (opSize + 1)), ?_⟩, fun response' hequal _ => ?_⟩
  · show FitsInt32 (treeSize s.tree)
    unfold FitsInt32
    omega
  · exact ⟨treeSize s.tree, readResponse_intResult (by decide) hequal, rfl⟩

theorem serves_height (hinv : ServerInv s log ks) (hlt : treeSize s.tree < 2 ^ 31) :
    Serves s s' .height ⟨opHeight, .notSet⟩ := by
  intro response hresponse
  have hheight : treeHeight s.tree = (s.tree.root.height : ℤ) - 1 := hinv.tree_inv.height_eq
  have hsize : treeSize s.tree = s.tree.root.numNodes := hinv.tree_inv.size_eq
  have hle := s.tree.root.height_le_numNodes
  obtain ⟨-, rfl⟩ := Prod.mk.inj (Option.some.inj hresponse)
  refine ⟨⟨(by decide : FitsInt32 (opHeight + 1)), ?_⟩, fun response' hequal _ => ?_⟩
  · show FitsInt32 (treeHeight s.tree)
    unfold FitsInt32
    omega
  · exact ⟨treeHeight s.tree, readResponse_intResult (by decide) hequal, rfl⟩

theorem serves_verify (opId : ℤ) : Serves s s' (.verify opId) ⟨opVerify, .opId opId⟩ := by
  intro response hresponse
  obtain ⟨-, rfl⟩ := Prod.mk.inj (Option.some.inj hresponse)
  refine ⟨⟨(by decide : FitsInt32 (opVerify + 1)), ?_⟩, fun response' hequal _ => ?_⟩
  · show FitsInt32 (tasksGetResult s.tasks opId).toInt
    cases tasksGetResult s.tasks opId <;> decide
  · refine ⟨(tasksGetResult s.tasks opId).toInt, ?_, rfl⟩
    exact readResponse_intResult (by decide : opVerify + 1 ≠ opError) hequal

/-- The keys of a server's tree, none of which is NULL. -/
theorem exists_treeKeys (hinv : ServerInv s log ks) : ∃ keys : List CString,
    treeGetKeys s.tree = some (keyArray keys) := by
  obtain ⟨keys, hkeys⟩ := exists_keys fun e he => (hinv.tree_inv.stored e he).key_ne_null
  refine ⟨keys, ?_⟩
  rw [treeGetKeys_eq hinv.tree_inv, hkeys]
  rfl

theorem invoke_getKeys {keys : List CString} (hkeys : treeGetKeys s.tree = some (keyArray keys)) :
    invoke s.tree s.tasks ⟨opGetKeys, .notSet⟩
      = some (s.tasks, ⟨opGetKeys + 1, .keys (some ⟨keys⟩)⟩) := by
  have hread : invokeRead s.tree s.tasks ⟨opGetKeys, .notSet⟩
      = some ⟨opGetKeys + 1, .keys (some ⟨keys⟩)⟩ := by
    show (treeGetKeys s.tree).map _ = _
    rw [hkeys, Option.map_some, keysToMsg, Option.map_some, strArrCopy_keyArray]
  rw [invoke, invoke2, if_neg (by decide), hread]
  rfl

theorem serves_getKeys (hinv : ServerInv s log ks) :
    Serves s s' .getKeys ⟨opGetKeys, .notSet⟩ := by
  intro response hresponse
  obtain ⟨keys, hkeys⟩ := exists_treeKeys hinv
  have hreply := (invoke_getKeys hkeys).symm.trans hresponse
  obtain ⟨-, rfl⟩ := Prod.mk.inj (Option.some.inj hreply)
  refine ⟨⟨(by decide : FitsInt32 (opGetKeys + 1)), rfl⟩, fun response' hequal hcounted => ?_⟩
  obtain ⟨hcode, hcontent⟩ := hequal
  have hcontent := hcontent.eq_of_ne (by simp) (by simp)
  refine ⟨some (keyArray keys), ?_, keyArray keys, hkeys, rfl⟩
  apply readResponse_expected (hcode ▸ (by decide : opGetKeys + 1 ≠ opError))
  rw [hcontent]
  show some (msgToKeys (some ⟨keys⟩)) = _
  rw [msgToKeys_some (hcounted ⟨keys⟩ hcontent)]

/-- A lookup answers with a valid value. -/
theorem exists_treeGet (hinv : ServerInv s log ks) (k : Option CString) :
    ∃ d, treeGet s.tree k = some d ∧ d.Valid := by
  have h := hinv.tree_inv
  rw [treeGet_eq h]
  refine ⟨_, rfl, ?_⟩
  cases hlookup : SearchTree.lookup EntryT.orderKey (keyOrder k) s.tree.root with
  | none => exact (by decide : emptyData.Valid)
  | some e =>
    have hmem := ((SearchTree.lookup_eq_some_iff h.orderKey).1 hlookup).1
    obtain ⟨d, hd, hvalid⟩ := (h.stored e hmem).value_valid
    rw [Option.bind_some, hd]
    exact hvalid

theorem serves_get (hinv : ServerInv s log ks) (k : CString) :
    Serves s s' (.get (some k)) ⟨opGet, .key k⟩ := by
  intro response hresponse
  obtain ⟨d, hd, hvalid⟩ := exists_treeGet hinv (some k)
  have hinvoke : invoke s.tree s.tasks ⟨opGet, .key k⟩
      = some (s.tasks, ⟨opGet + 1, .value (some (dataMessage d))⟩) := by
    have hread : invokeRead s.tree s.tasks ⟨opGet, .key k⟩
        = some ⟨opGet + 1, .value (some (dataMessage d))⟩ := by
      show some (invokeTreeGet s.tree ⟨opGet, .key k⟩ k) = _
      rw [invokeTreeGet, hd]
      rfl
    have hw : ¬ Message.IsWrite ⟨opGet, .key k⟩ := by
      show ¬ Handler.treeGet k = Handler.writeOperation
      simp
    rw [invoke, invoke2, if_neg hw, hread]
    rfl
  obtain ⟨-, rfl⟩ := Prod.mk.inj (Option.some.inj (hinvoke.symm.trans hresponse))
  refine ⟨⟨(by decide : FitsInt32 (opGet + 1)), _, rfl, areParamsInvalid_copy hvalid⟩, ?_⟩
  intro response' hequal _
  obtain ⟨op', content'⟩ := response'
  obtain ⟨hcode, hcontent⟩ := hequal
  have hcode : opGet + 1 = op' := hcode
  -- the value that comes back
  have hvalue : ∃ v, content' = .value (some v) ∧ d.datasize = v.len ∧
      (dataMessage d).bytes = v.bytes := by
    cases content' with
    | value v =>
      cases v with
      | some v => exact ⟨v, rfl, hcontent⟩
      | none => exact absurd hcontent (by simp [Content.Equal])
    | _ => exact absurd hcontent (by simp [Content.Equal])
  obtain ⟨v, rfl, hlen, hbytes⟩ := hvalue
  obtain ⟨d', hd', -, hsame⟩ := msgToData_of_bytes hvalid hlen hbytes
  refine ⟨some d', ?_, ?_⟩
  · apply readResponse_expected (hcode ▸ (by decide : opGet + 1 ≠ opError))
    show some (Except.ok (msgToData (some v))) = _
    rw [hd']
  · show SameValue (treeGet s.tree (some k)) (some d')
    rw [hd]
    exact hsame

/-- What `invoke` makes of a write. -/
theorem invoke_write (hinv : ServerInv s log ks) (hidle : s.request = .idle) {m : Message}
    (hw : m.IsWrite) (hwf : m.Wf) {response : Message}
    (hresponse : invoke s.tree s.tasks m = some (s'.tasks, response)) :
    response = ⟨m.opCode + 1, .opId s.writes.length⟩ ∧ QueuesTask s s' s.writes.length m := by
  have htasks : s.tasks.Refines log := by
    have htasks := hinv.tasks
    rw [hidle] at htasks
    exact htasks
  have hid : s.tasks.lastTaskIdAssigned + 1 = s.writes.length := by
    rw [htasks.last_eq, hinv.writes_eq]
    omega
  have hadd : tasksAddTask s.tasks (some m) = (tasksEnqueue
      { s.tasks with lastTaskIdAssigned := s.writes.length } ⟨s.writes.length, m⟩,
        (s.writes.length : ℤ)) := by
    simp only [tasksAddTask, taskCreate, messageDup_of_known hwf hw.known, Option.map_some, hid]
  have hinvoke : invoke s.tree s.tasks m = some (tasksEnqueue
      { s.tasks with lastTaskIdAssigned := s.writes.length } ⟨s.writes.length, m⟩,
        ⟨m.opCode + 1, .opId s.writes.length⟩) := by
    rw [invoke, invoke2, if_pos hw, hadd]
    simp only [Option.map_some, writeResponse, finishResponse, if_neg (opCode_ne_of_isWrite hw)]
  obtain ⟨htasks', rfl⟩ := Prod.mk.inj (Option.some.inj (hinvoke.symm.trans hresponse))
  refine ⟨rfl, rfl, ?_, ?_, ?_⟩ <;> rw [← htasks'] <;> rfl

/-- The id of a write, on its way back. -/
theorem packable_opId (hinv : ServerInv s log ks) (hidle : s.request = .idle)
    (hids : s.tasks.lastTaskIdAssigned + 1 < 2 ^ 31) {opCode : ℤ} (hop : FitsInt32 opCode) :
    Message.Packable ⟨opCode, .opId s.writes.length⟩ := by
  have htasks := hinv.tasks
  rw [hidle] at htasks
  have hlast : s.tasks.lastTaskIdAssigned = (log.accepted.length : ℤ) - 1 := htasks.last_eq
  refine ⟨hop, ?_⟩
  show FitsInt32 (s.writes.length : ℤ)
  rw [hinv.writes_eq]
  unfold FitsInt32
  omega

theorem serves_del (hinv : ServerInv s log ks) (hidle : s.request = .idle)
    (hids : s.tasks.lastTaskIdAssigned + 1 < 2 ^ 31) (k : CString) :
    Serves s s' (.del (some k)) ⟨opDel, .key k⟩ := by
  intro response hresponse
  have hw : Message.IsWrite ⟨opDel, .key k⟩ := (isWrite_iff _).2 (Or.inl ⟨rfl, k, rfl⟩)
  obtain ⟨rfl, hqueues⟩ := invoke_write hinv hidle hw trivial hresponse
  refine ⟨packable_opId hinv hidle hids (by decide : FitsInt32 (opDel + 1)), ?_⟩
  intro response' hequal _
  refine ⟨(s.writes.length : ℤ), readResponse_opId (by decide : opDel + 1 ≠ opError) hequal, ?_⟩
  exact ⟨k, _, rfl, hqueues, rfl⟩

/-- The entry that was packed comes back. -/
theorem decodesToEntry {e : EntryT} (hvalid : ∀ d ∈ e.value, d.Valid) {em : EntryMessage}
    (h : (entryMessage e).Equal em) : DecodesToEntry ⟨opPut, .entry (some em)⟩ e := by
  obtain ⟨key, value⟩ := e
  obtain ⟨key', value'⟩ := em
  obtain ⟨hkey, hsome, hvalue⟩ := h
  have hkey : stringToMsg key = key' := hkey
  have hsome : (dataToMsg value).isSome = value'.isSome := hsome
  refine ⟨rfl, _, _, rfl, rfl, ?_, ?_⟩
  · show msgToString key' = key
    rw [← hkey]
    cases key <;> rfl
  · show SameValue value (msgToData value')
    cases value with
    | none =>
      cases value' with
      | none => trivial
      | some v => exact absurd hsome (by simp [dataToMsg])
    | some d =>
      have hd : d.Valid := hvalid d rfl
      cases value' with
      | none => exact absurd hsome (by simp [dataToMsg])
      | some v =>
        obtain ⟨hlen, hbytes⟩ := hvalue (dataMessage d) rfl v rfl
        obtain ⟨d', hd', -, hsame⟩ := msgToData_of_bytes hd hlen hbytes
        rw [hd']
        exact hsame

theorem serves_put (hinv : ServerInv s log ks) (hidle : s.request = .idle)
    (hids : s.tasks.lastTaskIdAssigned + 1 < 2 ^ 31) {e : EntryT}
    (hvalid : ∀ d ∈ e.value, d.Valid) {em : EntryMessage}
    (hequal : (entryMessage e).Equal em) (hwf : Message.Wf ⟨opPut, .entry (some em)⟩) :
    Serves s s' (.put (some e)) ⟨opPut, .entry (some em)⟩ := by
  intro response hresponse
  have hw : Message.IsWrite ⟨opPut, .entry (some em)⟩ :=
    (isWrite_iff _).2 (Or.inr ⟨rfl, some em, rfl⟩)
  obtain ⟨rfl, hqueues⟩ := invoke_write hinv hidle hw hwf hresponse
  refine ⟨packable_opId hinv hidle hids (by decide : FitsInt32 (opPut + 1)), ?_⟩
  intro response' hequal' _
  refine ⟨(s.writes.length : ℤ), readResponse_opId (by decide : opPut + 1 ≠ opError) hequal', ?_⟩
  exact ⟨e, _, rfl, hqueues, decodesToEntry hvalid hequal⟩

/-- The seven cases. -/
theorem serves_request (hinv : ServerInv s log ks) (hidle : s.request = .idle)
    {call : RtreeCall} (hcall : call.Wf) (hfits : call.CountsFit s) {request received : Message}
    (hrequest : call.request = some request) (hequal : request.Equal received)
    (hwf : received.Wf) : Serves s s' call received := by
  obtain ⟨op, content⟩ := received
  obtain ⟨hcode, hcontent⟩ := hequal
  cases call with
  | put entry =>
    obtain ⟨e, rfl, rfl⟩ := Option.map_eq_some_iff.1 hrequest
    obtain rfl : opPut = op := hcode
    cases content with
    | entry em =>
      cases em with
      | some em => exact serves_put hinv hidle hfits (hcall e rfl) hcontent hwf
      | none => exact absurd hcontent (by simp [Content.Equal, entryToMsg])
    | _ => exact absurd hcontent (by simp [Content.Equal, entryToMsg])
  | get key =>
    obtain ⟨k, rfl, rfl⟩ := Option.map_eq_some_iff.1 hrequest
    obtain rfl : opGet = op := hcode
    obtain rfl := hcontent.eq_of_ne (by simp) (by simp)
    exact serves_get hinv k
  | del key =>
    obtain ⟨k, rfl, rfl⟩ := Option.map_eq_some_iff.1 hrequest
    obtain rfl : opDel = op := hcode
    obtain rfl := hcontent.eq_of_ne (by simp) (by simp)
    exact serves_del hinv hidle hfits k
  | size =>
    obtain rfl := Option.some.inj hrequest
    obtain rfl : opSize = op := hcode
    obtain rfl := hcontent.eq_of_ne (by simp) (by simp)
    exact serves_size hinv hfits
  | height =>
    obtain rfl := Option.some.inj hrequest
    obtain rfl : opHeight = op := hcode
    obtain rfl := hcontent.eq_of_ne (by simp) (by simp)
    exact serves_height hinv hfits
  | getKeys =>
    obtain rfl := Option.some.inj hrequest
    obtain rfl : opGetKeys = op := hcode
    obtain rfl := hcontent.eq_of_ne (by simp) (by simp)
    exact serves_getKeys hinv
  | verify opId =>
    obtain rfl := Option.some.inj hrequest
    obtain rfl : opVerify = op := hcode
    obtain rfl := hcontent.eq_of_ne (by simp) (by simp)
    exact serves_verify opId

end Served

/-! ## The whole exchange -/

/-- **The remote tree agrees with the local one.** For a server in any state it can reach, the
bytes of a request arrive as a request that `invoke` takes; a server whose lock is free answers
it; and however its worker interferes, there is one answer, and what the stub function reads
from its bytes is what the local function returns. -/
theorem remote_tree_agrees {codec : MessageCodec} (hcodec : codec.Faithful)
    (hkeys : codec.KeysFit) {actions : List ServerAction} {s : ServerState}
    (hrun : run serverStep treeSkelInit actions = some s) {call : RtreeCall} (hcall : call.Wf)
    (hfits : call.CountsFit s) {request : Message} (hrequest : call.request = some request)
    (hsize : (codec.pack request).length < 2 ^ 31) :
    ∃ (sent : List UInt8) (received : Request), sentBytes codec request = .ok (some sent) ∧
      networkReceiveMessage codec sent = some ⟨some received.1⟩ ∧
      (s.Ready → ∃ s', InvokeRun s received s') ∧
      ∀ s', InvokeRun s received s' → s'.tree = s.tree ∧ ∃ response,
        s'.answers = s.answers ++ [(received.1, response)] ∧
        ((codec.pack response).length < 2 ^ 31 → ∃ reply result,
          sentBytes codec response = .ok (some reply) ∧
          (∀ respond, (∀ server, respond server sent = some reply) →
            call.run (exchangeBytes codec respond) = .ok result) ∧
          call.Agrees s s' result) := by
  obtain ⟨log, ks, hinv⟩ := serverInv_of_run hrun
  have hpack := RtreeCall.packable_request hcall hrequest
  obtain ⟨received, hreceived, hequal⟩ := hcodec request hpack
  have hwf := hequal.wf hpack
  have hsent := sentBytes_eq hsize
  refine ⟨_, ⟨received, hwf⟩, hsent, ?_, fun hready => exists_invokeRun hinv hready _, ?_⟩
  · rw [networkReceiveMessage_frame hsize, hreceived]
  intro s' hinvoke
  obtain ⟨htree, response, hresponse, hanswers⟩ := invoke_atomic ⟨log, ks, hinv⟩ hinvoke
  refine ⟨htree, response, hanswers, fun hreply => ?_⟩
  have hserves := serves_request hinv hinvoke.idle hcall hfits hrequest hequal hwf.1
    response hresponse
  obtain ⟨hpacked, hread⟩ := hserves
  obtain ⟨response', hresponse', hequal'⟩ := hcodec response hpacked
  obtain ⟨result, hresult, hagrees⟩ := hread response' hequal' (hkeys.counted hresponse' hreply)
  refine ⟨_, result, sentBytes_eq hreply, fun respond hrespond => ?_, hagrees⟩
  rw [RtreeCall.run_response hrequest (exchangeBytes_frame hsent hreply hrespond), hresponse']
  exact hresult

/-- The keys of the two entries a server has stored come back to the client. -/
theorem remote_tree_agrees_getKeys : ∃ s s' received response reply result,
    run serverStep treeSkelInit twoWrites = some s ∧ treeSize s.tree = 2 ∧
      InvokeRun s received s' ∧ s'.answers = s.answers ++ [(received.1, response)] ∧
      sentBytes messageWire response = .ok (some reply) ∧
      RtreeCall.getKeys.run (exchangeBytes messageWire fun _ _ => some reply) = .ok result ∧
      RtreeCall.getKeys.Agrees s s' result := by
  have hreach : ∃ s ∈ run serverStep treeSkelInit twoWrites, (s.exited = false ∧
      s.request = .idle ∧ s.treeLock = none) ∧ treeSize s.tree = 2 ∧
      (invoke s.tree s.tasks ⟨opGetKeys, .notSet⟩).map Prod.snd
        = some ⟨opGetKeys + 1, .keys (some ⟨[⟨[107], nul_notMem_k⟩, ⟨[108], by decide⟩]⟩)⟩ := by
    decide +kernel
  obtain ⟨s, hrun, hready, hsize, hkeys⟩ := hreach
  obtain ⟨sent, received, hsent, hreceived, hexists, hall⟩ := @remote_tree_agrees messageWire
    messageWire_faithful messageWire_keysFit _ s hrun .getKeys trivial trivial _ rfl
    (by decide +kernel)
  obtain ⟨s', hinvoke⟩ := hexists ⟨hready.1, hready.2.1, hready.2.2⟩
  obtain ⟨-, response, hanswers, hreply⟩ := hall s' hinvoke
  -- the response is the one of `invoke` to the request that arrived
  have hrequest : received.1 = ⟨opGetKeys, .notSet⟩ := by
    have hbytes : sentBytes messageWire ⟨opGetKeys, .notSet⟩ = .ok (some [0, 0, 0, 2, 8, 50]) := by
      decide +kernel
    obtain rfl := Option.some.inj (Except.ok.inj (hbytes.symm.trans hsent))
    have hmessage : networkReceiveMessage messageWire [0, 0, 0, 2, 8, 50]
        = some ⟨some ⟨opGetKeys, .notSet⟩⟩ := by
      decide +kernel
    exact Option.some.inj (MessageT.mk.inj (Option.some.inj (hreceived.symm.trans hmessage)))
  obtain ⟨log, ks, hinv⟩ := serverInv_of_run hrun
  obtain ⟨-, response', hresponse, hanswers'⟩ := invoke_atomic ⟨log, ks, hinv⟩ hinvoke
  rw [hrequest] at hresponse
  rw [hresponse] at hkeys
  have hlast := List.append_cancel_left (hanswers.symm.trans hanswers')
  obtain rfl : response = response' := by simpa using hlast
  obtain rfl : response = _ := Option.some.inj hkeys
  have hsmall : (messageWire.pack ⟨opGetKeys + 1,
      .keys (some ⟨[⟨[107], nul_notMem_k⟩, ⟨[108], by decide⟩]⟩)⟩).length < 2 ^ 31 := by
    decide +kernel
  obtain ⟨reply, result, hsent', hresult, hagrees⟩ := hreply hsmall
  exact ⟨s, s', received, _, reply, result, hrun, hsize, hinvoke, hanswers, hsent',
    hresult _ fun _ => rfl, hagrees⟩

/-- A value of 2^31 - 1 bytes: the packed request has no `int` size, so that the client sends
nothing, and no server gives the write an id. -/
theorem rtreePut_tooLong : messageWire.Faithful ∧ messageWire.KeysFit ∧
    ∃ (k : CString) (d : DataT), d.Valid ∧ d.datasize = 2 ^ 31 - 1 ∧
      (∀ respond, (RtreeCall.put (some ⟨some k, some d⟩)).run (exchangeBytes messageWire respond)
        = .ok (-1 : ℤ)) ∧
      ∀ s s', ¬ (RtreeCall.put (some ⟨some k, some d⟩)).Agrees s s' (-1 : ℤ) := by
  obtain ⟨d, hd, hsize⟩ := exists_value (2 ^ 31 - 1)
  have hlong : d.datasize = 2 ^ 31 - 1 := by rw [hsize]; rfl
  have hk : (⟨[107], by decide⟩ : CString).bytes.length = 1 := rfl
  have hlength := length_packMessage_put (k := ⟨[107], by decide⟩) hd (by omega)
  have hnone : sentBytes messageWire ⟨opPut, .entry (entryToMsg (some ⟨some ⟨[107], by decide⟩,
      some d⟩))⟩ = .ok none := by
    rw [sentBytes, messageToBuffer_tooLong]
    · rfl
    · exact le_trans (by omega) hlength.1
    · exact lt_of_le_of_lt hlength.2 (by omega)
  refine ⟨messageWire_faithful, messageWire_keysFit, ⟨[107], by decide⟩, d, hd, hlong, ?_, ?_⟩
  · intro respond
    have hexchange : ∀ server, exchangeBytes messageWire respond server
        ⟨opPut, .entry (entryToMsg (some ⟨some ⟨[107], by decide⟩, some d⟩))⟩ = .ok none := by
      intro server
      rw [exchangeBytes, hnone]
      rfl
    rw [RtreeCall.run_response rfl hexchange]
    rfl
  · rintro s s' ⟨e, msg, -, hqueues, -⟩
    have hid := hqueues.fresh
    omega

end ReplicatedTree
